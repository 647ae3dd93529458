import Kairix.MachineWord
import Kairix.DyadicBlock
import Kairix.PanicOutcome

/-!
# The physical frame allocator

Physical pages are named by their page numbers.  Each memory range hands out
its pages in order; pages given back are kept in buddy lists, one for every
order, whose links are stored in the first words of the free pages themselves.
A panic of the kernel is an error of the `Except` result.
-/

namespace Kairix.Frame

open DyadicBlock PanicOutcome List Function

inductive FramePanic where
  | tooManyRegions
  | stateOutsideMemory
  | stateRangeOutsideMemory
  | stateRangeOverflow
  | stateRangeCrossesRegion
  | corruptNode
  | headMismatch
  | previousLinkMismatch
  | nextLinkMismatch
  | notAllocated
  | alreadyFreed
  deriving DecidableEq, Repr

/-- A contiguous range of managed pages.  Pages from `current` on were never
handed out. -/
structure FrameRange where
  start : ℕ
  current : ℕ
  stop : ℕ
  metadataStart : ℕ
  deriving DecidableEq, Repr

/-- The four words which a free block keeps at the start of its first page. -/
structure BuddyNode where
  previous : ℕ
  next : ℕ
  order : ℕ
  checksum : BitVec 64
  deriving DecidableEq, Repr

structure FrameExtent where
  start : ℕ
  pages : ℕ
  deriving DecidableEq, Repr

def memVectorCapacity : ℕ := 32

def buddyListEnd : ℕ := usizeLimit - 1

def buddyLinkCookie : BitVec 64 := 0xd6e8feb86659fd93#64

def frameBuddyOrders : ℕ := 32

def frameStateAllocated : ℕ := 255

def frameStateFreeInterior : ℕ := 254

def frameStateCpuCached : ℕ := 253

def frameStateAnonZeroed : ℕ := 252

/-- The allocator together with the link words held by the physical pages. -/
structure BuddyFrameAllocator where
  ranges : List FrameRange
  buddyHeads : ℕ → ℕ
  frameStates : ℕ → ℕ
  frameStateCount : ℕ
  recycledCount : ℕ
  nodes : ℕ → BuddyNode

namespace BuddyFrameAllocator

def new (nodes : ℕ → BuddyNode) : BuddyFrameAllocator where
  ranges := []
  buddyHeads := fun _ => buddyListEnd
  frameStates := fun _ => frameStateAllocated
  frameStateCount := 0
  recycledCount := 0
  nodes := nodes

variable (self : BuddyFrameAllocator) (ppn : ℕ)

def addRange (l r : ℕ) : Except FramePanic BuddyFrameAllocator :=
  if r ≤ l then .ok self
  else if memVectorCapacity ≤ self.ranges.length then .error .tooManyRegions
  else .ok { self with
    ranges := self.ranges ++ [⟨l, l, r, self.frameStateCount⟩]
    frameStates := fun index =>
      if self.frameStateCount ≤ index ∧ index < self.frameStateCount + (r - l)
        then frameStateAllocated else self.frameStates index
    frameStateCount := self.frameStateCount + (r - l) }

def containsPpn : Bool :=
  self.ranges.any fun range => range.start ≤ ppn && ppn < range.stop

def allocatedPpn : Bool :=
  self.ranges.any fun range => range.start ≤ ppn && ppn < range.current

def rangeForPpn : Option FrameRange :=
  self.ranges.find? fun range => range.start ≤ ppn && ppn < range.stop

def frameStateIndex : Option ℕ :=
  (self.rangeForPpn ppn).map fun range => range.metadataStart + ppn - range.start

def frameState : Option ℕ :=
  (self.frameStateIndex ppn).map self.frameStates

def setFrameState (ppn state : ℕ) : Except FramePanic BuddyFrameAllocator :=
  match self.frameStateIndex ppn with
  | none => .error .stateOutsideMemory
  | some index =>
    .ok { self with frameStates := update self.frameStates index state }

def fillFrameStates (start pages state : ℕ) : Except FramePanic BuddyFrameAllocator :=
  if pages = 0 then .ok self
  else match self.rangeForPpn start with
    | none => .error .stateRangeOutsideMemory
    | some range =>
      if usizeLimit ≤ start + pages then .error .stateRangeOverflow
      else if range.stop < start + pages then .error .stateRangeCrossesRegion
      else
        let metadataStart := range.metadataStart + start - range.start
        .ok { self with
          frameStates := fun index =>
            if metadataStart ≤ index ∧ index < metadataStart + pages
              then state else self.frameStates index }

def buddyLinkChecksum (ppn previous next order : ℕ) : BitVec 64 :=
  (BitVec.ofNat 64 previous).rotateLeft 11 ^^^
    (BitVec.ofNat 64 next).rotateLeft 23 ^^^
    (BitVec.ofNat 64 ppn).rotateLeft 7 ^^^
    (BitVec.ofNat 64 order).rotateLeft 3 ^^^ buddyLinkCookie

def buddyNode (ppn previous next order : ℕ) : BuddyNode :=
  ⟨previous, next, order, buddyLinkChecksum ppn previous next order⟩

def writeBuddyNode (ppn previous next order : ℕ) : BuddyFrameAllocator :=
  { self with
    nodes := update self.nodes ppn (buddyNode ppn previous next order) }

def blockWithinAllocatedRange (ppn order : ℕ) : Bool :=
  match self.rangeForPpn ppn with
  | none => false
  | some range =>
    range.start ≤ ppn && ppn % 2 ^ order == 0 &&
      (ppn + 2 ^ order < usizeLimit && ppn + 2 ^ order ≤ range.current)

def neighbourValid (ppn order : ℕ) : Bool :=
  ppn == buddyListEnd ||
    (self.blockWithinAllocatedRange ppn order && self.frameState ppn == some order)

def readBuddyNode (ppn expectedOrder : ℕ) : Except FramePanic (ℕ × ℕ) :=
  let node := self.nodes ppn
  if node.order = expectedOrder ∧
      node.checksum = buddyLinkChecksum ppn node.previous node.next node.order ∧
      self.frameState ppn = some expectedOrder ∧
      self.neighbourValid node.previous expectedOrder = true ∧
      self.neighbourValid node.next expectedOrder = true then
    .ok (node.previous, node.next)
  else .error .corruptNode

def buddyPush (ppn order : ℕ) : Except FramePanic BuddyFrameAllocator := do
  let head := self.buddyHeads order
  let marked ← self.setFrameState ppn order
  let placed := marked.writeBuddyNode ppn buddyListEnd head order
  let linked ←
    if head = buddyListEnd then .ok placed
    else do
      let links ← placed.readBuddyNode head order
      .ok (placed.writeBuddyNode head ppn links.2 order)
  .ok { linked with
    buddyHeads := update linked.buddyHeads order ppn
    recycledCount := linked.recycledCount + 2 ^ order }

def unlinkPrevious (ppn order previous next : ℕ) : Except FramePanic BuddyFrameAllocator :=
  if previous = buddyListEnd then
    if self.buddyHeads order = ppn then
      .ok { self with buddyHeads := update self.buddyHeads order next }
    else .error .headMismatch
  else do
    let links ← self.readBuddyNode previous order
    if links.2 = ppn then .ok (self.writeBuddyNode previous links.1 next order)
    else .error .previousLinkMismatch

def unlinkNext (ppn order previous next : ℕ) : Except FramePanic BuddyFrameAllocator :=
  if next = buddyListEnd then .ok self
  else do
    let links ← self.readBuddyNode next order
    if links.1 = ppn then .ok (self.writeBuddyNode next previous links.2 order)
    else .error .nextLinkMismatch

def buddyRemove (ppn order : ℕ) : Except FramePanic BuddyFrameAllocator := do
  let links ← self.readBuddyNode ppn order
  let behind ← self.unlinkPrevious ppn order links.1 links.2
  let ahead ← behind.unlinkNext ppn order links.1 links.2
  let unmarked ← ahead.setFrameState ppn frameStateFreeInterior
  .ok { unmarked with recycledCount := unmarked.recycledCount - 2 ^ order }

/-- The merging loop, entered with `31 - order` rounds left. -/
def insertBuddyBlockLoop :
    (rounds : ℕ) → (self : BuddyFrameAllocator) → (ppn order : ℕ) →
      Except FramePanic BuddyFrameAllocator
  | 0, self, ppn, order => self.buddyPush ppn order
  | rounds + 1, self, ppn, order =>
    let buddy := ppn ^^^ 2 ^ order
    if self.blockWithinAllocatedRange buddy order = true ∧
        self.frameState buddy = some order then do
      let removed ← self.buddyRemove buddy order
      insertBuddyBlockLoop rounds removed (min ppn buddy) (order + 1)
    else self.buddyPush ppn order

def insertBuddyBlock (ppn order : ℕ) : Except FramePanic BuddyFrameAllocator :=
  insertBuddyBlockLoop (frameBuddyOrders - 1 - order) self ppn order

def recycledOrder (current stop : ℕ) : ℕ :=
  min (min (Nat.log2 (stop - current))
    (if current = 0 then frameBuddyOrders - 1 else trailingZeros 64 current))
    (frameBuddyOrders - 1)

/-- The loop over `[current, stop)`.  Every round places at least one page, so
`stop - current` rounds are enough. -/
def insertRecycledLoop :
    (rounds : ℕ) → (self : BuddyFrameAllocator) → (current stop : ℕ) →
      Except FramePanic BuddyFrameAllocator
  | 0, self, _, _ => .ok self
  | rounds + 1, self, current, stop =>
    if current < stop then do
      let order := recycledOrder current stop
      let inserted ← self.insertBuddyBlock current order
      insertRecycledLoop rounds inserted (current + 2 ^ order) stop
    else .ok self

def insertRecycledRange (start stop : ℕ) : Except FramePanic BuddyFrameAllocator :=
  if stop ≤ start then .ok self
  else do
    let filled ← self.fillFrameStates start (stop - start) frameStateFreeInterior
    insertRecycledLoop (stop - start) filled start stop

def deallocBuddy : Except FramePanic BuddyFrameAllocator :=
  if self.containsPpn ppn = false ∨ self.allocatedPpn ppn = false then
    .error .notAllocated
  else if self.frameState ppn = some frameStateAllocated ∨
      self.frameState ppn = some frameStateCpuCached then do
    let freed ← self.setFrameState ppn frameStateFreeInterior
    freed.insertBuddyBlock ppn 0
  else .error .alreadyFreed

/-- Give back the upper halves of a block until `targetOrder` is left. -/
def splitBlock (targetOrder ppn : ℕ) :
    (order : ℕ) → (self : BuddyFrameAllocator) → Except FramePanic BuddyFrameAllocator
  | 0, self => .ok self
  | order + 1, self =>
    if targetOrder < order + 1 then do
      let inserted ← self.insertBuddyBlock (ppn + 2 ^ order) order
      splitBlock targetOrder ppn order inserted
    else .ok self

def sourceOrder (targetOrder : ℕ) : Option ℕ :=
  (range' targetOrder (frameBuddyOrders - targetOrder)).find?
    fun order => self.buddyHeads order != buddyListEnd

def allocBuddyPowerOfTwo (targetOrder : ℕ) : Except FramePanic (BuddyFrameAllocator × Option ℕ) :=
  match self.sourceOrder targetOrder with
  | none => .ok (self, none)
  | some order => do
      let ppn := self.buddyHeads order
      let removed ← self.buddyRemove ppn order
      let split ← splitBlock targetOrder ppn order removed
      let filled ← split.fillFrameStates ppn (2 ^ targetOrder) frameStateAllocated
      .ok (filled, some ppn)

/-! ## Allocation -/

def isPowerOfTwo (value : ℕ) : Bool :=
  2 ^ Nat.log2 value == value

/-- Clearing the low bits of `ppn + (alignPages - 1)`, with `alignPages` a
power of two. -/
def alignUpPpn (ppn alignPages : ℕ) : Option ℕ :=
  if ppn + (alignPages - 1) < usizeLimit then
    some ((ppn + (alignPages - 1)) / alignPages * alignPages)
  else none

/-- The first range with room, and the page number where the extent starts. -/
def findFresh (pages alignPages : ℕ) : List FrameRange → ℕ → Option (ℕ × ℕ)
  | [], _ => none
  | range :: rest, index =>
    match alignUpPpn range.current alignPages with
    | none => none
    | some base =>
      if usizeLimit ≤ base + pages then none
      else if range.stop < base + pages then
        findFresh pages alignPages rest (index + 1)
      else some (index, base)

def setCurrent (index current : ℕ) : BuddyFrameAllocator :=
  { self with
    ranges := self.ranges.modify index fun range => { range with current := current } }

def rangeCurrent (index : ℕ) : ℕ :=
  (self.ranges[index]?.map FrameRange.current).getD 0

def allocFreshContiguous (pages alignPages : ℕ) : Except FramePanic
    (BuddyFrameAllocator × Option FrameExtent) :=
  match findFresh pages alignPages self.ranges 0 with
  | none => .ok (self, none)
  | some (index, base) => do
      let inserted ← (self.setCurrent index (base + pages)).insertRecycledRange
        (self.rangeCurrent index) base
      .ok (inserted, some ⟨base, pages⟩)

def allocRecycledContiguous (pages alignPages : ℕ) : Except FramePanic
    (BuddyFrameAllocator × Option FrameExtent) :=
  match checkedNextPowerOfTwo pages with
  | none => .ok (self, none)
  | some power =>
    let blockPages := max power alignPages
    let order := trailingZeros 64 blockPages
    if frameBuddyOrders ≤ order then .ok (self, none)
    else do
      let taken ← self.allocBuddyPowerOfTwo order
      match taken.2 with
      | none => .ok (taken.1, none)
      | some start => do
          let inserted ← taken.1.insertRecycledRange (start + pages) (start + blockPages)
          .ok (inserted, some ⟨start, pages⟩)

def freshIndex : Option ℕ :=
  self.ranges.findIdx? fun range => range.current < range.stop

def alloc : Except FramePanic (BuddyFrameAllocator × Option ℕ) := do
  let taken ← self.allocBuddyPowerOfTwo 0
  match taken.2 with
  | some ppn => .ok (taken.1, some ppn)
  | none =>
    match taken.1.freshIndex with
    | none => .ok (taken.1, none)
    | some index =>
      let current := taken.1.rangeCurrent index
      .ok (taken.1.setCurrent index (current + 1), some current)

def allocContiguous (pages alignPages : ℕ) : Except FramePanic
    (BuddyFrameAllocator × Option FrameExtent) :=
  if isPowerOfTwo alignPages = false then .ok (self, none)
  else if pages = 0 then .ok (self, some ⟨0, 0⟩)
  else if pages = 1 ∧ alignPages = 1 then do
    let taken ← self.alloc
    .ok (taken.1, taken.2.map fun start => ⟨start, pages⟩)
  else do
    let fresh ← self.allocFreshContiguous pages alignPages
    match fresh.2 with
    | some extent => .ok (fresh.1, some extent)
    | none => fresh.1.allocRecycledContiguous pages alignPages

def dealloc : Except FramePanic BuddyFrameAllocator :=
  self.deallocBuddy ppn

end BuddyFrameAllocator

/-! ## Ranges -/

def pageNumberLimit : ℕ := 2 ^ 52

def FrameRange.Apart (first second : FrameRange) : Prop :=
  (first.stop ≤ second.start ∨ second.stop ≤ first.start) ∧
    (first.metadataStart + (first.stop - first.start) ≤ second.metadataStart ∨
      second.metadataStart + (second.stop - second.start) ≤ first.metadataStart)

instance : Std.Symm FrameRange.Apart where
  symm _ _ hapart := ⟨hapart.1.symm, hapart.2.symm⟩

structure FrameRange.Formed (range : FrameRange) (frameStateCount : ℕ) : Prop where
  start_le : range.start ≤ range.current
  current_le : range.current ≤ range.stop
  stop_le : range.stop ≤ pageNumberLimit
  metadata_le : range.metadataStart + (range.stop - range.start) ≤ frameStateCount

structure RangesFormed (ranges : List FrameRange) (frameStateCount : ℕ) :
    Prop where
  formed : ∀ range ∈ ranges, range.Formed frameStateCount
  apart : ranges.Pairwise FrameRange.Apart

theorem RangesFormed.eq_of_mem {ranges : List FrameRange} {count : ℕ}
    (hformed : RangesFormed ranges count) {first second : FrameRange} (hfirst : first ∈ ranges)
    (hsecond : second ∈ ranges) (hne : ¬first.Apart second) : first = second := by
  by_contra hdiff
  exact hne (hformed.apart.forall hfirst hsecond hdiff)

namespace BuddyFrameAllocator

variable {self : BuddyFrameAllocator}

section

variable (self : BuddyFrameAllocator) (page : ℕ)

def Formed : Prop :=
  RangesFormed self.ranges self.frameStateCount

def Managed : Prop :=
  ∃ range ∈ self.ranges, range.start ≤ page ∧ page < range.stop

def Reached : Prop :=
  ∃ range ∈ self.ranges, range.start ≤ page ∧ page < range.current

def Fresh : Prop :=
  ∃ range ∈ self.ranges, range.current ≤ page ∧ page < range.stop

def Inside (start stop : ℕ) : Prop :=
  ∃ range ∈ self.ranges, range.start ≤ start ∧ stop ≤ range.current

end

theorem containsPpn_iff (page : ℕ) : self.containsPpn page = true ↔ self.Managed page := by
  simp [containsPpn, Managed]

theorem allocatedPpn_iff (page : ℕ) : self.allocatedPpn page = true ↔ self.Reached page := by
  simp [allocatedPpn, Reached]

variable {page : ℕ}

section

variable (hformed : self.Formed)
include hformed

theorem Formed.managed_of_reached (hreached : self.Reached page) : self.Managed page := by
  obtain ⟨range, hmem, hstart, hcurrent⟩ := hreached
  exact ⟨range, hmem, hstart, hcurrent.trans_le (hformed.formed range hmem).current_le⟩

theorem Formed.managed_iff (page : ℕ) :
    self.Managed page ↔ self.Reached page ∨ self.Fresh page := by
  constructor
  · rintro ⟨range, hmem, hstart, hstop⟩
    rcases lt_or_ge page range.current with hlt | hge
    · exact .inl ⟨range, hmem, hstart, hlt⟩
    · exact .inr ⟨range, hmem, hge, hstop⟩
  · rintro (hreached | ⟨range, hmem, hcurrent, hstop⟩)
    · exact hformed.managed_of_reached hreached
    · exact ⟨range, hmem, (hformed.formed range hmem).start_le.trans hcurrent, hstop⟩

theorem Formed.range_eq {first second : FrameRange} (hfirst : first ∈ self.ranges)
    (hsecond : second ∈ self.ranges) (hinFirst : first.start ≤ page ∧ page < first.stop)
    (hinSecond : second.start ≤ page ∧ page < second.stop) : first = second := by
  refine RangesFormed.eq_of_mem hformed hfirst hsecond ?_
  rintro ⟨hpages, -⟩
  omega

theorem Formed.not_reached_and_fresh (hreached : self.Reached page)
    (hfresh : self.Fresh page) : False := by
  obtain ⟨first, hfirst, hstart, hcurrent⟩ := hreached
  obtain ⟨second, hsecond, hfront, hstop⟩ := hfresh
  have hfirstFormed := hformed.formed first hfirst
  have hsecondFormed := hformed.formed second hsecond
  have heq := hformed.range_eq hfirst hsecond ⟨hstart, hcurrent.trans_le hfirstFormed.current_le⟩
    ⟨hsecondFormed.start_le.trans hfront, hstop⟩
  subst heq
  omega

theorem Formed.lt_of_managed (hmanaged : self.Managed page) : page < pageNumberLimit := by
  obtain ⟨range, hmem, -, hstop⟩ := hmanaged
  exact hstop.trans_le (hformed.formed range hmem).stop_le

theorem Formed.rangeForPpn_eq_some (page : ℕ) (range : FrameRange) :
    self.rangeForPpn page = some range ↔
      range ∈ self.ranges ∧ range.start ≤ page ∧ page < range.stop := by
  constructor
  · intro hfind
    have hin := find?_some hfind
    simp only [Bool.and_eq_true, decide_eq_true_eq] at hin
    exact ⟨mem_of_find?_eq_some hfind, hin⟩
  · rintro ⟨hmem, hin⟩
    cases hfind : self.rangeForPpn page with
    | none =>
      have hnone := find?_eq_none.mp hfind range hmem
      simp only [Bool.and_eq_true, decide_eq_true_eq] at hnone
      exact absurd hin hnone
    | some other =>
      have hother := find?_some hfind
      simp only [Bool.and_eq_true, decide_eq_true_eq] at hother
      rw [hformed.range_eq (mem_of_find?_eq_some hfind) hmem hother hin]

theorem Formed.frameStateIndex_eq_some (page index : ℕ) : self.frameStateIndex page = some index ↔
      ∃ range ∈ self.ranges, (range.start ≤ page ∧ page < range.stop) ∧
        index = range.metadataStart + page - range.start := by
  simp only [frameStateIndex, Option.map_eq_some_iff, hformed.rangeForPpn_eq_some]
  constructor
  · rintro ⟨range, ⟨hmem, hin⟩, rfl⟩
    exact ⟨range, hmem, hin, rfl⟩
  · rintro ⟨range, hmem, hin, rfl⟩
    exact ⟨range, ⟨hmem, hin⟩, rfl⟩

theorem Formed.frameStateIndex_injective {first second index : ℕ}
    (hfirst : self.frameStateIndex first = some index)
    (hsecond : self.frameStateIndex second = some index) : first = second := by
  obtain ⟨range, hmem, hin, heq⟩ := (hformed.frameStateIndex_eq_some first index).mp hfirst
  obtain ⟨other, hother, hinOther, heqOther⟩ :=
    (hformed.frameStateIndex_eq_some second index).mp hsecond
  have hsame : range = other := by
    refine RangesFormed.eq_of_mem hformed hmem hother ?_
    rintro ⟨-, hmetadata⟩
    omega
  subst hsame
  omega

theorem frameState_isSome_iff (page : ℕ) :
    (self.frameState page).isSome = true ↔ self.Managed page := by
  rw [frameState, frameStateIndex, Option.isSome_map, Option.isSome_map, Option.isSome_iff_exists]
  simp only [hformed.rangeForPpn_eq_some, Managed]

theorem managed_of_frameState {state : ℕ}
    (hstate : self.frameState page = some state) : self.Managed page :=
  (frameState_isSome_iff hformed page).mp (by rw [hstate]; rfl)

end

/-! ## Writing states -/

theorem frameState_withStates (states : ℕ → ℕ) (page : ℕ) :
    ({ self with frameStates := states }).frameState page =
      (self.frameStateIndex page).map states :=
  rfl

theorem Formed.setFrameState_spec (hformed : self.Formed) (hmanaged : self.Managed page)
    (state : ℕ) :
    ∃ states, self.setFrameState page state = .ok { self with frameStates := states } ∧
      ∀ other, ({ self with frameStates := states }).frameState other =
        if other = page then some state else self.frameState other := by
  obtain ⟨range, hmem, hin⟩ := hmanaged
  have hindex := (hformed.frameStateIndex_eq_some page _).mpr ⟨range, hmem, hin, rfl⟩
  refine ⟨_, by rw [setFrameState, hindex], fun other => ?_⟩
  rw [frameState_withStates]
  split
  · next heq =>
    subst heq
    simp [hindex]
  · next hne =>
    cases hother : self.frameStateIndex other with
    | none => simp [frameState, hother]
    | some otherIndex =>
      have hdiff : otherIndex ≠ range.metadataStart + page - range.start := by
        intro heq
        exact hne (hformed.frameStateIndex_injective hother (heq ▸ hindex))
      simp [frameState, hother, update_of_ne hdiff]

theorem Formed.fillFrameStates_spec (hformed : self.Formed) (start pages state : ℕ) :
    Outcome (self.fillFrameStates start pages state)
      (pages = 0 ∨ ∃ range ∈ self.ranges, range.start ≤ start ∧ start + pages ≤ range.stop)
      fun s' =>
        (pages = 0 ∨ ∃ range ∈ self.ranges, range.start ≤ start ∧ start + pages ≤ range.stop) ∧
        ∃ states, s' = { self with frameStates := states } ∧
          ∀ other, ({ self with frameStates := states }).frameState other =
            if start ≤ other ∧ other < start + pages then some state
            else self.frameState other := by
  rw [fillFrameStates]
  split
  · next hzero =>
    refine ⟨.inl hzero, self.frameStates, rfl, fun other => ?_⟩
    rw [if_neg (by omega)]
  · next hpages =>
    split
    · next hnone =>
      refine Outcome.throw ?_
      rintro (hzero | ⟨range, hmem, hstart, hstop⟩)
      · exact hpages hzero
      · have hsome := (hformed.rangeForPpn_eq_some start range).mpr ⟨hmem, hstart, by omega⟩
        rw [hnone] at hsome
        exact absurd hsome (by simp)
    · next range hrange =>
      obtain ⟨hmem, hin⟩ := (hformed.rangeForPpn_eq_some start range).mp hrange
      have hrangeFormed := hformed.formed range hmem
      have hlimit : pageNumberLimit < usizeLimit := by decide
      split
      · next hoverflow =>
        refine Outcome.throw ?_
        rintro (hzero | ⟨other, hother, hstart, hstop⟩)
        · exact hpages hzero
        · have hstopLe := (hformed.formed other hother).stop_le
          omega
      · split
        · next hcrosses =>
          refine Outcome.throw ?_
          rintro (hzero | ⟨other, hother, hstart, hstop⟩)
          · exact hpages hzero
          · have heq := hformed.range_eq hmem hother hin ⟨hstart, by omega⟩
            subst heq
            omega
        · next hwithin =>
          refine ⟨.inr ⟨range, hmem, hin.1, by omega⟩, _, rfl, fun other => ?_⟩
          rw [frameState_withStates]
          split
          · next hother =>
            have hindex := (hformed.frameStateIndex_eq_some other _).mpr
              ⟨range, hmem, by omega, rfl⟩
            rw [hindex, Option.map_some, if_pos (by omega)]
          · next hother =>
            cases hindex : self.frameStateIndex other with
            | none => simp [frameState, hindex]
            | some index =>
              rw [frameState, hindex, Option.map_some, Option.map_some, if_neg]
              intro hbetween
              obtain ⟨second, hsecond, hinSecond, heq⟩ :=
                (hformed.frameStateIndex_eq_some other index).mp hindex
              have hsame : range = second := by
                refine RangesFormed.eq_of_mem hformed hmem hsecond ?_
                rintro ⟨-, hmetadata⟩
                omega
              subst hsame
              omega

theorem Formed.blockWithinAllocatedRange_iff (hformed : self.Formed) (page order : ℕ) :
    self.blockWithinAllocatedRange page order = true ↔
      2 ^ order ∣ page ∧ self.Inside page (page + 2 ^ order) := by
  have hpos := Nat.two_pow_pos order
  have hlimit : pageNumberLimit < usizeLimit := by decide
  rw [blockWithinAllocatedRange]
  cases hfind : self.rangeForPpn page with
  | none =>
    simp only [Bool.false_eq_true, false_iff, not_and]
    rintro - ⟨range, hmem, hstart, hcurrent⟩
    have hcurrentLe := (hformed.formed range hmem).current_le
    have hsome := (hformed.rangeForPpn_eq_some page range).mpr ⟨hmem, hstart, by omega⟩
    rw [hfind] at hsome
    exact absurd hsome (by simp)
  | some range =>
    obtain ⟨hmem, hin⟩ := (hformed.rangeForPpn_eq_some page range).mp hfind
    simp only [Bool.and_eq_true, decide_eq_true_eq, beq_iff_eq, Nat.dvd_iff_mod_eq_zero]
    constructor
    · rintro ⟨⟨hstart, halign⟩, -, hcurrent⟩
      exact ⟨halign, range, hmem, hstart, hcurrent⟩
    · rintro ⟨halign, other, hother, hstart, hcurrent⟩
      have hotherFormed := hformed.formed other hother
      have hcurrentLe := hotherFormed.current_le
      have hstopLe := hotherFormed.stop_le
      have heq := hformed.range_eq hmem hother hin ⟨hstart, by omega⟩
      subst heq
      exact ⟨⟨hstart, halign⟩, by omega, hcurrent⟩

theorem Inside.mono {start stop innerStart innerStop : ℕ} (hinside : self.Inside start stop)
    (hstart : start ≤ innerStart) (hstop : innerStop ≤ stop) :
    self.Inside innerStart innerStop := by
  obtain ⟨range, hmem, hlow, hhigh⟩ := hinside
  exact ⟨range, hmem, hlow.trans hstart, hstop.trans hhigh⟩

section Front

variable {index current : ℕ} {range : FrameRange}

theorem setCurrent_ranges (hrange : self.ranges[index]? = some range) (current : ℕ) :
    ∃ before s', self.ranges = before ++ range :: s' ∧ (self.setCurrent index current).ranges =
        before ++ { range with current := current } :: s' := by
  obtain ⟨hlt, hget⟩ := List.getElem?_eq_some_iff.mp hrange
  refine ⟨self.ranges.take index, self.ranges.drop (index + 1), ?_, ?_⟩
  · rw [← hget, List.cons_getElem_drop_succ, List.take_append_drop]
  · rw [setCurrent, modify_eq_take_cons_drop hlt, hget]

section

variable (hformed : self.Formed) (hrange : self.ranges[index]? = some range)
  (hlow : range.current ≤ current)
include hformed hrange hlow

theorem Formed.setCurrent (hhigh : current ≤ range.stop) :
    (self.setCurrent index current).Formed := by
  obtain ⟨before, s', hranges, hmoved⟩ := setCurrent_ranges hrange current
  obtain ⟨hall, hapart⟩ := hformed
  rw [hranges] at hall hapart
  have hrangeFormed := hall range (by simp)
  refine ⟨?_, ?_⟩
  · intro other hother
    rw [hmoved, mem_append, mem_cons] at hother
    rcases hother with hbefore | rfl | hafter
    · exact hall other (by simp [hbefore])
    · exact ⟨hrangeFormed.start_le.trans hlow, hhigh, hrangeFormed.stop_le,
        hrangeFormed.metadata_le⟩
    · exact hall other (by simp [hafter])
  · rw [hmoved]
    simpa only [pairwise_append, pairwise_cons, mem_cons,
      forall_eq_or_imp, FrameRange.Apart] using hapart

theorem Formed.setCurrent_frameState (hhigh : current ≤ range.stop) (page : ℕ) :
    (self.setCurrent index current).frameState page = self.frameState page := by
  obtain ⟨before, s', hranges, hmoved⟩ := setCurrent_ranges hrange current
  have hformedAfter := hformed.setCurrent hrange hlow hhigh
  have hindex : (self.setCurrent index current).frameStateIndex page =
      self.frameStateIndex page := by
    refine Option.ext fun entry => ?_
    rw [hformedAfter.frameStateIndex_eq_some, hformed.frameStateIndex_eq_some, hranges, hmoved]
    simp only [mem_append, mem_cons, or_and_right, exists_or, exists_eq_left]
  rw [frameState, hindex]
  rfl

theorem Formed.setCurrent_reached (page : ℕ) : (self.setCurrent index current).Reached page ↔
      self.Reached page ∨ range.current ≤ page ∧ page < current := by
  obtain ⟨before, s', hranges, hmoved⟩ := setCurrent_ranges hrange current
  have hstart := (hformed.formed range (by simp [hranges])).start_le
  have hsplit : range.start ≤ page ∧ page < current ↔ (range.start ≤ page ∧ page < range.current) ∨
        (range.current ≤ page ∧ page < current) := by omega
  simp only [Reached, hranges, hmoved, mem_append, mem_cons, or_and_right,
    exists_or, exists_eq_left, hsplit, or_assoc]
  rw [or_comm (a := range.current ≤ page ∧ page < current)]

end

theorem setCurrent_fresh (hrange : self.ranges[index]? = some range)
    (hlow : range.current ≤ current) {page : ℕ}
    (hfresh : (self.setCurrent index current).Fresh page) : self.Fresh page := by
  obtain ⟨before, s', hranges, hmoved⟩ := setCurrent_ranges hrange current
  obtain ⟨other, hmem, hfront, hstop⟩ := hfresh
  rw [hmoved, mem_append, mem_cons] at hmem
  rcases hmem with hbefore | rfl | hafter
  · exact ⟨other, by simp [hranges, hbefore], hfront, hstop⟩
  · exact ⟨range, by simp [hranges], hlow.trans hfront, hstop⟩
  · exact ⟨other, by simp [hranges, hafter], hfront, hstop⟩

theorem setCurrent_inside (hrange : self.ranges[index]? = some range)
    (hlow : range.current ≤ current) {start stop : ℕ} (hinside : self.Inside start stop) :
    (self.setCurrent index current).Inside start stop := by
  obtain ⟨before, s', hranges, hmoved⟩ := setCurrent_ranges hrange current
  obtain ⟨other, hmem, hstart, hcurrent⟩ := hinside
  rw [hranges, mem_append, mem_cons] at hmem
  rcases hmem with hbefore | rfl | hafter
  · exact ⟨other, by simp [hmoved, hbefore], hstart, hcurrent⟩
  · exact ⟨{ other with current := current }, by simp [hmoved], hstart, hcurrent.trans hlow⟩
  · exact ⟨other, by simp [hmoved, hafter], hstart, hcurrent⟩

end Front

end BuddyFrameAllocator

end Kairix.Frame
