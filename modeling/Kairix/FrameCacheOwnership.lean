import Kairix.FrameAllocator
import Kairix.FrameCaches
import Kairix.PanicOutcome

/-!
# Ownership of frames

Pages outside the central allocator are held by one owner each: the callers, a
cache, or the local batch of a CPU.  The lemmas say how ownership follows the
state bytes when pages change hands.
-/

namespace Kairix.Frame

open PanicOutcome ExclusiveHoldings BuddyFrameAllocator List

def FramePanic.OfBuddyLists : FramePanic → Prop
  | .tooManyRegions => False
  | .notAllocated => False
  | .alreadyFreed => False
  | _ => True

namespace BuddyFrameAllocator

variable (self : BuddyFrameAllocator)

theorem setFrameState_raises (ppn state : ℕ) :
    Raises (self.setFrameState ppn state) FramePanic.OfBuddyLists := by
  rw [setFrameState]
  split
  · exact Raises.error trivial
  · exact Raises.ok

theorem fillFrameStates_raises (start pages state : ℕ) :
    Raises (self.fillFrameStates start pages state) FramePanic.OfBuddyLists := by
  rw [fillFrameStates]
  split
  · exact Raises.ok
  · split
    · exact Raises.error trivial
    · split
      · exact Raises.error trivial
      · split
        · exact Raises.error trivial
        · exact Raises.ok

theorem readBuddyNode_raises (ppn order : ℕ) :
    Raises (self.readBuddyNode ppn order) FramePanic.OfBuddyLists := by
  simp only [readBuddyNode]
  split
  · exact Raises.ok
  · exact Raises.error trivial

theorem buddyPush_raises (ppn order : ℕ) :
    Raises (self.buddyPush ppn order) FramePanic.OfBuddyLists := by
  rw [buddyPush]
  apply (self.setFrameState_raises ppn order).bind
  intro marked
  simp only
  split
  · exact Raises.ok
  · apply (readBuddyNode_raises _ _ _).bind
    intro links
    exact Raises.ok

theorem unlinkPrevious_raises (ppn order previous next : ℕ) :
    Raises (self.unlinkPrevious ppn order previous next) FramePanic.OfBuddyLists := by
  rw [unlinkPrevious]
  split
  · split
    · exact Raises.ok
    · exact Raises.error trivial
  · apply (self.readBuddyNode_raises previous order).bind
    intro links
    split
    · exact Raises.ok
    · exact Raises.error trivial

theorem unlinkNext_raises (ppn order previous next : ℕ) :
    Raises (self.unlinkNext ppn order previous next) FramePanic.OfBuddyLists := by
  rw [unlinkNext]
  split
  · exact Raises.ok
  · apply (self.readBuddyNode_raises next order).bind
    intro links
    split
    · exact Raises.ok
    · exact Raises.error trivial

theorem buddyRemove_raises (ppn order : ℕ) :
    Raises (self.buddyRemove ppn order) FramePanic.OfBuddyLists := by
  rw [buddyRemove]
  apply (self.readBuddyNode_raises ppn order).bind
  intro links
  apply (self.unlinkPrevious_raises ppn order links.1 links.2).bind
  intro behind
  apply (behind.unlinkNext_raises ppn order links.1 links.2).bind
  intro ahead
  apply (ahead.setFrameState_raises ppn frameStateFreeInterior).bind
  intro unmarked
  exact Raises.ok

theorem insertBuddyBlockLoop_raises (rounds ppn order : ℕ) :
    Raises (insertBuddyBlockLoop rounds self ppn order) FramePanic.OfBuddyLists := by
  induction rounds generalizing self ppn order with
  | zero => exact self.buddyPush_raises ppn order
  | succ rounds ih =>
    rw [insertBuddyBlockLoop]
    split
    · apply (self.buddyRemove_raises _ order).bind
      intro removed
      exact ih removed _ _
    · exact self.buddyPush_raises ppn order

theorem insertRecycledLoop_raises (rounds current stop : ℕ) :
    Raises (insertRecycledLoop rounds self current stop) FramePanic.OfBuddyLists := by
  induction rounds generalizing self current with
  | zero => exact Raises.ok
  | succ rounds ih =>
    rw [insertRecycledLoop]
    split
    · apply (self.insertBuddyBlockLoop_raises _ current _).bind
      intro inserted
      exact ih inserted _
    · exact Raises.ok

theorem insertRecycledRange_raises (start stop : ℕ) :
    Raises (self.insertRecycledRange start stop) FramePanic.OfBuddyLists := by
  rw [insertRecycledRange]
  split
  · exact Raises.ok
  · apply (self.fillFrameStates_raises start _ _).bind
    intro filled
    exact filled.insertRecycledLoop_raises _ start stop

theorem splitBlock_raises (targetOrder ppn order : ℕ) :
    Raises (splitBlock targetOrder ppn order self) FramePanic.OfBuddyLists := by
  induction order generalizing self with
  | zero => exact Raises.ok
  | succ order ih =>
    rw [splitBlock]
    split
    · apply (self.insertBuddyBlockLoop_raises _ _ order).bind
      intro inserted
      exact ih inserted
    · exact Raises.ok

theorem allocBuddyPowerOfTwo_raises (targetOrder : ℕ) :
    Raises (self.allocBuddyPowerOfTwo targetOrder) FramePanic.OfBuddyLists := by
  rw [allocBuddyPowerOfTwo]
  split
  · exact Raises.ok
  · apply (self.buddyRemove_raises _ _).bind
    intro removed
    apply (removed.splitBlock_raises targetOrder _ _).bind
    intro split
    apply (split.fillFrameStates_raises _ _ _).bind
    intro filled
    exact Raises.ok

theorem alloc_raises : Raises self.alloc FramePanic.OfBuddyLists := by
  rw [alloc]
  apply (self.allocBuddyPowerOfTwo_raises 0).bind
  intro taken
  split
  · exact Raises.ok
  · split <;> exact Raises.ok

theorem allocContiguous_raises (pages alignPages : ℕ) :
    Raises (self.allocContiguous pages alignPages) FramePanic.OfBuddyLists := by
  rw [allocContiguous]
  split
  · exact Raises.ok
  · split
    · exact Raises.ok
    · split
      · apply self.alloc_raises.bind
        intro taken
        exact Raises.ok
      · have hfresh : Raises (self.allocFreshContiguous pages alignPages)
            FramePanic.OfBuddyLists := by
          rw [allocFreshContiguous]
          split
          · exact Raises.ok
          · apply (insertRecycledRange_raises _ _ _).bind
            intro inserted
            exact Raises.ok
        apply hfresh.bind
        intro fresh
        split
        · exact Raises.ok
        · rw [allocRecycledContiguous]
          split
          · exact Raises.ok
          · simp only
            split
            · exact Raises.ok
            · apply (fresh.1.allocBuddyPowerOfTwo_raises _).bind
              intro taken
              split
              · exact Raises.ok
              · apply (taken.1.insertRecycledRange_raises _ _).bind
                intro inserted
                exact Raises.ok

end BuddyFrameAllocator

/-! ## Owners -/

inductive FrameOwner (cpus : ℕ) where
  | outstanding
  | cache (kind : CacheKind) (cpu : Fin cpus)
  | transit (cpu : Fin cpus)
  deriving DecidableEq

variable {cpus : ℕ}

/-- Every held page has one owner and the state byte that fits its owner. -/
structure Owned (bounds : List (ℕ × ℕ)) (allocator : BuddyFrameAllocator)
    (holdings : FrameOwner cpus → List ℕ) (stateOf : FrameOwner cpus → ℕ) : Prop where
  bounds_eq : allocator.bounds = bounds
  exclusive : Exclusive holdings
  states : ∀ owner, ∀ page ∈ holdings owner, allocator.frameState page = some (stateOf owner)
  holds : ∃ lists, Holds allocator lists (held holdings) ∧
    (NeverMerge bounds → AllInside allocator lists)

/-- A panic of the buddy lists, on a memory map whose ranges can share a
block. -/
def CachePanic.OfLayout (bounds : List (ℕ × ℕ)) : CachePanic → Prop
  | .central panic => panic.OfBuddyLists ∧ ¬NeverMerge bounds
  | _ => False

variable {bounds : List (ℕ × ℕ)} {allocator : BuddyFrameAllocator}
variable {before s' : FrameOwner cpus → List ℕ}
variable {stateBefore stateAfter : FrameOwner cpus → ℕ}
variable {source target : FrameOwner cpus} {pages : List ℕ}

/-- The pages `pages` move from `source` to `target`; the other pages keep
owner and state. -/
structure Moved (before after : FrameOwner cpus → List ℕ)
    (stateBefore stateAfter : FrameOwner cpus → ℕ)
    (source target : FrameOwner cpus) (pages : List ℕ) : Prop where
  ne : source ≠ target
  source_perm : (before source).Perm (pages ++ after source)
  target_perm : (after target).Perm (pages ++ before target)
  other : ∀ owner, owner ≠ source → owner ≠ target → after owner = before owner
  kept : ∀ owner, ∀ page ∈ after owner, page ∉ pages → stateAfter owner = stateBefore owner

section Moved

variable (hmoved : Moved before s' stateBefore stateAfter source target pages)
include hmoved

variable {page : ℕ}

theorem Moved.mem_source (hpage : page ∈ pages) : page ∈ before source :=
  hmoved.source_perm.mem_iff.mpr (mem_append_left _ hpage)

theorem Moved.mem_target (hpage : page ∈ pages) : page ∈ s' target :=
  hmoved.target_perm.mem_iff.mpr (mem_append_left _ hpage)

theorem Moved.mem_before {owner : FrameOwner cpus} (hpage : page ∈ s' owner)
    (hstays : page ∉ pages) : page ∈ before owner := by
  by_cases hownerTarget : owner = target
  · subst owner
    rw [hmoved.target_perm.mem_iff, mem_append] at hpage
    exact hpage.resolve_left hstays
  · by_cases hownerSource : owner = source
    · subst owner
      exact hmoved.source_perm.mem_iff.mpr (mem_append_right _ hpage)
    · rwa [hmoved.other owner hownerSource hownerTarget] at hpage

theorem Moved.exclusive (hexclusive : Exclusive before) : Exclusive s' ∧ held s' = held before :=
  hexclusive.move hmoved.ne hmoved.source_perm hmoved.target_perm hmoved.other

theorem Owned.move (howned : Owned bounds allocator before stateBefore)
    (hstate : pages ≠ [] → stateAfter target = stateBefore source) :
    Owned bounds allocator s' stateAfter := by
  obtain ⟨hexclusive, hheld⟩ := hmoved.exclusive howned.exclusive
  refine ⟨howned.bounds_eq, hexclusive, ?_, by rw [hheld]; exact howned.holds⟩
  intro owner page hpage
  by_cases hin : page ∈ pages
  · have howner := hexclusive.unique owner target page hpage (hmoved.mem_target hin)
    rw [howner, hstate (ne_nil_of_mem hin)]
    exact howned.states source page (hmoved.mem_source hin)
  · rw [hmoved.kept owner page hpage hin]
    exact howned.states owner page (hmoved.mem_before hpage hin)

end Moved

theorem transitionFrameState_spec (hformed : allocator.Formed) {page expected : ℕ}
    (hstate : allocator.frameState page = some expected) (desired : ℕ) :
    ∃ states, allocator.transitionFrameState page expected desired =
        .ok { allocator with frameStates := states } ∧
      ∀ other, ({ allocator with frameStates := states }).frameState other =
        if other = page then some desired else allocator.frameState other := by
  obtain ⟨states, hset, hstates⟩ := hformed.setFrameState_spec
    (managed_of_frameState hformed hstate) desired
  refine ⟨states, ?_, hstates⟩
  rw [frameState, Option.map_eq_some_iff] at hstate
  obtain ⟨index, hindex, hvalue⟩ := hstate
  simp only [setFrameState, hindex] at hset
  simp only [transitionFrameState, hindex, if_pos hvalue]
  exact congrArg Except.ok (Except.ok.inj hset)

theorem BuddyFrameAllocator.Holds.transitionAll_spec {lists : ℕ → List ℕ} {heldPages : Set ℕ}
    {expected desired : ℕ} (hdesired : frameBuddyOrders ≤ desired) (hnodup : pages.Nodup)
    (hholds : Holds allocator lists heldPages)
    (hpages : ∀ page ∈ pages, page ∈ heldPages ∧ allocator.frameState page = some expected) :
    ∃ states, allocator.transitionAll expected desired pages =
        .ok { allocator with frameStates := states } ∧
      Holds { allocator with frameStates := states } lists heldPages ∧
      ∀ other, ({ allocator with frameStates := states }).frameState other =
        if other ∈ pages then some desired else allocator.frameState other := by
  induction pages generalizing allocator with
  | nil => exact ⟨allocator.frameStates, rfl, hholds, by simp⟩
  | cons page rest ih =>
    rw [nodup_cons] at hnodup
    obtain ⟨hheld, hstate⟩ := hpages page mem_cons_self
    obtain ⟨states, htransition, hstates⟩ := transitionFrameState_spec hholds.formed hstate desired
    have hone : {page} ⊆ heldPages := Set.singleton_subset_iff.mpr hheld
    have hchanged := hholds.withStates hone hdesired hstates
    obtain ⟨statesRest, hrest, hholdsRest, hstatesRest⟩ := ih hnodup.2 hchanged (by
      intro other hother
      have hne : other ≠ page := fun heq => hnodup.1 (heq ▸ hother)
      rw [hstates, if_neg hne]
      exact hpages other (mem_cons_of_mem _ hother))
    refine ⟨statesRest, ?_, hholdsRest, ?_⟩
    · rw [transitionAll, htransition]
      exact hrest
    · intro other
      rw [hstatesRest, hstates]
      by_cases hother : other = page
      · simp [hother]
      · simp [hother]

/-- The state bytes of some pages change, and every other page keeps the byte of its owner. -/
theorem Owned.restate {expected desired : ℕ} (howned : Owned bounds allocator before stateBefore)
    (hexclusive : Exclusive s') (hheld : held s' = held before)
    (hdesired : frameBuddyOrders ≤ desired) (hnodup : pages.Nodup)
    (hpages : ∀ page ∈ pages, page ∈ before source ∧ stateBefore source = expected)
    (hstate : ∀ owner, ∀ page ∈ s' owner, page ∈ pages → stateAfter owner = desired)
    (hkept : ∀ owner, ∀ page ∈ s' owner, page ∉ pages →
      page ∈ before owner ∧ stateAfter owner = stateBefore owner) :
    ∃ changed, allocator.transitionAll expected desired pages = .ok changed ∧
      Owned bounds changed s' stateAfter := by
  obtain ⟨lists, hholds, hall⟩ := howned.holds
  obtain ⟨states, htransition, hchanged, hstates⟩ :=
    hholds.transitionAll_spec hdesired hnodup fun page hpage =>
      ⟨mem_held (hpages page hpage).1,
        (hpages page hpage).2 ▸ howned.states source page (hpages page hpage).1⟩
  refine ⟨_, htransition, howned.bounds_eq, hexclusive, ?_, lists, by rwa [hheld], hall⟩
  intro owner page hpage
  rw [hstates]
  by_cases hin : page ∈ pages
  · rw [if_pos hin, hstate owner page hpage hin]
  · obtain ⟨hold, hsame⟩ := hkept owner page hpage hin
    rw [if_neg hin, hsame]
    exact howned.states owner page hold

theorem Owned.transitionAll (expected desired : ℕ)
    (hmoved : Moved before s' stateBefore stateAfter source target pages)
    (howned : Owned bounds allocator before stateBefore) (hdesired : frameBuddyOrders ≤ desired)
    (hexpected : pages ≠ [] → stateBefore source = expected)
    (hstate : pages ≠ [] → stateAfter target = desired) :
    ∃ changed, allocator.transitionAll expected desired pages = .ok changed ∧
      Owned bounds changed s' stateAfter := by
  obtain ⟨hexclusive, hheld⟩ := hmoved.exclusive howned.exclusive
  have hnodup := hmoved.source_perm.nodup_iff.mp (howned.exclusive.nodup source)
  refine howned.restate hexclusive hheld hdesired hnodup.of_append_left
    (fun page hpage => ⟨hmoved.mem_source hpage, hexpected (ne_nil_of_mem hpage)⟩) ?_ ?_
  · intro owner page hpage hin
    rw [hexclusive.unique owner target page hpage (hmoved.mem_target hin)]
    exact hstate (ne_nil_of_mem hin)
  · exact fun owner page hpage hin =>
      ⟨hmoved.mem_before hpage hin, hmoved.kept owner page hpage hin⟩

theorem transitionAll_singleton (allocator : BuddyFrameAllocator) (page expected desired : ℕ) :
    allocator.transitionAll expected desired [page] =
      allocator.transitionFrameState page expected desired := by
  rw [BuddyFrameAllocator.transitionAll]
  cases allocator.transitionFrameState page expected desired with
  | error panic => rfl
  | ok changed => rfl

/-! ## The central allocator -/

/-- The central allocator of a memory map, with the pages it has given away. -/
structure Central (bounds : List (ℕ × ℕ)) (allocator : BuddyFrameAllocator)
    (heldPages : Set ℕ) : Prop where
  bounds_eq : allocator.bounds = bounds
  holds : ∃ lists, Holds allocator lists heldPages ∧
    (NeverMerge bounds → AllInside allocator lists)

theorem Owned.central (howned : Owned bounds allocator before stateBefore) :
    Central bounds allocator (held before) :=
  ⟨howned.bounds_eq, howned.holds⟩

variable {heldPages : Set ℕ}

theorem central_ofLayout {lists : ℕ → List ℕ} (hbounds : allocator.bounds = bounds)
    (hall : NeverMerge bounds → AllInside allocator lists) :
    ∀ panic : FramePanic, panic.OfBuddyLists → ¬Sound allocator lists →
      (CachePanic.central panic).OfLayout bounds := by
  intro panic hpanic hunsound
  exact ⟨hpanic, fun hmerge => hunsound ⟨by rwa [hbounds], hall hmerge⟩⟩

theorem Central.deallocAll (hcentral : Central bounds allocator heldPages) (hnodup : pages.Nodup)
    (hpages : ∀ page ∈ pages, page ∈ heldPages ∧
      (allocator.frameState page = some frameStateAllocated ∨
        allocator.frameState page = some frameStateCpuCached)) :
    Settled (allocator.deallocAll pages) (CachePanic.OfLayout bounds) fun freed =>
      Central bounds freed (heldPages \ {page | page ∈ pages}) ∧
        ∀ page ∈ heldPages, page ∉ pages → freed.frameState page = allocator.frameState page := by
  induction pages generalizing allocator heldPages with
  | nil => exact ⟨by simpa using hcentral, fun _ _ _ => rfl⟩
  | cons page rest ih =>
    obtain ⟨hbounds, lists, hholds, hall⟩ := hcentral
    rw [nodup_cons] at hnodup
    obtain ⟨hheld, hstate⟩ := hpages page mem_cons_self
    have hreached := hholds.held_reached page hheld
    have hraises : Raises (allocator.dealloc page) FramePanic.OfBuddyLists := by
      have hcontains := (containsPpn_iff page).mpr (hholds.formed.managed_of_reached hreached)
      have hallocated := (allocatedPpn_iff page).mpr hreached
      rw [BuddyFrameAllocator.dealloc, deallocBuddy, if_neg (by simp [hcontains, hallocated]),
        if_pos hstate]
      apply (allocator.setFrameState_raises page frameStateFreeInterior).bind
      intro freed
      exact freed.insertBuddyBlockLoop_raises _ page 0
    have hfailure : ∀ panic : FramePanic, panic.OfBuddyLists →
        ¬(Sound allocator lists ∧ (allocator.frameState page = some frameStateAllocated ∨
          allocator.frameState page = some frameStateCpuCached)) →
          (CachePanic.central panic).OfLayout bounds := by
      intro panic hpanic hunsound
      exact central_ofLayout hbounds hall panic hpanic fun hsound =>
        hunsound ⟨hsound, hstate⟩
    rw [BuddyFrameAllocator.deallocAll]
    apply ((hholds.dealloc_gives hheld).settled_mapError hraises hfailure).bind
    rintro freed ⟨hranges, hkept, listsFreed, hfreed, hinside⟩
    have hcentralFreed : Central bounds freed (heldPages \ {page}) :=
      ⟨(bounds_congr hranges).trans hbounds, listsFreed, hfreed,
        fun hmerge => hinside ⟨by rwa [hbounds], hall hmerge⟩⟩
    have hrest : ∀ other ∈ rest, other ∈ heldPages \ {page} ∧
        (freed.frameState other = some frameStateAllocated ∨
          freed.frameState other = some frameStateCpuCached) := by
      intro other hother
      have hne : other ≠ page := fun heq => hnodup.1 (heq ▸ hother)
      obtain ⟨hotherHeld, hotherState⟩ := hpages other (mem_cons_of_mem _ hother)
      rw [hkept other ⟨hotherHeld, hne⟩]
      exact ⟨⟨hotherHeld, hne⟩, hotherState⟩
    have hset : (heldPages \ {page}) \ {other | other ∈ rest} =
        heldPages \ {other | other ∈ page :: rest} := by
      ext other
      simp only [Set.mem_sdiff, Set.mem_singleton_iff, Set.mem_ofPred_eq, mem_cons]
      tauto
    have hnext := ih hcentralFreed hnodup.2 hrest
    rw [hset] at hnext
    refine hnext.mono ?_
    rintro last ⟨hcentralLast, hkeptLast⟩
    refine ⟨hcentralLast, ?_⟩
    intro other hother hout
    rw [mem_cons, not_or] at hout
    rw [hkeptLast other ⟨hother, hout.1⟩ hout.2]
    exact hkept other ⟨hother, hout.1⟩

structure Taken (bounds : List (ℕ × ℕ)) (allocator taken : BuddyFrameAllocator)
    (heldPages : Set ℕ) (pages : List ℕ) : Prop where
  bounds_eq : taken.bounds = bounds
  nodup : pages.Nodup
  fresh : ∀ page ∈ pages, page ∉ heldPages
  granted : ∀ page ∈ pages, taken.frameState page = some frameStateAllocated
  kept : ∀ page ∈ heldPages, taken.frameState page = allocator.frameState page
  holds : ∃ lists, Holds taken lists (heldPages ∪ {page | page ∈ pages}) ∧
    (NeverMerge bounds → AllInside taken lists)

theorem Taken.central {taken : BuddyFrameAllocator}
    (htaken : Taken bounds allocator taken heldPages pages) :
    Central bounds taken (heldPages ∪ {page | page ∈ pages}) :=
  ⟨htaken.bounds_eq, htaken.holds⟩

theorem Central.nothing (hcentral : Central bounds allocator heldPages) :
    Taken bounds allocator allocator heldPages [] where
  bounds_eq := hcentral.bounds_eq
  nodup := nodup_nil
  fresh := by simp
  granted := by simp
  kept := fun _ _ => rfl
  holds := by simpa using hcentral.holds

theorem Taken.of_granted {taken : BuddyFrameAllocator} {lists : ℕ → List ℕ} {start count : ℕ}
    (hbounds : allocator.bounds = bounds) (hall : NeverMerge bounds → AllInside allocator lists)
    (hgranted : Granted allocator taken heldPages start count (Sound allocator lists)) :
    Taken bounds allocator taken heldPages (range' start count) := by
  have hmem : ∀ page, page ∈ range' start count ↔
      page ∈ Set.Ico start (start + count) := fun page => mem_range'_1
  obtain ⟨listsAfter, hafter, hinside⟩ := hgranted.holds
  constructor
  case bounds_eq => exact hgranted.bounds.trans hbounds
  case nodup => exact nodup_range'
  case fresh => exact fun page hpage => hgranted.apart page ((hmem page).mp hpage)
  case granted => exact fun page hpage => hgranted.granted page ((hmem page).mp hpage)
  case kept => exact hgranted.kept
  case holds =>
    refine ⟨listsAfter, ?_, fun hmerge => hinside ⟨by rwa [hbounds], hall hmerge⟩⟩
    have hset : {page | page ∈ range' start count} = Set.Ico start (start + count) :=
      Set.ext hmem
    rwa [hset]

theorem Central.alloc (hcentral : Central bounds allocator heldPages) :
    Settled (allocator.alloc.mapError CachePanic.central) (CachePanic.OfLayout bounds)
      fun taken => Taken bounds allocator taken.1 heldPages taken.2.toList := by
  have hbounds := hcentral.bounds_eq
  obtain ⟨lists, hholds, hall⟩ := hcentral.holds
  refine (hholds.alloc_granted.settled_mapError allocator.alloc_raises
    (central_ofLayout hbounds hall)).mono ?_
  rintro ⟨s', found⟩ hresult
  cases found with
  | none =>
    obtain rfl : s' = allocator := hresult
    exact hcentral.nothing
  | some page => exact Taken.of_granted hbounds hall hresult

def extentPages : Option FrameExtent → List ℕ
  | none => []
  | some extent => range' extent.start extent.pages

theorem Central.allocContiguous (hcentral : Central bounds allocator heldPages) (count align : ℕ) :
    Settled ((allocator.allocContiguous count align).mapError CachePanic.central)
      (CachePanic.OfLayout bounds)
      fun taken => Taken bounds allocator taken.1 heldPages (extentPages taken.2) := by
  have hbounds := hcentral.bounds_eq
  obtain ⟨lists, hholds, hall⟩ := hcentral.holds
  refine ((hholds.allocContiguous_granted count align).settled_mapError
    (allocator.allocContiguous_raises count align) (central_ofLayout hbounds hall)).mono ?_
  rintro ⟨s', found⟩ hresult
  cases found with
  | none =>
    obtain rfl : s' = allocator := hresult
    exact hcentral.nothing
  | some extent =>
    obtain ⟨start, extentCount⟩ := extent
    obtain ⟨rfl, -, hgranted⟩ := hresult
    exact Taken.of_granted hbounds hall hgranted

theorem Central.allocBatch (hcentral : Central bounds allocator heldPages) (room : ℕ) :
    Settled (BuddyFrameAllocator.allocBatch room allocator) (CachePanic.OfLayout bounds)
      fun taken => taken.2.length ≤ room ∧ Taken bounds allocator taken.1 heldPages taken.2 := by
  induction room generalizing allocator heldPages with
  | zero => exact ⟨le_rfl, hcentral.nothing⟩
  | succ room ih =>
    rw [BuddyFrameAllocator.allocBatch]
    apply hcentral.alloc.bind
    rintro ⟨first, found⟩ hfirst
    cases found with
    | none => exact ⟨Nat.zero_le _, hfirst⟩
    | some page =>
      apply (ih hfirst.central).bind
      rintro ⟨last, rest⟩ ⟨hlength, hrest⟩
      simp only [Option.toList_some, mem_singleton] at hfirst hrest hlength
      refine ⟨by simpa using hlength, ?_⟩
      obtain ⟨listsLast, hholdsLast, hallLast⟩ := hrest.holds
      constructor
      case bounds_eq => exact hrest.bounds_eq
      case nodup =>
        rw [nodup_cons]
        exact ⟨fun hin => hrest.fresh page hin (.inr rfl), hrest.nodup⟩
      case fresh =>
        intro other hother
        rw [mem_cons] at hother
        rcases hother with rfl | hother
        · exact hfirst.fresh other (by simp)
        · exact fun hin => hrest.fresh other hother (.inl hin)
      case granted =>
        intro other hother
        rw [mem_cons] at hother
        rcases hother with rfl | hother
        · rw [hrest.kept other (.inr rfl)]
          exact hfirst.granted other (by simp)
        · exact hrest.granted other hother
      case kept =>
        intro other hother
        rw [hrest.kept other (.inl hother)]
        exact hfirst.kept other hother
      case holds =>
        refine ⟨listsLast, ?_, hallLast⟩
        have hset : heldPages ∪ {other | other ∈ page :: rest} =
            heldPages ∪ {other | other = page} ∪ {other | other ∈ rest} := by
          ext other
          simp only [Set.mem_union, Set.mem_ofPred_eq, mem_cons, or_assoc]
        rw [hset]
        exact hholdsLast

theorem Owned.deallocAll (howned : Owned bounds allocator before stateBefore)
    (hsource : (before source).Perm (pages ++ s' source))
    (hother : ∀ owner, owner ≠ source → s' owner = before owner)
    (hstate : pages ≠ [] → stateBefore source = frameStateAllocated ∨
      stateBefore source = frameStateCpuCached)
    (hkept : ∀ owner, ∀ page ∈ s' owner, stateAfter owner = stateBefore owner) :
    Settled (allocator.deallocAll pages) (CachePanic.OfLayout bounds)
      fun freed => Owned bounds freed s' stateAfter := by
  have hmem : ∀ page ∈ pages, page ∈ before source := fun page hpage =>
    hsource.mem_iff.mpr (mem_append_left _ hpage)
  have hnodup := hsource.nodup_iff.mp (howned.exclusive.nodup source)
  rw [nodup_append'] at hnodup
  have hexclusive := howned.exclusive.leave hsource hother
  have hheld := held_leave howned.exclusive hsource hother
  have hpages : ∀ page ∈ pages, page ∈ held before ∧
      (allocator.frameState page = some frameStateAllocated ∨
        allocator.frameState page = some frameStateCpuCached) := by
    intro page hpage
    rw [howned.states source page (hmem page hpage), Option.some.injEq, Option.some.injEq]
    exact ⟨mem_held (hmem page hpage), hstate (ne_nil_of_mem hpage)⟩
  refine (howned.central.deallocAll hnodup.1 hpages).mono fun freed ⟨hcentral, hkeptStates⟩ =>
    ⟨hcentral.bounds_eq, hexclusive, ?_, hheld ▸ hcentral.holds⟩
  intro owner page hpage
  obtain ⟨hold, hstays⟩ := (mem_leave howned.exclusive hsource hother).mp hpage
  rw [hkeptStates page (mem_held hold) hstays, hkept owner page hpage]
  exact howned.states owner page hold

theorem Owned.take (target : FrameOwner cpus) {taken : BuddyFrameAllocator}
    (howned : Owned bounds allocator before stateBefore)
    (htaken : Taken bounds allocator taken (held before) pages)
    (htarget : (s' target).Perm (pages ++ before target))
    (hother : ∀ owner, owner ≠ target → s' owner = before owner)
    (hstate : pages ≠ [] → stateAfter target = frameStateAllocated)
    (hkept : ∀ owner, ∀ page ∈ before owner, stateAfter owner = stateBefore owner) :
    Owned bounds taken s' stateAfter := by
  have hexclusive := howned.exclusive.enter htarget hother htaken.nodup htaken.fresh
  refine ⟨htaken.bounds_eq, hexclusive, ?_, ?_⟩
  · intro owner page hpage
    by_cases hin : page ∈ pages
    · have howner := hexclusive.unique owner target page hpage
        (htarget.mem_iff.mpr (mem_append_left _ hin))
      rw [howner, hstate (ne_nil_of_mem hin)]
      exact htaken.granted page hin
    · have hold : page ∈ before owner :=
        ((mem_enter htarget hother).mp hpage).resolve_left fun hnew => hin hnew.2
      rw [htaken.kept page (mem_held hold), hkept owner page hold]
      exact howned.states owner page hold
  · rw [held_enter htarget hother]
    exact htaken.holds

end Kairix.Frame
