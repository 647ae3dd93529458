import Kairix.FrameAllocatorRequests
import Kairix.LabelledRun

/-!
# Uniqueness of frames and absence of panics

Every page of the memory map is at every moment never allocated, free in a
buddy block or outstanding.  The allocator does not panic on memory maps whose
ranges never share a block, and it does panic on a map with touching ranges.
-/

namespace Kairix.Frame

open DyadicBlock LinkedCells PanicOutcome LabelledRun BuddyFrameAllocator List Option

/-- Memory ranges as reported by the platform: disjoint, and made of physical
page numbers. -/
structure MemoryMap where
  ranges : List (ℕ × ℕ)
  disjoint : ranges.Pairwise fun first second =>
    ∀ page, ¬((first.1 ≤ page ∧ page < first.2) ∧ (second.1 ≤ page ∧ page < second.2))
  bounded : ∀ range ∈ ranges, range.2 ≤ pageNumberLimit

def MemoryMap.Page (map : MemoryMap) (page : ℕ) : Prop :=
  ∃ range ∈ map.ranges, range.1 ≤ page ∧ page < range.2

namespace BuddyFrameAllocator

def addRanges (self : BuddyFrameAllocator) : List (ℕ × ℕ) → Except FramePanic BuddyFrameAllocator
  | [] => .ok self
  | range :: rest => do
      let added ← self.addRange range.1 range.2
      added.addRanges rest

def freePages (self : BuddyFrameAllocator) : Set ℕ :=
  {page | ∃ order < frameBuddyOrders, ∃ base,
    Follows (fun page => (self.nodes page).next) buddyListEnd
      (self.buddyHeads order) base ∧ page ∈ block base order}

variable {self s' : BuddyFrameAllocator} {lists : ℕ → List ℕ} {held : Set ℕ}

theorem Holds.freePages_eq (hholds : Holds self lists held) : self.freePages = covered lists := by
  ext page
  constructor
  · rintro ⟨order, horder, base, hfollows, hpage⟩
    exact ⟨order, horder, base, ((hholds.linked order horder).follows_iff base).mp hfollows, hpage⟩
  · rintro ⟨order, horder, base, hbase, hpage⟩
    exact ⟨order, horder, base, ((hholds.linked order horder).follows_iff base).mpr hbase, hpage⟩

theorem Holds.withNodes (hholds : Holds self lists held) {nodes : ℕ → BuddyNode}
    (hnodes : ∀ page ∉ held, nodes page = self.nodes page) :
    Holds { self with nodes := nodes } lists held := by
  have hkept : ∀ order < frameBuddyOrders, ∀ page ∈ lists order,
      nodes page = self.nodes page := fun order horder page hpage =>
    hnodes page fun hheld => hholds.notMem_of_held hheld horder hpage
  refine { hholds with linked := ?_, node := ?_ }
  · intro order horder
    refine (hholds.linked order horder).congr ?_ ?_
    · exact fun page hpage => by simp only [hkept order horder page hpage]
    · exact fun page hpage => by simp only [hkept order horder page hpage]
  · intro order horder base hbase
    simp only [hkept order horder base hbase]
    exact hholds.node order horder base hbase

/-! ## Setting up -/

/-- The allocator while ranges are being added: nothing was handed out. -/
structure Untouched (allocator : BuddyFrameAllocator) (ranges : List (ℕ × ℕ)) :
    Prop where
  formed : allocator.Formed
  bounds : allocator.bounds = ranges.filter fun range => range.1 < range.2
  current : ∀ range ∈ allocator.ranges, range.current = range.start
  heads : ∀ order, allocator.buddyHeads order = buddyListEnd
  states : ∀ index, allocator.frameStates index = frameStateAllocated
  recycled : allocator.recycledCount = 0

theorem untouched_new (nodes : ℕ → BuddyNode) : Untouched (new nodes) [] where
  formed := ⟨by simp [new], Pairwise.nil⟩
  bounds := rfl
  current := by simp [new]
  heads := fun _ => rfl
  states := fun _ => rfl
  recycled := rfl

variable {ranges : List (ℕ × ℕ)}

theorem Untouched.addRange {l r : ℕ} (huntouched : Untouched self ranges)
    (hapart : ∀ range ∈ ranges, ∀ page,
      ¬((range.1 ≤ page ∧ page < range.2) ∧ (l ≤ page ∧ page < r))) (hlimit : r ≤ pageNumberLimit) :
    Outcome (self.addRange l r) (self.ranges.length < memVectorCapacity)
      fun s' => Untouched s' (ranges ++ [(l, r)]) := by
  rw [BuddyFrameAllocator.addRange]
  split
  · next hempty =>
    have hfilter : ¬l < r := by omega
    refine { huntouched with bounds := ?_ }
    rw [huntouched.bounds]
    simp [hfilter]
  · next hlt =>
    split
    · next hfull => exact fun hsafe => by omega
    · have hmemBounds : ∀ range ∈ self.ranges,
          (range.start, range.stop) ∈ ranges ∧ range.start < range.stop := by
        intro range hrange
        have hmem := mem_bounds hrange
        rw [huntouched.bounds, mem_filter] at hmem
        exact ⟨hmem.1, by simpa using hmem.2⟩
      constructor
      case formed =>
        refine ⟨?_, ?_⟩
        · intro range hrange
          rw [mem_append, mem_singleton] at hrange
          rcases hrange with hold | rfl
          · have hrangeFormed := huntouched.formed.formed range hold
            exact { hrangeFormed with
              metadata_le := hrangeFormed.metadata_le.trans (Nat.le_add_right _ _) }
          · exact ⟨le_rfl, by simp only; omega, hlimit, le_rfl⟩
        · rw [pairwise_append]
          refine ⟨huntouched.formed.apart, pairwise_singleton _ _, ?_⟩
          intro range hrange other hother
          rw [mem_singleton] at hother
          subst hother
          obtain ⟨hmem, hnonempty⟩ := hmemBounds range hrange
          have hpage := hapart _ hmem (max range.start l)
          refine ⟨?_, .inl (huntouched.formed.formed range hrange).metadata_le⟩
          simp only at hpage ⊢
          omega
      case bounds =>
        have hbounds := huntouched.bounds
        rw [BuddyFrameAllocator.bounds] at hbounds ⊢
        rw [map_append, hbounds, filter_append]
        have hfilter : l < r := by omega
        simp [hfilter]
      case current =>
        intro range hrange
        rw [mem_append, mem_singleton] at hrange
        rcases hrange with hold | rfl
        · exact huntouched.current range hold
        · rfl
      case heads => exact huntouched.heads
      case states =>
        intro index
        simp only
        split
        · rfl
        · exact huntouched.states index
      case recycled => exact huntouched.recycled

theorem Untouched.addRanges (rest : List (ℕ × ℕ)) (huntouched : Untouched self ranges)
    (hdisjoint : (ranges ++ rest).Pairwise fun first second => ∀ page,
      ¬((first.1 ≤ page ∧ page < first.2) ∧ (second.1 ≤ page ∧ page < second.2)))
    (hlimit : ∀ range ∈ rest, range.2 ≤ pageNumberLimit) :
    Outcome (self.addRanges rest) ((ranges ++ rest).length ≤ memVectorCapacity)
      fun s' => Untouched s' (ranges ++ rest) := by
  induction rest generalizing self ranges with
  | nil =>
    rw [append_nil]
    exact huntouched
  | cons range rest ih =>
    rw [BuddyFrameAllocator.addRanges]
    have hsplit : ranges ++ range :: rest = (ranges ++ [range]) ++ rest := by simp
    have hlength : self.ranges.length ≤ ranges.length := by
      have hbounds := congrArg length huntouched.bounds
      rw [BuddyFrameAllocator.bounds, length_map] at hbounds
      rw [hbounds]
      exact length_filter_le _ _
    refine ((huntouched.addRange (fun other hother => ?_)
      (hlimit range mem_cons_self)).mono ?_ fun _ h => h).bind _ ?_
    · rw [pairwise_append] at hdisjoint
      exact hdisjoint.2.2 other hother range mem_cons_self
    · intro hcount
      rw [length_append, length_cons] at hcount
      omega
    · intro added hadded
      rw [hsplit] at hdisjoint ⊢
      exact ih hadded hdisjoint fun other hother =>
        hlimit other (mem_cons_of_mem _ hother)

theorem Untouched.holds (huntouched : Untouched self ranges) : Holds self (fun _ => []) ∅ := by
  have hnotReached : ∀ page, ¬self.Reached page := by
    rintro page ⟨range, hrange, hstart, hcurrent⟩
    rw [huntouched.current range hrange] at hcurrent
    omega
  have hcovered : covered (fun _ => []) = ∅ := by
    ext page
    simp [covered]
  have hstate : ∀ page, self.Managed page → self.frameState page = some frameStateAllocated := by
    intro page hmanaged
    rw [← frameState_isSome_iff huntouched.formed] at hmanaged
    obtain ⟨state, hstate⟩ := isSome_iff_exists.mp hmanaged
    rw [frameState, map_eq_some_iff] at hstate
    obtain ⟨index, hindex, -⟩ := hstate
    rw [frameState, hindex, map_some, huntouched.states]
  constructor
  case formed => exact huntouched.formed
  case linked =>
    intro order horder
    rw [huntouched.heads]
    exact Linked.nil
  case state_iff =>
    intro order horder page
    simp only [not_mem_nil, iff_false]
    intro hfree
    have hsome := hstate page (managed_of_frameState huntouched.formed hfree)
    have hlarge : frameBuddyOrders ≤ frameStateAllocated := by decide
    rw [hfree, some.injEq] at hsome
    omega
  case covered_iff =>
    intro page
    simp [hcovered, hnotReached page]
  case fresh_state =>
    intro page hfresh
    exact hstate page ((huntouched.formed.managed_iff page).mpr (.inr hfresh))
  case count => rw [hcovered, Set.ncard_empty, huntouched.recycled]
  all_goals simp

theorem page_iff_managed {map : MemoryMap} {allocator : BuddyFrameAllocator}
    (hbounds : allocator.bounds = map.ranges.filter fun range => range.1 < range.2) (page : ℕ) :
    map.Page page ↔ allocator.Managed page := by
  constructor
  · rintro ⟨range, hrange, hlow, hhigh⟩
    have hmem : range ∈ allocator.bounds := by
      rw [hbounds, mem_filter]
      exact ⟨hrange, by simp only [decide_eq_true_eq]; omega⟩
    obtain ⟨frameRange, hframe, rfl⟩ := mem_map.mp hmem
    exact ⟨frameRange, hframe, hlow, hhigh⟩
  · rintro ⟨frameRange, hframe, hlow, hhigh⟩
    have hmem := mem_bounds hframe
    rw [hbounds, mem_filter] at hmem
    exact ⟨_, hmem.1, hlow, hhigh⟩

theorem allocBuddyPowerOfTwo_eq_none {target : ℕ}
    (hrun : self.allocBuddyPowerOfTwo target = .ok (s', none)) :
    s' = self ∧ self.sourceOrder target = none := by
  rw [allocBuddyPowerOfTwo] at hrun
  split at hrun
  · next hsource =>
    cases hrun
    exact ⟨rfl, hsource⟩
  · simp only [bind, Except.bind] at hrun
    repeat' split at hrun
    all_goals cases hrun

theorem Holds.covered_of_sourceOrder (hholds : Holds self lists held)
    (hsource : self.sourceOrder 0 = none) (page : ℕ) : page ∉ covered lists := by
  rintro ⟨order, horder, base, hbase, -⟩
  have hstop := find?_eq_none.mp hsource order (by simpa using horder)
  have hlinked := hholds.linked order horder
  obtain ⟨first, rest, hlist⟩ := exists_cons_of_ne_nil (ne_nil_of_mem hbase)
  refine hlinked.stop_notMem ?_
  simp_all [hlinked.head_eq]

theorem Holds.held_of_alloc_eq_none (hholds : Holds self lists held)
    (hrun : self.alloc = .ok (s', none)) {page : ℕ} (hpage : self.Managed page) : page ∈ held := by
  rw [alloc] at hrun
  rcases htaken : self.allocBuddyPowerOfTwo 0 with panic | ⟨taken, _ | ppn⟩ <;>
    simp only [htaken, bind, Except.bind] at hrun
  · cases hrun
  · obtain ⟨rfl, hsource⟩ := allocBuddyPowerOfTwo_eq_none htaken
    split at hrun
    · next hindex =>
      have hfull := findIdx?_eq_none_iff.mp hindex
      rcases (hholds.formed.managed_iff page).mp hpage with hreached | ⟨range, hrange, hlow, hhigh⟩
      · by_contra hfree
        exact hholds.covered_of_sourceOrder hsource page
          ((hholds.covered_iff page).mpr ⟨hreached, hfree⟩)
      · have := hfull range hrange
        simp only [decide_eq_false_iff_not] at this
        omega
    · cases hrun
  · cases hrun

end BuddyFrameAllocator

/-! ## Safety -/

structure FrameConfig where
  allocator : BuddyFrameAllocator
  outstanding : Finset ℕ

inductive FrameCall where
  | alloc
  | allocContiguous (pages alignPages : ℕ)
  | dealloc (ppn : ℕ)
  | store (ppn : ℕ) (node : BuddyNode)

namespace FrameConfig

def boot (map : MemoryMap) (nodes : ℕ → BuddyNode) : Except FramePanic FrameConfig := do
  let allocator ← (BuddyFrameAllocator.new nodes).addRanges map.ranges
  .ok ⟨allocator, ∅⟩

def grant (config : FrameConfig) (allocator : BuddyFrameAllocator) :
    Option FrameExtent → FrameConfig
  | none => { config with allocator := allocator }
  | some extent =>
    ⟨allocator, config.outstanding ∪ Finset.Ico extent.start (extent.start + extent.pages)⟩

def exec (config : FrameConfig) : FrameCall → Except FramePanic (FrameConfig × Option FrameExtent)
  | .alloc => do
      let result ← config.allocator.alloc
      let extent := result.2.map fun ppn => ⟨ppn, 1⟩
      .ok (config.grant result.1 extent, extent)
  | .allocContiguous pages alignPages => do
      let result ← config.allocator.allocContiguous pages alignPages
      .ok (config.grant result.1 result.2, result.2)
  | .dealloc ppn => do
      let after ← config.allocator.dealloc ppn
      .ok (⟨after, config.outstanding.erase ppn⟩, none)
  | .store ppn node =>
    .ok ({ config with allocator := { config.allocator with
      nodes := Function.update config.allocator.nodes ppn node } }, none)

def legal (config : FrameConfig) : FrameCall → Prop
  | .alloc => True
  | .allocContiguous _ _ => True
  | .dealloc ppn => ppn ∈ config.outstanding
  | .store ppn _ => ppn ∈ config.outstanding

instance (config : FrameConfig) (call : FrameCall) : Decidable (config.legal call) := by
  unfold legal
  cases call <;> infer_instance

def next (config : FrameConfig) (call : FrameCall) : Option FrameConfig :=
  (config.exec call).toOption.map Prod.fst

structure Invariant (bounds : List (ℕ × ℕ)) (s : FrameConfig) : Prop where
  bounds_eq : s.allocator.bounds = bounds
  allocated : ∀ page ∈ s.outstanding,
    s.allocator.frameState page = some frameStateAllocated
  holds : ∃ lists, Holds s.allocator lists s.outstanding ∧
    (NeverMerge bounds → AllInside s.allocator lists)

structure GrantedCall (bounds : List (ℕ × ℕ)) (config : FrameConfig)
    (call : FrameCall) (extent : FrameExtent) : Prop where
  unique : ∀ page ∈ Set.Ico extent.start (extent.start + extent.pages), page ∉ config.outstanding
  aligned : ∀ pages alignPages, call = .allocContiguous pages alignPages →
    extent.pages = pages ∧ alignPages ∣ extent.start
  within : extent.pages ≠ 0 → ∃ range ∈ bounds,
    range.1 ≤ extent.start ∧ extent.start + extent.pages ≤ range.2

variable {bounds : List (ℕ × ℕ)} {config s : FrameConfig}

theorem Invariant.of_granted {lists : ℕ → List ℕ} {allocator : BuddyFrameAllocator}
    {start pages : ℕ} (hinv : s.Invariant bounds)
    (hall : NeverMerge bounds → AllInside s.allocator lists)
    (hgranted : Granted s.allocator allocator s.outstanding start pages (Sound s.allocator lists)) :
    (s.grant allocator (some ⟨start, pages⟩)).Invariant bounds := by
  obtain ⟨listsAfter, hafter, hinside⟩ := hgranted.holds
  constructor
  case bounds_eq => exact hgranted.bounds.trans hinv.bounds_eq
  case allocated =>
    intro page hpage
    rw [grant, Finset.mem_union, Finset.mem_Ico] at hpage
    rcases hpage with hold | hnew
    · exact (hgranted.kept page hold).trans (hinv.allocated page hold)
    · exact hgranted.granted page hnew
  case holds =>
    refine ⟨listsAfter, ?_, fun hmerge => hinside ⟨?_, hall hmerge⟩⟩
    · simpa only [grant, Finset.coe_union, Finset.coe_Ico] using hafter
    · rwa [hinv.bounds_eq]

variable {call : FrameCall}

theorem Invariant.grantedCall {allocator : BuddyFrameAllocator} {start pages : ℕ} {safe : Prop}
    (hinv : s.Invariant bounds)
    (hgranted : Granted s.allocator allocator s.outstanding start pages safe)
    (haligned : ∀ asked alignPages, call = .allocContiguous asked alignPages →
      pages = asked ∧ alignPages ∣ start) : GrantedCall bounds s call ⟨start, pages⟩ :=
  ⟨hgranted.apart, haligned, by rw [← hinv.bounds_eq]; exact hgranted.within⟩

theorem Invariant.exec_spec (hinv : s.Invariant bounds) (hlegal : s.legal call) :
    Outcome (s.exec call) (NeverMerge bounds) fun result =>
      result.1.Invariant bounds ∧
        ∀ extent, result.2 = some extent → GrantedCall bounds s call extent := by
  obtain ⟨lists, hholds, hall⟩ := hinv.holds
  have hsound : NeverMerge bounds → Sound s.allocator lists := fun hmerge =>
    ⟨by rwa [hinv.bounds_eq], hall hmerge⟩
  cases call with
  | alloc =>
    rw [exec]
    refine (hholds.alloc_granted.mono hsound fun _ h => h).bind _ ?_
    rintro ⟨allocator, found⟩ hresult
    cases found with
    | none =>
      obtain rfl : allocator = s.allocator := hresult
      exact ⟨hinv, by simp⟩
    | some ppn =>
      refine ⟨hinv.of_granted hall hresult, ?_⟩
      rintro extent ⟨⟩
      exact hinv.grantedCall hresult (by simp)
  | allocContiguous pages alignPages =>
    rw [exec]
    refine ((hholds.allocContiguous_granted pages alignPages).mono hsound fun _ h => h).bind _ ?_
    rintro ⟨allocator, found⟩ hresult
    cases found with
    | none =>
      obtain rfl : allocator = s.allocator := hresult
      exact ⟨hinv, by simp⟩
    | some extent =>
      obtain ⟨start, extentPages⟩ := extent
      obtain ⟨rfl, haligned, hgranted⟩ := hresult
      refine ⟨hinv.of_granted hall hgranted, ?_⟩
      rintro extent ⟨⟩
      refine hinv.grantedCall hgranted ?_
      rintro _ _ ⟨⟩
      exact ⟨rfl, haligned⟩
  | dealloc ppn =>
    rw [exec]
    have hheld : ppn ∈ (s.outstanding : Set ℕ) := hlegal
    refine ((hholds.dealloc_gives hheld).mono (fun hmerge =>
      ⟨hsound hmerge, .inl (hinv.allocated ppn hlegal)⟩) fun _ h => h).bind _ ?_
    rintro s' ⟨hranges, hkept, listsAfter, hafter, hinside⟩
    refine ⟨⟨?_, ?_, listsAfter, ?_, fun hmerge => hinside (hsound hmerge)⟩, by simp⟩
    · exact (bounds_congr hranges).trans hinv.bounds_eq
    · intro page hpage
      rw [Finset.mem_erase] at hpage
      exact (hkept page ⟨hpage.2, hpage.1⟩).trans (hinv.allocated page hpage.2)
    · simpa only [Finset.coe_erase] using hafter
  | store ppn node =>
    refine ⟨⟨hinv.bounds_eq, hinv.allocated, lists, hholds.withNodes ?_, hall⟩, by simp⟩
    intro page hpage
    refine Function.update_of_ne ?_ ..
    rintro rfl
    exact hpage hlegal

theorem boot_spec (map : MemoryMap) (nodes : ℕ → BuddyNode) :
    Outcome (boot map nodes) (map.ranges.length ≤ memVectorCapacity) fun s =>
      s.Invariant (map.ranges.filter fun range => range.1 < range.2) := by
  rw [boot]
  have hadd := (untouched_new nodes).addRanges map.ranges map.disjoint map.bounded
  rw [nil_append] at hadd
  refine hadd.bind _ ?_
  intro allocator huntouched
  refine ⟨huntouched.bounds, by simp, fun _ => [], ?_, ?_⟩
  · simpa only [Finset.coe_empty] using huntouched.holds
  · intro _ order _ base hbase
    simp at hbase

theorem next_eq_some {s' : FrameConfig} (hnext : s.next call = some s') :
    ∃ extent, s.exec call = .ok (s', extent) := by
  rw [next, map_eq_some_iff] at hnext
  obtain ⟨⟨state, extent⟩, hexec, rfl⟩ := hnext
  exact ⟨extent, eq_ok_of_toOption hexec⟩

theorem Invariant.reachable {start : FrameConfig} (hstart : start.Invariant bounds)
    (hreach : Reachable next legal start s) : s.Invariant bounds := by
  refine hreach.invariant hstart ?_
  intro state call s' hinv hlegal hnext
  obtain ⟨extent, hexec⟩ := next_eq_some hnext
  exact ((hinv.exec_spec hlegal).value hexec).1

/-- Every page of the map is never allocated, free or outstanding, and only one
of the three. -/
structure Partitioned (map : MemoryMap) (config : FrameConfig) : Prop where
  cover : ∀ page, map.Page page ↔ config.allocator.Fresh page ∨
    page ∈ config.allocator.freePages ∨ page ∈ config.outstanding
  fresh_not_free : ∀ page, config.allocator.Fresh page → page ∉ config.allocator.freePages
  fresh_not_outstanding : ∀ page, config.allocator.Fresh page → page ∉ config.outstanding
  free_not_outstanding : ∀ page ∈ config.allocator.freePages, page ∉ config.outstanding

theorem Invariant.partitioned {map : MemoryMap}
    (hinv : s.Invariant (map.ranges.filter fun range => range.1 < range.2)) :
    s.Partitioned map := by
  obtain ⟨lists, hholds, -⟩ := hinv.holds
  have hfree := hholds.freePages_eq
  constructor
  case cover =>
    intro page
    rw [page_iff_managed hinv.bounds_eq, hholds.formed.managed_iff, hfree, hholds.covered_iff]
    constructor
    · rintro (hreached | hfresh)
      · by_cases hout : page ∈ s.outstanding
        · exact .inr (.inr hout)
        · exact .inr (.inl ⟨hreached, by simpa using hout⟩)
      · exact .inl hfresh
    · rintro (hfresh | ⟨hreached, -⟩ | hout)
      · exact .inr hfresh
      · exact .inl hreached
      · exact .inl (hholds.held_reached page hout)
  case fresh_not_free =>
    intro page hfresh hpage
    rw [hfree, hholds.covered_iff] at hpage
    exact hholds.formed.not_reached_and_fresh hpage.1 hfresh
  case fresh_not_outstanding =>
    intro page hfresh hpage
    exact hholds.formed.not_reached_and_fresh (hholds.held_reached page hpage) hfresh
  case free_not_outstanding =>
    intro page hpage
    rw [hfree, hholds.covered_iff] at hpage
    simpa using hpage.2

theorem GrantedCall.mono {larger : List (ℕ × ℕ)} {extent : FrameExtent}
    (hgranted : GrantedCall bounds s call extent) (hsub : bounds ⊆ larger) :
    GrantedCall larger s call extent :=
  { hgranted with
    within := fun hne => (hgranted.within hne).imp fun _ h => ⟨hsub h.1, h.2⟩ }

/-- In every state reached the pages of the map are partitioned, the count of
recycled pages is exact, and what a call returns was not outstanding. -/
theorem partitioned_of_reachable (map : MemoryMap) (nodes : ℕ → BuddyNode)
    {start config : FrameConfig} (hboot : boot map nodes = .ok start)
    (hreach : Reachable next legal start config) :
    config.Partitioned map ∧ config.allocator.recycledCount = config.allocator.freePages.ncard ∧
      ∀ call after extent, config.legal call → config.exec call = .ok (after, some extent) →
          GrantedCall map.ranges config call extent := by
  have hinv := ((boot_spec map nodes).value hboot).reachable hreach
  refine ⟨hinv.partitioned, ?_, ?_⟩
  · obtain ⟨lists, hholds, -⟩ := hinv.holds
    rw [hholds.freePages_eq, hholds.count]
  · intro call after extent hlegal hexec
    exact (((hinv.exec_spec hlegal).value hexec).2 extent rfl).mono
      fun _ hmem => (mem_filter.mp hmem).1

/-- Two ranges of one page each which touch in the middle of a block. -/
def touchingMap : MemoryMap where
  ranges := [(2, 3), (3, 4)]
  disjoint := by
    rw [pairwise_pair]
    intro page
    omega
  bounded := by decide

def emptyNode : BuddyNode := ⟨0, 0, 0, 0#64⟩

def panicOf (config : FrameConfig) (call : FrameCall) : Option FramePanic :=
  match config.exec call with
  | .error panic => some panic
  | .ok _ => none

theorem exec_eq_error {panic : FramePanic} (hpanic : s.panicOf call = some panic) :
    s.exec call = .error panic := by
  rw [panicOf] at hpanic
  split at hpanic
  · next heq => rw [heq, some.inj hpanic]
  · exact absurd hpanic (by simp)

/-- After two pages of touching ranges were handed out and given back, their
merged block belongs to neither range. -/
theorem touchingMap_run : ((boot touchingMap fun _ => emptyNode).toOption.bind fun start =>
      (runSteps next legal start [.alloc, .alloc, .dealloc 2, .dealloc 3]).bind
        fun s => s.panicOf (.allocContiguous 2 1)) =
      some .stateRangeCrossesRegion := by
  decide

theorem touchingMap_reaches_panic : ∃ start s, boot touchingMap (fun _ => emptyNode) = .ok start ∧
      Reachable next legal start s ∧
      s.exec (.allocContiguous 2 1) = .error .stateRangeCrossesRegion := by
  obtain ⟨start, hboot, hrest⟩ := bind_eq_some_iff.mp touchingMap_run
  obtain ⟨s, hrun, hpanic⟩ := bind_eq_some_iff.mp hrest
  exact ⟨start, s, eq_ok_of_toOption hboot, Reachable.start.runSteps hrun, exec_eq_error hpanic⟩

theorem partitioned_after_touching_run :
    ∃ start config, boot touchingMap (fun _ => emptyNode) = .ok start ∧
      Reachable next legal start config ∧ config.Partitioned touchingMap ∧
      config.allocator.recycledCount = config.allocator.freePages.ncard := by
  obtain ⟨start, config, hboot, hreach, -⟩ := touchingMap_reaches_panic
  have hpartitioned := partitioned_of_reachable touchingMap _ hboot hreach
  exact ⟨start, config, hboot, hreach, hpartitioned.1, hpartitioned.2.1⟩

/-- On a map whose ranges never share a block no call panics. -/
theorem exec_ok_of_neverMerge (map : MemoryMap) (nodes : ℕ → BuddyNode)
    (hmerge : NeverMerge map.ranges) (hcount : map.ranges.length ≤ memVectorCapacity) :
    ∃ start, boot map nodes = .ok start ∧ ∀ config, Reachable next legal start config →
        ∀ call, config.legal call → ∃ result, config.exec call = .ok result := by
  obtain ⟨start, hboot, hstart⟩ := (boot_spec map nodes).total hcount
  refine ⟨start, hboot, fun config hreach call hlegal => ?_⟩
  have hfiltered : NeverMerge (map.ranges.filter fun range => range.1 < range.2) :=
    fun first hfirst second hsecond =>
      hmerge first (mem_filter.mp hfirst).1 second (mem_filter.mp hsecond).1
  obtain ⟨result, hexec, -⟩ := ((hstart.reachable hreach).exec_spec hlegal).total hfiltered
  exact ⟨result, hexec⟩

/-- Touching ranges whose border is not in the middle of a block both can
fill. -/
def steppedMap : MemoryMap where
  ranges := [(3, 4), (4, 8)]
  disjoint := by
    rw [pairwise_pair]
    intro page
    omega
  bounded := by decide

theorem exec_ok_on_steppedMap :
    (NeverMerge steppedMap.ranges ∧ steppedMap.ranges.length ≤ memVectorCapacity) ∧
      ∃ start, boot steppedMap (fun _ => emptyNode) = .ok start ∧
        ∀ config, Reachable next legal start config →
          ∀ call, config.legal call → ∃ result, config.exec call = .ok result := by
  have hmerge : NeverMerge steppedMap.ranges := by
    rintro first hfirst second hsecond order - ⟨htouch, hmiddle, hlow, hhigh⟩
    simp only [steppedMap, mem_cons, not_mem_nil, or_false] at hfirst hsecond
    have hpos := Nat.two_pow_pos order
    rcases hfirst with rfl | rfl <;> rcases hsecond with rfl | rfl <;>
      simp only at htouch hmiddle hlow hhigh
    · omega
    · have hone : 2 ^ order = 1 := by omega
      rw [pow_succ, hone] at hmiddle
      omega
    · omega
    · omega
  exact ⟨⟨hmerge, by decide⟩, exec_ok_of_neverMerge steppedMap _ hmerge (by decide)⟩

theorem not_exec_ok_on_every_map : ¬∀ (map : MemoryMap) (nodes : ℕ → BuddyNode),
      map.ranges.length ≤ memVectorCapacity → ∃ start, boot map nodes = .ok start ∧
          ∀ config, Reachable next legal start config →
            ∀ call, config.legal call → ∃ result, config.exec call = .ok result := by
  intro hall
  obtain ⟨start, config, hboot, hreach, hpanic⟩ := touchingMap_reaches_panic
  obtain ⟨other, hbootOther, hok⟩ := hall touchingMap (fun _ => emptyNode) (by decide)
  rw [hboot] at hbootOther
  obtain rfl : start = other := Except.ok.inj hbootOther
  obtain ⟨result, hexec⟩ := hok config hreach (.allocContiguous 2 1) trivial
  rw [hpanic] at hexec
  exact absurd hexec (by simp)

/-- A request for one page is refused only when every page of the map is handed out. -/
theorem exhausted_of_alloc_refused (map : MemoryMap) (nodes : ℕ → BuddyNode)
    {start config after : FrameConfig} (hboot : boot map nodes = .ok start)
    (hreach : Reachable next legal start config) (hexec : config.exec .alloc = .ok (after, none))
    {page : ℕ} (hpage : map.Page page) : page ∈ config.outstanding := by
  have hinv := ((boot_spec map nodes).value hboot).reachable hreach
  obtain ⟨lists, hholds, -⟩ := hinv.holds
  rw [exec] at hexec
  rcases halloc : config.allocator.alloc with panic | ⟨taken, _ | ppn⟩ <;>
    simp only [halloc, bind, Except.bind] at hexec
  · cases hexec
  · exact hholds.held_of_alloc_eq_none halloc ((page_iff_managed hinv.bounds_eq page).mp hpage)
  · cases hexec

theorem exhausted_after_two_pages : ∃ start config after,
      boot touchingMap (fun _ => emptyNode) = .ok start ∧ Reachable next legal start config ∧
      config.exec .alloc = .ok (after, none) ∧ 3 ∈ config.outstanding := by
  obtain ⟨start, hboot, config, hrun, after, hexec⟩ : ∃ start,
      boot touchingMap (fun _ => emptyNode) = .ok start ∧ ∃ config,
      runSteps next legal start [.alloc, .alloc] = some config ∧ ∃ after,
      config.exec .alloc = .ok (after, none) :=
    ⟨_, rfl, _, rfl, _, rfl⟩
  have hreach := Reachable.start.runSteps hrun
  refine ⟨start, config, after, hboot, hreach, hexec, ?_⟩
  exact exhausted_of_alloc_refused touchingMap _ hboot hreach hexec ⟨(3, 4), by decide, by decide⟩

end FrameConfig

end Kairix.Frame
