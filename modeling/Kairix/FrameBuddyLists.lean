import Kairix.FrameAllocator
import Kairix.LinkedCells

/-!
# The invariant of the buddy lists

`Holds allocator lists held` reads the allocator as a family of free lists, one for
every order, and a set of pages which are neither free nor fresh.  The lists
are ghost data: they are determined by the links in memory.
-/

namespace Kairix.Frame

open DyadicBlock LinkedCells PanicOutcome Function

def covered (lists : ℕ → List ℕ) : Set ℕ :=
  {page | ∃ order < frameBuddyOrders, ∃ base ∈ lists order, page ∈ block base order}

namespace BuddyFrameAllocator

structure Holds (allocator : BuddyFrameAllocator) (lists : ℕ → List ℕ)
    (held : Set ℕ) : Prop where
  formed : allocator.Formed
  linked : ∀ order < frameBuddyOrders,
    Linked (fun page => (allocator.nodes page).previous)
      (fun page => (allocator.nodes page).next) buddyListEnd
      (allocator.buddyHeads order) (lists order)
  node : ∀ order < frameBuddyOrders, ∀ base ∈ lists order,
    allocator.nodes base = buddyNode base (allocator.nodes base).previous
      (allocator.nodes base).next order
  state_iff : ∀ order < frameBuddyOrders, ∀ page,
    allocator.frameState page = some order ↔ page ∈ lists order
  aligned : ∀ order < frameBuddyOrders, ∀ base ∈ lists order, 2 ^ order ∣ base
  unique : ∀ first < frameBuddyOrders, ∀ second < frameBuddyOrders,
    ∀ base ∈ lists first, ∀ other ∈ lists second, ∀ page,
      page ∈ block base first → page ∈ block other second → first = second ∧ base = other
  covered_iff : ∀ page, page ∈ covered lists ↔ allocator.Reached page ∧ page ∉ held
  held_reached : ∀ page ∈ held, allocator.Reached page
  interior : ∀ order < frameBuddyOrders, ∀ base ∈ lists order,
    ∀ page ∈ block base order, page ≠ base → allocator.frameState page = some frameStateFreeInterior
  fresh_state : ∀ page, allocator.Fresh page → allocator.frameState page = some frameStateAllocated
  count : allocator.recycledCount = (covered lists).ncard

def AllInside (self : BuddyFrameAllocator) (lists : ℕ → List ℕ) : Prop :=
  ∀ order < frameBuddyOrders, ∀ base ∈ lists order, self.Inside base (base + 2 ^ order)

variable {self s' : BuddyFrameAllocator} {lists : ℕ → List ℕ} {held : Set ℕ}
variable {ppn order : ℕ}

theorem mem_covered (horder : order < frameBuddyOrders) {base page : ℕ} (hbase : base ∈ lists order)
    (hpage : page ∈ block base order) : page ∈ covered lists :=
  ⟨order, horder, base, hbase, hpage⟩

theorem Holds.notMem_of_held (hholds : Holds self lists held) (hheld : ppn ∈ held)
    (horder : order < frameBuddyOrders) : ppn ∉ lists order := by
  intro hmem
  have hcovered := mem_covered horder hmem (base_mem_block ppn order)
  exact ((hholds.covered_iff ppn).mp hcovered).2 hheld

theorem Holds.reached_of_mem (hholds : Holds self lists held) (horder : order < frameBuddyOrders)
    (hmem : ppn ∈ lists order) {page : ℕ} (hpage : page ∈ block ppn order) : self.Reached page :=
  ((hholds.covered_iff page).mp (mem_covered horder hmem hpage)).1

theorem Formed.ne_listEnd
    (hformed : self.Formed) (hreached : self.Reached ppn) : ppn ≠ buddyListEnd := by
  have hlt := hformed.lt_of_managed (hformed.managed_of_reached hreached)
  have hlimit : pageNumberLimit < buddyListEnd := by decide
  omega

theorem Holds.finite_covered (hholds : Holds self lists held) : (covered lists).Finite := by
  refine (Set.finite_Iio pageNumberLimit).subset fun page hpage => ?_
  have hreached := ((hholds.covered_iff page).mp hpage).1
  exact hholds.formed.lt_of_managed (hholds.formed.managed_of_reached hreached)

theorem Holds.eq_order (hholds : Holds self lists held) {other : ℕ}
    (horder : order < frameBuddyOrders) (hother : other < frameBuddyOrders)
    (hmem : ppn ∈ lists order) (hmemOther : ppn ∈ lists other) : order = other :=
  (hholds.unique order horder other hother ppn hmem ppn hmemOther ppn
    (base_mem_block ppn order) (base_mem_block ppn other)).1

theorem readBuddyNode_outcome {safe : Prop} {previous next : ℕ}
    (hnode : self.nodes ppn = buddyNode ppn previous next order)
    (hstate : self.frameState ppn = some order)
    (hprevious : safe → self.neighbourValid previous order = true)
    (hnext : safe → self.neighbourValid next order = true) :
    Outcome (self.readBuddyNode ppn order) safe fun links => links = (previous, next) := by
  simp only [readBuddyNode, hnode, buddyNode, true_and, hstate]
  split
  · exact rfl
  · next hinvalid =>
    exact fun hsafe => hinvalid ⟨hprevious hsafe, hnext hsafe⟩

theorem neighbourValid_listEnd : self.neighbourValid buddyListEnd order = true := by
  simp [neighbourValid]

theorem Holds.neighbourValid_of_listed (hholds : Holds self lists held)
    (hinside : AllInside self lists) (horder : order < frameBuddyOrders)
    (hranges : s'.ranges = self.ranges) (hlisted : ppn = buddyListEnd ∨ ppn ∈ lists order)
    (hstate : ppn ∈ lists order → s'.frameState ppn = self.frameState ppn) :
    s'.neighbourValid ppn order = true := by
  rcases hlisted with rfl | hmem
  · exact neighbourValid_listEnd
  · have hblock := (hholds.formed.blockWithinAllocatedRange_iff ppn order).mpr
      ⟨hholds.aligned order horder ppn hmem, hinside order horder ppn hmem⟩
    have hblockAfter : s'.blockWithinAllocatedRange ppn order = true := by
      simpa only [blockWithinAllocatedRange, rangeForPpn, hranges] using hblock
    rw [neighbourValid, hblockAfter, hstate hmem, (hholds.state_iff order horder ppn).mpr hmem]
    simp

/-! ## Linking a block in front -/

structure Pushed (before after : BuddyFrameAllocator) (ppn order : ℕ) : Prop where
  ranges : after.ranges = before.ranges
  frameStateCount : after.frameStateCount = before.frameStateCount
  heads : after.buddyHeads = update before.buddyHeads order ppn
  state : ∀ page, after.frameState page = if page = ppn then some order else before.frameState page
  recycled : after.recycledCount = before.recycledCount + 2 ^ order
  node_new : after.nodes ppn = buddyNode ppn buddyListEnd (before.buddyHeads order) order
  node_head : before.buddyHeads order ≠ buddyListEnd →
    after.nodes (before.buddyHeads order) = buddyNode (before.buddyHeads order)
      ppn (before.nodes (before.buddyHeads order)).next order
  node_other : ∀ page, page ≠ ppn → page ≠ before.buddyHeads order →
    after.nodes page = before.nodes page

theorem Holds.buddyPush_pushed (hholds : Holds self lists held) (horder : order < frameBuddyOrders)
    (hheld : ppn ∈ held) :
    Outcome (self.buddyPush ppn order) (AllInside self lists)
      fun s' => Pushed self s' ppn order := by
  have hformed := hholds.formed
  have hlinked := hholds.linked order horder
  have hfresh := hholds.notMem_of_held hheld horder
  obtain ⟨states, hset, hstates⟩ := hformed.setFrameState_spec
    (hformed.managed_of_reached (hholds.held_reached ppn hheld)) order
  simp only [buddyPush, hset]
  split
  · next hend =>
    exact
      { ranges := rfl, frameStateCount := rfl, heads := rfl, state := hstates,
        recycled := rfl, node_new := update_self ..,
        node_head := fun hne => absurd hend hne,
        node_other := fun page hne _ => update_of_ne hne .. }
  · next hhead =>
    have hmem := hlinked.head_mem hhead
    have hne : self.buddyHeads order ≠ ppn := fun heq => hfresh (heq ▸ hmem)
    have hnodeHead := hholds.node order horder _ hmem
    rw [hlinked.previous_head hhead] at hnodeHead
    have hread : Outcome (({ self with frameStates := states }).writeBuddyNode ppn buddyListEnd
          (self.buddyHeads order) order |>.readBuddyNode (self.buddyHeads order) order)
        (AllInside self lists) fun links =>
          links = (buddyListEnd, (self.nodes (self.buddyHeads order)).next) := by
      refine readBuddyNode_outcome ?_ ?_ (fun _ => neighbourValid_listEnd) ?_
      · exact (update_of_ne hne ..).trans hnodeHead
      · exact ((hstates _).trans (if_neg hne)).trans ((hholds.state_iff order horder _).mpr hmem)
      · intro hinside
        refine hholds.neighbourValid_of_listed hinside horder rfl
          (hlinked.next_mem_or hmem) fun hnext => (hstates _).trans (if_neg ?_)
        exact fun heq => hfresh (heq ▸ hnext)
    refine hread.bind _ fun links hlinks => ?_
    subst hlinks
    exact
      { ranges := rfl, frameStateCount := rfl, heads := rfl, state := hstates,
        recycled := rfl,
        node_new := (update_of_ne hne.symm ..).trans (update_self ..),
        node_head := fun _ => update_self ..,
        node_other := fun page hpage hother =>
          (update_of_ne hother ..).trans (update_of_ne hpage ..) }

variable {base other : ℕ}

theorem mem_push : base ∈ update lists order (ppn :: lists order) other ↔
    base = ppn ∧ other = order ∨ base ∈ lists other := by
  rcases eq_or_ne other order with rfl | hne
  · simp
  · simp [hne]

theorem covered_push (horder : order < frameBuddyOrders) :
    covered (update lists order (ppn :: lists order)) = covered lists ∪ block ppn order := by
  ext page
  constructor
  · rintro ⟨other, hother, base, hbase, hpage⟩
    rcases mem_push.mp hbase with ⟨rfl, rfl⟩ | hold
    · exact .inr hpage
    · exact .inl ⟨other, hother, base, hold, hpage⟩
  · rintro (⟨other, hother, base, hbase, hpage⟩ | hpage)
    · exact ⟨other, hother, base, mem_push.mpr (.inr hbase), hpage⟩
    · exact ⟨order, horder, ppn, mem_push.mpr (.inl ⟨rfl, rfl⟩), hpage⟩

section

variable (hpushed : Pushed self s' ppn order)
include hpushed

section

variable (hholds : Holds self lists held) (horder : order < frameBuddyOrders) (hheld : ppn ∈ held)
  (hother : other < frameBuddyOrders)
include hholds horder hheld hother

theorem Pushed.linked : Linked (fun page => (s'.nodes page).previous)
      (fun page => (s'.nodes page).next) buddyListEnd (s'.buddyHeads other)
      (update lists order (ppn :: lists order) other) := by
  have hnew : ∀ {level}, level < frameBuddyOrders → ppn ∉ lists level := hholds.notMem_of_held hheld
  have hlinked := hholds.linked order horder
  rw [hpushed.heads]
  rcases eq_or_ne other order with rfl | hne
  · rw [update_self, update_self]
    have hkept : ∀ page ∈ lists other, page ≠ self.buddyHeads other →
        s'.nodes page = self.nodes page := fun page hpage hhead =>
      hpushed.node_other page (fun heq => hnew horder (heq ▸ hpage)) hhead
    refine hlinked.push (hnew horder)
      (hholds.formed.ne_listEnd (hholds.held_reached ppn hheld)) ?_ ?_ ?_ ?_ ?_
    · simp only [hpushed.node_new, buddyNode]
    · simp only [hpushed.node_new, buddyNode]
    · intro hhead
      simp only [hpushed.node_head hhead, buddyNode]
    · intro page hpage hhead
      simp only [hkept page hpage hhead]
    · intro page hpage
      rcases eq_or_ne page (self.buddyHeads other) with heq | hhead
      · have hend : self.buddyHeads other ≠ buddyListEnd := fun hend =>
          hlinked.stop_notMem (hend ▸ heq ▸ hpage)
        simp only [heq, hpushed.node_head hend, buddyNode]
      · simp only [hkept page hpage hhead]
  · rw [update_of_ne hne, update_of_ne hne]
    have hkept : ∀ page ∈ lists other, s'.nodes page = self.nodes page := by
      intro page hpage
      refine hpushed.node_other page (fun heq => hnew hother (heq ▸ hpage)) ?_
      intro heq
      have hend : self.buddyHeads order ≠ buddyListEnd := fun hend =>
        (hholds.linked other hother).stop_notMem (hend ▸ heq ▸ hpage)
      exact hne (hholds.eq_order hother horder hpage (heq ▸ hlinked.head_mem hend))
    refine (hholds.linked other hother).congr ?_ ?_
    · intro page hpage
      simp only [hkept page hpage]
    · intro page hpage
      simp only [hkept page hpage]

theorem Pushed.node (hbase : base ∈ update lists order (ppn :: lists order) other) :
    s'.nodes base = buddyNode base (s'.nodes base).previous (s'.nodes base).next other := by
  rcases mem_push.mp hbase with ⟨rfl, rfl⟩ | hmem
  · rw [hpushed.node_new]
    rfl
  · have hne : base ≠ ppn := fun heq =>
      hholds.notMem_of_held hheld hother (heq ▸ hmem)
    rcases eq_or_ne base (self.buddyHeads order) with heq | hhead
    · have hend : self.buddyHeads order ≠ buddyListEnd := fun hend =>
        (hholds.linked other hother).stop_notMem (hend ▸ heq ▸ hmem)
      have hsame := hholds.eq_order hother horder (heq ▸ hmem)
        ((hholds.linked order horder).head_mem hend)
      rw [heq, hpushed.node_head hend, hsame]
      rfl
    · rw [hpushed.node_other base hne hhead]
      exact hholds.node other hother base hmem

end

theorem Pushed.formed (hformed : self.Formed) : s'.Formed := by
  rw [Formed, hpushed.ranges, hpushed.frameStateCount]
  exact hformed

end

theorem reached_congr (hranges : s'.ranges = self.ranges) (page : ℕ) :
    s'.Reached page ↔ self.Reached page := by
  rw [Reached, Reached, hranges]

theorem fresh_congr (hranges : s'.ranges = self.ranges) (page : ℕ) :
    s'.Fresh page ↔ self.Fresh page := by
  rw [Fresh, Fresh, hranges]

theorem Pushed.holds (hpushed : Pushed self s' ppn order) (hholds : Holds self lists held)
    (horder : order < frameBuddyOrders) (halign : 2 ^ order ∣ ppn) (hblock : block ppn order ⊆ held)
    (hinterior : ∀ page ∈ block ppn order, page ≠ ppn →
      self.frameState page = some frameStateFreeInterior) :
    Holds s' (update lists order (ppn :: lists order)) (held \ block ppn order) := by
  have hheld : ppn ∈ held := hblock (base_mem_block ppn order)
  have hapart : ∀ page ∈ block ppn order, page ∉ covered lists := fun page hpage hcov =>
    ((hholds.covered_iff page).mp hcov).2 (hblock hpage)
  have hreached := reached_congr hpushed.ranges
  constructor
  case formed => exact hpushed.formed hholds.formed
  case linked =>
    intro other hother
    exact hpushed.linked hholds horder hheld hother
  case node =>
    intro other hother base hbase
    exact hpushed.node hholds horder hheld hother hbase
  case state_iff =>
    intro other hother page
    rw [hpushed.state]
    rw [mem_push]
    rcases eq_or_ne page ppn with rfl | hne
    · simp [hholds.notMem_of_held hheld hother, eq_comm]
    · simp [hne, hholds.state_iff other hother page]
  case aligned =>
    intro other hother base hbase
    rcases mem_push.mp hbase with ⟨rfl, rfl⟩ | hold
    · exact halign
    · exact hholds.aligned other hother base hold
  case unique =>
    intro first hfirst second hsecond base hbase other hotherBase page hpage hpageOther
    rcases mem_push.mp hbase with ⟨rfl, rfl⟩ | hold
    · rcases mem_push.mp hotherBase with ⟨rfl, rfl⟩ | holdOther
      · exact ⟨rfl, rfl⟩
      · exact absurd (mem_covered hsecond holdOther hpageOther) (hapart page hpage)
    · rcases mem_push.mp hotherBase with ⟨rfl, rfl⟩ | holdOther
      · exact absurd (mem_covered hfirst hold hpage) (hapart page hpageOther)
      · exact hholds.unique first hfirst second hsecond base hold other holdOther
          page hpage hpageOther
  case covered_iff =>
    intro page
    rw [covered_push horder, Set.mem_union, hholds.covered_iff, hreached, Set.mem_sdiff]
    constructor
    · rintro (⟨hpage, hnot⟩ | hpage)
      · exact ⟨hpage, fun h => hnot h.1⟩
      · exact ⟨hholds.held_reached page (hblock hpage), fun h => h.2 hpage⟩
    · rintro ⟨hpage, hnot⟩
      by_cases hin : page ∈ block ppn order
      · exact .inr hin
      · exact .inl ⟨hpage, fun h => hnot ⟨h, hin⟩⟩
  case held_reached =>
    intro page hpage
    exact (hreached page).mpr (hholds.held_reached page hpage.1)
  case interior =>
    intro other hother base hbase page hpage hne
    rw [hpushed.state]
    rcases mem_push.mp hbase with ⟨rfl, rfl⟩ | hold
    · rw [if_neg hne]
      exact hinterior page hpage hne
    · rw [if_neg]
      · exact hholds.interior other hother base hold page hpage hne
      · rintro rfl
        exact hapart page (base_mem_block page order) (mem_covered hother hold hpage)
  case fresh_state =>
    intro page hfresh
    rw [fresh_congr hpushed.ranges] at hfresh
    rw [hpushed.state, if_neg]
    · exact hholds.fresh_state page hfresh
    · rintro rfl
      exact hholds.formed.not_reached_and_fresh (hholds.held_reached page hheld) hfresh
  case count =>
    rw [hpushed.recycled, covered_push horder, hholds.count, Set.ncard_union_eq
      (Set.disjoint_right.mpr hapart) hholds.finite_covered (finite_block ppn order),
      ncard_block]

/-! ## Unlinking a block -/

structure Removed (before after : BuddyFrameAllocator) (ppn order : ℕ) : Prop where
  ranges : after.ranges = before.ranges
  frameStateCount : after.frameStateCount = before.frameStateCount
  heads : ∀ other, after.buddyHeads other =
    if other = order then
      if (before.nodes ppn).previous = buddyListEnd then (before.nodes ppn).next
      else before.buddyHeads order
    else before.buddyHeads other
  state : ∀ page, after.frameState page =
    if page = ppn then some frameStateFreeInterior else before.frameState page
  recycled : after.recycledCount = before.recycledCount - 2 ^ order
  node_previous : (before.nodes ppn).previous ≠ buddyListEnd →
    after.nodes (before.nodes ppn).previous =
      buddyNode (before.nodes ppn).previous
        (before.nodes (before.nodes ppn).previous).previous
        (before.nodes ppn).next order
  node_next : (before.nodes ppn).next ≠ buddyListEnd →
    after.nodes (before.nodes ppn).next =
      buddyNode (before.nodes ppn).next (before.nodes ppn).previous
        (before.nodes (before.nodes ppn).next).next order
  node_other : ∀ page, page ≠ (before.nodes ppn).previous →
    page ≠ (before.nodes ppn).next → after.nodes page = before.nodes page

section

variable (hholds : Holds self lists held)
include hholds

section

variable (horder : order < frameBuddyOrders) (hmem : ppn ∈ lists order)
include horder hmem

theorem Holds.readBuddyNode_listed (hranges : s'.ranges = self.ranges)
    (hstates : s'.frameStates = self.frameStates) (hnode : s'.nodes ppn = self.nodes ppn) :
    Outcome (s'.readBuddyNode ppn order) (AllInside self lists)
      fun links => links = ((self.nodes ppn).previous, (self.nodes ppn).next) := by
  have hlinked := hholds.linked order horder
  have hstate : ∀ page, s'.frameState page = self.frameState page := by
    intro page
    simp only [frameState, frameStateIndex, rangeForPpn, hranges, hstates]
  refine readBuddyNode_outcome (hnode.trans (hholds.node order horder ppn hmem)) ?_ ?_ ?_
  · exact (hstate ppn).trans ((hholds.state_iff order horder ppn).mpr hmem)
  · exact fun hinside => hholds.neighbourValid_of_listed hinside horder hranges
      (hlinked.previous_mem_or hmem) fun _ => hstate _
  · exact fun hinside => hholds.neighbourValid_of_listed hinside horder hranges
      (hlinked.next_mem_or hmem) fun _ => hstate _

theorem Holds.unlinkPrevious_spec : Outcome (self.unlinkPrevious ppn order (self.nodes ppn).previous
        (self.nodes ppn).next) (AllInside self lists)
      fun behind => ∃ heads nodes, behind = { self with buddyHeads := heads, nodes := nodes } ∧
        (∀ other, heads other =
          if other = order then
            if (self.nodes ppn).previous = buddyListEnd then (self.nodes ppn).next
            else self.buddyHeads order
          else self.buddyHeads other) ∧
        ((self.nodes ppn).previous ≠ buddyListEnd →
          nodes (self.nodes ppn).previous = buddyNode (self.nodes ppn).previous
            (self.nodes (self.nodes ppn).previous).previous
            (self.nodes ppn).next order) ∧
        ∀ page, page ≠ (self.nodes ppn).previous → nodes page = self.nodes page := by
  have hlinked := hholds.linked order horder
  rw [unlinkPrevious]
  split
  · next hend =>
    rw [if_pos (hlinked.head_of_previous_stop hmem hend)]
    refine ⟨_, _, rfl, fun other => ?_, fun hne => absurd hend hne, fun _ _ => rfl⟩
    rw [update_apply]
  · next hne =>
    have hprevious := (hlinked.previous_mem_or hmem).resolve_left hne
    refine (hholds.readBuddyNode_listed horder hprevious rfl rfl rfl).bind _ ?_
    rintro links rfl
    rw [if_pos (hlinked.next_previous hmem hne)]
    refine ⟨_, _, rfl, fun other => ?_, fun _ => update_self .., fun page hpage =>
      update_of_ne hpage ..⟩
    split
    · next heq => rw [heq]
    · rfl

theorem Holds.buddyRemove_removed : Outcome (self.buddyRemove ppn order) (AllInside self lists)
      fun s' => Removed self s' ppn order := by
  have hformed := hholds.formed
  have hlinked := hholds.linked order horder
  have hmanaged := hformed.managed_of_reached
    (hholds.reached_of_mem horder hmem (base_mem_block ppn order))
  rw [buddyRemove]
  refine (hholds.readBuddyNode_listed horder hmem rfl rfl rfl).bind _ ?_
  rintro links rfl
  refine (hholds.unlinkPrevious_spec horder hmem).bind _ ?_
  rintro behind ⟨heads, nodes, rfl, hheads, hprevious, hother⟩
  refine Outcome.bind (fun ahead => ∃ nodesAhead,
    ahead = { self with buddyHeads := heads, nodes := nodesAhead } ∧
      ((self.nodes ppn).next ≠ buddyListEnd → nodesAhead (self.nodes ppn).next =
        buddyNode (self.nodes ppn).next (self.nodes ppn).previous
          (self.nodes (self.nodes ppn).next).next order) ∧
      ∀ page, page ≠ (self.nodes ppn).next → nodesAhead page = nodes page) ?_ ?_
  · rw [unlinkNext]
    split
    · next hend => exact ⟨nodes, rfl, fun hne => absurd hend hne, fun _ _ => rfl⟩
    · next hne =>
      have hnext := (hlinked.next_mem_or hmem).resolve_left hne
      have hkept : nodes (self.nodes ppn).next = self.nodes (self.nodes ppn).next := by
        refine hother _ fun heq => ?_
        exact hlinked.previous_ne_next hmem (fun hend => hne (heq.trans hend)) heq.symm
      refine Outcome.bind _ (hholds.readBuddyNode_listed horder hnext rfl rfl hkept) ?_
      rintro links rfl
      rw [if_pos (hlinked.previous_next hmem hne)]
      exact ⟨_, rfl, fun _ => update_self .., fun page hpage =>
        update_of_ne hpage ..⟩
  · rintro ahead ⟨nodesAhead, rfl, hnext, hkept⟩
    have hformedAhead : Formed { self with buddyHeads := heads, nodes := nodesAhead } := hformed
    obtain ⟨states, hset, hstates⟩ := hformedAhead.setFrameState_spec hmanaged
      frameStateFreeInterior
    rw [hset]
    refine
      { ranges := rfl, frameStateCount := rfl, heads := hheads, state := hstates,
        recycled := rfl, node_previous := ?_, node_next := hnext, node_other := ?_ }
    · intro hne
      exact (hkept _ (hlinked.previous_ne_next hmem hne)).trans (hprevious hne)
    · intro page hpage hpageNext
      exact (hkept page hpageNext).trans (hother page hpage)

theorem mem_remove_iff (hother : other < frameBuddyOrders) (base : ℕ) :
    base ∈ update lists order ((lists order).erase ppn) other ↔
      base ≠ ppn ∧ base ∈ lists other := by
  rcases eq_or_ne other order with rfl | hne
  · rw [update_self]
    exact (hholds.linked other hother).nodup.mem_erase_iff
  · rw [update_of_ne hne]
    refine ⟨fun hbase => ⟨?_, hbase⟩, And.right⟩
    rintro rfl
    exact hne (hholds.eq_order hother horder hbase hmem)

theorem covered_remove : covered (update lists order ((lists order).erase ppn)) =
      covered lists \ block ppn order := by
  ext page
  constructor
  · rintro ⟨other, hother, base, hbase, hpage⟩
    obtain ⟨hne, hold⟩ := (mem_remove_iff hholds horder hmem hother base).mp hbase
    refine ⟨mem_covered hother hold hpage, fun hblock => hne ?_⟩
    exact (hholds.unique other hother order horder base hold ppn hmem page hpage hblock).2
  · rintro ⟨⟨other, hother, base, hbase, hpage⟩, hnot⟩
    refine ⟨other, hother, base, (mem_remove_iff hholds horder hmem hother base).mpr
      ⟨?_, hbase⟩, hpage⟩
    rintro rfl
    have hsame := hholds.eq_order hother horder hbase hmem
    exact hnot (hsame ▸ hpage)

end

end

variable (hremoved : Removed self s' ppn order)
include hremoved

section

variable (hholds : Holds self lists held) (horder : order < frameBuddyOrders)
  (hmem : ppn ∈ lists order)
include hholds horder hmem

theorem Removed.linked (hother : other < frameBuddyOrders) :
    Linked (fun page => (s'.nodes page).previous)
      (fun page => (s'.nodes page).next) buddyListEnd (s'.buddyHeads other)
      (update lists order ((lists order).erase ppn) other) := by
  have hlinked := hholds.linked order horder
  have hprevious := hlinked.previous_mem_or hmem
  have hnext := hlinked.next_mem_or hmem
  rw [hremoved.heads]
  rcases eq_or_ne other order with rfl | hne
  · rw [update_self, if_pos rfl]
    obtain ⟨before, rest, hsplit⟩ := List.append_of_mem hmem
    have hnotBefore : ppn ∉ before := by
      have hnodup := hlinked.nodup
      rw [hsplit, List.nodup_append'] at hnodup
      exact fun hin => hnodup.2.2 hin List.mem_cons_self
    rw [hsplit, List.erase_append_right _ hnotBefore, List.erase_cons_head]
    rw [hsplit] at hlinked
    have hend : ∀ page ∈ before ++ rest, page ≠ buddyListEnd := by
      rintro page hpage rfl
      refine hlinked.stop_notMem ?_
      rw [List.mem_append] at hpage ⊢
      exact hpage.imp_right (List.mem_cons_of_mem _)
    refine hlinked.remove rfl ?_ ?_ ?_ ?_
    · intro page hpage hpageNext
      rcases eq_or_ne page (self.nodes ppn).previous with heq | hpagePrevious
      · have hne := heq ▸ hend page hpage
        simp only [heq, hremoved.node_previous hne, buddyNode]
      · simp only [hremoved.node_other page hpagePrevious hpageNext]
    · intro hne
      simp only [hremoved.node_next hne, buddyNode]
    · intro page hpage hpagePrevious
      rcases eq_or_ne page (self.nodes ppn).next with heq | hpageNext
      · have hne := heq ▸ hend page hpage
        simp only [heq, hremoved.node_next hne, buddyNode]
      · simp only [hremoved.node_other page hpagePrevious hpageNext]
    · intro hne
      simp only [hremoved.node_previous hne, buddyNode]
  · rw [update_of_ne hne, if_neg hne]
    have hapart : ∀ page ∈ lists other, ∀ neighbour,
        neighbour = buddyListEnd ∨ neighbour ∈ lists order → page ≠ neighbour := by
      rintro page hpage neighbour (rfl | hneighbour) rfl
      · exact (hholds.linked other hother).stop_notMem hpage
      · exact hne (hholds.eq_order hother horder hpage hneighbour)
    have hkept : ∀ page ∈ lists other, s'.nodes page = self.nodes page :=
      fun page hpage => hremoved.node_other page (hapart page hpage _ hprevious)
        (hapart page hpage _ hnext)
    refine (hholds.linked other hother).congr ?_ ?_
    · intro page hpage
      simp only [hkept page hpage]
    · intro page hpage
      simp only [hkept page hpage]

theorem Removed.node (hother : other < frameBuddyOrders) (hbase : base ∈ lists other) :
    s'.nodes base = buddyNode base (s'.nodes base).previous (s'.nodes base).next other := by
  have hlinked := hholds.linked order horder
  have hend : base ≠ buddyListEnd := by
    rintro rfl
    exact (hholds.linked other hother).stop_notMem hbase
  rcases eq_or_ne base (self.nodes ppn).previous with heq | hprevious
  · have hsame := hholds.eq_order hother horder hbase
      (heq ▸ (hlinked.previous_mem_or hmem).resolve_left (heq ▸ hend))
    rw [heq, hremoved.node_previous (heq ▸ hend), hsame]
    rfl
  · rcases eq_or_ne base (self.nodes ppn).next with heq | hnext
    · have hsame := hholds.eq_order hother horder hbase
        (heq ▸ (hlinked.next_mem_or hmem).resolve_left (heq ▸ hend))
      rw [heq, hremoved.node_next (heq ▸ hend), hsame]
      rfl
    · rw [hremoved.node_other base hprevious hnext]
      exact hholds.node other hother base hbase

theorem Removed.interior : ∀ page ∈ block ppn order,
    s'.frameState page = some frameStateFreeInterior := by
  intro page hpage
  rw [hremoved.state]
  split
  · rfl
  · next hne => exact hholds.interior order horder ppn hmem page hpage hne

theorem Removed.holds : Holds s' (update lists order ((lists order).erase ppn))
      (held ∪ block ppn order) := by
  have hreached := reached_congr hremoved.ranges
  have hiff := fun {other : ℕ} (hother : other < frameBuddyOrders) =>
    mem_remove_iff hholds horder hmem hother
  constructor
  case formed =>
    rw [Formed, hremoved.ranges, hremoved.frameStateCount]
    exact hholds.formed
  case linked =>
    intro other hother
    exact hremoved.linked hholds horder hmem hother
  case node =>
    intro other hother base hbase
    exact hremoved.node hholds horder hmem hother ((hiff hother _).mp hbase).2
  case state_iff =>
    intro other hother page
    rw [hremoved.state, hiff hother]
    split
    · next heq =>
      refine ⟨fun hstate => ?_, fun hin => absurd heq hin.1⟩
      have hlarge : frameBuddyOrders ≤ frameStateFreeInterior := by decide
      rw [Option.some.injEq] at hstate
      omega
    · next hne =>
      rw [hholds.state_iff other hother page]
      exact ⟨fun hin => ⟨hne, hin⟩, And.right⟩
  case aligned =>
    intro other hother base hbase
    exact hholds.aligned other hother base ((hiff hother _).mp hbase).2
  case unique =>
    intro first hfirst second hsecond base hbase other hotherBase
    exact hholds.unique first hfirst second hsecond base ((hiff hfirst _).mp hbase).2
      other ((hiff hsecond _).mp hotherBase).2
  case covered_iff =>
    intro page
    rw [covered_remove hholds horder hmem, Set.mem_sdiff, hholds.covered_iff, hreached,
      Set.mem_union, not_or, and_assoc]
  case held_reached =>
    rintro page (hpage | hpage)
    · exact (hreached page).mpr (hholds.held_reached page hpage)
    · exact (hreached page).mpr (hholds.reached_of_mem horder hmem hpage)
  case interior =>
    intro other hother base hbase page hpage hne
    rw [hremoved.state]
    split
    · rfl
    · exact hholds.interior other hother base ((hiff hother _).mp hbase).2 page hpage hne
  case fresh_state =>
    intro page hfresh
    rw [fresh_congr hremoved.ranges] at hfresh
    rw [hremoved.state, if_neg]
    · exact hholds.fresh_state page hfresh
    · rintro rfl
      exact hholds.formed.not_reached_and_fresh
        (hholds.reached_of_mem horder hmem (base_mem_block page order)) hfresh
  case count =>
    rw [hremoved.recycled, covered_remove hholds horder hmem, hholds.count,
      Set.ncard_sdiff (fun page hpage => mem_covered horder hmem hpage)
        (finite_block ppn order), ncard_block]

end

end BuddyFrameAllocator

end Kairix.Frame
