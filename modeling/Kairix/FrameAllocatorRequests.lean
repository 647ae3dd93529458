import Kairix.FrameBuddyLists

/-!
# Inserting and taking blocks

Blocks given back are merged with their buddies as long as possible; blocks
taken are split.  Two memory ranges that touch can make a merged block cross
their common border, and `NeverMerge` names the layouts where this cannot
happen.
-/

namespace Kairix.Frame

open DyadicBlock LinkedCells PanicOutcome List

/-- The common border of two ranges is the middle of a block which both ranges
can fill. -/
def Straddle (first second : ℕ × ℕ) (order : ℕ) : Prop :=
  first.2 = second.1 ∧ first.2 % 2 ^ (order + 1) = 2 ^ order ∧
    first.1 + 2 ^ order ≤ first.2 ∧ second.1 + 2 ^ order ≤ second.2

def NeverMerge (bounds : List (ℕ × ℕ)) : Prop :=
  ∀ first ∈ bounds, ∀ second ∈ bounds, ∀ order,
    order + 1 < frameBuddyOrders → ¬Straddle first second order

namespace BuddyFrameAllocator

variable {self after s' : BuddyFrameAllocator} {lists : ℕ → List ℕ} {held : Set ℕ}
variable {ppn order : ℕ}

def bounds (self : BuddyFrameAllocator) : List (ℕ × ℕ) :=
  self.ranges.map fun range => (range.start, range.stop)

theorem mem_bounds {range : FrameRange} (hmem : range ∈ self.ranges) :
    (range.start, range.stop) ∈ self.bounds :=
  mem_map_of_mem hmem

theorem Formed.inside_merge (hformed : self.Formed) (hmerge : NeverMerge self.bounds)
    (horder : order + 1 < frameBuddyOrders) (halign : 2 ^ (order + 1) ∣ ppn)
    (hlower : self.Inside ppn (ppn + 2 ^ order))
    (hupper : self.Inside (ppn + 2 ^ order) (ppn + 2 ^ order + 2 ^ order)) :
    self.Inside ppn (ppn + 2 ^ (order + 1)) := by
  obtain ⟨first, hfirst, hfirstStart, hfirstCurrent⟩ := hlower
  obtain ⟨second, hsecond, hsecondStart, hsecondCurrent⟩ := hupper
  have hfirstFormed := hformed.formed first hfirst
  have hsecondFormed := hformed.formed second hsecond
  have hfirstStop := hfirstFormed.current_le
  have hsecondStop := hsecondFormed.current_le
  have hpos := Nat.two_pow_pos order
  by_cases hsame : first = second
  · subst hsame
    refine ⟨first, hfirst, hfirstStart, ?_⟩
    rw [pow_succ]
    omega
  · obtain ⟨hpages, -⟩ := hformed.apart.forall hfirst hsecond hsame
    refine absurd ⟨?_, ?_, ?_, ?_⟩ (hmerge _ (mem_bounds hfirst) _ (mem_bounds hsecond)
      order horder)
    · simp only
      omega
    · have hborder : first.stop = ppn + 2 ^ order := by omega
      have hlt : 2 ^ order < 2 ^ (order + 1) := by
        rw [pow_succ]
        omega
      simp only [hborder]
      rw [Nat.add_mod, Nat.dvd_iff_mod_eq_zero.mp halign, Nat.zero_add, Nat.mod_mod,
        Nat.mod_eq_of_lt hlt]
    · simp only
      omega
    · simp only
      omega

/-- The state reached when exactly the pages of `held` are kept from the free
lists, with nothing else about them changed. -/
def Gives (before after : BuddyFrameAllocator) (held : Set ℕ) (safe : Prop) : Prop :=
  after.ranges = before.ranges ∧
    (∀ page ∈ held, after.frameState page = before.frameState page) ∧
    ∃ lists, Holds after lists held ∧ (safe → AllInside after lists)

/-- What is returned by an operation that runs where `safe` holds. -/
def Returns (before : BuddyFrameAllocator) (result : Except FramePanic BuddyFrameAllocator)
    (held : Set ℕ) (safe : Prop) : Prop :=
  Outcome result safe fun after => Gives before after held safe

/-- The layouts and free lists on which no operation panics. -/
def Sound (self : BuddyFrameAllocator) (lists : ℕ → List ℕ) : Prop :=
  NeverMerge self.bounds ∧ AllInside self lists

theorem inside_congr (hranges : s'.ranges = self.ranges) (start stop : ℕ) :
    s'.Inside start stop ↔ self.Inside start stop := by
  rw [Inside, Inside, hranges]

theorem bounds_congr (hranges : s'.ranges = self.ranges) : s'.bounds = self.bounds := by
  rw [bounds, bounds, hranges]

theorem Sound.of_ranges {other : ℕ → List ℕ} (hsound : Sound self lists)
    (hranges : s'.ranges = self.ranges) (hall : AllInside s' other) : Sound s' other :=
  ⟨by rw [bounds_congr hranges]; exact hsound.1, hall⟩

theorem Returns.trans {mid : BuddyFrameAllocator} {result : Except FramePanic BuddyFrameAllocator}
    {safe safeMid : Prop} (hreturns : Returns mid result held safeMid)
    (hranges : mid.ranges = self.ranges)
    (hkept : ∀ page ∈ held, mid.frameState page = self.frameState page) (hsafe : safe → safeMid) :
    Returns self result held safe := by
  refine Outcome.mono hreturns hsafe ?_
  rintro s' ⟨hrangesAfter, hkeptAfter, lists, hholds, hall⟩
  exact ⟨hrangesAfter.trans hranges, fun page hpage => (hkeptAfter page hpage).trans
    (hkept page hpage), lists, hholds, fun h => hall (hsafe h)⟩

/-- A block that can go on a free list. -/
structure Spare (before : BuddyFrameAllocator) (pages : Set ℕ) (ppn order : ℕ) : Prop where
  aligned : 2 ^ order ∣ ppn
  held : block ppn order ⊆ pages
  interior : ∀ page ∈ block ppn order, before.frameState page = some frameStateFreeInterior

theorem Holds.buddyPush_gives (hholds : Holds self lists held) (horder : order < frameBuddyOrders)
    (hspare : Spare self held ppn order) :
    Returns self (self.buddyPush ppn order) (held \ block ppn order)
      (Sound self lists ∧ self.Inside ppn (ppn + 2 ^ order)) := by
  have hheld : ppn ∈ held := hspare.held (base_mem_block ppn order)
  refine (hholds.buddyPush_pushed horder hheld).mono (fun hsafe => hsafe.1.2) ?_
  intro s' hpushed
  refine ⟨hpushed.ranges, ?_, _, hpushed.holds hholds horder hspare.aligned hspare.held
    fun page hpage _ => hspare.interior page hpage, ?_⟩
  · intro page hpage
    rw [hpushed.state, if_neg]
    rintro rfl
    exact hpage.2 (base_mem_block page order)
  · rintro ⟨⟨-, hall⟩, hinside⟩ other hother base hbase
    rw [inside_congr hpushed.ranges]
    rcases mem_push.mp hbase with ⟨rfl, rfl⟩ | hold
    · exact hinside
    · exact hall other hother base hold

theorem Removed.allInside (hremoved : Removed self s' ppn order) (hholds : Holds self lists held)
    (horder : order < frameBuddyOrders) (hmem : ppn ∈ lists order) (hall : AllInside self lists) :
    AllInside s' (Function.update lists order ((lists order).erase ppn)) := by
  intro other hother base hbase
  rw [inside_congr hremoved.ranges]
  exact hall other hother base ((mem_remove_iff hholds horder hmem hother base).mp hbase).2

/-! ## Giving pages back -/

theorem Formed.inside_buddy (hformed : self.Formed) (hmerge : NeverMerge self.bounds)
    (horder : order + 1 < frameBuddyOrders) (halign : 2 ^ order ∣ ppn)
    (hinside : self.Inside ppn (ppn + 2 ^ order))
    (hbuddy : self.Inside (ppn ^^^ 2 ^ order) ((ppn ^^^ 2 ^ order) + 2 ^ order)) :
    self.Inside (min ppn (ppn ^^^ 2 ^ order)) (min ppn (ppn ^^^ 2 ^ order) + 2 ^ (order + 1)) := by
  obtain ⟨lower, hlower, ⟨hbase, hxor⟩ | ⟨hbase, hxor⟩⟩ := xor_buddy halign
  · rw [hxor] at hbuddy ⊢
    rw [hbase] at hinside ⊢
    rw [min_eq_left (Nat.le_add_right _ _)]
    exact hformed.inside_merge hmerge horder hlower hinside hbuddy
  · rw [hxor] at hbuddy ⊢
    rw [hbase] at hinside ⊢
    rw [min_eq_right (Nat.le_add_right _ _)]
    exact hformed.inside_merge hmerge horder hlower hbuddy hinside

theorem Holds.insertBuddyBlockLoop_gives (rounds : ℕ) (hholds : Holds self lists held)
    (hrounds : order + rounds < frameBuddyOrders) (hspare : Spare self held ppn order) :
    Returns self (insertBuddyBlockLoop rounds self ppn order) (held \ block ppn order)
      (Sound self lists ∧ self.Inside ppn (ppn + 2 ^ order)) := by
  induction rounds generalizing self lists held ppn order with
  | zero => exact hholds.buddyPush_gives (by omega) hspare
  | succ rounds ih =>
    have horder : order < frameBuddyOrders := by omega
    rw [insertBuddyBlockLoop]
    split
    · next hbuddy =>
      obtain ⟨hwithin, hstate⟩ := hbuddy
      obtain ⟨hlower, hunion⟩ := xor_buddy_union hspare.aligned
      rw [hholds.formed.blockWithinAllocatedRange_iff] at hwithin
      have hmem := (hholds.state_iff order horder _).mp hstate
      generalize hxor : ppn ^^^ 2 ^ order = buddy at *
      refine ((hholds.buddyRemove_removed horder hmem).mono
        (fun hsafe => hsafe.1.2) fun _ h => h).bind _ ?_
      intro removed hremoved
      have hapart : ∀ page ∈ block buddy order, page ∉ held := fun page hpage =>
        ((hholds.covered_iff page).mp (mem_covered horder hmem hpage)).2
      have hheldEq : (held ∪ block buddy order) \ block (min ppn buddy) (order + 1) =
          held \ block ppn order := by
        rw [hunion]
        ext page
        have := hapart page
        simp only [Set.mem_sdiff, Set.mem_union]
        tauto
      have hsafe : Sound self lists ∧ self.Inside ppn (ppn + 2 ^ order) →
          Sound removed (Function.update lists order ((lists order).erase buddy)) ∧
            removed.Inside (min ppn buddy) (min ppn buddy + 2 ^ (order + 1)) := by
        rintro ⟨hsound, hinside⟩
        refine ⟨hsound.of_ranges hremoved.ranges
          (hremoved.allInside hholds horder hmem hsound.2), ?_⟩
        rw [inside_congr hremoved.ranges]
        subst hxor
        exact hholds.formed.inside_buddy hsound.1 (by omega) hspare.aligned hinside hwithin.2
      have hmerged : Spare removed (held ∪ block buddy order) (min ppn buddy) (order + 1) := by
        refine ⟨hlower, ?_, fun page hpage => ?_⟩
        · rw [hunion]
          exact Set.union_subset_union_left _ hspare.held
        · rw [hunion] at hpage
          rcases hpage with hpage | hpage
          · rw [hremoved.state, hspare.interior page hpage, ite_self]
          · exact hremoved.interior hholds horder hmem page hpage
      have hnext := ih (hremoved.holds hholds horder hmem) (by omega) hmerged
      rw [hheldEq] at hnext
      refine hnext.trans hremoved.ranges (fun page hpage => ?_) hsafe
      rw [hremoved.state, if_neg]
      rintro rfl
      exact hapart page (base_mem_block page order) hpage.1
    · exact hholds.buddyPush_gives horder hspare

theorem Holds.insertBuddyBlock_gives (hholds : Holds self lists held)
    (horder : order < frameBuddyOrders) (hspare : Spare self held ppn order) :
    Returns self (self.insertBuddyBlock ppn order) (held \ block ppn order)
      (Sound self lists ∧ self.Inside ppn (ppn + 2 ^ order)) :=
  hholds.insertBuddyBlockLoop_gives _ (by omega) hspare

variable {stop : ℕ}

theorem recycledOrder_spec {current : ℕ} (hlt : current < stop) :
    recycledOrder current stop < frameBuddyOrders ∧ 2 ^ recycledOrder current stop ∣ current ∧
      current + 2 ^ recycledOrder current stop ≤ stop := by
  have hlog : 2 ^ Nat.log2 (stop - current) ≤ stop - current := Nat.log2_self_le (by omega)
  have hle : recycledOrder current stop ≤ Nat.log2 (stop - current) :=
    (min_le_left _ _).trans (min_le_left _ _)
  have hpow : 2 ^ recycledOrder current stop ≤ 2 ^ Nat.log2 (stop - current) :=
    Nat.pow_le_pow_right (by norm_num) hle
  refine ⟨?_, ?_, by omega⟩
  · have hmax : recycledOrder current stop ≤ frameBuddyOrders - 1 := min_le_right _ _
    have hpos : 0 < frameBuddyOrders := by decide
    omega
  · rcases eq_or_ne current 0 with rfl | hne
    · exact Nat.dvd_zero _
    · have hzeros : recycledOrder current stop ≤ trailingZeros 64 current := by
        refine (min_le_left _ _).trans ((min_le_right _ _).trans ?_)
        rw [if_neg hne]
      exact (Nat.pow_dvd_pow 2 hzeros).trans (two_pow_trailingZeros_dvd 64 current)

theorem Holds.gives_self {safe : Prop} {pages : Set ℕ} (hholds : Holds self lists held)
    (hall : safe → AllInside self lists) (hempty : pages = ∅) :
    Gives self self (held \ pages) safe := by
  rw [hempty, Set.sdiff_empty]
  exact ⟨rfl, fun _ _ => rfl, lists, hholds, hall⟩

theorem Holds.insertRecycledLoop_gives (rounds : ℕ) {current : ℕ} (hholds : Holds self lists held)
    (hrounds : stop - current ≤ rounds) (hregion : Set.Ico current stop ⊆ held)
    (hinterior : ∀ page ∈ Set.Ico current stop,
      self.frameState page = some frameStateFreeInterior) :
    Returns self (insertRecycledLoop rounds self current stop) (held \ Set.Ico current stop)
      (Sound self lists ∧ self.Inside current stop) := by
  induction rounds generalizing self lists held current with
  | zero => exact hholds.gives_self (fun hsafe => hsafe.1.2) (Set.Ico_eq_empty (by omega))
  | succ rounds ih =>
    rw [insertRecycledLoop]
    split
    · next hlt =>
      obtain ⟨horder, halign, hfits⟩ := recycledOrder_spec hlt
      generalize recycledOrder current stop = order at *
      have hpos := Nat.two_pow_pos order
      have hsub : block current order ⊆ Set.Ico current stop := Set.Ico_subset_Ico_right hfits
      refine ((hholds.insertBuddyBlock_gives horder ⟨halign, hsub.trans hregion,
        fun page hpage => hinterior page (hsub hpage)⟩).mono (fun hsafe =>
          ⟨hsafe.1, hsafe.2.mono le_rfl hfits⟩) fun _ h => h).bind _ ?_
      rintro inserted ⟨hranges, hkept, listsMid, hmid, hallMid⟩
      have hrest : ∀ page ∈ Set.Ico (current + 2 ^ order) stop,
          page ∈ held \ block current order := by
        intro page hpage
        refine ⟨hregion ⟨by have := hpage.1; omega, hpage.2⟩, fun hblock => ?_⟩
        have hhigh := (mem_block.mp hblock).2
        have hlow := hpage.1
        omega
      have hsafe : Sound self lists ∧ self.Inside current stop →
          Sound inserted listsMid ∧ inserted.Inside (current + 2 ^ order) stop := by
        rintro ⟨hsound, hinside⟩
        refine ⟨hsound.of_ranges hranges (hallMid ⟨hsound, hinside.mono le_rfl hfits⟩), ?_⟩
        rw [inside_congr hranges]
        exact hinside.mono (by omega) le_rfl
      have hnext := ih hmid (by omega) hrest (fun page hpage => by
        rw [hkept page (hrest page hpage)]
        exact hinterior page ⟨by have := hpage.1; omega, hpage.2⟩)
      have hheldEq : (held \ block current order) \
          Set.Ico (current + 2 ^ order) stop = held \ Set.Ico current stop := by
        ext page
        simp only [Set.mem_sdiff, mem_block, Set.mem_Ico, and_assoc]
        refine and_congr_right fun _ => ?_
        omega
      rw [hheldEq] at hnext
      exact hnext.trans hranges (fun page hpage =>
        hkept page ⟨hpage.1, fun hblock => hpage.2 (hsub hblock)⟩) hsafe
    · next hge => exact hholds.gives_self (fun hsafe => hsafe.1.2) (Set.Ico_eq_empty (by omega))

theorem Holds.withStates (hholds : Holds self lists held) {states : ℕ → ℕ} {changed : Set ℕ}
    {decides : DecidablePred (· ∈ changed)} {state : ℕ} (hchanged : changed ⊆ held)
    (hstate : frameBuddyOrders ≤ state)
    (hstates : ∀ page, ({ self with frameStates := states }).frameState page =
      if page ∈ changed then some state else self.frameState page) :
    Holds { self with frameStates := states } lists held := by
  have hsame : ∀ page ∉ changed, ({ self with frameStates := states }).frameState page =
      self.frameState page := fun page hpage => (hstates page).trans (if_neg hpage)
  have hfree : ∀ page ∈ covered lists, page ∉ held := fun page hpage =>
    ((hholds.covered_iff page).mp hpage).2
  have hkept : ∀ page ∉ held, ({ self with frameStates := states }).frameState page =
      self.frameState page := fun page hpage => hsame page fun hin => hpage (hchanged hin)
  refine { hholds with state_iff := ?_, interior := ?_, fresh_state := ?_ }
  · intro order horder page
    by_cases hpage : page ∈ changed
    · rw [hstates, if_pos hpage, Option.some.injEq]
      exact iff_of_false (by omega) (hholds.notMem_of_held (hchanged hpage) horder)
    · rw [hsame page hpage]
      exact hholds.state_iff order horder page
  · intro order horder base hbase page hpage hne
    rw [hkept page (hfree page (mem_covered horder hbase hpage))]
    exact hholds.interior order horder base hbase page hpage hne
  · intro page hfresh
    rw [hkept page]
    · exact hholds.fresh_state page hfresh
    · exact fun hpage => hholds.formed.not_reached_and_fresh (hholds.held_reached page hpage) hfresh

theorem Holds.insertRecycledRange_gives {start : ℕ} (hholds : Holds self lists held)
    (hregion : Set.Ico start stop ⊆ held) :
    Returns self (self.insertRecycledRange start stop) (held \ Set.Ico start stop)
      (Sound self lists ∧ (start < stop → self.Inside start stop)) := by
  rw [insertRecycledRange]
  split
  · next hle => exact hholds.gives_self (fun hsafe => hsafe.1.2) (Set.Ico_eq_empty (by omega))
  · next hlt =>
    have hsum : start + (stop - start) = stop := by omega
    refine ((hholds.formed.fillFrameStates_spec start (stop - start)
      frameStateFreeInterior).mono ?_ fun _ h => h).bind _ ?_
    · rintro ⟨-, hinside⟩
      obtain ⟨range, hmem, hlow, hhigh⟩ := hinside (by omega)
      refine .inr ⟨range, hmem, hlow, ?_⟩
      rw [hsum]
      exact hhigh.trans (hholds.formed.formed range hmem).current_le
    · rintro filled ⟨-, states, rfl, hstates⟩
      rw [hsum] at hstates
      have hfilled := hholds.withStates hregion (by decide) hstates
      exact (hfilled.insertRecycledLoop_gives _ le_rfl hregion fun page hpage =>
        (hstates page).trans (if_pos hpage)).trans rfl (fun page hpage =>
          (hstates page).trans (if_neg hpage.2)) fun hsafe => ⟨hsafe.1, hsafe.2 (by omega)⟩

/-! ## Requests -/

theorem Inside.of_reached (hreached : self.Reached ppn) : self.Inside ppn (ppn + 2 ^ 0) := by
  obtain ⟨range, hmem, hstart, hcurrent⟩ := hreached
  exact ⟨range, hmem, hstart, by simpa using hcurrent⟩

theorem Holds.dealloc_gives (hholds : Holds self lists held) (hheld : ppn ∈ held) :
    Outcome (self.dealloc ppn) (Sound self lists ∧ (self.frameState ppn = some frameStateAllocated ∨
        self.frameState ppn = some frameStateCpuCached))
      fun s' => Gives self s' (held \ {ppn}) (Sound self lists) := by
  have hreached := hholds.held_reached ppn hheld
  have hinside := Inside.of_reached hreached
  rw [dealloc, deallocBuddy, if_neg]
  · split
    · obtain ⟨states, hset, hstates⟩ := hholds.formed.setFrameState_spec
        (hholds.formed.managed_of_reached hreached) frameStateFreeInterior
      have hone : {ppn} ⊆ held := Set.singleton_subset_iff.mpr hheld
      have hfreed := hholds.withStates hone (by decide) hstates
      have hspare : Spare { self with frameStates := states } held ppn 0 := by
        refine ⟨one_dvd ppn, by rwa [block_zero], fun page hpage => ?_⟩
        rw [block_zero] at hpage
        exact (hstates page).trans (if_pos hpage)
      rw [hset]
      have hinsert := hfreed.insertBuddyBlock_gives (by decide) hspare
      rw [block_zero] at hinsert
      have hreturns : Returns self _ (held \ {ppn}) (Sound self lists) :=
        hinsert.trans rfl (fun page hpage => (hstates page).trans (if_neg hpage.2))
          fun hsound => ⟨hsound, hinside⟩
      exact hreturns.mono And.left fun _ hafter => hafter
    · next hstate => exact fun hsafe => hstate hsafe.2
  · have hmanaged := hholds.formed.managed_of_reached hreached
    rw [← containsPpn_iff] at hmanaged
    rw [← allocatedPpn_iff] at hreached
    simp [hmanaged, hreached]

/-! ## Taking a block -/

theorem Holds.splitBlock_gives {target : ℕ} (hholds : Holds self lists held)
    (horder : order < frameBuddyOrders) (htarget : target ≤ order)
    (hspare : Spare self held ppn order) :
    Returns self (splitBlock target ppn order self) (held \ (block ppn order \ block ppn target))
      (Sound self lists ∧ self.Inside ppn (ppn + 2 ^ order)) := by
  induction order generalizing self lists held with
  | zero =>
    obtain rfl : target = 0 := by omega
    exact hholds.gives_self (fun hsafe => hsafe.1.2) sdiff_self
  | succ order ih =>
    rw [splitBlock]
    split
    · next hlt =>
      have hhalf : 2 ^ (order + 1) = 2 ^ order + 2 ^ order := by
        rw [pow_succ]
        omega
      have hlowAlign : 2 ^ order ∣ ppn := (pow_dvd_pow 2 (by omega)).trans hspare.aligned
      have hupper : block (ppn + 2 ^ order) order ⊆ block ppn (order + 1) := by
        rw [block_succ]
        exact Set.subset_union_right
      have hlower : block ppn order ⊆ block ppn (order + 1) := by
        rw [block_succ]
        exact Set.subset_union_left
      have hleft : ∀ page ∈ block ppn order, page ∈ held \ block (ppn + 2 ^ order) order := by
        intro page hpage
        refine ⟨hspare.held (hlower hpage), fun hin => ?_⟩
        rw [mem_block] at hpage hin
        omega
      refine ((hholds.insertBuddyBlock_gives (by omega) ⟨hlowAlign.add dvd_rfl,
        hupper.trans hspare.held, fun page hpage => hspare.interior page (hupper hpage)⟩).mono ?_
          fun _ h => h).bind _ ?_
      · rintro ⟨hsound, hinside⟩
        exact ⟨hsound, hinside.mono (by omega) (by omega)⟩
      rintro inserted ⟨hranges, hkept, listsMid, hmid, hallMid⟩
      have hsafe : Sound self lists ∧ self.Inside ppn (ppn + 2 ^ (order + 1)) →
          Sound inserted listsMid ∧ inserted.Inside ppn (ppn + 2 ^ order) := by
        rintro ⟨hsound, hinside⟩
        refine ⟨hsound.of_ranges hranges (hallMid ⟨hsound, ?_⟩), ?_⟩
        · exact hinside.mono (by omega) (by omega)
        · rw [inside_congr hranges]
          exact hinside.mono le_rfl (by omega)
      have hnext := ih hmid (by omega) (by omega) ⟨hlowAlign, hleft, fun page hpage =>
        (hkept page (hleft page hpage)).trans (hspare.interior page (hlower hpage))⟩
      have hheldEq : (held \ block (ppn + 2 ^ order) order) \ (block ppn order \ block ppn target) =
            held \ (block ppn (order + 1) \ block ppn target) := by
        have htargetLe : 2 ^ target ≤ 2 ^ order := Nat.pow_le_pow_right (by norm_num) (by omega)
        ext page
        simp only [Set.mem_sdiff, mem_block, and_assoc]
        refine and_congr_right fun _ => ?_
        omega
      rw [hheldEq] at hnext
      refine hnext.trans hranges (fun page hpage => ?_) hsafe
      rw [← hheldEq] at hpage
      exact hkept page hpage.1
    · next hge =>
      obtain rfl : target = order + 1 := by omega
      exact hholds.gives_self (fun hsafe => hsafe.1.2) sdiff_self

structure Granted (before after : BuddyFrameAllocator) (held : Set ℕ)
    (start pages : ℕ) (safe : Prop) : Prop where
  bounds : after.bounds = before.bounds
  apart : ∀ page ∈ Set.Ico start (start + pages), page ∉ held
  within : pages ≠ 0 → ∃ range ∈ before.bounds, range.1 ≤ start ∧ start + pages ≤ range.2
  granted : ∀ page ∈ Set.Ico start (start + pages), after.frameState page = some frameStateAllocated
  kept : ∀ page ∈ held, after.frameState page = before.frameState page
  holds : ∃ lists, Holds after lists (held ∪ Set.Ico start (start + pages)) ∧
    (safe → AllInside after lists)

theorem sourceOrder_spec {target : ℕ} (hsource : self.sourceOrder target = some order) :
    target ≤ order ∧ order < frameBuddyOrders ∧ self.buddyHeads order ≠ buddyListEnd := by
  have hmem := mem_of_find?_eq_some hsource
  have hhead := find?_some hsource
  rw [mem_range'_1] at hmem
  exact ⟨hmem.1, by omega, by simpa using hhead⟩

theorem Holds.allocBuddyPowerOfTwo_granted (target : ℕ) (hholds : Holds self lists held) :
    Outcome (self.allocBuddyPowerOfTwo target) (Sound self lists) fun result =>
      match result.2 with
      | none => result.1 = self
      | some ppn => 2 ^ target ∣ ppn ∧
          Granted self result.1 held ppn (2 ^ target) (Sound self lists) := by
  rw [allocBuddyPowerOfTwo]
  cases hsource : self.sourceOrder target with
  | none => exact rfl
  | some order =>
    obtain ⟨htarget, horder, hhead⟩ := sourceOrder_spec hsource
    have hmem := (hholds.linked order horder).head_mem hhead
    have halign := hholds.aligned order horder _ hmem
    simp only
    generalize self.buddyHeads order = ppn at *
    have hapart : ∀ page ∈ block ppn order, page ∉ held := fun page hpage =>
      ((hholds.covered_iff page).mp (mem_covered horder hmem hpage)).2
    have hsub : block ppn target ⊆ block ppn order := Set.Ico_subset_Ico_right
      (Nat.add_le_add_left (Nat.pow_le_pow_right (by norm_num) htarget) ppn)
    refine ((hholds.buddyRemove_removed horder hmem).mono (fun hsafe => hsafe.2)
      fun _ h => h).bind _ ?_
    intro removed hremoved
    have hremovedHolds := hremoved.holds hholds horder hmem
    have hsafe : Sound self lists →
        Sound removed (Function.update lists order ((lists order).erase ppn)) ∧
          removed.Inside ppn (ppn + 2 ^ order) := by
      intro hsound
      refine ⟨hsound.of_ranges hremoved.ranges (hremoved.allInside hholds horder hmem hsound.2), ?_⟩
      rw [inside_congr hremoved.ranges]
      exact hsound.2 order horder ppn hmem
    have hheldEq : (held ∪ block ppn order) \ (block ppn order \ block ppn target) =
        held ∪ Set.Ico ppn (ppn + 2 ^ target) := by
      change _ = held ∪ block ppn target
      ext page
      have hin := hapart page
      have hinner : page ∈ block ppn target → page ∈ block ppn order := @hsub page
      simp only [Set.mem_sdiff, Set.mem_union]
      tauto
    have hsplit := hremovedHolds.splitBlock_gives horder htarget
      ⟨halign, Set.subset_union_right, hremoved.interior hholds horder hmem⟩
    rw [hheldEq] at hsplit
    refine (hsplit.mono hsafe fun _ h => h).bind _ ?_
    rintro split ⟨hranges, hkept, listsSplit, hsplitHolds, hallSplit⟩
    refine ((hsplitHolds.formed.fillFrameStates_spec ppn (2 ^ target)
      frameStateAllocated).mono ?_ fun _ h => h).bind _ ?_
    · intro hsound
      obtain ⟨range, hrange, hlow, hhigh⟩ := (hsafe hsound).2
      have hpow : 2 ^ target ≤ 2 ^ order := Nat.pow_le_pow_right (by norm_num) htarget
      rw [← hranges] at hrange
      have hcurrent := (hsplitHolds.formed.formed range hrange).current_le
      exact .inr ⟨range, hrange, hlow, by omega⟩
    · rintro filled ⟨hwithin, states, rfl, hstates⟩
      have hrangesAll := hranges.trans hremoved.ranges
      refine ⟨(pow_dvd_pow 2 htarget).trans halign, ?_⟩
      constructor
      case bounds => exact bounds_congr hrangesAll
      case apart => exact fun page hpage => hapart page (hsub hpage)
      case within =>
        intro hpages
        obtain ⟨range, hrange, hlow, hhigh⟩ := hwithin.resolve_left hpages
        rw [hrangesAll] at hrange
        exact ⟨_, mem_bounds hrange, hlow, hhigh⟩
      case granted => exact fun page hpage => (hstates page).trans (if_pos hpage)
      case kept =>
        intro page hpage
        have hout : ¬(ppn ≤ page ∧ page < ppn + 2 ^ target) := fun hin =>
          hapart page (hsub hin) hpage
        rw [hstates, if_neg hout, hkept page (.inl hpage), hremoved.state, if_neg]
        rintro rfl
        exact hapart page (base_mem_block page order) hpage
      case holds =>
        exact ⟨listsSplit, hsplitHolds.withStates Set.subset_union_right (by decide) hstates,
          fun hsound => hallSplit (hsafe hsound)⟩

/-! ## Taking fresh pages -/

theorem Formed.inside_of_reached (hformed : self.Formed) {start stop : ℕ} (hlt : start < stop)
    (hwithin : ∃ range ∈ self.bounds, range.1 ≤ start ∧ stop ≤ range.2)
    (hreached : self.Reached (stop - 1)) : self.Inside start stop := by
  obtain ⟨pair, hpair, hlow, hhigh⟩ := hwithin
  obtain ⟨range, hrange, rfl⟩ := mem_map.mp hpair
  obtain ⟨other, hother, hstart, hcurrent⟩ := hreached
  have hcurrentLe := (hformed.formed other hother).current_le
  simp only at hlow hhigh
  have hsame := hformed.range_eq hrange hother
    (⟨by omega, by omega⟩ : range.start ≤ stop - 1 ∧ stop - 1 < range.stop)
    ⟨hstart, by omega⟩
  subst hsame
  exact ⟨range, hrange, hlow, by omega⟩

section Front

variable {index current : ℕ} {range : FrameRange}

theorem setCurrent_bounds (hrange : self.ranges[index]? = some range) (current : ℕ) :
    (self.setCurrent index current).bounds = self.bounds := by
  obtain ⟨before, rest, hranges, hmoved⟩ := setCurrent_ranges hrange current
  rw [bounds, bounds, hranges, hmoved, map_append, map_append, map_cons,
    map_cons]

theorem Holds.setCurrent
    (hholds : Holds self lists held) (hrange : self.ranges[index]? = some range)
    (hlow : range.current ≤ current) (hhigh : current ≤ range.stop) :
    Holds (self.setCurrent index current) lists (held ∪ Set.Ico range.current current) := by
  have hformed := hholds.formed
  have hstate := hformed.setCurrent_frameState hrange hlow hhigh
  have hreached := hformed.setCurrent_reached hrange hlow
  have hfront : ∀ page ∈ Set.Ico range.current current, ¬self.Reached page := by
    intro page hpage hin
    have hmem := mem_of_getElem? hrange
    exact hformed.not_reached_and_fresh hin ⟨range, hmem, hpage.1, hpage.2.trans_le hhigh⟩
  refine { hholds with
    formed := hformed.setCurrent hrange hlow hhigh, state_iff := ?_, covered_iff := ?_,
    held_reached := ?_, interior := ?_, fresh_state := ?_ }
  · intro order horder page
    rw [hstate]
    exact hholds.state_iff order horder page
  · intro page
    rw [hholds.covered_iff, hreached, Set.mem_union, not_or]
    constructor
    · rintro ⟨hin, hnot⟩
      exact ⟨.inl hin, hnot, fun hpage => hfront page hpage hin⟩
    · rintro ⟨hin | hin, hnot, hout⟩
      · exact ⟨hin, hnot⟩
      · exact absurd hin hout
  · rintro page (hpage | hpage)
    · exact (hreached page).mpr (.inl (hholds.held_reached page hpage))
    · exact (hreached page).mpr (.inr hpage)
  · intro order horder base hbase page hpage hne
    rw [hstate]
    exact hholds.interior order horder base hbase page hpage hne
  · intro page hfresh
    rw [hstate]
    exact hholds.fresh_state page (setCurrent_fresh hrange hlow hfresh)

theorem AllInside.setCurrent (hall : AllInside self lists)
    (hrange : self.ranges[index]? = some range) (hlow : range.current ≤ current) :
    AllInside (self.setCurrent index current) lists := fun order horder base hbase =>
  setCurrent_inside hrange hlow (hall order horder base hbase)

theorem Holds.setCurrent_granted {pages : ℕ} (hholds : Holds self lists held)
    (hrange : self.ranges[index]? = some range) (hhigh : range.current + pages ≤ range.stop) :
    Granted self (self.setCurrent index (range.current + pages)) held range.current pages
      (Sound self lists) := by
  have hmem := mem_of_getElem? hrange
  have hformed := hholds.formed
  have hlow : range.current ≤ range.current + pages := Nat.le_add_right _ _
  have hstate := hformed.setCurrent_frameState hrange hlow hhigh
  have hfresh : ∀ page ∈ Set.Ico range.current (range.current + pages), self.Fresh page :=
    fun page hpage => ⟨range, hmem, hpage.1, hpage.2.trans_le hhigh⟩
  constructor
  case bounds => exact setCurrent_bounds hrange _
  case apart =>
    exact fun page hpage hin => hformed.not_reached_and_fresh (hholds.held_reached page hin)
      (hfresh page hpage)
  case within => exact fun _ => ⟨_, mem_bounds hmem, (hformed.formed range hmem).start_le, hhigh⟩
  case granted =>
    exact fun page hpage => (hstate page).trans (hholds.fresh_state page (hfresh page hpage))
  case kept => exact fun page _ => hstate page
  case holds => exact ⟨lists, hholds.setCurrent hrange hlow hhigh,
    fun hsound => hsound.2.setCurrent hrange hlow⟩

/-- What lies before or behind the extent which is kept goes back to the lists. -/
theorem Granted.shrink {taken : BuddyFrameAllocator} {start total low high base pages : ℕ}
    (hgranted : Granted self taken held start total (Sound self lists))
    (hsides : low = start ∧ high = base ∧ start ≤ base ∧ base + pages = start + total ∨
      low = base + pages ∧ high = start + total ∧ base = start ∧ pages ≤ total) :
    Outcome (taken.insertRecycledRange low high) (Sound self lists)
      fun s' => Granted self s' held base pages (Sound self lists) := by
  obtain ⟨listsTaken, htaken, hallTaken⟩ := hgranted.holds
  have hsafe : Sound self lists →
      Sound taken listsTaken ∧ (low < high → taken.Inside low high) := by
    intro hsound
    refine ⟨⟨by rw [hgranted.bounds]; exact hsound.1, hallTaken hsound⟩, fun hlt => ?_⟩
    obtain ⟨range, hrange, hfirst, hlast⟩ := hgranted.within (by omega)
    exact htaken.formed.inside_of_reached hlt ⟨range, by rwa [hgranted.bounds], by omega, by omega⟩
      (htaken.held_reached _ (.inr ⟨by omega, by omega⟩))
  have hheldEq : (held ∪ Set.Ico start (start + total)) \ Set.Ico low high =
      held ∪ Set.Ico base (base + pages) := by
    ext page
    have hin := hgranted.apart page
    simp only [Set.mem_sdiff, Set.mem_union, Set.mem_Ico] at hin ⊢
    by_cases hpage : page ∈ held
    · simp only [hpage, not_true_eq_false, imp_false, true_or, true_and, iff_true] at hin ⊢
      omega
    · simp only [hpage, false_or]
      omega
  have hinsert := htaken.insertRecycledRange_gives
    (fun page hpage => .inr ⟨by have := hpage.1; omega, by have := hpage.2; omega⟩ :
      Set.Ico low high ⊆ _)
  rw [hheldEq] at hinsert
  refine hinsert.mono hsafe ?_
  rintro s' ⟨hranges, hkept, listsAfter, hafter, hall⟩
  have hsub : ∀ page ∈ Set.Ico base (base + pages), page ∈ Set.Ico start (start + total) :=
    fun page hpage => ⟨by have := hpage.1; omega, by have := hpage.2; omega⟩
  constructor
  case bounds => exact (bounds_congr hranges).trans hgranted.bounds
  case apart => exact fun page hpage => hgranted.apart page (hsub page hpage)
  case within =>
    intro hpages
    obtain ⟨range, hrange, hfirst, hlast⟩ := hgranted.within (by omega)
    exact ⟨range, hrange, by omega, by omega⟩
  case granted =>
    exact fun page hpage =>
      (hkept page (.inr hpage)).trans (hgranted.granted page (hsub page hpage))
  case kept => exact fun page hpage => (hkept page (.inl hpage)).trans (hgranted.kept page hpage)
  case holds => exact ⟨listsAfter, hafter, fun hsound => hall (hsafe hsound)⟩

end Front

/-! ## Allocation requests -/

/-- A request that cannot be met changes nothing. -/
def Serves (self : BuddyFrameAllocator) (held : Set ℕ) (pages align : ℕ) (safe : Prop)
    (result : BuddyFrameAllocator × Option FrameExtent) : Prop :=
  match result.2 with
  | none => result.1 = self
  | some extent => extent.pages = pages ∧ align ∣ extent.start ∧
      Granted self result.1 held extent.start pages safe

variable {align : ℕ}

theorem alignUpPpn_spec {current base : ℕ} (hpos : 0 < align)
    (halign : alignUpPpn current align = some base) : current ≤ base ∧ align ∣ base := by
  rw [alignUpPpn] at halign
  split at halign
  · rw [Option.some.injEq] at halign
    subst halign
    refine ⟨?_, Nat.dvd_mul_left _ _⟩
    have hdiv := Nat.div_add_mod (current + (align - 1)) align
    have hmod := Nat.mod_lt (current + (align - 1)) hpos
    rw [mul_comm]
    omega
  · exact absurd halign (by simp)

variable {pages index : ℕ}

theorem findFresh_spec (hpos : 0 < align) {ranges : List FrameRange} {start base : ℕ}
    (hfind : findFresh pages align ranges start = some (index, base)) :
    ∃ range, start ≤ index ∧ ranges[index - start]? = some range ∧
      range.current ≤ base ∧ base + pages ≤ range.stop ∧ align ∣ base := by
  induction ranges generalizing start with
  | nil => simp [findFresh] at hfind
  | cons range rest ih =>
    rw [findFresh] at hfind
    split at hfind
    · exact absurd hfind (by simp)
    · next candidate halign =>
      split at hfind
      · exact absurd hfind (by simp)
      · split at hfind
        · obtain ⟨found, hle, hget, hfits⟩ := ih hfind
          refine ⟨found, by omega, ?_, hfits⟩
          rw [show index - start = index - (start + 1) + 1 by omega, getElem?_cons_succ]
          exact hget
        · next hfits =>
          cases hfind
          obtain ⟨hlow, hdvd⟩ := alignUpPpn_spec hpos halign
          exact ⟨range, le_rfl, by simp, hlow, by omega, hdvd⟩

theorem rangeCurrent_eq {range : FrameRange} (hrange : self.ranges[index]? = some range) :
    self.rangeCurrent index = range.current := by
  simp [rangeCurrent, hrange]

theorem Holds.allocFreshContiguous_granted (hpos : 0 < align) (hholds : Holds self lists held) :
    Outcome (self.allocFreshContiguous pages align) (Sound self lists)
      (Serves self held pages align (Sound self lists)) := by
  rw [allocFreshContiguous]
  cases hfind : findFresh pages align self.ranges 0 with
  | none => exact rfl
  | some found =>
    obtain ⟨index, base⟩ := found
    obtain ⟨range, -, hrange, hlow, hhigh, hdvd⟩ := findFresh_spec hpos hfind
    rw [Nat.sub_zero] at hrange
    obtain ⟨gap, rfl⟩ := Nat.exists_eq_add_of_le hlow
    have hmoved := hholds.setCurrent_granted hrange
      (by omega : range.current + (gap + pages) ≤ range.stop)
    simp only [rangeCurrent_eq hrange, Nat.add_assoc]
    refine (hmoved.shrink (.inl ⟨rfl, rfl, by omega, Nat.add_assoc _ _ _⟩)).bind _ ?_
    intro s' hgranted
    exact ⟨rfl, hdvd, hgranted⟩

theorem freshIndex_spec (hindex : self.freshIndex = some index) :
    ∃ range, self.ranges[index]? = some range ∧ range.current < range.stop := by
  rw [freshIndex, findIdx?_eq_some_iff_getElem] at hindex
  obtain ⟨hlt, hroom, -⟩ := hindex
  exact ⟨self.ranges[index], getElem?_eq_getElem hlt, by simpa using hroom⟩

theorem Holds.alloc_granted (hholds : Holds self lists held) :
    Outcome self.alloc (Sound self lists) fun result =>
      match result.2 with
      | none => result.1 = self
      | some ppn => Granted self result.1 held ppn 1 (Sound self lists) := by
  rw [alloc]
  refine (hholds.allocBuddyPowerOfTwo_granted 0).bind _ ?_
  rintro ⟨taken, found⟩ hresult
  cases found with
  | some ppn => exact hresult.2
  | none =>
    simp only at hresult ⊢
    subst hresult
    cases hindex : taken.freshIndex with
    | none => exact rfl
    | some index =>
      obtain ⟨range, hrange, hroom⟩ := freshIndex_spec hindex
      simp only [rangeCurrent_eq hrange]
      exact hholds.setCurrent_granted hrange hroom

theorem isPowerOfTwo_spec {value : ℕ} (hpower : isPowerOfTwo value = true) :
    ∃ exponent, value = 2 ^ exponent :=
  ⟨Nat.log2 value, (by simpa [isPowerOfTwo] using hpower : _ = value).symm⟩

theorem blockOrder_spec {power : ℕ} (hpower : checkedNextPowerOfTwo pages = some power)
    (halign : isPowerOfTwo align = true)
    (horder : trailingZeros 64 (max power align) < frameBuddyOrders) :
    max power align = 2 ^ trailingZeros 64 (max power align) ∧
      pages ≤ max power align ∧ align ∣ max power align := by
  obtain ⟨alignExponent, rfl⟩ := isPowerOfTwo_spec halign
  have hle := le_nextPowerOfTwo pages
  obtain rfl := checkedNextPowerOfTwo_eq_some hpower
  rw [nextPowerOfTwo] at hle horder ⊢
  set exponent := Nat.clog 2 pages
  have hmax : max (2 ^ exponent) (2 ^ alignExponent) = 2 ^ max exponent alignExponent :=
    ((pow_right_mono₀ one_le_two).map_max).symm
  rw [hmax, trailingZeros_two_pow] at horder ⊢
  have hsmall : frameBuddyOrders ≤ 64 := by decide
  refine ⟨by rw [min_eq_left (by omega)], ?_, pow_dvd_pow 2 (le_max_right _ _)⟩
  exact hle.trans (Nat.pow_le_pow_right (by norm_num) (le_max_left _ _))

theorem Holds.allocRecycledContiguous_granted (halign : isPowerOfTwo align = true)
    (hholds : Holds self lists held) :
    Outcome (self.allocRecycledContiguous pages align) (Sound self lists)
      (Serves self held pages align (Sound self lists)) := by
  rw [allocRecycledContiguous]
  cases hpower : checkedNextPowerOfTwo pages with
  | none => exact rfl
  | some power =>
    simp only
    split
    · exact rfl
    · next horder =>
      obtain ⟨hblockPages, hpages, hdvd⟩ := blockOrder_spec hpower halign (by omega)
      generalize trailingZeros 64 (max power align) = order at *
      rw [hblockPages] at hpages hdvd ⊢
      refine (hholds.allocBuddyPowerOfTwo_granted order).bind _ ?_
      rintro ⟨taken, found⟩ hresult
      cases found with
      | none => exact hresult
      | some start =>
        simp only at hresult ⊢
        obtain ⟨hstart, hgranted⟩ := hresult
        refine (hgranted.shrink (.inr ⟨rfl, rfl, rfl, hpages⟩)).bind _ ?_
        intro s' hafter
        exact ⟨rfl, hdvd.trans hstart, hafter⟩

theorem Holds.granted_nothing (hholds : Holds self lists held) :
    Granted self self held 0 0 (Sound self lists) where
  bounds := rfl
  apart := by simp
  within := absurd rfl
  granted := by simp
  kept := fun _ _ => rfl
  holds := ⟨lists, by simpa using hholds, And.right⟩

theorem Holds.allocContiguous_granted (pages align : ℕ) (hholds : Holds self lists held) :
    Outcome (self.allocContiguous pages align) (Sound self lists)
      (Serves self held pages align (Sound self lists)) := by
  rw [allocContiguous]
  split
  · exact rfl
  · next hpower =>
    rw [Bool.not_eq_false] at hpower
    split
    · next hzero =>
      subst hzero
      exact ⟨rfl, Nat.dvd_zero _, hholds.granted_nothing⟩
    · split
      · next hone =>
        obtain ⟨rfl, rfl⟩ := hone
        refine hholds.alloc_granted.bind _ ?_
        rintro ⟨taken, found⟩ hresult
        cases found with
        | none => exact hresult
        | some ppn => exact ⟨rfl, one_dvd _, hresult⟩
      · have hpos : 0 < align := by
          obtain ⟨exponent, rfl⟩ := isPowerOfTwo_spec hpower
          exact Nat.two_pow_pos exponent
        refine (hholds.allocFreshContiguous_granted hpos).bind _ ?_
        rintro ⟨fresh, found⟩ hresult
        cases found with
        | some extent => exact hresult
        | none =>
          obtain rfl : fresh = self := hresult
          exact hholds.allocRecycledContiguous_granted hpower

end BuddyFrameAllocator

end Kairix.Frame
