import Kairix.BuddyHeap

/-!
# Blocks of the kernel heap

Every block of managed memory is either in a free list or in somebody's hand,
and no two of them share a byte.  Each operation of the heap moves blocks
between the lists and the hand; none of its assertions can fail.
-/

namespace Kairix.KernelHeap

open DyadicBlock List

def cells (piece : ℕ × ℕ) : Set ℕ := block piece.1 piece.2

structure Aligned (managed : Set ℕ) (piece : ℕ × ℕ) : Prop where
  dvd : 2 ^ piece.2 ∣ piece.1
  subset : cells piece ⊆ managed

theorem Aligned.mono {managed larger : Set ℕ} {piece : ℕ × ℕ} (haligned : Aligned managed piece)
    (hsubset : managed ⊆ larger) : Aligned larger piece :=
  ⟨haligned.dvd, haligned.subset.trans hsubset⟩

theorem Aligned.base_mem {managed : Set ℕ} {piece : ℕ × ℕ} (haligned : Aligned managed piece) :
    piece.1 ∈ managed :=
  haligned.subset (base_mem_block ..)

namespace BuddyHeap

def Free (heap : BuddyHeap) (piece : ℕ × ℕ) : Prop := piece.1 ∈ heap.freeList piece.2

structure Holds (heap : BuddyHeap) (hand : List (ℕ × ℕ)) (managed : Set ℕ) : Prop where
  nodup : ∀ order, (heap.freeList order).Nodup
  free_aligned : ∀ piece, heap.Free piece → Aligned managed piece
  hand_aligned : ∀ piece ∈ hand, Aligned managed piece
  free_apart : ∀ first second, heap.Free first → heap.Free second → first ≠ second →
    Disjoint (cells first) (cells second)
  hand_apart : hand.Pairwise fun first second => Disjoint (cells first) (cells second)
  between : ∀ piece, heap.Free piece → ∀ other ∈ hand, Disjoint (cells piece) (cells other)

variable {heap s' : BuddyHeap} {hand : List (ℕ × ℕ)} {managed : Set ℕ}
variable {base order : ℕ}

theorem holds_empty : Holds empty [] ∅ where
  nodup := fun _ => nodup_nil
  free_aligned := fun _ hfree => absurd hfree not_mem_nil
  hand_aligned := fun _ hpiece => absurd hpiece not_mem_nil
  free_apart := fun _ _ hfirst => absurd hfirst not_mem_nil
  hand_apart := Pairwise.nil
  between := fun _ hfree => absurd hfree not_mem_nil

theorem Holds.perm {other : List (ℕ × ℕ)} (hholds : Holds heap hand managed)
    (hperm : hand.Perm other) : Holds heap other managed :=
  { hholds with
    hand_aligned := fun piece hpiece => hholds.hand_aligned piece (hperm.mem_iff.mpr hpiece)
    hand_apart := hperm.pairwise hholds.hand_apart fun h => h.symm
    between := fun piece hfree other hother =>
      hholds.between piece hfree other (hperm.mem_iff.mpr hother) }

theorem Holds.mono
    {larger : Set ℕ} (hholds : Holds heap hand managed) (hsubset : managed ⊆ larger) :
    Holds heap hand larger :=
  { hholds with
    free_aligned := fun piece hfree => (hholds.free_aligned piece hfree).mono hsubset
    hand_aligned := fun piece hpiece => (hholds.hand_aligned piece hpiece).mono hsubset }

/-! ## Moving one block -/

theorem mem_setList {blocks : List ℕ} {piece : ℕ × ℕ} : (heap.setList order blocks).Free piece ↔
      if piece.2 = order then piece.1 ∈ blocks else heap.Free piece := by
  simp only [Free, setList, Function.update_apply]
  split <;> rfl

theorem Holds.take (hholds : Holds heap hand managed) {rest : List ℕ}
    (hperm : (heap.freeList order).Perm (base :: rest)) :
    Holds (heap.setList order rest) ((base, order) :: hand) managed := by
  have hlist := hperm.nodup_iff.mp (hholds.nodup order)
  have hbase : heap.Free (base, order) := hperm.mem_iff.mpr mem_cons_self
  have hold : ∀ piece, (heap.setList order rest).Free piece →
      heap.Free piece ∧ piece ≠ (base, order) := by
    intro piece hfree
    rw [mem_setList] at hfree
    split at hfree
    · next heq =>
      refine ⟨?_, ?_⟩
      · rw [Free, heq]
        exact hperm.mem_iff.mpr (mem_cons_of_mem _ hfree)
      · rintro rfl
        exact (nodup_cons.mp hlist).1 hfree
    · next hne => exact ⟨hfree, fun heq => hne (congrArg Prod.snd heq)⟩
  refine ⟨?_, ?_, ?_, ?_, ?_, ?_⟩
  · intro other
    by_cases heq : other = order
    · subst other
      simpa [setList] using (nodup_cons.mp hlist).2
    · simpa [setList, heq] using hholds.nodup other
  · exact fun piece hfree => hholds.free_aligned piece (hold piece hfree).1
  · intro piece hpiece
    rcases mem_cons.mp hpiece with rfl | hpiece
    · exact hholds.free_aligned _ hbase
    · exact hholds.hand_aligned piece hpiece
  · exact fun first second hfirst hsecond =>
      hholds.free_apart first second (hold first hfirst).1 (hold second hsecond).1
  · exact pairwise_cons.mpr ⟨fun other hother => hholds.between _ hbase other hother,
      hholds.hand_apart⟩
  · intro piece hfree other hother
    obtain ⟨hpiece, hne⟩ := hold piece hfree
    rcases mem_cons.mp hother with rfl | hother
    · exact hholds.free_apart piece _ hpiece hbase hne
    · exact hholds.between piece hpiece other hother

theorem Holds.notFree_of_hand
    (hholds : Holds heap ((base, order) :: hand) managed) : base ∉ heap.freeList order := by
  intro hfree
  have hapart := hholds.between (base, order) hfree (base, order) mem_cons_self
  exact Set.disjoint_left.mp hapart (base_mem_block ..) (base_mem_block ..)

theorem Holds.insert (hholds : Holds heap ((base, order) :: hand) managed) :
    ∃ s', heap.insert order base = .ok s' ∧ Holds s' hand managed ∧ s'.freeList order ≠ [] := by
  have hnew := hholds.notFree_of_hand
  have hperm := perm_orderedInsert (· ≤ ·) base (heap.freeList order)
  rw [BuddyHeap.insert, if_neg hnew]
  have hcases : ∀ piece, (heap.setList order
      ((heap.freeList order).orderedInsert (· ≤ ·) base)).Free piece →
        piece = (base, order) ∨ heap.Free piece := by
    intro piece hfree
    rw [mem_setList] at hfree
    split at hfree
    · next heq =>
      rcases mem_cons.mp (hperm.mem_iff.mp hfree) with hbase | hfree
      · exact .inl (Prod.ext hbase heq)
      · exact .inr (by rwa [Free, heq])
    · exact .inr hfree
  obtain ⟨hhand, hrest⟩ := pairwise_cons.mp hholds.hand_apart
  refine ⟨_, rfl, ⟨?_, ?_, ?_, ?_, hrest, ?_⟩, ?_⟩
  · intro other
    by_cases heq : other = order
    · subst other
      simpa [setList] using hperm.nodup_iff.mpr (nodup_cons.mpr ⟨hnew, hholds.nodup _⟩)
    · simpa [setList, heq] using hholds.nodup other
  · intro piece hfree
    rcases hcases piece hfree with rfl | hold
    · exact hholds.hand_aligned _ mem_cons_self
    · exact hholds.free_aligned piece hold
  · exact fun piece hpiece => hholds.hand_aligned piece (mem_cons_of_mem _ hpiece)
  · intro first second hfirst hsecond hne
    rcases hcases first hfirst with rfl | hfirst
    · rcases hcases second hsecond with rfl | hsecond
      · exact absurd rfl hne
      · exact (hholds.between second hsecond _ mem_cons_self).symm
    · rcases hcases second hsecond with rfl | hsecond
      · exact hholds.between first hfirst _ mem_cons_self
      · exact hholds.free_apart first second hfirst hsecond hne
  · intro piece hfree other hother
    rcases hcases piece hfree with rfl | hold
    · exact hhand other hother
    · exact hholds.between piece hold other (mem_cons_of_mem _ hother)
  · intro hnil
    have hmem : base ∈ (heap.freeList order).orderedInsert (· ≤ ·) base :=
      hperm.mem_iff.mpr mem_cons_self
    simp only [setList, Function.update_self] at hnil
    simp [hnil] at hmem

theorem Holds.pop (hholds : Holds heap hand managed) (hlist : heap.freeList order ≠ []) :
    ∃ base rest, heap.pop order = some (base, rest) ∧
      Holds rest ((base, order) :: hand) managed := by
  cases hblocks : heap.freeList order with
  | nil => exact absurd hblocks hlist
  | cons base rest =>
    refine ⟨base, heap.setList order rest, ?_, hholds.take (hblocks ▸ .refl _)⟩
    rw [BuddyHeap.pop, hblocks]

theorem Holds.replace (old new : List (ℕ × ℕ)) (hholds : Holds heap (old ++ hand) managed)
    (haligned : ∀ piece ∈ new, 2 ^ piece.2 ∣ piece.1)
    (hcover : ∀ piece ∈ new, ∀ byte ∈ cells piece, ∃ other ∈ old, byte ∈ cells other)
    (hapart : new.Pairwise fun first second => Disjoint (cells first) (cells second)) :
    Holds heap (new ++ hand) managed := by
  obtain ⟨hold, hhand, hbetween⟩ := pairwise_append.mp hholds.hand_apart
  have hdisjoint : ∀ piece ∈ new, ∀ target : Set ℕ,
      (∀ other ∈ old, Disjoint (cells other) target) → Disjoint (cells piece) target := by
    intro piece hpiece target htarget
    refine Set.disjoint_left.mpr fun byte hbyte hmem => ?_
    obtain ⟨other, hother, hcell⟩ := hcover piece hpiece byte hbyte
    exact Set.disjoint_left.mp (htarget other hother) hcell hmem
  refine ⟨hholds.nodup, hholds.free_aligned, ?_, hholds.free_apart, ?_, ?_⟩
  · intro piece hpiece
    rcases mem_append.mp hpiece with hnew | hother
    · refine ⟨haligned piece hnew, fun byte hbyte => ?_⟩
      obtain ⟨other, hother, hcell⟩ := hcover piece hnew byte hbyte
      exact (hholds.hand_aligned other (mem_append_left _ hother)).subset hcell
    · exact hholds.hand_aligned piece (mem_append_right _ hother)
  · refine pairwise_append.mpr ⟨hapart, hhand, ?_⟩
    intro piece hpiece other hother
    exact hdisjoint piece hpiece _ fun source hsource => hbetween source hsource other hother
  · intro piece hfree other hother
    rcases mem_append.mp hother with hnew | hother
    · refine (hdisjoint other hnew _ fun source hsource => ?_).symm
      exact (hholds.between piece hfree source (mem_append_left _ hsource)).symm
    · exact hholds.between piece hfree other (mem_append_right _ hother)

theorem disjoint_halves (base order : ℕ) :
    Disjoint (cells (base + 2 ^ order, order)) (cells (base, order)) := by
  refine Set.disjoint_left.mpr fun byte hupper hlower => ?_
  have hu := mem_block.mp hupper
  have hl := mem_block.mp hlower
  simp only at hu hl
  omega

theorem Holds.split (hholds : Holds heap ((base, order + 1) :: hand) managed) :
    Holds heap ((base + 2 ^ order, order) :: (base, order) :: hand) managed := by
  have hdvd : 2 ^ (order + 1) ∣ base := (hholds.hand_aligned _ mem_cons_self).dvd
  have hhalf : 2 ^ order ∣ base := (pow_dvd_pow 2 (Nat.le_succ order)).trans hdvd
  refine Holds.replace [(base, order + 1)] [(base + 2 ^ order, order), (base, order)]
    hholds ?_ ?_ ?_
  · intro piece hpiece
    simp only [mem_cons, not_mem_nil, or_false] at hpiece
    rcases hpiece with rfl | rfl
    · exact (Nat.dvd_add_right hhalf).mpr dvd_rfl
    · exact hhalf
  · intro piece hpiece byte hbyte
    refine ⟨_, mem_singleton_self _, ?_⟩
    rw [cells, block_succ]
    simp only [mem_cons, not_mem_nil, or_false] at hpiece
    rcases hpiece with rfl | rfl
    · exact .inr hbyte
    · exact .inl hbyte
  · simpa using disjoint_halves base order

theorem Holds.merge
    (hholds : Holds heap ((base ^^^ 2 ^ order, order) :: (base, order) :: hand) managed) :
    Holds heap ((min base (base ^^^ 2 ^ order), order + 1) :: hand) managed := by
  have hdvd : 2 ^ order ∣ base :=
    (hholds.hand_aligned _ (mem_cons_of_mem _ mem_cons_self)).dvd
  obtain ⟨hmin, hunion⟩ := xor_buddy_union hdvd
  refine Holds.replace [(base ^^^ 2 ^ order, order), (base, order)]
    [(min base (base ^^^ 2 ^ order), order + 1)] hholds ?_ ?_ ?_
  · intro piece hpiece
    obtain rfl := mem_singleton.mp hpiece
    exact hmin
  · intro piece hpiece byte hbyte
    obtain rfl := mem_singleton.mp hpiece
    rw [cells, hunion] at hbyte
    rcases hbyte with hbase | hbuddy
    · exact ⟨(base, order), by simp, hbase⟩
    · exact ⟨(base ^^^ 2 ^ order, order), by simp, hbuddy⟩
  · exact pairwise_singleton ..

theorem Holds.splitBlocks (hholds : Holds heap hand managed) {target levels : ℕ}
    (hlist : heap.freeList (target + levels) ≠ []) :
    ∃ s', heap.splitBlocks target levels = .ok (s', true) ∧ Holds s' hand managed ∧
      s'.freeList target ≠ [] := by
  induction levels generalizing heap with
  | zero => exact ⟨heap, rfl, hholds, hlist⟩
  | succ levels ih =>
    have hlevel : heap.freeList (target + levels + 1) ≠ [] := hlist
    obtain ⟨base, rest, hpop, hrest⟩ := hholds.pop hlevel
    obtain ⟨upper, hupper, hupperHolds, -⟩ := hrest.split.insert
    obtain ⟨both, hboth, hbothHolds, hbothList⟩ := hupperHolds.insert
    obtain ⟨s', hafter, hafterHolds⟩ := ih hbothHolds hbothList
    refine ⟨s', ?_, hafterHolds⟩
    simp only [BuddyHeap.splitBlocks, hpop, hupper, hboth, hafter]

theorem freeList_of_firstNonEmpty {found : ℕ} (hfound : heap.firstNonEmpty order = some found) :
    order ≤ found ∧ found < kernelHeapOrder ∧ heap.freeList found ≠ [] := by
  have hmem := mem_of_find?_eq_some hfound
  have hlist := find?_some hfound
  rw [mem_range'_1] at hmem
  exact ⟨hmem.1, by omega, by simpa using hlist⟩

theorem Holds.alloc (hholds : Holds heap hand managed) (hzero : 0 ∉ managed) (layout : Layout) :
    ∃ result s', heap.alloc layout = .ok (result, s') ∧
      Holds s' (result.toList.map (·, layout.blockOrder) ++ hand) managed ∧
      (result ≠ none → layout.blockOrder < kernelHeapOrder) := by
  cases hfound : heap.firstNonEmpty layout.blockOrder with
  | none => exact ⟨none, heap, by simp only [BuddyHeap.alloc, hfound], hholds, absurd rfl⟩
  | some found =>
    obtain ⟨hle, hlt, hlist⟩ := freeList_of_firstNonEmpty hfound
    have hsum : layout.blockOrder + (found - layout.blockOrder) = found := Nat.add_sub_cancel' hle
    obtain ⟨split, hsplit, hsplitHolds, hsplitList⟩ := hholds.splitBlocks (hsum.symm ▸ hlist)
    obtain ⟨base, rest, hpop, hrest⟩ := hsplitHolds.pop hsplitList
    have hne : base ≠ 0 := by
      rintro rfl
      exact hzero (hrest.hand_aligned _ mem_cons_self).base_mem
    refine ⟨some base, rest, ?_, hrest, fun _ => hle.trans_lt hlt⟩
    simp only [BuddyHeap.alloc, hfound, hsplit, hpop, if_neg hne]

theorem Holds.mergeBlocks {levels : ℕ} (hholds : Holds heap ((base, order) :: hand) managed) :
    ∃ s', heap.mergeBlocks base order levels = .ok s' ∧ Holds s' hand managed := by
  induction levels generalizing heap base order with
  | zero =>
    obtain ⟨s', hafter, hafterHolds, -⟩ := hholds.insert
    refine ⟨s', ?_, hafterHolds⟩
    rw [BuddyHeap.mergeBlocks, if_neg hholds.notFree_of_hand, hafter]
  | succ levels ih =>
    rw [BuddyHeap.mergeBlocks, if_neg hholds.notFree_of_hand]
    split
    · next hbuddy => exact ih (hholds.take (perm_cons_erase hbuddy)).merge
    · obtain ⟨s', hafter, hafterHolds, -⟩ := hholds.insert
      exact ⟨s', hafter, hafterHolds⟩

theorem Holds.dealloc
    {layout : Layout} (hholds : Holds heap ((base, layout.blockOrder) :: hand) managed)
    (horder : layout.blockOrder < kernelHeapOrder) :
    ∃ s', heap.dealloc base layout = .ok s' ∧ Holds s' hand managed := by
  rw [BuddyHeap.dealloc, if_pos horder]
  exact hholds.mergeBlocks

/-! ## New memory -/

theorem Holds.enter (hholds : Holds heap hand managed) (hdvd : 2 ^ order ∣ base)
    (hfresh : Disjoint (cells (base, order)) managed) :
    Holds heap ((base, order) :: hand) (managed ∪ cells (base, order)) where
  nodup := hholds.nodup
  free_aligned := fun piece hfree =>
    (hholds.free_aligned piece hfree).mono Set.subset_union_left
  hand_aligned := by
    intro piece hpiece
    rcases mem_cons.mp hpiece with rfl | hpiece
    · exact ⟨hdvd, Set.subset_union_right⟩
    · exact (hholds.hand_aligned piece hpiece).mono Set.subset_union_left
  free_apart := hholds.free_apart
  hand_apart := pairwise_cons.mpr ⟨fun other hother =>
    hfresh.mono_right (hholds.hand_aligned other hother).subset, hholds.hand_apart⟩
  between := by
    intro piece hfree other hother
    rcases mem_cons.mp hother with rfl | hother
    · exact (hfresh.mono_right (hholds.free_aligned piece hfree).subset).symm
    · exact hholds.between piece hfree other hother

theorem two_pow_fittingOrder_dvd (current stop : ℕ) : 2 ^ fittingOrder current stop ∣ current :=
  (pow_dvd_pow 2 ((min_le_left ..).trans (min_le_left ..))).trans
    (two_pow_trailingZeros_dvd wordBits current)

variable {current stop : ℕ}

theorem fittingOrder_fits (hlt : current < stop) :
    current + 2 ^ fittingOrder current stop ≤ stop := by
  have hlog : 2 ^ fittingOrder current stop ≤ stop - current :=
    calc 2 ^ fittingOrder current stop ≤ 2 ^ Nat.log 2 (stop - current) :=
          Nat.pow_le_pow_right two_pos ((min_le_left ..).trans (min_le_right ..))
      _ ≤ stop - current := Nat.pow_log_le_self 2 (by omega)
  omega

theorem cells_fitting_subset (hroom : current + minBlockSize ≤ stop) :
    cells (current, fittingOrder current stop) ⊆ Set.Ico current stop := by
  have hmin : minBlockSize = 32 := rfl
  have hfits : current + 2 ^ fittingOrder current stop ≤ stop := fittingOrder_fits (by omega)
  exact Set.Ico_subset_Ico_right hfits

/-! ## Bytes -/

variable {s' : BuddyHeap} {start : ℕ}

theorem bytes_insert (horder : order < kernelHeapOrder)
    (hinsert : heap.insert order base = .ok s') :
    s'.bytes = heap.bytes + 2 ^ order := by
  simp only [BuddyHeap.insert] at hinsert
  split_ifs at hinsert
  cases hinsert
  have hmem := Finset.mem_range.mpr horder
  rw [bytes, bytes, ← Finset.add_sum_erase _ _ hmem, ← Finset.add_sum_erase _ _ hmem]
  have hrest : ∑ other ∈ (Finset.range kernelHeapOrder).erase order, ((heap.setList order
      ((heap.freeList order).orderedInsert (· ≤ ·) base)).freeList other).length * 2 ^ other =
      ∑ other ∈ (Finset.range kernelHeapOrder).erase order,
        (heap.freeList other).length * 2 ^ other :=
    Finset.sum_congr rfl fun other hother => by simp [setList, Finset.ne_of_mem_erase hother]
  rw [hrest]
  simp only [setList, Function.update_self, orderedInsert_length]
  ring

theorem minBlock_dvd_fitting (hcurrent : minBlockSize ∣ current)
    (hroom : current + minBlockSize ≤ stop) : minBlockSize ∣ 2 ^ fittingOrder current stop := by
  have hmin : minBlockSize = 2 ^ 5 := rfl
  rw [hmin] at hcurrent hroom ⊢
  refine pow_dvd_pow 2 (le_min (le_min (le_trailingZeros (by decide) hcurrent) ?_) (by decide))
  exact Nat.le_log_of_pow_le one_lt_two (by omega)

/-- Every byte of a range of whole blocks goes into a free list. -/
theorem bytes_addBlocks (hcurrent : minBlockSize ∣ current) (hstop : minBlockSize ∣ stop)
    (hle : current ≤ stop) (hadd : heap.addBlocks current stop = .ok s') :
    s'.bytes = heap.bytes + (stop - current) := by
  induction heap, current using BuddyHeap.addBlocks.induct stop with
  | case1 heap current hroom panic hinsert =>
    rw [BuddyHeap.addBlocks, if_pos hroom, hinsert] at hadd
    cases hadd
  | case2 heap current hroom middle hinsert ih =>
    rw [BuddyHeap.addBlocks, if_pos hroom, hinsert] at hadd
    have hfits : current + 2 ^ fittingOrder current stop ≤ stop :=
      fittingOrder_fits ((Nat.lt_add_of_pos_right (by decide)).trans_le hroom)
    have horder : fittingOrder current stop < kernelHeapOrder :=
      Nat.lt_of_le_pred (by decide) (min_le_right ..)
    rw [ih (hcurrent.add (minBlock_dvd_fitting hcurrent hroom)) hfits hadd,
      bytes_insert horder hinsert]
    omega
  | case3 heap current hroom =>
    rw [BuddyHeap.addBlocks, if_neg hroom] at hadd
    cases hadd
    have hmin : minBlockSize = 32 := rfl
    rw [hmin] at hcurrent hstop hroom
    omega

theorem bytes_addToHeap (hstart : minBlockSize ∣ start) (hstop : minBlockSize ∣ stop)
    (hle : start ≤ stop) (hadd : heap.addToHeap start stop = .ok s') :
    s'.bytes = heap.bytes + (stop - start) := by
  have hmin : minBlockSize = 32 := rfl
  have hfirst : (start + minBlockSize - 1) / minBlockSize * minBlockSize = start := by
    rw [hmin] at hstart ⊢
    omega
  rw [BuddyHeap.addToHeap, hfirst, Nat.div_mul_cancel hstop, if_pos hle] at hadd
  exact bytes_addBlocks hstart hstop hle hadd
/-! ## Growth -/

variable (hholds : Holds heap hand managed)
include hholds

theorem Holds.enterFitting
    (hroom : current + minBlockSize ≤ stop) (hfresh : Disjoint (Set.Ico current stop) managed) :
    Holds heap ((current, fittingOrder current stop) :: hand)
        (managed ∪ cells (current, fittingOrder current stop)) ∧
      Disjoint (Set.Ico (current + 2 ^ fittingOrder current stop) stop)
        (managed ∪ cells (current, fittingOrder current stop)) := by
  have hsubset := cells_fitting_subset hroom
  refine ⟨hholds.enter (two_pow_fittingOrder_dvd ..) (hfresh.mono_left hsubset), ?_⟩
  rw [Set.disjoint_union_right]
  refine ⟨hfresh.mono_left (Set.Ico_subset_Ico_left (Nat.le_add_right ..)), ?_⟩
  exact Set.Ico_disjoint_Ico_same.symm

theorem Holds.addBlocks (hfresh : Disjoint (Set.Ico current stop) managed) :
    ∃ s', heap.addBlocks current stop = .ok s' ∧
      Holds s' hand (managed ∪ Set.Ico current stop) := by
  induction heap, current using BuddyHeap.addBlocks.induct stop generalizing managed with
  | case1 heap current hroom panic hinsert =>
    obtain ⟨s', hafter, -⟩ := (hholds.enterFitting hroom hfresh).1.insert
    simp [hafter] at hinsert
  | case2 heap current hroom s' hinsert ih =>
    obtain ⟨hentered, hrest⟩ := hholds.enterFitting hroom hfresh
    obtain ⟨middle, hmiddle, hmiddleHolds, -⟩ := hentered.insert
    obtain rfl : middle = s' := by simpa [hmiddle] using hinsert
    obtain ⟨last, hlast, hlastHolds⟩ := ih hmiddleHolds hrest
    refine ⟨last, ?_, hlastHolds.mono ?_⟩
    · rw [BuddyHeap.addBlocks, if_pos hroom]
      simp only [hmiddle]
      exact hlast
    · refine Set.union_subset (Set.union_subset Set.subset_union_left ?_) ?_
      · exact (cells_fitting_subset hroom).trans Set.subset_union_right
      · exact (Set.Ico_subset_Ico_left (Nat.le_add_right ..)).trans Set.subset_union_right
  | case3 heap current hroom =>
    rw [BuddyHeap.addBlocks, if_neg hroom]
    exact ⟨heap, rfl, hholds.mono Set.subset_union_left⟩

theorem Holds.addToHeap {start : ℕ}
    (hroom : start + 2 * minBlockSize ≤ stop) (hfresh : Disjoint (Set.Ico start stop) managed) :
    ∃ s', heap.addToHeap start stop = .ok s' ∧ Holds s' hand (managed ∪ Set.Ico start stop) := by
  have hmin : minBlockSize = 32 := rfl
  have hsubset : Set.Ico ((start + minBlockSize - 1) / minBlockSize * minBlockSize)
      (stop / minBlockSize * minBlockSize) ⊆ Set.Ico start stop := by
    rw [hmin]
    exact Set.Ico_subset_Ico (by omega) (by omega)
  have hle : (start + minBlockSize - 1) / minBlockSize * minBlockSize ≤
      stop / minBlockSize * minBlockSize := by
    rw [hmin] at hroom ⊢
    omega
  obtain ⟨s', hafter, hafterHolds⟩ := hholds.addBlocks (hfresh.mono_left hsubset)
  refine ⟨s', ?_, hafterHolds.mono (Set.union_subset_union_right _ hsubset)⟩
  rw [BuddyHeap.addToHeap, if_pos hle]
  exact hafter

end BuddyHeap

end Kairix.KernelHeap
