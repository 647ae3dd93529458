import Kairix.MachineWord

/-!
# Ranges owned by the heap

The buddy allocator may join blocks of several extents, so a valid range may span
touching extents.  `heap_range_is_owned` walks along the range: while some extent covers
the end reached so far, the walk goes on from the largest end of such an extent.
-/

namespace Kairix.HeapExtents

def recordCapacity : ℕ := 1024

structure Extent where
  start : ℕ
  stop : ℕ
  bounded : stop < usizeLimit

def Extent.Covers (extent : Extent) (address : ℕ) : Prop :=
  extent.start ≤ address ∧ address < extent.stop

instance (extent : Extent) (address : ℕ) : Decidable (extent.Covers address) :=
  inferInstanceAs (Decidable (_ ∧ _))

/-- A slot whose start is zero has not been published. -/
structure HeapRecord where
  bootstrap : Extent
  count : ℕ
  slots : ℕ → Extent

namespace HeapRecord

variable (record : HeapRecord)

def recorded : List Extent := (List.range (min record.count recordCapacity)).map record.slots

def firstEnd (covered : ℕ) : ℕ :=
  if record.bootstrap.Covers covered then record.bootstrap.stop else covered

def extend (covered next : ℕ) (extent : Extent) : ℕ :=
  if extent.start ≠ 0 ∧ extent.Covers covered then max next extent.stop else next

def nextEnd (covered : ℕ) : ℕ := record.recorded.foldl (extend covered) (record.firstEnd covered)

variable {record} {covered : ℕ}

theorem lt_foldl_extend (extents : List Extent) (next address : ℕ) :
    address < extents.foldl (extend covered) next ↔ address < next ∨
      ∃ extent ∈ extents, extent.start ≠ 0 ∧ extent.Covers covered ∧ address < extent.stop := by
  induction extents generalizing next with
  | nil => simp
  | cons extent rest ih =>
    rw [List.foldl_cons, ih, extend]
    split
    · next hcovers => simp [hcovers, or_assoc]
    · next hcovers =>
      have hskip : ¬(extent.start ≠ 0 ∧ extent.Covers covered ∧ address < extent.stop) :=
        fun h => hcovers ⟨h.1, h.2.1⟩
      simp [hskip]

theorem le_nextEnd : covered ≤ record.nextEnd covered := by
  have hfirst : covered ≤ record.firstEnd covered := by
    unfold firstEnd
    split
    · next hcovers => exact hcovers.2.le
    · exact le_rfl
  refine hfirst.trans (le_of_not_gt fun hlt => ?_)
  exact absurd ((lt_foldl_extend ..).mpr (.inl hlt)) (lt_irrefl _)

/-- The loop of `heap_range_is_owned`. -/
def walk (record : HeapRecord) (requiredEnd covered : ℕ) : Bool :=
  if requiredEnd ≤ record.nextEnd covered then true
  else if record.nextEnd covered = covered then false
  else walk record requiredEnd (record.nextEnd covered)
termination_by requiredEnd - covered
decreasing_by
  have hle : covered ≤ record.nextEnd covered := le_nextEnd
  omega

def heapRangeIsOwned (record : HeapRecord) (pointer size : ℕ) : Bool :=
  if usizeLimit ≤ pointer + max size 1 then false
  else walk record (pointer + max size 1) pointer

/-! ## The union of the extents -/

def Owned (record : HeapRecord) (address : ℕ) : Prop :=
  record.bootstrap.Covers address ∨
    ∃ extent ∈ record.recorded, extent.start ≠ 0 ∧ extent.Covers address

theorem lt_nextEnd (howned : record.Owned covered) : covered < record.nextEnd covered := by
  refine (lt_foldl_extend ..).mpr ?_
  rcases howned with hboot | ⟨extent, hmem, hstart, hcovers⟩
  · rw [firstEnd, if_pos hboot]
    exact .inl hboot.2
  · exact .inr ⟨extent, hmem, hstart, hcovers, hcovers.2⟩

theorem owned_of_lt_nextEnd {address : ℕ} (hcovered : covered ≤ address)
    (haddress : address < record.nextEnd covered) : record.Owned address := by
  rcases (lt_foldl_extend ..).mp haddress with hfirst | ⟨extent, hmem, hstart, hcovers, hstop⟩
  · unfold firstEnd at hfirst
    split at hfirst
    · next hboot => exact .inl ⟨hboot.1.trans hcovered, hfirst⟩
    · omega
  · exact .inr ⟨extent, hmem, hstart, hcovers.1.trans hcovered, hstop⟩

theorem walk_iff {requiredEnd : ℕ} (hcovered : covered < requiredEnd) :
    walk record requiredEnd covered = true ↔
      ∀ address, covered ≤ address → address < requiredEnd → record.Owned address := by
  induction covered using walk.induct record requiredEnd with
  | case1 covered hreached =>
    rw [walk, if_pos hreached]
    exact iff_of_true rfl fun address hle hlt => owned_of_lt_nextEnd hle (hlt.trans_le hreached)
  | case2 covered hshort hstuck =>
    rw [walk, if_neg hshort, if_pos hstuck]
    refine iff_of_false (by simp) fun hall => ?_
    exact absurd (lt_nextEnd (hall covered le_rfl hcovered)) (by omega)
  | case3 covered hshort hmoves ih =>
    rw [walk, if_neg hshort, if_neg hmoves, ih (by omega)]
    constructor
    · intro hall address hle hlt
      by_cases haddress : address < record.nextEnd covered
      · exact owned_of_lt_nextEnd hle haddress
      · exact hall address (by omega) hlt
    · intro hall address hle
      exact hall address (le_nextEnd.trans hle)

theorem Owned.lt_limit {address : ℕ} (howned : record.Owned address) :
    address + 1 < usizeLimit := by
  rcases howned with hboot | ⟨extent, -, -, hcovers⟩
  · exact (Nat.succ_le_of_lt hboot.2).trans_lt record.bootstrap.bounded
  · exact (Nat.succ_le_of_lt hcovers.2).trans_lt extent.bounded

/-- A range of no bytes is treated as its first byte. -/
theorem heapRangeIsOwned_iff (record : HeapRecord) (pointer size : ℕ) :
    record.heapRangeIsOwned pointer size = true ↔
      ∀ address, pointer ≤ address → address < pointer + max size 1 → record.Owned address := by
  unfold heapRangeIsOwned
  split
  · next hlarge =>
    refine iff_of_false (by simp) fun hall => ?_
    have hlast := (hall (pointer + max size 1 - 1) (by omega) (by omega)).lt_limit
    omega
  · exact walk_iff (by omega)

def bootRecord : HeapRecord where
  bootstrap := ⟨0x80200000, 0x84200000, by decide⟩
  count := 0
  slots := fun _ => ⟨0, 0, by decide⟩

theorem not_heapRangeIsOwned_of_empty : ¬ ∀ (record : HeapRecord) (pointer size : ℕ),
    record.heapRangeIsOwned pointer size = true ↔
      ∀ address, pointer ≤ address → address < pointer + size → record.Owned address := by
  intro hexact
  have howned := (hexact bootRecord 0x1000 0).mpr fun address hle hlt => by omega
  rw [heapRangeIsOwned, walk] at howned
  revert howned
  decide

end HeapRecord

end Kairix.HeapExtents
