import Mathlib

/-!
# Dyadic blocks

A dyadic block of order `order` is an aligned interval of `2 ^ order` numbers.
Two blocks of one order are buddies when together they form a block of the
next order; flipping one bit of the base finds the buddy.
-/

namespace DyadicBlock

def block (base order : ℕ) : Set ℕ :=
  Set.Ico base (base + 2 ^ order)

variable {base order : ℕ}

theorem mem_block {page : ℕ} : page ∈ block base order ↔ base ≤ page ∧ page < base + 2 ^ order :=
  Set.mem_Ico

theorem base_mem_block (base order : ℕ) : base ∈ block base order :=
  mem_block.mpr ⟨le_rfl, Nat.lt_add_of_pos_right (Nat.two_pow_pos order)⟩

theorem block_zero (base : ℕ) : block base 0 = {base} := by
  ext page
  simp only [mem_block, pow_zero, Set.mem_singleton_iff]
  omega

theorem block_succ (base order : ℕ) :
    block base (order + 1) = block base order ∪ block (base + 2 ^ order) order := by
  ext page
  simp only [mem_block, Set.mem_union, pow_succ]
  omega

theorem ncard_block (base order : ℕ) : (block base order).ncard = 2 ^ order := by
  rw [block, ← Finset.coe_Ico, Set.ncard_coe_finset, Nat.card_Ico, Nat.add_sub_cancel_left]

theorem finite_block (base order : ℕ) : (block base order).Finite := Set.finite_Ico _ _

theorem xor_buddy (halign : 2 ^ order ∣ base) : ∃ lower, 2 ^ (order + 1) ∣ lower ∧
      (base = lower ∧ base ^^^ 2 ^ order = lower + 2 ^ order ∨
        base = lower + 2 ^ order ∧ base ^^^ 2 ^ order = lower) := by
  obtain ⟨index, rfl⟩ := halign
  have hxor : 2 ^ order * index ^^^ 2 ^ order = 2 ^ order * (index ^^^ 1) := by
    have hshift := Nat.shiftLeft_xor_distrib (a := index) (b := 1) (i := order)
    simp only [Nat.shiftLeft_eq, one_mul] at hshift
    rw [mul_comm, ← hshift, mul_comm]
  rcases Nat.even_or_odd' index with ⟨half, rfl | rfl⟩
  · refine ⟨2 ^ order * (2 * half), ⟨half, by ring⟩, .inl ⟨rfl, ?_⟩⟩
    rw [hxor, Nat.xor_one_of_even (even_two_mul half)]
    ring
  · refine ⟨2 ^ order * (2 * half), ⟨half, by ring⟩, .inr ⟨by ring, ?_⟩⟩
    rw [hxor, Nat.xor_one_of_odd (odd_two_mul_add_one half), Nat.add_sub_cancel]

theorem xor_buddy_union (halign : 2 ^ order ∣ base) :
    2 ^ (order + 1) ∣ min base (base ^^^ 2 ^ order) ∧
      block (min base (base ^^^ 2 ^ order)) (order + 1) =
        block base order ∪ block (base ^^^ 2 ^ order) order := by
  obtain ⟨lower, hlower, ⟨hbase, hbuddy⟩ | ⟨hbase, hbuddy⟩⟩ := xor_buddy halign
  · rw [hbuddy, hbase, min_eq_left (Nat.le_add_right _ _), block_succ]
    exact ⟨hlower, rfl⟩
  · rw [hbuddy, hbase, min_eq_right (Nat.le_add_right _ _), block_succ, Set.union_comm]
    exact ⟨hlower, rfl⟩

/-- The number of trailing zero bits of a word of `width` bits. -/
def trailingZeros : (width value : ℕ) → ℕ
  | 0, _ => 0
  | width + 1, value =>
    if value % 2 = 1 then 0 else trailingZeros width (value / 2) + 1

theorem two_pow_trailingZeros_dvd (width value : ℕ) : 2 ^ trailingZeros width value ∣ value := by
  induction width generalizing value with
  | zero => simp [trailingZeros]
  | succ width ih =>
    rw [trailingZeros]
    split
    · simp
    · next hodd =>
      obtain ⟨rest, hrest⟩ := ih (value / 2)
      have hdouble : value = 2 * (value / 2) := by omega
      refine ⟨rest, ?_⟩
      calc value = 2 * (value / 2) := hdouble
        _ = 2 * (2 ^ trailingZeros width (value / 2) * rest) := congrArg (2 * ·) hrest
        _ = 2 ^ (trailingZeros width (value / 2) + 1) * rest := by ring

theorem le_trailingZeros {width value exponent : ℕ} (hwidth : exponent ≤ width)
    (hdvd : 2 ^ exponent ∣ value) : exponent ≤ trailingZeros width value := by
  induction width generalizing value exponent with
  | zero => exact hwidth
  | succ width ih =>
    cases exponent with
    | zero => exact Nat.zero_le _
    | succ exponent =>
      obtain ⟨rest, rfl⟩ := hdvd
      have hhalf : 2 ^ (exponent + 1) * rest / 2 = 2 ^ exponent * rest := by
        rw [pow_succ, Nat.mul_right_comm, Nat.mul_div_cancel _ two_pos]
      have heven : 2 ^ (exponent + 1) * rest % 2 ≠ 1 := by
        rw [pow_succ, Nat.mul_right_comm, Nat.mul_mod_left]
        exact zero_ne_one
      rw [trailingZeros, if_neg heven, hhalf]
      exact Nat.succ_le_succ (ih (Nat.le_of_succ_le_succ hwidth) (dvd_mul_right ..))
theorem trailingZeros_two_pow (width exponent : ℕ) :
    trailingZeros width (2 ^ exponent) = min exponent width := by
  induction width generalizing exponent with
  | zero => simp [trailingZeros]
  | succ width ih =>
    cases exponent with
    | zero => simp [trailingZeros]
    | succ exponent =>
      have heven : 2 ^ (exponent + 1) % 2 ≠ 1 := by
        rw [pow_succ]
        omega
      have hhalf : 2 ^ (exponent + 1) / 2 = 2 ^ exponent := by
        rw [pow_succ]
        omega
      rw [trailingZeros, if_neg heven, hhalf, ih, Nat.add_min_add_right]

theorem testBit_trailingZeros {width value : ℕ} (hpos : 0 < value) (hlt : value < 2 ^ width) :
    trailingZeros width value < width ∧ value.testBit (trailingZeros width value) = true := by
  induction width generalizing value with
  | zero => omega
  | succ width ih =>
    rw [trailingZeros]
    split
    · next hodd => exact ⟨Nat.succ_pos width, by simp [Nat.testBit_zero, hodd]⟩
    · next heven =>
      rw [pow_succ] at hlt
      obtain ⟨hbound, hbit⟩ := @ih (value / 2) (by omega) (by omega)
      refine ⟨Nat.succ_lt_succ hbound, ?_⟩
      rw [Nat.testBit_succ]
      exact hbit

end DyadicBlock
