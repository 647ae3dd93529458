import Mathlib

/-!
# Machine words and pages

What the modules share about `usize` and about the size of a page.
-/

namespace Kairix

/-- The number of values of `usize`. -/
def usizeLimit : ℕ := 2 ^ 64

def pageSize : ℕ := 4096

def nextPowerOfTwo (value : ℕ) : ℕ := 2 ^ Nat.clog 2 value

def checkedNextPowerOfTwo (value : ℕ) : Option ℕ :=
  if nextPowerOfTwo value < usizeLimit then some (nextPowerOfTwo value) else none

theorem le_nextPowerOfTwo (value : ℕ) : value ≤ nextPowerOfTwo value :=
  Nat.le_pow_clog one_lt_two value

theorem checkedNextPowerOfTwo_eq_some {value power : ℕ}
    (hpower : checkedNextPowerOfTwo value = some power) : power = nextPowerOfTwo value := by
  unfold checkedNextPowerOfTwo at hpower
  split at hpower
  · exact (Option.some.inj hpower).symm
  · simp at hpower

end Kairix
