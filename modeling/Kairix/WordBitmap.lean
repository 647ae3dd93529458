import Kairix.DyadicBlock
import Mathlib.Data.BitVec
import Mathlib.Data.Finset.Card

/-!
# Bitmaps made of words

A bitmap is a sequence of words of `width` bits.  Bits are set and cleared one
by one, and a set bit is found by looking at the words in turn, from a hint on
and around the end, and then at the lowest bit of the first word which is not
zero.
-/

namespace WordBitmap

open Function DyadicBlock List

variable {width : ℕ}

section

variable (bitmap : ℕ → BitVec width) (index : ℕ)

def bit : Bool :=
  (bitmap (index / width)).getLsbD (index % width)

def setBit : ℕ → BitVec width :=
  update bitmap (index / width)
    (bitmap (index / width) ||| BitVec.ofNat width 1 <<< (index % width))

def clearBit : ℕ → BitVec width :=
  update bitmap (index / width)
    (bitmap (index / width) &&& ~~~(BitVec.ofNat width 1 <<< (index % width)))

def zeros : ℕ → BitVec width := fun _ => BitVec.ofNat width 0

def fill (count : ℕ) : ℕ → BitVec width := (range count).foldl setBit zeros

/-- The first word from `hint` on, around the end, which is not zero. -/
def findWord (words hint : ℕ) : Option ℕ :=
  ((range words).map fun offset => (hint + offset) % words).find? fun word =>
    bitmap word ≠ BitVec.ofNat width 0

def lowestBit (word : BitVec width) : ℕ := trailingZeros width word.toNat

def setBits (words : ℕ) : Finset ℕ :=
  (Finset.range (words * width)).filter fun index => bit bitmap index

end

theorem getLsbD_one_shiftLeft {position : ℕ} (hposition : position < width) (other : ℕ) :
    (BitVec.ofNat width 1 <<< position).getLsbD other = decide (position = other) := by
  rw [BitVec.getLsbD_shiftLeft, BitVec.getLsbD_one]
  by_cases heq : position = other
  · subst other
    simp [hposition]
    omega
  · rcases Nat.lt_or_ge other position with hlt | hge
    · simp [heq, hlt]
    · have hne : other - position ≠ 0 := by omega
      simp [heq, hne]

theorem index_eq_iff (width first second : ℕ) :
    first = second ↔ first / width = second / width ∧ first % width = second % width := by
  constructor
  · rintro rfl
    exact ⟨rfl, rfl⟩
  · rintro ⟨hdiv, hmod⟩
    rw [← Nat.div_add_mod first width, ← Nat.div_add_mod second width, hdiv, hmod]

theorem bit_setBit (hwidth : 0 < width) (bitmap : ℕ → BitVec width) (index other : ℕ) :
    bit (setBit bitmap index) other = (decide (index = other) || bit bitmap other) := by
  unfold bit setBit
  by_cases hword : other / width = index / width
  · rw [hword, update_self, BitVec.getLsbD_or,
      getLsbD_one_shiftLeft (Nat.mod_lt _ hwidth), Bool.or_comm]
    simp [index_eq_iff width index other, hword]
  · have hne : index ≠ other := by
      rintro rfl
      exact hword rfl
    rw [update_of_ne hword]
    simp [hne]

theorem bit_clearBit (hwidth : 0 < width) (bitmap : ℕ → BitVec width) (index other : ℕ) :
    bit (clearBit bitmap index) other = (decide (index ≠ other) && bit bitmap other) := by
  have hlt : other % width < width := Nat.mod_lt _ hwidth
  unfold bit clearBit
  by_cases hword : other / width = index / width
  · rw [hword, update_self, BitVec.getLsbD_and, BitVec.getLsbD_not,
      getLsbD_one_shiftLeft (Nat.mod_lt _ hwidth), Bool.and_comm]
    simp [index_eq_iff width index other, hword, hlt]
  · have hne : index ≠ other := by
      rintro rfl
      exact hword rfl
    rw [update_of_ne hword]
    simp [hne]

theorem bit_fill (hwidth : 0 < width) (count index : ℕ) :
    bit (fill count : ℕ → BitVec width) index = decide (index < count) := by
  induction count with
  | zero => simp [fill, zeros, bit]
  | succ count ih =>
    have hstep : (fill (count + 1) : ℕ → BitVec width) = setBit (fill count) count := by
      rw [fill, range_succ, foldl_append]
      rfl
    rw [hstep, bit_setBit hwidth, ih, ← Bool.decide_or]
    congr 1
    simp only [eq_iff_iff]
    omega

theorem getLsbD_lowestBit {word : BitVec width} (hword : word ≠ BitVec.ofNat width 0) :
    lowestBit word < width ∧ word.getLsbD (lowestBit word) = true := by
  have hpos : 0 < word.toNat := by
    rw [Nat.pos_iff_ne_zero]
    intro hzero
    exact hword (BitVec.eq_of_toNat_eq (by simpa using hzero))
  exact testBit_trailingZeros hpos word.isLt

variable {word words : ℕ} {bitmap : ℕ → BitVec width}

theorem findWord_eq_some {hint : ℕ} (hfind : findWord bitmap words hint = some word) :
    word < words ∧ bitmap word ≠ BitVec.ofNat width 0 := by
  have hmem := mem_of_find?_eq_some hfind
  have hnonzero := find?_some hfind
  obtain ⟨offset, hoffset, rfl⟩ := mem_map.mp hmem
  rw [mem_range] at hoffset
  exact ⟨Nat.mod_lt _ (by omega), by simpa using hnonzero⟩

theorem bit_found (hlt : word < words) (hnonzero : bitmap word ≠ BitVec.ofNat width 0) :
    word * width + lowestBit (bitmap word) ∈ setBits bitmap words := by
  obtain ⟨hbound, hbit⟩ := getLsbD_lowestBit hnonzero
  have hwidth : 0 < width := by omega
  have hdiv : (word * width + lowestBit (bitmap word)) / width = word := by
    rw [Nat.add_comm, Nat.add_mul_div_right _ _ hwidth, Nat.div_eq_of_lt hbound, Nat.zero_add]
  have hmod : (word * width + lowestBit (bitmap word)) % width = lowestBit (bitmap word) := by
    rw [Nat.add_comm, Nat.add_mul_mod_self_right, Nat.mod_eq_of_lt hbound]
  refine Finset.mem_filter.mpr ⟨Finset.mem_range.mpr ?_, ?_⟩
  · calc word * width + lowestBit (bitmap word) < word * width + width := by omega
      _ = (word + 1) * width := by ring
      _ ≤ words * width := Nat.mul_le_mul_right _ hlt
  · rw [bit, hdiv, hmod]
    exact hbit

theorem exists_offset (hint : ℕ) (hlt : word < words) :
    ∃ offset < words, (hint + offset) % words = word := by
  refine ⟨(word + (words - hint % words)) % words, Nat.mod_lt _ (by omega), ?_⟩
  have hhint : hint % words < words := Nat.mod_lt _ (by omega)
  have hsum : hint % words + (word + (words - hint % words)) = word + words := by omega
  rw [Nat.add_mod, Nat.mod_mod, Nat.add_mod_mod, hsum, Nat.add_mod_right, Nat.mod_eq_of_lt hlt]

theorem setBits_eq_empty {hint : ℕ} (hfind : findWord bitmap words hint = none) :
    setBits bitmap words = ∅ := by
  rw [Finset.eq_empty_iff_forall_notMem]
  intro index hindex
  obtain ⟨hrange, hbit⟩ := Finset.mem_filter.mp hindex
  rw [Finset.mem_range] at hrange
  have hword : index / width < words := Nat.div_lt_of_lt_mul (by rwa [Nat.mul_comm])
  obtain ⟨offset, hoffset, heq⟩ := exists_offset hint hword
  have hzero := find?_eq_none.mp hfind (index / width)
    (mem_map.mpr ⟨offset, mem_range.mpr hoffset, heq⟩)
  simp only [ne_eq, decide_not, Bool.not_eq_true', decide_eq_false_iff_not, not_not] at hzero
  rw [bit, hzero] at hbit
  simp at hbit

theorem setBits_clearBit (hwidth : 0 < width) (bitmap : ℕ → BitVec width) (words index : ℕ) :
    setBits (clearBit bitmap index) words = (setBits bitmap words).erase index := by
  ext other
  simp only [setBits, Finset.mem_filter, Finset.mem_erase, bit_clearBit hwidth,
    Bool.and_eq_true, decide_eq_true_eq]
  constructor
  · rintro ⟨hrange, hne, hbit⟩
    exact ⟨hne.symm, hrange, hbit⟩
  · rintro ⟨hne, hrange, hbit⟩
    exact ⟨hrange, hne.symm, hbit⟩

theorem setBits_setBit (hwidth : 0 < width) (bitmap : ℕ → BitVec width) {index : ℕ}
    (hindex : index < words * width) :
    setBits (setBit bitmap index) words = insert index (setBits bitmap words) := by
  ext other
  simp only [setBits, Finset.mem_filter, Finset.mem_insert, bit_setBit hwidth,
    Bool.or_eq_true, decide_eq_true_eq, Finset.mem_range]
  constructor
  · rintro ⟨hrange, rfl | hbit⟩
    · exact .inl rfl
    · exact .inr ⟨hrange, hbit⟩
  · rintro (rfl | ⟨hrange, hbit⟩)
    · exact ⟨hindex, .inl rfl⟩
    · exact ⟨hrange, .inr hbit⟩

theorem setBits_fill (hwidth : 0 < width) {count : ℕ} (hcount : count ≤ words * width) :
    setBits (fill count : ℕ → BitVec width) words = Finset.range count := by
  ext index
  simp only [setBits, Finset.mem_filter, Finset.mem_range, bit_fill hwidth, decide_eq_true_eq]
  omega

end WordBitmap
