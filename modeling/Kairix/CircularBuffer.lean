import Mathlib

/-!
# Circular views of a flat store

A store assigns a value to every physical offset.  The circular view reads
`count` consecutive cells from `head`, wrapping at `capacity`.  The lemmas
below describe how the view is cut, extended and left unchanged; nothing in
this file depends on how the store is represented.
-/

namespace CircularBuffer

open List

variable {α : Type*}

/-- The `count` cells which follow `head` in circular order. -/
def view (cells : ℕ → α) (capacity head count : ℕ) : List α :=
  (range count).map fun index => cells ((head + index) % capacity)

@[simp] theorem view_length (cells : ℕ → α) (capacity head count : ℕ) :
    (view cells capacity head count).length = count := by
  simp [view]

theorem view_add (cells : ℕ → α) (capacity head first second : ℕ) :
    view cells capacity head (first + second) =
      view cells capacity head first ++ view cells capacity ((head + first) % capacity) second := by
  unfold view
  rw [range_add, map_append, map_map]
  congr 1
  apply map_congr_left
  intro index _
  simp only [Function.comp_apply, Nat.mod_add_mod]
  rw [Nat.add_assoc]

variable {count : ℕ}

theorem view_take (cells : ℕ → α) (capacity head : ℕ) {cut : ℕ} (hcut : cut ≤ count) :
    (view cells capacity head count).take cut = view cells capacity head cut := by
  obtain ⟨rest, rfl⟩ := Nat.exists_eq_add_of_le hcut
  rw [view_add]
  exact take_left' (view_length cells capacity head cut)

theorem view_drop (cells : ℕ → α) (capacity head : ℕ) {cut : ℕ} (hcut : cut ≤ count) :
    (view cells capacity head count).drop cut =
      view cells capacity ((head + cut) % capacity) (count - cut) := by
  obtain ⟨rest, rfl⟩ := Nat.exists_eq_add_of_le hcut
  rw [view_add, Nat.add_sub_cancel_left]
  exact drop_left' (view_length cells capacity head cut)

variable {capacity head : ℕ}

theorem view_congr {cells other : ℕ → α} (hsame : ∀ index, index < count →
      cells ((head + index) % capacity) = other ((head + index) % capacity)) :
    view cells capacity head count = view other capacity head count := by
  unfold view
  apply map_congr_left
  intro index hindex
  exact hsame index (mem_range.mp hindex)

theorem view_of_contiguous (cells : ℕ → α) (hfit : head + count ≤ capacity) :
    view cells capacity head count = (range count).map fun index => cells (head + index) := by
  unfold view
  apply map_congr_left
  intro index hindex
  have hlt : head + index < capacity := by
    have := mem_range.mp hindex
    omega
  rw [Nat.mod_eq_of_lt hlt]

theorem add_mod_of_lt (index : ℕ) (hhead : head < capacity) (hindex : index ≤ capacity) :
    (head + index) % capacity =
      if head + index < capacity then head + index
      else head + index - capacity := by
  split
  · next hsmall => exact Nat.mod_eq_of_lt hsmall
  · next hwrap =>
      rw [Nat.mod_eq_sub_mod (by omega)]
      exact Nat.mod_eq_of_lt (by omega)

end CircularBuffer
