import Mathlib.Tactic

/-!
# Paged byte ranges

A range of bytes is worked through in pieces which stay inside one page each.
-/

namespace PagedBytes

open List

structure Piece where
  position : ℕ
  count : ℕ
  deriving DecidableEq, Repr

def Piece.Fits (size : ℕ) (piece : Piece) : Prop :=
  piece.position % size + piece.count ≤ size

def bufferPieces (size : ℕ) : ℕ → ℕ → ℕ → List Piece
  | 0, _, _ => []
  | fuel + 1, offset, length =>
    if length = 0 then []
    else
      let count := min (size - offset % size) length
      ⟨offset, count⟩ :: bufferPieces size fuel (offset + count) (length - count)

/-- The pieces of a range which is filled from buffers one after the other. -/
def pieces (size : ℕ) : ℕ → List ℕ → List Piece
  | _, [] => []
  | offset, length :: lengths =>
    bufferPieces size length offset length ++ pieces size (offset + length) lengths

def total (list : List Piece) : ℕ := (list.map Piece.count).sum

def Consecutive (size : ℕ) : ℕ → List Piece → Prop
  | _, [] => True
  | position, piece :: rest =>
    piece.position = position ∧ piece.Fits size ∧ Consecutive size (position + piece.count) rest

variable {size position : ℕ}

theorem Consecutive.append {left right : List Piece} (hleft : Consecutive size position left)
    (hright : Consecutive size (position + total left) right) :
    Consecutive size position (left ++ right) := by
  induction left generalizing position with
  | nil => simpa [total] using hright
  | cons piece rest ih =>
    obtain ⟨hposition, hfits, hrest⟩ := hleft
    refine ⟨hposition, hfits, ih hrest ?_⟩
    simpa [total, Nat.add_assoc] using hright

theorem bufferPieces_spec (hsize : 0 < size) (fuel offset length : ℕ) (hfuel : length ≤ fuel) :
    Consecutive size offset (bufferPieces size fuel offset length) ∧
      total (bufferPieces size fuel offset length) = length := by
  induction fuel generalizing offset length with
  | zero =>
    have hlength : length = 0 := by omega
    subst hlength
    exact ⟨trivial, rfl⟩
  | succ fuel ih =>
    rw [bufferPieces]
    split_ifs with hlength
    · exact ⟨trivial, hlength.symm⟩
    · have hmod := Nat.mod_lt offset hsize
      obtain ⟨hconsecutive, htotal⟩ := ih (offset + min (size - offset % size) length)
          (length - min (size - offset % size) length) (by omega)
      refine ⟨⟨rfl, ?_, hconsecutive⟩, ?_⟩
      · simp only [Piece.Fits]
        omega
      · simp only [total, map_cons, sum_cons] at htotal ⊢
        omega

theorem pieces_spec (hsize : 0 < size) (offset : ℕ) (lengths : List ℕ) :
    Consecutive size offset (pieces size offset lengths) ∧
      total (pieces size offset lengths) = lengths.sum := by
  induction lengths generalizing offset with
  | nil => exact ⟨trivial, rfl⟩
  | cons length lengths ih =>
    obtain ⟨hfirst, hfirstTotal⟩ := bufferPieces_spec hsize length offset length (Nat.le_refl _)
    obtain ⟨hrest, hrestTotal⟩ := ih (offset + length)
    refine ⟨hfirst.append (by rwa [hfirstTotal]), ?_⟩
    have hsum : total (pieces size offset (length :: lengths)) =
        total (bufferPieces size length offset length) +
          total (pieces size (offset + length) lengths) := by
      simp [total, pieces]
    rw [hsum, hfirstTotal, hrestTotal, sum_cons]

def overlay {β : Type*} (bytes : ℕ → β) (offset count : ℕ) (data : ℕ → β) : ℕ → β :=
  fun place => if offset ≤ place ∧ place < offset + count then data place else bytes place

end PagedBytes
