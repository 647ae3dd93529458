import Mathlib.Data.List.Basic
import Mathlib.Tactic

/-!
# Bounded queues with a ledger

A bounded queue together with everything that ever entered and left it.  The
two fields at the end say that the queue never overflows and that nothing is
lost, duplicated or reordered, so a value of this type is already a
conservation proof.
-/

@[ext] structure BoundedFifo (α : Type*) where
  capacity : ℕ
  contents : List α
  entered : List α
  left : List α
  length_le : contents.length ≤ capacity
  balance : entered = left ++ contents

namespace BoundedFifo

variable {α : Type*}

def empty (capacity : ℕ) : BoundedFifo α where
  capacity := capacity
  contents := []
  entered := []
  left := []
  length_le := Nat.zero_le _
  balance := rfl

def space (fifo : BoundedFifo α) : ℕ :=
  fifo.capacity - fifo.contents.length

def push (fifo : BoundedFifo α) (src : List α) : BoundedFifo α where
  capacity := fifo.capacity
  contents := fifo.contents ++ src.take fifo.space
  entered := fifo.entered ++ src.take fifo.space
  left := fifo.left
  length_le := by
    have hle := fifo.length_le
    rw [List.length_append, List.length_take]
    unfold space
    omega
  balance := by rw [fifo.balance, List.append_assoc]

def pop (fifo : BoundedFifo α) (len : ℕ) : BoundedFifo α where
  capacity := fifo.capacity
  contents := fifo.contents.drop len
  entered := fifo.entered
  left := fifo.left ++ fifo.contents.take len
  length_le := by
    have hle := fifo.length_le
    rw [List.length_drop]
    omega
  balance := by
    rw [fifo.balance, List.append_assoc, List.take_append_drop]

def setCapacity (fifo : BoundedFifo α) (capacity : ℕ)
    (hfit : fifo.contents.length ≤ capacity) : BoundedFifo α where
  capacity := capacity
  contents := fifo.contents
  entered := fifo.entered
  left := fifo.left
  length_le := hfit
  balance := fifo.balance

end BoundedFifo
