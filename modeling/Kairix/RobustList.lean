import Kairix.PiFutexTokens
import Kairix.UserBuffers

/-!
# The robust list of an exiting task

An exiting task walks the robust list in its user memory and marks the words it owns.
The pages do not change meanwhile; the words are those of physical memory, so that a
mark may change a pointer which the walk reads afterwards.
-/

namespace Kairix.Futex

open UserBuffer

abbrev Address := BitVec 64

abbrev Words := ℕ → Word

section

variable (table : PageTable) (tid : Word) (head offset : Address)

/-- The word behind an address, as `user_atomic_u32` finds it for a write access. -/
def userAtomicU32 (uaddr : Address) : Option ℕ :=
  if uaddr.toNat % 4 ≠ 0 then none
  else
    ((table.translate (uaddr.toNat / pageSize)).filter fun pte => pte.readable && pte.writable).map
      fun pte => (pte.ppn * pageSize + uaddr.toNat % pageSize) / 4

def ownerDied (word : Word) : Word :=
  if tidField word = tid then (word &&& futexWaiters) ||| futexOwnerDied else word

/-- The memory afterwards, and the futex addresses of the entries and of the pending one. -/
structure RobustExit where
  words : Words
  visited : List Address
  pending : Option Address

def RobustExit.entries (exit : RobustExit) : List Address := exit.visited ++ exit.pending.toList

end

variable {table : PageTable} {tid : Word} {head offset : Address} {words : Words}
  {exit : RobustExit}

theorem died_and_waiters (word : Word) :
    (word &&& futexWaiters ||| futexOwnerDied) &&& futexWaiters = word &&& futexWaiters := by
  have hdied : futexOwnerDied &&& futexWaiters = 0 := by decide
  calc (word &&& futexWaiters ||| futexOwnerDied) &&& futexWaiters
      = word &&& futexWaiters &&& futexWaiters ||| futexOwnerDied &&& futexWaiters := by
        ext i hi
        simp [Bool.and_or_distrib_right]
    _ = word &&& futexWaiters := by simp [hdied, BitVec.and_assoc]

theorem ownerDied_idem (word : Word) : ownerDied tid (ownerDied tid word) = ownerDied tid word := by
  by_cases hown : tidField word = tid
  · simp [ownerDied, hown, died_and_waiters]
  · simp [ownerDied, hown]

/-- The word of an entry behind which the walk goes on, as the kernel finds it. -/
def Reached (table : PageTable) (entries : List (Address × Bool)) (index : ℕ) : Prop :=
  ∃ entry ∈ entries, entry.2 = true ∧ userAtomicU32 table entry.1 = some index

instance (entries : List (Address × Bool)) (index : ℕ) : Decidable (Reached table entries index) :=
  inferInstanceAs (Decidable (∃ _ ∈ _, _))

/-- The reached words which the task owns are marked, and no other word changes. -/
def Marks (table : PageTable) (tid : Word) (words after : Words)
    (entries : List (Address × Bool)) : Prop :=
  ∀ index, after index =
    if Reached table entries index then ownerDied tid (words index) else words index

theorem Marks.refl {entries : List (Address × Bool)} (hnone : ∀ entry ∈ entries, entry.2 = false) :
    Marks table tid words words entries := by
  intro index
  refine (if_neg ?_).symm
  rintro ⟨entry, hmem, hgoes, -⟩
  simp [hnone entry hmem] at hgoes

theorem Marks.trans {middle s' : Words} {first second : List (Address × Bool)}
    (hfirst : Marks table tid words middle first) (hsecond : Marks table tid middle s' second) :
    Marks table tid words s' (first ++ second) := by
  intro index
  have happend : Reached table (first ++ second) index ↔
      Reached table first index ∨ Reached table second index := by
    simp only [Reached, List.mem_append, or_and_right, exists_or]
  rw [hsecond index, hfirst index]
  by_cases hf : Reached table first index
  · simp [happend, hf, ownerDied_idem]
  · simp [happend, hf]

end Kairix.Futex
