import Mathlib.Data.Finset.Card
import Mathlib.Tactic

/-!
# Counted tasks

A counter which says how many tasks are inside a section, for any type of tasks.
-/

def Counted {τ : Type*} (inside : τ → Prop) (count : ℕ) : Prop :=
  ∃ members : Finset τ, members.card = count ∧ ∀ task, inside task ↔ task ∈ members

namespace Counted

variable {τ : Type*} {inside inside' : τ → Prop} {count : ℕ} {task : τ}

theorem none_inside (hnone : ∀ task, ¬ inside task) : Counted inside 0 :=
  ⟨∅, rfl, fun task => iff_of_false (hnone task) (Finset.notMem_empty task)⟩

theorem congr (hcount : Counted inside count) (hsame : ∀ task, inside' task ↔ inside task) :
    Counted inside' count := by
  obtain ⟨members, hcard, hmembers⟩ := hcount
  exact ⟨members, hcard, fun task => (hsame task).trans (hmembers task)⟩

theorem ne_zero (hcount : Counted inside count) (htask : inside task) : count ≠ 0 := by
  obtain ⟨members, rfl, hmembers⟩ := hcount
  exact Finset.card_ne_zero_of_mem ((hmembers task).mp htask)

variable [DecidableEq τ]

theorem enter (hcount : Counted inside count) (hout : ¬ inside task)
    (hnow : ∀ other, inside' other ↔ other = task ∨ inside other) :
    Counted inside' (count + 1) := by
  obtain ⟨members, rfl, hmembers⟩ := hcount
  refine ⟨insert task members,
    Finset.card_insert_of_notMem fun hmem => hout ((hmembers task).mpr hmem), fun other => ?_⟩
  rw [hnow other, hmembers other, Finset.mem_insert]

theorem leave (hcount : Counted inside count) (hin : inside task)
    (hnow : ∀ other, inside' other ↔ other ≠ task ∧ inside other) :
    Counted inside' (count - 1) := by
  obtain ⟨members, rfl, hmembers⟩ := hcount
  refine ⟨members.erase task, Finset.card_erase_of_mem ((hmembers task).mp hin), fun other => ?_⟩
  rw [hnow other, hmembers other, Finset.mem_erase]

end Counted
