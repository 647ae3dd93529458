import Mathlib

/-!
# Runs of labelled systems

A system is a partial function `next` from a state and a label to the state
after the step.  A run may be restricted to the steps which a predicate
admits, so one notion covers both unrestricted runs and runs whose every step
meets a side condition.
-/

namespace LabelledRun

/-! The first indices of the finite types of concrete runs. -/

def i₀ {n : ℕ} : Fin (n + 1) := 0

def i₁ {n : ℕ} : Fin (n + 2) := i₀.succ

def i₂ {n : ℕ} : Fin (n + 3) := i₁.succ

variable {σ ι : Type*}

/-- The states reached from `start` by admitted steps. -/
inductive Reachable (next : σ → ι → Option σ) (admits : σ → ι → Prop)
    (start : σ) : σ → Prop
  | start : Reachable next admits start start
  | step {state after : σ} (label : ι) :
      Reachable next admits start state → admits state label →
        next state label = some after → Reachable next admits start after

def always (_ : σ) (_ : ι) : Prop := True

instance (state : σ) (label : ι) : Decidable (always state label) := instDecidableTrue

variable {next : σ → ι → Option σ} {admits : σ → ι → Prop} {start : σ}

theorem Reachable.invariant {inv : σ → Prop} (hstart : inv start)
    (hstep : ∀ state label s', inv state → admits state label →
      next state label = some s' → inv s') {state : σ}
    (hreach : Reachable next admits start state) :
    inv state := by
  induction hreach with
  | start => exact hstart
  | step label _ hadmits hnext ih => exact hstep _ label _ ih hadmits hnext

def runSteps (next : σ → ι → Option σ) (admits : σ → ι → Prop)
    [∀ state label, Decidable (admits state label)] (state : σ) : List ι → Option σ
  | [] => some state
  | label :: rest =>
    if admits state label then
      (next state label).bind fun after => runSteps next admits after rest
    else none

theorem Reachable.runSteps [∀ state label, Decidable (admits state label)] {labels : List ι}
    {state s' : σ} (hreach : Reachable next admits start state)
    (hrun : runSteps next admits state labels = some s') :
    Reachable next admits start s' := by
  induction labels generalizing state with
  | nil =>
    simp only [LabelledRun.runSteps, Option.some.injEq] at hrun
    subst s'
    exact hreach
  | cons label rest ih =>
    rw [LabelledRun.runSteps] at hrun
    split at hrun
    · next hadmits =>
      obtain ⟨middle, hnext, hrest⟩ := Option.bind_eq_some_iff.mp hrun
      exact ih (hreach.step label hadmits hnext) hrest
    · simp at hrun

theorem exists_reachable_of_runSteps [∀ state label, Decidable (admits state label)]
    {goal : σ → Prop} [DecidablePred goal] (labels : List ι)
    (hrun : (LabelledRun.runSteps next admits start labels).any (fun state => decide (goal state)) =
      true) : ∃ state, Reachable next admits start state ∧ goal state := by
  cases hend : LabelledRun.runSteps next admits start labels with
  | none => simp [hend] at hrun
  | some state =>
    rw [hend] at hrun
    exact ⟨state, Reachable.start.runSteps hend, of_decide_eq_true hrun⟩

/-- A step replaces one component of a state which keeps them in a list. -/
theorem getElem?_set_cases {parts : List σ} {index other : ℕ} {new part : σ}
    (hpart : (parts.set index new)[other]? = some part) :
    other = index ∧ part = new ∨ other ≠ index ∧ parts[other]? = some part := by
  rw [List.getElem?_set] at hpart
  split at hpart
  · next hsame =>
    split at hpart <;> cases hpart
    exact .inl ⟨hsame.symm, rfl⟩
  · next hne => exact .inr ⟨Ne.symm hne, hpart⟩

end LabelledRun
