import Mathlib.Tactic

/-!
# Outcomes of computations that may panic

`Outcome run safe post` says two things at once about a computation: a value it
returns meets `post`, and it does not panic where `safe` holds.  Partial
correctness and the absence of panics are then proved by one pass over the
code.
-/

namespace PanicOutcome

universe u v

variable {ε : Type u} {α β : Type v}

theorem eq_ok_of_toOption {run : Except ε α} {value : α}
    (hrun : run.toOption = some value) : run = .ok value := by
  cases run with
  | error panic => simp [Except.toOption] at hrun
  | ok other => simpa [Except.toOption] using hrun

def Outcome (run : Except ε α) (safe : Prop) (post : α → Prop) : Prop :=
  match run with
  | .ok value => post value
  | .error _ => ¬safe

variable {run : Except ε α} {safe : Prop} {post : α → Prop}

theorem Outcome.value (houtcome : Outcome run safe post) {value : α} (hrun : run = .ok value) :
    post value := by
  rwa [hrun] at houtcome

theorem Outcome.total (houtcome : Outcome run safe post) (hsafe : safe) :
    ∃ value, run = .ok value ∧ post value := by
  cases run with
  | error panic => exact absurd hsafe houtcome
  | ok value => exact ⟨value, rfl, houtcome⟩

theorem Outcome.throw {panic : ε} (hpanics : ¬safe) :
    Outcome (Except.error panic : Except ε α) safe post :=
  hpanics

theorem Outcome.bind {next : α → Except ε β} {postNext : β → Prop} (post : α → Prop)
    (hrun : Outcome run safe post)
    (hnext : ∀ value, post value → Outcome (next value) safe postNext) :
    Outcome (run >>= next) safe postNext := by
  cases run with
  | error panic => exact hrun
  | ok value => exact hnext value hrun

theorem Outcome.mono {safeBefore : Prop} {postAfter : α → Prop} (houtcome : Outcome run safe post)
    (hsafe : safeBefore → safe) (hpost : ∀ value, post value → postAfter value) :
    Outcome run safeBefore postAfter := by
  cases run with
  | error panic => exact fun hbefore => houtcome (hsafe hbefore)
  | ok value => exact hpost value houtcome

def Raises (run : Except ε α) (allowed : ε → Prop) : Prop :=
  ∀ panic, run = .error panic → allowed panic

variable {allowed : ε → Prop}

theorem Raises.ok {value : α} : Raises (Except.ok value : Except ε α) allowed := by
  intro panic hpanic
  simp at hpanic

theorem Raises.error {panic : ε} (hallowed : allowed panic) :
    Raises (Except.error panic : Except ε α) allowed := by
  intro other hother
  obtain rfl : panic = other := Except.error.inj hother
  exact hallowed

theorem Raises.bind {next : α → Except ε β} (hrun : Raises run allowed)
    (hnext : ∀ value, Raises (next value) allowed) : Raises (run >>= next) allowed := by
  cases run with
  | error panic => exact Raises.error (hrun panic rfl)
  | ok value => exact hnext value

/-- A returned value meets `post`, and a panic meets `failure`. -/
def Settled (run : Except ε α) (failure : ε → Prop) (post : α → Prop) : Prop :=
  match run with
  | .ok value => post value
  | .error panic => failure panic

variable {failure : ε → Prop}

theorem Settled.value (hsettled : Settled run failure post) {value : α} (hrun : run = .ok value) :
    post value := by
  rwa [hrun] at hsettled

theorem Settled.panic
    (hsettled : Settled run failure post) {panic : ε} (hrun : run = .error panic) :
    failure panic := by
  rwa [hrun] at hsettled

theorem Settled.mono {postAfter : α → Prop} (hsettled : Settled run failure post)
    (hpost : ∀ value, post value → postAfter value) : Settled run failure postAfter := by
  cases run with
  | error panic => exact hsettled
  | ok value => exact hpost value hsettled

theorem Settled.bind {next : α → Except ε β} {postNext : β → Prop} (post : α → Prop)
    (hrun : Settled run failure post)
    (hnext : ∀ value, post value → Settled (next value) failure postNext) :
    Settled (run >>= next) failure postNext := by
  cases run with
  | error panic => exact hrun
  | ok value => exact hnext value hrun

theorem Outcome.settled_mapError {η : Type u} {wrap : ε → η} {failureAfter : η → Prop}
    (houtcome : Outcome run safe post) (hraises : Raises run allowed)
    (hfailure : ∀ panic, allowed panic → ¬safe → failureAfter (wrap panic)) :
    Settled (run.mapError wrap) failureAfter post := by
  cases run with
  | error panic => exact hfailure panic (hraises panic rfl) houtcome
  | ok value => exact houtcome

end PanicOutcome
