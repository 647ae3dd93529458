import Mathlib.Logic.Function.Basic
import Mathlib.Tactic

/-!
# Hand-off tokens

A waiter is represented by one token.  The token is listed in a queue, taken
out of it by a carrier, and delivered to the waiter as a wake-up or a timeout.
A carrier which has only claimed the waiter has not given it anything; one to
which the waiter is granted may have made it the owner of a key.  A waiter whose
token is refused, that is listed, claimed or timed out, does not own the key it
waits for, so it may give up.
-/

namespace HandoffTokens

open Function

variable {κ γ : Type*}

/-- How one waiter stands towards queues, carriers and keys.  It waits for a key,
or must not own one, or must own one. -/
@[ext]
structure Standing (κ γ : Type*) where
  waits : Option κ
  shuns : Option κ
  keeps : Option κ
  listed : κ → ℕ
  claimed : γ → Prop
  granted : γ → Prop
  woken : Bool
  timedOut : Bool
  owned : κ → Prop

inductive Token (κ γ : Type*) where
  | none
  | listed (key : κ)
  | claimed (carrier : γ)
  | granted (carrier : γ)
  | woken
  | timedOut
  deriving DecidableEq

def Token.Refused : Token κ γ → Prop
  | .listed _ => True
  | .claimed _ => True
  | .timedOut => True
  | _ => False

namespace Standing

structure Holds (standing : Standing κ γ) (token : Token κ γ) : Prop where
  listed : ∀ key, token = .listed key ∧ standing.listed key = 1 ∨
    token ≠ .listed key ∧ standing.listed key = 0
  claimed : ∀ carrier, standing.claimed carrier ↔ token = .claimed carrier
  granted : ∀ carrier, standing.granted carrier ↔ token = .granted carrier
  woken : standing.woken = true ↔ token = .woken
  timedOut : standing.timedOut = true ↔ token = .timedOut
  waits : token ≠ .none → standing.waits ≠ none
  refused : token.Refused → ∀ key, standing.waits = some key → ¬standing.owned key
  shuns : ∀ key, standing.shuns = some key → ¬standing.owned key
  keeps : ∀ key, standing.keeps = some key → standing.owned key

def Sound (standing : Standing κ γ) : Prop := ∃ token, standing.Holds token

variable {standing s' : Standing κ γ} {key : κ} {carrier : γ}

variable {token : Token κ γ}

/-- The token is seen at this place. -/
def At (standing : Standing κ γ) : Token κ γ → Prop
  | .none => standing.waits = none
  | .listed key => standing.listed key ≠ 0
  | .claimed carrier => standing.claimed carrier
  | .granted carrier => standing.granted carrier
  | .woken => standing.woken = true
  | .timedOut => standing.timedOut = true

theorem Sound.holds (hsound : standing.Sound) (token : Token κ γ) (hat : standing.At token) :
    standing.Holds token := by
  obtain ⟨held, hholds⟩ := hsound
  suffices hsame : held = token by rwa [← hsame]
  cases token with
  | none =>
    by_contra hheld
    exact hholds.waits hheld hat
  | listed key => exact ((hholds.listed key).resolve_right fun hzero => hat hzero.2).1
  | claimed carrier => exact (hholds.claimed carrier).mp hat
  | granted carrier => exact (hholds.granted carrier).mp hat
  | woken => exact hholds.woken.mp hat
  | timedOut => exact hholds.timedOut.mp hat

theorem Holds.listed_self (hholds : standing.Holds (.listed key)) : standing.listed key = 1 :=
  ((hholds.listed key).resolve_right fun hzero => hzero.1 rfl).2

theorem Holds.listed_eq_zero (hholds : standing.Holds token) (hne : token ≠ .listed key) :
    standing.listed key = 0 :=
  ((hholds.listed key).resolve_left fun hone => hne hone.1).2

theorem Sound.not_listed (hsound : standing.Sound) (hwaits : standing.waits = none) (key : κ) :
    standing.listed key = 0 :=
  (hsound.holds .none hwaits).listed_eq_zero (by simp)

/-! ## Taking the token from its place and putting it in another -/

section Places

variable [DecidableEq κ]

def without (standing : Standing κ γ) : Token κ γ → Standing κ γ
  | .none => standing
  | .listed key => { standing with
      listed := update standing.listed key (standing.listed key - 1) }
  | .claimed carrier => { standing with
      claimed := fun other => other ≠ carrier ∧ standing.claimed other }
  | .granted carrier => { standing with
      granted := fun other => other ≠ carrier ∧ standing.granted other }
  | .woken => { standing with woken := false }
  | .timedOut => { standing with timedOut := false }

def holding (standing : Standing κ γ) : Token κ γ → Standing κ γ
  | .none => standing
  | .listed key => { standing with
      listed := update standing.listed key (standing.listed key + 1) }
  | .claimed carrier => { standing with
      claimed := fun other => other = carrier ∨ standing.claimed other }
  | .granted carrier => { standing with
      granted := fun other => other = carrier ∨ standing.granted other }
  | .woken => { standing with woken := true }
  | .timedOut => { standing with timedOut := true }

structure Clear (standing : Standing κ γ) : Prop where
  listed : ∀ key, standing.listed key = 0
  claimed : ∀ carrier, ¬standing.claimed carrier
  granted : ∀ carrier, ¬standing.granted carrier
  woken : standing.woken = false
  timedOut : standing.timedOut = false

theorem Holds.clear (hholds : standing.Holds token) : (standing.without token).Clear where
  listed key := by
    cases token with
    | listed source =>
      by_cases hkey : key = source
      · simp [without, hkey, hholds.listed_self]
      · simpa [without, hkey] using hholds.listed_eq_zero (by simpa using Ne.symm hkey)
    | _ => exact hholds.listed_eq_zero (by simp)
  claimed carrier := by cases token <;> simp [without, hholds.claimed, eq_comm]
  granted carrier := by cases token <;> simp [without, hholds.granted, eq_comm]
  woken := by cases token <;> simp [without, hholds.woken, ← Bool.not_eq_true]
  timedOut := by cases token <;> simp [without, hholds.timedOut, ← Bool.not_eq_true]

theorem Sound.pass {waits shuns keeps : Option κ} {owned : κ → Prop} (hsound : standing.Sound)
    (token next : Token κ γ) (hat : standing.At token) (hwaits : next ≠ .none → waits ≠ none)
    (hrefused : next.Refused → ∀ key, waits = some key → ¬owned key)
    (hshuns : ∀ key, shuns = some key → ¬owned key) (hkeeps : ∀ key, keeps = some key → owned key) :
    { (standing.without token).holding next with
      waits := waits, shuns := shuns, keeps := keeps, owned := owned }.Sound := by
  have hclear := (hsound.holds token hat).clear
  refine ⟨next, ?_, ?_, ?_, ?_, ?_, hwaits, hrefused, hshuns, hkeeps⟩
  · intro key
    cases next with
    | listed target =>
      by_cases hkey : key = target
      · simp [holding, hkey, hclear.listed]
      · simp [holding, hkey, Ne.symm hkey, hclear.listed]
    | _ => exact .inr ⟨by simp, hclear.listed key⟩
  · cases next <;> simp [holding, hclear.claimed, eq_comm]
  · cases next <;> simp [holding, hclear.granted, eq_comm]
  · cases next <;> simp [holding, hclear.woken]
  · cases next <;> simp [holding, hclear.timedOut]

theorem Sound.carry (hsound : standing.Sound) (token next : Token κ γ) (hat : standing.At token)
    (hwaits : next ≠ .none → token ≠ .none) (hrefused : next.Refused → token.Refused) :
    ((standing.without token).holding next).Sound := by
  have hholds := hsound.holds token hat
  have hpass := hsound.pass token next hat (fun hne => hholds.waits (hwaits hne))
    (fun hnext => hholds.refused (hrefused hnext)) hholds.shuns hholds.keeps
  cases token <;> cases next <;> exact hpass

end Places

/-! ## Steps of the waiter -/

section

variable (hsound : standing.Sound)
include hsound

theorem Sound.rest (hwaits : standing.waits = none) (waits shuns keeps : Option κ)
    (owned : κ → Prop) (hshuns : ∀ key, shuns = some key → ¬owned key)
    (hkeeps : ∀ key, keeps = some key → owned key) :
    { standing with waits := waits, shuns := shuns, keeps := keeps, owned := owned }.Sound := by
  classical
  exact hsound.pass .none .none hwaits (fun hne => absurd rfl hne) False.elim hshuns hkeeps

theorem Sound.reset (hwaits : standing.waits = none) :
    { standing with woken := false, timedOut := false }.Sound := by
  classical
  have hclear := (hsound.holds .none hwaits).clear
  have hsame : { standing with woken := false, timedOut := false } = standing :=
    Standing.ext rfl rfl rfl rfl rfl rfl hclear.woken.symm hclear.timedOut.symm rfl
  rwa [hsame]

theorem Sound.consume_woken (hwoken : standing.woken = true) :
    { standing with woken := false, waits := none, shuns := none, keeps := none }.Sound := by
  classical
  exact hsound.pass .woken .none hwoken (fun hne => absurd rfl hne) False.elim (by simp) (by simp)

theorem Sound.consume_timedOut (htimedOut : standing.timedOut = true) :
    { standing with
      timedOut := false, waits := none, shuns := standing.waits, keeps := none }.Sound := by
  classical
  exact hsound.pass .timedOut .none htimedOut (fun hne => absurd rfl hne) False.elim
    ((hsound.holds .timedOut htimedOut).refused trivial) (by simp)

theorem Sound.leave {emptied : κ → ℕ} (hlisted : standing.listed key ≠ 0)
    (hle : ∀ other, emptied other ≤ standing.listed other) (hkey : emptied key = 0) :
    { standing with
      listed := emptied, waits := none, shuns := standing.waits, keeps := none }.Sound := by
  classical
  have hholds := hsound.holds (.listed key) hlisted
  have hempty : emptied = (standing.without (.listed key)).listed := by
    funext other
    rw [hholds.clear.listed]
    by_cases hother : other = key
    · rw [hother, hkey]
    · have hzero := hholds.listed_eq_zero (by simpa using Ne.symm hother)
      have hbound := hle other
      omega
  rw [hempty]
  exact hsound.pass (.listed key) .none hlisted (fun hne => absurd rfl hne) False.elim
    (hholds.refused trivial) (by simp)

theorem Sound.expire (hclaimed : standing.claimed carrier) :
    { standing with
      claimed := fun other => other ≠ carrier ∧ standing.claimed other
      woken := false, timedOut := true }.Sound := by
  classical
  have hwoken : standing.woken = false := (hsound.holds (.claimed carrier) hclaimed).clear.woken
  rw [← hwoken]
  exact hsound.carry (.claimed carrier) .timedOut hclaimed (by simp) fun _ => trivial

end

end Standing

end HandoffTokens
