import Kairix.PiFutex
import Kairix.HandoffTokens

/-!
# Tokens of futex waiters

A task which waits for a futex word is represented by one hand-off token: its
entry in a wait queue, the unlocking or requeueing task or the timer which has
taken the entry, or one of its own flags.  Every task stands soundly towards its
token, and the values which a task has read from a word are those its phase
relies on.
-/

namespace Kairix.Futex

open Function HandoffTokens

theorem tidField_or (first second : Word) :
    tidField (first ||| second) = tidField first ||| tidField second := by
  ext i hi
  simp [tidField, Bool.and_or_distrib_right]

theorem tidField_and_flags (word : Word) {flags : Word} (hflags : tidField flags = 0) :
    tidField (word &&& flags) = 0 := by
  rw [tidField] at hflags
  rw [tidField, BitVec.and_assoc, hflags]
  simp

theorem tidField_or_waiters (word : Word) : tidField (word ||| futexWaiters) = tidField word := by
  rw [tidField_or, show tidField futexWaiters = 0 by decide]
  simp

variable {κ τ : Type*} {timers : ℕ} {ids : ThreadIds τ}

namespace ThreadIds

theorem toNat_word (ids : ThreadIds τ) (task : τ) : (ids.word task).toNat = ids.tid task := by
  have hsmall := ids.small task
  have hmask : futexTidMask.toNat = 2 ^ 30 - 1 := by decide
  rw [ThreadIds.word, BitVec.toNat_ofNat, Nat.mod_eq_of_lt]
  omega

theorem tidField_word (ids : ThreadIds τ) (task : τ) :
    tidField (ids.word task) = ids.word task := by
  have hsmall := ids.small task
  have hmask : futexTidMask.toNat = 2 ^ 30 - 1 := by decide
  apply BitVec.eq_of_toNat_eq
  rw [tidField, BitVec.toNat_and, toNat_word, hmask, Nat.and_two_pow_sub_one_eq_mod]
  apply Nat.mod_eq_of_lt
  omega

theorem word_ne_zero (ids : ThreadIds τ) (task : τ) : ids.word task ≠ 0 := by
  intro hzero
  have hpos := ids.pos task
  rw [← toNat_word, hzero] at hpos
  simp at hpos

theorem word_injective (ids : ThreadIds τ) : Injective ids.word := by
  intro first second hword
  apply ids.injective
  rw [← toNat_word, ← toNat_word, hword]

end ThreadIds

theorem tidField_ownedWord (owner : τ) (rest : List (FutexWaiter κ τ)) :
    tidField (FutexConfig.ownedWord ids owner rest) = ids.word owner := by
  have hflag : tidField (if rest.isEmpty = true then 0 else futexWaiters) = 0 := by
    split
    · decide
    · decide
  rw [FutexConfig.ownedWord, tidField_or, ids.tidField_word, hflag]
  simp

theorem tidField_died (observed : Word) :
    tidField (observed &&& futexWaiters ||| futexOwnerDied) = 0 := by
  rw [tidField_or, tidField_and_flags observed (by decide)]
  decide

/-! ## Parts of a phase -/

namespace Phase

def waits : Phase κ τ → Option κ
  | .lockWait call => some call.key
  | .lockLeave call false => some call.key
  | .waitWait call => some call.target
  | .waitLeave call => some call.target
  | _ => none

def shuns : Phase κ τ → Option κ
  | .lockLeave call true => some call.key
  | .waitLoad call => some call.target
  | .waitReset call => some call.target
  | .waitEnqueue call => some call.target
  | .returned key true (.error .timedOut) => some key
  | .returned key true (.error .interrupted) => some key
  | _ => none

def keeps : Phase κ τ → Option κ
  | .returned key true (.ok _) => some key
  | _ => none

def claims : Phase κ τ → Option τ
  | .requeueExchange _ _ _ waiter => some waiter.task
  | _ => none

def grants : Phase κ τ → Option τ
  | .unlockWake _ waiter => some waiter
  | .requeueMark _ _ _ acquired => acquired
  | .requeueWake _ _ waiter => some waiter
  | .exitDeliver waiter => some waiter
  | _ => none

/-- What a task knows of the owner it has read from a word. -/
def Knows (own : Word) : Phase κ τ → Prop
  | .lockExchange _ observed => tidField observed = 0
  | .lockWaiters _ observed => tidField observed ≠ own
  | .lockReset _ owner => owner ≠ own
  | .lockEnqueue _ owner => owner ≠ own
  | .unlockExchange _ observed => tidField observed = own
  | .requeueExchange _ _ observed _ => tidField observed = 0
  | .exitExchange _ observed => tidField observed = own
  | .lockWait call => call.enqueued = true
  | .lockWoken call => call.enqueued = true
  | .lockLeave call _ => call.enqueued = true
  | _ => True

theorem shuns_of_waits {phase : Phase κ τ} (hwaits : phase.waits ≠ none) : phase.shuns = none := by
  cases phase with
  | lockLeave call timedOut =>
    cases timedOut with
    | false => rfl
    | true => exact absurd rfl hwaits
  | returned key enqueued result | waitLoad call | waitReset call | waitEnqueue call =>
    exact absurd rfl hwaits
  | _ => rfl

theorem keeps_of_waits {phase : Phase κ τ} (hwaits : phase.waits ≠ none) : phase.keeps = none := by
  cases phase with
  | returned key enqueued result => exact absurd rfl hwaits
  | _ => rfl

end Phase

inductive Carrier (τ : Type*) (timers : ℕ) where
  | task (task : τ)
  | timer (index : Fin timers)
  deriving DecidableEq

/-- What a task has taken of a waiter. -/
inductive Hold where
  | nothing
  | claim
  | grant

namespace Hold

def claimed (waiter : τ) : Hold → Option τ
  | .claim => some waiter
  | _ => none

def granted (waiter : τ) : Hold → Option τ
  | .grant => some waiter
  | _ => none

def token (carrier : Carrier τ timers) : Hold → Token κ (Carrier τ timers)
  | .nothing => .none
  | .claim => .claimed carrier
  | .grant => .granted carrier

end Hold

namespace Phase

/-- What a phase claims and grants when it has no waiter of its own. -/
def Ties (phase : Phase κ τ) (claim grant : Option τ) : Prop :=
  (phase.waits, phase.shuns, phase.keeps, phase.claims, phase.grants) =
    (none, none, none, claim, grant)

section

variable {phase : Phase κ τ} {claim grant : Option τ} (hties : phase.Ties claim grant)
include hties

theorem Ties.waits : phase.waits = none := congrArg Prod.fst hties

theorem Ties.shuns : phase.shuns = none := congrArg (·.2.1) hties

theorem Ties.keeps : phase.keeps = none := congrArg (·.2.2.1) hties

theorem Ties.claims : phase.claims = claim := congrArg (·.2.2.2.1) hties

theorem Ties.grants : phase.grants = grant := congrArg (·.2.2.2.2) hties

end

def Holding (phase : Phase κ τ) (waiter : τ) (hold : Hold) : Prop :=
  phase.Ties (hold.claimed waiter) (hold.granted waiter)

end Phase

namespace FutexConfig

def carried (config : FutexConfig κ τ timers) (part : Phase κ τ → Option τ)
    (expiring : Fin timers → Option τ) : Carrier τ timers → Option τ
  | .task task => part (config.phase task)
  | .timer index => expiring index

def claims (config : FutexConfig κ τ timers) : Carrier τ timers → Option τ :=
  config.carried Phase.claims config.expiring

def grants (config : FutexConfig κ τ timers) : Carrier τ timers → Option τ :=
  config.carried Phase.grants fun _ => none

def Owns (ids : ThreadIds τ) (s : FutexConfig κ τ timers) (task : τ) (key : κ) : Prop :=
  tidField (s.word key) = ids.word task

section Observers

variable [DecidableEq τ]

def listed (config : FutexConfig κ τ timers) (task : τ) (key : κ) : ℕ :=
  (config.table key).countP fun waiter => waiter.task = task

def standing (ids : ThreadIds τ) (config : FutexConfig κ τ timers) (task : τ) :
    Standing κ (Carrier τ timers) where
  waits := (config.phase task).waits
  shuns := (config.phase task).shuns
  keeps := (config.phase task).keeps
  listed := config.listed task
  claimed := fun carrier => config.claims carrier = some task
  granted := fun carrier => config.grants carrier = some task
  woken := (config.flags task).woken
  timedOut := (config.flags task).timedOut
  owned := config.Owns ids task

structure Sound (ids : ThreadIds τ) (config : FutexConfig κ τ timers) : Prop where
  stands : ∀ task, (config.standing ids task).Sound
  knows : ∀ task, (config.phase task).Knows (ids.word task)

/-! ## What an observer sees of a change -/

variable {s : FutexConfig κ τ timers} {task other : τ} {phase : Phase κ τ}

theorem phase_setPhase_self : (s.setPhase task phase).phase task = phase := update_self _ _ _

theorem phase_setPhase_of_ne
    (hne : other ≠ task) : (s.setPhase task phase).phase other = s.phase other :=
  update_of_ne hne _ _

section Carried

variable {part : Phase κ τ → Option τ} {expiring : Fin timers → Option τ}

theorem carried_setPhase (carrier : Carrier τ timers) :
    (s.setPhase task phase).carried part expiring carrier = some other ↔
      carrier = .task task ∧ part phase = some other ∨
        carrier ≠ .task task ∧ s.carried part expiring carrier = some other := by
  cases carrier with
  | task carrier =>
    by_cases hcarrier : carrier = task
    · subst carrier
      simp [carried, phase_setPhase_self]
    · simp [carried, phase_setPhase_of_ne hcarrier, hcarrier]
  | timer index => simp [carried]

theorem carried_setPhase_same (hsame : part phase = some other ↔ part (s.phase task) = some other)
    (carrier : Carrier τ timers) :
    (s.setPhase task phase).carried part expiring carrier = some other ↔
      s.carried part expiring carrier = some other := by
  rw [carried_setPhase, hsame]
  by_cases hcarrier : carrier = .task task
  · subst carrier
    simp [carried]
  · simp [hcarrier]

end Carried

theorem standing_setPhase_self
    (hclaims : phase.claims = some task ↔ (s.phase task).claims = some task)
    (hgrants : phase.grants = some task ↔ (s.phase task).grants = some task) :
    (s.setPhase task phase).standing ids task = { s.standing ids task with
      waits := phase.waits, shuns := phase.shuns, keeps := phase.keeps } := by
  simp only [standing, claims, grants, phase_setPhase_self, carried_setPhase_same hclaims,
    carried_setPhase_same hgrants]
  rfl

theorem standing_setPhase_of_ne
    (hclaims : phase.claims = some other ↔ (s.phase task).claims = some other)
    (hgrants : phase.grants = some other ↔ (s.phase task).grants = some other)
    (hne : other ≠ task) :
    (s.setPhase task phase).standing ids other = s.standing ids other := by
  simp only [standing, claims, grants, phase_setPhase_of_ne hne, carried_setPhase_same hclaims,
    carried_setPhase_same hgrants]
  rfl

/-- The task goes on, and what it has taken of the waiter changes. -/
theorem standing_setPhase [DecidableEq κ] {waiter : τ} {hold hold' : Hold} (hne : waiter ≠ task)
    (hbefore : (s.phase task).Holding waiter hold) (hafter : phase.Holding waiter hold') :
    (s.setPhase task phase).standing ids waiter =
      ((s.standing ids waiter).without (hold.token (.task task))).holding
        (hold'.token (.task task)) := by
  have hclaimed (carrier : Carrier τ timers) :
      (s.setPhase task phase).claims carrier = some waiter ↔
      carrier = .task task ∧ hold'.claimed waiter = some waiter ∨
        carrier ≠ .task task ∧ s.claims carrier = some waiter := by
    rw [claims, carried_setPhase, hafter.claims]
    rfl
  have hgranted (carrier : Carrier τ timers) :
      (s.setPhase task phase).grants carrier = some waiter ↔
      carrier = .task task ∧ hold'.granted waiter = some waiter ∨
        carrier ≠ .task task ∧ s.grants carrier = some waiter := by
    rw [grants, carried_setPhase, hafter.grants]
    rfl
  have hclaims : s.claims (.task task) = hold.claimed waiter := hbefore.claims
  have hgrants : s.grants (.task task) = hold.granted waiter := hbefore.grants
  have hphase : (s.setPhase task phase).phase waiter = s.phase waiter := phase_setPhase_of_ne hne
  simp only [standing, hphase, hclaimed, hgranted]
  cases hold <;> cases hold' <;> refine Standing.ext rfl rfl rfl rfl ?_ ?_ rfl rfl rfl <;>
    funext carrier <;> by_cases hcarrier : carrier = .task task <;>
    simp_all [Hold.token, Hold.claimed, Hold.granted, Standing.without, Standing.holding]

theorem standing_setFlags_of_ne {flags : WaitFlags} (hne : other ≠ task) :
    (s.setFlags task flags).standing ids other = s.standing ids other := by
  have hflags : (s.setFlags task flags).flags other = s.flags other := update_of_ne hne _ _
  rw [standing, hflags]
  rfl

theorem standing_setFlags_self {flags : WaitFlags} :
    (s.setFlags task flags).standing ids task = { s.standing ids task with
      woken := flags.woken, timedOut := flags.timedOut } := by
  have hflags : (s.setFlags task flags).flags task = flags := update_self _ _ _
  rw [standing, hflags]
  rfl

variable [DecidableEq κ]

theorem listed_setQueue (key : κ) (queue : List (FutexWaiter κ τ)) :
    (s.setQueue key queue).listed task =
      update (s.listed task) key (queue.countP fun waiter => waiter.task = task) := by
  funext other
  by_cases hother : other = key
  · subst other
    simp [listed, setQueue]
  · simp [listed, setQueue, hother]

theorem standing_setQueue (key : κ) (queue : List (FutexWaiter κ τ)) :
    (s.setQueue key queue).standing ids task = { s.standing ids task with
      listed := update (s.listed task) key (queue.countP fun waiter => waiter.task = task) } := by
  rw [← listed_setQueue]
  rfl

variable {key : κ}

theorem standing_setQueue_of_countP {queue : List (FutexWaiter κ τ)}
    (hcount : (queue.countP fun waiter => waiter.task = task) = s.listed task key) :
    (s.setQueue key queue).standing ids task = s.standing ids task := by
  rw [standing_setQueue, hcount, update_eq_self]
  rfl

theorem standing_setWord_of_iff {word : Word}
    (howns : tidField word = ids.word task ↔ s.Owns ids task key) :
    (s.setWord key word).standing ids task = s.standing ids task := by
  have hsame : (s.setWord key word).Owns ids task = s.Owns ids task := by
    funext other
    by_cases hother : other = key
    · subst other
      simpa [Owns, setWord] using howns
    · simp [Owns, setWord, hother]
  rw [standing, hsame]
  rfl

omit [DecidableEq τ] in
theorem owns_setWord_self {word : Word} :
    (s.setWord key word).Owns ids task key ↔ tidField word = ids.word task := by
  rw [Owns, show (s.setWord key word).word key = word from update_self _ _ _]

theorem standing_setWord (key : κ) (word : Word) :
    (s.setWord key word).standing ids task = { s.standing ids task with
      owned := (s.setWord key word).Owns ids task } := rfl

end Observers

end FutexConfig

end Kairix.Futex
