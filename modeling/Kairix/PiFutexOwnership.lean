import Kairix.PiFutexSteps

/-!
# Results of priority-inheritance futex calls

A call which has waited returns a success only to the owner of the word, and a
timeout or an interruption only to a task which is not the owner.  This holds in
every run in which an interrupted waiter is still queued when it removes itself,
and no task waits to be requeued to a word which it owns.  Without the first
condition the word may be handed to a waiter which returns an interruption.
-/

namespace Kairix.Futex

open HandoffTokens LabelledRun Function

variable {κ τ : Type*} {timers : ℕ} {ids : ThreadIds τ}

namespace FutexConfig

section Owners

variable {word : Word}

theorem not_owner_of_owner {owner other : τ} (hword : tidField word = ids.word owner)
    (hother : other ≠ owner) : ¬tidField word = ids.word other := by
  rw [hword]
  exact fun hsame => hother (ids.word_injective hsame).symm

theorem not_owner_of_zero
    (hword : tidField word = 0) (other : τ) : ¬tidField word = ids.word other := by
  rw [hword]
  exact fun hsame => ids.word_ne_zero other hsame.symm

variable {s : FutexConfig κ τ timers} {task : τ} {phase : Phase κ τ} (hphase : s.phase task = phase)
include hphase

theorem free_of_phase (hfree : phase.Free) : (s.phase task).Free := by rwa [hphase]

theorem holding_of_phase {waiter : τ} {hold : Hold} (hholding : phase.Holding waiter hold) :
    (s.phase task).Holding waiter hold := by rwa [hphase]

end Owners

variable [DecidableEq κ] [DecidableEq τ]

variable {s after s' : FutexConfig κ τ timers} {task : τ} {key : κ}

section

variable {phase : Phase κ τ} (hsound : s.Sound ids) (hphase : s.phase task = phase)
include hsound hphase

omit [DecidableEq κ] in
theorem Sound.knows_of_phase : phase.Knows (ids.word task) := by
  rw [← hphase]
  exact hsound.knows task

omit [DecidableEq κ] in
theorem Sound.not_owns_of_shuns (hshuns : phase.shuns = some key) : ¬s.Owns ids task key := by
  obtain ⟨token, hholds⟩ := hsound.stands task
  exact hholds.shuns key (by rw [← hshuns, ← hphase]; rfl)

end

/-! ## Locking -/

section Lock

variable {call : LockCall κ}

variable (hsound : s.Sound ids)
include hsound

omit [DecidableEq κ] in
theorem Sound.lockLoadStep {now : ℕ} (hphase : s.phase task = .lockLoad call) :
    (s.lockLoadStep ids task call now).Sound ids := by
  have hfree := free_of_phase hphase rfl
  simp only [FutexConfig.lockLoadStep]
  split
  · exact hsound.refuse hfree (by simp) (by simp)
  · next howner =>
    split
    · exact hsound.pass hfree rfl trivial
    · split
      · exact hsound.refuse hfree (by simp) (by simp)
      · split
        · exact hsound.giveUp hfree howner
        · exact hsound.pass hfree rfl howner

omit [DecidableEq κ] in
theorem Sound.lockAcquireStep (hphase : s.phase task = .lockAcquire call) :
    (s.lockAcquireStep task call).Sound ids := by
  have hfree := free_of_phase hphase rfl
  simp only [FutexConfig.lockAcquireStep]
  split
  · exact hsound.pass hfree rfl trivial
  · next hzero =>
    split
    · exact hsound.refuse hfree (by simp) (by simp)
    · exact (hsound.setLock (some task)).pass hfree rfl (not_not.mp hzero)

theorem Sound.lockExchangeStep {observed : Word}
    (hphase : s.phase task = .lockExchange call observed) :
    (s.lockExchangeStep ids task call observed).Sound ids := by
  have hfree := free_of_phase hphase rfl
  have hknows : tidField observed = 0 := hsound.knows_of_phase hphase
  rw [FutexConfig.lockExchangeStep]
  split
  · next hword =>
    have hown : tidField (observed &&& (futexOwnerDied ||| futexWaiters) ||| ids.word task) =
        ids.word task := by
      rw [tidField_or, tidField_and_flags observed (by decide), ids.tidField_word]
      simp
    have hnext : ((s.setWord call.key
        (observed &&& (futexOwnerDied ||| futexWaiters) ||| ids.word task)).setPhase task
          (.returned call.key call.enqueued (.ok 0))).Sound ids := by
      refine hsound.exchange hfree rfl trivial ?_ ?_ ?_
      · intro other hother
        refine iff_of_false (not_owner_of_owner hown hother) ?_
        exact not_owner_of_zero (by rw [hword, hknows]) other
      · simp [Phase.shuns_returned_ok]
      · intro other hother
        rw [Phase.keeps_returned hother, owns_setWord_self]
        exact hown
    exact (hnext.setOwner call.key (some (ids.word task))).setLock none
  · exact (hsound.setLock none).pass hfree rfl trivial

theorem Sound.lockWaitersStep {observed : Word} {spurious : Bool}
    (hphase : s.phase task = .lockWaiters call observed) :
    (s.lockWaitersStep task call observed spurious).Sound ids := by
  have hfree := free_of_phase hphase rfl
  have hknows : tidField observed ≠ ids.word task := hsound.knows_of_phase hphase
  rw [FutexConfig.lockWaitersStep]
  split
  · exact hsound.pass hfree rfl hknows
  · split
    · next hsame =>
      refine (hsound.setWord ?_).pass hfree rfl hknows
      rw [tidField_or_waiters, hsame.2]
    · exact hsound.pass hfree rfl trivial

omit [DecidableEq κ] in
theorem Sound.resetFlags {phase : Phase κ τ} (hfree : (s.phase task).Free) (hnext : phase.Free)
    (hknows : phase.Knows (ids.word task))
    (hshuns : ∀ key, phase.shuns = some key → ¬s.Owns ids task key)
    (hkeeps : phase.keeps = none) : ((s.resetFlags task).setPhase task phase).Sound ids := by
  refine hsound.setFlags (hnext.claims.trans hfree.claims.symm)
    (hnext.grants.trans hfree.grants.symm) hknows ?_
  exact ((hsound.stands task).reset hfree.waits).rest hfree.waits _ _ _ _ hshuns (by simp [hkeeps])

theorem Sound.lockEnqueueStep {owner : Word} (hphase : s.phase task = .lockEnqueue call owner) :
    (s.lockEnqueueStep task call owner).Sound ids := by
  have hfree := free_of_phase hphase rfl
  have hknows : owner ≠ ids.word task := hsound.knows_of_phase hphase
  simp only [FutexConfig.lockEnqueueStep]
  split
  · exact hsound.pass hfree rfl trivial
  · next howner =>
    split
    · exact hsound.refuse hfree (by simp) (by simp)
    · have howns : ¬s.Owns ids task call.key := by
        rw [Owns]
        rw [not_or, not_not] at howner
        rw [howner.1]
        exact hknows
      have hnext : ((s.setQueue call.key (s.table call.key ++
          [⟨task, call.deadline, true, none⟩])).setPhase task
            (.lockWait { call with enqueued := true })).Sound ids :=
        hsound.enqueue hfree rfl rfl rfl rfl rfl howns
      exact hnext.setOwner call.key (some owner)

omit [DecidableEq κ] in
theorem Sound.lockWaitStep (hphase : s.phase task = .lockWait call)
    (hstep : s.lockWaitStep task call = some s') : s'.Sound ids := by
  have hknows : call.enqueued = true := hsound.knows_of_phase hphase
  have hstands := hsound.stands task
  have hwaits : (s.standing ids task).waits = some call.key := by
    rw [standing, hphase]
    rfl
  simp only [FutexConfig.lockWaitStep] at hstep
  split at hstep
  · next hwoken =>
    cases hstep
    exact hsound.setFlags (by rw [hphase]; rfl) (by rw [hphase]; rfl) hknows
      (hstands.consume_woken hwoken)
  · next hwoken =>
    split at hstep <;> cases hstep
    cases htimedOut : (s.flags task).timedOut with
    | true =>
      have hnext := hstands.consume_timedOut htimedOut
      rw [hwaits] at hnext
      exact hsound.setFlags (by rw [hphase]; rfl) (by rw [hphase]; rfl) hknows hnext
    | false =>
      refine hsound.setFlags (by rw [hphase]; rfl) (by rw [hphase]; rfl) hknows ?_
      have hsame : s.standing ids task = { s.standing ids task with
          woken := (s.flags task).woken, timedOut := false
          waits := some call.key, shuns := none, keeps := none } := by
        rw [standing, hphase, htimedOut]
        rfl
      exact hsame ▸ hstands

omit [DecidableEq κ] in
theorem Sound.lockWokenStep (hphase : s.phase task = .lockWoken call) :
    (s.lockWokenStep ids task call).Sound ids := by
  have hfree := free_of_phase hphase rfl
  rw [FutexConfig.lockWokenStep]
  split
  · next howns => exact hsound.succeed hfree howns
  · exact hsound.pass hfree rfl trivial

theorem Sound.lockLeaveStep {timedOut : Bool} (hphase : s.phase task = .lockLeave call timedOut)
    (hlisted : timedOut = false → s.listed task call.key ≠ 0) :
    (s.lockLeaveStep task call timedOut).Sound ids := by
  have hknows : call.enqueued = true := hsound.knows_of_phase hphase
  have hothers : ∀ other, other ≠ task → ∀ place, (update s.table call.key
      ((s.table call.key).filter fun waiter => waiter.task ≠ task) place).countP
        (fun waiter => waiter.task = other) = s.listed other place := by
    intro other hother place
    by_cases hplace : place = call.key
    · rw [hplace, update_self, countP_kept hother]
      rfl
    · rw [update_of_ne hplace]
      rfl
  rw [FutexConfig.lockLeaveStep, hknows]
  cases timedOut with
  | false =>
    refine hsound.leaveTable (by rw [hphase]; rfl) (by rw [hphase]; rfl)
      (by rw [hphase]; rfl) (hlisted rfl) hothers (countP_update_le call.key) ?_ rfl
    rw [update_self, countP_removed]
  | true =>
    have hfree := free_of_phase hphase rfl
    have hclear : (s.setQueue call.key
        ((s.table call.key).filter fun waiter => waiter.task ≠ task)).Sound ids :=
      hsound.clearTable hfree.waits hothers (countP_update_le call.key)
    exact hclear.giveUp hfree (hsound.not_owns_of_shuns hphase rfl)

end Lock

omit [DecidableEq κ] in
theorem Sound.unlockLoadStep (hsound : s.Sound ids) (hphase : s.phase task = .unlockLoad key) :
    (s.unlockLoadStep ids task key).Sound ids := by
  have hfree := free_of_phase hphase rfl
  rw [FutexConfig.unlockLoadStep]
  split
  · exact hsound.refuse hfree (by simp) (by simp)
  · next howns =>
    exact (hsound.setLock (some task)).pass hfree rfl (not_not.mp howns)

variable {observed : Word}

attribute [local simp] Phase.shuns standing boot carried setPhase

theorem Sound.unlockExchangeStep (hsound : s.Sound ids)
    (hphase : s.phase task = .unlockExchange key observed) :
    (s.unlockExchangeStep ids task key observed).Sound ids := by
  have hfree := free_of_phase hphase rfl
  have hknows : tidField observed = ids.word task := hsound.knows_of_phase hphase
  rw [FutexConfig.unlockExchangeStep]
  split
  · next waiter rest hbest =>
    have hperm := takeBest_perm hbest
    simp only
    split
    · next hword =>
      have hnext : (((s.setQueue key rest).setWord key
          (ownedWord ids waiter.task rest)).setPhase task
            (.unlockWake key waiter.task)).Sound ids := by
        refine hsound.handOver hperm (holding_of_phase hphase rfl)
          rfl trivial ?_
        intro other hother hwaiter
        refine iff_of_false (not_owner_of_owner (tidField_ownedWord _ _) hwaiter) ?_
        exact not_owner_of_owner (by rw [hword, hknows]) hother
      exact (hnext.setOwner key (some (ids.word waiter.task))).setLock none
    · exact ((hsound.dropWaiter hperm).setLock none).refuse hfree (by simp) (by simp)
  · split
    · next hword =>
      have hnext : ((s.setWord key 0).setPhase task (.returned key false (.ok 0))).Sound
          ids := by
        refine hsound.exchange hfree rfl trivial ?_ (by simp)
          (by simp [Phase.keeps])
        intro other hother
        refine iff_of_false (not_owner_of_zero (by decide) other) ?_
        exact not_owner_of_owner (by rw [hword, hknows]) hother
      exact (hnext.setOwner key none).setLock none
    · exact (hsound.setLock none).refuse hfree (by simp) (by simp)

section Wait

variable {call : WaitCall κ}

variable (hsound : s.Sound ids)
include hsound

omit [DecidableEq κ] in
theorem Sound.waitLoadStep (hphase : s.phase task = .waitLoad call) :
    (s.waitLoadStep task call).Sound ids := by
  have hfree := free_of_phase hphase rfl
  have howns := hsound.not_owns_of_shuns hphase rfl
  rw [FutexConfig.waitLoadStep]
  split
  · exact hsound.refuse hfree (by simp) (by simp)
  · refine hsound.move hfree rfl trivial ?_ (by simp [Phase.keeps])
    intro other hother
    cases hother
    exact howns

theorem Sound.waitEnqueueStep {now : ℕ} (hphase : s.phase task = .waitEnqueue call) :
    (s.waitEnqueueStep task call now).Sound ids := by
  have hfree := free_of_phase hphase rfl
  have howns := hsound.not_owns_of_shuns hphase rfl
  rw [FutexConfig.waitEnqueueStep]
  split
  · exact hsound.refuse hfree (by simp) (by simp)
  · split
    · exact hsound.refuse hfree (by simp) (by simp)
    · split
      · exact hsound.giveUp hfree howns
      · exact hsound.enqueue hfree rfl rfl rfl rfl trivial howns

section

omit [DecidableEq κ]

theorem Sound.waitWaitStep (hphase : s.phase task = .waitWait call)
    (hstep : s.waitWaitStep task call = some s') : s'.Sound ids := by
  have hstands := hsound.stands task
  have hwaits : (s.standing ids task).waits = some call.target := by
    rw [standing, hphase]
    rfl
  simp only [FutexConfig.waitWaitStep] at hstep
  split at hstep
  · next htimedOut =>
    cases hstep
    have hnext := hstands.consume_timedOut htimedOut
    rw [hwaits] at hnext
    exact hsound.setFlags (by rw [hphase]; rfl) (by rw [hphase]; rfl) trivial hnext
  · split at hstep
    · next hwoken =>
      cases hstep
      exact hsound.setFlags (by rw [hphase]; rfl) (by rw [hphase]; rfl) trivial
        (hstands.consume_woken hwoken)
    · split at hstep <;> cases hstep
      refine hsound.setFlags (by rw [hphase]; rfl) (by rw [hphase]; rfl) trivial ?_
      have hsame : s.standing ids task = { s.standing ids task with
          woken := (s.flags task).woken, timedOut := (s.flags task).timedOut
          waits := some call.target, shuns := none, keeps := none } := by
        rw [standing, hphase]
        rfl
      exact hsame ▸ hstands

theorem Sound.waitCheckStep (hphase : s.phase task = .waitCheck call) :
    (s.waitCheckStep ids task call).Sound ids := by
  have hfree := free_of_phase hphase rfl
  rw [FutexConfig.waitCheckStep]
  split
  · next howns => exact hsound.succeed hfree howns
  · exact hsound.pass hfree rfl trivial

theorem Sound.waitLeaveStep (hphase : s.phase task = .waitLeave call)
    (hlisted : s.listed task key ≠ 0) : (s.waitLeaveStep task call).Sound ids := by
  rw [FutexConfig.waitLeaveStep]
  refine hsound.leaveTable (by rw [hphase]; rfl) (by rw [hphase]; rfl) (by rw [hphase]; rfl)
    hlisted ?_ ?_ (countP_removed _) rfl
  · exact fun other hother place => countP_kept hother (s.table place)
  · intro place
    rw [countP_removed]
    exact Nat.zero_le _

end

end Wait

section Requeue

variable {call : RequeueCall κ} {moved : ℕ}

variable (hsound : s.Sound ids)
include hsound

theorem Sound.requeueMoveStep (hphase : s.phase task = .requeueMove call) :
    (s.requeueMoveStep task call).Sound ids := by
  have hfree := free_of_phase hphase rfl
  simp only [FutexConfig.requeueMoveStep]
  split
  · exact hsound.refuse hfree (by simp) (by simp)
  · split
    · exact hsound.refuse hfree (by simp) (by simp)
    · split
      · exact hsound.pass hfree rfl trivial
      · exact ((hsound.moveWaiters rfl).setLock (some task)).pass hfree
          rfl trivial

theorem Sound.requeueLoadStep (hphase : s.phase task = .requeueLoad call moved)
    (hstep : s.requeueLoadStep task call moved = some s') : s'.Sound ids := by
  have hfree := free_of_phase hphase rfl
  simp only [FutexConfig.requeueLoadStep] at hstep
  split at hstep
  · next hzero =>
    obtain ⟨best, hbest, rfl⟩ := Option.map_eq_some_iff.mp hstep
    exact hsound.claimWaiter (takeBest_perm hbest)
      (holding_of_phase hphase rfl) rfl hzero
  · cases hstep
    exact hsound.pass hfree rfl trivial

theorem Sound.requeueExchangeStep {observed : Word} {waiter : FutexWaiter κ τ} {spurious : Bool}
    (hphase : s.phase task = .requeueExchange call moved observed waiter) :
    (s.requeueExchangeStep ids task call moved observed waiter spurious).Sound ids := by
  have hknows : tidField observed = 0 := hsound.knows_of_phase hphase
  have hbefore : (s.phase task).Holding waiter.task .claim :=
    holding_of_phase hphase rfl
  simp only [FutexConfig.requeueExchangeStep]
  split
  · next hword =>
    refine hsound.promoteWaiter hbefore rfl trivial ?_
    intro other hother
    refine iff_of_false (not_owner_of_owner (tidField_ownedWord _ _) hother) ?_
    exact not_owner_of_zero (by rw [hword.2, hknows]) other
  · split
    · next hzero =>
      exact hsound.shift hbefore.waits hbefore.claims.symm hbefore.grants.symm hzero
        (by simp) (by simp [Phase.keeps])
    · exact hsound.relistWaiter hbefore rfl trivial

theorem Sound.requeueMarkStep {owner : Word} {acquired : Option τ}
    (hphase : s.phase task = .requeueMark call moved owner acquired) :
    (s.requeueMarkStep task call moved owner acquired).Sound ids := by
  have hmarked : (if (s.table call.target).isEmpty = true then s
      else s.setWord call.target (s.word call.target ||| futexWaiters)).Sound ids := by
    split
    · exact hsound
    · exact hsound.setWord (tidField_or_waiters _)
  have hphase' : ((if (s.table call.target).isEmpty = true then s
      else s.setWord call.target (s.word call.target ||| futexWaiters)).phase task) =
        .requeueMark call moved owner acquired := by
    split <;> exact hphase
  have hnext := (hmarked.setOwner call.target (some owner)).setLock none
  simp only [FutexConfig.requeueMarkStep]
  cases acquired with
  | some waiter | none =>
    exact hnext.shift (congrArg Phase.waits hphase') (congrArg Phase.claims hphase').symm
      (congrArg Phase.grants hphase').symm trivial (by simp)
      (by simp [Phase.keeps])

end Requeue

omit [DecidableEq κ] in
theorem Sound.exitLoadStep (hsound : s.Sound ids) (hfree : (s.phase task).Free) :
    (s.exitLoadStep ids task key observed).Sound ids := by
  rw [FutexConfig.exitLoadStep]
  split
  · exact hsound.pass hfree rfl trivial
  · next howner =>
    exact hsound.pass hfree rfl (not_not.mp howner)

theorem Sound.exitExchangeStep {spurious : Bool} (hsound : s.Sound ids)
    (hphase : s.phase task = .exitExchange key observed) :
    (s.exitExchangeStep ids task key observed spurious).Sound ids := by
  have hfree := free_of_phase hphase rfl
  have hknows : tidField observed = ids.word task := hsound.knows_of_phase hphase
  rw [FutexConfig.exitExchangeStep]
  split
  · next hword =>
    refine hsound.exchange hfree rfl trivial ?_ (by simp)
      (by simp [Phase.keeps])
    intro other hother
    refine iff_of_false (not_owner_of_zero (tidField_died observed) other) ?_
    exact not_owner_of_owner (by rw [hword.2, hknows]) hother
  · exact hsound.exitLoadStep hfree

theorem Sound.exitWakeStep (hsound : s.Sound ids) (hphase : s.phase task = .exitWake key) :
    (s.exitWakeStep task key).Sound ids := by
  have hfree := free_of_phase hphase rfl
  rw [FutexConfig.exitWakeStep]
  split
  · exact hsound.pass hfree rfl trivial
  · next waiter rest htable =>
    have hperm : (s.table key).Perm (waiter :: rest) := by rw [htable]
    have hword : (s.setQueue key rest).setWord key (s.word key) = s.setQueue key rest := by
      simp [FutexConfig.setWord, setQueue]
    have hnext : (((s.setQueue key rest).setWord key (s.word key)).setPhase task
        (.exitDeliver waiter.task)).Sound ids :=
      hsound.handOver hperm (holding_of_phase hphase rfl)
        rfl trivial fun _ _ _ => Iff.rfl
    rw [hword] at hnext
    exact hnext

/-! ## Results of the calls -/

/-- The result of a call which has waited agrees with the word. -/
def ResultsAgree (ids : ThreadIds τ) (config : FutexConfig κ τ timers) : Prop :=
  ∀ task key result, config.phase task = .returned key true result →
    match result with
    | .ok _ => tidField (config.word key) = ids.word task
    | .error .timedOut => tidField (config.word key) ≠ ids.word task
    | .error .interrupted => tidField (config.word key) ≠ ids.word task
    | .error _ => True

def stillQueued (config : FutexConfig κ τ timers) (task : τ) : Bool :=
  match config.phase task with
  | .lockLeave call false => config.listed task call.key != 0
  | .waitLeave call => config.listed task call.key != 0 || config.listed task call.target != 0
  | _ => true

/-- An interrupted waiter removes itself while it is still queued, and no task
waits to be requeued to a word it owns. -/
def Orderly (ids : ThreadIds τ) (config : FutexConfig κ τ timers) : FutexStep κ τ timers → Prop
  | .advance task _ _ => config.stillQueued task = true
  | .waitRequeuePi task call => tidField (config.word call.target) ≠ ids.word task
  | _ => True

instance (ids : ThreadIds τ) (config : FutexConfig κ τ timers) (step : FutexStep κ τ timers) :
    Decidable (config.Orderly ids step) := by
  unfold Orderly
  cases step <;> infer_instance

omit [DecidableEq κ] [DecidableEq τ] in
theorem eq_of_whenFree {result : FutexConfig κ τ timers}
    (hstep : s.whenFree result = some s') : s' = result := by
  rw [whenFree] at hstep
  split at hstep
  · exact (Option.some.inj hstep).symm
  · simp at hstep

theorem Sound.advance {task : τ} {now : ℕ} {spurious : Bool} (hsound : s.Sound ids)
    (horderly : s.Orderly ids (.advance task now spurious))
    (hstep : s.advance ids task now spurious = some s') : s'.Sound ids := by
  have hqueued : s.stillQueued task = true := horderly
  rw [stillQueued] at hqueued
  rw [FutexConfig.advance] at hstep
  generalize hphase : s.phase task = phase at hqueued hstep
  cases phase with
  | idle | returned key enqueued result | exiting => cases hstep
  | lockLoad call =>
    cases hstep
    exact hsound.lockLoadStep hphase
  | lockAcquire call =>
    obtain rfl := eq_of_whenFree hstep
    exact hsound.lockAcquireStep hphase
  | lockExchange call observed =>
    cases hstep
    exact hsound.lockExchangeStep hphase
  | lockWaiters call observed =>
    cases hstep
    exact hsound.lockWaitersStep hphase
  | lockReset call owner =>
    cases hstep
    have hknows : owner ≠ ids.word task := hsound.knows_of_phase hphase
    exact hsound.resetFlags (free_of_phase hphase rfl) rfl hknows
      (by simp) rfl
  | lockEnqueue call owner =>
    obtain rfl := eq_of_whenFree hstep
    exact hsound.lockEnqueueStep hphase
  | lockWait call =>
    exact hsound.lockWaitStep hphase hstep
  | lockWoken call =>
    cases hstep
    exact hsound.lockWokenStep hphase
  | lockLeave call timedOut =>
    obtain rfl := eq_of_whenFree hstep
    refine hsound.lockLeaveStep hphase ?_
    rintro rfl
    simpa using hqueued
  | unlockLoad key =>
    obtain rfl := eq_of_whenFree hstep
    exact hsound.unlockLoadStep hphase
  | unlockExchange key observed =>
    cases hstep
    exact hsound.unlockExchangeStep hphase
  | unlockWake key waiter | requeueWake call moved waiter | exitDeliver waiter =>
    cases hstep
    exact hsound.wakeWaiter (holding_of_phase hphase rfl)
      rfl trivial
  | waitLoad call =>
    cases hstep
    exact hsound.waitLoadStep hphase
  | waitReset call =>
    cases hstep
    refine hsound.resetFlags (free_of_phase hphase rfl) rfl trivial ?_ rfl
    intro key hkey
    cases hkey
    exact hsound.not_owns_of_shuns hphase rfl
  | waitEnqueue call =>
    obtain rfl := eq_of_whenFree hstep
    exact hsound.waitEnqueueStep hphase
  | waitWait call =>
    exact hsound.waitWaitStep hphase hstep
  | waitCheck call =>
    cases hstep
    exact hsound.waitCheckStep hphase
  | waitLeave call =>
    obtain rfl := eq_of_whenFree hstep
    rcases (Bool.or_eq_true _ _).mp hqueued with hlisted | hlisted
    · exact hsound.waitLeaveStep hphase (bne_iff_ne.mp hlisted)
    · exact hsound.waitLeaveStep hphase (bne_iff_ne.mp hlisted)
  | requeueMove call =>
    obtain rfl := eq_of_whenFree hstep
    exact hsound.requeueMoveStep hphase
  | requeueLoad call moved =>
    exact hsound.requeueLoadStep hphase hstep
  | requeueExchange call moved observed waiter =>
    cases hstep
    exact hsound.requeueExchangeStep hphase
  | requeueMark call moved owner acquired =>
    cases hstep
    exact hsound.requeueMarkStep hphase
  | exitLoad key =>
    cases hstep
    exact hsound.exitLoadStep (free_of_phase hphase rfl)
  | exitExchange key observed =>
    cases hstep
    exact hsound.exitExchangeStep hphase
  | exitWake key =>
    obtain rfl := eq_of_whenFree hstep
    exact hsound.exitWakeStep hphase

omit [DecidableEq κ] in
theorem Sound.start {task : τ} {phase : Phase κ τ} (hsound : s.Sound ids)
    (hstep : s.start task phase = some s') (hnext : phase.Free)
    (hknows : phase.Knows (ids.word task)) (hkeeps : phase.keeps = none)
    (hshuns : ∀ key, phase.shuns = some key → ¬s.Owns ids task key) : s'.Sound ids := by
  unfold FutexConfig.start at hstep
  split at hstep <;> cases hstep
  · next hphase =>
    exact hsound.move (free_of_phase hphase rfl) hnext hknows hshuns (by simp [hkeeps])
  · next hphase =>
    exact hsound.move (free_of_phase hphase rfl) hnext hknows hshuns (by simp [hkeeps])

theorem Sound.next
    {step : FutexStep κ τ timers} (hsound : s.Sound ids) (horderly : s.Orderly ids step)
    (hstep : s.next ids step = some s') : s'.Sound ids := by
  cases step with
  | lockPi task key deadline tryOnly | cmpRequeuePi task nrWake call =>
    rw [FutexConfig.next] at hstep
    split at hstep
    · exact hsound.start hstep rfl trivial rfl (by simp)
    · exact hsound.start hstep rfl trivial rfl (by simp)
  | unlockPi task key =>
    exact hsound.start hstep rfl trivial rfl (by simp)
  | waitRequeuePi task call =>
    rw [FutexConfig.next] at hstep
    split at hstep
    · exact hsound.start hstep rfl trivial rfl (by simp)
    · refine hsound.start hstep rfl trivial rfl ?_
      intro key hkey
      cases hkey
      exact horderly
  | exit task key =>
    simp only [FutexConfig.next] at hstep
    split at hstep
    · next hphase =>
      cases hstep
      exact hsound.pass (free_of_phase hphase rfl) rfl trivial
    · exact hsound.start hstep rfl trivial rfl (by simp)
  | advance task now spurious => exact hsound.advance horderly hstep
  | signal task =>
    cases hstep
    refine ⟨fun other => ?_, hsound.knows⟩
    by_cases hother : other = task
    · subst other
      rw [standing_setFlags_self]
      exact hsound.stands task
    · rw [standing_setFlags_of_ne hother]
      exact hsound.stands other
  | setPriority task priority =>
    cases hstep
    exact ⟨hsound.stands, hsound.knows⟩
  | expire timer key index now =>
    rw [FutexConfig.next, expireStep] at hstep
    split at hstep
    · next waiter hexpiring hwaiter =>
      split at hstep
      · obtain rfl := eq_of_whenFree hstep
        obtain ⟨hindex, hget⟩ := List.getElem?_eq_some_iff.mp hwaiter
        refine hsound.expireWaiter ?_ hexpiring
        rw [← hget]
        exact (List.getElem_cons_eraseIdx_perm hindex).symm
      · simp at hstep
    · simp at hstep
  | deliver timer =>
    rw [FutexConfig.next, deliverStep] at hstep
    split at hstep <;> cases hstep
    next waiter hexpiring => exact hsound.deliverTimeout hexpiring

omit [DecidableEq κ] in
theorem sound_boot (ids : ThreadIds τ) (words : κ → Word) :
    (boot timers words : FutexConfig κ τ timers).Sound ids where
  stands task := ⟨.none, {
    listed := fun key => .inr ⟨by simp, rfl⟩
    claimed := by
      intro carrier
      cases carrier with
      | task other => simp [claims, Phase.claims]
      | timer index => simp [claims]
    granted := by
      intro carrier
      cases carrier with
      | task other => simp [grants, Phase.grants]
      | timer index => simp [grants]
    woken := by simp
    timedOut := by simp
    waits := fun hne => absurd rfl hne
    refused := fun hrefused => hrefused.elim
    shuns := by simp
    keeps := by simp [Phase.keeps] }⟩
  knows _ := trivial

omit [DecidableEq κ] in
theorem Sound.resultsAgree (hsound : s.Sound ids) : s.ResultsAgree ids := by
  intro task key result hphase
  have hstands := hsound.stands task
  cases result with
  | ok count =>
    obtain ⟨token, hholds⟩ := hstands
    exact hholds.keeps key (by rw [standing, hphase]; rfl)
  | error error =>
    cases error with
    | timedOut | interrupted => exact hsound.not_owns_of_shuns hphase rfl
    | _ => trivial

/-- In every orderly run of any number of tasks and timers, the results of the
calls which have waited agree with the words. -/
theorem resultsAgree_of_reachable
    (ids : ThreadIds τ) (words : κ → Word) {config : FutexConfig κ τ timers}
    (hreach : Reachable (next ids) (Orderly ids) (boot timers words) config) :
    config.ResultsAgree ids := by
  have hsound : config.Sound ids :=
    hreach.invariant (sound_boot ids words) fun _ _ _ hsound horderly hstep =>
      hsound.next horderly hstep
  exact hsound.resultsAgree

def twoThreads : ThreadIds (Fin 2) where
  tid task := task.val + 1
  injective := by
    intro first second hsame
    ext
    simpa using hsame
  pos _ := Nat.succ_pos _
  small task := by
    have hmask : futexTidMask.toNat = 2 ^ 30 - 1 := by decide
    omega

def waitingRun : List (FutexStep Unit (Fin 2) 1) :=
  [.lockPi i₀ () none false] ++ List.replicate 3 (.advance i₀ 0 false) ++
    [.lockPi i₁ () none false] ++ List.replicate 4 (.advance i₁ 0 false)

def handedRun : List (FutexStep Unit (Fin 2) 1) :=
  waitingRun ++ [.unlockPi i₀ ()] ++ List.replicate 3 (.advance i₀ 0 false) ++
    List.replicate 2 (.advance i₁ 0 false)

theorem resultsAgree_after_handedRun : ∃ config : FutexConfig Unit (Fin 2) 1,
      Reachable (next twoThreads) (Orderly twoThreads) (boot 1 fun _ => 0) config ∧
        config.phase 1 = .returned () true (.ok 0) ∧ config.ResultsAgree twoThreads := by
  refine (exists_reachable_of_runSteps handedRun ?_).imp fun config ⟨hreach, hphase⟩ =>
    ⟨hreach, hphase, resultsAgree_of_reachable twoThreads (fun _ => 0) hreach⟩
  decide +kernel

/-- The word is handed to the second task, and a signal arrives before the
wake-up does. -/
def interruptedRun : List (FutexStep Unit (Fin 2) 1) :=
  waitingRun ++ [.unlockPi i₀ ()] ++ List.replicate 2 (.advance i₀ 0 false) ++ [.signal i₁] ++
    List.replicate 2 (.advance i₁ 0 false)

theorem not_resultsAgree_of_interruptedRun : ¬ ∀ config : FutexConfig Unit (Fin 2) 1,
      Reachable (next twoThreads) always (boot 1 fun _ => 0) config →
        config.ResultsAgree twoThreads := by
  intro hagree
  obtain ⟨config, hreach, hphase, hword⟩ : ∃ config : FutexConfig Unit (Fin 2) 1,
      Reachable (next twoThreads) always (boot 1 fun _ => 0) config ∧
        config.phase 1 = .returned () true (.error .interrupted) ∧
          tidField (config.word ()) = twoThreads.word 1 :=
    exists_reachable_of_runSteps interruptedRun (by decide +kernel)
  exact hagree config hreach 1 () _ hphase hword

/-! ## Refused unlocks -/

/-- A refused unlock leaves the queues and the owners, and the word to user code. -/
def RefusalKeeps (ids : ThreadIds τ) (config : FutexConfig κ τ timers) (task : τ) (key : κ)
    (store : Option Word) : Prop :=
  let after := config.unlockSection ids task key store
  ∀ error, after.phase task = .returned key false (.error error) →
    after.table = config.table ∧ after.piOwner = config.piOwner ∧
      after.word = update config.word key (store.getD (config.word key))

omit [DecidableEq κ] [DecidableEq τ] in
theorem takeBest_eq_none {priority : τ → ℤ} {queue : List (FutexWaiter κ τ)}
    (hbest : takeBest priority queue = none) : queue = [] := by
  cases queue with
  | nil => rfl
  | cons waiter rest =>
    rw [takeBest] at hbest
    split at hbest
    · simp at hbest
    · split_ifs at hbest

theorem refusalKeeps_iff (ids : ThreadIds τ) (config : FutexConfig κ τ timers) (task : τ) (key : κ)
    (store : Option Word) :
    config.RefusalKeeps ids task key store ↔ tidField (config.word key) ≠ ids.word task ∨
      store.getD (config.word key) = config.word key ∨ config.table key = [] := by
  by_cases howner : tidField (config.word key) = ids.word task
  swap
  · have hload : config.unlockLoadStep ids task key = config.fail task key false .notPermitted :=
      if_pos howner
    exact iff_of_true (by simp [RefusalKeeps, unlockSection, hload, fail, setWord]) (.inl howner)
  have hload : config.unlockLoadStep ids task key =
      (config.setLock (some task)).setPhase task (.unlockExchange key (config.word key)) :=
    if_neg (not_not.mpr howner)
  simp only [RefusalKeeps, unlockSection, hload, setLock, setWord, setPhase, update_self, howner,
    ne_eq, not_true, false_or]
  cases hbest : takeBest config.priority (config.table key) with
  | none =>
    refine iff_of_true (fun error hphase => ?_) (.inr (takeBest_eq_none hbest))
    simp only [unlockExchangeStep, hbest] at hphase ⊢
    split_ifs at hphase ⊢
    · simp at hphase
    · exact ⟨rfl, rfl, rfl⟩
  | some best =>
    -- The waiter has left the queue before the exchange is tried.
    have hperm := takeBest_perm hbest
    have hqueue : config.table key ≠ [] := fun hempty => by simp [hempty, takeBest] at hbest
    by_cases hword : store.getD (config.word key) = config.word key
    · simp [unlockExchangeStep, hbest, hword]
    · have hshorter : best.2 ≠ config.table key := fun hsame => by
        simpa [hsame] using hperm.length_eq
      simp only [unlockExchangeStep, hbest, hword, hqueue, update_self, if_false, fail, setQueue,
        setLock, setPhase]
      refine iff_of_false (fun hkeeps => ?_) (by simp)
      have htable := congrFun (hkeeps _ rfl).1 key
      rw [update_self] at htable
      exact hshorter htable

/-- The caller is not the owner, and user code stores to the word with a waiter queued. -/
theorem refusalKeeps_of_waiter : ∃ config : FutexConfig Unit (Fin 2) 1,
    Reachable (next twoThreads) always (boot 1 fun _ => 0) config ∧ config.table () ≠ [] ∧
      (config.unlockSection twoThreads 1 () (some 1)).phase 1 =
        .returned () false (.error .notPermitted) ∧
      config.word () ≠ 1 ∧ config.RefusalKeeps twoThreads 1 () (some 1) := by
  obtain ⟨config, hreach, howner, hqueue, hphase, hword⟩ : ∃ config : FutexConfig Unit (Fin 2) 1,
      Reachable (next twoThreads) always (boot 1 fun _ => 0) config ∧
        tidField (config.word ()) ≠ twoThreads.word 1 ∧ config.table () ≠ [] ∧
        (config.unlockSection twoThreads 1 () (some 1)).phase 1 =
          .returned () false (.error .notPermitted) ∧ config.word () ≠ 1 :=
    exists_reachable_of_runSteps waitingRun (by decide +kernel)
  exact ⟨config, hreach, hqueue, hphase, hword, (refusalKeeps_iff _ _ _ _ _).mpr (.inl howner)⟩

/-- The exchange of the owner fails, and the waiter taken for it is lost. -/
theorem not_refusalKeeps_of_waiter : ¬ ∀ config : FutexConfig Unit (Fin 2) 1,
      Reachable (next twoThreads) always (boot 1 fun _ => 0) config →
        ∀ store, config.RefusalKeeps twoThreads 0 () store := by
  intro hkeeps
  obtain ⟨config, hreach, hphase, hqueue⟩ : ∃ config : FutexConfig Unit (Fin 2) 1,
      Reachable (next twoThreads) always (boot 1 fun _ => 0) config ∧
        (config.unlockSection twoThreads 0 () (some 1)).phase 0 =
          .returned () false (.error .again) ∧
        (config.unlockSection twoThreads 0 () (some 1)).table () ≠ config.table () :=
    exists_reachable_of_runSteps waitingRun (by decide +kernel)
  exact hqueue (congrFun (hkeeps config hreach (some 1) _ hphase).1 ())

end FutexConfig

end Kairix.Futex
