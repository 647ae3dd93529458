import Kairix.PiFutexTokens
import Kairix.LabelledRun

/-!
# Steps of futex waiters

Every step of an orderly run keeps all tasks sound: a step of a task moves the
token of at most one waiter.
-/

namespace Kairix.Futex

open Function HandoffTokens List

variable {κ τ : Type*} {timers : ℕ} {ids : ThreadIds τ}

namespace Phase

variable {phase : Phase κ τ}

def Free (phase : Phase κ τ) : Prop :=
  (phase.waits, phase.claims, phase.grants) = (none, none, none)

theorem Free.waits (hfree : phase.Free) : phase.waits = none := congrArg Prod.fst hfree

theorem Free.claims (hfree : phase.Free) : phase.claims = none := congrArg (·.2.1) hfree

theorem Free.grants (hfree : phase.Free) : phase.grants = none := congrArg (·.2.2) hfree

def Plain (phase : Phase κ τ) : Prop := phase.Ties none none

theorem Plain.free (hplain : phase.Plain) : phase.Free := by
  rw [Free, hplain.waits, hplain.claims, hplain.grants]

theorem Plain.holding (hplain : phase.Plain) (waiter : τ) : phase.Holding waiter .nothing := hplain

variable {key : κ} {enqueued : Bool}

theorem plain_returned_error {error : FutexError} (htimedOut : error ≠ .timedOut)
    (hinterrupted : error ≠ .interrupted) :
    (Phase.returned key enqueued (.error error) : Phase κ τ).Plain := by
  cases enqueued with
  | false => rfl
  | true =>
    cases error with
    | timedOut => exact absurd rfl htimedOut
    | interrupted => exact absurd rfl hinterrupted
    | _ => rfl

theorem shuns_returned {other : κ} {result : FutexResult}
    (hshuns : (Phase.returned key enqueued result : Phase κ τ).shuns = some other) :
    other = key := by
  cases enqueued with
  | false => exact absurd hshuns (by simp [shuns])
  | true =>
    cases result with
    | ok count => exact absurd hshuns (by simp [shuns])
    | error error =>
      cases error with
      | timedOut | interrupted => exact (Option.some.inj hshuns).symm
      | _ => exact absurd hshuns (by simp [shuns])

theorem keeps_returned {other : κ} {result : FutexResult}
    (hkeeps : (Phase.returned key enqueued result : Phase κ τ).keeps = some other) :
    other = key := by
  cases enqueued with
  | false => exact absurd hkeeps (by simp [keeps])
  | true =>
    cases result with
    | ok count => exact (Option.some.inj hkeeps).symm
    | error error => exact absurd hkeeps (by simp [keeps])

theorem shuns_returned_ok {count : ℕ} :
    (Phase.returned key enqueued (.ok count) : Phase κ τ).shuns = none := by
  cases enqueued with
  | false => rfl
  | true => rfl

end Phase

namespace FutexConfig

section Observers

variable [DecidableEq τ]

variable {s s' : FutexConfig κ τ timers} {task other : τ} {phase : Phase κ τ} {key : κ}

/-! ## Steps of one task -/

section

variable (hsound : s.Sound ids)
include hsound

theorem Sound.handle (hphases : ∀ other, other ≠ task → s'.phase other = s.phase other)
    (hothers : ∀ other, other ≠ task → (s'.standing ids other).Sound)
    (hself : (s'.standing ids task).Sound) (hknows : (s'.phase task).Knows (ids.word task)) :
    s'.Sound ids where
  stands other := by
    by_cases hother : other = task
    · rw [hother]
      exact hself
    · exact hothers other hother
  knows other := by
    by_cases hother : other = task
    · rw [hother]
      exact hknows
    · rw [hphases other hother]
      exact hsound.knows other

/-- Parts of the state other than the phases change, and then the task goes on. -/
theorem Sound.goOn {changed : FutexConfig κ τ timers} (hphases : changed.phase = s.phase)
    (hclaims : phase.claims = (s.phase task).claims)
    (hgrants : phase.grants = (s.phase task).grants) (hknows : phase.Knows (ids.word task))
    (hothers : ∀ other, other ≠ task → changed.standing ids other = s.standing ids other)
    (hself : { changed.standing ids task with
      waits := phase.waits, shuns := phase.shuns, keeps := phase.keeps }.Sound) :
    (changed.setPhase task phase).Sound ids := by
  rw [← hphases] at hclaims hgrants
  refine hsound.handle (fun other (hother : other ≠ task) => ?_) (fun other hother => ?_) ?_ ?_
  · rw [phase_setPhase_of_ne hother, hphases]
  · rw [standing_setPhase_of_ne (by rw [hclaims]) (by rw [hgrants]) hother, hothers other hother]
    exact hsound.stands other
  · rw [standing_setPhase_self (by rw [hclaims]) (by rw [hgrants])]
    exact hself
  · rw [phase_setPhase_self]
    exact hknows

/-- The task goes on, and takes or gives away the token of one waiter. -/
theorem Sound.carry [DecidableEq κ] {changed : FutexConfig κ τ timers} {waiter : τ}
    {hold hold' : Hold} (hphases : changed.phase = s.phase) (hne : waiter ≠ task)
    (hbefore : (s.phase task).Holding waiter hold) (hafter : phase.Holding waiter hold')
    (hknows : phase.Knows (ids.word task))
    (hself : ∃ owned, changed.standing ids task = { s.standing ids task with owned := owned })
    (hothers : ∀ other, other ≠ task → other ≠ waiter →
      changed.standing ids other = s.standing ids other)
    (hwaiter : (((changed.standing ids waiter).without (hold.token (.task task))).holding
      (hold'.token (.task task))).Sound) :
    (changed.setPhase task phase).Sound ids := by
  have hwaits := hbefore.waits
  rw [← hphases] at hbefore
  have hclaims (other : τ) (hother : other ≠ waiter) :
      phase.claims = some other ↔ (changed.phase task).claims = some other := by
    rw [hafter.claims, hbefore.claims]
    cases hold <;> cases hold' <;> simp [Hold.claimed, hother.symm]
  have hgrants (other : τ) (hother : other ≠ waiter) :
      phase.grants = some other ↔ (changed.phase task).grants = some other := by
    rw [hafter.grants, hbefore.grants]
    cases hold <;> cases hold' <;> simp [Hold.granted, hother.symm]
  refine hsound.handle (fun other (hother : other ≠ task) => ?_) (fun other hother => ?_) ?_ ?_
  · rw [phase_setPhase_of_ne hother, hphases]
  · by_cases hsame : other = waiter
    · rw [hsame, standing_setPhase hne hbefore hafter]
      exact hwaiter
    · rw [standing_setPhase_of_ne (hclaims other hsame) (hgrants other hsame) hother,
        hothers other hother hsame]
      exact hsound.stands other
  · obtain ⟨owned, hself⟩ := hself
    rw [standing_setPhase_self (hclaims task hne.symm) (hgrants task hne.symm), hself]
    exact (hsound.stands task).rest hwaits _ _ _ _ (by simp [hafter.shuns]) (by simp [hafter.keeps])
  · rw [phase_setPhase_self]
    exact hknows

/-- A waiter neither shuns nor keeps a key, so it may be made an owner. -/
theorem Sound.grant [DecidableEq κ] {waiter : τ} (token : Token κ (Carrier τ timers))
    (hat : (s.standing ids waiter).At token) (htoken : token ≠ .none) (owned : κ → Prop) :
    { ((s.standing ids waiter).without token).holding (.granted (.task task)) with
      owned := owned }.Sound := by
  have hwaits := ((hsound.stands waiter).holds token hat).waits htoken
  have hshuns : (s.standing ids waiter).shuns = none := Phase.shuns_of_waits hwaits
  have hkeeps : (s.standing ids waiter).keeps = none := Phase.keeps_of_waits hwaits
  cases token <;>
    exact (hsound.stands waiter).pass _ (.granted (.task task)) hat (fun _ => hwaits) False.elim
      (fun _ hkey => nomatch hshuns.symm.trans hkey) fun _ hkey => nomatch hkeeps.symm.trans hkey

theorem Sound.shift (hwaits : (s.phase task).waits = none)
    (hclaims : phase.claims = (s.phase task).claims)
    (hgrants : phase.grants = (s.phase task).grants) (hknows : phase.Knows (ids.word task))
    (hshuns : ∀ key, phase.shuns = some key → ¬s.Owns ids task key)
    (hkeeps : ∀ key, phase.keeps = some key → s.Owns ids task key) :
    (s.setPhase task phase).Sound ids :=
  hsound.goOn rfl hclaims hgrants hknows (fun _ _ => rfl)
    ((hsound.stands task).rest hwaits _ _ _ _ hshuns hkeeps)

theorem Sound.move (hfree : (s.phase task).Free)
    (hnext : phase.Free) (hknows : phase.Knows (ids.word task))
    (hshuns : ∀ key, phase.shuns = some key → ¬s.Owns ids task key)
    (hkeeps : ∀ key, phase.keeps = some key → s.Owns ids task key) :
    (s.setPhase task phase).Sound ids :=
  hsound.shift hfree.waits (hnext.claims.trans hfree.claims.symm)
    (hnext.grants.trans hfree.grants.symm) hknows hshuns hkeeps

theorem Sound.pass (hfree : (s.phase task).Free) (hplain : phase.Plain)
    (hknows : phase.Knows (ids.word task)) : (s.setPhase task phase).Sound ids := by
  refine hsound.move hfree hplain.free hknows ?_ ?_
  · simp [hplain.shuns]
  · simp [hplain.keeps]

theorem Sound.setLock (owner : Option τ) : (s.setLock owner).Sound ids :=
  ⟨hsound.stands, hsound.knows⟩

end

variable {enqueued : Bool}

variable (hsound : s.Sound ids)
include hsound

theorem Sound.refuse {error : FutexError} (hfree : (s.phase task).Free)
    (htimedOut : error ≠ .timedOut) (hinterrupted : error ≠ .interrupted) :
    (s.fail task key enqueued error).Sound ids :=
  hsound.pass hfree (Phase.plain_returned_error htimedOut hinterrupted) trivial

theorem Sound.giveUp {error : FutexError} (hfree : (s.phase task).Free)
    (howns : ¬s.Owns ids task key) : (s.fail task key enqueued error).Sound ids := by
  refine hsound.move hfree rfl trivial ?_ ?_
  · intro other hother
    rw [Phase.shuns_returned hother]
    exact howns
  · cases enqueued <;> simp [Phase.keeps]

theorem Sound.succeed {count : ℕ} (hfree : (s.phase task).Free) (howns : s.Owns ids task key) :
    (s.setPhase task (.returned key enqueued (.ok count))).Sound ids := by
  refine hsound.move hfree rfl trivial ?_ ?_
  · simp [Phase.shuns_returned_ok]
  · intro other hother
    rw [Phase.keeps_returned hother]
    exact howns

theorem Sound.setFlags {flags : WaitFlags} (hclaims : phase.claims = (s.phase task).claims)
    (hgrants : phase.grants = (s.phase task).grants) (hknows : phase.Knows (ids.word task))
    (hself : { s.standing ids task with
      woken := flags.woken, timedOut := flags.timedOut
      waits := phase.waits, shuns := phase.shuns, keeps := phase.keeps }.Sound) :
    ((s.setFlags task flags).setPhase task phase).Sound ids := by
  refine hsound.goOn rfl hclaims hgrants hknows (fun _ => standing_setFlags_of_ne) ?_
  rw [standing_setFlags_self]
  exact hself

theorem Sound.wakeWaiter [DecidableEq κ] {waiter : τ}
    (hbefore : (s.phase task).Holding waiter .grant) (hplain : phase.Plain)
    (hknows : phase.Knows (ids.word task)) :
    ((s.wakeWaiter waiter).setPhase task phase).Sound ids := by
  have hholds : (s.standing ids waiter).granted (.task task) := hbefore.grants
  have hne : waiter ≠ task := by
    rintro rfl
    exact ((hsound.stands waiter).holds (.granted _) hholds).waits (by simp) hbefore.waits
  refine hsound.carry rfl hne hbefore (hplain.holding waiter) hknows
    ⟨_, standing_setFlags_of_ne hne.symm⟩ (fun other _ => standing_setFlags_of_ne) ?_
  rw [FutexConfig.wakeWaiter, standing_setFlags_self]
  exact (hsound.stands waiter).carry (.granted _) .woken hholds (by simp) False.elim

end Observers

variable [DecidableEq κ] [DecidableEq τ]

variable {s s' : FutexConfig κ τ timers} {task : τ} {phase : Phase κ τ} {key : κ}

theorem Sound.setOwner (hsound : s.Sound ids) (key : κ) (owner : Option Word) :
    (s.setOwner key owner).Sound ids :=
  ⟨hsound.stands, hsound.knows⟩

theorem Sound.setWord {word : Word} (hsound : s.Sound ids)
    (hword : tidField word = tidField (s.word key)) : (s.setWord key word).Sound ids where
  stands other := by
    rw [standing_setWord_of_iff (by rw [hword, Owns])]
    exact hsound.stands other
  knows := hsound.knows

theorem Sound.exchange {word : Word} (hsound : s.Sound ids) (hfree : (s.phase task).Free)
    (hnext : phase.Free) (hknows : phase.Knows (ids.word task))
    (hothers : ∀ other, other ≠ task → (tidField word = ids.word other ↔ s.Owns ids other key))
    (hshuns : ∀ other, phase.shuns = some other → ¬(s.setWord key word).Owns ids task other)
    (hkeeps : ∀ other, phase.keeps = some other → (s.setWord key word).Owns ids task other) :
    ((s.setWord key word).setPhase task phase).Sound ids :=
  hsound.goOn rfl (hnext.claims.trans hfree.claims.symm) (hnext.grants.trans hfree.grants.symm)
    hknows (fun other hother => standing_setWord_of_iff (hothers other hother))
    ((hsound.stands task).rest hfree.waits _ _ _ _ hshuns hkeeps)

/-! ## Queues -/

omit [DecidableEq κ] [DecidableEq τ] in
theorem takeBest_perm {priority : τ → ℤ} {queue rest : List (FutexWaiter κ τ)}
    {waiter : FutexWaiter κ τ} (hbest : takeBest priority queue = some (waiter, rest)) :
    queue.Perm (waiter :: rest) := by
  induction queue generalizing waiter rest with
  | nil => simp [takeBest] at hbest
  | cons first tail ih =>
    rw [takeBest] at hbest
    split at hbest
    · next hnone =>
      obtain ⟨rfl, rfl⟩ : first = waiter ∧ [] = rest := by simpa using hbest
      cases tail with
      | nil => rfl
      | cons second tail =>
        rw [takeBest] at hnone
        split at hnone
        · simp at hnone
        · split at hnone
          · simp at hnone
          · simp at hnone
    · next best others hsome =>
      split at hbest
      · obtain ⟨rfl, rfl⟩ : best = waiter ∧ first :: others = rest := by simpa using hbest
        exact ((ih hsome).cons first).trans (Perm.swap best first others)
      · obtain ⟨rfl, rfl⟩ : first = waiter ∧ tail = rest := by simpa using hbest
        rfl

section Dequeue

variable {waiter : FutexWaiter κ τ} {rest : List (FutexWaiter κ τ)}
  (hperm : (s.table key).Perm (waiter :: rest))

include hperm

omit [DecidableEq κ] in
theorem listed_of_perm : s.listed waiter.task key ≠ 0 := by
  rw [listed, hperm.countP_eq, countP_cons_of_pos (by simp)]
  simp

omit [DecidableEq κ] in
theorem ne_of_perm (hsound : s.Sound ids) (hwaits : (s.phase task).waits = none) :
    waiter.task ≠ task := by
  intro htask
  have hlisted := listed_of_perm hperm
  rw [htask] at hlisted
  exact hlisted ((hsound.stands task).not_listed hwaits key)

theorem standing_dequeue_self : (s.setQueue key rest).standing ids waiter.task =
      { s.standing ids waiter.task with
        listed := update (s.standing ids waiter.task).listed key
          ((s.standing ids waiter.task).listed key - 1) } := by
  have hcount : (rest.countP fun entry => entry.task = waiter.task) =
      s.listed waiter.task key - 1 := by
    rw [listed, hperm.countP_eq, countP_cons_of_pos (by simp)]
    simp
  rw [standing_setQueue, hcount]
  rfl

theorem standing_dequeue_of_ne {other : τ} (hother : other ≠ waiter.task) :
    (s.setQueue key rest).standing ids other = s.standing ids other := by
  apply standing_setQueue_of_countP
  rw [listed, hperm.countP_eq, countP_cons_of_neg (by simpa using Ne.symm hother)]

theorem Sound.handOver {word : Word} (hsound : s.Sound ids)
    (hbefore : (s.phase task).Holding waiter.task .nothing)
    (hnext : phase.Holding waiter.task .grant) (hknows : phase.Knows (ids.word task))
    (hothers : ∀ other, other ≠ task → other ≠ waiter.task →
      (tidField word = ids.word other ↔ s.Owns ids other key)) :
    (((s.setQueue key rest).setWord key word).setPhase task phase).Sound ids := by
  have hne := ne_of_perm hperm hsound hbefore.waits
  have hlisted : (s.standing ids waiter.task).listed key ≠ 0 := listed_of_perm hperm
  refine hsound.carry rfl hne hbefore hnext hknows
    ⟨((s.setQueue key rest).setWord key word).Owns ids task, ?_⟩
    (fun other hother htask => ?_) ?_
  · rw [standing_setWord, standing_dequeue_of_ne hperm hne.symm]
  · have hiff : tidField word = ids.word other ↔
        (s.setQueue key rest).Owns ids other key := hothers other hother htask
    rw [standing_setWord_of_iff hiff, standing_dequeue_of_ne hperm htask]
  · rw [standing_setWord, standing_dequeue_self hperm]
    exact hsound.grant (.listed key) hlisted (by simp) _

theorem Sound.dropWaiter (hsound : s.Sound ids) : (s.setQueue key rest).Sound ids where
  stands other := by
    by_cases htask : other = waiter.task
    · subst other
      rw [standing_dequeue_self hperm]
      exact (hsound.stands waiter.task).carry (.listed key) .none (listed_of_perm hperm)
        (fun hne => absurd rfl hne) False.elim
    · rw [standing_dequeue_of_ne hperm htask]
      exact hsound.stands other
  knows := hsound.knows

theorem Sound.claimWaiter (hsound : s.Sound ids)
    (hbefore : (s.phase task).Holding waiter.task .nothing)
    (hnext : phase.Holding waiter.task .claim) (hknows : phase.Knows (ids.word task)) :
    ((s.setQueue key rest).setPhase task phase).Sound ids := by
  have hne := ne_of_perm hperm hsound hbefore.waits
  refine hsound.carry rfl hne hbefore hnext hknows
    ⟨_, standing_dequeue_of_ne hperm hne.symm⟩ (fun other _ => standing_dequeue_of_ne hperm) ?_
  rw [standing_dequeue_self hperm]
  exact (hsound.stands waiter.task).carry (.listed key) (.claimed _) (listed_of_perm hperm)
    (by simp)
    fun _ => trivial

end Dequeue

section Claimed

variable {waiter : FutexWaiter κ τ} (hsound : s.Sound ids)
  (hbefore : (s.phase task).Holding waiter.task .claim)

include hsound hbefore

omit [DecidableEq κ] in
theorem ne_of_claimed : waiter.task ≠ task := by
  intro htask
  have hholds : (s.standing ids waiter.task).claimed (.task task) := hbefore.claims
  rw [htask] at hholds
  exact ((hsound.stands task).holds (.claimed _) hholds).waits (by simp) hbefore.waits

theorem Sound.promoteWaiter {word : Word} (hnext : phase.Holding waiter.task .grant)
    (hknows : phase.Knows (ids.word task))
    (hothers : ∀ other, other ≠ waiter.task →
      (tidField word = ids.word other ↔ s.Owns ids other key)) :
    ((s.setWord key word).setPhase task phase).Sound ids := by
  refine hsound.carry rfl (ne_of_claimed hsound hbefore) hbefore hnext hknows
    ⟨_, standing_setWord key word⟩
    (fun other _ htask => standing_setWord_of_iff (hothers other htask)) ?_
  have hholds : (s.standing ids waiter.task).claimed (.task task) := hbefore.claims
  exact hsound.grant (.claimed (.task task)) hholds (by simp) _

theorem Sound.relistWaiter (hplain : phase.Plain) (hknows : phase.Knows (ids.word task)) :
    ((s.setQueue key (waiter :: s.table key)).setPhase task phase).Sound ids := by
  have hne := ne_of_claimed hsound hbefore
  have hcount : ((waiter :: s.table key).countP fun entry => entry.task = waiter.task) =
      s.listed waiter.task key + 1 := countP_cons_of_pos (by simp)
  have hcount' (other : τ) (hother : other ≠ waiter.task) :
      ((waiter :: s.table key).countP fun entry => entry.task = other) =
        s.listed other key := countP_cons_of_neg (by simpa using Ne.symm hother)
  refine hsound.carry rfl hne hbefore (hplain.holding _) hknows
    ⟨_, standing_setQueue_of_countP (hcount' task hne.symm)⟩
    (fun other _ htask => standing_setQueue_of_countP (hcount' other htask)) ?_
  rw [standing_setQueue, hcount]
  exact (hsound.stands waiter.task).carry (.claimed _) (.listed key) hbefore.claims (by simp)
    fun _ => trivial

end Claimed

theorem Sound.enqueue {waiter : FutexWaiter κ τ} {target : κ} (hsound : s.Sound ids)
    (hfree : (s.phase task).Free) (htask : waiter.task = task)
    (hwaits : phase.waits = some target) (hclaims : phase.claims = none)
    (hgrants : phase.grants = none) (hknows : phase.Knows (ids.word task))
    (howns : ¬s.Owns ids task target) :
    ((s.setQueue key (s.table key ++ [waiter])).setPhase task phase).Sound ids := by
  refine hsound.goOn rfl (hclaims.trans hfree.claims.symm) (hgrants.trans hfree.grants.symm) hknows
    (fun other hother => standing_setQueue_of_countP ?_) ?_
  · simp [listed, htask, Ne.symm hother]
  · have hcount : ((s.table key ++ [waiter]).countP fun entry => entry.task = task) =
        s.listed task key + 1 := by simp [listed, htask]
    have hwaiter : phase.waits ≠ none := by simp [hwaits]
    rw [standing_setQueue, hcount, hwaits, Phase.shuns_of_waits hwaiter,
      Phase.keeps_of_waits hwaiter]
    refine (hsound.stands task).pass .none (.listed key) hfree.waits (by simp) ?_ (by simp)
      (by simp)
    intro _ other hother
    cases hother
    exact howns

section Tables

variable {table : κ → List (FutexWaiter κ τ)}

section

omit [DecidableEq κ]

theorem standing_table (other : τ) :
    { s with table := table }.standing ids other = { s.standing ids other with
      listed := fun key => (table key).countP fun waiter => waiter.task = other } := rfl

theorem standing_table_of_countP
    {other : τ} (hcount : ∀ key, (table key).countP (fun waiter => waiter.task = other) =
      s.listed other key) :
    { s with table := table }.standing ids other = s.standing ids other := by
  rw [standing_table, funext hcount]
  rfl

theorem Sound.leaveTable {target : κ} {error : FutexError} (hsound : s.Sound ids)
    (hwaits : (s.phase task).waits = some target) (hclaims : (s.phase task).claims = none)
    (hgrants : (s.phase task).grants = none) (hlisted : s.listed task key ≠ 0)
    (hothers : ∀ other, other ≠ task → ∀ key,
      (table key).countP (fun waiter => waiter.task = other) = s.listed other key)
    (hle : ∀ key, (table key).countP (fun waiter => waiter.task = task) ≤
      s.listed task key) (hkey : (table key).countP (fun waiter => waiter.task = task) = 0)
    (hshuns : (Phase.returned target true (.error error) : Phase κ τ).shuns = some target) :
    ({ s with table := table }.fail task target true error).Sound ids := by
  refine hsound.goOn rfl hclaims.symm hgrants.symm trivial
    (fun other hother => standing_table_of_countP (hothers other hother)) ?_
  rw [hshuns, ← hwaits, standing_table]
  exact (hsound.stands task).leave hlisted hle hkey

theorem Sound.clearTable (hsound : s.Sound ids) (hwaits : (s.phase task).waits = none)
    (hothers : ∀ other, other ≠ task → ∀ key,
      (table key).countP (fun waiter => waiter.task = other) = s.listed other key)
    (hle : ∀ key, (table key).countP (fun waiter => waiter.task = task) ≤ s.listed task key) :
    { s with table := table }.Sound ids where
  stands other := by
    have hcount : ∀ key, (table key).countP (fun waiter => waiter.task = other) =
        s.listed other key := by
      intro key
      by_cases hother : other = task
      · subst other
        have hzero : s.listed task key = 0 := (hsound.stands task).not_listed hwaits key
        have hbound := hle key
        omega
      · exact hothers other hother key
    rw [standing_table_of_countP hcount]
    exact hsound.stands other
  knows := hsound.knows

end

end Tables

omit [DecidableEq κ] in
theorem countP_removed (queue : List (FutexWaiter κ τ)) :
    ((queue.filter fun waiter => waiter.task ≠ task).countP
      fun waiter => waiter.task = task) = 0 := by
  rw [countP_eq_zero]
  intro waiter hwaiter
  simpa using (mem_filter.mp hwaiter).2

omit [DecidableEq κ] in
theorem countP_kept {other : τ} (hother : other ≠ task) (queue : List (FutexWaiter κ τ)) :
    ((queue.filter fun waiter => waiter.task ≠ task).countP
      fun waiter => waiter.task = other) = queue.countP fun waiter => waiter.task = other := by
  rw [countP_filter]
  apply countP_congr
  intro waiter _
  constructor
  · intro hboth
    simp only [Bool.and_eq_true, decide_eq_true_eq] at hboth
    simpa using hboth.1
  · intro hwaiter
    have htask : waiter.task = other := by simpa using hwaiter
    simp [htask, hother]

theorem countP_update_le (key place : κ) : (update s.table key
        ((s.table key).filter fun waiter => waiter.task ≠ task) place).countP
      (fun waiter => waiter.task = task) ≤ s.listed task place := by
  by_cases hplace : place = key
  · subst place
    rw [update_self, countP_removed]
    exact Nat.zero_le _
  · rw [update_of_ne hplace]
    rfl

theorem Sound.moveWaiters
    {left : FutexConfig κ τ timers} {target : κ} {limit : ℕ} (hsound : s.Sound ids)
    (hleft : left = s.setQueue key ((s.table key).drop limit)) :
    (left.setQueue target (left.table target ++ ((s.table key).take limit).map
      fun waiter => { waiter with piWaiter := true })).Sound ids where
  stands other := by
    have hsplit : ((s.table key).take limit).countP (fun waiter => waiter.task = other) +
        ((s.table key).drop limit).countP (fun waiter => waiter.task = other) =
          s.listed other key := by
      rw [← countP_append, take_append_drop]
      rfl
    have hmap : (((s.table key).take limit).map
          fun waiter => { waiter with piWaiter := true }).countP
          (fun waiter => waiter.task = other) =
        ((s.table key).take limit).countP (fun waiter => waiter.task = other) := by
      rw [countP_map]
      rfl
    have hqueue : left.listed other = update (s.listed other) key
        (((s.table key).drop limit).countP fun waiter => waiter.task = other) := by
      funext place
      rw [hleft, listed_setQueue]
    have hstanding : (left.setQueue target (left.table target ++ ((s.table key).take limit).map
          fun waiter => { waiter with piWaiter := true })).standing ids other =
        { s.standing ids other with
          listed := update (left.listed other) target
            (left.listed other target + ((s.table key).take limit).countP
              fun waiter => waiter.task = other) } := by
      rw [standing_setQueue, countP_append, hmap, hleft]
      rfl
    rw [hstanding]
    by_cases hmoved : ((s.table key).take limit).countP (fun waiter => waiter.task = other) = 0
    · have hsame : left.listed other = (s.standing ids other).listed := by
        rw [hqueue, show (((s.table key).drop limit).countP
          fun waiter => waiter.task = other) = s.listed other key by omega, update_eq_self]
        rfl
      rw [hmoved, Nat.add_zero, update_eq_self, hsame]
      exact hsound.stands other
    · have hlisted : (s.standing ids other).listed key ≠ 0 := by
        have hpart : s.listed other key ≠ 0 := by omega
        exact hpart
      have hone : s.listed other key = 1 :=
        ((hsound.stands other).holds (.listed key) hlisted).listed_self
      have htaken : ((s.table key).take limit).countP (fun waiter => waiter.task = other) = 1 := by
        omega
      have hleftover : ((s.table key).drop limit).countP (fun waiter => waiter.task = other) =
          s.listed other key - 1 := by omega
      rw [htaken, hqueue, hleftover]
      exact (hsound.stands other).carry (.listed key) (.listed target) hlisted (by simp)
        fun _ => trivial
  knows := by
    rw [hleft]
    exact hsound.knows

def setExpiring (config : FutexConfig κ τ timers) (timer : Fin timers) (expiring : Option τ) :
    FutexConfig κ τ timers :=
  { config with expiring := update config.expiring timer expiring }

section Timers

variable {other : τ} {timer : Fin timers} {expiring : Option τ}

attribute [local simp] carried setExpiring claims

omit [DecidableEq κ] [DecidableEq τ] in
theorem claims_setExpiring (carrier : Carrier τ timers) :
    (s.setExpiring timer expiring).claims carrier = some other ↔
      carrier = .timer timer ∧ expiring = some other ∨
        carrier ≠ .timer timer ∧ s.claims carrier = some other := by
  cases carrier with
  | task carrier => simp
  | timer index =>
    by_cases hindex : index = timer
    · subst index
      simp
    · simp [hindex]

omit [DecidableEq κ] in
theorem standing_setExpiring (other : τ) :
    (s.setExpiring timer expiring).standing ids other = { s.standing ids other with
      claimed := fun carrier => carrier = .timer timer ∧ expiring = some other ∨
        carrier ≠ .timer timer ∧ (s.standing ids other).claimed carrier } := by
  simp only [standing, claims_setExpiring]
  rfl

omit [DecidableEq κ] in
theorem standing_setExpiring_of_ne
    (hold : s.expiring timer ≠ some other) (hnew : expiring ≠ some other) :
    (s.setExpiring timer expiring).standing ids other = s.standing ids other := by
  have hclaims : ∀ carrier, (s.setExpiring timer expiring).claims carrier = some other ↔
      s.claims carrier = some other := by
    intro carrier
    rw [claims_setExpiring]
    by_cases hcarrier : carrier = .timer timer
    · subst carrier
      simp [hnew, hold]
    · simp [hcarrier]
  simp only [standing, hclaims]
  rfl

theorem Sound.expireWaiter {waiter : FutexWaiter κ τ} {rest : List (FutexWaiter κ τ)}
    (hsound : s.Sound ids) (hperm : (s.table key).Perm (waiter :: rest))
    (hexpiring : s.expiring timer = none) :
    ((s.setQueue key rest).setExpiring timer (some waiter.task)).Sound ids := by
  refine ⟨fun other => ?_, hsound.knows⟩
  by_cases htask : other = waiter.task
  · subst other
    have hclaims : ∀ carrier : Carrier τ timers, (carrier = .timer timer ∧ True ∨
        carrier ≠ .timer timer ∧ (s.standing ids waiter.task).claimed carrier) ↔
        carrier = .timer timer ∨ (s.standing ids waiter.task).claimed carrier := by
      intro carrier
      by_cases hcarrier : carrier = .timer timer
      · simp [hcarrier]
      · simp [hcarrier]
    rw [standing_setExpiring, standing_dequeue_self hperm]
    simp only [hclaims]
    exact (hsound.stands waiter.task).carry (.listed key) (.claimed (.timer timer))
      (listed_of_perm hperm) (by simp) fun _ => trivial
  · have hold : (s.setQueue key rest).expiring timer ≠ some other := by
      have hnone : (s.setQueue key rest).expiring timer = none := hexpiring
      simp [hnone]
    rw [standing_setExpiring_of_ne hold (by simpa using Ne.symm htask),
      standing_dequeue_of_ne hperm htask]
    exact hsound.stands other

omit [DecidableEq κ] in
theorem Sound.deliverTimeout
    {waiter : τ} (hsound : s.Sound ids) (hexpiring : s.expiring timer = some waiter) :
    ((s.setFlags waiter { s.flags waiter with
      woken := false, timedOut := true }).setExpiring timer none).Sound ids := by
  refine ⟨fun other => ?_, hsound.knows⟩
  by_cases htask : other = waiter
  · subst other
    have hholds : (s.standing ids waiter).claimed (.timer timer) := hexpiring
    rw [standing_setExpiring, standing_setFlags_self]
    simpa using (hsound.stands waiter).expire hholds
  · have hold : (s.setFlags waiter { s.flags waiter with
        woken := false, timedOut := true }).expiring timer ≠ some other := by
      have hsome : (s.setFlags waiter { s.flags waiter with
        woken := false, timedOut := true }).expiring timer = some waiter := hexpiring
      simpa [hsome] using Ne.symm htask
    rw [standing_setExpiring_of_ne hold (by simp), standing_setFlags_of_ne htask]
    exact hsound.stands other

end Timers

end FutexConfig

end Kairix.Futex
