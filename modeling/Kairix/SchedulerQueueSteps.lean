import Kairix.LabelledRun
import Kairix.SchedulerSteps

/-!
# Steps keep the queues in agreement

A step outside of the run-queue locks which keeps the marks of every task is one
case; the steps inside of a lock are the others.
-/

namespace Kairix.Sched

open Function MarkedQueues GrowableDeque LabelledRun

variable {cpus helpers : ℕ} {τ : Type*} [DecidableEq τ]

attribute [local simp] SchedConfig.setTask

namespace SchedConfig

variable {s s' changed : SchedConfig cpus helpers τ} {agent : Agent cpus helpers}
variable {cpu : Fin cpus} {task : τ} {block : TaskBlock cpus} {before phase : Phase cpus τ}

theorem marker_setTask (hblock : block.readyQueued = (s.task task).readyQueued) :
    (s.setTask task block).marker = s.marker := by
  funext other
  by_cases hother : other = task
  · subst other
    simp [marker, setTask, hblock]
  · simp [marker, setTask, hother]

theorem marker_setReadyQueued_self (value : Option (Fin cpus)) :
    (s.setReadyQueued task value).marker task = value := by
  simp [marker, setReadyQueued, setTask]

theorem marker_setReadyQueued_of_ne
    (value : Option (Fin cpus)) {other : τ} (hother : other ≠ task) :
    (s.setReadyQueued task value).marker other = s.marker other := by
  simp [marker, setReadyQueued, setTask, hother]

theorem SameElsewhere.setReadyQueued {value : Option (Fin cpus)}
    (hbefore : s.marker task = none ∨ s.marker task = some cpu)
    (hafter : value = none ∨ value = some cpu) :
    SameElsewhere s (s.setReadyQueued task value) cpu where
  lock := fun _ _ => rfl
  tasks := fun _ _ => rfl
  count := fun _ _ => rfl
  marker := by
    intro place hplace other
    by_cases hother : other = task
    · subst other
      rw [marker_setReadyQueued_self]
      rcases hbefore with hbefore | hbefore <;> rcases hafter with rfl | rfl <;>
        simp [hbefore, Ne.symm hplace]
    · rw [marker_setReadyQueued_of_ne value hother]

theorem onCpu_setTask (hblock : block.onCpu = (s.task task).onCpu) (other : τ) :
    ((s.setTask task block).task other).onCpu = (s.task other).onCpu := by
  by_cases hother : other = task
  · subst other
    simpa using hblock
  · simp [hother]

/-! ## Steps outside of the run queues -/

section

omit [DecidableEq τ]

theorem free_afterRemoval (gone : Removal τ) (target : Fin cpus) :
    (afterRemoval gone target).Free ∧ (afterRemoval gone target).claimed = none := by
  obtain ⟨task, s'⟩ := gone
  cases s' <;> exact ⟨trivial, rfl⟩

/-- An agent without a lock goes on; the queues and the marks of every task stay. -/
inductive Touches (s : SchedConfig cpus helpers τ) : SchedConfig cpus helpers τ → Prop
  | intro {agent : Agent cpus helpers} {changed : SchedConfig cpus helpers τ}
      {before phase : Phase cpus τ} (hphase : s.phase agent = before) (hbefore : before.Free)
      (hafter : phase.Free) (hclaimed : phase.claimed = before.claimed)
      (hchanged : changed.phase = s.phase) (hlock : changed.lock = s.lock)
      (hmanager : changed.manager = s.manager)
      (hcount : changed.readyTasks = s.readyTasks) (hmarker : changed.marker = s.marker)
      (honCpu : ∀ task, (changed.task task).onCpu = (s.task task).onCpu) :
      Touches s (changed.setPhase agent phase)

theorem setPhase_eq_self (hphase : s.phase agent = phase) : s.setPhase agent phase = s := by
  rw [SchedConfig.setPhase, ← hphase, Function.update_eq_self]

end

section

variable (hphase : s.phase agent = before) (hbefore : before.Free)
include hphase hbefore

omit [DecidableEq τ] in
theorem touches_setPhase (hafter : phase.Free) (hclaimed : phase.claimed = before.claimed) :
    Touches s (s.setPhase agent phase) :=
  ⟨hphase, hbefore, hafter, hclaimed, rfl, rfl, rfl, rfl, rfl, fun _ => rfl⟩

variable (honCpu : block.onCpu = (s.task task).onCpu)
  (hmarker : block.readyQueued = (s.task task).readyQueued)
include honCpu hmarker

theorem touches_setTask (hafter : phase.Free) (hclaimed : phase.claimed = before.claimed) :
    Touches s ((s.setTask task block).setPhase agent phase) :=
  ⟨hphase, hbefore, hafter, hclaimed, rfl, rfl, rfl, rfl, marker_setTask hmarker,
    onCpu_setTask honCpu⟩

theorem touches_setTask_only : Touches s (s.setTask task block) := by
  have hself : (s.setTask task block).setPhase agent before = s.setTask task block :=
    setPhase_eq_self hphase
  rw [← hself]
  exact touches_setTask hphase hbefore honCpu hmarker hbefore rfl

end

theorem touches_ownStep (hphase : s.phase (.cpu cpu) = .executing task) (step : OwnStep) :
    Touches s (s.ownStep cpu task step) := by
  cases step with
  | yield front | stop | exit => exact touches_setTask hphase trivial rfl rfl trivial rfl
  | markSleep => exact touches_setTask_only hphase trivial rfl rfl
  | block entry =>
    cases entry with
    | conditionMet | processZombie => exact touches_setTask_only hphase trivial rfl rfl
    | wait =>
      rw [ownStep, blockStep]
      split
      · exact touches_setTask_only hphase trivial rfl rfl
      · exact touches_setTask hphase trivial rfl rfl trivial rfl

theorem touches_wakeStep {front : Bool} {target : Fin cpus}
    (hphase : s.phase agent = .wake task front) :
    Touches s (s.wakeStep agent task front target) := by
  rw [wakeStep]
  simp only
  split
  · exact touches_setPhase hphase trivial trivial rfl
  · split
    · exact touches_setTask hphase trivial rfl rfl trivial rfl
    · split
      · cases (s.task task).status <;>
          exact touches_setTask hphase trivial rfl rfl trivial rfl
      · split
        · exact touches_setTask hphase trivial rfl rfl trivial rfl
        · exact touches_setTask hphase trivial rfl rfl trivial rfl
        · exact ⟨hphase, trivial, trivial, rfl, rfl, rfl, rfl, rfl, marker_setTask rfl,
            onCpu_setTask rfl⟩

theorem touches_groupStopStep (hphase : s.phase agent = .idle) :
    Touches s (s.groupStopStep agent task) := by
  rw [groupStopStep]
  simp only
  split
  · have hidle : (Phase.idle : Phase cpus τ).Free := trivial
    have htouches := touches_setPhase hphase hidle hidle rfl
    rwa [setPhase_eq_self hphase] at htouches
  · refine touches_setTask hphase trivial ?_ ?_ trivial rfl
    · exact (apply_ite TaskBlock.onCpu _ _ _).trans (ite_self _)
    · exact (apply_ite TaskBlock.readyQueued _ _ _).trans (ite_self _)

theorem Walks.touches {label : SchedStep cpus helpers τ} (hwalk : Walks s label s') :
    Touches s s' := by
  cases hwalk with
  | addReady hphase | addRefused hphase | enqueueBusy hphase | claimRefused hphase
  | dispatch hphase | removeFound hphase | removeBusy hphase | wakeMarked hphase
  | wakeUnmarked hphase | wakeClaimed hphase | wakeAdd hphase | fetch hphase | wakeup hphase
  | remove hphase => exact touches_setPhase hphase trivial trivial rfl
  | drop hphase =>
    rcases hphase with hphase | hphase <;> exact touches_setPhase hphase trivial trivial rfl
  | run hphase | spawn hphase => exact touches_setTask hphase trivial rfl rfl trivial rfl
  | removeGone hphase =>
    exact touches_setPhase hphase trivial (free_afterRemoval _ _).1 (free_afterRemoval _ _).2
  | wake hphase => exact touches_wakeStep hphase
  | own hphase => exact touches_ownStep hphase _
  | groupStop hphase => exact touches_groupStopStep hphase
  | groupContinue hphase =>
    rw [groupContinueStep]
    simp only
    split
    · exact touches_setTask hphase trivial rfl rfl trivial rfl
    · exact touches_setTask_only hphase trivial rfl rfl

/-! ## Steps inside of the run queues -/

variable (hinv : s.Queued)
include hinv

omit [DecidableEq τ] in
theorem Queued.touches (htouches : Touches s s') : s'.Queued := by
  cases htouches with
  | intro hphase hbefore hafter _ hchanged hlock hmanager hcount hmarker =>
    subst hphase
    exact hinv.outside hchanged hbefore hafter hlock hmanager hcount hmarker

theorem Queued.release (hphase : s.phase agent = before) (hbefore : before.Free)
    (hafter : phase.Free) (hmarker : block.readyQueued = (s.task task).readyQueued) :
    ((s.setTask task block).setPhase agent phase).Queued := by
  subst hphase
  exact hinv.outside rfl hbefore hafter rfl rfl rfl (marker_setTask hmarker)

variable {queues : TaskManager τ} {tuned : τ → SchedParams}

omit [DecidableEq τ] hinv in
theorem SameElsewhere.setParams (hsame : SameElsewhere s changed cpu) :
    SameElsewhere s { changed with params := tuned } cpu :=
  ⟨hsame.lock, hsame.tasks, hsame.count, hsame.marker⟩

omit [DecidableEq τ] in
theorem Queued.lock (hphase : s.phase agent = before) (hbefore : before.Free)
    (hfree : s.lock cpu = none) (hchanged : changed.phase = s.phase)
    (hsame : SameElsewhere s changed cpu) (hlock : changed.lock cpu = some agent)
    (hholds : phase.holds agent = some cpu) (hquiet : phase.stage = .quiet)
    (hregular : phase.Regular) (htasks : (changed.manager cpu).tasks = (s.manager cpu).tasks)
    (hcount : changed.readyTasks = s.readyTasks) (hmarker : changed.marker = s.marker) :
    (changed.setPhase agent phase).Queued := by
  subst hphase
  obtain ⟨hholdsBefore, hpendingBefore, -⟩ := hbefore.outside agent
  have hagrees := hinv.agrees cpu
  rw [stageOf_of_lock_eq_none hfree, ← htasks] at hagrees
  refine hinv.inside hchanged (.inr ⟨hholdsBefore, hfree⟩) hpendingBefore hsame hlock hholds
    hregular ?_
  rwa [hquiet, hcount, hmarker]

omit [DecidableEq τ] in
theorem Queued.store (hphase : s.phase agent = before)
    (hbefore : before.holds agent = some cpu) (hholds : phase.holds agent = some cpu)
    (hregular : phase.Regular)
    (hagrees : Agrees cpu (s.manager cpu).tasks (s.readyTasks cpu) before.stage
        (s.pendingOf cpu).card s.marker →
      Agrees cpu queues.tasks (s.readyTasks cpu) phase.stage (s.pendingOf cpu).card s.marker) :
    ({ s.setManager cpu queues with params := tuned }.setPhase agent phase).Queued := by
  refine hinv.within rfl hphase hbefore
    ((SameElsewhere.refl s cpu).setManager queues).setParams rfl hholds hregular
    fun hown => ?_
  have htasks : ((s.setManager cpu queues).manager cpu).tasks = queues.tasks :=
    congrArg _ setManager_self
  exact htasks ▸ hagrees hown

theorem Queued.unmark_agrees (hphase : s.phase agent = before)
    (hbefore : before.holds agent = some cpu) (hstage : before.stage = .carrying task) :
    SameElsewhere s (s.setReadyQueued task none) cpu ∧
      Agrees cpu (s.manager cpu).tasks (s.readyTasks cpu) .leaving
        (s.pendingOf cpu).card (s.setReadyQueued task none).marker := by
  subst hphase
  have hagrees := hinv.agrees_of_holds hbefore
  rw [hstage] at hagrees
  refine ⟨SameElsewhere.setReadyQueued (.inr (hinv.marker_of_carrying hbefore hstage)) (.inl rfl),
    Agrees.unmark hagrees ?_ fun other hother => marker_setReadyQueued_of_ne _ hother⟩
  rw [marker_setReadyQueued_self]
  simp

theorem Queued.enqueueMark {op : Enqueue cpus τ} (hphase : s.phase agent = .enqueueMark op)
    (hnone : (s.task op.task).readyQueued = none) :
    ((s.setReadyQueued op.task (some op.cpu)).setPhase agent (.enqueueAdd op)).Queued := by
  refine hinv.within rfl hphase rfl (SameElsewhere.setReadyQueued (.inl hnone) (.inr rfl))
    rfl rfl trivial fun hagrees => ?_
  apply Agrees.mark hagrees
  · rw [marker, hnone]
    simp
  · exact marker_setReadyQueued_self _
  · exact fun other hother => marker_setReadyQueued_of_ne _ hother

theorem Queued.claimMark {left : ℕ} (hphase : s.phase (.cpu cpu) = .claimMark task left) :
    ((s.setOnCpu task (some cpu)).setPhase (.cpu cpu) (.claimUnqueue task left)).Queued := by
  have hmarker : (s.setOnCpu task (some cpu)).marker = s.marker := marker_setTask rfl
  refine hinv.within rfl hphase rfl ?_ rfl rfl trivial ?_
  · refine ⟨fun _ _ => rfl, fun _ _ => rfl, fun _ _ => rfl, ?_⟩
    rw [hmarker]
    exact fun _ _ _ => Iff.rfl
  · rw [hmarker]
    exact id

section

omit [DecidableEq τ]

theorem Queued.enqueueCount {op : Enqueue cpus τ} (hphase : s.phase agent = .enqueueCount op) :
    (s.enqueueCountStep agent op).Queued := by
  have hholds := holds_of_phase hphase (rfl : _ = some op.cpu)
  have hagrees := hinv.agrees_of_holds hholds
  rw [hphase] at hagrees
  refine hinv.leave rfl hholds
    (((SameElsewhere.refl s op.cpu).setCount _).setLock none) (update_self ..) trivial ?_
  have hcount : ((s.setCount op.cpu (s.readyTasks op.cpu + 1)).setLock op.cpu
      none).readyTasks op.cpu = s.readyTasks op.cpu + 1 := setCount_self
  rw [hcount]
  exact hagrees.rearrange rfl (by simp) hagrees.count_eq

theorem Queued.claimCount (hphase : s.phase (.cpu cpu) = .claimCount task) :
    (s.claimCountStep cpu task).Queued := by
  have hholds := holds_of_phase hphase (rfl : _ = some cpu)
  have hagrees := hinv.agrees_of_holds hholds
  rw [hphase] at hagrees
  refine hinv.leave rfl hholds ((((SameElsewhere.refl s cpu).setManager _).setCount _).setLock none)
    (update_self ..) trivial ?_
  have hcount : (((s.setManager cpu
      (s.manager cpu).completeSelection).decrementReadyTasks cpu).setLock cpu
        none).readyTasks cpu = s.readyTasks cpu - 1 := setCount_self
  rw [hcount]
  exact (Agrees.countDown hagrees).2.shuffle
    ((congrArg TaskManager.tasks setManager_self).trans rfl)

theorem Queued.claimNone {left : ℕ} (hphase : s.phase (.cpu cpu) = .claimPop left)
    (htasks : queues.tasks = (s.manager cpu).tasks) :
    ((s.setManager cpu queues).unlock (.cpu cpu) cpu .idle).Queued := by
  have hholds := holds_of_phase hphase (rfl : _ = some cpu)
  have hagrees := hinv.agrees_of_holds hholds
  rw [hphase] at hagrees
  exact hinv.leave rfl hholds (((SameElsewhere.refl s cpu).setManager _).setLock none)
    (update_self ..) trivial (hagrees.shuffle ((congrArg _ setManager_self).trans htasks))

end

theorem Queued.step {label : SchedStep cpus helpers τ} (hstep : Steps s label s') : s'.Queued := by
  cases hstep with
  | walk hwalk => exact hinv.touches hwalk.touches
  | adjust => exact ⟨hinv.locks, hinv.agrees, hinv.regular⟩
  | enqueueLock hphase hfree | removeLock hphase hfree =>
    exact hinv.lock hphase trivial hfree rfl ((SameElsewhere.refl s _).setLock _)
      (update_self ..) rfl rfl trivial rfl rfl rfl
  | claimLock hphase hfree htasks =>
    exact hinv.lock hphase trivial hfree rfl
      (((SameElsewhere.refl s _).setManager _).setLock _).setParams (update_self ..) rfl rfl
      trivial ((congrArg _ setManager_self).trans htasks) rfl rfl
  | enqueueMarked hphase | enqueueClaimed hphase | enqueueRetry hphase | enqueueLate hphase
  | claimDone hphase | removeMoved hphase => exact hinv.unlock hphase rfl rfl trivial
  | enqueueFresh hphase | enqueueRoom hphase | claimLost hphase =>
    exact hinv.within rfl hphase rfl (SameElsewhere.refl s _) rfl rfl trivial id
  | enqueueGrow hphase =>
    exact hinv.store hphase rfl rfl trivial fun hagrees =>
      hagrees.shuffle (TaskManager.tasks_replaceStorage _ _)
  | enqueueMark hphase hnone => exact hinv.enqueueMark hphase hnone
  | enqueueAdd hphase =>
    exact hinv.store hphase rfl rfl trivial fun hagrees =>
      Agrees.add hagrees (TaskManager.tasks_addAt _ _ _ _)
  | enqueueCount hphase => exact hinv.enqueueCount hphase
  | claimNone hphase htasks => exact hinv.claimNone hphase htasks
  | claimPop hphase htakes | removeTake hphase htakes =>
    exact hinv.store hphase rfl rfl trivial fun hagrees => Agrees.pop hagrees htakes
  | claimMark hphase => exact hinv.claimMark hphase
  | claimUnqueue hphase =>
    obtain ⟨hsame, hagrees⟩ := hinv.unmark_agrees hphase rfl rfl
    exact hinv.within rfl hphase rfl hsame rfl rfl trivial fun _ => hagrees
  | claimBack hphase htasks =>
    exact hinv.store hphase rfl rfl trivial fun hagrees => Agrees.putBack hagrees htasks
  | claimCount hphase => exact hinv.claimCount hphase
  | reject hphase | switchOff hphase | switchBack hphase =>
    exact hinv.release hphase trivial trivial rfl
  | removeClear hphase =>
    obtain ⟨hsame, hagrees⟩ := hinv.unmark_agrees hphase rfl rfl
    exact hinv.leave_owing rfl (holds_of_phase hphase rfl) (hsame.setLock none) (update_self ..)
      rfl rfl trivial hagrees
  | removeCount hphase =>
    exact (hinv.settle (holds_of_phase hphase rfl) (pendingAt_of_phase hphase rfl)
      (free_afterRemoval _ _).1).2

end SchedConfig

namespace SchedConfig

variable {s s' changed : SchedConfig cpus helpers τ}
variable {agent : Agent cpus helpers} {phase : Phase cpus τ} {cpu : Fin cpus} {task : τ}

/-! ## Claims -/

omit [DecidableEq τ] in
theorem Claimed.set {before : Phase cpus τ} (hinv : s.Claimed)
    (hphase : s.phase agent = before) (hclaimed : phase.claimed = before.claimed)
    (hchanged : changed.phase = s.phase)
    (honCpu : ∀ task, (changed.task task).onCpu = (s.task task).onCpu) :
    (changed.setPhase agent phase).Claimed := by
  subst hphase
  have hsame : ∀ other,
      ((changed.setPhase agent phase).phase other).claimed = (s.phase other).claimed := by
    intro other
    by_cases hother : other = agent
    · rw [hother, setPhase_self, hclaimed]
    · rw [setPhase_other hchanged other hother]
  constructor
  · intro task cpu
    rw [hsame]
    exact (honCpu task).symm ▸ hinv.claims task cpu
  · intro index
    rw [hsame]
    exact hinv.helpers index

variable {block : TaskBlock cpus}

section

variable (hinv : s.Claimed)
include hinv

omit [DecidableEq τ] in
theorem Claimed.touches (htouches : Touches s s') : s'.Claimed := by
  cases htouches with
  | intro hphase _ _ hclaimed hchanged _ _ _ _ honCpu =>
    exact hinv.set hphase hclaimed hchanged honCpu

theorem Claimed.reassign (hothers : ∀ other, other ≠ task → (s.task other).onCpu ≠ some cpu)
    (helsewhere : ∀ place, place ≠ cpu → (s.task task).onCpu ≠ some place)
    (hblock : ∀ place, block.onCpu = some place → place = cpu)
    (hphase : ∀ other, phase.claimed = some other → other = task)
    (hsame : block.onCpu = some cpu ↔ phase.claimed = some task) :
    ((s.setTask task block).setPhase (.cpu cpu) phase).Claimed := by
  constructor
  case claims =>
    intro other place
    have htask : ((s.setTask task block).setPhase (.cpu cpu) phase).task other =
        if other = task then block else s.task other := by
      by_cases hother : other = task <;> simp [SchedConfig.setPhase, hother]
    rw [htask]
    by_cases hplace : place = cpu
    · subst place
      rw [setPhase_self]
      by_cases hother : other = task
      · rw [if_pos hother, hother]
        exact hsame
      · rw [if_neg hother]
        exact iff_of_false (hothers other hother) fun h => hother (hphase other h)
    · have hne : (Agent.cpu place : Agent cpus helpers) ≠ .cpu cpu := by simpa using hplace
      have hbefore := hinv.claims other place
      rw [setPhase_of_ne hne]
      by_cases hother : other = task
      · rw [if_pos hother]
        rw [hother] at hbefore ⊢
        exact iff_of_false (fun h => hplace (hblock place h))
          fun h => helsewhere place hplace (hbefore.mpr h)
      · rw [if_neg hother]
        exact hbefore
  case helpers =>
    intro index
    rw [setPhase_of_ne (by simp)]
    exact hinv.helpers index

theorem Claimed.claim (hfree : (s.phase (.cpu cpu)).claimed = none)
    (honCpu : (s.task task).onCpu = none) (hclaimed : phase.claimed = some task) :
    ((s.setOnCpu task (some cpu)).setPhase (.cpu cpu) phase).Claimed := by
  refine hinv.reassign (fun other _ => ?_) ?_ ?_ ?_ ?_
  · rw [Ne, hinv.claims, hfree]
    simp
  · simp [honCpu]
  · simp [eq_comm]
  · simp [hclaimed, eq_comm]
  · simp [hclaimed]

theorem Claimed.release (hheld : (s.phase (.cpu cpu)).claimed = some task)
    (hblock : block.onCpu = none) (hclaimed : phase.claimed = none) :
    ((s.setTask task block).setPhase (.cpu cpu) phase).Claimed := by
  have honCpu := (hinv.claims task cpu).mpr hheld
  refine hinv.reassign (fun other hother => ?_) (fun place hplace => ?_) ?_ ?_ ?_
  · rw [Ne, hinv.claims, hheld]
    simpa using Ne.symm hother
  · simpa [honCpu] using Ne.symm hplace
  · simp [hblock]
  · simp [hclaimed]
  · simp [hblock, hclaimed]

end

omit [DecidableEq τ] in
theorem claimed_of_phase {held : Option τ} (hphase : s.phase agent = phase)
    (hheld : phase.claimed = held) : (s.phase agent).claimed = held := by
  rwa [hphase]

theorem onCpu_setReadyQueued (value : Option (Fin cpus)) (other : τ) :
    ((s.setReadyQueued task value).task other).onCpu = (s.task other).onCpu := by
  have hblock : { s.task task with readyQueued := value }.onCpu = (s.task task).onCpu := rfl
  exact onCpu_setTask hblock other

theorem Claimed.step {label : SchedStep cpus helpers τ} (hinv : s.Claimed)
    (hstep : Steps s label s') : s'.Claimed := by
  cases hstep with
  | walk hwalk => exact hinv.touches hwalk.touches
  | adjust => exact ⟨hinv.claims, hinv.helpers⟩
  | enqueueLock hphase | enqueueMarked hphase | enqueueFresh hphase | enqueueClaimed hphase
  | enqueueRoom hphase | enqueueGrow hphase | enqueueRetry hphase | enqueueLate hphase
  | enqueueAdd hphase | enqueueCount hphase | claimLock hphase | claimDone hphase
  | claimNone hphase | claimPop hphase | claimLost hphase | claimBack hphase | claimCount hphase
  | removeLock hphase | removeTake hphase | removeMoved hphase =>
    exact hinv.set hphase rfl rfl fun _ => rfl
  | enqueueMark hphase | claimUnqueue hphase | removeClear hphase =>
    exact hinv.set hphase rfl rfl (onCpu_setReadyQueued _)
  | claimMark hphase hoff => exact hinv.claim (claimed_of_phase hphase rfl) hoff rfl
  | reject hphase | switchOff hphase | switchBack hphase =>
    exact hinv.release (claimed_of_phase hphase rfl) rfl rfl
  | removeCount hphase => exact hinv.set hphase (free_afterRemoval _ _).2 rfl fun _ => rfl

omit [DecidableEq τ] in
theorem queued_boot : (boot cpus helpers τ).Queued where
  locks := by
    intro agent cpu
    simp [boot, Phase.holds]
  agrees := by
    intro cpu
    have hstage : (boot cpus helpers τ).stageOf cpu = .quiet := stageOf_of_lock_eq_none rfl
    have hpending : (boot cpus helpers τ).pendingOf cpu = ∅ := by
      simp [pendingOf, boot, Phase.pendingAt]
    have htasks : ((boot cpus helpers τ).manager cpu).tasks = 0 := by
      simp [boot, TaskManager.new, TaskManager.tasks]
    rw [hstage, hpending, htasks]
    constructor
    · exact Multiset.nodup_zero
    · simp [boot, marker, Stage.carried]
    · simp [Stage.carried]
    · simp
    · simp [boot, Stage.uncounted, Stage.overcounted]
  regular := fun _ => trivial

omit [DecidableEq τ] in
theorem claimed_boot : (boot cpus helpers τ).Claimed where
  claims := by simp [boot, Phase.claimed]
  helpers := fun _ => rfl

theorem steady_of_reachable {admits : SchedConfig cpus helpers τ → SchedStep cpus helpers τ → Prop}
    (hreach : Reachable next admits (boot cpus helpers τ) s) : s.Sound := by
  apply hreach.invariant ⟨queued_boot, claimed_boot⟩
  intro state label s' hinv _ hnext
  have hstep := hinv.steps hnext
  exact ⟨hinv.toQueued.step hstep, hinv.toClaimed.step hstep⟩

end SchedConfig

end Kairix.Sched
