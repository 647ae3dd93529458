import Kairix.TaskScheduler

/-!
# Sleeping and waking of one task

The part of a task block which blocking, waking and stopping read and write, without
the run queues.  Each function is one section under the task lock, and is what the
scheduler's step does to the block of its task.
-/

namespace Kairix.Waking

open Sched

/-- A task on a CPU is `claimed` until it runs, and `switching` from its call of the
scheduler until the CPU has left its stack. -/
inductive Place where
  | offCpu
  | claimed
  | executing
  | switching
  deriving DecidableEq, Repr

structure TaskState where
  status : TaskStatus
  place : Place
  pendingWakeup : Bool
  groupStopped : Bool
  groupStopResume : Bool
  requeueAfterSwitch : Bool
  deriving DecidableEq, Repr

namespace TaskState

def fresh : TaskState := ⟨.ready, .offCpu, false, false, false, false⟩

section

variable (task : TaskState)

def wakeup : TaskState :=
  if task.status = .zombie then task
  else if task.groupStopped = true then
    { task with groupStopResume := true, pendingWakeup := true }
  else if task.place ≠ .offCpu then
    match task.status with
    | .running => { task with pendingWakeup := true }
    | .blocked =>
      { task with pendingWakeup := true, status := .ready, requeueAfterSwitch := true }
    | _ => { task with pendingWakeup := true, status := .ready }
  else match task.status with
    | .running => { task with pendingWakeup := true }
    | _ => { task with status := .ready }

/-- The section of `stop_process` for one task. -/
def groupStop : TaskState :=
  if task.status = .zombie then task
  else
    let resume := if task.groupStopped = true then task.groupStopResume
      else decide (task.status = .ready ∨ task.status = .running)
    let stopped := { task with groupStopped := true, groupStopResume := resume }
    if resume = true then { stopped with status := .blocked, requeueAfterSwitch := false }
    else stopped

/-- Whether `continue_process` wakes the task after its section. -/
def resumes : Bool :=
  task.groupStopped && task.groupStopResume && task.status ≠ .zombie

/-- The section of `continue_process` for one task. -/
def groupContinue : TaskState :=
  { task with
    groupStopped := false
    groupStopResume := false
    pendingWakeup := if task.resumes = true then false else task.pendingWakeup }

def block (entry : SchedConfig.BlockEntry) : TaskState :=
  match entry with
  | .conditionMet => task
  | .processZombie => { task with status := .running }
  | .wait =>
    if task.pendingWakeup = true then
      { task with pendingWakeup := false, requeueAfterSwitch := false, status := .running }
    else { task with status := .blocked, place := .switching }

/-- `suspend_current_and_run_next`, of a stopped process or of another one. -/
def suspend (processStopped : Bool) : TaskState :=
  if processStopped = true then
    { task with status := .blocked, requeueAfterSwitch := false, place := .switching }
  else { task with status := .ready, requeueAfterSwitch := true, place := .switching }

def exit : TaskState :=
  { task with status := .zombie, place := .switching }

def finishSwitch : TaskState :=
  if task.requeueAfterSwitch = true then
    { task with
      place := .offCpu
      requeueAfterSwitch := false
      pendingWakeup := false
      status := if task.status = .zombie then .zombie else .ready }
  else { task with place := .offCpu }

/-- The idle loop runs a claimed task, or puts it back if it is not ready. -/
def dispatch : TaskState :=
  if task.status = .ready then { task with status := .running, place := .executing }
  else { task with place := .offCpu }

end

@[simp] theorem wakeup_place (task : TaskState) : task.wakeup.place = task.place := by
  unfold wakeup
  split_ifs <;> first | rfl | (split <;> rfl)

@[simp] theorem wakeup_groupStopped (task : TaskState) :
    task.wakeup.groupStopped = task.groupStopped := by
  unfold wakeup
  split_ifs <;> first | rfl | (split <;> rfl)

variable {task : TaskState}

theorem wakeup_status_ne_zombie (halive : task.status ≠ .zombie) :
    task.wakeup.status ≠ .zombie := by
  unfold wakeup
  split_ifs <;> first | exact halive | (split <;> simp_all)

theorem wakeup_status_ready (hstopped : task.groupStopped = false)
    (hstatus : task.status = .blocked ∨ task.status = .ready) : task.wakeup.status = .ready := by
  unfold wakeup
  rcases hstatus with hstatus | hstatus <;> simp only [hstatus, hstopped] <;>
    split_ifs <;> simp_all

theorem wakeup_pendingWakeup (hpending : task.pendingWakeup = true) :
    task.wakeup.pendingWakeup = true := by
  unfold wakeup
  split_ifs <;> first | rfl | exact hpending | (split <;> simp_all)

theorem wakeup_pendingWakeup_of_executing (hplace : task.place = .executing)
    (halive : task.status ≠ .zombie) : task.wakeup.pendingWakeup = true := by
  unfold wakeup
  split_ifs <;> first | rfl | (split <;> simp_all) | simp_all

theorem groupStop_place (task : TaskState) : task.groupStop.place = task.place := by
  unfold groupStop
  split
  · rfl
  · simp [apply_ite TaskState.place]

theorem groupStop_status_ne_zombie (halive : task.status ≠ .zombie) :
    task.groupStop.status ≠ .zombie := by
  unfold groupStop
  split
  · exact halive
  · simp only [apply_ite TaskState.status]
    generalize (if task.groupStopped = true then _ else _) = resume
    cases resume with
    | true => simp
    | false => simpa using halive

theorem groupContinue_of_not_stopped (hstopped : task.groupStopped = false) :
    (task.groupContinue).status = task.status ∧ task.groupContinue.pendingWakeup =
      task.pendingWakeup := by
  simp [groupContinue, resumes, hstopped]

section Scheduler

variable {cpus helpers : ℕ} {τ : Type*} [DecidableEq τ]

def ofBlock (place : Place) (block : TaskBlock cpus) : TaskState where
  status := block.status
  place := place
  pendingWakeup := block.pendingWakeup
  groupStopped := block.groupStopped
  groupStopResume := block.groupStopResume
  requeueAfterSwitch := block.requeueAfterSwitch

variable (s : SchedConfig cpus helpers τ) (agent : Agent cpus helpers) (task : τ)

attribute [local simp] SchedConfig.setTask SchedConfig.setPhase ofBlock SchedConfig.groupStopStep
  SchedConfig.wakeStep SchedConfig.blockStep groupStop wakeup

theorem ofBlock_wakeStep {place : Place} (front : Bool) (target : Fin cpus)
    (hplace : place = .offCpu ↔ (s.task task).onCpu = none) :
    ofBlock place ((s.wakeStep agent task front target).task task) =
      (ofBlock place (s.task task)).wakeup := by
  by_cases hzombie : (s.task task).status = .zombie
  · simp [hzombie]
  by_cases hstopped : (s.task task).groupStopped = true
  · simp [hzombie, hstopped]
  by_cases hcpu : (s.task task).onCpu = none
  · have hoff := hplace.mpr hcpu
    cases hstatus : (s.task task).status <;>
      simp_all
  · have hon : place ≠ .offCpu := fun hoff => hcpu (hplace.mp hoff)
    cases hstatus : (s.task task).status <;>
      simp_all

theorem ofBlock_groupStopStep (place : Place) :
    ofBlock place ((s.groupStopStep agent task).task task) =
      (ofBlock place (s.task task)).groupStop := by
  by_cases hzombie : (s.task task).status = .zombie
  · simp [hzombie]
  · cases hstopped : (s.task task).groupStopped with
    | true =>
      cases hresume : (s.task task).groupStopResume <;>
        simp [hzombie, hstopped, hresume]
    | false =>
      by_cases hrun : (s.task task).status = .ready ∨ (s.task task).status = .running
      · simp [hzombie, hstopped, hrun]
      · simp [hzombie, hstopped, hrun]

theorem ofBlock_groupContinueStep (place : Place) :
    ofBlock place ((s.groupContinueStep agent task).task task) =
      (ofBlock place (s.task task)).groupContinue := by
  by_cases hresumes : (s.task task).groupStopped = true ∧
      (s.task task).groupStopResume = true ∧ (s.task task).status ≠ .zombie
  · simp [SchedConfig.groupContinueStep, groupContinue, resumes, hresumes]
  · have hnot : (ofBlock place (s.task task)).resumes = false := by
      simp only [resumes, ofBlock, Bool.and_eq_false_iff]
      grind
    simp only [groupContinue, hnot]
    simp [SchedConfig.groupContinueStep, hresumes]

theorem ofBlock_blockStep (cpu : Fin cpus) (entry : SchedConfig.BlockEntry) :
    ofBlock ((ofBlock .executing (s.task task)).block entry).place
        ((s.blockStep cpu task entry).task task) =
      (ofBlock .executing (s.task task)).block entry := by
  cases entry with
  | conditionMet | processZombie =>
    simp [block]
  | wait =>
    by_cases hpending : (s.task task).pendingWakeup = true
    · simp [block, hpending]
    · simp [block, hpending]

theorem ofBlock_switchStep (cpu target : Fin cpus) :
    ofBlock .offCpu ((s.switchStep cpu target task).task task) =
      (ofBlock .switching (s.task task)).finishSwitch := by
  by_cases hrequeue : (s.task task).requeueAfterSwitch = true
  · simp [SchedConfig.switchStep, finishSwitch, hrequeue]
  · simp [SchedConfig.switchStep, finishSwitch, hrequeue]

end Scheduler

end TaskState

end Kairix.Waking
