import Kairix.RunQueue

/-!
# The task scheduler

CPUs and helpers act on shared tasks and run queues.  A CPU fetches a task from
its own queue, runs it and completes the switch back to its idle stack; helpers
stand for whoever wakes, stops, removes or adds tasks.  Each step is one
section under a task lock or one access to an atomic word; the accesses inside
a run-queue lock are steps of their own, because the markers of a task are not
protected by that lock.
-/

namespace Kairix.Sched

open Function

inductive TaskStatus where
  | ready
  | running
  | blocked
  | zombie
  | sleep
  deriving DecidableEq, Repr

/-- The scheduler call which a task has entered and not returned from. -/
inductive TaskCall where
  | executing
  | yield
  | block
  | stop
  deriving DecidableEq, Repr

/-- The part of a task block which scheduling uses.  `woken` remembers a call of
`wakeup_task` since the task's last block call returned. -/
structure TaskBlock (cpus : ℕ) where
  status : TaskStatus
  pendingWakeup : Bool
  groupStopped : Bool
  groupStopResume : Bool
  requeueAfterSwitch : Bool
  requeueFrontAfterSwitch : Bool
  onCpu : Option (Fin cpus)
  readyQueued : Option (Fin cpus)
  born : Bool
  call : TaskCall
  woken : Bool
  deriving DecidableEq, Repr

/-- The arguments of `enqueue_task_on_cpu`, and the storage it has set aside to
grow the queue. -/
structure Enqueue (cpus : ℕ) (τ : Type*) where
  cpu : Fin cpus
  task : τ
  front : Bool
  spare : Option ℕ
  deriving DecidableEq

/-- What a caller of `remove_task` does next. -/
inductive AfterRemoval where
  | nothing
  | add
  | wake
  deriving DecidableEq, Repr

structure Removal (τ : Type*) where
  task : τ
  after : AfterRemoval
  deriving DecidableEq

/-- Where a CPU or a helper stands.  Each phase names the next step. -/
inductive Phase (cpus : ℕ) (τ : Type*) where
  | idle
  | addCheck (op : Enqueue cpus τ)
  | enqueueTry (op : Enqueue cpus τ)
  | enqueueQueued (op : Enqueue cpus τ)
  | enqueueOnCpu (op : Enqueue cpus τ)
  | enqueueMark (op : Enqueue cpus τ)
  | enqueueAdd (op : Enqueue cpus τ)
  | enqueueCount (op : Enqueue cpus τ)
  | claimTry
  | claimPop (left : ℕ)
  | claimMark (task : τ) (left : ℕ)
  | claimUnqueue (task : τ) (left : ℕ)
  | claimRollback (task : τ) (left : ℕ)
  | claimRecheck (task : τ) (left : ℕ)
  | claimCount (task : τ)
  | claimStale (task : τ)
  | dispatch (task : τ)
  | dispatchRun (task : τ)
  | reject (task : τ)
  | executing (task : τ)
  | switching (task : τ)
  | removeLoad (op : Removal τ)
  | removeTry (op : Removal τ) (cpu : Fin cpus)
  | removeCheck (op : Removal τ) (cpu : Fin cpus)
  | removeClear (op : Removal τ) (cpu : Fin cpus)
  | removeClearStale (op : Removal τ) (cpu : Fin cpus)
  | removeStore (op : Removal τ) (cpu : Fin cpus)
  | removeCount (op : Removal τ) (cpu : Fin cpus)
  | wake (task : τ) (front : Bool)
  | wakeQueued (task : τ) (front : Bool)
  | wakeOnCpu (task : τ) (front : Bool)
  deriving DecidableEq

inductive Agent (cpus helpers : ℕ) where
  | cpu (index : Fin cpus)
  | helper (index : Fin helpers)
  deriving DecidableEq, Fintype

structure SchedConfig (cpus helpers : ℕ) (τ : Type*) where
  task : τ → TaskBlock cpus
  params : τ → SchedParams
  manager : Fin cpus → TaskManager τ
  readyTasks : Fin cpus → ℕ
  lock : Fin cpus → Option (Agent cpus helpers)
  phase : Agent cpus helpers → Phase cpus τ

namespace SchedConfig

variable {cpus helpers : ℕ} {τ : Type*}

section

variable (config s : SchedConfig cpus helpers τ) (cpu : Fin cpus)

def setPhase (agent : Agent cpus helpers) (phase : Phase cpus τ) : SchedConfig cpus helpers τ :=
  { config with phase := update config.phase agent phase }

def setLock (owner : Option (Agent cpus helpers)) : SchedConfig cpus helpers τ :=
  { config with lock := update config.lock cpu owner }

def setManager (manager : TaskManager τ) : SchedConfig cpus helpers τ :=
  { config with manager := update config.manager cpu manager }

def setCount (count : ℕ) : SchedConfig cpus helpers τ :=
  { config with readyTasks := update config.readyTasks cpu count }

def decrementReadyTasks : SchedConfig cpus helpers τ :=
  config.setCount cpu (config.readyTasks cpu - 1)

end

variable [DecidableEq τ]

variable (config s : SchedConfig cpus helpers τ) (agent : Agent cpus helpers)

def setTask (task : τ) (block : TaskBlock cpus) : SchedConfig cpus helpers τ :=
  { config with task := update config.task task block }

def setOnCpu (task : τ) (cpu : Option (Fin cpus)) : SchedConfig cpus helpers τ :=
  config.setTask task { config.task task with onCpu := cpu }

def setReadyQueued (task : τ) (cpu : Option (Fin cpus)) : SchedConfig cpus helpers τ :=
  config.setTask task { config.task task with readyQueued := cpu }

/-- Take the lock of a run queue if it is free; otherwise go on waiting. -/
def tryLock (cpu : Fin cpus) (locked busy : Phase cpus τ) : SchedConfig cpus helpers τ :=
  match config.lock cpu with
  | none => (config.setLock cpu (some agent)).setPhase agent locked
  | some _ => config.setPhase agent busy

def unlock (cpu : Fin cpus) (phase : Phase cpus τ) : SchedConfig cpus helpers τ :=
  (config.setLock cpu none).setPhase agent phase

/-- `add_task_to_cpu`: only ready tasks are enqueued. -/
def addCheckStep (op : Enqueue cpus τ) : SchedConfig cpus helpers τ :=
  if (config.task op.task).status = .ready then config.setPhase agent (.enqueueTry op)
  else config.setPhase agent .idle

def enqueueQueuedStep (op : Enqueue cpus τ) : SchedConfig cpus helpers τ :=
  match (config.task op.task).readyQueued with
  | some _ => config.unlock agent op.cpu .idle
  | none => config.setPhase agent (.enqueueOnCpu op)

/-- The check of `on_cpu` and the capacity of the queue.  Storage is allocated
without the lock, and then everything is checked again. -/
def enqueueOnCpuStep (op : Enqueue cpus τ) : SchedConfig cpus helpers τ :=
  let manager := config.manager op.cpu
  let required := manager.len + 1
  match (config.task op.task).onCpu with
  | some _ => config.unlock agent op.cpu .idle
  | none =>
    if manager.capacityReady required = true then config.setPhase agent (.enqueueMark op)
    else match op.spare with
      | some capacity =>
        if required ≤ capacity then
          (config.setManager op.cpu (manager.replaceStorage capacity)).setPhase agent
            (.enqueueMark { op with spare := none })
        else config.unlock agent op.cpu (.enqueueTry
          { op with spare := some (TaskManager.replacementCapacity required) })
      | none => config.unlock agent op.cpu (.enqueueTry
          { op with spare := some (TaskManager.replacementCapacity required) })

def enqueueMarkStep (op : Enqueue cpus τ) : SchedConfig cpus helpers τ :=
  match (config.task op.task).readyQueued with
  | none =>
    (config.setReadyQueued op.task (some op.cpu)).setPhase agent (.enqueueAdd op)
  | some _ => config.unlock agent op.cpu .idle

def enqueueAddStep (op : Enqueue cpus τ) : SchedConfig cpus helpers τ :=
  let added := (config.manager op.cpu).addAt config.params op.task op.front
  { config.setManager op.cpu added.1 with params := added.2 }.setPhase agent
    (.enqueueCount op)

def enqueueCountStep (op : Enqueue cpus τ) : SchedConfig cpus helpers τ :=
  (config.setCount op.cpu (config.readyTasks op.cpu + 1)).unlock agent op.cpu .idle

/-- The head of `claim_task_from_cpu`.  An attempt may be given up before it
touches the queue, which is what the fetch and mutation intents decide. -/
def claimTryStep (cpu : Fin cpus) (giveUp : Bool) : SchedConfig cpus helpers τ :=
  let manager := config.manager cpu
  match giveUp, config.lock cpu with
  | false, none =>
    let aged := if 1 < manager.len then manager.ageQueuedTasks config.params
      else (manager, config.params)
    { (config.setManager cpu aged.1).setLock cpu (some (.cpu cpu)) with
      params := aged.2 }.setPhase (.cpu cpu) (.claimPop aged.1.len)
  | _, _ => config.setPhase (.cpu cpu) .idle

def claimPopStep (cpu : Fin cpus) (left : ℕ) : SchedConfig cpus helpers τ :=
  match left with
  | 0 => config.unlock (.cpu cpu) cpu .idle
  | left + 1 =>
    let popped := (config.manager cpu).popNext config.params cpu.val
    match popped.1 with
    | none => (config.setManager cpu popped.2).unlock (.cpu cpu) cpu .idle
    | some task =>
      (config.setManager cpu popped.2).setPhase (.cpu cpu) (.claimMark task left)

def claimMarkStep (cpu : Fin cpus) (task : τ) (left : ℕ) : SchedConfig cpus helpers τ :=
  match (config.task task).onCpu with
  | none => (config.setOnCpu task (some cpu)).setPhase (.cpu cpu) (.claimUnqueue task left)
  | some _ => config.setPhase (.cpu cpu) (.claimRecheck task left)

def claimUnqueueStep (cpu : Fin cpus) (task : τ) (left : ℕ) : SchedConfig cpus helpers τ :=
  if (config.task task).readyQueued = some cpu then
    (config.setReadyQueued task none).setPhase (.cpu cpu) (.claimCount task)
  else config.setPhase (.cpu cpu) (.claimRollback task left)

def claimRollbackStep (cpu : Fin cpus) (task : τ) (left : ℕ) : SchedConfig cpus helpers τ :=
  if (config.task task).onCpu = some cpu then
    (config.setOnCpu task none).setPhase (.cpu cpu) (.claimRecheck task left)
  else config.setPhase (.cpu cpu) (.claimRecheck task left)

def claimRecheckStep (cpu : Fin cpus) (task : τ) (left : ℕ) : SchedConfig cpus helpers τ :=
  if (config.task task).readyQueued = some cpu then
    let requeued := (config.manager cpu).requeueAfterFailedClaim config.params task
    { config.setManager cpu requeued.1 with params := requeued.2 }.setPhase (.cpu cpu)
      (.claimPop left)
  else config.setPhase (.cpu cpu) (.claimStale task)

def claimCountStep (cpu : Fin cpus) (task : τ) : SchedConfig cpus helpers τ :=
  ((config.setManager cpu (config.manager cpu).completeSelection).decrementReadyTasks
    cpu).unlock (.cpu cpu) cpu (.dispatch task)

def claimStaleStep (cpu : Fin cpus) : SchedConfig cpus helpers τ :=
  (config.decrementReadyTasks cpu).unlock (.cpu cpu) cpu .idle

/-- `run_tasks` looks at the claimed task twice before it runs it. -/
def dispatchStep (cpu : Fin cpus) (task : τ) : SchedConfig cpus helpers τ :=
  if (config.task task).status = .zombie then config.setPhase (.cpu cpu) (.reject task)
  else config.setPhase (.cpu cpu) (.dispatchRun task)

def dispatchRunStep (cpu : Fin cpus) (task : τ) : SchedConfig cpus helpers τ :=
  let block := config.task task
  if block.status ≠ .ready then config.setPhase (.cpu cpu) (.reject task)
  else if block.onCpu ≠ some cpu then config.setPhase (.cpu cpu) .idle
  else
    let woken := if block.call = .block then false else block.woken
    (config.setTask task { block with
      status := .running, call := .executing, woken := woken }).setPhase (.cpu cpu)
      (.executing task)

def rejectStep (cpu : Fin cpus) (task : τ) : SchedConfig cpus helpers τ :=
  (config.setOnCpu task none).setPhase (.cpu cpu) .idle

def switchStep (cpu target : Fin cpus) (task : τ) : SchedConfig cpus helpers τ :=
  let block := { config.task task with onCpu := none }
  if block.requeueAfterSwitch = true then
    let status := if block.status = .zombie then .zombie else .ready
    (config.setTask task { block with
      requeueAfterSwitch := false, requeueFrontAfterSwitch := false,
      pendingWakeup := false, status := status }).setPhase (.cpu cpu)
      (.addCheck ⟨target, task, block.requeueFrontAfterSwitch, none⟩)
  else (config.setTask task block).setPhase (.cpu cpu) .idle

inductive BlockEntry where
  | wait
  | conditionMet
  | processZombie
  deriving DecidableEq, Repr

inductive OwnStep where
  | yield (front : Bool)
  | block (entry : BlockEntry)
  | stop
  | exit
  | markSleep
  deriving DecidableEq, Repr

def blockStep (cpu : Fin cpus) (task : τ) (entry : BlockEntry) : SchedConfig cpus helpers τ :=
  let block := config.task task
  match entry with
  | .conditionMet => config.setTask task { block with woken := false }
  | .processZombie => config.setTask task { block with status := .running, woken := false }
  | .wait =>
    if block.pendingWakeup = true then
      config.setTask task { block with
        pendingWakeup := false, requeueAfterSwitch := false,
        requeueFrontAfterSwitch := false, status := .running, woken := false }
    else
      (config.setTask task { block with status := .blocked, call := .block }).setPhase
        (.cpu cpu) (.switching task)

def ownStep (cpu : Fin cpus) (task : τ) : OwnStep → SchedConfig cpus helpers τ
  | .yield front =>
    (config.setTask task { config.task task with
      status := .ready, requeueAfterSwitch := true, requeueFrontAfterSwitch := front,
      call := .yield }).setPhase (.cpu cpu) (.switching task)
  | .block entry => config.blockStep cpu task entry
  | .stop =>
    (config.setTask task { config.task task with
      status := .blocked, requeueAfterSwitch := false, requeueFrontAfterSwitch := false,
      call := .stop }).setPhase (.cpu cpu) (.switching task)
  | .exit =>
    (config.setTask task { config.task task with status := .zombie }).setPhase (.cpu cpu)
      (.switching task)
  | .markSleep => config.setTask task { config.task task with status := .sleep }

/-- The section of `wakeup_task` and `wakeup_task_front` under the task lock. -/
def wakeStep (task : τ) (front : Bool) (target : Fin cpus) : SchedConfig cpus helpers τ :=
  let block := config.task task
  if block.status = .zombie then config.setPhase agent .idle
  else if block.groupStopped = true then
    (config.setTask task { block with
      groupStopResume := true, pendingWakeup := true }).setPhase agent .idle
  else
    let marked := { block with woken := true }
    if block.onCpu ≠ none then
      let pending := { marked with pendingWakeup := true }
      (config.setTask task (match block.status with
        | .running => pending
        | .blocked => { pending with
            status := .ready, requeueAfterSwitch := true, requeueFrontAfterSwitch := front }
        | _ => { pending with status := .ready })).setPhase agent .idle
    else match block.status with
      | .running =>
        (config.setTask task { marked with pendingWakeup := true }).setPhase agent .idle
      | .ready => (config.setTask task marked).setPhase agent (.wakeQueued task front)
      | _ =>
        { config.setTask task { marked with status := .ready } with
          params := TaskManager.setParams config.params task
            (config.params task).boostMlfqLevel }.setPhase agent
          (.addCheck ⟨target, task, front, none⟩)

def wakeQueuedStep (task : τ) (front : Bool) : SchedConfig cpus helpers τ :=
  match (config.task task).readyQueued with
  | some _ => config.setPhase agent .idle
  | none => config.setPhase agent (.wakeOnCpu task front)

def wakeOnCpuStep (task : τ) (front : Bool) (target : Fin cpus) : SchedConfig cpus helpers τ :=
  match (config.task task).onCpu with
  | some _ => config.setPhase agent .idle
  | none => config.setPhase agent (.addCheck ⟨target, task, front, none⟩)

def afterRemoval (op : Removal τ) (target : Fin cpus) : Phase cpus τ :=
  match op.after with
  | .nothing => .idle
  | .add => .addCheck ⟨target, op.task, false, none⟩
  | .wake => .wake op.task false

def removeLoadStep (op : Removal τ) (target : Fin cpus) : SchedConfig cpus helpers τ :=
  match (config.task op.task).readyQueued with
  | none => config.setPhase agent (afterRemoval op target)
  | some cpu => config.setPhase agent (.removeTry op cpu)

def removeCheckStep (op : Removal τ) (cpu : Fin cpus) : SchedConfig cpus helpers τ :=
  if (config.task op.task).readyQueued = some cpu then
    let removed := (config.manager cpu).remove op.task
    (config.setManager cpu removed.2).setPhase agent
      (if removed.1 = true then .removeClear op cpu else .removeClearStale op cpu)
  else config.unlock agent cpu (.removeLoad op)

def clearReadyQueued (task : τ) (cpu : Fin cpus) : SchedConfig cpus helpers τ :=
  if (config.task task).readyQueued = some cpu then config.setReadyQueued task none
  else config

def removeStoreStep (op : Removal τ) (cpu target : Fin cpus) : SchedConfig cpus helpers τ :=
  (config.setCount cpu (config.manager cpu).len).unlock agent cpu (afterRemoval op target)

/-- The section of `stop_process` for one task, which is then removed. -/
def groupStopStep (task : τ) : SchedConfig cpus helpers τ :=
  let block := config.task task
  if block.status = .zombie then config
  else
    let resume := if block.groupStopped = true then block.groupStopResume
      else decide (block.status = .ready ∨ block.status = .running)
    let stopped := { block with groupStopped := true, groupStopResume := resume }
    (config.setTask task (if resume = true then
      { stopped with
        status := .blocked, requeueAfterSwitch := false, requeueFrontAfterSwitch := false }
      else stopped)).setPhase agent (.removeLoad ⟨task, .nothing⟩)

/-- The section of `continue_process` for one task. -/
def groupContinueStep (task : τ) : SchedConfig cpus helpers τ :=
  let block := config.task task
  let continued := { block with groupStopped := false, groupStopResume := false }
  if block.groupStopped = true ∧ block.groupStopResume = true ∧ block.status ≠ .zombie then
    (config.setTask task { continued with pendingWakeup := false }).setPhase agent
      (.wake task false)
  else config.setTask task continued

/-! ## Steps -/

/-- The next step of a CPU which is not running a task, or of a busy helper. -/
def advance (target : Fin cpus) (giveUp : Bool) : Option (SchedConfig cpus helpers τ) :=
  match config.phase agent, agent with
  | .idle, _ => none
  | .addCheck op, _ => some (config.addCheckStep agent op)
  | .enqueueTry op, _ =>
    some (config.tryLock agent op.cpu (.enqueueQueued op) (.enqueueTry op))
  | .enqueueQueued op, _ => some (config.enqueueQueuedStep agent op)
  | .enqueueOnCpu op, _ => some (config.enqueueOnCpuStep agent op)
  | .enqueueMark op, _ => some (config.enqueueMarkStep agent op)
  | .enqueueAdd op, _ => some (config.enqueueAddStep agent op)
  | .enqueueCount op, _ => some (config.enqueueCountStep agent op)
  | .claimTry, .cpu cpu => some (config.claimTryStep cpu giveUp)
  | .claimPop left, .cpu cpu => some (config.claimPopStep cpu left)
  | .claimMark task left, .cpu cpu => some (config.claimMarkStep cpu task left)
  | .claimUnqueue task left, .cpu cpu => some (config.claimUnqueueStep cpu task left)
  | .claimRollback task left, .cpu cpu => some (config.claimRollbackStep cpu task left)
  | .claimRecheck task left, .cpu cpu => some (config.claimRecheckStep cpu task left)
  | .claimCount task, .cpu cpu => some (config.claimCountStep cpu task)
  | .claimStale _, .cpu cpu => some (config.claimStaleStep cpu)
  | .dispatch task, .cpu cpu => some (config.dispatchStep cpu task)
  | .dispatchRun task, .cpu cpu => some (config.dispatchRunStep cpu task)
  | .reject task, .cpu cpu => some (config.rejectStep cpu task)
  | .switching task, .cpu cpu => some (config.switchStep cpu target task)
  | .removeLoad op, _ => some (config.removeLoadStep agent op target)
  | .removeTry op cpu, _ =>
    some (config.tryLock agent cpu (.removeCheck op cpu) (.removeLoad op))
  | .removeCheck op cpu, _ => some (config.removeCheckStep agent op cpu)
  | .removeClear op cpu, _ =>
    some ((config.clearReadyQueued op.task cpu).unlock agent cpu (.removeCount op cpu))
  | .removeClearStale op cpu, _ =>
    some ((config.clearReadyQueued op.task cpu).setPhase agent (.removeStore op cpu))
  | .removeStore op cpu, _ => some (config.removeStoreStep agent op cpu target)
  | .removeCount op cpu, _ =>
    some ((config.decrementReadyTasks cpu).setPhase agent (afterRemoval op target))
  | .wake task front, _ => some (config.wakeStep agent task front target)
  | .wakeQueued task front, _ => some (config.wakeQueuedStep agent task front)
  | .wakeOnCpu task front, _ => some (config.wakeOnCpuStep agent task front target)
  | _, _ => none

inductive SchedStep (cpus helpers : ℕ) (τ : Type*) where
  | advance (agent : Agent cpus helpers) (target : Fin cpus) (giveUp : Bool)
  | fetch (cpu : Fin cpus)
  | own (cpu : Fin cpus) (step : OwnStep)
  | spawn (helper : Fin helpers) (task : τ) (target : Fin cpus)
  | wakeup (helper : Fin helpers) (task : τ) (front : Bool)
  | remove (helper : Fin helpers) (op : Removal τ)
  | groupStop (helper : Fin helpers) (task : τ)
  | groupContinue (helper : Fin helpers) (task : τ)
  | adjust (task : τ) (params : SchedParams)

def start (helper : Fin helpers) (started : SchedConfig cpus helpers τ) : Option
    (SchedConfig cpus helpers τ) :=
  if config.phase (.helper helper) = .idle then some started else none

def next : SchedStep cpus helpers τ → Option (SchedConfig cpus helpers τ)
  | .advance agent target giveUp => config.advance agent target giveUp
  | .fetch cpu =>
    if config.phase (.cpu cpu) = .idle then some (config.setPhase (.cpu cpu) .claimTry)
    else none
  | .own cpu step =>
    match config.phase (.cpu cpu) with
    | .executing task => some (config.ownStep cpu task step)
    | _ => none
  | .spawn helper task target =>
    if (config.task task).born = true then none
    else config.start helper ((config.setTask task { config.task task with
      status := .ready, born := true }).setPhase (.helper helper)
        (.addCheck ⟨target, task, false, none⟩))
  | .wakeup helper task front =>
    config.start helper (config.setPhase (.helper helper) (.wake task front))
  | .remove helper op =>
    config.start helper (config.setPhase (.helper helper) (.removeLoad op))
  | .groupStop helper task =>
    config.start helper (config.groupStopStep (.helper helper) task)
  | .groupContinue helper task =>
    config.start helper (config.groupContinueStep (.helper helper) task)
  | .adjust task params =>
    some { config with params := TaskManager.setParams config.params task params }

def boot (cpus helpers : ℕ) (τ : Type*) : SchedConfig cpus helpers τ where
  task := fun _ => {
    status := .zombie, pendingWakeup := false, groupStopped := false,
    groupStopResume := false, requeueAfterSwitch := false,
    requeueFrontAfterSwitch := false, onCpu := none, readyQueued := none, born := false,
    call := .executing, woken := false }
  params := fun _ => ⟨0, 0, 0, 2, 0, 2 ^ cpus - 1⟩
  manager := fun _ => TaskManager.new
  readyTasks := fun _ => 0
  lock := fun _ => none
  phase := fun _ => .idle

end SchedConfig

end Kairix.Sched
