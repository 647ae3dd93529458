import Kairix.TaskWaking
import Kairix.LabelledRun

/-!
# The blocking mutex

Tasks lock, try to lock and unlock one mutex.  A step is one section under the spin
lock of the mutex or under a task lock; between the sections the task may be woken or
stopped by others, and every other task may take steps.
-/

namespace Kairix.BlockingMutex

open LabelledRun Sched Waking

def fairHandoffTimeoutNs : ℕ := 10000000

def fairHandoffInterval : ℕ := 8

/-- Where a task is in the code of the mutex: before a section of `lock`, between its
entry in the wait queue and its block call, in that call, with a guard, before it wakes
the waiter it has removed from the queue, or before it looks for another one. -/
inductive Phase (τ : Type*) where
  | outside
  | acquiring
  | parking
  | parked
  | holding
  | waking (waiter : τ)
  | relocking (failed : τ)
  deriving DecidableEq

/-- `exitRequested` stands for the two zombie flags which cancel a block call, and
`dropped` for a task without strong references. -/
structure MutexTask (τ : Type*) where
  state : TaskState
  exitRequested : Bool
  dropped : Bool
  phase : Phase τ
  deriving DecidableEq

structure MutexConfig (τ : Type*) where
  fair : Bool
  locked : Bool
  handoff : Option τ
  handoffStartedNs : ℕ
  fairBypassReleases : ℕ
  waitQueue : List τ
  task : τ → MutexTask τ

/-- What a task which executes does next; `now` is the time it reads, `seen` whether
it finds the woken task in a run queue or on a CPU. -/
inductive Action where
  | beginLock
  | lockSection (now : ℕ)
  | park
  | tryLock (now : ℕ)
  | unlock (now : ℕ)
  | wakeWaiter (seen : Bool)
  | relock (now : ℕ)
  | sleep
  | suspend (processStopped : Bool)
  | exit
  deriving DecidableEq, Repr

inductive Event where
  | claim
  | dispatch
  | finishSwitch
  | wakeup
  | groupStop
  | groupContinue
  | requestExit
  | drop
  deriving DecidableEq, Repr

inductive MutexStep (τ : Type*) where
  | act (task : τ) (action : Action)
  | event (task : τ) (event : Event)
  deriving DecidableEq

namespace MutexConfig

variable {τ : Type*}

def start (fair : Bool) : MutexConfig τ :=
  ⟨fair, false, none, 0, 0, [], fun _ => ⟨.fresh, false, false, .outside⟩⟩

/-- `handoff_allows_acquire`: the mutex after the reservation is cleared, if the caller
may acquire it. -/
def handoffAllowsAcquire [DecidableEq τ] (config : MutexConfig τ) (waiting : Option τ)
    (now : ℕ) : Option (MutexConfig τ) :=
  let cleared := { config with handoff := none, handoffStartedNs := 0 }
  if config.fair = false then some config
  else match config.handoff with
    | none => some cleared
    | some reserved =>
      if (config.task reserved).dropped = true then some cleared
      else if waiting = some reserved then some cleared
      else if fairHandoffTimeoutNs ≤ now - config.handoffStartedNs then some cleared
      else none

def popWaiter (config : MutexConfig τ) : List τ → Option (τ × List τ)
  | [] => none
  | entry :: rest =>
    if (config.task entry).dropped = true then config.popWaiter rest else some (entry, rest)

variable [DecidableEq τ]

variable (config s : MutexConfig τ) (task : τ)

def setTask (record : MutexTask τ) : MutexConfig τ :=
  { config with task := Function.update config.task task record }

def setPhase (phase : Phase τ) : MutexConfig τ :=
  config.setTask task { config.task task with phase := phase }

def setState (state : TaskState) : MutexConfig τ :=
  config.setTask task { config.task task with state := state }

def acquire : MutexConfig τ :=
  { config with locked := true }.setPhase task .holding

/-- One round of the loop of `lock`, up to the block call. -/
def lockSection (now : ℕ) : MutexConfig τ :=
  let allowed := if config.locked = true then none
    else config.handoffAllowsAcquire (some task) now
  match allowed with
  | some cleared => cleared.acquire task
  | none =>
    { config with
      waitQueue := if task ∈ config.waitQueue then config.waitQueue
        else config.waitQueue ++ [task] }.setPhase task .parking

/-- `block_current_kernel_continuation`. -/
def park : MutexConfig τ :=
  let record := config.task task
  let state := record.state.block (if record.exitRequested = true then .processZombie else .wait)
  config.setTask task { record with
    state := state
    phase := if state.place = .switching then .parked else .acquiring }

def tryLock (now : ℕ) : MutexConfig τ :=
  let allowed := if config.locked = true then none else config.handoffAllowsAcquire none now
  match allowed with
  | some cleared => cleared.acquire task
  | none => config

/-- One round of the loop of a guard's `drop`, up to the wake-up. -/
def nextWaiter (now : ℕ) : MutexConfig τ :=
  match config.popWaiter config.waitQueue with
  | none =>
    { config with
      waitQueue := []
      handoff := none
      handoffStartedNs := 0
      fairBypassReleases := 0 }.setPhase task .outside
  | some (waiter, rest) =>
    let releases := config.fairBypassReleases + 1
    let reserve := config.fair = true ∧ fairHandoffInterval ≤ releases
    { config with
      waitQueue := rest
      handoff := if reserve then some waiter else none
      handoffStartedNs := if reserve then now else 0
      fairBypassReleases := if config.fair = false then config.fairBypassReleases
        else if reserve then 0 else releases }.setPhase task (.waking waiter)

def unlock (now : ℕ) : MutexConfig τ :=
  { config with locked := false }.nextWaiter task now

/-- The result of `wakeup_task_front`, whose last lines look for the task. -/
def wakeResult (state : TaskState) (seen : Bool) : Bool :=
  if state.status = .zombie then false
  else if state.groupStopped = true then true
  else if state.place ≠ .offCpu then true
  else if state.status = .running then true
  else seen

def wakeWaiter (task waiter : τ) (seen : Bool) : MutexConfig τ :=
  let state := (config.task waiter).state
  (config.setState waiter state.wakeup).setPhase task
    (if wakeResult state seen = true then .outside else .relocking waiter)

def relock (task failed : τ) (now : ℕ) : MutexConfig τ :=
  (if config.handoff = some failed ∧ (config.task failed).dropped = false then
    { config with handoff := none, handoffStartedNs := 0 } else config).nextWaiter task now

/-- The scheduler calls which a task makes outside the code of the mutex. -/
def schedule : Action → Option (MutexConfig τ)
  | .sleep => some (config.setState task ((config.task task).state.block
      (if (config.task task).exitRequested = true then .processZombie else .wait)))
  | .suspend processStopped =>
    some (config.setState task ((config.task task).state.suspend processStopped))
  | _ => none

def act : Action → Phase τ → Option (MutexConfig τ)
  | .beginLock, .outside => some (config.setPhase task .acquiring)
  | .lockSection now, .acquiring => some (config.lockSection task now)
  | .park, .parking => some (config.park task)
  | .tryLock now, .outside => some (config.tryLock task now)
  | .unlock now, .holding => some (config.unlock task now)
  | .wakeWaiter seen, .waking waiter => some (config.wakeWaiter task waiter seen)
  | .relock now, .relocking failed => some (config.relock task failed now)
  | .exit, .outside => some (config.setState task (config.task task).state.exit)
  | action, .outside => config.schedule task action
  | action, .holding => config.schedule task action
  | _, _ => none

/-- A task which a CPU runs again returns from its block call. -/
def dispatch (config : MutexConfig τ) (task : τ) : MutexConfig τ :=
  let record := config.task task
  let state := record.state.dispatch
  config.setTask task { record with
    state := state
    phase := if state.place = .executing ∧ record.phase = .parked then .acquiring
      else record.phase }

def requestExit : MutexConfig τ :=
  let record := config.task task
  config.setTask task { record with
    exitRequested := true
    state := if record.state.status = .running then record.state else record.state.wakeup }

def happen : Event → Option (MutexConfig τ)
  | .claim =>
    if (config.task task).state.place = .offCpu then
      some (config.setState task { (config.task task).state with place := .claimed })
    else none
  | .dispatch =>
    if (config.task task).state.place = .claimed then some (config.dispatch task) else none
  | .finishSwitch =>
    if (config.task task).state.place = .switching then
      some (config.setState task (config.task task).state.finishSwitch)
    else none
  | .wakeup => some (config.setState task (config.task task).state.wakeup)
  | .groupStop => some (config.setState task (config.task task).state.groupStop)
  | .groupContinue => some (config.setState task (config.task task).state.groupContinue)
  | .requestExit => some (config.requestExit task)
  | .drop =>
    if (config.task task).state.status = .zombie ∧ (config.task task).state.place = .offCpu then
      some (config.setTask task { config.task task with dropped := true })
    else none

def next : MutexStep τ → Option (MutexConfig τ)
  | .act task action =>
    if (config.task task).state.place = .executing then
      config.act task action (config.task task).phase
    else none
  | .event task event => config.happen task event

end MutexConfig

end Kairix.BlockingMutex
