import Kairix.LabelledRun
import Kairix.RecyclingIds

/-!
# Thread and process ids

Ids of threads and processes come from one allocator.  The id of a process belongs to
its handle and is carried by the group leader as well; every other thread has an id of
its own.  Threads are looked up in the id table and are kept in the task list of their
process.  The calls which create, find and remove them are split into their sections:
operations on the table and on the allocator wait in the list `todo` of the thread that
runs the call.
-/

namespace Kairix.TaskIds

open Function RecyclingIds

/-- An operation on the id table, on the allocator or on a control block: `discard`
removes the id from the table and then gives it back. -/
inductive Op (τ : Type*) where
  | unlink (id : ℕ)
  | discard (id : ℕ)
  | free (id : ℕ)
  | link (id : ℕ)
  | drop (target : τ)
  deriving DecidableEq

/-- Where a thread is: in a call of its own, in its exit, or past it. -/
inductive Stage (π τ : Type*) where
  | unborn
  | embryo (linked : Bool)
  | live
  | creating (target : τ)
  | waitChecking (target : τ)
  | waitRemoving (target : τ) (id : ℕ)
  | execRequesting (siblings : List τ)
  | reaping (target : π) (remaining : List τ)
  | exiting (exec auto : Bool)
  | counted (exec auto last : Bool)
  | retained
  | leaving (last : Bool)
  | removed
  | dropped
  deriving DecidableEq

/-- `tid` is the id within the process, zero for the leader. -/
structure Task (π τ : Type*) where
  home : π
  tid : ℕ
  globalTid : ℕ
  autoReap : Bool
  execExit : Bool
  exitCode : Bool
  stage : Stage π τ
  todo : List (Op τ)
  deriving DecidableEq

structure Process (τ : Type*) where
  born : Bool
  pid : ℕ
  tasks : List τ
  alive : ℕ
  isZombie : Bool
  execOwner : Option τ
  cleanupPending : Bool
  reaped : Bool
  released : Bool
  deriving DecidableEq

/-- The table holds weak references; `crashed` tells that an assertion of the allocator
has failed. -/
structure IdConfig (π τ : Type*) where
  ids : Allocator
  table : ℕ → Option τ
  process : π → Process τ
  task : τ → Task π τ
  crashed : Bool

inductive IdStep (π τ : Type*) where
  | fork (caller : τ) (child : π) (leader : τ)
  | spawn (caller target : τ) (tid : ℕ) (auto : Bool)
  | link (caller : τ)
  | start (caller : τ)
  | setAuto (caller : τ)
  | kill (target : π)
  | requestExit (target : τ)
  | execBegin (caller : τ)
  | execRequest (caller : τ)
  | execPromote (caller : τ)
  | execAbandon (caller : τ)
  | waitLook (caller : τ) (id : ℕ)
  | waitCheck (caller : τ)
  | waitRemove (caller : τ)
  | exit (caller : τ)
  | count (caller : τ)
  | detach (caller : τ)
  | drain (target : τ)
  | reap (caller : τ) (child : π)
  | reapTask (caller : τ)
  | reapDone (caller : τ)
  | op (caller : τ)
  deriving DecidableEq

namespace IdConfig

variable {π τ : Type*} [DecidableEq π] [DecidableEq τ]

variable (config s : IdConfig π τ) (caller : τ)

def setTask (target : τ) (task : Task π τ) : IdConfig π τ :=
  { config with task := update config.task target task }

def setProcess (target : π) (process : Process τ) : IdConfig π τ :=
  { config with process := update config.process target process }

def setTable (id : ℕ) (entry : Option τ) : IdConfig π τ :=
  { config with table := update config.table id entry }

def setStage (target : τ) (stage : Stage π τ) : IdConfig π τ :=
  config.setTask target { config.task target with stage := stage }

def setTodo (target : τ) (todo : List (Op τ)) : IdConfig π τ :=
  config.setTask target { config.task target with todo := todo }

def lookup (id : ℕ) : Option τ :=
  (config.table id).filter fun target => (config.task target).stage ≠ .dropped

def At (stage : Stage π τ) : Prop :=
  (config.task caller).stage = stage ∧ (config.task caller).todo = []

instance (config : IdConfig π τ) (caller : τ) (stage : Stage π τ) :
    Decidable (config.At caller stage) := inferInstanceAs (Decidable (_ ∧ _))

def boot (root : π) (first : τ) : IdConfig π τ where
  ids := (Allocator.withStart 1).alloc
  table := update (fun _ => none) 1 (some first)
  process := update (fun _ => ⟨false, 0, [], 0, false, none, false, false, false⟩) root
    ⟨true, 1, [first], 1, false, none, false, false, false⟩
  task := update (fun _ => ⟨root, 0, 0, false, false, false, .unborn, []⟩) first
    ⟨root, 0, 1, false, false, false, .live, []⟩
  crashed := false

/-- A clone without `CLONE_THREAD` takes an id for the new process and builds it. -/
def fork (child : π) (leader : τ) : Option (IdConfig π τ) :=
  if config.At caller .live ∧ (config.process child).born = false ∧
      (config.task leader).stage = .unborn then
    let id := config.ids.nextId
    some ((({ config with ids := config.ids.alloc }.setProcess child
      ⟨true, id, [leader], 1, false, none, false, false, false⟩).setTask leader
        ⟨child, 0, id, false, false, false, .embryo false, []⟩).setStage caller (.creating leader))
  else none

/-- `sys_thread_create`, or a clone with `CLONE_THREAD`, which reaps its thread
automatically; `tid` comes from the allocator of the process. -/
def spawn (caller target : τ) (tid : ℕ) (auto : Bool) : Option (IdConfig π τ) :=
  if config.At caller .live ∧ (config.task target).stage = .unborn ∧ tid ≠ 0 then
    some (({ config with ids := config.ids.alloc }.setTask target
      ⟨(config.task caller).home, tid, config.ids.nextId, auto, false, false, .embryo false,
        []⟩).setStage caller (.creating target))
  else none

def link : Option (IdConfig π τ) :=
  match (config.task caller).stage, (config.task caller).todo with
  | .creating target, [] =>
    if (config.task target).stage = .embryo false then
      some ((config.setTable (config.task target).globalTid (some target)).setStage target
        (.embryo true))
    else none
  | _, _ => none

/-- A new thread is put into its slot, and the new task may run. -/
def start : Option (IdConfig π τ) :=
  match (config.task caller).stage, (config.task caller).todo with
  | .creating target, [] =>
    let task := config.task target
    let process := config.process task.home
    if task.stage ≠ .embryo true then none
    else if task.tid = 0 then some ((config.setStage target .live).setStage caller .live)
    else if ∀ other ∈ process.tasks, (config.task other).tid ≠ task.tid then
      some (((config.setProcess task.home
        { process with tasks := process.tasks ++ [target], alive := process.alive + 1 }).setStage
          target .live).setStage caller .live)
    else none
  | _, _ => none

def setAuto : Option (IdConfig π τ) :=
  if config.At caller .live then
    some (config.setTask caller { config.task caller with autoReap := true })
  else none

/-- A fatal signal or `exit_group` marks the process. -/
def kill (target : π) : Option (IdConfig π τ) :=
  some (config.setProcess target { config.process target with isZombie := true })

/-- `request_tasks_exit` stores an exit code in advance. -/
def requestExit (target : τ) : Option (IdConfig π τ) :=
  if (config.process (config.task target).home).isZombie = true then
    some (config.setTask target { config.task target with exitCode := true })
  else none

/-! ## `de_thread_for_exec` -/

/-- The first caller owns the exec, and another one has to exit. -/
def execBegin : Option (IdConfig π τ) :=
  let task := config.task caller
  let process := config.process task.home
  if config.At caller .live then
    if process.execOwner = none ∨ process.execOwner = some caller then
      some ((config.setProcess task.home { process with execOwner := some caller }).setStage caller
        (.execRequesting (process.tasks.filter (· ≠ caller))))
    else some (config.setTask caller { task with execExit := true })
  else none

def execRequest : Option (IdConfig π τ) :=
  match (config.task caller).stage, (config.task caller).todo with
  | .execRequesting (sibling :: rest), [] =>
    some ((config.setTask sibling { config.task sibling with execExit := true }).setStage caller
      (.execRequesting rest))
  | _, _ => none

/-- No sibling is left in the list, and the caller becomes the leader. -/
def execPromote : Option (IdConfig π τ) :=
  let task := config.task caller
  let process := config.process task.home
  if config.At caller (.execRequesting []) ∧ ∀ other ∈ process.tasks, other = caller then
    let ops : List (Op τ) :=
      if task.globalTid = process.pid then [.unlink process.pid] else [.discard task.globalTid]
    some ((config.setProcess task.home
      { process with tasks := [caller], alive := 1, execOwner := none }).setTask caller
        { task with
          tid := 0, globalTid := process.pid, autoReap := false, execExit := false,
          exitCode := false, stage := .live, todo := ops ++ [.link process.pid] })
  else none

def execAbandon : Option (IdConfig π τ) :=
  if config.At caller (.execRequesting []) ∧
      (config.process (config.task caller).home).isZombie = true then
    some (config.setStage caller .live)
  else none

/-! ## `sys_waittid` -/

def waitLook (id : ℕ) : Option (IdConfig π τ) :=
  if config.At caller .live ∧ (config.task caller).globalTid ≠ id then
    match config.lookup id with
    | some target =>
      if (config.task target).home = (config.task caller).home then
        some (config.setStage caller (.waitChecking target))
      else some config
    | none => some config
  else none

def waitCheck : Option (IdConfig π τ) :=
  match (config.task caller).stage, (config.task caller).todo with
  | .waitChecking target, [] =>
    if (config.task target).exitCode = true then
      some (config.setStage caller (.waitRemoving target (config.task target).globalTid))
    else some (config.setStage caller .live)
  | _, _ => none

/-- The control block is dropped with its last reference. -/
def release (target : τ) : IdConfig π τ :=
  if (config.task target).stage = .retained then config.setStage target .removed else config

def waitRemove : Option (IdConfig π τ) :=
  let task := config.task caller
  match task.stage, task.todo with
  | .waitRemoving target id, [] =>
    let process := config.process task.home
    some (((config.setProcess task.home
      { process with tasks := process.tasks.filter (· ≠ target) }).release target).setTask caller
        { task with stage := .live, todo := [.discard id, .drop target] })
  | _, _ => none

/-! ## `exit_current_and_run_next` -/

/-- The exit code and the state are stored, and the table entry goes early. -/
def exit : Option (IdConfig π τ) :=
  let task := config.task caller
  if config.At caller .live then
    let auto := decide (task.tid ≠ 0) && task.autoReap
    let early := (decide (task.tid = 0) && !task.execExit) || auto
    some (config.setTask caller { task with
      exitCode := true, stage := .exiting task.execExit auto,
      todo := if early = true then [.unlink task.globalTid] else [] })
  else none

/-- The live threads are counted; the last one marks the process. -/
def count : Option (IdConfig π τ) :=
  let task := config.task caller
  match task.stage, task.todo with
  | .exiting exec auto, [] =>
    let process := config.process task.home
    let last := decide (process.alive = 1)
    some ((config.setProcess task.home { process with
      alive := process.alive - 1, cleanupPending := process.cleanupPending || last,
      isZombie := process.isZombie || (last && !exec) }).setStage caller (.counted exec auto last))
  | _, _ => none

/-- The task leaves the list, unless it stays for `sys_waittid`. -/
def detach : Option (IdConfig π τ) :=
  let task := config.task caller
  match task.stage, task.todo with
  | .counted exec auto last, [] =>
    let process := config.process task.home
    if exec = true ∨ auto = true ∨ process.isZombie = true then
      let ops : List (Op τ) :=
        if auto = true then [.free task.globalTid]
        else if task.tid ≠ 0 then [.discard task.globalTid] else []
      some ((config.setProcess task.home { process with
        tasks := process.tasks.filter fun other => (config.task other).tid ≠ task.tid }).setTask
          caller { task with stage := .leaving last, todo := ops })
    else some (config.setStage caller .retained)
  | _, _ => none

/-- A deferred task is dropped, and the last one makes the process reapable. -/
def drain (target : τ) : Option (IdConfig π τ) :=
  let task := config.task target
  match task.stage, task.todo with
  | .leaving last, [] =>
    let process := config.process task.home
    some ((config.setProcess task.home { process with
      cleanupPending := process.cleanupPending && !last }).setStage target .dropped)
  | _, _ => none

/-! ## `reap_zombie_child` -/

def reap (child : π) : Option (IdConfig π τ) :=
  let process := config.process child
  if config.At caller .live ∧ (config.task caller).home ≠ child ∧ process.born = true ∧
      process.reaped = false ∧ process.isZombie = true ∧ process.alive = 0 ∧
      process.cleanupPending = false then
    some ((config.setProcess child { process with tasks := [], reaped := true }).setStage caller
      (.reaping child process.tasks))
  else none

def reapTask : Option (IdConfig π τ) :=
  let task := config.task caller
  match task.stage, task.todo with
  | .reaping child (target :: rest), [] =>
    let id := (config.task target).globalTid
    let ops : List (Op τ) :=
      if id ≠ (config.process child).pid then [.discard id] else [.unlink id]
    some ((config.release target).setTask caller
      { task with stage := .reaping child rest, todo := ops ++ [.drop target] })
  | _, _ => none

/-- `PidHandle::release` gives the id back once. -/
def reapDone : Option (IdConfig π τ) :=
  let task := config.task caller
  match task.stage, task.todo with
  | .reaping child [], [] =>
    let process := config.process child
    let returned := config.setStage caller .live
    if process.released = true then some returned
    else
      match config.ids.dealloc process.pid with
      | some ids =>
        some ({ returned with ids := ids }.setProcess child { process with released := true })
      | none => some { returned with crashed := true }
  | _, _ => none

def op : Option (IdConfig π τ) :=
  match (config.task caller).todo with
  | [] => none
  | .unlink id :: rest => some ((config.setTable id none).setTodo caller rest)
  | .discard id :: rest => some ((config.setTable id none).setTodo caller (.free id :: rest))
  | .free id :: rest =>
    match config.ids.dealloc id with
    | some ids => some ({ config with ids := ids }.setTodo caller rest)
    | none => some { config.setTodo caller rest with crashed := true }
  | .link id :: rest => some ((config.setTable id (some caller)).setTodo caller rest)
  | .drop target :: rest =>
    let dropped :=
      if (config.task target).stage = .removed then config.setStage target .dropped else config
    some (dropped.setTodo caller rest)

def next : IdStep π τ → Option (IdConfig π τ)
  | .fork caller child leader => config.fork caller child leader
  | .spawn caller target tid auto => config.spawn caller target tid auto
  | .link caller => config.link caller
  | .start caller => config.start caller
  | .setAuto caller => config.setAuto caller
  | .kill target => config.kill target
  | .requestExit target => config.requestExit target
  | .execBegin caller => config.execBegin caller
  | .execRequest caller => config.execRequest caller
  | .execPromote caller => config.execPromote caller
  | .execAbandon caller => config.execAbandon caller
  | .waitLook caller id => config.waitLook caller id
  | .waitCheck caller => config.waitCheck caller
  | .waitRemove caller => config.waitRemove caller
  | .exit caller => config.exit caller
  | .count caller => config.count caller
  | .detach caller => config.detach caller
  | .drain target => config.drain target
  | .reap caller child => config.reap caller child
  | .reapTask caller => config.reapTask caller
  | .reapDone caller => config.reapDone caller
  | .op caller => config.op caller

end IdConfig

end Kairix.TaskIds
