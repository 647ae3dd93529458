import Kairix.DescriptorTables
import Kairix.RecordLocks

/-!
# Whole-file locks

The locks of `flock` belong to open file descriptions, which are named by their
address.  A call holds its description while it runs and works in sections under
the lock of the table of locks.  After the descriptor of a description has been
taken out of a table, and after a lock has been granted, a call looks through the
tables of all processes one by one and drops the locks of a description it has not
found.
-/

namespace Kairix.Flock

open Descriptors RecordLock

variable {κ τ : Type*}

def flockConflicts (locks : List FlockLock) (ownerFile : ℕ) (requestedExclusive : Bool) : Bool :=
  locks.any fun lock => lock.ownerFile ≠ ownerFile && (lock.exclusive || requestedExclusive)

def dropLocks (ownerFile : ℕ) (locks : List FlockLock) : List FlockLock :=
  locks.filter fun lock => lock.ownerFile ≠ ownerFile

/-- Drop the locks of a description on an inode, and empty the queue of waiters if
there was one. -/
def dropFlock (ownerFile : ℕ) (inode : InodeLocks τ) : InodeLocks τ :=
  let locks := dropLocks ownerFile inode.flockLocks
  { inode with
    flockLocks := locks
    flockWaiters := if locks.length = inode.flockLocks.length then inode.flockWaiters else [] }

section

variable [DecidableEq τ]

def registerFlockWaiter (alive : τ → Bool) (task : τ) (inode : InodeLocks τ) : InodeLocks τ :=
  let waiters := inode.flockWaiters.filter alive
  { inode with flockWaiters := if task ∈ waiters then waiters else waiters ++ [task] }

def removeFlockWaiter (alive : τ → Bool) (task : τ) (inode : InodeLocks τ) : InodeLocks τ :=
  { inode with
    flockWaiters := inode.flockWaiters.filter fun waiter => alive waiter && waiter ≠ task }

end

variable [DecidableEq κ]

section

variable (table : RecordLockTable κ τ) (key : κ)

/-- `LOCK_UN`, which is also what the last release does to every inode. -/
def unlockFlock (ownerFile : ℕ) : RecordLockTable κ τ :=
  match table.inodes key with
  | none => table
  | some inode => table.put key (dropFlock ownerFile inode)

def dropAllFlocks (ownerFile : ℕ) : RecordLockTable κ τ :=
  ⟨fun key => (unlockFlock table key ownerFile).inodes key⟩

/-- A lock of the other mode is given up before the new mode is attempted. -/
def convertFlock (ownerFile : ℕ) (requestedExclusive : Bool) : RecordLockTable κ τ :=
  match table.inodes key with
  | none => table
  | some inode =>
    if inode.flockLocks.any (fun lock =>
        lock.ownerFile = ownerFile && lock.exclusive ≠ requestedExclusive) = true then
      table.insert key { inode with
        flockLocks := dropLocks ownerFile inode.flockLocks, flockWaiters := [] }
    else table

def grantFlock (ownerFile : ℕ) (exclusive : Bool) : RecordLockTable κ τ :=
  let inode := table.entry key
  table.insert key { inode with
    flockLocks := dropLocks ownerFile inode.flockLocks ++ [⟨ownerFile, exclusive⟩]
    flockWaiters := [] }

end

structure FlockRequest (κ : Type*) where
  address : ℕ
  key : κ
  exclusive : Bool
  nonblocking : Bool
  deriving DecidableEq

/-- Where a task is in its call.  A releasing call has the files it has taken out of
a table before it, and the process whose record locks go with them. -/
inductive FlockCall (κ : Type*) where
  | idle
  | undoable (pid fd : ℕ)
  | unlock (address : ℕ) (key : κ)
  | convert (request : FlockRequest κ)
  | attempt (request : FlockRequest κ)
  | waiting (request : FlockRequest κ)
  | releasing (owner : Option ℕ) (files : List OpenFile)
  | lookup (address : ℕ) (owner : Option ℕ) (files : List OpenFile)
  | scan (address : ℕ) (processes : List ℕ) (owner : Option ℕ) (files : List OpenFile)
  | drop (address : ℕ) (owner : Option ℕ) (files : List OpenFile)
  deriving DecidableEq

def lockSh : ℕ := 1

def lockEx : ℕ := 2

def lockNb : ℕ := 4

def lockUn : ℕ := 8

/-- The operation of `flock` without its `LOCK_NB` bit, and this bit. -/
def parseOperation (operation : ℕ) : Except SysError (ℕ × Bool) :=
  if 16 ≤ operation then .error .einval
  else
    let nonblocking := operation &&& lockNb ≠ 0
    let command := if nonblocking then operation - lockNb else operation
    if command = lockSh ∨ command = lockEx ∨ command = lockUn then .ok (command, nonblocking)
    else .error .einval

def FlockCall.mentions (address : ℕ) : FlockCall κ → Bool
  | .idle | .undoable _ _ => false
  | .unlock target _ => target = address
  | .convert request | .attempt request | .waiting request => request.address = address
  | .releasing _ files => .description address ∈ files
  | .lookup target _ files | .scan target _ _ files | .drop target _ files =>
    target = address || .description address ∈ files

/-! ## Configurations -/

/-- The descriptor tables, the inode of every description, the locks with the keys on
which locks were ever asked for, and the calls of the tasks. -/
structure FlockConfig (κ : Type*) where
  files : FilesState
  inode : ℕ → Option κ
  locks : RecordLockTable κ ℕ
  keys : List κ
  calls : List (FlockCall κ)

inductive FlockStep (κ : Type*) where
  | openFile (task pid maxFd address : ℕ) (closeOnExec : Bool) (key : Option κ)
  | files (task : ℕ) (step : FilesStep)
  | keepSlot (task : ℕ)
  | undoSlot (task : ℕ)
  | flock (task pid fd operation : ℕ)
  | run (task : ℕ) (alive : ℕ → Bool)
  | resume (task : ℕ) (alive : ℕ → Bool) (interrupted : Bool)
  | record (step : RecordLockTable.LockStep κ ℕ)

def recordOwner : FilesStep → Option ℕ
  | .call pid _ | .exec pid => some pid
  | _ => none

def stepPid : FilesStep → ℕ
  | .call pid _ | .clone pid _ | .register pid | .exec pid | .beginExit pid | .closeAllFiles pid
  | .reap pid => pid

def ownStep : FilesStep → Bool
  | .call _ (.openFile _ _ _) | .call _ (.clearSlot _) => true
  | _ => false

namespace FlockConfig

def start (context : FilesContext) (inode : ℕ → Option κ) (tasks : ℕ) : FlockConfig κ :=
  ⟨.start context, inode, ⟨fun _ => none⟩, [], List.replicate tasks .idle⟩

variable (config s : FlockConfig κ) (task : ℕ)

def setCall (call : FlockCall κ) : FlockConfig κ :=
  { config with calls := config.calls.set task call }

/-- The address of a description is used again only when nothing refers to it. -/
def inUse (address : ℕ) : Bool :=
  config.files.shared.any (fun shared => .description address ∈ shared.context.files) ||
    config.calls.any (FlockCall.mentions address)

def registry : List ℕ :=
  (List.range config.files.processes.length).filter fun pid =>
    (config.files.registered pid).isSome

def refersTo (pid address : ℕ) : Bool :=
  config.files.processes[pid]?.any fun process =>
    .description address ∈ (config.files.sharedOf process).context.files

def hasLock (address : ℕ) : Bool :=
  config.keys.any fun key =>
    (config.locks.entry key).flockLocks.any fun lock => lock.ownerFile = address

def afterFiles (files : FilesState) (step : FilesStep) (effect : Effect) : FlockConfig κ :=
  { config with files := files }.setCall task
    (match effect with
    | .installed fd => .undoable (stepPid step) fd
    | .closed files => .releasing (recordOwner step) files)

/-- `sys_flock` up to its first section. -/
def beginFlock (task pid fd operation : ℕ) : Option (FlockConfig κ) :=
  match config.files.registered pid with
  | none => none
  | some process =>
    match parseOperation operation with
    | .error _ => some config
    | .ok (command, nonblocking) =>
      match (config.files.sharedOf process).context.file fd with
      | some (.description address) =>
        match config.inode address with
        | none => some config
        | some key =>
          if command = lockUn then some (config.setCall task (.unlock address key))
          else some (config.setCall task (.convert ⟨address, key, command = lockEx, nonblocking⟩))
      | _ => some config

def attemptFlock (alive : ℕ → Bool) (request : FlockRequest κ) : FlockConfig κ :=
  let inode := config.locks.entry request.key
  let reached := { config with keys := request.key :: config.keys }
  if flockConflicts inode.flockLocks request.address request.exclusive = false then
    { reached with
      locks := grantFlock config.locks request.key request.address request.exclusive }.setCall
        task (.lookup request.address none [])
  else if request.nonblocking = true then
    { reached with locks := config.locks.insert request.key inode }.setCall task .idle
  else
    { reached with
      locks := config.locks.insert request.key (registerFlockWaiter alive task inode) }.setCall
        task (.waiting request)

def releaseNext (owner : Option ℕ) : List OpenFile → FlockConfig κ
  | [] => config.setCall task .idle
  | .socketFile _ _ :: rest => config.setCall task (.releasing owner rest)
  | .description address :: rest =>
    match owner, config.inode address with
    | none, _ => config.setCall task (.lookup address owner rest)
    | some _, none => config.setCall task (.releasing owner rest)
    | some pid, some key =>
      { config with locks := config.locks.dropOwner pid key }.setCall task
        (.lookup address owner rest)

def runCall (alive : ℕ → Bool) : FlockCall κ → Option (FlockConfig κ)
  | .idle | .undoable _ _ | .waiting _ => none
  | .unlock address key =>
    some ({ config with locks := unlockFlock config.locks key address }.setCall task .idle)
  | .convert request =>
    some ({ config with
      locks := convertFlock config.locks request.key request.address
        request.exclusive }.setCall task (.attempt request))
  | .attempt request => some (config.attemptFlock task alive request)
  | .releasing owner files => some (config.releaseNext task owner files)
  | .lookup address owner files =>
    if config.hasLock address = true then
      some (config.setCall task (.scan address config.registry owner files))
    else some (config.setCall task (.releasing owner files))
  | .scan address [] owner files => some (config.setCall task (.drop address owner files))
  | .scan address (pid :: processes) owner files =>
    if config.refersTo pid address = true then
      some (config.setCall task (.releasing owner files))
    else some (config.setCall task (.scan address processes owner files))
  | .drop address owner files =>
    some ({ config with locks := dropAllFlocks config.locks address }.setCall task
      (.releasing owner files))

/-- A blocked call tries again, or gives up after a signal or when its process has
died. -/
def resumeCall (alive : ℕ → Bool) (interrupted : Bool) : FlockCall κ → Option (FlockConfig κ)
  | .waiting request =>
    if interrupted = true then
      some ({ config with
        locks := match config.locks.inodes request.key with
          | none => config.locks
          | some inode =>
            config.locks.put request.key (removeFlockWaiter alive task inode) }.setCall
            task .idle)
    else some (config.setCall task (.attempt request))
  | _ => none

def next (config : FlockConfig κ) : FlockStep κ → Option (FlockConfig κ)
  | .openFile task pid maxFd address closeOnExec key =>
    if config.calls[task]? = some .idle ∧ config.inUse address = false then
      (config.files.step (.call pid (.openFile maxFd address closeOnExec))).map fun result =>
        { config with files := result.1, inode := Function.update config.inode address key }
    else none
  | .files task step =>
    if config.calls[task]? = some .idle ∧ ownStep step = false then
      (config.files.step step).map fun result =>
        config.afterFiles task result.1 step result.2
    else none
  | .keepSlot task =>
    match config.calls[task]? with
    | some (.undoable _ _) => some (config.setCall task .idle)
    | _ => none
  | .undoSlot task =>
    match config.calls[task]? with
    | some (.undoable pid fd) =>
      (config.files.step (.call pid (.clearSlot fd))).map fun result =>
        { config with files := result.1 }.setCall task .idle
    | _ => none
  | .flock task pid fd operation =>
    if config.calls[task]? = some .idle then config.beginFlock task pid fd operation else none
  | .run task alive =>
    match config.calls[task]? with
    | none => none
    | some call => config.runCall task alive call
  | .resume task alive interrupted =>
    match config.calls[task]? with
    | none => none
    | some call => config.resumeCall task alive interrupted call
  | .record step =>
    match step with
    | .flock _ _ _ => none
    | step => (config.locks.next step).map fun locks => { config with locks := locks }

end FlockConfig

end Kairix.Flock
