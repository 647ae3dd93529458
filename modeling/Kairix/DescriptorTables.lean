import Kairix.SysError
import Mathlib.Tactic

/-!
# Descriptor tables

A process refers to a table of open files which it may share with other
processes.  The descriptor and its flags are stored in two vectors whose lengths
always change together, so a table is one list of slots.  Every call works on the
table in one section; what the limit on descriptors is and whether the socket
manager knows a descriptor is read elsewhere and is an input of the section.
-/

namespace Kairix.Descriptors

inductive OpenFile where
  | description (address : ℕ)
  | socketFile (fd pid : ℕ)
  deriving DecidableEq, Repr

def OpenFile.isSocket : OpenFile → Bool
  | .description _ => false
  | .socketFile _ _ => true

structure Slot where
  file : Option OpenFile
  flags : ℕ
  deriving DecidableEq, Repr

def Slot.free : Slot := ⟨none, 0⟩

def fdCloexecFlag : ℕ := 1

def oCloexec : ℕ := 0o2000000

structure FilesContext where
  slots : List Slot
  deriving DecidableEq, Repr

/-- What a section leaves to its call: files which it has taken out of the table and
still has to release, or a slot which it may clear again. -/
inductive Effect where
  | closed (files : List OpenFile)
  | installed (fd : ℕ)
  deriving DecidableEq, Repr

def Effect.none : Effect := .closed []

def Effect.removed : Effect → List OpenFile
  | .closed files => files
  | .installed _ => []

@[simp] theorem Effect.removed_closed (files : List OpenFile) :
    (Effect.closed files).removed = files := rfl

@[simp] theorem Effect.removed_installed (fd : ℕ) : (Effect.installed fd).removed = [] := rfl

namespace FilesContext

def file (context : FilesContext) (fd : ℕ) : Option OpenFile :=
  context.slots[fd]?.bind Slot.file

def flags (context : FilesContext) (fd : ℕ) : ℕ :=
  (context.slots[fd]?.map Slot.flags).getD 0

variable (context : FilesContext)

def files : List OpenFile :=
  context.slots.filterMap Slot.file

def put (fd : ℕ) (slot : Slot) : FilesContext :=
  ⟨context.slots.set fd slot⟩

def allocFd (maxFd : ℕ) : Except SysError (FilesContext × ℕ) :=
  match (List.range (min maxFd context.slots.length)).find? fun fd =>
      (context.file fd).isNone with
  | some fd => .ok (context, fd)
  | none =>
    if context.slots.length < maxFd then
      .ok (⟨context.slots ++ [.free]⟩, context.slots.length)
    else .error .emfile

def install (maxFd : ℕ) (file : ℕ → OpenFile) (closeOnExec : Bool) : Except SysError
    (FilesContext × ℕ) :=
  match context.allocFd maxFd with
  | .error error => .error error
  | .ok (grown, fd) =>
    .ok (grown.put fd ⟨some (file fd),
      if closeOnExec = true then grown.flags fd ||| fdCloexecFlag else grown.flags fd⟩, fd)

def take (context : FilesContext) : List ℕ → FilesContext × List OpenFile
  | [] => (context, [])
  | fd :: rest =>
    match context.file fd with
    | none => context.take rest
    | some file =>
      let later := (context.put fd .free).take rest
      (later.1, file :: later.2)

def mark (context : FilesContext) : List ℕ → FilesContext
  | [] => context
  | fd :: rest =>
    match context.file fd with
    | none => context.mark rest
    | some file => (context.put fd ⟨some file, context.flags fd ||| fdCloexecFlag⟩).mark rest

def rangeOf (first last : ℕ) : List ℕ :=
  List.range' first (min last (context.slots.length - 1) + 1 - first)

def duplicate (file : OpenFile) (managed : Bool) (fd pid : ℕ) : OpenFile :=
  if file.isSocket && managed then .socketFile fd pid else file

def firstClosed (context : FilesContext) (stop : ℕ) : ℕ → ℕ → ℕ
  | 0, fd => fd
  | fuel + 1, fd =>
    if fd < stop ∧ (context.file fd).isSome then context.firstClosed stop fuel (fd + 1) else fd

def reach (fd : ℕ) : FilesContext :=
  ⟨context.slots ++ List.replicate (fd + 1 - context.slots.length) .free⟩

end FilesContext

/-! ## Calls -/

inductive FileCall where
  | openFile (maxFd address : ℕ) (closeOnExec : Bool)
  | accept (maxFd : ℕ)
  | close (fd : ℕ)
  | closeRange (first last : ℕ) (markOnly : Bool)
  | dup (fd maxFd : ℕ) (managed : Bool)
  | dup3 (oldFd newFd flags maxFd : ℕ) (managed : Bool)
  | dupFd (fd least maxFd : ℕ) (closeOnExec managed : Bool)
  | setFd (fd argument : ℕ)
  | clearSlot (fd : ℕ)
  deriving DecidableEq, Repr

namespace FilesContext

variable (context : FilesContext)

def sysOpen (maxFd address : ℕ) (closeOnExec : Bool) : Except SysError (FilesContext × Effect) :=
  (context.install maxFd (fun _ => .description address) closeOnExec).map fun result =>
    (result.1, .none)

/-- The descriptor of an accepted connection, which is cleared again if the peer
address cannot be written. -/
def sysAccept (pid maxFd : ℕ) : Except SysError (FilesContext × Effect) :=
  (context.install maxFd (fun fd => .socketFile fd pid) false).map fun result =>
    (result.1, .installed result.2)

def sysClose (fd : ℕ) : Except SysError (FilesContext × Effect) :=
  match context.file fd with
  | none => .error .ebadf
  | some file => .ok (context.put fd .free, Effect.closed [file])

def sysCloseRange (first last : ℕ) (markOnly : Bool) : Except SysError (FilesContext × Effect) :=
  if last < first then .error .einval
  else if markOnly = true then .ok (context.mark (context.rangeOf first last), .none)
  else
    let taken := context.take (context.rangeOf first last)
    .ok (taken.1, Effect.closed taken.2)

def sysDup (pid fd maxFd : ℕ) (managed : Bool) : Except SysError (FilesContext × Effect) :=
  match context.file fd with
  | none => .error .ebadf
  | some file =>
    (context.install maxFd (fun newFd => duplicate file managed newFd pid) false).map
      fun result => (result.1, .none)

/-- The file which `dup3` stores; a descriptor which only the socket manager knows
is accepted. -/
def dupSource (file : Option OpenFile) (managed : Bool) (fd pid : ℕ) : Option OpenFile :=
  match file with
  | some file => some (duplicate file managed fd pid)
  | none => if managed = true then some (.socketFile fd pid) else none

def sysDup3 (pid oldFd newFd flags maxFd : ℕ) (managed : Bool) : Except SysError
    (FilesContext × Effect) :=
  if maxFd ≤ newFd then .error .ebadf
  else if oldFd = newFd then .error .einval
  else if flags ≠ 0 ∧ flags ≠ oCloexec then .error .einval
  else
    match dupSource (context.file oldFd) managed newFd pid with
    | none => .error .ebadf
    | some file =>
      .ok ((context.reach newFd).put newFd
        ⟨some file, if flags = oCloexec then fdCloexecFlag else 0⟩,
        Effect.closed (context.file newFd).toList)

/-- `F_DUPFD` and `F_DUPFD_CLOEXEC`.  A socket descriptor is cleared again if the
socket manager has lost the socket in the meantime. -/
def sysDupFd (pid fd least maxFd : ℕ) (closeOnExec managed : Bool) : Except SysError
    (FilesContext × Effect) :=
  match context.file fd with
  | none => .error .ebadf
  | some file =>
    let newFd := context.firstClosed (min maxFd context.slots.length) context.slots.length least
    if maxFd ≤ newFd then .error .emfile
    else
      .ok ((context.reach newFd).put newFd
        ⟨some (duplicate file managed newFd pid), if closeOnExec = true then fdCloexecFlag else 0⟩,
        if (file.isSocket && managed) = true then .installed newFd else .none)

/-- The close-on-exec bit of the argument replaces that of the descriptor. -/
def sysSetFd (fd argument : ℕ) : Except SysError (FilesContext × Effect) :=
  match context.file fd with
  | none => .error .ebadf
  | some file =>
    let kept := context.flags fd - (context.flags fd &&& fdCloexecFlag)
    .ok (context.put fd ⟨some file, kept ||| (argument &&& fdCloexecFlag)⟩, .none)

def run (pid : ℕ) : FileCall → Except SysError (FilesContext × Effect)
  | .openFile maxFd address closeOnExec => context.sysOpen maxFd address closeOnExec
  | .accept maxFd => context.sysAccept pid maxFd
  | .close fd => context.sysClose fd
  | .closeRange first last markOnly => context.sysCloseRange first last markOnly
  | .dup fd maxFd managed => context.sysDup pid fd maxFd managed
  | .dup3 oldFd newFd flags maxFd managed => context.sysDup3 pid oldFd newFd flags maxFd managed
  | .dupFd fd least maxFd closeOnExec managed =>
    context.sysDupFd pid fd least maxFd closeOnExec managed
  | .setFd fd argument => context.sysSetFd fd argument
  | .clearSlot fd => .ok (context.put fd .free, .none)

/-- `close_range` looks at the first slot of an empty table. -/
def outOfBounds : FileCall → Bool
  | .closeRange first _ _ => context.slots.isEmpty && first = 0
  | _ => false

def closedOnExec : List ℕ :=
  (List.range context.slots.length).filter fun fd => context.flags fd &&& fdCloexecFlag ≠ 0

end FilesContext

/-! ## Processes -/

structure SharedFiles where
  context : FilesContext
  owners : ℕ
  deriving DecidableEq, Repr

/-- A process is registered at the end of its creation and until it is reaped. -/
inductive Stage where
  | created
  | registered
  | reaped
  deriving DecidableEq, Repr

structure ProcessFiles where
  files : ℕ
  stage : Stage
  isZombie : Bool
  filesReleased : Bool
  deriving DecidableEq, Repr

/-- The tables and the process control blocks, in the order of their creation. -/
structure FilesState where
  shared : List SharedFiles
  processes : List ProcessFiles
  deriving DecidableEq, Repr

inductive FilesStep where
  | call (pid : ℕ) (call : FileCall)
  | clone (pid : ℕ) (shareFiles : Bool)
  | register (pid : ℕ)
  | exec (pid : ℕ)
  | beginExit (pid : ℕ)
  | closeAllFiles (pid : ℕ)
  | reap (pid : ℕ)
  deriving DecidableEq, Repr

namespace FilesState

def start (context : FilesContext) : FilesState :=
  ⟨[⟨context, 1⟩], [⟨0, .registered, false, false⟩]⟩

def registered (state : FilesState) (pid : ℕ) : Option ProcessFiles :=
  state.processes[pid]?.filter fun process => process.stage = .registered

variable (state s : FilesState) (pid : ℕ)

def sharedOf (process : ProcessFiles) : SharedFiles :=
  state.shared.getD process.files ⟨⟨[]⟩, 0⟩

def setShared (index : ℕ) (shared : SharedFiles) : FilesState :=
  { state with shared := state.shared.set index shared }

def setProcess (process : ProcessFiles) : FilesState :=
  { state with processes := state.processes.set pid process }

/-- A call of a process on its table; a refused call changes nothing, and one which
reads behind the table never returns. -/
def callOn (call : FileCall) : Option (FilesState × Effect) :=
  match state.registered pid with
  | none => none
  | some process =>
    let shared := state.sharedOf process
    if shared.context.outOfBounds call = true then none
    else match shared.context.run pid call with
    | .error _ => some (state, .none)
    | .ok (context, effect) =>
      some (state.setShared process.files { shared with context := context }, effect)

/-- The part of `clone` which gives the child its table. -/
def clone (shareFiles : Bool) : Option (FilesState × Effect) :=
  match state.registered pid with
  | none => none
  | some process =>
    let shared := state.sharedOf process
    if shareFiles = true then
      some (⟨state.shared.set process.files { shared with owners := shared.owners + 1 },
        state.processes ++ [⟨process.files, .created, false, false⟩]⟩, .none)
    else
      some (⟨state.shared ++ [⟨shared.context, 1⟩],
        state.processes ++ [⟨state.shared.length, .created, false, false⟩]⟩, .none)

/-- The end of `clone`, when the child becomes visible to others. -/
def register : Option (FilesState × Effect) :=
  match state.processes[pid]? with
  | none => none
  | some process =>
    if process.stage = .created then
      some (state.setProcess pid { process with stage := .registered }, .none)
    else none

/-- The part of `execve` which gives the process its own table and closes
descriptors in it. -/
def exec : Option (FilesState × Effect) :=
  match state.registered pid with
  | none => none
  | some process =>
    if process.filesReleased = true then none
    else
      let shared := state.sharedOf process
      let taken := shared.context.take shared.context.closedOnExec
      some (⟨state.shared.set process.files { shared with owners := shared.owners - 1 } ++
          [⟨taken.1, 1⟩],
        state.processes.set pid { process with files := state.shared.length }⟩,
        Effect.closed taken.2)

/-- `exit_group`, the exit of the last thread or a fatal signal mark the process. -/
def beginExit : Option (FilesState × Effect) :=
  match state.registered pid with
  | none => none
  | some process => some (state.setProcess pid { process with isZombie := true }, .none)

/-- `close_all_files_on_exit`: only the last owner empties the table. -/
def closeAllFiles : Option (FilesState × Effect) :=
  match state.registered pid with
  | none => none
  | some process =>
    if process.isZombie = false then none
    else if process.filesReleased = true then some (state, .none)
    else
      let shared := state.sharedOf process
      let released := { process with filesReleased := true }
      if shared.owners = 1 then
        some ((state.setShared process.files ⟨⟨[]⟩, 0⟩).setProcess pid released,
          Effect.closed shared.context.files)
      else
        some ((state.setShared process.files
          { shared with owners := shared.owners - 1 }).setProcess pid released, .none)

/-- `reap_zombie_child` empties the table which the process still refers to. -/
def reap : Option (FilesState × Effect) :=
  match state.registered pid with
  | none => none
  | some process =>
    if process.isZombie = true ∧ process.filesReleased = true then
      let shared := state.sharedOf process
      some ((state.setShared process.files { shared with context := ⟨[]⟩ }).setProcess pid
        { process with stage := .reaped }, Effect.closed shared.context.files)
    else none

def step : FilesStep → Option (FilesState × Effect)
  | .call pid call => state.callOn pid call
  | .clone pid shareFiles => state.clone pid shareFiles
  | .register pid => state.register pid
  | .exec pid => state.exec pid
  | .beginExit pid => state.beginExit pid
  | .closeAllFiles pid => state.closeAllFiles pid
  | .reap pid => state.reap pid

def next (step : FilesStep) : Option FilesState :=
  (state.step step).map Prod.fst

end FilesState

end Kairix.Descriptors
