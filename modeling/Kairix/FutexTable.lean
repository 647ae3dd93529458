import Kairix.QueueTable
import Kairix.PiFutex
import Kairix.SysError

/-!
# The futex table

Waiters sit in queues under the keys of their futex words.  Every call has one
section under the table lock; the words which it reads there are inputs, since
user space may change them at any time.  A waiter is given a ticket when it
enters the table, and the ticket is written down with a cause when it leaves.
-/

namespace Kairix.Futex

/-- An entry of a queue.  `wakeIndex` is the position in a `futex_waitv` call,
`ticket` the number under which the entry was queued. -/
structure TableWaiter (κ τ : Type*) where
  task : τ
  bitset : Word
  deadline : Option ℕ
  wakeIndex : Option ℕ
  piWaiter : Bool
  requeuePiTarget : Option κ
  ticket : ℕ
  deriving DecidableEq

inductive Cause where
  | woken
  | timedOut
  | removed
  | sibling
  deriving DecidableEq, Repr

structure TableState (κ τ : Type*) [LinearOrder κ] where
  table : QueueTable κ (TableWaiter κ τ)
  piStates : κ → Bool
  issued : ℕ
  departed : List (ℕ × Cause)

def futexBitsetMatchAny : Word := 0xffffffff#32

def futexWaitvMax : ℕ := 128

/-- One futex of a `futex_waitv` call: the expected value, and what is read
before and under the table lock. -/
structure WaitvEntry (κ : Type*) where
  key : κ
  value : Word
  early : Option Word
  observed : Option Word

/-! ## Operations of `futex_wake_op` -/

structure WakeOperation where
  op : ℕ
  cmp : ℕ
  opArg : Word
  cmpArg : Word
  deriving DecidableEq, Repr

def signExtend12 (value : Word) : Word := (value <<< 20).sshiftRight 20

def decodeWakeOp (encoded : Word) : Except SysError WakeOperation :=
  let op := ((encoded >>> 28) &&& 0xf#32).toNat
  let cmp := ((encoded >>> 24) &&& 0xf#32).toNat
  let opArg := signExtend12 ((encoded >>> 12) &&& 0xfff#32)
  let cmpArg := signExtend12 (encoded &&& 0xfff#32)
  if 8 ≤ op then
    if opArg.toInt < 0 ∨ 32 ≤ opArg.toInt then .error .einval
    else if 4 < op - 8 ∨ 5 < cmp then .error .enosys
    else .ok ⟨op - 8, cmp, 1#32 <<< opArg.toNat, cmpArg⟩
  else if 4 < op ∨ 5 < cmp then .error .enosys
  else .ok ⟨op, cmp, opArg, cmpArg⟩

/-- The word which `futex_wake_op` stores. -/
def WakeOperation.apply (operation : WakeOperation) (old : Word) : Word :=
  match operation.op with
  | 0 => operation.opArg
  | 1 => old + operation.opArg
  | 2 => old ||| operation.opArg
  | 3 => old &&& ~~~operation.opArg
  | _ => old ^^^ operation.opArg

def WakeOperation.compare (operation : WakeOperation) (old : Word) : Bool :=
  match operation.cmp with
  | 0 => old.toInt = operation.cmpArg.toInt
  | 1 => old.toInt ≠ operation.cmpArg.toInt
  | 2 => old.toInt < operation.cmpArg.toInt
  | 3 => old.toInt ≤ operation.cmpArg.toInt
  | 4 => operation.cmpArg.toInt < old.toInt
  | _ => operation.cmpArg.toInt ≤ old.toInt

variable {κ τ : Type*}

namespace TableWaiter

def special (waiter : TableWaiter κ τ) : Bool :=
  waiter.piWaiter || waiter.requeuePiTarget.isSome

def matchesBitset (bitset : Word) (waiter : TableWaiter κ τ) : Bool :=
  waiter.bitset &&& bitset != 0

end TableWaiter

/-- Split a queue into the first waiters which pass the test, at most `limit` of
them, and the remaining ones. -/
def takeMatching (test : TableWaiter κ τ → Bool) :
    ℕ → List (TableWaiter κ τ) → List (TableWaiter κ τ) × List (TableWaiter κ τ)
  | _, [] => ([], [])
  | limit, waiter :: rest =>
    if 0 < limit ∧ test waiter = true then
      let (taken, remaining) := takeMatching test (limit - 1) rest
      (waiter :: taken, remaining)
    else
      let (taken, remaining) := takeMatching test limit rest
      (taken, waiter :: remaining)

variable [DecidableEq τ]

def ofTask (task : τ) (waiters : List (TableWaiter κ τ)) : List (TableWaiter κ τ) :=
  waiters.filter fun waiter => waiter.task = task

def notOfTask (task : τ) (waiters : List (TableWaiter κ τ)) : List (TableWaiter κ τ) :=
  waiters.filter fun waiter => waiter.task ≠ task

variable [LinearOrder κ]

def removeWaitvSiblings (table : QueueTable κ (TableWaiter κ τ)) (task : τ) :
    QueueTable κ (TableWaiter κ τ) :=
  table.retain fun waiter => waiter.task ≠ task

/-- What is left of a table and a selection of waiters: those which are woken,
and those which disappear with another entry of their task. -/
structure Commit (κ τ : Type*) [LinearOrder κ] where
  table : QueueTable κ (TableWaiter κ τ)
  woken : List (TableWaiter κ τ)
  discarded : List (TableWaiter κ τ)

def commitSelections (table : QueueTable κ (TableWaiter κ τ)) : List (TableWaiter κ τ) → Commit κ τ
  | [] => ⟨table, [], []⟩
  | waiter :: rest =>
    if waiter.wakeIndex = none then
      let commit := commitSelections table rest
      { commit with woken := waiter :: commit.woken }
    else
      let commit := commitSelections (removeWaitvSiblings table waiter.task)
        (notOfTask waiter.task rest)
      { commit with
        woken := waiter :: commit.woken
        discarded := ofTask waiter.task rest ++ ofTask waiter.task table.elements ++
          commit.discarded }
  termination_by selected => selected.length
  decreasing_by
    · simp
    · exact Nat.lt_succ_of_le (List.length_filter_le _ _)

/-! ## Sections -/

structure Outcome (κ τ : Type*) [LinearOrder κ] where
  state : TableState κ τ
  refused : Option SysError
  woken : List (TableWaiter κ τ)
  moved : List (TableWaiter κ τ)
  timedOut : List (TableWaiter κ τ)
  stored : Option Word

namespace TableState

variable (state s : TableState κ τ)

def refuse (error : SysError) : Outcome κ τ := ⟨state, some error, [], [], [], none⟩

def proceed : Outcome κ τ := ⟨state, none, [], [], [], none⟩

def depart (cause : Cause) (waiters : List (TableWaiter κ τ)) : TableState κ τ :=
  { state with departed := state.departed ++ waiters.map fun waiter => (waiter.ticket, cause) }

def wakeSelected (table : QueueTable κ (TableWaiter κ τ))
    (selected moved : List (TableWaiter κ τ)) (stored : Option Word) : Outcome κ τ :=
  let commit := commitSelections table selected
  ⟨({ state with table := commit.table }.depart .woken commit.woken).depart .sibling
    commit.discarded, none, commit.woken, moved, [], stored⟩

def hasSpecial (key : κ) : Bool := (state.table.queue key).any TableWaiter.special

def enqueue (key : κ) (task : τ) (bitset : Word) (deadline wakeIndex : Option ℕ)
    (requeuePiTarget : Option κ) : TableState κ τ :=
  { state with
    table := state.table.put key (state.table.queue key ++
      [⟨task, bitset, deadline, wakeIndex, false, requeuePiTarget, state.issued⟩])
    issued := state.issued + 1 }

/-- `futex_wait`; `early` is read before the table lock is taken. -/
def futexWait (task : τ) (key : κ) (value bitset : Word) (deadline : Option ℕ)
    (requeuePiTarget : Option κ) (early observed : Option Word) (now : ℕ) : Outcome κ τ :=
  if bitset = 0 then state.refuse .einval
  else if early = none then state.refuse .efault
  else if early ≠ some value then state.refuse .eagain
  else if state.piStates key = true ∨ state.hasSpecial key = true then state.refuse .einval
  else if observed = none then state.refuse .efault
  else if observed ≠ some value then state.refuse .eagain
  else if expired deadline now = true then state.refuse .etimedout
  else (state.enqueue key task bitset deadline none requeuePiTarget).proceed

def checkEntries (read : WaitvEntry κ → Option Word) : List (WaitvEntry κ) → Option SysError
  | [] => none
  | entry :: rest =>
    if read entry = none then some .efault
    else if read entry ≠ some entry.value then some .eagain
    else checkEntries read rest

def enqueueAll (task : τ) (deadline : Option ℕ) :
    ℕ → List (WaitvEntry κ) → TableState κ τ → TableState κ τ
  | _, [], state => state
  | index, entry :: rest, state =>
    enqueueAll task deadline (index + 1) rest
      (state.enqueue entry.key task futexBitsetMatchAny deadline (some index) none)

def futexWaitv (task : τ) (entries : List (WaitvEntry κ)) (deadline : Option ℕ) (now : ℕ) :
    Outcome κ τ :=
  if entries.length = 0 ∨ futexWaitvMax < entries.length then state.refuse .einval
  else match checkEntries WaitvEntry.early entries with
  | some error => state.refuse error
  | none =>
    if entries.any (fun entry => state.piStates entry.key) = true then state.refuse .einval
    else match checkEntries WaitvEntry.observed entries with
    | some error => state.refuse error
    | none =>
      if expired deadline now = true then state.refuse .etimedout
      else (enqueueAll task deadline 0 entries state).proceed

/-- `futex_wake`, for `FUTEX_WAKE` with all bits set. -/
def futexWake (key : κ) (nrWake : ℕ) (bitset : Word) : Outcome κ τ :=
  if bitset = 0 then state.refuse .einval
  else if state.piStates key = true then state.refuse .einval
  else
    let split := takeMatching (TableWaiter.matchesBitset bitset) nrWake (state.table.queue key)
    state.wakeSelected (state.table.put key split.2) split.1 [] none

variable (key target : κ) (nrWake nrRequeue : ℕ)

def requeueSelected : Outcome κ τ :=
  let queue := state.table.queue key
  let moved := (queue.drop nrWake).take nrRequeue
  let left := state.table.put key ((queue.drop nrWake).drop nrRequeue)
  state.wakeSelected (if moved.isEmpty = true then left
    else left.put target (left.queue target ++ moved)) (queue.take nrWake) moved none

def refusesRequeue : Prop :=
  (state.piStates key = true ∨ state.piStates target = true) ∨
    state.hasSpecial key = true ∨ state.hasSpecial target = true

instance (key target : κ) : Decidable (state.refusesRequeue key target) :=
  inferInstanceAs (Decidable (_ ∨ _))

def futexRequeue : Outcome κ τ :=
  if state.refusesRequeue key target then state.refuse .einval
  else state.requeueSelected key target nrWake nrRequeue

def futexCmpRequeue (cmpval : Word) (observed : Option Word) : Outcome κ τ :=
  if state.refusesRequeue key target then state.refuse .einval
  else if observed = none then state.refuse .efault
  else if observed ≠ some cmpval then state.refuse .eagain
  else state.requeueSelected key target nrWake nrRequeue

/-- `futex_wake_op`, where `old` is the value which the exchange replaces. -/
def futexWakeOp (key second : κ) (nrWake nrWake2 : ℕ) (encoded old : Word) : Outcome κ τ :=
  match decodeWakeOp encoded with
  | .error error => state.refuse error
  | .ok operation =>
    if state.refusesRequeue key second then state.refuse .einval
    else
      let first := state.table.put key ((state.table.queue key).drop nrWake)
      let limit := if operation.compare old = true then nrWake2 else 0
      state.wakeSelected (first.put second ((first.queue second).drop limit))
        ((state.table.queue key).take nrWake ++ (first.queue second).take limit) []
        (some (operation.apply old))

def timeoutRound (now : ℕ) : Outcome κ τ :=
  match state.table.search fun waiter => expired waiter.deadline now with
  | none => state.proceed
  | some (key, index) =>
    match (state.table.queue key)[index]? with
    | none => state.proceed
    | some waiter =>
      let taken := state.table.put key ((state.table.queue key).eraseIdx index)
      let siblings := if waiter.wakeIndex = none then []
        else ofTask waiter.task taken.elements
      let left := if waiter.wakeIndex = none then taken
        else removeWaitvSiblings taken waiter.task
      ⟨({ state with table := left }.depart .timedOut [waiter]).depart .sibling siblings,
        none, [], [], [waiter], none⟩

def removeTaskFromFutexQueue (key : κ) (task : τ) : Outcome κ τ :=
  let queue := state.table.queue key
  ({ state with
    table := state.table.put key (notOfTask task queue) }.depart .removed
      (ofTask task queue)).proceed

def removeTaskFromFutexTable (task : τ) : Outcome κ τ :=
  ({ state with table := state.table.retain fun waiter => waiter.task ≠ task }.depart .removed
    (ofTask task state.table.elements)).proceed

end TableState

inductive TableCall (κ τ : Type*) where
  | wait (task : τ) (key : κ) (value bitset : Word) (deadline : Option ℕ)
      (requeuePiTarget : Option κ) (early observed : Option Word) (now : ℕ)
  | waitv (task : τ) (entries : List (WaitvEntry κ)) (deadline : Option ℕ) (now : ℕ)
  | wake (key : κ) (nrWake : ℕ) (bitset : Word)
  | requeue (key target : κ) (nrWake nrRequeue : ℕ)
  | cmpRequeue (key target : κ) (nrWake nrRequeue : ℕ) (cmpval : Word) (observed : Option Word)
  | wakeOp (key second : κ) (nrWake nrWake2 : ℕ) (encoded old : Word)
  | timeout (now : ℕ)
  | removeFromQueue (key : κ) (task : τ)
  | removeFromTable (task : τ)
  | setPiState (key : κ) (owned : Bool)

namespace TableState

def perform (state : TableState κ τ) : TableCall κ τ → Outcome κ τ
  | .wait task key value bitset deadline target early observed now =>
    state.futexWait task key value bitset deadline target early observed now
  | .waitv task entries deadline now => state.futexWaitv task entries deadline now
  | .wake key nrWake bitset => state.futexWake key nrWake bitset
  | .requeue key target nrWake nrRequeue => state.futexRequeue key target nrWake nrRequeue
  | .cmpRequeue key target nrWake nrRequeue cmpval observed =>
    state.futexCmpRequeue key target nrWake nrRequeue cmpval observed
  | .wakeOp key second nrWake nrWake2 encoded old =>
    state.futexWakeOp key second nrWake nrWake2 encoded old
  | .timeout now => state.timeoutRound now
  | .removeFromQueue key task => state.removeTaskFromFutexQueue key task
  | .removeFromTable task => state.removeTaskFromFutexTable task
  | .setPiState key owned =>
    { state with piStates := Function.update state.piStates key owned }.proceed

def next (state : TableState κ τ) (call : TableCall κ τ) : Option (TableState κ τ) :=
  some (state.perform call).state

end TableState

end Kairix.Futex
