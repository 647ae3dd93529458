import Mathlib

/-!
# Priority-inheritance futexes

Tasks lock, unlock and requeue on futex words.  Each step is one section under
the table lock, one section under a task lock, or one access to a user word; a
section with several accesses to user words holds the table lock over several
steps.  Timers expire waiters, signals interrupt them, and an exiting task marks
the words it owns.
-/

namespace Kairix.Futex

open Function

abbrev Word := BitVec 32

def futexOwnerDied : Word := 0x40000000#32

def futexWaiters : Word := 0x80000000#32

def futexTidMask : Word := 0x3fffffff#32

def tidField (word : Word) : Word := word &&& futexTidMask

/-- Global thread ids are positive, distinct, and fit into the owner field. -/
structure ThreadIds (τ : Type*) where
  tid : τ → ℕ
  injective : Injective tid
  pos : ∀ task, 0 < tid task
  small : ∀ task, tid task ≤ futexTidMask.toNat

def ThreadIds.word {τ : Type*} (ids : ThreadIds τ) (task : τ) : Word :=
  BitVec.ofNat 32 (ids.tid task)

inductive FutexError where
  | deadlock
  | again
  | timedOut
  | interrupted
  | invalid
  | notPermitted
  | overflow
  deriving DecidableEq, Repr

inductive FutexResult where
  | ok (count : ℕ)
  | error (error : FutexError)
  deriving DecidableEq, Repr

structure FutexWaiter (κ τ : Type*) where
  task : τ
  deadline : Option ℕ
  piWaiter : Bool
  requeuePiTarget : Option κ
  deriving DecidableEq

structure WaitFlags where
  woken : Bool
  timedOut : Bool
  interrupted : Bool
  deriving DecidableEq, Repr

/-- A call of `futex_lock_pi`; `enqueued` remembers that it has been a waiter. -/
structure LockCall (κ : Type*) where
  key : κ
  deadline : Option ℕ
  tryOnly : Bool
  enqueued : Bool
  deriving DecidableEq

structure WaitCall (κ : Type*) where
  key : κ
  target : κ
  value : Word
  deadline : Option ℕ
  deriving DecidableEq

structure RequeueCall (κ : Type*) where
  key : κ
  target : κ
  nrRequeue : ℕ
  cmpval : Word
  deriving DecidableEq

/-- Where a task stands.  Each phase names the next step. -/
inductive Phase (κ τ : Type*) where
  | idle
  | returned (key : κ) (enqueued : Bool) (result : FutexResult)
  | lockLoad (call : LockCall κ)
  | lockAcquire (call : LockCall κ)
  | lockExchange (call : LockCall κ) (observed : Word)
  | lockWaiters (call : LockCall κ) (observed : Word)
  | lockReset (call : LockCall κ) (owner : Word)
  | lockEnqueue (call : LockCall κ) (owner : Word)
  | lockWait (call : LockCall κ)
  | lockWoken (call : LockCall κ)
  | lockLeave (call : LockCall κ) (timedOut : Bool)
  | unlockLoad (key : κ)
  | unlockExchange (key : κ) (observed : Word)
  | unlockWake (key : κ) (waiter : τ)
  | waitLoad (call : WaitCall κ)
  | waitReset (call : WaitCall κ)
  | waitEnqueue (call : WaitCall κ)
  | waitWait (call : WaitCall κ)
  | waitCheck (call : WaitCall κ)
  | waitLeave (call : WaitCall κ)
  | requeueMove (call : RequeueCall κ)
  | requeueLoad (call : RequeueCall κ) (moved : ℕ)
  | requeueExchange (call : RequeueCall κ) (moved : ℕ) (observed : Word)
      (waiter : FutexWaiter κ τ)
  | requeueMark (call : RequeueCall κ) (moved : ℕ) (owner : Word) (acquired : Option τ)
  | requeueWake (call : RequeueCall κ) (moved : ℕ) (waiter : τ)
  | exiting
  | exitLoad (key : κ)
  | exitExchange (key : κ) (observed : Word)
  | exitWake (key : κ)
  | exitDeliver (waiter : τ)
  deriving DecidableEq

structure FutexConfig (κ τ : Type*) (timers : ℕ) where
  word : κ → Word
  table : κ → List (FutexWaiter κ τ)
  piOwner : κ → Option Word
  flags : τ → WaitFlags
  priority : τ → ℤ
  tableLock : Option τ
  phase : τ → Phase κ τ
  expiring : Fin timers → Option τ

def expired (deadline : Option ℕ) (now : ℕ) : Bool :=
  match deadline with
  | none => false
  | some time => decide (time ≤ now)

namespace FutexConfig

variable {κ τ : Type*} {timers : ℕ}

/-- Take the waiter of highest priority, the last one among equals. -/
def takeBest (priority : τ → ℤ) :
    List (FutexWaiter κ τ) → Option (FutexWaiter κ τ × List (FutexWaiter κ τ))
  | [] => none
  | waiter :: rest =>
    match takeBest priority rest with
    | none => some (waiter, [])
    | some (best, others) =>
      if priority waiter.task ≤ priority best.task then some (best, waiter :: others)
      else some (waiter, rest)

variable [DecidableEq κ] [DecidableEq τ]

section

variable (config s : FutexConfig κ τ timers) (task : τ)

def setPhase (phase : Phase κ τ) : FutexConfig κ τ timers :=
  { config with phase := update config.phase task phase }

def setWord (key : κ) (word : Word) : FutexConfig κ τ timers :=
  { config with word := update config.word key word }

def setQueue (key : κ) (queue : List (FutexWaiter κ τ)) : FutexConfig κ τ timers :=
  { config with table := update config.table key queue }

def setOwner (key : κ) (owner : Option Word) : FutexConfig κ τ timers :=
  { config with piOwner := update config.piOwner key owner }

def setFlags (flags : WaitFlags) : FutexConfig κ τ timers :=
  { config with flags := update config.flags task flags }

def setLock (owner : Option τ) : FutexConfig κ τ timers :=
  { config with tableLock := owner }

def wakeWaiter (waiter : τ) : FutexConfig κ τ timers :=
  config.setFlags waiter { config.flags waiter with woken := true }

def fail (key : κ) (enqueued : Bool) (error : FutexError) : FutexConfig κ τ timers :=
  config.setPhase task (.returned key enqueued (.error error))

end

variable (ids : ThreadIds τ)

variable (config s : FutexConfig κ τ timers) (task : τ)

def lockLoadStep (call : LockCall κ) (now : ℕ) : FutexConfig κ τ timers :=
  let observed := config.word call.key
  if tidField observed = ids.word task then config.fail task call.key call.enqueued .deadlock
  else if tidField observed = 0 then config.setPhase task (.lockAcquire call)
  else if call.tryOnly = true then config.fail task call.key call.enqueued .again
  else if expired call.deadline now = true then
    config.fail task call.key call.enqueued .timedOut
  else config.setPhase task (.lockWaiters call observed)

def lockAcquireStep (call : LockCall κ) : FutexConfig κ τ timers :=
  let observed := config.word call.key
  if tidField observed ≠ 0 then config.setPhase task (.lockLoad call)
  else if (config.table call.key).any (fun waiter => !waiter.piWaiter) = true then
    config.fail task call.key call.enqueued .invalid
  else (config.setLock (some task)).setPhase task (.lockExchange call observed)

def lockExchangeStep (call : LockCall κ) (observed : Word) : FutexConfig κ τ timers :=
  if config.word call.key = observed then
    (((config.setWord call.key
      (observed &&& (futexOwnerDied ||| futexWaiters) ||| ids.word task)).setOwner call.key
        (some (ids.word task))).setLock none).setPhase task
      (.returned call.key call.enqueued (.ok 0))
  else (config.setLock none).setPhase task (.lockLoad call)

/-- Publish that there are waiters.  The exchange may fail for no reason. -/
def lockWaitersStep (call : LockCall κ) (observed : Word) (spurious : Bool) : FutexConfig κ τ
    timers :=
  if observed &&& futexWaiters ≠ 0 then
    config.setPhase task (.lockReset call (tidField observed))
  else if spurious = false ∧ config.word call.key = observed then
    (config.setWord call.key (observed ||| futexWaiters)).setPhase task
      (.lockReset call (tidField observed))
  else config.setPhase task (.lockLoad call)

def resetFlags : FutexConfig κ τ timers :=
  config.setFlags task { config.flags task with woken := false, timedOut := false }

def lockEnqueueStep (call : LockCall κ) (owner : Word) : FutexConfig κ τ timers :=
  let current := config.word call.key
  if tidField current ≠ owner ∨ tidField current = 0 then
    config.setPhase task (.lockLoad call)
  else if (config.table call.key).any (fun waiter => !waiter.piWaiter) = true then
    config.fail task call.key call.enqueued .invalid
  else
    ((config.setQueue call.key
      (config.table call.key ++ [⟨task, call.deadline, true, none⟩])).setOwner call.key
        (some owner)).setPhase task (.lockWait { call with enqueued := true })

/-- A waiter looks at its flags, and sleeps if none is set. -/
def lockWaitStep (call : LockCall κ) : Option (FutexConfig κ τ timers) :=
  let flags := config.flags task
  if flags.woken = true then
    some ((config.setFlags task { flags with woken := false }).setPhase task (.lockWoken call))
  else if flags.timedOut = true ∨ flags.interrupted = true then
    some ((config.setFlags task { flags with
      timedOut := false, interrupted := false }).setPhase task (.lockLeave call flags.timedOut))
  else none

def lockWokenStep (call : LockCall κ) : FutexConfig κ τ timers :=
  if tidField (config.word call.key) = ids.word task then
    config.setPhase task (.returned call.key call.enqueued (.ok 0))
  else config.setPhase task (.lockLoad call)

/-- `remove_task_from_futex_queue`, and the error of the call. -/
def lockLeaveStep (call : LockCall κ) (timedOut : Bool) : FutexConfig κ τ timers :=
  (config.setQueue call.key
    ((config.table call.key).filter fun waiter => waiter.task ≠ task)).fail task call.key
      call.enqueued (if timedOut = true then .timedOut else .interrupted)

def unlockLoadStep (key : κ) : FutexConfig κ τ timers :=
  if tidField (config.word key) ≠ ids.word task then config.fail task key false .notPermitted
  else (config.setLock (some task)).setPhase task (.unlockExchange key (config.word key))

def ownedWord (owner : τ) (rest : List (FutexWaiter κ τ)) : Word :=
  ids.word owner ||| if rest.isEmpty = true then 0 else futexWaiters

/-- A waiter leaves the queue before the word is exchanged; if the exchange
fails, the waiter is dropped. -/
def unlockExchangeStep (key : κ) (observed : Word) : FutexConfig κ τ timers :=
  match takeBest config.priority (config.table key) with
  | some (waiter, rest) =>
    let taken := config.setQueue key rest
    if config.word key = observed then
      (((taken.setWord key (ownedWord ids waiter.task rest)).setOwner key
        (some (ids.word waiter.task))).setLock none).setPhase task
        (.unlockWake key waiter.task)
    else (taken.setLock none).fail task key false .again
  | none =>
    if config.word key = observed then
      (((config.setWord key 0).setOwner key none).setLock none).setPhase task
        (.returned key false (.ok 0))
    else (config.setLock none).fail task key false .again

/-- `futex_unlock_pi` from the table lock on.  User code may store to the word
between its load and its exchange. -/
def unlockSection (key : κ) (store : Option Word) : FutexConfig κ τ timers :=
  let loaded := (config.unlockLoadStep ids task key).setWord key (store.getD (config.word key))
  match loaded.phase task with
  | .unlockExchange key observed => loaded.unlockExchangeStep ids task key observed
  | _ => loaded

def waitLoadStep (call : WaitCall κ) : FutexConfig κ τ timers :=
  if config.word call.key ≠ call.value then config.fail task call.target false .again
  else config.setPhase task (.waitReset call)

def waitEnqueueStep (call : WaitCall κ) (now : ℕ) : FutexConfig κ τ timers :=
  if config.piOwner call.key ≠ none ∨ (config.table call.key).any (fun waiter =>
      waiter.piWaiter || waiter.requeuePiTarget.isSome) = true then
    config.fail task call.target false .invalid
  else if config.word call.key ≠ call.value then config.fail task call.target false .again
  else if expired call.deadline now = true then config.fail task call.target false .timedOut
  else (config.setQueue call.key (config.table call.key ++
    [⟨task, call.deadline, false, some call.target⟩])).setPhase task (.waitWait call)

def waitWaitStep (call : WaitCall κ) : Option (FutexConfig κ τ timers) :=
  let flags := config.flags task
  if flags.timedOut = true then
    some ((config.setFlags task { flags with timedOut := false }).fail task call.target true
      .timedOut)
  else if flags.woken = true then
    some ((config.setFlags task { flags with woken := false }).setPhase task (.waitCheck call))
  else if flags.interrupted = true then
    some ((config.setFlags task { flags with interrupted := false }).setPhase task
      (.waitLeave call))
  else none

def waitCheckStep (call : WaitCall κ) : FutexConfig κ τ timers :=
  if tidField (config.word call.target) = ids.word task then
    config.setPhase task (.returned call.target true (.ok 0))
  else config.setPhase task (.lockLoad ⟨call.target, none, false, true⟩)

/-- `remove_task_from_futex_table`, and the error of the call. -/
def waitLeaveStep (call : WaitCall κ) : FutexConfig κ τ timers :=
  { config with table := fun key =>
      (config.table key).filter fun waiter => waiter.task ≠ task }.fail task call.target true
    .interrupted

def requeueMoveStep (call : RequeueCall κ) : FutexConfig κ τ timers :=
  let limit := 1 + call.nrRequeue
  let moved := (config.table call.key).take limit
  if config.word call.key ≠ call.cmpval then config.fail task call.target false .again
  else if moved.any (fun waiter => waiter.requeuePiTarget != some call.target) = true then
    config.fail task call.target false .invalid
  else if moved.isEmpty = true then
    config.setPhase task (.returned call.target false (.ok 0))
  else
    let left := config.setQueue call.key ((config.table call.key).drop limit)
    ((left.setQueue call.target (left.table call.target ++
      moved.map fun waiter => { waiter with piWaiter := true })).setLock (some task)).setPhase
        task (.requeueLoad call moved.length)

/-- The word of the mutex decides whether a requeued waiter gets it at once.
There is no step from an empty queue, where the source would panic. -/
def requeueLoadStep (call : RequeueCall κ) (moved : ℕ) : Option (FutexConfig κ τ timers) :=
  let observed := config.word call.target
  if tidField observed = 0 then
    (takeBest config.priority (config.table call.target)).map fun best =>
      (config.setQueue call.target best.2).setPhase task
        (.requeueExchange call moved observed best.1)
  else some (config.setPhase task (.requeueMark call moved (tidField observed) none))

def requeueExchangeStep (call : RequeueCall κ) (moved : ℕ) (observed : Word)
    (waiter : FutexWaiter κ τ) (spurious : Bool) : FutexConfig κ τ timers :=
  let current := config.word call.target
  if spurious = false ∧ current = observed then
    (config.setWord call.target
      (ownedWord ids waiter.task (config.table call.target))).setPhase task
      (.requeueMark call moved (ids.word waiter.task) (some waiter.task))
  else if tidField current = 0 then
    config.setPhase task (.requeueExchange call moved current waiter)
  else (config.setQueue call.target (waiter :: config.table call.target)).setPhase task
    (.requeueMark call moved (tidField current) none)

def requeueMarkStep (call : RequeueCall κ) (moved : ℕ) (owner : Word) (acquired : Option τ) :
    FutexConfig κ τ timers :=
  let marked := if (config.table call.target).isEmpty = true then config
    else config.setWord call.target (config.word call.target ||| futexWaiters)
  ((marked.setOwner call.target (some owner)).setLock none).setPhase task
    (match acquired with
    | some waiter => .requeueWake call moved waiter
    | none => .returned call.target false (.ok moved))

/-- `robust_mark_owner_died` goes on only while the word names the exiting task. -/
def exitLoadStep (key : κ) (observed : Word) : FutexConfig κ τ timers :=
  if tidField observed ≠ ids.word task then config.setPhase task .exiting
  else config.setPhase task (.exitExchange key observed)

def exitExchangeStep (key : κ) (observed : Word) (spurious : Bool) : FutexConfig κ τ timers :=
  if spurious = false ∧ config.word key = observed then
    (config.setWord key (observed &&& futexWaiters ||| futexOwnerDied)).setPhase task
      (.exitWake key)
  else config.exitLoadStep ids task key (config.word key)

/-- `futex_wake_one`. -/
def exitWakeStep (key : κ) : FutexConfig κ τ timers :=
  match config.table key with
  | [] => config.setPhase task .exiting
  | waiter :: rest => (config.setQueue key rest).setPhase task (.exitDeliver waiter.task)

/-! ## Steps -/

/-- A section under the table lock starts only while the lock is free. -/
def whenFree (after : FutexConfig κ τ timers) : Option (FutexConfig κ τ timers) :=
  if config.tableLock = none then some after else none

def advance (now : ℕ) (spurious : Bool) : Option (FutexConfig κ τ timers) :=
  match config.phase task with
  | .idle => none
  | .returned _ _ _ => none
  | .lockLoad call => some (config.lockLoadStep ids task call now)
  | .lockAcquire call => config.whenFree (config.lockAcquireStep task call)
  | .lockExchange call observed => some (config.lockExchangeStep ids task call observed)
  | .lockWaiters call observed => some (config.lockWaitersStep task call observed spurious)
  | .lockReset call owner =>
    some ((config.resetFlags task).setPhase task (.lockEnqueue call owner))
  | .lockEnqueue call owner => config.whenFree (config.lockEnqueueStep task call owner)
  | .lockWait call => config.lockWaitStep task call
  | .lockWoken call => some (config.lockWokenStep ids task call)
  | .lockLeave call timedOut => config.whenFree (config.lockLeaveStep task call timedOut)
  | .unlockLoad key => config.whenFree (config.unlockLoadStep ids task key)
  | .unlockExchange key observed => some (config.unlockExchangeStep ids task key observed)
  | .unlockWake key waiter =>
    some ((config.wakeWaiter waiter).setPhase task (.returned key false (.ok 0)))
  | .waitLoad call => some (config.waitLoadStep task call)
  | .waitReset call => some ((config.resetFlags task).setPhase task (.waitEnqueue call))
  | .waitEnqueue call => config.whenFree (config.waitEnqueueStep task call now)
  | .waitWait call => config.waitWaitStep task call
  | .waitCheck call => some (config.waitCheckStep ids task call)
  | .waitLeave call => config.whenFree (config.waitLeaveStep task call)
  | .requeueMove call => config.whenFree (config.requeueMoveStep task call)
  | .requeueLoad call moved => config.requeueLoadStep task call moved
  | .requeueExchange call moved observed waiter =>
    some (config.requeueExchangeStep ids task call moved observed waiter spurious)
  | .requeueMark call moved owner acquired =>
    some (config.requeueMarkStep task call moved owner acquired)
  | .requeueWake call moved waiter =>
    some ((config.wakeWaiter waiter).setPhase task (.returned call.target false (.ok moved)))
  | .exiting => none
  | .exitLoad key => some (config.exitLoadStep ids task key (config.word key))
  | .exitExchange key observed => some (config.exitExchangeStep ids task key observed spurious)
  | .exitWake key => config.whenFree (config.exitWakeStep task key)
  | .exitDeliver waiter => some ((config.wakeWaiter waiter).setPhase task .exiting)

inductive FutexStep (κ τ : Type*) (timers : ℕ) where
  | lockPi (task : τ) (key : κ) (deadline : Option ℕ) (tryOnly : Bool)
  | unlockPi (task : τ) (key : κ)
  | waitRequeuePi (task : τ) (call : WaitCall κ)
  | cmpRequeuePi (task : τ) (nrWake : ℕ) (call : RequeueCall κ)
  | exit (task : τ) (key : κ)
  | advance (task : τ) (now : ℕ) (spurious : Bool)
  | signal (task : τ)
  | setPriority (task : τ) (priority : ℤ)
  | expire (timer : Fin timers) (key : κ) (index now : ℕ)
  | deliver (timer : Fin timers)

def start (phase : Phase κ τ) : Option (FutexConfig κ τ timers) :=
  match config.phase task with
  | .idle => some (config.setPhase task phase)
  | .returned _ _ _ => some (config.setPhase task phase)
  | _ => none

/-- A round of `check_futex_timeouts` takes one expired waiter out of its queue. -/
def expireStep (timer : Fin timers) (key : κ) (index now : ℕ) : Option (FutexConfig κ τ timers) :=
  match config.expiring timer, (config.table key)[index]? with
  | none, some waiter =>
    if expired waiter.deadline now = true then
      config.whenFree { config.setQueue key ((config.table key).eraseIdx index) with
        expiring := update config.expiring timer (some waiter.task) }
    else none
  | _, _ => none

def deliverStep (timer : Fin timers) : Option (FutexConfig κ τ timers) :=
  match config.expiring timer with
  | some task => some { config.setFlags task { config.flags task with
      woken := false, timedOut := true } with
      expiring := update config.expiring timer none }
  | none => none

def next : FutexStep κ τ timers → Option (FutexConfig κ τ timers)
  | .lockPi task key deadline tryOnly =>
    config.start task (if futexTidMask.toNat < ids.tid task then
      .returned key false (.error .overflow)
      else .lockLoad ⟨key, deadline, tryOnly, false⟩)
  | .unlockPi task key => config.start task (.unlockLoad key)
  | .waitRequeuePi task call =>
    config.start task (if call.key = call.target then
      .returned call.target false (.error .invalid) else .waitLoad call)
  | .cmpRequeuePi task nrWake call =>
    config.start task (if nrWake ≠ 1 ∨ call.key = call.target then
      .returned call.target false (.error .invalid) else .requeueMove call)
  | .exit task key =>
    match config.phase task with
    | .exiting => some (config.setPhase task (.exitLoad key))
    | _ => config.start task (.exitLoad key)
  | .advance task now spurious => config.advance ids task now spurious
  | .signal task =>
    some (config.setFlags task { config.flags task with interrupted := true })
  | .setPriority task priority =>
    some { config with priority := update config.priority task priority }
  | .expire timer key index now => config.expireStep timer key index now
  | .deliver timer => config.deliverStep timer

def boot (timers : ℕ) (words : κ → Word) : FutexConfig κ τ timers where
  word := words
  table := fun _ => []
  piOwner := fun _ => none
  flags := fun _ => ⟨false, false, false⟩
  priority := fun _ => 0
  tableLock := none
  phase := fun _ => .idle
  expiring := fun _ => none

end FutexConfig

end Kairix.Futex
