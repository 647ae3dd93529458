import Kairix.RangeCover
import Kairix.SysError
import Mathlib.Logic.Function.Basic

/-!
# Record locks

The table of byte-range locks.  Every attempt of a lock request, every close of a
file and every exit of a process is one section under the table lock.  Whether a
waiting task still exists is decided outside, so it is an input of the sections
which look at waiters.
-/

namespace Kairix.RecordLock

open RangeCover

def offsetMax : ℕ := 2 ^ 63 - 1

abbrev ByteRange := Range offsetMax

inductive LockType where
  | read
  | write
  deriving DecidableEq, Repr

def LockType.code : LockType → ℕ
  | .read => 0
  | .write => 1

structure UserFlock where
  lockType : ℤ
  whence : ℤ
  start : ℤ
  len : ℤ
  deriving DecidableEq, Repr

/-- A request with the field in which `F_GETLK` reports an owner. -/
structure OwnedFlock extends UserFlock where
  pid : ℤ

structure FileView (φ : Type*) where
  cacheInodeId : Option φ
  readable : Bool
  writable : Bool
  offset : ℕ
  size : Option ℕ

structure PosixLock where
  ownerPid : ℕ
  lockType : LockType
  range : ByteRange
  deriving DecidableEq

structure FlockLock where
  ownerFile : ℕ
  exclusive : Bool
  deriving DecidableEq, Repr

structure InodeLocks (τ : Type*) where
  locks : List PosixLock
  waiters : List τ
  flockLocks : List FlockLock
  flockWaiters : List τ

structure RecordLockTable (φ τ : Type*) where
  inodes : φ → Option (InodeLocks τ)

/-- The requested lock, or none for `F_UNLCK`. -/
def parseLockType (lockType : ℤ) : Except SysError (Option LockType) :=
  if lockType = 0 then .ok (some .read)
  else if lockType = 1 then .ok (some .write)
  else if lockType = 2 then .ok none
  else .error .einval

variable {φ τ : Type*}

def rangeBase (file : FileView φ) (whence : ℤ) : Except SysError ℤ :=
  if whence = 0 then .ok 0
  else if whence = 1 then .ok file.offset
  else if whence = 2 then
    match file.size with
    | some size => .ok size
    | none => .error .ebadf
  else .error .einval

/-- The range of a request with its anchor; the sums fit into 128 bits. -/
def rangeFrom (anchor len : ℤ) : Except SysError ByteRange :=
  if hanchor : 0 ≤ anchor ∧ anchor ≤ offsetMax then
    if len = 0 then .ok ⟨anchor.toNat, offsetMax, by omega, le_rfl⟩
    else if hlen : 0 < len then
      if hend : anchor + (len - 1) ≤ offsetMax then
        .ok ⟨anchor.toNat, (anchor + (len - 1)).toNat, by omega, by omega⟩
      else .error .eoverflow
    else if hstart : 0 ≤ anchor + len ∧ anchor + len ≤ anchor - 1 then
      .ok ⟨(anchor + len).toNat, (anchor - 1).toNat, by omega, by omega⟩
    else .error .einval
  else .error .einval

def normalizeRange (file : FileView φ) (flock : UserFlock) : Except SysError ByteRange :=
  match rangeBase file flock.whence with
  | .error error => .error error
  | .ok base => rangeFrom (base + flock.start) flock.len

/-- The checks of `fcntl_record_lock` before the table is looked at. -/
def checkRequest (file : FileView φ) (requested : UserFlock) :
    Except SysError (φ × Option LockType × ByteRange) :=
  match parseLockType requested.lockType with
  | .error error => .error error
  | .ok lockType =>
    if lockType = some .read ∧ file.readable = false then .error .ebadf
    else if lockType = some .write ∧ file.writable = false then .error .ebadf
    else match file.cacheInodeId with
    | none => .error .ebadf
    | some key =>
      match normalizeRange file requested with
      | .error error => .error error
      | .ok range => .ok (key, lockType, range)

def conflicts (ownerPid : ℕ) (lockType : LockType) (range : ByteRange) (existing : PosixLock) :
    Bool :=
  existing.ownerPid ≠ ownerPid ∧ existing.range.Overlaps range ∧
    (existing.lockType = .write ∨ lockType = .write)

def minByStart : List PosixLock → Option PosixLock
  | [] => none
  | lock :: rest =>
    match minByStart rest with
    | none => some lock
    | some best => if lock.range.start ≤ best.range.start then some lock else some best

def firstConflict (locks : List PosixLock) (ownerPid : ℕ) (lockType : LockType)
    (range : ByteRange) : Option PosixLock :=
  minByStart (locks.filter (conflicts ownerPid lockType range))

def conflictToUser (lock : PosixLock) : OwnedFlock where
  lockType := lock.lockType.code
  whence := 0
  start := lock.range.start
  len := if lock.range.stop = offsetMax then 0 else lock.range.stop - lock.range.start + 1
  pid := Int.bmod lock.ownerPid (2 ^ 32)

def splitLock (ownerPid : ℕ) (range : ByteRange) (lock : PosixLock) : List PosixLock :=
  if lock.ownerPid ≠ ownerPid ∨ ¬lock.range.Overlaps range then [lock]
  else
    (if hstart : lock.range.start < range.start then
      [{ lock with range := lock.range.below range hstart }] else []) ++
    if hstop : range.stop < lock.range.stop then
      [{ lock with range := lock.range.above range hstop }] else []

def sortsBefore (first second : PosixLock) : Prop :=
  first.ownerPid < second.ownerPid ∨ first.ownerPid = second.ownerPid ∧
    (first.lockType.code < second.lockType.code ∨
      first.lockType.code = second.lockType.code ∧ first.range.start ≤ second.range.start)

instance (first second : PosixLock) : Decidable (sortsBefore first second) :=
  inferInstanceAs (Decidable (_ ∨ _))

def mergesInto (last lock : PosixLock) : Prop :=
  last.ownerPid = lock.ownerPid ∧ last.lockType = lock.lockType ∧
    (last.range.stop = offsetMax ∨ lock.range.start ≤ last.range.stop + 1)

instance (last lock : PosixLock) : Decidable (mergesInto last lock) :=
  inferInstanceAs (Decidable (_ ∧ _))

def mergeFrom (last : PosixLock) : List PosixLock → List PosixLock
  | [] => [last]
  | lock :: rest =>
    if mergesInto last lock then
      mergeFrom { last with range := last.range.extend lock.range } rest
    else last :: mergeFrom lock rest

def mergeLocks : List PosixLock → List PosixLock
  | [] => []
  | first :: rest => mergeFrom first rest

def replaceOwnerRange (locks : List PosixLock) (ownerPid : ℕ) (lockType : Option LockType)
    (range : ByteRange) : List PosixLock :=
  let updated := locks.flatMap (splitLock ownerPid range) ++
    match lockType with
    | some lockType => [⟨ownerPid, lockType, range⟩]
    | none => []
  mergeLocks (updated.insertionSort sortsBefore)

namespace InodeLocks

def empty : InodeLocks τ := ⟨[], [], [], []⟩

def isEmpty (inode : InodeLocks τ) : Bool :=
  inode.locks.isEmpty && inode.waiters.isEmpty && inode.flockLocks.isEmpty &&
    inode.flockWaiters.isEmpty

variable [DecidableEq τ]

def registerWaiter (inode : InodeLocks τ) (alive : τ → Bool) (task : τ) : InodeLocks τ :=
  let waiters := inode.waiters.filter alive
  { inode with waiters := if task ∈ waiters then waiters else waiters ++ [task] }

def removeWaiter (inode : InodeLocks τ) (alive : τ → Bool) (task : τ) : InodeLocks τ :=
  { inode with waiters := inode.waiters.filter fun waiter => alive waiter && waiter ≠ task }

end InodeLocks

inductive LockOutcome where
  | returned (result : SyscallResult)
  | waits

namespace RecordLockTable

def start : RecordLockTable φ τ := ⟨fun _ => none⟩

variable [DecidableEq φ]

def entry (table : RecordLockTable φ τ) (key : φ) : InodeLocks τ :=
  (table.inodes key).getD .empty

/-- Write an inode back, and remove it when nothing is left of it. -/
def put (table : RecordLockTable φ τ) (key : φ) (inode : InodeLocks τ) : RecordLockTable φ τ :=
  ⟨Function.update table.inodes key (if inode.isEmpty = true then none else some inode)⟩

def insert (table : RecordLockTable φ τ) (key : φ) (inode : InodeLocks τ) : RecordLockTable φ τ :=
  ⟨Function.update table.inodes key (some inode)⟩

variable [DecidableEq τ]

variable (table : RecordLockTable φ τ) (pid : ℕ)

/-- One round of the loop of `fcntl_record_lock`, with the waiters it wakes. -/
def attempt (task : τ) (alive : τ → Bool) (file : FileView φ) (requested : UserFlock)
    (blocking : Bool) : RecordLockTable φ τ × LockOutcome × List τ :=
  match checkRequest file requested with
  | .error error => (table, .returned (.error error), [])
  | .ok (key, lockType, range) =>
    let inode := table.entry key
    if lockType.all (fun lockType =>
        (firstConflict inode.locks pid lockType range).isNone) = true then
      (table.put key { inode with
        locks := replaceOwnerRange inode.locks pid lockType range, waiters := [] },
        .returned (.ok 0), inode.waiters.filter alive)
    else if blocking = false then (table.insert key inode, .returned (.error .eagain), [])
    else (table.insert key (inode.registerWaiter alive task), .waits, [])

omit [DecidableEq φ] [DecidableEq τ] in
/-- `F_GETLK`.  The file need not be open for the lock which is asked for. -/
def getLock (file : FileView φ) (requested : OwnedFlock) : Except SysError OwnedFlock :=
  match parseLockType requested.lockType with
  | .error error => .error error
  | .ok none => .error .einval
  | .ok (some lockType) =>
    match file.cacheInodeId with
    | none => .error .ebadf
    | some key =>
      match normalizeRange file requested.toUserFlock with
      | .error error => .error error
      | .ok range => .ok (((table.inodes key).bind fun inode =>
          firstConflict inode.locks pid lockType range).elim { requested with lockType := 2 }
            conflictToUser)

def forgetWaiter (alive : τ → Bool) (key : φ) (task : τ) : RecordLockTable φ τ :=
  match table.inodes key with
  | none => table
  | some inode => table.put key (inode.removeWaiter alive task)

def dropOwner (key : φ) : RecordLockTable φ τ :=
  match table.inodes key with
  | none => table
  | some inode =>
    let locks := inode.locks.filter fun lock => lock.ownerPid ≠ pid
    table.put key { inode with
      locks := locks
      waiters := if locks.length = inode.locks.length then inode.waiters else [] }

def releaseProcessFileLocks (file : FileView φ) : RecordLockTable φ τ :=
  match file.cacheInodeId with
  | none => table
  | some key => table.dropOwner pid key

def releaseProcessRecordLocks : RecordLockTable φ τ :=
  ⟨fun key => (table.dropOwner pid key).inodes key⟩

inductive LockStep (φ τ : Type*) where
  | attempt (pid : ℕ) (task : τ) (alive : τ → Bool) (file : FileView φ) (requested : UserFlock)
      (blocking : Bool)
  | interrupted (alive : τ → Bool) (key : φ) (task : τ)
  | close (pid : ℕ) (file : FileView φ)
  | exit (pid : ℕ)
  | flock (key : φ) (locks : List FlockLock) (waiters : List τ)

/-- A step of the table.  Calls of `flock` change only their own lists. -/
def next : LockStep φ τ → Option (RecordLockTable φ τ)
  | .attempt pid task alive file requested blocking =>
    some (table.attempt pid task alive file requested blocking).1
  | .interrupted alive key task => some (table.forgetWaiter alive key task)
  | .close pid file => some (table.releaseProcessFileLocks pid file)
  | .exit pid => some (table.releaseProcessRecordLocks pid)
  | .flock key locks waiters =>
    some (table.put key { table.entry key with flockLocks := locks, flockWaiters := waiters })

end RecordLockTable

/-! ## Calls -/

/-- A call of `fcntl` with `F_SETLK` or `F_SETLKW`.  The file is looked up when the call
begins, and kept while it waits. -/
structure LockCall (φ : Type*) where
  pid : ℕ
  file : FileView φ
  requested : UserFlock
  blocking : Bool

/-- The table with the calls in progress.  `closed` remembers that a process has closed a
file or has exited, and has made no call for the file since. -/
structure LockConfig (φ τ : Type*) where
  table : RecordLockTable φ τ
  call : τ → Option (LockCall φ)
  closed : ℕ → φ → Bool

inductive CallStep (φ τ : Type*) where
  | call (task : τ) (call : LockCall φ)
  | round (task : τ) (alive : τ → Bool)
  | interrupted (task : τ) (alive : τ → Bool)
  | close (pid : ℕ) (file : FileView φ)
  | exit (pid : ℕ)
  | flock (key : φ) (locks : List FlockLock) (waiters : List τ)

namespace LockConfig

variable [DecidableEq φ] [DecidableEq τ]

def start : LockConfig φ τ := ⟨.start, fun _ => none, fun _ _ => false⟩

/-- A round which waits is followed by another one, without a look at the descriptor. -/
def next (config : LockConfig φ τ) : CallStep φ τ → Option (LockConfig φ τ)
  | .call task call =>
    if (config.call task).isNone = true then
      some { config with
        call := Function.update config.call task (some call)
        closed := fun pid key =>
          config.closed pid key && !(pid == call.pid && call.file.cacheInodeId == some key) }
    else none
  | .round task alive => (config.call task).map fun call =>
    let result := config.table.attempt call.pid task alive call.file call.requested call.blocking
    { config with
      table := result.1
      call := match result.2.1 with
        | .waits => config.call
        | .returned _ => Function.update config.call task none }
  | .interrupted task alive => (config.call task).bind fun call =>
    call.file.cacheInodeId.map fun key => { config with
      table := config.table.forgetWaiter alive key task
      call := Function.update config.call task none }
  | .close pid file => some { config with
      table := config.table.releaseProcessFileLocks pid file
      closed := fun other key =>
        config.closed other key || other == pid && file.cacheInodeId == some key }
  | .exit pid => some { config with
      table := config.table.releaseProcessRecordLocks pid
      closed := fun other key => config.closed other key || other == pid }
  | .flock key locks waiters => (config.table.next (.flock key locks waiters)).map fun table =>
      { config with table := table }

end LockConfig

end Kairix.RecordLock
