import Kairix.MachineWord
import Kairix.GrowableDeque

/-!
# The run queue of a CPU

A run queue has one queue of realtime tasks, sorted by descending priority, and
four feedback levels in round-robin order.  The scheduling parameters of a task
are words of their own which the queue operations read and write.
-/

namespace Kairix.Sched

open Function GrowableDeque Multiset

abbrev mlfqLevels : ℕ := 4

abbrev MlfqLevel := Fin mlfqLevels

def mlfqAgingThreshold : ℕ := 64

def mlfqAgingScanBudget : ℕ := 32

def runQueueMinCapacity : ℕ := 16

def clampMlfqLevel (level : ℕ) : MlfqLevel :=
  ⟨min level 3, Nat.lt_succ_of_le (Nat.min_le_right level 3)⟩

def mlfqTimeSlice : MlfqLevel → ℕ
  | 0 => 2
  | 1 => 4
  | 2 => 8
  | 3 => 16

structure SchedParams where
  schedPriority : ℕ
  piBoostPriority : ℕ
  level : ℕ
  sliceRemaining : ℕ
  enqueueEpoch : ℕ
  affinityMask : ℕ
  deriving DecidableEq, Repr

namespace SchedParams

variable (params : SchedParams)

def effectiveSchedPriority : ℕ :=
  max params.schedPriority params.piBoostPriority

def isRealtime : Bool :=
  0 < params.effectiveSchedPriority

def mlfqLevel : MlfqLevel :=
  clampMlfqLevel params.level

def resetMlfqSlice : SchedParams :=
  { params with sliceRemaining := mlfqTimeSlice params.mlfqLevel }

def setMlfqLevel (level : ℕ) : SchedParams :=
  { params with level := clampMlfqLevel level }.resetMlfqSlice

def boostMlfqLevel : SchedParams :=
  if 0 < params.mlfqLevel.val then params.setMlfqLevel (params.mlfqLevel.val - 1)
  else params.resetMlfqSlice

def noteMlfqEnqueued (epoch : ℕ) : SchedParams :=
  let noted := { params with enqueueEpoch := epoch }
  if noted.sliceRemaining = 0 then noted.resetMlfqSlice else noted

def mlfqWaitExpired (epoch : ℕ) : Bool :=
  mlfqAgingThreshold ≤ (epoch + usizeLimit - params.enqueueEpoch) % usizeLimit

def allowsCpu (cpu : ℕ) : Bool :=
  cpu < 64 && params.affinityMask.testBit cpu

end SchedParams

structure TaskManager (τ : Type*) where
  readyQueues : MlfqLevel → Deque τ
  realtimeQueue : Deque τ
  schedEpoch : ℕ
  agingCursorLevel : ℕ

namespace TaskManager

variable {τ : Type*}

def new : TaskManager τ where
  readyQueues := fun _ => Deque.withCapacity 0
  realtimeQueue := Deque.withCapacity 0
  schedEpoch := 0
  agingCursorLevel := 1

def setLevel (manager : TaskManager τ) (level : MlfqLevel) (queue : Deque τ) : TaskManager τ :=
  { manager with readyQueues := update manager.readyQueues level queue }

def len (manager : TaskManager τ) : ℕ :=
  manager.realtimeQueue.length + ∑ level, (manager.readyQueues level).length

def tasks (manager : TaskManager τ) : Multiset τ :=
  manager.realtimeQueue.bag + ∑ level, (manager.readyQueues level).bag

/-- A run queue together with the parameters of the tasks. -/
abbrev Scheduled (τ : Type*) := TaskManager τ × (τ → SchedParams)

def setParams [DecidableEq τ] (params : τ → SchedParams) (task : τ) (value : SchedParams) :
    τ → SchedParams :=
  update params task value

/-- The place of a task among the realtime tasks: behind equal priorities, or
in front of them. -/
def realtimePosition (manager : TaskManager τ) (params : τ → SchedParams) (task : τ)
    (front : Bool) : ℕ :=
  manager.realtimeQueue.items.findIdx fun queued =>
    if front = true then
      (params queued).effectiveSchedPriority ≤ (params task).effectiveSchedPriority
    else (params queued).effectiveSchedPriority < (params task).effectiveSchedPriority

section Operations

variable [DecidableEq τ]

variable (manager : TaskManager τ) (params : τ → SchedParams)

def addAt (task : τ) (front : Bool) : Scheduled τ :=
  if (params task).isRealtime = true then
    let position := manager.realtimePosition params task front
    ({ manager with realtimeQueue := manager.realtimeQueue.insertAt position task }, params)
  else
    let noted := (params task).noteMlfqEnqueued manager.schedEpoch
    let queue := manager.readyQueues noted.mlfqLevel
    (manager.setLevel noted.mlfqLevel
      (if front = true then queue.pushFront task else queue.pushBack task),
      setParams params task noted)

def add (task : τ) : Scheduled τ :=
  manager.addAt params task false

def addFront (task : τ) : Scheduled τ :=
  manager.addAt params task true

end Operations

def completeSelection (manager : TaskManager τ) : TaskManager τ :=
  { manager with schedEpoch := (manager.schedEpoch + 1) % usizeLimit }

/-- Rotate a queue until a task is found which may run on the CPU. -/
def popAllowed (params : τ → SchedParams) (cpu : ℕ) : ℕ → Deque τ → Option τ × Deque τ
  | 0, queue => (none, queue)
  | fuel + 1, queue =>
    match queue.popFront with
    | none => (none, queue)
    | some (task, rest) =>
      if (params task).allowsCpu cpu = true then (some task, rest)
      else popAllowed params cpu fuel (rest.pushBack task)

def popLevels (params : τ → SchedParams) (cpu : ℕ) :
    List MlfqLevel → TaskManager τ → Option τ × TaskManager τ
  | [], manager => (none, manager)
  | level :: rest, manager =>
    let queue := manager.readyQueues level
    match popAllowed params cpu queue.length queue with
    | (some task, after) => (some task, manager.setLevel level after)
    | (none, after) => popLevels params cpu rest (manager.setLevel level after)

def popNext (manager : TaskManager τ) (params : τ → SchedParams) (cpu : ℕ) :
    Option τ × TaskManager τ :=
  match popAllowed params cpu manager.realtimeQueue.length manager.realtimeQueue with
  | (some task, after) => (some task, { manager with realtimeQueue := after })
  | (none, after) =>
    popLevels params cpu [0, 1, 2, 3] { manager with realtimeQueue := after }

section Operations

variable [DecidableEq τ]

def requeueAfterFailedClaim (manager : TaskManager τ) (params : τ → SchedParams)
    (task : τ) : Scheduled τ :=
  if (params task).isRealtime = true then manager.addFront params task
  else
    let level := (params task).mlfqLevel
    (manager.setLevel level ((manager.readyQueues level).pushBack task), params)

def nextAgingLevel (manager : TaskManager τ) : MlfqLevel × TaskManager τ :=
  let cursor := manager.agingCursorLevel
  (clampMlfqLevel (max cursor 1),
    { manager with agingCursorLevel := if mlfqLevels ≤ cursor + 1 then 1 else cursor + 1 })

/-- Move waiting tasks one level up, at most `budget` of them and only into
storage which has room.  The rest of the budget is returned. -/
def ageLevel (level : MlfqLevel) : ℕ → Scheduled τ → ℕ × Scheduled τ
  | 0, state => (0, state)
  | budget + 1, (manager, params) =>
    match (manager.readyQueues level).popFront with
    | none => (budget + 1, manager, params)
    | some (task, rest) =>
      let above := clampMlfqLevel (level.val - 1)
      if (params task).mlfqWaitExpired manager.schedEpoch = false then
        (budget + 1, manager, params)
      else if (manager.readyQueues above).length = (manager.readyQueues above).capacity then
        (budget + 1, manager, params)
      else
        let promoted := ((params task).setMlfqLevel above).noteMlfqEnqueued manager.schedEpoch
        let popped := manager.setLevel level rest
        ageLevel level budget
          (popped.setLevel above ((popped.readyQueues above).pushBack task),
            setParams params task promoted)

def ageRounds : ℕ → ℕ → Scheduled τ → Scheduled τ
  | 0, _, state => state
  | rounds + 1, budget, (manager, params) =>
    if budget = 0 then (manager, params)
    else
      let chosen := manager.nextAgingLevel
      let aged := ageLevel chosen.1 budget (chosen.2, params)
      ageRounds rounds aged.1 aged.2

def ageQueuedTasks (manager : TaskManager τ) (params : τ → SchedParams) : Scheduled τ :=
  ageRounds (mlfqLevels - 1) mlfqAgingScanBudget (manager, params)

def removeLevels (task : τ) : List MlfqLevel → TaskManager τ → Bool × TaskManager τ
  | [], manager => (false, manager)
  | level :: rest, manager =>
    if task ∈ (manager.readyQueues level).items then
      (true, manager.setLevel level ((manager.readyQueues level).remove task))
    else removeLevels task rest manager

def remove (manager : TaskManager τ) (task : τ) : Bool × TaskManager τ :=
  if task ∈ manager.realtimeQueue.items then
    (true, { manager with realtimeQueue := manager.realtimeQueue.remove task })
  else removeLevels task [0, 1, 2, 3] manager

end Operations

def capacityReady (manager : TaskManager τ) (required : ℕ) : Bool :=
  (decide (∀ level, required ≤ (manager.readyQueues level).capacity)) &&
    decide (required ≤ manager.realtimeQueue.capacity)

def replacementCapacity (required : ℕ) : ℕ :=
  let capacity := (max required runQueueMinCapacity).nextPowerOfTwo
  if capacity < usizeLimit then capacity else required

def replaceStorage (manager : TaskManager τ) (capacity : ℕ) : TaskManager τ :=
  { manager with
    readyQueues := fun level =>
      (Deque.withCapacity capacity).moveInto (manager.readyQueues level).items
    realtimeQueue := (Deque.withCapacity capacity).moveInto manager.realtimeQueue.items }

/-! ## Contents -/

variable {manager s' : TaskManager τ} {params : τ → SchedParams}

theorem card_tasks (manager : TaskManager τ) : manager.tasks.card = manager.len := by
  rw [tasks, len, card_add, card_sum]
  simp only [Deque.card_bag]

theorem tasks_setLevel (manager : TaskManager τ) (level : MlfqLevel) (queue : Deque τ) :
    (manager.setLevel level queue).tasks + (manager.readyQueues level).bag =
      manager.tasks + queue.bag := by
  have hsum : ∀ queues : MlfqLevel → Deque τ, ∑ other, (queues other).bag =
      (queues level).bag + ∑ other ∈ Finset.univ.erase level, (queues other).bag :=
    fun queues => (Finset.add_sum_erase _ _ (Finset.mem_univ level)).symm
  have hother : ∑ other ∈ Finset.univ.erase level,
      (update manager.readyQueues level queue other).bag =
        ∑ other ∈ Finset.univ.erase level, (manager.readyQueues other).bag := by
    apply Finset.sum_congr rfl
    intro other hmem
    rw [update_of_ne (Finset.ne_of_mem_erase hmem)]
  have hset : (manager.setLevel level queue).tasks = manager.realtimeQueue.bag +
      (queue.bag + ∑ other ∈ Finset.univ.erase level, (manager.readyQueues other).bag) := by
    rw [← hother, tasks, hsum]
    simp only [setLevel, update_self]
  rw [hset, tasks, hsum manager.readyQueues]
  abel

variable {level : MlfqLevel} {queue : Deque τ}

theorem tasks_setLevel_cons {task : τ}
    (hqueue : queue.bag = task ::ₘ (manager.readyQueues level).bag) :
    (manager.setLevel level queue).tasks = task ::ₘ manager.tasks := by
  have hset := manager.tasks_setLevel level queue
  rw [hqueue, ← singleton_add, ← add_assoc] at hset
  rw [add_right_cancel hset, add_comm, singleton_add]

theorem tasks_of_setLevel_cons {task : τ}
    (hqueue : (manager.readyQueues level).bag = task ::ₘ queue.bag) :
    manager.tasks = task ::ₘ (manager.setLevel level queue).tasks := by
  have hset := manager.tasks_setLevel level queue
  rw [hqueue, ← singleton_add, ← add_assoc] at hset
  rw [← add_right_cancel hset, add_comm, singleton_add]

theorem tasks_setLevel_same (hqueue : queue.bag = (manager.readyQueues level).bag) :
    (manager.setLevel level queue).tasks = manager.tasks := by
  have hset := manager.tasks_setLevel level queue
  rw [hqueue] at hset
  exact add_right_cancel hset

variable (manager : TaskManager τ)

theorem tasks_addAt [DecidableEq τ] (params : τ → SchedParams) (task : τ) (front : Bool) :
    (manager.addAt params task front).1.tasks = task ::ₘ manager.tasks := by
  rw [addAt]
  split
  · simp [tasks, cons_add]
  · apply tasks_setLevel_cons
    cases front <;> simp

theorem tasks_requeueAfterFailedClaim [DecidableEq τ] (params : τ → SchedParams) (task : τ) :
    (manager.requeueAfterFailedClaim params task).1.tasks = task ::ₘ manager.tasks := by
  rw [requeueAfterFailedClaim]
  split
  · exact manager.tasks_addAt params task true
  · exact tasks_setLevel_cons (Deque.bag_pushBack _ _)

theorem popAllowed_takes (params : τ → SchedParams) (cpu fuel : ℕ) (queue : Deque τ) :
    Takes (popAllowed params cpu fuel queue).1 queue.bag
      (popAllowed params cpu fuel queue).2.bag := by
  induction fuel generalizing queue with
  | zero => exact rfl
  | succ fuel ih =>
    rw [popAllowed]
    cases hpop : queue.popFront with
    | none => exact rfl
    | some popped =>
      obtain ⟨task, rest⟩ := popped
      have hbag := Deque.bag_of_popFront_eq_some hpop
      simp only
      split
      · exact hbag
      · have hrotated := ih (rest.pushBack task)
        rwa [Deque.bag_pushBack, ← hbag] at hrotated

theorem popLevels_takes (params : τ → SchedParams) (cpu : ℕ) (levels : List MlfqLevel)
    (manager : TaskManager τ) :
    Takes (popLevels params cpu levels manager).1 manager.tasks
      (popLevels params cpu levels manager).2.tasks := by
  induction levels generalizing manager with
  | nil => exact rfl
  | cons level rest ih =>
    have htakes := popAllowed_takes params cpu (manager.readyQueues level).length
      (manager.readyQueues level)
    rw [popLevels]
    split
    · next task queue hpop =>
      rw [hpop] at htakes
      exact tasks_of_setLevel_cons htakes
    · next queue hpop =>
      rw [hpop] at htakes
      have hrest := ih (manager.setLevel level queue)
      rwa [tasks_setLevel_same htakes] at hrest

theorem popNext_takes (params : τ → SchedParams) (cpu : ℕ) :
    Takes (manager.popNext params cpu).1 manager.tasks (manager.popNext params cpu).2.tasks := by
  have htakes := popAllowed_takes params cpu manager.realtimeQueue.length manager.realtimeQueue
  rw [popNext]
  split
  · next task queue hpop =>
    rw [hpop] at htakes
    change manager.realtimeQueue.bag = task ::ₘ queue.bag at htakes
    change manager.realtimeQueue.bag + _ = task ::ₘ (queue.bag + _)
    rw [htakes, cons_add]
  · next queue hpop =>
    rw [hpop] at htakes
    change queue.bag = manager.realtimeQueue.bag at htakes
    have hlevels := popLevels_takes params cpu [0, 1, 2, 3] { manager with realtimeQueue := queue }
    have hsame : ({ manager with realtimeQueue := queue } : TaskManager τ).tasks =
        manager.tasks := by
      simp only [tasks, htakes]
    rwa [hsame] at hlevels

theorem tasks_ageLevel [DecidableEq τ] (level : MlfqLevel) (budget : ℕ) (state : Scheduled τ) :
    (ageLevel level budget state).2.1.tasks = state.1.tasks := by
  induction budget generalizing state with
  | zero => rfl
  | succ budget ih =>
    obtain ⟨manager, params⟩ := state
    rw [ageLevel]
    cases hpop : (manager.readyQueues level).popFront with
    | none => rfl
    | some popped =>
      obtain ⟨task, rest⟩ := popped
      simp only
      split
      · rfl
      · split
        · rfl
        · rw [ih, tasks_setLevel_cons (Deque.bag_pushBack _ _)]
          exact (tasks_of_setLevel_cons (Deque.bag_of_popFront_eq_some hpop)).symm

theorem tasks_ageRounds [DecidableEq τ] (rounds budget : ℕ) (state : Scheduled τ) :
    (ageRounds rounds budget state).1.tasks = state.1.tasks := by
  induction rounds generalizing budget state with
  | zero => rfl
  | succ rounds ih =>
    obtain ⟨manager, params⟩ := state
    rw [ageRounds]
    split
    · rfl
    · rw [ih, tasks_ageLevel]
      rfl

theorem removeLevels_takes [DecidableEq τ] (task : τ) (levels : List MlfqLevel)
    (manager : TaskManager τ) :
    Takes (if (removeLevels task levels manager).1 = true then some task else none)
        manager.tasks (removeLevels task levels manager).2.tasks ∧
      ((removeLevels task levels manager).1 = false →
        ∀ level ∈ levels, task ∉ (manager.readyQueues level).items) := by
  induction levels with
  | nil => exact ⟨rfl, by simp⟩
  | cons level rest ih =>
    rw [removeLevels]
    split
    · next hmem =>
      refine ⟨tasks_of_setLevel_cons ?_, by simp⟩
      rw [Deque.bag_remove]
      exact (cons_erase hmem).symm
    · next hmem =>
      refine ⟨ih.1, ?_⟩
      intro hfalse other hother
      rw [List.mem_cons] at hother
      rcases hother with rfl | hother
      · exact hmem
      · exact ih.2 hfalse other hother

theorem mem_levels : ∀ level : MlfqLevel, level ∈ ([0, 1, 2, 3] : List MlfqLevel) := by
  decide

theorem remove_takes [DecidableEq τ] (task : τ) :
    Takes (if (manager.remove task).1 = true then some task else none)
        manager.tasks (manager.remove task).2.tasks ∧
      ((manager.remove task).1 = false → task ∉ manager.tasks) := by
  rw [remove]
  split
  · next hmem =>
    refine ⟨?_, by simp⟩
    change manager.realtimeQueue.bag + _ = task ::ₘ ((manager.realtimeQueue.remove task).bag + _)
    have hbag : task ∈ manager.realtimeQueue.bag := hmem
    rw [Deque.bag_remove, ← cons_add, cons_erase hbag]
  · next hmem =>
    obtain ⟨htakes, hlevels⟩ := removeLevels_takes task [0, 1, 2, 3] manager
    refine ⟨htakes, ?_⟩
    intro hfalse hin
    rw [tasks, mem_add, mem_sum] at hin
    rcases hin with hrealtime | ⟨level, -, hlevel⟩
    · exact hmem hrealtime
    · exact hlevels hfalse level (mem_levels level) hlevel

theorem items_replaceStorage (capacity : ℕ) :
    (∀ level, ((manager.replaceStorage capacity).readyQueues level).items =
      (manager.readyQueues level).items) ∧
      (manager.replaceStorage capacity).realtimeQueue.items = manager.realtimeQueue.items := by
  simp [replaceStorage, Deque.items_moveInto]

theorem tasks_replaceStorage (capacity : ℕ) :
    (manager.replaceStorage capacity).tasks = manager.tasks := by
  obtain ⟨hlevels, hrealtime⟩ := manager.items_replaceStorage capacity
  simp only [tasks, Deque.bag, hlevels, hrealtime]

end TaskManager

end Kairix.Sched
