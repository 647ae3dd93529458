import Kairix.MarkedQueues
import Kairix.TaskScheduler

/-!
# Placement of tasks

The invariant says who holds each run-queue lock, how far the contents, the
markers and the counter of each queue agree, and that a CPU marked by a task is
the one CPU which has claimed it.  The lemmas of this module say how one agent's
step carries the invariant over.
-/

namespace Kairix.Sched

open Function MarkedQueues

variable {cpus helpers : ℕ} {τ : Type*}

namespace Phase

def holds (agent : Agent cpus helpers) : Phase cpus τ → Option (Fin cpus)
  | .enqueueQueued op => some op.cpu
  | .enqueueOnCpu op => some op.cpu
  | .enqueueMark op => some op.cpu
  | .enqueueAdd op => some op.cpu
  | .enqueueCount op => some op.cpu
  | .claimPop _ => ownCpu
  | .claimMark _ _ => ownCpu
  | .claimUnqueue _ _ => ownCpu
  | .claimRollback _ _ => ownCpu
  | .claimRecheck _ _ => ownCpu
  | .claimCount _ => ownCpu
  | .claimStale _ => ownCpu
  | .removeCheck _ cpu => some cpu
  | .removeClear _ cpu => some cpu
  | .removeClearStale _ cpu => some cpu
  | .removeStore _ cpu => some cpu
  | _ => none
where
  ownCpu : Option (Fin cpus) :=
    match agent with
    | .cpu index => some index
    | .helper _ => none

def stage : Phase cpus τ → Stage τ
  | .enqueueAdd op => .adding op.task
  | .enqueueCount op => .counting op.task
  | .claimMark task _ => .carrying task
  | .claimUnqueue task _ => .carrying task
  | .claimRecheck task _ => .carrying task
  | .removeClear op _ => .carrying op.task
  | .claimCount _ => .leaving
  | _ => .quiet

def pendingAt : Phase cpus τ → Option (Fin cpus)
  | .removeCount _ cpu => some cpu
  | _ => none

def claimed : Phase cpus τ → Option τ
  | .claimUnqueue task _ => some task
  | .claimRollback task _ => some task
  | .claimCount task => some task
  | .dispatch task => some task
  | .dispatchRun task => some task
  | .reject task => some task
  | .executing task => some task
  | .switching task => some task
  | _ => none

/-- The phases which take back a claim or repair a marker are never entered. -/
def Regular : Phase cpus τ → Prop
  | .claimRollback _ _ => False
  | .claimStale _ => False
  | .removeClearStale _ _ => False
  | .removeStore _ _ => False
  | _ => True

/-- The phases of an agent which has no lock and owes nothing. -/
def Free : Phase cpus τ → Prop
  | .idle | .addCheck _ | .enqueueTry _ | .claimTry | .dispatch _ | .dispatchRun _ | .reject _
  | .executing _ | .switching _ | .removeLoad _ | .removeTry _ _ | .wake _ _ | .wakeQueued _ _
  | .wakeOnCpu _ _ => True
  | _ => False

theorem Free.outside {phase : Phase cpus τ} (hfree : phase.Free) (agent : Agent cpus helpers) :
    phase.holds agent = none ∧ phase.pendingAt = none ∧ phase.Regular := by
  cases phase <;> first | exact ⟨rfl, rfl, trivial⟩ | exact hfree.elim

end Phase

namespace SchedConfig

def stageOf (config : SchedConfig cpus helpers τ) (cpu : Fin cpus) : Stage τ :=
  match config.lock cpu with
  | none => .quiet
  | some agent => (config.phase agent).stage

/-- The agents which still have to lower the counter of a queue. -/
def pendingOf (config : SchedConfig cpus helpers τ) (cpu : Fin cpus) :
    Finset (Agent cpus helpers) :=
  Finset.univ.filter fun agent => (config.phase agent).pendingAt = some cpu

def marker (config : SchedConfig cpus helpers τ) (task : τ) : Option (Fin cpus) :=
  (config.task task).readyQueued

structure Queued (s : SchedConfig cpus helpers τ) : Prop where
  locks : ∀ agent cpu, (s.phase agent).holds agent = some cpu ↔ s.lock cpu = some agent
  agrees : ∀ cpu, Agrees cpu (s.manager cpu).tasks (s.readyTasks cpu)
    (s.stageOf cpu) (s.pendingOf cpu).card s.marker
  regular : ∀ agent, (s.phase agent).Regular

/-- The mark `on_cpu` names the CPU which has claimed the task. -/
structure Claimed (s : SchedConfig cpus helpers τ) : Prop where
  claims : ∀ task cpu, (s.task task).onCpu = some cpu ↔
    (s.phase (.cpu cpu)).claimed = some task
  helpers : ∀ index, (s.phase (.helper index)).claimed = none

variable {s s' : SchedConfig cpus helpers τ} {agent : Agent cpus helpers}
variable {phase : Phase cpus τ} {cpu : Fin cpus}

theorem stageOf_of_lock_eq_none (hlock : s.lock cpu = none) : s.stageOf cpu = .quiet := by
  rw [stageOf, hlock]

theorem stageOf_of_lock_eq_some (hlock : s.lock cpu = some agent) :
    s.stageOf cpu = (s.phase agent).stage := by
  rw [stageOf, hlock]

theorem stageOf_congr (hlock : s'.lock cpu = s.lock cpu)
    (hphase : ∀ other, s.lock cpu = some other → s'.phase other = s.phase other) :
    s'.stageOf cpu = s.stageOf cpu := by
  cases hown : s.lock cpu with
  | none => rw [stageOf_of_lock_eq_none hown, stageOf_of_lock_eq_none (hlock.trans hown)]
  | some other =>
    rw [stageOf_of_lock_eq_some hown, stageOf_of_lock_eq_some (hlock.trans hown), hphase other hown]

section

variable (hphase : ∀ other, other ≠ agent → s'.phase other = s.phase other)
include hphase

theorem pendingOf_congr
    (hsame : (s'.phase agent).pendingAt = some cpu ↔ (s.phase agent).pendingAt = some cpu) :
    s'.pendingOf cpu = s.pendingOf cpu := by
  ext other
  simp only [pendingOf, Finset.mem_filter, Finset.mem_univ, true_and]
  by_cases hother : other = agent
  · rw [hother, hsame]
  · rw [hphase other hother]

theorem card_pendingOf_enter (hbefore : (s.phase agent).pendingAt ≠ some cpu)
    (hafter : (s'.phase agent).pendingAt = some cpu) :
    (s'.pendingOf cpu).card = (s.pendingOf cpu).card + 1 := by
  have hset : s'.pendingOf cpu = insert agent (s.pendingOf cpu) := by
    ext other
    simp only [pendingOf, Finset.mem_filter, Finset.mem_univ, true_and, Finset.mem_insert]
    by_cases hother : other = agent
    · simp [hother, hafter]
    · simp [hother, hphase other hother]
  rw [hset, Finset.card_insert_of_notMem]
  simpa [pendingOf] using hbefore

end

/-! ## Steps of one agent -/

structure SameElsewhere (config after : SchedConfig cpus helpers τ) (cpu : Fin cpus) :
    Prop where
  lock : ∀ other, other ≠ cpu → after.lock other = config.lock other
  tasks : ∀ other, other ≠ cpu → (after.manager other).tasks = (config.manager other).tasks
  count : ∀ other, other ≠ cpu → after.readyTasks other = config.readyTasks other
  marker : ∀ other, other ≠ cpu → ∀ task,
    after.marker task = some other ↔ config.marker task = some other

theorem setPhase_self : (s.setPhase agent phase).phase agent = phase := update_self ..

theorem setManager_self {manager : TaskManager τ} :
    (s.setManager cpu manager).manager cpu = manager :=
  update_self ..

theorem setCount_self {count : ℕ} : (s.setCount cpu count).readyTasks cpu = count := update_self ..

theorem setPhase_of_ne {other : Agent cpus helpers} (hother : other ≠ agent) :
    (s.setPhase agent phase).phase other = s.phase other :=
  update_of_ne hother ..

theorem holds_of_phase {held : Option (Fin cpus)} (hphase : s.phase agent = phase)
    (hheld : phase.holds agent = held) : (s.phase agent).holds agent = held := by
  rwa [hphase]

theorem pendingAt_of_phase {owed : Option (Fin cpus)} (hphase : s.phase agent = phase)
    (howed : phase.pendingAt = owed) : (s.phase agent).pendingAt = owed := by
  rwa [hphase]

theorem pendingAt_of_holds (hholds : phase.holds agent = some cpu) : phase.pendingAt = none := by
  cases phase <;> first | rfl | simp [Phase.holds] at hholds

theorem Queued.agrees_of_holds (hinv : s.Queued) (hholds : (s.phase agent).holds agent = some cpu) :
    Agrees cpu (s.manager cpu).tasks (s.readyTasks cpu)
      (s.phase agent).stage (s.pendingOf cpu).card s.marker := by
  have hagrees := hinv.agrees cpu
  rwa [stageOf_of_lock_eq_some ((hinv.locks agent cpu).mp hholds)] at hagrees

theorem Queued.marker_of_carrying {task : τ} (hinv : s.Queued)
    (hholds : (s.phase agent).holds agent = some cpu)
    (hcarried : (s.phase agent).stage = .carrying task) : s.marker task = some cpu := by
  have hagrees := hinv.agrees_of_holds hholds
  rw [hcarried] at hagrees
  exact (hagrees.marked task).mpr (.inr rfl)

section Sections

variable {changed : SchedConfig cpus helpers τ}

section

variable (hinv : s.Queued) (hchanged : changed.phase = s.phase)
include hchanged

theorem setPhase_other (other : Agent cpus helpers) (hother : other ≠ agent) :
    (changed.setPhase agent phase).phase other = s.phase other := by
  rw [setPhase_of_ne hother, hchanged]

theorem stageOf_setPhase (hlock : changed.lock cpu = s.lock cpu) (hfree : s.lock cpu ≠ some agent) :
    (changed.setPhase agent phase).stageOf cpu = s.stageOf cpu := by
  refine stageOf_congr hlock fun other hown => setPhase_other hchanged other ?_
  rintro rfl
  exact hfree hown

theorem pendingOf_setPhase
    (hsame : phase.pendingAt = some cpu ↔ (s.phase agent).pendingAt = some cpu) :
    (changed.setPhase agent phase).pendingOf cpu = s.pendingOf cpu := by
  apply pendingOf_congr (setPhase_other hchanged)
  rwa [setPhase_self]

include hinv

theorem Queued.phase_step (hlocks : ∀ place, phase.holds agent = some place ↔
      changed.lock place = some agent)
    (hothers : ∀ other place, other ≠ agent →
      (s.lock place = some other ↔ changed.lock place = some other))
    (hregular : phase.Regular)
    (hagrees : ∀ place, Agrees place (changed.manager place).tasks (changed.readyTasks place)
      ((changed.setPhase agent phase).stageOf place)
      ((changed.setPhase agent phase).pendingOf place).card changed.marker) :
    (changed.setPhase agent phase).Queued where
  locks := by
    intro other place
    by_cases hother : other = agent
    · rw [hother, setPhase_self]
      exact hlocks place
    · rw [setPhase_other hchanged other hother, hinv.locks]
      exact hothers other place hother
  agrees := hagrees
  regular := by
    intro other
    by_cases hother : other = agent
    · rwa [hother, setPhase_self]
    · rw [setPhase_other hchanged other hother]
      exact hinv.regular other

theorem Queued.unlocked (hbefore : (s.phase agent).holds agent = none)
    (hafter : phase.holds agent = none) (hregular : phase.Regular)
    (hlock : changed.lock = s.lock)
    (hagrees : ∀ place, Agrees place (changed.manager place).tasks (changed.readyTasks place)
      (s.stageOf place) ((changed.setPhase agent phase).pendingOf place).card
      changed.marker) :
    (changed.setPhase agent phase).Queued := by
  have hfree : ∀ place, s.lock place ≠ some agent := by
    intro place hown
    rw [← hinv.locks agent place, hbefore] at hown
    simp at hown
  apply hinv.phase_step hchanged
  · intro place
    rw [hafter, hlock]
    simp [hfree place]
  · intro other place _
    rw [hlock]
  · exact hregular
  · intro place
    rw [stageOf_setPhase hchanged (by rw [hlock]) (hfree place)]
    exact hagrees place

theorem Queued.outside (hbefore : (s.phase agent).Free) (hafter : phase.Free)
    (hlock : changed.lock = s.lock) (hmanager : changed.manager = s.manager)
    (hcount : changed.readyTasks = s.readyTasks) (hmarker : changed.marker = s.marker) :
    (changed.setPhase agent phase).Queued := by
  obtain ⟨hholdsBefore, hpendingBefore, -⟩ := hbefore.outside agent
  obtain ⟨hholds, hpending, hregular⟩ := hafter.outside agent
  refine hinv.unlocked hchanged hholdsBefore hholds hregular hlock fun place => ?_
  rw [hmanager, hcount, pendingOf_setPhase hchanged (by rw [hpending, hpendingBefore]), hmarker]
  exact hinv.agrees place

section

variable
  (hbefore : (s.phase agent).holds agent = some cpu ∨
    (s.phase agent).holds agent = none ∧ s.lock cpu = none)
  (hpendingBefore : (s.phase agent).pendingAt = none)
  (helsewhere : SameElsewhere s changed cpu)
include hbefore hpendingBefore helsewhere

theorem Queued.section_set (hafter : phase.holds agent = some cpu ∧ changed.lock cpu = some agent ∨
      phase.holds agent = none ∧ changed.lock cpu = none)
    (hpending : ∀ other, other ≠ cpu → phase.pendingAt ≠ some other) (hregular : phase.Regular)
    (hagrees : Agrees cpu (changed.manager cpu).tasks (changed.readyTasks cpu)
      ((changed.setPhase agent phase).stageOf cpu)
      ((changed.setPhase agent phase).pendingOf cpu).card changed.marker) :
    (changed.setPhase agent phase).Queued := by
  have hown : ∀ other place, s.lock place = some other → (other = agent ↔ place = cpu) := by
    intro other place hlock
    have hholds := (hinv.locks other place).mpr hlock
    rcases hbefore with hbefore | ⟨hbefore, hfree⟩
    · have hcpu := (hinv.locks agent cpu).mp hbefore
      constructor
      · rintro rfl
        exact Option.some.inj (hholds.symm.trans hbefore)
      · rintro rfl
        exact Option.some.inj (hlock.symm.trans hcpu)
    · constructor
      · rintro rfl
        simp [hbefore] at hholds
      · rintro rfl
        simp [hfree] at hlock
  apply hinv.phase_step hchanged
  · intro place
    by_cases hplace : place = cpu
    · rw [hplace]
      rcases hafter with ⟨hholds, hlock⟩ | ⟨hholds, hlock⟩ <;> simp [hholds, hlock]
    · rw [helsewhere.lock place hplace]
      apply iff_of_false
      · rcases hafter with ⟨hholds, -⟩ | ⟨hholds, -⟩ <;> simp [hholds, Ne.symm hplace]
      · exact fun hlock => hplace ((hown agent place hlock).mp rfl)
  · intro other place hother
    by_cases hplace : place = cpu
    · rw [hplace]
      apply iff_of_false
      · exact fun hlock => hother ((hown other cpu hlock).mpr rfl)
      · rcases hafter with ⟨-, hlock⟩ | ⟨-, hlock⟩ <;> simp [hlock, Ne.symm hother]
    · rw [helsewhere.lock place hplace]
  · exact hregular
  · intro place
    by_cases hplace : place = cpu
    · rwa [hplace]
    · have hfree : s.lock place ≠ some agent :=
        fun hlock => hplace ((hown agent place hlock).mp rfl)
      have hpend : phase.pendingAt = some place ↔ (s.phase agent).pendingAt = some place := by
        simp [hpending place hplace, hpendingBefore]
      rw [helsewhere.tasks place hplace, helsewhere.count place hplace,
        stageOf_setPhase hchanged (helsewhere.lock place hplace) hfree,
        pendingOf_setPhase hchanged hpend]
      exact (hinv.agrees place).frame (helsewhere.marker place hplace)

theorem Queued.inside (hlock : changed.lock cpu = some agent)
    (hholds : phase.holds agent = some cpu) (hregular : phase.Regular)
    (hagrees : Agrees cpu (changed.manager cpu).tasks (changed.readyTasks cpu) phase.stage
      (s.pendingOf cpu).card changed.marker) :
    (changed.setPhase agent phase).Queued := by
  have hpending : phase.pendingAt = none := pendingAt_of_holds hholds
  have hstage : (changed.setPhase agent phase).stageOf cpu = phase.stage := by
    have hlocked : (changed.setPhase agent phase).lock cpu = some agent := hlock
    rw [stageOf_of_lock_eq_some hlocked, setPhase_self]
  apply hinv.section_set hchanged hbefore hpendingBefore helsewhere
  · exact .inl ⟨hholds, hlock⟩
  · simp [hpending]
  · exact hregular
  · rw [hstage, pendingOf_setPhase hchanged (by rw [hpending, hpendingBefore])]
    exact hagrees

end

theorem Queued.within {before : Phase cpus τ} (hphase : s.phase agent = before)
    (hbefore : before.holds agent = some cpu) (helsewhere : SameElsewhere s changed cpu)
    (hlock : changed.lock cpu = s.lock cpu) (hholds : phase.holds agent = some cpu)
    (hregular : phase.Regular)
    (hagrees : Agrees cpu (s.manager cpu).tasks (s.readyTasks cpu) before.stage
        (s.pendingOf cpu).card s.marker →
      Agrees cpu (changed.manager cpu).tasks (changed.readyTasks cpu) phase.stage
        (s.pendingOf cpu).card changed.marker) :
    (changed.setPhase agent phase).Queued := by
  subst hphase
  exact hinv.inside hchanged (.inl hbefore) (pendingAt_of_holds hbefore) helsewhere
    (hlock.trans ((hinv.locks agent cpu).mp hbefore)) hholds hregular
    (hagrees (hinv.agrees_of_holds hbefore))

section

variable (hbefore : (s.phase agent).holds agent = some cpu)
  (helsewhere : SameElsewhere s changed cpu) (hlock : changed.lock cpu = none)
include hbefore helsewhere hlock

theorem Queued.leave (hafter : phase.Free)
    (hagrees : Agrees cpu (changed.manager cpu).tasks (changed.readyTasks cpu) .quiet
      (s.pendingOf cpu).card changed.marker) :
    (changed.setPhase agent phase).Queued := by
  obtain ⟨hholds, hpending, hregular⟩ := hafter.outside agent
  have hpendingBefore := pendingAt_of_holds hbefore
  have hstage : (changed.setPhase agent phase).stageOf cpu = .quiet := stageOf_of_lock_eq_none hlock
  apply hinv.section_set hchanged (.inl hbefore) hpendingBefore helsewhere
  · exact .inr ⟨hholds, hlock⟩
  · simp [hpending]
  · exact hregular
  · rw [hstage, pendingOf_setPhase hchanged (by rw [hpending, hpendingBefore])]
    exact hagrees

theorem Queued.leave_owing (hholds : phase.holds agent = none)
    (hpending : phase.pendingAt = some cpu) (hregular : phase.Regular)
    (hagrees : Agrees cpu (changed.manager cpu).tasks (changed.readyTasks cpu) .leaving
      (s.pendingOf cpu).card changed.marker) :
    (changed.setPhase agent phase).Queued := by
  have hpendingBefore := pendingAt_of_holds hbefore
  have hstage : (changed.setPhase agent phase).stageOf cpu = .quiet := stageOf_of_lock_eq_none hlock
  have hcard : ((changed.setPhase agent phase).pendingOf cpu).card =
      (s.pendingOf cpu).card + 1 := by
    apply card_pendingOf_enter (setPhase_other hchanged)
    · simp [hpendingBefore]
    · rw [setPhase_self, hpending]
  apply hinv.section_set hchanged (.inl hbefore) hpendingBefore helsewhere
  · exact .inr ⟨hholds, hlock⟩
  · intro other hother
    simp [hpending, Ne.symm hother]
  · exact hregular
  · rw [hstage, hcard]
    exact hagrees.postpone

end

end

theorem Queued.settle (hinv : s.Queued) (hbefore : (s.phase agent).holds agent = none)
    (hpendingBefore : (s.phase agent).pendingAt = some cpu) (hafter : phase.Free) :
    0 < s.readyTasks cpu ∧ ((s.decrementReadyTasks cpu).setPhase agent phase).Queued := by
  obtain ⟨hholds, hpending, hregular⟩ := hafter.outside agent
  have hcard : (s.pendingOf cpu).card =
      (((s.decrementReadyTasks cpu).setPhase agent phase).pendingOf cpu).card + 1 := by
    apply card_pendingOf_enter fun other hother => (setPhase_of_ne hother).symm
    · simp [setPhase_self, hpending]
    · exact hpendingBefore
  have hown := hinv.agrees cpu
  rw [hcard] at hown
  refine ⟨hown.settle.1, hinv.unlocked rfl hbefore hholds hregular rfl fun place => ?_⟩
  by_cases hplace : place = cpu
  · subst place
    rw [decrementReadyTasks, setCount_self]
    exact hown.settle.2
  · have hpend : phase.pendingAt = some place ↔ (s.phase agent).pendingAt = some place := by
      simp [hpending, hpendingBefore, Ne.symm hplace]
    have hcount : (s.decrementReadyTasks cpu).readyTasks place = s.readyTasks place :=
      update_of_ne hplace ..
    have hpending : ((s.decrementReadyTasks cpu).setPhase agent phase).pendingOf place =
        s.pendingOf place := pendingOf_setPhase rfl hpend
    rw [hpending, hcount]
    exact hinv.agrees place

theorem SameElsewhere.refl (s : SchedConfig cpus helpers τ) (cpu : Fin cpus) :
    SameElsewhere s s cpu :=
  ⟨fun _ _ => rfl, fun _ _ => rfl, fun _ _ => rfl, fun _ _ _ => Iff.rfl⟩

section

variable (hsame : SameElsewhere s changed cpu)
include hsame

theorem SameElsewhere.setLock (owner : Option (Agent cpus helpers)) :
    SameElsewhere s (changed.setLock cpu owner) cpu := by
  refine { hsame with lock := ?_ }
  intro other hother
  simp only [SchedConfig.setLock, update_of_ne hother]
  exact hsame.lock other hother

theorem SameElsewhere.setManager (manager : TaskManager τ) :
    SameElsewhere s (changed.setManager cpu manager) cpu := by
  refine { hsame with tasks := ?_ }
  intro other hother
  simp only [SchedConfig.setManager, update_of_ne hother]
  exact hsame.tasks other hother

theorem SameElsewhere.setCount (count : ℕ) : SameElsewhere s (changed.setCount cpu count) cpu := by
  refine { hsame with count := ?_ }
  intro other hother
  simp only [SchedConfig.setCount, update_of_ne hother]
  exact hsame.count other hother

end

theorem Queued.unlock {before : Phase cpus τ} (hinv : s.Queued)
    (hphase : s.phase agent = before) (hbefore : before.holds agent = some cpu)
    (hquiet : before.stage = .quiet) (hafter : phase.Free) :
    (s.unlock agent cpu phase).Queued := by
  subst hphase
  have hagrees := hinv.agrees_of_holds hbefore
  rw [hquiet] at hagrees
  exact hinv.leave rfl hbefore ((SameElsewhere.refl s cpu).setLock none)
    (update_self ..) hafter hagrees

end Sections

end SchedConfig

/-! ## One step of the scheduler -/

namespace SchedConfig

structure Sound (config : SchedConfig cpus helpers τ) : Prop extends Queued config, Claimed config

variable [DecidableEq τ]

inductive Walks (s : SchedConfig cpus helpers τ) :
    SchedStep cpus helpers τ → SchedConfig cpus helpers τ → Prop
  | addReady {agent op target giveUp} : s.phase agent = .addCheck op →
      Walks s (.advance agent target giveUp) (s.setPhase agent (.enqueueTry op))
  | addRefused {agent op target giveUp} :
      s.phase agent = .addCheck op → (s.task op.task).status ≠ .ready →
      Walks s (.advance agent target giveUp) (s.setPhase agent .idle)
  | enqueueBusy {agent op target giveUp} : s.phase agent = .enqueueTry op →
      Walks s (.advance agent target giveUp) (s.setPhase agent (.enqueueTry op))
  | claimRefused {cpu target giveUp} : s.phase (.cpu cpu) = .claimTry →
      Walks s (.advance (.cpu cpu) target giveUp) (s.setPhase (.cpu cpu) .idle)
  | drop {cpu job target giveUp} :
      s.phase (.cpu cpu) = .dispatch job ∨ s.phase (.cpu cpu) = .dispatchRun job →
      (s.task job).status ≠ .ready →
      Walks s (.advance (.cpu cpu) target giveUp)
        (s.setPhase (.cpu cpu) (.reject job))
  | dispatch {cpu job target giveUp} : s.phase (.cpu cpu) = .dispatch job →
      Walks s (.advance (.cpu cpu) target giveUp)
        (s.setPhase (.cpu cpu) (.dispatchRun job))
  | run {cpu job target giveUp} :
      s.phase (.cpu cpu) = .dispatchRun job → (s.task job).status = .ready →
      Walks s (.advance (.cpu cpu) target giveUp) ((s.setTask job
        { s.task job with
          status := .running, call := .executing,
          woken := if (s.task job).call = .block then false
            else (s.task job).woken }).setPhase (.cpu cpu) (.executing job))
  | removeGone {agent gone target giveUp} : s.phase agent = .removeLoad gone →
      Walks s (.advance agent target giveUp)
        (s.setPhase agent (afterRemoval gone target))
  | removeFound {agent gone target giveUp cpu} : s.phase agent = .removeLoad gone →
      Walks s (.advance agent target giveUp) (s.setPhase agent (.removeTry gone cpu))
  | removeBusy {agent gone cpu target giveUp} : s.phase agent = .removeTry gone cpu →
      Walks s (.advance agent target giveUp) (s.setPhase agent (.removeLoad gone))
  | wake {agent job front target giveUp} : s.phase agent = .wake job front →
      Walks s (.advance agent target giveUp) (s.wakeStep agent job front target)
  | wakeMarked {agent job front target giveUp} : s.phase agent = .wakeQueued job front →
      (s.task job).readyQueued ≠ none →
      Walks s (.advance agent target giveUp) (s.setPhase agent .idle)
  | wakeUnmarked {agent job front target giveUp} : s.phase agent = .wakeQueued job front →
      Walks s (.advance agent target giveUp) (s.setPhase agent (.wakeOnCpu job front))
  | wakeClaimed {agent job front target giveUp} :
      s.phase agent = .wakeOnCpu job front → (s.task job).onCpu ≠ none →
      Walks s (.advance agent target giveUp) (s.setPhase agent .idle)
  | wakeAdd {agent job front target giveUp} : s.phase agent = .wakeOnCpu job front →
      Walks s (.advance agent target giveUp)
        (s.setPhase agent (.addCheck ⟨target, job, front, none⟩))
  | fetch {cpu} : s.phase (.cpu cpu) = .idle →
      Walks s (.fetch cpu) (s.setPhase (.cpu cpu) .claimTry)
  | own {cpu job step} : s.phase (.cpu cpu) = .executing job →
      Walks s (.own cpu step) (s.ownStep cpu job step)
  | spawn {helper job target} : s.phase (.helper helper) = .idle → (s.task job).born = false →
      Walks s (.spawn helper job target) ((s.setTask job { s.task job with
        status := .ready, born := true }).setPhase (.helper helper)
          (.addCheck ⟨target, job, false, none⟩))
  | wakeup {helper job front} : s.phase (.helper helper) = .idle →
      Walks s (.wakeup helper job front) (s.setPhase (.helper helper) (.wake job front))
  | remove {helper gone} : s.phase (.helper helper) = .idle →
      Walks s (.remove helper gone) (s.setPhase (.helper helper) (.removeLoad gone))
  | groupStop {helper job} : s.phase (.helper helper) = .idle →
      Walks s (.groupStop helper job) (s.groupStopStep (.helper helper) job)
  | groupContinue {helper job} : s.phase (.helper helper) = .idle →
      Walks s (.groupContinue helper job) (s.groupContinueStep (.helper helper) job)

inductive Steps (s : SchedConfig cpus helpers τ) :
    SchedStep cpus helpers τ → SchedConfig cpus helpers τ → Prop
  | walk {label after} : Walks s label after → Steps s label after
  | adjust {job tuned} : Steps s (.adjust job tuned)
      { s with params := TaskManager.setParams s.params job tuned }
  | enqueueLock {agent op target giveUp} : s.phase agent = .enqueueTry op → s.lock op.cpu = none →
      Steps s (.advance agent target giveUp)
        ((s.setLock op.cpu (some agent)).setPhase agent (.enqueueQueued op))
  | enqueueMarked {agent op target giveUp} : s.phase agent = .enqueueQueued op →
      (s.task op.task).readyQueued ≠ none →
      Steps s (.advance agent target giveUp) (s.unlock agent op.cpu .idle)
  | enqueueFresh {agent op target giveUp} : s.phase agent = .enqueueQueued op →
      (s.task op.task).readyQueued = none →
      Steps s (.advance agent target giveUp) (s.setPhase agent (.enqueueOnCpu op))
  | enqueueClaimed {agent op target giveUp} :
      s.phase agent = .enqueueOnCpu op → (s.task op.task).onCpu ≠ none →
      Steps s (.advance agent target giveUp) (s.unlock agent op.cpu .idle)
  | enqueueRoom {agent op target giveUp} :
      s.phase agent = .enqueueOnCpu op → (s.task op.task).onCpu = none →
      Steps s (.advance agent target giveUp) (s.setPhase agent (.enqueueMark op))
  | enqueueGrow {agent op target giveUp capacity} :
      s.phase agent = .enqueueOnCpu op → (s.task op.task).onCpu = none →
      Steps s (.advance agent target giveUp) ((s.setManager op.cpu
        ((s.manager op.cpu).replaceStorage capacity)).setPhase agent
          (.enqueueMark { op with spare := none }))
  | enqueueRetry {agent op target giveUp spare} : s.phase agent = .enqueueOnCpu op →
      Steps s (.advance agent target giveUp)
        (s.unlock agent op.cpu (.enqueueTry { op with spare := spare }))
  | enqueueMark {agent op target giveUp} : s.phase agent = .enqueueMark op →
      (s.task op.task).readyQueued = none →
      Steps s (.advance agent target giveUp)
        ((s.setReadyQueued op.task (some op.cpu)).setPhase agent (.enqueueAdd op))
  | enqueueLate {agent op target giveUp} : s.phase agent = .enqueueMark op →
      (s.task op.task).readyQueued ≠ none →
      Steps s (.advance agent target giveUp) (s.unlock agent op.cpu .idle)
  | enqueueAdd {agent op target giveUp} : s.phase agent = .enqueueAdd op →
      Steps s (.advance agent target giveUp) (s.enqueueAddStep agent op)
  | enqueueCount {agent op target giveUp} : s.phase agent = .enqueueCount op →
      Steps s (.advance agent target giveUp) (s.enqueueCountStep agent op)
  | claimLock {cpu queues target giveUp tuned left} :
      s.phase (.cpu cpu) = .claimTry → s.lock cpu = none →
      queues.tasks = (s.manager cpu).tasks →
      Steps s (.advance (.cpu cpu) target giveUp) ({ (s.setManager cpu queues).setLock
        cpu (some (.cpu cpu)) with params := tuned }.setPhase (.cpu cpu) (.claimPop left))
  | claimDone {cpu left target giveUp} : s.phase (.cpu cpu) = .claimPop left →
      Steps s (.advance (.cpu cpu) target giveUp) (s.unlock (.cpu cpu) cpu .idle)
  | claimNone {cpu left queues target giveUp} : s.phase (.cpu cpu) = .claimPop left →
      queues.tasks = (s.manager cpu).tasks →
      Steps s (.advance (.cpu cpu) target giveUp)
        ((s.setManager cpu queues).unlock (.cpu cpu) cpu .idle)
  | claimPop {cpu rounds job queues target giveUp left} : s.phase (.cpu cpu) = .claimPop rounds →
      (s.manager cpu).tasks = job ::ₘ queues.tasks →
      Steps s (.advance (.cpu cpu) target giveUp)
        ((s.setManager cpu queues).setPhase (.cpu cpu) (.claimMark job left))
  | claimMark {cpu job left target giveUp} :
      s.phase (.cpu cpu) = .claimMark job left → (s.task job).onCpu = none →
      Steps s (.advance (.cpu cpu) target giveUp)
        ((s.setOnCpu job (some cpu)).setPhase (.cpu cpu) (.claimUnqueue job left))
  | claimLost {cpu job left target giveUp} : s.phase (.cpu cpu) = .claimMark job left →
      Steps s (.advance (.cpu cpu) target giveUp)
        (s.setPhase (.cpu cpu) (.claimRecheck job left))
  | claimUnqueue {cpu job left target giveUp} : s.phase (.cpu cpu) = .claimUnqueue job left →
      Steps s (.advance (.cpu cpu) target giveUp)
        ((s.setReadyQueued job none).setPhase (.cpu cpu) (.claimCount job))
  | claimBack {cpu job left queues target giveUp tuned} :
      s.phase (.cpu cpu) = .claimRecheck job left →
      queues.tasks = job ::ₘ (s.manager cpu).tasks →
      Steps s (.advance (.cpu cpu) target giveUp) ({ s.setManager cpu queues with
        params := tuned }.setPhase (.cpu cpu) (.claimPop left))
  | claimCount {cpu job target giveUp} : s.phase (.cpu cpu) = .claimCount job →
      Steps s (.advance (.cpu cpu) target giveUp) (s.claimCountStep cpu job)
  | reject {cpu job target giveUp} : s.phase (.cpu cpu) = .reject job →
      Steps s (.advance (.cpu cpu) target giveUp)
        ((s.setOnCpu job none).setPhase (.cpu cpu) .idle)
  | switchOff {cpu job target giveUp} : s.phase (.cpu cpu) = .switching job →
      (s.task job).requeueAfterSwitch ≠ true →
      Steps s (.advance (.cpu cpu) target giveUp)
        ((s.setOnCpu job none).setPhase (.cpu cpu) .idle)
  | switchBack {cpu job target giveUp front} : s.phase (.cpu cpu) = .switching job →
      Steps s (.advance (.cpu cpu) target giveUp) ((s.setTask job
        { s.task job with
          onCpu := none, requeueAfterSwitch := false, requeueFrontAfterSwitch := false,
          pendingWakeup := false,
          status := if (s.task job).status = .zombie then .zombie else .ready }).setPhase
            (.cpu cpu) (.addCheck ⟨target, job, front, none⟩))
  | removeLock {agent gone cpu target giveUp} :
      s.phase agent = .removeTry gone cpu → s.lock cpu = none →
      Steps s (.advance agent target giveUp)
        ((s.setLock cpu (some agent)).setPhase agent (.removeCheck gone cpu))
  | removeTake {agent gone cpu queues target giveUp} : s.phase agent = .removeCheck gone cpu →
      (s.manager cpu).tasks = gone.task ::ₘ queues.tasks →
      Steps s (.advance agent target giveUp)
        ((s.setManager cpu queues).setPhase agent (.removeClear gone cpu))
  | removeMoved {agent gone cpu target giveUp} : s.phase agent = .removeCheck gone cpu →
      Steps s (.advance agent target giveUp) (s.unlock agent cpu (.removeLoad gone))
  | removeClear {agent gone cpu target giveUp} : s.phase agent = .removeClear gone cpu →
      Steps s (.advance agent target giveUp)
        ((s.setReadyQueued gone.task none).unlock agent cpu (.removeCount gone cpu))
  | removeCount {agent gone cpu target giveUp} : s.phase agent = .removeCount gone cpu →
      Steps s (.advance agent target giveUp)
        ((s.decrementReadyTasks cpu).setPhase agent (afterRemoval gone target))

variable {s s' : SchedConfig cpus helpers τ} {agent : Agent cpus helpers}
variable {target : Fin cpus} {giveUp : Bool}

/-! ## The inversion -/

theorem steps_enqueueOnCpu {op : Enqueue cpus τ} (hphase : s.phase agent = .enqueueOnCpu op) :
    Steps s (.advance agent target giveUp) (s.enqueueOnCpuStep agent op) := by
  rw [enqueueOnCpuStep]
  split
  · next hclaimed => exact .enqueueClaimed hphase (by simp [hclaimed])
  · next hoff =>
    split
    · exact .enqueueRoom hphase hoff
    · split
      · split
        · exact .enqueueGrow hphase hoff
        · exact .enqueueRetry hphase
      · exact .enqueueRetry hphase

theorem steps_claimTry {cpu : Fin cpus} (hphase : s.phase (.cpu cpu) = .claimTry) :
    Steps s (.advance (.cpu cpu) target giveUp) (s.claimTryStep cpu giveUp) := by
  unfold claimTryStep
  split
  · next hfree =>
    refine .claimLock hphase hfree ?_
    split
    · exact TaskManager.tasks_ageRounds _ _ _
    · rfl
  · exact .walk (.claimRefused hphase)

theorem steps_claimPop {cpu : Fin cpus} {left : ℕ} (hphase : s.phase (.cpu cpu) = .claimPop left) :
    Steps s (.advance (.cpu cpu) target giveUp) (s.claimPopStep cpu left) := by
  have htakes := (s.manager cpu).popNext_takes s.params cpu.val
  cases left with
  | zero => exact .claimDone hphase
  | succ left =>
    rw [claimPopStep]
    split
    · next hnone =>
      rw [hnone] at htakes
      exact .claimNone hphase htakes
    · next job hsome =>
      rw [hsome] at htakes
      exact .claimPop hphase htakes

theorem Queued.steps_removeCheck {gone : Removal τ} {cpu : Fin cpus} (hinv : s.Queued)
    (hphase : s.phase agent = .removeCheck gone cpu) :
    Steps s (.advance agent target giveUp) (s.removeCheckStep agent gone cpu) := by
  rw [removeCheckStep]
  split
  · next hmarked =>
    have hagrees := hinv.agrees_of_holds (holds_of_phase hphase rfl)
    rw [hphase] at hagrees
    obtain ⟨htakes, hout⟩ := (s.manager cpu).remove_takes gone.task
    have hremoved : ((s.manager cpu).remove gone.task).1 = true := by
      by_contra hfalse
      exact hout (Bool.eq_false_iff.mpr hfalse) (hagrees.mem_of_marked hmarked)
    rw [if_pos hremoved] at htakes
    simp only [hremoved, if_true]
    exact .removeTake hphase htakes
  · exact .removeMoved hphase

theorem Sound.steps_advance (hinv : s.Sound) (hnext : s.advance agent target giveUp = some s') :
    Steps s (.advance agent target giveUp) s' := by
  have hmarked {before : Phase cpus τ} {cpu : Fin cpus} {job : τ}
      (hphase : s.phase agent = before) (hholds : before.holds agent = some cpu)
      (hcarried : before.stage = .carrying job) : (s.task job).readyQueued = some cpu := by
    subst hphase
    exact hinv.marker_of_carrying hholds hcarried
  have hregular := hinv.regular agent
  unfold SchedConfig.advance at hnext
  split at hnext
  all_goals cases hnext
  case h_2 op hphase =>
    rw [addCheckStep]
    split
    · exact .walk (.addReady hphase)
    · next hstatus => exact .walk (.addRefused hphase hstatus)
  case h_3 op hphase =>
    rw [tryLock]
    split
    · next hfree => exact .enqueueLock hphase hfree
    · exact .walk (.enqueueBusy hphase)
  case h_4 op hphase =>
    rw [enqueueQueuedStep]
    split
    · next hmarked => exact .enqueueMarked hphase (by simp [hmarked])
    · next hmarked => exact .enqueueFresh hphase hmarked
  case h_5 op hphase => exact steps_enqueueOnCpu hphase
  case h_6 op hphase =>
    rw [enqueueMarkStep]
    split
    · next hmarked => exact .enqueueMark hphase hmarked
    · next hmarked => exact .enqueueLate hphase (by simp [hmarked])
  case h_7 op hphase => exact .enqueueAdd hphase
  case h_8 op hphase => exact .enqueueCount hphase
  case h_9 cpu hphase => exact steps_claimTry hphase
  case h_10 left cpu hphase => exact steps_claimPop hphase
  case h_11 job left cpu hphase =>
    rw [claimMarkStep]
    split
    · next hoff => exact .claimMark hphase hoff
    · exact .claimLost hphase
  case h_12 job left cpu hphase =>
    rw [claimUnqueueStep, if_pos (hmarked hphase rfl rfl)]
    exact .claimUnqueue hphase
  case h_14 job left cpu hphase =>
    rw [claimRecheckStep, if_pos (hmarked hphase rfl rfl)]
    exact .claimBack hphase (TaskManager.tasks_requeueAfterFailedClaim _ _ _)
  case h_15 job cpu hphase => exact .claimCount hphase
  case h_17 job cpu hphase =>
    rw [dispatchStep]
    split
    · next hzombie => exact .walk (.drop (.inl hphase) (by simp [hzombie]))
    · exact .walk (.dispatch hphase)
  case h_18 job cpu hphase =>
    rw [dispatchRunStep]
    simp only
    split
    · next hstatus => exact .walk (.drop (.inr hphase) hstatus)
    · next hstatus =>
      have honCpu := (hinv.claims job cpu).mpr (congrArg Phase.claimed hphase)
      rw [if_neg (not_not_intro honCpu)]
      exact .walk (.run hphase (not_not.mp hstatus))
  case h_19 job cpu hphase => exact .reject hphase
  case h_20 job cpu hphase =>
    rw [switchStep]
    simp only
    split
    · exact .switchBack hphase
    · next hrequeue => exact .switchOff hphase hrequeue
  case h_21 gone hphase =>
    rw [removeLoadStep]
    split
    · exact .walk (.removeGone hphase)
    · exact .walk (.removeFound hphase)
  case h_22 gone cpu hphase =>
    rw [tryLock]
    split
    · next hfree => exact .removeLock hphase hfree
    · exact .walk (.removeBusy hphase)
  case h_23 gone cpu hphase => exact hinv.steps_removeCheck hphase
  case h_24 gone cpu hphase =>
    rw [clearReadyQueued, if_pos (hmarked hphase rfl rfl)]
    exact .removeClear hphase
  case h_27 gone cpu hphase => exact .removeCount hphase
  case h_28 job front hphase => exact .walk (.wake hphase)
  case h_29 job front hphase =>
    rw [wakeQueuedStep]
    split
    · next hmarked => exact .walk (.wakeMarked hphase (by simp [hmarked]))
    · exact .walk (.wakeUnmarked hphase)
  case h_30 job front hphase =>
    rw [wakeOnCpuStep]
    split
    · next hclaimed => exact .walk (.wakeClaimed hphase (by simp [hclaimed]))
    · exact .walk (.wakeAdd hphase)
  all_goals
    next hphase =>
    rw [hphase] at hregular
    exact hregular.elim

theorem start_eq_some {helper : Fin helpers} {started : SchedConfig cpus helpers τ}
    (hstart : s.start helper started = some s') :
    s.phase (.helper helper) = .idle ∧ started = s' := by
  rw [start] at hstart
  split at hstart
  case isTrue hidle => exact ⟨hidle, Option.some.inj hstart⟩
  case isFalse => simp at hstart

theorem Sound.steps {step : SchedStep cpus helpers τ} (hinv : s.Sound)
    (hnext : s.next step = some s') : Steps s step s' := by
  cases step with
  | advance agent target giveUp => exact hinv.steps_advance hnext
  | fetch cpu =>
    rw [next] at hnext
    split at hnext <;> cases hnext
    next hidle => exact .walk (.fetch hidle)
  | own cpu step =>
    rw [next] at hnext
    split at hnext <;> cases hnext
    next hphase => exact .walk (.own hphase)
  | spawn helper task target =>
    rw [next] at hnext
    split at hnext
    case isTrue => simp at hnext
    case isFalse hborn =>
      obtain ⟨hidle, rfl⟩ := start_eq_some hnext
      exact .walk (.spawn hidle (by simpa using hborn))
  | wakeup helper task front =>
    obtain ⟨hidle, rfl⟩ := start_eq_some hnext
    exact .walk (.wakeup hidle)
  | remove helper op =>
    obtain ⟨hidle, rfl⟩ := start_eq_some hnext
    exact .walk (.remove hidle)
  | groupStop helper task =>
    obtain ⟨hidle, rfl⟩ := start_eq_some hnext
    exact .walk (.groupStop hidle)
  | groupContinue helper task =>
    obtain ⟨hidle, rfl⟩ := start_eq_some hnext
    exact .walk (.groupContinue hidle)
  | adjust task params =>
    cases hnext
    exact .adjust

end SchedConfig

end Kairix.Sched
