import Kairix.BlockingMutex

/-!
# No waiter stays behind a free mutex

While no task takes the mutex with its own entry in the wait queue, and no stop
reaches a task in the code of the mutex, a free mutex with a waiter has a task which
is about to try again, or which is about to wake one.
-/

namespace Kairix.BlockingMutex

open LabelledRun Sched Waking Option

variable {τ : Type*}

def Phase.Waits : Phase τ → Prop
  | .acquiring | .parking | .parked => True
  | _ => False

namespace MutexTask

def Retries (record : MutexTask τ) : Prop :=
  record.state.groupStopped = false ∧
    match record.phase with
    | .acquiring => record.state.place = .executing
    | .parking => record.state.place = .executing ∧ record.state.pendingWakeup = true
    | .parked => record.state.status = .ready
    | _ => False

def Fits (record : MutexTask τ) : Prop :=
  (record.state.place = .executing → record.state.status ≠ .zombie) ∧
    match record.phase with
    | .outside | .holding => True
    | .parked => record.state.place ≠ .executing ∧ record.state.groupStopped = false ∧
        (record.state.status = .blocked ∨ record.state.status = .ready)
    | _ => record.state.place = .executing ∧ record.state.groupStopped = false

structure Keeps (old new : MutexTask τ) : Prop where
  fits : new.Fits
  holding : new.phase = .holding → old.phase = .holding
  waits : old.phase.Waits → new.phase.Waits
  retries : old.Retries → new.Retries
  waking : ∀ waiter, old.phase = .waking waiter → new.phase = .waking waiter
  relocking : ∀ failed, old.phase = .relocking failed → new.phase = .relocking failed

theorem Keeps.of_phase {old new : MutexTask τ} (hphase : new.phase = old.phase) (hfits : new.Fits)
    (hretries : old.Retries → new.Retries) : Keeps old new where
  fits := hfits
  holding hholding := hphase ▸ hholding
  waits hwaits := hphase ▸ hwaits
  retries := hretries
  waking _ hwaking := hphase.trans hwaking
  relocking _ hrelocking := hphase.trans hrelocking

theorem Keeps.of_idle {old new : MutexTask τ} (hphase : new.phase = old.phase)
    (hidle : old.phase = .outside ∨ old.phase = .holding)
    (halive : new.state.place = .executing → new.state.status ≠ .zombie) : Keeps old new := by
  refine .of_phase hphase ⟨halive, ?_⟩ fun hretries => ?_
  · rw [hphase]
    rcases hidle with hidle | hidle <;> rw [hidle] <;> trivial
  · have := hretries.2
    rcases hidle with hidle | hidle <;> rw [hidle] at this <;> exact this.elim

variable {record : MutexTask τ}

variable (hfits : record.Fits)
include hfits

theorem Fits.wakeup (exitRequested : Bool) :
    Keeps record { record with state := record.state.wakeup, exitRequested := exitRequested } := by
  have halive (hplace : record.state.wakeup.place = .executing) :
      record.state.wakeup.status ≠ .zombie :=
    TaskState.wakeup_status_ne_zombie (hfits.1 (by simpa using hplace))
  obtain ⟨state, requested, dropped, phase⟩ := record
  obtain ⟨-, hphase⟩ := hfits
  refine .of_phase rfl ⟨halive, ?_⟩ fun ⟨hstopped, hretries⟩ => ⟨by simpa using hstopped, ?_⟩
  · cases phase with
    | parked =>
      exact ⟨by simpa using hphase.1, by simpa using hphase.2.1,
        .inr (TaskState.wakeup_status_ready hphase.2.1 hphase.2.2)⟩
    | outside | holding => trivial
    | acquiring | parking | waking _ | relocking _ =>
      exact ⟨by simpa using hphase.1, by simpa using hphase.2⟩
  · cases phase with
    | parked => exact TaskState.wakeup_status_ready hphase.2.1 hphase.2.2
    | acquiring => simpa using hretries
    | parking => exact ⟨by simpa using hretries.1, TaskState.wakeup_pendingWakeup hretries.2⟩
    | outside | holding | waking _ | relocking _ => exact hretries.elim

theorem Fits.retries_wakeup (hwaits : record.phase.Waits) :
    MutexTask.Retries { record with state := record.state.wakeup } := by
  obtain ⟨state, requested, dropped, phase⟩ := record
  obtain ⟨halive, hphase⟩ := hfits
  simp only [Retries, TaskState.wakeup_groupStopped, TaskState.wakeup_place]
  cases phase with
  | parked => exact ⟨hphase.2.1, TaskState.wakeup_status_ready hphase.2.1 hphase.2.2⟩
  | acquiring => exact ⟨hphase.2, hphase.1⟩
  | parking =>
    exact ⟨hphase.2, hphase.1,
      TaskState.wakeup_pendingWakeup_of_executing hphase.1 (halive hphase.1)⟩
  | outside | holding | waking _ | relocking _ => exact hwaits.elim

theorem Fits.groupContinue : Keeps record { record with state := record.state.groupContinue } := by
  obtain ⟨state, requested, dropped, phase⟩ := record
  obtain ⟨halive, hphase⟩ := hfits
  refine .of_phase rfl ⟨halive, ?_⟩ fun hretries => ⟨rfl, ?_⟩
  · cases phase with
    | parked => exact ⟨hphase.1, rfl, hphase.2.2⟩
    | outside | holding => trivial
    | acquiring | parking | waking _ | relocking _ => exact ⟨hphase.1, rfl⟩
  · obtain ⟨hstatus, hpending⟩ := TaskState.groupContinue_of_not_stopped hretries.1
    simp only [hstatus, hpending]
    exact hretries.2

theorem Fits.parked_or_idle (hplace : record.state.place ≠ .executing) :
    record.phase = .parked ∨ record.phase = .outside ∨ record.phase = .holding := by
  obtain ⟨state, requested, dropped, phase⟩ := record
  cases phase with
  | parked => exact .inl rfl
  | outside => exact .inr (.inl rfl)
  | holding => exact .inr (.inr rfl)
  | acquiring | parking | waking _ | relocking _ => exact absurd hfits.2.1 hplace

theorem Fits.relocate (state : TaskState) (hbefore : record.state.place ≠ .executing)
    (hafter : state.place ≠ .executing) (hstopped : state.groupStopped = record.state.groupStopped)
    (hstatus : state.status = record.state.status ∨ state.status = .ready) :
    Keeps record { record with state := state } := by
  rcases hfits.parked_or_idle hbefore with hparked | hidle
  · have hphase := hfits.2
    rw [hparked] at hphase
    refine .of_phase rfl ⟨fun hplace => absurd hplace hafter, ?_⟩ fun hretries => ?_
    · simp only [hparked]
      refine ⟨hafter, hstopped.trans hphase.2.1, ?_⟩
      rcases hstatus with hsame | hready
      · rw [hsame]
        exact hphase.2.2
      · exact .inr hready
    · have hbefore := hretries.2
      simp only [hparked] at hbefore
      simp only [Retries, hparked]
      refine ⟨hstopped.trans hphase.2.1, ?_⟩
      rcases hstatus with hsame | hready
      · exact hsame.trans hbefore
      · exact hready
  · exact .of_idle rfl hidle fun hplace => absurd hplace hafter

theorem Fits.dispatch [DecidableEq τ] (hplace : record.state.place = .claimed) :
    Keeps record { record with
      state := record.state.dispatch
      phase := if record.state.dispatch.place = .executing ∧ record.phase = .parked
        then .acquiring else record.phase } := by
  have hbefore : record.state.place ≠ .executing := by simp [hplace]
  by_cases hready : record.state.status = .ready
  · rcases hfits.parked_or_idle hbefore with hparked | hidle
    · have hphase := hfits.2
      rw [hparked] at hphase
      have hstopped := hphase.2.1
      refine ⟨?_, fun h => ?_, fun _ => ?_, fun _ => ?_, fun _ h => ?_, fun _ h => ?_⟩
      · simp [Fits, TaskState.dispatch, hready, hparked, hstopped]
      · simp [TaskState.dispatch, hready, hparked] at h
      · simp [TaskState.dispatch, hready, hparked, Phase.Waits]
      · simp [Retries, TaskState.dispatch, hready, hparked, hstopped]
      · simp [hparked] at h
      · simp [hparked] at h
    · have hnot : record.phase ≠ .parked := by
        rcases hidle with hidle | hidle <;> simp [hidle]
      refine .of_idle (by simp [hnot]) hidle fun _ => ?_
      simp [TaskState.dispatch, hready]
  · have hstate : record.state.dispatch = { record.state with place := .offCpu } := by
      simp [TaskState.dispatch, hready]
    rw [hstate]
    simpa using hfits.relocate { record.state with place := .offCpu } hbefore
      (by simp) rfl (.inl rfl)

end MutexTask

namespace MutexConfig

/-! ## Invariant -/

/-- The task tries again, or is about to wake a task in the loop of `lock`. -/
def Rescues (s : MutexConfig τ) (task : τ) : Prop :=
  (s.task task).Retries ∨
    (∃ waiter, (s.task task).phase = .waking waiter ∧ (s.task waiter).phase.Waits) ∨
      ∃ failed, (s.task task).phase = .relocking failed

structure Inv (s : MutexConfig τ) : Prop where
  fits : ∀ task, (s.task task).Fits
  locked : ∀ task, (s.task task).phase = .holding → s.locked = true
  unique : ∀ task other, (s.task task).phase = .holding →
    (s.task other).phase = .holding → task = other
  queued : ∀ task ∈ s.waitQueue, (s.task task).phase.Waits
  reserved : s.locked = false → ∀ task, s.handoff = some task →
    (s.task task).phase.Waits ∧
      ((s.task task).Retries ∨ ∃ other, (s.task other).phase = .waking task)
  progress : s.locked = false → s.waitQueue ≠ [] → ∃ task, s.Rescues task

attribute [local simp] setPhase MutexConfig.acquire MutexConfig.act MutexTask.Retries setTask
  TaskState.block start schedule

theorem inv_start (fair : Bool) : (start fair : MutexConfig τ).Inv where
  fits _ := ⟨fun hplace => by simp [TaskState.fresh] at hplace, trivial⟩
  locked _ hholding := by simp at hholding
  unique _ _ hholding := by simp at hholding
  queued _ hmem := by simp at hmem
  reserved _ _ hhandoff := by simp at hhandoff
  progress _ hqueue := absurd rfl hqueue

variable [DecidableEq τ]

@[simp] theorem setTask_self (s : MutexConfig τ) (task : τ) (record : MutexTask τ) :
    (s.setTask task record).task task = record := by
  simp

variable {task : τ}

@[simp] theorem setTask_ne (s : MutexConfig τ) {other : τ} (hne : other ≠ task)
    (record : MutexTask τ) : (s.setTask task record).task other = s.task other := by
  simp [hne]

variable {s : MutexConfig τ}

theorem Inv.setTask (hinv : s.Inv) {new : MutexTask τ}
    (hkeeps : MutexTask.Keeps (s.task task) new) : (s.setTask task new).Inv := by
  have hall (other : τ) : MutexTask.Keeps (s.task other) ((s.setTask task new).task other) := by
    by_cases hsame : other = task
    · subst other
      simpa using hkeeps
    · rw [setTask_ne s hsame]
      exact .of_phase rfl (hinv.fits other) id
  refine ⟨fun other => (hall other).fits, fun other hholding => ?_,
    fun other another hother hanother => ?_, fun other hmem => ?_, fun hfree other hhandoff => ?_,
    fun hfree hqueue => ?_⟩
  · exact hinv.locked other ((hall other).holding hholding)
  · exact hinv.unique other another ((hall other).holding hother) ((hall another).holding hanother)
  · exact (hall other).waits (hinv.queued other hmem)
  · obtain ⟨hwaits, hwoken⟩ := hinv.reserved hfree other hhandoff
    refine ⟨(hall other).waits hwaits, hwoken.imp (hall other).retries ?_⟩
    exact fun ⟨waker, hwaker⟩ => ⟨waker, (hall waker).waking other hwaker⟩
  · obtain ⟨other, hrescues⟩ := hinv.progress hfree hqueue
    refine ⟨other, hrescues.imp (hall other).retries (Or.imp ?_ ?_)⟩
    · exact fun ⟨waiter, hwaking, hwaits⟩ =>
        ⟨waiter, (hall other).waking waiter hwaking, (hall waiter).waits hwaits⟩
    · exact fun ⟨failed, hrelocking⟩ => ⟨failed, (hall other).relocking failed hrelocking⟩

theorem Inv.acquire (hinv : s.Inv) (hfree : s.locked = false)
    (hqueue : task ∉ s.waitQueue) (handoff : Option τ) (started : ℕ) :
    ({ s with handoff := handoff, handoffStartedNs := started }.acquire task).Inv := by
  have hothers (other : τ) : (s.task other).phase ≠ .holding := fun hholding =>
    absurd (hinv.locked other hholding) (by simp [hfree])
  have hholder (other : τ) (hholding : (({ s with
      handoff := handoff, handoffStartedNs := started } :
        MutexConfig τ).acquire task |>.task other).phase = .holding) : other = task := by
    by_contra hne
    exact hothers other (by simpa [hne] using hholding)
  refine ⟨fun other => ?_, fun _ _ => rfl, fun other another hother hanother => ?_,
    fun other hmem => ?_, fun hlocked => absurd hlocked ?_, fun hlocked => absurd hlocked ?_⟩
  · by_cases hsame : other = task
    · subst other
      simpa [MutexTask.Fits] using (hinv.fits task).1
    · simpa [hsame] using hinv.fits other
  · rw [hholder other hother, hholder another hanother]
  · have hne : other ≠ task := fun hsame => hqueue (hsame ▸ hmem)
    simpa [hne] using hinv.queued other hmem
  · simp [MutexConfig.setTask]
  · simp [MutexConfig.setTask]

structure Guarded (s : MutexConfig τ) (task : τ) : Prop where
  locked : ∀ other, other ≠ task → (s.task other).phase = .holding → s.locked = true
  unique : ∀ other another, other ≠ task → another ≠ task →
    (s.task other).phase = .holding → (s.task another).phase = .holding → other = another

omit [DecidableEq τ] in
theorem Inv.guarded (hinv : s.Inv) (task : τ) : s.Guarded task :=
  ⟨fun other _ => hinv.locked other, fun other another _ _ => hinv.unique other another⟩

theorem inv_setPhase {phase : Phase τ} (hfits : ∀ other, (s.task other).Fits)
    (hself : MutexTask.Fits { s.task task with phase := phase }) (hphase : phase ≠ .holding)
    (hguarded : s.Guarded task)
    (hqueued : ∀ other ∈ s.waitQueue, ((s.setPhase task phase).task other).phase.Waits)
    (hreserved : s.locked = false → ∀ other, s.handoff = some other →
      ((s.setPhase task phase).task other).phase.Waits ∧
        (((s.setPhase task phase).task other).Retries ∨
          ∃ waker, ((s.setPhase task phase).task waker).phase = .waking other))
    (hprogress : s.locked = false → s.waitQueue ≠ [] →
      ∃ other, (s.setPhase task phase).Rescues other) :
    (s.setPhase task phase).Inv := by
  have hholding {other : τ} (h : ((s.setPhase task phase).task other).phase = .holding) :
      other ≠ task ∧ (s.task other).phase = .holding := by
    by_cases hsame : other = task
    · exact absurd (by simpa [hsame] using h) hphase
    · exact ⟨hsame, by simpa [hsame] using h⟩
  refine ⟨fun other => ?_, fun other h => hguarded.locked other (hholding h).1 (hholding h).2,
    fun other another h h' => hguarded.unique other another (hholding h).1 (hholding h').1
      (hholding h).2 (hholding h').2, hqueued, hreserved, hprogress⟩
  by_cases hsame : other = task
  · simpa [hsame] using hself
  · simpa [hsame] using hfits other

theorem Inv.refuse (hinv : s.Inv) {queue : List τ} (hphase : (s.task task).phase = .acquiring)
    (hrefused : s.locked = true ∨ ∃ reserved, s.handoff = some reserved ∧ reserved ≠ task)
    (hqueue : ∀ other ∈ queue, other = task ∨ other ∈ s.waitQueue) :
    ({ s with waitQueue := queue }.setPhase task .parking).Inv := by
  set s' := ({ s with waitQueue := queue } : MutexConfig τ).setPhase task .parking
  have hother {other : τ} (hne : other ≠ task) : s'.task other = s.task other := by
    simp [s', hne]
  have hreserved (hfree : s.locked = false) (reserved : τ)
      (hhandoff : s.handoff = some reserved) (hne : reserved ≠ task) :
      (s'.task reserved).phase.Waits ∧
        ((s'.task reserved).Retries ∨ ∃ waker, (s'.task waker).phase = .waking reserved) := by
    obtain ⟨hwaits, hwoken⟩ := hinv.reserved hfree reserved hhandoff
    rw [hother hne]
    refine ⟨hwaits, hwoken.imp_right fun ⟨waker, hwaker⟩ => ⟨waker, ?_⟩⟩
    rw [hother fun hsame => by simp [hsame, hphase] at hwaker]
    exact hwaker
  refine inv_setPhase hinv.fits ?_ (by simp) ⟨(hinv.guarded task).1, (hinv.guarded task).2⟩
    (fun other hmem => ?_) (fun hfree other hhandoff => ?_) fun hfree _ => ?_
  · have hfits := hinv.fits task
    simp only [MutexTask.Fits, hphase] at hfits
    exact hfits
  · by_cases hsame : other = task
    · simp [hsame, Phase.Waits]
    · rw [hother hsame]
      exact hinv.queued other ((hqueue other hmem).resolve_left hsame)
  · rcases hrefused with hlocked | ⟨reserved, hsome, hne⟩
    · exact absurd (hlocked.symm.trans hfree) (by simp)
    · obtain rfl : reserved = other := some.inj (hsome.symm.trans hhandoff)
      exact hreserved hfree reserved hsome hne
  · rcases hrefused with hlocked | ⟨reserved, hsome, hne⟩
    · exact absurd (hlocked.symm.trans hfree) (by simp)
    · obtain ⟨hwaits, hretries | ⟨waker, hwaker⟩⟩ := hreserved hfree reserved hsome hne
      · exact ⟨reserved, .inl hretries⟩
      · exact ⟨waker, .inr (.inl ⟨reserved, hwaker, hwaits⟩)⟩

variable {waiter : τ}

omit [DecidableEq τ] in
theorem popWaiter_eq_some {queue rest : List τ}
    (hpop : s.popWaiter queue = some (waiter, rest)) : waiter ∈ queue ∧ rest ⊆ queue := by
  induction queue with
  | nil => simp [popWaiter] at hpop
  | cons entry queue ih =>
    rw [popWaiter] at hpop
    split at hpop
    · obtain ⟨hmem, hrest⟩ := ih hpop
      exact ⟨List.mem_cons_of_mem _ hmem, List.subset_cons_of_subset _ hrest⟩
    · obtain ⟨rfl, rfl⟩ : entry = waiter ∧ queue = rest := by simpa using hpop
      exact ⟨List.mem_cons_self, List.subset_cons_self _ _⟩

theorem inv_nextWaiter (now : ℕ) (hfits : ∀ other, (s.task other).Fits) (hguarded : s.Guarded task)
    (hqueued : ∀ other ∈ s.waitQueue, (s.task other).phase.Waits)
    (hphase : ¬ (s.task task).phase.Waits)
    (hplace : (s.task task).state.place = .executing)
    (hstopped : (s.task task).state.groupStopped = false) :
    (s.nextWaiter task now).Inv := by
  have hself (other : τ) (hwaits : (s.task other).phase.Waits) : other ≠ task :=
    fun hsame => hphase (hsame ▸ hwaits)
  simp only [nextWaiter]
  split
  · exact inv_setPhase hfits ⟨(hfits task).1, trivial⟩ (by simp) ⟨hguarded.1, hguarded.2⟩
      (fun _ hmem => absurd hmem List.not_mem_nil) (fun _ _ hhandoff => by simp at hhandoff)
      fun _ hqueue => absurd rfl hqueue
  · next waiter rest hpop =>
    obtain ⟨hmem, hrest⟩ := popWaiter_eq_some hpop
    have hwaits := hqueued waiter hmem
    have hne := hself waiter hwaits
    refine inv_setPhase hfits ⟨(hfits task).1, hplace, hstopped⟩ (by simp) ⟨hguarded.1, hguarded.2⟩
      (fun other hother => ?_) (fun hfree other hhandoff => ?_) fun hfree hqueue => ?_
    · have hbefore := hqueued other (hrest hother)
      simpa [hself other hbefore] using hbefore
    · obtain rfl : waiter = other := by
        simp only at hhandoff
        split at hhandoff
        · exact some.inj hhandoff
        · simp at hhandoff
      exact ⟨by simpa [hne] using hwaits, .inr ⟨task, by simp⟩⟩
    · exact ⟨task, .inr (.inl ⟨waiter, by simp, by simpa [hne] using hwaits⟩)⟩

theorem Inv.endWake (hinv : s.Inv) {phase : Phase τ} (hphase : (s.task task).phase = .waking waiter)
    (hretries : (s.task waiter).phase.Waits → (s.task waiter).Retries)
    (hnext : phase = .outside ∨ phase = .relocking waiter) : (s.setPhase task phase).Inv := by
  have hwaits {other : τ} (h : (s.task other).phase.Waits) : other ≠ task := fun hsame => by
    rw [hsame, hphase] at h
    exact h
  have hother {other : τ} (hne : other ≠ task) :
      (s.setPhase task phase).task other = s.task other := by
    simp [hne]
  refine inv_setPhase hinv.fits ?_ (by rcases hnext with rfl | rfl <;> simp) (hinv.guarded task)
    (fun other hmem => ?_) (fun hfree other hhandoff => ?_) fun hfree hqueue => ?_
  · have hfits := hinv.fits task
    simp only [MutexTask.Fits, hphase] at hfits
    rcases hnext with rfl | rfl
    · exact ⟨hfits.1, trivial⟩
    · exact hfits
  · have h := hinv.queued other hmem
    rw [hother (hwaits h)]
    exact h
  · obtain ⟨h, hwoken⟩ := hinv.reserved hfree other hhandoff
    rw [hother (hwaits h)]
    refine ⟨h, ?_⟩
    rcases hwoken with hwoken | ⟨waker, hwaker⟩
    · exact .inl hwoken
    · by_cases hsame : waker = task
      · subst waker
        obtain rfl : waiter = other := by simpa [hphase] using hwaker
        exact .inl (hretries h)
      · exact .inr ⟨waker, by rwa [hother hsame]⟩
  · obtain ⟨other, hrescues⟩ := hinv.progress hfree hqueue
    by_cases hsame : other = task
    · subst other
      rcases hrescues with hretry | ⟨woken, hwoken, h⟩ | ⟨failed, hfailed⟩
      · simp [hphase] at hretry
      · obtain rfl : waiter = woken := by simpa [hphase] using hwoken
        exact ⟨waiter, .inl (by rw [hother (hwaits h)]; exact hretries h)⟩
      · simp [hphase] at hfailed
    · refine ⟨other, ?_⟩
      simp only [Rescues, hother hsame]
      refine hrescues.imp_right (Or.imp_left ?_)
      rintro ⟨woken, hwoken, h⟩
      exact ⟨woken, hwoken, by rwa [hother (hwaits h)]⟩

/-! ## Steps -/

variable {now : ℕ}

theorem handoffAllowsAcquire_eq_some {cleared : MutexConfig τ} {waiting : Option τ}
    (hallowed : s.handoffAllowsAcquire waiting now = some cleared) :
    ∃ handoff started, cleared = { s with handoff := handoff, handoffStartedNs := started } := by
  simp only [handoffAllowsAcquire] at hallowed
  split at hallowed
  · exact ⟨s.handoff, s.handoffStartedNs, (some.inj hallowed).symm⟩
  · cases hhandoff : s.handoff with
    | none =>
      rw [hhandoff] at hallowed
      exact ⟨none, 0, (some.inj hallowed).symm⟩
    | some reserved =>
      rw [hhandoff] at hallowed
      simp only at hallowed
      split_ifs at hallowed <;> exact ⟨none, 0, (some.inj hallowed).symm⟩

theorem handoffAllowsAcquire_eq_none {waiting : Option τ}
    (hrefused : s.handoffAllowsAcquire waiting now = none) :
    ∃ reserved, s.handoff = some reserved ∧ waiting ≠ some reserved := by
  simp only [handoffAllowsAcquire] at hrefused
  split at hrefused
  · simp at hrefused
  · cases hhandoff : s.handoff with
    | none => simp [hhandoff] at hrefused
    | some reserved =>
      refine ⟨reserved, rfl, fun hsame => ?_⟩
      simp [hhandoff, hsame] at hrefused

/-- A task takes the mutex only when its entry has left the wait queue, and is not
stopped in the code of the mutex. -/
def Careful (config : MutexConfig τ) : MutexStep τ → Prop
  | .act task (.lockSection now) => task ∈ config.waitQueue →
      config.locked = true ∨ config.handoffAllowsAcquire (some task) now = none
  | .act task .beginLock => (config.task task).state.groupStopped = false
  | .act task (.unlock _) => (config.task task).state.groupStopped = false
  | .event task .groupStop =>
    (config.task task).phase = .outside ∨ (config.task task).phase = .holding
  | _ => True

section

variable (hinv : s.Inv)
include hinv

theorem Inv.lockSection (hphase : (s.task task).phase = .acquiring)
    (hcareful : s.Careful (.act task (.lockSection now))) :
    (s.lockSection task now).Inv := by
  have hqueue (other : τ) (hother : other ∈ if task ∈ s.waitQueue then s.waitQueue
      else s.waitQueue ++ [task]) : other = task ∨ other ∈ s.waitQueue := by
    split_ifs at hother
    · exact .inr hother
    · simpa [or_comm] using hother
  simp only [MutexConfig.lockSection]
  by_cases hlocked : s.locked = true
  · rw [if_pos hlocked]
    exact hinv.refuse hphase (.inl hlocked) hqueue
  · rw [if_neg hlocked]
    cases hallowed : s.handoffAllowsAcquire (some task) now with
    | none =>
      obtain ⟨reserved, hhandoff, hne⟩ := handoffAllowsAcquire_eq_none hallowed
      exact hinv.refuse hphase
        (.inr ⟨reserved, hhandoff, fun hsame => hne (congrArg some hsame.symm)⟩) hqueue
    | some cleared =>
      obtain ⟨handoff, started, rfl⟩ := handoffAllowsAcquire_eq_some hallowed
      refine hinv.acquire (by simpa using hlocked) (fun hmem => ?_) handoff started
      simpa [hlocked, hallowed] using hcareful hmem

theorem Inv.tryLock (now : ℕ) (hphase : (s.task task).phase = .outside) :
    (s.tryLock task now).Inv := by
  simp only [MutexConfig.tryLock]
  cases hlocked : s.locked with
  | true => exact hinv
  | false =>
    cases hallowed : s.handoffAllowsAcquire none now with
    | none => simpa using hinv
    | some cleared =>
      obtain ⟨handoff, started, rfl⟩ := handoffAllowsAcquire_eq_some hallowed
      refine hinv.acquire hlocked (fun hmem => ?_) handoff started
      have hwaits := hinv.queued task hmem
      rw [hphase] at hwaits
      exact hwaits

theorem Inv.park (hphase : (s.task task).phase = .parking) : (s.park task).Inv := by
  have hfits := hinv.fits task
  simp only [MutexTask.Fits, hphase] at hfits
  obtain ⟨halive, hplace, hstopped⟩ := hfits
  refine hinv.setTask ⟨?_, fun hholding => ?_, fun _ => ?_, fun hretries => ?_,
    fun waiter hwaking => by simp [hphase] at hwaking,
    fun failed hrelocking => by simp [hphase] at hrelocking⟩
  · cases hexit : (s.task task).exitRequested <;>
      cases hpending : (s.task task).state.pendingWakeup <;>
        simp [MutexTask.Fits, hplace, hstopped, hpending]
  · dsimp only at hholding
    split_ifs at hholding
  · dsimp only
    split_ifs <;> trivial
  · have hpending := hretries.2
    simp only [hphase] at hpending
    cases hexit : (s.task task).exitRequested <;>
      simp [hplace, hstopped, hpending.2]

theorem Inv.wakeWaiter (seen : Bool) (hphase : (s.task task).phase = .waking waiter) :
    (s.wakeWaiter task waiter seen).Inv := by
  have hwoken : (s.setState waiter (s.task waiter).state.wakeup).Inv :=
    hinv.setTask ((hinv.fits waiter).wakeup (s.task waiter).exitRequested)
  have hwaking : ((s.setState waiter (s.task waiter).state.wakeup).task task).phase =
      .waking waiter := by
    by_cases hsame : task = waiter
    · subst hsame
      simp [setState, hphase]
    · simp [setState, hsame, hphase]
  refine hwoken.endWake hwaking ?_ ?_
  · intro hwaits
    simp only [setState, setTask_self] at hwaits ⊢
    exact (hinv.fits waiter).retries_wakeup hwaits
  · split_ifs
    · exact .inl rfl
    · exact .inr rfl

theorem Inv.act {s' : MutexConfig τ} {action : Action}
    (hplace : (s.task task).state.place = .executing)
    (hcareful : s.Careful (.act task action))
    (hact : s.act task action (s.task task).phase = some s') : s'.Inv := by
  have hfits := hinv.fits task
  have hidle (state : TaskState) (hidle : (s.task task).phase = .outside ∨
      (s.task task).phase = .holding)
      (halive : state.place = .executing → state.status ≠ .zombie) :
      (s.setState task state).Inv :=
    hinv.setTask (.of_idle rfl hidle halive)
  have hschedule (hphase : (s.task task).phase = .outside ∨ (s.task task).phase = .holding)
      (hschedule : s.schedule task action = some s') : s'.Inv := by
    cases action with
    | sleep =>
      cases hschedule
      refine hidle _ hphase fun hplace => ?_
      cases hexit : (s.task task).exitRequested <;>
        cases hpending : (s.task task).state.pendingWakeup <;>
          simp_all
    | suspend processStopped =>
      cases hschedule
      refine hidle _ hphase fun hplace => ?_
      cases processStopped <;> simp [TaskState.suspend] at hplace
    | _ => simp at hschedule
  generalize hphase : (s.task task).phase = phase at hact
  cases phase with
  | outside =>
    cases action with
    | beginLock =>
      cases hact
      refine hinv.setTask ⟨⟨hfits.1, hplace, hcareful⟩, fun h => by simp at h,
        fun _ => trivial, fun _ => ⟨hcareful, hplace⟩, fun _ h => by simp [hphase] at h,
        fun _ h => by simp [hphase] at h⟩
    | tryLock now =>
      cases hact
      exact hinv.tryLock now hphase
    | exit =>
      cases hact
      exact hidle _ (.inl hphase) fun hplace => by simp [TaskState.exit] at hplace
    | sleep | suspend processStopped => exact hschedule (.inl hphase) hact
    | _ => simp at hact
  | acquiring =>
    cases action with
    | lockSection now =>
      cases hact
      exact hinv.lockSection hphase hcareful
    | _ => simp at hact
  | parking =>
    cases action with
    | park =>
      cases hact
      exact hinv.park hphase
    | _ => simp at hact
  | parked => cases action <;> simp at hact
  | holding =>
    cases action with
    | unlock now =>
      cases hact
      refine inv_nextWaiter now hinv.fits ⟨fun other hne hholding => ?_, (hinv.guarded task).unique⟩
        hinv.queued (by simp [hphase, Phase.Waits]) hplace hcareful
      exact absurd (hinv.unique other task hholding hphase) hne
    | sleep | suspend processStopped => exact hschedule (.inr hphase) hact
    | _ => simp at hact
  | waking waiter =>
    cases action with
    | wakeWaiter seen =>
      cases hact
      exact hinv.wakeWaiter seen hphase
    | _ => simp at hact
  | relocking failed =>
    cases action with
    | relock now =>
      cases hact
      have hstopped : (s.task task).state.groupStopped = false := by
        have hbusy := hfits.2
        rw [hphase] at hbusy
        exact hbusy.2
      simp only [relock]
      split_ifs
      all_goals
        exact inv_nextWaiter now hinv.fits ⟨(hinv.guarded task).1, (hinv.guarded task).2⟩
          hinv.queued (by simp [hphase, Phase.Waits]) hplace hstopped
    | _ => simp at hact

theorem Inv.happen {s' : MutexConfig τ} {event : Event} (hcareful : s.Careful (.event task event))
    (hhappen : s.happen task event = some s') : s'.Inv := by
  have hfits := hinv.fits task
  cases event with
  | claim =>
    simp only [MutexConfig.happen] at hhappen
    split_ifs at hhappen with hplace
    cases hhappen
    exact hinv.setTask (hfits.relocate _ (by simp [hplace]) (by simp) rfl (.inl rfl))
  | dispatch =>
    simp only [MutexConfig.happen] at hhappen
    split_ifs at hhappen with hplace
    cases hhappen
    exact hinv.setTask (hfits.dispatch hplace)
  | finishSwitch =>
    simp only [MutexConfig.happen] at hhappen
    split_ifs at hhappen with hplace
    cases hhappen
    refine hinv.setTask (hfits.relocate _ (by simp [hplace]) ?_ ?_ ?_)
    · simp only [TaskState.finishSwitch]
      split_ifs <;> simp
    · simp only [TaskState.finishSwitch]
      split_ifs <;> rfl
    · simp only [TaskState.finishSwitch]
      split_ifs with hrequeue hzombie
      · exact .inl hzombie.symm
      · exact .inr rfl
      · exact .inl rfl
  | wakeup =>
    cases hhappen
    exact hinv.setTask (hfits.wakeup (s.task task).exitRequested)
  | groupStop =>
    cases hhappen
    refine hinv.setTask (.of_idle rfl hcareful fun hplace => ?_)
    rw [TaskState.groupStop_place] at hplace
    exact TaskState.groupStop_status_ne_zombie (hfits.1 hplace)
  | groupContinue =>
    cases hhappen
    exact hinv.setTask hfits.groupContinue
  | requestExit =>
    cases hhappen
    simp only [requestExit]
    split_ifs
    · exact hinv.setTask (.of_phase rfl hfits id)
    · exact hinv.setTask (hfits.wakeup true)
  | drop =>
    simp only [MutexConfig.happen] at hhappen
    split_ifs at hhappen
    cases hhappen
    exact hinv.setTask (.of_phase rfl hfits id)

end

theorem inv_of_reachable {fair : Bool} (hreach : Reachable next Careful (start fair) s) :
    s.Inv := by
  refine hreach.invariant (inv_start fair) fun before step s' hinv hcareful hnext => ?_
  cases step with
  | act task action =>
    simp only [next] at hnext
    split_ifs at hnext with hplace
    exact hinv.act hplace hcareful hnext
  | event task event => exact hinv.happen hcareful hnext

/-! ## Guards and sleepers -/

/-- There is at most one guard, and a task which sleeps in the queue of a free mutex
has another one which is awake and will try again, or is about to wake one. -/
structure Sound (config : MutexConfig τ) : Prop where
  exclusive : ∀ task other, (config.task task).phase = .holding →
    (config.task other).phase = .holding → task = other
  progress : config.locked = false → ∀ task ∈ config.waitQueue,
    (config.task task).phase = .parked → (config.task task).state.status = .blocked →
      ∃ other, other ≠ task ∧ config.Rescues other ∧
        (config.task other).state.groupStopped = false ∧
        ((config.task other).state.place = .executing ∨ (config.task other).state.status = .ready)

omit [DecidableEq τ] in
theorem Inv.awake (hinv : s.Inv) (hrescues : s.Rescues task) :
    (s.task task).state.groupStopped = false ∧
      ((s.task task).state.place = .executing ∨ (s.task task).state.status = .ready) := by
  have hfits := (hinv.fits task).2
  rcases hrescues with ⟨hstopped, hretries⟩ | ⟨waiter, hphase, -⟩ | ⟨failed, hphase⟩
  · refine ⟨hstopped, ?_⟩
    generalize (s.task task).phase = phase at hretries
    cases phase with
    | acquiring => exact .inl hretries
    | parking => exact .inl hretries.1
    | parked => exact .inr hretries
    | outside | holding | waking _ | relocking _ => exact hretries.elim
  · rw [hphase] at hfits
    exact ⟨hfits.2, .inl hfits.1⟩
  · rw [hphase] at hfits
    exact ⟨hfits.2, .inl hfits.1⟩

theorem unstranded_of_reachable (fair : Bool) (config : MutexConfig τ)
    (hreach : Reachable next Careful (start fair) config) : config.Sound := by
  have hinv := inv_of_reachable hreach
  refine ⟨hinv.unique, fun hfree task hmem hparked hblocked => ?_⟩
  obtain ⟨other, hrescues⟩ := hinv.progress hfree (List.ne_nil_of_mem hmem)
  refine ⟨other, fun hsame => ?_, hrescues, hinv.awake hrescues⟩
  subst other
  rcases hrescues with hretries | ⟨waiter, hwaking, -⟩ | ⟨failed, hrelocking⟩
  · simp [hparked, hblocked] at hretries
  · simp [hparked] at hwaking
  · simp [hparked] at hrelocking

instance (config : MutexConfig τ) (step : MutexStep τ) : Decidable (config.Careful step) := by
  unfold Careful
  cases step with
  | act target action => cases action <;> infer_instance
  | event target event => cases event <;> infer_instance

def dispatched (task : Fin 3) : List (MutexStep (Fin 3)) :=
  [.event task .claim, .event task .dispatch]

def queuedUp (task : Fin 3) : List (MutexStep (Fin 3)) :=
  dispatched task ++ [.act task .beginLock, .act task (.lockSection 0), .act task .park,
    .event task .finishSwitch]

def firstRelease : List (MutexStep (Fin 3)) :=
  dispatched i₀ ++ [.act i₀ .beginLock, .act i₀ (.lockSection 0)] ++ queuedUp i₁ ++
    queuedUp i₂ ++ [.act i₀ (.unlock 0), .act i₀ (.wakeWaiter true)]

theorem sound_after_firstRelease :
    ∃ config : MutexConfig (Fin 3), Reachable next Careful (start false) config ∧
      config.Sound ∧ config.locked = false ∧ 2 ∈ config.waitQueue ∧
        (config.task 2).state.status = .blocked := by
  refine (exists_reachable_of_runSteps firstRelease ?_).imp fun config ⟨hreach, hqueued⟩ =>
    ⟨hreach, unstranded_of_reachable false config hreach, hqueued⟩
  decide +kernel

/-- The second waiter is woken by a signal and takes the mutex with its entry in the
queue; the first one queues up behind that entry, which the release then wakes. -/
def staleEntry : List (MutexStep (Fin 3)) :=
  firstRelease ++ [.event i₂ .wakeup] ++ dispatched i₂ ++ [.act i₂ (.lockSection 0)] ++
    dispatched i₁ ++ [.act i₁ (.lockSection 0), .act i₁ .park, .event i₁ .finishSwitch,
      .act i₂ (.unlock 0), .act i₂ (.wakeWaiter true)]

theorem not_sound_after_staleEntry :
    ∃ config : MutexConfig (Fin 3), Reachable next always (start false) config ∧
      ¬ config.Sound := by
  obtain ⟨config, hreach, hfree, hmem, hparked, hblocked, hzero, htwo⟩ :
      ∃ config : MutexConfig (Fin 3), Reachable next always (start false) config ∧
        config.locked = false ∧ 1 ∈ config.waitQueue ∧ (config.task 1).phase = .parked ∧
        (config.task 1).state.status = .blocked ∧ (config.task 0).phase = .outside ∧
          (config.task 2).phase = .outside :=
    exists_reachable_of_runSteps staleEntry (by decide +kernel)
  refine ⟨config, hreach, fun hsound => ?_⟩
  obtain ⟨other, hne, hrescues, -⟩ := hsound.progress hfree 1 hmem hparked hblocked
  have hout : (config.task other).phase = .outside := by
    fin_cases other
    · exact hzero
    · exact absurd rfl hne
    · exact htwo
  simp [Rescues, hout] at hrescues

end MutexConfig

end Kairix.BlockingMutex
