import Kairix.SchedulerQueueSteps

/-!
# Single placement of tasks

Two enqueues of one task at two queues may both pass their checks; if the task
is then marked, claimed and run, the later enqueue queues a task which is on a
CPU.  When the checks of one task never overlap, every state keeps each task in
at most one place.
-/

namespace Kairix.Sched

open MarkedQueues LabelledRun Option

variable {cpus helpers : ℕ} {τ : Type*}

namespace Phase

def flight : Phase cpus τ → Option τ
  | .enqueueOnCpu op => some op.task
  | .enqueueMark op => some op.task
  | _ => none

def unqueues : Phase cpus τ → Option τ
  | .claimUnqueue task _ => some task
  | _ => none

theorem Free.serial {phase : Phase cpus τ} (hfree : phase.Free) :
    phase.flight = none ∧ phase.unqueues = none := by
  cases phase <;> first | exact ⟨rfl, rfl⟩ | exact hfree.elim

end Phase

namespace SchedConfig

variable [DecidableEq τ]

/-- An enqueue passes its first check only while no other enqueue of the task
is between its checks and its mark. -/
def SerialEnqueue (config : SchedConfig cpus helpers τ) : SchedStep cpus helpers τ → Prop
  | .advance agent _ _ =>
    match config.phase agent with
    | .enqueueQueued op => (config.task op.task).readyQueued = none →
        ∀ other, (config.phase other).flight ≠ some op.task
    | _ => True
  | _ => True

structure Serial (s : SchedConfig cpus helpers τ) : Prop where
  alone : ∀ first second task, (s.phase first).flight = some task →
    (s.phase second).flight = some task → first = second
  unmarked : ∀ agent task, (s.phase agent).flight = some task → s.marker task = none
  offCpu : ∀ agent op, s.phase agent = .enqueueMark op → (s.task op.task).onCpu = none
  claimed : ∀ task cpu, (s.task task).onCpu = some cpu →
    s.marker task = none ∨ (s.phase (.cpu cpu)).unqueues = some task

variable {s s' changed : SchedConfig cpus helpers τ}
variable {agent : Agent cpus helpers} {phase : Phase cpus τ} {cpu : Fin cpus} {task : τ}

/-! ## Steps of serial enqueues -/

omit [DecidableEq τ] in
theorem unqueues_of_phase {held : Option τ} (hphase : s.phase agent = phase)
    (hheld : phase.unqueues = held) : (s.phase agent).unqueues = held := by
  rwa [hphase]

attribute [local simp] SchedConfig.setTask setOnCpu

section

variable (hinv : s.Serial)
include hinv

section

omit [DecidableEq τ]

theorem Serial.phase_step (hchanged : changed.phase = s.phase)
    (hown : ∀ task, phase.flight = some task → changed.marker task = none ∧
      ∀ other, other ≠ agent → (s.phase other).flight ≠ some task)
    (hmark : ∀ op, phase = .enqueueMark op → (changed.task op.task).onCpu = none)
    (hunmarked : ∀ other task, other ≠ agent → (s.phase other).flight = some task →
      changed.marker task = none)
    (hoff : ∀ other op, other ≠ agent → s.phase other = .enqueueMark op →
      (changed.task op.task).onCpu = none)
    (hclaimed : ∀ task place, (changed.task task).onCpu = some place →
      changed.marker task = none ∨ Agent.cpu place = agent ∧ phase.unqueues = some task ∨
        Agent.cpu place ≠ agent ∧ (s.phase (.cpu place)).unqueues = some task) :
    (changed.setPhase agent phase).Serial := by
  have hother : ∀ other, other ≠ agent →
      (changed.setPhase agent phase).phase other = s.phase other :=
    setPhase_other hchanged
  constructor
  case alone =>
    intro first second task hfirst hsecond
    by_cases hsame : first = agent <;> by_cases hsame' : second = agent
    · rw [hsame, hsame']
    · rw [hsame, setPhase_self] at hfirst
      rw [hother second hsame'] at hsecond
      exact absurd hsecond ((hown task hfirst).2 second hsame')
    · rw [hsame', setPhase_self] at hsecond
      rw [hother first hsame] at hfirst
      exact absurd hfirst ((hown task hsecond).2 first hsame)
    · rw [hother first hsame] at hfirst
      rw [hother second hsame'] at hsecond
      exact hinv.alone first second task hfirst hsecond
  case unmarked =>
    intro other task hfly
    by_cases hsame : other = agent
    · rw [hsame, setPhase_self] at hfly
      exact (hown task hfly).1
    · rw [hother other hsame] at hfly
      exact hunmarked other task hsame hfly
  case offCpu =>
    intro other op hfound
    by_cases hsame : other = agent
    · rw [hsame, setPhase_self] at hfound
      exact hmark op hfound
    · rw [hother other hsame] at hfound
      exact hoff other op hsame hfound
  case claimed =>
    intro task place hon
    rcases hclaimed task place hon with hnone | ⟨rfl, hclaim⟩ | ⟨hne, hclaim⟩
    · exact .inl hnone
    · rw [setPhase_self]
      exact .inr hclaim
    · rw [hother _ hne]
      exact .inr hclaim

theorem Serial.claimed_other (hunqueues : (s.phase agent).unqueues = none)
    (hon : (s.task task).onCpu = some cpu) :
    s.marker task = none ∨ Agent.cpu cpu = agent ∧ phase.unqueues = some task ∨
      Agent.cpu cpu ≠ agent ∧ (s.phase (.cpu cpu)).unqueues = some task := by
  refine (hinv.claimed task cpu hon).imp_right fun hclaim => .inr ⟨?_, hclaim⟩
  rintro rfl
  simp [hunqueues] at hclaim

theorem Serial.relax (hchanged : changed.phase = s.phase)
    (honCpu : ∀ task cpu, (changed.task task).onCpu = some cpu → (s.task task).onCpu = some cpu)
    (hmarker : ∀ task, s.marker task = none → changed.marker task = none)
    (hflight : phase.flight = none)
    (hunqueues : ∀ task, (s.phase agent).unqueues = some task → changed.marker task = none) :
    (changed.setPhase agent phase).Serial := by
  apply hinv.phase_step hchanged
  · simp [hflight]
  · rintro op rfl
    simp [Phase.flight] at hflight
  · exact fun other task _ hfly => hmarker task (hinv.unmarked other task hfly)
  · intro other op _ hmark
    have hoff := hinv.offCpu other op hmark
    by_contra hon
    obtain ⟨place, hplace⟩ := ne_none_iff_exists'.mp hon
    simp [honCpu _ _ hplace] at hoff
  · intro task place hon
    rcases hinv.claimed task place (honCpu task place hon) with hnone | hclaim
    · exact .inl (hmarker task hnone)
    · by_cases hsame : Agent.cpu place = agent
      · subst agent
        exact .inl (hunqueues task hclaim)
      · exact .inr (.inr ⟨hsame, hclaim⟩)

theorem Serial.keep (hchanged : changed.phase = s.phase)
    (honCpu : ∀ task, (changed.task task).onCpu = (s.task task).onCpu)
    (hmarker : changed.marker = s.marker) (hflight : phase.flight = none)
    (hunqueues : (s.phase agent).unqueues = none) : (changed.setPhase agent phase).Serial := by
  apply hinv.relax hchanged
  · intro task place hon
    rwa [← honCpu task]
  · rw [hmarker]
    exact fun _ hnone => hnone
  · exact hflight
  · simp [hunqueues]

theorem Serial.walk {before : Phase cpus τ} (hphase : s.phase agent = before)
    (hunqueues : before.unqueues = none) (hchanged : changed.phase = s.phase)
    (htask : changed.task = s.task) (hflight : phase.flight = none) :
    (changed.setPhase agent phase).Serial := by
  apply hinv.keep hchanged _ _ hflight (unqueues_of_phase hphase hunqueues)
  · rw [htask]
    exact fun _ => rfl
  · funext task
    rw [marker, marker, htask]

theorem Serial.touches (htouches : Touches s s') : s'.Serial := by
  cases htouches with
  | intro hphase hbefore hafter _ hchanged _ _ _ hmarker honCpu =>
    exact hinv.keep hchanged honCpu hmarker hafter.serial.1
      (unqueues_of_phase hphase hbefore.serial.2)

end

theorem Serial.release {before : Phase cpus τ} {block : TaskBlock cpus}
    (hphase : s.phase agent = before) (hbefore : before.Free) (hafter : phase.Free)
    (honCpu : block.onCpu = none) (hmarker : block.readyQueued = (s.task task).readyQueued) :
    ((s.setTask task block).setPhase agent phase).Serial := by
  refine hinv.relax rfl ?_ ?_ hafter.serial.1 (by simp [hphase, hbefore.serial.2])
  · intro other place hon
    by_cases hother : other = task
    · simp [hother, honCpu] at hon
    · simpa [hother] using hon
  · rw [marker_setTask hmarker]
    exact fun _ hnone => hnone

end

variable {op : Enqueue cpus τ}

omit [DecidableEq τ] in
theorem Serial.enter (hinv : s.Serial) (hmarker : (s.task op.task).readyQueued = none)
    (hserial : ∀ other, (s.phase other).flight ≠ some op.task)
    (hunqueues : (s.phase agent).unqueues = none) :
    (s.setPhase agent (.enqueueOnCpu op)).Serial := by
  apply hinv.phase_step rfl
  · intro task hfly
    obtain rfl := some.inj hfly
    exact ⟨hmarker, fun other _ => hserial other⟩
  · simp
  · exact fun other task _ hfly => hinv.unmarked other task hfly
  · exact fun other mark _ hmark => hinv.offCpu other mark hmark
  · exact fun task place hon => hinv.claimed_other hunqueues hon

omit [DecidableEq τ] in
theorem Serial.check {mark : Enqueue cpus τ} (hinv : s.Serial)
    (hchanged : changed.phase = s.phase) (htask : changed.task = s.task)
    (hphase : s.phase agent = .enqueueOnCpu op) (hmark : mark.task = op.task)
    (honCpu : (s.task op.task).onCpu = none) :
    (changed.setPhase agent (.enqueueMark mark)).Serial := by
  have hmarker : changed.marker = s.marker := by
    funext task
    rw [marker, marker, htask]
  have hown : (s.phase agent).flight = some op.task := congrArg Phase.flight hphase
  apply hinv.phase_step hchanged
  · intro task hfly
    obtain rfl := hmark.symm.trans (some.inj hfly)
    rw [hmarker]
    exact ⟨hinv.unmarked agent _ hown, fun other hne hfly =>
      hne (hinv.alone other agent _ hfly hown)⟩
  · intro found hfound
    obtain rfl := Phase.enqueueMark.inj hfound
    rwa [htask, hmark]
  · rw [hmarker]
    exact fun other task _ hfly => hinv.unmarked other task hfly
  · rw [htask]
    exact fun other found _ hfound => hinv.offCpu other found hfound
  · rw [htask, hmarker]
    exact fun task place hon => hinv.claimed_other (unqueues_of_phase hphase rfl) hon

theorem Serial.mark (hinv : s.Serial) (hphase : s.phase agent = .enqueueMark op) :
    ((s.setReadyQueued op.task (some op.cpu)).setPhase agent (.enqueueAdd op)).Serial := by
  have hown : (s.phase agent).flight = some op.task := congrArg Phase.flight hphase
  refine hinv.phase_step rfl ?_ ?_ ?_ ?_ ?_
  · simp [Phase.flight]
  · simp
  · intro other task hne hfly
    have htask : task ≠ op.task := by
      rintro rfl
      exact hne (hinv.alone other agent _ hfly hown)
    rw [marker_setReadyQueued_of_ne _ htask]
    exact hinv.unmarked other task hfly
  · intro other found _ hfound
    rw [onCpu_setReadyQueued]
    exact hinv.offCpu other found hfound
  · intro task place hon
    rw [onCpu_setReadyQueued] at hon
    have htask : task ≠ op.task := by
      rintro rfl
      simp [hinv.offCpu agent op hphase] at hon
    rw [marker_setReadyQueued_of_ne _ htask]
    exact hinv.claimed_other (unqueues_of_phase hphase rfl) hon

variable {left : ℕ}

theorem Serial.claim (hinv : s.Serial) (hmarker : s.marker task = some cpu)
    (hunqueues : (s.phase (.cpu cpu)).unqueues = none) :
    ((s.setOnCpu task (some cpu)).setPhase (.cpu cpu) (.claimUnqueue task left)).Serial := by
  have hsame : (s.setOnCpu task (some cpu)).marker = s.marker := marker_setTask rfl
  refine hinv.phase_step rfl ?_ ?_ ?_ ?_ ?_
  · simp [Phase.flight]
  · simp
  · rw [hsame]
    exact fun other found _ hfly => hinv.unmarked other found hfly
  · intro other op _ hmark
    have htask : op.task ≠ task := by
      rintro rfl
      simp [hinv.unmarked other op.task (congrArg Phase.flight hmark)] at hmarker
    simpa [htask] using hinv.offCpu other op hmark
  · intro found place hon
    rw [hsame]
    by_cases hfound : found = task
    · subst found
      have hplace : cpu = place := by
        simpa using hon
      exact .inr (.inl ⟨congrArg _ hplace.symm, rfl⟩)
    · have honFound : (s.task found).onCpu = some place := by
        simpa [hfound] using hon
      exact hinv.claimed_other hunqueues honFound

/-! ## All steps -/

variable (hinv : s.Serial)
include hinv

theorem Serial.unmark (hchanged : changed.phase = s.phase)
    (htask : changed.task = (s.setReadyQueued task none).task) (hflight : phase.flight = none)
    (hunqueues : ∀ other, (s.phase agent).unqueues = some other → other = task) :
    (changed.setPhase agent phase).Serial := by
  have hmarker : changed.marker = (s.setReadyQueued task none).marker := by
    funext other
    rw [marker, marker, htask]
  apply hinv.relax hchanged
  · intro other place hon
    rwa [htask, onCpu_setReadyQueued] at hon
  · intro other hnone
    rw [hmarker]
    by_cases hother : other = task
    · rw [hother, marker_setReadyQueued_self]
    · rwa [marker_setReadyQueued_of_ne _ hother]
  · exact hflight
  · intro other hother
    rw [hmarker, hunqueues other hother, marker_setReadyQueued_self]

theorem Serial.step {label : SchedStep cpus helpers τ} (hqueued : s.Queued)
    (hserial : s.SerialEnqueue label) (hstep : Steps s label s') : s'.Serial := by
  cases hstep with
  | walk hwalk => exact hinv.touches hwalk.touches
  | adjust => exact ⟨hinv.alone, hinv.unmarked, hinv.offCpu, hinv.claimed⟩
  | enqueueLock hphase | enqueueMarked hphase | enqueueClaimed hphase | enqueueRetry hphase
  | enqueueLate hphase | enqueueAdd hphase | enqueueCount hphase | claimLock hphase
  | claimDone hphase | claimNone hphase | claimPop hphase | claimLost hphase | claimBack hphase
  | claimCount hphase | removeLock hphase | removeTake hphase | removeMoved hphase =>
    exact hinv.walk hphase rfl rfl rfl rfl
  | enqueueFresh hphase hmarker =>
    rw [SerialEnqueue, hphase] at hserial
    exact hinv.enter hmarker (hserial hmarker) (unqueues_of_phase hphase rfl)
  | enqueueRoom hphase hoff | enqueueGrow hphase hoff => exact hinv.check rfl rfl hphase rfl hoff
  | enqueueMark hphase => exact hinv.mark hphase
  | claimMark hphase =>
    exact hinv.claim (hqueued.marker_of_carrying (holds_of_phase hphase rfl)
      (congrArg Phase.stage hphase)) (unqueues_of_phase hphase rfl)
  | claimUnqueue hphase =>
    refine hinv.unmark rfl rfl rfl fun other hother => ?_
    rw [hphase] at hother
    exact (some.inj hother).symm
  | removeClear hphase => exact hinv.unmark rfl rfl rfl (by simp [hphase, Phase.unqueues])
  | reject hphase | switchOff hphase | switchBack hphase =>
    exact hinv.release hphase trivial trivial rfl rfl
  | removeCount hphase => exact hinv.walk hphase rfl rfl rfl (free_afterRemoval _ _).1.serial.1

end SchedConfig

/-! ## Runs with serial enqueues -/

def Phase.lowers (agent : Agent cpus helpers) (phase : Phase cpus τ) : Option (Fin cpus) :=
  match phase with
  | .claimCount _ => phase.holds agent
  | .claimStale _ => phase.holds agent
  | .removeCount _ cpu => some cpu
  | _ => none

namespace SchedConfig

structure Placed (config : SchedConfig cpus helpers τ) : Prop where
  once : ∀ cpu, (config.manager cpu).tasks.Nodup
  oneQueue : ∀ task first second, task ∈ (config.manager first).tasks →
    task ∈ (config.manager second).tasks → first = second
  marked : ∀ task cpu, config.lock cpu = none →
    (task ∈ (config.manager cpu).tasks ↔ (config.task task).readyQueued = some cpu)
  claimed : ∀ task cpu, (config.task task).onCpu = some cpu ↔
    (config.phase (.cpu cpu)).claimed = some task
  oneCpu : ∀ task first second, (config.phase (.cpu first)).claimed = some task →
    (config.phase (.cpu second)).claimed = some task → first = second
  unqueued : ∀ task cpu, (config.task task).onCpu = some cpu →
    ∀ queue, task ∉ (config.manager queue).tasks
  grows : ∀ agent op cpu, config.phase agent = .enqueueOnCpu op →
    (∀ level, (((config.enqueueOnCpuStep agent op).manager cpu).readyQueues level).items =
      ((config.manager cpu).readyQueues level).items) ∧
    ((config.enqueueOnCpuStep agent op).manager cpu).realtimeQueue.items =
      (config.manager cpu).realtimeQueue.items
  positive : ∀ agent cpu, (config.phase agent).lowers agent = some cpu → 0 < config.readyTasks cpu
  counted : ∀ cpu, config.lock cpu = none → config.pendingOf cpu = ∅ →
    config.readyTasks cpu = (config.manager cpu).len

variable {config s : SchedConfig cpus helpers τ}

theorem serial_boot : (boot cpus helpers τ).Serial where
  alone := by simp [boot, Phase.flight]
  unmarked := by simp [boot, Phase.flight]
  offCpu := by simp [boot]
  claimed := by simp [boot]

/-! ## Placement -/

theorem Queued.unqueued (hqueued : s.Queued) (hserial : s.Serial) {task : τ}
    {cpu : Fin cpus} (hon : (s.task task).onCpu = some cpu) (queue : Fin cpus) :
    task ∉ (s.manager queue).tasks := by
  have hagrees := hqueued.agrees queue
  rcases hserial.claimed task cpu hon with hnone | hclaim
  · apply hagrees.notMem_of_unmarked
    rw [hnone]
    simp
  · obtain ⟨left, hphase⟩ : ∃ left, s.phase (.cpu cpu) = .claimUnqueue task left := by
      cases hphase : s.phase (.cpu cpu) with
      | claimUnqueue found left =>
        rw [hphase] at hclaim
        cases hclaim
        exact ⟨left, rfl⟩
      | _ =>
        rw [hphase] at hclaim
        simp [Phase.unqueues] at hclaim
    have hholds := holds_of_phase hphase (rfl : _ = some cpu)
    have hcarried : (s.phase (.cpu cpu)).stage = .carrying task := congrArg Phase.stage hphase
    have hmarker := hqueued.marker_of_carrying hholds hcarried
    by_cases hqueue : queue = cpu
    · subst queue
      have hown := hqueued.agrees_of_holds hholds
      rw [hcarried] at hown
      exact hown.apart task rfl
    · apply hagrees.notMem_of_unmarked
      rw [hmarker]
      simpa using Ne.symm hqueue

theorem items_enqueueOnCpuStep (agent : Agent cpus helpers) (op : Enqueue cpus τ) (cpu : Fin cpus) :
    (∀ level, (((s.enqueueOnCpuStep agent op).manager cpu).readyQueues level).items =
      ((s.manager cpu).readyQueues level).items) ∧
    ((s.enqueueOnCpuStep agent op).manager cpu).realtimeQueue.items =
      (s.manager cpu).realtimeQueue.items := by
  rw [enqueueOnCpuStep]
  split
  · exact ⟨fun _ => rfl, rfl⟩
  · split
    · exact ⟨fun _ => rfl, rfl⟩
    · split
      case h_1 capacity _ =>
        split
        · by_cases hcpu : cpu = op.cpu
          · subst cpu
            have hmanager : ((s.setManager op.cpu
                ((s.manager op.cpu).replaceStorage capacity)).setPhase agent
                  (.enqueueMark { op with spare := none })).manager op.cpu =
                (s.manager op.cpu).replaceStorage capacity := setManager_self
            rw [hmanager]
            exact (s.manager op.cpu).items_replaceStorage capacity
          · simp [SchedConfig.setPhase, setManager, hcpu]
        · exact ⟨fun _ => rfl, rfl⟩
      case h_2 => exact ⟨fun _ => rfl, rfl⟩

theorem Queued.positive (hqueued : s.Queued) {agent : Agent cpus helpers} {cpu : Fin cpus}
    (hlowers : (s.phase agent).lowers agent = some cpu) : 0 < s.readyTasks cpu := by
  cases hphase : s.phase agent with
  | claimCount task =>
    rw [hphase] at hlowers
    have hholds := holds_of_phase hphase hlowers
    have hagrees := hqueued.agrees_of_holds hholds
    rw [hphase] at hagrees
    exact hagrees.countDown.1
  | claimStale task =>
    have hregular := hqueued.regular agent
    rw [hphase] at hregular
    exact hregular.elim
  | removeCount op place =>
    rw [hphase] at hlowers
    obtain rfl := some.inj hlowers
    exact (hqueued.settle (holds_of_phase hphase rfl) (pendingAt_of_phase hphase rfl)
      (free_afterRemoval op place).1).1
  | _ =>
    rw [hphase] at hlowers
    simp [Phase.lowers] at hlowers

theorem Queued.placed (hqueued : s.Queued) (hclaimed : s.Claimed)
    (hserial : s.Serial) : s.Placed where
  once := fun cpu => (hqueued.agrees cpu).nodup
  oneQueue := by
    intro task first second hfirst hsecond
    have hmarkFirst := ((hqueued.agrees first).marked task).mpr (.inl hfirst)
    have hmarkSecond := ((hqueued.agrees second).marked task).mpr (.inl hsecond)
    exact some.inj (hmarkFirst.symm.trans hmarkSecond)
  marked := by
    intro task cpu hfree
    have hagrees := hqueued.agrees cpu
    rw [stageOf_of_lock_eq_none hfree] at hagrees
    constructor
    · exact fun htask => (hagrees.marked task).mpr (.inl htask)
    · exact fun hmarked => hagrees.mem_of_marked hmarked
  claimed := hclaimed.claims
  oneCpu := by
    intro task first second hfirst hsecond
    rw [← hclaimed.claims] at hfirst hsecond
    exact some.inj (hfirst.symm.trans hsecond)
  unqueued := fun _ _ hon queue => hqueued.unqueued hserial hon queue
  grows := fun agent op cpu _ => items_enqueueOnCpuStep agent op cpu
  positive := fun _ _ hlowers => hqueued.positive hlowers
  counted := by
    intro cpu hfree hpending
    have hcount := (hqueued.agrees cpu).count_eq
    rw [stageOf_of_lock_eq_none hfree, hpending, TaskManager.card_tasks] at hcount
    simpa [Stage.uncounted, Stage.overcounted] using hcount

variable [DecidableEq τ]

theorem serial_of_reachable
    (hreach : Reachable next SerialEnqueue (boot cpus helpers τ) s) : s.Serial := by
  induction hreach with
  | start => exact serial_boot
  | step label hreach hadmits hnext ih =>
    have hsound := steady_of_reachable hreach
    exact ih.step hsound.toQueued hadmits (hsound.steps hnext)

/-- In every run whose enqueues of one task never overlap, every task has at
most one place. -/
theorem placed_of_reachable
    (hreach : Reachable next SerialEnqueue (boot cpus helpers τ) config) : config.Placed :=
  (steady_of_reachable hreach).toQueued.placed (steady_of_reachable hreach).toClaimed
    (serial_of_reachable hreach)

instance (config : SchedConfig cpus helpers τ) (step : SchedStep cpus helpers τ) :
    Decidable (config.SerialEnqueue step) := by
  unfold SerialEnqueue
  cases step with
  | advance agent target giveUp =>
    dsimp only
    cases config.phase agent <;> infer_instance
  | _ => exact instDecidableTrue

/-- The enqueue of a helper, which has to grow the queue. -/
def growingEnqueue (target : Fin 2) : List (SchedStep 2 1 Unit) :=
  List.replicate 10 (.advance (.helper i₀) target false)

/-- A CPU takes its next task up to the point where the marker is cleared. -/
def claimBy (cpu : Fin 2) : List (SchedStep 2 1 Unit) :=
  .fetch cpu :: List.replicate 4 (.advance (.cpu cpu) cpu false)

/-- A task runs on CPU 0, yields, and its switch completion has checked the
marks and not yet set one. -/
def yieldedRun : List (SchedStep 2 1 Unit) :=
  [.spawn i₀ () i₀] ++ growingEnqueue i₀ ++ claimBy i₀ ++
    List.replicate 3 (.advance (.cpu i₀) i₀ false) ++ [.own i₀ (.yield false)] ++
    List.replicate 5 (.advance (.cpu i₀) i₀ false)

theorem placed_after_yieldedRun :
    ∃ config, Reachable next SerialEnqueue (boot 2 1 Unit) config ∧ config.Placed ∧
      () ∈ (config.manager 0).tasks ∧ config.readyTasks 0 = 1 := by
  refine (exists_reachable_of_runSteps
    (yieldedRun ++ List.replicate 3 (.advance (.cpu 0) 0 false)) ?_).imp
      fun config ⟨hreach, hqueued⟩ => ⟨hreach, placed_of_reachable hreach, hqueued⟩
  decide +kernel

/-- A wake-up puts the yielded task into the queue of CPU 1, which claims it;
then the switch completion marks the task and queues it at CPU 0. -/
def overlappingRun : List (SchedStep 2 1 Unit) :=
  yieldedRun ++ [.wakeup i₀ () false] ++ List.replicate 3 (.advance (.helper i₀) i₁ false) ++
    growingEnqueue i₁ ++ claimBy i₁ ++ List.replicate 2 (.advance (.cpu i₀) i₀ false)

theorem not_placed_of_overlappingRun :
    ¬ ∀ config, Reachable next always (boot 2 1 Unit) config → config.Placed := by
  intro hplaced
  obtain ⟨config, hreach, hclaimed, hqueued⟩ :
      ∃ config, Reachable next always (boot 2 1 Unit) config ∧
        (config.task ()).onCpu = some 1 ∧ () ∈ (config.manager 0).tasks :=
    exists_reachable_of_runSteps overlappingRun (by decide +kernel)
  exact (hplaced config hreach).unqueued () 1 hclaimed 0 hqueued

/-- In every run, also where enqueues overlap, a task is in at most one queue and there
once, at most one CPU has claimed it, and no agent repairs a queue. -/
theorem unshared_of_reachable (hreach : Reachable next always (boot cpus helpers τ) config) :
    (∀ cpu, (config.manager cpu).tasks.Nodup) ∧
      (∀ task cpu other, task ∈ (config.manager cpu).tasks →
        task ∈ (config.manager other).tasks → cpu = other) ∧
      (∀ task cpu other, (config.phase (.cpu cpu)).claimed = some task →
        (config.phase (.cpu other)).claimed = some task → cpu = other) ∧
      ∀ agent, (config.phase agent).Regular := by
  have hsound := steady_of_reachable hreach
  have hmarked task cpu (hmem : task ∈ (config.manager cpu).tasks) :=
    ((hsound.agrees cpu).marked task).mpr (.inl hmem)
  refine ⟨fun cpu => (hsound.agrees cpu).nodup, fun task cpu other hcpu hother => ?_,
    fun task cpu other hcpu hother => ?_, hsound.regular⟩
  · exact Option.some.inj ((hmarked task cpu hcpu).symm.trans (hmarked task other hother))
  · rw [← hsound.claims] at hcpu hother
    exact Option.some.inj (hcpu.symm.trans hother)

theorem unshared_after_overlappingRun : ∃ config, Reachable next always (boot 2 1 Unit) config ∧
      () ∈ (config.manager 0).tasks ∧ () ∉ (config.manager 1).tasks := by
  obtain ⟨config, hreach, hqueued⟩ : ∃ config, Reachable next always (boot 2 1 Unit) config ∧
      () ∈ (config.manager 0).tasks :=
    exists_reachable_of_runSteps overlappingRun (by decide +kernel)
  refine ⟨config, hreach, hqueued, fun hother => ?_⟩
  cases (unshared_of_reachable hreach).2.1 () 0 1 hqueued hother

end SchedConfig

end Kairix.Sched
