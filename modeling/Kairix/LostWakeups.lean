import Kairix.WakeupInvariant

/-!
# Lost wake-ups

A wake-up of a running task is remembered by `pending_wakeup`, which the next
switch completion clears: a task which yields between a wake-up and its block
call sleeps through the wake-up.  In every run whose steps keep wake-ups, a
task which is ready or has a wake-up to consume is in a run queue, on a CPU, or
in the hands of an agent which is about to enqueue it.
-/

namespace Kairix.Sched

open LabelledRun MarkedQueues Function

variable {cpus helpers : ℕ} {τ : Type*}

namespace SchedConfig

def WakeSafe (config : SchedConfig cpus helpers τ) (task : τ) : Prop :=
  (config.task task).status = .zombie ∨
    ((config.task task).call = .block ∨ ∃ cpu, config.phase (.cpu cpu) = .executing task) ∧
      ∀ cpu, config.phase (.cpu cpu) ≠ .reject task

def Consumed (config : SchedConfig cpus helpers τ) (cpu : Fin cpus) : Prop :=
  match config.phase (.cpu cpu) with
  | .executing task => (config.task task).woken = false
  | _ => True

def KeepsWakeups (config : SchedConfig cpus helpers τ) : SchedStep cpus helpers τ → Prop
  | .advance agent _ _ =>
    match config.phase agent with
    | .wake task _ => config.WakeSafe task
    | _ => True
  | .own cpu (.yield _) => config.Consumed cpu
  | .own cpu .stop => config.Consumed cpu
  | .remove _ _ => False
  | .groupStop _ _ => False
  | .groupContinue _ _ => False
  | _ => True

variable {s s' changed : SchedConfig cpus helpers τ}
variable {agent : Agent cpus helpers} {phase : Phase cpus τ} {cpu : Fin cpus} {task : τ}

/-! ## Enqueueing -/

theorem Awake.quit {role : Role} (hinv : s.Awake) (hchanged : changed.phase = s.phase)
    (htask : changed.task = s.task) (hplays : s.Plays agent role task)
    (hrole : role = .enqueuing ∨ role = .following) (hnone : phase.role = none)
    (hkeeps : ¬phase.Removing)
    (hsettled : (s.task task).status = .ready →
      (s.task task).onCpu ≠ none ∨ (s.task task).readyQueued ≠ none) :
    (changed.setPhase agent phase).Awake := by
  refine hinv.move hchanged (fun other _ => congrFun htask other) (congrFun htask task)
    ((hinv.tasks task).born_of_plays hplays) (Phase.aside_of_role hplays hrole)
    (Phase.aside_of_none hnone) hkeeps fun hstatus => ?_
  rcases hsettled hstatus with hon | hmarked
  · exact .inl hon
  · exact .inr (.inl hmarked)

theorem role_of_phase {found : Option (Role × τ)} (hphase : s.phase agent = phase)
    (hfound : phase.role = found) : (s.phase agent).role = found := by
  rwa [hphase]

variable [DecidableEq τ]

variable {block : TaskBlock cpus}

theorem task_setTask_self : (s.setTask task block).task task = block := update_self ..

theorem task_setTask_of_ne (other : τ) (hother : other ≠ task) :
    (s.setTask task block).task other = s.task other :=
  update_of_ne hother ..

/-! ## Running -/

section

variable (hinv : s.Awake) (hclaimed : s.Claimed)
include hinv hclaimed

omit [DecidableEq τ] in
theorem Awake.drop (hheld : (s.phase (.cpu cpu)).claimed = some task)
    (hrole : (s.phase (.cpu cpu)).role = none) (hstatus : (s.task task).status ≠ .ready) :
    (s.setPhase (.cpu cpu) (.reject task)).Awake := by
  have hat := hinv.tasks task
  have hon := hclaimed.onCpu_ne_none hheld
  obtain ⟨hrunning, hwoken⟩ := hat.of_not_running hclaimed hheld (by simp [hrole])
  refine hinv.own hclaimed hheld rfl (fun _ _ => rfl) rfl (Phase.names_of_none hrole)
    (Phase.names_of_role rfl) id (hat.born_of_onCpu hon) ⟨?_, ?_, ?_, ?_, ?_, ?_⟩
  · exact fun _ => .inl hon
  · simp [Phase.role]
  · exact fun _ => hstatus
  · exact fun hrun => absurd hrun hrunning
  · simp [Phase.role]
  · exact fun hset => .inl ((hwoken hset).resolve_right fun hblocked => hstatus hblocked.1)

theorem Awake.run (hphase : s.phase (.cpu cpu) = .dispatchRun task)
    (hstatus : (s.task task).status = .ready) :
    ((s.setTask task { s.task task with
      status := .running, call := .executing,
      woken := if (s.task task).call = .block then false
        else (s.task task).woken }).setPhase (.cpu cpu) (.executing task)).Awake := by
  have hrole : (s.phase (.cpu cpu)).role = none := role_of_phase hphase rfl
  have hheld := claimed_of_phase hphase rfl
  have hat := hinv.tasks task
  refine hinv.own hclaimed hheld rfl task_setTask_of_ne task_setTask_self
    (Phase.names_of_none hrole) (Phase.names_of_role rfl) id
    (hat.born_of_onCpu (hclaimed.onCpu_ne_none hheld)) ⟨?_, ?_, ?_, ?_, ?_, ?_⟩
  · simp
  · simp [Phase.role]
  · simp
  · exact fun _ => rfl
  · simp
  · intro hset
    split at hset
    case isTrue => simp at hset
    case isFalse hcall =>
      obtain ⟨-, hwoken⟩ := hat.of_not_running hclaimed hheld (by simp [hrole])
      rcases hwoken hset with hzombie | hblocked
      · rw [hstatus] at hzombie
        simp at hzombie
      · exact absurd hblocked.2 hcall

theorem Awake.shed {role : Role} (hheld : (s.phase (.cpu cpu)).claimed = some task)
    (hplays : s.Plays (.cpu cpu) role task) (hrole : role ≠ .running)
    (hstatus : (s.task task).status ≠ .ready) :
    ((s.setOnCpu task none).setPhase (.cpu cpu) .idle).Awake := by
  have hat := hinv.tasks task
  obtain ⟨hrunning, hwoken⟩ := hat.of_not_running hclaimed hheld fun hruns =>
    hrole (congrArg Prod.fst (Option.some.inj (hplays.symm.trans hruns)))
  refine hinv.own hclaimed hheld rfl task_setTask_of_ne task_setTask_self
    (Phase.names_of_role hplays) (Phase.names_of_none rfl) id (hat.born_of_plays hplays)
    ⟨?_, ?_, ?_, ?_, ?_, ?_⟩
  · exact fun hready => absurd hready hstatus
  · simp [Phase.role]
  · simp [Phase.role]
  · exact fun hrun => absurd hrun hrunning
  · simp [Phase.role]
  · exact fun hset => .inl ((hwoken hset).resolve_right fun hblocked => hstatus hblocked.1)

end

variable {target : Fin cpus}

theorem Awake.switchBack (hinv : s.Awake) (hclaimed : s.Claimed) {front : Bool}
    (hphase : s.phase (.cpu cpu) = .switching task) :
    ((s.setTask task { s.task task with
      onCpu := none, requeueAfterSwitch := false, requeueFrontAfterSwitch := false,
      pendingWakeup := false,
      status := if (s.task task).status = .zombie then .zombie else .ready }).setPhase
        (.cpu cpu) (.addCheck ⟨target, task, front, none⟩)).Awake := by
  have hplays : s.Plays (.cpu cpu) .leaving task := plays_of_phase hphase rfl
  have hheld := claimed_of_phase hphase rfl
  have hat := hinv.tasks task
  refine hinv.own hclaimed hheld rfl task_setTask_of_ne task_setTask_self
    (Phase.names_of_role hplays) (Phase.names_of_role rfl) id (hat.born_of_plays hplays)
    ⟨?_, ?_, ?_, ?_, ?_, ?_⟩
  · exact fun _ => .inr (.inr rfl)
  · simp [Phase.role]
  · simp [Phase.role]
  · simp only
    split <;> simp
  · simp [Phase.role]
  · intro hset
    by_cases hzombie : (s.task task).status = .zombie
    · exact .inl (if_pos hzombie)
    · have hblocked := (hat.of_not_running hclaimed hheld (by simp [hphase, Phase.role])).2 hset
      exact .inr (.inl ⟨if_neg hzombie, (hblocked.resolve_left hzombie).2⟩)

theorem Awake.own_step (hinv : s.Awake) (hclaimed : s.Claimed)
    (hphase : s.phase (.cpu cpu) = .executing task)
    (hborn : block.born = (s.task task).born) (hon : block.onCpu = (s.task task).onCpu)
    (hafter : phase = .executing task ∧ block.call = .executing ∧ block.status ≠ .zombie ∧
        (block.woken = true → block.pendingWakeup = true) ∨
      phase = .switching task ∧ (block.status = .zombie ∨
        block.woken = false ∧ (block.status = .blocked ∨
          block.status = .ready ∧ block.requeueAfterSwitch = true))) :
    ((s.setTask task block).setPhase (.cpu cpu) phase).Awake := by
  have hplays : s.Plays (.cpu cpu) .running task := plays_of_phase hphase rfl
  have hheld := claimed_of_phase hphase rfl
  have hplaced : block.onCpu ≠ none := by
    rw [hon]
    exact hclaimed.onCpu_ne_none hheld
  have hexists : block.born = true := by
    rw [hborn]
    exact (hinv.tasks task).born_of_plays hplays
  rcases hafter with ⟨rfl, hcall, hzombie, hpending⟩ | ⟨rfl, hstatus⟩
  · refine hinv.own hclaimed hheld rfl task_setTask_of_ne task_setTask_self
      (Phase.names_of_role hplays) (Phase.names_of_role rfl) id hexists ⟨?_, ?_, ?_, ?_, ?_, ?_⟩
    · exact fun _ => .inl hplaced
    · simp [Phase.role]
    · simp [Phase.role]
    · exact fun _ => rfl
    · exact fun _ => ⟨hcall, hzombie⟩
    · exact fun hset => .inr (.inr ⟨hpending hset, rfl⟩)
  · refine hinv.own hclaimed hheld rfl task_setTask_of_ne task_setTask_self
      (Phase.names_of_role hplays) (Phase.names_of_role rfl) id hexists ⟨?_, ?_, ?_, ?_, ?_, ?_⟩
    · exact fun _ => .inl hplaced
    · intro _
      rcases hstatus with hzombie | ⟨-, hblocked | hready⟩
      · exact .inl hzombie
      · exact .inr (.inl hblocked)
      · exact .inr (.inr hready)
    · simp [Phase.role]
    · intro hrun
      rcases hstatus with hzombie | ⟨-, hblocked | hready⟩
      · simp [hrun] at hzombie
      · simp [hrun] at hblocked
      · simp [hrun] at hready
    · simp [Phase.role]
    · intro hset
      rcases hstatus with hzombie | ⟨hunset, -⟩
      · exact .inl hzombie
      · simp [hset] at hunset

section

variable (hinv : s.Awake) (hclaimed : s.Claimed)
  (hphase : s.phase (.cpu cpu) = .executing task)
include hinv hclaimed hphase

theorem Awake.own_stay (hborn : block.born = (s.task task).born)
    (hon : block.onCpu = (s.task task).onCpu) (hcall : block.call = .executing)
    (hzombie : block.status ≠ .zombie)
    (hpending : block.woken = true → block.pendingWakeup = true) :
    (s.setTask task block).Awake := by
  have hafter := hinv.own_step hclaimed hphase hborn hon (.inl ⟨rfl, hcall, hzombie, hpending⟩)
  have hself : (s.setTask task block).setPhase (.cpu cpu) (.executing task) =
      s.setTask task block := setPhase_eq_self hphase
  rwa [hself] at hafter

theorem Awake.ownStep (step : OwnStep) (hkeeps : s.KeepsWakeups (.own cpu step)) :
    (s.ownStep cpu task step).Awake := by
  have hat := hinv.tasks task
  obtain ⟨hcall, hzombie⟩ := hat.executing (.cpu cpu) (plays_of_phase hphase rfl)
  have hpending : (s.task task).woken = true → (s.task task).pendingWakeup = true := by
    intro hset
    rcases hat.woken hset with hdead | ⟨-, hblocked⟩ | ⟨hpending, -⟩
    · exact absurd hdead hzombie
    · simp [hcall] at hblocked
    · exact hpending
  cases step with
  | yield front =>
    have hunset : (s.task task).woken = false := by
      simpa [KeepsWakeups, Consumed, hphase] using hkeeps
    exact hinv.own_step hclaimed hphase rfl rfl (.inr ⟨rfl, .inr ⟨hunset, .inr ⟨rfl, rfl⟩⟩⟩)
  | stop =>
    have hunset : (s.task task).woken = false := by
      simpa [KeepsWakeups, Consumed, hphase] using hkeeps
    exact hinv.own_step hclaimed hphase rfl rfl (.inr ⟨rfl, .inr ⟨hunset, .inl rfl⟩⟩)
  | exit => exact hinv.own_step hclaimed hphase rfl rfl (.inr ⟨rfl, .inl rfl⟩)
  | markSleep => exact hinv.own_stay hclaimed hphase rfl rfl hcall (by simp) hpending
  | block entry =>
    cases entry with
    | conditionMet => exact hinv.own_stay hclaimed hphase rfl rfl hcall hzombie (by simp)
    | processZombie =>
      exact hinv.own_stay hclaimed hphase rfl rfl hcall (by simp) (by simp)
    | wait =>
      rw [SchedConfig.ownStep, blockStep]
      split
      case isTrue =>
        exact hinv.own_stay hclaimed hphase rfl rfl hcall (by simp) (by simp)
      case isFalse hnone =>
        have hunset : (s.task task).woken = false := by
          by_contra hset
          exact hnone (hpending (by simpa using hset))
        exact hinv.own_step hclaimed hphase rfl rfl (.inr ⟨rfl, .inr ⟨hunset, .inl rfl⟩⟩)

end

/-! ## Waking -/

theorem Awake.wake_step {enqueued : Prop} (hinv : s.Awake) (hchanged : changed.phase = s.phase)
    (htask : changed.task = update s.task task block) (hborn : block.born = true)
    (hrole : (s.phase agent).role = none) (hafter : phase.Names task ∧ phase.Apart)
    (hkeeps : ¬phase.Removing) (henqueued : enqueued →
      (∃ actor, s.Plays actor .enqueuing task) ∨ phase.role = some (.enqueuing, task))
    (hfits : Fits block enqueued fun role => ∃ actor, s.Plays actor role task) :
    (changed.setPhase agent phase).Awake := by
  refine hinv.aside hchanged ?_ (by rw [htask, update_self]) hborn (Phase.aside_of_none hrole)
    hafter hkeeps { hfits with ready := fun hstatus => ?_ }
  · intro other hother
    rw [htask, update_of_ne hother]
  · refine (hfits.ready hstatus).imp_right (.imp_right fun hneeded => ?_)
    refine (henqueued hneeded).imp_left fun ⟨actor, hplays⟩ => ⟨actor, ?_, hplays⟩
    rintro rfl
    rw [Plays, hrole] at hplays
    simp at hplays

omit [DecidableEq τ] in
theorem Claimed.not_dropping
    (hclaimed : s.Claimed) (hreject : ∀ cpu, s.phase (.cpu cpu) ≠ .reject task)
    (actor : Agent cpus helpers) : ¬s.Plays actor .dropping task := by
  intro hplays
  have hheld := claimed_of_plays hplays (by decide) (by decide)
  cases actor with
  | helper index =>
    rw [hclaimed.helpers index] at hheld
    simp at hheld
  | cpu place =>
    rw [Plays] at hplays
    generalize hphase : s.phase (.cpu place) = phase at hplays
    cases phase with
    | reject found =>
      simp only [Phase.role, Option.some.injEq, Prod.mk.injEq, true_and] at hplays
      exact hreject place (hplays ▸ hphase)
    | _ => simp [Phase.role] at hplays

variable {front : Bool}

variable (hinv : s.Awake)
include hinv

theorem Awake.wakeStep (hclaimed : s.Claimed) (hphase : s.phase agent = .wake task front)
    (hsafe : s.WakeSafe task) : (s.wakeStep agent task front target).Awake := by
  have hrole : (s.phase agent).role = none := role_of_phase hphase rfl
  have hat := hinv.tasks task
  rw [SchedConfig.wakeStep]
  simp only
  split
  case isTrue => exact hinv.idle_step rfl hrole.symm rfl rfl id
  case isFalse hzombie =>
    have hborn := hat.born_of_status hzombie
    have hfits := hat.fits
    obtain ⟨hcalled, hreject⟩ := hsafe.resolve_left hzombie
    have hdropping : ¬∃ actor, s.Plays actor .dropping task := by
      rintro ⟨actor, hplays⟩
      exact hclaimed.not_dropping hreject actor hplays
    have hwoken : (s.task task).call = .block ∨ ∃ actor, s.Plays actor .running task := by
      rcases hcalled with hblock | ⟨place, hexecuting⟩
      · exact .inl hblock
      · exact .inr ⟨.cpu place, plays_of_phase hexecuting rfl⟩
    split
    case isTrue =>
      refine hinv.wake_step rfl rfl hborn hrole (Phase.aside_of_none rfl) id .inl
        { hfits with woken := fun hset => ?_ }
      exact (hat.woken hset).imp_right (.imp_right fun hrunning => ⟨rfl, hrunning.2⟩)
    case isFalse =>
      split
      case isTrue hon =>
        cases hstatus : (s.task task).status with
        | zombie => exact absurd hstatus hzombie
        | running =>
          refine hinv.wake_step rfl rfl hborn hrole (Phase.aside_of_none rfl) id .inl
            ⟨by simp, ?_, by simp, fun _ => hat.running hstatus,
              fun hplays => ⟨(hfits.executing hplays).1, by simp⟩,
              fun _ => .inr (.inr ⟨rfl, hat.running hstatus⟩)⟩
          simpa [hstatus] using hfits.leaving
        | blocked | ready | sleep =>
          refine hinv.wake_step rfl rfl hborn hrole (Phase.aside_of_none rfl) id .inl
            ⟨fun _ => .inl hon, fun hplays => ?_, fun hplays => absurd hplays hdropping, by simp,
              fun hplays => ⟨(hfits.executing hplays).1, by simp⟩, fun _ => .inr
                (hwoken.imp (fun hblock => ⟨rfl, hblock⟩) (fun hplays => ⟨rfl, hplays⟩))⟩
          first
            | exact .inr (.inr ⟨rfl, rfl⟩)
            | simpa [hstatus] using hfits.leaving hplays
      case isFalse hoff =>
        have hidle : ∀ {role}, role ≠ .enqueuing → role ≠ .following →
            ¬∃ actor, s.Plays actor role task := by
          rintro role henqueuing hfollowing ⟨actor, hplays⟩
          exact hoff (hclaimed.onCpu_of_plays hplays henqueuing hfollowing)
        have hblock := hwoken.resolve_right (hidle (by decide) (by decide))
        split
        case h_1 hstatus =>
          exact absurd (hat.running hstatus) (hidle (by decide) (by decide))
        case h_2 hstatus =>
          exact hinv.wake_step rfl rfl hborn hrole (Phase.aside_of_role rfl (.inr rfl)) id .inl
            { hfits with woken := fun _ => .inr (.inl ⟨hstatus, hblock⟩) }
        case h_3 =>
          refine hinv.wake_step rfl rfl hborn hrole (Phase.aside_of_role rfl (.inl rfl)) id .inr
            ⟨fun _ => .inr (.inr rfl), ?_, fun hplays => absurd hplays hdropping, by simp,
              ?_, fun _ => .inr (.inl ⟨rfl, hblock⟩)⟩
          · exact fun hplays => absurd hplays (hidle (by decide) (by decide))
          · exact fun hplays => absurd hplays (hidle (by decide) (by decide))

theorem Awake.spawn_step {helper : Fin helpers}
    (hidle : s.phase (.helper helper) = .idle) (hborn : (s.task task).born = false) :
    ((s.setTask task { s.task task with
      status := .ready, born := true }).setPhase (.helper helper)
        (.addCheck ⟨target, task, false, none⟩)).Awake := by
  obtain ⟨-, hunset, -, -, hnobody⟩ := (hinv.tasks task).unborn hborn
  have hrole : (s.phase (.helper helper)).role = none := role_of_phase hidle rfl
  refine hinv.wake_step rfl rfl rfl hrole (Phase.aside_of_role rfl (.inl rfl)) id .inr
    ⟨fun _ => .inr (.inr rfl), ?_, ?_, ?_, ?_, ?_⟩
  · exact fun ⟨actor, hplays⟩ => absurd hplays (hnobody actor .leaving)
  · exact fun ⟨actor, hplays⟩ => absurd hplays (hnobody actor .dropping)
  · simp
  · exact fun ⟨actor, hplays⟩ => absurd hplays (hnobody actor .running)
  · simp [hunset]

omit [DecidableEq τ] in
theorem Awake.not_removing (hphase : s.phase agent = phase) (hremoving : phase.Removing) :
    False :=
  hinv.keeps agent (hphase ▸ hremoving)

theorem Awake.walks {label : SchedStep cpus helpers τ} (hclaimed : s.Claimed)
    (hkeeps : s.KeepsWakeups label) (hwalk : Walks s label s') : s'.Awake := by
  cases hwalk with
  | addReady hphase | enqueueBusy hphase | claimRefused hphase | dispatch hphase
  | wakeUnmarked hphase | fetch hphase | wakeup hphase => exact hinv.idle_step hphase rfl rfl rfl id
  | addRefused hphase hstatus =>
    exact hinv.quit rfl rfl (plays_of_phase hphase rfl) (.inl rfl) rfl id
      fun hready => absurd hready hstatus
  | drop hphase hstatus =>
    rcases hphase with hphase | hphase <;>
      exact hinv.drop hclaimed (claimed_of_phase hphase rfl) (role_of_phase hphase rfl) hstatus
  | run hphase hstatus => exact hinv.run hclaimed hphase hstatus
  | removeGone hphase | removeFound hphase | removeBusy hphase =>
    exact (hinv.not_removing hphase trivial).elim
  | wake hphase =>
    rw [KeepsWakeups, hphase] at hkeeps
    exact hinv.wakeStep hclaimed hphase hkeeps
  | wakeMarked hphase hmarked =>
    exact hinv.quit rfl rfl (plays_of_phase hphase rfl) (.inr rfl) rfl id fun _ => .inr hmarked
  | wakeClaimed hphase hon =>
    exact hinv.quit rfl rfl (plays_of_phase hphase rfl) (.inr rfl) rfl id fun _ => .inl hon
  | wakeAdd hphase =>
    have hplays := plays_of_phase hphase rfl
    exact hinv.move rfl (fun _ _ => rfl) rfl ((hinv.tasks _).born_of_plays hplays)
      (Phase.aside_of_role hplays (.inr rfl)) (Phase.aside_of_role rfl (.inl rfl)) id
      fun _ => .inr (.inr rfl)
  | own hphase => exact hinv.ownStep hclaimed hphase _ hkeeps
  | spawn hidle hborn => exact hinv.spawn_step hidle hborn
  | remove | groupStop | groupContinue => exact hkeeps.elim

theorem Awake.step {label : SchedStep cpus helpers τ}
    (hqueued : s.Queued) (hclaimed : s.Claimed) (hkeeps : s.KeepsWakeups label)
    (hstep : Steps s label s') : s'.Awake := by
  cases hstep with
  | walk hwalk => exact hinv.walks hclaimed hkeeps hwalk
  | adjust =>
    exact ⟨fun task => (hinv.tasks task).frame rfl (fun _ _ => Iff.rfl), hinv.keeps⟩
  | enqueueLock hphase | enqueueFresh hphase | enqueueRoom hphase | enqueueGrow hphase
  | enqueueRetry hphase | enqueueAdd hphase | enqueueCount hphase | claimLock hphase
  | claimDone hphase | claimNone hphase | claimPop hphase | claimLost hphase | claimBack hphase
  | claimCount hphase => exact hinv.idle_step hphase rfl rfl rfl id
  | enqueueMarked hphase hmarked | enqueueLate hphase hmarked =>
    exact hinv.quit rfl rfl (plays_of_phase hphase rfl) (.inl rfl) rfl id fun _ => .inr hmarked
  | enqueueClaimed hphase hon =>
    exact hinv.quit rfl rfl (plays_of_phase hphase rfl) (.inl rfl) rfl id fun _ => .inl hon
  | enqueueMark hphase =>
    have hplays := plays_of_phase hphase rfl
    exact hinv.move rfl task_setTask_of_ne task_setTask_self
      ((hinv.tasks _).born_of_plays hplays) (Phase.aside_of_role hplays (.inl rfl))
      (Phase.aside_of_none rfl) id fun _ => .inr (.inl (by simp))
  | claimMark hphase =>
    have hmarker : (s.task _).readyQueued = some _ := hqueued.marker_of_carrying
      (holds_of_phase hphase rfl) (congrArg Phase.stage hphase)
    exact hinv.move rfl task_setTask_of_ne task_setTask_self
      ((hinv.tasks _).born_of_marker (by simp [hmarker]))
      (Phase.aside_of_none (role_of_phase hphase rfl)) (Phase.aside_of_none rfl) id
      fun _ => .inl (by simp)
  | claimUnqueue hphase =>
    have hon := hclaimed.onCpu_ne_none (claimed_of_phase hphase rfl)
    exact hinv.move rfl task_setTask_of_ne task_setTask_self
      ((hinv.tasks _).born_of_onCpu hon) (Phase.aside_of_none (role_of_phase hphase rfl))
      (Phase.aside_of_none rfl) id fun _ => .inl hon
  | reject hphase =>
    have hplays := plays_of_phase hphase rfl
    exact hinv.shed hclaimed (claimed_of_phase hphase rfl) hplays (by decide)
      ((hinv.tasks _).dropping _ hplays)
  | switchOff hphase hrequeue =>
    have hplays := plays_of_phase hphase rfl
    refine hinv.shed hclaimed (claimed_of_phase hphase rfl) hplays (by decide) fun hready => ?_
    rcases (hinv.tasks _).leaving _ hplays with hzombie | hblocked | ⟨-, hset⟩
    · simp [hready] at hzombie
    · simp [hready] at hblocked
    · exact hrequeue hset
  | switchBack hphase => exact hinv.switchBack hclaimed hphase
  | removeLock hphase | removeTake hphase | removeMoved hphase | removeClear hphase
  | removeCount hphase => exact (hinv.not_removing hphase trivial).elim

end SchedConfig

/-! ## Runs without lost wakeups -/

/-- The task which an agent is about to put into a queue, or has taken out of
its queue for a claim. -/
def Phase.brings : Phase cpus τ → Option τ
  | .addCheck op => some op.task
  | .enqueueTry op => some op.task
  | .enqueueQueued op => some op.task
  | .enqueueOnCpu op => some op.task
  | .enqueueMark op => some op.task
  | .enqueueAdd op => some op.task
  | .claimMark task _ => some task
  | .claimRecheck task _ => some task
  | _ => none

namespace SchedConfig

/-- Nobody will ever run the task without another wake-up. -/
def Stranded (config : SchedConfig cpus helpers τ) (task : τ) : Prop :=
  (∀ cpu, task ∉ (config.manager cpu).tasks) ∧ (config.task task).onCpu = none ∧
    ∀ agent, (config.phase agent).brings ≠ some task

/-- A task which is ready, or which was woken since its last block call
returned, is not stranded. -/
def NoLostWakeup (config : SchedConfig cpus helpers τ) : Prop :=
  ∀ task, (config.task task).status ≠ .zombie → (config.task task).groupStopped = false →
    (config.task task).status = .ready ∨ (config.task task).woken = true → ¬config.Stranded task

variable {config s : SchedConfig cpus helpers τ} {agent : Agent cpus helpers} {task : τ}

theorem brings_of_enqueuing (hplays : s.Plays agent .enqueuing task) :
    (s.phase agent).brings = some task := by
  rw [Plays] at hplays
  cases hphase : s.phase agent with
  | addCheck op | enqueueTry op | enqueueQueued op | enqueueOnCpu op | enqueueMark op =>
    rw [hphase] at hplays
    simpa [Phase.role, Phase.brings] using hplays
  | _ =>
    rw [hphase] at hplays
    simp [Phase.role] at hplays

theorem Queued.not_stranded_of_marker (hqueued : s.Queued) (hclaimed : s.Claimed) (hinv : s.Awake)
    (hmarked : (s.task task).readyQueued ≠ none) : ¬s.Stranded task := by
  rintro ⟨hqueues, hoff, hbrings⟩
  obtain ⟨cpu, hcpu⟩ := Option.ne_none_iff_exists'.mp hmarked
  rcases ((hqueued.agrees cpu).marked task).mp hcpu with hmem | hcarried
  · exact hqueues cpu hmem
  · cases hlock : s.lock cpu with
    | none =>
      rw [stageOf_of_lock_eq_none hlock] at hcarried
      simp [Stage.carried] at hcarried
    | some owner =>
      rw [stageOf_of_lock_eq_some hlock] at hcarried
      cases hphase : s.phase owner with
      | enqueueAdd op | claimMark found left | claimRecheck found left =>
        apply hbrings owner
        rw [hphase] at hcarried ⊢
        exact hcarried
      | claimUnqueue found left =>
        have hheld : (s.phase owner).claimed = some task := by
          rw [hphase] at hcarried ⊢
          exact hcarried
        cases owner with
        | cpu place =>
          rw [← hclaimed.claims, hoff] at hheld
          simp at hheld
        | helper index =>
          rw [hclaimed.helpers index] at hheld
          simp at hheld
      | removeClear op place => exact hinv.keeps owner (hphase ▸ trivial)
      | _ =>
        rw [hphase] at hcarried
        simp [Phase.stage, Stage.carried] at hcarried

theorem Awake.noLostWakeup (hinv : s.Awake) (hqueued : s.Queued)
    (hclaimed : s.Claimed) : s.NoLostWakeup := by
  intro task hzombie _ hwaiting
  have hat := hinv.tasks task
  have hready : (s.task task).status = .ready → ¬s.Stranded task := by
    intro hstatus hstranded
    rcases hat.ready hstatus with hon | hmarked | ⟨actor, hplays⟩
    · exact hon hstranded.2.1
    · exact hqueued.not_stranded_of_marker hclaimed hinv hmarked hstranded
    · exact hstranded.2.2 actor (brings_of_enqueuing hplays)
  rcases hwaiting with hstatus | hwoken
  · exact hready hstatus
  · rcases hat.woken hwoken with hdead | ⟨hstatus, -⟩ | ⟨-, actor, hplays⟩
    · exact absurd hdead hzombie
    · exact hready hstatus
    · exact fun hstranded =>
        hclaimed.onCpu_of_plays hplays (by decide) (by decide) hstranded.2.1

theorem awake_boot : (boot cpus helpers τ).Awake where
  tasks := by
    intro task
    constructor <;> simp [boot, Plays, Phase.role]
  keeps := fun _ hremoving => hremoving

variable [DecidableEq τ]

/-- In every run whose steps keep wake-ups, no wake-up is lost. -/
theorem noLostWakeup_of_reachable
    (hreach : Reachable next KeepsWakeups (boot cpus helpers τ) config) : config.NoLostWakeup := by
  have hinv : config.Awake := by
    induction hreach with
    | start => exact awake_boot
    | step label hreach hkeeps hnext ih =>
      have hsound := steady_of_reachable hreach
      exact ih.step hsound.toQueued hsound.toClaimed hkeeps (hsound.steps hnext)
  have hsound := steady_of_reachable hreach
  exact hinv.noLostWakeup hsound.toQueued hsound.toClaimed

instance (config : SchedConfig cpus helpers τ) (task : τ) :
    Decidable (config.WakeSafe task) := by
  unfold WakeSafe
  infer_instance

instance (config : SchedConfig cpus helpers τ) (cpu : Fin cpus) :
    Decidable (config.Consumed cpu) := by
  unfold Consumed
  cases config.phase (.cpu cpu) <;> infer_instance

instance decidableWakes (config : SchedConfig cpus helpers τ) (phase : Phase cpus τ) :
    Decidable (match phase with
      | .wake task _ => config.WakeSafe task
      | _ => True) := by
  cases phase <;> infer_instance

instance (config : SchedConfig cpus helpers τ) : ∀ step, Decidable (config.KeepsWakeups step)
  | .advance agent _ _ => config.decidableWakes (config.phase agent)
  | .own _ step => by
    unfold KeepsWakeups
    cases step <;> infer_instance
  | .remove .. | .groupStop .. | .groupContinue .. => instDecidableFalse
  | .fetch _ | .spawn .. | .wakeup .. | .adjust .. => instDecidableTrue

def startedRun : List (SchedStep 1 1 Unit) :=
  [.spawn i₀ () i₀] ++ List.replicate 10 (.advance (.helper i₀) i₀ false) ++ [.fetch i₀] ++
    List.replicate 7 (.advance (.cpu i₀) i₀ false)

/-- A wake-up finds the task blocked and still on its CPU; the switch completion
requeues it. -/
theorem noLostWakeup_after_blocking :
    ∃ config, Reachable next KeepsWakeups (boot 1 1 Unit) config ∧ config.NoLostWakeup ∧
      (config.task ()).woken = true ∧ (config.task ()).onCpu = none := by
  refine (exists_reachable_of_runSteps (startedRun ++ [.own 0 (.block .wait), .wakeup 0 () false,
    .advance (.helper 0) 0 false, .advance (.cpu 0) 0 false]) ?_).imp fun config ⟨hreach, hwoken⟩ =>
      ⟨hreach, noLostWakeup_of_reachable hreach, hwoken⟩
  decide +kernel

/-- A wake-up finds the task running; the task yields, runs again and blocks. -/
def lostRun : List (SchedStep 1 1 Unit) :=
  startedRun ++ [.wakeup i₀ () false, .advance (.helper i₀) i₀ false, .own i₀ (.yield false)] ++
    List.replicate 8 (.advance (.cpu i₀) i₀ false) ++ [.fetch i₀] ++
    List.replicate 7 (.advance (.cpu i₀) i₀ false) ++
    [.own i₀ (.block .wait), .advance (.cpu i₀) i₀ false]

theorem not_noLostWakeup_of_lostRun :
    ¬ ∀ config, Reachable next always (boot 1 1 Unit) config → config.NoLostWakeup := by
  intro hkept
  obtain ⟨config, hreach, hstatus, hgroup, hwoken, hstranded⟩ :
      ∃ config, Reachable next always (boot 1 1 Unit) config ∧
        (config.task ()).status = .blocked ∧ (config.task ()).groupStopped = false ∧
        (config.task ()).woken = true ∧ (∀ cpu, () ∉ (config.manager cpu).tasks) ∧
        (config.task ()).onCpu = none ∧ ∀ agent, (config.phase agent).brings ≠ some () :=
    exists_reachable_of_runSteps lostRun (by decide +kernel)
  exact hkept config hreach () (by simp [hstatus]) hgroup (.inr hwoken) hstranded

end SchedConfig

end Kairix.Sched
