import Kairix.SchedulerQueueSteps

/-!
# Wake-ups

For every task the invariant says that a ready task is marked or about to be
marked by some agent, and that a wake-up which the task has not consumed is
remembered: by its status while it sleeps in a block call, by `pending_wakeup`
while it runs.  A step names at most one task, so the invariant is kept task by
task.
-/

namespace Kairix.Sched

variable {cpus helpers : ℕ} {τ : Type*}

inductive Role where
  | enqueuing
  | following
  | running
  | leaving
  | dropping
  deriving DecidableEq, Repr

namespace Phase

def role : Phase cpus τ → Option (Role × τ)
  | .addCheck op => some (.enqueuing, op.task)
  | .enqueueTry op => some (.enqueuing, op.task)
  | .enqueueQueued op => some (.enqueuing, op.task)
  | .enqueueOnCpu op => some (.enqueuing, op.task)
  | .enqueueMark op => some (.enqueuing, op.task)
  | .wakeQueued task _ => some (.following, task)
  | .wakeOnCpu task _ => some (.following, task)
  | .executing task => some (.running, task)
  | .switching task => some (.leaving, task)
  | .reject task => some (.dropping, task)
  | _ => none

def Names (phase : Phase cpus τ) (task : τ) : Prop :=
  ∀ role other, phase.role = some (role, other) → other = task

def Apart (phase : Phase cpus τ) : Prop :=
  ∀ role other, phase.role = some (role, other) → role = .enqueuing ∨ role = .following

variable {phase : Phase cpus τ} {task : τ}

theorem names_of_role {role : Role} (hrole : phase.role = some (role, task)) :
    phase.Names task := by
  intro found other hfound
  rw [hrole, Option.some.injEq, Prod.mk.injEq] at hfound
  exact hfound.2.symm

theorem names_of_none (hrole : phase.role = none) : phase.Names task := by
  intro found other hfound
  rw [hrole] at hfound
  simp at hfound

theorem apart_of_none (hrole : phase.role = none) : phase.Apart := by
  intro found other hfound
  rw [hrole] at hfound
  simp at hfound

theorem apart_of_role {role : Role} (hrole : phase.role = some (role, task))
    (hapart : role = .enqueuing ∨ role = .following) : phase.Apart := by
  intro found other hfound
  rw [hrole, Option.some.injEq, Prod.mk.injEq] at hfound
  rwa [← hfound.1]

theorem aside_of_none (hrole : phase.role = none) : phase.Names task ∧ phase.Apart :=
  ⟨names_of_none hrole, apart_of_none hrole⟩

theorem aside_of_role {role : Role} (hrole : phase.role = some (role, task))
    (hapart : role = .enqueuing ∨ role = .following) : phase.Names task ∧ phase.Apart :=
  ⟨names_of_role hrole, apart_of_role hrole hapart⟩

def Removing : Phase cpus τ → Prop
  | .removeLoad _ => True
  | .removeTry _ _ => True
  | .removeCheck _ _ => True
  | .removeClear _ _ => True
  | .removeClearStale _ _ => True
  | .removeStore _ _ => True
  | .removeCount _ _ => True
  | _ => False

end Phase

namespace SchedConfig

def Plays (s : SchedConfig cpus helpers τ) (agent : Agent cpus helpers) (role : Role)
    (task : τ) : Prop :=
  (s.phase agent).role = some (role, task)

@[mk_iff] structure AwakeAt (config : SchedConfig cpus helpers τ) (task : τ) : Prop where
  ready : (config.task task).status = .ready → (config.task task).onCpu ≠ none ∨
    (config.task task).readyQueued ≠ none ∨ ∃ agent, config.Plays agent .enqueuing task
  leaving : ∀ agent, config.Plays agent .leaving task →
    (config.task task).status = .zombie ∨ (config.task task).status = .blocked ∨
      (config.task task).status = .ready ∧ (config.task task).requeueAfterSwitch = true
  dropping : ∀ agent, config.Plays agent .dropping task → (config.task task).status ≠ .ready
  running : (config.task task).status = .running → ∃ agent, config.Plays agent .running task
  executing : ∀ agent, config.Plays agent .running task →
    (config.task task).call = .executing ∧ (config.task task).status ≠ .zombie
  woken : (config.task task).woken = true → (config.task task).status = .zombie ∨
    (config.task task).status = .ready ∧ (config.task task).call = .block ∨
      (config.task task).pendingWakeup = true ∧ ∃ agent, config.Plays agent .running task
  unborn : (config.task task).born = false → (config.task task).status = .zombie ∧
    (config.task task).woken = false ∧ (config.task task).onCpu = none ∧
      (config.task task).readyQueued = none ∧ ∀ agent role, ¬config.Plays agent role task

structure Awake (s : SchedConfig cpus helpers τ) : Prop where
  tasks : ∀ task, s.AwakeAt task
  keeps : ∀ agent, ¬(s.phase agent).Removing

variable {s s' changed : SchedConfig cpus helpers τ}
variable {agent : Agent cpus helpers} {phase : Phase cpus τ} {cpu : Fin cpus} {task : τ}

variable {role : Role}

theorem plays_of_phase (hphase : s.phase agent = phase)
    (hrole : phase.role = some (role, task)) : s.Plays agent role task := by
  rwa [Plays, hphase]

theorem plays_setPhase_other (hchanged : changed.phase = s.phase)
    {other : Agent cpus helpers} (hother : other ≠ agent) :
    (changed.setPhase agent phase).Plays other role task ↔ s.Plays other role task := by
  rw [Plays, setPhase_other hchanged other hother, Plays]

theorem plays_setPhase_self :
    (changed.setPhase agent phase).Plays agent role task ↔ phase.role = some (role, task) := by
  rw [Plays, setPhase_self]

theorem claimed_of_plays (hplays : s.Plays agent role task) (henqueuing : role ≠ .enqueuing)
    (hfollowing : role ≠ .following) : (s.phase agent).claimed = some task := by
  rw [Plays] at hplays
  generalize s.phase agent = phase at hplays
  cases phase with
  | executing found | switching found | reject found =>
    simp only [Phase.role, Option.some.injEq, Prod.mk.injEq] at hplays
    rw [Phase.claimed, hplays.2]
  | _ => simp [Phase.role, Ne.symm henqueuing, Ne.symm hfollowing] at hplays

theorem Claimed.agent_eq (hclaimed : s.Claimed) {other : Agent cpus helpers}
    (hother : (s.phase other).claimed = some task)
    (hcpu : (s.phase (.cpu cpu)).claimed = some task) : other = .cpu cpu := by
  cases other with
  | helper index =>
    rw [hclaimed.helpers index] at hother
    simp at hother
  | cpu place =>
    rw [← hclaimed.claims] at hother hcpu
    rw [Option.some.inj (hother.symm.trans hcpu)]

theorem Claimed.onCpu_ne_none (hclaimed : s.Claimed)
    (hheld : (s.phase (.cpu cpu)).claimed = some task) : (s.task task).onCpu ≠ none := by
  rw [(hclaimed.claims task cpu).mpr hheld]
  simp

theorem Claimed.onCpu_of_plays (hclaimed : s.Claimed) (hplays : s.Plays agent role task)
    (henqueuing : role ≠ .enqueuing) (hfollowing : role ≠ .following) :
    (s.task task).onCpu ≠ none := by
  have hheld := claimed_of_plays hplays henqueuing hfollowing
  cases agent with
  | helper index =>
    rw [hclaimed.helpers index] at hheld
    simp at hheld
  | cpu place => exact hclaimed.onCpu_ne_none hheld

theorem Claimed.role_of_running
    (hclaimed : s.Claimed) (hheld : (s.phase (.cpu cpu)).claimed = some task)
    (hplays : s.Plays agent .running task) :
    (s.phase (.cpu cpu)).role = some (.running, task) := by
  have hagent := hclaimed.agent_eq (claimed_of_plays hplays (by decide) (by decide)) hheld
  rwa [hagent] at hplays

theorem AwakeAt.frame (hinv : s.AwakeAt task) (hblock : s'.task task = s.task task)
    (hplays : ∀ agent role, s'.Plays agent role task ↔ s.Plays agent role task) :
    s'.AwakeAt task := by
  rw [awakeAt_iff] at hinv ⊢
  simpa only [hblock, hplays] using hinv

theorem Awake.keeps_setPhase (hinv : s.Awake) (hchanged : changed.phase = s.phase)
    (hkeeps : ¬phase.Removing) (other : Agent cpus helpers) :
    ¬((changed.setPhase agent phase).phase other).Removing := by
  by_cases hother : other = agent
  · rw [hother, setPhase_self]
    exact hkeeps
  · rw [setPhase_other hchanged other hother]
    exact hinv.keeps other

/-- What a block says of its task when somebody is about to enqueue the task
and `plays` tells which other roles are played for it. -/
structure Fits (block : TaskBlock cpus) (enqueued : Prop) (plays : Role → Prop) : Prop where
  ready : block.status = .ready → block.onCpu ≠ none ∨ block.readyQueued ≠ none ∨ enqueued
  leaving : plays .leaving → block.status = .zombie ∨ block.status = .blocked ∨
    block.status = .ready ∧ block.requeueAfterSwitch = true
  dropping : plays .dropping → block.status ≠ .ready
  running : block.status = .running → plays .running
  executing : plays .running → block.call = .executing ∧ block.status ≠ .zombie
  woken : block.woken = true → block.status = .zombie ∨
    block.status = .ready ∧ block.call = .block ∨ block.pendingWakeup = true ∧ plays .running

variable {block : TaskBlock cpus}

theorem AwakeAt.fits (hinv : s.AwakeAt task) :
    Fits (s.task task) (∃ agent, s.Plays agent .enqueuing task)
      fun role => ∃ agent, s.Plays agent role task where
  ready := hinv.ready
  leaving := fun ⟨agent, hplays⟩ => hinv.leaving agent hplays
  dropping := fun ⟨agent, hplays⟩ => hinv.dropping agent hplays
  running := hinv.running
  executing := fun ⟨agent, hplays⟩ => hinv.executing agent hplays
  woken := hinv.woken

theorem Awake.step_at {enqueued : Prop} {plays : Role → Prop} (hinv : s.Awake)
    (hchanged : changed.phase = s.phase)
    (htask : ∀ other, other ≠ task → changed.task other = s.task other)
    (hblock : changed.task task = block) (hbefore : (s.phase agent).Names task)
    (hafter : phase.Names task) (hkeeps : ¬phase.Removing) (hborn : block.born = true)
    (henqueued : enqueued → ∃ actor, (changed.setPhase agent phase).Plays actor .enqueuing task)
    (hplays : ∀ role, role ≠ .enqueuing → role ≠ .following →
      ((∃ actor, (changed.setPhase agent phase).Plays actor role task) ↔ plays role))
    (hfits : Fits block enqueued plays) : (changed.setPhase agent phase).Awake := by
  refine ⟨fun other => ?_, hinv.keeps_setPhase hchanged hkeeps⟩
  by_cases hother : other = task
  · subst hother hblock
    have hleaving := hplays .leaving (by decide) (by decide)
    have hdropping := hplays .dropping (by decide) (by decide)
    have hrunning := hplays .running (by decide) (by decide)
    constructor
    case ready => exact fun hstatus => (hfits.ready hstatus).imp_right (.imp_right henqueued)
    case leaving => exact fun actor hactor => hfits.leaving (hleaving.mp ⟨actor, hactor⟩)
    case dropping => exact fun actor hactor => hfits.dropping (hdropping.mp ⟨actor, hactor⟩)
    case running => exact fun hstatus => hrunning.mpr (hfits.running hstatus)
    case executing => exact fun actor hactor => hfits.executing (hrunning.mp ⟨actor, hactor⟩)
    case woken =>
      exact fun hset => (hfits.woken hset).imp_right (.imp_right (.imp_right hrunning.mpr))
    case unborn => exact fun hunborn => absurd (hborn.symm.trans hunborn) (by simp)
  · refine (hinv.tasks other).frame (htask other hother) ?_
    intro actor role
    by_cases hactor : actor = agent
    · subst actor
      rw [plays_setPhase_self]
      constructor
      · exact fun hrole => absurd (hafter role other hrole) hother
      · exact fun hrole => absurd (hbefore role other hrole) hother
    · exact plays_setPhase_other hchanged hactor

theorem Awake.idle_step {before : Phase cpus τ} (hinv : s.Awake)
    (hphase : s.phase agent = before) (hrole : phase.role = before.role)
    (hchanged : changed.phase = s.phase) (htask : changed.task = s.task)
    (hkeeps : ¬phase.Removing) : (changed.setPhase agent phase).Awake := by
  subst hphase
  refine ⟨fun task => ?_, hinv.keeps_setPhase hchanged hkeeps⟩
  refine (hinv.tasks task).frame (congrFun htask task) ?_
  intro actor role
  by_cases hactor : actor = agent
  · subst actor
    rw [plays_setPhase_self, hrole, Plays]
  · exact plays_setPhase_other hchanged hactor

section

variable (hinv : s.AwakeAt task)
include hinv

theorem AwakeAt.born_of_plays (hplays : s.Plays agent role task) : (s.task task).born = true := by
  by_contra hborn
  exact (hinv.unborn (by simpa using hborn)).2.2.2.2 agent role hplays

theorem AwakeAt.born_of_status (hstatus : (s.task task).status ≠ .zombie) :
    (s.task task).born = true := by
  by_contra hborn
  exact hstatus (hinv.unborn (by simpa using hborn)).1

theorem AwakeAt.born_of_onCpu (hon : (s.task task).onCpu ≠ none) : (s.task task).born = true := by
  by_contra hborn
  exact hon (hinv.unborn (by simpa using hborn)).2.2.1

theorem AwakeAt.born_of_marker (hmarked : (s.task task).readyQueued ≠ none) :
    (s.task task).born = true := by
  by_contra hborn
  exact hmarked (hinv.unborn (by simpa using hborn)).2.2.2.1

end

/-! ## The task which a step names -/

theorem plays_steady (hchanged : changed.phase = s.phase) (hbefore : (s.phase agent).Apart)
    (hafter : phase.Apart) (henqueuing : role ≠ .enqueuing) (hfollowing : role ≠ .following)
    (actor : Agent cpus helpers) :
    (changed.setPhase agent phase).Plays actor role task ↔ s.Plays actor role task := by
  by_cases hactor : actor = agent
  · subst actor
    rw [plays_setPhase_self]
    constructor
    · intro hrole
      rcases hafter role task hrole with heq | heq
      · exact absurd heq henqueuing
      · exact absurd heq hfollowing
    · intro hrole
      rcases hbefore role task hrole with heq | heq
      · exact absurd heq henqueuing
      · exact absurd heq hfollowing
  · exact plays_setPhase_other hchanged hactor

theorem Awake.aside (hinv : s.Awake) (hchanged : changed.phase = s.phase)
    (htask : ∀ other, other ≠ task → changed.task other = s.task other)
    (hblock : changed.task task = block) (hborn : block.born = true)
    (hbefore : (s.phase agent).Names task ∧ (s.phase agent).Apart)
    (hafter : phase.Names task ∧ phase.Apart) (hkeeps : ¬phase.Removing)
    (hfits : Fits block ((∃ actor, actor ≠ agent ∧ s.Plays actor .enqueuing task) ∨
        phase.role = some (.enqueuing, task)) fun role => ∃ actor, s.Plays actor role task) :
    (changed.setPhase agent phase).Awake := by
  refine hinv.step_at hchanged htask hblock hbefore.1 hafter.1 hkeeps hborn ?_
    (fun role henqueuing hfollowing => exists_congr
      (plays_steady hchanged hbefore.2 hafter.2 henqueuing hfollowing)) hfits
  rintro (⟨actor, hactor, hplays⟩ | hrole)
  · exact ⟨actor, (plays_setPhase_other hchanged hactor).mpr hplays⟩
  · exact ⟨agent, plays_setPhase_self.mpr hrole⟩

theorem Awake.move {onCpu readyQueued : Option (Fin cpus)} (hinv : s.Awake)
    (hchanged : changed.phase = s.phase)
    (htask : ∀ other, other ≠ task → changed.task other = s.task other)
    (hblock : changed.task task = { s.task task with onCpu := onCpu, readyQueued := readyQueued })
    (hborn : (s.task task).born = true)
    (hbefore : (s.phase agent).Names task ∧ (s.phase agent).Apart)
    (hafter : phase.Names task ∧ phase.Apart) (hkeeps : ¬phase.Removing)
    (hready : (s.task task).status = .ready → onCpu ≠ none ∨ readyQueued ≠ none ∨
      phase.role = some (.enqueuing, task)) :
    (changed.setPhase agent phase).Awake := by
  have hfits := (hinv.tasks task).fits
  exact hinv.aside hchanged htask hblock hborn hbefore hafter hkeeps
    { hfits with ready := fun hstatus => (hready hstatus).imp_right (.imp_right .inr) }

theorem Awake.own (hinv : s.Awake) (hclaimed : s.Claimed)
    (hheld : (s.phase (.cpu cpu)).claimed = some task)
    (hchanged : changed.phase = s.phase)
    (htask : ∀ other, other ≠ task → changed.task other = s.task other)
    (hblock : changed.task task = block) (hbefore : (s.phase (.cpu cpu)).Names task)
    (hafter : phase.Names task) (hkeeps : ¬phase.Removing) (hborn : block.born = true)
    (hfits : Fits block (phase.role = some (.enqueuing, task))
      fun role => phase.role = some (role, task)) :
    (changed.setPhase (.cpu cpu) phase).Awake := by
  have hself : ∀ {role}, phase.role = some (role, task) →
      ∃ actor, (changed.setPhase (.cpu cpu) phase).Plays actor role task :=
    fun hrole => ⟨.cpu cpu, plays_setPhase_self.mpr hrole⟩
  refine hinv.step_at hchanged htask hblock hbefore hafter hkeeps hborn hself ?_ hfits
  refine fun role henqueuing hfollowing => ⟨fun ⟨actor, hplays⟩ => ?_, hself⟩
  by_cases hactor : actor = .cpu cpu
  · subst actor
    exact plays_setPhase_self.mp hplays
  · rw [plays_setPhase_other hchanged hactor] at hplays
    exact absurd (hclaimed.agent_eq (claimed_of_plays hplays henqueuing hfollowing) hheld) hactor

theorem AwakeAt.of_not_running (hinv : s.AwakeAt task) (hclaimed : s.Claimed)
    (hheld : (s.phase (.cpu cpu)).claimed = some task)
    (hrole : (s.phase (.cpu cpu)).role ≠ some (.running, task)) :
    (s.task task).status ≠ .running ∧ ((s.task task).woken = true → (s.task task).status = .zombie ∨
        (s.task task).status = .ready ∧ (s.task task).call = .block) := by
  constructor
  · intro hstatus
    obtain ⟨actor, hplays⟩ := hinv.running hstatus
    exact hrole (hclaimed.role_of_running hheld hplays)
  · intro hwoken
    rcases hinv.woken hwoken with hzombie | hblocked | ⟨-, actor, hplays⟩
    · exact .inl hzombie
    · exact .inr hblocked
    · exact absurd (hclaimed.role_of_running hheld hplays) hrole

end SchedConfig

end Kairix.Sched
