import Kairix.ExclusiveHoldings
import Kairix.TaskIds

/-!
# Ownership of ids

Every id in use is owned by the handle of one process, by one thread which is not the
leader, or by the one operation which is about to give it back.  The lemmas say what
keeps this: one task goes on, a task is handed over to the thread that removes it, the
table changes, ids are taken and given back.
-/

namespace Kairix.TaskIds

open LabelledRun ExclusiveHoldings RecyclingIds

variable {π τ : Type*}

inductive Kind where
  | unborn
  | embryo
  | active
  | exiting (auto : Bool)
  | retained
  | removed
  | dropped
  deriving DecidableEq

def Stage.kind : Stage π τ → Kind
  | .unborn => .unborn
  | .embryo _ => .embryo
  | .exiting _ auto => .exiting auto
  | .counted _ auto _ => .exiting auto
  | .retained => .retained
  | .leaving _ => .removed
  | .removed => .removed
  | .dropped => .dropped
  | _ => .active

/-- The thread has not been taken out of the list of its process. -/
def Kind.owns : Kind → Bool
  | .embryo => true
  | .active => true
  | .exiting _ => true
  | .retained => true
  | _ => false

def Kind.Present (kind : Kind) : Prop := kind ≠ .unborn ∧ kind ≠ .dropped

theorem Kind.present_of_owns {kind : Kind} (howns : kind.owns = true) : kind.Present := by
  constructor <;> rintro rfl <;> simp [Kind.owns] at howns

def Op.pending : Op τ → Option ℕ
  | .discard id => some id
  | .free id => some id
  | _ => none

def Process.life (process : Process τ) : Bool × ℕ × Bool :=
  (process.born, process.pid, process.released)

theorem Process.life_eq {process s' : Process τ} (hlife : s'.life = process.life) :
    s'.born = process.born ∧ s'.pid = process.pid ∧ s'.released = process.released := by
  simpa [life] using hlife

namespace Task

def kind (task : Task π τ) : Kind := task.stage.kind

def holds (task : Task π τ) : List ℕ :=
  (if task.kind.owns = true ∧ task.tid ≠ 0 then [task.globalTid] else []) ++
    task.todo.filterMap Op.pending

end Task

namespace IdConfig

def holdings (config : IdConfig π τ) : π ⊕ τ → List ℕ
  | .inl target =>
    if (config.process target).born = true ∧ (config.process target).released = false then
      [(config.process target).pid]
    else []
  | .inr target => (config.task target).holds

def Unlinked (s : IdConfig π τ) (id : ℕ) : Prop :=
  ∀ target, s.table id = some target → (s.task target).kind = .dropped

def Backed (s : IdConfig π τ) (id : ℕ) (target : τ) : Prop :=
  ((s.task target).tid = 0 ∧ id = (s.task target).globalTid) ∨
    ((s.task target).tid ≠ 0 ∧ (s.task target).kind.owns = true ∧
      id = (s.task target).globalTid) ∨
    ((id = (s.task target).globalTid ∨ (s.task target).tid = 0) ∧
      ∃ agent, .discard id ∈ (s.task agent).todo)

structure Reaps (s : IdConfig π τ) (agent : τ) (child : π) (remaining : List τ) : Prop where
  reaped : (s.process child).reaped = true
  born : (s.process child).born = true
  unreleased : (s.process child).released = false
  unlisted : (s.process child).tasks = []
  nodup : remaining.Nodup
  retained : ∀ target ∈ remaining, (s.task target).kind = .retained ∧
    (s.task target).home = child
  all : ∀ target, (s.task target).home = child → (s.task target).kind ≠ .unborn →
    (s.task target).kind = .dropped ∨ target ∈ remaining ∨
      .drop target ∈ (s.task agent).todo

structure Books (s : IdConfig π τ) : Prop where
  intact : s.crashed = false
  wellFormed : s.ids.WellFormed
  positive : ∀ id, id ∈ s.ids.recycled ∨ id = s.ids.current → 1 ≤ id
  exclusive : Exclusive s.holdings
  covers : held s.holdings = {id | 1 ≤ id ∧ s.ids.Allocated id}

structure TaskOk (s : IdConfig π τ) (target : τ) (task : Task π τ) : Prop where
  inList : task.kind = .active ∨ (∃ auto, task.kind = .exiting auto) ∨
    (task.kind = .embryo ∧ task.tid = 0) → target ∈ (s.process task.home).tasks
  leader : task.kind.Present → task.tid = 0 → task.globalTid = (s.process task.home).pid
  busy : task.todo ≠ [] →
    task.kind = .active ∨ (∃ auto, task.kind = .exiting auto) ∨ task.kind = .removed
  idle : task.stage = .removed → task.todo = []
  frees : ∀ id, .free id ∈ task.todo → s.Unlinked id
  autos : task.kind = .exiting true → task.tid ≠ 0 ∧
    (.unlink task.globalTid ∈ task.todo ∨ s.Unlinked task.globalTid)
  links : ∀ id, .link id ∈ task.todo →
    task.kind = .active ∧ task.tid = 0 ∧ id = task.globalTid
  drops : ∀ other, .drop other ∈ task.todo →
    (s.task other).stage = .removed ∨ (s.task other).stage = .dropped
  alive : task.kind.Present → (s.process task.home).born = true ∧
    (s.process task.home).released = false
  waits : ∀ other, task.stage = .waitChecking other ∨ (∃ id, task.stage = .waitRemoving other id) →
    (s.task other).home = task.home ∧ (s.task other).kind ≠ .unborn
  waitIds : ∀ other id, task.stage = .waitRemoving other id → (s.task other).globalTid = id

structure Core (s : IdConfig π τ) : Prop extends Books s where
  listNodup : ∀ owner, (s.process owner).tasks.Nodup
  listed : ∀ owner, ∀ target ∈ (s.process owner).tasks,
    (s.task target).home = owner ∧ (s.task target).kind.owns = true
  slots : ∀ owner, ∀ target ∈ (s.process owner).tasks,
    ∀ other ∈ (s.process owner).tasks,
      (s.task target).tid = (s.task other).tid → target = other
  retained : ∀ target, (s.task target).kind = .retained →
    target ∈ (s.process (s.task target).home).tasks ∨
      ∃ agent remaining, (s.task agent).stage =
        .reaping (s.task target).home remaining ∧ target ∈ remaining
  linked : ∀ id target, s.table id = some target → (s.task target).kind ≠ .dropped →
    (s.task target).kind ≠ .unborn ∧ s.Backed id target
  reaping : ∀ agent child remaining, (s.task agent).stage = .reaping child remaining →
    s.Reaps agent child remaining
  reaped : ∀ owner, (s.process owner).released = true → (s.process owner).reaped = true
  reapers : ∀ agent other child first second, (s.task agent).stage = .reaping child first →
    (s.task other).stage = .reaping child second → agent = other

structure Inv (s : IdConfig π τ) : Prop extends Core s where
  ok : ∀ target, s.TaskOk target (s.task target)

theorem TaskOk.of_idle {s : IdConfig π τ} {target : τ} {task : Task π τ}
    (htodo : task.todo = []) (hauto : task.kind ≠ .exiting true)
    (hchecks : ∀ other, task.stage ≠ .waitChecking other)
    (hremoves : ∀ other id, task.stage ≠ .waitRemoving other id)
    (hlist : task.kind = .active ∨ (∃ auto, task.kind = .exiting auto) ∨
      (task.kind = .embryo ∧ task.tid = 0) → target ∈ (s.process task.home).tasks)
    (hleader : task.kind.Present → task.tid = 0 → task.globalTid = (s.process task.home).pid)
    (halive : task.kind.Present → (s.process task.home).born = true ∧
      (s.process task.home).released = false) : s.TaskOk target task where
  inList := hlist
  leader := hleader
  busy h := absurd htodo h
  idle _ := htodo
  frees id h := by simp [htodo] at h
  autos h := absurd h hauto
  links id h := by simp [htodo] at h
  drops other h := by simp [htodo] at h
  alive := halive
  waits other h := by
    rcases h with h | ⟨id, h⟩
    · exact absurd h (hchecks other)
    · exact absurd h (hremoves other id)
  waitIds other id h := absurd h (hremoves other id)

/-- The rest of the system moves forward as far as a task relies on it. -/
structure Carries (s s' : IdConfig π τ) : Prop where
  processes : ∀ owner, (s'.process owner).life = (s.process owner).life
  unlinked : ∀ id, s.Unlinked id → s'.Unlinked id
  gone : ∀ other, (s.task other).stage = .removed ∨ (s.task other).stage = .dropped →
    (s'.task other).stage = .removed ∨ (s'.task other).stage = .dropped
  known : ∀ other, (s.task other).kind ≠ .unborn →
    (s'.task other).home = (s.task other).home ∧ (s'.task other).kind ≠ .unborn

theorem TaskOk.mono {s s' : IdConfig π τ} {target : τ} {task : Task π τ}
    (hok : s.TaskOk target task) (hcarries : Carries s s')
    (hlist : task.kind ≠ .retained → target ∈ (s.process task.home).tasks →
      target ∈ (s'.process task.home).tasks)
    (hids : ∀ other id, task.stage = .waitRemoving other id →
      (s'.task other).globalTid = (s.task other).globalTid) :
    s'.TaskOk target task where
  inList hkind := by
    refine hlist (fun hretained => ?_) (hok.inList hkind)
    simp [hretained] at hkind
  leader hpresent htid := by
    rw [(Process.life_eq (hcarries.processes _)).2.1]
    exact hok.leader hpresent htid
  busy := hok.busy
  idle := hok.idle
  frees id hmem := hcarries.unlinked id (hok.frees id hmem)
  autos hkind := (hok.autos hkind).imp_right (Or.imp_right (hcarries.unlinked _))
  links := hok.links
  drops other hmem := hcarries.gone other (hok.drops other hmem)
  alive hpresent := by
    obtain ⟨hborn, -, hreleased⟩ := Process.life_eq (hcarries.processes task.home)
    rw [hborn, hreleased]
    exact hok.alive hpresent
  waits other hstage := by
    obtain ⟨hhome, hkind⟩ := hok.waits other hstage
    obtain ⟨hsame, hborn⟩ := hcarries.known other hkind
    exact ⟨hsame.trans hhome, hborn⟩
  waitIds other id hstage := (hids other id hstage).trans (hok.waitIds other id hstage)

/-- A reaper stands when its process and the tasks of its process stay as they are. -/
theorem Reaps.mono {s s' : IdConfig π τ} {agent : τ} {child : π} {remaining : List τ}
    (hreaps : s.Reaps agent child remaining)
    (hlife : (s'.process child).life = (s.process child).life)
    (hreaped : (s'.process child).reaped = (s.process child).reaped)
    (hlist : (s'.process child).tasks = (s.process child).tasks)
    (htasks : ∀ target, (s'.task target).home = child ∨ target ∈ remaining →
      (s'.task target).home = (s.task target).home ∧ (s'.task target).kind = (s.task target).kind)
    (htodo : (s'.task agent).todo = (s.task agent).todo) :
    s'.Reaps agent child remaining where
  reaped := hreaped.trans hreaps.reaped
  born := (Process.life_eq hlife).1.trans hreaps.born
  unreleased := (Process.life_eq hlife).2.2.trans hreaps.unreleased
  unlisted := hlist.trans hreaps.unlisted
  nodup := hreaps.nodup
  retained target hmem := by
    obtain ⟨hretained, hhome⟩ := hreaps.retained target hmem
    obtain ⟨hsame, hkind⟩ := htasks target (.inr hmem)
    exact ⟨hkind.trans hretained, hsame.trans hhome⟩
  all target hhome hborn := by
    obtain ⟨hsame, hkind⟩ := htasks target (.inl hhome)
    rw [hkind] at hborn ⊢
    rw [htodo]
    exact hreaps.all target (hsame.symm.trans hhome) hborn

section Updates

variable [DecidableEq τ]

@[simp] theorem setTask_self (s : IdConfig π τ) (target : τ) (task : Task π τ) :
    (s.setTask target task).task target = task := by
  simp [setTask]

theorem setTask_ne (s : IdConfig π τ) {target other : τ} (hne : other ≠ target)
    (task : Task π τ) : (s.setTask target task).task other = s.task other := by
  simp [setTask, hne]

@[simp] theorem setTask_process (s : IdConfig π τ) (target : τ) (task : Task π τ) :
    (s.setTask target task).process = s.process := rfl

variable [DecidableEq π]

omit [DecidableEq τ] in
@[simp] theorem setProcess_self (s : IdConfig π τ) (target : π) (process : Process τ) :
    (s.setProcess target process).process target = process := by
  simp [setProcess]

omit [DecidableEq τ] in
theorem setProcess_ne
    (s : IdConfig π τ) {target other : π} (hne : other ≠ target) (process : Process τ) :
    (s.setProcess target process).process other = s.process other := by
  simp [setProcess, hne]

end Updates

/-! ## One task goes on -/

/-- Only one task, and the list of its process, may change. -/
structure Frame (s s' : IdConfig π τ) (subject : τ) : Prop where
  table : s'.table = s.table
  others : ∀ other, other ≠ subject → s'.task other = s.task other
  processes : ∀ owner, (s'.process owner).life = (s.process owner).life ∧
    (s'.process owner).reaped = (s.process owner).reaped
  lists : ∀ owner, owner ≠ (s'.task subject).home →
    (s'.process owner).tasks = (s.process owner).tasks

/-- A task stays who it is, the only task of a process becomes its leader and gives up its
own id, or a task is born in a process which nobody reaps. -/
inductive Fate (s : IdConfig π τ) (subject : τ) (old new : Task π τ) : Prop
  | stays (present : old.kind.Present) (home : new.home = old.home) (tid : new.tid = old.tid)
    (globalTid : new.globalTid = old.globalTid)
  | promoted (present : old.kind.Present) (home : new.home = old.home) (tid : new.tid = 0)
    (leader : old.tid = 0 → new.globalTid = old.globalTid)
    (discards : old.tid ≠ 0 → .discard old.globalTid ∈ new.todo)
    (alone : ∀ other ∈ (s.process old.home).tasks, other = subject)
  | born (unborn : old.kind = .unborn)
    (reapers : ∀ agent remaining, (s.task agent).stage ≠ .reaping new.home remaining)

/-- A task goes on; what it needs for itself may rely on the rest of the system. -/
structure GoesOn (s s' : IdConfig π τ) (subject : τ) (old new : Task π τ) : Prop
    extends Frame s s' subject where
  before : s.task subject = old
  self : s'.task subject = new
  fate : Fate s subject old new
  born : new.kind ≠ .unborn
  list : ∀ other, other ≠ subject →
    (other ∈ (s'.process new.home).tasks ↔ other ∈ (s.process new.home).tasks)
  listNodup : (s'.process new.home).tasks.Nodup
  listed : subject ∈ (s'.process new.home).tasks → new.kind.owns = true ∧
    ∀ other ∈ (s.process new.home).tasks, new.tid = (s.task other).tid → subject = other
  retained : new.kind = .retained → subject ∈ (s'.process new.home).tasks
  moving : old.kind ≠ .retained
  ok : Carries s s' →
    (new.globalTid = old.globalTid →
      ∀ other, (s'.task other).globalTid = (s.task other).globalTid) →
      s'.TaskOk subject new
  discards : ∀ id, .discard id ∈ old.todo → .discard id ∈ new.todo ∨ s.Unlinked id
  linked : old.tid ≠ 0 → old.kind.owns = true → new.kind ≠ .dropped → new.kind.owns = true ∨
    .discard old.globalTid ∈ new.todo ∨ s.Unlinked old.globalTid
  drops : ∀ target, .drop target ∈ old.todo →
    .drop target ∈ new.todo ∨ (s.task target).kind = .dropped
  dropped : old.stage = .removed → new.stage = .removed ∨ new.stage = .dropped
  reaping : ∀ child remaining, new.stage = .reaping child remaining →
    old.stage = .reaping child remaining
  reapingKept : ∀ child remaining, old.stage = .reaping child remaining →
    new.stage = .reaping child remaining ∨ remaining = []

namespace GoesOn

variable {s s' : IdConfig π τ} {subject : τ} {old new : Task π τ}

variable {target : τ}

variable (hgoes : GoesOn s s' subject old new)
include hgoes

theorem home (hborn : (s.task target).kind ≠ .unborn) :
    (s'.task target).home = (s.task target).home := by
  by_cases hsame : target = subject
  · rw [hsame, hgoes.before] at hborn ⊢
    rw [hgoes.self]
    cases hgoes.fate with
    | stays _ hhome | promoted _ hhome => exact hhome
    | born hunborn => exact absurd hunborn hborn
  · rw [hgoes.others target hsame]

theorem born_after (hborn : (s.task target).kind ≠ .unborn) : (s'.task target).kind ≠ .unborn := by
  by_cases hsame : target = subject
  · rw [hsame, hgoes.self]
    exact hgoes.born
  · rwa [hgoes.others target hsame]

theorem born_of_reaped {agent : τ} {child : π} {remaining : List τ}
    (hstage : (s.task agent).stage = .reaping child remaining)
    (hhome : (s'.task target).home = child) (hborn : (s'.task target).kind ≠ .unborn) :
    (s.task target).kind ≠ .unborn := by
  by_cases hsame : target = subject
  · rw [hsame, hgoes.self] at hhome
    rw [hsame, hgoes.before]
    cases hgoes.fate with
    | stays hpresent | promoted hpresent => exact hpresent.1
    | born _ hreapers => exact absurd hstage (hhome ▸ hreapers agent remaining)
  · rwa [hgoes.others target hsame] at hborn

theorem ne_of_dropped (hdropped : (s.task target).kind = .dropped) : target ≠ subject := by
  intro hsame
  rw [hsame, hgoes.before] at hdropped
  cases hgoes.fate with
  | stays hpresent | promoted hpresent => exact hpresent.2 hdropped
  | born hunborn => simp [hunborn] at hdropped

theorem kind_dropped (hdropped : (s.task target).kind = .dropped) :
    (s'.task target).kind = .dropped := by
  rwa [hgoes.others target (hgoes.ne_of_dropped hdropped)]

variable {id : ℕ}

theorem unlinked (hunlinked : s.Unlinked id) : s'.Unlinked id := by
  intro target htable
  rw [hgoes.table] at htable
  exact hgoes.kind_dropped (hunlinked target htable)

theorem mem_tasks (hne : target ≠ subject) (owner : π) :
    target ∈ (s'.process owner).tasks ↔ target ∈ (s.process owner).tasks := by
  by_cases howner : owner = (s'.task subject).home
  · rw [howner, hgoes.self]
    exact hgoes.list target hne
  · rw [hgoes.lists owner howner]

theorem home_of_mem (hinv : s.Inv) {owner : π}
    (hmem : subject ∈ (s'.process owner).tasks) : owner = new.home := by
  rw [← hgoes.self]
  by_contra howner
  rw [hgoes.lists owner howner] at hmem
  obtain ⟨hhome, howns⟩ := hinv.listed owner subject hmem
  exact howner ((hgoes.home (Kind.present_of_owns howns).1).trans hhome).symm

theorem discard_mem {agent : τ} (hmem : .discard id ∈ (s.task agent).todo) :
    .discard id ∈ (s'.task agent).todo ∨ s.Unlinked id := by
  by_cases hsame : agent = subject
  · rw [hsame, hgoes.before] at hmem
    rw [hsame, hgoes.self]
    exact hgoes.discards id hmem
  · rw [hgoes.others agent hsame]
    exact .inl hmem

theorem backed (htable : s.table id = some target) (hborn : (s.task target).kind ≠ .unborn)
    (hdropped : (s'.task target).kind ≠ .dropped) (hbacked : s.Backed id target) :
    s'.Backed id target := by
  have hdiscards : (∃ agent, .discard id ∈ (s.task agent).todo) →
      ∃ agent, .discard id ∈ (s'.task agent).todo := fun ⟨agent, hmem⟩ =>
    ⟨agent, (hgoes.discard_mem hmem).resolve_right fun h =>
      hdropped (hgoes.kind_dropped (h target htable))⟩
  by_cases hsame : target = subject
  · subst hsame
    obtain rfl := hgoes.before
    obtain rfl := hgoes.self
    cases hgoes.fate with
    | stays _ _ htid hgtid =>
      rw [Backed, htid, hgtid]
      rcases hbacked with hzero | ⟨hzero, howns, rfl⟩ | ⟨hid, hmem⟩
      · exact .inl hzero
      · rcases hgoes.linked hzero howns hdropped with h | h | h
        · exact .inr (.inl ⟨hzero, h, rfl⟩)
        · exact .inr (.inr ⟨.inl rfl, target, h⟩)
        · exact absurd (hgoes.kind_dropped (h target htable)) hdropped
      · exact .inr (.inr ⟨hid, hdiscards hmem⟩)
    | promoted _ _ htid hleader hdiscard =>
      rcases hbacked with ⟨hzero, rfl⟩ | ⟨hzero, -, rfl⟩ | ⟨-, hmem⟩
      · exact .inl ⟨htid, (hleader hzero).symm⟩
      · exact .inr (.inr ⟨.inr htid, target, hdiscard hzero⟩)
      · exact .inr (.inr ⟨.inr htid, hdiscards hmem⟩)
    | born hunborn => exact absurd hunborn hborn
  · rw [Backed, hgoes.others target hsame]
    exact hbacked.imp_right (Or.imp_right (And.imp_right hdiscards))

theorem reaps (hinv : s.Inv) {agent : τ} {child : π} {remaining : List τ}
    (hstage : (s.task agent).stage = .reaping child remaining) :
    s'.Reaps agent child remaining := by
  have hreaps := hinv.reaping agent child remaining hstage
  obtain ⟨hlife, hreaped⟩ := hgoes.processes child
  obtain ⟨hborn, -, hreleased⟩ := Process.life_eq hlife
  refine ⟨hreaped.trans hreaps.reaped, hborn.trans hreaps.born, hreleased.trans hreaps.unreleased,
    List.eq_nil_iff_forall_not_mem.mpr fun target hmem => ?_, hreaps.nodup,
    fun target hmem => ?_, fun target hhome hkind => ?_⟩
  · by_cases hsame : target = subject
    · subst hsame
      obtain rfl := hgoes.before
      obtain rfl := hgoes.home_of_mem hinv hmem
      obtain rfl := hgoes.self
      have howns := (hgoes.listed hmem).1
      have hbefore := hgoes.born_of_reaped hstage rfl hgoes.born
      rcases hreaps.all target (hgoes.home hbefore).symm hbefore with h | hrest | hdrop
      · exact hgoes.ne_of_dropped h rfl
      · exact hgoes.moving (hreaps.retained target hrest).1
      · rcases (hinv.ok agent).drops target hdrop with hremoved | h
        · rcases hgoes.dropped hremoved with h | h <;>
            simp [Task.kind, h, Stage.kind, Kind.owns] at howns
        · exact hgoes.ne_of_dropped (congrArg Stage.kind h) rfl
    · rw [hgoes.mem_tasks hsame, hreaps.unlisted] at hmem
      simp at hmem
  · obtain ⟨hretained, hhome⟩ := hreaps.retained target hmem
    have hne : target ≠ subject := fun hsame =>
      hgoes.moving (hgoes.before ▸ hsame ▸ hretained)
    rw [hgoes.others target hne]
    exact ⟨hretained, hhome⟩
  · have hbefore := hgoes.born_of_reaped hstage hhome hkind
    rw [hgoes.home hbefore] at hhome
    rcases hreaps.all target hhome hbefore with hdropped | hrest | hdrop
    · exact .inl (hgoes.kind_dropped hdropped)
    · exact .inr (.inl hrest)
    · by_cases hsame : agent = subject
      · rw [hsame, hgoes.before] at hdrop
        rw [hsame, hgoes.self]
        rcases hgoes.drops target hdrop with hkept | hdropped
        · exact .inr (.inr hkept)
        · exact .inl (hgoes.kind_dropped hdropped)
      · rw [hgoes.others agent hsame]
        exact .inr (.inr hdrop)

end GoesOn

variable {s s' : IdConfig π τ}

theorem Books.keep (hbooks : s.Books) (hids : s'.ids = s.ids) (hcrashed : s'.crashed = s.crashed)
    (hprocesses : ∀ owner, (s'.process owner).life = (s.process owner).life)
    (hholds : ∀ target, (s'.task target).holds.Perm (s.task target).holds) :
    s'.Books := by
  have hplaces (place : π ⊕ τ) : (s'.holdings place).Perm (s.holdings place) := by
    cases place with
    | inl owner =>
      obtain ⟨hborn, hpid, hreleased⟩ := Process.life_eq (hprocesses owner)
      rw [holdings, holdings, hborn, hpid, hreleased]
    | inr target => exact hholds target
  exact
    { intact := hcrashed.trans hbooks.intact
      wellFormed := hids ▸ hbooks.wellFormed
      positive := hids ▸ hbooks.positive
      exclusive := hbooks.exclusive.of_perm hplaces
      covers := by rw [held_of_perm hplaces, hbooks.covers, hids] }

theorem GoesOn.carries {subject : τ} {old new : Task π τ}
    (hgoes : GoesOn s s' subject old new) : Carries s s' where
  processes owner := (hgoes.processes owner).1
  unlinked _ := hgoes.unlinked
  gone other hgone := by
    by_cases hsame : other = subject
    · rcases hgone with h | h
      · rw [hsame, hgoes.before] at h
        rw [hsame, hgoes.self]
        exact hgoes.dropped h
      · exact absurd hsame (hgoes.ne_of_dropped (congrArg Stage.kind h))
    · rwa [hgoes.others other hsame]
  known _ hkind := ⟨hgoes.home hkind, hgoes.born_after hkind⟩

theorem Inv.goesOn (hinv : s.Inv) {subject : τ} {old new : Task π τ}
    (hgoes : GoesOn s s' subject old new) (hbooks : s'.Books) : s'.Inv := by
  have hreaping {agent : τ} {child : π} {remaining : List τ}
      (hstage : (s'.task agent).stage = .reaping child remaining) :
      (s.task agent).stage = .reaping child remaining := by
    by_cases hsame : agent = subject
    · rw [hsame, hgoes.self] at hstage
      rw [hsame, hgoes.before]
      exact hgoes.reaping child remaining hstage
    · rwa [hgoes.others agent hsame] at hstage
  refine .mk
    { toBooks := hbooks
      listNodup := fun owner => ?_
      listed := fun owner target hmem => ?_
      slots := fun owner target htarget other hother htid => ?_
      retained := fun target hkind => ?_
      linked := fun id target htable hdropped => ?_
      reaping := fun agent child remaining hstage =>
        hgoes.reaps hinv (hreaping hstage)
      reaped := fun owner hreleased => ?_
      reapers := fun agent other child first second hagent hother =>
        hinv.reapers agent other child first second (hreaping hagent) (hreaping hother) }
    fun target => ?_
  · by_cases howner : owner = (s'.task subject).home
    · rw [howner, hgoes.self]
      exact hgoes.listNodup
    · rw [hgoes.lists owner howner]
      exact hinv.listNodup owner
  · by_cases hsame : target = subject
    · subst hsame
      obtain rfl := hgoes.home_of_mem hinv hmem
      rw [hgoes.self]
      exact ⟨rfl, (hgoes.listed hmem).1⟩
    · rw [hgoes.others target hsame]
      exact hinv.listed owner target ((hgoes.mem_tasks hsame owner).mp hmem)
  · have hslot {second : τ} (hmem : second ∈ (s'.process owner).tasks) (hne : second ≠ subject)
        (hfirst : subject ∈ (s'.process owner).tasks)
        (htid : (s'.task subject).tid = (s'.task second).tid) : subject = second := by
      obtain rfl := hgoes.home_of_mem hinv hfirst
      rw [hgoes.self, hgoes.others second hne] at htid
      exact (hgoes.listed hfirst).2 second ((hgoes.mem_tasks hne _).mp hmem) htid
    by_cases hsame : target = subject
    · subst hsame
      by_cases hother' : other = target
      · exact hother'.symm
      · exact hslot hother hother' htarget htid
    · by_cases hother' : other = subject
      · subst hother'
        exact (hslot htarget hsame hother htid.symm).symm
      · rw [hgoes.others target hsame, hgoes.others other hother'] at htid
        exact hinv.slots owner target ((hgoes.mem_tasks hsame owner).mp htarget) other
          ((hgoes.mem_tasks hother' owner).mp hother) htid
  · by_cases hsame : target = subject
    · rw [hsame, hgoes.self] at hkind ⊢
      exact .inl (hgoes.retained hkind)
    · rw [hgoes.others target hsame] at hkind ⊢
      rcases hinv.retained target hkind with hmem | ⟨agent, remaining, hstage, hmem⟩
      · exact .inl ((hgoes.mem_tasks hsame _).mpr hmem)
      · refine .inr ⟨agent, remaining, ?_, hmem⟩
        by_cases hagent : agent = subject
        · rw [hagent, hgoes.before] at hstage
          rw [hagent, hgoes.self]
          refine (hgoes.reapingKept _ remaining hstage).resolve_right fun hempty => ?_
          simp [hempty] at hmem
        · rwa [hgoes.others agent hagent]
  · rw [hgoes.table] at htable
    have hbefore := hinv.linked id target htable fun h => hdropped (hgoes.kind_dropped h)
    exact ⟨hgoes.born_after hbefore.1, hgoes.backed htable hbefore.1 hdropped hbefore.2⟩
  · obtain ⟨hlife, hreaped⟩ := hgoes.processes owner
    rw [(Process.life_eq hlife).2.2] at hreleased
    exact hreaped.trans (hinv.reaped owner hreleased)
  · by_cases hsame : target = subject
    · rw [hsame, hgoes.self]
      refine hgoes.ok hgoes.carries fun hgtid other => ?_
      by_cases hother : other = subject
      · rw [hother, hgoes.before, hgoes.self, hgtid]
      · rw [hgoes.others other hother]
    · rw [hgoes.others target hsame]
      refine (hinv.ok target).mono hgoes.carries (fun _ => (hgoes.mem_tasks hsame _).mpr)
        fun other id hstage => ?_
      by_cases hother : other = subject
      · obtain ⟨hhome, hborn⟩ := (hinv.ok target).waits other (.inr ⟨id, hstage⟩)
        rw [hother, hgoes.before] at hhome hborn ⊢
        rw [hgoes.self]
        cases hgoes.fate with
        | stays _ _ _ hgtid => exact hgtid
        | promoted _ _ _ _ _ halone =>
          have hlisted := (hinv.ok target).inList (.inl (congrArg Stage.kind hstage))
          exact absurd (halone target (hhome ▸ hlisted)) hsame
        | born hunborn => exact absurd hunborn hborn
      · rw [hgoes.others other hother]

theorem Inv.keeps (hinv : s.Inv) {subject : τ} {old : Task π τ} (new : Task π τ)
    (hids : s'.ids = s.ids)
    (hcrashed : s'.crashed = s.crashed)
    (hholds : new.holds.Perm old.holds) (hgoes : GoesOn s s' subject old new) :
    s'.Inv := by
  refine hinv.goesOn hgoes
    (hinv.toBooks.keep hids hcrashed hgoes.carries.processes fun target => ?_)
  by_cases hsame : target = subject
  · rw [hsame, hgoes.before, hgoes.self]
    exact hholds
  · rw [hgoes.others target hsame]

/-- The flags and counters which decide what a thread does, but not who owns an id. -/
def strip (config : IdConfig π τ) : IdConfig π τ where
  ids := config.ids
  table := config.table
  process owner := { config.process owner with
    alive := 0, isZombie := false, execOwner := none, cleanupPending := false }
  task target := { config.task target with autoReap := false, execExit := false, exitCode := false }
  crashed := config.crashed

theorem inv_strip (s : IdConfig π τ) : s.strip.Inv ↔ s.Inv := by
  constructor <;> intro h <;>
    exact { h with
      reaping := fun agent child remaining hstage =>
        { h.reaping agent child remaining hstage with }
      ok := fun target => { h.ok target with } }

theorem Inv.of_strip (hinv : s.Inv) (hsame : s'.strip = s.strip) : s'.Inv := by
  rw [← inv_strip, hsame, inv_strip]
  exact hinv

end IdConfig

end Kairix.TaskIds
