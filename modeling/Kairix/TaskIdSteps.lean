import Kairix.TaskIdOwnership

/-!
# Steps of one task

The steps which change the flags and the stage of one task, and the list of its process,
without a change of owner: calls begin and end, and a thread goes through its exit.
-/

namespace Kairix.TaskIds

open ExclusiveHoldings RecyclingIds List Option

namespace IdConfig

variable {π τ : Type*} [DecidableEq π] [DecidableEq τ]

omit [DecidableEq π] in
theorem frame_setTask (s : IdConfig π τ) (subject : τ) (new : Task π τ) :
    Frame s (s.setTask subject new) subject where
  table := rfl
  others _ hne := s.setTask_ne hne new
  processes _ := ⟨rfl, rfl⟩
  lists _ _ := rfl

theorem frame_setProcess_setTask
    (s : IdConfig π τ) (subject : τ) (new : Task π τ) {owner : π} {process : Process τ}
    (hsame : process.life = (s.process owner).life ∧ process.reaped = (s.process owner).reaped)
    (hhome : new.home = owner) :
    Frame s ((s.setProcess owner process).setTask subject new) subject where
  table := rfl
  others _ hne := setTask_ne _ hne new
  processes other := by
    rw [setTask_process]
    by_cases howner : other = owner
    · rw [howner, setProcess_self]
      exact hsame
    · rw [setProcess_ne s howner]
      exact ⟨rfl, rfl⟩
  lists other howner := by
    rw [setTask_self, hhome] at howner
    rw [setTask_process, setProcess_ne s howner]

def Plain (stage : Stage π τ) : Prop :=
  (∀ child remaining, stage ≠ .reaping child remaining) ∧
    (∀ target, stage ≠ .waitChecking target) ∧ ∀ target id, stage ≠ .waitRemoving target id

variable {s : IdConfig π τ}

attribute [local simp] Stage.kind Kind.owns Plain

omit [DecidableEq π] in
/-- A task changes its stage; its operations stay, or it gets its first ones. -/
theorem Inv.change (hinv : s.Inv) {subject : τ} {new : Task π τ}
    (hpresent : (s.task subject).kind.Present) (hmoving : (s.task subject).kind ≠ .retained)
    (hsame : new.home = (s.task subject).home ∧ new.tid = (s.task subject).tid ∧
      new.globalTid = (s.task subject).globalTid)
    (hborn : new.kind ≠ .unborn) (howns : new.kind.owns = (s.task subject).kind.owns)
    (htodo : new.todo = (s.task subject).todo ∨
      (s.task subject).todo = [] ∧ new.todo.filterMap Op.pending = [])
    (hok : s.TaskOk subject new)
    (hretained : new.kind = .retained → subject ∈ (s.process new.home).tasks)
    (hdropped : (s.task subject).stage = .removed → new.stage = .removed ∨ new.stage = .dropped)
    (hreaping : ∀ child remaining, new.stage ≠ .reaping child remaining)
    (hfinished : ∀ child remaining, (s.task subject).stage = .reaping child remaining →
      remaining = []) : (s.setTask subject new).Inv := by
  obtain ⟨hhome, htid, hgtid⟩ := hsame
  have hkept {op : Op τ} (h : op ∈ (s.task subject).todo) : op ∈ new.todo := by
    rcases htodo with hsame | ⟨hnone, -⟩
    · rwa [hsame]
    · simp [hnone] at h
  have hholds : new.holds.Perm (s.task subject).holds := by
    rw [Task.holds, Task.holds, howns, htid, hgtid]
    rcases htodo with hsame | ⟨hnone, hpending⟩
    · rw [hsame]
    · rw [hnone, hpending]
      rfl
  exact hinv.keeps new rfl rfl hholds
    { toFrame := s.frame_setTask subject new
      before := rfl
      self := setTask_self s subject new
      fate := .stays hpresent hhome htid hgtid
      born := hborn
      list := fun _ _ => Iff.rfl
      listNodup := hinv.listNodup _
      listed := fun h => by
        rw [howns, htid]
        exact ⟨(hinv.listed _ subject h).2, hinv.slots _ subject h⟩
      retained := hretained
      moving := hmoving
      ok := fun hcarries hglobal =>
        hok.mono hcarries (fun _ => id) fun other _ _ => hglobal hgtid other
      discards := fun _ h => .inl (hkept h)
      linked := fun _ h _ => .inl (howns.trans h)
      drops := fun _ h => .inl (hkept h)
      dropped := hdropped
      reaping := fun child remaining h => absurd h (hreaping child remaining)
      reapingKept := fun child remaining h => .inr (hfinished child remaining h) }

omit [DecidableEq π] [DecidableEq τ] in
theorem TaskOk.restage {subject : τ} {task : Task π τ} {stage : Stage π τ}
    (hok : s.TaskOk subject task) (hkind : stage.kind = task.kind) (hremoved : stage ≠ .removed)
    (hwaits : ∀ target, stage = .waitChecking target ∨ (∃ id, stage = .waitRemoving target id) →
      (s.task target).home = task.home ∧ (s.task target).kind ≠ .unborn)
    (hids : ∀ target id, stage = .waitRemoving target id → (s.task target).globalTid = id) :
    s.TaskOk subject { task with stage := stage } := by
  have hsame : { task with stage := stage : Task π τ }.kind = task.kind := hkind
  exact
    { hok with
      inList := hsame ▸ hok.inList
      leader := hsame ▸ hok.leader
      busy := hsame ▸ hok.busy
      idle := fun h => absurd h hremoved
      autos := hsame ▸ hok.autos
      links := hsame ▸ hok.links
      alive := hsame ▸ hok.alive
      waits := hwaits
      waitIds := hids }

omit [DecidableEq π] in
theorem Inv.restage (hinv : s.Inv) {subject : τ} {stage : Stage π τ}
    (hkind : stage.kind = (s.task subject).kind)
    (hactive : (s.task subject).kind = .active ∨ (∃ auto, (s.task subject).kind = .exiting auto) ∨
      (s.task subject).kind = .embryo)
    (hreaping : ∀ child remaining, stage ≠ .reaping child remaining)
    (hfinished : ∀ child remaining, (s.task subject).stage = .reaping child remaining →
      remaining = [])
    (hwaits : ∀ target, stage = .waitChecking target ∨ (∃ id, stage = .waitRemoving target id) →
      (s.task target).home = (s.task subject).home ∧ (s.task target).kind ≠ .unborn)
    (hids : ∀ target id, stage = .waitRemoving target id → (s.task target).globalTid = id) :
    (s.setStage subject stage).Inv := by
  have howns : (s.task subject).kind.owns = true := by
    rcases hactive with h | ⟨auto, h⟩ | h <;> rw [h] <;> rfl
  have hmoving : (s.task subject).kind ≠ .retained := by
    rcases hactive with h | ⟨auto, h⟩ | h <;> simp [h]
  have hremoved : stage ≠ .removed := fun h => by
    rw [h] at hkind
    rcases hactive with h | ⟨auto, h⟩ | h <;> simp [h] at hkind
  have hsame : { s.task subject with stage := stage : Task π τ }.kind =
      (s.task subject).kind := hkind
  refine hinv.change (Kind.present_of_owns howns) hmoving ⟨rfl, rfl, rfl⟩
    (hsame ▸ (Kind.present_of_owns howns).1) (congrArg Kind.owns hsame) (.inl rfl)
    ((hinv.ok subject).restage hkind hremoved hwaits hids)
    (fun h => absurd (hsame.symm.trans h) hmoving) (fun h => ?_) hreaping hfinished
  rcases hactive with hbefore | ⟨auto, hbefore⟩ | hbefore <;> simp [Task.kind, h] at hbefore

/-! ## Flags and calls -/

omit [DecidableEq π] in
theorem strip_setTask (s : IdConfig π τ) (target : τ) (autoReap execExit exitCode : Bool) :
    (s.setTask target { s.task target with
      autoReap := autoReap, execExit := execExit, exitCode := exitCode }).strip = s.strip := by
  simp only [strip, setTask, mk.injEq, true_and, and_true]
  funext other
  by_cases hsame : other = target
  · simp [hsame]
  · simp [hsame]

omit [DecidableEq τ] in
theorem strip_setProcess (s : IdConfig π τ) (target : π) (alive : ℕ)
    (isZombie cleanupPending : Bool) (execOwner : Option τ) :
    (s.setProcess target { s.process target with
      alive := alive, isZombie := isZombie, execOwner := execOwner,
      cleanupPending := cleanupPending }).strip = s.strip := by
  simp only [strip, setProcess, mk.injEq, true_and, and_true]
  funext other
  by_cases hsame : other = target
  · simp [hsame]
  · simp [hsame]

variable {s' : IdConfig π τ}

omit [DecidableEq π] in
theorem Inv.restagePlain (hinv : s.Inv) {subject : τ} {before stage : Stage π τ}
    (hbefore : (s.task subject).stage = before) (hkind : stage.kind = before.kind)
    (hactive : before.kind = .active ∨ (∃ auto, before.kind = .exiting auto) ∨
      before.kind = .embryo) (hplain : Plain stage)
    (hfinished : ∀ child remaining, before = .reaping child remaining → remaining = []) :
    (s.setStage subject stage).Inv := by
  subst hbefore
  refine hinv.restage hkind hactive hplain.1 hfinished (fun target h => ?_) fun target id h => ?_
  · rcases h with h | ⟨id, h⟩
    · exact absurd h (hplain.2.1 target)
    · exact absurd h (hplain.2.2 target id)
  · exact absurd h (hplain.2.2 target id)

variable {caller : τ}

theorem Inv.execBegin (hinv : s.Inv) (hstep : s.execBegin caller = some s') : s'.Inv := by
  simp only [IdConfig.execBegin] at hstep
  split_ifs at hstep with hlive howner <;> obtain rfl := some.inj hstep
  · have hstrip := s.strip_setProcess (s.task caller).home (s.process (s.task caller).home).alive
      (s.process (s.task caller).home).isZombie
      (s.process (s.task caller).home).cleanupPending (some caller)
    exact (hinv.of_strip hstrip).restagePlain hlive.1 rfl (.inl rfl) (by simp) (by simp)
  · exact hinv.of_strip (s.strip_setTask caller _ true _)

omit [DecidableEq π] in
theorem Inv.execRequest (hinv : s.Inv) (hstep : s.execRequest caller = some s') : s'.Inv := by
  simp only [IdConfig.execRequest] at hstep
  split at hstep <;> cases hstep
  next sibling rest hstage htodo =>
    have hstrip := s.strip_setTask sibling (s.task sibling).autoReap true (s.task sibling).exitCode
    have hcaller := congrArg (fun config => (config.task caller).stage) hstrip
    exact (hinv.of_strip hstrip).restagePlain (hcaller.trans hstage) rfl (.inl rfl) (by simp)
      (by simp)

theorem Inv.waitLook (hinv : s.Inv) {id : ℕ} (hstep : s.waitLook caller id = some s') : s'.Inv := by
  simp only [IdConfig.waitLook] at hstep
  split_ifs at hstep with hlive
  split at hstep
  · next target hlookup =>
    split_ifs at hstep with hhome <;> obtain rfl := some.inj hstep
    · obtain ⟨htable, hdropped⟩ := filter_eq_some_iff.mp hlookup
      have hkind : (s.task caller).kind = .active := congrArg Stage.kind hlive.1.1
      have hpresent : (s.task target).kind ≠ .dropped := by
        intro h
        simp only [ne_eq, decide_not, Bool.not_eq_eq_eq_not, Bool.not_true,
          decide_eq_false_iff_not] at hdropped
        cases hstage : (s.task target).stage <;> simp_all [Task.kind]
      refine hinv.restage hkind.symm (.inl hkind) (by simp) (by simp [hlive.1.1])
        (fun other h => ?_) (by simp)
      obtain rfl : target = other := by simpa using h
      exact ⟨hhome, (hinv.linked id target htable hpresent).1⟩
    · exact hinv
  · cases hstep
    exact hinv

omit [DecidableEq π] in
theorem Inv.waitCheck (hinv : s.Inv) (hstep : s.waitCheck caller = some s') : s'.Inv := by
  simp only [IdConfig.waitCheck] at hstep
  split at hstep
  · next target hstage htodo =>
    have hkind : (s.task caller).kind = .active := congrArg Stage.kind hstage
    split_ifs at hstep <;> obtain rfl := some.inj hstep
    · refine hinv.restage hkind.symm (.inl hkind) (by simp) (by simp [hstage])
        (fun other h => ?_) fun other id h => ?_
      · obtain ⟨rfl, -⟩ : target = other ∧ True := by simpa using h
        exact (hinv.ok caller).waits target (.inl hstage)
      · obtain ⟨rfl, rfl⟩ : target = other ∧ (s.task target).globalTid = id := by
          simpa using h
        rfl
    · exact hinv.restagePlain hstage rfl (.inl rfl) (by simp) (by simp)
  · simp at hstep

/-! ## The exit of a thread -/

variable (hinv : s.Inv)
include hinv

theorem Inv.exit (hstep : s.exit caller = some s') : s'.Inv := by
  rw [IdConfig.exit] at hstep
  by_cases hlive : s.At caller .live
  swap
  · simp [hlive] at hstep
  rw [if_pos hlive] at hstep
  set auto := decide ((s.task caller).tid ≠ 0) && (s.task caller).autoReap with hauto
  set early := (decide ((s.task caller).tid = 0) && !(s.task caller).execExit) || auto
    with hearly
  set todo : List (Op τ) := if early = true then [.unlink (s.task caller).globalTid] else []
    with htodo
  have hunlink {op : Op τ} (h : op ∈ todo) : op = .unlink (s.task caller).globalTid := by
    rw [htodo] at h
    split_ifs at h <;> simp_all
  cases hstep
  have hkind : (s.task caller).kind = .active := congrArg Stage.kind hlive.1
  have hmem := (hinv.ok caller).inList (.inl hkind)
  have howns : (s.task caller).kind.owns = true := by rw [hkind]; rfl
  have hpending : todo.filterMap Op.pending = [] := by
    rw [htodo]
    split_ifs <;> rfl
  refine hinv.change (Kind.present_of_owns howns) (by simp [hkind]) ⟨rfl, rfl, rfl⟩
    (by simp [Task.kind]) howns.symm (.inr ⟨hlive.2, hpending⟩)
    { inList := fun _ => hmem
      leader := fun _ => (hinv.ok caller).leader (Kind.present_of_owns howns)
      busy := fun _ => .inr (.inl ⟨auto, rfl⟩)
      idle := by simp
      frees := fun id h => absurd (hunlink h) (by simp)
      autos := fun h => ?_
      links := fun id h => absurd (hunlink h) (by simp)
      drops := fun target h => absurd (hunlink h) (by simp)
      alive := fun _ => (hinv.ok caller).alive (Kind.present_of_owns howns)
      waits := by simp
      waitIds := by simp } (fun _ => hmem) (by simp [hlive.1]) (by simp) (by simp [hlive.1])
  have htrue : auto = true := by simpa [Task.kind] using h
  refine ⟨?_, .inl ?_⟩
  · rw [hauto] at htrue
    simpa using (Bool.and_eq_true_iff.mp htrue).1
  · change .unlink (s.task caller).globalTid ∈ todo
    rw [htodo, if_pos (by rw [hearly, htrue, Bool.or_true])]
    exact mem_singleton_self _

theorem Inv.count (hstep : s.count caller = some s') : s'.Inv := by
  simp only [IdConfig.count] at hstep
  split at hstep <;> cases hstep
  next exec auto hstage htodo =>
    set process := s.process (s.task caller).home with hprocess
    have hstrip := s.strip_setProcess (s.task caller).home (process.alive - 1)
      (process.isZombie || (decide (process.alive = 1) && !exec))
      (process.cleanupPending || decide (process.alive = 1)) process.execOwner
    exact (hinv.of_strip hstrip).restagePlain hstage rfl (.inr (.inl ⟨auto, rfl⟩))
      (by simp) (by simp)

section

variable {exec auto last : Bool} (hstage : (s.task caller).stage = .counted exec auto last)
  (htodo : (s.task caller).todo = [])
include hstage htodo

omit [DecidableEq π] in
theorem Inv.stay : (s.setStage caller .retained).Inv := by
  have hkind : (s.task caller).kind = .exiting auto := congrArg Stage.kind hstage
  have hmem := (hinv.ok caller).inList (.inr (.inl ⟨auto, hkind⟩))
  have howns : (s.task caller).kind.owns = true := by rw [hkind]; rfl
  have hpresent := Kind.present_of_owns howns
  exact hinv.change hpresent (by simp [hkind]) ⟨rfl, rfl, rfl⟩ (by simp [Task.kind]) howns.symm
    (.inl rfl) (.of_idle htodo (by simp [Task.kind]) (by simp) (by simp) (fun _ => hmem)
      (fun _ => (hinv.ok caller).leader hpresent) fun _ => (hinv.ok caller).alive hpresent)
    (fun _ => hmem) (by simp [hstage]) (by simp) (by simp [hstage])

theorem Inv.leave {ops : List (Op τ)}
    (hops : ops = if auto = true then [.free (s.task caller).globalTid]
      else if (s.task caller).tid ≠ 0 then [.discard (s.task caller).globalTid]
      else []) :
    ((s.setProcess (s.task caller).home { s.process (s.task caller).home with
      tasks := (s.process (s.task caller).home).tasks.filter fun other =>
        (s.task other).tid ≠ (s.task caller).tid }).setTask caller
      { s.task caller with stage := .leaving last, todo := ops }).Inv := by
  have hkind : (s.task caller).kind = .exiting auto := congrArg Stage.kind hstage
  have hmem := (hinv.ok caller).inList (.inr (.inl ⟨auto, hkind⟩))
  have howns : (s.task caller).kind.owns = true := by rw [hkind]; rfl
  have hauto (h : auto = true) : (s.task caller).tid ≠ 0 ∧
      s.Unlinked (s.task caller).globalTid := by
    have hbefore := (hinv.ok caller).autos (by rw [hkind, h])
    simpa [htodo] using hbefore
  have hcases {op : Op τ} (h : op ∈ ops) : (op = .free (s.task caller).globalTid ∧ auto = true) ∨
        op = .discard (s.task caller).globalTid := by
    rw [hops] at h
    split_ifs at h <;> simp_all
  have hpresent := Kind.present_of_owns howns
  set owner := (s.task caller).home with howner
  set process := s.process owner with hprocess
  set s' := (s.setProcess owner { process with
    tasks := process.tasks.filter fun other =>
      (s.task other).tid ≠ (s.task caller).tid }).setTask caller
      { s.task caller with stage := .leaving last, todo := ops } with hafter
  have hlist : s'.process owner = { process with
      tasks := process.tasks.filter fun other =>
        (s.task other).tid ≠ (s.task caller).tid } := by
    rw [hafter, setTask_process, setProcess_self]
  refine hinv.keeps { s.task caller with stage := .leaving last, todo := ops } rfl rfl ?_
    { toFrame := s.frame_setProcess_setTask caller _ ⟨rfl, rfl⟩ rfl
      before := rfl
      self := setTask_self _ caller _
      fate := .stays hpresent rfl rfl rfl
      born := by simp [Task.kind]
      list := fun other hne => ?_
      listNodup := by rw [hlist]; exact (hinv.listNodup owner).filter _
      listed := fun h => by rw [hlist] at h; simp at h
      retained := by simp [Task.kind]
      moving := by simp [hkind]
      ok := fun hcarries _ =>
        { inList := by simp [Task.kind]
          leader := fun _ => by rw [hlist]; exact (hinv.ok caller).leader hpresent
          busy := fun _ => .inr (.inr rfl)
          idle := by simp
          frees := fun id h => ?_
          autos := by simp [Task.kind]
          links := fun id h => by simpa using hcases h
          drops := fun target h => by simpa using hcases h
          alive := fun _ => by rw [hlist]; exact (hinv.ok caller).alive hpresent
          waits := by simp
          waitIds := by simp }
      discards := fun id h => by simp [htodo] at h
      linked := fun hzero _ _ => .inr ?_
      drops := fun target h => by simp [htodo] at h
      dropped := fun h => absurd (hstage.symm.trans h) (by simp)
      reaping := by simp
      reapingKept := fun child remaining h => absurd (hstage.symm.trans h) (by simp) }
  · rw [Task.holds, Task.holds, howns, htodo, hops]
    by_cases h : auto = true
    · simp [h, (hauto h).1, Task.kind, Stage.kind, Kind.owns, Op.pending]
    · by_cases hzero : (s.task caller).tid = 0 <;>
        simp [h, hzero, Task.kind, Op.pending]
  · rw [hlist, mem_filter]
    refine ⟨And.left, fun h => ⟨h, ?_⟩⟩
    simpa using fun htid => hne (hinv.slots owner other h caller hmem htid)
  · rcases hcases h with ⟨hfree, htrue⟩ | hdiscard
    · obtain rfl : id = (s.task caller).globalTid := by simpa using hfree
      exact hcarries.unlinked _ (hauto htrue).2
    · simp at hdiscard
  · rw [hops]
    by_cases h : auto = true
    · exact .inr (hauto h).2
    · left
      simp [h, hzero]

end

theorem Inv.detach (hstep : s.detach caller = some s') : s'.Inv := by
  simp only [IdConfig.detach] at hstep
  split at hstep
  · next exec auto last hstage htodo =>
    split at hstep <;> obtain rfl := some.inj hstep
    · exact hinv.leave hstage htodo rfl
    · exact hinv.stay hstage htodo
  · simp at hstep

omit [DecidableEq π] in
theorem Inv.dropTask {target : τ} (hkind : (s.task target).kind = .removed)
    (htodo : (s.task target).todo = []) : (s.setStage target .dropped).Inv := by
  have hstage (child : π) (remaining : List τ) :
      (s.task target).stage ≠ .reaping child remaining := fun h => by
    rw [Task.kind, h] at hkind
    simp at hkind
  exact hinv.change (by simp [hkind, Kind.Present]) (by simp [hkind]) ⟨rfl, rfl, rfl⟩
    (by simp [Task.kind]) (by rw [hkind]; rfl) (.inl rfl)
    (.of_idle htodo (by simp [Task.kind]) (by simp) (by simp) (by simp [Task.kind])
      (fun h => absurd rfl h.2) fun h => absurd rfl h.2)
    (by simp [Task.kind]) (fun _ => .inr rfl) (by simp)
    fun child remaining h => absurd h (hstage child remaining)

theorem Inv.drain {target : τ} (hstep : s.drain target = some s') : s'.Inv := by
  simp only [IdConfig.drain] at hstep
  split at hstep <;> cases hstep
  next last hstage htodo =>
    set process := s.process (s.task target).home with hprocess
    have hstrip := s.strip_setProcess (s.task target).home process.alive
      process.isZombie (process.cleanupPending && !last) process.execOwner
    have hkind : (s.task target).kind = .removed := congrArg Stage.kind hstage
    exact (hinv.of_strip hstrip).dropTask hkind htodo

end IdConfig

/-! ## Ids change hands -/

namespace IdConfig

variable {π τ : Type*}

variable {s : IdConfig π τ} {id : ℕ}

theorem unlinked_setTable_none {other : ℕ} (hunlinked : s.Unlinked other) :
    (s.setTable id none).Unlinked other := by
  intro target htable
  by_cases hsame : other = id
  · simp [setTable, hsame] at htable
  · exact hunlinked target (by simpa [setTable, hsame] using htable)

theorem unlinked_setTable_self (s : IdConfig π τ) (id : ℕ) : (s.setTable id none).Unlinked id := by
  intro target htable
  simp [setTable] at htable

theorem Inv.unlink (hinv : s.Inv) (id : ℕ) : (s.setTable id none).Inv :=
  { hinv with
    ok := fun target => { hinv.ok target with
      frees := fun other hmem => unlinked_setTable_none ((hinv.ok target).frees other hmem)
      autos := fun hkind =>
        ((hinv.ok target).autos hkind).imp_right (Or.imp_right unlinked_setTable_none) }
    linked := fun other target htable hdropped => by
      by_cases hsame : other = id
      · simp [setTable, hsame] at htable
      · exact hinv.linked other target (by simpa [setTable, hsame] using htable) hdropped
    reaping := fun agent child remaining hstage =>
      { hinv.reaping agent child remaining hstage with } }

variable {target : τ}

theorem Inv.linkTask (hinv : s.Inv) (hpresent : (s.task target).kind.Present)
    (hbacked : s.Backed id target) (hfrees : ∀ agent, .free id ∉ (s.task agent).todo)
    (hautos : ∀ other, (s.task other).kind = .exiting true →
      (s.task other).globalTid = id → .unlink id ∈ (s.task other).todo) :
    (s.setTable id (some target)).Inv := by
  have hunlinked {other : ℕ} (hne : other ≠ id) (h : s.Unlinked other) :
      (s.setTable id (some target)).Unlinked other := by
    intro entry htable
    exact h entry (by simpa [setTable, hne] using htable)
  exact
    { hinv with
      ok := fun agent => { hinv.ok agent with
        frees := fun other hmem =>
          hunlinked (fun hsame => hfrees agent (hsame ▸ hmem)) ((hinv.ok agent).frees other hmem)
        autos := fun hkind => by
          obtain ⟨htid, hlink⟩ := (hinv.ok agent).autos hkind
          refine ⟨htid, ?_⟩
          by_cases hsame : (s.task agent).globalTid = id
          · left
            have hmem := hautos agent hkind hsame
            rwa [← hsame] at hmem
          · exact hlink.imp_right (hunlinked hsame) }
      linked := fun other entry htable hdropped => by
        by_cases hsame : other = id
        · obtain rfl : target = entry := by simpa [setTable, hsame] using htable
          rw [hsame]
          exact ⟨hpresent.1, hbacked⟩
        · exact hinv.linked other entry (by simpa [setTable, hsame] using htable) hdropped
      reaping := fun agent child remaining hstage =>
        { hinv.reaping agent child remaining hstage with } }

/-! ## Pending operations -/

variable [DecidableEq τ]

/-- A thread is done with an operation, or with its first half. -/
structure Pops (s : IdConfig π τ) (caller : τ) (todo : List (Op τ)) : Prop where
  busy : (s.task caller).todo ≠ []
  frees : ∀ id, .free id ∈ todo → .free id ∈ (s.task caller).todo ∨ s.Unlinked id
  unlinks : ∀ id, .unlink id ∈ (s.task caller).todo → .unlink id ∈ todo ∨ s.Unlinked id
  links : ∀ id, .link id ∈ todo → .link id ∈ (s.task caller).todo
  discards : ∀ id, .discard id ∈ (s.task caller).todo → .discard id ∈ todo ∨ s.Unlinked id
  drops : ∀ target, .drop target ∈ todo → .drop target ∈ (s.task caller).todo
  dropped : ∀ target, .drop target ∈ (s.task caller).todo →
    .drop target ∈ todo ∨ (s.task target).kind = .dropped

variable {caller : τ} {rest : List (Op τ)}

omit [DecidableEq τ] in
theorem Pops.of_cons {op : Op τ} (htodo : (s.task caller).todo = op :: rest)
    (hunlink : ∀ id, op = .unlink id → s.Unlinked id)
    (hdiscard : ∀ id, op = .discard id → s.Unlinked id)
    (hdrop : ∀ target, op = .drop target → (s.task target).kind = .dropped) :
    s.Pops caller rest where
  busy := by simp [htodo]
  frees id h := .inl (htodo ▸ mem_cons_of_mem op h)
  unlinks id h := by
    rw [htodo] at h
    exact (mem_cons.mp h).symm.imp_right fun hsame => hunlink id hsame.symm
  links id h := htodo ▸ mem_cons_of_mem op h
  discards id h := by
    rw [htodo] at h
    exact (mem_cons.mp h).symm.imp_right fun hsame => hdiscard id hsame.symm
  drops target h := htodo ▸ mem_cons_of_mem op h
  dropped target h := by
    rw [htodo] at h
    exact (mem_cons.mp h).symm.imp_right fun hsame => hdrop target hsame.symm

omit [DecidableEq τ] in
theorem Pops.of_discard (htodo : (s.task caller).todo = .discard id :: rest)
    (hunlinked : s.Unlinked id) : s.Pops caller (.free id :: rest) where
  busy := by simp [htodo]
  frees other h := by
    rw [htodo]
    rcases mem_cons.mp h with hsame | h
    · obtain rfl := Op.free.inj hsame
      exact .inr hunlinked
    · exact .inl (mem_cons_of_mem _ h)
  unlinks other h := .inl (by simpa [htodo] using h)
  links other h := by simpa [htodo] using h
  discards other h := by
    rw [htodo] at h
    rcases mem_cons.mp h with hsame | h
    · obtain rfl := Op.discard.inj hsame
      exact .inr hunlinked
    · exact .inl (mem_cons_of_mem _ h)
  drops target h := by simpa [htodo] using h
  dropped target h := .inl (by simpa [htodo] using h)

variable {s' : IdConfig π τ}

theorem Pops.goesOn (hinv : s.Inv) {todo : List (Op τ)} (hpops : s.Pops caller todo)
    (htable : s'.table = s.table) (hprocess : s'.process = s.process)
    (htask : s'.task = (s.setTodo caller todo).task) :
    GoesOn s s' caller (s.task caller) { s.task caller with todo := todo } := by
  have hok := hinv.ok caller
  have hkind := hok.busy hpops.busy
  have hpresent : (s.task caller).kind.Present := by
    rcases hkind with h | ⟨auto, h⟩ | h <;> rw [h] <;> exact ⟨by simp, by simp⟩
  have hmoving : (s.task caller).kind ≠ .retained := by
    rcases hkind with h | ⟨auto, h⟩ | h <;> simp [h]
  have hnew : s.TaskOk caller { s.task caller with todo := todo } :=
    { hok with
      busy := fun _ => hkind
      idle := fun h => absurd (hok.idle h) hpops.busy
      frees := fun id h => (hpops.frees id h).elim (hok.frees id) fun h => h
      autos := fun h => (hok.autos h).imp_right fun hlink => hlink.elim (hpops.unlinks _) .inr
      links := fun id h => hok.links id (hpops.links id h)
      drops := fun target h => hok.drops target (hpops.drops target h) }
  exact
    { table := htable
      others := fun other hne => by rw [htask]; exact s.setTask_ne hne _
      processes := fun owner => by rw [hprocess]; exact ⟨rfl, rfl⟩
      lists := fun owner _ => by rw [hprocess]
      before := rfl
      self := by rw [htask]; exact setTask_self s caller _
      fate := .stays hpresent rfl rfl rfl
      born := hpresent.1
      list := fun _ _ => by rw [hprocess]
      listNodup := by rw [hprocess]; exact hinv.listNodup _
      listed := fun h => by
        rw [hprocess] at h
        exact ⟨(hinv.listed _ caller h).2, hinv.slots _ caller h⟩
      retained := fun h => absurd h hmoving
      moving := hmoving
      ok := fun hcarries hglobal =>
        hnew.mono hcarries (fun _ h => hprocess ▸ h) fun other _ _ => hglobal rfl other
      discards := hpops.discards
      linked := fun _ howns _ => .inl howns
      drops := hpops.dropped
      dropped := .inl
      reaping := fun _ _ h => h
      reapingKept := fun _ _ => .inl }

theorem Inv.pop (hinv : s.Inv) {todo : List (Op τ)} (hpops : s.Pops caller todo)
    (hpending : todo.filterMap Op.pending = (s.task caller).todo.filterMap Op.pending) :
    (s.setTodo caller todo).Inv := by
  refine hinv.keeps _ rfl rfl ?_ (hpops.goesOn hinv rfl rfl rfl)
  rw [Task.holds, Task.holds]
  simp only [hpending]
  exact .refl _

omit [DecidableEq τ] in
theorem Books.allocated (hbooks : s.Books) {place : π ⊕ τ}
    (hmem : id ∈ s.holdings place) : 1 ≤ id ∧ s.ids.Allocated id := by
  have hheld : id ∈ held s.holdings := mem_held hmem
  rwa [hbooks.covers] at hheld

omit [DecidableEq τ] in
theorem Books.giveBack (hbooks : s.Books) {source : π ⊕ τ}
    (hids : s'.ids = { s.ids with recycled := id :: s.ids.recycled })
    (hcrashed : s'.crashed = s.crashed)
    (hsource : (s.holdings source).Perm ([id] ++ s'.holdings source))
    (hplaces : ∀ place, place ≠ source → s'.holdings place = s.holdings place) :
    s'.Books := by
  obtain ⟨hpositive, hallocated⟩ := hbooks.allocated (hsource.mem_iff.mpr mem_cons_self)
  refine
    { intact := hcrashed.trans hbooks.intact
      wellFormed := hids ▸ hbooks.wellFormed.dealloc hallocated
      positive := fun other h => ?_
      exclusive := hbooks.exclusive.leave hsource hplaces
      covers := ?_ }
  · rw [hids] at h
    rcases h with h | h
    · rcases mem_cons.mp h with rfl | h
      · exact hpositive
      · exact hbooks.positive other (.inl h)
    · exact hbooks.positive other (.inr h)
  · rw [held_leave hbooks.exclusive hsource hplaces, hbooks.covers, hids]
    ext other
    simp only [Set.mem_sdiff, Set.mem_ofPred_eq, mem_singleton, Allocator.allocated_dealloc]
    tauto

theorem Inv.giveBack (hinv : s.Inv) (htodo : (s.task caller).todo = .free id :: rest) : ({ s with
      ids := { s.ids with recycled := id :: s.ids.recycled } }.setTodo caller rest).Inv := by
  set s' := { s with
    ids := { s.ids with recycled := id :: s.ids.recycled } }.setTodo caller rest
    with hafter
  have hpops : s.Pops caller rest := .of_cons htodo (by simp) (by simp) (by simp)
  have hsource : (s.holdings (.inr caller)).Perm ([id] ++ s'.holdings (.inr caller)) := by
    have hself : s'.task caller = { s.task caller with todo := rest } := setTask_self _ caller _
    rw [holdings, holdings, hself, Task.holds, Task.holds, htodo]
    exact perm_middle
  refine hinv.goesOn (hpops.goesOn hinv rfl rfl rfl)
    (hinv.toBooks.giveBack rfl rfl hsource fun place hne => ?_)
  cases place with
  | inl owner => rfl
  | inr other =>
    have hother : other ≠ caller := fun hsame => hne (congrArg _ hsame)
    rw [holdings, holdings]
    exact congrArg Task.holds (s.setTask_ne hother _)

section

omit [DecidableEq τ]

theorem Inv.free_not_mem (hinv : s.Inv) {place : π ⊕ τ} (hmem : id ∈ s.holdings place)
    {agent : τ} (hplace : place ≠ .inr agent) : .free id ∉ (s.task agent).todo := by
  intro hfree
  have hown : id ∈ s.holdings (.inr agent) := by
    refine mem_append_right _ (mem_filterMap.mpr ⟨.free id, hfree, rfl⟩)
  exact hplace (hinv.exclusive.unique place (.inr agent) id hmem hown)

theorem Inv.mem_holdings_pid (hinv : s.Inv) (hpresent : (s.task target).kind.Present) :
    (s.process (s.task target).home).pid ∈ s.holdings (.inl (s.task target).home) := by
  rw [holdings, if_pos ((hinv.ok target).alive hpresent)]
  exact mem_singleton_self _

theorem Inv.mem_holdings_globalTid (howns : (s.task target).kind.owns = true)
    (htid : (s.task target).tid ≠ 0) :
    (s.task target).globalTid ∈ s.holdings (.inr target) := by
  rw [holdings, Task.holds, if_pos ⟨howns, htid⟩]
  exact mem_cons_self

theorem Inv.linkLeader (hinv : s.Inv) (hpresent : (s.task target).kind.Present)
    (htid : (s.task target).tid = 0) :
    (s.setTable (s.task target).globalTid (some target)).Inv := by
  have hpid := hinv.mem_holdings_pid hpresent
  rw [← (hinv.ok target).leader hpresent htid] at hpid
  refine hinv.linkTask hpresent (.inl ⟨htid, rfl⟩)
    (fun agent => hinv.free_not_mem hpid (by simp)) fun other hkind hid => ?_
  have hown := Inv.mem_holdings_globalTid (by rw [hkind]; rfl) ((hinv.ok other).autos hkind).1
  rw [hid] at hown
  exact absurd (hinv.exclusive.unique _ _ _ hpid hown) (by simp)

end

variable [DecidableEq π]

theorem Inv.op (hinv : s.Inv) (hstep : s.op caller = some s') : s'.Inv := by
  rw [IdConfig.op] at hstep
  split at hstep
  · simp at hstep
  · next id rest htodo =>
    cases hstep
    have hself := s.unlinked_setTable_self id
    refine (hinv.unlink id).pop (.of_cons htodo ?_ (by simp) (by simp)) ?_
    · intro other hsame
      obtain rfl := Op.unlink.inj hsame
      exact hself
    · exact (congrArg (filterMap Op.pending) htodo).symm
  · next id rest htodo =>
    cases hstep
    have hself := s.unlinked_setTable_self id
    refine (hinv.unlink id).pop (.of_discard htodo hself) ?_
    exact (congrArg (filterMap Op.pending) htodo).symm
  · next id rest htodo =>
    have hmem : id ∈ s.holdings (.inr caller) := by
      simp [holdings, Task.holds, htodo, Op.pending]
    rw [Allocator.dealloc_of_allocated (hinv.toBooks.allocated hmem).2] at hstep
    cases hstep
    exact hinv.giveBack htodo
  · next id rest htodo =>
    cases hstep
    obtain ⟨hkind, htid, rfl⟩ := (hinv.ok caller).links id (by simp [htodo])
    have hpresent : (s.task caller).kind.Present := by
      rw [hkind]
      exact ⟨by simp, by simp⟩
    refine (hinv.linkLeader hpresent htid).pop (.of_cons htodo (by simp) (by simp) (by simp)) ?_
    exact (congrArg (filterMap Op.pending) htodo).symm
  · next target rest htodo =>
    cases hstep
    have hpending : rest.filterMap Op.pending = (s.task caller).todo.filterMap Op.pending :=
      (congrArg (filterMap Op.pending) htodo).symm
    rcases (hinv.ok caller).drops target (by simp [htodo]) with hremoved | hdropped
    · rw [if_pos hremoved]
      have hempty := (hinv.ok target).idle hremoved
      have hne : caller ≠ target := fun hsame => by simp [← hsame, htodo] at hempty
      have hcaller : (s.setStage target .dropped).task caller = s.task caller := s.setTask_ne hne _
      refine (hinv.dropTask (congrArg Stage.kind hremoved) hempty).pop
        (.of_cons (hcaller ▸ htodo) (by simp) (by simp) fun other hsame => ?_) (hcaller ▸ hpending)
      obtain rfl := Op.drop.inj hsame
      rw [setStage, setTask_self]
      rfl
    · rw [if_neg (by simp [hdropped])]
      refine hinv.pop (.of_cons htodo (by simp) (by simp) fun other hsame => ?_) hpending
      obtain rfl := Op.drop.inj hsame
      exact congrArg Stage.kind hdropped

end IdConfig

end Kairix.TaskIds
