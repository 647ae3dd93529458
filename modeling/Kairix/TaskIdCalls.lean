import Kairix.TaskIdSteps

/-!
# Creation, exec, `sys_waittid` and reaping

The steps of the calls which create tasks and take them over: new threads and processes,
the promotion of the caller of exec, and the removal of an exited thread by
`sys_waittid` and by the reaper of its process.
-/

namespace Kairix.TaskIds

open ExclusiveHoldings RecyclingIds List

namespace IdConfig

variable {π τ : Type*}

/-! ## Creation -/

variable {s s' : IdConfig π τ} {target : τ}

attribute [local simp] Stage.kind Plain

theorem Inv.todo_of_unborn (hinv : s.Inv) (hunborn : (s.task target).stage = .unborn) :
    (s.task target).todo = [] := by
  by_contra htodo
  have hbusy := (hinv.ok target).busy htodo
  simp [Task.kind, hunborn] at hbusy

theorem Inv.holds_of_unborn (hinv : s.Inv) (hunborn : (s.task target).stage = .unborn) :
    (s.task target).holds = [] := by
  rw [Task.holds, hinv.todo_of_unborn hunborn, Task.kind, hunborn]
  rfl

/-- A new thread is not in the list yet, and a new leader is alone in it. -/
theorem Inv.bears (hinv : s.Inv) {new : Task π τ} (hframe : Frame s s' target)
    (hunborn : (s.task target).stage = .unborn) (hself : s'.task target = new)
    (hembryo : new.stage = .embryo false) (htodo : new.todo = [])
    (hlist : (new.tid ≠ 0 ∧ (s'.process new.home).tasks = (s.process new.home).tasks) ∨
      (new.tid = 0 ∧ (s'.process new.home).tasks = [target] ∧
        (s.process new.home).tasks = [] ∧ new.globalTid = (s.process new.home).pid))
    (halive : (s.process new.home).born = true ∧ (s.process new.home).released = false)
    (hreapers : ∀ agent remaining, (s.task agent).stage ≠ .reaping new.home remaining) :
    GoesOn s s' target (s.task target) new := by
  have hkind : (s.task target).kind = .unborn := congrArg Stage.kind hunborn
  have hnew : new.kind = .embryo := congrArg Stage.kind hembryo
  have hunlisted (owner : π) : target ∉ (s.process owner).tasks := fun h => by
    have howns := (hinv.listed owner target h).2
    simp [hkind, Kind.owns] at howns
  obtain ⟨hborn, hpid, hreleased⟩ := Process.life_eq (hframe.processes new.home).1
  refine
    { toFrame := hframe
      before := rfl
      self := hself
      fate := .born hkind hreapers
      born := by simp [hnew]
      list := fun other hne => ?_
      listNodup := ?_
      listed := fun h => ⟨by rw [hnew]; rfl, fun other hother _ => ?_⟩
      retained := by simp [hnew]
      moving := by simp [hkind]
      ok := fun _ _ => .of_idle htodo (by simp [hnew]) (by simp [hembryo]) (by simp [hembryo])
        (fun h => ?_) (fun _ htid => ?_) fun _ => by rwa [hborn, hreleased]
      discards := by simp [hinv.todo_of_unborn hunborn]
      linked := by simp [hkind, Kind.owns]
      drops := by simp [hinv.todo_of_unborn hunborn]
      dropped := by simp [hunborn]
      reaping := by simp [hembryo]
      reapingKept := by simp [hunborn] } <;>
    rcases hlist with ⟨htid', hlist⟩ | ⟨htid', hlist, hempty, hleader⟩
  · rw [hlist]
  · simp [hlist, hempty, hne]
  · rw [hlist]
    exact hinv.listNodup _
  · rw [hlist]
    exact nodup_singleton target
  · exact absurd (hlist ▸ h) (hunlisted _)
  · simp [hempty] at hother
  · simp [hnew, htid'] at h
  · rw [hlist]
    exact mem_singleton_self target
  · exact absurd htid htid'
  · exact hleader.trans hpid.symm

theorem Books.alloc (hbooks : s.Books) {place : π ⊕ τ} (hids : s'.ids = s.ids.alloc)
    (hcrashed : s'.crashed = s.crashed)
    (hplace : (s'.holdings place).Perm ([s.ids.nextId] ++ s.holdings place))
    (hplaces : ∀ other, other ≠ place → s'.holdings other = s.holdings other) :
    s'.Books := by
  have hpositive : 1 ≤ s.ids.nextId := by
    refine hbooks.positive _ ?_
    cases hrecycled : s.ids.recycled with
    | nil | cons id rest => simp [Allocator.nextId, hrecycled]
  have hfresh (id : ℕ) (hmem : id ∈ [s.ids.nextId]) : id ∉ held s.holdings := by
    rw [hbooks.covers, mem_singleton.mp hmem]
    exact fun h => s.ids.not_allocated_nextId h.2
  refine
    { intact := hcrashed.trans hbooks.intact
      wellFormed := hids ▸ hbooks.wellFormed.alloc
      positive := fun id h => ?_
      exclusive := hbooks.exclusive.enter hplace hplaces (nodup_singleton _) hfresh
      covers := ?_ }
  · rw [hids] at h
    cases hrecycled : s.ids.recycled with
    | nil =>
      simp only [Allocator.alloc, hrecycled, not_mem_nil, false_or] at h
      omega
    | cons head rest =>
      simp only [Allocator.alloc, hrecycled] at h
      refine hbooks.positive id (h.imp_left fun hmem => ?_)
      rw [hrecycled]
      exact mem_cons_of_mem head hmem
  · rw [held_enter hplace hplaces, hbooks.covers, hids]
    ext id
    simp only [Set.mem_union, Set.mem_ofPred_eq, mem_singleton,
      hbooks.wellFormed.allocated_alloc]
    constructor
    · rintro (⟨hone, hallocated⟩ | rfl)
      · exact ⟨hone, .inl hallocated⟩
      · exact ⟨hpositive, .inr rfl⟩
    · rintro ⟨hone, hallocated | rfl⟩
      · exact .inl ⟨hone, hallocated⟩
      · exact .inr rfl

variable {caller : τ}

theorem Inv.not_reaping (hinv : s.Inv) (hkind : (s.task caller).kind = .active)
    (agent : τ) (remaining : List τ) :
    (s.task agent).stage ≠ .reaping (s.task caller).home remaining := by
  intro hstage
  have hreaps := hinv.reaping agent _ remaining hstage
  rcases hreaps.all caller rfl (by simp [hkind]) with hdropped | hmem | hdrop
  · simp [hkind] at hdropped
  · have hretained := (hreaps.retained caller hmem).1
    simp [hkind] at hretained
  · rcases (hinv.ok agent).drops caller hdrop with h | h <;>
      simp [Task.kind, h] at hkind

variable [DecidableEq π] [DecidableEq τ]

variable (hinv : s.Inv)
include hinv

theorem Inv.spawn {tid : ℕ} {auto : Bool}
    (hstep : s.spawn caller target tid auto = some s') : s'.Inv := by
  rw [IdConfig.spawn] at hstep
  split_ifs at hstep with hguard
  obtain ⟨hlive, hunborn, htid⟩ := hguard
  cases hstep
  have hkind : (s.task caller).kind = .active := congrArg Stage.kind hlive.1
  have hne : caller ≠ target := fun hsame => by
    have hstage := hlive.1
    simp [hsame, hunborn] at hstage
  set new : Task π τ := ⟨(s.task caller).home, tid, s.ids.nextId, auto, false, false,
    .embryo false, []⟩ with hnew
  set born := { s with ids := s.ids.alloc }.setTask target new with hborn
  have hself : born.task target = new := setTask_self _ target new
  have hothers (other : τ) (h : other ≠ target) : born.task other = s.task other :=
    setTask_ne _ h new
  have hframe : Frame s born target := ⟨rfl, hothers, fun _ => ⟨rfl, rfl⟩, fun _ _ => rfl⟩
  have hgoes := hinv.bears hframe hunborn hself rfl rfl (.inl ⟨htid, rfl⟩)
    ((hinv.ok caller).alive (by rw [hkind]; exact ⟨by simp, by simp⟩)) (hinv.not_reaping hkind)
  have hplace : (born.holdings (.inr target)).Perm
      ([s.ids.nextId] ++ s.holdings (.inr target)) := by
    rw [holdings, holdings, hinv.holds_of_unborn hunborn, hself, Task.holds, if_pos ⟨rfl, htid⟩]
    exact .refl _
  have hinvBorn : born.Inv := hinv.goesOn hgoes (hinv.toBooks.alloc rfl rfl hplace fun other h => by
    cases other with
    | inl owner => rfl
    | inr other =>
      rw [holdings, holdings, hothers other fun hsame => h (congrArg _ hsame)])
  exact hinvBorn.restagePlain ((congrArg Task.stage (hothers caller hne)).trans hlive.1) rfl
    (.inl rfl) (by simp) (by simp)

omit [DecidableEq τ] in
/-- A process with no task and no reaper is replaced by another one. -/
theorem Inv.replaceProcess {child : π} {process : Process τ} {ids : Allocator}
    (hempty : process.tasks = [])
    (hgone : ∀ target, (s.task target).home = child → ¬ (s.task target).kind.Present)
    (hnoReaper : ∀ agent remaining, (s.task agent).stage ≠ .reaping child remaining)
    (hreaped : process.released = true → process.reaped = true)
    (hbooks : ({ s with ids := ids }.setProcess child process).Books) :
    ({ s with ids := ids }.setProcess child process).Inv := by
  set s' := { s with ids := ids }.setProcess child process
  have hself : s'.process child = process := setProcess_self _ child process
  have hothers {owner : π} (h : owner ≠ child) : s'.process owner = s.process owner :=
    setProcess_ne _ h process
  have hhome {target : τ} (hpresent : (s.task target).kind.Present) :
      s'.process (s.task target).home = s.process (s.task target).home :=
    hothers fun hsame => hgone target hsame hpresent
  have hmem {owner : π} {target : τ} (h : target ∈ (s'.process owner).tasks) :
      target ∈ (s.process owner).tasks := by
    by_cases howner : owner = child
    · simp [howner, hself, hempty] at h
    · rwa [hothers howner] at h
  have hmemOf {target : τ} (h : target ∈ (s.process (s.task target).home).tasks) :
      target ∈ (s'.process (s.task target).home).tasks := by
    rwa [hhome (Kind.present_of_owns (hinv.listed _ target h).2)]
  exact
    { hinv with
      toBooks := hbooks
      listNodup := fun owner => by
        by_cases howner : owner = child
        · rw [howner, hself, hempty]
          exact nodup_nil
        · rw [hothers howner]
          exact hinv.listNodup owner
      listed := fun owner target h => hinv.listed owner target (hmem h)
      slots := fun owner first hfirst second hsecond =>
        hinv.slots owner first (hmem hfirst) second (hmem hsecond)
      retained := fun target h => (hinv.retained target h).imp_left hmemOf
      reaping := fun agent owner remaining hstage => by
        have hsame : s'.process owner = s.process owner :=
          hothers fun h => hnoReaper agent remaining (h ▸ hstage)
        exact (hinv.reaping agent owner remaining hstage).mono (by rw [hsame]) (by rw [hsame])
          (by rw [hsame]) (fun _ _ => ⟨rfl, rfl⟩) rfl
      reaped := fun owner h => by
        by_cases howner : owner = child
        · rw [howner, hself] at h ⊢
          exact hreaped h
        · rw [hothers howner] at h ⊢
          exact hinv.reaped owner h
      ok := fun target => { hinv.ok target with
        inList := fun h => hmemOf ((hinv.ok target).inList h)
        leader := fun h htid => (hhome h).symm ▸ (hinv.ok target).leader h htid
        alive := fun h => (hhome h).symm ▸ (hinv.ok target).alive h } }

omit [DecidableEq τ] in
theorem Inv.found {child : π} (hunborn : (s.process child).born = false) :
    ({ s with ids := s.ids.alloc }.setProcess child
      ⟨true, s.ids.nextId, [], 1, false, none, false, false, false⟩).Inv := by
  refine hinv.replaceProcess rfl (fun target hhome hpresent => ?_) (fun agent remaining h => ?_)
    (by simp) (hinv.toBooks.alloc rfl rfl ?_ fun place (h : place ≠ .inl child) => ?_)
  · have halive := ((hinv.ok target).alive hpresent).1
    simp [hhome, hunborn] at halive
  · have hborn := (hinv.reaping agent child remaining h).born
    simp [hunborn] at hborn
  · rw [holdings, holdings, setProcess_self, hunborn]
    simp
  · cases place with
    | inl owner =>
      rw [holdings, holdings, setProcess_ne _ fun hsame => h (congrArg _ hsame)]
    | inr target => rfl

theorem Inv.bearLeader {leader : τ} {child : π} (hunborn : (s.process child).born = false)
    (hleader : (s.task leader).stage = .unborn) :
    (({ s with ids := s.ids.alloc }.setProcess child
      ⟨true, s.ids.nextId, [leader], 1, false, none, false, false, false⟩).setTask leader
        ⟨child, 0, s.ids.nextId, false, false, false, .embryo false, []⟩).Inv := by
  have hnotReaping (agent : τ) (remaining : List τ) :
      (s.task agent).stage ≠ .reaping child remaining := fun hstage => by
    have hborn := (hinv.reaping agent child remaining hstage).born
    simp [hunborn] at hborn
  set founded := { s with ids := s.ids.alloc }.setProcess child
    ⟨true, s.ids.nextId, [], 1, false, none, false, false, false⟩ with hfounded
  have hinvFounded : founded.Inv := hinv.found hunborn
  have hfoundedChild : founded.process child =
      ⟨true, s.ids.nextId, [], 1, false, none, false, false, false⟩ :=
    setProcess_self _ child _
  set new : Task π τ := ⟨child, 0, s.ids.nextId, false, false, false, .embryo false, []⟩
    with hnew
  set born := ({ s with ids := s.ids.alloc }.setProcess child
    ⟨true, s.ids.nextId, [leader], 1, false, none, false, false, false⟩).setTask leader new
    with hborn
  have hself : born.task leader = new := setTask_self _ leader new
  have hothers (other : τ) (h : other ≠ leader) : born.task other = s.task other :=
    setTask_ne _ h new
  have hchild : born.process child =
      ⟨true, s.ids.nextId, [leader], 1, false, none, false, false, false⟩ :=
    setProcess_self _ child _
  have hprocess {owner : π} (h : owner ≠ child) : born.process owner = founded.process owner :=
    (setProcess_ne _ h _).trans (setProcess_ne _ h _).symm
  have hframe : Frame founded born leader :=
    { table := rfl
      others := hothers
      processes := fun owner => by
        by_cases howner : owner = child
        · rw [howner, hchild, hfoundedChild]
          exact ⟨rfl, rfl⟩
        · rw [hprocess howner]
          exact ⟨rfl, rfl⟩
      lists := fun owner howner => by
        rw [hself] at howner
        rw [hprocess howner] }
  have hgoes := hinvFounded.bears hframe hleader hself rfl rfl
    (.inr ⟨rfl, by rw [hchild], by rw [hfoundedChild], by rw [hfoundedChild]⟩)
    (by rw [hfoundedChild]; exact ⟨rfl, rfl⟩) hnotReaping
  refine hinvFounded.keeps new rfl rfl ?_ hgoes
  rw [hinvFounded.holds_of_unborn hleader]
  exact .refl _

theorem Inv.fork {leader : τ} {child : π}
    (hstep : s.fork caller child leader = some s') : s'.Inv := by
  rw [IdConfig.fork] at hstep
  split_ifs at hstep with hguard
  obtain ⟨hlive, hunborn, hleader⟩ := hguard
  cases hstep
  have hne : caller ≠ leader := fun hsame => by
    have hstage := hlive.1
    simp [hsame, hleader] at hstage
  exact (hinv.bearLeader hunborn hleader).restagePlain
    ((congrArg Task.stage (setTask_ne _ hne _)).trans hlive.1) rfl (.inl rfl) (by simp)
    (by simp)

theorem Inv.link (hstep : s.link caller = some s') : s'.Inv := by
  rw [IdConfig.link] at hstep
  split at hstep
  · next target hstage htodo =>
    split_ifs at hstep with hembryo
    cases hstep
    have hkind : (s.task target).kind = .embryo := congrArg Stage.kind hembryo
    have howns : (s.task target).kind.owns = true := by rw [hkind]; rfl
    have hlinked : (s.setTable (s.task target).globalTid (some target)).Inv := by
      by_cases htid : (s.task target).tid = 0
      · exact hinv.linkLeader (Kind.present_of_owns howns) htid
      · have hmem := Inv.mem_holdings_globalTid howns htid
        refine hinv.linkTask (Kind.present_of_owns howns) (.inr (.inl ⟨htid, howns, rfl⟩))
          (fun agent hfree => ?_) fun other hexiting hid => ?_
        · by_cases hsame : target = agent
          · subst hsame
            have hbusy := (hinv.ok target).busy (ne_nil_of_mem hfree)
            simp [hkind] at hbusy
          · exact hinv.free_not_mem hmem (fun h => hsame (Sum.inr.inj h)) hfree
        · have hown := Inv.mem_holdings_globalTid (by rw [hexiting]; rfl)
            ((hinv.ok other).autos hexiting).1
          rw [hid] at hown
          obtain rfl := Sum.inr.inj (hinv.exclusive.unique _ _ _ hmem hown)
          simp [hkind] at hexiting
    exact hlinked.restagePlain hembryo rfl (.inr (.inr rfl)) (by simp) (by simp)
  · simp at hstep

theorem Inv.begin {tasks : List τ} (alive : ℕ) (hstage : (s.task target).stage = .embryo true)
    (htasks : ((s.task target).tid = 0 ∧ tasks = (s.process (s.task target).home).tasks) ∨
      ((s.task target).tid ≠ 0 ∧ tasks = (s.process (s.task target).home).tasks ++ [target] ∧
        ∀ other ∈ (s.process (s.task target).home).tasks,
          (s.task other).tid ≠ (s.task target).tid)) :
    ((s.setProcess (s.task target).home { s.process (s.task target).home with
      tasks := tasks, alive := alive }).setStage target .live).Inv := by
  have hkind : (s.task target).kind = .embryo := congrArg Stage.kind hstage
  have howns : (s.task target).kind.owns = true := by rw [hkind]; rfl
  have htodo : (s.task target).todo = [] := by
    by_contra h
    have hbusy := (hinv.ok target).busy h
    simp [hkind] at hbusy
  set owner := (s.task target).home with howner
  set process := s.process owner with hprocess
  set s' := (s.setProcess owner { process with
    tasks := tasks, alive := alive }).setStage target .live with hafter
  have hlist : s'.process owner = { process with tasks := tasks, alive := alive } := by
    rw [hafter, setStage, setTask_process, setProcess_self]
  have hself : target ∈ tasks := by
    rcases htasks with ⟨htid, hsame⟩ | ⟨-, hsame, -⟩
    · rw [hsame]
      exact (hinv.ok target).inList (.inr (.inr ⟨hkind, htid⟩))
    · rw [hsame]
      exact mem_append_right _ (mem_singleton_self _)
  have hfresh : (s.task target).tid ≠ 0 → (∀ other ∈ process.tasks,
      (s.task other).tid ≠ (s.task target).tid) → target ∉ process.tasks :=
    fun _ hslots hmem => hslots target hmem rfl
  have hothers {other : τ} (hne : other ≠ target) : other ∈ tasks ↔ other ∈ process.tasks := by
    rcases htasks with ⟨-, hsame⟩ | ⟨-, hsame, -⟩ <;> simp [hsame, hne]
  have hpresent := Kind.present_of_owns howns
  have hholds : { s.task target with stage := .live : Task π τ }.holds.Perm
      (s.task target).holds := by
    rw [Task.holds, Task.holds, hkind]
    exact .refl _
  refine hinv.keeps _ rfl rfl hholds
    { toFrame := s.frame_setProcess_setTask target _ ⟨rfl, rfl⟩ rfl
      before := rfl
      self := setTask_self _ target _
      fate := .stays hpresent rfl rfl rfl
      born := by simp [Task.kind]
      list := fun other hne => by rw [hlist]; exact hothers hne
      listNodup := ?_
      listed := fun _ => ⟨rfl, fun other hmem htid => ?_⟩
      retained := by simp [Task.kind]
      moving := by simp [hkind]
      ok := fun _ _ => .of_idle htodo (by simp [Task.kind]) (by simp) (by simp)
        (fun _ => by rw [hlist]; exact hself)
        (fun _ => by rw [hlist]; exact (hinv.ok target).leader hpresent)
        fun _ => by rw [hlist]; exact (hinv.ok target).alive hpresent
      discards := fun _ => .inl
      linked := fun _ _ _ => .inl rfl
      drops := fun _ => .inl
      dropped := fun h => absurd (hstage.symm.trans h) (by simp)
      reaping := by simp
      reapingKept := fun child remaining h => absurd (hstage.symm.trans h) (by simp) }
  · rw [hlist]
    rcases htasks with ⟨-, hsame⟩ | ⟨htid, hsame, hslots⟩
    · rw [hsame]
      exact hinv.listNodup owner
    · rw [hsame, nodup_append']
      refine ⟨hinv.listNodup owner, nodup_singleton target, fun other hmem hlast => ?_⟩
      exact hfresh htid hslots (mem_singleton.mp hlast ▸ hmem)
  · rcases htasks with ⟨hzero, hsame⟩ | ⟨-, -, hslots⟩
    · exact hinv.slots owner target (hsame ▸ hself) other hmem htid
    · exact absurd htid.symm (hslots other hmem)

theorem Inv.start (hstep : s.start caller = some s') : s'.Inv := by
  simp only [IdConfig.start] at hstep
  split at hstep
  · next target hstage htodo =>
    by_cases hembryo : (s.task target).stage = .embryo true
    swap
    · simp [hembryo] at hstep
    have hne : caller ≠ target := fun hsame => by simp [← hsame, hstage] at hembryo
    have hreturn {begun : IdConfig π τ} (hbegun : begun.Inv)
        (hcaller : begun.task caller = s.task caller) :
        (begun.setStage caller .live).Inv :=
      hbegun.restagePlain ((congrArg Task.stage hcaller).trans hstage) rfl (.inl rfl)
        (by simp) (by simp)
    rw [if_neg (by simp [hembryo])] at hstep
    split_ifs at hstep with htid hslots <;> obtain rfl := Option.some.inj hstep
    · have hbegun : ((s.setProcess (s.task target).home
          (s.process (s.task target).home)).setStage target .live).Inv :=
        hinv.begin _ hembryo (.inl ⟨htid, rfl⟩)
      have hsame : s.setProcess (s.task target).home (s.process (s.task target).home) = s := by
        simp [setProcess]
      rw [hsame] at hbegun
      exact hreturn hbegun (setTask_ne _ hne _)
    · exact hreturn (hinv.begin _ hembryo (.inr ⟨htid, rfl, hslots⟩)) (setTask_ne _ hne _)
  · simp at hstep

end IdConfig

end Kairix.TaskIds
