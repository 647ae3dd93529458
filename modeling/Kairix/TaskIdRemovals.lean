import Kairix.TaskIdCalls

/-!
# Exec and `sys_waittid`

The caller of exec becomes the leader of its process.  An exited thread is handed over
to the thread which removes it: a sibling in `sys_waittid`, or the reaper which has taken
the whole list of the process.
-/

namespace Kairix.TaskIds

open ExclusiveHoldings RecyclingIds List

namespace IdConfig

variable {π τ : Type*} [DecidableEq π] [DecidableEq τ]

/-! ## The promotion of the caller of exec -/

variable {s s' : IdConfig π τ} {caller : τ}

attribute [local simp] Stage.kind

theorem Inv.execPromote (hinv : s.Inv) (hstep : s.execPromote caller = some s') : s'.Inv := by
  simp only [IdConfig.execPromote] at hstep
  by_cases hguard : s.At caller (.execRequesting []) ∧
      ∀ other ∈ (s.process (s.task caller).home).tasks, other = caller
  swap
  · simp [hguard] at hstep
  rw [if_pos hguard] at hstep
  obtain ⟨hexec, halone⟩ := hguard
  have hkind : (s.task caller).kind = .active := congrArg Stage.kind hexec.1
  have howns : (s.task caller).kind.owns = true := by rw [hkind]; rfl
  have hpresent := Kind.present_of_owns howns
  have hmem := (hinv.ok caller).inList (.inl hkind)
  set owner := (s.task caller).home with howner
  set process := s.process owner with hprocess
  set ops : List (Op τ) := if (s.task caller).globalTid = process.pid then
    [.unlink process.pid] else [.discard (s.task caller).globalTid] with hops
  cases hstep
  set new : Task π τ := { s.task caller with
    tid := 0, globalTid := process.pid, autoReap := false, execExit := false,
    exitCode := false, stage := .live, todo := ops ++ [.link process.pid] } with hnew
  set promoted := (s.setProcess owner
    { process with tasks := [caller], alive := 1, execOwner := none }).setTask caller new
    with hpromoted
  have hlist : (promoted.process owner).tasks = [caller] := by
    rw [hpromoted, setTask_process, setProcess_self]
  have hpid : process.pid ∈ s.holdings (.inl owner) := hinv.mem_holdings_pid hpresent
  have hleader : (s.task caller).globalTid = process.pid ↔ (s.task caller).tid = 0 := by
    constructor
    · intro hsame
      by_contra htid
      have hown := Inv.mem_holdings_globalTid howns htid
      rw [hsame] at hown
      exact absurd (hinv.exclusive.unique _ _ _ hpid hown) (by simp)
    · exact (hinv.ok caller).leader hpresent
  have hop {op : Op τ} (h : op ∈ new.todo) : op = .link process.pid ∨ op = .unlink process.pid ∨
        op = .discard (s.task caller).globalTid := by
    rcases mem_append.mp h with h | h
    · rw [hops] at h
      split_ifs at h <;> simp_all
    · exact .inl (mem_singleton.mp h)
  have hdiscard (htid : (s.task caller).tid ≠ 0) :
      .discard (s.task caller).globalTid ∈ new.todo := by
    rw [hnew, hops, if_neg (mt hleader.mp htid)]
    exact mem_cons_self
  have hholds : new.holds.Perm (s.task caller).holds := by
    rw [Task.holds, Task.holds, howns, hexec.2, hnew, hops]
    by_cases hid : (s.task caller).globalTid = process.pid
    · simp [hid, hleader.mp hid, Op.pending]
    · simp [hid, mt hleader.mpr hid, Op.pending]
  refine hinv.keeps new rfl rfl hholds
    { toFrame := s.frame_setProcess_setTask caller new ⟨rfl, rfl⟩ rfl
      before := rfl
      self := setTask_self _ caller _
      fate := .promoted hpresent rfl rfl (fun htid => (hleader.mpr htid).symm) hdiscard halone
      born := by simp [hnew, Task.kind]
      list := fun other hne => by
        rw [hlist]
        exact iff_of_false (fun h => hne (mem_singleton.mp h)) fun h => hne (halone other h)
      listNodup := by rw [hlist]; exact nodup_singleton caller
      listed := fun _ => ⟨rfl, fun other h _ => (halone other h).symm⟩
      retained := by simp [hnew, Task.kind]
      moving := by simp [hkind]
      ok := fun hcarries _ =>
        { inList := fun _ => by
            rw [hlist]
            exact mem_singleton_self caller
          leader := fun _ _ => (Process.life_eq (hcarries.processes owner)).2.1.symm
          busy := fun _ => .inl rfl
          idle := by simp [hnew]
          frees := fun id h => by simpa using hop h
          autos := by simp [hnew, Task.kind]
          links := fun id h => ⟨rfl, rfl, by simpa using hop h⟩
          drops := fun other h => by simpa using hop h
          alive := fun _ => by
            obtain ⟨hborn, -, hreleased⟩ := Process.life_eq (hcarries.processes owner)
            rw [hborn, hreleased]
            exact (hinv.ok caller).alive hpresent
          waits := by simp [hnew]
          waitIds := by simp [hnew] }
      discards := by simp [hexec.2]
      linked := fun htid _ _ => .inr (.inl (hdiscard htid))
      drops := by simp [hexec.2]
      dropped := by simp [hexec.1]
      reaping := by simp [hnew]
      reapingKept := by simp [hexec.1] }

/-! ## An exited thread is handed over -/

/-- The caller takes an exited thread out of its list, or goes on with the tasks that it
has taken already. -/
structure TakesOver (s s' : IdConfig π τ) (caller target : τ) : Prop where
  ids : s'.ids = s.ids
  crashed : s'.crashed = s.crashed
  table : s'.table = s.table
  others : ∀ other, other ≠ caller → other ≠ target → s'.task other = s.task other
  processes : ∀ owner, (s'.process owner).life = (s.process owner).life ∧
    (s'.process owner).reaped = (s.process owner).reaped
  listNodup : ∀ owner, (s'.process owner).tasks.Nodup
  lists : ∀ owner other, other ∈ (s'.process owner).tasks ↔
    other ∈ (s.process owner).tasks ∧ other ≠ target
  active : (s.task caller).kind = .active
  free : (s.task caller).todo = []
  retained : (s.task target).kind = .retained
  removed : s'.task target = { s.task target with stage := .removed }
  same : (s'.task caller).home = (s.task caller).home ∧
    (s'.task caller).tid = (s.task caller).tid ∧
    (s'.task caller).globalTid = (s.task caller).globalTid
  todo : ((s.task target).tid ≠ 0 ∧
      (s'.task caller).todo = [.discard (s.task target).globalTid, .drop target]) ∨
    ((s.task target).tid = 0 ∧ ∃ id, (s'.task caller).todo = [.unlink id, .drop target])
  stage : ((s'.task caller).stage = .live ∧
      (∀ child remaining, (s.task caller).stage ≠ .reaping child remaining) ∧
      ∀ agent remaining, (s.task agent).stage ≠ .reaping (s.task target).home remaining) ∨
    ∃ remaining, (s.task caller).stage =
        .reaping (s.task target).home (target :: remaining) ∧
      (s'.task caller).stage = .reaping (s.task target).home remaining

namespace TakesOver

variable {s s' : IdConfig π τ} {caller target : τ}

section

variable (htakes : TakesOver s s' caller target)
include htakes

section

omit [DecidableEq π] [DecidableEq τ]

theorem ne : caller ≠ target := fun hsame => by
  have hkind := htakes.active
  simp [hsame, htakes.retained] at hkind

theorem todo_target (hinv : s.Inv) : (s.task target).todo = [] := by
  by_contra htodo
  have hkind := (hinv.ok target).busy htodo
  simp [htakes.retained] at hkind

theorem kind_target : (s'.task target).kind = .removed := by
  rw [htakes.removed]
  rfl

theorem kind_caller : (s'.task caller).kind = .active := by
  rcases htakes.stage with ⟨hstage, -⟩ | ⟨remaining, -, hstage⟩ <;>
  · rw [Task.kind, hstage]
    rfl

end

end

variable {other : τ}

variable (htakes : TakesOver s s' caller target)
include htakes

section

omit [DecidableEq π]

theorem kind_ne (hne : other ≠ target) : (s'.task other).kind = (s.task other).kind := by
  by_cases hsame : other = caller
  · rw [hsame, htakes.kind_caller, htakes.active]
  · rw [htakes.others other hsame hne]

theorem fields (other : τ) : (s'.task other).home = (s.task other).home ∧
      (s'.task other).tid = (s.task other).tid ∧
      (s'.task other).globalTid = (s.task other).globalTid := by
  by_cases hcaller : other = caller
  · rw [hcaller]
    exact htakes.same
  · by_cases htarget : other = target
    · rw [htarget, htakes.removed]
      exact ⟨rfl, rfl, rfl⟩
    · rw [htakes.others other hcaller htarget]
      exact ⟨rfl, rfl, rfl⟩

theorem unlinked {id : ℕ} (hunlinked : s.Unlinked id) : s'.Unlinked id := by
  intro entry htable
  rw [htakes.table] at htable
  have hdropped := hunlinked entry htable
  have hne : entry ≠ target := fun hsame => by simp [hsame, htakes.retained] at hdropped
  rwa [htakes.kind_ne hne]

end

omit [DecidableEq π] [DecidableEq τ] in
theorem mem_todo_of (hinv : s.Inv)
    {op : Op τ} (hmem : op ∈ (s.task other).todo) : op ∈ (s'.task other).todo := by
  have hcaller : other ≠ caller := fun hsame => by simp [hsame, htakes.free] at hmem
  have htarget : other ≠ target := fun hsame => by simp [hsame, htakes.todo_target hinv] at hmem
  rwa [htakes.others other hcaller htarget]

omit [DecidableEq π] in
theorem carries : Carries s s' where
  processes owner := (htakes.processes owner).1
  unlinked _ := htakes.unlinked
  gone other hgone := by
    have hkind : (s.task other).kind ≠ .active ∧ (s.task other).kind ≠ .retained := by
      rcases hgone with h | h <;> simp [Task.kind, h]
    rwa [htakes.others other (fun h => hkind.1 (h ▸ htakes.active)) fun h =>
      hkind.2 (h ▸ htakes.retained)]
  known other hkind := by
    refine ⟨(htakes.fields other).1, ?_⟩
    by_cases hsame : other = target
    · rw [hsame, htakes.kind_target]
      simp
    · rwa [htakes.kind_ne hsame]

theorem books (hinv : s.Inv) : s'.Books := by
  have hcallerHolds : (s'.task caller).holds =
      (s.task caller).holds ++ (s'.task caller).todo.filterMap Op.pending := by
    obtain ⟨-, htid, hgtid⟩ := htakes.same
    rw [Task.holds, Task.holds, htakes.kind_caller, htakes.active, htid, hgtid, htakes.free]
    simp
  have htargetHolds : (s'.task target).holds = [] := by
    rw [Task.holds, htakes.kind_target, htakes.removed]
    simp [Kind.owns, htakes.todo_target hinv]
  rcases htakes.todo with ⟨htid, htodo⟩ | ⟨htid, id, htodo⟩
  · have hbefore : (s.task target).holds = [(s.task target).globalTid] := by
      rw [Task.holds, htakes.retained, htakes.todo_target hinv]
      simp [Kind.owns, htid]
    have hsource : (s.holdings (.inr target)).Perm
        ([(s.task target).globalTid] ++ s'.holdings (.inr target)) := by
      rw [holdings, holdings, hbefore, htargetHolds]
      exact .refl _
    have hdest : (s'.holdings (.inr caller)).Perm
        ([(s.task target).globalTid] ++ s.holdings (.inr caller)) := by
      rw [holdings, holdings, hcallerHolds, htodo]
      exact perm_append_comm
    have hne : (.inr target : π ⊕ τ) ≠ .inr caller := fun h => htakes.ne (Sum.inr.inj h).symm
    obtain ⟨hexclusive, hheld⟩ := hinv.exclusive.move hne hsource hdest fun place h h' => by
      cases place with
      | inl owner =>
        obtain ⟨hborn, hpid, hreleased⟩ := Process.life_eq (htakes.processes owner).1
        rw [holdings, holdings, hborn, hpid, hreleased]
      | inr other =>
        rw [holdings, holdings, htakes.others other (fun hsame => h' (congrArg _ hsame))
          fun hsame => h (congrArg _ hsame)]
    exact
      { intact := htakes.crashed.trans hinv.intact
        wellFormed := htakes.ids ▸ hinv.wellFormed
        positive := htakes.ids ▸ hinv.positive
        exclusive := hexclusive
        covers := by rw [hheld, hinv.covers, htakes.ids] }
  · refine hinv.toBooks.keep htakes.ids htakes.crashed htakes.carries.processes fun other => ?_
    by_cases hcaller : other = caller
    · rw [hcaller, hcallerHolds, htodo]
      exact Perm.of_eq (append_nil _)
    · by_cases htarget : other = target
      · rw [htarget, htargetHolds, Task.holds, htakes.todo_target hinv]
        simp [htid]
      · rw [htakes.others other hcaller htarget]

omit [DecidableEq π] in
theorem stage_before {agent : τ} {child : π}
    {remaining : List τ} (hstage : (s'.task agent).stage = .reaping child remaining) :
    (agent ≠ caller ∧ agent ≠ target ∧ (s.task agent).stage = .reaping child remaining) ∨
      (agent = caller ∧ child = (s.task target).home ∧
        (s.task agent).stage = .reaping child (target :: remaining)) := by
  by_cases hcaller : agent = caller
  · right
    rw [hcaller] at hstage ⊢
    rcases htakes.stage with ⟨hlive, -⟩ | ⟨rest, hbefore, hafter⟩
    · simp [hlive] at hstage
    · obtain ⟨rfl, rfl⟩ : (s.task target).home = child ∧ rest = remaining := by
        simpa [hafter] using hstage
      exact ⟨rfl, rfl, hbefore⟩
  · have htarget : agent ≠ target := fun hsame => by
      rw [hsame, htakes.removed] at hstage
      simp at hstage
    rw [htakes.others agent hcaller htarget] at hstage
    exact .inl ⟨hcaller, htarget, hstage⟩

omit [DecidableEq π] [DecidableEq τ] in
theorem taskOk_caller (hinv : s.Inv) : s'.TaskOk caller (s'.task caller) := by
  obtain ⟨hhome, htid, hgtid⟩ := htakes.same
  obtain ⟨hborn, hpid, hreleased⟩ := Process.life_eq (htakes.processes (s.task caller).home).1
  have hpresent : (s.task caller).kind.Present := by
    rw [htakes.active]
    exact ⟨by simp, by simp⟩
  have hop {op : Op τ} (hmem : op ∈ (s'.task caller).todo) :
      op = .drop target ∨ (∃ id, op = .unlink id) ∨ ∃ id, op = .discard id := by
    rcases htakes.todo with ⟨-, htodo⟩ | ⟨-, id, htodo⟩ <;> rw [htodo] at hmem <;>
      rcases mem_cons.mp hmem with h | h
    · exact .inr (.inr ⟨_, h⟩)
    · exact .inl (mem_singleton.mp h)
    · exact .inr (.inl ⟨id, h⟩)
    · exact .inl (mem_singleton.mp h)
  have hstage : (∀ other, (s'.task caller).stage ≠ .waitChecking other) ∧
      ∀ other id, (s'.task caller).stage ≠ .waitRemoving other id := by
    rcases htakes.stage with ⟨h, -⟩ | ⟨rest, -, h⟩ <;> simp [h]
  exact
    { inList := fun _ => by
        rw [hhome, htakes.lists]
        exact ⟨(hinv.ok caller).inList (.inl htakes.active), htakes.ne⟩
      leader := fun _ h => by
        rw [hhome, hgtid, hpid]
        exact (hinv.ok caller).leader hpresent (htid.symm.trans h)
      busy := fun _ => .inl htakes.kind_caller
      idle := fun h => by
        have hkind := htakes.kind_caller
        simp [Task.kind, h] at hkind
      frees := fun id h => by simpa using hop h
      autos := fun h => by simp [htakes.kind_caller] at h
      links := fun id h => by simpa using hop h
      drops := fun other h => by
        obtain rfl : other = target := by simpa using hop h
        rw [htakes.removed]
        exact .inl rfl
      alive := fun _ => by
        rw [hhome, hborn, hreleased]
        exact (hinv.ok caller).alive hpresent
      waits := fun other h => by
        rcases h with h | ⟨id, h⟩
        · exact absurd h (hstage.1 other)
        · exact absurd h (hstage.2 other id)
      waitIds := fun other id h => absurd h (hstage.2 other id) }

omit [DecidableEq π] [DecidableEq τ] in
theorem taskOk_target (hinv : s.Inv) : s'.TaskOk target (s'.task target) := by
  obtain ⟨hborn, hpid, hreleased⟩ := Process.life_eq (htakes.processes (s.task target).home).1
  have hpresent : (s.task target).kind.Present := by
    rw [htakes.retained]
    exact ⟨by simp, by simp⟩
  rw [htakes.removed]
  refine .of_idle (htakes.todo_target hinv) (by simp [Task.kind]) (by simp) (by simp)
    (by simp [Task.kind]) (fun _ htid => ?_) fun _ => ?_
  · rw [hpid]
    exact (hinv.ok target).leader hpresent htid
  · rw [hborn, hreleased]
    exact (hinv.ok target).alive hpresent

end TakesOver

theorem Inv.takeOver (hinv : s.Inv) {target : τ}
    (htakes : TakesOver s s' caller target) : s'.Inv := by
  refine .mk
    { toBooks := htakes.books hinv
      listNodup := htakes.listNodup
      listed := fun owner other hmem => ?_
      slots := fun owner first hfirst second hsecond htid => ?_
      retained := fun other hkind => ?_
      linked := fun id entry htable hdropped => ?_
      reaping := fun agent child remaining hstage => ?_
      reaped := fun owner hreleased => ?_
      reapers := fun agent other child first second hagent hother => ?_ }
    fun other => ?_
  · obtain ⟨hbefore, hne⟩ := (htakes.lists owner other).mp hmem
    rw [htakes.kind_ne hne, (htakes.fields other).1]
    exact hinv.listed owner other hbefore
  · rw [(htakes.fields first).2.1, (htakes.fields second).2.1] at htid
    exact hinv.slots owner first ((htakes.lists owner first).mp hfirst).1 second
      ((htakes.lists owner second).mp hsecond).1 htid
  · have hne : other ≠ target := fun hsame => by simp [hsame, htakes.kind_target] at hkind
    rw [htakes.kind_ne hne] at hkind
    rw [(htakes.fields other).1, htakes.lists]
    rcases hinv.retained other hkind with hmem | ⟨agent, remaining, hstage, hmem⟩
    · exact .inl ⟨hmem, hne⟩
    · right
      by_cases hcaller : agent = caller
      · rw [hcaller] at hstage
        rcases htakes.stage with ⟨-, hnone, -⟩ | ⟨rest, hbefore, hafter⟩
        · exact absurd hstage (hnone _ _)
        · obtain ⟨hhome, rfl⟩ : (s.task target).home = (s.task other).home ∧
              target :: rest = remaining := by simpa [hbefore] using hstage
          exact ⟨caller, rest, by rw [← hhome, hafter], (mem_cons.mp hmem).resolve_left hne⟩
      · have htarget : agent ≠ target := fun hsame => by
          have hretained := htakes.retained
          simp [Task.kind, ← hsame, hstage] at hretained
        exact ⟨agent, remaining, by rwa [htakes.others agent hcaller htarget], hmem⟩
  · rw [htakes.table] at htable
    obtain ⟨-, htid, hgtid⟩ := htakes.fields entry
    have hdiscards : (∃ agent, .discard id ∈ (s.task agent).todo) →
        ∃ agent, .discard id ∈ (s'.task agent).todo := by
      rintro ⟨agent, hmem⟩
      exact ⟨agent, htakes.mem_todo_of hinv hmem⟩
    rw [Backed, htid, hgtid]
    by_cases hsame : entry = target
    · subst hsame
      rw [htakes.kind_target]
      have hbefore := (hinv.linked id entry htable (by simp [htakes.retained])).2
      refine ⟨by simp, ?_⟩
      rcases hbefore with hleader | ⟨hzero, -, hid⟩ | ⟨hid, hmem⟩
      · exact .inl hleader
      · rcases htakes.todo with ⟨-, htodo⟩ | ⟨hleader, -⟩
        · exact .inr (.inr ⟨.inl hid, caller, by rw [htodo, hid]; exact mem_cons_self⟩)
        · exact absurd hleader hzero
      · exact .inr (.inr ⟨hid, hdiscards hmem⟩)
    · rw [htakes.kind_ne hsame] at hdropped ⊢
      obtain ⟨hborn, hbacked⟩ := hinv.linked id entry htable hdropped
      exact ⟨hborn, hbacked.imp_right (Or.imp_right (And.imp_right hdiscards))⟩
  · obtain ⟨hlife, hreaped⟩ := htakes.processes child
    have hunlisted (hempty : (s.process child).tasks = []) : (s'.process child).tasks = [] :=
      eq_nil_iff_forall_not_mem.mpr fun other hmem => by
        simp [htakes.lists, hempty] at hmem
    rcases htakes.stage_before hstage with ⟨hcaller, htarget, hbefore⟩ | ⟨hcaller, hchild, hbefore⟩
    · have hreaps := hinv.reaping agent child remaining hbefore
      have hhome : (s.task target).home ≠ child := fun hhome => by
        rcases htakes.stage with ⟨-, -, hnone⟩ | ⟨rest, hrest, -⟩
        · exact hnone agent remaining (by rw [hhome]; exact hbefore)
        · rw [hhome] at hrest
          exact hcaller (hinv.reapers agent caller child remaining _ hbefore hrest)
      refine hreaps.mono hlife hreaped
        ((hunlisted hreaps.unlisted).trans hreaps.unlisted.symm) (fun other h => ?_)
        (by rw [htakes.others agent hcaller htarget])
      obtain ⟨hsame, -⟩ := htakes.fields other
      refine ⟨hsame, htakes.kind_ne fun htarget => hhome ?_⟩
      rw [← htarget]
      exact h.elim hsame.symm.trans fun hmem => (hreaps.retained other hmem).2
    · subst hcaller
      have hreaps := hinv.reaping agent child (target :: remaining) hbefore
      have hnodup := nodup_cons.mp hreaps.nodup
      obtain ⟨hborn, -, hreleased⟩ := Process.life_eq hlife
      refine ⟨hreaped.trans hreaps.reaped, hborn.trans hreaps.born,
        hreleased.trans hreaps.unreleased, hunlisted hreaps.unlisted, hnodup.2,
        fun other hmem => ?_, fun other hother hkind => ?_⟩
      · have hne : other ≠ target := fun h => hnodup.1 (h ▸ hmem)
        rw [htakes.kind_ne hne, (htakes.fields other).1]
        exact hreaps.retained other (mem_cons_of_mem target hmem)
      · rw [(htakes.fields other).1] at hother
        by_cases hsame : other = target
        · subst hsame
          right
          right
          rcases htakes.todo with ⟨-, htodo⟩ | ⟨-, id, htodo⟩ <;> simp [htodo]
        · rw [htakes.kind_ne hsame] at hkind ⊢
          rcases hreaps.all other hother hkind with hdropped | hrest | hdrop
          · exact .inl hdropped
          · exact .inr (.inl ((mem_cons.mp hrest).resolve_left hsame))
          · simp [htakes.free] at hdrop
  · obtain ⟨hlife, hreaped⟩ := htakes.processes owner
    rw [(Process.life_eq hlife).2.2] at hreleased
    exact hreaped.trans (hinv.reaped owner hreleased)
  · have hbefore {reaper : τ} {remaining : List τ}
        (hstage : (s'.task reaper).stage = .reaping child remaining) :
        ∃ rest, (s.task reaper).stage = .reaping child rest := by
      rcases htakes.stage_before hstage with ⟨-, -, h⟩ | ⟨-, -, h⟩
      · exact ⟨remaining, h⟩
      · exact ⟨target :: remaining, h⟩
    obtain ⟨first', hfirst⟩ := hbefore hagent
    obtain ⟨second', hsecond⟩ := hbefore hother
    exact hinv.reapers agent other child first' second' hfirst hsecond
  · by_cases hcaller : other = caller
    · rw [hcaller]
      exact htakes.taskOk_caller hinv
    · by_cases htarget : other = target
      · rw [htarget]
        exact htakes.taskOk_target hinv
      · rw [htakes.others other hcaller htarget]
        exact (hinv.ok other).mono htakes.carries
          (fun _ h => (htakes.lists _ other).mpr ⟨h, htarget⟩)
          fun waited _ _ => (htakes.fields waited).2.2

theorem Inv.waitRemove (hinv : s.Inv)
    (hexited : ∀ target id, (s.task caller).stage = .waitRemoving target id →
      (s.task target).stage = .retained ∧ (s.task target).tid ≠ 0)
    (hstep : s.waitRemove caller = some s') : s'.Inv := by
  simp only [IdConfig.waitRemove] at hstep
  split at hstep <;> cases hstep
  next target id hstage htodo =>
    obtain ⟨hretained, htid⟩ := hexited target id hstage
    have hid := (hinv.ok caller).waitIds target id hstage
    have hhome := ((hinv.ok caller).waits target (.inr ⟨id, hstage⟩)).1
    have hactive : (s.task caller).kind = .active := congrArg Stage.kind hstage
    have hne : target ≠ caller := fun hsame => by
      rw [hsame, hstage] at hretained
      simp at hretained
    set owner := (s.task caller).home with howner
    set process := s.process owner with hprocess
    set unlisted := s.setProcess owner
      { process with tasks := process.tasks.filter (· ≠ target) } with hunlisted
    have hframe : Frame s (unlisted.setTask caller (s.task caller)) caller :=
      s.frame_setProcess_setTask caller _ ⟨rfl, rfl⟩ rfl
    have hrelease : unlisted.release target = unlisted.setStage target .removed := if_pos hretained
    rw [hrelease]
    refine hinv.takeOver
      { ids := rfl
        crashed := rfl
        table := rfl
        others := fun other hcaller htarget =>
          (setTask_ne _ hcaller _).trans (setTask_ne _ htarget _)
        processes := hframe.processes
        listNodup := fun other => ?_
        lists := fun other item => ?_
        active := hactive
        free := htodo
        retained := congrArg Stage.kind hretained
        removed := (setTask_ne _ hne _).trans (setTask_self _ target _)
        same := by rw [setTask_self]; exact ⟨rfl, rfl, rfl⟩
        todo := .inl ⟨htid, by rw [setTask_self, hid]⟩
        stage := .inl ⟨by rw [setTask_self], fun child remaining h => ?_,
          fun agent remaining h => ?_⟩ }
    · rw [setTask_process, setStage, setTask_process]
      by_cases hsame : other = owner
      · rw [hsame, hunlisted, setProcess_self]
        exact (hinv.listNodup owner).filter _
      · rw [hunlisted, setProcess_ne s hsame]
        exact hinv.listNodup other
    · rw [setTask_process, setStage, setTask_process]
      by_cases hsame : other = owner
      · rw [hsame, hunlisted, setProcess_self]
        simp [hprocess]
      · rw [hunlisted, setProcess_ne s hsame]
        refine ⟨fun hmem => ⟨hmem, fun htarget => hsame ?_⟩, And.left⟩
        rw [← (hinv.listed other item hmem).1, htarget, hhome]
    · simp [hstage] at h
    · rw [hhome] at h
      exact hinv.not_reaping hactive agent remaining h

end IdConfig

end Kairix.TaskIds
