import Kairix.TaskIdRemovals

/-!
# Ids are freed exactly once

Ids are freed once, and are handed out only when nothing carries them, in runs in which
processes are reaped after all their threads have finished and `sys_waittid` removes
only threads which stay for it.  A thread that is still in its exit while its process is
reaped is freed twice.
-/

namespace Kairix.TaskIds

open ExclusiveHoldings RecyclingIds LabelledRun

namespace IdConfig

variable {π τ : Type*} [DecidableEq π] [DecidableEq τ]

variable {s s' : IdConfig π τ} {caller : τ}

theorem Inv.reapTask (hinv : s.Inv) (hstep : s.reapTask caller = some s') : s'.Inv := by
  simp only [IdConfig.reapTask] at hstep
  split at hstep <;> cases hstep
  next child target rest hstage htodo =>
    have hreaps := hinv.reaping caller child (target :: rest) hstage
    obtain ⟨hretained, hhome⟩ := hreaps.retained target List.mem_cons_self
    have hkindStage : (s.task target).stage = .retained := by
      cases h : (s.task target).stage <;> simp [Task.kind, h, Stage.kind] at hretained
      rfl
    have hactive : (s.task caller).kind = .active := congrArg Stage.kind hstage
    have hne : target ≠ caller := fun hsame => by simp [hsame, hactive] at hretained
    have hpid : (s.process child).pid ∈ s.holdings (.inl child) := by
      rw [holdings, if_pos ⟨hreaps.born, hreaps.unreleased⟩]
      exact List.mem_singleton_self _
    have hrelease : s.release target = s.setStage target .removed := if_pos hkindStage
    rw [hrelease]
    refine hinv.takeOver
      { ids := rfl
        crashed := rfl
        table := rfl
        others := fun other hcaller htarget =>
          (setTask_ne _ hcaller _).trans (setTask_ne _ htarget _)
        processes := fun _ => ⟨rfl, rfl⟩
        listNodup := hinv.listNodup
        lists := fun owner other => ?_
        active := hactive
        free := htodo
        retained := hretained
        removed := (setTask_ne _ hne _).trans (setTask_self _ target _)
        same := by rw [setTask_self]; exact ⟨rfl, rfl, rfl⟩
        todo := ?_
        stage := .inr ⟨rest, by rw [hstage, hhome], by rw [setTask_self, hhome]⟩ }
    · refine ⟨fun hmem => ⟨hmem, fun hsame => ?_⟩, And.left⟩
      have howner := (hinv.listed owner other hmem).1
      rw [hsame, hhome] at howner
      rw [← howner, setTask_process, setStage, setTask_process, hreaps.unlisted] at hmem
      simp at hmem
    · rw [setTask_self]
      by_cases htid : (s.task target).tid = 0
      · refine .inr ⟨htid, (s.task target).globalTid, ?_⟩
        have hleader := (hinv.ok target).leader (by rw [hretained]; exact ⟨by simp, by simp⟩) htid
        rw [hhome] at hleader
        simp [hleader]
      · refine .inl ⟨htid, ?_⟩
        have hmem := Inv.mem_holdings_globalTid (by rw [hretained]; rfl) htid
        have hother : (s.task target).globalTid ≠ (s.process child).pid := fun hsame => by
          rw [hsame] at hmem
          exact absurd (hinv.exclusive.unique _ _ _ hpid hmem) (by simp)
        simp [hother]

theorem Inv.reap (hinv : s.Inv) {child : π} (hfinished : ∀ target, (s.task target).home = child →
      (s.task target).stage ≠ .unborn →
        (s.task target).stage = .retained ∨ (s.task target).stage = .dropped)
    (hstep : s.reap caller child = some s') : s'.Inv := by
  simp only [IdConfig.reap] at hstep
  split_ifs at hstep with hguard
  obtain ⟨hlive, hhome, hborn, hreaped, -⟩ := hguard
  cases hstep
  have hactive : (s.task caller).kind = .active := congrArg Stage.kind hlive.1
  have hkinds {target : τ} (htarget : (s.task target).home = child)
      (hkind : (s.task target).kind ≠ .unborn) :
      (s.task target).kind = .retained ∨ (s.task target).kind = .dropped := by
    have hstage : (s.task target).stage ≠ .unborn := fun h =>
      hkind (congrArg Stage.kind h)
    exact (hfinished target htarget hstage).imp (congrArg Stage.kind) (congrArg Stage.kind)
  have hretains {target : τ} (hmem : target ∈ (s.process child).tasks) :
      (s.task target).kind = .retained ∧ (s.task target).home = child := by
    obtain ⟨htarget, howns⟩ := hinv.listed child target hmem
    obtain ⟨hpresent, hdropped⟩ := Kind.present_of_owns howns
    exact ⟨(hkinds htarget hpresent).resolve_right hdropped, htarget⟩
  have hnoReaper (agent : τ) (remaining : List τ) :
      (s.task agent).stage ≠ .reaping child remaining := fun hstage => by
    have hbefore := (hinv.reaping agent child remaining hstage).reaped
    simp [hreaped] at hbefore
  have hunreleased : (s.process child).released = false := by
    by_contra h
    have hbefore := hinv.reaped child (by simpa using h)
    simp [hreaped] at hbefore
  set process := s.process child with hprocess
  set taken := s.setProcess child { process with tasks := [], reaped := true } with htaken
  set new : Task π τ := { s.task caller with stage := .reaping child process.tasks } with hnew
  set s' := taken.setStage caller (.reaping child process.tasks) with hafter
  have hself : s'.task caller = new := setTask_self _ caller _
  have hothers {other : τ} (hne : other ≠ caller) : s'.task other = s.task other :=
    setTask_ne _ hne _
  have hkindSame (other : τ) : (s'.task other).kind = (s.task other).kind := by
    by_cases hsame : other = caller
    · rw [hsame, hself, hactive]
      rfl
    · rw [hothers hsame]
  have hfields (other : τ) : (s'.task other).home = (s.task other).home ∧
      (s'.task other).tid = (s.task other).tid ∧
      (s'.task other).globalTid = (s.task other).globalTid ∧
      (s'.task other).todo = (s.task other).todo := by
    by_cases hsame : other = caller
    · rw [hsame, hself]
      exact ⟨rfl, rfl, rfl, rfl⟩
    · rw [hothers hsame]
      exact ⟨rfl, rfl, rfl, rfl⟩
  have hchild : s'.process child = { process with tasks := [], reaped := true } := by
    rw [hafter, setStage, setTask_process, htaken, setProcess_self]
  have hprocesses {owner : π} (hne : owner ≠ child) : s'.process owner = s.process owner := by
    rw [hafter, setStage, setTask_process, htaken, setProcess_ne s hne]
  have hmem {owner : π} {target : τ} (h : target ∈ (s'.process owner).tasks) :
      target ∈ (s.process owner).tasks := by
    by_cases howner : owner = child
    · rw [howner, hchild] at h
      simp at h
    · rwa [hprocesses howner] at h
  have hstages {agent : τ} {owner : π} {remaining : List τ}
      (h : (s'.task agent).stage = .reaping owner remaining) :
      (agent = caller ∧ owner = child ∧ remaining = process.tasks) ∨
        (s.task agent).stage = .reaping owner remaining := by
    by_cases hsame : agent = caller
    · rw [hsame, hself] at h
      obtain ⟨rfl, rfl⟩ : child = owner ∧ process.tasks = remaining := by simpa [hnew] using h
      exact .inl ⟨hsame, rfl, rfl⟩
    · rw [hothers hsame] at h
      exact .inr h
  have hcarries : Carries s s' :=
    { processes := fun owner => by
        by_cases howner : owner = child
        · rw [howner, hchild]
          rfl
        · rw [hprocesses howner]
      unlinked := fun id h target htable => (hkindSame target).trans (h target htable)
      gone := fun other h => by
        rwa [hothers fun hsame => by simp [hsame, hlive.1] at h]
      known := fun other h => ⟨(hfields other).1, by rwa [hkindSame]⟩ }
  have hbooks : s'.Books := hinv.toBooks.keep rfl rfl hcarries.processes fun other => by
    obtain ⟨-, htid, hgtid, htodo⟩ := hfields other
    rw [Task.holds, Task.holds, hkindSame, htid, hgtid, htodo]
  refine .mk
    { toBooks := hbooks
      listNodup := fun owner => ?_
      listed := fun owner target h => ?_
      slots := fun owner first hfirst second hsecond htid => ?_
      retained := fun target hretained => ?_
      linked := fun id target htable hdropped => ?_
      reaping := fun agent owner remaining hstage => ?_
      reaped := fun owner h => ?_
      reapers := fun agent other owner first second hagent hother => ?_ }
    fun target => ?_
  · by_cases howner : owner = child
    · rw [howner, hchild]
      exact List.nodup_nil
    · rw [hprocesses howner]
      exact hinv.listNodup owner
  · rw [hkindSame, (hfields target).1]
    exact hinv.listed owner target (hmem h)
  · rw [(hfields first).2.1, (hfields second).2.1] at htid
    exact hinv.slots owner first (hmem hfirst) second (hmem hsecond) htid
  · rw [hkindSame] at hretained
    rw [(hfields target).1]
    rcases hinv.retained target hretained with hlisted | ⟨agent, remaining, hstage, hrest⟩
    · by_cases htarget : (s.task target).home = child
      · rw [htarget] at hlisted ⊢
        exact .inr ⟨caller, process.tasks, by rw [hself], hlisted⟩
      · rw [hprocesses htarget]
        exact .inl hlisted
    · have hne : agent ≠ caller := fun hsame => by simp [hsame, hlive.1] at hstage
      exact .inr ⟨agent, remaining, by rwa [hothers hne], hrest⟩
  · obtain ⟨-, htid, hgtid, -⟩ := hfields target
    rw [hkindSame] at hdropped ⊢
    obtain ⟨hb, hbacked⟩ := hinv.linked id target htable hdropped
    rw [Backed, hkindSame, htid, hgtid]
    refine ⟨hb, hbacked.imp_right (Or.imp_right (And.imp_right ?_))⟩
    rintro ⟨agent, h⟩
    exact ⟨agent, by rwa [(hfields agent).2.2.2]⟩
  · rcases hstages hstage with ⟨rfl, rfl, rfl⟩ | hbefore
    · refine ⟨by rw [hchild], by rw [hchild]; exact hborn, by rw [hchild]; exact hunreleased,
        by rw [hchild], hinv.listNodup owner, fun target h => ?_, fun target h hkind => ?_⟩
      · rw [hkindSame, (hfields target).1]
        exact hretains h
      · rw [hkindSame] at hkind ⊢
        rw [(hfields target).1] at h
        rcases hkinds h hkind with hretained | hdropped
        · rcases hinv.retained target hretained with hlisted | ⟨other, rest, hother, -⟩
          · rw [h] at hlisted
            exact .inr (.inl hlisted)
          · rw [h] at hother
            exact absurd hother (hnoReaper other rest)
        · exact .inl hdropped
    · have hsame := hprocesses fun h => hnoReaper agent remaining (h ▸ hbefore)
      exact (hinv.reaping agent owner remaining hbefore).mono (by rw [hsame]) (by rw [hsame])
        (by rw [hsame]) (fun target _ => ⟨(hfields target).1, hkindSame target⟩)
        (hfields agent).2.2.2
  · by_cases howner : owner = child
    · rw [howner, hchild]
    · rw [hprocesses howner] at h ⊢
      exact hinv.reaped owner h
  · rcases hstages hagent with ⟨rfl, rfl, -⟩ | hagent'
    · rcases hstages hother with ⟨rfl, -⟩ | hother'
      · rfl
      · exact absurd hother' (hnoReaper other second)
    · rcases hstages hother with ⟨-, rfl, -⟩ | hother'
      · exact absurd hagent' (hnoReaper agent first)
      · exact hinv.reapers agent other owner first second hagent' hother'
  · have hok : s'.TaskOk target (s.task target) := by
      refine (hinv.ok target).mono hcarries (fun hkind h => ?_)
        fun waited _ _ => (hfields waited).2.2.1
      have hne : (s.task target).home ≠ child := fun htarget => by
        rw [htarget] at h
        exact hkind (hretains h).1
      rwa [hprocesses hne]
    by_cases hsame : target = caller
    · subst hsame
      rw [hself]
      exact hok.restage hactive.symm (by simp) (by simp) (by simp)
    · rw [hothers hsame]
      exact hok

theorem Inv.reapDone (hinv : s.Inv) (hstep : s.reapDone caller = some s') : s'.Inv := by
  simp only [IdConfig.reapDone] at hstep
  split at hstep
  · next child hstage htodo =>
    have hreaps := hinv.reaping caller child [] hstage
    have hactive : (s.task caller).kind = .active := congrArg Stage.kind hstage
    have hreturned : (s.setStage caller .live).Inv :=
      hinv.restagePlain hstage rfl (.inl rfl) (by simp [Plain]) (by simp +contextual)
    have hpid : (s.process child).pid ∈ s.holdings (.inl child) := by
      rw [holdings, if_pos ⟨hreaps.born, hreaps.unreleased⟩]
      exact List.mem_singleton_self _
    rw [if_neg (by simp [hreaps.unreleased]),
      Allocator.dealloc_of_allocated (hinv.toBooks.allocated hpid).2] at hstep
    cases hstep
    have hself : ((s.setStage caller .live).task caller).stage = .live := by
      rw [setStage, setTask_self]
    refine hreturned.replaceProcess hreaps.unlisted (fun target hhome hpresent => ?_)
      (fun agent remaining h => ?_) (fun _ => hreaps.reaped) (hreturned.toBooks.giveBack rfl rfl ?_
        fun place (hne : place ≠ .inl child) => ?_)
    · have hsame : (s.setStage caller .live).task target = s.task target := by
        refine setTask_ne _ (fun hcaller => ?_) _
        rw [hcaller, setStage, setTask_self] at hhome
        exact hinv.not_reaping hactive caller [] (by rw [hstage, ← hhome])
      rw [hsame] at hhome hpresent
      rcases hreaps.all target hhome hpresent.1 with hdropped | hrest | hdrop
      · exact hpresent.2 hdropped
      · simp at hrest
      · simp [htodo] at hdrop
    · have hne : agent ≠ caller := fun hsame => by simp [hsame, hself] at h
      rw [setStage, setTask_ne _ hne] at h
      exact hne (hinv.reapers agent caller child remaining [] h hstage)
    · rw [holdings, holdings, setProcess_self]
      simp [setStage, hreaps.born, hreaps.unreleased]
    · cases place with
      | inl owner =>
        rw [holdings, holdings, setProcess_ne _ fun hsame => hne (congrArg _ hsame)]
      | inr target => rfl
  · simp at hstep

/-! ## Runs in which ids are freed once -/

def Waitable (config : IdConfig π τ) : Stage π τ → Prop
  | .waitRemoving target _ =>
    (config.task target).stage = .retained ∧ (config.task target).tid ≠ 0
  | _ => True

/-- `sys_waittid` removes a thread that is not the leader and stays for it, and the
threads of a reaped process have finished. -/
def Settled (config : IdConfig π τ) : IdStep π τ → Prop
  | .waitRemove caller => config.Waitable (config.task caller).stage
  | .reap _ child => ∀ target, (config.task target).home = child →
      (config.task target).stage ≠ .unborn →
        (config.task target).stage = .retained ∨ (config.task target).stage = .dropped
  | _ => True

theorem Inv.next {s' : IdConfig π τ} (hinv : s.Inv) {step : IdStep π τ}
    (hsettled : s.Settled step) (hstep : s.next step = some s') : s'.Inv := by
  cases step with
  | fork caller child leader => exact hinv.fork hstep
  | spawn caller target tid auto => exact hinv.spawn hstep
  | link caller => exact hinv.link hstep
  | start caller => exact hinv.start hstep
  | setAuto caller =>
    simp only [IdConfig.next, setAuto] at hstep
    split_ifs at hstep
    cases hstep
    exact hinv.of_strip (s.strip_setTask caller true _ _)
  | kill target =>
    cases hstep
    exact hinv.of_strip (s.strip_setProcess target _ true _ _)
  | requestExit target =>
    simp only [IdConfig.next, requestExit] at hstep
    split_ifs at hstep
    cases hstep
    exact hinv.of_strip (s.strip_setTask target _ _ true)
  | execBegin caller => exact hinv.execBegin hstep
  | execRequest caller => exact hinv.execRequest hstep
  | execPromote caller => exact hinv.execPromote hstep
  | execAbandon caller =>
    simp only [IdConfig.next, execAbandon] at hstep
    split_ifs at hstep with hguard
    cases hstep
    exact hinv.restagePlain hguard.1.1 rfl (.inl rfl) (by simp [Plain]) (by simp)
  | waitLook caller id => exact hinv.waitLook hstep
  | waitCheck caller => exact hinv.waitCheck hstep
  | waitRemove caller =>
    refine hinv.waitRemove (fun target id hstage => ?_) hstep
    change s.Waitable (s.task caller).stage at hsettled
    rw [hstage] at hsettled
    exact hsettled
  | exit caller => exact hinv.exit hstep
  | count caller => exact hinv.count hstep
  | detach caller => exact hinv.detach hstep
  | drain target => exact hinv.drain hstep
  | reap caller child => exact hinv.reap hsettled hstep
  | reapTask caller => exact hinv.reapTask hstep
  | reapDone caller => exact hinv.reapDone hstep
  | op caller => exact hinv.op hstep

def unbooted (root : π) : IdConfig π τ where
  ids := .withStart 1
  table _ := none
  process _ := ⟨false, 0, [], 0, false, none, false, false, false⟩
  task _ := ⟨root, 0, 0, false, false, false, .unborn, []⟩
  crashed := false

attribute [local simp] unbooted Allocator.withStart

omit [DecidableEq π] [DecidableEq τ] in
theorem inv_unbooted (root : π) : (unbooted root : IdConfig π τ).Inv := by
  have hholds (place : π ⊕ τ) : (unbooted root).holdings place = [] := by
    cases place <;> simp [holdings, Task.holds, Task.kind, Stage.kind, Kind.owns]
  refine .mk
    { intact := rfl
      wellFormed := ⟨List.nodup_nil, by simp⟩
      positive := by simp
      exclusive := .of_empty hholds
      covers := ?_
      listNodup := fun _ => List.nodup_nil
      listed := by simp
      slots := by simp
      retained := by simp [Task.kind, Stage.kind]
      linked := by simp
      reaping := by simp
      reaped := by simp
      reapers := by simp }
    fun _ => .of_idle rfl (by simp [Task.kind, Stage.kind]) (by simp)
      (by simp) (by simp [Task.kind, Stage.kind])
      (fun hpresent => absurd rfl hpresent.1) fun hpresent => absurd rfl hpresent.1
  rw [held_of_empty hholds]
  ext id
  simp [Allocator.Allocated]
  omega

theorem inv_boot (root : π) (first : τ) : (boot root first).Inv := by
  have hborn := (inv_unbooted root : (unbooted root : IdConfig π τ).Inv).bearLeader
    (rfl : ((unbooted root).process root).born = false)
    (rfl : ((unbooted root).task first).stage = .unborn)
  have hlinked := hborn.linkLeader (by simp [Task.kind, Stage.kind, Kind.Present])
    (congrArg Task.tid (setTask_self _ first _))
  have hready := hlinked.restagePlain (congrArg Task.stage (setTask_self _ first _))
    (rfl : (Stage.embryo true : Stage π τ).kind = _) (.inr (.inr rfl)) (by simp [Plain]) (by simp)
  have hstarted := hready.begin 1 (congrArg Task.stage (setTask_self _ first _))
    (.inl ⟨by simp [setStage, setTable], rfl⟩)
  convert hstarted using 1
  simp [boot, setStage, setTask, setProcess, setTable, Allocator.nextId]

theorem inv_of_reachable {root : π} {first : τ}
    (hreach : Reachable next Settled (boot root first) s) : s.Inv :=
  hreach.invariant (inv_boot root first) fun _ _ _ hinv hsettled hstep => hinv.next hsettled hstep

/-! ## What a run keeps -/

def homeOf (config : IdConfig π τ) : π ⊕ τ → π
  | .inl owner => owner
  | .inr target => (config.task target).home

/-- No assertion of the allocator has failed, the id which is handed out next is carried
by nobody in the table or in a list, and every id in use has one owner, in a process
which has not been reaped. -/
structure Sound (config : IdConfig π τ) : Prop where
  intact : config.crashed = false
  fresh : config.lookup config.ids.nextId = none ∧
    (∀ id target, config.lookup id = some target →
      (config.task target).globalTid ≠ config.ids.nextId) ∧
    ∀ owner, ∀ target ∈ (config.process owner).tasks,
      (config.task target).globalTid ≠ config.ids.nextId
  owned : ∀ id, 1 ≤ id → config.ids.Allocated id → ∃! place, id ∈ config.holdings place
  reaped : ∀ owner, (config.process owner).released = true → ∀ place,
    config.homeOf place = owner → config.holdings place = []

variable {target : τ}

theorem Inv.lookup_some (hinv : s.Inv) {id : ℕ} (hlookup : s.lookup id = some target) :
    (s.task target).kind.Present ∧ s.Backed id target := by
  obtain ⟨htable, hstage⟩ := Option.filter_eq_some_iff.mp hlookup
  have hdropped : (s.task target).kind ≠ .dropped := by
    simp only [ne_eq, decide_not, Bool.not_eq_eq_eq_not, Bool.not_true,
      decide_eq_false_iff_not] at hstage
    cases h : (s.task target).stage <;> simp_all [Task.kind, Stage.kind]
  obtain ⟨hborn, hbacked⟩ := hinv.linked id target htable hdropped
  exact ⟨⟨hborn, hdropped⟩, hbacked⟩

omit [DecidableEq π] [DecidableEq τ] in
theorem Inv.allocated_globalTid (hinv : s.Inv) (hpresent : (s.task target).kind.Present)
    (howns : (s.task target).tid = 0 ∨ (s.task target).kind.owns = true) :
    s.ids.Allocated (s.task target).globalTid := by
  by_cases htid : (s.task target).tid = 0
  · rw [(hinv.ok target).leader hpresent htid]
    exact (hinv.toBooks.allocated (hinv.mem_holdings_pid hpresent)).2
  · exact (hinv.toBooks.allocated (Inv.mem_holdings_globalTid (howns.resolve_left htid) htid)).2

theorem Inv.allocated_of_lookup (hinv : s.Inv) {id : ℕ} (hlookup : s.lookup id = some target) :
    s.ids.Allocated id ∧ s.ids.Allocated (s.task target).globalTid := by
  obtain ⟨hpresent, hbacked⟩ := hinv.lookup_some hlookup
  rcases hbacked with ⟨htid, rfl⟩ | ⟨-, howns, rfl⟩ | ⟨hid, agent, hmem⟩
  · have hallocated := hinv.allocated_globalTid hpresent (.inl htid)
    exact ⟨hallocated, hallocated⟩
  · have hallocated := hinv.allocated_globalTid hpresent (.inr howns)
    exact ⟨hallocated, hallocated⟩
  · have hpending : id ∈ s.holdings (.inr agent) :=
      List.mem_append_right _ (List.mem_filterMap.mpr ⟨.discard id, hmem, rfl⟩)
    have hallocated := (hinv.toBooks.allocated hpending).2
    rcases hid with rfl | htid
    · exact ⟨hallocated, hallocated⟩
    · exact ⟨hallocated, hinv.allocated_globalTid hpresent (.inl htid)⟩

theorem Inv.sound (hinv : s.Inv) : s.Sound where
  intact := hinv.intact
  fresh := by
    have hnext := s.ids.not_allocated_nextId
    refine ⟨?_, fun id target hlookup hsame => ?_, fun owner target hmem hsame => ?_⟩
    · by_contra hsome
      obtain ⟨target, hlookup⟩ := Option.ne_none_iff_exists'.mp hsome
      exact hnext (hinv.allocated_of_lookup hlookup).1
    · exact hnext (hsame ▸ (hinv.allocated_of_lookup hlookup).2)
    · have howns := (hinv.listed owner target hmem).2
      exact hnext (hsame ▸ hinv.allocated_globalTid (Kind.present_of_owns howns) (.inr howns))
  owned id hone hallocated := by
    have hheld : id ∈ held s.holdings := by
      rw [hinv.covers]
      exact ⟨hone, hallocated⟩
    obtain ⟨place, hmem⟩ := hheld
    exact ⟨place, hmem, fun other hother => hinv.exclusive.unique other place id hother hmem⟩
  reaped owner hreleased place hhome := by
    cases place with
    | inl other =>
      obtain rfl : other = owner := hhome
      simp [holdings, hreleased]
    | inr target =>
      obtain rfl : (s.task target).home = owner := hhome
      have hgone : ¬ (s.task target).kind.Present := fun hpresent => by
        have halive := ((hinv.ok target).alive hpresent).2
        simp [hreleased] at halive
      have htodo : (s.task target).todo = [] := by
        by_contra h
        refine hgone ?_
        rcases (hinv.ok target).busy h with hkind | ⟨auto, hkind⟩ | hkind <;> rw [hkind] <;>
          exact ⟨by simp, by simp⟩
      have howns : (s.task target).kind.owns ≠ true := fun h =>
        hgone (Kind.present_of_owns h)
      simp [holdings, Task.holds, htodo, howns]

instance (config : IdConfig π τ) (stage : Stage π τ) : Decidable (config.Waitable stage) := by
  unfold Waitable
  cases stage <;> infer_instance

instance [Fintype τ] (config : IdConfig π τ) (step : IdStep π τ) :
    Decidable (config.Settled step) := by
  unfold Settled
  cases step <;> infer_instance

def twoThreads : List (IdStep (Fin 2) (Fin 3)) :=
  [.fork i₀ i₁ i₁, .link i₀, .start i₀, .spawn i₁ i₂ 1 true, .link i₁, .start i₁]

end IdConfig

end Kairix.TaskIds
