import Kairix.ExclusiveHoldings
import Kairix.ProcessTree

/-!
# Adoption of orphans

The invariant of the process tree: processes which have not been reaped are held
exclusively by children lists and by agents, and re-parenting is the job of one agent
for every process which exits.  The lemmas say what single sections keep.
-/

namespace Kairix.ProcessTree

open LabelledRun ExclusiveHoldings List

variable {π α : Type*}

/-- A process which is being reaped is in the hands of its reaper. -/
def Reason.holds (old : π) : Reason → List π
  | .reap => [old]
  | _ => []

namespace Activity

def holds : Activity π → List π
  | .idle => []
  | .cloning _ child _ => [child]
  | .taking reason old => reason.holds old
  | .visiting reason old todo adopted remaining =>
    reason.holds old ++ (todo ++ (adopted ++ remaining))
  | .returning reason old adopted remaining => reason.holds old ++ (adopted ++ remaining)
  | .giving reason old adopted => reason.holds old ++ adopted
  | .settling reason old => reason.holds old

def job : Activity π → Option (Reason × π)
  | .idle => none
  | .cloning _ _ _ => none
  | .taking reason old => some (reason, old)
  | .visiting reason old _ _ _ => some (reason, old)
  | .returning reason old _ _ => some (reason, old)
  | .giving reason old _ => some (reason, old)
  | .settling reason old => some (reason, old)

end Activity

namespace TreeConfig

def holdings (config : TreeConfig π α) : π ⊕ α → List π
  | .inl owner => (config.process owner).children
  | .inr agent => (config.agent agent).holds

def JobFits (root : π) (s : TreeConfig π α) (reason : Reason) (old : π) : Prop :=
  old ≠ root ∧ (s.process old).born = true ∧
    match reason with
    | .exit => (s.process old).threads = 0 ∧ (s.process old).exiting = true
    | .signal => True
    | .reap => (s.process old).threads = 0 ∧ (s.process old).exiting = false

def parentOf (config : TreeConfig π α) (child : π) : Option π := (config.process child).parent

def HandsFit (root : π) (s : TreeConfig π α) : Activity π → Prop
  | .cloning _ child owner => ∀ parent, owner = some parent → s.parentOf child = some parent
  | .visiting _ old todo adopted remaining =>
    (∀ child ∈ todo, s.parentOf child = some old) ∧
      (∀ child ∈ adopted, s.parentOf child = some root) ∧ remaining = []
  | .returning _ _ adopted remaining =>
    (∀ child ∈ adopted, s.parentOf child = some root) ∧ remaining = []
  | .giving _ _ adopted => ∀ child ∈ adopted, s.parentOf child = some root
  | _ => True

structure Inv (root : π) (s : TreeConfig π α) : Prop where
  rootBorn : (s.process root).born = true
  publishedBorn : ∀ target, (s.process target).published = true →
    (s.process target).born = true
  exclusive : Exclusive s.holdings
  covers : held s.holdings = {target | (s.process target).born = true ∧
    (s.process target).reaped = false ∧ target ≠ root}
  listed : ∀ owner, ∀ child ∈ (s.process owner).children, s.parentOf child = some owner
  jobs : ∀ agent reason old, (s.agent agent).job = some (reason, old) →
    s.JobFits root reason old
  hands : ∀ agent, s.HandsFit root (s.agent agent)
  exitUnique : ∀ agent other old, (s.agent agent).job = some (.exit, old) →
    (s.agent other).job = some (.exit, old) → agent = other
  settled : ∀ target, target ≠ root → (s.process target).threads = 0 →
    (s.process target).children = [] ∨ ∃ agent, s.agent agent = .taking .exit target
  finishing : ∀ target, (s.process target).exiting = true →
    (s.process target).finishing = true
  bornThreads : ∀ target, (s.process target).born = false →
    (s.process target).threads = 0 ∧ (s.process target).exiting = false

variable {root : π} {s s' : TreeConfig π α} {activity : Activity π}

attribute [local simp] Activity.holds Activity.job setChildren Process.fresh parentOf JobFits

theorem HandsFit.mono (hfits : s.HandsFit root activity)
    (hparents : ∀ child ∈ activity.holds, s'.parentOf child = s.parentOf child) :
    s'.HandsFit root activity := by
  cases activity with
  | cloning caller child owner =>
    intro parent howner
    rw [hparents child (mem_singleton_self child)]
    exact hfits parent howner
  | visiting reason old todo adopted remaining =>
    obtain ⟨htodo, hadopted, hremaining⟩ := hfits
    refine ⟨fun child hmem => ?_, fun child hmem => ?_, hremaining⟩
    · rw [hparents child (by simp [hmem])]
      exact htodo child hmem
    · rw [hparents child (by simp [hmem])]
      exact hadopted child hmem
  | returning reason old adopted remaining =>
    refine ⟨fun child hmem => ?_, hfits.2⟩
    rw [hparents child (by simp [hmem])]
    exact hfits.1 child hmem
  | giving reason old adopted =>
    intro child hmem
    rw [hparents child (by simp [hmem])]
    exact hfits child hmem
  | _ => trivial

section Updates

variable [DecidableEq π]

variable (s : TreeConfig π α)

@[simp] theorem setProcess_self (target : π) (process : Process π) :
    (s.setProcess target process).process target = process := by
  simp [setProcess]

@[simp] theorem setProcess_ne {target other : π} (hne : other ≠ target) (process : Process π) :
    (s.setProcess target process).process other = s.process other := by
  simp [setProcess, hne]

@[simp] theorem setProcess_agent (target : π) (process : Process π) :
    (s.setProcess target process).agent = s.agent := rfl

section

omit [DecidableEq π]

@[simp] theorem setAgent_process [DecidableEq α] (agent : α) (activity : Activity π) :
    (s.setAgent agent activity).process = s.process := rfl

@[simp] theorem setAgent_self [DecidableEq α] (agent : α) (activity : Activity π) :
    (s.setAgent agent activity).agent agent = activity := by
  simp [setAgent]

@[simp] theorem setAgent_ne [DecidableEq α] {agent other : α} (hne : other ≠ agent)
    (activity : Activity π) :
    (s.setAgent agent activity).agent other = s.agent other := by
  simp [setAgent, hne]

end

end Updates

/-! ## What a step may change -/

/-- A process changes in nothing that parents and re-parenting rely on. -/
structure Steady (old new : Process π) : Prop where
  born : new.born = old.born
  published : new.published = true → old.born = true
  parent : new.parent = old.parent
  threads : new.threads = 0 ↔ old.threads = 0
  exiting : new.exiting = old.exiting
  finishing : new.exiting = true → new.finishing = true
  reaped : new.reaped = old.reaped

theorem Inv.steady (hinv : s.Inv root) (target : π) :
    Steady (s.process target) (s.process target) :=
  ⟨rfl, hinv.publishedBorn target, rfl, Iff.rfl, rfl, hinv.finishing target, rfl⟩

variable {old : π} {reason : Reason}

theorem JobFits.steady (hfits : s.JobFits root reason old)
    (hsteady : Steady (s.process old) (s'.process old)) :
    s'.JobFits root reason old := by
  obtain ⟨hroot, hborn, hreason⟩ := hfits
  refine ⟨hroot, hsteady.born.trans hborn, ?_⟩
  cases reason with
  | exit | reap => exact ⟨hsteady.threads.mpr hreason.1, hsteady.exiting.trans hreason.2⟩
  | signal => trivial

theorem Inv.change (hinv : s.Inv root)
    (hsteady : ∀ target, Steady (s.process target) (s'.process target))
    (hexclusive : Exclusive s'.holdings) (hheld : held s'.holdings = held s.holdings)
    (hlisted : ∀ owner, ∀ child ∈ (s'.process owner).children, s.parentOf child = some owner)
    (hjobs : ∀ agent reason old, (s'.agent agent).job = some (reason, old) →
      s.JobFits root reason old) (hhands : ∀ agent, s.HandsFit root (s'.agent agent))
    (hexit : ∀ agent old, (s'.agent agent).job = some (.exit, old) →
      (s.agent agent).job = some (.exit, old))
    (hsettled : ∀ target, target ≠ root → (s.process target).threads = 0 →
      (s'.process target).children = [] ∨ ∃ agent, s'.agent agent = .taking .exit target) :
    s'.Inv root where
  rootBorn := (hsteady root).born.trans hinv.rootBorn
  publishedBorn target hpublished :=
    (hsteady target).born.trans ((hsteady target).published hpublished)
  exclusive := hexclusive
  covers := by
    rw [hheld, hinv.covers]
    ext target
    simp [(hsteady target).born, (hsteady target).reaped]
  listed owner child hmem := (hsteady child).parent.trans (hlisted owner child hmem)
  jobs agent reason old hjob := (hjobs agent reason old hjob).steady (hsteady old)
  hands agent := (hhands agent).mono fun child _ => (hsteady child).parent
  exitUnique agent other old hagent hother :=
    hinv.exitUnique agent other old (hexit agent old hagent) (hexit other old hother)
  settled target hne hthreads := hsettled target hne ((hsteady target).threads.mp hthreads)
  finishing target := (hsteady target).finishing
  bornThreads target hborn := by
    rw [(hsteady target).born] at hborn
    obtain ⟨hthreads, hexiting⟩ := hinv.bornThreads target hborn
    exact ⟨(hsteady target).threads.mpr hthreads, (hsteady target).exiting.trans hexiting⟩

variable [DecidableEq π]

variable {target : π}

theorem Inv.setProcess (hinv : s.Inv root) {new : Process π}
    (hsteady : Steady (s.process target) new)
    (hchildren : new.children = (s.process target).children) :
    (s.setProcess target new).Inv root := by
  have hsame (other : π) : ((s.setProcess target new).process other).children =
      (s.process other).children := by
    by_cases h : other = target
    · subst h
      simpa using hchildren
    · rw [setProcess_ne s h]
  have hholdings : (s.setProcess target new).holdings = s.holdings := by
    funext place
    cases place with
    | inl owner => exact hsame owner
    | inr agent => rfl
  refine hinv.change (fun other => ?_) (hholdings ▸ hinv.exclusive) (by rw [hholdings])
    (fun owner child hmem => hinv.listed owner child (hsame owner ▸ hmem)) hinv.jobs hinv.hands
    (fun _ _ => id) (fun other hne hthreads => ?_)
  · by_cases h : other = target
    · subst h
      simpa using hsteady
    · rw [setProcess_ne s h]
      exact hinv.steady other
  · rw [hsame]
    exact hinv.settled other hne hthreads

variable [DecidableEq α]

structure Goes (root : π) (s : TreeConfig π α) (agent : α) (activity : Activity π) : Prop where
  hands : s.HandsFit root activity
  jobs : ∀ reason old, activity.job = some (reason, old) → s.JobFits root reason old
  exits : ∀ old, activity.job = some (.exit, old) → (s.agent agent).job = some (.exit, old)

variable {agent : α}

omit [DecidableEq π] [DecidableEq α] in
theorem Inv.goes (hinv : s.Inv root) (hjob : (s.agent agent).job = activity.job)
    (hhands : s.HandsFit root activity) : Goes root s agent activity :=
  ⟨hhands, fun reason old h => hinv.jobs agent reason old (hjob.trans h), fun _ => hjob.trans⟩

omit [DecidableEq π] [DecidableEq α] in
theorem Goes.idle : Goes root s agent .idle :=
  ⟨trivial, by simp, by simp⟩

omit [DecidableEq π] in
theorem Inv.act {middle : TreeConfig π α} (hinv : s.Inv root) (hagent : middle.agent = s.agent)
    (hsteady : ∀ target, Steady (s.process target) (middle.process target))
    (hgoes : Goes root s agent activity)
    (hexclusive : Exclusive (middle.setAgent agent activity).holdings)
    (hheld : held (middle.setAgent agent activity).holdings = held s.holdings)
    (hlisted : ∀ owner, ∀ child ∈ (middle.process owner).children, s.parentOf child = some owner)
    (hsettled : ∀ target, target ≠ root → (s.process target).threads = 0 →
      (s.process target).children = [] ∨ s.agent agent = .taking .exit target →
        (middle.process target).children = []) :
    (middle.setAgent agent activity).Inv root := by
  have hother {other : α} (hne : other ≠ agent) :
      (middle.setAgent agent activity).agent other = s.agent other := by
    rw [setAgent_ne middle hne, hagent]
  refine hinv.change hsteady hexclusive hheld hlisted (fun other reason old hjob => ?_)
    (fun other => ?_) (fun other old hjob => ?_) (fun target hne hthreads => ?_)
  · by_cases hsame : other = agent
    · subst hsame
      exact hgoes.jobs reason old (by simpa using hjob)
    · exact hinv.jobs other reason old (hother hsame ▸ hjob)
  · by_cases hsame : other = agent
    · subst hsame
      simpa using hgoes.hands
    · rw [hother hsame]
      exact hinv.hands other
  · by_cases hsame : other = agent
    · subst hsame
      exact hgoes.exits old (by simpa using hjob)
    · exact hother hsame ▸ hjob
  · rcases hinv.settled target hne hthreads with hempty | ⟨other, htaking⟩
    · exact .inl (hsettled target hne hthreads (.inl hempty))
    · by_cases hsame : other = agent
      · subst hsame
        exact .inl (hsettled target hne hthreads (.inr htaking))
      · exact .inr ⟨other, (hother hsame).trans htaking⟩

omit [DecidableEq π] in
theorem Inv.setAgent (hinv : s.Inv root) (hholds : activity.holds.Perm (s.agent agent).holds)
    (hgoes : Goes root s agent activity)
    (htaking : ∀ old, s.agent agent = .taking .exit old → (s.process old).children = []) :
    (s.setAgent agent activity).Inv root := by
  have hplace (place : π ⊕ α) :
      ((s.setAgent agent activity).holdings place).Perm (s.holdings place) := by
    cases place with
    | inl owner => exact .refl _
    | inr other =>
      by_cases hsame : other = agent
      · subst hsame
        simpa [holdings] using hholds
      · simp [holdings, hsame]
  exact hinv.act rfl hinv.steady hgoes (hinv.exclusive.of_perm hplace) (held_of_perm hplace)
    hinv.listed fun target _ _ hempty => hempty.elim id (htaking target)

variable {owner : π}

theorem Inv.moves (hinv : s.Inv root) {children : List π} (hgoes : Goes root s agent activity)
    (hmoves : (∃ items, (s.process owner).children.Perm (items ++ children) ∧
        activity.holds.Perm (items ++ (s.agent agent).holds)) ∨
      ∃ items, (s.agent agent).holds.Perm (items ++ activity.holds) ∧
        children.Perm (items ++ (s.process owner).children) ∧
        ∀ item ∈ items, s.parentOf item = some owner)
    (hsettled : owner ≠ root → (s.process owner).threads = 0 →
      (s.process owner).children = [] ∨ s.agent agent = .taking .exit owner → children = [])
    (htaking : ∀ target, target ≠ owner → s.agent agent ≠ .taking .exit target) :
    ((s.setChildren owner children).setAgent agent activity).Inv root := by
  have hsteady (target : π) :
      Steady (s.process target) ((s.setChildren owner children).process target) := by
    have hbefore := hinv.steady target
    by_cases hsame : target = owner
    · subst hsame
      rw [setChildren, setProcess_self]
      exact ⟨hbefore.born, hbefore.published, rfl, Iff.rfl, rfl, hbefore.finishing, rfl⟩
    · rw [setChildren, setProcess_ne s hsame]
      exact hbefore
  have howner : ((s.setChildren owner children).process owner).children = children := by
    simp
  have hothers {target : π} (hne : target ≠ owner) :
      ((s.setChildren owner children).process target).children = (s.process target).children := by
    simp [hne]
  have hrest (place : π ⊕ α) (hlist : place ≠ .inl owner) (hagent : place ≠ .inr agent) :
      ((s.setChildren owner children).setAgent agent activity).holdings place =
        s.holdings place := by
    cases place with
    | inl target => exact hothers fun hsame => hlist (congrArg _ hsame)
    | inr other =>
      have hne : other ≠ agent := fun hsame => hagent (congrArg _ hsame)
      simp [holdings, hne]
  have hlist : ((s.setChildren owner children).setAgent agent activity).holdings
      (.inl owner) = children := howner
  have hagent : ((s.setChildren owner children).setAgent agent activity).holdings
      (.inr agent) = activity.holds := by
    simp [holdings]
  have hexclusive : Exclusive ((s.setChildren owner children).setAgent agent
      activity).holdings ∧ held ((s.setChildren owner children).setAgent agent
        activity).holdings = held s.holdings := by
    rcases hmoves with ⟨items, hsource, htarget⟩ | ⟨items, hsource, htarget, -⟩
    · have hne : (.inl owner : π ⊕ α) ≠ .inr agent := by simp
      exact hinv.exclusive.move hne (hlist.symm ▸ hsource) (hagent.symm ▸ htarget) hrest
    · have hne : (.inr agent : π ⊕ α) ≠ .inl owner := by simp
      exact hinv.exclusive.move hne (hagent.symm ▸ hsource) (hlist.symm ▸ htarget)
        fun place h h' => hrest place h' h
  refine hinv.act rfl hsteady hgoes hexclusive.1 hexclusive.2 (fun target child hmem => ?_)
    (fun target hne hthreads hempty => ?_)
  · by_cases hsame : target = owner
    · subst hsame
      rw [howner] at hmem
      rcases hmoves with ⟨items, hsource, -⟩ | ⟨items, -, htarget, hparents⟩
      · exact hinv.listed target child (hsource.mem_iff.mpr (mem_append_right _ hmem))
      · rcases mem_append.mp (htarget.mem_iff.mp hmem) with hitem | hbefore
        · exact hparents child hitem
        · exact hinv.listed target child hbefore
    · rw [hothers hsame] at hmem
      exact hinv.listed target child hmem
  · by_cases hsame : target = owner
    · subst hsame
      rw [howner]
      exact hsettled hne hthreads hempty
    · rw [hothers hsame]
      exact hempty.resolve_right (htaking target hsame)

/-- The processes which have not been reaped are held, each at one place. -/
def Held (root : π) (s : TreeConfig π α) : Prop :=
  Exclusive s.holdings ∧ held s.holdings = {target |
    (s.process target).born = true ∧ (s.process target).reaped = false ∧ target ≠ root}

section Turn

variable {new : Process π}
  (hafter : s' = (s.setProcess target new).setAgent agent activity)
  (hchildren : new.children = (s.process target).children)
include hafter hchildren

theorem holdings_turn {place : π ⊕ α} (hne : place ≠ .inr agent) :
    s'.holdings place = s.holdings place := by
  subst hafter
  cases place with
  | inl owner =>
    by_cases hsame : owner = target
    · subst hsame
      simpa [holdings] using hchildren
    · simp [holdings, hsame]
  | inr other =>
    have hother : other ≠ agent := fun hsame => hne (congrArg _ hsame)
    simp [holdings, hother]

variable (hinv : s.Inv root)
include hinv

theorem Inv.held_turn (hborn : new.born = (s.process target).born)
    (hreaped : new.reaped = (s.process target).reaped)
    (hholds : activity.holds.Perm (s.agent agent).holds) : s'.Held root := by
  have hplace (place : π ⊕ α) : (s'.holdings place).Perm (s.holdings place) := by
    by_cases hsame : place = .inr agent
    · simpa [hsame, hafter, holdings] using hholds
    · rw [holdings_turn hafter hchildren hsame]
  refine ⟨hinv.exclusive.of_perm hplace, ?_⟩
  rw [held_of_perm hplace, hinv.covers]
  ext other
  by_cases hsame : other = target
  · simp [hsame, hafter, hborn, hreaped]
  · simp [hsame, hafter]

theorem Inv.turn (hheld : s'.Held root) (hborn : new.born = true)
    (hfinishing : new.exiting = true → new.finishing = true)
    (hparent : ∀ place, place ≠ .inr agent → target ∈ s.holdings place →
      new.parent = s.parentOf target)
    (hhands : s'.HandsFit root activity)
    (hjobs : ∀ reason old, activity.job = some (reason, old) → s'.JobFits root reason old)
    (hothers : ∀ other, other ≠ agent → ∀ reason,
      (s.agent other).job = some (reason, target) → s'.JobFits root reason target)
    (hexits : ∀ old, activity.job = some (.exit, old) → ∀ other, other ≠ agent →
      (s.agent other).job ≠ some (.exit, old))
    (hsettled : target ≠ root → new.threads = 0 → (s.process target).children = [] ∨
      ∃ taker, s'.agent taker = .taking .exit target)
    (hstays : ∀ old, s.agent agent ≠ .taking .exit old) : s'.Inv root := by
  have htarget : s'.process target = new := by simp [hafter]
  have hprocess {other : π} (hne : other ≠ target) : s'.process other = s.process other := by
    simp [hafter, hne]
  have hself : s'.agent agent = activity := by simp [hafter]
  have hother {other : α} (hne : other ≠ agent) : s'.agent other = s.agent other := by
    simp [hafter, hne]
  have hparents {place : π ⊕ α} (hplace : place ≠ .inr agent) {child : π}
      (hmem : child ∈ s.holdings place) : s'.parentOf child = s.parentOf child := by
    by_cases hsame : child = target
    · subst hsame
      rw [parentOf, htarget]
      exact hparent place hplace hmem
    · rw [parentOf, hprocess hsame]
      rfl
  exact
    { rootBorn := by
        by_cases hsame : root = target
        · rw [hsame, htarget]
          exact hborn
        · rw [hprocess hsame]
          exact hinv.rootBorn
      publishedBorn := fun other h => by
        by_cases hsame : other = target
        · rw [hsame, htarget]
          exact hborn
        · rw [hprocess hsame] at h ⊢
          exact hinv.publishedBorn other h
      exclusive := hheld.1
      covers := hheld.2
      listed := fun owner child hmem => by
        have hplace : (.inl owner : π ⊕ α) ≠ .inr agent := by simp
        have hbefore : child ∈ s.holdings (.inl owner) :=
          holdings_turn hafter hchildren hplace ▸ hmem
        exact (hparents hplace hbefore).trans (hinv.listed owner child hbefore)
      jobs := fun other reason old h => by
        by_cases hsame : other = agent
        · rw [hsame, hself] at h
          exact hjobs reason old h
        · rw [hother hsame] at h
          by_cases hold : old = target
          · subst hold
            exact hothers other hsame reason h
          · simpa only [JobFits, hprocess hold] using hinv.jobs other reason old h
      hands := fun other => by
        by_cases hsame : other = agent
        · rw [hsame, hself]
          exact hhands
        · rw [hother hsame]
          have hplace : (.inr other : π ⊕ α) ≠ .inr agent := by simpa using hsame
          exact (hinv.hands other).mono fun child hmem => hparents hplace hmem
      exitUnique := fun first second old hfirst hsecond => by
        by_cases hf : first = agent <;> by_cases hs : second = agent
        · rw [hf, hs]
        · rw [hf, hself] at hfirst
          exact absurd (hother hs ▸ hsecond) (hexits old hfirst second hs)
        · rw [hs, hself] at hsecond
          exact absurd (hother hf ▸ hfirst) (hexits old hsecond first hf)
        · exact hinv.exitUnique first second old (hother hf ▸ hfirst) (hother hs ▸ hsecond)
      settled := fun other hne h => by
        by_cases hsame : other = target
        · subst hsame
          rw [htarget] at h ⊢
          rw [hchildren]
          exact hsettled hne h
        · rw [hprocess hsame] at h ⊢
          refine (hinv.settled other hne h).imp_right fun ⟨taker, htaking⟩ => ⟨taker, ?_⟩
          rwa [hother fun hagent => hstays other (hagent ▸ htaking)]
      finishing := fun other h => by
        by_cases hsame : other = target
        · rw [hsame, htarget] at h ⊢
          exact hfinishing h
        · rw [hprocess hsame] at h ⊢
          exact hinv.finishing other h
      bornThreads := fun other h => by
        by_cases hsame : other = target
        · simp [hsame, htarget, hborn] at h
        · rw [hprocess hsame] at h ⊢
          exact hinv.bornThreads other h }

end Turn

/-! ## Steps of an agent -/

variable {child : π}

section

variable (hinv : s.Inv root)
include hinv

section

omit [DecidableEq π] [DecidableEq α]

theorem Inv.held_facts {place : π ⊕ α} (hmem : child ∈ s.holdings place) :
    (s.process child).born = true ∧ (s.process child).reaped = false ∧ child ≠ root := by
  have hheld : child ∈ held s.holdings := mem_held hmem
  rwa [hinv.covers] at hheld

theorem Inv.not_exiting (hfinishing : (s.process target).finishing = false) :
    (s.process target).exiting = false := by
  by_contra h
  have hafter := hinv.finishing target (by simpa using h)
  simp [hafter] at hfinishing

theorem Inv.children_eq_nil (hne : target ≠ root) (hthreads : (s.process target).threads = 0)
    (hexiting : (s.process target).exiting = false) :
    (s.process target).children = [] := by
  rcases hinv.settled target hne hthreads with hempty | ⟨agent, htaking⟩
  · exact hempty
  · have hjob := hinv.jobs agent .exit target (by rw [htaking]; rfl)
    exact absurd (hexiting.symm.trans hjob.2.2.2) (by simp)

end

theorem Inv.take (hagent : s.agent agent = .taking reason old) :
    ((s.setChildren old []).setAgent agent
      (if (s.process old).children = [] then .settling reason old
        else .visiting reason old (s.process old).children [] [])).Inv root := by
  have hjob := hinv.jobs agent reason old (by rw [hagent]; rfl)
  have hholds : (if (s.process old).children = [] then .settling reason old
      else .visiting reason old (s.process old).children [] [] : Activity π).holds.Perm
        ((s.process old).children ++ (s.agent agent).holds) := by
    rw [hagent]
    split_ifs with hempty
    · simp [hempty]
    · simpa using perm_append_comm
  refine hinv.moves ⟨?_, fun reason' old' h => ?_, fun old' h => ?_⟩
    (.inl ⟨(s.process old).children, by simp, hholds⟩) (fun _ _ _ => rfl)
    fun target hne h => ?_
  · split_ifs
    · trivial
    · exact ⟨hinv.listed old, by simp, rfl⟩
  · split_ifs at h <;>
    · obtain ⟨rfl, rfl⟩ : reason = reason' ∧ old = old' := by simpa using h
      exact hjob
  · rw [hagent]
    split_ifs at h <;> simpa using h
  · rw [hagent] at h
    exact hne (Activity.taking.inj h).2.symm

theorem Inv.adopt {todo adopted remaining : List π}
    (hagent : s.agent agent = .visiting reason old (child :: todo) adopted remaining) :
    ((s.setProcess child { s.process child with parent := some root }).setAgent agent
      (.visiting reason old todo (adopted ++ [child]) remaining)).Inv root := by
  have hheld : child ∈ s.holdings (.inr agent) := by
    simp [holdings, hagent]
  obtain ⟨htodo, hadopted, hremaining⟩ : s.HandsFit root
      (.visiting reason old (child :: todo) adopted remaining) := hagent ▸ hinv.hands agent
  have hnodup := hinv.exclusive.nodup (.inr agent)
  rw [holdings, hagent] at hnodup
  have hfresh : child ∉ todo := by
    simp only [Activity.holds, nodup_append', nodup_cons, cons_append] at hnodup
    exact fun hmem => hnodup.2.1.1 (mem_append_left _ hmem)
  have hholds : (Activity.visiting reason old todo (adopted ++ [child]) remaining).holds.Perm
      (s.agent agent).holds := by
    have hmiddle : todo ++ (adopted ++ [child] ++ remaining) =
        (todo ++ adopted) ++ child :: remaining := by simp
    rw [hagent, Activity.holds, Activity.holds, hmiddle, cons_append, ← append_assoc todo]
    exact perm_middle.append_left _
  set s' := (s.setProcess child { s.process child with parent := some root }).setAgent
    agent (.visiting reason old todo (adopted ++ [child]) remaining) with hafter
  have hparent {other : π} (hne : other ≠ child) : s'.parentOf other = s.parentOf other := by
    simp [hafter, hne]
  have hfits {reason' : Reason} {old' : π} (h : s.JobFits root reason' old') :
      s'.JobFits root reason' old' := by
    by_cases hsame : old' = child
    · simpa [hafter, hsame] using h
    · simpa [hafter, hsame] using h
  have hown : (s.agent agent).job = some (reason, old) := by rw [hagent]; rfl
  refine hinv.turn hafter rfl (hinv.held_turn hafter rfl rfl rfl hholds) (hinv.held_facts hheld).1
    (hinv.finishing child)
    (fun place hne h => absurd (hinv.exclusive.unique place (.inr agent) child h hheld) hne)
    ⟨fun item hmem => ?_, fun item hmem => ?_, hremaining⟩
    (fun _ _ h => hfits (hinv.jobs agent _ _ (hown.trans h)))
    (fun other _ reason' h => hfits (hinv.jobs other reason' child h))
    (fun old' h other hne hjob => hne (hinv.exitUnique other agent old' hjob (hown.trans h)))
    (fun hne h => (hinv.settled child hne h).imp_right fun ⟨taker, htaking⟩ => ⟨taker, ?_⟩)
    fun _ h => by simp [hagent] at h
  · have hne : item ≠ child := fun h => hfresh (h ▸ hmem)
    exact (hparent hne).trans (htodo item (mem_cons_of_mem _ hmem))
  · by_cases hitem : item = child
    · simp [hafter, hitem]
    · exact (hparent hitem).trans (hadopted item (by simpa [hitem] using hmem))
  · have htaker : taker ≠ agent := fun hsame => by simp [hsame, hagent] at htaking
    simpa [hafter, htaker] using htaking

theorem Inv.counts {new : Process π} (hnew : new = { s.process target with
      threads := new.threads, isZombie := new.isZombie, exiting := new.exiting,
      finishing := new.finishing }) (hborn : (s.process target).born = true)
    (hfinishing : new.exiting = true → new.finishing = true)
    (hholds : activity.holds = (s.agent agent).holds) (hhands : s.HandsFit root activity)
    (hjob : ∀ reason old, activity.job = some (reason, old) →
      reason = .exit ∧ old = target ∧ target ≠ root ∧ new.threads = 0 ∧ new.exiting = true)
    (hothers : ∀ other, other ≠ agent → ∀ reason,
      (s.agent other).job = some (reason, target) → reason = .signal)
    (hsettled : target ≠ root → new.threads = 0 →
      (s.process target).children = [] ∨ activity = .taking .exit target)
    (hstays : ∀ old, s.agent agent ≠ .taking .exit old) :
    ((s.setProcess target new).setAgent agent activity).Inv root := by
  set s' := (s.setProcess target new).setAgent agent activity with hafter
  have htarget : s'.process target = new := by simp [hafter]
  have hchildren : new.children = (s.process target).children := by rw [hnew]
  have hnewBorn : new.born = (s.process target).born := by rw [hnew]
  have hreaped : new.reaped = (s.process target).reaped := by rw [hnew]
  have hparent : new.parent = s.parentOf target := by rw [hnew]; rfl
  have hparents (child : π) : s'.parentOf child = s.parentOf child := by
    by_cases hsame : child = target
    · rw [hsame, parentOf, htarget, hparent]
    · simp [hafter, hsame]
  refine hinv.turn hafter hchildren
    (hinv.held_turn hafter hchildren hnewBorn hreaped (hholds ▸ .refl _))
    (hnewBorn.trans hborn) hfinishing (fun _ _ _ => hparent)
    (hhands.mono fun child _ => hparents child) (fun reason old h => ?_)
    (fun other hne reason h => ?_) (fun old h other hne h' => ?_)
    (fun hne h => (hsettled hne h).imp_right fun htaking => ⟨agent, ?_⟩) hstays
  · obtain ⟨rfl, rfl, hroot, hthreads, hexiting⟩ := hjob reason old h
    rw [JobFits, htarget]
    exact ⟨hroot, hnewBorn.trans hborn, hthreads, hexiting⟩
  · obtain ⟨hroot, -, -⟩ := hinv.jobs other reason target h
    obtain rfl := hothers other hne reason h
    rw [JobFits, htarget]
    exact ⟨hroot, hnewBorn.trans hborn, trivial⟩
  · rw [(hjob .exit old h).2.1] at h'
    exact absurd (hothers other hne .exit h') (by simp)
  · simp [hafter, htaking]

end

omit [DecidableEq π] in
theorem setAgent_same (s : TreeConfig π α) (hagent : s.agent agent = activity) :
    s.setAgent agent activity = s := by
  rw [TreeConfig.setAgent, ← hagent, Function.update_eq_self]

omit [DecidableEq π] [DecidableEq α] in
theorem Inv.signal_of_threads (hinv : s.Inv root) (hthreads : (s.process target).threads ≠ 0)
    (hjob : (s.agent agent).job = some (reason, target)) : reason = .signal := by
  obtain ⟨-, -, hreason⟩ := hinv.jobs agent reason target hjob
  cases reason with
  | signal => rfl
  | _ => exact absurd hreason.1 hthreads

theorem Inv.leave (hinv : s.Inv root) (hstep : s.leave root agent target = some s')
    (hempty : target ≠ root → (s.process target).isZombie = true →
      (s.process target).threads = 1 → (s.process target).children = []) :
    s'.Inv root := by
  simp only [TreeConfig.leave] at hstep
  split_ifs at hstep with hguard hmany hdead <;>
    try obtain ⟨hidle, hpublished, hcloning⟩ := hguard
  · cases hstep
    have hbefore := hinv.steady target
    refine hinv.setProcess ⟨rfl, hbefore.published, rfl, ?_, rfl, hbefore.finishing, rfl⟩ rfl
    show (s.process target).threads - 1 = 0 ↔ _
    omega
  all_goals
    cases hstep
    have hone : (s.process target).threads = 1 := not_not.mp hmany
    have hothers (other : α) (_ : other ≠ agent) (reason : Reason) :
        (s.agent other).job = some (reason, target) → reason = .signal :=
      hinv.signal_of_threads (hone ▸ one_ne_zero)
    have hstays (old : π) : s.agent agent ≠ .taking .exit old := by simp [hidle]
  · rw [← setAgent_same (s.setProcess target _)
      (show (s.setProcess target _).agent agent = .idle from hidle)]
    refine hinv.counts rfl (hinv.publishedBorn target hpublished) (fun _ => rfl)
      (congrArg Activity.holds hidle.symm) trivial (fun _ _ h => by simp at h) hothers
      (fun hroot _ => .inl ?_) hstays
    exact hempty hroot (hdead.resolve_right hroot) hone
  · have hroot : target ≠ root := fun h => hdead (.inr h)
    refine hinv.counts rfl (hinv.publishedBorn target hpublished) (fun _ => rfl)
      (by rw [hidle]; rfl) trivial (fun reason old h => ?_) hothers
      (fun _ _ => .inr rfl) hstays
    obtain ⟨rfl, rfl⟩ : Reason.exit = reason ∧ target = old := by simpa using h
    exact ⟨rfl, rfl, hroot, by simp [hone], rfl⟩

theorem Inv.settleReap (hinv : s.Inv root) (hagent : s.agent agent = .settling .reap old) :
    ((s.setProcess old
      { s.process old with children := [], reaped := true }).setAgent agent .idle).Inv root := by
  obtain ⟨hroot, hborn, hthreads, hexiting⟩ := hinv.jobs agent .reap old (by rw [hagent]; rfl)
  have hempty := hinv.children_eq_nil hroot hthreads hexiting
  set s' := (s.setProcess old
    { s.process old with children := [], reaped := true }).setAgent agent .idle with hafter
  have hsource : (s.holdings (.inr agent)).Perm ([old] ++ s'.holdings (.inr agent)) := by
    simp [holdings, hafter, hagent, Reason.holds]
  have hplaces (place : π ⊕ α) : place ≠ .inr agent → s'.holdings place = s.holdings place :=
    holdings_turn hafter hempty.symm
  refine hinv.turn hafter hempty.symm ⟨hinv.exclusive.leave hsource hplaces, ?_⟩ hborn
    (hinv.finishing old) (fun _ _ _ => rfl) trivial (fun _ _ h => by simp at h)
    (fun other _ reason h => ?_) (fun _ h => by simp at h) (fun _ _ => .inl hempty)
    fun _ h => by simp [hagent] at h
  · rw [held_leave hinv.exclusive hsource hplaces, hinv.covers]
    ext target
    by_cases hsame : target = old
    · simp [hsame, hafter]
    · simp [hsame, hafter]
  · simpa [hafter] using hinv.jobs other reason old h

theorem Inv.settle (hinv : s.Inv root) (hstep : s.settle agent = some s') : s'.Inv root := by
  simp only [TreeConfig.settle] at hstep
  split at hstep <;> cases hstep
  · next old hagent =>
    have hown : (s.agent agent).job = some (.exit, old) := by rw [hagent]; rfl
    obtain ⟨-, hborn, hthreads, hexiting⟩ := hinv.jobs agent .exit old hown
    refine hinv.counts rfl hborn (fun h => by simp at h) (by rw [hagent]; rfl) trivial
      (fun _ _ h => by simp at h) (fun other hne reason hjob => ?_)
      (fun hroot _ => ?_) (fun target h => by simp [hagent] at h)
    · have hfits := hinv.jobs other reason old hjob
      cases reason with
      | exit => exact absurd (hinv.exitUnique other agent old hjob hown) hne
      | signal => rfl
      | reap => exact absurd (hexiting.symm.trans hfits.2.2.2) (by simp)
    · refine (hinv.settled old hroot hthreads).imp_right fun ⟨other, htaking⟩ => ?_
      have hsame := hinv.exitUnique other agent old (by rw [htaking]; rfl) hown
      simp [hsame, hagent] at htaking
  · next old hagent =>
    exact hinv.setAgent (by rw [hagent]; exact .refl _) .idle fun target h => by simp [hagent] at h
  · next old hagent => exact hinv.settleReap hagent

variable {caller : π}

theorem Inv.enter (hinv : s.Inv root) {parent owner : Option π}
    (hidle : s.agent agent = .idle) (hunborn : (s.process child).born = false)
    (howner : ∀ target, owner = some target → parent = some target) :
    ((s.setProcess child (.fresh parent)).setAgent agent
      (.cloning caller child owner)).Inv root := by
  have hroot : child ≠ root := fun hsame => by simp [hsame, hinv.rootBorn] at hunborn
  obtain ⟨hthreads, hexiting⟩ := hinv.bornThreads child hunborn
  have hempty := hinv.children_eq_nil hroot hthreads hexiting
  have hfresh : child ∉ held s.holdings := by
    rw [hinv.covers]
    simp [hunborn]
  set s' := (s.setProcess child (.fresh parent)).setAgent agent
    (.cloning caller child owner) with hafter
  have hself : (s'.holdings (.inr agent)).Perm ([child] ++ s.holdings (.inr agent)) := by
    simp [holdings, hafter, hidle]
  have hplaces (place : π ⊕ α) : place ≠ .inr agent → s'.holdings place = s.holdings place :=
    holdings_turn hafter hempty.symm
  have hexclusive := hinv.exclusive.enter hself hplaces (nodup_singleton child)
    fun item hmem => mem_singleton.mp hmem ▸ hfresh
  refine hinv.turn hafter hempty.symm ⟨hexclusive, ?_⟩ rfl (fun h => by simp [Process.unborn] at h)
    (fun place _ h => absurd (mem_held h) hfresh) (fun target htarget => ?_)
    (fun _ _ h => by simp at h) (fun other _ reason h => ?_)
    (fun _ h => by simp at h) (fun _ h => by simp at h)
    fun _ h => by simp [hidle] at h
  · rw [held_enter hself hplaces, hinv.covers]
    ext target
    by_cases hsame : target = child
    · simp [hsame, hafter, Process.unborn, hroot]
    · simp [hsame, hafter]
  · simpa [hafter] using howner target htarget
  · have hfits := hinv.jobs other reason child h
    simp [hunborn] at hfits

theorem Inv.clone (hinv : s.Inv root) {cloneParent upgraded : Bool}
    (hstep : s.clone agent caller child cloneParent upgraded = some s') :
    s'.Inv root := by
  simp only [TreeConfig.clone] at hstep
  split_ifs at hstep with hguard hparent
  all_goals
    obtain ⟨hidle, hpublished, -, hunborn⟩ := hguard
    cases hstep
    have hne : child ≠ caller := fun hsame => by
      simp [hsame, hinv.publishedBorn caller hpublished] at hunborn
    have hbefore := hinv.steady caller
    have hcalling : (s.setProcess caller { s.process caller with
        cloning := (s.process caller).cloning + 1 }).Inv root :=
      hinv.setProcess ⟨rfl, hbefore.published, rfl, Iff.rfl, rfl, hbefore.finishing, rfl⟩ rfl
    refine hcalling.enter hidle (by rwa [setProcess_ne s hne]) fun target h => ?_
  · rw [cloneOwner, if_pos hparent, Option.filter_eq_some_iff] at h
    exact h.1
  · rwa [cloneOwner, if_neg hparent] at h

theorem Inv.list (hinv : s.Inv root) (hagent : s.agent agent = .cloning caller child (some owner))
    (hthreads : (s.process owner).threads ≠ 0) (hstep : s.list agent = some s') :
    s'.Inv root := by
  have hparent : s.parentOf child = some owner := by
    have hfits := hinv.hands agent
    rw [hagent] at hfits
    exact hfits owner rfl
  have hborn : (s.process child).born = true := by
    have hmem : child ∈ s.holdings (.inr agent) := by simp [holdings, hagent]
    exact (hinv.held_facts hmem).1
  set moved := (s.setChildren owner ((s.process owner).children ++ [child])).setAgent
    agent .idle with hmoved
  have hmovedInv : moved.Inv root := by
    refine hinv.moves .idle
      (.inr ⟨[child], by simp [hagent], perm_append_comm, ?_⟩)
      (fun _ h => absurd h hthreads) fun _ _ h => by simp [hagent] at h
    simpa using hparent
  have hmovedBorn : (moved.process child).born = true := by
    by_cases hsame : child = owner
    · subst hsame
      simpa [hmoved] using hborn
    · simpa [hmoved, hsame] using hborn
  set returned := moved.setProcess caller
    { moved.process caller with cloning := (moved.process caller).cloning - 1 } with hreturned
  have hreturnedInv : returned.Inv root := by
    have hbefore := hmovedInv.steady caller
    exact hmovedInv.setProcess
      ⟨rfl, hbefore.published, rfl, Iff.rfl, rfl, hbefore.finishing, rfl⟩ rfl
  have hreturnedBorn : (returned.process child).born = true := by
    by_cases hsame : child = caller
    · subst hsame
      simpa [hreturned] using hmovedBorn
    · simpa [hreturned, hsame] using hmovedBorn
  rw [TreeConfig.list, hagent] at hstep
  cases hstep
  have hbefore := hreturnedInv.steady child
  exact hreturnedInv.setProcess
    ⟨rfl, fun _ => hreturnedBorn, rfl, Iff.rfl, rfl, hbefore.finishing, rfl⟩ rfl

end TreeConfig

end Kairix.ProcessTree
