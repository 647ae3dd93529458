import Kairix.ProcessAdoption

/-!
# Orphans

Orphans are adopted in runs which list new processes only with owners that have a
thread, and in which a group that is dead already has no child left when its last thread
leaves.  Without the second condition `exit_group` leaves its orphans behind.
-/

namespace Kairix.ProcessTree

open LabelledRun ExclusiveHoldings

namespace TreeConfig

variable {π α : Type*} [DecidableEq π] [DecidableEq α]

def Listable (config : TreeConfig π α) : Activity π → Prop
  | .cloning _ _ none => False
  | .cloning _ _ (some owner) => (config.process owner).threads ≠ 0
  | _ => True

/-- A new process is listed with an owner which has a thread, and a group which was
killed as a whole has no child when its last thread leaves. -/
def Orderly (root : π) (config : TreeConfig π α) : TreeStep π α → Prop
  | .list agent => config.Listable (config.agent agent)
  | .leave _ target =>
    target ≠ root → (config.process target).isZombie = true →
      (config.process target).threads = 1 → (config.process target).children = []
  | _ => True

attribute [local simp] Activity.job Process.unborn Activity.holds parentOf

omit [DecidableEq α] in
theorem inv_start (root : π) : (start root : TreeConfig π α).Inv root := by
  have hprocess {other : π} (hne : other ≠ root) :
      (start root : TreeConfig π α).process other = .unborn := by
    simp [start, hne]
  have hroot : (start root : TreeConfig π α).process root =
      { Process.fresh none with published := true } := by
    simp [start]
  have hchildren (other : π) : ((start root : TreeConfig π α).process other).children = [] := by
    by_cases hsame : other = root
    · rw [hsame, hroot]
      rfl
    · rw [hprocess hsame]
      rfl
  have hempty (place : π ⊕ α) : (start root : TreeConfig π α).holdings place = [] := by
    cases place with
    | inl owner => exact hchildren owner
    | inr agent => rfl
  exact
    { rootBorn := by rw [hroot]; rfl
      publishedBorn := fun target h => by
        by_cases hsame : target = root
        · rw [hsame, hroot]
          rfl
        · simp [hprocess hsame] at h
      exclusive := .of_empty hempty
      covers := by
        rw [held_of_empty hempty]
        ext target
        by_cases hsame : target = root
        · simp [hsame]
        · simp [hprocess hsame]
      listed := fun owner child hmem => by simp [hchildren] at hmem
      jobs := fun agent reason old h => by simp [start] at h
      hands := fun agent => trivial
      exitUnique := fun agent other old h => by simp [start] at h
      settled := fun target _ _ => .inl (hchildren target)
      finishing := fun target h => by
        by_cases hsame : target = root
        · simp [hsame, hroot, Process.fresh] at h
        · simp [hprocess hsame] at h
      bornThreads := fun target h => by
        by_cases hsame : target = root
        · simp [hsame, hroot, Process.fresh] at h
        · rw [hprocess hsame]
          exact ⟨rfl, rfl⟩ }

variable {root : π} {s after s' : TreeConfig π α} {agent : α}

section

variable (hinv : s.Inv root)
include hinv

theorem Inv.visit (hstep : s.visit root agent = some s') : s'.Inv root := by
  simp only [TreeConfig.visit] at hstep
  split at hstep
  · next reason old child todo adopted remaining hagent =>
    have hparent : (s.process child).parent = some old := by
      have hfits := hinv.hands agent
      rw [hagent] at hfits
      exact hfits.1 child List.mem_cons_self
    rw [if_pos hparent] at hstep
    cases hstep
    exact hinv.adopt hagent
  · next reason old adopted remaining hagent =>
    cases hstep
    have hfits := hinv.hands agent
    rw [hagent] at hfits
    exact hinv.setAgent (by rw [hagent]; exact .refl _) (hinv.goes (by rw [hagent]; rfl) hfits.2)
      fun target h => by simp [hagent] at h
  · simp at hstep

theorem Inv.giveBack (hstep : s.giveBack agent = some s') : s'.Inv root := by
  simp only [TreeConfig.giveBack] at hstep
  split at hstep <;> cases hstep
  next reason old adopted remaining hagent =>
    have hfits := hinv.hands agent
    rw [hagent] at hfits
    obtain ⟨hadopted, rfl⟩ := hfits
    refine hinv.moves (hinv.goes (by rw [hagent]; rfl) hadopted)
      (.inl ⟨[], by simp, by simp [hagent]⟩) (fun _ _ h => ?_)
      fun _ _ h => by simp [hagent] at h
    simpa [hagent] using h

theorem Inv.give (hstep : s.give root agent = some s') : s'.Inv root := by
  simp only [TreeConfig.give] at hstep
  split at hstep <;> cases hstep
  next reason old adopted hagent =>
    have hfits := hinv.hands agent
    rw [hagent] at hfits
    exact hinv.moves (hinv.goes (by rw [hagent]; rfl) trivial)
      (.inr ⟨adopted, by rw [hagent]; exact List.perm_append_comm, List.perm_append_comm, hfits⟩)
      (fun hne => absurd rfl hne) fun _ _ h => by simp [hagent] at h

theorem Inv.signal {target : π} (hstep : s.signal root agent target = some s') : s'.Inv root := by
  simp only [TreeConfig.signal] at hstep
  split_ifs at hstep with hguard hroot
  all_goals
    obtain ⟨hidle, hpublished, -, -⟩ := hguard
    cases hstep
    have hbefore := hinv.steady target
    have hmarked : (s.setProcess target { s.process target with isZombie := true }).Inv root :=
      hinv.setProcess ⟨rfl, hbefore.published, rfl, Iff.rfl, rfl, hbefore.finishing, rfl⟩ rfl
  · exact hmarked
  · refine hmarked.setAgent (by rw [setProcess_agent, hidle]; exact .refl _)
      ⟨trivial, fun reason old h => ?_, fun old h => by simp at h⟩
      fun _ h => by simp [hidle] at h
    obtain ⟨rfl, rfl⟩ : Reason.signal = reason ∧ target = old := by simpa using h
    exact ⟨hroot, by simpa using hinv.publishedBorn target hpublished, trivial⟩

theorem Inv.reap {parent child : π} (hstep : s.reap agent parent child = some s') :
    s'.Inv root := by
  simp only [TreeConfig.reap] at hstep
  split_ifs at hstep with hguard
  obtain ⟨hidle, hmem, -, hthreads, hfinishing⟩ := hguard
  cases hstep
  have hplace : child ∈ s.holdings (.inl parent) := hmem
  obtain ⟨hborn, -, hroot⟩ := hinv.held_facts hplace
  have hexiting := hinv.not_exiting hfinishing
  refine hinv.moves ⟨trivial, fun reason old h => ?_, fun _ h => by simp at h⟩
    (.inl ⟨[child], List.perm_cons_erase hmem, by
      rw [hidle]; simp [Reason.holds]⟩)
    (fun _ _ h => ?_) fun _ _ h => by simp [hidle] at h
  · obtain ⟨rfl, rfl⟩ : Reason.reap = reason ∧ child = old := by simpa using h
    exact ⟨hroot, hborn, hthreads, hexiting⟩
  · have hempty := h.resolve_right (by simp [hidle])
    simp [hempty] at hmem

theorem Inv.next {step : TreeStep π α} (horderly : s.Orderly root step)
    (hstep : s.next root step = some s') : s'.Inv root := by
  cases step with
  | clone agent caller child cloneParent upgraded => exact hinv.clone hstep
  | list agent =>
    change s.Listable (s.agent agent) at horderly
    cases hagent : s.agent agent with
    | cloning caller child owner =>
      rw [hagent] at horderly
      cases owner with
      | none => exact horderly.elim
      | some target => exact hinv.list hagent horderly hstep
    | _ => simp [TreeConfig.next, TreeConfig.list, hagent] at hstep
  | spawn target =>
    simp only [TreeConfig.next, spawn] at hstep
    split_ifs at hstep with hguard
    cases hstep
    have hbefore := hinv.steady target
    have hlive : (s.process target).threads ≠ 0 := by omega
    exact hinv.setProcess ⟨rfl, hbefore.published, rfl, by simp [hlive], rfl, hbefore.finishing,
      rfl⟩ rfl
  | exitGroup target =>
    simp only [TreeConfig.next, exitGroup] at hstep
    split_ifs at hstep
    cases hstep
    have hbefore := hinv.steady target
    exact hinv.setProcess ⟨rfl, hbefore.published, rfl, Iff.rfl, rfl, hbefore.finishing, rfl⟩ rfl
  | signal agent target => exact hinv.signal hstep
  | leave agent target => exact hinv.leave hstep horderly
  | take agent =>
    simp only [TreeConfig.next, TreeConfig.take] at hstep
    split at hstep <;> cases hstep
    next hagent => exact hinv.take hagent
  | visit agent => exact hinv.visit hstep
  | giveBack agent => exact hinv.giveBack hstep
  | give agent => exact hinv.give hstep
  | settle agent => exact hinv.settle hstep
  | finish target =>
    simp only [TreeConfig.next, finish] at hstep
    split_ifs at hstep with hguard
    cases hstep
    have hbefore := hinv.steady target
    exact hinv.setProcess ⟨rfl, hbefore.published, rfl, Iff.rfl, rfl,
      fun h => by simp [hguard.2] at h, rfl⟩ rfl
  | reap agent parent child => exact hinv.reap hstep

end

theorem inv_of_reachable (hreach : Reachable (next root) (Orderly root) (start root) s) :
    s.Inv root :=
  hreach.invariant (inv_start root) fun _ _ _ hinv horderly hstep => hinv.next horderly hstep

/-! ## Parent pointers -/

omit [DecidableEq α] in
theorem parentOf_setProcess (s : TreeConfig π α) {target : π} {new : Process π}
    (hparent : new.parent = (s.process target).parent) :
    (s.setProcess target new).parentOf = s.parentOf := by
  funext other
  by_cases hsame : other = target
  · subst hsame
    simpa using hparent
  · simp [hsame]

omit [DecidableEq π] in
@[simp] theorem parentOf_setAgent (s : TreeConfig π α) (agent : α) (activity : Activity π) :
    (s.setAgent agent activity).parentOf = s.parentOf := rfl

omit [DecidableEq α] in
@[simp] theorem parentOf_setChildren (s : TreeConfig π α) (target : π) (children : List π) :
    (s.setChildren target children).parentOf = s.parentOf :=
  s.parentOf_setProcess rfl

theorem parentOf_next {child : π} {step : TreeStep π α}
    (hborn : (s.process child).born = true) (hstep : s.next root step = some s') :
    s'.parentOf child = s.parentOf child ∨ s'.parentOf child = some root := by
  cases step with
  | clone agent caller new cloneParent upgraded =>
    simp only [next, clone] at hstep
    split_ifs at hstep with hguard hparent
    all_goals
      cases hstep
      have hne : child ≠ new := fun hsame => by simp [← hsame, hborn] at hguard
      left
      rw [parentOf_setAgent, parentOf, setProcess_ne _ hne]
      exact congrFun (s.parentOf_setProcess (by rfl)) child
  | list agent =>
    simp only [next, list] at hstep
    split at hstep <;> cases hstep
    next caller new owner hagent =>
      left
      have hpush : (s.push new owner).parentOf = s.parentOf := by
        cases owner with
        | none => rfl
        | some target => exact s.parentOf_setChildren target _
      rw [parentOf_setAgent, parentOf_setProcess _ (by rfl), parentOf_setProcess _ (by rfl), hpush]
  | visit agent =>
    simp only [next, visit] at hstep
    split at hstep
    · next reason old visited todo adopted remaining hagent =>
      split_ifs at hstep <;> obtain rfl := Option.some.inj hstep
      · by_cases hsame : child = visited
        · subst hsame
          right
          simp
        · left
          simp [hsame]
      · exact .inl rfl
    · cases hstep
      exact .inl rfl
    · simp at hstep
  | _ =>
    left
    simp only [next, spawn, exitGroup, signal, leave, take, giveBack, give, settle, finish,
      reap] at hstep
    repeat' split at hstep
    all_goals first
      | obtain rfl := Option.some.inj hstep
        simp (disch := rfl) only [parentOf_setAgent, parentOf_setChildren, parentOf_setProcess]
      | simp at hstep

/-! ## Adoption -/

def Live (root : π) (config : TreeConfig π α) (target : π) : Prop :=
  (config.process target).born = true ∧ (config.process target).reaped = false ∧ target ≠ root

def Exited (root : π) (config : TreeConfig π α) (target : π) : Prop :=
  target ≠ root ∧ (config.process target).published = true ∧
    (config.process target).threads = 0 ∧ (config.process target).finishing = false

/-- The tree as it is between calls: every process is listed once, with its parent, and
nobody is the child of an exited process. -/
structure Tree (root : π) (config : TreeConfig π α) : Prop where
  listed : ∀ child, config.Live root child → ∃! owner, child ∈ (config.process owner).children
  nodup : ∀ owner, (config.process owner).children.Nodup
  named : ∀ owner, ∀ child ∈ (config.process owner).children, config.parentOf child = some owner
  orphans : ∀ target child, config.Exited root target → config.Live root child →
    config.parentOf child ≠ some target

/-- The tree while calls run: a process in no list is in the hands of one agent. -/
structure Adopted (root : π) (config : TreeConfig π α) : Prop where
  placed : ∀ child, config.Live root child → ∃! place, child ∈ config.holdings place
  nodup : ∀ owner, (config.process owner).children.Nodup
  named : ∀ owner, ∀ child ∈ (config.process owner).children, config.parentOf child = some owner
  orphans : ∀ target child, config.Exited root target → config.Live root child →
    config.parentOf child = some target → ∃ agent, child ∈ (config.agent agent).holds
  pointers : ∀ step after child, config.next root step = some after → config.Live root child →
    after.parentOf child = config.parentOf child ∨ after.parentOf child = some root

theorem Inv.adopted (hinv : s.Inv root) : s.Adopted root where
  placed child hlive := by
    have hheld : child ∈ held s.holdings := by
      rw [hinv.covers]
      exact hlive
    obtain ⟨place, hmem⟩ := hheld
    exact ⟨place, hmem, fun other h => hinv.exclusive.unique other place child h hmem⟩
  nodup owner := hinv.exclusive.nodup (.inl owner)
  named := hinv.listed
  orphans target child hexited hlive hparent := by
    obtain ⟨hroot, -, hthreads, hfinishing⟩ := hexited
    have hempty := hinv.children_eq_nil hroot hthreads (hinv.not_exiting hfinishing)
    have hheld : child ∈ held s.holdings := by
      rw [hinv.covers]
      exact hlive
    obtain ⟨owner | agent, hmem⟩ := hheld
    · have hsame : some owner = some target := (hinv.listed owner child hmem).symm.trans hparent
      cases hsame
      rw [holdings, hempty] at hmem
      simp at hmem
    · exact ⟨agent, hmem⟩
  pointers step s' child hstep hlive := parentOf_next hlive.1 hstep

theorem tree_of_idle (hadopted : s.Adopted root) (hidle : ∀ agent, s.agent agent = .idle) :
    s.Tree root where
  listed child hlive := by
    obtain ⟨owner | agent, hmem, hunique⟩ := hadopted.placed child hlive
    · exact ⟨owner, hmem, fun other h => Sum.inl.inj (hunique (.inl other) h)⟩
    · simp [holdings, hidle] at hmem
  nodup := hadopted.nodup
  named := hadopted.named
  orphans target child hexited hlive hparent := by
    obtain ⟨agent, hmem⟩ := hadopted.orphans target child hexited hlive hparent
    simp [hidle] at hmem

theorem adopted_of_reachable {root : π} {config : TreeConfig π α}
    (hreach : Reachable (next root) (Orderly root) (start root) config) :
    config.Adopted root ∧ ((∀ agent, config.agent agent = .idle) → config.Tree root) := by
  have hadopted := (inv_of_reachable hreach).adopted
  exact ⟨hadopted, tree_of_idle hadopted⟩

instance (config : TreeConfig π α) (activity : Activity π) :
    Decidable (config.Listable activity) := by
  unfold Listable
  cases activity with
  | cloning creator child owner => cases owner <;> infer_instance
  | _ => infer_instance

instance (root : π) (config : TreeConfig π α) (step : TreeStep π α) :
    Decidable (config.Orderly root step) := by
  unfold Orderly
  cases step <;> infer_instance

def family : List (TreeStep (Fin 3) (Fin 1)) :=
  [.clone i₀ i₀ i₁ false true, .list i₀, .clone i₀ i₁ i₂ false true, .list i₀]

theorem adopted_after_exit :
    ∃ config : TreeConfig (Fin 3) (Fin 1), Reachable (next 0) (Orderly 0) (start 0) config ∧
      config.Tree 0 ∧ config.Exited 0 1 ∧ config.parentOf 2 = some 0 := by
  obtain ⟨config, hreach, hidle, hexited, hparent⟩ :
      ∃ config : TreeConfig (Fin 3) (Fin 1), Reachable (next 0) (Orderly 0) (start 0) config ∧
        (∀ agent, config.agent agent = .idle) ∧
        ((1 : Fin 3) ≠ 0 ∧ (config.process 1).published = true ∧
          (config.process 1).threads = 0 ∧ (config.process 1).finishing = false) ∧
        config.parentOf 2 = some 0 :=
    exists_reachable_of_runSteps (family ++ [.spawn 1, .leave 0 1, .leave 0 1, .take 0, .visit 0,
      .visit 0, .giveBack 0, .give 0, .settle 0, .finish 1]) (by decide +kernel)
  exact ⟨config, hreach, (adopted_of_reachable hreach).2 hidle, hexited, hparent⟩

/-- The parent leaves with `exit_group`, and the child keeps it as its parent. -/
theorem not_tree_after_exitGroup :
    ∃ config : TreeConfig (Fin 3) (Fin 1), Reachable (next 0) always (start 0) config ∧
      (∀ agent, config.agent agent = .idle) ∧ ¬ config.Adopted 0 ∧ ¬ config.Tree 0 := by
  obtain ⟨config, hreach, hidle, hexited, hlive, hparent⟩ :
      ∃ config : TreeConfig (Fin 3) (Fin 1), Reachable (next 0) always (start 0) config ∧
        (∀ agent, config.agent agent = .idle) ∧
        ((1 : Fin 3) ≠ 0 ∧ (config.process 1).published = true ∧
          (config.process 1).threads = 0 ∧ (config.process 1).finishing = false) ∧
        ((config.process 2).born = true ∧ (config.process 2).reaped = false ∧ (2 : Fin 3) ≠ 0) ∧
        config.parentOf 2 = some 1 :=
    exists_reachable_of_runSteps (family ++ [.exitGroup 1, .leave 0 1, .finish 1])
      (by decide +kernel)
  have hnot : ¬ config.Tree 0 := fun htree => htree.orphans 1 2 hexited hlive hparent
  exact ⟨config, hreach, hidle, fun hadopted => hnot (tree_of_idle hadopted hidle), hnot⟩

end TreeConfig

end Kairix.ProcessTree
