import Kairix.LabelledRun

/-!
# Threads of a process during `execve`

The thread which calls `execve` asks the other threads of its process to exit and
waits until it is alone.  Threads are numbered in the order of their creation; the
task list holds the threads which have not been detached.
-/

namespace Kairix.ExecThreads

open LabelledRun List Option

/-- Where a thread is.  A thread in `asking` has still to ask some threads, one in
`canonical` has found itself alone, one in `installing` is about to install the new
address space; an exiting thread remembers whether it was asked when it began. -/
inductive Phase where
  | running
  | cloning (autoReap : Bool)
  | execBegin
  | asking (siblings : List ℕ)
  | waiting
  | canonical
  | installing
  | exiting (execExit : Bool)
  | detaching (execExit : Bool)
  | exited
  deriving DecidableEq, Repr

structure Thread where
  execExitRequested : Bool
  autoReapOnExit : Bool
  phase : Phase
  deriving DecidableEq, Repr

structure Group where
  threads : List Thread
  tasks : List ℕ
  aliveThreadCount : ℕ
  isZombie : Bool
  execOwnerTid : Option ℕ
  deriving DecidableEq, Repr

inductive Action where
  | beginClone (autoReap : Bool)
  | addThread
  | beginExec
  | claimExec
  | askSibling
  | checkSiblings
  | canonicalize
  | install
  | beginExit
  | exitGroup
  | leave
  | detach
  deriving DecidableEq, Repr

structure GroupStep where
  thread : ℕ
  action : Action
  deriving DecidableEq, Repr

namespace Group

def start : Group :=
  ⟨[⟨false, false, .running⟩], [0], 1, false, none⟩

section

variable (group : Group) (thread : ℕ)

def setThread (record : Thread) : Group :=
  { group with threads := group.threads.set thread record }

def setPhase (record : Thread) (phase : Phase) : Group :=
  group.setThread thread { record with phase := phase }

def ask (sibling : ℕ) : Group :=
  { group with threads := group.threads.modify sibling fun record =>
    { record with execExitRequested := true } }

/-- The section of a thread clone which lists the new thread. -/
def addThread (record : Thread) (autoReap : Bool) : Group :=
  { group with
    threads := group.threads.set thread { record with phase := .running } ++
      [⟨false, autoReap, .running⟩]
    tasks := group.tasks ++ [group.threads.length]
    aliveThreadCount := group.aliveThreadCount + 1 }

/-- The first section of `de_thread_for_exec`: a thread which comes second exits. -/
def claimExec (record : Thread) : Group :=
  let siblings := group.tasks.filter fun task => task ≠ thread
  match group.execOwnerTid with
  | none => { group with execOwnerTid := some thread }.setPhase thread record (.asking siblings)
  | some owner =>
    if owner = thread then group.setPhase thread record (.asking siblings)
    else group.setThread thread { record with execExitRequested := true, phase := .exiting true }

def checkSiblings (record : Thread) : Group :=
  if group.isZombie = true then
    group.setPhase thread record (.exiting record.execExitRequested)
  else if group.tasks.any (fun task => task ≠ thread) = true then group
  else group.setPhase thread record .canonical

/-- The survivor becomes the leader of a group of its own. -/
def canonicalize : Group :=
  { group with
    threads := group.threads.set thread ⟨false, false, .installing⟩
    tasks := [thread]
    aliveThreadCount := 1
    execOwnerTid := none }

/-- The first section of an exit on the process: the last thread takes the process
with it, unless it was asked to exit. -/
def leave (record : Thread) (execExit : Bool) : Group :=
  { group with
    aliveThreadCount := group.aliveThreadCount - 1
    isZombie := group.isZombie ||
      (group.aliveThreadCount = 1 && !execExit) }.setPhase thread record (.detaching execExit)

/-- The second section of an exit: a thread which nobody joins leaves the list. -/
def detach (record : Thread) (execExit : Bool) : Group :=
  { group with
    tasks := if (execExit || record.autoReapOnExit || group.isZombie) = true then
      group.tasks.filter fun task => task ≠ thread else group.tasks }.setPhase thread record .exited

def act (record : Thread) : Action → Phase → Option Group
  | .beginClone autoReap, .running => some (group.setPhase thread record (.cloning autoReap))
  | .addThread, .cloning autoReap => some (group.addThread thread record autoReap)
  | .beginExec, .running => some (group.setPhase thread record .execBegin)
  | .claimExec, .execBegin => some (group.claimExec thread record)
  | .askSibling, .asking [] => some (group.setPhase thread record .waiting)
  | .askSibling, .asking (sibling :: rest) =>
    some ((group.ask sibling).setPhase thread record (.asking rest))
  | .checkSiblings, .waiting => some (group.checkSiblings thread record)
  | .canonicalize, .canonical => some (group.canonicalize thread)
  | .install, .installing => some (group.setPhase thread record .running)
  | .beginExit, .running =>
    some (group.setPhase thread record (.exiting record.execExitRequested))
  | .exitGroup, .running =>
    some ({ group with isZombie := true }.setPhase thread record
      (.exiting record.execExitRequested))
  | .leave, .exiting execExit => some (group.leave thread record execExit)
  | .detach, .detaching execExit => some (group.detach thread record execExit)
  | _, _ => none

def next (step : GroupStep) : Option Group :=
  match group.threads[step.thread]? with
  | none => none
  | some record => group.act step.thread record step.action record.phase

/-! ## Invariant -/

def Asked : Prop :=
  ∃ record, group.threads[thread]? = some record ∧ record.execExitRequested = true

def PhaseFits : Phase → Prop
  | .asking siblings => group.execOwnerTid = some thread ∧
      (∀ task ∈ group.tasks, task ≠ thread → group.Asked task ∨ task ∈ siblings) ∧
      thread ∉ siblings
  | .waiting => group.execOwnerTid = some thread ∧
      ∀ task ∈ group.tasks, task ≠ thread → group.Asked task
  | .canonical => group.execOwnerTid = some thread ∧ ∀ task ∈ group.tasks, task = thread
  | .installing => ∀ task ∈ group.tasks, task = thread
  | _ => True

end

structure Inv (group : Group) : Prop where
  bounded : ∀ task ∈ group.tasks, task < group.threads.length
  listed : ∀ (thread : ℕ) (record : Thread), group.threads[thread]? = some record →
    record.phase ≠ .exited → thread ∈ group.tasks
  fits : ∀ (thread : ℕ) (record : Thread), group.threads[thread]? = some record →
    group.PhaseFits thread record.phase

variable {thread : ℕ} {record : Thread}

variable {group s' : Group}

theorem PhaseFits.mono {phase : Phase} (hfits : group.PhaseFits thread phase)
    (howner : s'.execOwnerTid = group.execOwnerTid) (htasks : s'.tasks ⊆ group.tasks)
    (hasked : ∀ task, group.Asked task → s'.Asked task) : s'.PhaseFits thread phase := by
  cases phase with
  | asking siblings =>
    exact ⟨howner.trans hfits.1, fun task htask hne =>
      (hfits.2.1 task (htasks htask) hne).imp (hasked task) id, hfits.2.2⟩
  | waiting =>
    exact ⟨howner.trans hfits.1, fun task htask hne =>
      hasked task (hfits.2 task (htasks htask) hne)⟩
  | canonical => exact ⟨howner.trans hfits.1, fun task htask => hfits.2 task (htasks htask)⟩
  | installing => exact fun task htask => hfits task (htasks htask)
  | _ => trivial

theorem Asked.set {task : ℕ} (new : Thread) (hrecord : group.threads[thread]? = some record)
    (hkept : record.execExitRequested = true → new.execExitRequested = true)
    (hasked : group.Asked task) (tasks : List ℕ) (alive : ℕ) (zombie : Bool) (owner : Option ℕ) :
    (⟨group.threads.set thread new, tasks, alive, zombie, owner⟩ : Group).Asked task := by
  obtain ⟨found, hfound, hrequested⟩ := hasked
  by_cases hsame : thread = task
  · subst task
    obtain rfl : record = found := by simpa [hrecord] using hfound
    exact ⟨new, List.getElem?_set_self (List.getElem?_eq_some_iff.mp hrecord).1, hkept hrequested⟩
  · exact ⟨found, by rw [List.getElem?_set_ne hsame, hfound], hrequested⟩

theorem Inv.advance (hinv : group.Inv) (new : Thread) {tasks : List ℕ}
    (hrecord : group.threads[thread]? = some record)
    (hkept : record.execExitRequested = true → new.execExitRequested = true)
    (htasks : tasks ⊆ group.tasks)
    (hlisted : ∀ task ∈ group.tasks, task ∉ tasks → task = thread ∧ new.phase = .exited)
    (hlive : record.phase ≠ .exited)
    (hfits : ∀ (alive : ℕ) (zombie : Bool),
      (⟨group.threads.set thread new, tasks, alive, zombie, group.execOwnerTid⟩ :
        Group).PhaseFits thread new.phase) (alive : ℕ) (zombie : Bool) :
    (⟨group.threads.set thread new, tasks, alive, zombie, group.execOwnerTid⟩ : Group).Inv where
  bounded task htask := by simpa using hinv.bounded task (htasks htask)
  listed other found hfound hphase := by
    by_contra hnot
    rcases getElem?_set_cases hfound with ⟨rfl, rfl⟩ | ⟨hne, hbefore⟩
    · exact hphase (hlisted other (hinv.listed other record hrecord hlive) hnot).2
    · exact hne (hlisted other (hinv.listed other found hbefore hphase) hnot).1
  fits other found hfound := by
    rcases getElem?_set_cases hfound with ⟨rfl, rfl⟩ | ⟨-, hbefore⟩
    · exact hfits alive zombie
    · exact (hinv.fits other found hbefore).mono rfl htasks fun task hasked =>
        hasked.set new hrecord hkept tasks alive zombie _

theorem Inv.setPhase (hinv : group.Inv) (phase : Phase)
    (hrecord : group.threads[thread]? = some record) (hlive : record.phase ≠ .exited)
    (hfits : group.PhaseFits thread phase) (alive : ℕ) (zombie : Bool) :
    (⟨group.threads.set thread { record with phase := phase }, group.tasks, alive, zombie,
      group.execOwnerTid⟩ : Group).Inv := by
  refine hinv.advance { record with phase := phase } hrecord id (Subset.refl _)
    (fun _ hmem hnot => absurd hmem hnot) hlive (fun alive zombie => ?_) alive zombie
  exact hfits.mono rfl (Subset.refl _) fun task hasked =>
    hasked.set { record with phase := phase } hrecord id _ _ _ _

theorem Inv.eq_of_alone (hinv : group.Inv) {other : ℕ} {found : Thread}
    (hrecord : group.threads[thread]? = some record) (hlive : record.phase ≠ .exited)
    (hfound : group.threads[other]? = some found)
    (halone : found.phase = .canonical ∨ found.phase = .installing) : thread = other := by
  have hmem := hinv.listed thread record hrecord hlive
  have hfits := hinv.fits other found hfound
  rcases halone with hphase | hphase
  · rw [hphase] at hfits
    exact hfits.2 thread hmem
  · rw [hphase] at hfits
    exact hfits thread hmem

theorem Inv.addThread (hinv : group.Inv) {autoReap : Bool}
    (hrecord : group.threads[thread]? = some record) (hphase : record.phase = .cloning autoReap)
    (howner : group.execOwnerTid = none) : (group.addThread thread record autoReap).Inv := by
  have hlive : record.phase ≠ .exited := by simp [hphase]
  have hsplit (other : ℕ) (found : Thread)
      (hfound : (group.addThread thread record autoReap).threads[other]? = some found) :
      other = group.threads.length ∧ found.phase = .running ∨
        other = thread ∧ found.phase = .running ∨
          other ≠ thread ∧ group.threads[other]? = some found := by
    simp only [Group.addThread] at hfound
    by_cases hother : other < group.threads.length
    · rw [getElem?_append_left (by simpa using hother)] at hfound
      rcases getElem?_set_cases hfound with ⟨rfl, rfl⟩ | hbefore
      · exact .inr (.inl ⟨rfl, rfl⟩)
      · exact .inr (.inr hbefore)
    · rw [getElem?_append_right (by simpa using hother)] at hfound
      have hlast := List.getElem?_eq_some_iff.mp hfound
      simp only [List.length_set, List.length_cons, List.length_nil] at hlast
      obtain ⟨hbound, hget⟩ := hlast
      obtain rfl : found = ⟨false, autoReap, .running⟩ := by
        have := mem_of_getElem? hfound
        simpa using this
      exact .inl ⟨by omega, rfl⟩
  refine ⟨fun task htask => ?_, fun other found hfound hrunning => ?_, fun other found hfound => ?_⟩
  · simp only [Group.addThread, mem_append, mem_singleton, length_append,
      length_set, length_cons, length_nil] at htask ⊢
    rcases htask with hbefore | rfl
    · have := hinv.bounded task hbefore
      omega
    · omega
  · simp only [Group.addThread, mem_append, mem_singleton]
    rcases hsplit other found hfound with ⟨rfl, -⟩ | ⟨rfl, -⟩ | ⟨-, hbefore⟩
    · exact .inr rfl
    · exact .inl (hinv.listed other record hrecord hlive)
    · exact .inl (hinv.listed other found hbefore hrunning)
  · rcases hsplit other found hfound with ⟨-, hnew⟩ | ⟨-, hnew⟩ | ⟨hne, hbefore⟩
    · rw [hnew]
      trivial
    · rw [hnew]
      trivial
    · have hfits := hinv.fits other found hbefore
      cases hfound : found.phase with
      | asking siblings | waiting =>
        rw [hfound] at hfits
        exact absurd (howner.symm.trans hfits.1) (by simp)
      | canonical => exact absurd (hinv.eq_of_alone hrecord hlive hbefore (.inl hfound)) hne.symm
      | installing => exact absurd (hinv.eq_of_alone hrecord hlive hbefore (.inr hfound)) hne.symm
      | _ => trivial

theorem PhaseFits.of_free {phase : Phase} (hfits : group.PhaseFits thread phase)
    (howner : group.execOwnerTid = none) (htasks : s'.tasks ⊆ group.tasks) :
    s'.PhaseFits thread phase := by
  cases phase with
  | asking siblings | waiting | canonical => exact absurd (howner.symm.trans hfits.1) (by simp)
  | installing => exact fun task htask => hfits task (htasks htask)
  | _ => trivial

theorem Inv.claimExec (hinv : group.Inv) (hrecord : group.threads[thread]? = some record)
    (hphase : record.phase = .execBegin) : (group.claimExec thread record).Inv := by
  have hlive : record.phase ≠ .exited := by simp [hphase]
  have hsiblings (task : ℕ) (htask : task ∈ group.tasks) (hne : task ≠ thread) :
      task ∈ group.tasks.filter fun task => task ≠ thread :=
    mem_filter.mpr ⟨htask, by simpa using hne⟩
  simp only [Group.claimExec]
  split
  · next hnone =>
    refine ⟨fun task htask => ?_, fun other found hfound hrunning => ?_,
      fun other found hfound => ?_⟩
    · simpa [Group.setPhase, setThread] using hinv.bounded task htask
    · rcases getElem?_set_cases hfound with ⟨rfl, -⟩ | ⟨-, hbefore⟩
      · exact hinv.listed other record hrecord hlive
      · exact hinv.listed other found hbefore hrunning
    · rcases getElem?_set_cases hfound with ⟨rfl, rfl⟩ | ⟨-, hbefore⟩
      · exact ⟨rfl, fun task htask hne => .inr (hsiblings task htask hne), by simp⟩
      · exact (hinv.fits other found hbefore).of_free hnone (Subset.refl _)
  · next owner howner =>
    split
    · next hsame =>
      refine hinv.setPhase (.asking _) hrecord hlive ⟨howner.trans (by rw [hsame]), ?_, by simp⟩ _ _
      exact fun task htask hne => .inr (hsiblings task htask hne)
    · exact hinv.advance { record with execExitRequested := true, phase := .exiting true } hrecord
        (fun _ => rfl) (Subset.refl _) (fun _ hmem hnot => absurd hmem hnot) hlive
        (fun _ _ => trivial) _ _

theorem asked_ask {sibling task : ℕ} (hasked : group.Asked task ∨ task = sibling)
    (hbound : task < group.threads.length) : (group.ask sibling).Asked task := by
  obtain ⟨record, hrecord⟩ : ∃ record, group.threads[task]? = some record :=
    ⟨_, getElem?_eq_getElem hbound⟩
  simp only [Asked, ask, getElem?_modify, hrecord]
  by_cases hsame : sibling = task
  · exact ⟨{ record with execExitRequested := true }, by simp [hsame], rfl⟩
  · rcases hasked with ⟨found, hfound, hrequested⟩ | heq
    · obtain rfl : record = found := by simpa [hrecord] using hfound
      exact ⟨record, by simp [hsame], hrequested⟩
    · exact absurd heq.symm hsame

theorem Inv.ask (hinv : group.Inv) (sibling : ℕ) : (group.ask sibling).Inv := by
  have hsplit (other : ℕ) (found : Thread)
      (hfound : (group.ask sibling).threads[other]? = some found) :
      ∃ record, group.threads[other]? = some record ∧ record.phase = found.phase := by
    simp only [Group.ask, getElem?_modify] at hfound
    cases hrecord : group.threads[other]? with
    | none => simp [hrecord] at hfound
    | some record =>
      refine ⟨record, rfl, ?_⟩
      rw [hrecord] at hfound
      by_cases hsame : sibling = other
      · simp only [hsame, if_true, Option.map_eq_map, Option.map_some, Option.some.injEq] at hfound
        rw [← hfound]
      · simp only [hsame, if_false, Option.map_eq_map, Option.map_some, Option.some.injEq] at hfound
        rw [hfound]
  have hasked (task : ℕ) (h : group.Asked task) : (group.ask sibling).Asked task := by
    have hbound : task < group.threads.length := by
      obtain ⟨record, hrecord, -⟩ := h
      exact (List.getElem?_eq_some_iff.mp hrecord).1
    exact asked_ask (.inl h) hbound
  refine ⟨fun task htask => ?_, fun other found hfound hrunning => ?_, fun other found hfound => ?_⟩
  · simpa [Group.ask] using hinv.bounded task htask
  · obtain ⟨record, hrecord, hphase⟩ := hsplit other found hfound
    exact hinv.listed other record hrecord (by rw [hphase]; exact hrunning)
  · obtain ⟨record, hrecord, hphase⟩ := hsplit other found hfound
    rw [← hphase]
    exact (hinv.fits other record hrecord).mono rfl (Subset.refl _) hasked

theorem Inv.canonicalize (hinv : group.Inv) (hrecord : group.threads[thread]? = some record)
    (hphase : record.phase = .canonical) : (group.canonicalize thread).Inv := by
  have hexited (other : ℕ) (found : Thread) (hne : other ≠ thread)
      (hfound : group.threads[other]? = some found) : found.phase = .exited := by
    by_contra hlive
    exact hne (hinv.eq_of_alone hfound hlive hrecord (.inl hphase))
  refine ⟨fun task htask => ?_, fun other found hfound hrunning => ?_, fun other found hfound => ?_⟩
  · obtain rfl := mem_singleton.mp htask
    simpa [Group.canonicalize] using (List.getElem?_eq_some_iff.mp hrecord).1
  · rcases getElem?_set_cases hfound with ⟨rfl, -⟩ | ⟨hne, hbefore⟩
    · exact List.mem_singleton_self _
    · exact absurd (hexited other found hne hbefore) hrunning
  · rcases getElem?_set_cases hfound with ⟨rfl, rfl⟩ | ⟨hne, hbefore⟩
    · exact fun task htask => mem_singleton.mp htask
    · rw [hexited other found hne hbefore]
      trivial

theorem Inv.checkSiblings (hinv : group.Inv) (hrecord : group.threads[thread]? = some record)
    (hphase : record.phase = .waiting) : (group.checkSiblings thread record).Inv := by
  have hlive : record.phase ≠ .exited := by simp [hphase]
  have hfits := hinv.fits thread record hrecord
  rw [hphase] at hfits
  simp only [Group.checkSiblings]
  split
  · exact hinv.setPhase (.exiting _) hrecord hlive trivial _ _
  · split
    · exact hinv
    · next hnone =>
      refine hinv.setPhase .canonical hrecord hlive ⟨hfits.1, fun task htask => ?_⟩ _ _
      by_contra hne
      exact hnone (any_eq_true.mpr ⟨task, htask, by simpa using hne⟩)

theorem Inv.detach (hinv : group.Inv) {execExit : Bool}
    (hrecord : group.threads[thread]? = some record) (hlive : record.phase ≠ .exited) :
    (group.detach thread record execExit).Inv := by
  refine hinv.advance { record with phase := .exited } hrecord id ?_ ?_ hlive
    (fun _ _ => trivial) _ _
  · split
    · exact filter_sublist.subset
    · exact Subset.refl _
  · intro task hmem hnot
    split at hnot
    · exact ⟨by simpa [hmem] using hnot, rfl⟩
    · exact absurd hmem hnot

/-- No thread joins the group while a thread runs `execve`. -/
def NoJoins (group : Group) (step : GroupStep) : Prop :=
  step.action = .addThread → group.execOwnerTid = none

instance (group : Group) (step : GroupStep) : Decidable (group.NoJoins step) :=
  inferInstanceAs (Decidable (_ → _))

theorem Inv.next (hinv : group.Inv) {step : GroupStep} (hjoins : group.NoJoins step)
    (hnext : group.next step = some s') : s'.Inv := by
  simp only [Group.next] at hnext
  split at hnext
  · simp at hnext
  · next record hrecord =>
    obtain ⟨thread, action⟩ := step
    generalize hphase : record.phase = phase at hnext
    simp only [Group.act] at hnext
    split at hnext <;> simp only [some.injEq, reduceCtorEq] at hnext <;> subst s'
    · exact hinv.setPhase (.cloning _) hrecord (by simp [hphase]) trivial _ _
    · exact hinv.addThread hrecord hphase (hjoins rfl)
    · exact hinv.setPhase .execBegin hrecord (by simp [hphase]) trivial _ _
    · exact hinv.claimExec hrecord hphase
    · have hfits := hinv.fits thread record hrecord
      rw [hphase] at hfits
      refine hinv.setPhase .waiting hrecord (by simp [hphase]) ⟨hfits.1, ?_⟩ _ _
      intro task htask hne
      exact (hfits.2.1 task htask hne).resolve_right not_mem_nil
    · next sibling rest =>
      have hfits := hinv.fits thread record hrecord
      rw [hphase] at hfits
      have hne : sibling ≠ thread := fun heq => hfits.2.2 (by rw [heq]; exact mem_cons_self)
      have hkept : (group.ask sibling).threads[thread]? = some record := by
        simp [Group.ask, hrecord, hne]
      refine (hinv.ask sibling).setPhase (.asking rest) hkept (by simp [hphase])
        ⟨hfits.1, fun task htask hother => ?_, fun hmem => hfits.2.2 (mem_cons_of_mem _ hmem)⟩
        _ _
      have hbound := hinv.bounded task htask
      rcases hfits.2.1 task htask hother with hasked | hmem
      · exact .inl (asked_ask (.inl hasked) hbound)
      · rcases mem_cons.mp hmem with hfirst | hlater
        · exact .inl (asked_ask (.inr hfirst) hbound)
        · exact .inr hlater
    · exact hinv.checkSiblings hrecord hphase
    · exact hinv.canonicalize hrecord hphase
    · exact hinv.setPhase .running hrecord (by simp [hphase]) trivial _ _
    · exact hinv.setPhase (.exiting _) hrecord (by simp [hphase]) trivial _ _
    · exact hinv.setPhase (.exiting _) hrecord (by simp [hphase]) trivial _ _
    · exact hinv.setPhase (.detaching _) hrecord (by simp [hphase]) trivial _ _
    · exact hinv.detach hrecord (by simp [hphase])

theorem Inv.start : Group.start.Inv where
  bounded task htask := by
    obtain rfl := mem_singleton.mp htask
    decide
  listed thread record hrecord _ := by
    cases thread <;> simp_all [Group.start]
  fits thread record hrecord := by
    cases thread with
    | zero =>
      obtain rfl : ⟨false, false, .running⟩ = record := by simpa [Group.start] using hrecord
      trivial
    | succ thread => simp [Group.start] at hrecord

/-- While a thread waits in `execve`, every other thread in the list has been asked
to exit, and when it installs the new address space it is the only thread. -/
structure Stops (group : Group) (thread : ℕ) (record : Thread) : Prop where
  asked : record.phase = .waiting → ∀ task ∈ group.tasks, task ≠ thread → group.Asked task
  alone : record.phase = .installing → (∀ task ∈ group.tasks, task = thread) ∧
    ∀ (other : ℕ) (found : Thread), group.threads[other]? = some found → other ≠ thread →
      found.phase = .exited

theorem stops_of_reachable (group : Group) (hreach : Reachable next NoJoins start group)
    (thread : ℕ) (record : Thread) (hrecord : group.threads[thread]? = some record) :
    group.Stops thread record := by
  have hinv : group.Inv :=
    hreach.invariant Inv.start fun _ _ _ hinv hjoins hnext => hinv.next hjoins hnext
  have hfits := hinv.fits thread record hrecord
  refine ⟨fun hphase => ?_, fun hphase => ⟨?_, fun other found hfound hne => ?_⟩⟩
  · rw [hphase] at hfits
    exact hfits.2
  · rw [hphase] at hfits
    exact hfits
  · by_contra hlive
    exact hne (hinv.eq_of_alone hfound hlive hrecord (.inr hphase))

/-- The second thread is about to list a third one when the first thread has asked
it to exit and waits. -/
def lateClone : List GroupStep :=
  [⟨0, .beginClone true⟩, ⟨0, .addThread⟩, ⟨1, .beginClone true⟩, ⟨0, .beginExec⟩,
    ⟨0, .claimExec⟩, ⟨0, .askSibling⟩, ⟨0, .askSibling⟩]

theorem stops_after_lateClone : ∃ group record, Reachable next NoJoins start group ∧
      group.threads[0]? = some record ∧ record.phase = .waiting ∧ group.tasks = [0, 1] ∧
      group.Stops 0 record := by
  obtain ⟨group, hreach, hrecord, htasks⟩ : ∃ group, Reachable next NoJoins start group ∧
      group.threads[0]? = some ⟨false, false, .waiting⟩ ∧ group.tasks = [0, 1] :=
    exists_reachable_of_runSteps lateClone (by decide +kernel)
  exact ⟨group, _, hreach, hrecord, rfl, htasks, stops_of_reachable group hreach 0 _ hrecord⟩

/-- The third thread is listed afterwards and nobody asks it to exit. -/
theorem not_stops_after_late_join : ∃ group record, Reachable next always start group ∧
      group.threads[0]? = some record ∧ ¬group.Stops 0 record := by
  obtain ⟨group, hreach, hrecord, hlisted, hlate⟩ : ∃ group, Reachable next always start group ∧
      group.threads[0]? = some ⟨false, false, .waiting⟩ ∧ 2 ∈ group.tasks ∧
        group.threads[2]? = some ⟨false, true, .running⟩ :=
    exists_reachable_of_runSteps (lateClone ++ [⟨1, .addThread⟩]) (by decide +kernel)
  refine ⟨group, _, hreach, hrecord, fun hstops => ?_⟩
  obtain ⟨found, hfound, hasked⟩ := hstops.asked rfl 2 hlisted (by decide)
  rw [hlate, some.injEq] at hfound
  simp [← hfound] at hasked

end Group

end Kairix.ExecThreads
