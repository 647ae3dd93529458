import Kairix.DescriptorEntries
import Kairix.LabelledRun

/-!
# Survival of descriptors

An entry of the table of a live process disappears only through calls of processes
which use this table.  The owner count of a table is the number of processes which
refer to it and have not released their files.
-/

namespace Kairix.Descriptors

open LabelledRun List

namespace FilesState

/-! ## Owners -/

def holders (processes : List ProcessFiles) (table : ℕ) : ℕ :=
  processes.countP fun process => process.files = table ∧ process.filesReleased = false

structure Inv (s : FilesState) : Prop where
  inRange : s.InRange
  owners : ∀ (pid : ℕ) (process : ProcessFiles), s.processes[pid]? = some process →
    (s.sharedOf process).owners = holders s.processes process.files
  released : ∀ (pid : ℕ) (process : ProcessFiles), s.processes[pid]? = some process →
    process.filesReleased = true → process.isZombie = true

variable {pid : ℕ}

theorem holders_set {processes : List ProcessFiles} {old : ProcessFiles} (new : ProcessFiles)
    (hold : processes[pid]? = some old) (table : ℕ) :
    holders (processes.set pid new) table +
        (if old.files = table ∧ old.filesReleased = false then 1 else 0) =
      holders processes table + if new.files = table ∧ new.filesReleased = false then 1 else 0 := by
  obtain ⟨hbound, hget⟩ := List.getElem?_eq_some_iff.mp hold
  simp only [holders, List.countP_set hbound, hget, decide_eq_true_eq]
  split
  · next hholds =>
    have hpos : 0 < processes.countP fun process =>
        process.files = table ∧ process.filesReleased = false :=
      countP_pos_iff.mpr ⟨old, mem_of_getElem? hold, by simpa using hholds⟩
    omega
  · omega

variable {s : FilesState} {process : ProcessFiles}

theorem holders_pos (hprocess : s.processes[pid]? = some process)
    (hheld : process.filesReleased = false) : 0 < holders s.processes process.files :=
  countP_pos_iff.mpr ⟨process, mem_of_getElem? hprocess, by simpa using hheld⟩

theorem holders_eq_zero (hlt : s.InRange) {table : ℕ} (htable : s.shared.length ≤ table) :
    holders s.processes table = 0 := by
  refine countP_eq_zero.mpr fun process hmem => ?_
  obtain ⟨pid, hprocess⟩ := getElem?_of_mem hmem
  have hbelow := hlt pid process hprocess
  simp only [decide_eq_true_eq, not_and]
  omega

def ownersOf (shared : List SharedFiles) (table : ℕ) : ℕ := (shared.getD table ⟨⟨[]⟩, 0⟩).owners

theorem ownersOf_set {caller : ProcessFiles} (hlt : caller.files < s.shared.length)
    (changed : SharedFiles) (table : ℕ) : ownersOf (s.shared.set caller.files changed) table +
        (if caller.files = table then (s.sharedOf caller).owners else 0) =
      ownersOf s.shared table + if caller.files = table then changed.owners else 0 := by
  simp only [ownersOf, sharedOf, getD_eq_getElem?_getD, getElem?_set, if_pos hlt]
  split
  · next hsame =>
    rw [hsame]
    exact Nat.add_comm ..
  · rfl

theorem ownersOf_append (shared : List SharedFiles) (added : SharedFiles) (table : ℕ) :
    ownersOf (shared ++ [added]) table =
      ownersOf shared table + if shared.length = table then added.owners else 0 := by
  simp only [ownersOf, getD_eq_getElem?_getD]
  rcases lt_trichotomy table shared.length with hlt | rfl | hgt
  · simp [getElem?_append_left hlt, hlt.ne']
  · simp
  · simp [getElem?_append_right hgt.le, getElem?_eq_none hgt.le, hgt.ne,
      getElem?_eq_none (show [added].length ≤ table - shared.length by simp; omega)]

theorem holders_append (processes : List ProcessFiles) {child : ProcessFiles}
    (hheld : child.filesReleased = false) (table : ℕ) : holders (processes ++ [child]) table =
      holders processes table + if child.files = table then 1 else 0 := by
  simp [holders, countP_append, countP_cons, hheld]

attribute [local simp] FilesState.setProcess FilesState.setShared FilesState.start

namespace Inv

theorem start (context : FilesContext) : (FilesState.start context).Inv where
  inRange := by
    intro pid process hprocess
    cases pid <;> simp_all
    simp [← hprocess]
  owners := by
    intro pid process hprocess
    cases pid <;> simp_all
    simp [← hprocess, sharedOf, holders]
  released := by
    intro pid process hprocess
    cases pid <;> simp_all
    simp [← hprocess]

variable {s : FilesState}

variable {pid : ℕ} (hinv : s.Inv)
include hinv

theorem put {old new : ProcessFiles} {tables : List SharedFiles} {processes : List ProcessFiles}
    (hold : s.processes[pid]? = some old)
    (hprocesses : ∀ (pid : ℕ) (process : ProcessFiles), processes[pid]? = some process →
      process = new ∨ s.processes[pid]? = some process)
    (hlength : s.shared.length ≤ tables.length)
    (hfiles : new.files = old.files ∨ s.shared.length ≤ new.files ∧ new.files < tables.length)
    (hreleased : new.filesReleased = true → new.isZombie = true)
    (hbalance : ∀ table, ownersOf tables table + holders s.processes table =
      ownersOf s.shared table + holders processes table) :
    (⟨tables, processes⟩ : FilesState).Inv := by
  have hlt := hinv.inRange pid old hold
  have howners (table : ℕ) (hbefore : ownersOf s.shared table = holders s.processes table) :
      ownersOf tables table = holders processes table := by
    have := hbalance table
    omega
  refine ⟨fun other process hprocess => ?_, fun other process hprocess => ?_,
    fun other process hprocess => ?_⟩ <;>
    rcases hprocesses other process hprocess with rfl | hbefore
  · simp only
    omega
  · exact (hinv.inRange other process hbefore).trans_le hlength
  · refine howners _ ?_
    rcases hfiles with hsame | ⟨hfresh, -⟩
    · rw [hsame]
      exact hinv.owners pid old hold
    · simp [ownersOf, getElem?_eq_none hfresh, holders_eq_zero hinv.inRange hfresh]
  · exact howners _ (hinv.owners other process hbefore)
  · exact hreleased
  · exact hinv.released other process hbefore

theorem setShared {caller : ProcessFiles} {shared : SharedFiles}
    (hcaller : s.processes[pid]? = some caller)
    (howners : shared.owners = (s.sharedOf caller).owners) :
    (s.setShared caller.files shared).Inv := by
  refine hinv.put hcaller (fun _ _ => .inr) (by simp) (.inl rfl) (hinv.released pid caller hcaller)
    fun table => ?_
  have hset := ownersOf_set (hinv.inRange pid caller hcaller) shared table
  rw [howners] at hset
  rw [Nat.add_right_cancel hset]

theorem setProcess {old new : ProcessFiles} (hold : s.processes[pid]? = some old)
    (hfiles : new.files = old.files) (hreleased : new.filesReleased = old.filesReleased)
    (hzombie : old.isZombie = true → new.isZombie = true) : (s.setProcess pid new).Inv := by
  refine hinv.put hold (eq_or_mem_of_setProcess hold) le_rfl (.inl hfiles) ?_ fun table => ?_
  · rw [hreleased]
    exact fun hbefore => hzombie (hinv.released pid old hold hbefore)
  · have hcount := holders_set new hold table
    rw [hfiles, hreleased] at hcount
    omega

theorem release {caller : ProcessFiles} {shared : SharedFiles}
    (hcaller : s.processes[pid]? = some caller) (hzombie : caller.isZombie = true)
    (hheld : caller.filesReleased = false)
    (howners : shared.owners = (s.sharedOf caller).owners - 1) :
    ((s.setShared caller.files shared).setProcess pid
      { caller with filesReleased := true }).Inv := by
  have howned := hinv.owners pid caller hcaller
  have hpos := holders_pos hcaller hheld
  refine hinv.put hcaller (eq_or_mem_of_setProcess hcaller) (by simp) (.inl rfl) (fun _ => hzombie)
    fun table => ?_
  have hcount := holders_set { caller with filesReleased := true } hcaller table
  simp only [hheld, and_true, Bool.true_eq_false, and_false, if_false, add_zero] at hcount
  have hset := ownersOf_set (hinv.inRange pid caller hcaller) shared table
  simp only [FilesState.setShared]
  split_ifs at hcount hset <;> omega

theorem exec {caller : ProcessFiles} (context : FilesContext)
    (hcaller : s.processes[pid]? = some caller) (hheld : caller.filesReleased = false) :
    (⟨s.shared.set caller.files
        { s.sharedOf caller with owners := (s.sharedOf caller).owners - 1 } ++
      [⟨context, 1⟩],
      s.processes.set pid { caller with files := s.shared.length }⟩ : FilesState).Inv := by
  have howned := hinv.owners pid caller hcaller
  have hpos := holders_pos hcaller hheld
  refine hinv.put hcaller (eq_or_mem_of_setProcess hcaller) (by simp) (.inr (by simp))
    (hinv.released pid caller hcaller) fun table => ?_
  have hcount := holders_set { caller with files := s.shared.length } hcaller table
  simp only [hheld, and_true] at hcount
  have hset := ownersOf_set (hinv.inRange pid caller hcaller)
    { s.sharedOf caller with owners := (s.sharedOf caller).owners - 1 } table
  simp only [ownersOf_append, length_set, hheld] at hset ⊢
  split_ifs at hcount hset ⊢ <;> omega

theorem step {s' : FilesState} {label : FilesStep} {effect : Effect}
    (hstep : s.StepsTo label s' effect) : s'.Inv := by
  cases hstep with
  | refused | released => exact hinv
  | call hcaller hstage hrun => exact hinv.setShared hcaller rfl
  | @cloneShared pid parent hparent hstage =>
    refine hinv.put hparent (fun _ _ => getElem?_append_process) (by simp) (.inl rfl) (by simp)
      fun table => ?_
    have hset := ownersOf_set (hinv.inRange pid parent hparent)
      { s.sharedOf parent with owners := (s.sharedOf parent).owners + 1 } table
    rw [holders_append _ rfl]
    simp only at hset ⊢
    split_ifs at hset ⊢ <;> omega
  | cloneCopied hparent hstage =>
    refine hinv.put hparent (fun _ _ => getElem?_append_process) (by simp) (.inr (by simp))
      (by simp) fun table => ?_
    rw [ownersOf_append, holders_append _ rfl]
    simp only
    omega
  | register hchild hstage => exact hinv.setProcess hchild rfl rfl id
  | exec hcaller hstage hheld htaken => exact hinv.exec _ hcaller hheld
  | beginExit hcaller hstage => exact hinv.setProcess hcaller rfl rfl fun _ => rfl
  | closeLast hcaller hstage hzombie hheld howners =>
    exact hinv.release hcaller hzombie hheld (by simp [howners])
  | closeShared hcaller hstage hzombie hheld => exact hinv.release hcaller hzombie hheld rfl
  | reap hcaller hstage =>
    refine setProcess (hinv.setShared hcaller ?_) hcaller rfl rfl id
    rfl

end Inv

def Live (state : FilesState) (pid : ℕ) : Prop :=
  ∃ process, state.processes[pid]? = some process ∧ process.stage ≠ .reaped ∧
    process.isZombie = false

/-- No live process uses the table of a process when it is reaped, and no call takes
back a socket descriptor. -/
def SeparateReaps (state : FilesState) : FilesStep → Prop
  | .reap pid => ∀ other, state.Live other → ¬state.SharesTable pid other
  | .call _ (.clearSlot _) => False
  | _ => True

theorem two_le_holders {other : ℕ} {sharer : ProcessFiles}
    (hprocess : s.processes[pid]? = some process)
    (hsharer : s.processes[other]? = some sharer) (hne : pid ≠ other)
    (hsame : process.files = sharer.files) (hheld : process.filesReleased = false)
    (hsharing : sharer.filesReleased = false) : 2 ≤ holders s.processes process.files := by
  have hcount := holders_set { process with filesReleased := true } hprocess process.files
  have hother : (s.setProcess pid { process with filesReleased := true }).processes[other]? =
      some sharer := by
    rw [setProcess, getElem?_set_ne hne, hsharer]
  have hpos := holders_pos hother hsharing
  rw [← hsame] at hpos
  simp only [hheld, and_self, if_true, Bool.true_eq_false, and_false, if_false] at hcount
  simp only [setProcess] at hpos
  omega

theorem not_live_of_last {actor : ℕ} {caller : ProcessFiles} (hinv : s.Inv)
    (hcaller : s.processes[actor]? = some caller)
    (hprocess : s.processes[pid]? = some process) (hsame : caller.files = process.files)
    (hzombie : caller.isZombie = true) (hheld : caller.filesReleased = false)
    (howners : (s.sharedOf caller).owners = 1) : ¬s.Live pid := by
  rintro ⟨alive, halive, -, hnotZombie⟩
  obtain rfl : process = alive := by simpa [hprocess] using halive
  have hunreleased : process.filesReleased = false := by
    by_contra hreleased
    simp [hinv.released pid process hprocess (by simpa using hreleased)] at hnotZombie
  have hne : actor ≠ pid := by
    rintro rfl
    obtain rfl : caller = process := by simpa [hcaller] using hprocess
    simp [hzombie] at hnotZombie
  have htwo := two_le_holders hcaller hprocess hne hsame hheld hunreleased
  have howned := hinv.owners actor caller hcaller
  omega

theorem inv_of_reachable {admits : FilesState → FilesStep → Prop} {context : FilesContext}
    (hreach : Reachable next admits (start context) s) : s.Inv := by
  refine hreach.invariant (Inv.start context) fun before label s' hinv _ hnext => ?_
  obtain ⟨⟨found, effect⟩, hstep, rfl⟩ := Option.map_eq_some_iff.mp hnext
  exact hinv.step (.of_step hstep)

/-- As long as no table in use is reaped, an entry of a live process goes away only
when a process which uses the same table closes it. -/
theorem entry_survives (context : FilesContext) (state after : FilesState) (label : FilesStep)
    (pid fd : ℕ) (file : OpenFile) (hreach : Reachable next SeparateReaps (start context) state)
    (hadmits : state.SeparateReaps label) (hnext : state.next label = some after)
    (hlive : state.Live pid) (hentry : state.entry pid fd = some file) :
    after.entry pid fd = some file ∨
      ∃ closer, label.closer = some closer ∧ state.SharesTable closer pid := by
  have hinv := inv_of_reachable hreach
  obtain ⟨⟨found, effect⟩, hstep, rfl⟩ := Option.map_eq_some_iff.mp hnext
  rcases (StepsTo.of_step hstep).entry hinv.inRange hentry with hkept | hloss
  · exact .inl hkept
  · cases hloss with
    | closed hcloser hshares hremoved => exact .inr ⟨_, hcloser, hshares⟩
    | cleared hshares => exact hadmits.elim
    | released hcaller hprocess hsame hzombie hheld howners hremoved =>
      exact absurd hlive (not_live_of_last hinv hcaller hprocess hsame hzombie hheld howners)
    | reaped hshares hremoved => exact absurd hshares (hadmits pid hlive)

instance (state : FilesState) (pid : ℕ) : Decidable (state.Live pid) :=
  decidable_of_iff (∃ process ∈ state.processes[pid]?,
    process.stage ≠ .reaped ∧ process.isZombie = false) Iff.rfl

instance (state : FilesState) (pid other : ℕ) : Decidable (state.SharesTable pid other) :=
  decidable_of_iff (∃ process ∈ state.processes[pid]?, ∃ sharer ∈ state.processes[other]?,
    process.files = sharer.files) (by simp [SharesTable])

theorem lt_length_of_live (hlive : s.Live pid) : pid < s.processes.length := by
  obtain ⟨process, hprocess, -⟩ := hlive
  exact (List.getElem?_eq_some_iff.mp hprocess).1

instance (state : FilesState) (pid : ℕ) :
    Decidable (∀ other, state.Live other → ¬state.SharesTable pid other) :=
  decidable_of_iff (∀ other ∈ range state.processes.length,
    state.Live other → ¬state.SharesTable pid other)
    ⟨fun h other hlive => h other (mem_range.mpr (lt_length_of_live hlive)) hlive,
      fun h other _ => h other⟩

instance (state : FilesState) (label : FilesStep) : Decidable (state.SeparateReaps label) := by
  unfold SeparateReaps
  cases label with
  | call pid call => cases call <;> infer_instance
  | _ => infer_instance

/-- A parent with one open file gives its table to a child, which exits. -/
def sharedExit : List FilesStep :=
  [.call 0 (.openFile 8 100 false), .clone 0 true, .register 1, .beginExit 1]

theorem entry_survives_sharedExit : ∃ state after, Reachable next SeparateReaps (start ⟨[]⟩) state ∧
      state.next (.closeAllFiles 1) = some after ∧ state.SharesTable 1 0 ∧
      (after.entry 0 0 = some (.description 100) ∨
        ∃ closer, (FilesStep.closeAllFiles 1).closer = some closer ∧
          state.SharesTable closer 0) := by
  obtain ⟨state, hreach, hsome, hlive, hshares, hentry⟩ :
      ∃ state, Reachable next SeparateReaps (start ⟨[]⟩) state ∧
        (state.next (.closeAllFiles 1)).isSome ∧ state.Live 0 ∧ state.SharesTable 1 0 ∧
          state.entry 0 0 = some (.description 100) :=
    exists_reachable_of_runSteps sharedExit (by decide +kernel)
  obtain ⟨after, hnext⟩ := Option.isSome_iff_exists.mp hsome
  exact ⟨state, after, hreach, hnext, hshares,
    entry_survives ⟨[]⟩ state after (.closeAllFiles 1) 0 0 (.description 100) hreach trivial hnext
      hlive hentry⟩

/-- When the parent then reaps the child, its own descriptors are gone. -/
theorem entry_lost_at_shared_reap : ∃ state after, Reachable next always (start ⟨[]⟩) state ∧
      state.next (.reap 1) = some after ∧ state.Live 0 ∧
      state.entry 0 0 = some (.description 100) ∧ after.entry 0 0 = none ∧
      (FilesStep.reap 1).closer = none := by
  obtain ⟨state, hreach, after, hnext, hlive, hbefore, hlost⟩ :
      ∃ state, Reachable next always (start ⟨[]⟩) state ∧ ∃ after ∈ state.next (.reap 1),
        state.Live 0 ∧ state.entry 0 0 = some (.description 100) ∧ after.entry 0 0 = none :=
    exists_reachable_of_runSteps (sharedExit ++ [.closeAllFiles 1]) (by decide +kernel)
  exact ⟨state, after, hreach, hnext, hlive, hbefore, hlost, rfl⟩

/-- In every run the owner count of a table is the number of processes which refer to it and
have not released it. -/
theorem owners_exact_of_reachable {context : FilesContext} {state : FilesState}
    (hreach : Reachable next always (start context) state) {pid : ℕ} {process : ProcessFiles}
    (hprocess : state.processes[pid]? = some process) :
    (state.sharedOf process).owners = holders state.processes process.files :=
  (inv_of_reachable hreach).owners pid process hprocess

theorem owners_exact_after_sharedExit : ∃ state, Reachable next always (start ⟨[]⟩) state ∧
      ∃ process, state.processes[1]? = some process ∧ (state.sharedOf process).owners = 2 := by
  obtain ⟨state, hreach, process, hprocess, hholders⟩ : ∃ state,
      Reachable next always (start ⟨[]⟩) state ∧ ∃ process ∈ state.processes[1]?,
        holders state.processes process.files = 2 :=
    exists_reachable_of_runSteps sharedExit (by decide +kernel)
  exact ⟨state, hreach, process, hprocess,
    (owners_exact_of_reachable hreach hprocess).trans hholders⟩

/-! ## Holders of descriptions -/

def Held (s : FilesState) (file : OpenFile) : Prop :=
  ∃ pid process fd, s.registered pid = some process ∧
    (s.sharedOf process).context.file fd = some file

theorem held_of_entry {fd : ℕ} {file : OpenFile} {process : ProcessFiles}
    (hprocess : s.processes[pid]? = some process) (hstage : process.stage = .registered)
    (hentry : s.entry pid fd = some file) : s.Held file := by
  obtain ⟨found, hfound, hfile⟩ := entry_eq_some.mp hentry
  obtain rfl : process = found := by simpa [hprocess] using hfound
  exact ⟨pid, process, fd, registered_eq_some.mpr ⟨hprocess, hstage⟩, hfile⟩

variable {s' : FilesState} {label : FilesStep} {effect : Effect}

theorem StepsTo.stage {process : ProcessFiles} (hstep : s.StepsTo label s' effect)
    (hprocess : s.processes[pid]? = some process) :
    ∃ found, s'.processes[pid]? = some found ∧ (found.stage = process.stage ∨
      found.stage = .registered ∨ label = .reap pid ∧ found.stage = .reaped) := by
  have hbound : pid < s.processes.length := (List.getElem?_eq_some_iff.mp hprocess).1
  have hset {actor : ℕ} {old : ProcessFiles} (new : ProcessFiles)
      (hold : s.processes[actor]? = some old)
      (hnew : new.stage = old.stage ∨ new.stage = .registered ∨
        label = .reap actor ∧ new.stage = .reaped) :
      ∃ found, (s.processes.set actor new)[pid]? = some found ∧
        (found.stage = process.stage ∨ found.stage = .registered ∨
          label = .reap pid ∧ found.stage = .reaped) := by
    by_cases hpid : actor = pid
    · subst pid
      obtain rfl : old = process := by simpa [hold] using hprocess
      exact ⟨new, getElem?_set_self hbound, hnew⟩
    · exact ⟨process, by rw [getElem?_set_ne hpid, hprocess], .inl rfl⟩
  cases hstep with
  | refused | released | call => exact ⟨process, hprocess, .inl rfl⟩
  | cloneShared | cloneCopied =>
    exact ⟨process, by rw [getElem?_append_left hbound, hprocess], .inl rfl⟩
  | register hchild => exact hset _ hchild (.inr (.inl rfl))
  | exec hcaller | beginExit hcaller | closeLast hcaller | closeShared hcaller =>
    exact hset _ hcaller (.inl rfl)
  | reap hcaller => exact hset _ hcaller (.inr (.inr ⟨rfl, rfl⟩))

theorem StepsTo.reap_entry {fd : ℕ} (hstep : s.StepsTo (.reap pid) s' effect)
    (hlt : s.InRange) : s'.entry pid fd = none := by
  cases hstep with
  | @reap _ caller hcaller hstage =>
    have hbound : pid < s.processes.length := (List.getElem?_eq_some_iff.mp hcaller).1
    simp [FilesState.entry, setProcess, setShared, hbound, sharedOf,
      hlt pid caller hcaller, FilesContext.file]

/-- A file which is held stays held, or a call has to release it, or the slot which
referred to it has been cleared. -/
theorem StepsTo.held {file : OpenFile} (hstep : s.StepsTo label s' effect)
    (hlt : s.InRange) (hheld : s.Held file) :
    s'.Held file ∨ file ∈ effect.removed ∨
      ∃ actor fd, label = .call actor (.clearSlot fd) ∧ s.entry actor fd = some file := by
  obtain ⟨pid, process, fd, hregistered, hfile⟩ := hheld
  obtain ⟨hprocess, hstage⟩ := registered_eq_some.mp hregistered
  have hentry : s.entry pid fd = some file := entry_eq_some.mpr ⟨process, hprocess, hfile⟩
  rcases hstep.entry hlt hentry with hkept | hloss
  · by_cases hreap : label = .reap pid
    · subst label
      rw [hstep.reap_entry hlt] at hkept
      simp at hkept
    · obtain ⟨found, hfound, hsame | hregistered | ⟨hlabel, -⟩⟩ := hstep.stage hprocess
      · exact .inl (held_of_entry hfound (hsame.trans hstage) hkept)
      · exact .inl (held_of_entry hfound hregistered hkept)
      · exact absurd hlabel hreap
  · cases hloss with
    | closed hcloser hshares hremoved
    | released hcaller hsharer hsame hzombie hheld howners hremoved | reaped hshares hremoved =>
      exact .inr (.inl hremoved)
    | @cleared actor hshares =>
      obtain ⟨caller, sharer, hcaller, hsharer, hsame⟩ := hshares
      obtain rfl : process = sharer := by simpa [hprocess] using hsharer
      refine .inr (.inr ⟨actor, fd, rfl, entry_eq_some.mpr ⟨caller, hcaller, ?_⟩⟩)
      rw [s.sharedOf_congr hsame, hfile]

/-! ## Reaped processes -/

/-- The table of a reaped process is empty and no other process uses it. -/
def Retired (s : FilesState) : Prop :=
  ∀ (pid : ℕ) (process : ProcessFiles), s.processes[pid]? = some process →
    process.stage = .reaped → (s.sharedOf process).context = ⟨[]⟩ ∧
      ∀ (other : ℕ) (sharer : ProcessFiles), s.processes[other]? = some sharer →
        sharer.stage ≠ .reaped → sharer.files ≠ process.files

/-- A process is reaped when no other process uses its table. -/
def LoneReaps (state : FilesState) : FilesStep → Prop
  | .reap pid => ∀ other sharer, state.processes[other]? = some sharer →
      sharer.stage ≠ .reaped → other ≠ pid → ¬state.SharesTable pid other
  | _ => True

theorem Retired.start (context : FilesContext) : (FilesState.start context).Retired := by
  intro pid process hprocess hstage
  cases pid <;> simp_all
  simp [← hprocess] at hstage

variable {actor : ℕ}

theorem Retired.put (hretired : s.Retired) (hlt : s.InRange) {old new : ProcessFiles}
    {tables : List SharedFiles} {processes : List ProcessFiles}
    (hold : s.processes[actor]? = some old)
    (hprocesses : ∀ (pid : ℕ) (process : ProcessFiles), processes[pid]? = some process →
      process = new ∨ s.processes[pid]? = some process) (hstage : old.stage ≠ .reaped)
    (hnew : new.stage ≠ .reaped) (hfiles : new.files = old.files ∨ s.shared.length ≤ new.files)
    (htables : ∀ process : ProcessFiles, process.files < s.shared.length →
      process.files ≠ old.files →
        ((⟨tables, []⟩ : FilesState).sharedOf process).context = (s.sharedOf process).context) :
    (⟨tables, processes⟩ : FilesState).Retired := by
  intro pid process hprocess hreaped
  rcases hprocesses pid process hprocess with rfl | hbefore
  · exact absurd hreaped hnew
  · obtain ⟨hempty, hothers⟩ := hretired pid process hbefore hreaped
    have hbelow := hlt pid process hbefore
    refine ⟨(htables process hbelow (Ne.symm (hothers actor old hold hstage))).trans hempty,
      fun other sharer hsharer hunreaped => ?_⟩
    rcases hprocesses other sharer hsharer with rfl | hsharer
    · rcases hfiles with hkept | hfresh
      · rw [hkept]
        exact hothers actor old hold hstage
      · omega
    · exact hothers other sharer hsharer hunreaped

theorem Retired.step (hretired : s.Retired) (hlt : s.InRange)
    (hadmits : s.LoneReaps label) (hstep : s.StepsTo label s' effect) :
    s'.Retired := by
  have hset (index : ℕ) (shared : SharedFiles) (process : ProcessFiles)
      (hbelow : process.files < s.shared.length) (hne : process.files ≠ index) :
      ((⟨s.shared.set index shared, []⟩ : FilesState).sharedOf process).context =
        (s.sharedOf process).context := by
    rw [sharedOf_set _ _ _ _ _ hbelow, if_neg hne]
  cases hstep with
  | refused | released => exact hretired
  | call hcaller hstage hrun =>
    exact hretired.put hlt hcaller (fun _ _ => .inr) (by simp [hstage]) (by simp [hstage])
      (.inl rfl) (hset _ _)
  | cloneShared hparent hstage =>
    exact hretired.put hlt hparent (fun _ _ => getElem?_append_process) (by simp [hstage])
      (by simp) (.inl rfl) (hset _ _)
  | cloneCopied hparent hstage =>
    refine hretired.put hlt hparent (fun _ _ => getElem?_append_process) (by simp [hstage])
      (by simp) (.inr le_rfl) fun process hbelow _ => ?_
    rw [sharedOf_append _ _ s.processes _ _ hbelow]
  | register hchild hstage =>
    exact hretired.put hlt hchild (eq_or_mem_of_setProcess hchild) (by simp [hstage]) (by simp)
      (.inl rfl) fun _ _ _ => rfl
  | exec hcaller hstage hheld htaken =>
    refine hretired.put hlt hcaller (eq_or_mem_of_setProcess hcaller) (by simp [hstage])
      (by simp [hstage]) (.inr le_rfl) fun process hbelow hne => ?_
    rw [sharedOf_append _ _ [] _ _ (by simpa using hbelow)]
    exact hset _ _ process hbelow hne
  | beginExit hcaller hstage =>
    exact hretired.put hlt hcaller (eq_or_mem_of_setProcess hcaller) (by simp [hstage])
      (by simp [hstage]) (.inl rfl) fun _ _ _ => rfl
  | closeLast hcaller hstage | closeShared hcaller hstage =>
    exact hretired.put hlt hcaller (eq_or_mem_of_setProcess hcaller) (by simp [hstage])
      (by simp [hstage]) (.inl rfl) (hset _ _)
  | @reap actor caller hcaller hstage =>
    intro pid process hprocess hreaped
    rcases getElem?_setProcess hcaller hprocess with ⟨-, rfl⟩ | ⟨hne, hbefore⟩
    · refine ⟨?_, fun other sharer hsharer hunreaped hsame => ?_⟩
      · simp [sharedOf, hlt actor caller hcaller]
      · rcases getElem?_setProcess hcaller hsharer with ⟨-, rfl⟩ | ⟨hother, hsharer⟩
        · exact hunreaped rfl
        · exact hadmits other sharer hsharer hunreaped hother
            ⟨caller, sharer, hcaller, hsharer, hsame.symm⟩
    · obtain ⟨hempty, hothers⟩ := hretired pid process hbefore hreaped
      have hstage : caller.stage ≠ .reaped := by simp [hstage]
      refine ⟨?_, fun other sharer hsharer hunreaped => ?_⟩
      · exact (hset _ _ process (hlt pid process hbefore)
          (Ne.symm (hothers actor caller hcaller hstage))).trans hempty
      · rcases getElem?_setProcess hcaller hsharer with ⟨-, rfl⟩ | ⟨-, hsharer⟩
        · exact absurd rfl hunreaped
        · exact hothers other sharer hsharer hunreaped

end FilesState

end Kairix.Descriptors
