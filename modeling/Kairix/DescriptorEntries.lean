import Kairix.DescriptorTables

/-!
# Entries of descriptor tables

What one section does to the entries of the tables: an entry is kept, or the call
which has taken it out still has to release the file, or it is the slot which a
failing call clears.
-/

namespace Kairix.Descriptors

open List Option

theorem map_eq_ok {ε α β : Type*} {result : Except ε α} {f : α → β} {value : β}
    (hmap : result.map f = .ok value) : ∃ found, result = .ok found ∧ f found = value := by
  cases result with
  | error => simp [Except.map] at hmap
  | ok found => exact ⟨found, rfl, by simpa [Except.map] using hmap⟩

namespace FilesContext

/-! ## Slots -/

@[simp] theorem file_put_self (context : FilesContext) (fd : ℕ) (slot : Slot)
    (hfd : fd < context.slots.length) : (context.put fd slot).file fd = slot.file := by
  simp [file, put, hfd]

variable {fd other : ℕ}

theorem file_put_ne (context : FilesContext) (slot : Slot) (hne : other ≠ fd) :
    (context.put fd slot).file other = context.file other := by
  simp [file, put, hne.symm]

variable {context : FilesContext}

theorem lt_length_of_file {file : OpenFile} (hfile : context.file fd = some file) :
    fd < context.slots.length := by
  by_contra hge
  simp [FilesContext.file, getElem?_eq_none (not_lt.mp hge)] at hfile

theorem file_put_of_none {file : OpenFile} {slot : Slot} (hfree : context.file fd = none)
    (hfile : context.file other = some file) : (context.put fd slot).file other = some file := by
  have hne : other ≠ fd := by
    rintro rfl
    simp [hfree] at hfile
  rw [file_put_ne context slot hne, hfile]

theorem file_append_free (context : FilesContext) (count fd : ℕ) :
    (⟨context.slots ++ replicate count .free⟩ : FilesContext).file fd = context.file fd := by
  simp only [file]
  by_cases hfd : fd < context.slots.length
  · rw [getElem?_append_left hfd]
  · rw [getElem?_append_right (not_lt.mp hfd), getElem?_eq_none (not_lt.mp hfd)]
    by_cases hcount : fd - context.slots.length < count
    · simp [hcount, Slot.free]
    · simp [hcount]

@[simp] theorem file_reach (context : FilesContext) (fd other : ℕ) :
    (context.reach fd).file other = context.file other :=
  context.file_append_free _ other

theorem allocFd_spec {grown : FilesContext} {maxFd : ℕ}
    (halloc : context.allocFd maxFd = .ok (grown, fd)) :
    (∀ other, grown.file other = context.file other) ∧ context.file fd = none := by
  simp only [allocFd] at halloc
  split at halloc
  · next found hfind =>
    cases halloc
    have hfree := find?_some hfind
    exact ⟨fun _ => rfl, isNone_iff_eq_none.mp hfree⟩
  · split at halloc <;> cases halloc
    exact ⟨context.file_append_free 1, by simp [file]⟩

theorem install_keeps {s' : FilesContext} {maxFd : ℕ} {file : ℕ → OpenFile} {closeOnExec : Bool}
    {entry : OpenFile} (hinstall : context.install maxFd file closeOnExec = .ok (s', fd))
    (hentry : context.file other = some entry) : s'.file other = some entry := by
  simp only [install] at hinstall
  split at hinstall <;> cases hinstall
  next grown found halloc =>
    obtain ⟨hsame, hfree⟩ := allocFd_spec halloc
    exact file_put_of_none ((hsame _).trans hfree) ((hsame _).trans hentry)

theorem mark_file (context : FilesContext) (fds : List ℕ) (other : ℕ) :
    (context.mark fds).file other = context.file other := by
  induction fds generalizing context with
  | nil => rfl
  | cons fd rest ih =>
    simp only [mark]
    split
    · exact ih context
    · next file hfile =>
      rw [ih]
      by_cases hother : other = fd
      · subst other
        rw [file_put_self _ _ _ (lt_length_of_file hfile), hfile]
      · exact file_put_ne _ _ hother

theorem take_file (fds : List ℕ) {entry : OpenFile} (hentry : context.file other = some entry) :
    (context.take fds).1.file other = some entry ∨ entry ∈ (context.take fds).2 := by
  induction fds generalizing context with
  | nil => exact .inl hentry
  | cons fd rest ih =>
    simp only [take]
    split
    · exact ih hentry
    · next file hfile =>
      by_cases hother : other = fd
      · subst other
        rw [hfile, some.injEq] at hentry
        exact .inr (by simp [hentry])
      · rcases ih ((file_put_ne context .free hother).trans hentry) with hkept | htaken
        · exact .inl hkept
        · exact .inr (mem_cons_of_mem _ htaken)

theorem firstClosed_free
    (context : FilesContext) (fuel fd : ℕ) (hfuel : context.slots.length ≤ fd + fuel) (maxFd : ℕ)
    (hlt : context.firstClosed (min maxFd context.slots.length) fuel fd < maxFd) :
    context.file (context.firstClosed (min maxFd context.slots.length) fuel fd) = none := by
  induction fuel generalizing fd with
  | zero =>
    simp only [firstClosed, add_zero] at hlt hfuel ⊢
    simp [file, getElem?_eq_none hfuel]
  | succ fuel ih =>
    simp only [firstClosed] at hlt ⊢
    split at hlt
    · next hopen =>
      rw [if_pos hopen]
      exact ih (fd + 1) (by omega) hlt
    · next hclosed =>
      rw [if_neg hclosed]
      by_cases hlen : fd < context.slots.length
      · have hsome : ¬(context.file fd).isSome = true := fun h => hclosed ⟨by omega, h⟩
        simpa using hsome
      · simp [file, getElem?_eq_none (not_lt.mp hlen)]

/-! ## Calls -/

end FilesContext

def FileCall.Closes : FileCall → Prop
  | .close _ | .closeRange _ _ _ | .dup3 _ _ _ _ _ => True
  | _ => False

namespace FilesContext

/-- An entry is kept by a call, or the call has closed it and still has to release
the file, or it is the slot the call clears. -/
theorem run_entry {context s' : FilesContext} {pid fd : ℕ} {call : FileCall} {effect : Effect}
    {entry : OpenFile} (hrun : context.run pid call = .ok (s', effect))
    (hentry : context.file fd = some entry) :
    s'.file fd = some entry ∨ (call.Closes ∧ entry ∈ effect.removed) ∨ call = .clearSlot fd := by
  cases call with
  | openFile maxFd address closeOnExec | accept maxFd =>
    obtain ⟨⟨grown, found⟩, hinstall, hresult⟩ := map_eq_ok hrun
    cases hresult
    exact .inl (install_keeps hinstall hentry)
  | close closed =>
    simp only [run, sysClose] at hrun
    split at hrun <;> cases hrun
    next file hfile =>
      by_cases hfd : fd = closed
      · subst fd
        rw [hfile, some.injEq] at hentry
        exact .inr (.inl ⟨trivial, by simp [hentry]⟩)
      · exact .inl ((file_put_ne context .free hfd).trans hentry)
  | closeRange first last markOnly =>
    simp only [run, sysCloseRange] at hrun
    split at hrun
    · simp at hrun
    · split at hrun <;> cases hrun
      · exact .inl ((context.mark_file _ fd).trans hentry)
      · rcases take_file (context.rangeOf first last) hentry with hkept | htaken
        · exact .inl hkept
        · exact .inr (.inl ⟨trivial, htaken⟩)
  | dup oldFd maxFd managed =>
    simp only [run, sysDup] at hrun
    split at hrun
    · simp at hrun
    · obtain ⟨⟨grown, found⟩, hinstall, hresult⟩ := map_eq_ok hrun
      cases hresult
      exact .inl (install_keeps hinstall hentry)
  | dup3 oldFd newFd flags maxFd managed =>
    simp only [run, sysDup3] at hrun
    split at hrun
    · simp at hrun
    · split at hrun
      · simp at hrun
      · split at hrun
        · simp at hrun
        · split at hrun <;> cases hrun
          by_cases hfd : fd = newFd
          · subst fd
            exact .inr (.inl ⟨trivial, by simp [hentry]⟩)
          · left
            rw [file_put_ne _ _ hfd, file_reach, hentry]
  | dupFd oldFd least maxFd closeOnExec managed =>
    simp only [run, sysDupFd] at hrun
    split at hrun
    · simp at hrun
    · split at hrun <;> cases hrun
      next hmax =>
        have hfree := context.firstClosed_free context.slots.length least (by omega) maxFd
          (not_le.mp hmax)
        exact .inl (file_put_of_none ((context.file_reach _ _).trans hfree)
          ((context.file_reach _ _).trans hentry))
  | setFd setFd argument =>
    simp only [run, sysSetFd] at hrun
    split at hrun <;> cases hrun
    next file hfile =>
      left
      by_cases hfd : fd = setFd
      · subst fd
        rw [file_put_self _ _ _ (lt_length_of_file hfile), ← hfile, hentry]
      · rw [file_put_ne _ _ hfd, hentry]
  | clearSlot cleared =>
    cases hrun
    by_cases hfd : fd = cleared
    · exact .inr (.inr (by rw [hfd]))
    · exact .inl ((file_put_ne context .free hfd).trans hentry)

theorem mem_files_of_file {context : FilesContext} {fd : ℕ} {entry : OpenFile}
    (hentry : context.file fd = some entry) : entry ∈ context.files := by
  simp only [file, bind_eq_some_iff] at hentry
  obtain ⟨slot, hslot, hfile⟩ := hentry
  exact mem_filterMap.mpr ⟨slot, mem_of_getElem? hslot, hfile⟩

end FilesContext

/-! ## Steps -/

/-- The process whose step closes descriptors. -/
def FilesStep.closer : FilesStep → Option ℕ
  | .call pid (.close _) | .call pid (.closeRange _ _ _) | .call pid (.dup3 _ _ _ _ _)
  | .exec pid => some pid
  | _ => none

namespace FilesState

inductive StepsTo (s : FilesState) : FilesStep → FilesState → Effect → Prop
  | refused {pid : ℕ} {call : FileCall} : StepsTo s (.call pid call) s .none
  | call {pid : ℕ} {call : FileCall} {caller : ProcessFiles} {context : FilesContext}
      {effect : Effect} (hcaller : s.processes[pid]? = some caller)
      (hstage : caller.stage = .registered)
      (hrun : (s.sharedOf caller).context.run pid call = .ok (context, effect)) :
      StepsTo s (.call pid call)
        (s.setShared caller.files { s.sharedOf caller with context := context }) effect
  | cloneShared {pid : ℕ} {parent : ProcessFiles} (hparent : s.processes[pid]? = some parent)
      (hstage : parent.stage = .registered) :
      StepsTo s (.clone pid true)
        ⟨s.shared.set parent.files
          { s.sharedOf parent with owners := (s.sharedOf parent).owners + 1 },
        s.processes ++ [⟨parent.files, .created, false, false⟩]⟩ .none
  | cloneCopied {pid : ℕ} {parent : ProcessFiles} (hparent : s.processes[pid]? = some parent)
      (hstage : parent.stage = .registered) :
      StepsTo s (.clone pid false)
        ⟨s.shared ++ [⟨(s.sharedOf parent).context, 1⟩],
        s.processes ++ [⟨s.shared.length, .created, false, false⟩]⟩ .none
  | register {pid : ℕ} {child : ProcessFiles} (hchild : s.processes[pid]? = some child)
      (hstage : child.stage = .created) :
      StepsTo s (.register pid) (s.setProcess pid { child with stage := .registered }) .none
  | exec {pid : ℕ} {caller : ProcessFiles} {taken : FilesContext × List OpenFile}
      (hcaller : s.processes[pid]? = some caller) (hstage : caller.stage = .registered)
      (hheld : caller.filesReleased = false)
      (htaken : taken = (s.sharedOf caller).context.take
        (s.sharedOf caller).context.closedOnExec) :
      StepsTo s (.exec pid)
        ⟨s.shared.set caller.files
            { s.sharedOf caller with owners := (s.sharedOf caller).owners - 1 } ++
          [⟨taken.1, 1⟩],
        s.processes.set pid { caller with files := s.shared.length }⟩ (.closed taken.2)
  | beginExit {pid : ℕ} {caller : ProcessFiles} (hcaller : s.processes[pid]? = some caller)
      (hstage : caller.stage = .registered) :
      StepsTo s (.beginExit pid) (s.setProcess pid { caller with isZombie := true }) .none
  | released {pid : ℕ} : StepsTo s (.closeAllFiles pid) s .none
  | closeLast {pid : ℕ} {caller : ProcessFiles} (hcaller : s.processes[pid]? = some caller)
      (hstage : caller.stage = .registered) (hzombie : caller.isZombie = true)
      (hheld : caller.filesReleased = false) (howners : (s.sharedOf caller).owners = 1) :
      StepsTo s (.closeAllFiles pid)
        ((s.setShared caller.files ⟨⟨[]⟩, 0⟩).setProcess pid
          { caller with filesReleased := true })
        (.closed (s.sharedOf caller).context.files)
  | closeShared {pid : ℕ} {caller : ProcessFiles} (hcaller : s.processes[pid]? = some caller)
      (hstage : caller.stage = .registered) (hzombie : caller.isZombie = true)
      (hheld : caller.filesReleased = false) :
      StepsTo s (.closeAllFiles pid)
        ((s.setShared caller.files
          { s.sharedOf caller with owners := (s.sharedOf caller).owners - 1 }).setProcess
            pid { caller with filesReleased := true }) .none
  | reap {pid : ℕ} {caller : ProcessFiles} (hcaller : s.processes[pid]? = some caller)
      (hstage : caller.stage = .registered) :
      StepsTo s (.reap pid)
        ((s.setShared caller.files { s.sharedOf caller with context := ⟨[]⟩ }).setProcess
          pid { caller with stage := .reaped })
        (.closed (s.sharedOf caller).context.files)

variable {s : FilesState} {pid : ℕ} {process : ProcessFiles}

theorem registered_eq_some : s.registered pid = some process ↔
      s.processes[pid]? = some process ∧ process.stage = .registered := by
  simp [registered, filter_eq_some_iff]

theorem StepsTo.of_step {s' : FilesState} {label : FilesStep} {effect : Effect}
    (hstep : s.step label = some (s', effect)) : s.StepsTo label s' effect := by
  cases label with
  | call pid call =>
    simp only [step, callOn] at hstep
    split at hstep
    · simp at hstep
    · next caller hcaller =>
      obtain ⟨hprocess, hstage⟩ := registered_eq_some.mp hcaller
      split at hstep
      · simp at hstep
      · split at hstep <;> simp only [some.injEq, Prod.mk.injEq] at hstep <;>
          obtain ⟨rfl, rfl⟩ := hstep
        · exact .refused
        · next hrun => exact .call hprocess hstage hrun
  | clone pid shareFiles =>
    simp only [step, clone] at hstep
    split at hstep
    · simp at hstep
    · next parent hparent =>
      obtain ⟨hprocess, hstage⟩ := registered_eq_some.mp hparent
      cases shareFiles <;>
        simp only [Bool.false_eq_true, if_false, if_true, some.injEq, Prod.mk.injEq]
          at hstep <;> obtain ⟨rfl, rfl⟩ := hstep
      · exact .cloneCopied hprocess hstage
      · exact .cloneShared hprocess hstage
  | register pid =>
    simp only [step, FilesState.register] at hstep
    split at hstep
    · simp at hstep
    · next child hchild =>
      split at hstep <;> cases hstep
      next hstage => exact .register hchild hstage
  | exec pid =>
    simp only [step, FilesState.exec] at hstep
    split at hstep
    · simp at hstep
    · next caller hcaller =>
      obtain ⟨hprocess, hstage⟩ := registered_eq_some.mp hcaller
      split at hstep <;> cases hstep
      next hheld => exact .exec hprocess hstage (by simpa using hheld) rfl
  | beginExit pid =>
    simp only [step, FilesState.beginExit] at hstep
    split at hstep
    · simp at hstep
    · next caller hcaller =>
      obtain ⟨hprocess, hstage⟩ := registered_eq_some.mp hcaller
      cases hstep
      exact .beginExit hprocess hstage
  | closeAllFiles pid =>
    simp only [step, closeAllFiles] at hstep
    split at hstep
    · simp at hstep
    · next caller hcaller =>
      obtain ⟨hprocess, hstage⟩ := registered_eq_some.mp hcaller
      split at hstep
      · simp at hstep
      · next hzombie =>
        split at hstep
        · cases hstep
          exact .released
        · next hheld =>
          have hzombie : caller.isZombie = true := by simpa using hzombie
          have hheld : caller.filesReleased = false := by simpa using hheld
          split at hstep <;> simp only [some.injEq, Prod.mk.injEq] at hstep <;>
            obtain ⟨rfl, rfl⟩ := hstep
          · next howners => exact .closeLast hprocess hstage hzombie hheld howners
          · exact .closeShared hprocess hstage hzombie hheld
  | reap pid =>
    simp only [step, FilesState.reap] at hstep
    split at hstep
    · simp at hstep
    · next caller hcaller =>
      obtain ⟨hprocess, hstage⟩ := registered_eq_some.mp hcaller
      split at hstep <;> cases hstep
      exact .reap hprocess hstage

/-! ## Entries -/

def entry (state : FilesState) (pid fd : ℕ) : Option OpenFile :=
  state.processes[pid]?.bind fun process => (state.sharedOf process).context.file fd

def SharesTable (state : FilesState) (pid other : ℕ) : Prop :=
  ∃ process sharer, state.processes[pid]? = some process ∧
    state.processes[other]? = some sharer ∧ process.files = sharer.files

def InRange (s : FilesState) : Prop :=
  ∀ (pid : ℕ) (process : ProcessFiles), s.processes[pid]? = some process →
    process.files < s.shared.length

variable {fd : ℕ} {file : OpenFile}

theorem entry_eq_some : s.entry pid fd = some file ↔ ∃ process, s.processes[pid]? = some process ∧
      (s.sharedOf process).context.file fd = some file :=
  bind_eq_some_iff

theorem sharedOf_set
    (s : FilesState) (index : ℕ) (shared : SharedFiles) (processes : List ProcessFiles)
    (process : ProcessFiles) (hlt : process.files < s.shared.length) :
    (⟨s.shared.set index shared, processes⟩ : FilesState).sharedOf process =
      if process.files = index then shared else s.sharedOf process := by
  by_cases hindex : process.files = index
  · subst index
    simp [sharedOf, hlt]
  · simp [sharedOf, hindex, getElem?_set_ne (Ne.symm hindex)]

theorem sharedOf_append (shared tables : List SharedFiles) (before processes : List ProcessFiles)
    (process : ProcessFiles) (hlt : process.files < shared.length) :
    (⟨shared ++ tables, processes⟩ : FilesState).sharedOf process =
      (⟨shared, before⟩ : FilesState).sharedOf process := by
  simp [sharedOf, getElem?_append_left hlt]

theorem sharedOf_congr (s : FilesState) {sharer : ProcessFiles}
    (hsame : process.files = sharer.files) : s.sharedOf process = s.sharedOf sharer := by
  simp [sharedOf, hsame]

theorem getElem?_setProcess {other : ℕ} {old new : ProcessFiles}
    (hold : s.processes[pid]? = some old)
    (hprocess : (s.processes.set pid new)[other]? = some process) :
    other = pid ∧ process = new ∨ other ≠ pid ∧ s.processes[other]? = some process := by
  by_cases hother : other = pid
  · subst other
    rw [List.getElem?_set_self (List.getElem?_eq_some_iff.mp hold).1, some.injEq] at hprocess
    exact .inl ⟨rfl, hprocess.symm⟩
  · rw [List.getElem?_set_ne (Ne.symm hother)] at hprocess
    exact .inr ⟨hother, hprocess⟩

theorem eq_or_mem_of_setProcess {old new : ProcessFiles} (hold : s.processes[pid]? = some old)
    (other : ℕ) (process : ProcessFiles)
    (hprocess : (s.processes.set pid new)[other]? = some process) :
    process = new ∨ s.processes[other]? = some process :=
  (getElem?_setProcess hold hprocess).imp And.right And.right

theorem getElem?_append_process {processes : List ProcessFiles} {child : ProcessFiles} {other : ℕ}
    (hprocess : (processes ++ [child])[other]? = some process) :
    process = child ∨ processes[other]? = some process := by
  by_cases hother : other < processes.length
  · rw [getElem?_append_left hother] at hprocess
    exact .inr hprocess
  · rw [getElem?_append_right (not_lt.mp hother)] at hprocess
    exact .inl (mem_singleton.mp (mem_of_getElem? hprocess))

theorem entry_setProcess {actor : ℕ} {old new : ProcessFiles}
    (hold : s.processes[actor]? = some old) (hfiles : new.files = old.files)
    (hentry : s.entry pid fd = some file) :
    (s.setProcess actor new).entry pid fd = some file := by
  obtain ⟨process, hprocess, hfile⟩ := entry_eq_some.mp hentry
  have hbound : actor < s.processes.length := (List.getElem?_eq_some_iff.mp hold).1
  by_cases hpid : actor = pid
  · subst pid
    rw [hold, some.injEq] at hprocess
    subst process
    exact entry_eq_some.mpr ⟨new, getElem?_set_self hbound, by
      simpa [sharedOf, setProcess, hfiles] using hfile⟩
  · exact entry_eq_some.mpr ⟨process, by rw [setProcess, getElem?_set_ne hpid, hprocess],
      hfile⟩

theorem entry_setShared (caller : ProcessFiles) (shared : SharedFiles) (hlt : s.InRange)
    (hentry : s.entry pid fd = some file) :
    (s.setShared caller.files shared).entry pid fd = some file ∨
      ∃ process, s.processes[pid]? = some process ∧ caller.files = process.files ∧
        (s.sharedOf caller).context.file fd = some file ∧
        (s.setShared caller.files shared).entry pid fd = shared.context.file fd := by
  obtain ⟨process, hprocess, hfile⟩ := entry_eq_some.mp hentry
  have hset := s.sharedOf_set caller.files shared s.processes process (hlt pid process hprocess)
  by_cases hsame : process.files = caller.files
  · rw [if_pos hsame] at hset
    refine .inr ⟨process, hprocess, hsame.symm, by rw [← s.sharedOf_congr hsame, hfile], ?_⟩
    simp only [entry, setShared, hprocess, bind_some, hset]
  · rw [if_neg hsame] at hset
    refine .inl (entry_eq_some.mpr ⟨process, hprocess, ?_⟩)
    rw [setShared, hset]
    exact hfile

theorem entry_append {child : ProcessFiles} {tables : List SharedFiles}
    (htables : ∀ (processes : List ProcessFiles) (process : ProcessFiles),
      process.files < s.shared.length →
        ((⟨tables, processes⟩ : FilesState).sharedOf process).context =
          (s.sharedOf process).context) (hlt : s.InRange)
    (hentry : s.entry pid fd = some file) :
    (⟨tables, s.processes ++ [child]⟩ : FilesState).entry pid fd = some file := by
  obtain ⟨process, hprocess, hfile⟩ := entry_eq_some.mp hentry
  have hbound : pid < s.processes.length := (List.getElem?_eq_some_iff.mp hprocess).1
  refine entry_eq_some.mpr ⟨process, by rw [List.getElem?_append_left hbound, hprocess], ?_⟩
  rw [htables _ process (hlt pid process hprocess), hfile]

inductive Loss (s : FilesState) (effect : Effect) (pid fd : ℕ) (file : OpenFile) :
    FilesStep → Prop
  | closed {label : FilesStep} {actor : ℕ} (hcloser : label.closer = some actor)
      (hshares : s.SharesTable actor pid) (hremoved : file ∈ effect.removed) :
      Loss s effect pid fd file label
  | cleared {actor : ℕ} (hshares : s.SharesTable actor pid) :
      Loss s effect pid fd file (.call actor (.clearSlot fd))
  | released {actor : ℕ} {caller process : ProcessFiles}
      (hcaller : s.processes[actor]? = some caller)
      (hprocess : s.processes[pid]? = some process) (hsame : caller.files = process.files)
      (hzombie : caller.isZombie = true) (hheld : caller.filesReleased = false)
      (howners : (s.sharedOf caller).owners = 1) (hremoved : file ∈ effect.removed) :
      Loss s effect pid fd file (.closeAllFiles actor)
  | reaped {actor : ℕ} (hshares : s.SharesTable actor pid)
      (hremoved : file ∈ effect.removed) : Loss s effect pid fd file (.reap actor)

theorem StepsTo.entry {s' : FilesState} {label : FilesStep} {effect : Effect}
    (hstep : s.StepsTo label s' effect) (hlt : s.InRange)
    (hentry : s.entry pid fd = some file) :
    s'.entry pid fd = some file ∨ Loss s effect pid fd file label := by
  cases hstep with
  | refused => exact .inl hentry
  | released => exact .inl hentry
  | @call actor call caller context effect hcaller hstage hrun =>
    rcases entry_setShared caller { s.sharedOf caller with context := context } hlt hentry
      with hkept | ⟨process, hprocess, hsame, hfile, hafter⟩
    · exact .inl hkept
    · have hshares : s.SharesTable actor pid := ⟨caller, process, hcaller, hprocess, hsame⟩
      rcases FilesContext.run_entry hrun hfile with hkept | ⟨hcloses, hremoved⟩ | rfl
      · exact .inl (hafter.trans hkept)
      · exact .inr (.closed (by cases call <;> simp_all [FileCall.Closes, FilesStep.closer])
          hshares hremoved)
      · exact .inr (.cleared hshares)
  | @cloneShared actor parent hparent hstage =>
    refine .inl (entry_append (fun processes process hbelow => ?_) hlt hentry)
    rw [sharedOf_set _ _ _ _ _ hbelow]
    split
    · next hsame => rw [s.sharedOf_congr hsame]
    · rfl
  | cloneCopied hparent hstage =>
    refine .inl (entry_append (fun processes process hbelow => ?_) hlt hentry)
    rw [sharedOf_append _ _ s.processes _ _ hbelow]
  | register hchild hstage => exact .inl (entry_setProcess hchild rfl hentry)
  | beginExit hcaller hstage => exact .inl (entry_setProcess hcaller rfl hentry)
  | @exec actor caller taken hcaller hstage hheld htaken =>
    obtain ⟨process, hprocess, hfile⟩ := entry_eq_some.mp hentry
    have hbelow := hlt pid process hprocess
    by_cases hpid : actor = pid
    · subst pid
      obtain rfl : caller = process := by simpa [hcaller] using hprocess
      rcases FilesContext.take_file (s.sharedOf caller).context.closedOnExec hfile with
        hkept | hremoved
      · refine .inl (entry_eq_some.mpr ⟨_,
          List.getElem?_set_self (List.getElem?_eq_some_iff.mp hcaller).1, ?_⟩)
        simpa [sharedOf, htaken] using hkept
      · exact .inr (.closed rfl ⟨caller, caller, hcaller, hcaller, rfl⟩
          (by simpa [htaken] using hremoved))
    · refine .inl (entry_eq_some.mpr ⟨process, by rw [getElem?_set_ne hpid, hprocess], ?_⟩)
      rw [sharedOf_append _ _ [] _ _ (by simpa using hbelow), sharedOf_set _ _ _ _ _ hbelow]
      split
      · next hsame =>
        rw [s.sharedOf_congr hsame] at hfile
        exact hfile
      · exact hfile
  | @closeLast actor caller hcaller hstage hzombie hheld howners =>
    rcases entry_setShared caller ⟨⟨[]⟩, 0⟩ hlt hentry with
      hkept | ⟨process, hprocess, hsame, hfile, -⟩
    · exact .inl (entry_setProcess hcaller rfl hkept)
    · exact .inr (.released hcaller hprocess hsame hzombie hheld howners
        (FilesContext.mem_files_of_file hfile))
  | @closeShared actor caller hcaller hstage hzombie hheld =>
    left
    rcases entry_setShared caller
      { s.sharedOf caller with owners := (s.sharedOf caller).owners - 1 } hlt
      hentry with hkept | ⟨-, -, -, hfile, hafter⟩
    · exact entry_setProcess hcaller rfl hkept
    · exact entry_setProcess hcaller rfl (hafter.trans hfile)
  | @reap actor caller hcaller hstage =>
    rcases entry_setShared caller { s.sharedOf caller with context := ⟨[]⟩ } hlt hentry with
      hkept | ⟨process, hprocess, hsame, hfile, -⟩
    · exact .inl (entry_setProcess hcaller rfl hkept)
    · exact .inr (.reaped ⟨caller, process, hcaller, hprocess, hsame⟩
        (FilesContext.mem_files_of_file hfile))

end FilesState

end Kairix.Descriptors
