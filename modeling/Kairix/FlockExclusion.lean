import Kairix.DescriptorSurvival
import Kairix.FlockCalls

/-!
# Exclusion of whole-file locks

Every file has either one exclusive lock or any number of shared ones, each of
another description, and a description with locks is referred to by a descriptor or
by a call which has still to release it.
-/

namespace Kairix.Flock

open Descriptors RecordLock LabelledRun List Function

variable {κ τ : Type*} [DecidableEq κ]

/-- Different locks belong to different descriptions, and none is exclusive beside
another one. -/
def FlocksSound (locks : List FlockLock) : Prop :=
  locks.Pairwise fun first second => first.ownerFile ≠ second.ownerFile ∧
    first.exclusive = false ∧ second.exclusive = false

variable {locks : List FlockLock}

theorem mem_dropLocks {ownerFile : ℕ} {lock : FlockLock} :
    lock ∈ dropLocks ownerFile locks ↔ lock ∈ locks ∧ lock.ownerFile ≠ ownerFile := by
  simp [dropLocks]

section

variable (hsound : FlocksSound locks)
include hsound

theorem FlocksSound.dropLocks (ownerFile : ℕ) : FlocksSound (dropLocks ownerFile locks) :=
  hsound.sublist filter_sublist

theorem FlocksSound.grant {ownerFile : ℕ} {exclusive : Bool}
    (hfree : flockConflicts locks ownerFile exclusive = false) :
    FlocksSound (Flock.dropLocks ownerFile locks ++ [⟨ownerFile, exclusive⟩]) := by
  refine pairwise_append.mpr ⟨hsound.dropLocks ownerFile, by simp, ?_⟩
  intro lock hlock granted hgranted
  obtain rfl := mem_singleton.mp hgranted
  obtain ⟨hmem, hne⟩ := mem_dropLocks.mp hlock
  have hlockFree := any_eq_false.mp hfree lock hmem
  simp only [ne_eq, hne, not_false_eq_true, decide_true, Bool.true_and, Bool.not_eq_true,
    Bool.or_eq_false_iff] at hlockFree
  exact ⟨hne, hlockFree.1, hlockFree.2⟩

theorem FlocksSound.length_le_one (ownerFile : ℕ) :
    (locks.filter fun lock => lock.ownerFile = ownerFile).length ≤ 1 := by
  have hpair := hsound.sublist (filter_sublist (p := fun lock => lock.ownerFile = ownerFile))
  generalize hown : locks.filter (fun lock => lock.ownerFile = ownerFile) = own at hpair
  match own, hpair with
  | [], _ => simp
  | [_], _ => simp
  | first :: second :: rest, hpair =>
    have hfirst : first.ownerFile = ownerFile := by
      have := mem_filter.mp (hown ▸ mem_cons_self)
      simpa using this.2
    have hsecond : second.ownerFile = ownerFile := by
      have := mem_filter.mp (hown ▸ mem_cons_of_mem _ mem_cons_self)
      simpa using this.2
    have hne := (pairwise_cons.mp hpair).1 second mem_cons_self
    exact absurd (hfirst.trans hsecond.symm) hne.1

theorem FlocksSound.eq_singleton {lock : FlockLock} (hmem : lock ∈ locks)
    (hexclusive : lock.exclusive = true) : locks = [lock] := by
  match locks, hsound with
  | [only], _ => rw [mem_singleton.mp hmem]
  | first :: second :: rest, hsound =>
    obtain ⟨hfirst, hrest⟩ := pairwise_cons.mp hsound
    rcases mem_cons.mp hmem with rfl | hlater
    · simp [(hfirst second mem_cons_self).2.1] at hexclusive
    · simp [(hfirst lock hlater).2.2] at hexclusive

end

/-! ## Sections -/

def flocks (table : RecordLockTable κ τ) (key : κ) : List FlockLock :=
  (table.entry key).flockLocks

attribute [local simp] RecordLockTable.entry FilesContext.file

section

variable (table : RecordLockTable κ τ)

theorem flocks_insert (key other : κ) (inode : InodeLocks τ) :
    flocks (table.insert key inode) other =
      if other = key then inode.flockLocks else flocks table other := by
  by_cases hother : other = key
  · simp [flocks, RecordLockTable.insert, hother]
  · simp [flocks, RecordLockTable.insert, hother]

theorem flocks_put (key other : κ) (inode : InodeLocks τ) : flocks (table.put key inode) other =
      if other = key then inode.flockLocks else flocks table other := by
  by_cases hother : other = key
  · subst other
    simp only [flocks, RecordLockTable.put, RecordLockTable.entry, update_self, if_true]
    split
    · next hempty =>
      simp only [InodeLocks.isEmpty, Bool.and_eq_true, List.isEmpty_iff] at hempty
      simp [InodeLocks.empty, hempty.1.2]
    · rfl
  · simp [flocks, RecordLockTable.put, hother]

omit [DecidableEq κ] in
theorem flocks_eq_of_some {table : RecordLockTable κ τ} {key : κ} {inode : InodeLocks τ}
    (hinode : table.inodes key = some inode) : flocks table key = inode.flockLocks := by
  simp [flocks, hinode]

theorem flocks_unlockFlock (key other : κ) (ownerFile : ℕ) :
    flocks (unlockFlock table key ownerFile) other =
      if other = key then dropLocks ownerFile (flocks table other) else flocks table other := by
  simp only [unlockFlock]
  split
  · next hnone =>
    split
    · next hother =>
      simp [hother, flocks, hnone, InodeLocks.empty, dropLocks]
    · rfl
  · next inode hsome =>
    rw [flocks_put]
    split
    · next hother => rw [hother, flocks_eq_of_some hsome, dropFlock]
    · rfl

theorem flocks_dropAllFlocks (key : κ) (ownerFile : ℕ) :
    flocks (dropAllFlocks table ownerFile) key = dropLocks ownerFile (flocks table key) := by
  have hkey := flocks_unlockFlock table key key ownerFile
  rw [if_pos rfl] at hkey
  exact hkey

theorem flocks_grantFlock (key other : κ) (ownerFile : ℕ) (exclusive : Bool) :
    flocks (grantFlock table key ownerFile exclusive) other =
      if other = key then dropLocks ownerFile (flocks table key) ++ [⟨ownerFile, exclusive⟩]
      else flocks table other := by
  simp only [grantFlock, flocks_insert]
  rfl

theorem flocks_put_entry (key other : κ) (inode : InodeLocks τ)
    (hsame : inode.flockLocks = flocks table key) :
    flocks (table.put key inode) other = flocks table other := by
  rw [flocks_put]
  split
  · next hother => rw [hsame, hother]
  · rfl

theorem flocks_insert_entry (key other : κ) (inode : InodeLocks τ)
    (hsame : inode.flockLocks = flocks table key) :
    flocks (table.insert key inode) other = flocks table other := by
  rw [flocks_insert]
  split
  · next hother => rw [hsame, hother]
  · rfl

theorem flocks_dropOwner (pid : ℕ) (key other : κ) :
    flocks (table.dropOwner pid key) other = flocks table other := by
  simp only [RecordLockTable.dropOwner]
  split
  · rfl
  · next inode hsome => exact flocks_put_entry table key other _ (flocks_eq_of_some hsome).symm

end

theorem flocks_record {table s' : RecordLockTable κ ℕ} {step : RecordLockTable.LockStep κ ℕ}
    (key : κ) (hrecord : ∀ target locks waiters, step ≠ .flock target locks waiters)
    (hstep : table.next step = some s') : flocks s' key = flocks table key := by
  cases step with
  | attempt pid task alive file requested blocking =>
    cases hstep
    simp only [RecordLockTable.attempt]
    split
    · rfl
    · split
      · exact flocks_put_entry table _ key _ rfl
      · split <;> exact flocks_insert_entry table _ key _ rfl
  | interrupted alive target task =>
    cases hstep
    simp only [RecordLockTable.forgetWaiter]
    split
    · rfl
    · next inode hsome =>
      exact flocks_put_entry table target key _ (flocks_eq_of_some hsome).symm
  | close pid file =>
    cases hstep
    simp only [RecordLockTable.releaseProcessFileLocks]
    split
    · rfl
    · exact flocks_dropOwner table pid _ key
  | exit pid =>
    cases hstep
    exact flocks_dropOwner table pid key key
  | flock target locks waiters => exact absurd rfl (hrecord target locks waiters)

/-! ## Invariant -/

def FlockCall.Releases (address : ℕ) : FlockCall κ → Prop
  | .releasing _ files => .description address ∈ files
  | .lookup target _ files | .scan target _ _ files | .drop target _ files =>
    target = address ∨ .description address ∈ files
  | _ => False

namespace FlockConfig

/-- A descriptor refers to the description, or a call which has taken one away or has
obtained a lock for it still looks whether it was the last one. -/
def Referenced (s : FlockConfig κ) (address : ℕ) : Prop :=
  s.files.Held (.description address) ∨
    ∃ (task : ℕ) (call : FlockCall κ), s.calls[task]? = some call ∧ call.Releases address

/-- The key of a request is that of its description, and a scan visits processes
which were registered. -/
def CallFits (s : FlockConfig κ) : FlockCall κ → Prop
  | .convert request | .attempt request | .waiting request =>
    s.inode request.address = some request.key
  | .scan _ processes _ _ => ∀ pid ∈ processes, ∃ process : ProcessFiles,
      s.files.processes[pid]? = some process ∧ process.stage ≠ .created
  | _ => True

structure Inv (s : FlockConfig κ) : Prop where
  files : s.files.Inv
  retired : s.files.Retired
  sound : ∀ key, FlocksSound (flocks s.locks key)
  known : ∀ key, ∀ lock ∈ flocks s.locks key,
    key ∈ s.keys ∧ s.inode lock.ownerFile = some key
  referenced : ∀ key, ∀ lock ∈ flocks s.locks key, s.Referenced lock.ownerFile
  fits : ∀ (task : ℕ) (call : FlockCall κ), s.calls[task]? = some call → s.CallFits call

variable {task : ℕ} {new call : FlockCall κ}

variable {s : FlockConfig κ} {files : FilesState} {address : ℕ} {old : FlockCall κ}

section

omit [DecidableEq κ]

theorem Referenced.setCall (hold : s.calls[task]? = some old) (href : s.Referenced address)
    (hheld : s.files.Held (.description address) →
      files.Held (.description address) ∨ new.Releases address)
    (hreleases : old.Releases address → new.Releases address ∨ files.Held (.description address))
    (inode : ℕ → Option κ) (locks : RecordLockTable κ ℕ) (keys : List κ) :
    (⟨files, inode, locks, keys, s.calls.set task new⟩ : FlockConfig κ).Referenced
      address := by
  have hbound : task < s.calls.length := (List.getElem?_eq_some_iff.mp hold).1
  have hself (hnew : new.Releases address) :
      (⟨files, inode, locks, keys, s.calls.set task new⟩ : FlockConfig κ).Referenced
        address :=
    .inr ⟨task, new, getElem?_set_self hbound, hnew⟩
  rcases href with hentry | ⟨other, call, hcall, hother⟩
  · rcases hheld hentry with hkept | hnew
    · exact .inl hkept
    · exact hself hnew
  · by_cases hsame : task = other
    · subst other
      obtain rfl : old = call := by simpa [hold] using hcall
      rcases hreleases hother with hnew | hkept
      · exact hself hnew
      · exact .inl hkept
    · exact .inr ⟨other, call, by rw [getElem?_set_ne hsame, hcall], hother⟩

theorem Inv.advance (hinv : s.Inv) {locks : RecordLockTable κ ℕ} {keys : List κ}
    (hold : s.calls[task]? = some old) (hfits : s.CallFits new)
    (hlocks : ∀ key, (flocks locks key).Sublist (flocks s.locks key)) (hkeys : s.keys ⊆ keys)
    (hreleases : ∀ address, old.Releases address → new.Releases address ∨
      s.files.Held (.description address) ∨
      ∀ key, ∀ lock ∈ flocks locks key, lock.ownerFile ≠ address) :
    (⟨s.files, s.inode, locks, keys, s.calls.set task new⟩ : FlockConfig κ).Inv where
  files := hinv.files
  retired := hinv.retired
  sound key := (hinv.sound key).sublist (hlocks key)
  known key lock hlock :=
    have hbefore := hinv.known key lock ((hlocks key).subset hlock)
    ⟨hkeys hbefore.1, hbefore.2⟩
  referenced key lock hlock := by
    refine (hinv.referenced key lock ((hlocks key).subset hlock)).setCall hold .inl ?_ _ _ _
    intro hrelease
    rcases hreleases lock.ownerFile hrelease with hnew | hheld | hnone
    · exact .inl hnew
    · exact .inr hheld
    · exact absurd rfl (hnone key lock hlock)
  fits other call hcall := by
    rcases getElem?_set_cases hcall with ⟨-, rfl⟩ | ⟨-, hbefore⟩
    · exact hfits
    · exact hinv.fits other call hbefore

theorem Inv.setCall (hinv : s.Inv) (hold : s.calls[task]? = some old) (hfits : s.CallFits new)
    (hreleases : ∀ address, old.Releases address → new.Releases address ∨
      s.files.Held (.description address) ∨
      ∀ key, ∀ lock ∈ flocks s.locks key, lock.ownerFile ≠ address) : (s.setCall task new).Inv :=
  hinv.advance hold hfits (fun _ => .refl _) (Subset.refl _) hreleases

end

/-! ## Sections of calls -/

theorem dropLocks_sublist (ownerFile : ℕ) (locks : List FlockLock) :
    (dropLocks ownerFile locks).Sublist locks :=
  filter_sublist

theorem unlockFlock_sublist (table : RecordLockTable κ τ) (key other : κ) (ownerFile : ℕ) :
    (flocks (unlockFlock table key ownerFile) other).Sublist (flocks table other) := by
  rw [flocks_unlockFlock]
  split
  · exact dropLocks_sublist ownerFile _
  · exact .refl _

theorem convertFlock_sublist
    (table : RecordLockTable κ τ) (key other : κ) (ownerFile : ℕ) (exclusive : Bool) :
    (flocks (convertFlock table key ownerFile exclusive) other).Sublist (flocks table other) := by
  simp only [convertFlock]
  split
  · exact .refl _
  · next inode hsome =>
    split
    · rw [flocks_insert]
      split
      · next hother =>
        rw [hother, flocks_eq_of_some hsome]
        exact dropLocks_sublist ownerFile _
      · exact .refl _
    · exact .refl _

theorem Inv.grant (hinv : s.Inv) {request : FlockRequest κ}
    (hcall : s.calls[task]? = some (.attempt request))
    (hfree : flockConflicts (flocks s.locks request.key) request.address
      request.exclusive = false) :
    (⟨s.files, s.inode, grantFlock s.locks request.key request.address request.exclusive,
      request.key :: s.keys,
      s.calls.set task (.lookup request.address none [])⟩ : FlockConfig κ).Inv := by
  have hfits : s.inode request.address = some request.key := hinv.fits task _ hcall
  have hsplit (key : κ) (lock : FlockLock)
      (hlock : lock ∈ flocks (grantFlock s.locks request.key request.address
        request.exclusive) key) :
      lock ∈ flocks s.locks key ∨ key = request.key ∧ lock.ownerFile = request.address := by
    rw [flocks_grantFlock] at hlock
    split at hlock
    · next hkey =>
      rcases mem_append.mp hlock with hold | hnew
      · rw [hkey]
        exact .inl (mem_dropLocks.mp hold).1
      · rw [mem_singleton.mp hnew]
        exact .inr ⟨hkey, rfl⟩
    · exact .inl hlock
  refine ⟨hinv.files, hinv.retired, fun key => ?_, fun key lock hlock => ?_,
    fun key lock hlock => ?_, fun other call hother => ?_⟩
  · rw [flocks_grantFlock]
    split
    · exact (hinv.sound request.key).grant hfree
    · exact hinv.sound key
  · rcases hsplit key lock hlock with hbefore | ⟨rfl, howner⟩
    · obtain ⟨hkey, hinode⟩ := hinv.known key lock hbefore
      exact ⟨mem_cons_of_mem _ hkey, hinode⟩
    · exact ⟨mem_cons_self, by rw [howner, hfits]⟩
  · rcases hsplit key lock hlock with hbefore | ⟨rfl, howner⟩
    · exact (hinv.referenced key lock hbefore).setCall hcall .inl (fun h => h.elim) _ _ _
    · refine .inr ⟨task, .lookup request.address none [],
        List.getElem?_set_self (List.getElem?_eq_some_iff.mp hcall).1, .inl howner.symm⟩
  · rcases getElem?_set_cases hother with ⟨-, rfl⟩ | ⟨-, hbefore⟩
    · trivial
    · exact hinv.fits other call hbefore

theorem Inv.attemptFlock (hinv : s.Inv) {request : FlockRequest κ} (alive : ℕ → Bool)
    (hcall : s.calls[task]? = some (.attempt request)) :
    (s.attemptFlock task alive request).Inv := by
  have hkeys : s.keys ⊆ request.key :: s.keys := subset_cons_self _ _
  simp only [FlockConfig.attemptFlock]
  split
  · next hfree => exact hinv.grant hcall hfree
  · split
    · refine hinv.advance hcall trivial (fun key => ?_) hkeys fun _ h => h.elim
      rw [flocks_insert_entry s.locks request.key key _ rfl]
    · refine hinv.advance hcall (hinv.fits task (.attempt request) hcall) (fun key => ?_) hkeys
        fun _ h => h.elim
      rw [flocks_insert_entry s.locks request.key key
        (registerFlockWaiter alive task (s.locks.entry request.key)) rfl]

theorem Inv.releaseNext (hinv : s.Inv) {owner : Option ℕ} {files : List OpenFile}
    (hcall : s.calls[task]? = some (.releasing owner files)) :
    (s.releaseNext task owner files).Inv := by
  match files with
  | [] =>
    refine hinv.setCall hcall trivial fun _ h => ?_
    simp [FlockCall.Releases] at h
  | .socketFile fd pid :: rest =>
    refine hinv.setCall hcall trivial fun address h => .inl ?_
    simpa [FlockCall.Releases] using h
  | .description address :: rest =>
    have hlater (target : ℕ)
        (h : (.releasing owner (.description address :: rest) : FlockCall κ).Releases target) :
        target = address ∨ .description target ∈ rest := by
      simpa [FlockCall.Releases] using h
    simp only [FlockConfig.releaseNext]
    split
    · refine hinv.setCall hcall trivial fun target h => .inl ?_
      exact (hlater target h).imp Eq.symm id
    · next pid hnone =>
      refine hinv.setCall hcall trivial fun target h => ?_
      rcases hlater target h with rfl | hrest
      · refine .inr (.inr fun key lock hlock howner => ?_)
        have hinode := (hinv.known key lock hlock).2
        rw [howner, hnone] at hinode
        simp at hinode
      · exact .inl hrest
    · next pid key hsome =>
      refine hinv.advance hcall trivial (fun other => ?_) (Subset.refl _)
        fun target h => .inl ((hlater target h).imp Eq.symm id)
      rw [flocks_dropOwner]

theorem mem_files_iff {context : FilesContext} {file : OpenFile} :
    file ∈ context.files ↔ ∃ fd, context.file fd = some file := by
  refine ⟨fun hmem => ?_, fun ⟨fd, hfile⟩ => FilesContext.mem_files_of_file hfile⟩
  obtain ⟨slot, hslot, hfile⟩ := mem_filterMap.mp hmem
  obtain ⟨fd, hget⟩ := getElem?_of_mem hslot
  exact ⟨fd, by simp [hget, hfile]⟩

variable {pid : ℕ}

omit [DecidableEq κ] in
theorem Inv.held_of_refersTo (hinv : s.Inv) {process : ProcessFiles}
    (hprocess : s.files.processes[pid]? = some process) (hstage : process.stage ≠ .created)
    (hrefers : s.refersTo pid address = true) : s.files.Held (.description address) := by
  simp only [refersTo, hprocess, Option.any_some, decide_eq_true_eq] at hrefers
  obtain ⟨fd, hfile⟩ := mem_files_iff.mp hrefers
  have hregistered : process.stage = .registered := by
    cases hreaped : process.stage with
    | created => exact absurd hreaped hstage
    | registered => rfl
    | reaped =>
      rw [(hinv.retired pid process hprocess hreaped).1] at hfile
      simp at hfile
  exact ⟨pid, process, fd, FilesState.registered_eq_some.mpr ⟨hprocess, hregistered⟩, hfile⟩

omit [DecidableEq κ] in
theorem Inv.not_mem_of_hasLock (hinv : s.Inv) (hnone : s.hasLock address = false)
    (key : κ) (lock : FlockLock) (hlock : lock ∈ flocks s.locks key) :
    lock.ownerFile ≠ address := by
  have hkey := any_eq_false.mp hnone key (hinv.known key lock hlock).1
  simp only [any_eq_true, decide_eq_true_eq, not_exists, not_and] at hkey
  exact hkey lock hlock

variable {s' : FlockConfig κ}

theorem Inv.runCall (hinv : s.Inv) {alive : ℕ → Bool} (hcall : s.calls[task]? = some call)
    (hrun : s.runCall task alive call = some s') : s'.Inv := by
  match call with
  | .idle | .undoable _ _ | .waiting _ => simp [FlockConfig.runCall] at hrun
  | .unlock address key =>
    cases hrun
    exact hinv.advance hcall trivial (fun other => unlockFlock_sublist _ _ _ _)
      (Subset.refl _) fun _ h => h.elim
  | .convert request =>
    cases hrun
    exact hinv.advance hcall (hinv.fits task (.convert request) hcall)
      (fun other => convertFlock_sublist _ _ _ _ _) (Subset.refl _) fun _ h => h.elim
  | .attempt request =>
    cases hrun
    exact hinv.attemptFlock alive hcall
  | .releasing owner files =>
    cases hrun
    exact hinv.releaseNext hcall
  | .lookup address owner files =>
    simp only [FlockConfig.runCall] at hrun
    split at hrun <;> simp only [Option.some.injEq] at hrun <;> subst s'
    · refine hinv.setCall hcall (fun pid hpid => ?_) fun _ h => .inl h
      obtain ⟨-, hsome⟩ := mem_filter.mp hpid
      obtain ⟨process, hprocess⟩ := Option.isSome_iff_exists.mp hsome
      obtain ⟨hget, hstage⟩ := FilesState.registered_eq_some.mp hprocess
      exact ⟨process, hget, by simp [hstage]⟩
    · next hnone =>
      refine hinv.setCall hcall trivial fun target h => ?_
      rcases h with rfl | hrest
      · exact .inr (.inr (hinv.not_mem_of_hasLock (by simpa using hnone)))
      · exact .inl hrest
  | .scan address [] owner files =>
    cases hrun
    exact hinv.setCall hcall trivial fun _ h => .inl h
  | .scan address (pid :: processes) owner files =>
    have hfits : ∀ visited ∈ pid :: processes, ∃ process : ProcessFiles,
        s.files.processes[visited]? = some process ∧ process.stage ≠ .created :=
      hinv.fits task _ hcall
    simp only [FlockConfig.runCall] at hrun
    split at hrun <;> simp only [Option.some.injEq] at hrun <;> subst s'
    · next hrefers =>
      refine hinv.setCall hcall trivial fun target h => ?_
      rcases h with rfl | hrest
      · obtain ⟨process, hprocess, hstage⟩ := hfits pid mem_cons_self
        exact .inr (.inl (hinv.held_of_refersTo hprocess hstage hrefers))
      · exact .inl hrest
    · exact hinv.setCall hcall
        (fun visited hvisited => hfits visited (mem_cons_of_mem _ hvisited)) fun _ h => .inl h
  | .drop address owner files =>
    cases hrun
    refine hinv.advance hcall trivial (fun other => ?_) (Subset.refl _) fun target h => ?_
    · rw [flocks_dropAllFlocks]
      exact dropLocks_sublist address _
    · rcases h with rfl | hrest
      · refine .inr (.inr fun key lock hlock => ?_)
        rw [flocks_dropAllFlocks] at hlock
        exact (mem_dropLocks.mp hlock).2
      · exact .inl hrest

theorem Inv.resumeCall (hinv : s.Inv) {alive : ℕ → Bool} {interrupted : Bool}
    (hcall : s.calls[task]? = some call)
    (hrun : s.resumeCall task alive interrupted call = some s') : s'.Inv := by
  cases call with
  | waiting request =>
    simp only [FlockConfig.resumeCall] at hrun
    split at hrun <;> simp only [Option.some.injEq] at hrun <;> subst s'
    · refine hinv.advance hcall trivial (fun key => ?_) (Subset.refl _) fun _ h => h.elim
      split
      · exact .refl _
      · next inode hsome =>
        rw [flocks_put_entry s.locks request.key key (removeFlockWaiter alive task inode)
          (flocks_eq_of_some hsome).symm]
    · exact hinv.setCall hcall (hinv.fits task (.waiting request) hcall) fun _ h => h.elim
  | _ => simp [FlockConfig.resumeCall] at hrun

omit [DecidableEq κ] in
theorem Inv.beginFlock (hinv : s.Inv) {fd operation : ℕ} (hcall : s.calls[task]? = some .idle)
    (hbegin : s.beginFlock task pid fd operation = some s') : s'.Inv := by
  have hset (call : FlockCall κ) (hfits : s.CallFits call) : (s.setCall task call).Inv :=
    hinv.setCall hcall hfits fun _ h => h.elim
  simp only [FlockConfig.beginFlock] at hbegin
  split at hbegin
  · simp at hbegin
  · split at hbegin
    · rw [← Option.some.inj hbegin]
      exact hinv
    · split at hbegin
      · split at hbegin
        · rw [← Option.some.inj hbegin]
          exact hinv
        · next key hkey =>
          split at hbegin
          · rw [← Option.some.inj hbegin]
            exact hset _ trivial
          · rw [← Option.some.inj hbegin]
            exact hset _ hkey
      · rw [← Option.some.inj hbegin]
        exact hinv

/-! ## Steps on the descriptor tables -/

variable {effect : Effect}

section

omit [DecidableEq κ]

theorem CallFits.step {label : FilesStep} (hfits : s.CallFits call)
    (hstep : s.files.StepsTo label files effect) (locks : RecordLockTable κ ℕ)
    (keys : List κ) (calls : List (FlockCall κ)) :
    (⟨files, s.inode, locks, keys, calls⟩ : FlockConfig κ).CallFits call := by
  match call with
  | .convert request => exact hfits
  | .attempt request => exact hfits
  | .waiting request => exact hfits
  | .scan address processes owner rest =>
    intro pid hpid
    obtain ⟨process, hprocess, hstage⟩ := hfits pid hpid
    obtain ⟨found, hfound, hsame | hregistered | ⟨-, hreaped⟩⟩ := hstep.stage hprocess
    · exact ⟨found, hfound, by rw [hsame]; exact hstage⟩
    · exact ⟨found, hfound, by simp [hregistered]⟩
    · exact ⟨found, hfound, by simp [hreaped]⟩
  | .idle | .undoable _ _ | .unlock _ _ | .releasing _ _ | .lookup _ _ _ | .drop _ _ _ => trivial

theorem Inv.stepFiles (hinv : s.Inv) {label : FilesStep}
    (hstep : s.files.StepsTo label files effect) (hreaps : s.files.LoneReaps label)
    (hold : s.calls[task]? = some old) (hidle : ∀ address, ¬old.Releases address)
    (hnew : ∀ address, .description address ∈ effect.removed → new.Releases address)
    (hfits : s.CallFits new)
    (hclear : ∀ actor fd address, label = .call actor (.clearSlot fd) →
      s.files.entry actor fd ≠ some (.description address)) :
    (⟨files, s.inode, s.locks, s.keys, s.calls.set task new⟩ : FlockConfig κ).Inv where
  files := hinv.files.step hstep
  retired := hinv.retired.step hinv.files.inRange hreaps hstep
  sound := hinv.sound
  known := hinv.known
  referenced key lock hlock := by
    refine (hinv.referenced key lock hlock).setCall hold (fun hheld => ?_)
      (fun h => absurd h (hidle _)) _ _ _
    rcases hstep.held hinv.files.inRange hheld with hkept | hremoved | ⟨actor, fd, hlabel, hentry⟩
    · exact .inl hkept
    · exact .inr (hnew _ hremoved)
    · exact absurd hentry (hclear actor fd _ hlabel)
  fits other call hcall := by
    rcases getElem?_set_cases hcall with ⟨-, rfl⟩ | ⟨-, hbefore⟩
    · exact CallFits.step hfits hstep _ _ _
    · exact CallFits.step (hinv.fits other call hbefore) hstep _ _ _

theorem inUse_of_referenced (href : s.Referenced address) : s.inUse address = true := by
  rw [inUse, Bool.or_eq_true, any_eq_true, any_eq_true]
  rcases href with ⟨pid, process, fd, -, hfile⟩ | ⟨task, call, hcall, hreleases⟩
  · left
    rw [FilesState.sharedOf, getD_eq_getElem?_getD] at hfile
    cases hshared : s.files.shared[process.files]? with
    | none => simp [hshared] at hfile
    | some shared =>
      rw [hshared, Option.getD_some] at hfile
      exact ⟨shared, mem_of_getElem? hshared, by
        simpa using FilesContext.mem_files_of_file hfile⟩
  · right
    refine ⟨call, mem_of_getElem? hcall, ?_⟩
    cases call <;> simp_all [FlockCall.Releases, FlockCall.mentions]

theorem ne_of_mentions (hunused : s.inUse address = false)
    (hcall : s.calls[task]? = some call) : call.mentions address = false := by
  rw [inUse, Bool.or_eq_false_iff, any_eq_false, any_eq_false] at hunused
  simpa using hunused.2 call (mem_of_getElem? hcall)

theorem Inv.openFile (hinv : s.Inv) {maxFd : ℕ} {closeOnExec : Bool} (key : Option κ)
    (hunused : s.inUse address = false)
    (hstep : s.files.StepsTo (.call pid (.openFile maxFd address closeOnExec)) files effect) :
    (⟨files, update s.inode address key, s.locks, s.keys,
      s.calls⟩ : FlockConfig κ).Inv := by
  have hremoved : effect.removed = [] := by
    cases hstep with
    | refused => rfl
    | call hcaller hstage hrun =>
      obtain ⟨_, -, hresult⟩ := map_eq_ok hrun
      rw [← (Prod.mk.inj hresult).2]
      rfl
  have hne (lock : FlockLock) (other : κ) (hlock : lock ∈ flocks s.locks other) :
      lock.ownerFile ≠ address := by
    intro heq
    have hused := inUse_of_referenced (hinv.referenced other lock hlock)
    rw [heq, hunused] at hused
    simp at hused
  have hreaps : s.files.LoneReaps (.call pid (.openFile maxFd address closeOnExec)) := trivial
  refine ⟨hinv.files.step hstep, hinv.retired.step hinv.files.inRange hreaps hstep, hinv.sound,
    fun other lock hlock => ?_, fun other lock hlock => ?_, fun task call hcall => ?_⟩
  · obtain ⟨hkey, hinode⟩ := hinv.known other lock hlock
    exact ⟨hkey, (update_of_ne (hne lock other hlock) _ _).trans hinode⟩
  · rcases hinv.referenced other lock hlock with hheld | hcall
    · rcases hstep.held hinv.files.inRange hheld with hkept | hlost | ⟨_, _, hlabel, -⟩
      · exact .inl hkept
      · rw [hremoved] at hlost
        simp at hlost
      · simp at hlabel
    · exact .inr hcall
  · have hmentions := ne_of_mentions hunused hcall
    have hfits := CallFits.step (hinv.fits task call hcall) hstep s.locks s.keys s.calls
    match call with
    | .convert request | .attempt request | .waiting request =>
      have hother : request.address ≠ address := by
        simpa [FlockCall.mentions] using hmentions
      simp only [CallFits] at hfits ⊢
      rw [update_of_ne hother]
      exact hfits
    | .scan _ _ _ _ => exact hfits
    | .idle | .undoable _ _ | .unlock _ _ | .releasing _ _ | .lookup _ _ _ | .drop _ _ _ => trivial

end

/-! ## Runs -/

/-- Processes are reaped when no other process uses their table, and a call takes
back a descriptor only when its slot has not been given to a file. -/
def Careful (config : FlockConfig κ) : FlockStep κ → Prop
  | .files _ step => config.files.LoneReaps step
  | .undoSlot task => ∀ pid fd address, config.calls[task]? = some (.undoable pid fd) →
      config.files.entry pid fd ≠ some (.description address)
  | _ => True

theorem Inv.next (hinv : s.Inv) {label : FlockStep κ} (hadmits : s.Careful label)
    (hnext : s.next label = some s') : s'.Inv := by
  cases label <;> simp only [FlockConfig.next] at hnext
  case openFile task pid maxFd address closeOnExec key =>
    split at hnext
    · next hguard =>
      obtain ⟨⟨files, effect⟩, hstep, rfl⟩ := Option.map_eq_some_iff.mp hnext
      exact hinv.openFile key hguard.2 (.of_step hstep)
    · simp at hnext
  case files task step =>
    split at hnext
    · next hguard =>
      obtain ⟨⟨files, effect⟩, hstep, rfl⟩ := Option.map_eq_some_iff.mp hnext
      have hclear (actor fd address : ℕ) (hlabel : step = .call actor (.clearSlot fd)) :
          s.files.entry actor fd ≠ some (.description address) := by
        simp [hlabel, ownStep] at hguard
      cases effect with
      | installed fd =>
        exact hinv.stepFiles (.of_step hstep) hadmits hguard.1 (fun _ h => h)
          (fun _ h => by simp at h) trivial hclear
      | closed removed =>
        exact hinv.stepFiles (.of_step hstep) hadmits hguard.1 (fun _ h => h)
          (fun _ h => h) trivial hclear
    · simp at hnext
  case keepSlot task =>
    split at hnext
    · next hcall =>
      rw [← Option.some.inj hnext]
      exact hinv.setCall hcall trivial fun _ h => h.elim
    · simp at hnext
  case undoSlot task =>
    split at hnext
    · next pid fd hcall =>
      obtain ⟨⟨files, effect⟩, hstep, rfl⟩ := Option.map_eq_some_iff.mp hnext
      have hsteps := FilesState.StepsTo.of_step hstep
      have hremoved : effect.removed = [] := by
        cases hsteps with
        | refused => rfl
        | call hcaller hstage hrun =>
          simp only [FilesContext.run, Except.ok.injEq, Prod.mk.injEq] at hrun
          rw [← hrun.2]
          rfl
      refine hinv.stepFiles hsteps trivial hcall (fun _ h => h)
        (fun _ h => by simp [hremoved] at h) trivial fun actor slot address hlabel => ?_
      cases hlabel
      exact hadmits _ _ address hcall
    · simp at hnext
  case flock task pid fd operation =>
    split at hnext
    · next hcall => exact hinv.beginFlock hcall hnext
    · simp at hnext
  case run task alive =>
    split at hnext
    · simp at hnext
    · next call hcall => exact hinv.runCall hcall hnext
  case resume task alive interrupted =>
    split at hnext
    · simp at hnext
    · next call hcall => exact hinv.resumeCall hcall hnext
  case record step =>
    split at hnext
    · simp at hnext
    · next hrecord =>
      obtain ⟨locks, hlocks, rfl⟩ := Option.map_eq_some_iff.mp hnext
      have hflocks (key : κ) : flocks locks key = flocks s.locks key :=
        flocks_record key hrecord hlocks
      refine ⟨hinv.files, hinv.retired, fun key => ?_, fun key lock hlock => ?_,
        fun key lock hlock => ?_, hinv.fits⟩
      · rw [hflocks]
        exact hinv.sound key
      · rw [hflocks] at hlock
        exact hinv.known key lock hlock
      · rw [hflocks] at hlock
        exact hinv.referenced key lock hlock

omit [DecidableEq κ] in
theorem Inv.start (context : FilesContext) (inode : ℕ → Option κ) (tasks : ℕ) :
    (FlockConfig.start context inode tasks).Inv where
  files := .start context
  retired := .start context
  sound key := Pairwise.nil
  known key lock hlock := absurd hlock not_mem_nil
  referenced key lock hlock := absurd hlock not_mem_nil
  fits task call hcall := by
    obtain rfl := eq_of_mem_replicate (mem_of_getElem? hcall)
    trivial

structure Exclusive (config : FlockConfig κ) (key : κ) : Prop where
  one_each : ∀ address, ((flocks config.locks key).filter fun lock =>
    lock.ownerFile = address).length ≤ 1
  alone : ∀ lock ∈ flocks config.locks key, lock.exclusive = true → flocks config.locks key = [lock]
  referenced : ∀ address, ¬config.Referenced address →
    ∀ lock ∈ flocks config.locks key, lock.ownerFile ≠ address

/-- In every careful run the locks of every file exclude each other and belong to
descriptions which are referred to. -/
theorem exclusive_of_reachable (context : FilesContext) (inode : ℕ → Option κ) (tasks : ℕ)
    (config : FlockConfig κ) (hreach : Reachable next Careful (start context inode tasks) config)
    (key : κ) : config.Exclusive key := by
  have hinv : config.Inv :=
    hreach.invariant (Inv.start context inode tasks) fun _ _ _ hinv hadmits hnext =>
      hinv.next hadmits hnext
  refine ⟨fun address => (hinv.sound key).length_le_one address,
    fun lock hlock hexclusive => (hinv.sound key).eq_singleton hlock hexclusive,
    fun address hunreferenced lock hlock howner => ?_⟩
  exact hunreferenced (howner ▸ hinv.referenced key lock hlock)

/-- Task 0 opens a file and locks it.  Task 1 accepts a connection; task 0 puts its
file into the slot of the connection and closes the first descriptor. -/
def takenSlot : List (FlockStep ℕ) :=
  let run := fun task => FlockStep.run task fun _ => true
  [.openFile 0 0 8 100 false (some 7), .flock 0 0 0 lockEx,
    run 0, run 0, run 0, run 0, run 0,
    .files 1 (.call 0 (.accept 8)), .files 0 (.call 0 (.dup3 0 1 0 8 false)),
    run 0, run 0, .files 0 (.call 0 (.close 0)), run 0, run 0, run 0, run 0]

instance (state : FilesState) (label : FilesStep) : Decidable (state.LoneReaps label) :=
  match label with
  | .reap pid => decidable_of_iff (∀ other ∈ range state.processes.length,
      ∀ sharer ∈ state.processes[other]?, sharer.stage ≠ .reaped → other ≠ pid →
        ¬state.SharesTable pid other)
      ⟨fun h other sharer hsharer => h other
        (List.mem_range.mpr (List.getElem?_eq_some_iff.mp hsharer).1) sharer hsharer,
        fun h other _ sharer hsharer => h other sharer hsharer⟩
  | .call _ _ | .clone _ _ | .register _ | .exec _ | .beginExit _ | .closeAllFiles _ =>
    instDecidableTrue

def slotOf (config : FlockConfig κ) (task : ℕ) : Option OpenFile :=
  match config.calls[task]? with
  | some (.undoable pid fd) => config.files.entry pid fd
  | _ => none

omit [DecidableEq κ] in
theorem careful_undoSlot (s : FlockConfig κ) (task : ℕ) :
    ((s.slotOf task).all fun file => file.isSocket) = true ↔ s.Careful (.undoSlot task) := by
  simp only [Careful, slotOf]
  constructor
  · intro hslot pid fd address hcall hentry
    simp [hcall, hentry, OpenFile.isSocket] at hslot
  · intro hcareful
    split
    · next pid fd hcall =>
      match hentry : s.files.entry pid fd with
      | none => rfl
      | some (.socketFile _ _) => rfl
      | some (.description address) => exact absurd hentry (hcareful pid fd address hcall)
    · rfl

instance (config : FlockConfig κ) (label : FlockStep κ) : Decidable (config.Careful label) :=
  match label with
  | .files _ step => inferInstanceAs (Decidable (config.files.LoneReaps step))
  | .undoSlot task => decidable_of_iff _ (config.careful_undoSlot task)
  | .openFile _ _ _ _ _ _ | .keepSlot _ | .flock _ _ _ _ | .run _ _ | .resume _ _ _
  | .record _ => instDecidableTrue

theorem exclusive_after_takenSlot :
    ∃ config, Reachable next Careful (start ⟨[]⟩ (fun _ => none) 2) config ∧
      flocks config.locks 7 = [⟨100, true⟩] ∧ config.Exclusive (7 : ℕ) := by
  refine (exists_reachable_of_runSteps takenSlot ?_).imp fun config ⟨hreach, hlocks⟩ =>
    ⟨hreach, hlocks, exclusive_of_reachable ⟨[]⟩ (fun _ => none) 2 config hreach 7⟩
  decide +kernel

/-- The accepting call cannot write the address of its peer and clears its slot: the
lock of the file is left without any reference. -/
theorem not_exclusive_after_undoSlot :
    ∃ config, Reachable next always (start ⟨[]⟩ (fun _ => none) 2) config ∧
      ¬config.Exclusive (7 : ℕ) := by
  obtain ⟨config, hreach, hlocks, hunused⟩ :
      ∃ config, Reachable next always (start ⟨[]⟩ (fun _ => none) 2) config ∧
        flocks config.locks 7 = [⟨100, true⟩] ∧ config.inUse 100 = false :=
    exists_reachable_of_runSteps (takenSlot ++ [.undoSlot 1]) (by decide +kernel)
  refine ⟨config, hreach, fun hexclusive => ?_⟩
  refine hexclusive.referenced 100 (fun href => ?_) ⟨100, true⟩ (by simp [hlocks]) rfl
  simp [inUse_of_referenced href] at hunused

end FlockConfig

end Kairix.Flock
