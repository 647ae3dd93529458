import Kairix.CountedTasks
import Kairix.LabelledRun
import Kairix.MachineWord
import Kairix.PagedBytes

/-!
# Cached writes and write-back of an inode

A cached write counts itself as a writer of the inode; a write-back waits until there is
no other write-back, keeps new writers out, and waits until there is no writer.  A page
which is missing in the cache is read from the disk; if the disk is behind the size of
the inode, the queued files of the inode are written back first.
-/

namespace Kairix.WritebackGuards

open Function LabelledRun PagedBytes

structure Mount (φ ι : Type*) where
  inodeOf : φ → ι
  writable : φ → Bool

/-- `page_cache_write_state` is the pair of the writer count and the write-back bit. -/
structure InodeState where
  writers : ℕ
  writeback : Bool
  size : ℕ
  diskSize : ℕ
  cached : ℕ → Bool
  hole : ℕ → Bool

structure Writing (φ : Type*) where
  file : φ
  oldSize : ℕ
  stop : ℕ
  rest : List Piece

structure Load (φ : Type*) where
  file : φ
  page : ℕ
  fileSize : ℕ

/-- The read of `load_page_from_disk` ends before the size, because the disk does. -/
def Load.short {φ : Type*} (load : Load φ) (inode : InodeState) : Bool :=
  let start := load.page * pageSize
  decide (start < load.fileSize ∧
    inode.diskSize < start + min (load.fileSize - start) pageSize ∧ inode.diskSize < load.fileSize)

inductive Caller (φ : Type*) where
  | load (load : Load φ)
  | drain
  | sync

inductive Doing (φ : Type*) where
  | idle
  | opening
  | loading (load : Load φ)
  | searching (load : Load φ)
  | awaitingSection (target : φ) (caller : Caller φ)
  | awaitingWriters (target : φ) (caller : Caller φ)
  | flushing (target : φ) (caller : Caller φ)

structure Task (φ : Type*) where
  writing : Option (Writing φ)
  doing : Doing φ

structure GuardConfig (τ φ ι : Type*) where
  inode : ι → InodeState
  task : τ → Task φ
  queue : List φ
  directDirty : φ → Bool

inductive GuardStep (τ φ ι : Type*) where
  | enter (task : τ) (file : φ) (offset : ℕ) (slices : List ℕ)
  | readSize (task : τ)
  | copy (task : τ)
  | load (task : τ)
  | search (task : τ)
  | exclude (task : τ)
  | proceed (task : τ)
  | flush (task : τ) (grown hasMore : Bool)
  | leave (task : τ)
  | miss (task : τ) (file : φ) (page : ℕ)
  | drain (task : τ)
  | sync (task : τ) (file : φ)
  | queueFile (file : φ)
  | writeDirect (file : φ)
  | evict (inode : ι) (page : ℕ)

namespace GuardConfig

variable {τ φ ι : Type*} [DecidableEq τ] [DecidableEq φ] [DecidableEq ι]

def setTask (config : GuardConfig τ φ ι) (task : τ) (state : Task φ) : GuardConfig τ φ ι :=
  { config with task := update config.task task state }

def setInode (config : GuardConfig τ φ ι) (inode : ι) (state : InodeState) : GuardConfig τ φ ι :=
  { config with inode := update config.inode inode state }

def setDoing (config : GuardConfig τ φ ι) (task : τ) (doing : Doing φ) : GuardConfig τ φ ι :=
  config.setTask task { config.task task with doing := doing }

def start (inode : ι → InodeState) (queue : List φ) (directDirty : φ → Bool) :
    GuardConfig τ φ ι where
  inode target := { inode target with writers := 0, writeback := false }
  task _ := ⟨none, .idle⟩
  queue := queue
  directDirty := directDirty

def free (config : GuardConfig τ φ ι) (task : τ) : Bool :=
  match (config.task task).writing, (config.task task).doing with
  | none, .idle => true
  | _, _ => false

variable (mount : Mount φ ι) (config s : GuardConfig τ φ ι)

def enter (task : τ) (file : φ) (offset : ℕ) (slices : List ℕ) : Option (GuardConfig τ φ ι) :=
  let inode := config.inode (mount.inodeOf file)
  if config.free task = true ∧ inode.writeback = false then
    some ((config.setInode (mount.inodeOf file)
      { inode with writers := inode.writers + 1 }).setTask task
        ⟨some ⟨file, 0, offset + slices.sum, pieces pageSize offset slices⟩, .opening⟩)
  else none

def readSize (task : τ) : Option (GuardConfig τ φ ι) :=
  match config.task task with
  | ⟨some writing, .opening⟩ =>
    let size := (config.inode (mount.inodeOf writing.file)).size
    some (config.setTask task ⟨some { writing with oldSize := size }, .idle⟩)
  | _ => none

def resident (task : τ) (file : φ) (page : ℕ) : GuardConfig τ φ ι :=
  let inode := config.inode (mount.inodeOf file)
  let cached := update inode.cached page true
  match (config.task task).writing with
  | none =>
    (config.setInode (mount.inodeOf file) { inode with cached := cached }).setDoing task .idle
  | some writing =>
    (config.setInode (mount.inodeOf file)
      { inode with
        cached := cached
        hole := update inode.hole page false }).setTask task
          ⟨some { writing with rest := writing.rest.tail }, .idle⟩

def copy (task : τ) : Option (GuardConfig τ φ ι) :=
  match config.task task with
  | ⟨some ⟨file, oldSize, _, piece :: _⟩, .idle⟩ =>
    let inode := config.inode (mount.inodeOf file)
    let page := piece.position / pageSize
    if piece.position % pageSize = 0 ∧ piece.count = pageSize ∨ inode.hole page = true ∨
        inode.cached page = true ∨ oldSize ≤ page * pageSize then
      some (config.resident mount task file page)
    else some (config.setDoing task (.loading ⟨file, page, oldSize⟩))
  | _ => none

def load (mount : Mount φ ι) (config : GuardConfig τ φ ι) (task : τ) : Option (GuardConfig τ φ ι) :=
  match (config.task task).doing with
  | .loading load =>
    if load.short (config.inode (mount.inodeOf load.file)) = true then
      some (config.setDoing task (.searching load))
    else some (config.resident mount task load.file load.page)
  | _ => none

/-- `flush_dirty_pages` has begun and wants the write-back section of the inode. -/
def beginFlush (config : GuardConfig τ φ ι) (task : τ) (target : φ) (caller : Caller φ) :
    GuardConfig τ φ ι :=
  { config with directDirty := update config.directDirty target false }.setDoing task
    (.awaitingSection target caller)

/-- One turn of `flush_inode_now`: take the first queued file of the inode.  A file which
is not writable has nothing to flush. -/
def search (task : τ) : Option (GuardConfig τ φ ι) :=
  match (config.task task).doing with
  | .searching load =>
    match config.queue.find? fun file =>
        decide (mount.inodeOf file = mount.inodeOf load.file) with
    | none => some (config.resident mount task load.file load.page)
    | some target =>
      let taken := { config with queue := config.queue.erase target }
      some (if mount.writable target = true then taken.beginFlush task target (.load load)
        else taken)
  | _ => none

/-- `begin_page_cache_writeback` keeps new writers and other write-backs out. -/
def exclude (task : τ) : Option (GuardConfig τ φ ι) :=
  match (config.task task).doing with
  | .awaitingSection target caller =>
    let inode := config.inode (mount.inodeOf target)
    if inode.writeback = false then
      some ((config.setInode (mount.inodeOf target) { inode with writeback := true }).setDoing
        task (.awaitingWriters target caller))
    else none
  | _ => none

def proceed (task : τ) : Option (GuardConfig τ φ ι) :=
  match (config.task task).doing with
  | .awaitingWriters target caller =>
    if (config.inode (mount.inodeOf target)).writers = 0 then
      some (config.setDoing task (.flushing target caller))
    else none
  | _ => none

/-- `queue_file_inner`: a file is not queued twice, and a file without private state not
beside another one of the inode. -/
def queueFile (file : φ) : GuardConfig τ φ ι :=
  if mount.writable file = false ∨ config.queue.any (fun queued => decide (queued = file ∨
      config.directDirty file = false ∧ config.directDirty queued = false ∧
        mount.inodeOf queued = mount.inodeOf file)) = true then config
  else { config with queue := config.queue ++ [file] }

/-- The write-back is over: the inode on the disk may have grown to the size. -/
def flushed (target : φ) (grown : Bool) : GuardConfig τ φ ι :=
  let inode := config.inode (mount.inodeOf target)
  config.setInode (mount.inodeOf target)
    { inode with
      writeback := false
      diskSize := if grown = true then inode.size else inode.diskSize }

def flush (task : τ) (grown hasMore : Bool) : Option (GuardConfig τ φ ι) :=
  match (config.task task).doing with
  | .flushing target caller =>
    let after := config.flushed mount target grown
    match caller, hasMore with
    | .load load, true =>
      some ((after.queueFile mount target).resident mount task load.file load.page)
    | .load load, false => some (after.setDoing task (.searching load))
    | .drain, true =>
      some ({ after with
        queue := if target ∈ after.queue then after.queue
          else after.queue ++ [target] }.setDoing task .idle)
    | .drain, false => some (after.setDoing task .idle)
    | .sync, _ => some (after.setDoing task .idle)
  | _ => none

/-- `finish_cached_write` and `end_page_cache_write`. -/
def leave (task : τ) : Option (GuardConfig τ φ ι) :=
  match config.task task with
  | ⟨some ⟨file, oldSize, stop, []⟩, .idle⟩ =>
    let inode := config.inode (mount.inodeOf file)
    some ((config.setInode (mount.inodeOf file)
      { inode with
        writers := inode.writers - 1
        size := if oldSize < stop then max inode.size stop else inode.size }).setTask task
          ⟨none, .idle⟩)
  | _ => none

def miss (task : τ) (file : φ) (page : ℕ) : Option (GuardConfig τ φ ι) :=
  let inode := config.inode (mount.inodeOf file)
  if config.free task = true ∧ inode.cached page = false then
    some (config.setDoing task (.loading ⟨file, page, inode.size⟩))
  else none

/-- `drain_some` and `drain_all` take the first queued file. -/
def drain (mount : Mount φ ι) (config : GuardConfig τ φ ι) (task : τ) :
    Option (GuardConfig τ φ ι) :=
  match config.free task, config.queue with
  | true, target :: rest =>
    let taken := { config with queue := rest }
    some (if mount.writable target = true then taken.beginFlush task target .drain else taken)
  | _, _ => none

/-- `flush`, `fsync` and the flush of `truncate`. -/
def sync (mount : Mount φ ι) (config : GuardConfig τ φ ι) (task : τ) (file : φ) :
    Option (GuardConfig τ φ ι) :=
  if config.free task = true ∧ mount.writable file = true then
    some (config.beginFlush task file .sync)
  else none

def evict (config : GuardConfig τ φ ι) (inode : ι) (page : ℕ) : GuardConfig τ φ ι :=
  config.setInode inode
    { config.inode inode with cached := update (config.inode inode).cached page false }

def next : GuardStep τ φ ι → Option (GuardConfig τ φ ι)
  | .enter task file offset slices => config.enter mount task file offset slices
  | .readSize task => config.readSize mount task
  | .copy task => config.copy mount task
  | .load task => config.load mount task
  | .search task => config.search mount task
  | .exclude task => config.exclude mount task
  | .proceed task => config.proceed mount task
  | .flush task grown hasMore => config.flush mount task grown hasMore
  | .leave task => config.leave mount task
  | .miss task file page => config.miss mount task file page
  | .drain task => config.drain mount task
  | .sync task file => config.sync mount task file
  | .queueFile file => some (config.queueFile mount file)
  | .writeDirect file =>
    some { config with directDirty := update config.directDirty file true }
  | .evict inode page => some (config.evict inode page)

/-- A writer which looks for queued files of its inode finds none with anything to
flush. -/
def Unqueued : GuardStep τ φ ι → Prop
  | .search task =>
    match (config.task task).writing with
    | some writing => ∀ file ∈ config.queue,
        mount.inodeOf file = mount.inodeOf writing.file → mount.writable file = false
    | none => True
  | _ => True

instance (mount : Mount φ ι) (config : GuardConfig τ φ ι) (label : GuardStep τ φ ι) :
    Decidable (config.Unqueued mount label) := by
  unfold Unqueued
  cases label with
  | search task =>
    dsimp only
    cases (config.task task).writing <;> infer_instance
  | _ => infer_instance

end GuardConfig

/-! ## Writers which wait for themselves

A cached write may reach the write-back of its own inode through a page which the disk
does not have yet. -/

variable {τ φ ι : Type*}

def Task.Inside (mount : Mount φ ι) (task : Task φ) (inode : ι) : Prop :=
  ∃ writing, task.writing = some writing ∧ mount.inodeOf writing.file = inode

def Task.awaited (task : Task φ) : Option φ :=
  match task.doing with
  | .awaitingSection target _ | .awaitingWriters target _ => some target
  | _ => none

/-- A writer loads pages of its own inode and is in no write-back. -/
def TaskOk (mount : Mount φ ι) (task : Task φ) : Prop :=
  match task.doing with
  | .loading load | .searching load => ∀ writing, task.writing = some writing →
      mount.inodeOf load.file = mount.inodeOf writing.file
  | .awaitingSection _ _ | .awaitingWriters _ _ | .flushing _ _ => task.writing = none
  | .idle | .opening => True

namespace GuardConfig

structure Inv (mount : Mount φ ι) (s : GuardConfig τ φ ι) : Prop where
  writers : ∀ inode, Counted (fun task => (s.task task).Inside mount inode)
    (s.inode inode).writers
  tasks : ∀ task, TaskOk mount (s.task task)

variable [DecidableEq τ] [DecidableEq φ] [DecidableEq ι] {mount : Mount φ ι}
  {config s s' : GuardConfig τ φ ι}

/-! ## Parts of the steps -/

attribute [local simp] GuardConfig.setTask GuardConfig.setInode Task.Inside

omit [DecidableEq τ] [DecidableEq φ] in
theorem Inv.setInode (hinv : s.Inv mount) {inode : ι} {state : InodeState}
    (hwriters : state.writers = (s.inode inode).writers) :
    (s.setInode inode state).Inv mount := by
  refine ⟨fun other => ?_, hinv.tasks⟩
  have hcount := hinv.writers other
  by_cases hother : other = inode
  · subst hother
    simpa [hwriters] using hcount
  · simpa [hother] using hcount

variable {task : τ}

section

omit [DecidableEq φ] [DecidableEq ι]

theorem Inv.setTask (hinv : s.Inv mount) {state : Task φ}
    (hinside : ∀ inode, state.Inside mount inode ↔ (s.task task).Inside mount inode)
    (hok : TaskOk mount state) : (s.setTask task state).Inv mount := by
  refine ⟨fun inode => (hinv.writers inode).congr fun other => ?_, fun other => ?_⟩
  · by_cases hother : other = task
    · subst hother
      simpa using hinside inode
    · simp [hother]
  · by_cases hother : other = task
    · subst hother
      simpa using hok
    · simpa [hother] using hinv.tasks other

theorem Inv.setDoing (hinv : s.Inv mount) {doing : Doing φ}
    (hok : TaskOk mount { s.task task with doing := doing }) :
    (s.setDoing task doing).Inv mount :=
  hinv.setTask (fun _ => Iff.rfl) hok

theorem Inv.setWriting (hinv : s.Inv mount) {writing writing' : Writing φ}
    (hwriting : (s.task task).writing = some writing) (hfile : writing'.file = writing.file) :
    (s.setTask task ⟨some writing', .idle⟩).Inv mount := by
  refine hinv.setTask (fun inode => ?_) trivial
  simp [hwriting, hfile]

end

variable {file : φ}

section

variable (hinv : s.Inv mount)
include hinv

omit [DecidableEq φ] in
theorem Inv.resident {page : ℕ} : (s.resident mount task file page).Inv mount := by
  rw [GuardConfig.resident]
  split
  · refine Inv.setDoing ?_ trivial
    exact hinv.setInode rfl
  · next writing hwriting =>
    refine Inv.setWriting ?_ hwriting rfl
    exact hinv.setInode rfl

omit [DecidableEq φ] in
theorem Inv.crosses {state : Task φ} {inode : ι} {inodeState : InodeState}
    (hcount : Counted (fun other => (Function.update s.task task state other).Inside mount
      inode) inodeState.writers)
    (hothers : ∀ other, other ≠ inode →
      (state.Inside mount other ↔ (s.task task).Inside mount other))
    (hok : TaskOk mount state) :
    ((s.setInode inode inodeState).setTask task state).Inv mount := by
  refine ⟨fun other => ?_, fun other => ?_⟩
  · by_cases hother : other = inode
    · subst hother
      simpa using hcount
    · have hkept : Counted (fun one => (Function.update s.task task state one).Inside mount
          other) (s.inode other).writers := by
        refine (hinv.writers other).congr fun one => ?_
        by_cases hone : one = task
        · subst hone
          simpa using hothers other hother
        · simp [hone]
      simpa [hother] using hkept
  · by_cases hother : other = task
    · subst hother
      simpa using hok
    · simpa [hother] using hinv.tasks other

omit [DecidableEq ι] in
theorem Inv.beginFlush {target : φ} {caller : Caller φ} (hout : (s.task task).writing = none) :
    (s.beginFlush task target caller).Inv mount := by
  have hclean : { s with
      directDirty := Function.update s.directDirty target false }.Inv mount := { hinv with }
  exact hclean.setDoing hout

omit [DecidableEq τ] in
theorem Inv.queueFile : (s.queueFile mount file).Inv mount := by
  rw [GuardConfig.queueFile]
  split_ifs
  · exact hinv
  · exact { hinv with }

end

omit [DecidableEq τ] [DecidableEq φ] [DecidableEq ι] in
theorem writing_of_free (hfree : s.free task = true) : (s.task task).writing = none := by
  rw [free] at hfree
  split at hfree
  · assumption
  · cases hfree

/-! ## The steps -/

section

variable (hinv : s.Inv mount)
include hinv

omit [DecidableEq φ] in
theorem Inv.enter {offset : ℕ} {slices : List ℕ}
    (hstep : s.enter mount task file offset slices = some s') : s'.Inv mount := by
  simp only [GuardConfig.enter] at hstep
  split_ifs at hstep with henter
  cases hstep
  have hout := writing_of_free henter.1
  refine hinv.crosses ?_ (fun other hother => ?_) trivial
  · have houtside : ¬ (s.task task).Inside mount (mount.inodeOf file) := by
      simp [hout]
    refine (hinv.writers (mount.inodeOf file)).enter houtside fun other => ?_
    by_cases hother : other = task
    · subst hother
      simp
    · simp [hother]
  · simp [hout, Ne.symm hother]

omit [DecidableEq φ] in
theorem Inv.leave (hstep : s.leave mount task = some s') : s'.Inv mount := by
  simp only [GuardConfig.leave] at hstep
  split at hstep <;> cases hstep
  next file oldSize stop htask =>
    refine hinv.crosses ?_ (fun other hother => ?_) trivial
    · have hinside : (s.task task).Inside mount (mount.inodeOf file) := by
        simp [htask]
      refine (hinv.writers (mount.inodeOf file)).leave hinside fun other => ?_
      by_cases hother : other = task
      · subst hother
        simp
      · simp [hother]
    · simp [htask, Ne.symm hother]

omit [DecidableEq φ] [DecidableEq ι] in
theorem Inv.readSize (hstep : s.readSize mount task = some s') : s'.Inv mount := by
  simp only [GuardConfig.readSize] at hstep
  split at hstep <;> cases hstep
  next writing htask =>
    have hwriting : (s.task task).writing = some writing := by rw [htask]
    exact hinv.setWriting hwriting rfl

omit [DecidableEq φ] in
theorem Inv.copy (hstep : s.copy mount task = some s') : s'.Inv mount := by
  simp only [GuardConfig.copy] at hstep
  split at hstep
  · next file oldSize stop piece rest htask =>
    split_ifs at hstep <;> cases hstep
    · exact hinv.resident
    · exact hinv.setDoing (by simp [TaskOk, htask])
  · cases hstep

omit [DecidableEq φ] in
theorem Inv.load (hstep : s.load mount task = some s') : s'.Inv mount := by
  have hok := hinv.tasks task
  simp only [GuardConfig.load] at hstep
  split at hstep
  · next load hdoing =>
    split_ifs at hstep <;> cases hstep
    · simp only [TaskOk, hdoing] at hok
      exact hinv.setDoing hok
    · exact hinv.resident
  · cases hstep

theorem Inv.search (hunqueued : s.Unqueued mount (.search task))
    (hstep : s.search mount task = some s') : s'.Inv mount := by
  have hok := hinv.tasks task
  simp only [GuardConfig.search] at hstep
  split at hstep
  · next load hdoing =>
    simp only [TaskOk, hdoing] at hok
    split at hstep
    · cases hstep
      exact hinv.resident
    · next target hfind =>
      have htaken : { s with queue := s.queue.erase target }.Inv mount := { hinv with }
      split_ifs at hstep with hwritable <;> cases hstep
      · refine htaken.beginFlush ?_
        cases hwriting : (s.task task).writing with
        | none => rfl
        | some writing =>
          have hsame := List.find?_some hfind
          simp only [decide_eq_true_eq] at hsame
          simp only [Unqueued, hwriting] at hunqueued
          have hnot := hunqueued target (List.mem_of_find?_eq_some hfind)
            (hsame.trans (hok writing hwriting))
          simp [hnot] at hwritable
      · exact htaken
  · cases hstep

omit [DecidableEq φ] in
theorem Inv.exclude (hstep : s.exclude mount task = some s') : s'.Inv mount := by
  have hok := hinv.tasks task
  simp only [GuardConfig.exclude] at hstep
  split at hstep
  · next target caller hdoing =>
    simp only [TaskOk, hdoing] at hok
    split_ifs at hstep
    cases hstep
    refine Inv.setDoing ?_ hok
    exact hinv.setInode rfl
  · cases hstep

omit [DecidableEq φ] [DecidableEq ι] in
theorem Inv.proceed (hstep : s.proceed mount task = some s') : s'.Inv mount := by
  have hok := hinv.tasks task
  simp only [GuardConfig.proceed] at hstep
  split at hstep
  · next target caller hdoing =>
    simp only [TaskOk, hdoing] at hok
    split_ifs at hstep
    cases hstep
    exact hinv.setDoing hok
  · cases hstep

theorem Inv.flush {grown hasMore : Bool}
    (hstep : s.flush mount task grown hasMore = some s') : s'.Inv mount := by
  have hok := hinv.tasks task
  simp only [GuardConfig.flush] at hstep
  split at hstep
  · next target caller hdoing =>
    simp only [TaskOk, hdoing] at hok
    have hflushed : (s.flushed mount target grown).Inv mount := hinv.setInode rfl
    split at hstep <;> cases hstep
    · exact hflushed.queueFile.resident
    · refine hflushed.setDoing fun writing hwriting => ?_
      change (s.task task).writing = some writing at hwriting
      rw [hok] at hwriting
      cases hwriting
    · have hqueued : { s.flushed mount target grown with
          queue := if target ∈ (s.flushed mount target grown).queue then
            (s.flushed mount target grown).queue
            else (s.flushed mount target grown).queue ++ [target] }.Inv mount :=
        { hflushed with }
      exact hqueued.setDoing trivial
    · exact hflushed.setDoing trivial
    · exact hflushed.setDoing trivial
  · cases hstep

omit [DecidableEq φ] [DecidableEq ι] in
theorem Inv.miss {page : ℕ} (hstep : s.miss mount task file page = some s') : s'.Inv mount := by
  simp only [GuardConfig.miss] at hstep
  split_ifs at hstep with hmiss
  cases hstep
  refine hinv.setDoing fun writing hwriting => ?_
  change (s.task task).writing = some writing at hwriting
  rw [writing_of_free hmiss.1] at hwriting
  cases hwriting

omit [DecidableEq ι] in
theorem Inv.drain (hstep : s.drain mount task = some s') : s'.Inv mount := by
  simp only [GuardConfig.drain] at hstep
  split at hstep
  · next target rest hfree hqueue =>
    have htaken : { s with queue := rest }.Inv mount := { hinv with }
    split_ifs at hstep <;> cases hstep
    · exact htaken.beginFlush (writing_of_free hfree)
    · exact htaken
  · cases hstep

omit [DecidableEq ι] in
theorem Inv.sync (hstep : s.sync mount task file = some s') : s'.Inv mount := by
  simp only [GuardConfig.sync] at hstep
  split_ifs at hstep with hsync
  cases hstep
  exact hinv.beginFlush (writing_of_free hsync.1)

theorem Inv.next {label : GuardStep τ φ ι} (hunqueued : s.Unqueued mount label)
    (hstep : s.next mount label = some s') : s'.Inv mount := by
  cases label with
  | enter task file offset slices => exact hinv.enter hstep
  | readSize task => exact hinv.readSize hstep
  | copy task => exact hinv.copy hstep
  | load task => exact hinv.load hstep
  | search task => exact hinv.search hunqueued hstep
  | exclude task => exact hinv.exclude hstep
  | proceed task => exact hinv.proceed hstep
  | flush task grown hasMore => exact hinv.flush hstep
  | leave task => exact hinv.leave hstep
  | miss task file page => exact hinv.miss hstep
  | drain task => exact hinv.drain hstep
  | sync task file => exact hinv.sync hstep
  | queueFile file =>
    cases hstep
    exact hinv.queueFile
  | writeDirect file =>
    cases hstep
    exact { hinv with }
  | evict inode page =>
    cases hstep
    exact hinv.setInode rfl

end

/-- A task which waits for a write-back section is no writer of the inode, and the writers
which it waits for are other tasks. -/
def NoSelfWait (mount : Mount φ ι) (config : GuardConfig τ φ ι) : Prop :=
  ∀ task target, (config.task task).awaited = some target →
    ∃ writers : Finset τ, task ∉ writers ∧
      writers.card = (config.inode (mount.inodeOf target)).writers ∧
      ∀ other, (config.task other).Inside mount (mount.inodeOf target) ↔ other ∈ writers

omit [DecidableEq τ] [DecidableEq φ] [DecidableEq ι] in
theorem Inv.noSelfWait (hinv : s.Inv mount) : s.NoSelfWait mount := by
  intro task target hawaits
  have hout : (s.task task).writing = none := by
    have hok := hinv.tasks task
    rw [Task.awaited] at hawaits
    split at hawaits
    · next hdoing => simpa only [TaskOk, hdoing] using hok
    · next hdoing => simpa only [TaskOk, hdoing] using hok
    · cases hawaits
  obtain ⟨writers, hcard, hwriters⟩ := hinv.writers (mount.inodeOf target)
  refine ⟨writers, fun hmem => ?_, hcard, hwriters⟩
  obtain ⟨writing, hwriting, -⟩ := (hwriters task).mpr hmem
  rw [hout] at hwriting
  cases hwriting

theorem noSelfWait_of_reachable (mount : Mount φ ι) (inode : ι → InodeState) (queue : List φ)
    (directDirty : φ → Bool)
    (hreach : Reachable (next mount) (Unqueued mount) (start inode queue directDirty) config) :
    config.NoSelfWait mount := by
  have hstart : (start inode queue directDirty : GuardConfig τ φ ι).Inv mount := by
    refine ⟨fun other => .none_inside fun task hinside => ?_, fun _ => trivial⟩
    obtain ⟨writing, hwriting, -⟩ := hinside
    cases hwriting
  exact (hreach.invariant hstart fun _ _ _ hbefore hunqueued hstep =>
    hbefore.next hunqueued hstep).noSelfWait

def oneFile : Mount Unit Unit where
  inodeOf _ := ()
  writable _ := true

def emptyInode : InodeState := ⟨0, false, 0, 0, fun _ => false, fun _ => false⟩

/-- While one task writes, another one waits to write the file back. -/
theorem noSelfWait_beside_writer : ∃ config : GuardConfig (Fin 2) Unit Unit,
      Reachable (next oneFile) (Unqueued oneFile)
        (start (fun _ => emptyInode) [] fun _ => false) config ∧
      config.NoSelfWait oneFile ∧ (config.task 1).awaited = some () ∧
        (config.inode ()).writers = 1 := by
  refine (exists_reachable_of_runSteps
    [.enter 0 () 8192 [10], .readSize 0, .sync 1 (), .exclude 1, .copy 0] ?_).imp
      fun config ⟨hreach, hawaits⟩ =>
        ⟨hreach, noSelfWait_of_reachable oneFile _ _ _ hreach, hawaits⟩
  decide +kernel

/-- A write behind a hole extends an empty file and the file is queued.  A write into the
hole reads past the end of the disk, takes the file from the queue and waits, as the only
writer, until there is no writer. -/
theorem writer_waits_for_itself : ∃ config : GuardConfig (Fin 1) Unit Unit,
      Reachable (next oneFile) always (start (fun _ => emptyInode) [] fun _ => false) config ∧
        (config.task 0).awaited = some () ∧ (config.task 0).Inside oneFile () ∧
          (config.inode ()).writers = 1 ∧ (config.proceed oneFile 0).isNone = true := by
  obtain ⟨config, hreach, hawaited, hwriting, hcount, hstuck⟩ :
      ∃ config : GuardConfig (Fin 1) Unit Unit,
        Reachable (next oneFile) always (start (fun _ => emptyInode) [] fun _ => false) config ∧
          (config.task 0).awaited = some () ∧ (config.task 0).writing.isSome = true ∧
          (config.inode ()).writers = 1 ∧ (config.proceed oneFile 0).isNone = true :=
    exists_reachable_of_runSteps [.enter 0 () 8192 [10], .readSize 0, .copy 0, .leave 0,
      .queueFile (), .enter 0 () 0 [10], .readSize 0, .copy 0, .load 0, .search 0, .exclude 0]
      (by decide +kernel)
  obtain ⟨writing, hwriting⟩ := Option.isSome_iff_exists.mp hwriting
  exact ⟨config, hreach, hawaited, ⟨writing, hwriting, rfl⟩, hcount, hstuck⟩

end GuardConfig

end Kairix.WritebackGuards
