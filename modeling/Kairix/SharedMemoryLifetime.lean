import Kairix.MachineWord
import Kairix.LabelledRun
import Kairix.SysError

/-!
# System V shared memory

A segment counts its attachments.  `shmat` and `shmdt` change the count by one, `fork`
and `CLONE_VM` add one for every attached area of the new process, and a process which
leaves its address space takes one away for every area.  Addresses are page numbers.
-/

namespace Kairix.SharedMemory

open Function LabelledRun List Option

def shmmni : ℕ := 128

def shmmax : ℕ := 256 * 1024 * 1024

/-- The end of `USER_MEMORY_SPACE`. -/
def userPages : ℕ := 2 ^ 26

structure Segment where
  key : ℤ
  pages : ℕ
  nattch : ℕ
  destroyed : Bool
  deriving DecidableEq

/-- `marked` remembers every `IPC_RMID`. -/
structure ShmState where
  nextId : ℕ
  segments : ℕ → Option Segment
  keyToId : ℤ → Option ℕ
  marked : ℕ → Bool

namespace ShmState

variable (shm : ShmState) (id : ℕ)

def len : ℕ :=
  ((range shm.nextId).filter fun id => (shm.segments id).isSome).length

def setSegment (entry : Option Segment) : ShmState :=
  { shm with segments := update shm.segments id entry }

def create (key : ℤ) (pages : ℕ) : ShmState :=
  { shm with
    nextId := shm.nextId + 1
    segments := update shm.segments shm.nextId (some ⟨key, pages, 0, false⟩)
    keyToId := if key = 0 then shm.keyToId else update shm.keyToId key (some shm.nextId) }

/-- `sys_shmget`; `granted` tells that the frames could be allocated. -/
def shmget (key : ℤ) (size : ℕ) (create excl granted : Bool) : Except SysError (ShmState × ℕ) :=
  if size = 0 ∨ shmmax < size then .error .einval
  else
    match (if key = 0 then none else shm.keyToId key).bind fun id =>
      (shm.segments id).map (id, ·) with
    | some (id, seg) =>
      if seg.pages * pageSize < size then .error .einval
      else if excl = true ∧ create = true then .error .eexist
      else .ok (shm, id)
    | none =>
      if create = false then .error .enoent
      else if shmmni ≤ shm.len then .error .enospc
      else if granted = false then .error .enomem
      else .ok (shm.create key ((size + pageSize - 1) / pageSize), shm.nextId)

def rmid : Except SysError ShmState :=
  match shm.segments id with
  | none => .error .einval
  | some seg =>
    .ok { shm.setSegment id
        (if seg.nattch = 0 then none else some { seg with destroyed := true }) with
      keyToId := if seg.key = 0 then shm.keyToId else update shm.keyToId seg.key none
      marked := update shm.marked id true }

def attach : ShmState :=
  match shm.segments id with
  | none => shm
  | some seg => shm.setSegment id (some { seg with nattch := seg.nattch + 1 })

/-- The count stops at zero, and a marked segment goes with its last attachment. -/
def detach : ShmState :=
  match shm.segments id with
  | none => shm
  | some seg =>
    let nattch := seg.nattch - 1
    shm.setSegment id
      (if seg.destroyed = true ∧ nattch = 0 then none else some { seg with nattch := nattch })

end ShmState

structure Perm where
  read : Bool
  write : Bool
  exec : Bool
  deriving DecidableEq

/-- `MapPermission::from_prot`: a writable page is readable. -/
def Perm.fromProt (prot : Perm) : Perm := { prot with read := prot.read || prot.write }

/-- An area of an address space; `shmid` is set for an attached segment. -/
structure Area where
  start : ℕ
  stop : ℕ
  perm : Perm
  shmid : Option ℕ
  deriving DecidableEq

namespace Area

def below (area : Area) (bound : ℕ) : List Area :=
  if area.start < bound then [{ area with stop := bound }] else []

def above (area : Area) (bound : ℕ) : List Area :=
  if bound < area.stop then [{ area with start := bound }] else []

def trim (start stop : ℕ) (area : Area) : List Area :=
  if min stop area.stop ≤ max start area.start then [area]
  else area.below start ++ area.above stop

/-- What `mprotect` makes of an area: the part in the range is split off. -/
def protect (start stop : ℕ) (perm : Perm) (area : Area) : List Area :=
  if min stop area.stop ≤ max start area.start ∨ area.perm = perm then [area]
  else
    area.below start ++
      { area with start := max start area.start, stop := min stop area.stop, perm := perm } ::
        area.above stop

end Area

def attached (areas : List Area) : List ℕ := areas.filterMap Area.shmid

def ShmState.release (shm : ShmState) (areas : List Area) : ShmState :=
  (attached areas).foldl detach shm

def ShmState.inherit (shm : ShmState) (areas : List Area) : ShmState :=
  (attached areas).foldl attach shm

def findFreeArea (pages current : ℕ) : List Area → Option ℕ
  | [] => if current + pages ≤ userPages then some current else none
  | area :: rest =>
    if area.stop ≤ current then findFreeArea pages current rest
    else if current + pages ≤ area.start then
      if current + pages ≤ userPages then some current else none
    else if userPages ≤ area.stop then none
    else findFreeArea pages area.stop rest

/-- `users` has the address space of every process, so an address space occurs there as
often as its `process_owners` tells. -/
structure ShmConfig (σ : Type*) where
  shm : ShmState
  users : List σ
  areas : σ → List Area

inductive ShmStep (σ : Type*) where
  | shmget (key : ℤ) (size : ℕ) (create excl granted : Bool)
  | shmat (space : σ) (id : ℕ) (addr : Option ℕ) (readonly : Bool)
  | shmdt (space : σ) (addr : ℕ)
  | rmid (id : ℕ)
  | munmap (space : σ) (start len : ℕ)
  | mprotect (space : σ) (start len : ℕ) (prot : Perm)
  | fork (space child : σ)
  | cloneVm (space : σ)
  | exec (space fresh : σ) (image : List Area)
  | exit (space : σ)

namespace ShmConfig

variable {σ : Type*} [DecidableEq σ]

def boot (first : σ) : ShmConfig σ :=
  ⟨⟨0, fun _ => none, fun _ => none, fun _ => false⟩, [first], fun _ => []⟩

variable (config s : ShmConfig σ) (space : σ)

def setAreas (areas : List Area) : ShmConfig σ :=
  { config with areas := update config.areas space areas }

def place (mmapBase : ℕ) (space : σ) (pages : ℕ) : Option ℕ → Except SysError ℕ
  | none =>
    match findFreeArea pages mmapBase (config.areas space) with
    | none => .error .enomem
    | some start => .ok start
  | some start =>
    if ∀ area ∈ config.areas space, start + pages ≤ area.start ∨ area.stop ≤ start then .ok start
    else .error .einval

def shmat (mmapBase : ℕ) (space : σ) (id : ℕ) (addr : Option ℕ) (readonly : Bool) : Except SysError
    (ShmConfig σ) :=
  match config.shm.segments id with
  | none => .error .einval
  | some seg =>
    match config.place mmapBase space seg.pages addr with
    | .error error => .error error
    | .ok start =>
      if start < start + seg.pages ∧ start + seg.pages ≤ userPages then
        let areas := config.areas space
        .ok { config.setAreas space (areas.takeWhile (·.start < start) ++
          ⟨start, start + seg.pages, ⟨true, !readonly, false⟩, some id⟩ ::
            areas.dropWhile (·.start < start)) with shm := config.shm.attach id }
      else .error .einval

def shmdt (addr : ℕ) : Except SysError (ShmConfig σ) :=
  match (config.areas space).find? fun area => area.start = addr ∧ area.shmid ≠ none with
  | none => .error .einval
  | some area =>
    .ok { config.setAreas space ((config.areas space).erase area) with
      shm := config.shm.release [area] }

def munmap (start len : ℕ) : Except SysError (ShmConfig σ) :=
  if len = 0 ∨ userPages < start + len then .error .einval
  else
    let areas := config.areas space
    .ok { config.setAreas space (areas.flatMap (Area.trim start (start + len))) with
      shm := config.shm.release (areas.filter fun area => area.trim start (start + len) = []) }

def mprotect (start len : ℕ) (prot : Perm) : Except SysError (ShmConfig σ) :=
  let areas := config.areas space
  if len = 0 then .ok config
  else if start + len ≤ userPages ∧ ∀ page ∈ range' start len,
      ∃ area ∈ areas, area.start ≤ page ∧ page < area.stop then
    .ok (config.setAreas space (areas.flatMap (Area.protect start (start + len) prot.fromProt)))
  else .error .enomem

def enter (areas : List Area) : ShmConfig σ :=
  { config.setAreas space areas with
    shm := config.shm.inherit areas, users := space :: config.users }

/-- A process leaves its address space, and the last one clears it. -/
def leave : ShmConfig σ :=
  let rest := config.users.erase space
  { config.setAreas space (if space ∈ rest then config.areas space else []) with
    shm := config.shm.release (config.areas space), users := rest }

def settle (result : Except SysError (ShmConfig σ)) : ShmConfig σ :=
  result.toOption.getD config

/-- The address space of a caller is in use, and a new one is not. -/
def next (mmapBase : ℕ) (config : ShmConfig σ) : ShmStep σ → Option (ShmConfig σ)
  | .shmget key size create excl granted =>
    some (config.settle ((config.shm.shmget key size create excl granted).map fun result =>
      { config with shm := result.1 }))
  | .shmat space id addr readonly =>
    if space ∈ config.users then
      some (config.settle (config.shmat mmapBase space id addr readonly))
    else none
  | .shmdt space addr =>
    if space ∈ config.users then some (config.settle (config.shmdt space addr)) else none
  | .rmid id =>
    some (config.settle ((config.shm.rmid id).map fun shm => { config with shm := shm }))
  | .munmap space start len =>
    if space ∈ config.users then some (config.settle (config.munmap space start len)) else none
  | .mprotect space start len prot =>
    if space ∈ config.users then some (config.settle (config.mprotect space start len prot))
    else none
  | .fork space child =>
    if space ∈ config.users ∧ child ∉ config.users then
      some (config.enter child (config.areas space))
    else none
  | .cloneVm space =>
    if space ∈ config.users then some (config.enter space (config.areas space)) else none
  | .exec space fresh image =>
    if space ∈ config.users ∧ fresh ∉ config.users then
      some ((config.leave space).enter fresh (image.map fun area => { area with shmid := none }))
    else none
  | .exit space => if space ∈ config.users then some (config.leave space) else none

end ShmConfig

/-! ## Segments and their attachments -/

/-- What is known about one id: its entry, its attachments, whether it was given out and
marked, and its keys. -/
structure Fits (entry : Option Segment) (count : ℕ) (born : Prop) (marked : Bool)
    (bound : ℤ → Prop) : Prop where
  counted : ∀ seg, entry = some seg →
    seg.nattch = count ∧ seg.destroyed = marked ∧ (marked = true → count ≠ 0)
  absent : entry = none → count = 0 ∧ (born → marked = true)
  fresh : ¬born → entry = none ∧ marked = false
  keyed : ∀ key, bound key ↔ key ≠ 0 ∧ ∃ seg, entry = some seg ∧ seg.key = key ∧ marked = false

def ShmState.Tracks (shm : ShmState) (held : List ℕ) : Prop :=
  ∀ id, Fits (shm.segments id) (held.count id) (id < shm.nextId) (shm.marked id)
    fun key => shm.keyToId key = some id

namespace ShmState.Tracks

variable {shm : ShmState} {held s' : List ℕ} {id : ℕ}

section

variable (htracks : shm.Tracks held)
include htracks

theorem of_perm (hperm : held.Perm s') : shm.Tracks s' := by
  intro id
  rw [← hperm.count_eq]
  exact htracks id

theorem exists_of_mem (hmem : id ∈ held) : ∃ seg, shm.segments id = some seg := by
  refine ne_none_iff_exists'.mp fun hnone => ?_
  exact (count_pos_iff.mpr hmem).ne' ((htracks id).absent hnone).1

section

variable {seg : Segment} (hseg : shm.segments id = some seg)
include hseg

theorem lt_nextId : id < shm.nextId := by
  by_contra hborn
  simp [((htracks id).fresh hborn).1] at hseg

theorem recount (hothers : ∀ other, other ≠ id → s'.count other = held.count other) :
    (shm.setSegment id (if seg.destroyed = true ∧ s'.count id = 0 then none
      else some { seg with nattch := s'.count id })).Tracks s' := by
  intro other
  by_cases hsame : other = id
  · subst hsame
    obtain ⟨hcounted, -, -, hkeyed⟩ := htracks other
    obtain ⟨-, hflag, -⟩ := hcounted seg hseg
    have hborn := htracks.lt_nextId hseg
    simp only [setSegment, update_self, hseg, hflag] at hkeyed ⊢
    cases hmarked : shm.marked other with
    | true =>
      by_cases hcount : s'.count other = 0
      · exact ⟨by simp [hcount], by simp [hcount], by simp [hborn], by simp [hkeyed, hmarked]⟩
      · exact ⟨by simp [hcount], by simp [hcount], by simp [hborn], by simp [hkeyed, hmarked]⟩
    | false =>
      exact ⟨by simp, by simp, by simp [hborn], by simp [hkeyed, hmarked]⟩
  · simpa [setSegment, hsame, hothers other hsame] using htracks other

theorem attach : (shm.attach id).Tracks (id :: held) := by
  have hcount := ((htracks id).counted seg hseg).1
  have hothers (other : ℕ) (hne : other ≠ id) : (id :: held).count other = held.count other :=
    count_cons_of_ne hne.symm
  simpa [ShmState.attach, hseg, hcount] using htracks.recount hseg hothers

end

end

theorem detach (htracks : shm.Tracks (id :: held)) : (shm.detach id).Tracks held := by
  obtain ⟨seg, hseg⟩ := htracks.exists_of_mem mem_cons_self
  have hcount := ((htracks id).counted seg hseg).1
  simp only [ShmState.detach, hseg, hcount, count_cons_self, Nat.add_sub_cancel]
  exact htracks.recount hseg fun other hne => (count_cons_of_ne hne.symm).symm

theorem release {areas : List Area} (htracks : shm.Tracks (attached areas ++ held)) :
    (shm.release areas).Tracks held := by
  unfold ShmState.release
  generalize attached areas = ids at htracks ⊢
  induction ids generalizing shm with
  | nil => exact htracks
  | cons id rest ih => exact ih htracks.detach

variable (htracks : shm.Tracks held)
include htracks

theorem inherit {areas : List Area} (hmem : ∀ id ∈ attached areas, id ∈ held) :
    (shm.inherit areas).Tracks (attached areas ++ held) := by
  unfold ShmState.inherit
  generalize attached areas = ids at hmem ⊢
  induction ids generalizing shm held with
  | nil => exact htracks
  | cons id rest ih =>
    obtain ⟨seg, hseg⟩ := htracks.exists_of_mem (hmem id mem_cons_self)
    refine (ih (htracks.attach hseg) fun other hother =>
      mem_cons_of_mem id (hmem other (mem_cons_of_mem id hother))).of_perm ?_
    exact perm_middle

theorem create {key : ℤ} (hkey : key ≠ 0 → shm.keyToId key = none)
    (pages : ℕ) : (shm.create key pages).Tracks held := by
  have hbound (other : ℕ) (name : ℤ) : (shm.create key pages).keyToId name = some other ↔
      shm.keyToId name = some other ∨ name ≠ 0 ∧ name = key ∧ other = shm.nextId := by
    unfold ShmState.create
    by_cases hzero : key = 0
    · simp only [hzero, if_true]
      tauto
    · by_cases hname : name = key
      · subst hname
        simp [hzero, hkey hzero, eq_comm]
      · simp [hzero, hname]
  intro other
  by_cases hsame : other = shm.nextId
  · subst hsame
    obtain ⟨-, habsent, hfresh, hkeyed⟩ := htracks shm.nextId
    obtain ⟨hnone, hmarked⟩ := hfresh (lt_irrefl _)
    simp only [hbound, hkeyed, hnone]
    simp only [ShmState.create, update_self, (habsent hnone).1, hmarked]
    exact ⟨by simp, by simp, by simp, fun name => by simp [eq_comm]⟩
  · have hborn : other < shm.nextId + 1 ↔ other < shm.nextId := by omega
    simp only [hbound, hsame]
    simpa [ShmState.create, update_of_ne hsame, hborn] using htracks other

theorem rmid {result : ShmState} (hresult : shm.rmid id = .ok result)
    (honce : ∀ seg, shm.segments id = some seg → seg.destroyed = true →
      shm.keyToId seg.key = none) : result.Tracks held := by
  unfold ShmState.rmid at hresult
  cases hseg : shm.segments id with
  | none => simp [hseg] at hresult
  | some seg =>
    simp only [hseg, Except.ok.injEq] at hresult
    obtain ⟨hcounted, -, -, hkeyed⟩ := htracks id
    obtain ⟨hcount, hflag, hkept⟩ := hcounted seg hseg
    have hkey (name : ℤ) (hname : shm.keyToId name = some id) : seg.key = name ∧ name ≠ 0 := by
      obtain ⟨hzero, record, hrecord, hkey, -⟩ := (hkeyed name).mp hname
      obtain rfl := some.inj (hseg.symm.trans hrecord)
      exact ⟨hkey, hzero⟩
    have hunbound (other : ℕ) (hzero : seg.key ≠ 0) (hother : shm.keyToId seg.key = some other) :
        other = id := by
      cases hdestroyed : seg.destroyed with
      | true => simp [honce seg hseg hdestroyed] at hother
      | false =>
        have hid := (hkeyed seg.key).mpr ⟨hzero, seg, hseg, rfl, hflag ▸ hdestroyed⟩
        exact some.inj (hother.symm.trans hid)
    have hbound (other : ℕ) (name : ℤ) : result.keyToId name = some other ↔
        shm.keyToId name = some other ∧ other ≠ id := by
      subst hresult
      by_cases hzero : seg.key = 0
      · simp only [hzero, if_true, iff_self_and]
        rintro hname rfl
        exact (hkey name hname).2 ((hkey name hname).1.symm.trans hzero)
      · by_cases hname : name = seg.key
        · subst hname
          simp only [hzero, if_false, update_self]
          exact iff_of_false (by simp) fun h => h.2 (hunbound other hzero h.1)
        · simp only [hzero, if_false, update_of_ne hname, iff_self_and]
          rintro hother rfl
          exact hname (hkey name hother).1.symm
    intro other
    simp only [hbound]
    subst hresult
    by_cases hsame : other = id
    · subst hsame
      have hborn := htracks.lt_nextId hseg
      by_cases hzero : seg.nattch = 0
      · refine ⟨?_, ?_, ?_, ?_⟩ <;> simp [setSegment, hzero, hborn, ← hcount]
      · refine ⟨?_, ?_, ?_, ?_⟩ <;> simp [setSegment, hzero, hborn, ← hcount]
    · simpa [setSegment, hsame] using htracks other

theorem shmget {key : ℤ} {size : ℕ} {create excl granted : Bool} {result : ShmState × ℕ}
    (hresult : shm.shmget key size create excl granted = .ok result) : result.1.Tracks held := by
  unfold ShmState.shmget at hresult
  split at hresult
  · simp at hresult
  split at hresult
  · split_ifs at hresult
    rw [← Except.ok.inj hresult]
    exact htracks
  next hnone =>
    split_ifs at hresult
    rw [← Except.ok.inj hresult]
    refine htracks.create (fun hkey => eq_none_iff_forall_ne_some.mpr fun id hid => ?_) _
    obtain ⟨-, seg, hseg, -⟩ := ((htracks id).keyed key).mp hid
    simp [hkey, hid, hseg] at hnone

end ShmState.Tracks

/-! ## Address spaces -/

variable {σ : Type*}

namespace ShmConfig

def Mapped (config : ShmConfig σ) (id : ℕ) : Prop :=
  ∃ space page, ∃ area ∈ config.areas space,
    area.shmid = some id ∧ area.start ≤ page ∧ page < area.stop

/-- A segment is there while it is not marked or is mapped, and not longer; a key names
the one live segment which was created with it and is not marked. -/
structure LifetimeRules (config : ShmConfig σ) : Prop where
  kept : ∀ id, id < config.shm.nextId ∧ config.shm.marked id = false ∨ config.Mapped id →
    config.shm.segments id ≠ none
  destroyed : ∀ id, config.shm.marked id = true → ¬config.Mapped id → config.shm.segments id = none
  keys : ∀ key id, config.shm.keyToId key = some id ↔
    key ≠ 0 ∧ ∃ seg, config.shm.segments id = some seg ∧ seg.key = key ∧
      config.shm.marked id = false

def held (config : ShmConfig σ) : List ℕ :=
  config.users.flatMap fun space => attached (config.areas space)

structure Counted (s : ShmConfig σ) : Prop where
  tracks : s.shm.Tracks s.held
  unused : ∀ space, space ∉ s.users → s.areas space = []
  proper : ∀ space, ∀ area ∈ s.areas space, area.shmid ≠ none → area.start < area.stop

variable {s : ShmConfig σ}

theorem Counted.mem_held_iff (hcounted : s.Counted) {id : ℕ} : id ∈ s.held ↔ s.Mapped id := by
  constructor
  · intro hid
    obtain ⟨space, -, hid⟩ := mem_flatMap.mp hid
    obtain ⟨area, harea, hshmid⟩ := mem_filterMap.mp hid
    have hproper := hcounted.proper space area harea (by simp [hshmid])
    exact ⟨space, area.start, area, harea, hshmid, le_rfl, hproper⟩
  · rintro ⟨space, page, area, harea, hshmid, -⟩
    refine mem_flatMap.mpr ⟨space, ?_, mem_filterMap.mpr ⟨area, harea, hshmid⟩⟩
    by_contra hunused
    simp [hcounted.unused space hunused] at harea

theorem counted_boot (first : σ) : (boot first).Counted := by
  refine ⟨fun id => ⟨?_, ?_, ?_, ?_⟩, ?_, ?_⟩ <;> simp [boot, held, attached]

theorem Counted.settle (hcounted : s.Counted) {result : Except SysError (ShmConfig σ)}
    (hresult : ∀ s', result = .ok s' → s'.Counted) : (s.settle result).Counted := by
  cases result with
  | error error => exact hcounted
  | ok s' => exact hresult s' rfl

theorem Counted.settleShm (hcounted : s.Counted) {α : Type*} {result : Except SysError α}
    {shm : α → ShmState} (hresult : ∀ value, result = .ok value → (shm value).Tracks s.held) :
    (s.settle (result.map fun value => { s with shm := shm value })).Counted := by
  cases result with
  | error error => exact hcounted
  | ok value => exact { hcounted with tracks := hresult value rfl }

end ShmConfig

variable [DecidableEq σ]

def ShmConfig.Private (config : ShmConfig σ) (space : σ) : Prop := config.users.count space ≤ 1

instance (config : ShmConfig σ) (space : σ) : Decidable (config.Private space) :=
  inferInstanceAs (Decidable (_ ≤ _))

/-- No area of a segment is split; in a shared address space no segment is attached or
detached; a segment is not marked again while its key names another one. -/
def ShmConfig.admits (config : ShmConfig σ) : ShmStep σ → Prop
  | .shmat space _ _ _ => config.Private space
  | .shmdt space _ => config.Private space
  | .rmid id => ∀ seg ∈ config.shm.segments id, seg.destroyed = true →
      config.shm.keyToId seg.key = none
  | .munmap space start len => ∀ area ∈ config.areas space, area.shmid ≠ none →
      (area.trim start (start + len)).length ≤ 1 ∧
        (area.trim start (start + len) = [] → config.Private space)
  | .mprotect space start len prot => ∀ area ∈ config.areas space, area.shmid ≠ none →
      (area.protect start (start + len) prot.fromProt).length ≤ 1
  | _ => True

instance (config : ShmConfig σ) (step : ShmStep σ) : Decidable (config.admits step) := by
  unfold ShmConfig.admits
  cases step <;> infer_instance

def Cuts (cut : Area → List Area) : Prop :=
  ∀ area, ∀ piece ∈ cut area,
    piece.shmid = area.shmid ∧ (area.start < area.stop → piece.start < piece.stop)

theorem cuts_trim (start stop : ℕ) : Cuts (Area.trim start stop) := by
  intro area piece hpiece
  simp only [Area.trim, Area.below, Area.above] at hpiece
  grind

theorem cuts_protect (start stop : ℕ) (perm : Perm) : Cuts (Area.protect start stop perm) := by
  intro area piece hpiece
  simp only [Area.protect, Area.below, Area.above] at hpiece
  grind

theorem Cuts.attached_perm {cut : Area → List Area} (hcuts : Cuts cut) {areas : List Area}
    (hwhole : ∀ area ∈ areas, area.shmid ≠ none → (cut area).length ≤ 1) :
    (attached areas).Perm
      (attached (areas.filter fun area => cut area = []) ++ attached (areas.flatMap cut)) := by
  induction areas with
  | nil => exact .rfl
  | cons area rest ih =>
    have ih := ih fun other hother => hwhole other (mem_cons_of_mem area hother)
    cases hshmid : area.shmid with
    | none =>
      have hnone : (cut area).filterMap Area.shmid = [] :=
        filterMap_eq_nil_iff.mpr fun piece hpiece =>
          (hcuts area piece hpiece).1.trans hshmid
      by_cases hgone : cut area = [] <;> simpa [attached, hshmid, hgone, hnone] using ih
    | some id =>
      have hlength := hwhole area mem_cons_self (by simp [hshmid])
      match hcut : cut area with
      | [] => simpa [attached, hshmid, hcut] using ih
      | [piece] =>
        have hpiece := (hcuts area piece (by simp [hcut])).1.trans hshmid
        simpa [attached, hshmid, hcut, hpiece] using (ih.cons id).trans perm_middle.symm
      | _ :: _ :: _ => simp [hcut] at hlength

namespace ShmConfig

variable {s : ShmConfig σ} {space : σ} {areas : List Area}

attribute [local simp] setAreas ShmConfig.enter

/-- `gone` is what the address space attaches no more. -/
theorem held_setAreas {gone : List ℕ} (hmem : space ∈ s.users)
    (hperm : (attached (s.areas space)).Perm (gone ++ attached areas))
    (hprivate : gone = [] ∨ s.Private space) :
    s.held.Perm (gone ++ (s.setAreas space areas).held) := by
  rcases hprivate with rfl | hprivate
  · refine Perm.flatMap_left _ fun other _ => ?_
    by_cases hsame : other = space
    · simpa [hsame] using hperm
    · simp [hsame]
  · have hrest (f g : σ → List ℕ) (hsame : ∀ other, other ≠ space → f other = g other) :
        (s.users.erase space).flatMap f = (s.users.erase space).flatMap g := by
      refine flatMap_congr fun other hother => hsame other ?_
      rintro rfl
      have hcount := count_pos_iff.mpr hother
      rw [count_erase_self] at hcount
      exact absurd hprivate (by unfold Private; omega)
    have hsplit := fun f : σ → List ℕ => (perm_cons_erase hmem).flatMap_right f
    refine (hsplit _).trans (.trans ?_ ((hsplit _).symm.append_left gone))
    have hothers := hrest (fun other => attached ((s.setAreas space areas).areas other))
      (fun other => attached (s.areas other)) fun other hne => by simp [hne]
    have hself : (s.setAreas space areas).areas space = areas := update_self ..
    rw [flatMap_cons, flatMap_cons, hothers, hself, ← append_assoc]
    exact hperm.append_right _

section

variable (hcounted : s.Counted)
include hcounted

theorem Counted.replace (hmem : space ∈ s.users) {shm : ShmState}
    (htracks : shm.Tracks (s.setAreas space areas).held)
    (hproper : ∀ area ∈ areas, area.shmid ≠ none → area.start < area.stop) :
    Counted { s.setAreas space areas with shm := shm } where
  tracks := htracks
  unused other hother := by
    have hne : other ≠ space := fun hsame => hother (hsame ▸ hmem)
    simpa [hne] using hcounted.unused other hother
  proper other := by
    by_cases hsame : other = space
    · simpa [hsame] using hproper
    · simpa [hsame] using hcounted.proper other

theorem Counted.cut (hmem : space ∈ s.users) {cut : Area → List Area} (hcuts : Cuts cut)
    (hwhole : ∀ area ∈ s.areas space, area.shmid ≠ none →
      (cut area).length ≤ 1 ∧ (cut area = [] → s.Private space)) :
    Counted { s.setAreas space ((s.areas space).flatMap cut) with
      shm := s.shm.release ((s.areas space).filter fun area => cut area = []) } := by
  have hperm := hcuts.attached_perm fun area harea hshmid => (hwhole area harea hshmid).1
  refine hcounted.replace hmem (hcounted.tracks.of_perm (held_setAreas hmem hperm ?_)).release ?_
  · by_cases hprivate : s.Private space
    · exact .inr hprivate
    · refine .inl (filterMap_eq_nil_iff.mpr fun area harea => ?_)
      obtain ⟨harea, hgone⟩ := mem_filter.mp harea
      by_contra hshmid
      exact hprivate ((hwhole area harea hshmid).2 (of_decide_eq_true hgone))
  · intro piece hpiece hshmid
    obtain ⟨area, harea, hpiece⟩ := mem_flatMap.mp hpiece
    obtain ⟨hsame, hproper⟩ := hcuts area piece hpiece
    exact hproper (hcounted.proper space area harea (hsame ▸ hshmid))

theorem Counted.enter (hattached : ∀ id ∈ attached areas, id ∈ s.held)
    (hproper : ∀ area ∈ areas, area.shmid ≠ none → area.start < area.stop)
    (hspace : space ∉ s.users ∨ areas = s.areas space) :
    (s.enter space areas).Counted := by
  have hheld : (s.enter space areas).held = attached areas ++ s.held := by
    rw [held, held, ShmConfig.enter, flatMap_cons]
    congr 1
    · simp
    · refine flatMap_congr fun other hother => ?_
      by_cases hsame : other = space
      · subst hsame
        simp [setAreas, hspace.resolve_left (not_not_intro hother)]
      · simp [hsame]
  refine ⟨hheld ▸ hcounted.tracks.inherit hattached, fun other hother => ?_, fun other => ?_⟩
  · obtain ⟨hne, hother⟩ : other ≠ space ∧ other ∉ s.users := by
      simpa using hother
    simpa [hne] using hcounted.unused other hother
  · by_cases hsame : other = space
    · simpa [hsame] using hproper
    · simpa [hsame] using hcounted.proper other

theorem Counted.leave (hmem : space ∈ s.users) : (s.leave space).Counted := by
  have hareas (other : σ) (hother : other = space → space ∈ s.users.erase space) :
      (s.leave space).areas other = s.areas other := by
    by_cases hsame : other = space
    · simp [ShmConfig.leave, hsame, hother hsame]
    · simp [ShmConfig.leave, hsame]
  have hheld : s.held.Perm (attached (s.areas space) ++ (s.leave space).held) := by
    refine ((perm_cons_erase hmem).flatMap_right _).trans ?_
    rw [flatMap_cons]
    refine .append_left _ (.of_eq (flatMap_congr fun other hother => ?_))
    rw [hareas other fun hsame => hsame ▸ hother]
  refine ⟨(hcounted.tracks.of_perm hheld).release, fun other hother => ?_, fun other => ?_⟩
  · by_cases hsame : other = space
    · subst hsame
      simp [ShmConfig.leave, show other ∉ s.users.erase other from hother]
    · rw [hareas other (absurd · hsame)]
      exact hcounted.unused other fun h => hother ((mem_erase_of_ne hsame).mpr h)
  · by_cases hsame : other = space → space ∈ s.users.erase space
    · simpa [hareas other hsame] using hcounted.proper other
    · obtain ⟨rfl, hlast⟩ := Classical.not_imp.mp hsame
      simp [ShmConfig.leave, hlast]

theorem Counted.shmat (hmem : space ∈ s.users) (hprivate : s.Private space)
    {mmapBase id : ℕ} {addr : Option ℕ} {readonly : Bool} {s' : ShmConfig σ}
    (hafter : s.shmat mmapBase space id addr readonly = .ok s') : s'.Counted := by
  unfold ShmConfig.shmat at hafter
  split at hafter
  · simp at hafter
  next seg hseg =>
  split at hafter
  · simp at hafter
  next start _ =>
  split_ifs at hafter with hrange
  rw [← Except.ok.inj hafter]
  set areas := (s.areas space).takeWhile (·.start < start) ++
    ⟨start, start + seg.pages, ⟨true, !readonly, false⟩, some id⟩ ::
      (s.areas space).dropWhile (·.start < start) with hareas
  have hperm : areas.Perm
      (⟨start, start + seg.pages, ⟨true, !readonly, false⟩, some id⟩ :: s.areas space) := by
    refine perm_middle.trans (.cons _ (.of_eq ?_))
    exact takeWhile_append_dropWhile
  refine hcounted.replace hmem ((hcounted.tracks.attach hseg).of_perm ?_) fun other hother => ?_
  · have hback : (s.setAreas space areas).held.Perm
        ([id] ++ ((s.setAreas space areas).setAreas space (s.areas space)).held) := by
      refine held_setAreas hmem ?_ (.inr hprivate)
      have hattached : (attached areas).Perm ([id] ++ attached (s.areas space)) :=
        hperm.filterMap Area.shmid
      simpa only [setAreas, update_self] using hattached
    simpa using hback.symm
  · rcases mem_cons.mp (hperm.mem_iff.mp hother) with rfl | hother
    · exact fun _ => hrange.1
    · exact hcounted.proper space other hother

theorem Counted.shmdt (hmem : space ∈ s.users) (hprivate : s.Private space) {addr : ℕ}
    {s' : ShmConfig σ} (hafter : s.shmdt space addr = .ok s') : s'.Counted := by
  unfold ShmConfig.shmdt at hafter
  split at hafter
  · simp at hafter
  next area hfind =>
  rw [← Except.ok.inj hafter]
  have hperm := (perm_cons_erase (mem_of_find?_eq_some hfind)).filterMap Area.shmid
  rw [← singleton_append, filterMap_append] at hperm
  have hheld := held_setAreas hmem hperm (.inr hprivate)
  exact hcounted.replace hmem (hcounted.tracks.of_perm hheld).release fun other hother =>
    hcounted.proper space other (mem_of_mem_erase hother)

theorem Counted.next {mmapBase : ℕ} {step : ShmStep σ} {s' : ShmConfig σ} (hadmits : s.admits step)
    (hnext : s.next mmapBase step = some s') : s'.Counted := by
  cases step with
  | shmget key size create excl granted =>
    rw [← some.inj hnext]
    exact hcounted.settleShm fun _ => hcounted.tracks.shmget
  | rmid id =>
    rw [← some.inj hnext]
    exact hcounted.settleShm fun _ hresult => hcounted.tracks.rmid hresult hadmits
  | shmat space id addr readonly =>
    obtain ⟨hmem, ⟨⟩⟩ := ite_none_right_eq_some.mp hnext
    exact hcounted.settle fun _ => hcounted.shmat hmem hadmits
  | shmdt space addr =>
    obtain ⟨hmem, ⟨⟩⟩ := ite_none_right_eq_some.mp hnext
    exact hcounted.settle fun _ => hcounted.shmdt hmem hadmits
  | munmap space start len =>
    obtain ⟨hmem, ⟨⟩⟩ := ite_none_right_eq_some.mp hnext
    refine hcounted.settle fun s' hafter => ?_
    unfold ShmConfig.munmap at hafter
    split_ifs at hafter
    rw [← Except.ok.inj hafter]
    exact hcounted.cut hmem (cuts_trim start (start + len)) hadmits
  | mprotect space start len prot =>
    obtain ⟨hmem, ⟨⟩⟩ := ite_none_right_eq_some.mp hnext
    refine hcounted.settle fun s' hafter => ?_
    dsimp only [ShmConfig.mprotect] at hafter
    split_ifs at hafter
    · exact Except.ok.inj hafter ▸ hcounted
    rw [← Except.ok.inj hafter]
    have hkept (area : Area) : area.protect start (start + len) prot.fromProt ≠ [] := by
      unfold Area.protect
      split <;> simp
    have hcut := hcounted.cut hmem (cuts_protect start (start + len) prot.fromProt)
      fun area harea hshmid => ⟨hadmits area harea hshmid, fun h => absurd h (hkept area)⟩
    simp only [hkept, decide_false, filter_false] at hcut
    exact hcut
  | fork space child =>
    obtain ⟨⟨hmem, hchild⟩, ⟨⟩⟩ := ite_none_right_eq_some.mp hnext
    exact hcounted.enter (fun id hid => mem_flatMap.mpr ⟨space, hmem, hid⟩)
      (hcounted.proper space) (.inl hchild)
  | cloneVm space =>
    obtain ⟨hmem, ⟨⟩⟩ := ite_none_right_eq_some.mp hnext
    exact hcounted.enter (fun id hid => mem_flatMap.mpr ⟨space, hmem, hid⟩)
      (hcounted.proper space) (.inr rfl)
  | exec space fresh image =>
    obtain ⟨⟨hmem, hfresh⟩, ⟨⟩⟩ := ite_none_right_eq_some.mp hnext
    refine (hcounted.leave hmem).enter ?_ ?_ (.inl fun h => hfresh (mem_of_mem_erase h))
    · simp [attached]
    · simp
  | exit space =>
    obtain ⟨hmem, ⟨⟩⟩ := ite_none_right_eq_some.mp hnext
    exact hcounted.leave hmem

end

theorem lifetimeRules_of_reachable (mmapBase : ℕ) (first : σ) {config : ShmConfig σ}
    (hreach : Reachable (next mmapBase) admits (boot first) config) : config.LifetimeRules := by
  have hcounted : config.Counted := hreach.invariant (counted_boot first)
    fun _ _ _ hcounted hadmits hnext => hcounted.next hadmits hnext
  refine ⟨fun id hid hnone => ?_, fun id hmarked hunmapped => ?_, fun key id => ?_⟩
  · obtain ⟨hcount, hmarked⟩ := (hcounted.tracks id).absent hnone
    rcases hid with ⟨hborn, hunmarked⟩ | hmapped
    · simp [hmarked hborn] at hunmarked
    · exact count_eq_zero.mp hcount (hcounted.mem_held_iff.mpr hmapped)
  · by_contra hsome
    obtain ⟨seg, hseg⟩ := ne_none_iff_exists'.mp hsome
    have hcount := ((hcounted.tracks id).counted seg hseg).2.2 hmarked
    exact hunmapped (hcounted.mem_held_iff.mp (count_pos_iff.mp (Nat.pos_of_ne_zero hcount)))
  · exact (hcounted.tracks id).keyed key

/-- A segment of three pages is attached, inherited and marked. -/
def markedSteps : List (ShmStep (Fin 3)) :=
  [.shmget 0 12288 true false true, .shmat i₀ 0 (some 16) false, .fork i₀ i₁, .rmid 0]

theorem lifetimeRules_trimmed : ∃ config : ShmConfig (Fin 3),
    config.LifetimeRules ∧ config.shm.segments 0 = some ⟨0, 3, 2, true⟩ := by
  obtain ⟨config, hreach, hsegment⟩ : ∃ config : ShmConfig (Fin 3),
      Reachable (next 64) admits (boot 0) config ∧ config.shm.segments 0 = some ⟨0, 3, 2, true⟩ :=
    exists_reachable_of_runSteps (markedSteps ++ [.munmap 0 18 1, .cloneVm 1, .exit 0])
      (by decide +kernel)
  exact ⟨config, lifetimeRules_of_reachable 64 0 hreach, hsegment⟩

theorem not_lifetimeRules_of_hole : ∃ config : ShmConfig (Fin 3),
    Reachable (next 64) always (boot 0) config ∧ ¬config.LifetimeRules := by
  obtain ⟨config, hreach, hnone, area, harea, hshmid, hproper⟩ : ∃ config : ShmConfig (Fin 3),
      Reachable (next 64) always (boot 0) config ∧ config.shm.segments 0 = none ∧
        ∃ area ∈ config.areas 1, area.shmid = some 0 ∧ area.start < area.stop :=
    exists_reachable_of_runSteps (markedSteps ++ [.munmap 0 17 1, .exit 0]) (by decide +kernel)
  refine ⟨config, hreach, fun hrules => hrules.kept 0 (.inr ?_) hnone⟩
  exact ⟨1, area.start, area, harea, hshmid, le_rfl, hproper⟩

end ShmConfig

end Kairix.SharedMemory
