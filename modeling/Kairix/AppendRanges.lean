import Kairix.MachineWord
import Kairix.BlockStore
import Kairix.LabelledRun
import Kairix.RangeLedger

/-!
# Appending writes to one inode

`Ext4File::write` on any number of open file descriptions of one inode.  The lock of a
description is held from the check of the inode flags to the store of the offset; the
size of the inode has a lock of its own which is taken for each access.
-/

namespace Kairix.AppendWrites

open LabelledRun Function Finset

/-- What a write has taken for itself under the lock of its description. -/
structure Reservation (δ : Type*) where
  file : δ
  since : ℕ
  requestLen : ℕ
  oldSize : ℕ
  startOffset : ℕ
  reservedEnd : ℕ
  sizeReserved : Bool

/-- Where a task is in `write`.  `copied` and `settled` carry how much has been written;
nothing written of a longer request is an error. -/
inductive Stage (δ : Type*) where
  | idle
  | locked (file : δ) (since requestLen : ℕ)
  | sized (file : δ) (since requestLen oldSize : ℕ)
  | reserved (reservation : Reservation δ)
  | copied (reservation : Reservation δ) (total : ℕ)
  | settled (reservation : Reservation δ) (total : ℕ) (owns : Bool)

def Stage.Undecided {δ : Type*} : Stage δ → Bool
  | .sized .. => true
  | _ => false

structure Written where
  since : ℕ
  upto : ℕ
  start : ℕ
  length : ℕ

structure FileConfig (τ δ : Type*) where
  size : Timeline Unit ℕ
  offset : δ → ℕ
  holder : δ → Option τ
  stage : τ → Stage δ
  written : List Written

inductive FileStep (τ δ : Type*) where
  | lock (task : τ) (file : δ) (requestLen : ℕ)
  | readSize (task : τ)
  | reserve (task : τ)
  | copy (task : τ) (total : ℕ)
  | settle (task : τ)
  | restore (task : τ)

def getSize (size : Timeline Unit ℕ) : ℕ := size.current ()

def extendSize (size : Timeline Unit ℕ) (minimumSize : ℕ) : Timeline Unit ℕ :=
  if getSize size < minimumSize then size.store () minimumSize else size

def replaceSizeIfCurrent (size : Timeline Unit ℕ) (expectedSize replacementSize : ℕ) :
    Timeline Unit ℕ :=
  if getSize size = expectedSize then size.store () replacementSize else size

namespace Reservation

variable {δ : Type*}

def reserveSize (taken : Reservation δ) (size : Timeline Unit ℕ) : Timeline Unit ℕ :=
  if taken.sizeReserved = true then extendSize size taken.reservedEnd else size

/-- `finish_cached_write` publishes the size which the written bytes need. -/
def finishCachedWrite (taken : Reservation δ) (total : ℕ) (size : Timeline Unit ℕ) :
    Timeline Unit ℕ :=
  if (total ≠ 0 ∨ taken.requestLen = 0) ∧ taken.oldSize < taken.startOffset + total then
    extendSize size (taken.startOffset + total)
  else size

/-- A short write or an error gives back the reserved size. -/
def restoreSize (taken : Reservation δ) (total : ℕ) (owns : Bool) (size : Timeline Unit ℕ) :
    Timeline Unit ℕ :=
  if taken.sizeReserved = true ∧ owns = true then
    replaceSizeIfCurrent size taken.reservedEnd
      (if total = 0 then taken.oldSize else max taken.oldSize (taken.startOffset + total))
  else size

end Reservation

namespace FileConfig

variable {τ δ : Type*} [DecidableEq τ] [DecidableEq δ]

variable (config s : FileConfig τ δ) (task : τ)

def setStage (stage : Stage δ) : FileConfig τ δ :=
  { config with stage := Function.update config.stage task stage }

def setHolder (file : δ) (holder : Option τ) : FileConfig τ δ :=
  { config with holder := Function.update config.holder file holder }

def setOffset (file : δ) (offset : ℕ) : FileConfig τ δ :=
  { config with offset := Function.update config.offset file offset }

def start (initial : ℕ) : FileConfig τ δ where
  size := ⟨fun _ _ => initial, 0⟩
  offset _ := 0
  holder _ := none
  stage _ := .idle
  written := []

/-- Take the lock of the description; a flagged inode answers `EPERM`. -/
def lock (flagged : Bool) (config : FileConfig τ δ) (task : τ) (file : δ) (requestLen : ℕ) :
    Option (FileConfig τ δ) :=
  match config.stage task with
  | .idle =>
    if config.holder file = none ∧ flagged = false then
      some ((config.setHolder file (some task)).setStage task
        (.locked file config.size.now requestLen))
    else none
  | _ => none

def readSize : Option (FileConfig τ δ) :=
  match config.stage task with
  | .locked file since requestLen =>
    some (config.setStage task (.sized file since requestLen (getSize config.size)))
  | _ => none

def reservation (append : δ → Bool) (config : FileConfig τ δ) (file : δ)
    (since requestLen oldSize : ℕ) : Reservation δ :=
  let startOffset := if append file = true then oldSize else config.offset file
  { file := file
    since := since
    requestLen := requestLen
    oldSize := oldSize
    startOffset := startOffset
    reservedEnd := startOffset + requestLen
    sizeReserved := append file && decide (oldSize < startOffset + requestLen) }

/-- Reserve the range and release the description; too large an end is `EFBIG`. -/
def reserve (append : δ → Bool) (config : FileConfig τ δ) (task : τ) : Option (FileConfig τ δ) :=
  match config.stage task with
  | .sized file since requestLen oldSize =>
    let taken := config.reservation append file since requestLen oldSize
    let released := config.setHolder file none
    if taken.reservedEnd < usizeLimit then
      some { (released.setOffset file taken.reservedEnd).setStage task (.reserved taken) with
        size := taken.reserveSize config.size }
    else some (released.setStage task .idle)
  | _ => none

def finish (taken : Reservation δ) (total : ℕ) : FileConfig τ δ :=
  { config.setStage task .idle with
    written :=
      if total ≠ 0 ∨ taken.requestLen = 0 then
        ⟨taken.since, config.size.now, taken.startOffset, total⟩ :: config.written
      else config.written }

/-- `write_cached_at` puts a part of the request into the page cache. -/
def copy (total : ℕ) : Option (FileConfig τ δ) :=
  match config.stage task with
  | .reserved taken =>
    if total ≤ taken.requestLen then
      let published := { config with size := taken.finishCachedWrite total config.size }
      some (if total = taken.requestLen then published.finish task taken total
        else published.setStage task (.copied taken total))
    else none
  | _ => none

/-- After a short write or an error: give back the offset under the lock of the
description, if it is still the one of this call. -/
def settle : Option (FileConfig τ δ) :=
  match config.stage task with
  | .copied taken total =>
    if config.holder taken.file = none then
      if config.offset taken.file = taken.reservedEnd then
        some ((config.setOffset taken.file (taken.startOffset + total)).setStage task
          (.settled taken total true))
      else some (config.setStage task (.settled taken total false))
    else none
  | _ => none

def restore : Option (FileConfig τ δ) :=
  match config.stage task with
  | .settled taken total owns =>
    some ({ config with size := taken.restoreSize total owns config.size }.finish task taken
      total)
  | _ => none

def next (flagged : Bool) (append : δ → Bool) (config : FileConfig τ δ) :
    FileStep τ δ → Option (FileConfig τ δ)
  | .lock task file requestLen => config.lock flagged task file requestLen
  | .readSize task => config.readSize task
  | .reserve task => config.reserve append task
  | .copy task total => config.copy task total
  | .settle task => config.settle task
  | .restore task => config.restore task

/-- The size is read or given back only while no task is between reading the size and
reserving its range. -/
def Atomic : FileStep τ δ → Prop
  | .readSize _ | .restore _ => ∀ task, (config.stage task).Undecided = false
  | _ => True

instance [Fintype τ] (config : FileConfig τ δ) (label : FileStep τ δ) :
    Decidable (config.Atomic label) := by
  unfold Atomic
  cases label <;> infer_instance

end FileConfig

/-! ## Ranges of appending writes

If the size is read and extended as one section, the ranges of appending writes are a
ledger which grows at the end of the file. -/

theorem extends_extendSize (size : Timeline Unit ℕ) (minimumSize : ℕ) :
    size.Extends (extendSize size minimumSize) := by
  rw [extendSize]
  split_ifs
  · exact size.extends_store _ _
  · exact .refl _

theorem getSize_extendSize (size : Timeline Unit ℕ) (minimumSize : ℕ) :
    getSize (extendSize size minimumSize) = max (getSize size) minimumSize := by
  rw [extendSize]
  split_ifs with hless
  · simp [getSize, Timeline.current, Timeline.store] at hless ⊢
    omega
  · omega

variable {τ δ : Type*}

theorem Reservation.extends_reserveSize (taken : Reservation δ) (size : Timeline Unit ℕ) :
    size.Extends (taken.reserveSize size) := by
  rw [reserveSize]
  split_ifs
  · exact extends_extendSize _ _
  · exact .refl _

theorem Reservation.extends_restoreSize (taken : Reservation δ) (total : ℕ) (owns : Bool)
    (size : Timeline Unit ℕ) : size.Extends (taken.restoreSize total owns size) := by
  rw [restoreSize, replaceSizeIfCurrent]
  split_ifs
  · exact size.extends_store _ _
  · exact size.extends_store _ _
  · exact .refl _
  · exact .refl _

/-! ## The invariant -/

def Stage.claim : Stage δ → Finset ℕ
  | .reserved taken | .copied taken _ | .settled taken _ _ =>
    Ico taken.startOffset taken.reservedEnd
  | _ => ∅

def Written.bytes (write : Written) : Finset ℕ :=
  Ico write.start (write.start + write.length)

/-- An appending write reserves what follows the size which it has read. -/
structure Reservation.Appends (taken : Reservation δ) (size : Timeline Unit ℕ) : Prop where
  start : taken.startOffset = taken.oldSize
  stop : taken.reservedEnd = taken.startOffset + taken.requestLen
  reserved : taken.sizeReserved = true → taken.requestLen ≠ 0
  held : size.Held taken.since size.now () taken.startOffset

namespace Reservation.Appends

variable {taken : Reservation δ} {size : Timeline Unit ℕ}

theorem finishCachedWrite_eq (happends : taken.Appends size) {total : ℕ}
    (htotal : total ≤ taken.requestLen)
    (hwithin : Ico taken.startOffset taken.reservedEnd ⊆ Iio (getSize size)) :
    taken.finishCachedWrite total size = size := by
  have hstart := happends.start
  have hstop := happends.stop
  rw [finishCachedWrite]
  split_ifs with hlonger
  · have hlast := hwithin (mem_Ico.mpr
      (⟨by omega, by omega⟩ : taken.startOffset ≤ taken.reservedEnd - 1 ∧ _))
    rw [mem_Iio] at hlast
    rw [extendSize, if_neg (by omega)]
  · rfl

theorem restoreSize_cases (happends : taken.Appends size) (total : ℕ) (owns : Bool) :
    taken.restoreSize total owns size = size ∨
      taken.requestLen ≠ 0 ∧ getSize size = taken.reservedEnd ∧
        getSize (taken.restoreSize total owns size) = taken.startOffset + total := by
  have hreplacement : (if total = 0 then taken.oldSize
      else max taken.oldSize (taken.startOffset + total)) = taken.startOffset + total := by
    have hstart := happends.start
    split_ifs <;> omega
  rw [restoreSize, hreplacement, replaceSizeIfCurrent]
  split_ifs with hreserved hcurrent
  · refine .inr ⟨happends.reserved hreserved.1, hcurrent, ?_⟩
    simp only [getSize, Timeline.current, Timeline.store, update_self]
  · exact .inl rfl
  · exact .inl rfl

end Reservation.Appends

def StageOk (size : Timeline Unit ℕ) : Stage δ → Prop
  | .idle => True
  | .locked _ since _ => since ≤ size.now
  | .sized _ since _ oldSize => since ≤ size.now ∧ oldSize = getSize size
  | .reserved taken => taken.Appends size
  | .copied taken total => taken.Appends size ∧ total < taken.requestLen
  | .settled taken total _ => taken.Appends size ∧ total < taken.requestLen

def WrittenOk (size : Timeline Unit ℕ) (write : Written) : Prop :=
  write.upto ≤ size.now ∧ size.Held write.since write.upto () write.start

variable {size further : Timeline Unit ℕ}

theorem Reservation.Appends.later {taken : Reservation δ} (happends : taken.Appends size)
    (hext : size.Extends further) : taken.Appends further :=
  ⟨happends.start, happends.stop, happends.reserved,
    happends.held.extends (Nat.le_refl _) hext.now_le hext⟩

theorem StageOk.later {stage : Stage δ} (hstage : StageOk size stage) (hext : size.Extends further)
    (hdecided : stage.Undecided = false) : StageOk further stage := by
  cases stage with
  | idle => trivial
  | locked file since requestLen => exact Nat.le_trans hstage hext.now_le
  | sized file since requestLen oldSize => simp [Stage.Undecided] at hdecided
  | reserved taken => exact Reservation.Appends.later hstage hext
  | copied taken total | settled taken total owns => exact ⟨hstage.1.later hext, hstage.2⟩

theorem WrittenOk.later {write : Written} (hwrite : WrittenOk size write)
    (hext : size.Extends further) : WrittenOk further write :=
  ⟨hwrite.1.trans hext.now_le, hwrite.2.extends hwrite.1 (Nat.le_refl _) hext⟩

namespace FileConfig

structure Inv (initial : ℕ) (s : FileConfig τ δ) : Prop where
  ledger : RangeLedger initial (getSize s.size) (fun task => (s.stage task).claim)
    (s.written.map Written.bytes)
  stages : ∀ task, StageOk s.size (s.stage task)
  lone : ∀ task other, (s.stage task).Undecided = true →
    (s.stage other).Undecided = true → task = other
  written : ∀ write ∈ s.written, WrittenOk s.size write

variable [DecidableEq τ] {config s s' : FileConfig τ δ} {initial : ℕ}

attribute [local simp] setStage

variable {task : τ} {stage : Stage δ}

section

variable (hinv : s.Inv initial)
include hinv

theorem lone_setStage
    (hdecided : stage.Undecided = true → ∀ other, (s.stage other).Undecided = false) :
    ∀ one two, ((s.setStage task stage).stage one).Undecided = true →
      ((s.setStage task stage).stage two).Undecided = true → one = two := by
  intro one two hone htwo
  by_cases hone' : one = task <;> by_cases htwo' : two = task
  · exact hone'.trans htwo'.symm
  · simp only [setStage, hone', update_self] at hone
    simp [htwo', hdecided hone two] at htwo
  · simp only [setStage, htwo', update_self] at htwo
    simp [hone', hdecided htwo one] at hone
  · simp only [setStage, update_of_ne hone'] at hone
    simp only [setStage, update_of_ne htwo'] at htwo
    exact hinv.lone one two hone htwo

theorem Inv.moves {size : Timeline Unit ℕ} {written : List Written}
    (hledger : RangeLedger initial (getSize size)
      (update (fun other => (s.stage other).claim) task stage.claim)
        (written.map Written.bytes)) (hext : s.size.Extends size) (hstage : StageOk size stage)
    (hsame : size = s.size ∨ ∀ other, other ≠ task → (s.stage other).Undecided = false)
    (hdecided : stage.Undecided = true → ∀ other, (s.stage other).Undecided = false)
    (hwritten : ∀ write ∈ written, write ∈ s.written ∨ WrittenOk size write) :
    { s.setStage task stage with size := size, written := written }.Inv initial where
  ledger := by
    change RangeLedger initial (getSize size) (Stage.claim ∘ update s.stage task stage) _
    rw [Function.comp_update]
    exact hledger
  stages := by
    intro other
    by_cases hother : other = task
    · subst hother
      simpa using hstage
    · have hkept : StageOk size (s.stage other) := by
        rcases hsame with rfl | hdecided
        · exact hinv.stages other
        · exact (hinv.stages other).later hext (hdecided other hother)
      simpa [hother] using hkept
  lone := lone_setStage hinv hdecided
  written := by
    intro write hwrite
    rcases hwritten write hwrite with hold | hnew
    · exact (hinv.written write hold).later hext
    · exact hnew

theorem Inv.setStage (hclaim : stage.claim = (s.stage task).claim) (hstage : StageOk s.size stage)
    (hdecided : stage.Undecided = true → ∀ other, (s.stage other).Undecided = false) :
    (s.setStage task stage).Inv initial := by
  have hledger := hinv.ledger
  rw [← update_eq_self task fun other => (s.stage other).claim, ← hclaim] at hledger
  exact hinv.moves hledger (.refl _) hstage (.inl rfl) hdecided fun write hwrite => .inl hwrite

theorem Inv.finish {taken : Reservation δ} {total : ℕ}
    {size : Timeline Unit ℕ} (hext : s.size.Extends size)
    (hsame : size = s.size ∨ ∀ other, other ≠ task → (s.stage other).Undecided = false)
    (hclaim : (s.stage task).claim = Ico taken.startOffset taken.reservedEnd)
    (happends : taken.Appends s.size) (htotal : total ≤ taken.requestLen)
    (hinitial : initial ≤ getSize size)
    (hwithin : Ico taken.startOffset (taken.startOffset + total) ⊆ Ico initial (getSize size))
    (hgap : Ico (getSize size) (getSize s.size) ⊆ Ico taken.startOffset taken.reservedEnd) :
    ({ s with size := size }.finish task taken total).Inv initial := by
  have hpart : Ico taken.startOffset (taken.startOffset + total) ⊆ (s.stage task).claim := by
    rw [hclaim, happends.stop]
    exact Ico_subset_Ico_right (by omega)
  rw [← hclaim] at hgap
  refine hinv.moves ?_ hext trivial hsame (fun hidle => by simp [Stage.Undecided] at hidle) ?_
  · split_ifs
    · exact hinv.ledger.complete hpart hwithin hinitial hgap
    · exact hinv.ledger.release hinitial hgap
  · intro write hwrite
    split_ifs at hwrite
    · rcases List.mem_cons.mp hwrite with rfl | hwrite
      · exact .inr ⟨Nat.le_refl _, happends.held.extends (Nat.le_refl _) hext.now_le hext⟩
      · exact .inl hwrite
    · exact .inl hwrite

end

/-! ## The steps -/

variable [DecidableEq δ]

theorem Inv.lock (hinv : s.Inv initial) {flagged : Bool} {file : δ} {requestLen : ℕ}
    (hstep : s.lock flagged task file requestLen = some s') : s'.Inv initial := by
  simp only [FileConfig.lock] at hstep
  split at hstep
  · next hidle =>
    split_ifs at hstep
    cases hstep
    have hheld : (s.setHolder file (some task)).Inv initial := { hinv with }
    exact hheld.setStage (by simp [setHolder, hidle, Stage.claim]) (Nat.le_refl _)
      (fun hlocked => by simp [Stage.Undecided] at hlocked)
  · cases hstep

omit [DecidableEq δ] in
theorem Inv.readSize (hinv : s.Inv initial) (hatomic : ∀ other, (s.stage other).Undecided = false)
    (hstep : s.readSize task = some s') : s'.Inv initial := by
  have hok := hinv.stages task
  simp only [FileConfig.readSize] at hstep
  split at hstep <;> cases hstep
  next hlocked =>
    rw [hlocked] at hok
    exact hinv.setStage (by rw [hlocked]; rfl) ⟨hok, rfl⟩ fun _ => hatomic

omit [DecidableEq τ] [DecidableEq δ] in
theorem getSize_reserveSize (s : FileConfig τ δ) (file : δ) (since requestLen : ℕ) :
    getSize ((s.reservation (fun _ => true) file since requestLen
      (getSize s.size)).reserveSize s.size) = getSize s.size + requestLen := by
  simp only [Reservation.reserveSize, reservation, if_true, Bool.true_and, decide_eq_true_eq]
  split_ifs with hlonger
  · rw [getSize_extendSize]
    omega
  · omega

section

variable (hinv : s.Inv initial)
include hinv

omit [DecidableEq τ] [DecidableEq δ] in
theorem Inv.others_decided (hundecided : (s.stage task).Undecided = true) :
    ∀ other, other ≠ task → (s.stage other).Undecided = false := by
  intro other hother
  by_contra hboth
  exact hother (hinv.lone other task (by simpa using hboth) hundecided)

theorem Inv.reserve (hstep : s.reserve (fun _ => true) task = some s') : s'.Inv initial := by
  have hok := hinv.stages task
  simp only [FileConfig.reserve] at hstep
  split at hstep
  · next file since requestLen oldSize hsized =>
    have hundecided : (s.stage task).Undecided = true := by rw [hsized]; rfl
    have hclaim : (s.stage task).claim = ∅ := by rw [hsized]; rfl
    rw [hsized] at hok
    obtain ⟨hsince, rfl⟩ := hok
    split_ifs at hstep with hend <;> cases hstep
    · have hmoved : ((s.setHolder file none).setOffset file
          (getSize s.size + requestLen)).Inv initial := { hinv with }
      have hsize := s.getSize_reserveSize file since requestLen
      have hext := (s.reservation (fun _ => true) file since requestLen
        (getSize s.size)).extends_reserveSize s.size
      refine hmoved.moves ?_ hext ?_ (.inr (hinv.others_decided hundecided))
        (fun hreserved => by simp [Stage.Undecided] at hreserved) fun write hwrite => .inl hwrite
      · rw [hsize]
        exact hinv.ledger.extend (Nat.le_add_right _ requestLen)
      · exact ⟨rfl, rfl,
          fun hreserved => (by simpa [reservation] using hreserved : 0 < requestLen).ne',
          (s.size.held_current hsince ()).extends (Nat.le_refl _) hext.now_le hext⟩
    · have hfree : (s.setHolder file none).Inv initial := { hinv with }
      have hidle : (Stage.idle : Stage δ).claim =
          ((s.setHolder file none).stage task).claim := hclaim.symm
      exact hfree.setStage hidle trivial fun hidle => by simp [Stage.Undecided] at hidle
  · cases hstep

omit [DecidableEq δ] in
theorem Inv.copy {total : ℕ} (hstep : s.copy task total = some s') : s'.Inv initial := by
  have hok := hinv.stages task
  have hwithin := hinv.ledger.claim_within task
  simp only [FileConfig.copy] at hstep
  split at hstep
  · next taken hreserved =>
    have hclaim : (s.stage task).claim = Ico taken.startOffset taken.reservedEnd := by
      rw [hreserved]
      rfl
    rw [hclaim] at hwithin
    rw [hreserved] at hok
    have happends : taken.Appends s.size := hok
    by_cases htotal : total ≤ taken.requestLen
    · have hbelow : Ico taken.startOffset taken.reservedEnd ⊆ Iio (getSize s.size) :=
        hwithin.trans fun place hplace => mem_Iio.mpr (mem_Ico.mp hplace).2
      rw [if_pos htotal, happends.finishCachedWrite_eq htotal hbelow] at hstep
      split_ifs at hstep with hfull <;> cases hstep
      · have hpart : Ico taken.startOffset (taken.startOffset + total) ⊆
            Ico taken.startOffset taken.reservedEnd := by
          rw [happends.stop]
          exact Ico_subset_Ico_right (by omega)
        exact hinv.finish (.refl _) (.inl rfl) hclaim happends htotal hinv.ledger.first_le
          (hpart.trans hwithin) (by simp)
      · have hcopied : StageOk s.size (.copied taken total) := ⟨happends, by omega⟩
        exact hinv.setStage hclaim.symm hcopied fun hcopied => by
          simp [Stage.Undecided] at hcopied
    · rw [if_neg htotal] at hstep
      cases hstep
  · cases hstep

theorem Inv.settle (hstep : s.settle task = some s') : s'.Inv initial := by
  have hok := hinv.stages task
  simp only [FileConfig.settle] at hstep
  split at hstep
  · next taken total hcopied =>
    have hclaim : Ico taken.startOffset taken.reservedEnd = (s.stage task).claim := by
      rw [hcopied]
      rfl
    rw [hcopied] at hok
    split_ifs at hstep <;> cases hstep
    · have hmoved : (s.setOffset taken.file (taken.startOffset + total)).Inv initial :=
        { hinv with }
      exact hmoved.setStage hclaim hok fun hsettled => by simp [Stage.Undecided] at hsettled
    · exact hinv.setStage hclaim hok fun hsettled => by simp [Stage.Undecided] at hsettled
  · cases hstep

omit [DecidableEq δ] in
theorem Inv.restore (hatomic : ∀ other, (s.stage other).Undecided = false)
    (hstep : s.restore task = some s') : s'.Inv initial := by
  have hok := hinv.stages task
  have hwithin := hinv.ledger.claim_within task
  simp only [FileConfig.restore] at hstep
  split at hstep <;> cases hstep
  next taken total owns hsettled =>
    have hclaim : (s.stage task).claim = Ico taken.startOffset taken.reservedEnd := by
      rw [hsettled]
      rfl
    rw [hclaim] at hwithin
    rw [hsettled] at hok
    obtain ⟨happends, htotal⟩ := hok
    have hstop := happends.stop
    have hpart : Ico taken.startOffset (taken.startOffset + total) ⊆
        Ico taken.startOffset taken.reservedEnd := Ico_subset_Ico_right (by omega)
    have hext := taken.extends_restoreSize total owns s.size
    rcases happends.restoreSize_cases total owns with hsame | ⟨hlen, hcurrent, hback⟩
    · rw [hsame]
      exact hinv.finish (.refl _) (.inl rfl) hclaim happends htotal.le hinv.ledger.first_le
        (hpart.trans hwithin) (by simp)
    · have hfirst : initial ≤ taken.startOffset :=
        (mem_Ico.mp (hwithin (mem_Ico.mpr ⟨Nat.le_refl _, by omega⟩))).1
      refine hinv.finish hext (.inr fun other _ => hatomic other) hclaim happends htotal.le
        (by omega) ?_ ?_
      · rw [hback]
        exact Ico_subset_Ico_left hfirst
      · rw [hback, hcurrent]
        exact Ico_subset_Ico_left (Nat.le_add_right _ _)

theorem Inv.next {flagged : Bool} {label : FileStep τ δ} (hatomic : s.Atomic label)
    (hstep : s.next flagged (fun _ => true) label = some s') : s'.Inv initial := by
  cases label with
  | lock task file requestLen => exact hinv.lock hstep
  | readSize task => exact hinv.readSize hatomic hstep
  | reserve task => exact hinv.reserve hstep
  | copy task total => exact hinv.copy hstep
  | settle task => exact hinv.settle hstep
  | restore task => exact hinv.restore hatomic hstep

end

omit [DecidableEq τ] [DecidableEq δ] in
theorem inv_start (initial : ℕ) : (start initial : FileConfig τ δ).Inv initial where
  ledger := RangeLedger.empty initial
  stages _ := trivial
  lone _ _ hundecided := by simp [start, Stage.Undecided] at hundecided
  written _ hwrite := absurd hwrite List.not_mem_nil

/-- The finished writes have no byte in common, each starts where the file ended at a
moment of the call, and the file has room for all of them. -/
structure Appended (initial : ℕ) (config : FileConfig τ δ) : Prop where
  disjoint : config.written.Pairwise fun one two => Disjoint one.bytes two.bytes
  atEnd : ∀ write ∈ config.written, config.size.Held write.since write.upto () write.start
  room : initial + (config.written.map Written.length).sum ≤ getSize config.size

omit [DecidableEq τ] [DecidableEq δ] in
theorem Inv.appended (hinv : s.Inv initial) : s.Appended initial where
  disjoint := List.pairwise_map.mp hinv.ledger.pairwise
  atEnd write hwrite := (hinv.written write hwrite).2
  room := by
    have hsum := hinv.ledger.sum_card_le
    have hlength : card ∘ Written.bytes = Written.length := by
      funext write
      simp [Written.bytes]
    rwa [List.map_map, hlength] at hsum

theorem appended_of_reachable (initial : ℕ) (flagged : Bool)
    (hreach : Reachable (next flagged fun _ => true) Atomic (start initial) config) :
    config.Appended initial := by
  have hinv : config.Inv initial := hreach.invariant (inv_start initial)
    fun _ _ _ hbefore hatomic hstep => hbefore.next hatomic hstep
  exact hinv.appended

/-- Two descriptions: a short write gives its rest back before the other one starts. -/
theorem appended_after_short_write : ∃ config : FileConfig (Fin 2) (Fin 2),
      Reachable (next false fun _ => true) Atomic (start 5) config ∧ config.Appended 5 ∧
        config.written.map (fun write => (write.start, write.length)) = [(7, 3), (5, 2)] := by
  refine (exists_reachable_of_runSteps [.lock 0 0 4, .readSize 0, .reserve 0, .copy 0 2, .settle 0,
    .restore 0, .lock 1 1 3, .readSize 1, .reserve 1, .copy 1 3] ?_).imp
      fun config ⟨hreach, hwritten⟩ => ⟨hreach, appended_of_reachable 5 false hreach, hwritten⟩
  decide +kernel

/-- Two descriptions of an empty file: both writes read the size before one of them
extends it, and both fill the first byte. -/
theorem overlap_across_descriptions : ∃ config : FileConfig (Fin 2) (Fin 2),
      Reachable (next false fun _ => true) always (start 0) config ∧
        ¬ config.written.Pairwise (fun one two => Disjoint one.bytes two.bytes) ∧
          getSize config.size < (config.written.map Written.length).sum := by
  refine exists_reachable_of_runSteps [.lock 0 0 1, .lock 1 1 1, .readSize 0, .readSize 1,
    .reserve 0, .reserve 1, .copy 0 1, .copy 1 1] ?_
  decide +kernel

end FileConfig

end Kairix.AppendWrites
