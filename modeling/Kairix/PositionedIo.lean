import Kairix.MachineWord
import Kairix.LabelledRun

/-!
# Positioned access through a shared offset

The default `read_at`, `write_at`, `read_at_direct` and `write_at_direct` of a file save
the offset of the description, set it, run an ordinary call and set it back, each in a
section of its own.  Ordinary calls are those of a temporary file, which hold the lock of
the description from beginning to end.
-/

namespace Kairix.PositionedIo

open LabelledRun

inductive Request where
  | read (length : ℕ)
  | write (length : ℕ) (data : ℕ → UInt8)

structure File where
  offset : ℕ
  size : ℕ
  content : ℕ → UInt8

namespace File

def setOffset (file : File) (offset : ℕ) : File := { file with offset := offset }

def fill (file : File) (length : ℕ) (data : ℕ → UInt8) : ℕ → UInt8 :=
  fun place =>
    if file.offset ≤ place ∧ place < file.offset + length then data (place - file.offset)
    else file.content place

/-- An ordinary call.  A write may fail after some bytes, which leaves the size and the
offset as they are. -/
def run (file : File) (request : Request) (failure : Option ℕ) : File × Option ℕ :=
  match request, failure with
  | .read length, none =>
    let count := min length (file.size - file.offset)
    (file.setOffset (file.offset + count), some count)
  | .read _, some _ => (file, none)
  | .write length data, none =>
    ({ offset := file.offset + length
       size := max file.size (file.offset + length)
       content := file.fill length data }, some length)
  | .write length data, some count =>
    ({ file with content := file.fill (min count length) data }, none)

end File

/-- What is left of a positioned call.  A direct write goes page by page. -/
inductive Plan where
  | single (position : ℕ) (request : Request)
  | pages (position length written : ℕ) (data : ℕ → UInt8)
  | finished

namespace Plan

/-- Where the next ordinary call of the plan has to start. -/
def target : Plan → Option ℕ
  | .single position _ => some position
  | .pages position length written _ =>
    if written < length ∧ position + written < usizeLimit then some (position + written)
    else none
  | .finished => none

def request : Plan → Request
  | .single _ request => request
  | .pages position length written data =>
    .write (min (pageSize - (position + written) % pageSize) (length - written))
      fun place => data (written + place)
  | .finished => .read 0

def after : Plan → Option ℕ → Plan
  | .pages position length written data, some (count + 1) =>
    .pages position length (written + (count + 1)) data
  | _, _ => .finished

end Plan

inductive Stage where
  | idle
  | ready (plan : Plan) (oldOffset : ℕ)
  | placed (plan : Plan) (position oldOffset : ℕ)

def Stage.isIdle : Stage → Bool
  | .idle => true
  | _ => false

structure Transfer where
  expected : ℕ
  start : ℕ
  count : Option ℕ

/-- `logical` is the offset which the last ordinary call on its own has left. -/
structure IoConfig (τ : Type*) where
  file : File
  stage : τ → Stage
  logical : ℕ
  transfers : List Transfer

inductive IoStep (τ : Type*) where
  | call (task : τ) (request : Request) (failure : Option ℕ)
  | save (task : τ) (plan : Plan)
  | place (task : τ)
  | transfer (task : τ) (failure : Option ℕ)
  | restore (task : τ)

namespace IoConfig

variable {τ : Type*} [DecidableEq τ]

section

variable (config s : IoConfig τ) (task : τ)

def setStage (stage : Stage) : IoConfig τ :=
  { config with stage := Function.update config.stage task stage }

def start (file : File) : IoConfig τ where
  file := file
  stage _ := .idle
  logical := file.offset
  transfers := []

/-- Run an ordinary call which ought to start at a given offset. -/
def perform (expected : ℕ) (request : Request) (failure : Option ℕ) : IoConfig τ :=
  { config with
    file := (config.file.run request failure).1
    transfers := ⟨expected, config.file.offset, (config.file.run request failure).2⟩ ::
      config.transfers }

def call (request : Request) (failure : Option ℕ) : Option (IoConfig τ) :=
  match config.stage task with
  | .idle =>
    let performed := config.perform config.logical request failure
    some { performed with logical := performed.file.offset }
  | _ => none

def save (plan : Plan) : Option (IoConfig τ) :=
  match config.stage task with
  | .idle => some (config.setStage task (.ready plan config.file.offset))
  | _ => none

def place : Option (IoConfig τ) :=
  match config.stage task with
  | .ready plan oldOffset =>
    plan.target.map fun position =>
      { config.setStage task (.placed plan position oldOffset) with
        file := config.file.setOffset position }
  | _ => none

def transfer (failure : Option ℕ) : Option (IoConfig τ) :=
  match config.stage task with
  | .placed plan position oldOffset =>
    some ((config.perform position plan.request failure).setStage task
      (.ready (plan.after (config.file.run plan.request failure).2) oldOffset))
  | _ => none

def restore : Option (IoConfig τ) :=
  match config.stage task with
  | .ready plan oldOffset =>
    match plan.target with
    | none => some { config.setStage task .idle with file := config.file.setOffset oldOffset }
    | some _ => none
  | _ => none

def next : IoStep τ → Option (IoConfig τ)
  | .call task request failure => config.call task request failure
  | .save task plan => config.save task plan
  | .place task => config.place task
  | .transfer task failure => config.transfer task failure
  | .restore task => config.restore task

/-- A call begins only when no positioned call is running. -/
def Alone : IoStep τ → Prop
  | .call .. | .save .. => ∀ task, (config.stage task).isIdle = true
  | _ => True

end

instance [Fintype τ] (config : IoConfig τ) (label : IoStep τ) : Decidable (config.Alone label) := by
  unfold Alone
  cases label <;> infer_instance

/-! ## The invariant -/

def StageOk (offset logical : ℕ) : Stage → Prop
  | .idle => True
  | .ready _ oldOffset => oldOffset = logical
  | .placed _ position oldOffset => oldOffset = logical ∧ offset = position

structure Inv (s : IoConfig τ) : Prop where
  lone : ∀ task other, (s.stage task).isIdle = false →
    (s.stage other).isIdle = false → task = other
  idle : (∀ task, (s.stage task).isIdle = true) → s.file.offset = s.logical
  stages : ∀ task, StageOk s.file.offset s.logical (s.stage task)
  transfers : ∀ transfer ∈ s.transfers, transfer.start = transfer.expected

variable {config s s' : IoConfig τ}

variable {task : τ}

omit [DecidableEq τ] in
theorem Inv.others_idle (hinv : s.Inv) (hactive : (s.stage task).isIdle = false) :
    ∀ other, other ≠ task → s.stage other = .idle := by
  intro other hother
  cases hstage : s.stage other with
  | idle => rfl
  | ready plan oldOffset | placed plan position oldOffset =>
    exact absurd (hinv.lone other task (by rw [hstage]; rfl) hactive) hother

attribute [local simp] Stage.isIdle setStage

theorem inv_setStage {stage : Stage} {file : File} {transfers : List Transfer}
    (hidle : ∀ other, other ≠ task → s.stage other = .idle)
    (hback : stage.isIdle = true → file.offset = s.logical)
    (hstage : StageOk file.offset s.logical stage)
    (htransfers : ∀ transfer ∈ transfers, transfer.start = transfer.expected) :
    { s.setStage task stage with file := file, transfers := transfers }.Inv where
  lone := by
    have hactive : ∀ other, ((s.setStage task stage).stage other).isIdle = false →
        other = task := by
      intro other hother
      by_contra hne
      simp [hne, hidle other hne] at hother
    intro one two hone htwo
    exact (hactive one hone).trans (hactive two htwo).symm
  idle hall := hback (by simpa using hall task)
  stages := by
    intro other
    by_cases hother : other = task
    · subst hother
      simpa using hstage
    · simp [hother, hidle other hother, StageOk]
  transfers := htransfers

section

variable (hinv : s.Inv)
include hinv

omit [DecidableEq τ] in
theorem Inv.call {request : Request} {failure : Option ℕ}
    (halone : ∀ other, (s.stage other).isIdle = true)
    (hstep : s.call task request failure = some s') : s'.Inv := by
  simp only [IoConfig.call] at hstep
  split at hstep <;> cases hstep
  refine ⟨hinv.lone, fun _ => rfl, ?_, ?_⟩
  · intro other
    have hother := halone other
    change StageOk _ _ (s.stage other)
    cases hstage : s.stage other with
    | idle => trivial
    | ready plan oldOffset | placed plan position oldOffset =>
      simp [hstage] at hother
  · intro transfer htransfer
    rcases List.mem_cons.mp htransfer with rfl | htransfer
    · exact hinv.idle halone
    · exact hinv.transfers transfer htransfer

theorem Inv.save {plan : Plan} (halone : ∀ other, (s.stage other).isIdle = true)
    (hstep : s.save task plan = some s') : s'.Inv := by
  simp only [IoConfig.save] at hstep
  split at hstep <;> cases hstep
  have hidle : ∀ other, other ≠ task → s.stage other = .idle := by
    intro other _
    have hother := halone other
    cases hstage : s.stage other with
    | idle => rfl
    | ready plan oldOffset | placed plan position oldOffset =>
      simp [hstage] at hother
  exact inv_setStage hidle (fun hready => by simp at hready)
    (hinv.idle halone) hinv.transfers

theorem Inv.place (hstep : s.place task = some s') : s'.Inv := by
  have hok := hinv.stages task
  simp only [IoConfig.place] at hstep
  split at hstep
  · next plan oldOffset hready =>
    rw [hready] at hok
    obtain ⟨position, -, rfl⟩ := Option.map_eq_some_iff.mp hstep
    exact inv_setStage (hinv.others_idle (by rw [hready]; rfl))
      (fun hplaced => by simp at hplaced) ⟨hok, rfl⟩ hinv.transfers
  · cases hstep

theorem Inv.transfer {failure : Option ℕ} (hstep : s.transfer task failure = some s') : s'.Inv := by
  have hok := hinv.stages task
  simp only [IoConfig.transfer] at hstep
  split at hstep <;> cases hstep
  next plan position oldOffset hplaced =>
    rw [hplaced] at hok
    obtain ⟨hold, hposition⟩ := hok
    refine inv_setStage (hinv.others_idle (by rw [hplaced]; rfl))
      (fun hready => by simp at hready) hold ?_
    intro transfer htransfer
    rcases List.mem_cons.mp htransfer with rfl | htransfer
    · exact hposition
    · exact hinv.transfers transfer htransfer

theorem Inv.restore (hstep : s.restore task = some s') : s'.Inv := by
  have hok := hinv.stages task
  simp only [IoConfig.restore] at hstep
  split at hstep
  · next plan oldOffset hready =>
    split at hstep <;> cases hstep
    rw [hready] at hok
    exact inv_setStage (hinv.others_idle (by rw [hready]; rfl)) (fun _ => hok) trivial
      hinv.transfers
  · cases hstep

theorem Inv.next {label : IoStep τ} (halone : s.Alone label)
    (hstep : s.next label = some s') : s'.Inv := by
  cases label with
  | call task request failure => exact hinv.call halone hstep
  | save task plan => exact hinv.save halone hstep
  | place task => exact hinv.place hstep
  | transfer task failure => exact hinv.transfer hstep
  | restore task => exact hinv.restore hstep

end

/-- Every transfer starts where it should, and the offset is the one of the ordinary calls
whenever no positioned call is running. -/
structure Undisturbed (config : IoConfig τ) : Prop where
  transfers : ∀ transfer ∈ config.transfers, transfer.start = transfer.expected
  offset : (∀ task, (config.stage task).isIdle = true) → config.file.offset = config.logical

theorem undisturbed_of_reachable (file : File) (hreach : Reachable next Alone (start file) config) :
    config.Undisturbed := by
  have hinv : config.Inv := by
    refine hreach.invariant ⟨?_, fun _ => rfl, fun _ => trivial, ?_⟩
      fun _ _ _ hbefore halone hstep => hbefore.next halone hstep
    · intro task other hactive
      simp [start] at hactive
    · intro transfer htransfer
      exact absurd htransfer List.not_mem_nil
  exact ⟨hinv.transfers, hinv.idle⟩

/-- A direct write of two pages between two ordinary writes. -/
theorem undisturbed_after_direct_write : ∃ config : IoConfig (Fin 2),
      Reachable next Alone (start ⟨0, 0, fun _ => 0⟩) config ∧ config.Undisturbed ∧
        config.transfers.map (fun transfer => (transfer.start, transfer.count)) =
          [(3, some 2), (8192, some 10), (8190, some 2), (0, some 3)] := by
  refine (exists_reachable_of_runSteps [.call 0 (.write 3 fun _ => 1) none,
    .save 1 (.pages 8190 12 0 fun _ => 2), .place 1, .transfer 1 none, .place 1, .transfer 1 none,
    .restore 1, .call 0 (.write 2 fun _ => 3) none] ?_).imp fun config ⟨hreach, htransfers⟩ =>
      ⟨hreach, undisturbed_of_reachable _ hreach, htransfers⟩
  decide +kernel

/-- An ordinary read comes between the sections of a positioned read: it starts at the
positioned offset, the positioned read starts behind it, and the offset goes back. -/
theorem disturbed_by_positioned_read : ∃ config : IoConfig (Fin 2),
      Reachable next always (start ⟨0, 100, fun _ => 0⟩) config ∧
        config.transfers.map (fun transfer => (transfer.expected, transfer.start)) =
          [(50, 60), (0, 50)] ∧
        (∀ task, (config.stage task).isIdle = true) ∧
          config.file.offset = 0 ∧ config.logical = 60 := by
  refine exists_reachable_of_runSteps [.save 0 (.single 50 (.read 10)), .place 0,
    .call 1 (.read 10) none, .transfer 0 none, .restore 0] ?_
  decide +kernel

end IoConfig

end Kairix.PositionedIo
