import Kairix.LabelledRun

/-!
# The exit status of a process

`exit_group`, a fatal signal and the exit of the last thread each write the status which
`wait4` and `waitid` report, in one section under the lock of the process.  The status of
the event which marked the process first is kept beside as history.
-/

namespace Kairix.ExitStatus

open LabelledRun

inductive TermStatus where
  | running
  | exited (code : BitVec 32)
  | signaled (signal : BitVec 32) (core : Bool)
  | stopped (signal : BitVec 32)
  deriving DecidableEq

structure ProcessConfig where
  isZombie : Bool
  exitCode : BitVec 32
  termStatus : TermStatus
  isStopped : Bool
  wasContinued : Bool
  aliveThreadCount : ℕ
  decided : Option TermStatus

/-- The word which `wait4` stores. -/
def wait4Status (exitCode : BitVec 32) : TermStatus → BitVec 32
  | .exited code => (code &&& 0xff) <<< 8
  | .signaled signal core => signal ||| if core then 0x80 else 0
  | .stopped signal => (signal &&& 0xff) <<< 8 ||| 0x7f
  | .running => (exitCode &&& 0xff) <<< 8

/-- `si_code` and `si_status` of `waitid`. -/
def waitidStatus (exitCode : BitVec 32) : TermStatus → ℕ × BitVec 32
  | .exited code => (1, code)
  | .signaled signal core => (if core then 3 else 2, signal)
  | .stopped signal => (5, signal)
  | .running => (1, exitCode)

inductive ExitStep where
  | stop (signal : BitVec 32)
  | proceed
  | exitGroup (code : BitVec 32)
  | fatal (signal : BitVec 32) (core : Bool)
  | exit (code : BitVec 32) (execExit : Bool)

namespace ProcessConfig

def start (threads : ℕ) : ProcessConfig := ⟨false, 0, .running, false, false, threads, none⟩

variable (config : ProcessConfig)

/-- The process is marked, and `status` is remembered if it was not marked before. -/
def mark (status : TermStatus) (exitCode : BitVec 32) : ProcessConfig :=
  { config with
    isZombie := true
    exitCode := exitCode
    decided := if config.isZombie then config.decided else some status }

def stopProcess (signal : BitVec 32) : ProcessConfig :=
  if config.isZombie then config
  else { config with isStopped := true, termStatus := .stopped signal }

def continueProcess : ProcessConfig :=
  if config.isStopped then { config with isStopped := false, wasContinued := true } else config

def sysExitGroup (code : BitVec 32) : ProcessConfig :=
  { config.mark (.exited code) code with termStatus := .exited code }

def finishSignaledProcess (signal : BitVec 32) (core : Bool) : ProcessConfig :=
  if config.isZombie then config
  else { config.mark (.signaled signal core) (128 + signal) with
    termStatus := .signaled signal core }

/-- The section of `exit_current_and_run_next` which counts the live threads. -/
def exitCurrent (code : BitVec 32) (execExit : Bool) : ProcessConfig :=
  let counted := { config with aliveThreadCount := config.aliveThreadCount - 1 }
  if config.aliveThreadCount = 1 ∧ execExit = false ∧ config.isZombie = false then
    { counted.mark (.exited code) code with
      termStatus := if config.termStatus = .running then .exited code else config.termStatus }
  else counted

def next : ExitStep → Option ProcessConfig
  | .stop signal => some (config.stopProcess signal)
  | .proceed => some config.continueProcess
  | .exitGroup code => if config.aliveThreadCount = 0 then none else some (config.sysExitGroup code)
  | .fatal signal core => some (config.finishSignaledProcess signal core)
  | .exit code execExit =>
    if config.aliveThreadCount = 0 then none else some (config.exitCurrent code execExit)

/-- A wait call returns the status of the first event. -/
def Decided : Prop :=
  ∀ status ∈ config.decided, config.isZombie = true ∧
    wait4Status config.exitCode config.termStatus = wait4Status config.exitCode status ∧
    waitidStatus config.exitCode config.termStatus = waitidStatus config.exitCode status

/-- Only an unmarked process is left by `exit_group`, and by its last thread only if it
was never stopped. -/
def Unmarked : ExitStep → Prop
  | .exitGroup _ => config.isZombie = false
  | .exit _ execExit => config.aliveThreadCount = 1 → execExit = false →
    config.isZombie = false → config.termStatus = .running
  | _ => True

instance (step : ExitStep) : Decidable (config.Unmarked step) := by
  unfold Unmarked
  cases step <;> infer_instance

variable {config}

/-- The stored status is the one of the first event. -/
def Inv (s : ProcessConfig) : Prop :=
  if s.isZombie = true then s.decided = some s.termStatus
  else s.decided = none

theorem Inv.next {s s' : ProcessConfig} (hinv : s.Inv) {step : ExitStep}
    (hunmarked : s.Unmarked step) (hstep : s.next step = some s') : s'.Inv := by
  cases step with
  | stop signal =>
    cases hstep
    unfold stopProcess
    split
    · exact hinv
    · next halive => simpa [Inv, halive] using hinv
  | proceed =>
    cases hstep
    unfold continueProcess
    split <;> exact hinv
  | exitGroup code =>
    have hlive : s.isZombie = false := hunmarked
    simp only [ProcessConfig.next] at hstep
    split_ifs at hstep
    cases hstep
    simp [Inv, sysExitGroup, mark, hlive]
  | fatal signal core =>
    cases hstep
    unfold finishSignaledProcess
    split
    · exact hinv
    · next halive => simp [Inv, mark, halive]
  | exit code execExit =>
    simp only [ProcessConfig.next] at hstep
    split_ifs at hstep
    cases hstep
    unfold exitCurrent
    split
    · next hlast => simp [Inv, mark, hlast.2.2, hunmarked hlast.1 hlast.2.1 hlast.2.2]
    · exact hinv

theorem decided_of_reachable {threads : ℕ}
    (hreach : Reachable ProcessConfig.next Unmarked (start threads) config) : config.Decided := by
  have hstart : (start threads).Inv := rfl
  have hinv := hreach.invariant hstart fun _ _ _ hbefore hunmarked hstep =>
    hbefore.next hunmarked hstep
  intro status hstatus
  rw [Inv] at hinv
  split_ifs at hinv with hzombie
  · obtain rfl := Option.some.inj (hinv.symm.trans hstatus)
    exact ⟨hzombie, rfl, rfl⟩
  · simp [hinv] at hstatus

theorem decided_after_signal : ∃ config : ProcessConfig,
    Reachable ProcessConfig.next Unmarked (start 2) config ∧ config.Decided ∧
      config.decided = some (.exited 7) ∧ config.aliveThreadCount = 0 := by
  refine (exists_reachable_of_runSteps
    [.exitGroup 7, .fatal 9 false, .exit 7 false, .exit 3 false] ?_).imp
    fun config ⟨hreach, hfacts⟩ => ⟨hreach, decided_of_reachable hreach, hfacts⟩
  decide +kernel

/-- Two threads call `exit_group`, and the second call changes the status. -/
theorem not_decided_of_two_exitGroups : ∃ config : ProcessConfig,
    Reachable ProcessConfig.next always (start 2) config ∧ ¬ config.Decided := by
  obtain ⟨config, hreach, hfirst, hstatus⟩ : ∃ config : ProcessConfig,
      Reachable ProcessConfig.next always (start 2) config ∧
        config.decided = some (.exited 1) ∧ config.termStatus = .exited 2 :=
    exists_reachable_of_runSteps [.exitGroup 1, .exitGroup 2] (by decide +kernel)
  refine ⟨config, hreach, fun hdecided => ?_⟩
  have hword := (hdecided _ hfirst).2.1
  rw [hstatus] at hword
  have hsame : wait4Status 0 (.exited 2) = wait4Status 0 (.exited 1) := hword
  exact absurd hsame (by decide)

end ProcessConfig

end Kairix.ExitStatus
