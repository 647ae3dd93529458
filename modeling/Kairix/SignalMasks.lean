import Kairix.LabelledRun

/-!
# Signal masks

A wait with a mask of its own saves the mask of its caller in a list of the kernel, and a
handler saves the mask that it interrupts in its frame on the user stack.  Every return
from a handler takes its frame, and one entry of the list if there is any.
-/

namespace Kairix.Signals

open LabelledRun

@[ext]
structure SignalSet where
  bits : BitVec 64
  deriving DecidableEq

namespace SignalSet

def single (signal : ℕ) : BitVec 64 := 1#64 <<< (signal - 1)

def add (set : SignalSet) (signal : ℕ) : SignalSet := ⟨set.bits ||| single signal⟩

def remove (set : SignalSet) (signal : ℕ) : SignalSet := ⟨set.bits &&& ~~~single signal⟩

def contains (set : SignalSet) (signal : ℕ) : Bool := set.bits &&& single signal != 0#64

/-- `SIGKILL` and `SIGSTOP` are never blocked. -/
def withoutUnblockable (set : SignalSet) : SignalSet := (set.remove 9).remove 19

@[simp] theorem withoutUnblockable_idem (set : SignalSet) :
    set.withoutUnblockable.withoutUnblockable = set.withoutUnblockable := by
  ext index hindex
  simp only [withoutUnblockable, remove, BitVec.getElem_and]
  grind

end SignalSet

inductive SigHandler where
  | default
  | ignore
  | custom
  deriving DecidableEq

structure SigAction where
  handler : SigHandler
  saMask : SignalSet
  noDefer : Bool

/-- `interrupted` tells that a wait was interrupted by a signal which is not handled yet.
`before` and `installed` record the mask outside of all handlers and the masks which the
deliveries of the running handlers installed, the innermost first. -/
structure MaskThread where
  blocked : SignalSet
  waitOldMasks : List SignalSet
  frames : List SignalSet
  interrupted : Bool
  before : SignalSet
  installed : List SignalSet

inductive MaskStep where
  | wait (mask : SignalSet)
  | handle (signal : ℕ) (action : SigAction)
  | sigreturn

namespace MaskThread

def fresh (mask : SignalSet) : MaskThread :=
  ⟨mask.withoutUnblockable, [], [], false, mask.withoutUnblockable, []⟩

section

variable (thread : MaskThread)

/-- `sigsuspend`, `ppoll`, `pselect` or `epoll_pwait` with a mask, interrupted by a signal. -/
def wait (mask : SignalSet) : MaskThread :=
  { thread with
    blocked := mask.withoutUnblockable
    waitOldMasks := thread.blocked :: thread.waitOldMasks
    interrupted := true }

def restoreWaitMask : MaskThread :=
  match thread.waitOldMasks with
  | old :: rest => { thread with blocked := old.withoutUnblockable, waitOldMasks := rest }
  | [] => thread

/-- `handle_signals` with the action of the signal that it has picked. -/
def handle (signal : ℕ) (action : SigAction) : MaskThread :=
  match action.handler with
  | .custom =>
    let deferred := if action.noDefer then thread.blocked else thread.blocked.add signal
    let mask := (SignalSet.mk (deferred.bits ||| action.saMask.bits)).withoutUnblockable
    { thread with
      blocked := mask
      frames := thread.blocked :: thread.frames
      interrupted := false
      installed := mask :: thread.installed }
  | _ => { thread with interrupted := false }.restoreWaitMask

def next : MaskStep → Option MaskThread
  | .wait mask => if thread.interrupted then none else some (thread.wait mask)
  | .handle signal action =>
    if thread.blocked.contains signal then none else some (thread.handle signal action)
  | .sigreturn =>
    match thread.interrupted, thread.frames with
    | false, frame :: rest =>
      some { thread with
        blocked := frame.withoutUnblockable
        frames := rest
        installed := thread.installed.tail }.restoreWaitMask
    | _, _ => none

/-- The mask that the code which runs now has to see. -/
def expected : SignalSet := thread.installed.headD thread.before

def MaskRestored : Prop :=
  thread.interrupted = false → thread.blocked = thread.expected

/-- No signal is handled while the mask of a wait whose signal was handled is still saved. -/
def admits : MaskStep → Prop
  | .handle _ _ => thread.waitOldMasks = [] ∨ thread.interrupted = true
  | _ => True

instance (thread : MaskThread) (step : MaskStep) : Decidable (thread.admits step) :=
  match step with
  | .handle _ _ => inferInstanceAs (Decidable (_ ∨ _))
  | .wait _ => instDecidableTrue
  | .sigreturn => instDecidableTrue

/-- What the saved masks restore: a handler started by the signal of a wait returns to the
mask of the list, and another one to the mask of its frame. -/
inductive Layered (before : SignalSet) :
    List SignalSet → List SignalSet → List SignalSet → Prop
  | base : Layered before [] [] []
  | plain {frames installed : List SignalSet} (mask : SignalSet) :
      Layered before frames [] installed →
        Layered before (installed.headD before :: frames) [] (mask.withoutUnblockable :: installed)
  | waited {frames olds installed : List SignalSet} (frame mask : SignalSet) :
      Layered before frames olds installed →
        Layered before (frame :: frames) (installed.headD before :: olds)
          (mask.withoutUnblockable :: installed)

/-- The mask before the signal of a wait is handled is the one that the wait has saved last. -/
structure Inv (thread : MaskThread) (olds : List SignalSet) : Prop where
  clean : thread.before.withoutUnblockable = thread.before
  layered : Layered thread.before thread.frames olds thread.installed
  current : if thread.interrupted then thread.waitOldMasks = thread.expected :: olds
    else thread.waitOldMasks = olds ∧ thread.blocked = thread.expected

def Sound : Prop := ∃ olds, thread.Inv olds

end

variable {thread s' : MaskThread} {olds : List SignalSet}

theorem restoreWaitMask_of_blocked {frame : SignalSet}
    (hblocked : thread.blocked = frame.withoutUnblockable) : thread.restoreWaitMask =
      { thread with
        blocked := (thread.waitOldMasks.headD frame).withoutUnblockable
        waitOldMasks := thread.waitOldMasks.tail } := by
  obtain ⟨blocked, olds, frames, interrupted, before, installed⟩ := thread
  cases olds with
  | nil => simp [restoreWaitMask, ← hblocked]
  | cons old rest => rfl

theorem Layered.clean {before : SignalSet} {frames installed : List SignalSet}
    (hlayered : Layered before frames olds installed)
    (hbefore : before.withoutUnblockable = before) :
    (installed.headD before).withoutUnblockable = installed.headD before := by
  cases hlayered with
  | base => exact hbefore
  | plain mask | waited frame mask => exact mask.withoutUnblockable_idem

theorem Layered.tail {before frame : SignalSet} {frames installed : List SignalSet}
    (hlayered : Layered before (frame :: frames) olds installed) :
    Layered before frames olds.tail installed.tail ∧
      olds.headD frame = installed.tail.headD before := by
  cases hlayered with
  | plain mask hrest => exact ⟨hrest, rfl⟩
  | waited _ mask hrest => exact ⟨hrest, rfl⟩

theorem Inv.handle (hinv : thread.Inv olds) (signal : ℕ) (action : SigAction)
    (hadmits : thread.waitOldMasks = [] ∨ thread.interrupted = true) :
    (thread.handle signal action).Sound := by
  obtain ⟨hclean, hlayered, hcurrent⟩ := hinv
  have hexpected : thread.expected.withoutUnblockable = thread.expected := hlayered.clean hclean
  cases hwait : thread.interrupted with
  | true =>
    rw [hwait, if_pos rfl] at hcurrent
    cases haction : action.handler with
    | custom =>
      refine ⟨thread.waitOldMasks, ?_, ?_, ?_⟩ <;> simp only [MaskThread.handle, haction]
      · exact hclean
      · rw [hcurrent]
        exact hlayered.waited _ _
      · simp [expected]
    | _ =>
      refine ⟨olds, ?_⟩
      simp only [MaskThread.handle, haction, restoreWaitMask, hcurrent, hexpected]
      exact ⟨hclean, hlayered, rfl, rfl⟩
  | false =>
    obtain ⟨hnone, hblocked⟩ : thread.waitOldMasks = olds ∧ thread.blocked = thread.expected := by
      simpa [hwait] using hcurrent
    have hempty : thread.waitOldMasks = [] := by simpa [hwait] using hadmits
    obtain rfl : olds = [] := hnone.symm.trans hempty
    refine ⟨[], ?_⟩
    cases haction : action.handler with
    | custom =>
      refine ⟨?_, ?_, ?_⟩ <;> simp only [MaskThread.handle, haction]
      · exact hclean
      · rw [hblocked]
        exact hlayered.plain _
      · exact ⟨hempty, rfl⟩
    | _ =>
      simp only [MaskThread.handle, haction, restoreWaitMask, hempty]
      exact ⟨hclean, hlayered, rfl, hblocked⟩

theorem Inv.next (hinv : thread.Inv olds) {step : MaskStep} (hadmits : thread.admits step)
    (hnext : thread.next step = some s') : s'.Sound := by
  cases step with
  | wait mask =>
    obtain ⟨hwait, ⟨⟩⟩ := Option.ite_none_left_eq_some.mp hnext
    obtain ⟨hclean, hlayered, hcurrent⟩ := hinv
    rw [if_neg hwait] at hcurrent
    refine ⟨olds, hclean, hlayered, ?_⟩
    change thread.blocked :: thread.waitOldMasks = thread.expected :: olds
    rw [hcurrent.1, hcurrent.2]
  | handle signal action =>
    obtain ⟨-, ⟨⟩⟩ := Option.ite_none_left_eq_some.mp hnext
    exact hinv.handle signal action hadmits
  | sigreturn =>
    simp only [MaskThread.next] at hnext
    split at hnext <;> cases hnext
    next frame rest hwait hframes =>
      obtain ⟨hclean, hlayered, hcurrent⟩ := hinv
      rw [hframes] at hlayered
      obtain ⟨hrest, hhead⟩ := hlayered.tail
      obtain ⟨rfl, -⟩ : thread.waitOldMasks = olds ∧ thread.blocked = thread.expected := by
        simpa [hwait] using hcurrent
      rw [restoreWaitMask_of_blocked rfl]
      refine ⟨_, hclean, hrest, ?_⟩
      rw [if_neg (by simp [hwait])]
      exact ⟨rfl, (congrArg _ hhead).trans (hrest.clean hclean)⟩

theorem maskRestored_of_reachable (mask : SignalSet)
    (hreach : Reachable next admits (fresh mask) thread) : thread.MaskRestored := by
  have hstart : (fresh mask).Sound := ⟨[], mask.withoutUnblockable_idem, .base, rfl, rfl⟩
  obtain ⟨olds, hinv⟩ : thread.Sound := hreach.invariant hstart
    fun _ _ _ ⟨_, hinv⟩ hadmits hnext => hinv.next hadmits hnext
  intro hwait
  have hcurrent := hinv.current
  rw [hwait, if_neg Bool.false_ne_true] at hcurrent
  exact hcurrent.2

def catchAction : SigAction := ⟨.custom, ⟨0⟩, false⟩

theorem maskRestored_after_wait_in_handler : ∃ thread : MaskThread, thread.MaskRestored ∧
    thread.interrupted = false ∧ thread.installed = [(SignalSet.mk 0).add 10] := by
  obtain ⟨thread, hreach, hinstalled⟩ : ∃ thread : MaskThread,
      Reachable next admits (fresh ⟨1⟩) thread ∧ thread.interrupted = false ∧
        thread.installed = [(SignalSet.mk 0).add 10] :=
    exists_reachable_of_runSteps [.wait ⟨0⟩, .handle 10 catchAction, .wait ⟨2⟩,
      .handle 12 catchAction, .sigreturn] (by decide +kernel)
  exact ⟨thread, maskRestored_of_reachable ⟨1⟩ hreach, hinstalled⟩

theorem not_maskRestored_of_nested : ∃ thread : MaskThread,
    Reachable next always (fresh ⟨1⟩) thread ∧ thread.frames = [] ∧ ¬thread.MaskRestored := by
  obtain ⟨thread, hreach, hwait, hframes, hblocked⟩ : ∃ thread : MaskThread,
      Reachable next always (fresh ⟨1⟩) thread ∧ thread.interrupted = false ∧
        thread.frames = [] ∧ thread.blocked ≠ thread.expected :=
    exists_reachable_of_runSteps [.wait ⟨0⟩, .handle 10 catchAction, .handle 12 catchAction,
      .sigreturn, .sigreturn] (by decide +kernel)
  exact ⟨thread, hreach, hframes, fun hrestored => hblocked (hrestored hwait)⟩

end MaskThread

end Kairix.Signals
