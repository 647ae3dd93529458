import Kairix.HeapGrowthBalance

/-!
# When a failed allocation is genuine

A call which joins a flight only learns whether some flight succeeded since its
snapshot.  It therefore fails with a flight which was started for a larger
layout, or which ended before its own attempt.  If every failing flight is
joined only by calls for its layout whose attempt had failed before the flight
began, then a null result is explained by a growth for that layout.
-/

namespace Kairix.KernelHeap

open LabelledRun Kairix.Frame Option

namespace HeapConfig

variable {τ : Type*} [DecidableEq τ]

def FailsGenuinely (config : HeapConfig τ) (thread : τ) : Prop :=
  ∀ call ∈ config.calls thread, ∀ failure ∈ call.phase.publishes,
    failure.Genuine ∧ ∀ other, other ≠ thread → ∀ otherCall ∈ config.calls other,
      otherCall.Joins call.layout config.begun

instance [Fintype τ] (config : HeapConfig τ) (thread : τ) :
    Decidable (config.FailsGenuinely thread) :=
  inferInstanceAs (Decidable (∀ call ∈ config.calls thread, _))

/-- The condition on the steps: physical page numbers have 44 bits, and a
growth fails for want of frames or by the limit, joined only by calls which it
explains. -/
def Orderly (config : HeapConfig τ) : HeapStep τ → Prop
  | .enableHeapGrowth totalPages => totalPages ≤ 2 ^ 44
  | .advance thread _ => config.FailsGenuinely thread
  | _ => True

instance [Fintype τ] (config : HeapConfig τ) (step : HeapStep τ) :
    Decidable (config.Orderly step) := by
  unfold Orderly
  cases step <;> infer_instance

/-! ## Steps keep the ledger -/

variable {config s s' : HeapConfig τ} {thread : τ} {call : HeapCall} {observed bytes : ℕ}

attribute [local simp] GrowthPhase.compares GrowthPhase.failed GrowthPhase.observed
  GrowthPhase.grows

omit [DecidableEq τ] in
theorem CallHistory.recordFailure (hhistory : s.CallHistory call)
    (hphase : call.phase = .attempt observed) :
    s.CallHistory { call with
      phase := .checkState observed
      firstFailure := call.firstFailure.or (some s.begun) } := by
  obtain ⟨hseen, hstate, hexplained⟩ := hhistory.pending observed (by rw [hphase]; rfl)
  refine ⟨?_, ?_, ?_, ?_, ?_, ?_⟩
  · intro other hother
    obtain rfl : observed = other := by simpa using hother
    refine ⟨hseen, hstate, ?_⟩
    intro flight hflight hfailed
    have hexplains := hexplained flight hflight hfailed
    obtain ⟨attempts, hattempts, -⟩ := hexplains.attempted
    simpa [hattempts] using hexplains
  · intro _
    cases call.firstFailure <;> simp
  · intro attempts hattempts
    cases hfirst : call.firstFailure with
    | none =>
      simp only [hfirst, none_or, some.injEq] at hattempts
      exact hattempts.ge
    | some first =>
      simp only [hfirst, some_or, some.injEq] at hattempts
      subst attempts
      exact hhistory.recorded_le first hfirst
  all_goals
    intro hphase
    simp at hphase

structure Traced (s : HeapConfig τ) : Prop where
  limit_le : s.growthLimit ≤ 2 ^ 54
  history : ∀ thread call, s.calls thread = some call → s.CallHistory call

omit [DecidableEq τ] in
theorem traced_booted (heap : BuddyHeap) : (booted heap : HeapConfig τ).Traced :=
  ⟨Nat.zero_le _, fun thread call hcall => by simp [booted] at hcall⟩

omit [DecidableEq τ] in
theorem Traced.mono (htraced : s.Traced)
    (hsame : s'.calls = s.calls ∧ s'.growthLimit = s.growthLimit ∧ s'.growState = s.growState ∧
      s'.flights = s.flights) (hbegun : s.begun ≤ s'.begun) : s'.Traced := by
  obtain ⟨hcalls, hlimit, hstate, hflights⟩ := hsame
  refine ⟨hlimit.trans_le htraced.limit_le, fun other otherCall hother => ?_⟩
  rw [hcalls] at hother
  exact (htraced.history other otherCall hother).mono hstate hflights hbegun

theorem Traced.put (htraced : s.Traced) (hnew : s.CallHistory call) :
    (s.setCall thread call).Traced := by
  refine ⟨htraced.limit_le, fun other otherCall hother => ?_⟩
  rcases calls_setCall_cases hother with ⟨-, rfl⟩ | ⟨-, hold⟩
  · exact hnew.mono rfl rfl le_rfl
  · exact (htraced.history other otherCall hold).mono rfl rfl le_rfl

theorem Traced.pass (htraced : s.Traced) (hnew : s.CallHistory call)
    (hsame : s'.calls = s.calls ∧ s'.growthLimit = s.growthLimit ∧ s'.growState = s.growState ∧
      s'.flights = s.flights) (hbegun : s'.begun = s.begun) : (s'.setCall thread call).Traced :=
  (htraced.mono hsame hbegun.ge).put (hnew.mono hsame.2.2.1 hsame.2.2.2 hbegun.ge)

structure Ledger (s : HeapConfig τ) : Prop extends Balance s, Traced s

section

variable (hledger : Ledger s) (hcall : s.calls thread = some call)
include hledger hcall

omit [DecidableEq τ] in
theorem explains_own {failure : GrowFailure}
    (hphase : call.phase = .publish observed (some failure)) (hgenuine : failure.Genuine) :
    Explains ⟨call.layout, s.begun - 1, some failure⟩ call.layout call.firstFailure := by
  have hold := hledger.history thread call hcall
  have haccounts := hledger.accounts thread call hcall
  rw [hphase] at haccounts
  obtain ⟨bytes, hbytes⟩ := haccounts.2.2 hgenuine
  obtain ⟨attempts, hattempts⟩ :=
    ne_none_iff_exists'.mp (hold.recorded (by rw [hphase]; rfl))
  have hlt := hold.begun_lt (by rw [hphase]; rfl) attempts hattempts
  exact ⟨⟨failure, rfl, hgenuine⟩, ⟨attempts, hattempts, Nat.le_sub_one_of_lt hlt⟩,
    ⟨bytes, bytes, hbytes, hbytes, le_rfl⟩, le_rfl, le_rfl⟩

omit [DecidableEq τ] in
theorem Ledger.exists_explains (hphase : call.phase = .compareSuccesses observed)
    (hsame : heapGrowthSuccesses s.growState = heapGrowthSuccesses observed) :
    ∃ flight ∈ s.flights, Explains flight call.layout call.firstFailure := by
  have hold := hledger.history thread call hcall
  obtain ⟨hseen, hstate, hexplained⟩ := hold.pending observed (by rw [hphase]; rfl)
  have hmissed := hold.missed (by rw [hphase]; rfl)
  have hcount : successCount (s.flights.drop call.seen) < 2 ^ heapGrowStateCounterBits := by
    have hsub : successCount (s.flights.drop call.seen) ≤ successCount s.flights :=
      (List.drop_sublist ..).countP_le
    have hbytes : kernelHeapGrowChunkSize * successCount s.flights ≤ 2 ^ 54 :=
      calc kernelHeapGrowChunkSize * successCount s.flights ≤ s.committed := hledger.counted
        _ ≤ s.accountedBytes := hledger.committed_le
        _ ≤ s.growthLimit := hledger.accounted_le
        _ ≤ 2 ^ 54 := hledger.limit_le
    have hchunk : kernelHeapGrowChunkSize = 2 ^ 25 := rfl
    have hbits : heapGrowStateCounterBits = 32 := rfl
    rw [hchunk] at hbytes
    rw [hbits]
    omega
  rw [hstate] at hsame
  obtain ⟨flight, hflight, hfailed⟩ := exists_failed_of_successes_eq hmissed hcount hsame
  exact ⟨flight, List.mem_of_mem_drop hflight, hexplained flight hflight hfailed⟩

theorem Ledger.publish {failure : Option GrowFailure} (horderly : s.FailsGenuinely thread)
    (hphase : call.phase = .publish observed failure) :
    (s.publish thread call observed failure).Traced := by
  have hold := hledger.history thread call hcall
  have hobserved : s.growState = observed := by
    have haccounts := hledger.accounts thread call hcall
    rw [hphase] at haccounts
    cases failure <;> exact haccounts.1
  have hown : ∀ reason, failure = some reason →
      Explains ⟨call.layout, s.begun - 1, failure⟩ call.layout call.firstFailure := by
    rintro reason rfl
    exact explains_own hledger hcall hphase (horderly call hcall reason (by rw [hphase]; rfl)).1
  refine ⟨hledger.limit_le, fun other otherCall hother => ?_⟩
  rcases calls_setCall_cases hother with ⟨-, rfl⟩ | ⟨hne, hother⟩
  · refine ⟨by simp, fun _ => hold.recorded (by rw [hphase]; rfl),
      hold.recorded_le, by simp, by simp, ?_⟩
    intro hfailed
    cases failure with
    | none => simp at hfailed
    | some reason =>
      exact ⟨_, List.mem_append_right _ (List.mem_singleton_self _), hown reason rfl⟩
  · have hflights : (s.publish thread call observed failure).flights = s.flights ++
        [GrowthFlight.mk call.layout (s.begun - 1) failure] := rfl
    refine (hledger.history other otherCall hother).publish ?_ hflights rfl
      fun hpending hfailed => ?_
    · exact congrArg (nextHeapGrowthState · failure.isNone) hobserved.symm
    obtain ⟨reason, hreason⟩ := ne_none_iff_exists'.mp hfailed
    obtain ⟨-, hjoins⟩ := horderly call hcall reason (by rw [hphase]; exact hreason)
    obtain ⟨hlayout, attempts, hattempts, hlt⟩ := hjoins other hne otherCall hother hpending
    have hexplains := hown reason hreason
    rw [hlayout]
    exact ⟨hexplains.genuine, ⟨attempts, hattempts, Nat.le_sub_one_of_lt hlt⟩,
      hexplains.sized, hexplains.size_le, hexplains.align_le⟩

theorem Ledger.advance (horderly : s.FailsGenuinely thread) {spurious : Bool}
    (hstep : s.advance thread call spurious = some s') : s'.Traced := by
  have hold := hledger.history thread call hcall
  have htraced := hledger.toTraced
  obtain ⟨layout, phase, firstFailure, seen⟩ := call
  unfold HeapConfig.advance at hstep
  cases phase with
  | snapshot =>
    cases hstep
    refine htraced.put ⟨?_, ?_, hold.recorded_le, ?_, ?_, ?_⟩
    · intro observed hobserved
      obtain rfl : s.growState = observed := by simpa using hobserved
      refine ⟨le_rfl, ?_, by simp⟩
      simp only [List.drop_length]
      rfl
    all_goals
      simp [GrowthPhase.pastAttempt]
  | attempt observed =>
    simp only [HeapConfig.attempt] at hstep
    split at hstep <;> cases hstep
    · exact htraced.pass (hold.finish rfl rfl rfl rfl (by simp)) ⟨rfl, rfl, rfl, rfl⟩ rfl
    · exact htraced.pass (hold.recordFailure rfl) ⟨rfl, rfl, rfl, rfl⟩ rfl
  | checkState observed =>
    cases hstep
    split
    · exact htraced.put (hold.wait rfl rfl rfl (by simp) rfl)
    · next hstate =>
      exact htraced.put (hold.wait rfl rfl rfl (fun _ => hold.missed_of_ne rfl hstate) rfl)
  | compareSuccesses observed =>
    cases hstep
    split
    · next hsame =>
      exact htraced.put (hold.finish rfl rfl rfl rfl fun _ =>
        hledger.exists_explains hcall rfl hsame)
    · exact htraced.put (hold.finish rfl rfl rfl rfl (by simp))
  | pollFlag observed | pollState observed =>
    cases hstep
    split <;> exact htraced.put (hold.wait rfl rfl rfl (by simp) rfl)
  | claimFlight observed =>
    simp only at hstep
    split at hstep <;> cases hstep <;>
      exact htraced.pass (hold.wait rfl rfl rfl (by simp) rfl) ⟨rfl, rfl, rfl, rfl⟩ rfl
  | recheckState observed =>
    simp only at hstep
    split at hstep <;> cases hstep
    · have hbegun : s.begun ≤ s.begun + 1 := Nat.le_succ _
      have hlater : HeapConfig.CallHistory { s with begun := s.begun + 1 }
          ⟨layout, .recheckState observed, firstFailure, seen⟩ := hold.mono rfl rfl hbegun
      refine Traced.put (htraced.mono ⟨rfl, rfl, rfl, rfl⟩ hbegun)
        (hlater.goto (fun _ => id) (fun _ => rfl) ?_ (by simp) (by simp))
      exact fun _ attempts hattempts => Nat.lt_succ_of_le (hold.recorded_le attempts hattempts)
    · next hstate =>
      exact htraced.put (hold.wait rfl rfl rfl (fun _ => hold.missed_of_ne rfl hstate) rfl)
  | abandonFlight observed =>
    cases hstep
    exact htraced.pass (hold.wait rfl rfl rfl (fun _ => hold.missed rfl) rfl)
      ⟨rfl, rfl, rfl, rfl⟩ rfl
  | checkEnabled observed =>
    cases hstep
    simp only [HeapConfig.checkEnabled]
    split
    · split <;> exact htraced.put (hold.grow rfl rfl rfl rfl rfl)
    · exact htraced.put (hold.grow rfl rfl rfl rfl rfl)
  | loadLimit observed bytes | loadAccounted observed bytes limit =>
    cases hstep
    exact htraced.put (hold.grow rfl rfl rfl rfl rfl)
  | reserve observed bytes limit accounted =>
    cases hstep
    unfold HeapConfig.reserve
    split
    · exact htraced.put (hold.grow rfl rfl rfl rfl rfl)
    · split <;> exact htraced.pass (hold.grow rfl rfl rfl rfl rfl) ⟨rfl, rfl, rfl, rfl⟩ rfl
  | rollback observed bytes failure =>
    cases hstep
    exact htraced.pass (hold.grow rfl rfl rfl rfl rfl) ⟨rfl, rfl, rfl, rfl⟩ rfl
  | addExtent observed bytes start stop =>
    simp only [HeapConfig.addExtent] at hstep
    split at hstep <;> cases hstep
    exact htraced.pass (hold.grow rfl rfl rfl rfl rfl) ⟨rfl, rfl, rfl, rfl⟩ rfl
  | countExtent observed bytes =>
    cases hstep
    exact htraced.pass (hold.grow rfl rfl rfl rfl rfl) ⟨rfl, rfl, rfl, rfl⟩ rfl
  | publish observed failure =>
    cases hstep
    exact hledger.publish hcall horderly rfl
  | endFlight failure =>
    cases hstep
    cases failure with
    | none =>
      exact htraced.pass (hold.finish rfl rfl rfl rfl (by simp)) ⟨rfl, rfl, rfl, rfl⟩ rfl
    | some reason =>
      exact htraced.pass (hold.finish rfl rfl rfl rfl fun _ => hold.explained rfl)
        ⟨rfl, rfl, rfl, rfl⟩ rfl
  | takeExtent observed bytes | returned result => simp at hstep

end

theorem Ledger.next (hledger : Ledger s) {step : HeapStep τ}
    (horderly : s.Orderly step) (hstep : s.next step = some s') : s'.Traced := by
  have htraced := hledger.toTraced
  cases step <;> simp only [HeapConfig.next] at hstep
  case enableHeapGrowth totalPages =>
    split at hstep <;> cases hstep
    refine ⟨?_, fun other otherCall hother =>
      (hledger.history other otherCall hother).mono rfl rfl le_rfl⟩
    have hbytes : totalPages * pageSize ≤ 2 ^ 44 * pageSize := Nat.mul_le_mul_right _ horderly
    have hpage : pageSize = 4096 := rfl
    have hfraction : kernelHeapMaxPhysFraction = 4 := rfl
    calc min (totalPages * pageSize) (2 ^ wordBits - 1) / kernelHeapMaxPhysFraction
        ≤ totalPages * pageSize / kernelHeapMaxPhysFraction := Nat.div_le_div_right (min_le_left ..)
      _ ≤ 2 ^ 54 := by rw [hpage] at hbytes ⊢; rw [hfraction]; omega
  case call thread layout =>
    split at hstep <;> cases hstep
    refine htraced.put ⟨?_, ?_, ?_, ?_, ?_, ?_⟩ <;> simp [GrowthPhase.pastAttempt]
  case advance thread spurious =>
    split at hstep
    · cases hstep
    · next call hcall => exact hledger.advance hcall horderly hstep
  case takeExtent thread extent =>
    split at hstep
    · next hcall =>
      have hold := hledger.history thread _ hcall
      split at hstep <;> cases hstep
      cases extent with
      | none => exact htraced.put (hold.grow rfl rfl rfl rfl rfl)
      | some extent =>
        rw [receiveExtent]
        cases extentAddresses extent <;> exact htraced.put (hold.grow rfl rfl rfl rfl rfl)
    · cases hstep
  case leave thread =>
    split at hstep <;> cases hstep
    refine ⟨hledger.limit_le, fun other otherCall hother => ?_⟩
    exact (hledger.history other otherCall (calls_leave hother)).mono rfl rfl le_rfl
  case dealloc block layout =>
    split at hstep <;> cases hstep
    exact htraced.mono ⟨rfl, rfl, rfl, rfl⟩ le_rfl

theorem nullsExplained_of_reachable {heap : BuddyHeap}
    (hreach : Reachable HeapConfig.next Orderly (booted heap) config) : config.NullsExplained := by
  have hledger : Ledger config :=
    hreach.invariant ⟨balance_booted heap, traced_booted heap⟩ fun _ _ _ hbefore horderly hstep =>
      ⟨hbefore.toBalance.next hstep, hbefore.next horderly hstep⟩
  intro thread call hcall hphase
  exact (hledger.history thread call hcall).explained (by rw [hphase]; rfl)

def bootstrapHeap : BuddyHeap :=
  ((BuddyHeap.empty.init (virtAddrStart + 0x84000000) (64 * 1024 * 1024)).toOption).getD
    BuddyHeap.empty

def wholeHeap : Layout := ⟨64 * 1024 * 1024, 8, ⟨3, rfl⟩, by decide⟩

def halfGigabyte : Layout := ⟨512 * 1024 * 1024, 8, ⟨3, rfl⟩, by decide⟩

def steps (thread : Fin 3) (count : ℕ) : List (HeapStep (Fin 3)) :=
  List.replicate count (.advance thread false)

/-- The heap is exhausted, then the two calls fail their attempts. -/
def exhaust (totalPages : ℕ) (first second : Layout) : List (HeapStep (Fin 3)) :=
  [.enableHeapGrowth totalPages, .call i₀ wholeHeap] ++ steps i₀ 2 ++
    [.call i₁ first] ++ steps i₁ 2 ++ [.call i₂ second] ++ steps i₂ 2

/-- Call 1 leads a flight which the limit refuses, and call 2 joins it. -/
def joinedRun (totalPages : ℕ) (first second : Layout) : List (HeapStep (Fin 3)) :=
  exhaust totalPages first second ++ steps i₁ 7 ++ steps i₂ 3 ++ steps i₁ 1 ++ steps i₂ 3

def returnedNull (config : HeapConfig (Fin 3)) (layout : Layout) : Bool :=
  (config.calls i₂).any fun call => call.phase = .returned none && call.layout = layout

/-- With 32 MiB of memory both calls for a span fail by the limit. -/
theorem nullsExplained_after_joinedRun : ∃ config : HeapConfig (Fin 3),
      Reachable HeapConfig.next Orderly (booted bootstrapHeap) config ∧
        returnedNull config spanLayout = true ∧ config.NullsExplained := by
  refine (exists_reachable_of_runSteps (joinedRun 8192 spanLayout spanLayout) ?_).imp
    fun config ⟨hreach, hreturned⟩ => ⟨hreach, hreturned, nullsExplained_of_reachable hreach⟩
  decide +kernel

/-- With a gigabyte of memory the limit refuses half a gigabyte, though it
would allow the 32 MiB which the joining call for a span needs. -/
theorem not_nullsExplained_of_joinedRun : ∃ config : HeapConfig (Fin 3),
      Reachable HeapConfig.next always (booted bootstrapHeap) config ∧ ¬config.NullsExplained := by
  obtain ⟨config, hreach, hreturned, hlarger⟩ : ∃ config : HeapConfig (Fin 3),
      Reachable HeapConfig.next always (booted bootstrapHeap) config ∧
        returnedNull config spanLayout = true ∧
          ∀ flight ∈ config.flights, spanLayout.size < flight.layout.size :=
    exists_reachable_of_runSteps (joinedRun 262144 halfGigabyte spanLayout) (by decide +kernel)
  refine ⟨config, hreach, ?_⟩
  intro hexplained
  cases hcall : config.calls i₂ with
  | none => simp [returnedNull, hcall] at hreturned
  | some call =>
    simp only [returnedNull, hcall, any_some, Bool.and_eq_true,
      decide_eq_true_eq] at hreturned
    obtain ⟨flight, hflight, hexplains⟩ := hexplained i₂ call hcall hreturned.1
    have hle := hexplains.size_le
    have hlt := hlarger flight hflight
    rw [hreturned.2] at hle
    omega

end HeapConfig

end Kairix.KernelHeap
