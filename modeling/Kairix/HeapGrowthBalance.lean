import Kairix.BuddyHeapBlocks
import Kairix.HeapGrowthLedger

/-!
# The balance of heap growth

A flight reserves bytes of the limit before it asks for frames; later it commits them to
the heap, whose free memory grows by them, or takes the reservation back.  In every run the
accounted bytes are those committed to the heap and those reserved by the one flight in
progress; the statistics follow one step later.
-/

namespace Kairix.KernelHeap

open LabelledRun Kairix.Frame

/-- The bytes which a leading call has reserved, and neither committed nor taken back. -/
def GrowthPhase.reserved : GrowthPhase → ℕ
  | .takeExtent _ bytes | .rollback _ bytes _ | .addExtent _ bytes _ _ => bytes
  | _ => 0

/-- The bytes which a leading call has committed, and not counted yet. -/
def GrowthPhase.uncounted : GrowthPhase → ℕ
  | .countExtent _ bytes => bytes
  | _ => 0

namespace HeapConfig

variable {τ : Type*}

/-- The accounted bytes and the counted ones, by those committed to the heap. -/
def Even (s : HeapConfig τ) (reserved uncounted : ℕ) : Prop :=
  s.accountedBytes = s.committed + reserved ∧ s.committed = s.grownBytes + uncounted

/-- At most one call leads a flight, and without one nothing is reserved. -/
structure Single (s : HeapConfig τ) : Prop where
  landed : (∀ thread call, s.calls thread = some call → call.phase.leads = false) → s.Even 0 0
  unique : ∀ first second firstCall secondCall, s.calls first = some firstCall →
    s.calls second = some secondCall → firstCall.phase.leads = true →
    secondCall.phase.leads = true → first = second

structure Balanced (config : HeapConfig τ) : Prop extends Single config where
  flying : ∀ thread call, config.calls thread = some call → call.phase.leads = true →
    config.Even call.phase.reserved call.phase.uncounted
  limited : config.accountedBytes ≤ config.growthLimit

/-- What a leading call knows about the bytes and the growth state. -/
def Accounts (s : HeapConfig τ) (layout : Layout) : GrowthPhase → Prop
  | .recheckState _ | .abandonFlight _ | .endFlight _ => s.Even 0 0
  | .checkEnabled observed => s.growState = observed ∧ s.Even 0 0
  | .loadLimit observed bytes =>
    s.growState = observed ∧ s.Even 0 0 ∧ heapGrowthSize layout = some bytes ∧
      s.growthEnabled = true
  | .loadAccounted observed bytes limit | .reserve observed bytes limit _ =>
    s.growState = observed ∧ s.Even 0 0 ∧ heapGrowthSize layout = some bytes ∧
      s.growthEnabled = true ∧ s.growthLimit = limit
  | .takeExtent observed bytes | .rollback observed bytes _ =>
    s.growState = observed ∧ s.Even bytes 0 ∧ heapGrowthSize layout = some bytes
  | .addExtent observed bytes start stop =>
    s.growState = observed ∧ s.Even bytes 0 ∧ heapGrowthSize layout = some bytes ∧
      minBlockSize ∣ start ∧ stop = start + bytes
  | .countExtent observed bytes =>
    s.growState = observed ∧ s.Even 0 bytes ∧
      kernelHeapGrowChunkSize * (successCount s.flights + 1) ≤ s.committed
  | .publish observed none =>
    s.growState = observed ∧ s.Even 0 0 ∧
      kernelHeapGrowChunkSize * (successCount s.flights + 1) ≤ s.committed
  | .publish observed (some failure) =>
    s.growState = observed ∧ s.Even 0 0 ∧
      (failure.Genuine → ∃ bytes, heapGrowthSize layout = some bytes)
  | _ => True

theorem accounts_of_not_leads {s : HeapConfig τ} {layout : Layout} {phase : GrowthPhase}
    (hphase : phase.leads = false) : s.Accounts layout phase := by
  cases phase <;> simp_all [GrowthPhase.leads, Accounts]

structure Totals (s : HeapConfig τ) : Prop where
  committed_le : s.committed ≤ s.accountedBytes
  accounted_le : s.accountedBytes ≤ s.growthLimit
  limit_lt : s.growthLimit < 2 ^ wordBits
  counted : kernelHeapGrowChunkSize * successCount s.flights ≤ s.committed
  disabled : s.growthEnabled = false → s.growthLimit = 0

structure Balance (s : HeapConfig τ) : Prop extends Totals s, Single s where
  accounts : ∀ thread call, s.calls thread = some call → s.Accounts call.layout call.phase
  flagged : ∀ thread call, s.calls thread = some call → call.phase.leads = true →
    s.growInProgress = true

variable {config s s' : HeapConfig τ} {thread other : τ} {call newCall otherCall : HeapCall}
variable {phase : GrowthPhase} {observed bytes : ℕ}

theorem balance_booted (heap : BuddyHeap) : (booted heap : HeapConfig τ).Balance where
  committed_le := le_rfl
  accounted_le := le_rfl
  limit_lt := Nat.two_pow_pos _
  counted := le_rfl
  disabled _ := rfl
  landed _ := ⟨rfl, rfl⟩
  accounts thread call hcall := by simp [booted] at hcall
  flagged thread call hcall := by simp [booted] at hcall
  unique first second firstCall secondCall hfirst := by simp [booted] at hfirst

section

variable (hbalance : s.Balance)
include hbalance

theorem Balance.balanced : s.Balanced where
  toSingle := hbalance.toSingle
  flying thread call hcall hleads := by
    have haccounts := hbalance.accounts thread call hcall
    obtain ⟨layout, phase, firstFailure, seen⟩ := call
    cases phase with
    | recheckState | abandonFlight | endFlight => exact haccounts
    | checkEnabled => exact haccounts.2
    | publish observed failure => cases failure <;> exact haccounts.2.1
    | loadLimit | loadAccounted | reserve | takeExtent | rollback | addExtent | countExtent =>
      exact haccounts.2.1
    | _ => simp [GrowthPhase.leads] at hleads
  limited := hbalance.accounted_le

theorem Balance.idle_followers (hidle : s.growInProgress = false) :
    ∀ other otherCall, s.calls other = some otherCall → otherCall.phase.leads = false := by
  intro other otherCall hother
  by_contra hleads
  have hflag := hbalance.flagged other otherCall hother (by simpa using hleads)
  simp [hidle] at hflag

/-- What is known of a call in a leading phase, and of the calls beside it. -/
theorem Balance.leading (hcall : s.calls thread = some call) (hphase : call.phase = phase)
    (hleads : phase.leads = true) :
    s.Accounts call.layout phase ∧ s.growInProgress = true ∧
      ∀ other otherCall, other ≠ thread → s.calls other = some otherCall →
        otherCall.phase.leads = false := by
  subst hphase
  refine ⟨hbalance.accounts thread call hcall, hbalance.flagged thread call hcall hleads, ?_⟩
  intro other otherCall hne hother
  by_contra hotherLeads
  exact hne (hbalance.unique other thread otherCall call hother hcall
    (by simpa using hotherLeads) hleads)

end

variable [DecidableEq τ]

/-! ## Steps of one call -/

theorem calls_setCall_cases (hother : (s.setCall thread call).calls other = some otherCall) :
    other = thread ∧ otherCall = call ∨ other ≠ thread ∧ s.calls other = some otherCall := by
  by_cases heq : other = thread
  · subst other
    refine .inl ⟨rfl, ?_⟩
    simpa [setCall] using hother.symm
  · exact .inr ⟨heq, by simpa [setCall, heq] using hother⟩

theorem Balance.follow (hbalance : s.Balance)
    (hbefore : ∀ call, s.calls thread = some call → call.phase.leads = false)
    (hafter : newCall.phase.leads = false) (heap : BuddyHeap) :
    ({ s with heap := heap }.setCall thread newCall).Balance := by
  have hsame {other : τ} {otherCall : HeapCall}
      (hother : ({ s with heap := heap }.setCall thread newCall).calls other = some otherCall)
      (hleads : otherCall.phase.leads = true) : s.calls other = some otherCall := by
    rcases calls_setCall_cases hother with ⟨-, rfl⟩ | ⟨-, hold⟩
    · simp [hafter] at hleads
    · exact hold
  exact
    { toTotals := { hbalance.toTotals with }
      landed := fun hnone => hbalance.landed fun other otherCall hother => by
        by_cases heq : other = thread
        · exact hbefore otherCall (heq ▸ hother)
        · exact hnone other otherCall (by simpa [setCall, heq] using hother)
      accounts := fun other otherCall hother => by
        cases hleads : otherCall.phase.leads with
        | false => exact accounts_of_not_leads hleads
        | true => exact hbalance.accounts other otherCall (hsame hother hleads)
      flagged := fun other otherCall hother hleads =>
        hbalance.flagged other otherCall (hsame hother hleads) hleads
      unique := fun first second firstCall secondCall hfirst hsecond hleads hsecondLeads =>
        hbalance.unique first second firstCall secondCall (hsame hfirst hleads)
          (hsame hsecond hsecondLeads) hleads hsecondLeads }

theorem Totals.lead (htotals : s.Totals)
    (hothers : ∀ other otherCall, other ≠ thread → s.calls other = some otherCall →
      otherCall.phase.leads = false) (hflag : s.growInProgress = newCall.phase.leads)
    (hlanded : newCall.phase.leads = false → s.Even 0 0)
    (haccounts : s.Accounts newCall.layout newCall.phase) :
    (s.setCall thread newCall).Balance := by
  have hlast {other : τ} {otherCall : HeapCall}
      (hother : (s.setCall thread newCall).calls other = some otherCall)
      (hleads : otherCall.phase.leads = true) : other = thread ∧ otherCall = newCall := by
    rcases calls_setCall_cases hother with hself | ⟨hne, hold⟩
    · exact hself
    · simp [hothers other otherCall hne hold] at hleads
  exact
    { toTotals := { htotals with }
      landed := fun hnone => hlanded (hnone thread newCall (by simp [setCall]))
      accounts := fun other otherCall hother => by
        cases hleads : otherCall.phase.leads with
        | false => exact accounts_of_not_leads hleads
        | true =>
          obtain ⟨-, rfl⟩ := hlast hother hleads
          exact haccounts
      flagged := fun other otherCall hother hleads => by
        obtain ⟨-, rfl⟩ := hlast hother hleads
        exact hflag.trans hleads
      unique := fun first second firstCall secondCall hfirst hsecond hleads hsecondLeads =>
        (hlast hfirst hleads).1.trans (hlast hsecond hsecondLeads).1.symm }

section

variable (hbalance : s.Balance) (hcall : s.calls thread = some call)
include hbalance hcall

theorem Balance.stay (hbefore : call.phase.leads = false) (hafter : newCall.phase.leads = false)
    (heap : BuddyHeap) : ({ s with heap := heap }.setCall thread newCall).Balance :=
  hbalance.follow (fun _ hold => Option.some.inj (hcall.symm.trans hold) ▸ hbefore) hafter heap

theorem Balance.leadOn (hleads : call.phase.leads = true) (flag : Bool) (begun : ℕ)
    (hflag : flag = newCall.phase.leads)
    (hlanded : newCall.phase.leads = false → s.Even 0 0)
    (haccounts : s.Accounts newCall.layout newCall.phase) :
    ({ s with growInProgress := flag, begun := begun }.setCall thread newCall).Balance := by
  refine Totals.lead { hbalance.toTotals with } (hbalance.leading hcall rfl hleads).2.2 hflag
    hlanded ?_
  revert haccounts
  cases newCall.phase <;> exact id

theorem Balance.goOn (hleads : call.phase.leads = true) (hnext : phase.leads = true)
    (haccounts : s.Accounts call.layout phase) :
    (s.setCall thread { call with phase := phase }).Balance :=
  hbalance.leadOn hcall hleads s.growInProgress s.begun
    ((hbalance.flagged thread call hcall hleads).trans hnext.symm) (by simp [hnext]) haccounts

theorem Balance.reserve {limit accounted : ℕ} {spurious : Bool}
    (hphase : call.phase = .reserve observed bytes limit accounted) :
    (s.reserve thread call observed bytes limit accounted spurious).Balance := by
  obtain ⟨⟨hstate, hcounted, hbytes, henabled, hlimit⟩, hflag, hothers⟩ :=
    hbalance.leading hcall hphase rfl
  have hleads : call.phase.leads = true := by rw [hphase]; rfl
  unfold HeapConfig.reserve
  split
  · exact hbalance.goOn hcall hleads rfl ⟨hstate, hcounted, fun _ => ⟨bytes, hbytes⟩⟩
  · next hfits =>
    split
    · next hswap =>
      have hswapped : accounted = s.committed := hswap.1.symm.trans hcounted.1
      refine Totals.lead { hbalance.toTotals with committed_le := ?_, accounted_le := ?_ } hothers
        hflag (by simp [GrowthPhase.leads])
        ⟨hstate, ⟨congrArg (· + bytes) hswapped, hcounted.2⟩, hbytes⟩
      · simp only [hswapped]
        omega
      · simp only
        omega
    · exact hbalance.goOn hcall hleads rfl ⟨hstate, hcounted, hbytes, henabled, hlimit⟩

theorem Balance.rollback {failure : GrowFailure}
    (hphase : call.phase = .rollback observed bytes failure) :
    (s.rollback thread call observed bytes failure).Balance := by
  obtain ⟨⟨hstate, hcounted, hbytes⟩, hflag, hothers⟩ := hbalance.leading hcall hphase rfl
  have hrestored : (s.accountedBytes + 2 ^ wordBits - bytes) % 2 ^ wordBits = s.committed := by
    have hlimit := hbalance.limit_lt
    have haccounted := hbalance.accounted_le
    have hreserved := hcounted.1
    have hshift : s.accountedBytes + 2 ^ wordBits - bytes = s.committed + 2 ^ wordBits := by omega
    rw [hshift, Nat.add_mod_right, Nat.mod_eq_of_lt (by omega)]
  exact Totals.lead
    { hbalance.toTotals with
      committed_le := hrestored.ge
      accounted_le := hrestored.le.trans (hbalance.committed_le.trans hbalance.accounted_le) }
    hothers hflag (fun _ => ⟨hrestored, hcounted.2⟩)
    ⟨hstate, ⟨hrestored, hcounted.2⟩, fun _ => ⟨bytes, hbytes⟩⟩

theorem Balance.addExtent {start stop : ℕ}
    (hphase : call.phase = .addExtent observed bytes start stop)
    (hstep : s.addExtent thread call observed start stop = some s') : s'.Balance := by
  obtain ⟨⟨hstate, hcounted, hbytes, hstart, rfl⟩, hflag, hothers⟩ :=
    hbalance.leading hcall hphase rfl
  have hcount := hbalance.counted
  have hwhole : minBlockSize ∣ bytes := by
    rw [← pages_mul_pageSize hbytes]
    exact (show minBlockSize ∣ pageSize by decide).mul_left _
  unfold HeapConfig.addExtent at hstep
  split at hstep <;> cases hstep
  next heap hheap =>
  have hgrows : heap.bytes - s.heap.bytes = bytes := by
    rw [BuddyHeap.bytes_addToHeap hstart (hstart.add hwhole) (Nat.le_add_right ..) hheap]
    omega
  rw [hgrows, Nat.add_sub_cancel_left]
  refine Totals.lead
    { hbalance.toTotals with
      committed_le := hcounted.1.ge
      counted := hcount.trans (Nat.le_add_right ..) } hothers hflag (by simp [GrowthPhase.leads])
    ⟨hstate, ⟨hcounted.1, congrArg (· + bytes) hcounted.2⟩, ?_⟩
  rw [Nat.mul_add, Nat.mul_one]
  exact Nat.add_le_add hcount (chunk_le_of_heapGrowthSize hbytes)

theorem Balance.countExtent (hphase : call.phase = .countExtent observed bytes) :
    ({ s with grownBytes := s.grownBytes + bytes }.setCall thread
      { call with phase := .publish observed none }).Balance := by
  obtain ⟨⟨hstate, hcounted, hcount⟩, hflag, hothers⟩ := hbalance.leading hcall hphase rfl
  exact Totals.lead { hbalance.toTotals with } hothers hflag (fun _ => hcounted)
    ⟨hstate, hcounted, hcount⟩

theorem Balance.publish {failure : Option GrowFailure}
    (hphase : call.phase = .publish observed failure) :
    (s.publish thread call observed failure).Balance := by
  obtain ⟨haccounts, hflag, hothers⟩ := hbalance.leading hcall hphase rfl
  have hequal : s.Even 0 0 := by
    cases failure <;> exact haccounts.2.1
  refine Totals.lead { hbalance.toTotals with counted := ?_ } hothers hflag (fun _ => hequal) hequal
  simp only [successCount, List.countP_append]
  cases failure with
  | none => exact haccounts.2.2
  | some failure => exact hbalance.counted

theorem Balance.checkEnabled (hphase : call.phase = .checkEnabled observed) :
    (s.setCall thread { call with phase := s.checkEnabled call.layout observed }).Balance := by
  obtain ⟨⟨hstate, hcounted⟩, -⟩ := hbalance.leading hcall hphase rfl
  have hleads : call.phase.leads = true := by rw [hphase]; rfl
  simp only [HeapConfig.checkEnabled]
  split
  · next henabled =>
    split
    · exact hbalance.goOn hcall hleads rfl ⟨hstate, hcounted, False.elim⟩
    · next bytes hbytes =>
      exact hbalance.goOn hcall hleads rfl ⟨hstate, hcounted, hbytes, henabled⟩
  · exact hbalance.goOn hcall hleads rfl ⟨hstate, hcounted, False.elim⟩

theorem Balance.advance {spurious : Bool} (hstep : s.advance thread call spurious = some s') :
    s'.Balance := by
  have haccounts := hbalance.accounts thread call hcall
  have hflagged := hbalance.flagged thread call hcall
  obtain ⟨layout, phase, firstFailure, seen⟩ := call
  unfold HeapConfig.advance at hstep
  cases phase with
  | snapshot =>
    cases hstep
    exact hbalance.stay hcall rfl rfl s.heap
  | attempt observed =>
    simp only [HeapConfig.attempt] at hstep
    split at hstep <;> cases hstep <;> exact hbalance.stay hcall rfl rfl _
  | checkState observed | compareSuccesses observed | pollFlag observed | pollState observed =>
    cases hstep
    split <;> exact hbalance.stay hcall rfl rfl s.heap
  | claimFlight observed =>
    simp only at hstep
    split at hstep <;> cases hstep
    · exact hbalance.stay hcall rfl rfl s.heap
    · next hidle =>
      have hnone := hbalance.idle_followers (by simpa using hidle)
      have hequal := hbalance.landed hnone
      exact Totals.lead { hbalance.toTotals with } (fun other otherCall _ => hnone other otherCall)
        rfl (fun _ => hequal) hequal
  | recheckState observed =>
    simp only at hstep
    split at hstep <;> cases hstep
    · next hstate =>
      exact hbalance.leadOn hcall rfl s.growInProgress (s.begun + 1) (hflagged rfl)
        (fun _ => haccounts) ⟨hstate, haccounts⟩
    · exact hbalance.goOn hcall rfl rfl haccounts
  | abandonFlight observed =>
    cases hstep
    exact hbalance.leadOn hcall rfl false s.begun rfl (fun _ => haccounts) trivial
  | checkEnabled observed =>
    cases hstep
    exact hbalance.checkEnabled hcall rfl
  | loadLimit observed bytes =>
    cases hstep
    obtain ⟨hstate, hcounted, hbytes, henabled⟩ := haccounts
    exact hbalance.goOn hcall rfl rfl ⟨hstate, hcounted, hbytes, henabled, rfl⟩
  | loadAccounted observed bytes limit =>
    cases hstep
    exact hbalance.goOn hcall rfl rfl haccounts
  | reserve observed bytes limit accounted =>
    cases hstep
    exact hbalance.reserve hcall rfl
  | rollback observed bytes failure =>
    cases hstep
    exact hbalance.rollback hcall rfl
  | addExtent observed bytes start stop => exact hbalance.addExtent hcall rfl hstep
  | countExtent observed bytes =>
    cases hstep
    exact hbalance.countExtent hcall rfl
  | publish observed failure =>
    cases hstep
    exact hbalance.publish hcall rfl
  | endFlight failure =>
    cases hstep
    cases failure <;>
      exact hbalance.leadOn hcall rfl false s.begun rfl (fun _ => haccounts) trivial
  | takeExtent observed bytes | returned result => simp at hstep

theorem Balance.receiveExtent {extent : Option FrameExtent}
    (hphase : call.phase = .takeExtent observed bytes)
    (hpages : ∀ pages ∈ extent.map FrameExtent.pages, pages = bytes / pageSize) :
    (s.setCall thread
      { call with phase := HeapConfig.receiveExtent observed bytes extent }).Balance := by
  obtain ⟨⟨hstate, hcounted, hbytes⟩, -⟩ := hbalance.leading hcall hphase rfl
  have hleads : call.phase.leads = true := by rw [hphase]; rfl
  cases extent with
  | none => exact hbalance.goOn hcall hleads rfl ⟨hstate, hcounted, hbytes⟩
  | some extent =>
    rw [HeapConfig.receiveExtent]
    cases haddresses : extentAddresses extent with
    | none => exact hbalance.goOn hcall hleads rfl ⟨hstate, hcounted, hbytes⟩
    | some addresses =>
      obtain ⟨hstart, hstop⟩ := extentAddresses_spec haddresses
      refine hbalance.goOn hcall hleads rfl ⟨hstate, hcounted, hbytes, hstart, ?_⟩
      rw [hstop, hpages extent.pages rfl, pages_mul_pageSize hbytes]

end

/-! ## Every step -/

theorem calls_leave (hother : Function.update s.calls thread none other = some otherCall) :
    s.calls other = some otherCall := by
  by_cases heq : other = thread
  · simp [heq] at hother
  · simpa [heq] using hother

section

variable (hbalance : s.Balance)
include hbalance

omit [DecidableEq τ] in
theorem Balance.enableHeapGrowth (hdisabled : s.growthEnabled = false) (totalPages : ℕ) :
    (s.enableHeapGrowth totalPages).Balance := by
  have hzero : s.accountedBytes = 0 :=
    Nat.le_zero.mp (hbalance.disabled hdisabled ▸ hbalance.accounted_le)
  refine { hbalance with
    accounted_le := hzero.le.trans (Nat.zero_le _)
    limit_lt := ?_
    disabled := fun henabled => by simp [HeapConfig.enableHeapGrowth] at henabled
    accounts := fun thread call hcall => ?_ }
  · calc min (totalPages * pageSize) (2 ^ wordBits - 1) / kernelHeapMaxPhysFraction
        ≤ 2 ^ wordBits - 1 := (Nat.div_le_self ..).trans (min_le_right ..)
      _ < 2 ^ wordBits := Nat.sub_lt (Nat.two_pow_pos _) one_pos
  · have haccounts := hbalance.accounts thread call hcall
    obtain ⟨layout, phase, firstFailure, seen⟩ := call
    cases phase with
    | loadLimit | loadAccounted | reserve => simp [Accounts, hdisabled] at haccounts
    | publish observed failure => cases failure <;> exact haccounts
    | _ => exact haccounts

theorem Balance.leave (hcall : s.calls thread = some call) (hphase : call.phase.leads = false) :
    { s with calls := Function.update s.calls thread none }.Balance := by
  exact { hbalance with
    landed := fun hnone => hbalance.landed fun other otherCall hother => by
      by_cases heq : other = thread
      · obtain rfl := Option.some.inj (hcall.symm.trans (heq ▸ hother))
        exact hphase
      · exact hnone other otherCall (by simpa [heq] using hother)
    accounts := fun other otherCall hother => hbalance.accounts other otherCall (calls_leave hother)
    flagged := fun other otherCall hother => hbalance.flagged other otherCall (calls_leave hother)
    unique := fun first second firstCall secondCall hfirst hsecond =>
      hbalance.unique first second firstCall secondCall (calls_leave hfirst) (calls_leave hsecond) }

theorem Balance.next {step : HeapStep τ} (hstep : s.next step = some s') : s'.Balance := by
  cases step <;> simp only [HeapConfig.next] at hstep
  case enableHeapGrowth totalPages =>
    split at hstep <;> cases hstep
    next hdisabled => exact hbalance.enableHeapGrowth (by simpa using hdisabled) totalPages
  case call thread layout =>
    split at hstep <;> cases hstep
    next hnone => exact hbalance.follow (by simp [hnone]) rfl s.heap
  case advance thread spurious =>
    split at hstep
    · cases hstep
    · next call hcall => exact hbalance.advance hcall hstep
  case takeExtent thread extent =>
    split at hstep
    · next hcall =>
      split at hstep <;> cases hstep
      next hpages => exact hbalance.receiveExtent hcall rfl hpages
    · cases hstep
  case leave thread =>
    split at hstep <;> cases hstep
    next hcall => exact hbalance.leave hcall rfl
  case dealloc block layout =>
    split at hstep <;> cases hstep
    exact { hbalance with }

end

theorem balanced_of_reachable {heap : BuddyHeap}
    (hreach : Reachable HeapConfig.next always (booted heap) config) : config.Balanced := by
  have hbalance : config.Balance :=
    hreach.invariant (balance_booted heap) fun _ _ _ hbefore _ hstep => hbefore.next hstep
  exact hbalance.balanced

def spanLayout : Layout := ⟨64 * 1024, 64 * 1024, ⟨16, rfl⟩, by decide⟩

/-- With a gigabyte of memory and no heap yet, a call has added 32 MiB to the heap and not
counted them. -/
theorem balanced_after_addExtent : ∃ config : HeapConfig (Fin 1),
    Reachable HeapConfig.next always (booted BuddyHeap.empty) config ∧
      config.accountedBytes = kernelHeapGrowChunkSize ∧
        config.heap.bytes = kernelHeapGrowChunkSize ∧ config.grownBytes = 0 ∧
          config.Balanced := by
  obtain ⟨config, hreach, haccounted, hheap, hgrown⟩ : ∃ config : HeapConfig (Fin 1),
      Reachable HeapConfig.next always (booted BuddyHeap.empty) config ∧
        config.accountedBytes = kernelHeapGrowChunkSize ∧
          config.heap.bytes = kernelHeapGrowChunkSize ∧ config.grownBytes = 0 :=
    exists_reachable_of_runSteps ([.enableHeapGrowth 262144, .call 0 spanLayout] ++
      List.replicate 9 (.advance 0 false) ++
        [.takeExtent 0 (some ⟨0x88000, 8192⟩), .advance 0 false]) (by decide +kernel)
  exact ⟨config, hreach, haccounted, hheap, hgrown, balanced_of_reachable hreach⟩

end HeapConfig

end Kairix.KernelHeap
