import Kairix.BuddyHeap
import Kairix.FrameAllocator
import Kairix.LabelledRun

/-!
# Growing the kernel heap

A call of `alloc_from_global_heap` which finds no block joins or leads a growth
flight.  The outcome of a flight is published in one packed word which counts
the completed and the successful flights; joiners only compare that word with
the snapshot they took before their attempt.  Every access to a shared word and
every section under the heap lock is one step.  The frame allocator answers a
request for an extent in an arbitrary way.

The list of completed flights, the number of flights begun, the bytes by which
flights have enlarged the heap, the number a call saw when its first attempt
failed and the number of flights completed at its snapshot are history, which no
step reads.
-/

namespace Kairix.KernelHeap

open Kairix.Frame LabelledRun List

def kernelHeapGrowChunkSize : ℕ := 32 * 1024 * 1024

def kernelHeapMaxPhysFraction : ℕ := 4

@[irreducible] def virtAddrStart : ℕ := 0xffffffc000000000

def usizeBytes : ℕ := 8

inductive GrowFailure where
  | disabled
  | layout
  | limit
  | frames
  deriving DecidableEq, Repr

def heapGrowthSize (layout : Layout) : Option ℕ :=
  match checkedNextPowerOfTwo (max (max layout.size layout.align) usizeBytes) with
  | none => none
  | some required =>
    if kernelHeapOrder ≤ DyadicBlock.trailingZeros wordBits required then none
    else some (max required kernelHeapGrowChunkSize)

def heapGrowStateCounterBits : ℕ := wordBits / 2

def heapGrowthCompletions (state : ℕ) : ℕ := state / 2 ^ heapGrowStateCounterBits

def heapGrowthSuccesses (state : ℕ) : ℕ := state % 2 ^ heapGrowStateCounterBits

def nextHeapGrowthState (state : ℕ) (succeeded : Bool) : ℕ :=
  let completions := (heapGrowthCompletions state + 1) % 2 ^ heapGrowStateCounterBits
  let successes :=
    (heapGrowthSuccesses state + succeeded.toNat) % 2 ^ heapGrowStateCounterBits
  completions * 2 ^ heapGrowStateCounterBits + successes

/-- Where a call of `alloc_from_global_heap` stands.  Every phase from
`attempt` on keeps the growth state observed at the top of the loop; the phases
from `recheckState` to `endFlight` hold the flag of the flight in progress,
except for the two which only compare. -/
inductive GrowthPhase where
  | snapshot
  | attempt (observed : ℕ)
  | checkState (observed : ℕ)
  | compareSuccesses (observed : ℕ)
  | claimFlight (observed : ℕ)
  | pollFlag (observed : ℕ)
  | pollState (observed : ℕ)
  | recheckState (observed : ℕ)
  | abandonFlight (observed : ℕ)
  | checkEnabled (observed : ℕ)
  | loadLimit (observed bytes : ℕ)
  | loadAccounted (observed bytes limit : ℕ)
  | reserve (observed bytes limit accounted : ℕ)
  | takeExtent (observed bytes : ℕ)
  | rollback (observed bytes : ℕ) (failure : GrowFailure)
  | addExtent (observed bytes start stop : ℕ)
  | countExtent (observed bytes : ℕ)
  | publish (observed : ℕ) (failure : Option GrowFailure)
  | endFlight (failure : Option GrowFailure)
  | returned (result : Option ℕ)
  deriving DecidableEq, Repr

structure HeapCall where
  layout : Layout
  phase : GrowthPhase
  firstFailure : Option ℕ
  seen : ℕ
  deriving DecidableEq

structure GrowthFlight where
  layout : Layout
  serial : ℕ
  failure : Option GrowFailure
  deriving DecidableEq

structure HeapConfig (τ : Type*) where
  heap : BuddyHeap
  growthEnabled : Bool
  growthLimit : ℕ
  growInProgress : Bool
  growState : ℕ
  accountedBytes : ℕ
  grownBytes : ℕ
  committed : ℕ
  calls : τ → Option HeapCall
  flights : List GrowthFlight
  begun : ℕ

namespace HeapConfig

variable {τ : Type*} [DecidableEq τ]

def booted (heap : BuddyHeap) : HeapConfig τ where
  heap := heap
  growthEnabled := false
  growthLimit := 0
  growInProgress := false
  growState := 0
  accountedBytes := 0
  grownBytes := 0
  committed := 0
  calls := fun _ => none
  flights := []
  begun := 0

variable (config s : HeapConfig τ) (thread : τ)

def setCall (call : HeapCall) : HeapConfig τ :=
  { config with calls := Function.update config.calls thread (some call) }

def enableHeapGrowth (totalPages : ℕ) : HeapConfig τ :=
  { config with
    growthLimit := min (totalPages * pageSize) (2 ^ wordBits - 1) / kernelHeapMaxPhysFraction
    growthEnabled := true }

/-! ## The steps of a call -/

def extentAddresses (extent : FrameExtent) : Option (ℕ × ℕ) :=
  let start := extent.start * pageSize + virtAddrStart
  if start + extent.pages * pageSize < 2 ^ wordBits then
    some (start, start + extent.pages * pageSize)
  else none

def placeExtent (observed bytes : ℕ) : Option (ℕ × ℕ) → GrowthPhase
  | none => .rollback observed bytes .layout
  | some (start, stop) => .addExtent observed bytes start stop

def receiveExtent (observed bytes : ℕ) : Option FrameExtent → GrowthPhase
  | none => .rollback observed bytes .frames
  | some extent => placeExtent observed bytes (extentAddresses extent)

def attempt (call : HeapCall) (observed : ℕ) : Option (HeapConfig τ) :=
  match config.heap.alloc call.layout with
  | .error _ => none
  | .ok (some address, heap) =>
    some ({ config with heap := heap }.setCall thread
      { call with phase := .returned (some address) })
  | .ok (none, heap) =>
    some ({ config with heap := heap }.setCall thread
      { call with
        phase := .checkState observed
        firstFailure := call.firstFailure.or (some config.begun) })

def checkEnabled (layout : Layout) (observed : ℕ) : GrowthPhase :=
  if config.growthEnabled then
    match heapGrowthSize layout with
    | none => .publish observed (some .layout)
    | some bytes => .loadLimit observed bytes
  else .publish observed (some .disabled)

/-- One round of the loop of `reserve_heap_growth`. -/
def reserve (config : HeapConfig τ) (thread : τ) (call : HeapCall)
    (observed bytes limit accounted : ℕ) (spurious : Bool) : HeapConfig τ :=
  if 2 ^ wordBits ≤ accounted + bytes ∨ limit < accounted + bytes then
    config.setCall thread { call with phase := .publish observed (some .limit) }
  else if config.accountedBytes = accounted ∧ spurious = false then
    { config with accountedBytes := accounted + bytes }.setCall thread
      { call with phase := .takeExtent observed bytes }
  else
    config.setCall thread { call with phase := .reserve observed bytes limit config.accountedBytes }

def rollback (call : HeapCall) (observed bytes : ℕ) (failure : GrowFailure) : HeapConfig τ :=
  { config with
    accountedBytes := (config.accountedBytes + 2 ^ wordBits - bytes) % 2 ^ wordBits }.setCall
      thread { call with phase := .publish observed (some failure) }

def addExtent (call : HeapCall) (observed start stop : ℕ) : Option (HeapConfig τ) :=
  match config.heap.addToHeap start stop with
  | .error _ => none
  | .ok heap =>
    some ({ config with
      heap := heap
      committed := config.committed + (heap.bytes - config.heap.bytes) }.setCall thread
        { call with phase := .countExtent observed (stop - start) })

def publish (call : HeapCall) (observed : ℕ) (failure : Option GrowFailure) : HeapConfig τ :=
  { config with
    growState := nextHeapGrowthState observed failure.isNone
    flights := config.flights ++ [GrowthFlight.mk call.layout (config.begun - 1) failure] }.setCall
      thread { call with phase := .endFlight failure }

def advance (call : HeapCall) (spurious : Bool) : Option (HeapConfig τ) :=
  let goto phase := config.setCall thread { call with phase := phase }
  match call.phase with
  | .snapshot =>
    some (config.setCall thread
      { call with phase := .attempt config.growState, seen := config.flights.length })
  | .attempt observed => config.attempt thread call observed
  | .checkState observed =>
    some (goto (if config.growState = observed then .claimFlight observed
      else .compareSuccesses observed))
  | .compareSuccesses observed =>
    some (goto (if heapGrowthSuccesses config.growState = heapGrowthSuccesses observed
      then .returned none else .snapshot))
  | .claimFlight observed =>
    if config.growInProgress then some (goto (.pollFlag observed))
    else some ({ config with growInProgress := true }.setCall thread
      { call with phase := .recheckState observed })
  | .pollFlag observed =>
    some (goto (if config.growInProgress then .pollState observed else .checkState observed))
  | .pollState observed =>
    some (goto (if config.growState = observed then .pollFlag observed
      else .checkState observed))
  | .recheckState observed =>
    if config.growState = observed then
      some ({ config with begun := config.begun + 1 }.setCall thread
        { call with phase := .checkEnabled observed })
    else some (goto (.abandonFlight observed))
  | .abandonFlight observed =>
    some ({ config with growInProgress := false }.setCall thread
      { call with phase := .compareSuccesses observed })
  | .checkEnabled observed => some (goto (config.checkEnabled call.layout observed))
  | .loadLimit observed bytes =>
    some (goto (.loadAccounted observed bytes config.growthLimit))
  | .loadAccounted observed bytes limit =>
    some (goto (.reserve observed bytes limit config.accountedBytes))
  | .reserve observed bytes limit accounted =>
    some (config.reserve thread call observed bytes limit accounted spurious)
  | .takeExtent _ _ => none
  | .rollback observed bytes failure =>
    some (config.rollback thread call observed bytes failure)
  | .addExtent observed _ start stop => config.addExtent thread call observed start stop
  | .countExtent observed bytes =>
    some ({ config with grownBytes := config.grownBytes + bytes }.setCall thread
      { call with phase := .publish observed none })
  | .publish observed failure => some (config.publish thread call observed failure)
  | .endFlight failure =>
    some ({ config with growInProgress := false }.setCall thread
      { call with phase := if failure.isNone then .snapshot else .returned none })
  | .returned _ => none

end HeapConfig

/-- The steps of the system.  An extent has the pages it was asked for, and
`spurious` lets the weak compare-and-exchange fail. -/
inductive HeapStep (τ : Type*) where
  | enableHeapGrowth (totalPages : ℕ)
  | call (thread : τ) (layout : Layout)
  | advance (thread : τ) (spurious : Bool)
  | takeExtent (thread : τ) (extent : Option FrameExtent)
  | leave (thread : τ)
  | dealloc (block : ℕ) (layout : Layout)

namespace HeapConfig

variable {τ : Type*} [DecidableEq τ]

def next (config : HeapConfig τ) : HeapStep τ → Option (HeapConfig τ)
  | .enableHeapGrowth totalPages =>
    if config.growthEnabled then none else some (config.enableHeapGrowth totalPages)
  | .call thread layout =>
    match config.calls thread with
    | none => some (config.setCall thread ⟨layout, .snapshot, none, 0⟩)
    | some _ => none
  | .advance thread spurious =>
    match config.calls thread with
    | none => none
    | some call => config.advance thread call spurious
  | .takeExtent thread extent =>
    match config.calls thread with
    | some ⟨layout, .takeExtent observed bytes, firstFailure, seen⟩ =>
      if ∀ pages ∈ extent.map FrameExtent.pages, pages = bytes / pageSize then
        some (config.setCall thread
          ⟨layout, receiveExtent observed bytes extent, firstFailure, seen⟩)
      else none
    | _ => none
  | .leave thread =>
    match config.calls thread with
    | some ⟨_, .returned _, _, _⟩ =>
      some { config with calls := Function.update config.calls thread none }
    | _ => none
  | .dealloc block layout =>
    match config.heap.dealloc block layout with
    | .error _ => none
    | .ok heap => some { config with heap := heap }

end HeapConfig

/-! ## Sizes -/

variable {layout : Layout} {bytes : ℕ}

section

variable (hbytes : heapGrowthSize layout = some bytes)
include hbytes

theorem heapGrowthSize_eq_pow : ∃ exponent, 25 ≤ exponent ∧ bytes = 2 ^ exponent := by
  unfold heapGrowthSize at hbytes
  split at hbytes
  · simp at hbytes
  · next required hrequired =>
    split at hbytes
    · simp at hbytes
    · have hchunk : kernelHeapGrowChunkSize = 2 ^ 25 := rfl
      cases hbytes
      rw [checkedNextPowerOfTwo_eq_some hrequired, nextPowerOfTwo, hchunk]
      rcases le_total (Nat.clog 2 (max (max layout.size layout.align) usizeBytes)) 25 with
        hsmall | hlarge
      · exact ⟨25, le_rfl, max_eq_right (Nat.pow_le_pow_right two_pos hsmall)⟩
      · exact ⟨_, hlarge, max_eq_left (Nat.pow_le_pow_right two_pos hlarge)⟩

theorem chunk_le_of_heapGrowthSize : kernelHeapGrowChunkSize ≤ bytes := by
  obtain ⟨exponent, hexponent, rfl⟩ := heapGrowthSize_eq_pow hbytes
  exact Nat.pow_le_pow_right two_pos hexponent

theorem pages_mul_pageSize : bytes / pageSize * pageSize = bytes := by
  obtain ⟨exponent, hexponent, rfl⟩ := heapGrowthSize_eq_pow hbytes
  have hpage : pageSize = 2 ^ 12 := rfl
  rw [hpage]
  exact Nat.div_mul_cancel (pow_dvd_pow 2 (by omega))

end

theorem HeapConfig.extentAddresses_spec {extent : FrameExtent} {start stop : ℕ}
    (haddresses : HeapConfig.extentAddresses extent = some (start, stop)) :
    minBlockSize ∣ start ∧ stop = start + extent.pages * pageSize := by
  have hbase : minBlockSize ∣ extent.start * pageSize + virtAddrStart := by
    have hpage : minBlockSize ∣ pageSize := by decide
    have hvirtual : minBlockSize ∣ virtAddrStart := by
      unfold virtAddrStart
      decide
    exact (hpage.mul_left _).add hvirtual
  unfold HeapConfig.extentAddresses at haddresses
  generalize extent.start * pageSize + virtAddrStart = base at haddresses hbase
  simp only [Option.ite_none_right_eq_some, Option.some.injEq, Prod.mk.injEq] at haddresses
  obtain ⟨-, rfl, rfl⟩ := haddresses
  exact ⟨hbase, rfl⟩

/-! ## Flights -/

def GrowthPhase.leads : GrowthPhase → Bool
  | .recheckState _ | .abandonFlight _ | .checkEnabled _ | .loadLimit _ _
  | .loadAccounted _ _ _ | .reserve _ _ _ _ | .takeExtent _ _ | .rollback _ _ _
  | .addExtent _ _ _ _ | .countExtent _ _ | .publish _ _ | .endFlight _ => true
  | _ => false

def GrowFailure.Genuine : GrowFailure → Prop
  | .limit | .frames => True
  | .disabled | .layout => False

instance : DecidablePred GrowFailure.Genuine
  | .limit | .frames => instDecidableTrue
  | .disabled | .layout => instDecidableFalse

def successCount (flights : List GrowthFlight) : ℕ :=
  flights.countP fun flight => flight.failure.isNone

/-- A failed growth explains the failure of a call for `layout`: it was
attempted after the first failed attempt of the call, it was large enough for
the layout, and it was not started for a larger one. -/
structure Explains (flight : GrowthFlight) (layout : Layout) (firstFailure : Option ℕ) :
    Prop where
  genuine : ∃ failure, flight.failure = some failure ∧ failure.Genuine
  attempted : ∃ attempts, firstFailure = some attempts ∧ attempts ≤ flight.serial
  sized : ∃ bytes need, heapGrowthSize flight.layout = some bytes ∧
    heapGrowthSize layout = some need ∧ need ≤ bytes
  size_le : flight.layout.size ≤ layout.size
  align_le : flight.layout.align ≤ layout.align

def HeapConfig.NullsExplained {τ : Type*} (config : HeapConfig τ) : Prop :=
  ∀ thread call, config.calls thread = some call → call.phase = .returned none →
    ∃ flight ∈ config.flights, Explains flight call.layout call.firstFailure

def GrowthPhase.observed : GrowthPhase → Option ℕ
  | .attempt observed | .checkState observed | .compareSuccesses observed
  | .claimFlight observed | .pollFlag observed | .pollState observed
  | .recheckState observed | .abandonFlight observed | .checkEnabled observed
  | .loadLimit observed _ | .loadAccounted observed _ _ | .reserve observed _ _ _
  | .takeExtent observed _ | .rollback observed _ _ | .addExtent observed _ _ _
  | .countExtent observed _ | .publish observed _ => some observed
  | .snapshot | .endFlight _ | .returned _ => none

def GrowthPhase.publishes : GrowthPhase → Option GrowFailure
  | .publish _ failure => failure
  | _ => none

/-- A call which holds a snapshot asks for the layout of the failing flight,
and its attempt failed before the flight began. -/
def HeapCall.Joins (call : HeapCall) (layout : Layout) (begun : ℕ) : Prop :=
  call.phase.observed ≠ none →
    call.layout = layout ∧ ∃ attempts ∈ call.firstFailure, attempts < begun

instance (call : HeapCall) (layout : Layout) (begun : ℕ) :
    Decidable (call.Joins layout begun) :=
  inferInstanceAs (Decidable (_ → _))

def advanceState (state : ℕ) (flights : List GrowthFlight) : ℕ :=
  flights.foldl (fun word flight => nextHeapGrowthState word flight.failure.isNone) state

theorem heapGrowthSuccesses_next (state : ℕ) (succeeded : Bool) :
    heapGrowthSuccesses (nextHeapGrowthState state succeeded) =
      (heapGrowthSuccesses state + succeeded.toNat) % 2 ^ heapGrowStateCounterBits := by
  unfold nextHeapGrowthState
  rw [heapGrowthSuccesses, Nat.mul_add_mod_of_lt (Nat.mod_lt _ (Nat.two_pow_pos _))]

theorem heapGrowthSuccesses_advanceState (state : ℕ) (flights : List GrowthFlight) :
    heapGrowthSuccesses (advanceState state flights) =
      (heapGrowthSuccesses state + successCount flights) % 2 ^ heapGrowStateCounterBits := by
  induction flights generalizing state with
  | nil =>
    rw [advanceState, foldl_nil, successCount, countP_nil, Nat.add_zero,
      heapGrowthSuccesses, Nat.mod_mod]
  | cons flight rest ih =>
    have hcount : successCount (flight :: rest) =
        flight.failure.isNone.toNat + successCount rest := by
      rw [successCount, countP_cons, ← successCount]
      cases flight.failure <;> simp [Nat.add_comm]
    rw [advanceState, foldl_cons, ← advanceState, ih, heapGrowthSuccesses_next,
      Nat.mod_add_mod, hcount, Nat.add_assoc]

/-- If flights were completed and the success counter still reads the same, one
of them failed, as long as the counter cannot have wrapped. -/
theorem exists_failed_of_successes_eq {state : ℕ} {flights : List GrowthFlight}
    (hnonempty : flights ≠ []) (hcount : successCount flights < 2 ^ heapGrowStateCounterBits)
    (hsame : heapGrowthSuccesses (advanceState state flights) = heapGrowthSuccesses state) :
    ∃ flight ∈ flights, flight.failure ≠ none := by
  by_contra hnone
  push Not at hnone
  have hall : successCount flights = flights.length :=
    countP_eq_length.mpr fun flight hflight => by simp [hnone flight hflight]
  rw [heapGrowthSuccesses_advanceState] at hsame
  have hlength : 0 < flights.length := length_pos_iff.mpr hnonempty
  have hstate : heapGrowthSuccesses state < 2 ^ heapGrowStateCounterBits :=
    Nat.mod_lt _ (Nat.two_pow_pos _)
  rcases Nat.lt_or_ge (heapGrowthSuccesses state + successCount flights)
    (2 ^ heapGrowStateCounterBits) with hsmall | hlarge
  · rw [Nat.mod_eq_of_lt hsmall] at hsame
    omega
  · rw [Nat.mod_eq_sub_mod hlarge, Nat.mod_eq_of_lt (by omega)] at hsame
    omega

/-! ## The history of the calls -/

def GrowthPhase.pastAttempt : GrowthPhase → Bool
  | .snapshot | .attempt _ | .returned _ => false
  | _ => true

def GrowthPhase.grows : GrowthPhase → Bool
  | .checkEnabled _ | .loadLimit _ _ | .loadAccounted _ _ _ | .reserve _ _ _ _
  | .takeExtent _ _ | .rollback _ _ _ | .addExtent _ _ _ _ | .countExtent _ _
  | .publish _ _ => true
  | _ => false

def GrowthPhase.compares : GrowthPhase → Bool
  | .compareSuccesses _ | .abandonFlight _ => true
  | _ => false

def GrowthPhase.failed : GrowthPhase → Bool
  | .endFlight (some _) | .returned none => true
  | _ => false

namespace HeapConfig

variable {τ : Type*}

/-- The growth state is the snapshot of the call advanced by the flights
completed since, and those of them which failed explain the call. -/
structure Pending (s : HeapConfig τ) (call : HeapCall) (observed : ℕ) : Prop where
  seen_le : call.seen ≤ s.flights.length
  state_eq : s.growState = advanceState observed (s.flights.drop call.seen)
  explained : ∀ flight ∈ s.flights.drop call.seen, flight.failure ≠ none →
    Explains flight call.layout call.firstFailure

structure CallHistory (s : HeapConfig τ) (call : HeapCall) : Prop where
  pending : ∀ observed, call.phase.observed = some observed → s.Pending call observed
  recorded : call.phase.pastAttempt = true → call.firstFailure ≠ none
  recorded_le : ∀ attempts, call.firstFailure = some attempts → attempts ≤ s.begun
  begun_lt : call.phase.grows = true → ∀ attempts, call.firstFailure = some attempts →
    attempts < s.begun
  missed : call.phase.compares = true → s.flights.drop call.seen ≠ []
  explained : call.phase.failed = true →
    ∃ flight ∈ s.flights, Explains flight call.layout call.firstFailure

variable {s s' : HeapConfig τ} {call : HeapCall} {phase : GrowthPhase}

section

variable (hhistory : s.CallHistory call)
include hhistory

theorem CallHistory.mono (hstate : s'.growState = s.growState)
    (hflights : s'.flights = s.flights) (hbegun : s.begun ≤ s'.begun) :
    s'.CallHistory call where
  pending := by
    intro observed hobserved
    obtain ⟨hseen, heq, hexplained⟩ := hhistory.pending observed hobserved
    exact ⟨by rwa [hflights], by rw [hstate, hflights, heq], by rwa [hflights]⟩
  recorded := hhistory.recorded
  recorded_le := fun attempts hattempts =>
    (hhistory.recorded_le attempts hattempts).trans hbegun
  begun_lt := fun hgrows attempts hattempts =>
    (hhistory.begun_lt hgrows attempts hattempts).trans_le hbegun
  missed := by rw [hflights]; exact hhistory.missed
  explained := by rw [hflights]; exact hhistory.explained

theorem CallHistory.goto
    (hobserved : ∀ observed, phase.observed = some observed → call.phase.observed = some observed)
    (hpast : phase.pastAttempt = true → call.phase.pastAttempt = true)
    (hgrows : phase.grows = true → ∀ attempts, call.firstFailure = some attempts →
      attempts < s.begun)
    (hmissed : phase.compares = true → s.flights.drop call.seen ≠ [])
    (hfailed : phase.failed = true →
      ∃ flight ∈ s.flights, Explains flight call.layout call.firstFailure) :
    s.CallHistory { call with phase := phase } where
  pending := by
    intro observed hnew
    obtain ⟨hseen, heq, hexplained⟩ := hhistory.pending observed (hobserved observed hnew)
    exact ⟨hseen, heq, hexplained⟩
  recorded := fun hnew => hhistory.recorded (hpast hnew)
  recorded_le := hhistory.recorded_le
  begun_lt := hgrows
  missed := hmissed
  explained := hfailed

section

variable (hobserved : phase.observed = call.phase.observed) (hpast : call.phase.pastAttempt = true)
include hobserved hpast

theorem CallHistory.wait (hgrows : phase.grows = false)
    (hmissed : phase.compares = true → s.flights.drop call.seen ≠ [])
    (hfailed : phase.failed = false) : s.CallHistory { call with phase := phase } := by
  refine hhistory.goto ?_ (fun _ => hpast) ?_ hmissed ?_
  · rw [hobserved]
    exact fun _ => id
  · simp [hgrows]
  · simp [hfailed]

theorem CallHistory.grow (hgrows : call.phase.grows = true) (hcompares : phase.compares = false)
    (hfailed : phase.failed = false) : s.CallHistory { call with phase := phase } := by
  refine hhistory.goto ?_ (fun _ => hpast) (fun _ => hhistory.begun_lt hgrows) ?_ ?_
  · rw [hobserved]
    exact fun _ => id
  · simp [hcompares]
  · simp [hfailed]

end

theorem CallHistory.finish (hobserved : phase.observed = none) (hpast : phase.pastAttempt = false)
    (hgrows : phase.grows = false) (hcompares : phase.compares = false)
    (hfailed : phase.failed = true →
      ∃ flight ∈ s.flights, Explains flight call.layout call.firstFailure) :
    s.CallHistory { call with phase := phase } := by
  refine hhistory.goto ?_ ?_ ?_ ?_ hfailed
  · simp [hobserved]
  · simp [hpast]
  · simp [hgrows]
  · simp [hcompares]

theorem CallHistory.publish {flight : GrowthFlight}
    (hstate : s'.growState = nextHeapGrowthState s.growState flight.failure.isNone)
    (hflights : s'.flights = s.flights ++ [flight]) (hbegun : s'.begun = s.begun)
    (hexplains : call.phase.observed ≠ none → flight.failure ≠ none →
      Explains flight call.layout call.firstFailure) :
    s'.CallHistory call where
  pending := by
    intro observed hobserved
    obtain ⟨hseen, heq, hexplained⟩ := hhistory.pending observed hobserved
    have hdrop : s'.flights.drop call.seen = s.flights.drop call.seen ++ [flight] := by
      rw [hflights, drop_append_of_le_length hseen]
    refine ⟨?_, ?_, ?_⟩
    · rw [hflights, length_append]
      exact hseen.trans (Nat.le_add_right ..)
    · rw [hstate, hdrop, heq, advanceState, advanceState, foldl_append]
      rfl
    · intro other hother hfailed
      rw [hdrop, mem_append, mem_singleton] at hother
      rcases hother with hother | rfl
      · exact hexplained other hother hfailed
      · exact hexplains (by simp [hobserved]) hfailed
  recorded := hhistory.recorded
  recorded_le := by rw [hbegun]; exact hhistory.recorded_le
  begun_lt := by rw [hbegun]; exact hhistory.begun_lt
  missed := by
    intro hcompares hnil
    refine hhistory.missed hcompares ?_
    rw [hflights, drop_append, append_eq_nil_iff] at hnil
    exact hnil.1
  explained := by
    intro hfailed
    obtain ⟨other, hother, hexplained⟩ := hhistory.explained hfailed
    exact ⟨other, by rw [hflights]; exact mem_append_left _ hother, hexplained⟩

end

variable {observed : ℕ}

theorem CallHistory.missed_of_ne (hhistory : s.CallHistory call)
    (hobserved : call.phase.observed = some observed) (hstate : s.growState ≠ observed) :
    s.flights.drop call.seen ≠ [] := by
  intro hnil
  have heq := (hhistory.pending observed hobserved).state_eq
  rw [hnil] at heq
  exact hstate heq

end HeapConfig

end Kairix.KernelHeap
