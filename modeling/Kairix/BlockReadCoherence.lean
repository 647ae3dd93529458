import Kairix.MachineWord
import Kairix.BlockStore
import Kairix.CountedTasks
import Kairix.LabelledRun

/-!
# The block read cache

`read_block` and `write_block` of the block device slot.  A read looks into the cached
window under the cache lock, and otherwise reads a larger window or its own blocks from
the backend without the lock; a window is published in a second section.  A write
registers, transfers its blocks and signs off.  The backend transfers one block at a
time, in any order.
-/

namespace Kairix.BlockReadCache

open BlockStore LabelledRun List

def blockReadCoalesceMinBytes : ℕ := 16 * 1024

def blockReadCoalesceBytes : ℕ := 64 * 1024

def blockReadCoalesceTriggerBytes : ℕ := 4 * 1024

def saturatingMul (left right : ℕ) : ℕ := min (left * right) (usizeLimit - 1)

structure BlockReadCoalesceState where
  data : ℕ → UInt8
  startBlock : ℕ
  validBlocks : ℕ
  generation : ℕ
  activeWriters : ℕ
  lastReadStart : ℕ
  lastReadEnd : ℕ
  targetBytes : ℕ
  cacheHitBlocks : ℕ

inductive Lookup where
  | hit (buffer : ℕ → UInt8)
  | load (windowStart windowBlocks generation : ℕ)
  | direct

namespace BlockReadCoalesceState

def new : BlockReadCoalesceState where
  data _ := 0
  startBlock := 0
  validBlocks := 0
  generation := 0
  activeWriters := 0
  lastReadStart := usizeLimit - 1
  lastReadEnd := usizeLimit - 1
  targetBytes := blockReadCoalesceMinBytes
  cacheHitBlocks := 0

variable (state : BlockReadCoalesceState)

def invalidate : BlockReadCoalesceState :=
  { state with
    validBlocks := 0
    generation := (state.generation + 1) % usizeLimit
    lastReadStart := usizeLimit - 1
    lastReadEnd := usizeLimit - 1
    targetBytes := blockReadCoalesceMinBytes
    cacheHitBlocks := 0 }

def contains (startBlock blocks : ℕ) : Bool :=
  decide (startBlock + blocks < usizeLimit ∧ state.startBlock + state.validBlocks < usizeLimit ∧
    state.validBlocks ≠ 0 ∧ state.startBlock ≤ startBlock ∧
      startBlock + blocks ≤ state.startBlock + state.validBlocks)

def adaptTargetBytes : BlockReadCoalesceState :=
  { state with
    cacheHitBlocks := 0
    targetBytes :=
      if state.validBlocks ≠ 0 then
        if state.validBlocks ≤ saturatingMul state.cacheHitBlocks 4 then
          min (saturatingMul state.targetBytes 2) blockReadCoalesceBytes
        else if saturatingMul state.cacheHitBlocks 8 < state.validBlocks then
          max (state.targetBytes / 2) blockReadCoalesceMinBytes
        else state.targetBytes
      else state.targetBytes }

def hit (block blocks : ℕ) : BlockReadCoalesceState :=
  { state with
    lastReadStart := block
    lastReadEnd := block + blocks
    cacheHitBlocks := min (state.cacheHitBlocks + blocks) (usizeLimit - 1) }

def canCoalesce (blockSize block blocks : ℕ) : Bool :=
  decide (blocks * blockSize ≤ blockReadCoalesceTriggerBytes ∧
    (block = state.lastReadEnd ∨ block = state.lastReadStart) ∧
      blockSize ≤ blockReadCoalesceBytes ∧ blockReadCoalesceBytes % blockSize = 0)

/-- The window which a read may load instead of its own blocks. -/
def coalescedLoad (blockSize deviceSize block blocks : ℕ) : BlockReadCoalesceState × Lookup :=
  let alignmentBlocks := max (4096 / blockSize) 1
  let windowStart := block / alignmentBlocks * alignmentBlocks
  let capacityBlocks := deviceSize / blockSize
  let adapted := state.adaptTargetBytes
  let windowBlocks := min (adapted.targetBytes / blockSize) (capacityBlocks - windowStart)
  (adapted,
    if block + blocks - windowStart ≤ windowBlocks then
      .load windowStart windowBlocks state.generation
    else .direct)

/-- The first section of `read_block`. -/
def lookup (blockSize deviceSize block blocks : ℕ) : BlockReadCoalesceState × Lookup :=
  if state.activeWriters = 0 ∧ state.contains block blocks = true then
    (state.hit block blocks,
      .hit fun place => state.data ((block - state.startBlock) * blockSize + place))
  else
    let touched := { state with lastReadStart := block, lastReadEnd := block + blocks }
    if state.canCoalesce blockSize block blocks = true ∧ state.activeWriters = 0 then
      touched.coalescedLoad blockSize deviceSize block blocks
    else (touched, .direct)

/-- The second section of `read_block`. -/
def publish (blockSize windowStart windowBlocks generation : ℕ) (window : ℕ → UInt8) :
    BlockReadCoalesceState :=
  if state.activeWriters = 0 ∧ state.generation = generation then
    { state with
      data := fun place =>
        if place < windowBlocks * blockSize then window place else state.data place
      startBlock := windowStart
      validBlocks := windowBlocks }
  else state

/-- The section before the transfer of `write_block`; the count may not overflow. -/
def register : Option BlockReadCoalesceState :=
  if state.activeWriters + 1 < usizeLimit then
    some { state with activeWriters := state.activeWriters + 1 }.invalidate
  else none

/-- The section after the transfer of `write_block`; the count may not underflow. -/
def signOff : Option BlockReadCoalesceState :=
  if 1 ≤ state.activeWriters then
    some { state with activeWriters := state.activeWriters - 1 }.invalidate
  else none

end BlockReadCoalesceState

/-- Where a task is in a call.  `since` is the moment at which the call began, `pending`
are the blocks which the backend has still to transfer, and `captured` is how often the
cache had been invalidated when the generation was read. -/
inductive Call where
  | idle
  | reading (since block blocks : ℕ)
  | loading (since block blocks windowStart windowBlocks generation captured : ℕ)
      (window : ℕ → UInt8) (pending : List ℕ)
  | transferring (since block blocks : ℕ) (buffer : ℕ → UInt8) (pending : List ℕ)
  | writing (since block blocks : ℕ) (buffer : ℕ → UInt8)
  | storing (since block blocks : ℕ) (buffer : ℕ → UInt8) (pending : List ℕ)

structure Access where
  since : ℕ
  upto : ℕ
  block : ℕ
  blocks : ℕ
  buffer : ℕ → UInt8

structure CacheConfig (τ : Type*) (size : ℕ) where
  backend : Timeline ℕ (Fin size → UInt8)
  state : BlockReadCoalesceState
  invalidations : ℕ
  call : τ → Call
  reads : List Access
  writes : List Access

inductive CacheStep (τ : Type*) where
  | read (task : τ) (block blocks : ℕ)
  | lookup (task : τ)
  | fetch (task : τ) (index : ℕ)
  | publish (task : τ)
  | finishRead (task : τ)
  | write (task : τ) (block blocks : ℕ) (buffer : ℕ → UInt8)
  | register (task : τ)
  | store (task : τ) (index : ℕ)
  | signOff (task : τ)

namespace CacheConfig

variable {τ : Type*} [DecidableEq τ] {size : ℕ}

variable (config s : CacheConfig τ size) (task : τ)

def setCall (call : Call) : CacheConfig τ size :=
  { config with call := Function.update config.call task call }

def start (contents : ℕ → Fin size → UInt8) : CacheConfig τ size where
  backend := ⟨fun _ => contents, 0⟩
  state := .new
  invalidations := 0
  call _ := .idle
  reads := []
  writes := []

/-- A call which passes the assertions on the buffer length and the range. -/
def read (block blocks : ℕ) : Option (CacheConfig τ size) :=
  match config.call task with
  | .idle =>
    if blocks ≠ 0 ∧ size ≠ 0 ∧ block + blocks < usizeLimit then
      some (config.setCall task (.reading config.backend.now block blocks))
    else none
  | _ => none

def addRead (since block blocks : ℕ) (buffer : ℕ → UInt8) : CacheConfig τ size :=
  { config.setCall task .idle with
    reads := ⟨since, config.backend.now, block, blocks, buffer⟩ :: config.reads }

def lookup (config : CacheConfig τ size) (deviceSize : ℕ) (task : τ) :
    Option (CacheConfig τ size) :=
  match config.call task with
  | .reading since block blocks =>
    let found := config.state.lookup size deviceSize block blocks
    let touched := { config with state := found.1 }
    match found.2 with
    | .hit buffer => some (touched.addRead task since block blocks buffer)
    | .load windowStart windowBlocks generation =>
      some (touched.setCall task (.loading since block blocks windowStart windowBlocks
        generation config.invalidations (fun _ => 0) (range windowBlocks)))
    | .direct =>
      some (touched.setCall task
        (.transferring since block blocks (fun _ => 0) (range blocks)))
  | _ => none

def fetch (index : ℕ) : Option (CacheConfig τ size) :=
  match config.call task with
  | .loading since block blocks windowStart windowBlocks generation captured window pending =>
    if index ∈ pending then
      some (config.setCall task (.loading since block blocks windowStart windowBlocks generation
        captured (put window index (config.backend.current (windowStart + index)))
          (pending.filter (· ≠ index))))
    else none
  | .transferring since block blocks buffer pending =>
    if index ∈ pending then
      some (config.setCall task (.transferring since block blocks
        (put buffer index (config.backend.current (block + index))) (pending.filter (· ≠ index))))
    else none
  | _ => none

def publish (config : CacheConfig τ size) (task : τ) : Option (CacheConfig τ size) :=
  match config.call task with
  | .loading since block blocks windowStart windowBlocks generation _ window [] =>
    some ({ config with
      state := config.state.publish size windowStart windowBlocks generation window }.addRead
        task since block blocks fun place => window ((block - windowStart) * size + place))
  | _ => none

def finishRead : Option (CacheConfig τ size) :=
  match config.call task with
  | .transferring since block blocks buffer [] =>
    some (config.addRead task since block blocks buffer)
  | _ => none

def write (block blocks : ℕ) (buffer : ℕ → UInt8) : Option (CacheConfig τ size) :=
  match config.call task with
  | .idle => some (config.setCall task (.writing config.backend.now block blocks buffer))
  | _ => none

def register (config : CacheConfig τ size) (task : τ) : Option (CacheConfig τ size) :=
  match config.call task with
  | .writing since block blocks buffer =>
    config.state.register.map fun state =>
      { config.setCall task (.storing since block blocks buffer (range blocks)) with
        state := state
        invalidations := config.invalidations + 1 }
  | _ => none

def store (config : CacheConfig τ size) (task : τ) (index : ℕ) : Option (CacheConfig τ size) :=
  match config.call task with
  | .storing since block blocks buffer pending =>
    if index ∈ pending then
      some { config.setCall task
          (.storing since block blocks buffer (pending.filter (· ≠ index))) with
        backend := config.backend.store (block + index) (slot size buffer index) }
    else none
  | _ => none

def signOff (config : CacheConfig τ size) (task : τ) : Option (CacheConfig τ size) :=
  match config.call task with
  | .storing since block blocks buffer [] =>
    config.state.signOff.map fun state =>
      { config.setCall task .idle with
        state := state
        invalidations := config.invalidations + 1
        writes := ⟨since, config.backend.now, block, blocks, buffer⟩ :: config.writes }
  | _ => none

def next (deviceSize : ℕ) (config : CacheConfig τ size) : CacheStep τ → Option (CacheConfig τ size)
  | .read task block blocks => config.read task block blocks
  | .lookup task => config.lookup deviceSize task
  | .fetch task index => config.fetch task index
  | .publish task => config.publish task
  | .finishRead task => config.finishRead task
  | .write task block blocks buffer => config.write task block blocks buffer
  | .register task => config.register task
  | .store task index => config.store task index
  | .signOff task => config.signOff task

/-- The generation does not wrap between the two sections of a read. -/
def Unwrapped : CacheStep τ → Prop
  | .publish task =>
    match config.call task with
    | .loading _ _ _ _ _ _ captured _ _ => config.invalidations < captured + usizeLimit
    | _ => True
  | _ => True

instance (config : CacheConfig τ size) (label : CacheStep τ) :
    Decidable (config.Unwrapped label) := by
  unfold Unwrapped
  cases label with
  | publish task =>
    dsimp only
    cases config.call task <;> infer_instance
  | _ => infer_instance

end CacheConfig

/-! ## Coherence

A published window agrees with the backend as long as no writer is registered. -/

namespace BlockReadCoalesceState

structure Same (s s' : BlockReadCoalesceState) : Prop where
  data : s'.data = s.data
  startBlock : s'.startBlock = s.startBlock
  validBlocks : s'.validBlocks = s.validBlocks
  generation : s'.generation = s.generation
  activeWriters : s'.activeWriters = s.activeWriters

structure Fits (state : BlockReadCoalesceState) (size : ℕ) : Prop where
  target : state.targetBytes ≤ blockReadCoalesceBytes
  window : state.validBlocks * size ≤ blockReadCoalesceBytes

def Chosen (s : BlockReadCoalesceState) (size block blocks : ℕ) : Lookup → Prop
  | .hit buffer =>
    s.validBlocks ≠ 0 ∧ ∃ first, block = s.startBlock + first ∧
      first + blocks ≤ s.validBlocks ∧ buffer = fun place => s.data (first * size + place)
  | .load windowStart windowBlocks generation =>
    s.activeWriters = 0 ∧ generation = s.generation ∧ windowStart ≤ block ∧
      block + blocks ≤ windowStart + windowBlocks ∧ windowBlocks * size ≤ blockReadCoalesceBytes
  | .direct => True

variable (state : BlockReadCoalesceState)

theorem adaptTargetBytes_le (htarget : state.targetBytes ≤ blockReadCoalesceBytes) :
    state.adaptTargetBytes.targetBytes ≤ blockReadCoalesceBytes := by
  have hmin : blockReadCoalesceMinBytes ≤ blockReadCoalesceBytes := by decide
  simp only [adaptTargetBytes]
  split_ifs
  · exact min_le_right _ _
  · exact max_le ((Nat.div_le_self _ _).trans htarget) hmin
  · exact htarget
  · exact htarget

theorem coalescedLoad_spec (size deviceSize block blocks : ℕ) (hfits : state.Fits size)
    (hwriters : state.activeWriters = 0) :
    state.Same (state.coalescedLoad size deviceSize block blocks).1 ∧
      (state.coalescedLoad size deviceSize block blocks).1.Fits size ∧
        state.Chosen size block blocks (state.coalescedLoad size deviceSize block blocks).2 := by
  have htarget := state.adaptTargetBytes_le hfits.target
  refine ⟨⟨rfl, rfl, rfl, rfl, rfl⟩, ⟨htarget, hfits.window⟩, ?_⟩
  simp only [coalescedLoad]
  split_ifs with hcovers
  · refine ⟨hwriters, rfl, Nat.div_mul_le_self _ _, by omega, ?_⟩
    calc _ ≤ state.adaptTargetBytes.targetBytes / size * size :=
          Nat.mul_le_mul_right _ (min_le_left _ _)
      _ ≤ state.adaptTargetBytes.targetBytes := Nat.div_mul_le_self _ _
      _ ≤ blockReadCoalesceBytes := htarget
  · trivial

theorem lookup_spec (size deviceSize block blocks : ℕ) (hfits : state.Fits size) :
    state.Same (state.lookup size deviceSize block blocks).1 ∧
      (state.lookup size deviceSize block blocks).1.Fits size ∧
        state.Chosen size block blocks (state.lookup size deviceSize block blocks).2 := by
  rw [lookup]
  split_ifs with hhit hload
  · have hcontains := hhit.2
    simp only [contains, decide_eq_true_eq] at hcontains
    obtain ⟨-, -, hvalid, hstart, hstop⟩ := hcontains
    exact ⟨⟨rfl, rfl, rfl, rfl, rfl⟩, ⟨hfits.target, hfits.window⟩, hvalid,
      block - state.startBlock, by omega, by omega, rfl⟩
  · obtain ⟨hsame, hfits', hchosen⟩ :=
      coalescedLoad_spec { state with lastReadStart := block, lastReadEnd := block + blocks }
        size deviceSize block blocks ⟨hfits.target, hfits.window⟩ hload.2
    exact ⟨⟨hsame.data, hsame.startBlock, hsame.validBlocks, hsame.generation,
      hsame.activeWriters⟩, hfits', hchosen⟩
  · exact ⟨⟨rfl, rfl, rfl, rfl, rfl⟩, ⟨hfits.target, hfits.window⟩, trivial⟩

theorem fits_invalidate (size : ℕ) : state.invalidate.Fits size :=
  ⟨(by decide : blockReadCoalesceMinBytes ≤ blockReadCoalesceBytes), by simp [invalidate]⟩

end BlockReadCoalesceState

/-- The blocks which have been transferred were held by the backend during the call. -/
def Transferred {size : ℕ} (backend : Timeline ℕ (Fin size → UInt8)) (since first count : ℕ)
    (buffer : ℕ → UInt8) (pending : List ℕ) : Prop :=
  since ≤ backend.now ∧ ∀ index < count, index ∉ pending →
    backend.Held since backend.now (first + index) (slot size buffer index)

/-- No invalidation since a window was begun: the window is the backend's content. -/
def Current {size : ℕ} (backend : Timeline ℕ (Fin size → UInt8)) (writers first count : ℕ)
    (window : ℕ → UInt8) (pending : List ℕ) : Prop :=
  writers = 0 ∧ ∀ index < count, index ∉ pending →
    slot size window index = backend.current (first + index)

def CallOk {size : ℕ} (backend : Timeline ℕ (Fin size → UInt8)) (writers invalidations : ℕ) :
    Call → Prop
  | .idle => True
  | .reading since _ _ => since ≤ backend.now
  | .loading since block blocks windowStart windowBlocks generation captured window pending =>
    windowStart ≤ block ∧ block + blocks ≤ windowStart + windowBlocks ∧
      windowBlocks * size ≤ blockReadCoalesceBytes ∧
      generation = captured % usizeLimit ∧ captured ≤ invalidations ∧
        Transferred backend since windowStart windowBlocks window pending ∧
          (invalidations = captured →
            Current backend writers windowStart windowBlocks window pending)
  | .transferring since block blocks buffer pending =>
    Transferred backend since block blocks buffer pending
  | .writing since _ _ _ => since ≤ backend.now
  | .storing since block blocks buffer pending =>
    Transferred backend since block blocks buffer pending

/-- The blocks of a finished call were held by the backend during the call. -/
def AccessOk {size : ℕ} (backend : Timeline ℕ (Fin size → UInt8)) (access : Access) : Prop :=
  access.upto ≤ backend.now ∧ ∀ index < access.blocks,
    backend.Held access.since access.upto (access.block + index) (slot size access.buffer index)

def Call.Registered : Call → Prop
  | .storing .. => True
  | _ => False

namespace CacheConfig

variable {τ : Type*} [DecidableEq τ] {size : ℕ}

structure Inv (s : CacheConfig τ size) : Prop where
  fits : s.state.Fits size
  generation : s.state.generation = s.invalidations % usizeLimit
  window : s.state.validBlocks ≠ 0 →
    Current s.backend s.state.activeWriters s.state.startBlock
      s.state.validBlocks s.state.data []
  writers : Counted (fun task => (s.call task).Registered) s.state.activeWriters
  calls : ∀ task, CallOk s.backend s.state.activeWriters s.invalidations
    (s.call task)
  reads : ∀ read ∈ s.reads, AccessOk s.backend read
  writes : ∀ write ∈ s.writes, AccessOk s.backend write

end CacheConfig

section Later

variable {size : ℕ} {backend further : Timeline ℕ (Fin size → UInt8)}

variable {since first count : ℕ} {buffer : ℕ → UInt8} {pending : List ℕ}

theorem Transferred.later (htransferred : Transferred backend since first count buffer pending)
    (hext : backend.Extends further) : Transferred further since first count buffer pending :=
  ⟨htransferred.1.trans hext.now_le, fun index hindex hpending =>
    (htransferred.2 index hindex hpending).extends (Nat.le_refl _) hext.now_le hext⟩

theorem AccessOk.later {access : Access} (haccess : AccessOk backend access)
    (hext : backend.Extends further) : AccessOk further access :=
  ⟨haccess.1.trans hext.now_le, fun index hindex =>
    (haccess.2 index hindex).extends haccess.1 (Nat.le_refl _) hext⟩

/-- A call stands when the backend goes on; the window of a loading call has to be kept
only if there was no invalidation. -/
theorem CallOk.later {writers writers' invalidations invalidations' : ℕ} {call : Call}
    (hcall : CallOk backend writers invalidations call) (hext : backend.Extends further)
    (hle : invalidations ≤ invalidations')
    (hkept : invalidations' = invalidations → writers = 0 →
      writers' = 0 ∧ further.current = backend.current) :
    CallOk further writers' invalidations' call := by
  cases call with
  | idle => trivial
  | reading since block blocks | writing since block blocks buffer =>
    exact Nat.le_trans hcall hext.now_le
  | transferring since block blocks buffer pending | storing since block blocks buffer pending =>
    exact Transferred.later hcall hext
  | loading since block blocks windowStart windowBlocks generation captured window pending =>
    obtain ⟨hstart, hstop, hbytes, hgeneration, hcaptured, htransferred, hcurrent⟩ := hcall
    refine ⟨hstart, hstop, hbytes, hgeneration, hcaptured.trans hle,
      htransferred.later hext, fun hsame => ?_⟩
    obtain ⟨hwriters, hwindow⟩ := hcurrent (by omega)
    obtain ⟨hwriters', hlater⟩ := hkept (by omega) hwriters
    refine ⟨hwriters', ?_⟩
    rw [hlater]
    exact hwindow

theorem Transferred.put (htransferred : Transferred backend since first count buffer pending)
    (index : ℕ) :
    Transferred backend since first count
      (put buffer index (backend.current (first + index))) (pending.filter (· ≠ index)) := by
  refine ⟨htransferred.1, fun other hother hpending => ?_⟩
  by_cases hsame : other = index
  · subst hsame
    rw [slot_put_self]
    exact backend.held_current htransferred.1 _
  · rw [slot_put_ne _ _ hsame]
    exact htransferred.2 other hother fun hmem => hpending (by simp [hmem, hsame])

theorem Current.put {writers : ℕ} {window : ℕ → UInt8}
    (hcurrent : Current backend writers first count window pending) (index : ℕ) :
    Current backend writers first count
      (put window index (backend.current (first + index))) (pending.filter (· ≠ index)) := by
  refine ⟨hcurrent.1, fun other hother hpending => ?_⟩
  by_cases hsame : other = index
  · subst hsame
    rw [slot_put_self]
  · rw [slot_put_ne _ _ hsame]
    exact hcurrent.2 other hother fun hmem => hpending (by simp [hmem, hsame])

theorem transferred_range (hsince : since ≤ backend.now) :
    Transferred backend since first count buffer (range count) :=
  ⟨hsince, fun _ hindex hpending => absurd (mem_range.mpr hindex) hpending⟩

end Later

/-! ## The steps -/

namespace CacheConfig

variable {τ : Type*} [DecidableEq τ] {size : ℕ} {config s s' : CacheConfig τ size}

variable {task : τ} {call : Call}

omit [DecidableEq τ] in
theorem not_registered (s : CacheConfig τ size) (hcall : s.call task = call)
    (hnot : ¬ call.Registered) : ¬ (s.call task).Registered := by
  rw [hcall]
  exact hnot

theorem registered_setCall (hsame : call.Registered ↔ (s.call task).Registered) :
    ∀ other, ((s.setCall task call).call other).Registered ↔ (s.call other).Registered := by
  intro other
  by_cases hother : other = task
  · subst hother
    simpa [setCall] using hsame
  · simp [setCall, hother]

attribute [local simp] CacheConfig.setCall Call.Registered

theorem Inv.setCall (hinv : s.Inv) (hsame : call.Registered ↔ (s.call task).Registered)
    (hcall : CallOk s.backend s.state.activeWriters s.invalidations call) :
    (s.setCall task call).Inv := by
  refine { hinv with writers := hinv.writers.congr (registered_setCall hsame), calls := ?_ }
  intro other
  by_cases hother : other = task
  · subst hother
    simpa using hcall
  · simpa [hother] using hinv.calls other

variable {block blocks : ℕ}

section

variable (hinv : s.Inv)
include hinv

theorem Inv.addRead {since : ℕ} {buffer : ℕ → UInt8} (hreader : ¬ (s.call task).Registered)
    (hheld : ∀ index < blocks,
      s.backend.Held since s.backend.now (block + index) (slot size buffer index)) :
    (s.addRead task since block blocks buffer).Inv := by
  have hidle : (s.setCall task .idle).Inv := hinv.setCall (iff_of_false id hreader) trivial
  refine { hidle with reads := ?_ }
  intro read hread
  rcases mem_cons.mp hread with rfl | hread
  · exact ⟨Nat.le_refl _, hheld⟩
  · exact hinv.reads read hread

omit [DecidableEq τ] in
theorem Inv.setState {state : BlockReadCoalesceState} (hsame : s.state.Same state)
    (hfits : state.Fits size) : { s with state := state }.Inv where
  fits := hfits
  generation := hsame.generation.trans hinv.generation
  window := by
    intro hvalid
    change state.validBlocks ≠ 0 at hvalid
    change Current s.backend state.activeWriters state.startBlock state.validBlocks state.data []
    rw [hsame.validBlocks] at hvalid ⊢
    rw [hsame.activeWriters, hsame.startBlock, hsame.data]
    exact hinv.window hvalid
  writers := by
    change Counted _ state.activeWriters
    rw [hsame.activeWriters]
    exact hinv.writers
  calls := by
    intro task
    change CallOk s.backend state.activeWriters s.invalidations (s.call task)
    rw [hsame.activeWriters]
    exact hinv.calls task
  reads := hinv.reads
  writes := hinv.writes

theorem Inv.read (hstep : s.read task block blocks = some s') : s'.Inv := by
  simp only [CacheConfig.read] at hstep
  split at hstep
  · next hidle =>
    split_ifs at hstep
    cases hstep
    exact hinv.setCall (by simp [hidle]) (Nat.le_refl _)
  · cases hstep

theorem Inv.lookup {deviceSize : ℕ} (hstep : s.lookup deviceSize task = some s') : s'.Inv := by
  simp only [CacheConfig.lookup] at hstep
  split at hstep
  · next since block blocks hcall =>
    have hsince : since ≤ s.backend.now := by simpa [CallOk, hcall] using hinv.calls task
    obtain ⟨hsame, hfits, hchosen⟩ := s.state.lookup_spec size deviceSize block blocks hinv.fits
    have htouched := hinv.setState hsame hfits
    split at hstep <;> cases hstep
    · next buffer hhit =>
      rw [hhit] at hchosen
      obtain ⟨hvalid, first, rfl, hfirst, rfl⟩ := hchosen
      refine htouched.addRead (s.not_registered hcall id) fun index hindex => ?_
      have hslot := (hinv.window hvalid).2 (first + index) (by omega) (by simp)
      rw [slot_slice, hslot, Nat.add_assoc]
      exact s.backend.held_current hsince _
    · next windowStart windowBlocks generation hload =>
      rw [hload] at hchosen
      obtain ⟨hwriters, rfl, hstart, hstop, hbytes⟩ := hchosen
      refine htouched.setCall (by simp [hcall])
        ⟨hstart, hstop, hbytes, hinv.generation, Nat.le_refl _, transferred_range hsince,
          fun _ => ⟨hsame.activeWriters.trans hwriters, fun index hindex hpending => ?_⟩⟩
      exact absurd (mem_range.mpr hindex) hpending
    · exact htouched.setCall (by simp [hcall]) (transferred_range hsince)
  · cases hstep

theorem Inv.fetch {index : ℕ} (hstep : s.fetch task index = some s') : s'.Inv := by
  have hok := hinv.calls task
  simp only [CacheConfig.fetch] at hstep
  split at hstep
  · next hcall =>
    rw [hcall] at hok
    obtain ⟨hstart, hstop, hbytes, hgeneration, hcaptured, htransferred, hcurrent⟩ := hok
    split_ifs at hstep
    cases hstep
    exact hinv.setCall (by simp [hcall])
      ⟨hstart, hstop, hbytes, hgeneration, hcaptured, htransferred.put index,
        fun hsame => (hcurrent hsame).put index⟩
  · next hcall =>
    rw [hcall] at hok
    split_ifs at hstep
    cases hstep
    exact hinv.setCall (by simp [hcall]) (Transferred.put hok index)
  · cases hstep

theorem Inv.publish (hunwrapped : s.Unwrapped (.publish task))
    (hstep : s.publish task = some s') : s'.Inv := by
  have hok := hinv.calls task
  simp only [CacheConfig.publish] at hstep
  split at hstep <;> cases hstep
  next since block blocks windowStart windowBlocks generation captured window hcall =>
    simp only [Unwrapped, hcall] at hunwrapped
    rw [hcall] at hok
    obtain ⟨hstart, hstop, hbytes, hgeneration, hcaptured, htransferred, hcurrent⟩ := hok
    have huntouched : s.state.generation = generation → s.invalidations = captured := by
      intro hsame
      rw [hinv.generation, hgeneration] at hsame
      have hdvd := (Nat.modEq_iff_dvd' hcaptured).mp hsame.symm
      have hzero := Nat.eq_zero_of_dvd_of_lt hdvd (by omega)
      omega
    have hpublished : { s with
        state := s.state.publish size windowStart windowBlocks generation window }.Inv := by
      rw [BlockReadCoalesceState.publish]
      split_ifs with hpublish
      · refine { hinv with fits := ⟨hinv.fits.target, hbytes⟩, window := fun _ => ?_ }
        obtain ⟨hwriters, hwindow⟩ := hcurrent (huntouched hpublish.2)
        refine ⟨hwriters, fun index hindex hpending => ?_⟩
        rw [slot_overlay _ _ hindex]
        exact hwindow index hindex hpending
      · exact hinv
    refine hpublished.addRead (s.not_registered hcall id) fun index hindex => ?_
    have hheld := htransferred.2 (block - windowStart + index) (by omega) (by simp)
    have hplace : windowStart + (block - windowStart + index) = block + index := by omega
    rw [hplace] at hheld
    rw [slot_slice]
    exact hheld

theorem Inv.finishRead (hstep : s.finishRead task = some s') : s'.Inv := by
  have hok := hinv.calls task
  simp only [CacheConfig.finishRead] at hstep
  split at hstep <;> cases hstep
  next hcall =>
    rw [hcall] at hok
    exact hinv.addRead (s.not_registered hcall id) fun index hindex =>
      hok.2 index hindex (by simp)

theorem Inv.write {buffer : ℕ → UInt8}
    (hstep : s.write task block blocks buffer = some s') : s'.Inv := by
  simp only [CacheConfig.write] at hstep
  split at hstep <;> cases hstep
  next hidle => exact hinv.setCall (by simp [hidle]) (Nat.le_refl _)

theorem Inv.invalidated {count : ℕ}
    (hcall : ∀ writers invalidations, CallOk s.backend writers invalidations call)
    (hwriters : Counted (fun other => ((s.setCall task call).call other).Registered) count) :
    { s.setCall task call with
      state := { s.state with activeWriters := count }.invalidate
      invalidations := s.invalidations + 1 }.Inv where
  fits := BlockReadCoalesceState.fits_invalidate _ _
  generation := by
    change (s.state.generation + 1) % usizeLimit = (s.invalidations + 1) % usizeLimit
    rw [hinv.generation, Nat.mod_add_mod]
  window hvalid := absurd rfl hvalid
  writers := hwriters
  calls := by
    intro other
    by_cases hother : other = task
    · subst hother
      simpa using hcall _ _
    · have hkept : CallOk s.backend count (s.invalidations + 1) (s.call other) :=
        CallOk.later (hinv.calls other) (Timeline.Extends.refl _) (Nat.le_succ _)
          fun hsame => by omega
      simpa [hother, BlockReadCoalesceState.invalidate] using hkept
  reads := hinv.reads
  writes := hinv.writes

theorem Inv.register (hstep : s.register task = some s') : s'.Inv := by
  have hok := hinv.calls task
  simp only [CacheConfig.register] at hstep
  split at hstep
  · next since block blocks buffer hcall =>
    rw [hcall] at hok
    obtain ⟨state, hstate, rfl⟩ := Option.map_eq_some_iff.mp hstep
    rw [BlockReadCoalesceState.register] at hstate
    split_ifs at hstate
    cases hstate
    refine hinv.invalidated (fun _ _ => transferred_range hok)
      (hinv.writers.enter (s.not_registered hcall id) fun other => ?_)
    by_cases hother : other = task
    · subst hother
      simp
    · simp [hother]
  · cases hstep

theorem Inv.signOff (hstep : s.signOff task = some s') : s'.Inv := by
  have hok := hinv.calls task
  simp only [CacheConfig.signOff] at hstep
  split at hstep
  · next since block blocks buffer hcall =>
    rw [hcall] at hok
    have hregistered : (s.call task).Registered := by
      rw [hcall]
      trivial
    obtain ⟨state, hstate, rfl⟩ := Option.map_eq_some_iff.mp hstep
    rw [BlockReadCoalesceState.signOff] at hstate
    split_ifs at hstate
    cases hstate
    have hleft : Counted (fun other => ((s.setCall task .idle).call other).Registered)
        (s.state.activeWriters - 1) := by
      refine hinv.writers.leave hregistered fun other => ?_
      by_cases hother : other = task
      · subst hother
        simp
      · simp [hother]
    have hidle : ∀ count invalidations, CallOk s.backend count invalidations .idle :=
      fun _ _ => trivial
    refine { hinv.invalidated hidle hleft with writes := ?_ }
    intro write hwrite
    rcases mem_cons.mp hwrite with rfl | hwrite
    · exact ⟨Nat.le_refl _, fun index hindex => hok.2 index hindex (by simp)⟩
    · exact hinv.writes write hwrite
  · cases hstep

theorem Inv.store {index : ℕ} (hstep : s.store task index = some s') : s'.Inv := by
  have hok := hinv.calls task
  simp only [CacheConfig.store] at hstep
  split at hstep
  · next since block blocks buffer pending hcall =>
    rw [hcall] at hok
    split_ifs at hstep
    cases hstep
    have hregistered : (s.call task).Registered := by
      rw [hcall]
      trivial
    have hbusy : s.state.activeWriters ≠ 0 := hinv.writers.ne_zero hregistered
    have hext := s.backend.extends_store (block + index) (slot size buffer index)
    refine ⟨hinv.fits, hinv.generation, fun hvalid => absurd (hinv.window hvalid).1 hbusy,
      hinv.writers.congr (registered_setCall (by simp [hcall])), ?_,
      fun read hread => (hinv.reads read hread).later hext,
      fun write hwrite => (hinv.writes write hwrite).later hext⟩
    intro other
    by_cases hother : other = task
    · subst hother
      have hdone : Transferred (s.backend.store (block + index) (slot size buffer index))
          since block blocks buffer (pending.filter (· ≠ index)) := by
        refine ⟨hok.1.trans hext.now_le, fun place hplace hpending => ?_⟩
        by_cases hsame : place = index
        · subst hsame
          exact s.backend.held_store hok.1 _ _
        · exact (Transferred.later hok hext).2 place hplace fun hmem =>
            hpending (by simp [hmem, hsame])
      simpa [CallOk] using hdone
    · have hkept : CallOk (s.backend.store (block + index) (slot size buffer index))
          s.state.activeWriters s.invalidations (s.call other) :=
        CallOk.later (hinv.calls other) hext (Nat.le_refl _) fun _ hzero => absurd hzero hbusy
      simpa [hother] using hkept
  · cases hstep

theorem Inv.next {deviceSize : ℕ} {label : CacheStep τ} (hunwrapped : s.Unwrapped label)
    (hstep : s.next deviceSize label = some s') : s'.Inv := by
  cases label with
  | read task block blocks => exact hinv.read hstep
  | lookup task => exact hinv.lookup hstep
  | fetch task index => exact hinv.fetch hstep
  | publish task => exact hinv.publish hunwrapped hstep
  | finishRead task => exact hinv.finishRead hstep
  | write task block blocks buffer => exact hinv.write hstep
  | register task => exact hinv.register hstep
  | store task index => exact hinv.store hstep
  | signOff task => exact hinv.signOff hstep

end

omit [DecidableEq τ] in
theorem inv_start (contents : ℕ → Fin size → UInt8) :
    (start contents : CacheConfig τ size).Inv where
  fits := ⟨(by decide : blockReadCoalesceMinBytes ≤ blockReadCoalesceBytes),
    by simp [start, BlockReadCoalesceState.new]⟩
  generation := rfl
  window hvalid := absurd rfl hvalid
  writers := .none_inside fun _ => id
  calls _ := trivial
  reads _ hread := absurd hread not_mem_nil
  writes _ hwrite := absurd hwrite not_mem_nil

/-- Every block of a finished read was the backend's at a moment of the read.  If a write
had returned before, the read saw the block at a moment after the write stored it. -/
structure Coherent (config : CacheConfig τ size) : Prop where
  read : ∀ read ∈ config.reads, ∀ index < read.blocks,
    config.backend.Held read.since read.upto (read.block + index) (slot size read.buffer index)
  fresh : ∀ read ∈ config.reads, ∀ write ∈ config.writes, write.upto ≤ read.since →
    ∀ mine < read.blocks, ∀ yours < write.blocks, read.block + mine = write.block + yours →
      ∃ stored seen, write.since ≤ stored ∧ stored ≤ write.upto ∧ write.upto ≤ seen ∧
        seen ≤ read.upto ∧
        config.backend.contents stored (write.block + yours) = slot size write.buffer yours ∧
        config.backend.contents seen (read.block + mine) = slot size read.buffer mine

theorem coherent_of_reachable (deviceSize : ℕ) (contents : ℕ → Fin size → UInt8)
    (hreach : Reachable (next deviceSize) Unwrapped (start contents) config) : config.Coherent := by
  have hinv : config.Inv := hreach.invariant (inv_start contents)
    fun _ _ _ hbefore hunwrapped hstep => hbefore.next hunwrapped hstep
  refine ⟨fun read hread => (hinv.reads read hread).2, ?_⟩
  intro read hread write hwrite hafter mine hmine yours hyours _
  obtain ⟨stored, hfrom, hto, hstored⟩ := (hinv.writes write hwrite).2 yours hyours
  obtain ⟨seen, hsince, hupto, hseen⟩ := (hinv.reads read hread).2 mine hmine
  exact ⟨stored, seen, hfrom, hto, hafter.trans hsince, hupto, hstored, hseen⟩

/-- A first reader loads a window while a writer stores, so the window is not published;
a second window is, and serves the last read from the cache. -/
def raceSchedule : List (CacheStep (Fin 2)) :=
  [.read i₀ 0 1, .lookup i₀, .fetch i₀ 0, .finishRead i₀,
    .read i₀ 1 1, .lookup i₀, .fetch i₀ 1,
    .write i₁ 1 1 (fun _ => 7), .register i₁, .store i₁ 0, .signOff i₁,
    .fetch i₀ 0, .fetch i₀ 2, .publish i₀,
    .read i₀ 0 1, .lookup i₀, .fetch i₀ 0, .finishRead i₀,
    .read i₀ 1 1, .lookup i₀, .fetch i₀ 2, .fetch i₀ 1, .fetch i₀ 0, .publish i₀,
    .read i₁ 1 1, .lookup i₁]

theorem coherent_after_race : ∃ config : CacheConfig (Fin 2) 1,
      Reachable (next 3) Unwrapped (start fun _ _ => 0) config ∧ config.Coherent ∧
        config.state.validBlocks = 3 ∧
          config.reads.map (fun read => slot 1 read.buffer 0 0) = [7, 7, 0, 0, 0] := by
  refine (exists_reachable_of_runSteps raceSchedule ?_).imp fun config ⟨hreach, hread⟩ =>
    ⟨hreach, coherent_of_reachable 3 _ hreach, hread⟩
  decide +kernel

/-- At every moment the counter says how many writes are registered, and the cached window is
the device's content, with no write registered. -/
theorem window_current_of_reachable (deviceSize : ℕ) (contents : ℕ → Fin size → UInt8)
    (hreach : Reachable (next deviceSize) Unwrapped (start contents) config) :
    Counted (fun task => (config.call task).Registered) config.state.activeWriters ∧
      ∀ index < config.state.validBlocks, config.state.activeWriters = 0 ∧
        slot size config.state.data index =
          config.backend.current (config.state.startBlock + index) := by
  have hinv : config.Inv := hreach.invariant (inv_start contents)
    fun _ _ _ hbefore hunwrapped hstep => hbefore.next hunwrapped hstep
  refine ⟨hinv.writers, fun index hindex => ?_⟩
  obtain ⟨hidle, hwindow⟩ := hinv.window (Nat.ne_zero_of_lt hindex)
  exact ⟨hidle, hwindow index hindex not_mem_nil⟩

theorem window_current_after_race : ∃ config : CacheConfig (Fin 2) 1,
      Reachable (next 3) Unwrapped (start fun _ _ => 0) config ∧
        config.state.activeWriters = 0 := by
  obtain ⟨config, hreach, hvalid⟩ : ∃ config : CacheConfig (Fin 2) 1,
      Reachable (next 3) Unwrapped (start fun _ _ => 0) config ∧ 1 < config.state.validBlocks :=
    exists_reachable_of_runSteps raceSchedule (by decide +kernel)
  exact ⟨config, hreach, ((window_current_of_reachable 3 _ hreach).2 1 hvalid).1⟩

end CacheConfig

end Kairix.BlockReadCache
