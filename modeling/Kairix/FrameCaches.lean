import Kairix.FrameAllocatorSafety
import Kairix.ExclusiveHoldings

/-!
# Per-CPU frame caches

Every CPU keeps three caches in front of the central allocator: pages given
back, pages reserved for anonymous memory, and reserved pages which an idle CPU
has cleared.  A CPU is a state machine whose steps are the locked critical
sections and the atomic updates of the source; any CPU may take the next step.
-/

namespace Kairix.Frame

inductive CachePanic where
  | central (panic : FramePanic)
  | outsideMemory
  | stateMismatch
  | cacheOverflow
  | zeroedCacheFilled
  deriving DecidableEq, Repr

inductive CacheKind where
  | free
  | dirty
  | zeroed
  deriving DecidableEq, Repr

def CacheKind.capacity : CacheKind → ℕ
  | .free => 64
  | .dirty => 16
  | .zeroed => 64

def frameFreeCacheFlush : ℕ := CacheKind.capacity .free / 2

def CacheKind.frameState : CacheKind → ℕ
  | .free => frameStateCpuCached
  | .dirty => frameStateAllocated
  | .zeroed => frameStateAnonZeroed

inductive AllocRequest where
  | profiled
  | single
  | contiguous (pages : ℕ)
  | heapExtent (pages alignPages minFreePages cachedPages : ℕ)
  deriving DecidableEq, Repr

/-- An allocation is tried once, again after the caches were drained, and once
more after memory was reclaimed. -/
inductive AllocStage where
  | first
  | drained
  | reclaimed
  deriving DecidableEq, Repr

structure AllocCall where
  request : AllocRequest
  stage : AllocStage
  deriving DecidableEq, Repr

/-- Where a CPU stands.  The pages named by a phase are in its local batch. -/
inductive CpuPhase where
  | idle
  | zeroedLoad (call : AllocCall)
  | zeroedScan (call : AllocCall) (offset : ℕ)
  | freePop (call : AllocCall)
  | dirtyScan (call : AllocCall) (offset : ℕ)
  | dirtyCount (ppn : ℕ)
  | refill (call : AllocCall)
  | extend (batch : List ℕ)
  | heapLoad (pages alignPages minFreePages : ℕ)
  | heapLoadAnon (pages alignPages minFreePages freeSeen : ℕ)
  | central (call : AllocCall)
  | drain (call : AllocCall) (kind : CacheKind) (index : ℕ)
  | drainFlush (call : AllocCall) (kind : CacheKind) (index : ℕ) (batch : List ℕ)
  | deallocPush (ppn : ℕ)
  | flush (batch : List ℕ)
  | prezeroCheck
  | prezeroDirty (offset : ℕ)
  | prezeroFree
  | prezeroCentral
  | prezeroClear (ppn : ℕ) (cached : Bool)
  | prezeroPublish (ppn : ℕ) (cached : Bool)
  | prezeroPush (ppn : ℕ) (cached : Bool)
  | prezeroAnonCount (cached : Bool)
  | prezeroZeroedCount
  deriving DecidableEq, Repr

def CpuPhase.transit : CpuPhase → List ℕ
  | .dirtyCount ppn => [ppn]
  | .extend batch => batch
  | .drainFlush _ _ _ batch => batch
  | .deallocPush ppn => [ppn]
  | .flush batch => batch
  | .prezeroClear ppn _ => [ppn]
  | .prezeroPublish ppn _ => [ppn]
  | .prezeroPush ppn _ => [ppn]
  | _ => []

def CpuPhase.transitState : CpuPhase → ℕ
  | .drainFlush _ .free _ _ => frameStateCpuCached
  | .deallocPush _ => frameStateCpuCached
  | .flush _ => frameStateCpuCached
  | .prezeroPush _ _ => frameStateAnonZeroed
  | _ => frameStateAllocated

/-- The pages a call hands to its caller, and whether it says that they are
already zeroed. -/
structure HandedOut where
  pages : List ℕ
  zeroed : Bool
  deriving DecidableEq, Repr

/-- The shared state.  `outstanding` are the pages in use, and `cleared` the
pages which were cleared since they last were in use. -/
structure CacheConfig (cpus : ℕ) where
  allocator : BuddyFrameAllocator
  cache : CacheKind → Fin cpus → List ℕ
  phase : Fin cpus → CpuPhase
  cpuCachedCount : ℕ
  anonCachedCount : ℕ
  anonZeroedCount : ℕ
  outstanding : List ℕ
  cleared : Finset ℕ

def wrapAdd (value amount : ℕ) : ℕ :=
  (value + amount) % usizeLimit

def wrapSub (value amount : ℕ) : ℕ :=
  (value + usizeLimit - amount) % usizeLimit

def saturatingAdd (value amount : ℕ) : ℕ :=
  min (value + amount) (usizeLimit - 1)

namespace BuddyFrameAllocator

/-- `compare_exchange` on the state byte of a page, which has to succeed. -/
def transitionFrameState (self : BuddyFrameAllocator) (ppn expected desired : ℕ) :
    Except CachePanic BuddyFrameAllocator :=
  match self.frameStateIndex ppn with
  | none => .error .outsideMemory
  | some index =>
    if self.frameStates index = expected then
      .ok { self with frameStates := Function.update self.frameStates index desired }
    else .error .stateMismatch

def transitionAll (self : BuddyFrameAllocator) (expected desired : ℕ) :
    List ℕ → Except CachePanic BuddyFrameAllocator
  | [] => .ok self
  | ppn :: rest => do
      let changed ← self.transitionFrameState ppn expected desired
      changed.transitionAll expected desired rest

def deallocAll (self : BuddyFrameAllocator) : List ℕ → Except CachePanic BuddyFrameAllocator
  | [] => .ok self
  | ppn :: rest => do
      let freed ← (self.dealloc ppn).mapError CachePanic.central
      freed.deallocAll rest

def allocBatch : (room : ℕ) → BuddyFrameAllocator →
    Except CachePanic (BuddyFrameAllocator × List ℕ)
  | 0, self => .ok (self, [])
  | room + 1, self => do
      let taken ← self.alloc.mapError CachePanic.central
      match taken.2 with
      | none => .ok (taken.1, [])
      | some ppn => do
          let rest ← allocBatch room taken.1
          .ok (rest.1, ppn :: rest.2)

def freeCount (self : BuddyFrameAllocator) : ℕ :=
  (self.ranges.map fun range => range.stop - range.current).sum + self.recycledCount

end BuddyFrameAllocator

namespace CacheConfig

open BuddyFrameAllocator

variable {cpus : ℕ}

variable (config s : CacheConfig cpus) (cpu : Fin cpus)

def setPhase (phase : CpuPhase) : CacheConfig cpus :=
  { config with phase := Function.update config.phase cpu phase }

def setCache (kind : CacheKind) (cpu : Fin cpus) (pages : List ℕ) : CacheConfig cpus :=
  { config with cache := fun other index =>
      if other = kind ∧ index = cpu then pages else config.cache other index }

def setAllocator (allocator : BuddyFrameAllocator) : CacheConfig cpus :=
  { config with allocator := allocator }

def handOut (pages : List ℕ) : CacheConfig cpus :=
  { config.setPhase cpu .idle with
    outstanding := pages ++ config.outstanding
    cleared := config.cleared \ pages.toFinset }

def scanIndex (cpu : Fin cpus) (offset : ℕ) : Fin cpus :=
  ⟨(cpu.val + offset) % cpus, Nat.mod_lt _ (Nat.zero_lt_of_lt cpu.isLt)⟩

abbrev StepResult (cpus : ℕ) :=
  Except CachePanic (CacheConfig cpus × Option HandedOut)

/-- Where a call goes on: at its beginning, or after the caches were drained. -/
def entryPhase (call : AllocCall) : CpuPhase :=
  match call.request with
  | .profiled => .zeroedLoad call
  | .single => .freePop call
  | .contiguous _ => .central call
  | .heapExtent _ _ _ _ => .central call

/-- A failed attempt drains the caches the first time.  Later attempts return
without pages; the reclaim in between is made of calls of its own. -/
def failPhase (call : AllocCall) : CpuPhase :=
  match call.stage with
  | .first => .drain { call with stage := .drained } .free 0
  | .drained => .idle
  | .reclaimed => .idle

def zeroedScanStep (call : AllocCall) (offset : ℕ) : StepResult cpus :=
  if cpus ≤ offset then .ok (config.setPhase cpu (.freePop call), none)
  else match config.cache .zeroed (scanIndex cpu offset) with
    | [] => .ok (config.setPhase cpu (.zeroedScan call (offset + 1)), none)
    | ppn :: rest => do
        let allocator ← config.allocator.transitionFrameState ppn
          frameStateAnonZeroed frameStateAllocated
        let popped := (config.setCache .zeroed (scanIndex cpu offset) rest).setAllocator allocator
        .ok ({ popped.handOut cpu [ppn] with
          anonZeroedCount := wrapSub config.anonZeroedCount 1
          anonCachedCount := wrapSub config.anonCachedCount 1 }, some ⟨[ppn], true⟩)

/-- `pop_cpu_free_frame`: the page popped from the own cache, if any. -/
def popCpuFreeFrame : Except CachePanic (CacheConfig cpus × Option ℕ) :=
  match config.cache .free cpu with
  | [] => .ok (config, none)
  | ppn :: rest => do
      let allocator ← config.allocator.transitionFrameState ppn
        frameStateCpuCached frameStateAllocated
      .ok ({ (config.setCache .free cpu rest).setAllocator allocator with
        cpuCachedCount := wrapSub config.cpuCachedCount 1 }, some ppn)

def freePopStep (call : AllocCall) : StepResult cpus := do
  let popped ← config.popCpuFreeFrame cpu
  match popped.2 with
  | some ppn => .ok (popped.1.handOut cpu [ppn], some ⟨[ppn], false⟩)
  | none =>
    match call.request with
    | .profiled => .ok (popped.1.setPhase cpu (.dirtyScan call 0), none)
    | _ => .ok (popped.1.setPhase cpu (.central call), none)

def dirtyScanStep (call : AllocCall) (offset : ℕ) : CacheConfig cpus :=
  if cpus ≤ offset then config.setPhase cpu (.refill call)
  else match config.cache .dirty (scanIndex cpu offset) with
    | [] => config.setPhase cpu (.dirtyScan call (offset + 1))
    | ppn :: rest =>
      (config.setCache .dirty (scanIndex cpu offset) rest).setPhase cpu (.dirtyCount ppn)

def refillStep (call : AllocCall) : StepResult cpus := do
  let taken ← allocBatch (CacheKind.capacity .dirty) config.allocator
  let refilled := config.setAllocator taken.1
  if taken.2 = [] then .ok (refilled.setPhase cpu (failPhase call), none)
  else .ok (refilled.setPhase cpu (.extend taken.2), none)

/-- Keep the last page of the batch and reserve the others. -/
def extendStep (batch : List ℕ) : StepResult cpus :=
  match batch.getLast? with
  | none => .ok (config.setPhase cpu .idle, none)
  | some ppn =>
    let reserved := batch.dropLast
    if reserved = [] then .ok (config.handOut cpu [ppn], some ⟨[ppn], false⟩)
    else if CacheKind.capacity .dirty <
        (config.cache .dirty cpu).length + reserved.length then
      .error .cacheOverflow
    else
      let extended := config.setCache .dirty cpu (reserved.reverse ++ config.cache .dirty cpu)
      .ok ({ extended.handOut cpu [ppn] with
        anonCachedCount := wrapAdd config.anonCachedCount reserved.length },
        some ⟨[ppn], false⟩)

/-- Requests served by the central allocator under its lock. -/
def centralStep (call : AllocCall) : StepResult cpus :=
  match call.request with
  | .profiled => .ok (config.setPhase cpu .idle, none)
  | .single => do
      let taken ← config.allocator.alloc.mapError CachePanic.central
      match taken.2 with
      | some ppn =>
        .ok ((config.setAllocator taken.1).handOut cpu [ppn], some ⟨[ppn], false⟩)
      | none => .ok ((config.setAllocator taken.1).setPhase cpu (failPhase call), none)
  | .contiguous pages => extent pages 1 false
  | .heapExtent pages alignPages minFreePages cachedPages =>
    extent pages alignPages (decide (saturatingAdd config.allocator.freeCount
      (if call.stage = .first then cachedPages else 0) - pages < minFreePages))
where
  extent (pages alignPages : ℕ) (refused : Bool) : StepResult cpus :=
    if refused = true then .ok (config.setPhase cpu .idle, none)
    else do
      let taken ← (config.allocator.allocContiguous pages alignPages).mapError CachePanic.central
      match taken.2 with
      | some found =>
        let pages := List.range' found.start found.pages
        .ok ((config.setAllocator taken.1).handOut cpu pages, some ⟨pages, false⟩)
      | none => .ok ((config.setAllocator taken.1).setPhase cpu (failPhase call), none)

def drainNext (call : AllocCall) : CacheKind → CpuPhase
  | .free => .drain call .dirty 0
  | .dirty => .drain call .zeroed 0
  | .zeroed => entryPhase call

def countDrained (kind : CacheKind) (pages : ℕ) : CacheConfig cpus :=
  match kind with
  | .free => { config with cpuCachedCount := wrapSub config.cpuCachedCount pages }
  | .dirty => { config with anonCachedCount := wrapSub config.anonCachedCount pages }
  | .zeroed => { config with
      anonZeroedCount := wrapSub config.anonZeroedCount pages
      anonCachedCount := wrapSub config.anonCachedCount pages }

def unpublish (allocator : BuddyFrameAllocator) (kind : CacheKind) (pages : List ℕ) :
    Except CachePanic BuddyFrameAllocator :=
  match kind with
  | .zeroed => allocator.transitionAll frameStateAnonZeroed frameStateAllocated pages
  | _ => .ok allocator

def drainStep (call : AllocCall) (kind : CacheKind) (index : ℕ) : StepResult cpus :=
  if hindex : index < cpus then
    let pages := config.cache kind ⟨index, hindex⟩
    if pages = [] then .ok (config.setPhase cpu (.drain call kind (index + 1)), none)
    else if kind.capacity < pages.length then .error .cacheOverflow
    else do
      let allocator ← unpublish config.allocator kind pages
      let drained := ((config.setCache kind ⟨index, hindex⟩ []).setAllocator allocator)
      .ok ((drained.countDrained kind pages.length).setPhase cpu
        (.drainFlush call kind index pages), none)
  else .ok (config.setPhase cpu (drainNext call kind), none)

def drainFlushStep (call : AllocCall) (kind : CacheKind) (index : ℕ) (batch : List ℕ) : StepResult
    cpus := do
  let allocator ← config.allocator.deallocAll batch
  let flushed := config.setAllocator allocator
  .ok ({ flushed with cleared := config.cleared \ batch.toFinset }.setPhase cpu
    (.drain call kind (index + 1)), none)

/-- The locked part of `cache_deallocated_frame`. -/
def deallocPushStep (ppn : ℕ) : StepResult cpus :=
  let full := (config.cache .free cpu).length = CacheKind.capacity .free
  let count := if full then frameFreeCacheFlush else 0
  let flushed := (config.cache .free cpu).take count
  let kept := (config.cache .free cpu).drop count
  if CacheKind.capacity .free ≤ kept.length then .error .cacheOverflow
  else
    let pushed := config.setCache .free cpu (ppn :: kept)
    .ok ({ pushed with
        cpuCachedCount := wrapSub (wrapAdd config.cpuCachedCount 1) count }.setPhase cpu
      (if flushed = [] then .idle else .flush flushed), none)

def flushStep (batch : List ℕ) : StepResult cpus := do
  let allocator ← config.allocator.deallocAll batch
  let flushed := config.setAllocator allocator
  .ok ({ flushed with cleared := config.cleared \ batch.toFinset }.setPhase cpu .idle,
    none)

def prezeroCheckStep : CacheConfig cpus :=
  if config.allocator.ranges = [] ∨
      CacheKind.capacity .zeroed ≤ (config.cache .zeroed cpu).length then
    config.setPhase cpu .idle
  else config.setPhase cpu (.prezeroDirty 0)

def prezeroDirtyStep (offset : ℕ) : CacheConfig cpus :=
  if cpus ≤ offset then config.setPhase cpu .prezeroFree
  else match config.cache .dirty (scanIndex cpu offset) with
    | [] => config.setPhase cpu (.prezeroDirty (offset + 1))
    | ppn :: rest =>
      (config.setCache .dirty (scanIndex cpu offset) rest).setPhase cpu (.prezeroClear ppn true)

def prezeroFreeStep : StepResult cpus := do
  let popped ← config.popCpuFreeFrame cpu
  match popped.2 with
  | some ppn => .ok (popped.1.setPhase cpu (.prezeroClear ppn false), none)
  | none => .ok (popped.1.setPhase cpu .prezeroCentral, none)

/-- The central allocator is only tried; `locked` tells whether it was free. -/
def prezeroCentralStep (locked : Bool) : StepResult cpus :=
  if locked = false then .ok (config.setPhase cpu .idle, none)
  else do
    let taken ← config.allocator.alloc.mapError CachePanic.central
    match taken.2 with
    | some ppn =>
      .ok ((config.setAllocator taken.1).setPhase cpu (.prezeroClear ppn false), none)
    | none => .ok ((config.setAllocator taken.1).setPhase cpu .idle, none)

def prezeroPublishStep (ppn : ℕ) (cached : Bool) : StepResult cpus := do
  let allocator ← config.allocator.transitionFrameState ppn frameStateAllocated frameStateAnonZeroed
  .ok ((config.setAllocator allocator).setPhase cpu (.prezeroPush ppn cached), none)

def prezeroPushStep (ppn : ℕ) (cached : Bool) : StepResult cpus :=
  if CacheKind.capacity .zeroed ≤ (config.cache .zeroed cpu).length then
    .error .zeroedCacheFilled
  else
    .ok ((config.setCache .zeroed cpu (ppn :: config.cache .zeroed cpu)).setPhase cpu
      (.prezeroAnonCount cached), none)

def advance (locked : Bool) : StepResult cpus :=
  match config.phase cpu with
  | .idle => .ok (config, none)
  | .zeroedLoad call =>
    .ok (config.setPhase cpu (if config.anonZeroedCount = 0 then .freePop call
      else .zeroedScan call 0), none)
  | .zeroedScan call offset => config.zeroedScanStep cpu call offset
  | .freePop call => config.freePopStep cpu call
  | .dirtyScan call offset => .ok (config.dirtyScanStep cpu call offset, none)
  | .dirtyCount ppn =>
    .ok ({ config.handOut cpu [ppn] with
      anonCachedCount := wrapSub config.anonCachedCount 1 }, some ⟨[ppn], false⟩)
  | .refill call => config.refillStep cpu call
  | .extend batch => config.extendStep cpu batch
  | .heapLoad pages alignPages minFreePages =>
    .ok (config.setPhase cpu
      (.heapLoadAnon pages alignPages minFreePages config.cpuCachedCount), none)
  | .heapLoadAnon pages alignPages minFreePages freeSeen =>
    .ok (config.setPhase cpu (.central ⟨.heapExtent pages alignPages minFreePages
      (saturatingAdd freeSeen config.anonCachedCount), .first⟩), none)
  | .central call => config.centralStep cpu call
  | .drain call kind index => config.drainStep cpu call kind index
  | .drainFlush call kind index batch => config.drainFlushStep cpu call kind index batch
  | .deallocPush ppn => config.deallocPushStep cpu ppn
  | .flush batch => config.flushStep cpu batch
  | .prezeroCheck => .ok (config.prezeroCheckStep cpu, none)
  | .prezeroDirty offset => .ok (config.prezeroDirtyStep cpu offset, none)
  | .prezeroFree => config.prezeroFreeStep cpu
  | .prezeroCentral => config.prezeroCentralStep cpu locked
  | .prezeroClear ppn cached =>
    .ok ({ config with cleared := insert ppn config.cleared }.setPhase cpu
      (.prezeroPublish ppn cached), none)
  | .prezeroPublish ppn cached => config.prezeroPublishStep cpu ppn cached
  | .prezeroPush ppn cached => config.prezeroPushStep cpu ppn cached
  | .prezeroAnonCount cached =>
    let counted := if cached = true then config.anonCachedCount
      else wrapAdd config.anonCachedCount 1
    .ok ({ config with anonCachedCount := counted }.setPhase cpu .prezeroZeroedCount,
      none)
  | .prezeroZeroedCount =>
    .ok ({ config with anonZeroedCount := wrapAdd config.anonZeroedCount 1 }.setPhase
      cpu .idle, none)

inductive CacheStep (cpus : ℕ) where
  | alloc (cpu : Fin cpus) (request : AllocRequest) (stage : AllocStage)
  | dealloc (cpu : Fin cpus) (ppn : ℕ)
  | prezero (cpu : Fin cpus)
  | advance (cpu : Fin cpus) (locked : Bool)
  | store (ppn : ℕ) (node : BuddyNode)

/-- A call starts on an idle CPU: allocations from the beginning or after a
reclaim, and `cache_deallocated_frame` with its first atomic update. -/
def exec : CacheStep cpus → StepResult cpus
  | .alloc cpu request stage =>
    .ok (config.setPhase cpu (match request with
      | .heapExtent pages alignPages minFreePages _ =>
        .heapLoad pages alignPages minFreePages
      | _ => entryPhase ⟨request, stage⟩), none)
  | .dealloc cpu ppn => do
      let allocator ← config.allocator.transitionFrameState ppn
        frameStateAllocated frameStateCpuCached
      .ok ({ config.setAllocator allocator with
        outstanding := config.outstanding.erase ppn }.setPhase cpu (.deallocPush ppn), none)
  | .prezero cpu => .ok (config.setPhase cpu .prezeroCheck, none)
  | .advance cpu locked => config.advance cpu locked
  | .store ppn node =>
    .ok (config.setAllocator { config.allocator with
      nodes := Function.update config.allocator.nodes ppn node }, none)

/-- Calls start on idle CPUs; callers give back and write to pages in use. -/
def legal : CacheStep cpus → Prop
  | .alloc cpu _ stage => config.phase cpu = .idle ∧ stage ≠ .drained
  | .dealloc cpu ppn => config.phase cpu = .idle ∧ ppn ∈ config.outstanding
  | .prezero cpu => config.phase cpu = .idle
  | .advance _ _ => True
  | .store ppn _ => ppn ∈ config.outstanding

def next (step : CacheStep cpus) : Option (CacheConfig cpus) :=
  (config.exec step).toOption.map Prod.fst

def boot (cpus : ℕ) (map : MemoryMap) (nodes : ℕ → BuddyNode) :
    Except FramePanic (CacheConfig cpus) := do
  let allocator ← (BuddyFrameAllocator.new nodes).addRanges map.ranges
  .ok { allocator := allocator, cache := fun _ _ => [], phase := fun _ => .idle,
        cpuCachedCount := 0, anonCachedCount := 0, anonZeroedCount := 0,
        outstanding := [], cleared := ∅ }

end CacheConfig

end Kairix.Frame
