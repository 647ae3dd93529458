import Kairix.BuddyHeap
import Kairix.LabelledRun
import Kairix.WordBitmap

/-!
# The per-CPU slab caches of the kernel heap

Small allocations come from spans of 64 KiB which the global heap supplies and
takes back as a whole.  A span starts with a header whose bitmap marks its free
slots; the spans of one size class of one CPU form a list through the headers.
Every section under a lock is one step, and a step names the CPU it runs on, so
that a caller may have moved since its last step.

`owned`, `live`, `large` and `memory` are history which no step reads: the spans
which were obtained and not returned, the slab blocks and the large blocks in
use, and the memory given to the global heap.
-/

namespace Kairix.KernelHeap

open Function WordBitmap

def heapSlabMinSize : ℕ := 16

def heapSlabMaxSize : ℕ := pageSize

def heapSlabClassCount : ℕ := 9

def heapSlabSpanSize : ℕ := 64 * 1024

def heapSlabEmptyReserve : ℕ := 1

def heapSlabMaxSlots : ℕ := heapSlabSpanSize / heapSlabMinSize

def heapSlabBitmapWords : ℕ := (heapSlabMaxSlots + wordBits - 1) / wordBits

def heapSlabMagic : ℕ := 0x4b534c414253504e

def heapSlabDeadMagic : ℕ := 0x444541445350414e

def heapSlabHeaderSize : ℕ := 8 * 8 + 8 * heapSlabBitmapWords

inductive SlabPanic where
  | invalidFreeSlot
  | bitmapMismatch
  | listCorruption
  | endlessList
  | missingSpan
  | slotCount
  | newSpanFull
  | invalidSpan
  | wrongClass
  | invalidOwner
  | belowSlots
  | notSlotAligned
  | outsideSlots
  | doubleFree
  | heap (panic : HeapPanic)
  deriving DecidableEq, Repr

def roundedRequestBytes (layout : Layout) : Option ℕ :=
  checkedNextPowerOfTwo (max (max layout.size layout.align) 1)

def heapSlabClass (layout : Layout) : Option ℕ :=
  match roundedRequestBytes layout with
  | none => none
  | some rounded =>
    let size := max rounded heapSlabMinSize
    if heapSlabMaxSize < size then none
    else
      let cls := DyadicBlock.trailingZeros wordBits size -
        DyadicBlock.trailingZeros wordBits heapSlabMinSize
      if cls < heapSlabClassCount then some cls else none

def heapSlabClassSize (cls : ℕ) : ℕ := heapSlabMinSize * 2 ^ cls

def heapSlabSpanLayout : Layout :=
  ⟨heapSlabSpanSize, heapSlabSpanSize, ⟨16, rfl⟩, by decide⟩

def heapSlabSpanBase (pointer : ℕ) : ℕ := pointer / heapSlabSpanSize * heapSlabSpanSize

structure HeapSlabSpan where
  magic : ℕ
  ownerCpu : ℕ
  cls : ℕ
  next : ℕ
  slotStart : ℕ
  slotCount : ℕ
  freeCount : ℕ
  bitmapHint : ℕ
  freeBitmap : ℕ → BitVec wordBits

structure HeapSlabClass where
  head : ℕ
  active : ℕ
  spanCount : ℕ
  emptyCount : ℕ
  deriving DecidableEq, Repr

def HeapSlabClass.new : HeapSlabClass := ⟨0, 0, 0, 0⟩

abbrev SpanMemory := ℕ → HeapSlabSpan

def initializeHeapSlabSpan (address ownerCpu cls : ℕ) : Except SlabPanic HeapSlabSpan :=
  let classSize := heapSlabClassSize cls
  let slotStart := (address + heapSlabHeaderSize + classSize - 1) / classSize * classSize
  let slotCount := (address + heapSlabSpanSize - slotStart) / classSize
  if slotCount = 0 ∨ heapSlabMaxSlots < slotCount then .error .slotCount
  else .ok ⟨heapSlabMagic, ownerCpu, cls, 0, slotStart, slotCount, slotCount, 0, fill slotCount⟩

namespace HeapSlabSpan

def isEmpty (span : HeapSlabSpan) : Bool := span.freeCount = span.slotCount

def heapSlabTakeFromSpan (span : HeapSlabSpan) : Except SlabPanic (Option (ℕ × HeapSlabSpan)) :=
  if span.freeCount = 0 then .ok none
  else
    match findWord span.freeBitmap heapSlabBitmapWords span.bitmapHint with
    | none => .error .bitmapMismatch
    | some word =>
      let index := word * wordBits + lowestBit (span.freeBitmap word)
      if span.slotCount ≤ index then .error .invalidFreeSlot
      else
        let bitmap := clearBit span.freeBitmap index
        .ok (some (span.slotStart + index * heapSlabClassSize span.cls,
          { span with
            freeBitmap := bitmap
            freeCount := span.freeCount - 1
            bitmapHint := if bitmap word = 0 then (word + 1) % heapSlabBitmapWords else word }))

def giveBack (span : HeapSlabSpan) (pointer : ℕ) : Except SlabPanic HeapSlabSpan :=
  if pointer < span.slotStart then .error .belowSlots
  else if (pointer - span.slotStart) % heapSlabClassSize span.cls ≠ 0 then .error .notSlotAligned
  else
    let slot := (pointer - span.slotStart) / heapSlabClassSize span.cls
    if span.slotCount ≤ slot then .error .outsideSlots
    else if bit span.freeBitmap slot then .error .doubleFree
    else .ok { span with
      freeBitmap := setBit span.freeBitmap slot
      bitmapHint := slot / wordBits
      freeCount := span.freeCount + 1 }

end HeapSlabSpan

namespace HeapSlabClass

def noteTaken (cls : HeapSlabClass) (wasEmpty : Bool) : HeapSlabClass :=
  { cls with emptyCount := if wasEmpty then cls.emptyCount - 1 else cls.emptyCount }

/-- Look for a free slot in the spans from `current` on.  A list which does not
end within `fuel` spans is reported as endless. -/
def takeFromList (spans : SpanMemory) (cls : HeapSlabClass) :
    (fuel current : ℕ) → Except SlabPanic (Option ℕ × SpanMemory × HeapSlabClass)
  | 0, _ => .error .endlessList
  | fuel + 1, current =>
    if current = 0 then .ok (none, spans, cls)
    else if (spans current).magic ≠ heapSlabMagic then .error .listCorruption
    else
      match (spans current).heapSlabTakeFromSpan with
      | .error panic => .error panic
      | .ok (some (pointer, span)) =>
        .ok (some pointer, update spans current span,
          { cls.noteTaken (spans current).isEmpty with active := current })
      | .ok none => takeFromList spans cls fuel (spans current).next

variable (spans : SpanMemory) (cls : HeapSlabClass)

def heapSlabTakeFromClass : Except SlabPanic (Option ℕ × SpanMemory × HeapSlabClass) :=
  if cls.active = 0 then takeFromList spans cls (cls.spanCount + 1) cls.head
  else
    match (spans cls.active).heapSlabTakeFromSpan with
    | .error panic => .error panic
    | .ok (some (pointer, span)) =>
      .ok (some pointer, update spans cls.active span,
        cls.noteTaken (spans cls.active).isEmpty)
    | .ok none =>
      takeFromList spans { cls with active := 0 } (cls.spanCount + 1) cls.head

def heapSlabInsert (address : ℕ) : SpanMemory × HeapSlabClass :=
  (update spans address { spans address with next := cls.head },
    ⟨address, address, cls.spanCount + 1, cls.emptyCount + 1⟩)

def unlink (previous current : ℕ) : SpanMemory × HeapSlabClass :=
  let linked :=
    if previous = 0 then spans
    else update spans previous { spans previous with next := (spans current).next }
  (update linked current { linked current with next := 0 },
    ⟨if previous = 0 then (spans current).next else cls.head,
      if cls.active = current then 0 else cls.active, cls.spanCount - 1, cls.emptyCount - 1⟩)

def removeFrom (spans : SpanMemory) (cls : HeapSlabClass) (address : ℕ) :
    (fuel previous current : ℕ) → Except SlabPanic (SpanMemory × HeapSlabClass)
  | 0, _, _ => .error .endlessList
  | fuel + 1, previous, current =>
    if current = 0 then .error .missingSpan
    else if current = address then .ok (unlink spans cls previous current)
    else removeFrom spans cls address fuel current (spans current).next

def heapSlabRemove (address : ℕ) : Except SlabPanic (SpanMemory × HeapSlabClass) :=
  removeFrom spans cls address (cls.spanCount + 1) 0 cls.head

/-- The locked section of `alloc_from_cpu_slab` which puts a new span to use. -/
def refill (address cpu classIndex : ℕ) : Except SlabPanic (ℕ × SpanMemory × HeapSlabClass) :=
  match initializeHeapSlabSpan address cpu classIndex with
  | .error panic => .error panic
  | .ok span =>
    let (linked, inserted) := heapSlabInsert (update spans address span) cls address
    match heapSlabTakeFromClass linked inserted with
    | .error panic => .error panic
    | .ok (none, _, _) => .error .newSpanFull
    | .ok (some pointer, after, taken) => .ok (pointer, after, taken)

/-- The locked section of `dealloc_to_cpu_slab`; the flag asks for the span to
be returned to the global heap. -/
def dealloc (address pointer : ℕ) : Except SlabPanic (Bool × SpanMemory × HeapSlabClass) :=
  match (spans address).giveBack pointer with
  | .error panic => .error panic
  | .ok span =>
    let updated := update spans address span
    let wasFull := (spans address).freeCount = 0
    let activated := if wasFull then { cls with active := address } else cls
    if span.isEmpty then
      let counted := { activated with emptyCount := activated.emptyCount + 1 }
      if heapSlabEmptyReserve < counted.emptyCount ∧ 1 < counted.spanCount then
        match heapSlabRemove updated counted address with
        | .error panic => .error panic
        | .ok (after, removed) => .ok (true, after, removed)
      else .ok (false, updated, counted)
    else .ok (false, updated, activated)

end HeapSlabClass

/-! ## The system -/

structure SlabBlock where
  address : ℕ
  layout : Layout
  deriving DecidableEq

inductive SlabCall where
  | idle
  | refill (layout : Layout) (cls : ℕ)
  | insert (layout : Layout) (cls address : ℕ)
  | reclaim (address : ℕ)
  deriving DecidableEq

structure SlabConfig (cpus : ℕ) (τ : Type*) where
  heap : BuddyHeap
  spans : SpanMemory
  caches : Fin cpus × ℕ → HeapSlabClass
  calls : τ → SlabCall
  owned : List ℕ
  live : List SlabBlock
  large : List SlabBlock
  memory : List (ℕ × ℕ)

inductive SlabStep (cpus : ℕ) (τ : Type*) where
  | alloc (thread : τ) (cpu : Fin cpus) (layout : Layout)
  | obtainSpan (thread : τ)
  | giveUp (thread : τ)
  | insertSpan (thread : τ) (cpu : Fin cpus)
  | dealloc (thread : τ) (block : SlabBlock)
  | returnSpan (thread : τ)
  | allocLarge (layout : Layout)
  | deallocLarge (block : SlabBlock)
  | grow (start stop : ℕ)

namespace SlabConfig

variable {cpus : ℕ} {τ : Type*} [DecidableEq τ]

/-- No memory has been given to the heap yet; the headers hold anything. -/
def booted (spans : SpanMemory) : SlabConfig cpus τ where
  heap := BuddyHeap.empty
  spans := spans
  caches := fun _ => HeapSlabClass.new
  calls := fun _ => .idle
  owned := []
  live := []
  large := []
  memory := []

variable (config s : SlabConfig cpus τ) (thread : τ)

def setCache (cpu : Fin cpus) (cls : ℕ) (cache : HeapSlabClass) : SlabConfig cpus τ :=
  { config with caches := update config.caches (cpu, cls) cache }

def setCall (call : SlabCall) : SlabConfig cpus τ :=
  { config with calls := update config.calls thread call }

def allocFromCpuSlab (cpu : Fin cpus) (layout : Layout) (cls : ℕ) : Except SlabPanic
    (SlabConfig cpus τ) :=
  match (config.caches (cpu, cls)).heapSlabTakeFromClass config.spans with
  | .error panic => .error panic
  | .ok (some pointer, spans, cache) =>
    .ok ({ config with spans := spans, live := ⟨pointer, layout⟩ :: config.live }.setCache
      cpu cls cache)
  | .ok (none, spans, cache) =>
    .ok (({ config with spans := spans }.setCache cpu cls cache).setCall thread
      (.refill layout cls))

/-- A refilling call asks the global heap for a span.  Without one it may ask
again after the heap has grown, or give up. -/
def obtainSpan (layout : Layout) (cls : ℕ) : Except SlabPanic (SlabConfig cpus τ) :=
  match config.heap.alloc heapSlabSpanLayout with
  | .error panic => .error (.heap panic)
  | .ok (none, heap) => .ok { config with heap := heap }
  | .ok (some address, heap) =>
    .ok ({ config with heap := heap, owned := address :: config.owned }.setCall thread
      (.insert layout cls address))

def insertSpan (cpu : Fin cpus) (layout : Layout) (cls address : ℕ) : Except SlabPanic
    (SlabConfig cpus τ) :=
  match (config.caches (cpu, cls)).refill config.spans address cpu cls with
  | .error panic => .error panic
  | .ok (pointer, spans, cache) =>
    .ok (({ config with
      spans := spans
      live := ⟨pointer, layout⟩ :: config.live }.setCache cpu cls cache).setCall thread .idle)

def deallocToCpuSlab (block : SlabBlock) (cls : ℕ) : Except SlabPanic (SlabConfig cpus τ) :=
  let base := heapSlabSpanBase block.address
  let span := config.spans base
  if span.magic ≠ heapSlabMagic then .error .invalidSpan
  else if span.cls ≠ cls then .error .wrongClass
  else if howner : span.ownerCpu < cpus then
    match (config.caches (⟨span.ownerCpu, howner⟩, cls)).dealloc config.spans base
      block.address with
    | .error panic => .error panic
    | .ok (reclaim, spans, cache) =>
      let after := { config with
        spans := spans
        live := config.live.erase block }.setCache ⟨span.ownerCpu, howner⟩ cls cache
      .ok (if reclaim then after.setCall thread (.reclaim base) else after)
  else .error .invalidOwner

def returnSpan (address : ℕ) : Except SlabPanic (SlabConfig cpus τ) :=
  match config.heap.dealloc address heapSlabSpanLayout with
  | .error panic => .error (.heap panic)
  | .ok heap =>
    .ok ({ config with
      heap := heap
      spans := update config.spans address
        { config.spans address with magic := heapSlabDeadMagic }
      owned := config.owned.erase address }.setCall thread .idle)

def allocLarge (layout : Layout) : Except SlabPanic (SlabConfig cpus τ) :=
  match config.heap.alloc layout with
  | .error panic => .error (.heap panic)
  | .ok (none, heap) => .ok { config with heap := heap }
  | .ok (some address, heap) =>
    .ok { config with heap := heap, large := ⟨address, layout⟩ :: config.large }

def deallocLarge (block : SlabBlock) : Except SlabPanic (SlabConfig cpus τ) :=
  match config.heap.dealloc block.address block.layout with
  | .error panic => .error (.heap panic)
  | .ok heap => .ok { config with heap := heap, large := config.large.erase block }

def grow (start stop : ℕ) : Except SlabPanic (SlabConfig cpus τ) :=
  match config.heap.addToHeap start stop with
  | .error panic => .error (.heap panic)
  | .ok heap => .ok { config with heap := heap, memory := (start, stop) :: config.memory }

def Fresh (start stop : ℕ) : Prop :=
  0 < start ∧ start + pageSize ≤ stop ∧ ∀ range ∈ config.memory, stop ≤ range.1 ∨ range.2 ≤ start

instance (config : SlabConfig cpus τ) (start stop : ℕ) : Decidable (config.Fresh start stop) :=
  inferInstanceAs (Decidable (_ ∧ _ ∧ _))

/-- The section which a step runs, if it is enabled.  Only live blocks are
freed. -/
def sectionOf : SlabStep cpus τ → Option (Except SlabPanic (SlabConfig cpus τ))
  | .alloc thread cpu layout =>
    match config.calls thread, heapSlabClass layout with
    | .idle, some cls => some (config.allocFromCpuSlab thread cpu layout cls)
    | _, _ => none
  | .obtainSpan thread =>
    match config.calls thread with
    | .refill layout cls => some (config.obtainSpan thread layout cls)
    | _ => none
  | .giveUp thread =>
    match config.calls thread with
    | .refill _ _ => some (.ok (config.setCall thread .idle))
    | _ => none
  | .insertSpan thread cpu =>
    match config.calls thread with
    | .insert layout cls address => some (config.insertSpan thread cpu layout cls address)
    | _ => none
  | .dealloc thread block =>
    match config.calls thread, heapSlabClass block.layout with
    | .idle, some cls =>
      if block ∈ config.live then some (config.deallocToCpuSlab thread block cls) else none
    | _, _ => none
  | .returnSpan thread =>
    match config.calls thread with
    | .reclaim address => some (config.returnSpan thread address)
    | _ => none
  | .allocLarge layout =>
    match heapSlabClass layout with
    | none => some (config.allocLarge layout)
    | some _ => none
  | .deallocLarge block =>
    if block ∈ config.large then some (config.deallocLarge block) else none
  | .grow start stop =>
    if config.Fresh start stop then some (config.grow start stop) else none

def next (step : SlabStep cpus τ) : Option (SlabConfig cpus τ) :=
  (config.sectionOf step).bind Except.toOption

end SlabConfig

end Kairix.KernelHeap
