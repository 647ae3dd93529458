import Kairix.MachineWord
import Kairix.DyadicBlock

/-!
# The global kernel heap

The heap keeps its free blocks in one address-ordered tree for every order of
size.  A tree is represented by the increasing list of its addresses, so the
lowest block is the head.  Blocks are split on the way out and merged with
their free buddies on the way back; a failed assertion is an error of the
`Except` result.
-/

namespace Kairix.KernelHeap

open DyadicBlock

inductive HeapPanic where
  | duplicateInsertion
  | doubleFree
  | noFreeSpace
  | orderOutOfBounds
  | startAfterEnd
  deriving DecidableEq, Repr

/-- A requested size and alignment, within the limits of `core::alloc::Layout`. -/
structure Layout where
  size : ℕ
  align : ℕ
  align_pow : ∃ exponent, align = 2 ^ exponent
  size_le : size + align ≤ 2 ^ 63
  deriving DecidableEq

def wordBits : ℕ := 64

def kernelHeapOrder : ℕ := 32

def minBlockSize : ℕ := 32

def Layout.blockOrder (layout : Layout) : ℕ :=
  trailingZeros wordBits (max (nextPowerOfTwo layout.size) (max layout.align minBlockSize))

structure BuddyHeap where
  freeList : ℕ → List ℕ

namespace BuddyHeap

def empty : BuddyHeap := ⟨fun _ => []⟩

variable (heap : BuddyHeap) (order : ℕ)

/-- The free memory of the heap. -/
def bytes : ℕ :=
  ∑ order ∈ Finset.range kernelHeapOrder, (heap.freeList order).length * 2 ^ order

def setList (blocks : List ℕ) : BuddyHeap :=
  ⟨Function.update heap.freeList order blocks⟩

def insert (order block : ℕ) : Except HeapPanic BuddyHeap :=
  if block ∈ heap.freeList order then .error .duplicateInsertion
  else .ok (heap.setList order ((heap.freeList order).orderedInsert (· ≤ ·) block))

def pop : Option (ℕ × BuddyHeap) :=
  match heap.freeList order with
  | [] => none
  | block :: rest => some (block, heap.setList order rest)

/-- The order of the largest aligned block at `current` which ends by `stop`. -/
def fittingOrder (current stop : ℕ) : ℕ :=
  min (min (trailingZeros wordBits current) (Nat.log 2 (stop - current))) (kernelHeapOrder - 1)

def addBlocks (heap : BuddyHeap) (current stop : ℕ) : Except HeapPanic BuddyHeap :=
  if current + minBlockSize ≤ stop then
    match heap.insert (fittingOrder current stop) current with
    | .error panic => .error panic
    | .ok after => addBlocks after (current + 2 ^ fittingOrder current stop) stop
  else .ok heap
termination_by stop - current
decreasing_by
  have hblock : 0 < 2 ^ fittingOrder current stop := Nat.two_pow_pos _
  have hmin : minBlockSize = 32 := rfl
  omega

def addToHeap (start stop : ℕ) : Except HeapPanic BuddyHeap :=
  let first := (start + minBlockSize - 1) / minBlockSize * minBlockSize
  let last := stop / minBlockSize * minBlockSize
  if first ≤ last then heap.addBlocks first last else .error .startAfterEnd

def init (start size : ℕ) : Except HeapPanic BuddyHeap :=
  heap.addToHeap start (start + size)

/-- Halve the lowest block of order `target + levels` down to order `target`;
the flag tells whether every level had a block. -/
def splitBlocks (heap : BuddyHeap) (target : ℕ) : (levels : ℕ) → Except HeapPanic (BuddyHeap × Bool)
  | 0 => .ok (heap, true)
  | levels + 1 =>
    match heap.pop (target + levels + 1) with
    | none => .ok (heap, false)
    | some (block, rest) =>
      match rest.insert (target + levels) (block + 2 ^ (target + levels)) with
      | .error panic => .error panic
      | .ok upper =>
        match upper.insert (target + levels) block with
        | .error panic => .error panic
        | .ok both => splitBlocks both target levels

def firstNonEmpty : Option ℕ :=
  (List.range' order (kernelHeapOrder - order)).find? fun other =>
    !(heap.freeList other).isEmpty

def alloc (layout : Layout) : Except HeapPanic (Option ℕ × BuddyHeap) :=
  let order := layout.blockOrder
  match heap.firstNonEmpty order with
  | none => .ok (none, heap)
  | some found =>
    match heap.splitBlocks order (found - order) with
    | .error panic => .error panic
    | .ok (split, false) => .ok (none, split)
    | .ok (split, true) =>
      match split.pop order with
      | none => .error .noFreeSpace
      | some (block, rest) => .ok (if block = 0 then none else some block, rest)

/-- Merge a returned block upwards through at most `levels` orders. -/
def mergeBlocks (heap : BuddyHeap) (block order : ℕ) : (levels : ℕ) → Except HeapPanic BuddyHeap
  | 0 =>
    if block ∈ heap.freeList order then .error .doubleFree
    else heap.insert order block
  | levels + 1 =>
    if block ∈ heap.freeList order then .error .doubleFree
    else if block ^^^ 2 ^ order ∈ heap.freeList order then
      mergeBlocks
        (heap.setList order ((heap.freeList order).erase (block ^^^ 2 ^ order)))
        (min block (block ^^^ 2 ^ order)) (order + 1) levels
    else heap.insert order block

def dealloc (block : ℕ) (layout : Layout) : Except HeapPanic BuddyHeap :=
  if layout.blockOrder < kernelHeapOrder then
    heap.mergeBlocks block layout.blockOrder (kernelHeapOrder - 1 - layout.blockOrder)
  else .error .orderOutOfBounds

end BuddyHeap

end Kairix.KernelHeap
