import Kairix.CircularBuffer
import Kairix.MachineWord
import Kairix.SysError

/-!
# The pipe ring buffer

The bytes of a pipe live in a ring of `capacity` offsets which is stored in
lazily allocated pages.  A missing page reads as zero, drained pages are
dropped, and a resize copies the readable bytes to the front of a new page
table.  The definitions follow `fs/pipe.rs`; an operation which indexes the
page table outside its bounds has no result.
-/

namespace Kairix.Pipe

open CircularBuffer

theorem pageSize_eq : pageSize = 4096 := rfl

def defaultPipeCapacity : ℕ := 4096 * 16

def pipeBuf : ℕ := 4096

def pipeMaxSize : ℕ := 1024 * 1024

def pipeSizeLimit : ℕ := 2 ^ 31

structure PipePage where
  data : ℕ → UInt8

def PipePage.newZeroed : PipePage where
  data := fun _ => 0

def PipePage.slice (page : PipePage) (off len : ℕ) : List UInt8 :=
  (List.range len).map fun index => page.data (off + index)

def PipePage.copyFromSlice (page : PipePage) (off : ℕ) (src : List UInt8) : PipePage where
  data := fun index =>
    if off ≤ index ∧ index < off + src.length then src.getD (index - off) 0
    else page.data index

inductive RingBufferStatus where
  | full
  | empty
  | normal
  deriving DecidableEq, Repr

abbrev PageTable := List (Option PipePage)

structure PipeRingBuffer where
  pages : PageTable
  capacity : ℕ
  head : ℕ
  tail : ℕ
  status : RingBufferStatus
  readEndOpen : Bool
  writeEndOpen : Bool

def pageCountFor (capacity : ℕ) : ℕ :=
  (capacity + pageSize - 1) / pageSize

def ensurePageSlots (pages : PageTable) (capacity : ℕ) : PageTable :=
  if pages.length < pageCountFor capacity then
    pages ++ List.replicate (pageCountFor capacity - pages.length) none
  else pages

/-- Allocate the page at `pageIdx` if it is missing and update it.  There is
no result when the index is outside the page table. -/
def updatePage (pages : PageTable) (pageIdx : ℕ)
    (update : PipePage → PipePage) : Option PageTable :=
  pages[pageIdx]?.map fun slot =>
    pages.set pageIdx (some (update (slot.getD .newZeroed)))

def storedByte (pages : PageTable) (offset : ℕ) : UInt8 :=
  match pages[offset / pageSize]? with
  | some (some page) => page.data (offset % pageSize)
  | _ => 0

def storedSlice (pages : PageTable) (offset len : ℕ) : List UInt8 :=
  match pages[offset / pageSize]? with
  | some (some page) => page.slice (offset % pageSize) len
  | _ => List.replicate len 0

@[simp] theorem storedSlice_length (pages : PageTable) (offset len : ℕ) :
    (storedSlice pages offset len).length = len := by
  unfold storedSlice
  split <;> simp [PipePage.slice]

def writeStoredByteTo (pages : PageTable) (capacity offset : ℕ) (byte : UInt8) : Option PageTable :=
  updatePage (ensurePageSlots pages capacity) (offset / pageSize)
    fun page => page.copyFromSlice (offset % pageSize) [byte]

/-- `ensure_page_mut(offset)[page_off..].copy_from_slice(src)`. -/
def writeStoredSlice (pages : PageTable) (capacity offset : ℕ)
    (src : List UInt8) : Option PageTable :=
  updatePage (ensurePageSlots pages capacity) (offset / pageSize)
    fun page => page.copyFromSlice (offset % pageSize) src

namespace PipeRingBuffer

def new : PipeRingBuffer where
  pages := []
  capacity := defaultPipeCapacity
  head := 0
  tail := 0
  status := .empty
  readEndOpen := true
  writeEndOpen := true

variable (ring : PipeRingBuffer) (len : ℕ)

def readStoredByte (offset : ℕ) : UInt8 :=
  storedByte ring.pages offset

def availableRead : ℕ :=
  if ring.status = .empty then 0
  else if ring.head < ring.tail then ring.tail - ring.head
  else ring.tail + ring.capacity - ring.head

def availableWrite : ℕ :=
  if ring.status = .full then 0
  else ring.capacity - ring.availableRead

def contiguousReadLen : ℕ :=
  if ring.status = .empty then 0
  else if ring.head < ring.tail then ring.tail - ring.head
  else ring.capacity - ring.head

def contiguousWriteLen : ℕ :=
  if ring.status = .full then 0
  else if ring.head ≤ ring.tail then ring.capacity - ring.tail
  else ring.head - ring.tail

def allReadEndsClosed : Bool :=
  !ring.readEndOpen

def allWriteEndsClosed : Bool :=
  !ring.writeEndOpen

def pageContainsReadableData (pageIdx : ℕ) : Bool :=
  if ring.status = .empty then false
  else if ring.status = .full then true
  else
    let pageStart := pageIdx * pageSize
    let pageEnd := min (pageStart + pageSize) ring.capacity
    if pageEnd ≤ pageStart then false
    else if ring.head < ring.tail then
      pageStart < ring.tail && ring.head < pageEnd
    else
      ring.head < pageEnd || pageStart < ring.tail

def reclaimConsumedPages : PipeRingBuffer :=
  if ring.status = .empty then { ring with pages := [] }
  else
    { ring with
      pages := ring.pages.mapIdx fun pageIdx page =>
        if ring.pageContainsReadableData pageIdx then page else none }

def advanceHead : PipeRingBuffer :=
  let head := (ring.head + len) % ring.capacity
  { ring with
    head := head
    status := if head = ring.tail then .empty else .normal }

def readCopyLen (remaining : ℕ) : ℕ :=
  min (min ring.contiguousReadLen (pageSize - ring.head % pageSize)) remaining

/-- The copy loop of `read_slice`.  The accumulated bytes are `dst[..copied]`. -/
def readSliceLoop (target : ℕ) (ring : PipeRingBuffer) (dst : List UInt8) :
    PipeRingBuffer × List UInt8 :=
  if dst.length < target then
    if ring.readCopyLen (target - dst.length) = 0 then (ring, dst)
    else
      readSliceLoop target
        (ring.advanceHead (ring.readCopyLen (target - dst.length)))
        (dst ++ storedSlice ring.pages ring.head (ring.readCopyLen (target - dst.length)))
  else (ring, dst)
termination_by target - dst.length
decreasing_by
  rw [List.length_append, storedSlice_length]
  omega

def readSlice : PipeRingBuffer × List UInt8 :=
  let target := min len ring.availableRead
  let result := readSliceLoop target ring []
  if 0 < result.2.length then (result.1.reclaimConsumedPages, result.2)
  else result

def peekCopyLen (cursor remaining : ℕ) : ℕ :=
  let contiguous :=
    if ring.status = .empty then 0
    else if cursor < ring.tail then ring.tail - cursor
    else ring.capacity - cursor
  min (min contiguous (pageSize - cursor % pageSize)) remaining

/-- The copy loop of `peek_slice`, which moves only a local cursor. -/
def peekSliceLoop (ring : PipeRingBuffer) (target cursor : ℕ) (dst : List UInt8) : List UInt8 :=
  if dst.length < target then
    if ring.peekCopyLen cursor (target - dst.length) = 0 then dst
    else
      ring.peekSliceLoop target
        ((cursor + ring.peekCopyLen cursor (target - dst.length)) % ring.capacity)
        (dst ++ storedSlice ring.pages cursor (ring.peekCopyLen cursor (target - dst.length)))
  else dst
termination_by target - dst.length
decreasing_by
  rw [List.length_append, storedSlice_length]
  omega

def peekSlice : List UInt8 :=
  ring.peekSliceLoop (min len ring.availableRead) ring.head []

def discardSlice : PipeRingBuffer × ℕ :=
  let dropLen := min len ring.availableRead
  let head := (ring.head + dropLen) % ring.capacity
  let moved : PipeRingBuffer :=
    { ring with
      head := head
      status :=
        if dropLen = 0 then ring.status
        else if head = ring.tail then .empty
        else .normal }
  if 0 < dropLen then (moved.reclaimConsumedPages, dropLen)
  else (moved, dropLen)

/-- Store `chunk` at the tail, which lies in one page, and account for it. -/
def storeAtTail (chunk : List UInt8) : Option PipeRingBuffer :=
  (writeStoredSlice ring.pages ring.capacity ring.tail chunk).map fun pages =>
    let tail := (ring.tail + chunk.length) % ring.capacity
    { ring with
      pages := pages
      tail := tail
      status := if tail = ring.head then .full else .normal }

def writeCopyLen (remaining : ℕ) : ℕ :=
  min (min ring.contiguousWriteLen (pageSize - ring.tail % pageSize)) remaining

def writeSliceLoop (src : List UInt8) (target : ℕ) (ring : PipeRingBuffer)
    (copied : ℕ) : Option (PipeRingBuffer × ℕ) :=
  if copied < target then
    if ring.writeCopyLen (target - copied) = 0 then some (ring, copied)
    else
      (ring.storeAtTail ((src.drop copied).take
        (ring.writeCopyLen (target - copied)))).bind fun ring' =>
          writeSliceLoop src target ring' (copied + ring.writeCopyLen (target - copied))
  else some (ring, copied)
termination_by target - copied
decreasing_by omega

def writeSlice (src : List UInt8) : Option (PipeRingBuffer × ℕ) :=
  if src.isEmpty then some (ring, 0)
  else writeSliceLoop src (min src.length ring.availableWrite) ring 0

/-- The new page table after `count` rounds of the copy loop of `resize`. -/
def resizePages (ring : PipeRingBuffer) (newCapacity : ℕ) : ℕ → Option PageTable
  | 0 => some []
  | idx + 1 =>
    (ring.resizePages newCapacity idx).bind fun pages =>
      writeStoredByteTo pages newCapacity idx
        (ring.readStoredByte ((ring.head + idx) % ring.capacity))

/-- Change the capacity.  A zero capacity divides by zero after the copy. -/
def resize (newCapacity : ℕ) : Option (PipeRingBuffer × SyscallResult) :=
  let dataLen := ring.availableRead
  if newCapacity < dataLen then some (ring, .error .ebusy)
  else if newCapacity = 0 then none
  else
    (ring.resizePages newCapacity dataLen).map fun pages =>
      ({ ring with
          pages := pages
          capacity := newCapacity
          head := 0
          tail := dataLen % newCapacity
          status :=
            if dataLen = 0 then .empty
            else if dataLen = newCapacity then .full
            else .normal },
        .ok 0)

/-- `set_pipe_capacity`, the only caller of `resize`. -/
def setPipeCapacity (capacity : ℕ) : Option (PipeRingBuffer × SyscallResult) :=
  if pipeSizeLimit < capacity then some (ring, .error .einval)
  else if pipeMaxSize < capacity then some (ring, .error .eperm)
  else ring.resize (max capacity pipeBuf)

def closeReadEnd : PipeRingBuffer :=
  reclaimConsumedPages
    { ring with
      readEndOpen := false
      head := ring.tail
      status := .empty }

def closeWriteEnd : PipeRingBuffer :=
  { ring with writeEndOpen := false }

end PipeRingBuffer

def transferPeek (input : PipeRingBuffer) (remaining : ℕ) : List UInt8 :=
  input.peekSlice (min remaining pageSize)

def transferLoop (target : ℕ) (input output : PipeRingBuffer) (total : ℕ) :
    Option (PipeRingBuffer × PipeRingBuffer × ℕ) :=
  if total < target then
    if (transferPeek input (target - total)).length = 0 then
      some (input, output, total)
    else
      (output.writeSlice (transferPeek input (target - total))).bind fun write =>
        if (input.discardSlice write.2).2 <
              (transferPeek input (target - total)).length ∨
            write.2 < (transferPeek input (target - total)).length then
          some ((input.discardSlice write.2).1, write.1, total + (input.discardSlice write.2).2)
        else
          transferLoop target (input.discardSlice write.2).1 write.1
            (total + (input.discardSlice write.2).2)
  else some (input, output, total)
termination_by target - total
decreasing_by omega

def transferLocked (input output : PipeRingBuffer) (len : ℕ) :
    Option (PipeRingBuffer × PipeRingBuffer × SyscallResult) :=
  if output.allReadEndsClosed then some (input, output, .error .epipe)
  else
    let target := min (min len input.availableRead) output.availableWrite
    (transferLoop target input output 0).map fun result =>
      (result.1, result.2.1, .ok result.2.2)

end Kairix.Pipe
