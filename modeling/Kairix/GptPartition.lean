import Kairix.MachineWord

/-!
# GPT partitions

`gpt_partition` takes every number from the header and the entry table of the disk, and
compares nothing with the size of the disk.
-/

namespace Kairix.GptPartition

def blockSize : ℕ := 512
def gptHeaderLba : ℕ := 1
def gptSignature : List UInt8 := [0x45, 0x46, 0x49, 0x20, 0x50, 0x41, 0x52, 0x54]
def gptHeaderEntriesLba : ℕ := 72
def gptHeaderEntryCount : ℕ := 80
def gptHeaderEntrySize : ℕ := 84
def gptEntryFirstLba : ℕ := 32
def gptEntryLastLba : ℕ := 40

inductive Fault where
  | overflow
  | misaligned
  | outOfRange

def checked (value : ℕ) : Option ℕ := if value < usizeLimit then some value else none

def unchecked (value : ℕ) : Except Fault ℕ :=
  if value < usizeLimit then .ok value else .error .overflow

/-- `read_le_u32` and `read_le_u64`. -/
def readLe (width : ℕ) (buf : List UInt8) (offset : ℕ) : Option ℕ :=
  if offset + width ≤ buf.length then
    some (((buf.drop offset).take width).foldr (fun byte rest => byte.toNat + 256 * rest) 0)
  else none

structure Disk where
  blocks : ℕ
  bytes : ℕ → UInt8
  blocks_lt : blocks < usizeLimit

namespace Disk

def data (disk : Disk) (blockId count : ℕ) : List UInt8 :=
  (List.range (count * blockSize)).map fun index => disk.bytes (blockId * blockSize + index)

def readBlock (disk : Disk) (blockId count : ℕ) : Except Fault (List UInt8) :=
  if blockId + count ≤ disk.blocks then .ok (disk.data blockId count) else .error .outOfRange

end Disk

structure EntryPlace where
  entriesLba : ℕ
  entryOffset : ℕ
  entrySize : ℕ

namespace EntryPlace

def ofHeader (header : List UInt8) (partitionNumber : ℕ) : Option EntryPlace := do
  if header.take gptSignature.length ≠ gptSignature then none
  let entriesLba ← readLe 8 header gptHeaderEntriesLba
  let entryCount ← readLe 4 header gptHeaderEntryCount
  let entrySize ← readLe 4 header gptHeaderEntrySize
  if entrySize < gptEntryLastLba + 8 then none
  let entryIndex := partitionNumber - 1
  if entryCount ≤ entryIndex then none
  let entryOffset ← checked (entryIndex * entrySize)
  return ⟨entriesLba, entryOffset, entrySize⟩

def blockId (place : EntryPlace) : ℕ := place.entriesLba + place.entryOffset / blockSize

def offsetInBlock (place : EntryPlace) : ℕ := place.entryOffset % blockSize

def supported (place : EntryPlace) : Bool :=
  (checked (place.offsetInBlock + place.entrySize)).any (· ≤ blockSize * 2)

/-- The first and the last block which the entry in the two blocks read for it names. -/
def range (place : EntryPlace) (block : List UInt8) : Option (ℕ × ℕ) :=
  let entry := (block.drop place.offsetInBlock).take place.entrySize
  if (entry.take 16).all (· == 0) then none
  else match readLe 8 entry gptEntryFirstLba, readLe 8 entry gptEntryLastLba with
    | some firstLba, some lastLba =>
      if lastLba < firstLba then none else some (firstLba, lastLba)
    | _, _ => none

end EntryPlace

structure PartitionBlock where
  startLba : ℕ
  blockCount : ℕ
  deriving DecidableEq

/-- The call of the parent, as its first block and the number of blocks, which `read_block`
and `write_block` make for a buffer of the given length. -/
def PartitionBlock.inner (device : PartitionBlock) (blockId length : ℕ) :
    Except Fault (ℕ × ℕ) :=
  if length % blockSize ≠ 0 then .error .misaligned
  else if usizeLimit ≤ blockId + length / blockSize then .error .overflow
  else if device.blockCount < blockId + length / blockSize then .error .outOfRange
  else if usizeLimit ≤ device.startLba + blockId then .error .overflow
  else .ok (device.startLba + blockId, length / blockSize)

def gptPartition (parent : Disk) (partitionNumber : ℕ) :
    Except Fault (Option PartitionBlock) := do
  if partitionNumber = 0 then return none
  let header ← parent.readBlock gptHeaderLba 1
  let some place := EntryPlace.ofHeader header partitionNumber | return none
  let blockId ← unchecked place.blockId
  if place.supported = false then return none
  let block ← parent.readBlock blockId 2
  let some (firstLba, lastLba) := place.range block | return none
  let blockCount ← unchecked (lastLba - firstLba + 1)
  return some ⟨firstLba, blockCount⟩

/-! ## Partitions inside the disk -/

namespace Disk

def place (parent : Disk) (number : ℕ) : Option EntryPlace :=
  EntryPlace.ofHeader (parent.data gptHeaderLba 1) number

def range (parent : Disk) (number : ℕ) : Option (ℕ × ℕ) :=
  (parent.place number).bind fun place => place.range (parent.data place.blockId 2)

/-- The blocks which opening the partition reads, and the blocks of the entry found there,
are on the disk. -/
def Fits (parent : Disk) (number : ℕ) : Prop :=
  number = 0 ∨ (gptHeaderLba + 1 ≤ parent.blocks ∧ ∀ place ∈ parent.place number,
    place.blockId < usizeLimit ∧ (place.supported = false ∨
      (place.blockId + 2 ≤ parent.blocks ∧
        ∀ range ∈ place.range (parent.data place.blockId 2), range.2 < parent.blocks)))

/-- The device is on the disk, and every call which it accepts stays in the blocks of its
entry. -/
def Inside (parent : Disk) (number : ℕ) (device : PartitionBlock) : Prop :=
  device.startLba + device.blockCount ≤ parent.blocks ∧
    ∃ range ∈ parent.range number, ∀ blockId length start count,
      device.inner blockId length = .ok (start, count) →
        range.1 ≤ start ∧ start + count ≤ range.2 + 1

def OpensInside (parent : Disk) (number : ℕ) : Prop :=
  ∃ opened, gptPartition parent number = .ok opened ∧ ∀ device ∈ opened, parent.Inside number device

variable {parent : Disk} {number : ℕ}

theorem inner_inside {device : PartitionBlock} {blockId length start count : ℕ}
    (hinner : device.inner blockId length = .ok (start, count)) :
    device.startLba ≤ start ∧ start + count ≤ device.startLba + device.blockCount := by
  rw [PartitionBlock.inner] at hinner
  split_ifs at hinner
  cases hinner
  omega

theorem le_of_range {place : EntryPlace} {block : List UInt8} {range : ℕ × ℕ}
    (hrange : place.range block = some range) : range.1 ≤ range.2 := by
  simp only [EntryPlace.range] at hrange
  split_ifs at hrange
  split at hrange
  · split_ifs at hrange with hlt
    cases hrange
    exact Nat.le_of_not_lt hlt
  · cases hrange

theorem inside_iff {firstLba lastLba : ℕ} (hle : firstLba ≤ lastLba)
    (hfound : parent.range number = some (firstLba, lastLba)) :
    parent.Inside number ⟨firstLba, lastLba - firstLba + 1⟩ ↔ lastLba < parent.blocks := by
  constructor
  · rintro ⟨hend, -⟩
    simp only at hend
    omega
  · intro hlast
    refine ⟨by simp only; omega, _, hfound, ?_⟩
    intro blockId length start count hinner
    have hinside := inner_inside hinner
    simp only at hinside ⊢
    omega

theorem opensInside_iff_fits : parent.OpensInside number ↔ parent.Fits number := by
  rw [OpensInside, Fits, gptPartition]
  by_cases hnumber : number = 0
  · simp [hnumber, pure, Except.pure]
  by_cases hheader : gptHeaderLba + 1 ≤ parent.blocks
  swap
  · simp [hnumber, hheader, readBlock, bind, Except.bind]
  simp only [hnumber, if_false, readBlock, hheader, if_true, bind, Except.bind, false_or,
    true_and]
  rw [← place]
  cases hplace : parent.place number with
  | none => simp [pure, Except.pure]
  | some place =>
    by_cases hblock : place.blockId < usizeLimit
    swap
    · simp [unchecked, hblock]
    cases hsupported : place.supported with
    | false => simp [unchecked, hblock, hsupported, pure, Except.pure]
    | true =>
      by_cases hentry : place.blockId + 2 ≤ parent.blocks
      swap
      · simp [unchecked, hblock, hsupported, hentry]
      cases hrange : place.range (parent.data place.blockId 2) with
      | none => simp [unchecked, hblock, hsupported, hentry, hrange, pure, Except.pure]
      | some range =>
        obtain ⟨firstLba, lastLba⟩ := range
        have hle := le_of_range hrange
        have hfound : parent.range number = some (firstLba, lastLba) := by
          rw [Disk.range, hplace, ← hrange]
          rfl
        have hblocks := parent.blocks_lt
        by_cases hcount : lastLba - firstLba + 1 < usizeLimit
        · simp [unchecked, hblock, hsupported, hentry, hrange, hcount, pure, Except.pure,
            inside_iff hle hfound]
        · have hlast : ¬lastLba < parent.blocks := by omega
          simp [unchecked, hblock, hsupported, hentry, hrange, hcount, hlast]

/-- A disk of eight blocks whose only entry starts at block four. -/
def sample (lastLba : UInt8) : Disk where
  blocks := 8
  bytes := fun index => (((gptSignature.zipIdx 512).map Prod.swap ++ [(584, 2), (592, 1),
    (596, 128), (1024, 1), (1056, 4), (1064, lastLba)]).lookup index).getD 0
  blocks_lt := by decide

/-- The entry ends two blocks behind the disk. -/
theorem not_opensInside_sample : ¬∀ parent number, OpensInside parent number := by
  intro hinside
  obtain ⟨opened, hopened, hdevice⟩ := hinside (sample 9) 1
  have hvalue : (gptPartition (sample 9) 1).toOption = some (some ⟨4, 6⟩) := by decide +kernel
  rw [hopened] at hvalue
  cases hvalue
  exact absurd (hdevice _ rfl).1 (by decide)

end Disk

end Kairix.GptPartition
