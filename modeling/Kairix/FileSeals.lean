import Kairix.MachineWord
import Kairix.LabelledRun
import Kairix.PagedBytes
import Kairix.SysError

/-!
# File seals

A file of `memfd_create` is an inode of tmpfs with seals.  Every system call checks some of
them before it changes the bytes or the size of the file.  `frames` tells for which pages a
frame can be had; a call which does not get one leaves what it has done so far.  Calls which
are refused before they reach the inode change nothing and are left out.
-/

namespace Kairix.FileSeals

open LabelledRun PagedBytes

/-- The bits `F_SEAL_SEAL`, `F_SEAL_SHRINK`, `F_SEAL_GROW` and `F_SEAL_WRITE`. -/
structure Seals where
  sealed : Bool
  shrink : Bool
  grow : Bool
  write : Bool
  deriving DecidableEq

/-- A private mapping, with the pages for which it has the frame of the page cache and those
for which it has a frame of its own. -/
structure PrivateMapping where
  writable : Bool
  cow : Bool
  cached : List ℕ
  owned : List ℕ

/-- `joined` tells whether `mprotect` joins the range to the mapping before it, and `shared`
whether a frame of its own is also in use elsewhere. -/
inductive PrivateCall where
  | protect (writable joined shared : Bool)
  | split (pages : ℕ → Bool)
  | fork
  | unmap
  | load (page : ℕ)

namespace PrivateMapping

variable (mapping : PrivateMapping)

/-- A mapping is created to be copied on write if it may be written. -/
def new (writable : Bool) : PrivateMapping := ⟨writable, writable, [], []⟩

/-- The frames of the page cache are entered with the right to write. -/
def leaks : Bool := mapping.writable && !mapping.cow

/-- `apply_mprotect_area_state`: the flag is set if a frame is in use elsewhere and kept
otherwise, except that a range which is joined has no flag of its own. -/
def protect (writable joined shared : Bool) : PrivateMapping :=
  { mapping with
    writable := writable
    cow := writable && (shared || !mapping.cached.isEmpty || mapping.cow && !joined) }

def restrict (pages : ℕ → Bool) : PrivateMapping :=
  { mapping with cached := mapping.cached.filter pages, owned := mapping.owned.filter pages }

/-- The page cache drops its pages from `first` on; the mapping keeps their frames. -/
def dropFrom (first : ℕ) : PrivateMapping :=
  { mapping with
    cached := mapping.cached.filter (· < first)
    owned := mapping.cached.filter (first ≤ ·) ++ mapping.owned }

def copy (page : ℕ) : PrivateMapping :=
  { mapping with cached := mapping.cached.filter (· ≠ page), owned := page :: mapping.owned }

def next : PrivateCall → List PrivateMapping
  | .protect writable joined shared => [mapping.protect writable joined shared]
  | .split pages => [mapping.restrict pages, mapping.restrict fun page => !pages page]
  | .fork => List.replicate 2 { mapping with cow := mapping.cow || mapping.writable }
  | .unmap => []
  | .load page =>
    if page ∈ mapping.cached ++ mapping.owned then [mapping]
    else [{ mapping with cached := page :: mapping.cached }]

end PrivateMapping

/-- `writers` counts the shared mappings which may be written. -/
structure Mappings where
  writers : ℕ
  privates : List PrivateMapping

/-- No mapping can change the bytes of the file. -/
def Mappings.Closed (mappings : Mappings) : Prop :=
  mappings.writers = 0 ∧ ∀ mapping ∈ mappings.privates, mapping.leaks = false

def Mappings.dropFrom (mappings : Mappings) (first : ℕ) : Mappings :=
  { mappings with privates := mappings.privates.map (·.dropFrom first) }

theorem Mappings.Closed.dropFrom {mappings : Mappings} (hclosed : mappings.Closed) (first : ℕ) :
    (mappings.dropFrom first).Closed :=
  ⟨hclosed.1, List.forall_mem_map.mpr hclosed.2⟩

instance (mappings : Mappings) : Decidable mappings.Closed := inferInstanceAs (Decidable (_ ∧ _))

/-- `bytes` is what the cached pages hold, and zero where there is no page; `flagged` is set
for an immutable or append-only inode. -/
structure Memfd where
  seals : Seals
  size : ℕ
  bytes : ℕ → UInt8
  flagged : Bool
  mappings : Mappings

namespace Memfd

/-- `sealing` is the flag `MFD_ALLOW_SEALING`. -/
def boot (sealing : Bool) : Memfd :=
  ⟨⟨!sealing, false, false, false⟩, 0, fun _ => 0, false, ⟨0, []⟩⟩

variable (file : Memfd) (frames : ℕ → Bool)

def setSeals (new : Seals) : SyscallResult × Memfd :=
  if file.seals.sealed = true then (.error .eperm, file)
  else
    (.ok 0, { file with seals :=
      ⟨file.seals.sealed || new.sealed, file.seals.shrink || new.shrink,
        file.seals.grow || new.grow, file.seals.write || new.write⟩ })

/-- How much of a range is reached before a page has no frame. -/
def reached (frames : ℕ → Bool) (offset count : ℕ) : ℕ :=
  total ((pieces pageSize offset [count]).takeWhile fun piece => frames (piece.position / pageSize))

def read (offset count : ℕ) : Except SysError (List UInt8) :=
  let readLen := min count (file.size - offset)
  if reached frames offset readLen < readLen then .error .enomem
  else .ok ((List.range readLen).map fun place => file.bytes (offset + place))

/-- `TempFile::write`; the size is extended when everything has been written. -/
def write (frames : ℕ → Bool) (offset : ℕ) (data : List UInt8) (file : Memfd) :
    SyscallResult × Memfd :=
  if file.flagged = true ∨ file.seals.write = true then (.error .eperm, file)
  else
    let done := reached frames offset data.length
    let bytes := overlay file.bytes offset done fun place => data.getD (place - offset) 0
    if done < data.length then (.error .enomem, { file with bytes := bytes })
    else (.ok data.length,
      { file with bytes := bytes, size := max file.size (offset + data.length) })

/-- `TempFile::truncate`; the page of the new end has to be resident when the file shrinks. -/
def truncate (frames : ℕ → Bool) (newSize : ℕ) (file : Memfd) : SyscallResult × Memfd :=
  if file.flagged = true then (.error .eperm, file)
  else if file.size ≤ newSize then (.ok 0, { file with size := newSize })
  else if newSize % pageSize ≠ 0 ∧ frames (newSize / pageSize) = false then
    (.error .enomem, file)
  else
    (.ok 0, { file with
      size := newSize
      bytes := fun place => if place < newSize then file.bytes place else 0
      mappings := file.mappings.dropFrom ((newSize + pageSize - 1) / pageSize) })

/-- `TempInode::truncate`, which `open` calls for `O_TRUNC`, looks at no flag. -/
def openTrunc : Memfd :=
  { file with size := 0, bytes := fun _ => 0, mappings := file.mappings.dropFrom 0 }

def andThen (outcome : SyscallResult × Memfd) (rest : Memfd → SyscallResult × Memfd) :
    SyscallResult × Memfd :=
  match outcome with
  | (.ok _, file) => rest file
  | (.error error, file) => (.error error, file)

def zeroPieces (frames : ℕ → Bool) : List Piece → Memfd → SyscallResult × Memfd
  | [], file => (.ok 0, file)
  | piece :: rest, file =>
    andThen (file.write frames piece.position (List.replicate piece.count 0))
      (zeroPieces frames rest)

def zeroFileRange (frames : ℕ → Bool) (offset len : ℕ) : Memfd → SyscallResult × Memfd :=
  zeroPieces frames (pieces pageSize offset [len])

/-- Every round copies at least one byte, so `len` rounds are enough. -/
def shiftFileRange (frames : ℕ → Bool) : ℕ → ℕ → ℕ → ℕ → Memfd → SyscallResult × Memfd
  | 0, _, _, _, file => (.ok 0, file)
  | rounds + 1, src, dst, len, file =>
    match file.read frames src (min len pageSize) with
    | .error error => (.error error, file)
    | .ok [] => (.ok 0, file)
    | .ok data =>
      andThen (file.write frames dst data)
        (shiftFileRange frames rounds (src + data.length) (dst + data.length) (len - data.length))

def shiftFileRangeReverse (frames : ℕ → Bool) : ℕ → ℕ → ℕ → ℕ → Memfd → SyscallResult × Memfd
  | 0, _, _, _, file => (.ok 0, file)
  | rounds + 1, src, dst, remaining, file =>
    let chunk := min remaining pageSize
    let left := remaining - chunk
    if remaining = 0 then (.ok 0, file)
    else
      match file.read frames (src + left) chunk with
      | .error error => (.error error, file)
      | .ok [] =>
        andThen (file.zeroFileRange frames (dst + left) chunk)
          (shiftFileRangeReverse frames rounds src dst left)
      | .ok data =>
        andThen (file.write frames (dst + left) data)
          (shiftFileRangeReverse frames rounds src dst left)

/-! ## System calls -/

def sysFtruncate (length : ℕ) : SyscallResult × Memfd :=
  if 2 ^ 63 ≤ length then (.error .einval, file)
  else if length < file.size ∧ file.seals.shrink = true then (.error .eperm, file)
  else if file.size < length ∧ file.seals.grow = true then (.error .eperm, file)
  else file.truncate frames length

def collapseRange (offset len : ℕ) : SyscallResult × Memfd :=
  let stop := offset + len
  if offset % pageSize ≠ 0 ∨ len % pageSize ≠ 0 ∨ file.size < stop then (.error .einval, file)
  else
    andThen (file.shiftFileRange frames (file.size - stop) stop offset (file.size - stop))
      (truncate frames (file.size - len))

/-- A failed insertion is cut off again. -/
def insertRange (offset len : ℕ) : SyscallResult × Memfd :=
  if offset % pageSize ≠ 0 ∨ len % pageSize ≠ 0 ∨ file.size < offset then (.error .einval, file)
  else
    let rest := file.size - offset
    match andThen (andThen (file.truncate frames (file.size + len))
        (shiftFileRangeReverse frames rest offset (offset + len) rest))
        (zeroFileRange frames offset len) with
    | (.ok value, after) => (.ok value, after)
    | (.error error, after) => (.error error, (after.truncate frames file.size).2)

def zeroRange (keepSize : Bool) (offset len : ℕ) : SyscallResult × Memfd :=
  andThen (file.zeroFileRange frames offset (min (file.size - offset) len)) fun zeroed =>
    if keepSize = false ∧ file.size < offset + len then zeroed.truncate frames (offset + len)
    else (.ok 0, zeroed)

def punchHole (offset len : ℕ) : SyscallResult × Memfd :=
  if file.seals.write = true then (.error .eperm, file)
  else
    let count := min (offset + len) file.size - offset
    let done := reached frames offset count
    (if done < count then .error .enomem else .ok 0,
      { file with bytes := overlay file.bytes offset done fun _ => 0 })

/-- The bits of `mode` are `KEEP_SIZE` 0, `PUNCH_HOLE` 1, `COLLAPSE_RANGE` 3, `ZERO_RANGE` 4
and `INSERT_RANGE` 5. -/
def sysFallocate (mode offset len : ℕ) : SyscallResult × Memfd :=
  if len = 0 then (.ok 0, file)
  else if 2 ^ 64 ≤ offset + len then (.error .efbig, file)
  else if mode &&& 0x3b ≠ mode then (.error .eopnotsupp, file)
  else if mode.testBit 3 = true then
    if mode ≠ 0x08 then (.error .einval, file) else file.collapseRange frames offset len
  else if mode.testBit 5 = true then
    if mode ≠ 0x20 then (.error .einval, file) else file.insertRange frames offset len
  else if mode.testBit 4 = true then
    if mode ≠ 0x10 ∧ mode ≠ 0x11 then (.error .einval, file)
    else file.zeroRange frames (mode.testBit 0) offset len
  else if mode.testBit 1 = true then
    if mode.testBit 0 = false then (.error .eopnotsupp, file)
    else file.punchHole frames offset len
  else if mode = 0 ∧ file.size < offset + len then file.truncate frames (offset + len)
  else (.ok 0, file)

end Memfd

/-- `write` stands for `write`, `pwrite` and every chunk of a `splice`, and `map` for `mmap` or
`mprotect` of a shared mapping with the right to write. -/
inductive Call where
  | addSeals (new : Seals)
  | write (frames : ℕ → Bool) (offset : ℕ) (data : List UInt8)
  | truncate (frames : ℕ → Bool) (length : ℕ)
  | ftruncate (frames : ℕ → Bool) (length : ℕ)
  | openTrunc
  | fallocate (frames : ℕ → Bool) (mode offset len : ℕ)
  | setFlags (flagged : Bool)
  | map
  | fork
  | unmap
  | store (place : ℕ) (value : UInt8)
  | mapPrivate (writable : Bool)
  | privately (index : ℕ) (call : PrivateCall)
  | storePrivate (index place : ℕ) (value : UInt8)

namespace Memfd

def setWriters (file : Memfd) (writers : ℕ) : Memfd :=
  { file with mappings := { file.mappings with writers := writers } }

def replacePrivate (file : Memfd) (index : ℕ) (new : List PrivateMapping) : Memfd :=
  { file with mappings := { file.mappings with
    privates := file.mappings.privates.eraseIdx index ++ new } }

/-- A store goes to the frame of the page cache if its entry may be written, and to a copy
otherwise. -/
def storePrivate (file : Memfd) (index place : ℕ) (value : UInt8) : Option Memfd :=
  file.mappings.privates[index]?.bind fun mapping =>
    if mapping.writable = false then none
    else if place / pageSize ∈ mapping.cached ∧ mapping.cow = false then
      some { file with bytes := Function.update file.bytes place value }
    else some (file.replacePrivate index [mapping.copy (place / pageSize)])

def next (file : Memfd) : Call → Option Memfd
  | .addSeals new => some (file.setSeals new).2
  | .write frames offset data => some (file.write frames offset data).2
  | .truncate frames length => some (file.truncate frames length).2
  | .ftruncate frames length => some (file.sysFtruncate frames length).2
  | .openTrunc => some file.openTrunc
  | .fallocate frames mode offset len => some (file.sysFallocate frames mode offset len).2
  | .setFlags flagged => some { file with flagged := flagged }
  | .map =>
    if file.seals.write = true then none else some (file.setWriters (file.mappings.writers + 1))
  | .fork =>
    if file.mappings.writers = 0 then none
    else some (file.setWriters (file.mappings.writers + 1))
  | .unmap =>
    if file.mappings.writers = 0 then none
    else some (file.setWriters (file.mappings.writers - 1))
  | .store place value =>
    if file.mappings.writers = 0 then none
    else some { file with bytes := Function.update file.bytes place value }
  | .mapPrivate writable => some { file with mappings := { file.mappings with
      privates := PrivateMapping.new writable :: file.mappings.privates } }
  | .privately index call => file.mappings.privates[index]?.map fun mapping =>
      file.replacePrivate index (mapping.next call)
  | .storePrivate index place value => file.storePrivate index place value

/-- What the seals of a file promise for every later state. -/
structure SealsHold (file later : Memfd) : Prop where
  write : file.seals.write = true →
    ∀ place < file.size, place < later.size ∧ later.bytes place = file.bytes place
  grow : file.seals.grow = true → later.size ≤ file.size
  shrink : file.seals.shrink = true → file.size ≤ later.size

/-- `F_SEAL_WRITE` is set when no mapping can change the bytes, a file sealed against growth
is not extended by `write`, `truncate` or `fallocate`, a file sealed against writes or
shrinking is not cut by `truncate`, `ftruncate`, `O_TRUNC` or `fallocate`, and `mprotect` does
not let a private mapping of a file sealed against writes be written without copies. -/
def Careful (file : Memfd) : Call → Prop
  | .addSeals new => new.write = true → file.mappings.Closed
  | .openTrunc => file.seals.shrink = true ∨ file.seals.write = true → file.size = 0
  | .privately index (.protect writable joined shared) => file.seals.write = true →
      ∀ mapping ∈ file.mappings.privates[index]?,
        (mapping.protect writable joined shared).leaks = false
  | .write _ offset data => file.seals.grow = true → offset + data.length ≤ file.size
  | .truncate _ length => (file.seals.grow = true → length ≤ file.size) ∧
      (file.seals.shrink = true ∨ file.seals.write = true → file.size ≤ length)
  | .ftruncate _ length => file.seals.write = true → file.size ≤ length
  | .fallocate _ mode offset len =>
    (file.seals.grow = true → mode.testBit 5 = false ∧
      (mode.testBit 0 = false → offset + len ≤ file.size)) ∧
      (file.seals.shrink = true ∨ file.seals.write = true → mode.testBit 3 = false)
  | _ => True

/-! ## Writing -/

/-- Bytes which are sealed stay, and the size goes up to the limit at most. -/
structure Wrote (limit : ℕ) (file after : Memfd) : Prop where
  seals : after.seals = file.seals
  mappings : file.mappings.Closed → after.mappings.Closed
  lower : file.size ≤ after.size
  upper : after.size ≤ max file.size limit
  bytes : file.seals.write = true → ∀ place < file.size, after.bytes place = file.bytes place

variable {file middle s' : Memfd} {frames : ℕ → Bool} {limit : ℕ}

theorem Wrote.refl (limit : ℕ) (file : Memfd) : Wrote limit file file :=
  ⟨rfl, id, le_rfl, le_max_left _ _, fun _ _ _ => rfl⟩

theorem Wrote.trans (hfirst : Wrote limit file middle) (hsecond : Wrote limit middle s') :
    Wrote limit file s' where
  seals := hsecond.seals.trans hfirst.seals
  mappings hclosed := hsecond.mappings (hfirst.mappings hclosed)
  lower := hfirst.lower.trans hsecond.lower
  upper := hsecond.upper.trans (max_le hfirst.upper (le_max_right _ _))
  bytes hsealed place hplace := by
    rw [hsecond.bytes (by rwa [hfirst.seals]) place (hplace.trans_le hfirst.lower)]
    exact hfirst.bytes hsealed place hplace

theorem andThen_snd (outcome : SyscallResult × Memfd) (rest : Memfd → SyscallResult × Memfd) :
    (andThen outcome rest).2 = outcome.2 ∨ (andThen outcome rest).2 = (rest outcome.2).2 := by
  obtain ⟨result, file⟩ := outcome
  cases result with
  | error error => exact .inl rfl
  | ok value => exact .inr rfl

theorem Wrote.andThen {outcome : SyscallResult × Memfd} {rest : Memfd → SyscallResult × Memfd}
    (hfirst : Wrote limit file outcome.2)
    (hrest : ∀ middle, Wrote limit file middle → Wrote limit file (rest middle).2) :
    Wrote limit file (andThen outcome rest).2 := by
  rcases andThen_snd outcome rest with h | h
  · rw [h]
    exact hfirst
  · rw [h]
    exact hrest _ hfirst

section

variable (hwrote : Wrote limit file middle)
include hwrote

theorem Wrote.write {offset : ℕ} {data : List UInt8} (hlimit : offset + data.length ≤ limit) :
    Wrote limit file (middle.write frames offset data).2 := by
  refine hwrote.trans ?_
  simp only [Memfd.write]
  split_ifs with hrefused hshort
  · exact Wrote.refl limit middle
  · exact ⟨rfl, id, le_rfl, le_max_left _ _, fun hsealed => absurd (.inr hsealed) hrefused⟩
  · exact ⟨rfl, id, le_max_left _ _, max_le_max_left _ hlimit,
      fun hsealed => absurd (.inr hsealed) hrefused⟩

theorem Wrote.zeroPieces {list : List Piece} {position : ℕ}
    (hlist : Consecutive pageSize position list) (hlimit : position + total list ≤ limit) :
    Wrote limit file (zeroPieces frames list middle).2 := by
  induction list generalizing position middle with
  | nil => exact hwrote
  | cons piece rest ih =>
    obtain ⟨rfl, -, hrest⟩ := hlist
    have htotal : total (piece :: rest) = piece.count + total rest := by simp [total]
    rw [htotal] at hlimit
    refine (hwrote.write ?_).andThen fun _ hnext => ih hnext hrest (by omega)
    rw [List.length_replicate]
    omega

theorem Wrote.zeroFileRange {offset len : ℕ} (hlimit : 0 < len → offset + len ≤ limit) :
    Wrote limit file (middle.zeroFileRange frames offset len).2 := by
  rcases Nat.eq_zero_or_pos len with rfl | hpos
  · exact hwrote
  · obtain ⟨hconsecutive, htotal⟩ := pieces_spec (by decide : 0 < pageSize) offset [len]
    rw [List.sum_singleton] at htotal
    refine hwrote.zeroPieces hconsecutive ?_
    rw [htotal]
    exact hlimit hpos

omit hwrote in
theorem length_of_read {offset count : ℕ} {data : List UInt8}
    (hread : file.read frames offset count = .ok data) : data.length ≤ count := by
  simp only [read] at hread
  split_ifs at hread
  obtain rfl := Except.ok.inj hread
  simp

theorem Wrote.shiftFileRange (rounds : ℕ) {src dst len : ℕ} (hlimit : dst + len ≤ limit) :
    Wrote limit file (middle.shiftFileRange frames rounds src dst len).2 := by
  induction rounds generalizing src dst len middle with
  | zero => exact hwrote
  | succ rounds ih =>
    rw [Memfd.shiftFileRange]
    split
    · exact hwrote
    · exact hwrote
    · next data _ hread =>
      have hlength := length_of_read hread
      exact (hwrote.write (by omega)).andThen fun _ hnext => ih hnext (by omega)

theorem Wrote.shiftFileRangeReverse (rounds : ℕ) {src dst remaining : ℕ}
    (hlimit : dst + remaining ≤ limit) :
    Wrote limit file (middle.shiftFileRangeReverse frames rounds src dst remaining).2 := by
  induction rounds generalizing remaining middle with
  | zero => exact hwrote
  | succ rounds ih =>
    rw [Memfd.shiftFileRangeReverse]
    split_ifs with hdone
    · exact hwrote
    · split
      · exact hwrote
      · exact (hwrote.zeroFileRange fun _ => by omega).andThen fun _ hnext => ih hnext (by omega)
      · next data _ hread =>
        have hlength := length_of_read hread
        exact (hwrote.write (by omega)).andThen fun _ hnext => ih hnext (by omega)

omit hwrote in
theorem truncate_spec (file : Memfd) (frames : ℕ → Bool) (newSize : ℕ) :
    (file.truncate frames newSize).2.seals = file.seals ∧
      (file.mappings.Closed → (file.truncate frames newSize).2.mappings.Closed) ∧
      min file.size newSize ≤ (file.truncate frames newSize).2.size ∧
      (file.truncate frames newSize).2.size ≤ max file.size newSize ∧
      ∀ place < newSize, (file.truncate frames newSize).2.bytes place = file.bytes place := by
  rw [truncate]
  split_ifs with hflagged hgrows hframe
  · exact ⟨rfl, id, min_le_left _ _, le_max_left _ _, fun _ _ => rfl⟩
  · exact ⟨rfl, id, min_le_right _ _, le_max_right _ _, fun _ _ => rfl⟩
  · exact ⟨rfl, id, min_le_left _ _, le_max_left _ _, fun _ _ => rfl⟩
  · exact ⟨rfl, (·.dropFrom _), min_le_right _ _, le_max_right _ _,
      fun _ hplace => if_pos hplace⟩

theorem Wrote.truncate {newSize : ℕ} (hsize : file.size ≤ newSize) (hlimit : newSize ≤ limit) :
    Wrote limit file (middle.truncate frames newSize).2 := by
  obtain ⟨hseals, hmappings, hlower, hupper, hbytes⟩ := middle.truncate_spec frames newSize
  refine ⟨hseals.trans hwrote.seals, hmappings ∘ hwrote.mappings,
    (le_min hwrote.lower hsize).trans hlower,
    hupper.trans (max_le hwrote.upper (hlimit.trans (le_max_right _ _))),
    fun hsealed place hplace => ?_⟩
  rw [hbytes place (hplace.trans_le hsize)]
  exact hwrote.bytes hsealed place hplace

end

/-- A step of a run keeps what the seals promise, the seals, and mappings out of a file which
is sealed against writes. -/
structure Kept (file after : Memfd) : Prop extends SealsHold file after where
  writeKept : file.seals.write = true → after.seals.write = true
  growKept : file.seals.grow = true → after.seals.grow = true
  shrinkKept : file.seals.shrink = true → after.seals.shrink = true
  closed : after.seals.write = true → after.mappings.Closed

theorem Kept.trans (hfirst : Kept file middle) (hsecond : Kept middle s') : Kept file s' where
  write hsealed place hplace := by
    obtain ⟨hmiddle, hsame⟩ := hfirst.write hsealed place hplace
    obtain ⟨hafter, hbytes⟩ := hsecond.write (hfirst.writeKept hsealed) place hmiddle
    exact ⟨hafter, hbytes.trans hsame⟩
  grow hsealed := (hsecond.grow (hfirst.growKept hsealed)).trans (hfirst.grow hsealed)
  shrink hsealed := (hfirst.shrink hsealed).trans (hsecond.shrink (hfirst.shrinkKept hsealed))
  writeKept hsealed := hsecond.writeKept (hfirst.writeKept hsealed)
  growKept hsealed := hsecond.growKept (hfirst.growKept hsealed)
  shrinkKept hsealed := hsecond.shrinkKept (hfirst.shrinkKept hsealed)
  closed := hsecond.closed

section

variable (hclosed : file.seals.write = true → file.mappings.Closed)
include hclosed

end

instance (file : Memfd) (call : Call) : Decidable (file.Careful call) := by
  unfold Careful
  cases call with
  | privately index call => cases call <;> infer_instance
  | _ => infer_instance

/-- A shared mapping from before still stores, a private mapping which `mprotect` lets be
written before its first load stores to the file, and `truncate` cuts it. -/
def unchecked : List (List Call) :=
  [[.store 0 6], [.mapPrivate false, .privately 0 (.protect true false false),
    .privately 0 (.load 0), .storePrivate 0 0 6], [.truncate (fun _ => true) 0]]

end Memfd

end Kairix.FileSeals
