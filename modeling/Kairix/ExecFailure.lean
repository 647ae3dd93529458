import Kairix.MachineWord
import Kairix.DescriptorTables

/-!
# The `execve` call

A call reads its strings, finds the file to run, loads its image, and replaces the
address space of the process; only then are the strings copied to the new stack.  What
the file system answers is given by an `ExecHost`; the image of a file is the result of
loading it, if that succeeds.  A call which ends in the exit of its thread has no
result.
-/

namespace Kairix.Exec

open Descriptors List Option

abbrev Text := List UInt8

def userMemoryEnd : ℕ := 0x3fffffffff
def trapContext : ℕ := userMemoryEnd + 1 - pageSize
def maxThreadNum : ℕ := 3000
def userStackBase : ℕ := trapContext - maxThreadNum * pageSize
def userStackSize : ℕ := pageSize * 64
def maxStackSize : ℕ := 8 * 1024 * 1024

def ustackBottom : ℕ := userStackBase - (pageSize + userStackSize)
def ustackTop : ℕ := ustackBottom + userStackSize

/-! ## Address spaces -/

structure PagePerm where
  read : Bool
  write : Bool
  deriving DecidableEq, Repr

/-- An address space by pages.  `supply` says for which pages a frame will be found, and
`stackStart` is the first page of the stack area. -/
structure UserSpace where
  bytes : ℕ → UInt8
  areas : ℕ → Option PagePerm
  supply : ℕ → Bool
  stackStart : ℕ

namespace UserSpace

variable (space : UserSpace) (address : ℕ)

/-- `try_expand_stack`: during `execve` the stack pointer of the frame is zero, so every
page below the stack counts as near it. -/
def expandStack (page : ℕ) : Option UserSpace :=
  if page < space.stackStart ∧ (space.stackStart - page) * pageSize ≤ maxStackSize ∧
      (∀ other ∈ range' page (space.stackStart - page), space.areas other = none) ∧
        space.supply page = true then
    some { space with
      areas := fun other => if page ≤ other ∧ other < space.stackStart then some ⟨true, true⟩
        else space.areas other
      stackStart := page }
  else none

def resolveWrite (page : ℕ) : Option UserSpace :=
  match space.areas page with
  | some perm => if perm.write && space.supply page then some space else none
  | none => space.expandStack page

def store (data : Text) : UserSpace :=
  { space with bytes := fun other =>
    if address ≤ other then data.getD (other - address) (space.bytes other)
    else space.bytes other }

def writePages (space : UserSpace) : ℕ → ℕ → Text → Option UserSpace
  | 0, _, _ => some space
  | fuel + 1, address, data =>
    if data = [] then some space
    else
      let len := min (pageSize - address % pageSize) data.length
      if userMemoryEnd < address + len - 1 then none
      else (space.resolveWrite (address / pageSize)).bind fun resolved =>
        (resolved.store address (data.take len)).writePages fuel (address + len) (data.drop len)

/-- `write_to_user`: one page after the other; every failure is `EFAULT`. -/
def writeToUser (data : Text) : Option UserSpace :=
  space.writePages data.length address data

end UserSpace

def subWord (word amount : ℕ) : ℕ := (word + 2 ^ 64 - amount % 2 ^ 64) % 2 ^ 64

def alignWord (word : ℕ) : ℕ := word - word % 16

structure Stack where
  space : UserSpace
  sp : ℕ

def Stack.push (stack : Stack) (data : Text) : Option Stack :=
  let sp := subWord stack.sp (data.length + 1)
  (stack.space.writeToUser sp data).bind fun space =>
    (space.writeToUser (sp + data.length) [0]).map (⟨·, sp⟩)

def Stack.pushAll (stack : Stack) : List Text → Option (Stack × List ℕ)
  | [] => some (stack, [])
  | data :: rest =>
    (stack.push data).bind fun pushed =>
      (pushed.pushAll rest).map fun result => (result.1, pushed.sp :: result.2)

inductive SigHandler where
  | default
  | ignore
  | custom (address : ℕ)
  deriving DecidableEq, Repr

structure Thread where
  tid : ℕ
  pendingSignals : List ℕ
  deriving DecidableEq, Repr

structure Frame where
  sepc : ℕ
  sp : ℕ
  registers : ℕ → ℕ

def Frame.new : Frame := ⟨0, 0, fun _ => 0⟩

structure Process where
  pid : ℕ
  space : UserSpace
  caller : Thread
  siblings : List Thread
  execOwnerTid : Option ℕ
  isZombie : Bool
  handlers : List SigHandler
  pendingSignals : List ℕ
  files : FilesContext
  frame : Frame

structure Image where
  space : UserSpace
  entryPoint : ℕ
  auxv : List (ℕ × ℕ)

namespace Process

end Process

/-! ## Finding the file -/

namespace ExecFile

end ExecFile

namespace ExecHost

end ExecHost

/-! ## Room on the new stack

After the image is replaced only the writes to the new stack can fail.  The pages below the
stack area are free down to the floor; a write below the floor goes to an area of the image. -/

theorem ustackBottom_page_lt : ustackBottom / pageSize < ustackTop / pageSize := by decide

theorem ustackTop_page : ustackTop / pageSize * pageSize = ustackTop := by decide

theorem ustackTop_le : ustackTop ≤ userMemoryEnd := by decide

namespace UserSpace

section Room

variable (image : UserSpace)

/-- The first page of the free pages which end at the given one. -/
def freeFrom (space : UserSpace) : ℕ → ℕ
  | 0 => 0
  | page + 1 => if space.areas page = none then space.freeFrom page else page + 1

def stackFloor : ℕ := image.freeFrom (ustackBottom / pageSize)

/-- A frame is found for the page, which can be stack or can be written already. -/
def Takes (page : ℕ) : Prop :=
  image.supply page = true ∧
    (page < image.stackFloor → (image.areas page).any (·.write) = true)

/-- The first page of the stack area when everything down to an address has been written. -/
def startAt (address : ℕ) : ℕ :=
  min (ustackBottom / pageSize) (max image.stackFloor (address / pageSize))

/-- Everything from `above` down to `low` can be written in one piece. -/
def Room (above low : ℕ) : Prop :=
  (∀ page, low / pageSize ≤ page → page < above / pageSize → image.Takes page) ∧
    (image.startAt above - image.startAt low) * pageSize ≤ maxStackSize

/-- The first page of the stack area, which began at `start`, when pages have been written. -/
def lowered (start first last : ℕ) : ℕ :=
  if image.stackFloor ≤ last then min start (max image.stackFloor first) else start

/-- The pages from `first` to `last` can be written when the stack area begins at `start`. -/
def Writable (start first last : ℕ) : Prop :=
  (∀ page, first ≤ page → page ≤ last → image.Takes page) ∧
    (start - image.lowered start first last) * pageSize ≤ maxStackSize

theorem lowered_lowered {start page last : ℕ} (hlast : page < last) :
    image.lowered (image.lowered start page page) (page + 1) last =
      image.lowered start page last := by
  simp only [lowered]
  split_ifs <;> omega

theorem writable_iff {start page last : ℕ} (hlast : page < last) :
    image.Writable start page last ↔ image.Writable start page page ∧
      image.Writable (image.lowered start page page) (page + 1) last := by
  have hstep : start - image.lowered start page last = start - image.lowered start page page +
      (image.lowered start page page - image.lowered start page last) ∧
      (image.lowered start page page = start ∨
        image.lowered start page page = image.lowered start page last) := by
    simp only [lowered]
    split_ifs <;> omega
  have hroom : (start - image.lowered start page last) * pageSize ≤ maxStackSize ↔
      (start - image.lowered start page page) * pageSize ≤ maxStackSize ∧
        (image.lowered start page page - image.lowered start page last) * pageSize ≤
          maxStackSize := by
    rcases hstep.2 with h | h <;> simp [h]
  simp only [Writable, image.lowered_lowered hlast, hroom]
  constructor
  · rintro ⟨htakes, hfirst, hrest⟩
    exact ⟨⟨fun other hlow hhigh => htakes other hlow (by omega), hfirst⟩,
      fun other hlow hhigh => htakes other (by omega) hhigh, hrest⟩
  · rintro ⟨⟨hpage, hfirst⟩, htakes, hrest⟩
    refine ⟨fun other hlow hhigh => ?_, hfirst, hrest⟩
    rcases Nat.eq_or_lt_of_le hlow with rfl | hlt
    · exact hpage page le_rfl le_rfl
    · exact htakes other hlt hhigh

theorem freeFrom_le (page : ℕ) : image.freeFrom page ≤ page := by
  induction page with
  | zero => exact le_rfl
  | succ page ih =>
    rw [freeFrom]
    split_ifs <;> omega

theorem areas_eq_none {page last : ℕ} (hfirst : image.freeFrom last ≤ page) (hlast : page < last) :
    image.areas page = none := by
  induction last with
  | zero => omega
  | succ last ih =>
    rw [freeFrom] at hfirst
    split_ifs at hfirst with hfree
    · rcases eq_or_lt_of_le (Nat.le_of_lt_succ hlast) with rfl | hlt
      · exact hfree
      · exact ih hfirst hlt
    · omega

theorem areas_below_freeFrom {page last : ℕ} (hpage : page + 1 = image.freeFrom last) :
    image.areas page ≠ none := by
  induction last with
  | zero => simp [freeFrom] at hpage
  | succ last ih =>
    rw [freeFrom] at hpage
    split_ifs at hpage with hfree
    · exact ih hpage
    · rwa [Nat.succ_injective hpage]

theorem stackFloor_le : image.stackFloor ≤ ustackBottom / pageSize := image.freeFrom_le _

end Room

/-- The stack area of the image has grown to begin at `start`. -/
structure Grown (image space : UserSpace) (start : ℕ) : Prop where
  floor : image.stackFloor ≤ start
  bottom : start ≤ ustackBottom / pageSize
  stackStart : space.stackStart = start
  supply : space.supply = image.supply
  areas : ∀ page < ustackTop / pageSize,
    space.areas page = if start ≤ page then some ⟨true, true⟩ else image.areas page

end UserSpace

/-- An operation succeeds under exactly the given condition. -/
def SucceedsIff {α : Type} (outcome : Option α) (condition : Prop) (result : α → Prop) : Prop :=
  condition ∧ (∃ value, outcome = some value ∧ result value) ∨ ¬ condition ∧ outcome = none

namespace SucceedsIff

variable {α β : Type} {outcome : Option α} {condition rest : Prop} {result : α → Prop}
  {last : β → Prop}

theorem bind {next : α → Option β} (hfirst : SucceedsIff outcome condition result)
    (hnext : ∀ value, result value → SucceedsIff (next value) rest last) :
    SucceedsIff (outcome.bind next) (condition ∧ rest) last := by
  rcases hfirst with ⟨hcondition, value, rfl, hresult⟩ | ⟨hcondition, rfl⟩
  · rcases hnext value hresult with ⟨hrest, hlast⟩ | ⟨hrest, hnone⟩
    · exact .inl ⟨⟨hcondition, hrest⟩, hlast⟩
    · exact .inr ⟨fun hboth => hrest hboth.2, hnone⟩
  · exact .inr ⟨fun hboth => hcondition hboth.1, rfl⟩

theorem map {next : α → β} (hfirst : SucceedsIff outcome condition result)
    (hnext : ∀ value, result value → last (next value)) :
    SucceedsIff (outcome.map next) condition last := by
  rcases hfirst with ⟨hcondition, value, rfl, hresult⟩ | ⟨hcondition, rfl⟩
  · exact .inl ⟨hcondition, next value, rfl, hnext value hresult⟩
  · exact .inr ⟨hcondition, rfl⟩

theorem congr {weaker : α → Prop} (h : SucceedsIff outcome condition result)
    (hiff : condition ↔ rest) (hresult : rest → ∀ value, result value → weaker value) :
    SucceedsIff outcome rest weaker := by
  rcases h with ⟨hcondition, value, hvalue, h⟩ | ⟨hcondition, hnone⟩
  · exact .inl ⟨hiff.mp hcondition, value, hvalue, hresult (hiff.mp hcondition) value h⟩
  · exact .inr ⟨fun hrest => hcondition (hiff.mpr hrest), hnone⟩

end SucceedsIff

namespace UserSpace

variable {image space : UserSpace} {start : ℕ}

section ResolveWrite

variable {page : ℕ} (hgrown : Grown image space start) (hpage : page < ustackTop / pageSize)

include hgrown hpage

theorem Grown.resolveWrite_stack (hstack : start ≤ page) :
    SucceedsIff (space.resolveWrite page) (image.Takes page) (Grown image · start) := by
  have hfloor := hgrown.floor
  rw [UserSpace.resolveWrite, hgrown.areas page hpage, if_pos hstack]
  by_cases hsupply : image.supply page = true
  · exact .inl ⟨⟨hsupply, fun h => by omega⟩, space, by simp [hgrown.supply, hsupply], hgrown⟩
  · exact .inr ⟨fun htakes => hsupply htakes.1, by simp [hgrown.supply, hsupply]⟩

/-- For a free page below it, the stack area has to grow. -/
theorem Grown.resolveWrite_free (hfree : image.stackFloor ≤ page) (hbelow : page < start) :
    SucceedsIff (space.resolveWrite page)
      (image.Takes page ∧ (start - page) * pageSize ≤ maxStackSize) (Grown image · page) := by
  have hbottom := hgrown.bottom
  have htop := ustackBottom_page_lt
  have hclear : ∀ other ∈ range' page (start - page), space.areas other = none := by
    intro other hother
    rw [mem_range'_1] at hother
    rw [hgrown.areas other (by omega), if_neg (by omega)]
    exact image.areas_eq_none (hfree.trans hother.1) (by omega)
  rw [UserSpace.resolveWrite, hgrown.areas page hpage, if_neg hbelow.not_ge,
    image.areas_eq_none hfree (by omega)]
  simp only [expandStack, hgrown.stackStart, hgrown.supply]
  split_ifs with hgrows
  · refine .inl ⟨⟨⟨hgrows.2.2.2, fun h => by omega⟩, hgrows.2.1⟩, _, rfl,
      hfree, by omega, rfl, rfl, fun other hother => ?_⟩
    simp only
    rw [hgrown.areas other hother]
    split_ifs <;> first | rfl | omega
  · exact .inr ⟨fun h => hgrows ⟨by omega, h.2, hclear, h.1.1⟩, rfl⟩

/-- Below the floor, a free page is cut off from the stack by an area. -/
theorem Grown.resolveWrite_below (hbelow : page < image.stackFloor) :
    SucceedsIff (space.resolveWrite page) (image.Takes page) (Grown image · start) := by
  have hfloor := hgrown.floor
  have hbottom := hgrown.bottom
  have htop := ustackBottom_page_lt
  rw [UserSpace.resolveWrite, hgrown.areas page hpage, if_neg (by omega)]
  cases harea : image.areas page with
  | none =>
    refine .inr ⟨fun htakes => by simpa [harea] using htakes.2 hbelow, ?_⟩
    simp only [expandStack, hgrown.stackStart]
    refine if_neg fun hgrows => ?_
    obtain ⟨last, hlast⟩ := Nat.exists_eq_add_one_of_ne_zero
      (show image.stackFloor ≠ 0 by omega)
    have hcut := hgrows.2.2.1 last (by rw [mem_range'_1]; omega)
    rw [hgrown.areas last (by omega), if_neg (by omega)] at hcut
    exact image.areas_below_freeFrom hlast.symm hcut
  | some perm =>
    simp only [hgrown.supply]
    split_ifs with hwrite
    · rw [Bool.and_eq_true] at hwrite
      exact .inl ⟨⟨hwrite.2, fun _ => by simp [harea, hwrite.1]⟩, space, rfl, hgrown⟩
    · refine .inr ⟨fun htakes => hwrite ?_, rfl⟩
      have hperm := htakes.2 hbelow
      rw [harea] at hperm
      simpa [htakes.1] using hperm

theorem Grown.resolveWrite :
    SucceedsIff (space.resolveWrite page) (image.Writable start page page)
      (Grown image · (image.lowered start page page)) := by
  have hwritable : image.Writable start page page ↔ image.Takes page ∧
      (start - image.lowered start page page) * pageSize ≤ maxStackSize :=
    and_congr_left fun _ => ⟨fun h => h page le_rfl le_rfl,
      fun h other hlow hhigh => le_antisymm hlow hhigh ▸ h⟩
  refine SucceedsIff.congr ?_ hwritable.symm fun _ _ => id
  by_cases hgrows : image.stackFloor ≤ page ∧ page < start
  · rw [lowered, if_pos hgrows.1, max_eq_right hgrows.1, min_eq_right hgrows.2.le]
    exact hgrown.resolveWrite_free hpage hgrows.1 hgrows.2
  · -- the stack stays where it is
    have hsame : image.lowered start page page = start := by
      rw [lowered]
      split_ifs <;> omega
    rw [hsame, Nat.sub_self, Nat.zero_mul]
    refine SucceedsIff.congr ?_ (and_iff_left (Nat.zero_le _)).symm fun _ _ => id
    by_cases hfree : image.stackFloor ≤ page
    · exact hgrown.resolveWrite_stack hpage (not_lt.mp fun hbelow => hgrows ⟨hfree, hbelow⟩)
    · exact hgrown.resolveWrite_below hpage (not_le.mp hfree)

end ResolveWrite

theorem Grown.store (hgrown : Grown image space start) (address : ℕ) (data : Text) :
    Grown image (space.store address data) start :=
  ⟨hgrown.floor, hgrown.bottom, hgrown.stackStart, hgrown.supply, hgrown.areas⟩

theorem writePages_nil (fuel address : ℕ) : space.writePages fuel address [] = some space := by
  cases fuel <;> simp [UserSpace.writePages]

theorem Grown.writePages (hgrown : Grown image space start) {fuel address : ℕ} {data : Text}
    (hfuel : data.length ≤ fuel) (hdata : data ≠ []) (hhigh : address + data.length ≤ ustackTop) :
    SucceedsIff (space.writePages fuel address data)
      (image.Writable start (address / pageSize) ((address + data.length - 1) / pageSize))
      (Grown image · (image.lowered start (address / pageSize)
        ((address + data.length - 1) / pageSize))) := by
  induction fuel generalizing space start address data with
  | zero => exact absurd (length_eq_zero_iff.mp (Nat.le_zero.mp hfuel)) hdata
  | succ fuel ih =>
    have hpos : 0 < data.length := length_pos_of_ne_nil hdata
    have hend := ustackTop_le
    have htop := ustackTop_page
    have hoffset := Nat.mod_lt address (show 0 < pageSize by decide)
    have hsplit := Nat.div_add_mod address pageSize
    have hpage : address / pageSize < ustackTop / pageSize :=
      (Nat.div_lt_iff_lt_mul (by decide)).mpr (by omega)
    have hfirst := hgrown.resolveWrite hpage
    have hin : ¬ userMemoryEnd < address + min (pageSize - address % pageSize) data.length - 1 := by
      omega
    simp only [UserSpace.writePages, hdata, if_false, hin]
    by_cases hone : data.length ≤ pageSize - address % pageSize
    · -- everything is on one page
      have hlast : (address + data.length - 1) / pageSize = address / pageSize :=
        Nat.div_eq_of_lt_le (by rw [Nat.mul_comm]; omega)
          (by rw [Nat.succ_mul, Nat.mul_comm]; omega)
      simp only [min_eq_right hone, drop_length, take_length, writePages_nil, hlast]
      exact (hfirst.bind fun resolved hresolved => .inl
        ⟨trivial, _, rfl, hresolved.store address data⟩).congr (and_iff_left trivial) fun _ _ => id
    · have hlen : min (pageSize - address % pageSize) data.length =
          pageSize - address % pageSize := min_eq_left (by omega)
      set len := pageSize - address % pageSize with hlenEq
      have hnext : (address + len) / pageSize = address / pageSize + 1 := by
        rw [show address + len = pageSize * (address / pageSize + 1) by rw [Nat.mul_succ]; omega,
          Nat.mul_div_cancel_left _ (by decide)]
      have hlength : (data.drop len).length = data.length - len := length_drop
      have hlast : address / pageSize < (address + data.length - 1) / pageSize := by
        rw [← Nat.succ_le_iff, Nat.succ_eq_add_one, ← hnext]
        exact Nat.div_le_div_right (by omega)
      rw [hlen, ← image.lowered_lowered hlast]
      refine (hfirst.bind fun resolved hresolved => ?_).congr (image.writable_iff hlast).symm
        fun _ _ => id
      have hrestHigh : address + len + (data.drop len).length ≤ ustackTop := by omega
      have hrest := ih (hresolved.store address (data.take len)) (by omega)
        (ne_nil_of_length_pos (by omega)) hrestHigh
      rwa [hnext, show address + len + (data.drop len).length = address + data.length by omega]
        at hrest

/-- Nothing can be written past the end of user memory. -/
theorem writePages_bound {s' : UserSpace} {fuel address : ℕ} {data : Text}
    (hfuel : data.length ≤ fuel) (hdata : data ≠ [])
    (hwrite : space.writePages fuel address data = some s') :
    address + data.length ≤ userMemoryEnd + 1 := by
  induction fuel generalizing space address data with
  | zero => exact absurd (length_eq_zero_iff.mp (Nat.le_zero.mp hfuel)) hdata
  | succ fuel ih =>
    simp only [UserSpace.writePages, hdata, if_false] at hwrite
    set len := min (pageSize - address % pageSize) data.length with hlen
    have hpos : 0 < len := lt_min
      (Nat.sub_pos_of_lt (Nat.mod_lt _ (by decide))) (length_pos_of_ne_nil hdata)
    split_ifs at hwrite with hin
    obtain ⟨resolved, -, hrest⟩ := bind_eq_some_iff.mp hwrite
    have hlength : (data.drop len).length = data.length - len := length_drop
    by_cases hdone : data.drop len = []
    · have := length_eq_zero_iff.mpr hdone
      omega
    · have := ih (by omega) hdone hrest
      omega

end UserSpace

/-! ## The stack of the new program -/

theorem subWord_eq {word amount : ℕ} (hle : amount ≤ word) (hword : word < 2 ^ 64) :
    subWord word amount = word - amount := by
  have hamount : amount % 2 ^ 64 = amount := Nat.mod_eq_of_lt (by omega)
  rw [subWord, hamount, show word + 2 ^ 64 - amount = word - amount + 2 ^ 64 by omega,
    Nat.add_mod_right, Nat.mod_eq_of_lt (by omega)]

theorem subWord_wraps {word amount : ℕ} (hlt : word < amount) :
    2 ^ 64 ≤ subWord word amount + amount := by
  rw [subWord]
  omega

def stringBytes (strings : List Text) : ℕ := (strings.map fun data => data.length + 1).sum

/-- Every string fits below those before it. -/
def UserSpace.RoomForAll (image : UserSpace) : ℕ → List Text → Prop
  | _, [] => True
  | sp, data :: rest => (data.length + 1 ≤ sp ∧ image.Room sp (sp - (data.length + 1))) ∧
      image.RoomForAll (sp - (data.length + 1)) rest

/-- The strings, the random bytes and the table with the auxiliary vector fit on the stack. -/
def Image.Fits (image : Image) (args envs : List Text) : Prop :=
  let argsTop := ustackTop - stringBytes envs
  let sp := argsTop - stringBytes args
  let random := alignWord (alignWord sp - 16)
  let size := (args.length + envs.length + 2 * image.auxv.length + 9) * 8
  image.space.RoomForAll ustackTop envs ∧ image.space.RoomForAll argsTop args ∧
    (16 ≤ alignWord sp ∧ image.space.Room sp random) ∧ size ≤ alignWord random ∧
      image.space.Room random (alignWord (alignWord random - size))

namespace Stack

/-- Everything from the top of the stack down to its pointer has been written. -/
structure Filled (image : UserSpace) (stack : Stack) : Prop where
  high : stack.sp ≤ ustackTop
  grown : UserSpace.Grown image stack.space (image.startAt stack.sp)
  taken : ∀ page, stack.sp / pageSize ≤ page → page < ustackTop / pageSize → image.Takes page

theorem ustackTop_lt : ustackTop < 2 ^ 64 := by decide

variable {image : UserSpace} {stack : Stack} {data : Text}

theorem Filled.write (hfilled : Filled image stack) {low : ℕ} (hdata : data ≠ [])
    (hlow : low + data.length ≤ stack.sp) (hgap : stack.sp < low + data.length + pageSize) :
    SucceedsIff (stack.space.writeToUser low data) (image.Room stack.sp low)
      fun space => Filled image ⟨space, low⟩ := by
  have hhigh := hfilled.high
  have hpos : 0 < data.length := length_pos_of_ne_nil hdata
  have hfloor := image.stackFloor_le
  have htop := ustackTop_page
  set last := (low + data.length - 1) / pageSize with hlastEq
  have hfirst : low / pageSize ≤ last := Nat.div_le_div_right (by omega)
  have habove : last ≤ stack.sp / pageSize := Nat.div_le_div_right (by omega)
  have hnear : stack.sp / pageSize ≤ last + 1 := by
    rw [hlastEq, ← Nat.add_div_right _ (show 0 < pageSize by decide)]
    exact Nat.div_le_div_right (by omega)
  have hlast : last < ustackTop / pageSize :=
    (Nat.div_lt_iff_lt_mul (by decide)).mpr (by omega)
  have hstart : image.lowered (image.startAt stack.sp) (low / pageSize) last =
      image.startAt low := by
    simp only [UserSpace.lowered, UserSpace.startAt]
    split_ifs <;> omega
  have hwrite := hfilled.grown.writePages le_rfl hdata (hlow.trans hhigh)
  rw [← hlastEq, hstart] at hwrite
  refine hwrite.congr ?_ fun hroom space hgrown => ⟨by simp only; omega, hgrown, ?_⟩
  · rw [UserSpace.Writable, UserSpace.Room, hstart]
    refine and_congr_left fun _ => ⟨fun htakes page hpage habove => htakes page hpage (by omega),
      fun htakes page hpage hbelow => ?_⟩
    rcases lt_or_ge page (stack.sp / pageSize) with hlt | hge
    · exact htakes page hpage hlt
    · exact hfilled.taken page hge (by omega)
  · intro page hpage hbelow
    rcases lt_or_ge page (stack.sp / pageSize) with hlt | hge
    · exact hroom.1 page hpage hlt
    · exact hfilled.taken page hge hbelow

theorem Filled.rewrite (hfilled : Filled image stack) {address : ℕ} (hdata : data ≠ [])
    (hlow : stack.sp ≤ address) (hhigh : address + data.length ≤ ustackTop) :
    SucceedsIff (stack.space.writeToUser address data) True
      fun space => Filled image ⟨space, stack.sp⟩ := by
  have hpos : 0 < data.length := length_pos_of_ne_nil hdata
  have hfloor := image.stackFloor_le
  have htop := ustackTop_page
  have hfirst : stack.sp / pageSize ≤ address / pageSize := Nat.div_le_div_right hlow
  have hlast : (address + data.length - 1) / pageSize < ustackTop / pageSize :=
    (Nat.div_lt_iff_lt_mul (by decide)).mpr (by omega)
  have hstart : image.lowered (image.startAt stack.sp) (address / pageSize)
      ((address + data.length - 1) / pageSize) = image.startAt stack.sp := by
    simp only [UserSpace.lowered, UserSpace.startAt]
    split_ifs <;> omega
  have hwrite := hfilled.grown.writePages le_rfl hdata hhigh
  rw [hstart] at hwrite
  refine hwrite.congr (iff_of_true ?_ trivial) fun _ space hgrown =>
    ⟨hfilled.high, hgrown, hfilled.taken⟩
  refine ⟨fun page hpage hbelow => hfilled.taken page (by omega) (by omega), ?_⟩
  rw [hstart, Nat.sub_self, Nat.zero_mul]
  exact Nat.zero_le _

theorem Filled.push (hfilled : Filled image stack) (data : Text) :
    SucceedsIff (stack.push data)
      (data.length + 1 ≤ stack.sp ∧ image.Room stack.sp (stack.sp - (data.length + 1)))
      fun pushed => Filled image pushed ∧ pushed.sp = stack.sp - (data.length + 1) := by
  have hhigh := hfilled.high
  have htop := ustackTop_lt
  have hend := ustackTop_le
  rcases Nat.lt_or_ge stack.sp (data.length + 1) with hwraps | hroom
  · -- the pointer wraps around, and the byte after the string lies past the end of memory
    refine .inr ⟨fun h => by omega, ?_⟩
    have hsum := subWord_wraps hwraps
    refine eq_none_iff_forall_ne_some.mpr fun pushed hpush => ?_
    obtain ⟨space, -, hspace⟩ := bind_eq_some_iff.mp hpush
    obtain ⟨last, hlast, -⟩ := map_eq_some_iff.mp hspace
    have hbound := UserSpace.writePages_bound le_rfl (cons_ne_nil 0 []) hlast
    simp only [length_singleton, userMemoryEnd] at hbound
    omega
  rw [Stack.push, subWord_eq hroom (by omega)]
  have hsp : stack.sp - (data.length + 1) + data.length + 1 = stack.sp := by omega
  set sp := stack.sp - (data.length + 1)
  by_cases hdata : data = []
  · subst hdata
    have hzero : sp + ([0] : Text).length = stack.sp := hsp
    have hwrite := hfilled.write (cons_ne_nil 0 []) hzero.le
      (by rw [hzero]; exact Nat.lt_add_of_pos_right (by decide))
    exact (hwrite.map fun space hspace => ⟨hspace, rfl⟩).congr (and_iff_right hroom).symm
      fun _ _ => id
  · have hwrite := hfilled.write hdata (show sp + data.length ≤ stack.sp by omega)
      (by simp only [pageSize]; omega)
    refine (hwrite.bind fun space hspace => (hspace.rewrite (cons_ne_nil 0 [])
      (Nat.le_add_right sp data.length) ?_).map fun last hlast => ⟨hlast, rfl⟩).congr ?_
      fun _ _ => id
    · simp only [length_singleton]
      omega
    · simp [hroom]

theorem Filled.pushAll (hfilled : Filled image stack) (strings : List Text) :
    SucceedsIff (stack.pushAll strings) (image.RoomForAll stack.sp strings) fun result =>
      Filled image result.1 ∧ result.1.sp = stack.sp - stringBytes strings ∧
        result.2.length = strings.length := by
  induction strings generalizing stack with
  | nil => exact .inl ⟨trivial, (stack, []), rfl, hfilled, rfl, rfl⟩
  | cons data rest ih =>
    refine (hfilled.push data).bind fun pushed ⟨hpushed, hsp⟩ => ?_
    have hrest := ih hpushed
    rw [hsp] at hrest
    refine hrest.map fun result ⟨hresult, hresultSp, hlength⟩ => ⟨hresult, ?_, ?_⟩
    · rw [hresultSp, Nat.sub_sub]
      simp [stringBytes]
    · simp [hlength]

end Stack

namespace ExecHost

variable {space : UserSpace} {fuel : ℕ}

variable {value : Text}

end ExecHost

end Kairix.Exec
