import Kairix.MachineWord
import Kairix.SysError

/-!
# Translation of user buffers

The kernel reaches user memory through the page table of the process.  A buffer is
translated page by page, and pages that do not allow the access are faulted in first.
Buffers inside one page have a translator of their own.
-/

namespace Kairix.UserBuffer

open Relation List

def userMemorySpace : ℕ × ℕ := (0, 0x3fffffffff)
def maxFaultTransitions : ℕ := 3

inductive AccessType where
  | read
  | write
  | execute
  | none

inductive PageFaultError where
  | invalidAddress
  | beyondFileSize
  | outOfMemory
  | invalidMapping
  | normal

structure Pte where
  ppn : ℕ
  valid : Bool
  readable : Bool
  writable : Bool
  executable : Bool
  user : Bool

def Pte.isTable (pte : Pte) : Bool :=
  pte.valid && !(pte.readable || pte.writable || pte.executable)

def pteAllowsAccess (pte : Pte) : AccessType → Bool
  | .read => pte.user && pte.readable
  | .write => pte.user && pte.writable
  | .execute => pte.user && pte.executable
  | .none => false

/-- `ptes` is the memory of the table pages. -/
structure PageTable where
  root : ℕ
  ptes : ℕ → ℕ → Pte

namespace PageTable

variable (table : PageTable)

def walk : ℕ → List ℕ → Option Pte
  | _, [] => none
  | ppn, [index] => some (table.ptes ppn index)
  | ppn, index :: rest =>
    if (table.ptes ppn index).valid = true then walk (table.ptes ppn index).ppn rest else none

def findPte (vpn : ℕ) : Option Pte :=
  table.walk table.root [vpn / 2 ^ 18 % 512, vpn / 2 ^ 9 % 512, vpn % 512]

def translate (vpn : ℕ) : Option Pte :=
  (table.findPte vpn).filter fun pte => pte.valid && !pte.isTable

end PageTable

/-! ## The translators -/

/-- An error, or a computation that goes wrong: a lost carry, a slice outside its page, a
loop that does not end. -/
inductive Failure where
  | errno (error : SysError)
  | overflow
  | outOfBounds
  | stuck
  deriving DecidableEq

def efault {α : Type} : Except Failure α := .error (.errno .efault)

/-- What handling a fault answers, and the table it leaves. -/
abbrev FaultHandler := PageTable → ℕ → AccessType → Option PageFaultError × PageTable

variable (fault : FaultHandler) (access : AccessType)

def faultCurrentUserPage (table : PageTable) (va : ℕ) : Option PageFaultError × PageTable :=
  if va < userMemorySpace.1 ∨ va > userMemorySpace.2 then (none, table) else fault table va access

def resolveUserPte (va : ℕ) (doFault : Bool) : ℕ → PageTable → Except Failure (Pte × PageTable)
  | left, table =>
    match (table.translate (va / pageSize)).filter (pteAllowsAccess · access), doFault, left with
    | some pte, _, _ => .ok (pte, table)
    | none, true, left + 1 =>
      match faultCurrentUserPage fault access table va with
      | (some .normal, after) => resolveUserPte va doFault left after
      | _ => efault
    | none, _, _ => efault

def checkedAdd (first second : ℕ) : Except Failure ℕ :=
  if first + second < usizeLimit then .ok (first + second) else efault

def validateUserCopyRange (start stop : ℕ) : Except Failure Unit :=
  if start = stop then .ok ()
  else if start < userMemorySpace.1 ∨ stop ≤ start ∨ stop = 0 ∨ stop - 1 > userMemorySpace.2 then
    efault
  else .ok ()

/-- The start of the next page, as `step` and the conversion to an address compute it. -/
def nextPage (start : ℕ) : Except Failure ℕ :=
  if (start / pageSize + 1) * pageSize < usizeLimit then .ok ((start / pageSize + 1) * pageSize)
  else .error .overflow

/-- The physical addresses of `get_bytes_array()[first..last]`. -/
def pageBytes (ppn first last : ℕ) : Except Failure (List ℕ) :=
  if first ≤ last ∧ last ≤ pageSize then .ok (range' (ppn * pageSize + first) (last - first))
  else .error .outOfBounds

def translateLoop (stop : ℕ) (doFault : Bool) :
    ℕ → ℕ → PageTable → Except Failure (List (List ℕ) × PageTable)
  | 0, start, table => if start < stop then .error .stuck else .ok ([], table)
  | fuel + 1, start, table =>
    if start < stop then do
      let (pte, table) ← resolveUserPte fault access start doFault maxFaultTransitions table
      let last := min (← nextPage start) stop
      let slice ← pageBytes pte.ppn (start % pageSize)
        (if last % pageSize = 0 then pageSize else last % pageSize)
      let (rest, table) ← translateLoop stop doFault fuel last table
      return (slice :: rest, table)
    else .ok ([], table)

def translatedByteBufferInner (table : PageTable) (ptr len : ℕ) (doFault : Bool) :
    Except Failure (List (List ℕ) × PageTable) := do
  let stop ← checkedAdd ptr len
  validateUserCopyRange ptr stop
  translateLoop fault access stop doFault len ptr table

def translatedSingleByteBufferInner (table : PageTable) (ptr len : ℕ) :
    Except Failure (Option (List ℕ) × PageTable) :=
  if len = 0 then .ok (none, table)
  else do
    let stop ← checkedAdd ptr len
    if stop = 0 then efault
    else if ptr / pageSize ≠ (stop - 1) / pageSize then .ok (none, table)
    else do
      let (pte, table) ← resolveUserPte fault access ptr true maxFaultTransitions table
      let slice ← pageBytes pte.ppn (ptr % pageSize) (ptr % pageSize + len)
      return (some slice, table)

/-! ## What a translation gives -/

def Reaches : PageTable → PageTable → Prop :=
  ReflTransGen fun before after => ∃ va, after = (fault before va access).2

/-- The physical address of a byte, by a table on the way from one table to another. -/
structure Shows (before after : PageTable) (byte address : ℕ) : Prop where
  inside : userMemorySpace.1 ≤ byte ∧ byte ≤ userMemorySpace.2
  image : ∃ table pte, Reaches fault access before table ∧ Reaches fault access table after ∧
    table.translate (byte / pageSize) = some pte ∧ pteAllowsAccess pte access = true ∧
      address = pte.ppn * pageSize + byte % pageSize

/-- The result meets `post`, or the failure is the error of a bad address. -/
def Yields {α : Type} (run : Except Failure α) (post : α → Prop) : Prop :=
  match run with
  | .ok value => post value
  | .error failure => failure = .errno .efault

def FitsPage (ptr len : ℕ) : Prop := ptr % pageSize + len ≤ pageSize

theorem FitsPage.samePage {ptr len : ℕ} (hfits : FitsPage ptr len) (hlen : len ≠ 0) :
    ptr / pageSize = (ptr + len - 1) / pageSize := by
  simp only [FitsPage, pageSize] at *
  omega

structure Exact (table : PageTable) (ptr len : ℕ) : Prop where
  buffer : ∀ doFault, Yields (translatedByteBufferInner fault access table ptr len doFault)
    fun result => Reaches fault access table result.2 ∧
      Forall₂ (Shows fault access table result.2) (range' ptr len) result.1.flatten
  single : FitsPage ptr len → translatedSingleByteBufferInner fault access table ptr len =
    (translatedByteBufferInner fault access table ptr len true).map fun result =>
      (result.1.head?, result.2)

variable {fault access}

theorem Yields.bind {α β : Type} {run : Except Failure α} {next : α → Except Failure β}
    {middle : α → Prop} {post : β → Prop} (hrun : Yields run middle)
    (hnext : ∀ value, middle value → Yields (next value) post) : Yields (run >>= next) post := by
  cases run with
  | error failure => exact hrun
  | ok value => exact hnext value hrun

variable {before table s' : PageTable} {ptr len start stop fuel : ℕ} {doFault : Bool}

theorem Reaches.faulted {va : ℕ} (hreach : Reaches fault access before table)
    (hfault : faultCurrentUserPage fault access table va = (some .normal, s')) :
    Reaches fault access before s' := by
  unfold faultCurrentUserPage at hfault
  split at hfault
  · simp at hfault
  · exact hreach.tail ⟨va, by rw [hfault]⟩

theorem resolveUserPte_yields (va left : ℕ) (hreach : Reaches fault access before table) :
    Yields (resolveUserPte fault access va doFault left table) fun result =>
      Reaches fault access before result.2 ∧ result.2.translate (va / pageSize) = some result.1 ∧
          pteAllowsAccess result.1 access = true := by
  induction left generalizing table with
  | zero =>
    unfold resolveUserPte
    split
    · next hfound => exact ⟨hreach, Option.filter_eq_some_iff.mp hfound⟩
    · next hleft => simp at hleft
    · rfl
  | succ left ih =>
    unfold resolveUserPte
    split
    · next hfound => exact ⟨hreach, Option.filter_eq_some_iff.mp hfound⟩
    · next hleft =>
      cases hleft
      split
      · next s' hfault => exact ih (hreach.faulted hfault)
      · rfl
    · rfl

theorem nextPage_eq (hstart : start ≤ userMemorySpace.2) :
    nextPage start = .ok ((start / pageSize + 1) * pageSize) := by
  refine if_pos ?_
  simp only [userMemorySpace, pageSize, usizeLimit] at *
  omega

theorem sliceEnd_eq {last : ℕ} (hlast : start < last)
    (hpage : start % pageSize + (last - start) ≤ pageSize) :
    (if last % pageSize = 0 then pageSize else last % pageSize) =
      start % pageSize + (last - start) := by
  split <;> simp only [pageSize] at * <;> omega

theorem pageBytes_eq {ppn first count : ℕ} (hpage : first + count ≤ pageSize) :
    pageBytes ppn first (first + count) = .ok (range' (ppn * pageSize + first) count) := by
  rw [pageBytes, if_pos ⟨Nat.le_add_right first count, hpage⟩, Nat.add_sub_cancel_left]

theorem shows_page {count : ℕ} {pte : Pte} (hbefore : Reaches fault access before table)
    (hafter : Reaches fault access table s') (hpte : table.translate (start / pageSize) = some pte)
    (hallows : pteAllowsAccess pte access = true) (hinside : start + count ≤ userMemorySpace.2 + 1)
    (hcount : start % pageSize + count ≤ pageSize) :
    Forall₂ (Shows fault access before s') (range' start count)
      (range' (pte.ppn * pageSize + start % pageSize) count) := by
  refine forall₂_iff_get.mpr ⟨by simp, fun index hindex _ => ?_⟩
  have hlt : index < count := by simpa using hindex
  have hsame : (start + index) / pageSize = start / pageSize ∧
      (start + index) % pageSize = start % pageSize + index := by
    simp only [pageSize] at *
    omega
  simp only [get_eq_getElem, getElem_range', one_mul]
  refine ⟨⟨Nat.zero_le _, by omega⟩, table, pte, hbefore, hafter, ?_, hallows, ?_⟩
  · rw [hsame.1, hpte]
  · rw [hsame.2, Nat.add_assoc]

theorem translateLoop_yields (hreach : Reaches fault access before table)
    (hinside : stop ≤ userMemorySpace.2 + 1) (hfuel : stop - start ≤ fuel) :
    Yields (translateLoop fault access stop doFault fuel start table) fun result =>
      Reaches fault access table result.2 ∧ Forall₂ (Shows fault access before result.2)
        (range' start (stop - start)) result.1.flatten := by
  induction fuel generalizing start table with
  | zero =>
    rw [translateLoop, if_neg (by omega), Nat.le_zero.mp hfuel]
    exact ⟨.refl, .nil⟩
  | succ fuel ih =>
    rw [translateLoop]
    split
    · next hstart =>
      refine (resolveUserPte_yields start _ .refl).bind fun ⟨pte, resolved⟩ hresolved => ?_
      obtain ⟨hresolves, hpte, hallows⟩ := hresolved
      obtain ⟨last, hlast⟩ : ∃ last, last = min ((start / pageSize + 1) * pageSize) stop := ⟨_, rfl⟩
      have hbounds : start < last ∧ last ≤ stop ∧ start % pageSize + (last - start) ≤ pageSize := by
        simp only [pageSize] at *
        omega
      rw [nextPage_eq (by omega)]
      change Yields (pageBytes pte.ppn (start % pageSize) _ >>= _) _
      rw [← hlast, sliceEnd_eq hbounds.1 hbounds.2.2, pageBytes_eq hbounds.2.2]
      refine (ih (hreach.trans hresolves) (by omega)).bind fun ⟨slices, s'⟩ hrest => ?_
      obtain ⟨hafter, hslices⟩ := hrest
      refine ⟨hresolves.trans hafter, ?_⟩
      have hsplit : range' start (stop - start) =
          range' start (last - start) ++ range' last (stop - last) := by
        have happend := range'_append_1 (s := start) (m := last - start) (n := stop - last)
        rw [Nat.add_sub_cancel' hbounds.1.le] at happend
        rw [happend]
        congr 1
        omega
      rw [hsplit]
      exact rel_append (shows_page (hreach.trans hresolves) hafter hpte hallows (by omega)
        hbounds.2.2) hslices
    · next hdone =>
      rw [Nat.sub_eq_zero_of_le (Nat.le_of_not_lt hdone)]
      exact ⟨.refl, .nil⟩

theorem translateLoop_done (hdone : ¬start < stop) :
    translateLoop fault access stop doFault fuel start table = .ok ([], table) := by
  cases fuel <;> rw [translateLoop, if_neg hdone]

theorem buffer_yields (table : PageTable) (ptr len : ℕ) (doFault : Bool) :
    Yields (translatedByteBufferInner fault access table ptr len doFault) fun result =>
      Reaches fault access table result.2 ∧
        Forall₂ (Shows fault access table result.2) (range' ptr len) result.1.flatten := by
  unfold translatedByteBufferInner checkedAdd validateUserCopyRange
  split
  · change Yields (ite _ _ _ >>= _) _
    split
    · next hempty =>
      obtain rfl : len = 0 := by omega
      change Yields (translateLoop fault access (ptr + 0) doFault 0 ptr table) _
      rw [translateLoop_done (by omega)]
      exact ⟨.refl, .nil⟩
    · split
      · rfl
      · next hvalid =>
        have hloop : Yields (translateLoop fault access (ptr + len) doFault len ptr table) _ :=
          translateLoop_yields .refl (by omega) (by omega)
        rw [Nat.add_sub_cancel_left] at hloop
        exact hloop
  · rfl

theorem buffer_eq_loop (hptr : ptr < usizeLimit)
    (hinside : len = 0 ∨ ptr + len ≤ userMemorySpace.2 + 1) :
    translatedByteBufferInner fault access table ptr len doFault =
      translateLoop fault access (ptr + len) doFault len ptr table := by
  have hadd : ptr + len < usizeLimit := by
    simp only [userMemorySpace, usizeLimit] at *
    omega
  have hvalid : validateUserCopyRange ptr (ptr + len) = .ok () := by
    unfold validateUserCopyRange
    split
    · rfl
    · refine if_neg ?_
      simp only [userMemorySpace] at *
      omega
  rw [translatedByteBufferInner, checkedAdd, if_pos hadd]
  change (validateUserCopyRange _ _ >>= _) = _
  rw [hvalid]
  rfl

theorem single_empty (hptr : ptr < usizeLimit) :
    translatedSingleByteBufferInner fault access table ptr 0 =
      (translatedByteBufferInner fault access table ptr 0 true).map fun result =>
        (result.1.head?, result.2) := by
  rw [buffer_eq_loop hptr (.inl rfl), translateLoop_done (by omega),
    translatedSingleByteBufferInner, if_pos rfl]
  rfl

theorem single_eq_buffer (hlen : len ≠ 0) (hinside : ptr + len ≤ userMemorySpace.2 + 1)
    (hfits : FitsPage ptr len) :
    translatedSingleByteBufferInner fault access table ptr len =
      (translatedByteBufferInner fault access table ptr len true).map fun result =>
        (result.1.head?, result.2) := by
  obtain ⟨len, rfl⟩ := Nat.exists_eq_succ_of_ne_zero hlen
  have hadd : ptr + (len + 1) < usizeLimit := by
    simp only [userMemorySpace, usizeLimit] at *
    omega
  rw [buffer_eq_loop (by omega) (.inr hinside), translatedSingleByteBufferInner]
  have hmin : min ((ptr / pageSize + 1) * pageSize) (ptr + (len + 1)) = ptr + (len + 1) := by
    simp only [FitsPage, pageSize] at *
    omega
  have hend := sliceEnd_eq (show ptr < ptr + (len + 1) by omega) (by rwa [Nat.add_sub_cancel_left])
  rw [if_neg (Nat.succ_ne_zero len), translateLoop, if_pos (by omega), checkedAdd, if_pos hadd,
    nextPage_eq (by omega)]
  change (ite _ _ _) = _
  rw [if_neg (not_not_intro (hfits.samePage hlen))]
  cases resolveUserPte fault access ptr true maxFaultTransitions table with
  | error failure => rfl
  | ok resolved =>
    simp only [bind, Except.bind, hmin, hend, Nat.add_sub_cancel_left, pageBytes_eq hfits,
      translateLoop_done (Nat.lt_irrefl _)]
    rfl

/-! ## Ranges outside the user addresses -/

theorem buffer_outside (hlen : len ≠ 0) (houtside : userMemorySpace.2 + 1 < ptr + len) :
    translatedByteBufferInner fault access table ptr len doFault = efault := by
  rw [translatedByteBufferInner, checkedAdd]
  split
  · change validateUserCopyRange _ _ >>= _ = _
    rw [validateUserCopyRange, if_neg (by omega), if_pos (by omega)]
    rfl
  · rfl

/-- Outside the user addresses no fault is handled. -/
theorem resolveUserPte_outside {va : ℕ} (houtside : userMemorySpace.2 < va) (left : ℕ) :
    resolveUserPte fault access va true left table =
      match (table.translate (va / pageSize)).filter (pteAllowsAccess · access) with
      | some pte => .ok (pte, table)
      | none => efault := by
  unfold resolveUserPte
  cases (table.translate (va / pageSize)).filter (pteAllowsAccess · access) with
  | some pte => rfl
  | none => cases left <;> simp [faultCurrentUserPage, houtside]

/-- The walk drops the high bits of the page number, and finds a page of the process. -/
def Aliased (access : AccessType) (table : PageTable) (ptr len : ℕ) : Prop :=
  len ≠ 0 ∧ FitsPage ptr len ∧ userMemorySpace.2 + 1 < ptr + len ∧ ptr + len < usizeLimit ∧
    ∃ pte, table.translate (ptr / pageSize) = some pte ∧ pteAllowsAccess pte access = true

theorem single_outside (hlen : len ≠ 0) (hfits : FitsPage ptr len)
    (houtside : userMemorySpace.2 + 1 < ptr + len) :
    translatedSingleByteBufferInner fault access table ptr len = efault ↔
      ¬Aliased access table ptr len := by
  have hptr : userMemorySpace.2 < ptr := by
    simp only [FitsPage, pageSize, userMemorySpace] at *
    omega
  rw [translatedSingleByteBufferInner, if_neg hlen, checkedAdd]
  by_cases hadd : ptr + len < usizeLimit
  swap
  · simp [hadd, Aliased, bind, Except.bind, efault]
  rw [if_pos hadd]
  change (if ptr + len = 0 then efault else ite _ _ _) = _ ↔ _
  rw [if_neg (by omega), if_neg (not_not_intro (hfits.samePage hlen)), resolveUserPte_outside hptr]
  cases hpte : (table.translate (ptr / pageSize)).filter (pteAllowsAccess · access) with
  | none =>
    rw [Option.filter_eq_none_iff] at hpte
    refine iff_of_true rfl ?_
    rintro ⟨-, -, -, -, pte, hfound, hallows⟩
    exact absurd hallows (hpte pte hfound)
  | some pte =>
    have hfound := Option.filter_eq_some_iff.mp hpte
    simp only [bind, Except.bind, pageBytes_eq hfits]
    have haliased : Aliased access table ptr len := ⟨hlen, hfits, houtside, hadd, pte, hfound⟩
    simp [haliased, efault, pure, Except.pure]

theorem exact_iff (hptr : ptr < usizeLimit) :
    Exact fault access table ptr len ↔ ¬Aliased access table ptr len := by
  constructor
  · intro hexact haliased
    obtain ⟨hlen, hfits, houtside, -⟩ := id haliased
    have hsingle := hexact.single hfits
    rw [buffer_outside hlen houtside] at hsingle
    exact (single_outside hlen hfits houtside).mp hsingle haliased
  · intro hnot
    refine ⟨buffer_yields table ptr len, fun hfits => ?_⟩
    by_cases hlen : len = 0
    · rw [hlen]
      exact single_empty hptr
    · by_cases hinside : ptr + len ≤ userMemorySpace.2 + 1
      · exact single_eq_buffer hlen hinside hfits
      · rw [buffer_outside hlen (by omega)]
        exact (single_outside hlen hfits (by omega)).mpr hnot

/-- A page number leads to frame 6 and the frames after it, by its low nine bits. -/
def userPages : PageTable where
  root := 0
  ptes := fun ppn index =>
    if ppn = 2 then ⟨6 + index, true, true, true, false, true⟩
    else ⟨ppn + 1, true, false, false, false, false⟩

def noFault : FaultHandler := fun table _ _ => (none, table)

theorem exact_across_pages :
    (translatedByteBufferInner noFault .read userPages 8190 4 true).map Prod.fst =
        .ok [[32766, 32767], [32768, 32769]] ∧
      Exact noFault .read userPages 8190 4 :=
  ⟨rfl, (exact_iff (by decide)).mpr fun haliased => absurd haliased.2.2.1 (by decide)⟩

/-- The walk looks at the low 27 bits of a page number, and only the translator of whole
buffers looks at the user address range. -/
theorem not_exact_outside :
    (translatedSingleByteBufferInner noFault .read userPages (2 ^ 39 + 8190) 1).map Prod.fst =
        .ok (some [32766]) ∧
      (translatedByteBufferInner noFault .read userPages (2 ^ 39 + 8190) 1 true).map Prod.fst =
        .error (.errno .efault) ∧
      ¬Exact noFault .read userPages (2 ^ 39 + 8190) 1 := by
  refine ⟨rfl, rfl, fun hexact => ?_⟩
  exact absurd (congrArg Except.isOk (hexact.single (by unfold FitsPage; decide))) (by decide)

end Kairix.UserBuffer
