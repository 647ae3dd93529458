import Kairix.PipeRingBuffer

/-!
# What a pipe ring buffer represents

`Layout` ties the head, the tail and the status word to one byte count.
`Represents` adds the bytes themselves: the circular view of the stored pages
is the queue.  Each operation of the ring gets one specification in terms of
the represented queue, and later files use only these.
-/

namespace Kairix.Pipe

open CircularBuffer List

/-! ## Page storage -/

theorem storedByte_update {pages pages' : PageTable} {pageIdx : ℕ} {update : PipePage → PipePage}
    (hupdate : updatePage pages pageIdx update = some pages') (offset : ℕ) :
    storedByte pages' offset =
      if offset / pageSize = pageIdx then
        (update ((pages[pageIdx]?.getD none).getD .newZeroed)).data (offset % pageSize)
      else storedByte pages offset := by
  unfold updatePage at hupdate
  obtain ⟨slot, hslot, rfl⟩ := Option.map_eq_some_iff.mp hupdate
  have hbound : pageIdx < pages.length := by
    by_contra hout
    simp [getElem?_eq_none (Nat.le_of_not_lt hout)] at hslot
  unfold storedByte
  by_cases hpage : offset / pageSize = pageIdx
  · simp [hpage, hslot, getElem?_set_self hbound]
  · simp [hpage, getElem?_set_ne (Ne.symm hpage)]

theorem storedByte_eq_getD (pages : PageTable) (offset : ℕ) : storedByte pages offset =
      ((pages[offset / pageSize]?.getD none).getD .newZeroed).data (offset % pageSize) := by
  unfold storedByte
  cases hpage : pages[offset / pageSize]? with
  | none => rfl
  | some slot =>
    cases slot with
    | none => rfl
    | some page => rfl

theorem storedByte_ensurePageSlots (pages : PageTable) (capacity offset : ℕ) :
    storedByte (ensurePageSlots pages capacity) offset = storedByte pages offset := by
  unfold ensurePageSlots
  split
  · simp only [storedByte_eq_getD]
    by_cases hbound : offset / pageSize < pages.length
    · rw [getElem?_append_left hbound]
    · have hout := Nat.le_of_not_lt hbound
      rw [getElem?_append_right hout, getElem?_eq_none hout]
      rw [getElem?_replicate]
      split <;> rfl
  · rfl

variable {capacity offset : ℕ}

theorem lt_ensurePageSlots_length (pages : PageTable) (hoffset : offset < capacity) :
    offset / pageSize < (ensurePageSlots pages capacity).length := by
  have hcount : offset / pageSize < pageCountFor capacity := by
    unfold pageCountFor
    rw [pageSize_eq]
    omega
  unfold ensurePageSlots
  split
  · simp only [length_append, length_replicate]
    omega
  · omega

theorem storedSlice_eq_map (pages : PageTable) {len : ℕ}
    (hfit : len ≤ pageSize - offset % pageSize) :
    storedSlice pages offset len =
      (range len).map fun index => storedByte pages (offset + index) := by
  have hoffset : ∀ index, index < len → (offset + index) / pageSize = offset / pageSize ∧
        (offset + index) % pageSize = offset % pageSize + index := by
    intro index hindex
    rw [pageSize_eq] at hfit ⊢
    omega
  unfold storedSlice
  split
  · next page hpage =>
      unfold PipePage.slice
      apply map_congr_left
      intro index hindex
      obtain ⟨hdiv, hmod⟩ := hoffset index (mem_range.mp hindex)
      simp [storedByte, hdiv, hmod, hpage]
  · next hmissing =>
      symm
      rw [eq_replicate_iff]
      refine ⟨by simp, ?_⟩
      intro byte hbyte
      obtain ⟨index, hindex, rfl⟩ := mem_map.mp hbyte
      obtain ⟨hdiv, _⟩ := hoffset index (mem_range.mp hindex)
      unfold storedByte
      rw [hdiv]
      split
      · next page hpage => exact absurd hpage (hmissing page)
      · rfl

theorem writeStoredSlice_spec (pages : PageTable) (src : List UInt8) (hoffset : offset < capacity)
    (hfit : src.length ≤ pageSize - offset % pageSize) :
    ∃ pages', writeStoredSlice pages capacity offset src = some pages' ∧
        ∀ other, storedByte pages' other =
          if offset ≤ other ∧ other < offset + src.length then
            src.getD (other - offset) 0
          else storedByte pages other := by
  have hbound := lt_ensurePageSlots_length pages hoffset
  obtain ⟨pages', hpages⟩ : ∃ pages', writeStoredSlice pages capacity offset src = some pages' := by
    simp [writeStoredSlice, updatePage, getElem?_eq_getElem hbound]
  refine ⟨pages', hpages, ?_⟩
  intro other
  rw [storedByte_update hpages]
  by_cases hpage : other / pageSize = offset / pageSize
  · rw [if_pos hpage, ← hpage]
    simp only [PipePage.copyFromSlice]
    rw [← storedByte_eq_getD, storedByte_ensurePageSlots]
    have hinside :
        (offset % pageSize ≤ other % pageSize ∧ other % pageSize < offset % pageSize + src.length) ↔
        (offset ≤ other ∧ other < offset + src.length) := by
      rw [pageSize_eq] at hpage ⊢
      omega
    have hindex : offset ≤ other → other % pageSize - offset % pageSize = other - offset := by
      intro hle
      rw [pageSize_eq] at hpage ⊢
      omega
    by_cases hwritten : offset ≤ other ∧ other < offset + src.length
    · rw [if_pos (hinside.mpr hwritten), if_pos hwritten, hindex hwritten.1]
    · rw [if_neg (fun h => hwritten (hinside.mp h)), if_neg hwritten]
  · have houtside : ¬(offset ≤ other ∧ other < offset + src.length) := by
      rw [pageSize_eq] at hpage hfit
      omega
    rw [if_neg hpage, if_neg houtside, storedByte_ensurePageSlots]

theorem writeStoredByteTo_spec (pages : PageTable) (byte : UInt8) (hoffset : offset < capacity) :
    ∃ pages', writeStoredByteTo pages capacity offset byte = some pages' ∧
        ∀ other, storedByte pages' other =
          if other = offset then byte else storedByte pages other := by
  obtain ⟨pages', hpages, hstored⟩ := writeStoredSlice_spec pages [byte] hoffset (by
      have hmod := Nat.mod_lt offset (show 0 < pageSize by simp [pageSize_eq])
      simp only [length_singleton]
      omega)
  refine ⟨pages', hpages, ?_⟩
  intro other
  rw [hstored other]
  by_cases hother : other = offset
  · simp [hother]
  · have houtside : ¬(offset ≤ other ∧ other < offset + [byte].length) := by
      simp only [length_singleton]
      omega
    rw [if_neg houtside, if_neg hother]

/-! ## Layout of the ring -/

namespace PipeRingBuffer

/-- The head, the tail and the status describe `count` stored bytes. -/
structure Layout (ring : PipeRingBuffer) (count : ℕ) : Prop where
  head_lt : ring.head < ring.capacity
  count_le : count ≤ ring.capacity
  tail_eq : ring.tail = (ring.head + count) % ring.capacity
  empty_iff : ring.status = .empty ↔ count = 0
  full_iff : ring.status = .full ↔ count = ring.capacity

variable {ring : PipeRingBuffer} {count : ℕ}

section

variable (hlayout : ring.Layout count)
include hlayout

theorem Layout.tail_cases : (ring.head + count < ring.capacity ∧ ring.tail = ring.head + count) ∨
      (ring.capacity ≤ ring.head + count ∧ ring.tail = ring.head + count - ring.capacity) := by
  have htail := hlayout.tail_eq
  rw [add_mod_of_lt count hlayout.head_lt hlayout.count_le] at htail
  split at htail <;> omega

theorem Layout.availableRead_eq : ring.availableRead = count := by
  have hhead := hlayout.head_lt
  have hcount := hlayout.count_le
  have htail := hlayout.tail_cases
  have hempty := hlayout.empty_iff
  unfold availableRead
  split
  · next hstatus => exact (hempty.mp hstatus).symm
  · next hstatus =>
      have hne : count ≠ 0 := fun hzero => hstatus (hempty.mpr hzero)
      split <;> omega

theorem Layout.availableWrite_eq : ring.availableWrite = ring.capacity - count := by
  unfold availableWrite
  rw [hlayout.availableRead_eq]
  split
  · next hstatus =>
      have hfull := hlayout.full_iff.mp hstatus
      omega
  · rfl

theorem Layout.contiguousReadLen_eq :
    ring.contiguousReadLen = min count (ring.capacity - ring.head) := by
  have hhead := hlayout.head_lt
  have hcount := hlayout.count_le
  have htail := hlayout.tail_cases
  have hempty := hlayout.empty_iff
  unfold contiguousReadLen
  split
  · next hstatus =>
      have hzero := hempty.mp hstatus
      omega
  · next hstatus =>
      have hne : count ≠ 0 := fun hzero => hstatus (hempty.mpr hzero)
      split <;> omega

theorem Layout.contiguousWriteLen_eq :
    ring.contiguousWriteLen = min (ring.capacity - count) (ring.capacity - ring.tail) := by
  have hhead := hlayout.head_lt
  have hcount := hlayout.count_le
  have htail := hlayout.tail_cases
  have hfull := hlayout.full_iff
  unfold contiguousWriteLen
  split
  · next hstatus =>
      have hall := hfull.mp hstatus
      omega
  · next hstatus =>
      have hne : count ≠ ring.capacity := fun hall => hstatus (hfull.mpr hall)
      split <;> omega

theorem Layout.peekCopyLen_eq (done remaining : ℕ) (hdone : done + remaining ≤ count)
    (hremaining : 0 < remaining) :
    let cursor := (ring.head + done) % ring.capacity
    ring.peekCopyLen cursor remaining =
      min (min (ring.capacity - cursor) (pageSize - cursor % pageSize))
        remaining := by
  have hhead := hlayout.head_lt
  have hcount := hlayout.count_le
  have htail := hlayout.tail_cases
  have hcursor := add_mod_of_lt done hhead (by omega)
  have hstatus : ring.status ≠ .empty := by
    intro hempty
    have hzero := hlayout.empty_iff.mp hempty
    omega
  dsimp only
  unfold peekCopyLen
  simp only [if_neg hstatus]
  generalize (ring.head + done) % ring.capacity = cursor at hcursor ⊢
  split at hcursor <;> split <;> omega

theorem Layout.advanceHead {len : ℕ} (hpos : 0 < len) (hlen : len ≤ count) :
    (ring.advanceHead len).Layout (count - len) := by
  have hhead := hlayout.head_lt
  have hcount := hlayout.count_le
  have htail := hlayout.tail_cases
  have hmoved := add_mod_of_lt len hhead (by omega)
  have hmovedLt : (ring.head + len) % ring.capacity < ring.capacity := Nat.mod_lt _ (by omega)
  have htailEq : ring.tail =
      ((ring.head + len) % ring.capacity + (count - len)) % ring.capacity := by
    rw [Nat.mod_add_mod, hlayout.tail_eq]
    congr 1
    omega
  have hmeet : (ring.head + len) % ring.capacity = ring.tail ↔ count - len = 0 := by
    split at hmoved <;> omega
  unfold PipeRingBuffer.advanceHead
  refine ⟨hmovedLt, by dsimp only; omega, htailEq, ?_, ?_⟩
  · dsimp only
    rw [← hmeet]
    split
    · next heq => simp [heq]
    · next hne => simp [hne]
  · dsimp only
    constructor
    · intro hfull
      split at hfull <;> cases hfull
    · intro hall
      omega

end

/-- The readable bytes of the ring, in order, are `queue`. -/
structure Represents (ring : PipeRingBuffer) (queue : List UInt8) : Prop where
  layout : ring.Layout queue.length
  view_eq : view (storedByte ring.pages) ring.capacity ring.head queue.length = queue

theorem represents_new : PipeRingBuffer.new.Represents [] := by
  refine ⟨⟨?_, ?_, ?_, ?_, ?_⟩, rfl⟩ <;>
    simp [PipeRingBuffer.new, defaultPipeCapacity]

variable {queue : List UInt8}

theorem Represents.availableRead_eq (hrep : ring.Represents queue) :
    ring.availableRead = queue.length :=
  hrep.layout.availableRead_eq

theorem Represents.availableWrite_eq (hrep : ring.Represents queue) :
    ring.availableWrite = ring.capacity - queue.length :=
  hrep.layout.availableWrite_eq

theorem Represents.advanceHead (hrep : ring.Represents queue) {len : ℕ} (hpos : 0 < len)
    (hlen : len ≤ queue.length) : (ring.advanceHead len).Represents (queue.drop len) := by
  have hlayout := hrep.layout.advanceHead hpos hlen
  rw [← length_drop] at hlayout
  refine ⟨hlayout, ?_⟩
  change view (storedByte ring.pages) ring.capacity
    ((ring.head + len) % ring.capacity) (queue.drop len).length = queue.drop len
  rw [length_drop, ← view_drop _ _ _ hlen, hrep.view_eq]

theorem Layout.pageContainsReadableData {index : ℕ} (hlayout : ring.Layout count)
    (hindex : index < count) :
    ring.pageContainsReadableData ((ring.head + index) % ring.capacity / pageSize) = true := by
  have hhead := hlayout.head_lt
  have hcount := hlayout.count_le
  have htail := hlayout.tail_cases
  have hoffset := add_mod_of_lt index hhead (by omega)
  have hnotEmpty : ring.status ≠ .empty := by
    intro hempty
    have hzero := hlayout.empty_iff.mp hempty
    omega
  unfold PipeRingBuffer.pageContainsReadableData
  rw [if_neg hnotEmpty]
  split
  · rfl
  · next hnotFull =>
      have hne : count ≠ ring.capacity := fun hall => hnotFull (hlayout.full_iff.mpr hall)
      generalize (ring.head + index) % ring.capacity = offset at hoffset ⊢
      rw [pageSize_eq]
      dsimp only
      split at hoffset <;> split
      · omega
      · split <;> simp <;> omega
      · omega
      · split <;> simp <;> omega

theorem storedByte_mapIdx (pages : PageTable) (keep : ℕ → Bool) {offset : ℕ}
    (hkeep : keep (offset / pageSize) = true) :
    storedByte (pages.mapIdx fun pageIdx page =>
      if keep pageIdx then page else none) offset = storedByte pages offset := by
  unfold storedByte
  rw [getElem?_mapIdx]
  cases hpage : pages[offset / pageSize]? with
  | none => rfl
  | some slot => simp [hkeep]

theorem Represents.reclaimConsumedPages (hrep : ring.Represents queue) :
    ring.reclaimConsumedPages.Represents queue := by
  unfold PipeRingBuffer.reclaimConsumedPages
  split
  · next hempty =>
      have hnil : queue = [] := length_eq_zero_iff.mp (hrep.layout.empty_iff.mp hempty)
      subst hnil
      exact ⟨⟨hrep.layout.head_lt, hrep.layout.count_le, hrep.layout.tail_eq,
        hrep.layout.empty_iff, hrep.layout.full_iff⟩, rfl⟩
  · refine ⟨⟨hrep.layout.head_lt, hrep.layout.count_le, hrep.layout.tail_eq,
      hrep.layout.empty_iff, hrep.layout.full_iff⟩, ?_⟩
    refine Eq.trans ?_ hrep.view_eq
    apply view_congr
    intro index hindex
    apply storedByte_mapIdx
    exact hrep.layout.pageContainsReadableData hindex

def settings (ring : PipeRingBuffer) : ℕ × Bool × Bool :=
  (ring.capacity, ring.readEndOpen, ring.writeEndOpen)

@[simp] theorem reclaimConsumedPages_settings (ring : PipeRingBuffer) :
    ring.reclaimConsumedPages.settings = ring.settings := by
  unfold PipeRingBuffer.reclaimConsumedPages
  split <;> rfl

/-! ## Reading -/

section

variable (hrep : ring.Represents queue)
include hrep

theorem Represents.storedSlice_head (done len : ℕ) (hlen : done + len ≤ queue.length)
    (hcontiguous : (ring.head + done) % ring.capacity + len ≤ ring.capacity)
    (hpage : len ≤ pageSize - (ring.head + done) % ring.capacity % pageSize) :
    storedSlice ring.pages ((ring.head + done) % ring.capacity) len =
      (queue.drop done).take len := by
  rw [storedSlice_eq_map _ hpage, ← view_of_contiguous _ hcontiguous]
  have hdrop := view_drop (storedByte ring.pages) ring.capacity ring.head
    (show done ≤ queue.length by omega)
  rw [hrep.view_eq] at hdrop
  rw [hdrop, view_take _ _ _ (by omega)]

theorem Represents.readCopyLen_pos (remaining : ℕ) (hpos : 0 < remaining)
    (hremaining : remaining ≤ queue.length) : 0 < ring.readCopyLen remaining := by
  have hhead := hrep.layout.head_lt
  have hmod := Nat.mod_lt ring.head (show 0 < pageSize by simp [pageSize_eq])
  unfold readCopyLen
  rw [hrep.layout.contiguousReadLen_eq]
  omega

theorem Represents.readCopyLen_bounds (remaining : ℕ) : ring.readCopyLen remaining ≤ queue.length ∧
      ring.head + ring.readCopyLen remaining ≤ ring.capacity ∧
      ring.readCopyLen remaining ≤ pageSize - ring.head % pageSize := by
  have hhead := hrep.layout.head_lt
  unfold readCopyLen
  rw [hrep.layout.contiguousReadLen_eq]
  omega

theorem Represents.readSliceLoop_spec (target : ℕ)
    (dst : List UInt8) (htarget : target ≤ dst.length + queue.length) :
    (readSliceLoop target ring dst).2 = dst ++ queue.take (target - dst.length) ∧
      (readSliceLoop target ring dst).1.Represents (queue.drop (target - dst.length)) ∧
      (readSliceLoop target ring dst).1.settings = ring.settings := by
  induction ring, dst using readSliceLoop.induct target generalizing queue with
  | case1 ring dst hlt hzero =>
    have hpos := hrep.readCopyLen_pos (target - dst.length) (by omega) (by omega)
    omega
  | case2 ring dst hlt hne ih =>
    have hle : ring.readCopyLen (target - dst.length) ≤ target - dst.length := Nat.min_le_right _ _
    have hbounds := hrep.readCopyLen_bounds (target - dst.length)
    rw [PipeRingBuffer.readSliceLoop, if_pos hlt, if_neg hne]
    generalize ring.readCopyLen (target - dst.length) = copyLen at *
    have hmod : (ring.head + 0) % ring.capacity = ring.head := Nat.mod_eq_of_lt hrep.layout.head_lt
    have hchunk : storedSlice ring.pages ring.head copyLen = queue.take copyLen := by
      have hslice := hrep.storedSlice_head 0 copyLen (by omega) (by rw [hmod]; exact hbounds.2.1)
        (by rw [hmod]; exact hbounds.2.2)
      rw [hmod] at hslice
      simpa using hslice
    have hnext := hrep.advanceHead (Nat.pos_of_ne_zero hne) hbounds.1
    obtain ⟨hbytes, hrest, hsettings⟩ := ih hnext (by
      simp only [length_append, storedSlice_length, length_drop]
      omega)
    simp only [length_append, storedSlice_length] at hbytes hrest
    have hsplit : target - dst.length = copyLen + (target - (dst.length + copyLen)) := by omega
    refine ⟨?_, ?_, hsettings⟩
    · rw [hbytes, hchunk, hsplit, take_add, append_assoc]
    · rw [hsplit, ← drop_drop]
      exact hrest
  | case3 ring dst hge =>
    rw [PipeRingBuffer.readSliceLoop, if_neg hge]
    have hzero : target - dst.length = 0 := by omega
    simpa [hzero] using hrep

end

theorem drop_min_length (queue : List UInt8) (len : ℕ) :
    queue.drop (min len queue.length) = queue.drop len := by
  rcases Nat.le_total len queue.length with hle | hle
  · rw [Nat.min_eq_left hle]
  · rw [Nat.min_eq_right hle, drop_length, drop_eq_nil_of_le hle]

section

variable (hrep : ring.Represents queue)
include hrep

theorem Represents.readSlice_spec (len : ℕ) : (ring.readSlice len).2 = queue.take len ∧
      (ring.readSlice len).1.Represents (queue.drop len) ∧
      (ring.readSlice len).1.settings = ring.settings := by
  obtain ⟨hbytes, hrest, hsettings⟩ := hrep.readSliceLoop_spec (min len queue.length) [] (by simp)
  simp only [length_nil, Nat.sub_zero, nil_append] at hbytes hrest
  have htake : queue.take (min len queue.length) = queue.take len := by
    simp [take_eq_take_iff]
  rw [htake] at hbytes
  rw [drop_min_length] at hrest
  unfold PipeRingBuffer.readSlice
  rw [hrep.availableRead_eq]
  dsimp only
  split
  · exact ⟨hbytes, hrest.reclaimConsumedPages, by simpa using hsettings⟩
  · exact ⟨hbytes, hrest, hsettings⟩

theorem Represents.peekSliceLoop_spec {target cursor : ℕ} {dst : List UInt8}
    (htarget : target ≤ queue.length) (hcursor : cursor = (ring.head + dst.length) % ring.capacity)
    (hdst : dst = queue.take dst.length) (hle : dst.length ≤ target) :
    ring.peekSliceLoop target cursor dst = queue.take target := by
  induction cursor, dst using peekSliceLoop.induct ring target with
  | case1 cursor dst hlt hzero =>
    have hhead := hrep.layout.head_lt
    have hcursorLt := Nat.mod_lt (ring.head + dst.length) (show 0 < ring.capacity by omega)
    have hmod := Nat.mod_lt ((ring.head + dst.length) % ring.capacity)
      (show 0 < pageSize by simp [pageSize_eq])
    have heq := hrep.layout.peekCopyLen_eq dst.length (target - dst.length) (by omega) (by omega)
    dsimp only at heq
    rw [← hcursor] at heq hmod hcursorLt
    omega
  | case2 cursor dst hlt hne ih =>
    have hhead := hrep.layout.head_lt
    have hcopy := hrep.layout.peekCopyLen_eq dst.length (target - dst.length) (by omega) (by omega)
    dsimp only at hcopy
    rw [← hcursor] at hcopy
    have hcursorLt : cursor < ring.capacity := by
      rw [hcursor]
      exact Nat.mod_lt _ (by omega)
    rw [PipeRingBuffer.peekSliceLoop, if_pos hlt, if_neg hne]
    generalize ring.peekCopyLen cursor (target - dst.length) = copyLen at *
    have hchunk : storedSlice ring.pages cursor copyLen = (queue.drop dst.length).take copyLen := by
      rw [hcursor]
      apply hrep.storedSlice_head dst.length copyLen
      · omega
      · rw [← hcursor]
        omega
      · rw [← hcursor]
        omega
    apply ih
    · rw [hcursor, length_append, storedSlice_length, Nat.mod_add_mod, Nat.add_assoc]
    · rw [length_append, storedSlice_length, take_add, ← hdst, ← hchunk]
    · rw [length_append, storedSlice_length]
      omega
  | case3 cursor dst hge =>
    rw [PipeRingBuffer.peekSliceLoop, if_neg hge]
    have hlen : dst.length = target := by omega
    rw [hdst, hlen]

theorem Represents.peekSlice_eq (len : ℕ) : ring.peekSlice len = queue.take len := by
  unfold PipeRingBuffer.peekSlice
  rw [hrep.availableRead_eq, hrep.peekSliceLoop_spec (by simp) (by
    simp [Nat.mod_eq_of_lt hrep.layout.head_lt]) (by simp) (by simp)]
  simp [take_eq_take_iff]

theorem Represents.discardSlice_spec (len : ℕ) : (ring.discardSlice len).2 = min len queue.length ∧
      (ring.discardSlice len).1.Represents (queue.drop len) ∧
      (ring.discardSlice len).1.settings = ring.settings := by
  unfold PipeRingBuffer.discardSlice
  rw [hrep.availableRead_eq]
  dsimp only
  split
  · next hpos =>
      have hne : min len queue.length ≠ 0 := by omega
      have hnext := hrep.advanceHead hpos (Nat.min_le_right _ _)
      rw [if_neg hne]
      refine ⟨rfl, ?_, ?_⟩
      · rw [← drop_min_length]
        exact hnext.reclaimConsumedPages
      · rw [reclaimConsumedPages_settings]
        rfl
  · next hzero =>
      have hnone : min len queue.length = 0 := by omega
      have hsame : queue.drop len = queue := by
        rcases Nat.eq_zero_or_pos len with hlen | hlen
        · simp [hlen]
        · have hnil : queue = [] := by
            apply length_eq_zero_iff.mp
            omega
          simp [hnil]
      rw [hnone, hsame]
      simp only [Nat.add_zero, Nat.mod_eq_of_lt hrep.layout.head_lt, if_true]
      exact ⟨trivial, hrep, trivial⟩

end

/-! ## Writing -/

section

variable (hrep : ring.Represents queue)
include hrep

theorem Represents.writeCopyLen_bounds (remaining : ℕ) :
    ring.writeCopyLen remaining ≤ ring.capacity - queue.length ∧
      ring.tail + ring.writeCopyLen remaining ≤ ring.capacity ∧
      ring.writeCopyLen remaining ≤ pageSize - ring.tail % pageSize := by
  have hhead := hrep.layout.head_lt
  have hcount := hrep.layout.count_le
  have htail := hrep.layout.tail_cases
  unfold writeCopyLen
  rw [hrep.layout.contiguousWriteLen_eq]
  omega

theorem Represents.writeCopyLen_pos (remaining : ℕ) (hpos : 0 < remaining)
    (hremaining : remaining ≤ ring.capacity - queue.length) : 0 < ring.writeCopyLen remaining := by
  have hhead := hrep.layout.head_lt
  have hcount := hrep.layout.count_le
  have htail := hrep.layout.tail_cases
  have hmod := Nat.mod_lt ring.tail (show 0 < pageSize by simp [pageSize_eq])
  unfold writeCopyLen
  rw [hrep.layout.contiguousWriteLen_eq]
  omega

theorem Represents.storeAtTail_spec (chunk : List UInt8)
    (hpos : 0 < chunk.length) (hfree : chunk.length ≤ ring.capacity - queue.length)
    (hcontiguous : ring.tail + chunk.length ≤ ring.capacity)
    (hpage : chunk.length ≤ pageSize - ring.tail % pageSize) :
    ∃ ring', ring.storeAtTail chunk = some ring' ∧ ring'.Represents (queue ++ chunk) ∧
        ring'.settings = ring.settings := by
  have hhead := hrep.layout.head_lt
  have hcount := hrep.layout.count_le
  have htail := hrep.layout.tail_cases
  obtain ⟨pages, hpages, hstored⟩ :=
    writeStoredSlice_spec ring.pages chunk (show ring.tail < ring.capacity by omega) hpage
  refine ⟨{ ring with
      pages := pages
      tail := (ring.tail + chunk.length) % ring.capacity
      status :=
        if (ring.tail + chunk.length) % ring.capacity = ring.head then .full
        else .normal }, by rw [storeAtTail, hpages]; rfl, ⟨?_, ?_⟩, rfl⟩
  · have hmoved : (ring.tail + chunk.length) % ring.capacity =
        (ring.head + (queue ++ chunk).length) % ring.capacity := by
      rw [hrep.layout.tail_eq, Nat.mod_add_mod, length_append, Nat.add_assoc]
    have hmovedCases := add_mod_of_lt (queue ++ chunk).length
      hhead (by rw [length_append]; omega)
    have hmeet : (ring.tail + chunk.length) % ring.capacity = ring.head ↔
        (queue ++ chunk).length = ring.capacity := by
      rw [hmoved]
      rw [length_append] at hmovedCases ⊢
      split at hmovedCases <;> omega
    refine ⟨hhead, by rw [length_append]; dsimp only; omega, hmoved, ?_, ?_⟩
    · dsimp only
      have hne : (queue ++ chunk).length ≠ 0 := by
        rw [length_append]
        omega
      constructor
      · intro hempty
        split at hempty <;> cases hempty
      · intro hzero
        exact absurd hzero hne
    · dsimp only
      rw [← hmeet]
      split
      · next heq => simp [heq]
      · next hne => simp [hne]
  · dsimp only
    rw [length_append, view_add, ← hrep.layout.tail_eq]
    congr 1
    · refine Eq.trans ?_ hrep.view_eq
      apply view_congr
      intro index hindex
      have hoffset := add_mod_of_lt index hhead (by omega)
      rw [hstored, if_neg]
      split at hoffset <;> omega
    · rw [view_of_contiguous _ hcontiguous]
      apply ext_getElem
      · simp
      · intro index hleft hright
        simp only [getElem_map, getElem_range]
        rw [hstored, if_pos (by omega), Nat.add_sub_cancel_left]
        simp [getD_eq_getElem?_getD, getElem?_eq_getElem hright]

theorem Represents.writeSliceLoop_spec (src : List UInt8)
    (target copied : ℕ) (hcopied : copied ≤ target) (htarget : target ≤ src.length)
    (hfree : target - copied ≤ ring.capacity - queue.length) :
    ∃ ring', writeSliceLoop src target ring copied = some (ring', target) ∧
        ring'.Represents (queue ++ (src.drop copied).take (target - copied)) ∧
        ring'.settings = ring.settings := by
  induction ring, copied using writeSliceLoop.induct target generalizing queue with
  | case1 ring copied hlt hzero =>
    have hpos := hrep.writeCopyLen_pos (target - copied) (by omega) hfree
    omega
  | case2 ring copied hlt hne ih =>
    have hle : ring.writeCopyLen (target - copied) ≤ target - copied := Nat.min_le_right _ _
    have hbounds := hrep.writeCopyLen_bounds (target - copied)
    rw [PipeRingBuffer.writeSliceLoop, if_pos hlt, if_neg hne]
    generalize ring.writeCopyLen (target - copied) = copyLen at *
    have hlen : ((src.drop copied).take copyLen).length = copyLen := by
      rw [length_take, length_drop]
      omega
    obtain ⟨ring₁, hstore, hrep₁, hsettings₁⟩ :=
      hrep.storeAtTail_spec ((src.drop copied).take copyLen)
        (by omega) (by omega) (by omega) (by omega)
    have hcapacity : ring₁.capacity = ring.capacity := congrArg Prod.fst hsettings₁
    obtain ⟨ring₂, hloop, hrep₂, hsettings₂⟩ := ih ring₁ hrep₁ (by omega) (by
        rw [hcapacity, length_append, hlen]
        omega)
    refine ⟨ring₂, by rw [hstore]; exact hloop, ?_, hsettings₂.trans hsettings₁⟩
    have hsplit : target - copied = copyLen + (target - (copied + copyLen)) := by omega
    rw [hsplit, take_add, drop_drop, ← append_assoc]
    exact hrep₂
  | case3 ring copied hge =>
    rw [PipeRingBuffer.writeSliceLoop, if_neg hge]
    have heq : copied = target := by omega
    subst heq
    exact ⟨ring, rfl, by simpa using hrep, rfl⟩

theorem Represents.writeSlice_spec (src : List UInt8) : ∃ ring', ring.writeSlice src =
          some (ring', min src.length (ring.capacity - queue.length)) ∧
        ring'.Represents (queue ++ src.take (ring.capacity - queue.length)) ∧
        ring'.settings = ring.settings := by
  unfold PipeRingBuffer.writeSlice
  split
  · next hempty =>
      have hnil : src = [] := isEmpty_iff.mp hempty
      subst hnil
      exact ⟨ring, by simp, by simpa using hrep, rfl⟩
  · rw [hrep.availableWrite_eq]
    obtain ⟨ring', hloop, hrep', hsettings⟩ := hrep.writeSliceLoop_spec src
        (min src.length (ring.capacity - queue.length)) 0
        (by omega) (by omega) (by omega)
    refine ⟨ring', hloop, ?_, hsettings⟩
    have htake : src.take (min src.length (ring.capacity - queue.length)) =
        src.take (ring.capacity - queue.length) := by
      rw [take_eq_take_iff]
      omega
    rw [← htake]
    simpa using hrep'

end

theorem resizePages_spec (ring : PipeRingBuffer) (newCapacity count : ℕ)
    (hcapacity : count ≤ newCapacity) :
    ∃ pages, ring.resizePages newCapacity count = some pages ∧ ∀ idx, idx < count →
          storedByte pages idx = storedByte ring.pages ((ring.head + idx) % ring.capacity) := by
  induction count with
  | zero => exact ⟨[], rfl, by intro idx hidx; omega⟩
  | succ count ih =>
    obtain ⟨pages, hpages, hsame⟩ := ih (by omega)
    obtain ⟨pages', hwrite, hstored⟩ := writeStoredByteTo_spec pages
        (ring.readStoredByte ((ring.head + count) % ring.capacity))
        (show count < newCapacity by omega)
    refine ⟨pages', by rw [resizePages, hpages]; exact hwrite, ?_⟩
    intro idx hidx
    rw [hstored]
    split
    · next heq =>
        subst heq
        rfl
    · exact hsame idx (by omega)

theorem Represents.resize_spec (hrep : ring.Represents queue) {newCapacity : ℕ}
    (hpos : 0 < newCapacity) :
    if newCapacity < queue.length then
      ring.resize newCapacity = some (ring, .error .ebusy)
    else
      ∃ ring', ring.resize newCapacity = some (ring', .ok 0) ∧ ring'.Represents queue ∧
          ring'.settings = (newCapacity, ring.readEndOpen, ring.writeEndOpen) := by
  unfold PipeRingBuffer.resize
  rw [hrep.availableRead_eq]
  dsimp only
  split
  · rfl
  · next hfit =>
      rw [if_neg (by omega)]
      obtain ⟨pages, hpages, hsame⟩ := ring.resizePages_spec newCapacity queue.length (by omega)
      refine ⟨_, by rw [hpages]; rfl, ⟨?_, ?_⟩, rfl⟩
      · refine ⟨hpos, by dsimp only; omega, by simp, ?_, ?_⟩
        · dsimp only
          split
          · next hzero => simp [hzero]
          · next hne => split <;> simp [hne]
        · dsimp only
          split
          · next hzero => simp [hzero]; omega
          · split
            · next hall => simp [hall]
            · next hnall => simp [hnall]
      · dsimp only
        refine Eq.trans ?_ hrep.view_eq
        rw [view_of_contiguous _ (by omega)]
        unfold view
        apply map_congr_left
        intro idx hidx
        rw [Nat.zero_add]
        exact hsame idx (mem_range.mp hidx)

theorem Represents.closeReadEnd_spec (hrep : ring.Represents queue) :
    ring.closeReadEnd.Represents [] ∧
      ring.closeReadEnd.settings = (ring.capacity, false, ring.writeEndOpen) := by
  have hhead := hrep.layout.head_lt
  have htail : ring.tail < ring.capacity := by
    rw [hrep.layout.tail_eq]
    exact Nat.mod_lt _ (by omega)
  constructor
  · apply Represents.reclaimConsumedPages
    refine ⟨⟨htail, Nat.zero_le _, ?_, by simp, ?_⟩, rfl⟩
    · exact (Nat.mod_eq_of_lt htail).symm
    · simp only [length_nil, reduceCtorEq, false_iff]
      omega
  · unfold closeReadEnd
    rw [reclaimConsumedPages_settings]
    rfl

end PipeRingBuffer

open PipeRingBuffer

section

variable {input output : PipeRingBuffer} {inQueue outQueue : List UInt8}
  (hin : input.Represents inQueue) (hout : output.Represents outQueue)
include hin hout

theorem transferLoop_spec (target total : ℕ) (htotal : total ≤ target)
    (hdata : target - total ≤ inQueue.length)
    (hspace : target - total ≤ output.capacity - outQueue.length) :
    ∃ input' output', transferLoop target input output total = some (input', output', target) ∧
        input'.Represents (inQueue.drop (target - total)) ∧
        input'.settings = input.settings ∧
        output'.Represents (outQueue ++ inQueue.take (target - total)) ∧
        output'.settings = output.settings := by
  induction input, output, total using transferLoop.induct target generalizing inQueue outQueue with
  | case1 input output total hlt hzero =>
    have hpage : 0 < pageSize := by simp [pageSize_eq]
    rw [transferPeek, hin.peekSlice_eq, length_take] at hzero
    omega
  | case2 input output total hlt hne ih =>
    rw [transferLoop, if_pos hlt, if_neg hne]
    have hpeek : transferPeek input (target - total) =
        inQueue.take (min (target - total) pageSize) := hin.peekSlice_eq _
    have hchunk : min (target - total) pageSize ≤ target - total := Nat.min_le_left _ _
    generalize min (target - total) pageSize = chunk at *
    generalize transferPeek input (target - total) = peeked at *
    have hlen : peeked.length = chunk := by
      rw [hpeek, length_take]
      omega
    obtain ⟨output₁, hwrite, hout₁, houtSettings⟩ := hout.writeSlice_spec peeked
    rw [hlen, Nat.min_eq_left (by omega)] at hwrite
    rw [take_of_length_le (by omega)] at hout₁
    obtain ⟨hdropped, hin₁, hinSettings⟩ := hin.discardSlice_spec chunk
    rw [Nat.min_eq_left (by omega)] at hdropped
    have hcapacity : output₁.capacity = output.capacity := congrArg Prod.fst houtSettings
    obtain ⟨input₂, output₂, hloop, hin₂, hin₂Settings, hout₂, hout₂Settings⟩ :=
      ih (output₁, chunk) (by dsimp only; omega) hin₁ hout₁ (by dsimp only; omega)
        (by dsimp only; rw [length_drop]; omega)
        (by
          dsimp only
          rw [hcapacity, length_append]
          omega)
    have hsplit : target - total = chunk + (target - (total + chunk)) := by omega
    refine ⟨input₂, output₂, ?_, ?_, hin₂Settings.trans hinSettings, ?_,
      hout₂Settings.trans houtSettings⟩
    · rw [hwrite]
      dsimp only [Option.bind_some]
      rw [if_neg (by omega)]
      exact hloop
    · dsimp only at hin₂
      rw [hdropped, drop_drop, ← hsplit] at hin₂
      exact hin₂
    · dsimp only at hout₂
      rw [hdropped, append_assoc, hpeek, ← take_add, ← hsplit] at hout₂
      exact hout₂
  | case3 input output total hge =>
    have heq : total = target := by omega
    subst heq
    rw [transferLoop, if_neg hge]
    exact ⟨input, output, rfl, by simpa using hin, rfl, by simpa using hout, rfl⟩

theorem transferLocked_spec (hopen : output.readEndOpen = true) (len : ℕ) :
    let moved := min (min len inQueue.length) (output.capacity - outQueue.length)
    ∃ input' output', transferLocked input output len = some (input', output', .ok moved) ∧
        input'.Represents (inQueue.drop moved) ∧
        input'.settings = input.settings ∧
        output'.Represents (outQueue ++ inQueue.take moved) ∧
        output'.settings = output.settings := by
  intro moved
  obtain ⟨input', output', hloop, hin', hinSettings, hout', houtSettings⟩ :=
    transferLoop_spec hin hout moved 0 (by omega) (by omega) (by omega)
  refine ⟨input', output', ?_, hin', hinSettings, hout', houtSettings⟩
  unfold transferLocked allReadEndsClosed
  rw [hin.availableRead_eq, hout.availableWrite_eq]
  simp only [hopen, Bool.not_true, Bool.false_eq_true, if_false]
  change (transferLoop moved input output 0).map _ = _
  rw [hloop]
  rfl

end

end Kairix.Pipe
