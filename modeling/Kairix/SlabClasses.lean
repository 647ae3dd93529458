import Kairix.LinkedCells
import Kairix.SlabHeap

/-!
# Spans and size classes

A formed span has its header fields as they were initialised, and its free
count is the number of set bits of its bitmap.  The two operations on a span
move one slot between free and used; the operations on a size class find the
span, keep the list and count the spans which are entirely free.
-/

namespace Kairix.KernelHeap

open WordBitmap LinkedCells Function HeapSlabClass List

def slotOffset (cls : ℕ) : ℕ :=
  (heapSlabHeaderSize + heapSlabClassSize cls - 1) / heapSlabClassSize cls * heapSlabClassSize cls

def slotsOfClass (cls : ℕ) : ℕ :=
  (heapSlabSpanSize - slotOffset cls) / heapSlabClassSize cls

def slotAddress (base cls slot : ℕ) : ℕ :=
  base + slotOffset cls + slot * heapSlabClassSize cls

variable {cls : ℕ}

theorem slotOffset_bounds (hcls : cls < heapSlabClassCount) : heapSlabHeaderSize ≤ slotOffset cls ∧
      slotOffset cls + slotsOfClass cls * heapSlabClassSize cls ≤ heapSlabSpanSize ∧
      0 < slotsOfClass cls ∧ slotsOfClass cls ≤ heapSlabMaxSlots ∧
      heapSlabClassSize cls ∣ heapSlabSpanSize := by
  have hcount : heapSlabClassCount = 9 := rfl
  rw [hcount] at hcls
  interval_cases cls <;> decide

theorem heapSlabClassSize_pos (cls : ℕ) : 0 < heapSlabClassSize cls :=
  Nat.mul_pos (by decide) (Nat.two_pow_pos cls)

theorem classSize_dvd_slotOffset (cls : ℕ) : heapSlabClassSize cls ∣ slotOffset cls :=
  Dvd.intro_left _ rfl

variable {base : ℕ}

theorem slotStart_eq (hbase : heapSlabSpanSize ∣ base) (hcls : cls < heapSlabClassCount) :
    (base + heapSlabHeaderSize + heapSlabClassSize cls - 1) / heapSlabClassSize cls *
        heapSlabClassSize cls = base + slotOffset cls := by
  have hpos := heapSlabClassSize_pos cls
  have hheader : heapSlabHeaderSize = 576 := rfl
  obtain ⟨index, rfl⟩ := (slotOffset_bounds hcls).2.2.2.2.trans hbase
  have hsum : heapSlabClassSize cls * index + heapSlabHeaderSize + heapSlabClassSize cls - 1 =
      heapSlabHeaderSize + heapSlabClassSize cls - 1 + heapSlabClassSize cls * index := by
    omega
  rw [hsum, Nat.add_mul_div_left _ _ hpos, Nat.add_mul, slotOffset]
  ring

variable {slot : ℕ}

theorem slotAddress_inside (base : ℕ) (hcls : cls < heapSlabClassCount)
    (hslot : slot < slotsOfClass cls) :
    base + heapSlabHeaderSize ≤ slotAddress base cls slot ∧
      slotAddress base cls slot + heapSlabClassSize cls ≤ base + heapSlabSpanSize := by
  obtain ⟨hheader, hfits, -⟩ := slotOffset_bounds hcls
  have hslots : (slot + 1) * heapSlabClassSize cls ≤
      slotsOfClass cls * heapSlabClassSize cls := Nat.mul_le_mul_right _ hslot
  rw [Nat.add_mul, Nat.one_mul] at hslots
  unfold slotAddress
  omega

theorem heapSlabSpanBase_of_mem {byte : ℕ} (hbase : heapSlabSpanSize ∣ base)
    (hbyte : byte ∈ Set.Ico base (base + heapSlabSpanSize)) : heapSlabSpanBase byte = base := by
  obtain ⟨index, rfl⟩ := hbase
  obtain ⟨hlow, hhigh⟩ := hbyte
  have hdiv : byte / heapSlabSpanSize = index := by
    refine Nat.div_eq_of_lt_le ?_ ?_
    · rwa [Nat.mul_comm]
    · rwa [Nat.add_mul, Nat.one_mul, Nat.mul_comm]
  rw [heapSlabSpanBase, hdiv, Nat.mul_comm]

theorem heapSlabSpanBase_slotAddress (hbase : heapSlabSpanSize ∣ base)
    (hcls : cls < heapSlabClassCount) (hslot : slot < slotsOfClass cls) :
    heapSlabSpanBase (slotAddress base cls slot) = base := by
  obtain ⟨hlow, hhigh⟩ := slotAddress_inside base hcls hslot
  have hpos := heapSlabClassSize_pos cls
  exact heapSlabSpanBase_of_mem hbase ⟨by omega, by omega⟩

theorem slotAddress_inj {first second : ℕ}
    (heq : slotAddress base cls first = slotAddress base cls second) : first = second := by
  unfold slotAddress at heq
  exact Nat.eq_of_mul_eq_mul_right (heapSlabClassSize_pos cls) (by omega)

def HeapSlabSpan.Counted (span : HeapSlabSpan) : Prop :=
  span.freeCount = (setBits span.freeBitmap heapSlabBitmapWords).card

structure Formed (span : HeapSlabSpan) (cpu cls base : ℕ) : Prop where
  magic : span.magic = heapSlabMagic
  owner : span.ownerCpu = cpu
  cls_eq : span.cls = cls
  start : span.slotStart = base + slotOffset cls
  count : span.slotCount = slotsOfClass cls
  free_count : span.Counted
  free_lt : ∀ slot, bit span.freeBitmap slot = true → slot < slotsOfClass cls

theorem wordBits_pos : 0 < wordBits := by decide

theorem slot_lt_bits (hcls : cls < heapSlabClassCount) (hslot : slot < slotsOfClass cls) :
    slot < heapSlabBitmapWords * wordBits := by
  have hmax := (slotOffset_bounds hcls).2.2.2.1
  have hbits : heapSlabMaxSlots = heapSlabBitmapWords * wordBits := by decide
  omega

theorem initializeHeapSlabSpan_formed (cpu : ℕ) (hbase : heapSlabSpanSize ∣ base)
    (hcls : cls < heapSlabClassCount) :
    ∃ span, initializeHeapSlabSpan base cpu cls = .ok span ∧ Formed span cpu cls base ∧
      span.isEmpty = true ∧
        ∀ slot, bit span.freeBitmap slot = decide (slot < slotsOfClass cls) := by
  obtain ⟨-, hfits, hpos, hmax, -⟩ := slotOffset_bounds hcls
  have hcount : (base + heapSlabSpanSize - (base + slotOffset cls)) / heapSlabClassSize cls =
      slotsOfClass cls := by
    rw [Nat.add_sub_add_left, slotsOfClass]
  have hbits : slotsOfClass cls ≤ heapSlabBitmapWords * wordBits := hmax
  refine ⟨⟨heapSlabMagic, cpu, cls, 0, base + slotOffset cls, slotsOfClass cls,
    slotsOfClass cls, 0, fill (slotsOfClass cls)⟩, ?_, ⟨rfl, rfl, rfl, rfl, rfl, ?_, ?_⟩, ?_, ?_⟩
  · unfold initializeHeapSlabSpan
    simp only [slotStart_eq hbase hcls, hcount]
    rw [if_neg (by omega)]
  · rw [HeapSlabSpan.Counted, setBits_fill wordBits_pos hbits, Finset.card_range]
  · intro slot hslot
    simpa [bit_fill wordBits_pos] using hslot
  · simp [HeapSlabSpan.isEmpty]
  · exact bit_fill wordBits_pos _

structure Takes (before after : HeapSlabSpan) (slot : ℕ) : Prop where
  next_eq : after.next = before.next
  free : bit before.freeBitmap slot = true
  bits : ∀ other, bit after.freeBitmap other =
    (decide (slot ≠ other) && bit before.freeBitmap other)
  count : after.freeCount + 1 = before.freeCount

variable {span : HeapSlabSpan}

theorem Formed.take {cpu : ℕ} (hformed : Formed span cpu cls base) (hfree : span.freeCount ≠ 0) :
    ∃ slot s', span.heapSlabTakeFromSpan = .ok (some (slotAddress base cls slot, s')) ∧
      Formed s' cpu cls base ∧ Takes span s' slot ∧ slot < slotsOfClass cls := by
  unfold HeapSlabSpan.heapSlabTakeFromSpan
  rw [if_neg hfree]
  cases hfind : findWord span.freeBitmap heapSlabBitmapWords span.bitmapHint with
  | none =>
    have hempty := setBits_eq_empty hfind
    rw [hformed.free_count, hempty] at hfree
    exact absurd rfl hfree
  | some word =>
    obtain ⟨hword, hnonzero⟩ := findWord_eq_some hfind
    have hfound := bit_found hword hnonzero
    have hbit := (Finset.mem_filter.mp hfound).2
    have hslot := hformed.free_lt _ hbit
    have hcard := Finset.card_erase_add_one hfound
    rw [← setBits_clearBit wordBits_pos, ← hformed.free_count] at hcard
    have hlt : ¬span.slotCount ≤ word * wordBits + lowestBit (span.freeBitmap word) := by
      rw [hformed.count]
      omega
    have hpointer : ∀ index, span.slotStart + index * heapSlabClassSize span.cls =
        slotAddress base cls index := by
      intro index
      rw [hformed.start, hformed.cls_eq, slotAddress]
    simp only [if_neg hlt, hpointer]
    refine ⟨_, _, rfl, ⟨hformed.magic, hformed.owner, hformed.cls_eq, hformed.start,
      hformed.count, ?_, ?_⟩, ⟨rfl, hbit, bit_clearBit wordBits_pos _ _, ?_⟩, hslot⟩
    · exact Nat.sub_eq_of_eq_add hcard.symm
    · intro slot hclear
      rw [bit_clearBit wordBits_pos, Bool.and_eq_true] at hclear
      exact hformed.free_lt slot hclear.2
    · exact Nat.sub_add_cancel (Nat.one_le_iff_ne_zero.mpr hfree)

theorem Formed.take_full (hfull : span.freeCount = 0) : span.heapSlabTakeFromSpan = .ok none := by
  rw [HeapSlabSpan.heapSlabTakeFromSpan, if_pos hfull]

structure Frees (before after : HeapSlabSpan) (slot : ℕ) : Prop where
  next_eq : after.next = before.next
  bits : ∀ other, bit after.freeBitmap other =
    (decide (slot = other) || bit before.freeBitmap other)
  count : after.freeCount = before.freeCount + 1

theorem Formed.giveBack {cpu : ℕ} (hformed : Formed span cpu cls base)
    (hcls : cls < heapSlabClassCount) (hslot : slot < slotsOfClass cls)
    (hused : bit span.freeBitmap slot = false) :
    ∃ s', span.giveBack (slotAddress base cls slot) = .ok s' ∧
      Formed s' cpu cls base ∧ Frees span s' slot := by
  have hpos := heapSlabClassSize_pos cls
  have hoffset : slotAddress base cls slot - span.slotStart = slot * heapSlabClassSize cls := by
    rw [hformed.start, slotAddress, Nat.add_sub_cancel_left]
  have hlow : ¬slotAddress base cls slot < span.slotStart := by
    rw [hformed.start, slotAddress]
    omega
  have hmod : ¬slot * heapSlabClassSize cls % heapSlabClassSize cls ≠ 0 :=
    not_not.mpr (Nat.mul_mod_left ..)
  have hcount : ¬span.slotCount ≤ slot := by
    rw [hformed.count]
    omega
  have hnotMem : slot ∉ setBits span.freeBitmap heapSlabBitmapWords := by
    intro hmem
    rw [(Finset.mem_filter.mp hmem).2] at hused
    simp at hused
  unfold HeapSlabSpan.giveBack
  simp only [hformed.cls_eq, hoffset, if_neg hlow, if_neg hmod, Nat.mul_div_cancel _ hpos,
    if_neg hcount, hused, Bool.false_eq_true, if_false]
  refine ⟨_, rfl, ⟨hformed.magic, hformed.owner, rfl, hformed.start, hformed.count, ?_, ?_⟩,
    ⟨rfl, bit_setBit wordBits_pos _ _, rfl⟩⟩
  · rw [HeapSlabSpan.Counted, setBits_setBit wordBits_pos _ (slot_lt_bits hcls hslot),
      Finset.card_insert_of_notMem hnotMem, hformed.free_count]
  · intro other hbit
    rw [bit_setBit wordBits_pos, Bool.or_eq_true, decide_eq_true_eq] at hbit
    rcases hbit with rfl | hbit
    · exact hslot
    · exact hformed.free_lt other hbit

/-! ## Size classes -/

structure ClassHolds (spans : SpanMemory) (cache : HeapSlabClass) (cpu cls : ℕ)
    (list : List ℕ) : Prop where
  chain : Chain (fun base => (spans base).next) 0 cache.head list
  nodup : list.Nodup
  formed : ∀ base ∈ list, Formed (spans base) cpu cls base
  span_count : cache.spanCount = list.length
  empty_count : cache.emptyCount = list.countP fun base => (spans base).isEmpty
  active : cache.active = 0 ∨ cache.active ∈ list

variable {spans : SpanMemory} {cache : HeapSlabClass} {cpu : ℕ} {list : List ℕ}
variable {s' : HeapSlabSpan}

theorem countP_change {κ : Type*} [DecidableEq κ] {members : List κ} {member : κ}
    (before s' : κ → Bool) (hnodup : members.Nodup) (hmember : member ∈ members)
    (hother : ∀ other ∈ members, other ≠ member → s' other = before other) :
    members.countP s' + (before member).toNat = members.countP before + (s' member).toNat := by
  have hperm := perm_cons_erase hmember
  have hrest : (members.erase member).countP s' = (members.erase member).countP before := by
    refine countP_congr fun other hmem => ?_
    rw [hother other (mem_of_mem_erase hmem) ?_]
    rintro rfl
    exact (hnodup.mem_erase_iff.mp hmem).1 rfl
  rw [hperm.countP_eq, hperm.countP_eq, countP_cons, countP_cons, hrest]
  cases before member <;> cases s' member <;> simp

theorem Formed.free_le (hformed : Formed s' cpu cls base) : s'.freeCount ≤ s'.slotCount := by
  rw [hformed.free_count, hformed.count]
  calc (setBits s'.freeBitmap heapSlabBitmapWords).card
      ≤ (Finset.range (slotsOfClass cls)).card := Finset.card_le_card fun slot hslot =>
        Finset.mem_range.mpr (hformed.free_lt slot (Finset.mem_filter.mp hslot).2)
    _ = slotsOfClass cls := Finset.card_range _

theorem ClassHolds.update (hclass : ClassHolds spans cache cpu cls list) (hbase : base ∈ list)
    (hnext : s'.next = (spans base).next) (hformed : Formed s' cpu cls base)
    {active emptyCount : ℕ} (hactive : active = 0 ∨ active ∈ list)
    (hcount : emptyCount + (spans base).isEmpty.toNat = cache.emptyCount + s'.isEmpty.toNat) :
    ClassHolds (update spans base s')
      { cache with active := active, emptyCount := emptyCount } cpu cls list where
  chain := by
    refine hclass.chain.congr fun other _ => ?_
    by_cases heq : other = base
    · subst other
      rw [update_self, hnext]
    · rw [update_of_ne heq]
  nodup := hclass.nodup
  formed := by
    intro other hother
    by_cases heq : other = base
    · subst other
      rwa [update_self]
    · rw [update_of_ne heq]
      exact hclass.formed other hother
  span_count := hclass.span_count
  empty_count := by
    have hchange := countP_change (fun other => (spans other).isEmpty)
      (fun other => (Function.update spans base s' other).isEmpty) hclass.nodup hbase
      fun other _ hne => by
        simp only [update_of_ne hne]
    simp only [update_self, ← hclass.empty_count] at hchange
    simp only
    omega
  active := hactive

variable {before : HeapSlabSpan}

theorem Formed.not_isEmpty (hformed : Formed s' cpu cls base) (hbefore : Formed before cpu cls base)
    (hlt : s'.freeCount < before.freeCount) : s'.isEmpty = false := by
  have hle := hbefore.free_le
  have hslots : s'.slotCount = before.slotCount := by rw [hformed.count, hbefore.count]
  simp only [HeapSlabSpan.isEmpty, decide_eq_false_iff_not]
  omega

theorem ClassHolds.emptyCount_pos (hclass : ClassHolds spans cache cpu cls list)
    (hbase : base ∈ list) (hempty : (spans base).isEmpty = true) : 0 < cache.emptyCount := by
  rw [hclass.empty_count]
  exact countP_pos_iff.mpr ⟨base, hbase, hempty⟩

theorem ClassHolds.taken (hclass : ClassHolds spans cache cpu cls list) (hbase : base ∈ list)
    (hformed : Formed s' cpu cls base) (htakes : Takes (spans base) s' slot) :
    ClassHolds (Function.update spans base s')
      { cache.noteTaken (spans base).isEmpty with active := base } cpu cls list := by
  refine hclass.update hbase htakes.next_eq hformed (.inr hbase) ?_
  rw [hformed.not_isEmpty (hclass.formed base hbase) htakes.count.le]
  simp only [noteTaken]
  cases hempty : (spans base).isEmpty with
  | true =>
    have hpos := hclass.emptyCount_pos hbase hempty
    simp only [if_true, Bool.toNat_true, Bool.toNat_false]
    omega
  | false => simp

structure Taken (spans : SpanMemory) (cache : HeapSlabClass) (cpu cls base slot : ℕ)
    (after : HeapSlabSpan)
    (run : Except SlabPanic (Option ℕ × SpanMemory × HeapSlabClass)) : Prop where
  run_eq : run = .ok (some (slotAddress base cls slot), update spans base after,
    { cache.noteTaken (spans base).isEmpty with active := base })
  formed : Formed after cpu cls base
  takes : Takes (spans base) after slot
  slot_lt : slot < slotsOfClass cls

variable {current : ℕ} {rest : List ℕ}

theorem takeFromList_outcome (cache : HeapSlabClass) {fuel : ℕ}
    (hchain : Chain (fun base => (spans base).next) 0 current rest)
    (hformed : ∀ base ∈ rest, Formed (spans base) cpu cls base) (hfuel : rest.length < fuel) :
    takeFromList spans cache fuel current = .ok (none, spans, cache) ∧
        (∀ base ∈ rest, (spans base).freeCount = 0) ∨
      ∃ base ∈ rest, ∃ slot s',
        Taken spans cache cpu cls base slot s' (takeFromList spans cache fuel current) := by
  induction rest generalizing fuel current with
  | nil =>
    obtain ⟨fuel, rfl⟩ := Nat.exists_eq_add_one.mpr (Nat.zero_lt_of_lt hfuel)
    have hend : current = 0 := hchain
    refine .inl ⟨?_, by simp⟩
    rw [takeFromList, if_pos hend]
  | cons first rest ih =>
    obtain ⟨fuel, rfl⟩ := Nat.exists_eq_add_one.mpr (Nat.zero_lt_of_lt hfuel)
    obtain ⟨rfl, hne, hrest⟩ := hchain
    have hfirst := hformed current mem_cons_self
    have hmagic : ¬(spans current).magic ≠ heapSlabMagic := not_not.mpr hfirst.magic
    by_cases hfull : (spans current).freeCount = 0
    · have hstep : takeFromList spans cache (fuel + 1) current =
          takeFromList spans cache fuel (spans current).next := by
        rw [takeFromList, if_neg hne, if_neg hmagic, Formed.take_full hfull]
      rw [hstep]
      rcases ih hrest (fun base hbase => hformed base (mem_cons_of_mem _ hbase))
        (by simpa using hfuel) with ⟨hnone, hall⟩ | ⟨base, hbase, htaken⟩
      · refine .inl ⟨hnone, fun base hbase => ?_⟩
        rcases mem_cons.mp hbase with rfl | hbase
        · exact hfull
        · exact hall base hbase
      · exact .inr ⟨base, mem_cons_of_mem _ hbase, htaken⟩
    · obtain ⟨slot, s', htake, hafter, htakes, hslot⟩ := hfirst.take hfull
      refine .inr ⟨current, mem_cons_self, slot, s', ?_, hafter, htakes, hslot⟩
      rw [takeFromList, if_neg hne, if_neg hmagic, htake]

theorem takeFromClass_active (hactive : cache.active = base) (hbase : base ≠ 0)
    (hformed : Formed (spans base) cpu cls base) (hfree : (spans base).freeCount ≠ 0) :
    ∃ slot s', Taken spans cache cpu cls base slot s' (cache.heapSlabTakeFromClass spans) := by
  obtain ⟨slot, s', htake, hafter, htakes, hslot⟩ := hformed.take hfree
  refine ⟨slot, s', ?_, hafter, htakes, hslot⟩
  rw [heapSlabTakeFromClass, hactive, if_neg hbase, htake, ← hactive]
  rfl

section

variable (hclass : ClassHolds spans cache cpu cls list)
include hclass

theorem ClassHolds.take :
    cache.heapSlabTakeFromClass spans = .ok (none, spans, { cache with active := 0 }) ∨
      ∃ base ∈ list, ∃ slot s',
        Taken spans cache cpu cls base slot s' (cache.heapSlabTakeFromClass spans) := by
  have hfuel : list.length < cache.spanCount + 1 := by
    rw [hclass.span_count]
    exact Nat.lt_succ_self _
  by_cases hactive : cache.active = 0
  · have hcache : { cache with active := 0 } = cache := by rw [← hactive]
    rw [heapSlabTakeFromClass, if_pos hactive, hcache]
    exact (takeFromList_outcome cache hclass.chain hclass.formed hfuel).imp_left And.left
  · have hmem := hclass.active.resolve_left hactive
    have hformed := hclass.formed _ hmem
    by_cases hfull : (spans cache.active).freeCount = 0
    · rw [heapSlabTakeFromClass, if_neg hactive, Formed.take_full hfull]
      rcases takeFromList_outcome { cache with active := 0 } hclass.chain
        hclass.formed hfuel with ⟨hnone, -⟩ | ⟨base, hbase, slot, s', htaken⟩
      · exact .inl hnone
      · exact .inr ⟨base, hbase, slot, s', htaken.run_eq, htaken.formed, htaken.takes,
          htaken.slot_lt⟩
    · obtain ⟨slot, s', htaken⟩ := takeFromClass_active rfl hactive hformed hfull
      exact .inr ⟨cache.active, hmem, slot, s', htaken⟩

theorem ClassHolds.insert {address : ℕ} (hfresh : address ∉ list) (haddress : address ≠ 0)
    (hformed : Formed s' cpu cls address) (hempty : s'.isEmpty = true) :
    ClassHolds (heapSlabInsert (Function.update spans address s') cache address).1
      (heapSlabInsert (Function.update spans address s') cache address).2 cpu cls
      (address :: list) := by
  simp only [heapSlabInsert, Function.update_self, Function.update_idem]
  have hother : ∀ other ∈ list, Function.update spans address
      { s' with next := cache.head } other = spans other := by
    intro other hmem
    refine update_of_ne ?_ ..
    rintro rfl
    exact hfresh hmem
  refine ⟨⟨rfl, haddress, ?_⟩, nodup_cons.mpr ⟨hfresh, hclass.nodup⟩, ?_, ?_, ?_,
    .inr mem_cons_self⟩
  · simp only [update_self]
    exact hclass.chain.congr fun other hmem => by simp only [hother other hmem]
  · intro other hmem
    rcases mem_cons.mp hmem with rfl | hmem
    · rw [Function.update_self]
      exact { hformed with }
    · rw [hother other hmem]
      exact hclass.formed other hmem
  · rw [length_cons, hclass.span_count]
  · have hcount : list.countP (fun other => (Function.update spans address
        { s' with next := cache.head } other).isEmpty) =
          list.countP fun other => (spans other).isEmpty :=
      countP_congr fun other hmem => by rw [hother other hmem]
    have hhead : HeapSlabSpan.isEmpty { s' with next := cache.head } = true := hempty
    rw [countP_cons, hcount, update_self, hhead, if_pos rfl, ← hclass.empty_count]

theorem ClassHolds.refill (hcls : cls < heapSlabClassCount) {address : ℕ} (hfresh : address ∉ list)
    (haddress : address ≠ 0) (hdvd : heapSlabSpanSize ∣ address) :
    ∃ slot spansAfter cacheAfter, cache.refill spans address cpu cls =
        .ok (slotAddress address cls slot, spansAfter, cacheAfter) ∧
      ClassHolds spansAfter cacheAfter cpu cls (address :: list) ∧
      cacheAfter.emptyCount = cache.emptyCount ∧ slot < slotsOfClass cls ∧
      (∀ other, other ≠ address → spansAfter other = spans other) ∧
      ∀ other, bit (spansAfter address).freeBitmap other =
        (decide (slot ≠ other) && decide (other < slotsOfClass cls)) := by
  obtain ⟨span, hinit, hformed, hempty, hbits⟩ := initializeHeapSlabSpan_formed cpu hdvd hcls
  have hinserted := hclass.insert hfresh haddress hformed hempty
  simp only [heapSlabInsert, update_self, update_idem] at hinserted
  have hfree : span.freeCount ≠ 0 := by
    have hcount : span.freeCount = span.slotCount := by
      simpa [HeapSlabSpan.isEmpty] using hempty
    rw [hcount, hformed.count]
    exact (slotOffset_bounds hcls).2.2.1.ne'
  have hlinked := hinserted.formed address mem_cons_self
  have hactive : HeapSlabClass.active ⟨address, address, cache.spanCount + 1,
      cache.emptyCount + 1⟩ = address := rfl
  obtain ⟨slot, s', htaken⟩ := takeFromClass_active hactive haddress hlinked
    (by simpa only [update_self] using hfree)
  have htakes := htaken.takes
  simp only [Function.update_self] at htakes
  refine ⟨slot, _, _, ?_, hinserted.taken mem_cons_self htaken.formed htaken.takes, ?_,
    htaken.slot_lt, ?_, ?_⟩
  · have hrun := htaken.run_eq
    simp only [HeapSlabClass.refill, hinit, heapSlabInsert, update_self, update_idem, hrun]
  · simp only [noteTaken, update_self]
    have hhead : HeapSlabSpan.isEmpty { span with next := cache.head } = true := hempty
    rw [hhead, if_pos rfl, Nat.add_sub_cancel]
  · intro other hne
    rw [update_of_ne hne, update_of_ne hne]
  · intro other
    rw [update_self, htakes.bits other]
    exact congrArg _ (hbits other)

end

/-! ## Removing a span -/

def Relinked (before after : HeapSlabSpan) : Prop :=
  ∃ link, after = { before with next := link }

theorem Relinked.refl (span : HeapSlabSpan) : Relinked span span := ⟨span.next, rfl⟩

theorem Relinked.trans {first second third : HeapSlabSpan} (hfirst : Relinked first second)
    (hsecond : Relinked second third) : Relinked first third := by
  obtain ⟨link, rfl⟩ := hfirst
  obtain ⟨last, rfl⟩ := hsecond
  exact ⟨last, rfl⟩

theorem Relinked.formed {s' : HeapSlabSpan} (hlinked : Relinked before s')
    (hformed : Formed before cpu cls base) : Formed s' cpu cls base := by
  obtain ⟨link, rfl⟩ := hlinked
  exact { hformed with }

theorem Relinked.isEmpty_eq {s' : HeapSlabSpan} (hlinked : Relinked before s') :
    s'.isEmpty = before.isEmpty := by
  obtain ⟨link, rfl⟩ := hlinked
  rfl

variable {previous : ℕ}

theorem removeFrom_eq {before : List ℕ} {fuel : ℕ}
    (hchain : Chain (fun other => (spans other).next) 0 current (before ++ base :: rest))
    (hbefore : base ∉ before) (hfuel : before.length < fuel) :
    removeFrom spans cache base fuel previous current =
      .ok (unlink spans cache (before.getLastD previous) base) := by
  induction before generalizing fuel previous current with
  | nil =>
    obtain ⟨fuel, rfl⟩ := Nat.exists_eq_add_one.mpr (Nat.zero_lt_of_lt hfuel)
    obtain ⟨rfl, hne, -⟩ := hchain
    rw [removeFrom, if_neg hne, if_pos rfl]
    rfl
  | cons first before ih =>
    obtain ⟨fuel, rfl⟩ := Nat.exists_eq_add_one.mpr (Nat.zero_lt_of_lt hfuel)
    obtain ⟨rfl, hne, hrest⟩ := hchain
    rw [mem_cons, not_or] at hbefore
    rw [removeFrom, if_neg hne, if_neg (Ne.symm hbefore.1),
      ih hrest hbefore.2 (by simpa using hfuel), getLastD_cons]

theorem unlink_relinked (previous current other : ℕ) :
    Relinked (spans other) ((unlink spans cache previous current).1 other) := by
  have hfirst : Relinked (spans other) ((if previous = 0 then spans
      else update spans previous { spans previous with next := (spans current).next }) other) := by
    split
    · exact Relinked.refl _
    · by_cases heq : other = previous
      · subst other
        rw [update_self]
        exact ⟨_, rfl⟩
      · rw [update_of_ne heq]
        exact Relinked.refl _
  refine hfirst.trans ?_
  unfold unlink
  by_cases heq : other = current
  · subst other
    simp only [update_self]
    exact ⟨0, rfl⟩
  · simp only [update_of_ne heq]
    exact Relinked.refl _

theorem unlink_of_ne {other : ℕ} (hprevious : previous ≠ 0 → other ≠ previous)
    (hcurrent : other ≠ current) : (unlink spans cache previous current).1 other = spans other := by
  unfold unlink
  simp only [update_of_ne hcurrent]
  split
  · rfl
  · next hne => rw [update_of_ne (hprevious hne)]

theorem unlink_previous (hprevious : previous ≠ 0) (hne : previous ≠ current) :
    ((unlink spans cache previous current).1 previous).next = (spans current).next := by
  unfold unlink
  simp only [Function.update_of_ne hne, if_neg hprevious, Function.update_self]

theorem getLastD_eq_zero_iff {before : List ℕ} (hzero : 0 ∉ before) :
    before.getLastD 0 = 0 ↔ before = [] := by
  constructor
  · intro hlast
    rcases getLastD_mem_or 0 before with - | hmem
    · rcases eq_nil_or_concat' before with rfl | ⟨front, last, rfl⟩
      · rfl
      · exact absurd (by simpa using hlast.symm) (fun heq : 0 = last => hzero (by simp [heq]))
    · exact absurd (hlast ▸ hmem) hzero
  · rintro rfl
    rfl

theorem getLastD_of_getLast? {before : List ℕ} {last : ℕ} (hlast : before.getLast? = some last) :
    before.getLastD 0 = last := by
  rw [getLastD_eq_getLast?, hlast, Option.getD_some]

theorem Chain.unlinkSpan {before : List ℕ}
    (hchain : Chain (fun other => (spans other).next) 0 cache.head (before ++ base :: rest))
    (hnodup : (before ++ base :: rest).Nodup) :
    Chain (fun other => ((unlink spans cache (before.getLastD 0) base).1 other).next) 0
      (unlink spans cache (before.getLastD 0) base).2.head (before ++ rest) := by
  have hstop := hchain.stop_notMem
  rw [mem_append, not_or] at hstop
  have hzero := getLastD_eq_zero_iff hstop.1
  have hbefore : base ∉ before := fun hmem =>
    (nodup_append'.mp hnodup).2.2 hmem mem_cons_self
  have hrest : base ∉ rest := (nodup_cons.mp (nodup_append'.mp hnodup).2.1).1
  have hhead : (unlink spans cache (before.getLastD 0) base).2.head =
      if before = [] then (spans base).next else cache.head := by
    simp only [unlink, hzero]
  rw [hhead]
  refine Chain.unlink hchain hnodup ?_ ?_
  · intro other hother hlast
    refine congrArg HeapSlabSpan.next (unlink_of_ne ?_ ?_)
    · rintro hne rfl
      obtain ⟨front, last, rfl⟩ := (eq_nil_or_concat' before).resolve_left
        fun hnil => hne (hzero.mpr hnil)
      exact hlast (by simp)
    · rintro rfl
      exact (mem_append.mp hother).elim hbefore hrest
  · intro previous hprevious
    have hmem := mem_of_getLast? hprevious
    rw [getLastD_of_getLast? hprevious]
    refine unlink_previous ?_ ?_
    · rintro rfl
      exact hstop.1 hmem
    · rintro rfl
      exact hbefore hmem

theorem ClassHolds.remove (hclass : ClassHolds spans cache cpu cls list) (hbase : base ∈ list)
    (hempty : (spans base).isEmpty = true) :
    ∃ spansAfter cacheAfter, cache.heapSlabRemove spans base = .ok (spansAfter, cacheAfter) ∧
      ClassHolds spansAfter cacheAfter cpu cls (list.erase base) ∧
      cacheAfter.emptyCount + 1 = cache.emptyCount ∧
      (∀ other, Relinked (spans other) (spansAfter other)) ∧
      ∀ other, other ∉ list → spansAfter other = spans other := by
  have hpos := hclass.emptyCount_pos hbase hempty
  obtain ⟨before, rest, rfl, hbefore⟩ := eq_append_cons_of_mem hbase
  have hnodup := hclass.nodup
  have hrun : cache.heapSlabRemove spans base =
      .ok (unlink spans cache (before.getLastD 0) base) := by
    refine removeFrom_eq hclass.chain hbefore ?_
    rw [hclass.span_count, length_append]
    omega
  have herase : (before ++ base :: rest).erase base = before ++ rest := by
    rw [erase_append_right _ hbefore, erase_cons_head]
  have hrelinked : ∀ other, Relinked (spans other)
      ((unlink spans cache (before.getLastD 0) base).1 other) :=
    unlink_relinked (before.getLastD 0) base
  refine ⟨(unlink spans cache (before.getLastD 0) base).1,
    (unlink spans cache (before.getLastD 0) base).2, hrun,
    ⟨?_, hnodup.erase base, ?_, ?_, ?_, ?_⟩, ?_, hrelinked, ?_⟩
  · rw [herase]
    exact Chain.unlinkSpan hclass.chain hnodup
  · exact fun other hother => (hrelinked other).formed
      (hclass.formed other (mem_of_mem_erase hother))
  · rw [length_erase_of_mem hbase, ← hclass.span_count]
    rfl
  · have hcount := hclass.empty_count
    rw [(perm_cons_erase hbase).countP_eq, countP_cons, hempty, if_pos rfl] at hcount
    have hsame : ((before ++ base :: rest).erase base).countP (fun other =>
        ((unlink spans cache (before.getLastD 0) base).1 other).isEmpty) =
          ((before ++ base :: rest).erase base).countP fun other => (spans other).isEmpty :=
      countP_congr fun other _ => by rw [(hrelinked other).isEmpty_eq]
    rw [hsame]
    exact Nat.sub_eq_of_eq_add hcount
  · by_cases hactive : cache.active = base
    · exact .inl (if_pos hactive)
    · have hkept : (unlink spans cache (before.getLastD 0) base).2.active = cache.active :=
        if_neg hactive
      rw [hkept]
      exact hclass.active.imp_right fun hmem => (mem_erase_of_ne hactive).mpr hmem
  · exact Nat.sub_add_cancel hpos
  · intro other hother
    rw [mem_append, mem_cons, not_or, not_or] at hother
    refine unlink_of_ne ?_ hother.2.1
    rintro hne rfl
    exact hother.1 ((getLastD_mem_or 0 before).resolve_left hne)

/-! ## Giving a slot back -/

theorem Formed.bit_of_isEmpty (hformed : Formed s' cpu cls base) (hempty : s'.isEmpty = true)
    (hslot : slot < slotsOfClass cls) : bit s'.freeBitmap slot = true := by
  have hsubset : setBits s'.freeBitmap heapSlabBitmapWords ⊆
      Finset.range (slotsOfClass cls) := fun other hother =>
    Finset.mem_range.mpr (hformed.free_lt other (Finset.mem_filter.mp hother).2)
  have hcard : (Finset.range (slotsOfClass cls)).card ≤
      (setBits s'.freeBitmap heapSlabBitmapWords).card := by
    rw [Finset.card_range, ← hformed.free_count, ← hformed.count]
    simpa [HeapSlabSpan.isEmpty] using (of_decide_eq_true hempty).ge
  have heq := Finset.eq_of_subset_of_card_le hsubset hcard
  have hmem : slot ∈ setBits s'.freeBitmap heapSlabBitmapWords := by
    rw [heq]
    exact Finset.mem_range.mpr hslot
  exact (Finset.mem_filter.mp hmem).2

/-- What giving back the slot leaves: the span stays on the list, or it leaves
it entirely free. -/
structure GivenBack (spans spansAfter : SpanMemory) (cacheAfter : HeapSlabClass)
    (cpu cls base slot : ℕ) (list : List ℕ) (reclaim : Bool) : Prop where
  holds : ClassHolds spansAfter cacheAfter cpu cls (if reclaim then list.erase base else list)
  empty_le : cacheAfter.emptyCount ≤ 1
  formed : Formed (spansAfter base) cpu cls base
  outside : ∀ other, other ∉ list → spansAfter other = spans other
  relinked : ∀ other, other ≠ base → Relinked (spans other) (spansAfter other)
  bits : ∀ other, bit (spansAfter base).freeBitmap other =
    (decide (slot = other) || bit (spans base).freeBitmap other)
  others_free : reclaim = true → ∀ other, other < slotsOfClass cls → other ≠ slot →
    bit (spans base).freeBitmap other = true

theorem ClassHolds.empty_le_spanCount (hclass : ClassHolds spans cache cpu cls list) :
    cache.emptyCount ≤ cache.spanCount := by
  rw [hclass.empty_count, hclass.span_count]
  exact countP_le_length

theorem ClassHolds.dealloc (hclass : ClassHolds spans cache cpu cls list)
    (hcls : cls < heapSlabClassCount) (hle : cache.emptyCount ≤ 1) (hbase : base ∈ list)
    (hslot : slot < slotsOfClass cls) (hused : bit (spans base).freeBitmap slot = false) :
    ∃ reclaim spansAfter cacheAfter,
      cache.dealloc spans base (slotAddress base cls slot) = .ok (reclaim, spansAfter, cacheAfter) ∧
      GivenBack spans spansAfter cacheAfter cpu cls base slot list reclaim := by
  have hbefore := hclass.formed base hbase
  obtain ⟨s', hgive, hformed, hfrees⟩ := hbefore.giveBack hcls hslot hused
  have hnotEmpty := hbefore.not_isEmpty hformed hfrees.count.ge
  have hactive : ∀ active, active = (if (spans base).freeCount = 0 then base else cache.active) →
      active = 0 ∨ active ∈ list := by
    rintro active rfl
    split
    · exact .inr hbase
    · exact hclass.active
  have hactivated : (if (spans base).freeCount = 0 then { cache with active := base } else cache) =
      { cache with active := if (spans base).freeCount = 0 then base else cache.active } := by
    split <;> rfl
  have houtside : ∀ other, other ∉ list → Function.update spans base s' other = spans other := by
    intro other hother
    refine update_of_ne ?_ ..
    rintro rfl
    exact hother hbase
  have hrelinked : ∀ other, other ≠ base →
      Relinked (spans other) (Function.update spans base s' other) := by
    intro other hne
    rw [update_of_ne hne]
    exact Relinked.refl _
  have hbits : ∀ other, bit (Function.update spans base s' base).freeBitmap other =
      (decide (slot = other) || bit (spans base).freeBitmap other) := by
    rw [update_self]
    exact hfrees.bits
  simp only [HeapSlabClass.dealloc, hgive, hactivated]
  cases hempty : s'.isEmpty with
  | false =>
    have hholds := hclass.update hbase hfrees.next_eq hformed (hactive _ rfl)
      (by rw [hnotEmpty, hempty])
    exact ⟨false, _, _, rfl, hholds, hle, hholds.formed base hbase, houtside, hrelinked,
      hbits, by simp⟩
  | true =>
    have hcounted : cache.emptyCount + 1 + (spans base).isEmpty.toNat =
        cache.emptyCount + s'.isEmpty.toNat := by
      rw [hnotEmpty, hempty]
      rfl
    have hholds := hclass.update hbase hfrees.next_eq hformed (hactive _ rfl) hcounted
    simp only [if_true]
    split
    · obtain ⟨spansAfter, cacheAfter, hremove, hremoved, hcount, hlinked, hsame⟩ :=
        hholds.remove hbase (by rw [update_self, hempty])
      refine ⟨true, spansAfter, cacheAfter, ?_, hremoved, ?_,
        (hlinked base).formed (hholds.formed base hbase), ?_, ?_, ?_, ?_⟩
      · simp only [hremove]
      · simp only at hcount
        omega
      · exact fun other hother => (hsame other hother).trans (houtside other hother)
      · exact fun other hne => (hrelinked other hne).trans (hlinked other)
      · intro other
        obtain ⟨link, hlink⟩ := hlinked base
        rw [hlink]
        exact hbits other
      · intro _ other hother hne
        have hbit := hformed.bit_of_isEmpty hempty hother
        rw [hfrees.bits other] at hbit
        simpa [hne.symm] using hbit
    · next hkeep =>
      refine ⟨false, _, _, rfl, hholds, ?_, hholds.formed base hbase, houtside, hrelinked,
        hbits, by simp⟩
      have hspans := hholds.empty_le_spanCount
      have hreserve : heapSlabEmptyReserve = 1 := rfl
      simp only [hreserve] at hkeep hspans ⊢
      omega

end Kairix.KernelHeap
