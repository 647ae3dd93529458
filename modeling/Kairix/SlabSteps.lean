import Kairix.BuddyHeapBlocks
import Kairix.ExclusiveHoldings
import Kairix.SlabClasses

/-!
# The invariant of the slab heap

The spans obtained from the global heap are the spans on the lists together
with those which a call carries between two locked sections, and no span is in
two of these places.  A slot of a listed span is in use exactly when a live
block starts there.
-/

namespace Kairix.KernelHeap

open Function WordBitmap LinkedCells ExclusiveHoldings BuddyHeap List

def SlabCall.carried : SlabCall → List ℕ
  | .insert _ _ address | .reclaim address => [address]
  | .idle | .refill _ _ => []

def SlabCall.request : SlabCall → Option (Layout × ℕ)
  | .refill layout cls | .insert layout cls _ => some (layout, cls)
  | .idle | .reclaim _ => none

namespace SlabConfig

variable {cpus : ℕ} {τ : Type*}

def pieces (config : SlabConfig cpus τ) : List (ℕ × ℕ) :=
  config.owned.map (·, heapSlabSpanLayout.blockOrder) ++
    config.large.map fun block => (block.address, block.layout.blockOrder)

def managed (config : SlabConfig cpus τ) : Set ℕ :=
  {byte | ∃ range ∈ config.memory, byte ∈ Set.Ico range.1 range.2}

def addresses (config : SlabConfig cpus τ) : List ℕ := config.live.map SlabBlock.address

def holdings (config : SlabConfig cpus τ) (lists : Fin cpus × ℕ → List ℕ) :
    Fin cpus × ℕ ⊕ τ → List ℕ :=
  Sum.elim lists fun thread => (config.calls thread).carried

structure Inv (s : SlabConfig cpus τ) (lists : Fin cpus × ℕ → List ℕ) : Prop where
  heap : Holds s.heap s.pieces s.managed
  zero : 0 ∉ s.managed
  large_lt : ∀ block ∈ s.large, block.layout.blockOrder < kernelHeapOrder
  classes : ∀ place : Fin cpus × ℕ,
    ClassHolds s.spans (s.caches place) place.1 place.2 (lists place)
  empty_le : ∀ place, (s.caches place).emptyCount ≤ 1
  class_lt : ∀ place, lists place ≠ [] → place.2 < heapSlabClassCount
  exclusive : Exclusive (s.holdings lists)
  owned_iff : ∀ base, base ∈ s.owned ↔ base ∈ held (s.holdings lists)
  requests : ∀ thread layout cls, (s.calls thread).request = some (layout, cls) →
    heapSlabClass layout = some cls
  reclaimed : ∀ thread base, s.calls thread = .reclaim base → (s.spans base).Counted
  slots : ∀ place, ∀ base ∈ lists place, ∀ slot < slotsOfClass place.2,
    bit (s.spans base).freeBitmap slot = false ↔
      slotAddress base place.2 slot ∈ s.addresses
  live : ∀ block ∈ s.live, ∃ place, ∃ base ∈ lists place,
    ∃ slot < slotsOfClass place.2, block.address = slotAddress base place.2 slot ∧
      heapSlabClass block.layout = some place.2
  live_nodup : s.addresses.Nodup

attribute [local simp] booted

theorem inv_booted (spans : SpanMemory) : Inv (booted spans : SlabConfig cpus τ) fun _ => [] where
  heap := by
    refine holds_empty.mono ?_
    simp
  zero := by simp [managed]
  large_lt := by simp
  classes := fun _ => ⟨rfl, nodup_nil, by simp, rfl, rfl, .inl rfl⟩
  empty_le := fun _ => Nat.zero_le _
  class_lt := fun _ hne => absurd rfl hne
  exclusive := Exclusive.of_empty fun owner => by cases owner <;> rfl
  owned_iff := by
    intro base
    rw [held_of_empty fun owner => by cases owner <;> rfl]
    simp
  requests := by simp [SlabCall.request]
  reclaimed := by simp
  slots := by simp
  live := by simp
  live_nodup := nodup_nil

/-! ## What the invariant says about single spans -/

variable {s : SlabConfig cpus τ} {lists : Fin cpus × ℕ → List ℕ}
variable {place other : Fin cpus × ℕ} {base : ℕ}

theorem Inv.owned_of_listed (hinv : Inv s lists) (hbase : base ∈ lists place) : base ∈ s.owned :=
  (hinv.owned_iff base).mpr ⟨Sum.inl place, hbase⟩

theorem blockOrder_span : heapSlabSpanLayout.blockOrder = 16 := by decide +kernel

section

variable (hinv : Inv s lists)
include hinv

theorem Inv.aligned (hbase : base ∈ s.owned) :
    Aligned s.managed (base, heapSlabSpanLayout.blockOrder) :=
  hinv.heap.hand_aligned _ (mem_append_left _ (mem_map_of_mem hbase))

theorem Inv.span_dvd (hbase : base ∈ s.owned) : heapSlabSpanSize ∣ base := by
  have hdvd := (hinv.aligned hbase).dvd
  rw [blockOrder_span] at hdvd
  exact hdvd

theorem Inv.span_ne_zero (hbase : base ∈ s.owned) : base ≠ 0 := by
  rintro rfl
  exact hinv.zero (hinv.aligned hbase).base_mem

theorem Inv.place_eq (hbase : base ∈ lists place) (hother : base ∈ lists other) : place = other :=
  Sum.inl_injective (hinv.exclusive.unique (Sum.inl place) (Sum.inl other) base hbase hother)

end

variable {thread : τ}

theorem Inv.notListed_of_carried (hinv : Inv s lists)
    (hcarried : base ∈ (s.calls thread).carried) : base ∉ lists place := by
  intro hbase
  have heq := hinv.exclusive.unique (Sum.inl place) (Sum.inr thread) base hbase hcarried
  simp at heq

theorem Inv.thread_eq (hinv : Inv s lists) {second : τ} (hcarried : base ∈ (s.calls thread).carried)
    (hsecond : base ∈ (s.calls second).carried) : thread = second :=
  Sum.inr_injective (hinv.exclusive.unique (Sum.inr thread) (Sum.inr second) base hcarried hsecond)

theorem carried_of_reclaim (hcall : s.calls thread = .reclaim base) :
    base ∈ (s.calls thread).carried := by
  rw [hcall]
  exact mem_singleton_self _

section

variable (hinv : Inv s lists)
include hinv

theorem Inv.notListed_of_reclaim (hcall : s.calls thread = .reclaim base) : base ∉ lists place :=
  hinv.notListed_of_carried (carried_of_reclaim hcall)

theorem Inv.class_lt_of_mem (hbase : base ∈ lists place) : place.2 < heapSlabClassCount :=
  hinv.class_lt place (ne_nil_of_mem hbase)

theorem Inv.slot_unique {first second : ℕ} {firstSlot secondSlot : ℕ}
    (hfirst : first ∈ lists place) (hfirstSlot : firstSlot < slotsOfClass place.2)
    (hsecond : second ∈ lists other) (hsecondSlot : secondSlot < slotsOfClass other.2)
    (heq : slotAddress first place.2 firstSlot = slotAddress second other.2 secondSlot) :
    first = second ∧ place = other ∧ firstSlot = secondSlot := by
  have hbases : first = second := by
    rw [← heapSlabSpanBase_slotAddress (hinv.span_dvd (hinv.owned_of_listed hfirst))
        (hinv.class_lt_of_mem hfirst) hfirstSlot, heq,
      heapSlabSpanBase_slotAddress (hinv.span_dvd (hinv.owned_of_listed hsecond))
        (hinv.class_lt_of_mem hsecond) hsecondSlot]
  subst second
  obtain rfl := hinv.place_eq hfirst hsecond
  exact ⟨rfl, rfl, slotAddress_inj heq⟩

theorem Inv.notMem_addresses {cls slot : ℕ} (hbase : base ∈ s.owned)
    (hfresh : ∀ place, base ∉ lists place) (hcls : cls < heapSlabClassCount)
    (hslot : slot < slotsOfClass cls) : slotAddress base cls slot ∉ s.addresses := by
  intro hmem
  obtain ⟨block, hblock, haddress⟩ := mem_map.mp hmem
  obtain ⟨place, span, hspan, index, hindex, hlive, -⟩ := hinv.live block hblock
  have hspans : span = base := by
    rw [← heapSlabSpanBase_slotAddress (hinv.span_dvd (hinv.owned_of_listed hspan))
        (hinv.class_lt_of_mem hspan) hindex, ← hlive, haddress,
      heapSlabSpanBase_slotAddress (hinv.span_dvd hbase) hcls hslot]
  exact hfresh place (hspans ▸ hspan)

end

theorem ClassHolds.congr {spans spansAfter : SpanMemory} {cache : HeapSlabClass} {cpu cls : ℕ}
    {list : List ℕ} (hclass : ClassHolds spans cache cpu cls list)
    (hsame : ∀ base ∈ list, spansAfter base = spans base) :
    ClassHolds spansAfter cache cpu cls list where
  chain := hclass.chain.congr fun base hbase => by simp only [hsame base hbase]
  nodup := hclass.nodup
  formed := fun base hbase => by
    rw [hsame base hbase]
    exact hclass.formed base hbase
  span_count := hclass.span_count
  empty_count := by
    rw [hclass.empty_count]
    exact countP_congr fun base hbase => by rw [hsame base hbase]
  active := hclass.active

theorem Inv.classes_update (hinv : Inv s lists) {spansAfter : SpanMemory}
    {cache : HeapSlabClass} {list : List ℕ}
    (hclass : ClassHolds spansAfter cache place.1 place.2 list)
    (hsame : ∀ other, other ≠ place → ∀ base ∈ lists other, spansAfter base = s.spans base)
    (other : Fin cpus × ℕ) :
    ClassHolds spansAfter (update s.caches place cache other) other.1 other.2
      (update lists place list other) := by
  by_cases heq : other = place
  · subst other
    rwa [update_self, update_self]
  · rw [update_of_ne heq, update_of_ne heq]
    exact ClassHolds.congr (hinv.classes other) (hsame other heq)

theorem Inv.empty_le_update (hinv : Inv s lists) (cache : HeapSlabClass)
    (hle : cache.emptyCount ≤ 1) (other : Fin cpus × ℕ) :
    (update s.caches place cache other).emptyCount ≤ 1 := by
  by_cases heq : other = place
  · subst other
    rwa [update_self]
  · rw [update_of_ne heq]
    exact hinv.empty_le other

end SlabConfig

/-! ## Sections of a CPU -/

theorem heapSlabClass_lt {layout : Layout} {cls : ℕ} (hcls : heapSlabClass layout = some cls) :
    cls < heapSlabClassCount := by
  unfold heapSlabClass at hcls
  split at hcls
  · simp at hcls
  · simp only at hcls
    split at hcls
    · simp at hcls
    · split at hcls <;> cases hcls
      next hlt => exact hlt

namespace SlabConfig

variable {cpus : ℕ} {τ : Type*} [DecidableEq τ]
variable {s : SlabConfig cpus τ} {lists : Fin cpus × ℕ → List ℕ}
variable {thread : τ} {place : Fin cpus × ℕ} {base slot : ℕ} {layout : Layout}

def Keeps (run : Except SlabPanic (SlabConfig cpus τ)) : Prop :=
  ∃ after lists, run = .ok after ∧ Inv after lists

theorem holdings_setCall_eq {call : SlabCall} (hcarried : call.carried = (s.calls thread).carried) :
    (s.setCall thread call).holdings lists = s.holdings lists := by
  funext owner
  cases owner with
  | inl place => rfl
  | inr other =>
    by_cases heq : other = thread
    · subst other
      simpa [holdings, setCall] using hcarried
    · simp [holdings, setCall, heq]

section

variable (hinv : Inv s lists)
include hinv

theorem requests_setCall {call : SlabCall}
    (hrequest : ∀ layout cls, call.request = some (layout, cls) → heapSlabClass layout = some cls)
    (other : τ) (layout : Layout) (cls : ℕ)
    (hother : (update s.calls thread call other).request = some (layout, cls)) :
    heapSlabClass layout = some cls := by
  by_cases heq : other = thread
  · subst other
    rw [update_self] at hother
    exact hrequest layout cls hother
  · rw [update_of_ne heq] at hother
    exact hinv.requests other layout cls hother

theorem reclaimed_setCall {call : SlabCall} {spans : SpanMemory}
    (hcall : ∀ base, call = .reclaim base → (spans base).Counted)
    (hsame : ∀ other, other ≠ thread → ∀ base, s.calls other = .reclaim base →
      spans base = s.spans base) (other : τ) (base : ℕ)
    (hother : update s.calls thread call other = .reclaim base) :
    (spans base).Counted := by
  by_cases heq : other = thread
  · subst other
    rw [update_self] at hother
    exact hcall base hother
  · rw [update_of_ne heq] at hother
    rw [hsame other heq base hother]
    exact hinv.reclaimed other base hother

theorem Inv.setCall {call : SlabCall}
    (hcall : ∀ base, call ≠ .reclaim base) (hcarried : call.carried = (s.calls thread).carried)
    (hrequest : ∀ layout cls, call.request = some (layout, cls) → heapSlabClass layout = some cls) :
    Inv (s.setCall thread call) lists := by
  refine { hinv with
    exclusive := ?_
    owned_iff := ?_
    requests := requests_setCall hinv hrequest
    reclaimed := reclaimed_setCall hinv (fun base heq => absurd heq (hcall base))
      fun _ _ _ _ => rfl }
  · rw [holdings_setCall_eq hcarried]
    exact hinv.exclusive
  · rw [holdings_setCall_eq hcarried]
    exact hinv.owned_iff

omit [DecidableEq τ] in
theorem Inv.deactivate (place : Fin cpus × ℕ) :
    Inv (s.setCache place.1 place.2 { s.caches place with active := 0 }) lists := by
  have hclass : ClassHolds s.spans { s.caches place with active := 0 } place.1 place.2
      (lists place) :=
    ⟨(hinv.classes place).chain, (hinv.classes place).nodup, (hinv.classes place).formed,
      (hinv.classes place).span_count, (hinv.classes place).empty_count, .inl rfl⟩
  have hclasses := hinv.classes_update hclass fun _ _ _ _ => rfl
  rw [update_eq_self] at hclasses
  exact { hinv with
    classes := hclasses
    empty_le := hinv.empty_le_update { s.caches place with active := 0 } (hinv.empty_le place) }

omit [DecidableEq τ] in
theorem Inv.take (place : Fin cpus × ℕ)
    (hlayout : heapSlabClass layout = some place.2) (hbase : base ∈ lists place)
    {s' : HeapSlabSpan} (hformed : Formed s' place.1 place.2 base)
    (htakes : Takes (s.spans base) s' slot) (hslot : slot < slotsOfClass place.2) :
    Inv ({ s with
        spans := update s.spans base s'
        live := ⟨slotAddress base place.2 slot, layout⟩ :: s.live }.setCache place.1 place.2
      { (s.caches place).noteTaken (s.spans base).isEmpty with active := base })
      lists := by
  have hclass := (hinv.classes place).taken hbase hformed htakes
  have hother : ∀ other, other ≠ place → ∀ span ∈ lists other,
      update s.spans base s' span = s.spans span := by
    intro other hne span hspan
    refine update_of_ne ?_ ..
    rintro rfl
    exact hne (hinv.place_eq hspan hbase)
  have hclasses := hinv.classes_update hclass hother
  rw [update_eq_self] at hclasses
  have hempty : ((s.caches place).noteTaken (s.spans base).isEmpty).emptyCount ≤ 1 := by
    have hle := hinv.empty_le place
    unfold HeapSlabClass.noteTaken
    simp only
    split <;> omega
  refine ⟨hinv.heap, hinv.zero, hinv.large_lt, hclasses,
    hinv.empty_le_update { (s.caches place).noteTaken
      (s.spans base).isEmpty with active := base } hempty, hinv.class_lt,
    hinv.exclusive, hinv.owned_iff, hinv.requests, ?_, ?_, ?_, ?_⟩
  · intro other address hcall
    have hne : address ≠ base := by
      rintro rfl
      exact hinv.notListed_of_reclaim hcall hbase
    simp only [setCache, update_of_ne hne]
    exact hinv.reclaimed other address hcall
  · intro other span hspan index hindex
    have haddresses : slotAddress span other.2 index ∈
        slotAddress base place.2 slot :: s.addresses ↔
          (span = base ∧ index = slot) ∨ slotAddress span other.2 index ∈ s.addresses := by
      rw [mem_cons]
      refine or_congr ⟨fun heq => ?_, ?_⟩ Iff.rfl
      · obtain ⟨hspanEq, -, hindexEq⟩ := hinv.slot_unique hspan hindex hbase hslot heq
        exact ⟨hspanEq, hindexEq⟩
      · rintro ⟨rfl, rfl⟩
        rw [hinv.place_eq hspan hbase]
    refine Iff.trans ?_ haddresses.symm
    rw [← hinv.slots other span hspan index hindex]
    by_cases heq : span = base
    · subst span
      simp only [setCache, update_self, htakes.bits index]
      by_cases hsame : index = slot
      · simp [hsame]
      · simp [hsame, Ne.symm hsame]
    · simp [setCache, heq]
  · intro block hblock
    rcases mem_cons.mp hblock with rfl | hblock
    · exact ⟨place, base, hbase, slot, hslot, rfl, hlayout⟩
    · exact hinv.live block hblock
  · have hfresh : slotAddress base place.2 slot ∉ s.addresses := by
      rw [← hinv.slots place base hbase slot hslot, htakes.free]
      simp
    exact nodup_cons.mpr ⟨hfresh, hinv.live_nodup⟩

theorem Inv.allocFromCpuSlab {cpu : Fin cpus} {cls : ℕ}
    (hidle : s.calls thread = .idle) (hlayout : heapSlabClass layout = some cls) :
    Keeps (s.allocFromCpuSlab thread cpu layout cls) := by
  rcases (hinv.classes (cpu, cls)).take with hnone | ⟨base, hbase, slot, s', htaken⟩
  · refine ⟨_, lists, by rw [SlabConfig.allocFromCpuSlab, hnone], ?_⟩
    refine Inv.setCall (hinv.deactivate (cpu, cls)) (by simp) ?_ ?_
    · simp [setCache, hidle, SlabCall.carried]
    · rintro other index hrequest
      simp only [SlabCall.request, Option.some.injEq, Prod.mk.injEq] at hrequest
      obtain ⟨rfl, rfl⟩ := hrequest
      exact hlayout
  · refine ⟨_, lists, by rw [SlabConfig.allocFromCpuSlab, htaken.run_eq], ?_⟩
    exact hinv.take (cpu, cls) hlayout hbase htaken.formed htaken.takes htaken.slot_lt

end

/-! ## Obtaining a span and putting it to use -/

theorem holdings_setCall_of_ne
    {call : SlabCall} {owner : Fin cpus × ℕ ⊕ τ} (hne : owner ≠ Sum.inr thread) :
    (s.setCall thread call).holdings lists owner = s.holdings lists owner := by
  cases owner with
  | inl place => rfl
  | inr other =>
    have hother : other ≠ thread := fun heq => hne (congrArg Sum.inr heq)
    simp [holdings, setCall, hother]

theorem holdings_setCall_self {call : SlabCall} :
    (s.setCall thread call).holdings lists (Sum.inr thread) = call.carried := by
  simp [holdings, setCall]

theorem Inv.obtainSpan
    (hinv : Inv s lists) {cls : ℕ} (hrefill : s.calls thread = .refill layout cls) :
    Keeps (s.obtainSpan thread layout cls) := by
  obtain ⟨result, heap, halloc, hholds, -⟩ := hinv.heap.alloc hinv.zero heapSlabSpanLayout
  cases result with
  | none =>
    refine ⟨_, lists, by rw [SlabConfig.obtainSpan, halloc], ?_⟩
    exact { hinv with heap := hholds }
  | some address =>
    have hlent : Holds heap ((address, heapSlabSpanLayout.blockOrder) :: s.pieces)
        s.managed := hholds
    have hfresh : address ∉ s.owned := by
      intro hmem
      have hapart := (pairwise_cons.mp hlent.hand_apart).1 _
        (mem_append_left _ (mem_map_of_mem hmem))
      exact Set.disjoint_left.mp hapart (DyadicBlock.base_mem_block ..)
        (DyadicBlock.base_mem_block ..)
    have hcarried : s.holdings lists (Sum.inr thread) = [] := by
      simp [holdings, hrefill, SlabCall.carried]
    have htarget : ((s.setCall thread (.insert layout cls address)).holdings lists
        (Sum.inr thread)).Perm ([address] ++ s.holdings lists (Sum.inr thread)) := by
      rw [holdings_setCall_self, hcarried]
      exact .refl _
    have hother : ∀ owner, owner ≠ Sum.inr thread →
        (s.setCall thread (.insert layout cls address)).holdings lists owner =
          s.holdings lists owner := fun owner hne => holdings_setCall_of_ne hne
    have hheld := held_enter htarget hother
    refine ⟨_, lists, by rw [SlabConfig.obtainSpan, halloc], ?_⟩
    refine ⟨hlent, hinv.zero, hinv.large_lt, hinv.classes, hinv.empty_le, hinv.class_lt,
      ?_, ?_, requests_setCall hinv ?_,
      reclaimed_setCall hinv (by simp) fun _ _ _ _ => rfl, hinv.slots, hinv.live,
      hinv.live_nodup⟩
    · refine hinv.exclusive.enter htarget hother (nodup_singleton _) ?_
      intro item hitem hmem
      rw [mem_singleton.mp hitem, ← hinv.owned_iff] at hmem
      exact hfresh hmem
    · intro base
      refine Iff.trans ?_ (Set.ext_iff.mp hheld base).symm
      refine mem_cons.trans ?_
      rw [hinv.owned_iff, Set.mem_union, or_comm]
      exact or_congr Iff.rfl mem_singleton.symm
    · intro other index hrequest
      refine hinv.requests thread other index ?_
      rw [hrefill]
      exact hrequest

theorem holdings_list (hexclusive : Exclusive (s.holdings lists)) (place : Fin cpus × ℕ)
    {address : ℕ} (hcarried : (s.calls thread).carried = [address]) :
    Exclusive ((s.setCall thread .idle).holdings (update lists place (address :: lists place))) ∧
      held ((s.setCall thread .idle).holdings (update lists place (address :: lists place))) =
        held (s.holdings lists) := by
  have hsource : (s.holdings lists (Sum.inr thread)).Perm ([address] ++
      (s.setCall thread .idle).holdings
        (update lists place (address :: lists place)) (Sum.inr thread)) := by
    rw [holdings_setCall_self, holdings, Sum.elim_inr, hcarried]
    exact .refl _
  have htarget : ((s.setCall thread .idle).holdings
      (update lists place (address :: lists place)) (Sum.inl place)).Perm
        ([address] ++ s.holdings lists (Sum.inl place)) := by
    simp [holdings]
  refine hexclusive.move (by simp) hsource htarget ?_
  intro owner hthread hplace
  rw [holdings_setCall_of_ne hthread]
  cases owner with
  | inl other =>
    have hother : other ≠ place := fun heq => hplace (congrArg Sum.inl heq)
    simp [holdings, hother]
  | inr other => rfl

theorem Inv.insertSpan (hinv : Inv s lists) {cpu : Fin cpus} {cls address : ℕ}
    (hinsert : s.calls thread = .insert layout cls address) :
    Keeps (s.insertSpan thread cpu layout cls address) := by
  have hlayout : heapSlabClass layout = some cls :=
    hinv.requests thread layout cls (by rw [hinsert]; rfl)
  have hcls := heapSlabClass_lt hlayout
  have hcarried : (s.calls thread).carried = [address] := by
    rw [hinsert]
    rfl
  have hmemCarried : address ∈ (s.calls thread).carried := by
    rw [hcarried]
    exact mem_singleton_self _
  have howned : address ∈ s.owned := (hinv.owned_iff address).mpr ⟨Sum.inr thread, hmemCarried⟩
  have hfresh : ∀ place, address ∉ lists place := fun place =>
    hinv.notListed_of_carried hmemCarried
  obtain ⟨slot, spans, cache, hrun, hclass, hempty, hslot, hsame, hbits⟩ :=
    (hinv.classes (cpu, cls)).refill hcls (hfresh (cpu, cls)) (hinv.span_ne_zero howned)
      (hinv.span_dvd howned)
  have hlisted : ∀ other, ∀ span ∈ lists other, spans span = s.spans span := by
    intro other span hspan
    refine hsame span ?_
    rintro rfl
    exact hfresh other hspan
  have hmem : ∀ other span, span ∈ update lists (cpu, cls) (address :: lists (cpu, cls)) other ↔
        (span = address ∧ other = (cpu, cls)) ∨ span ∈ lists other := by
    intro other span
    by_cases heq : other = (cpu, cls)
    · subst other
      rw [update_self, mem_cons]
      simp
    · rw [update_of_ne heq]
      simp [heq]
  have hnew : ∀ index < slotsOfClass cls, slotAddress address cls index ∉ s.addresses :=
    fun index hindex => hinv.notMem_addresses howned hfresh hcls hindex
  obtain ⟨hexclusive, hheld⟩ := holdings_list hinv.exclusive (cpu, cls) hcarried
  refine ⟨_, update lists (cpu, cls) (address :: lists (cpu, cls)),
    by rw [SlabConfig.insertSpan, hrun], ?_⟩
  refine ⟨hinv.heap, hinv.zero, hinv.large_lt,
    hinv.classes_update hclass fun other _ span hspan => hlisted other span hspan,
    hinv.empty_le_update cache (hempty.trans_le (hinv.empty_le _)), ?_, hexclusive, ?_,
    requests_setCall hinv (by simp [SlabCall.request]), reclaimed_setCall hinv (by simp) ?_,
    ?_, ?_, ?_⟩
  · intro other hne
    by_cases heq : other = (cpu, cls)
    · rw [heq]
      exact hcls
    · rw [update_of_ne heq] at hne
      exact hinv.class_lt other hne
  · intro base
    exact (hinv.owned_iff base).trans (Set.ext_iff.mp hheld base).symm
  · intro other hne base hother
    refine hsame base ?_
    rintro rfl
    exact hne (hinv.thread_eq (carried_of_reclaim hother) hmemCarried)
  · intro other span hspan index hindex
    rcases (hmem other span).mp hspan with ⟨rfl, rfl⟩ | hold
    · refine Iff.trans ?_ mem_cons.symm
      simp only [SlabConfig.setCall, setCache, hbits]
      constructor
      · intro hbit
        have heq : slot = index := by simpa [hindex] using hbit
        exact .inl (heq ▸ rfl)
      · rintro (heq | hold)
        · simp [slotAddress_inj heq]
        · exact absurd hold (hnew index hindex)
    · refine Iff.trans ?_ mem_cons.symm
      have hne : slotAddress span other.2 index ≠ slotAddress address cls slot := by
        intro heq
        have hbase := heapSlabSpanBase_slotAddress
          (hinv.span_dvd (hinv.owned_of_listed hold)) (hinv.class_lt_of_mem hold) hindex
        rw [heq, heapSlabSpanBase_slotAddress (hinv.span_dvd howned) hcls hslot] at hbase
        exact hfresh other (hbase ▸ hold)
      simp only [SlabConfig.setCall, setCache, hlisted other span hold, hne, false_or]
      exact hinv.slots other span hold index hindex
  · intro block hblock
    rcases mem_cons.mp hblock with rfl | hblock
    · exact ⟨(cpu, cls), address, (hmem _ _).mpr (.inl ⟨rfl, rfl⟩), slot, hslot, rfl, hlayout⟩
    · obtain ⟨place, base, hbase, hrest⟩ := hinv.live block hblock
      exact ⟨place, base, (hmem _ _).mpr (.inr hbase), hrest⟩
  · exact nodup_cons.mpr ⟨hnew slot hslot, hinv.live_nodup⟩

end SlabConfig

end Kairix.KernelHeap
