import Kairix.HeapGrowthLedger
import Kairix.SlabSteps

/-!
# Safety of the slab heap

In every state between two locked sections, of any number of CPUs and calls,
the live blocks do not overlap and suit their layouts, the counters agree with
the bitmaps and the lists, and a span is on one list, or carried by one call,
or with the global heap.
-/

namespace Kairix.KernelHeap

open Function WordBitmap LinkedCells ExclusiveHoldings BuddyHeap LabelledRun

namespace SlabConfig

variable {cpus : ℕ} {τ : Type*}
variable {s : SlabConfig cpus τ} {lists : Fin cpus × ℕ → List ℕ}
variable {thread : τ} {place : Fin cpus × ℕ} {base : ℕ} {block : SlabBlock} {reclaim : Bool}

theorem Inv.mem_addresses_erase (hinv : Inv s lists) (hblock : block ∈ s.live) (address : ℕ) :
    address ∈ (s.live.erase block).map SlabBlock.address ↔
      address ∈ s.addresses ∧ address ≠ block.address := by
  have hnodup : s.live.Nodup := hinv.live_nodup.of_map
  constructor
  · intro hmem
    obtain ⟨other, hother, rfl⟩ := List.mem_map.mp hmem
    obtain ⟨hne, hlive⟩ := hnodup.mem_erase_iff.mp hother
    refine ⟨List.mem_map_of_mem hlive, fun heq => hne ?_⟩
    exact List.inj_on_of_nodup_map hinv.live_nodup hlive hblock heq
  · rintro ⟨hmem, hne⟩
    obtain ⟨other, hother, rfl⟩ := List.mem_map.mp hmem
    refine List.mem_map_of_mem (hnodup.mem_erase_iff.mpr ⟨?_, hother⟩)
    rintro rfl
    exact hne rfl

/-- The lists, with `base` taken off its own if it is reclaimed. -/
def listsAfter (lists : Fin cpus × ℕ → List ℕ) (place : Fin cpus × ℕ) (base : ℕ)
    (reclaim : Bool) : Fin cpus × ℕ → List ℕ :=
  update lists place (if reclaim then (lists place).erase base else lists place)

theorem Inv.mem_listsAfter
    (hinv : Inv s lists) (hbase : base ∈ lists place) (other : Fin cpus × ℕ) (span : ℕ) :
    span ∈ listsAfter lists place base reclaim other ↔
      span ∈ lists other ∧ (reclaim = true → span ≠ base) := by
  unfold listsAfter
  by_cases heq : other = place
  · subst other
    rw [update_self]
    cases reclaim with
    | false => simp
    | true => simp [(hinv.classes place).nodup.mem_erase_iff, and_comm]
  · rw [update_of_ne heq]
    refine ⟨fun hspan => ⟨hspan, fun _ hsame => heq ?_⟩, And.left⟩
    exact hinv.place_eq (hsame ▸ hspan) hbase

variable [DecidableEq τ]

def callAfter (base : ℕ) (reclaim : Bool) : SlabCall := if reclaim then .reclaim base else .idle

attribute [local simp] SlabCall.request callAfter listsAfter

theorem Inv.holdings_listsAfter (hinv : Inv s lists) (hbase : base ∈ lists place)
    (hidle : s.calls thread = .idle) (reclaim : Bool) :
    Exclusive ((s.setCall thread (callAfter base reclaim)).holdings
        (listsAfter lists place base reclaim)) ∧
      held ((s.setCall thread (callAfter base reclaim)).holdings
        (listsAfter lists place base reclaim)) = held (s.holdings lists) := by
  cases reclaim with
  | false =>
    have hsame : (s.setCall thread (callAfter base false)).holdings
        (listsAfter lists place base false) = s.holdings lists := by
      rw [holdings_setCall_eq (by rw [hidle]; rfl)]
      simp
    rw [hsame]
    exact ⟨hinv.exclusive, rfl⟩
  | true =>
    have hsource : (s.holdings lists (Sum.inl place)).Perm ([base] ++
        (s.setCall thread (callAfter base true)).holdings
          (listsAfter lists place base true) (Sum.inl place)) := by
      simpa [holdings] using List.perm_cons_erase hbase
    have htarget : ((s.setCall thread (callAfter base true)).holdings
        (listsAfter lists place base true) (Sum.inr thread)).Perm
          ([base] ++ s.holdings lists (Sum.inr thread)) := by
      simp [holdings, SlabConfig.setCall, hidle, SlabCall.carried]
    refine hinv.exclusive.move (by simp) hsource htarget ?_
    intro owner hplace hthread
    rw [holdings_setCall_of_ne hthread]
    cases owner with
    | inl other =>
      have hother : other ≠ place := fun heq => hplace (congrArg Sum.inl heq)
      simp [holdings, hother]
    | inr other => rfl

/-! ## Freeing a slab block -/

theorem deallocToCpuSlab_eq {spans : SpanMemory} {cache : HeapSlabClass}
    (hspan : heapSlabSpanBase block.address = base) (hidle : s.calls thread = .idle)
    (hformed : Formed (s.spans base) place.1 place.2 base)
    (hrun : (s.caches place).dealloc s.spans base block.address = .ok (reclaim, spans, cache)) :
    s.deallocToCpuSlab thread block place.2 = .ok (({ s with
        spans := spans
        live := s.live.erase block }.setCache place.1 place.2 cache).setCall thread
          (callAfter base reclaim)) := by
  have howner : (s.spans base).ownerCpu < cpus := by
    rw [hformed.owner]
    exact place.1.isLt
  have hcpu : (⟨(s.spans base).ownerCpu, howner⟩ : Fin cpus) = place.1 := Fin.ext hformed.owner
  unfold deallocToCpuSlab
  simp only [hspan]
  rw [if_neg (not_not.mpr hformed.magic), if_neg (not_not.mpr hformed.cls_eq), dif_pos howner]
  simp only [hcpu, hrun]
  cases reclaim with
  | true => rfl
  | false =>
    refine congrArg Except.ok (congrArg (SlabConfig.mk _ _ _ · _ _ _ _) ?_)
    exact (update_eq_self_iff.mpr hidle.symm).symm

theorem Inv.deallocToCpuSlab (hinv : Inv s lists) {cls : ℕ}
    (hidle : s.calls thread = .idle) (hlayout : heapSlabClass block.layout = some cls)
    (hblock : block ∈ s.live) : Keeps (s.deallocToCpuSlab thread block cls) := by
  obtain ⟨place, base, hbase, slot, hslot, haddress, hclassOf⟩ := hinv.live block hblock
  obtain rfl : place.2 = cls := Option.some.inj (hclassOf.symm.trans hlayout)
  have hcls := hinv.class_lt_of_mem hbase
  have hused : bit (s.spans base).freeBitmap slot = false := by
    rw [hinv.slots place base hbase slot hslot, ← haddress]
    exact List.mem_map_of_mem hblock
  obtain ⟨reclaim, spans, cache, hrun, hgiven⟩ :=
    (hinv.classes place).dealloc hcls (hinv.empty_le place) hbase hslot hused
  have hspan : heapSlabSpanBase block.address = base := by
    rw [haddress]
    exact heapSlabSpanBase_slotAddress (hinv.span_dvd (hinv.owned_of_listed hbase)) hcls hslot
  have hbits : ∀ other, ∀ span ∈ lists other, ∀ index < slotsOfClass other.2,
      bit (spans span).freeBitmap index =
        (decide (slotAddress span other.2 index = block.address) ||
        bit (s.spans span).freeBitmap index) := by
    intro other span hspan index hindex
    by_cases heq : span = base
    · subst span
      obtain rfl := hinv.place_eq hspan hbase
      rw [hgiven.bits, haddress]
      congr 2
      exact propext ⟨fun hsame => by rw [hsame], fun hsame => (slotAddress_inj hsame).symm⟩
    · obtain ⟨link, hlink⟩ := hgiven.relinked span heq
      have hne : slotAddress span other.2 index ≠ block.address := by
        rw [haddress]
        exact fun hsame => heq (hinv.slot_unique hspan hindex hbase hslot hsame).1
      simp [hlink, hne]
  obtain ⟨hexclusive, hheld⟩ := hinv.holdings_listsAfter hbase hidle reclaim
  rw [← haddress] at hrun
  refine ⟨_, listsAfter lists place base reclaim,
    deallocToCpuSlab_eq hspan hidle ((hinv.classes place).formed base hbase) hrun, ?_⟩
  refine ⟨hinv.heap, hinv.zero, hinv.large_lt, hinv.classes_update hgiven.holds ?_,
    hinv.empty_le_update cache hgiven.empty_le, ?_, hexclusive, ?_,
    requests_setCall hinv (by cases reclaim <;> simp),
    reclaimed_setCall hinv ?_ ?_, ?_, ?_, ?_⟩
  · intro other hne span hspan
    exact hgiven.outside span fun hmem => hne (hinv.place_eq hspan hmem)
  · intro other hne
    obtain ⟨span, hspan⟩ := List.exists_mem_of_ne_nil _ hne
    exact hinv.class_lt_of_mem ((hinv.mem_listsAfter hbase other span).mp hspan).1
  · intro span
    exact (hinv.owned_iff span).trans (Set.ext_iff.mp hheld span).symm
  · intro span hcall
    cases reclaim with
    | false => exact absurd hcall (by simp)
    | true =>
      obtain rfl : base = span := by simpa using hcall
      exact hgiven.formed.free_count
  · intro other _ span hother
    exact hgiven.outside span (hinv.notListed_of_reclaim hother)
  · intro other span hspan index hindex
    obtain ⟨hold, -⟩ := (hinv.mem_listsAfter hbase other span).mp hspan
    refine Iff.trans ?_ (hinv.mem_addresses_erase hblock _).symm
    rw [← hinv.slots other span hold index hindex]
    simp only [SlabConfig.setCall, setCache, hbits other span hold index hindex]
    simp [and_comm]
  · intro other hother
    have hlive := List.mem_of_mem_erase hother
    have hne := ((hinv.mem_addresses_erase hblock _).mp (List.mem_map_of_mem hother)).2
    obtain ⟨otherPlace, span, hlisted, index, hindex, hat, hother⟩ := hinv.live other hlive
    refine ⟨otherPlace, span, (hinv.mem_listsAfter hbase otherPlace span).mpr ⟨hlisted, ?_⟩,
      index, hindex, hat, hother⟩
    rintro hreclaim rfl
    obtain rfl := hinv.place_eq hlisted hbase
    have hindexNe : index ≠ slot := by
      rintro rfl
      exact hne (hat.trans haddress.symm)
    have hfree := hgiven.others_free hreclaim index hindex hindexNe
    rw [(hinv.slots otherPlace span hlisted index hindex).mpr
      (hat ▸ List.mem_map_of_mem hlive)] at hfree
    exact Bool.false_ne_true hfree
  · exact hinv.live_nodup.sublist (List.erase_sublist.map _)

/-! ## The global heap -/

variable (hinv : Inv s lists)
include hinv

omit [DecidableEq τ] in
theorem Inv.owned_nodup : s.owned.Nodup := by
  have hapart := (List.pairwise_append.mp hinv.heap.hand_apart).1
  rw [List.pairwise_map] at hapart
  refine hapart.imp ?_
  rintro first second hdisjoint rfl
  exact Set.disjoint_left.mp hdisjoint (DyadicBlock.base_mem_block ..)
    (DyadicBlock.base_mem_block ..)

theorem Inv.returnSpan {address : ℕ} (hreclaim : s.calls thread = .reclaim address) :
    Keeps (s.returnSpan thread address) := by
  have hcarried := carried_of_reclaim hreclaim
  have howned : address ∈ s.owned := (hinv.owned_iff address).mpr ⟨Sum.inr thread, hcarried⟩
  have hfresh : ∀ place, address ∉ lists place := fun place => hinv.notListed_of_carried hcarried
  have hpieces : s.pieces.Perm ((address, heapSlabSpanLayout.blockOrder) ::
      ((s.owned.erase address).map (·, heapSlabSpanLayout.blockOrder) ++
        s.large.map fun block => (block.address, block.layout.blockOrder))) :=
    ((List.perm_cons_erase howned).map _).append_right _
  obtain ⟨heap, hrun, hholds⟩ := (hinv.heap.perm hpieces).dealloc (by
    rw [blockOrder_span]
    decide)
  have hsource : (s.holdings lists (Sum.inr thread)).Perm
      ([address] ++ (s.setCall thread .idle).holdings lists (Sum.inr thread)) := by
    rw [holdings_setCall_self, holdings, Sum.elim_inr, hreclaim]
    exact .refl _
  have hother : ∀ owner, owner ≠ Sum.inr thread →
      (s.setCall thread .idle).holdings lists owner = s.holdings lists owner :=
    fun owner hne => holdings_setCall_of_ne hne
  have hsame : ∀ other, ∀ span ∈ lists other, update s.spans address
      { s.spans address with magic := heapSlabDeadMagic } span = s.spans span := by
    intro other span hspan
    refine update_of_ne ?_ ..
    rintro rfl
    exact hfresh other hspan
  refine ⟨_, lists, by rw [SlabConfig.returnSpan, hrun], ?_⟩
  refine ⟨hholds, hinv.zero, hinv.large_lt,
    fun other => ClassHolds.congr (hinv.classes other) (hsame other), hinv.empty_le, hinv.class_lt,
    hinv.exclusive.leave hsource hother, ?_, requests_setCall hinv (by simp),
    reclaimed_setCall hinv (by simp) ?_, ?_, hinv.live, hinv.live_nodup⟩
  · intro span
    refine Iff.trans ?_ (Set.ext_iff.mp (held_leave hinv.exclusive hsource hother) span).symm
    refine hinv.owned_nodup.mem_erase_iff.trans ?_
    rw [hinv.owned_iff, and_comm]
    simp
  · intro other hne span hother
    refine update_of_ne ?_ ..
    rintro rfl
    exact hne (hinv.thread_eq (carried_of_reclaim hother) hcarried)
  · intro other span hspan index hindex
    refine Iff.trans ?_ (hinv.slots other span hspan index hindex)
    simp only [SlabConfig.setCall, hsame other span hspan]

omit [DecidableEq τ] in
theorem Inv.allocLarge (layout : Layout) : Keeps (s.allocLarge layout) := by
  obtain ⟨result, heap, halloc, hholds, horder⟩ := hinv.heap.alloc hinv.zero layout
  cases result with
  | none =>
    refine ⟨_, lists, by rw [SlabConfig.allocLarge, halloc], ?_⟩
    exact { hinv with heap := hholds }
  | some address =>
    have hpieces : ((address, layout.blockOrder) :: s.pieces).Perm
        (s.owned.map (·, heapSlabSpanLayout.blockOrder) ++ (address, layout.blockOrder) ::
          s.large.map fun block => (block.address, block.layout.blockOrder)) :=
      List.perm_middle.symm
    refine ⟨_, lists, by rw [SlabConfig.allocLarge, halloc], ?_⟩
    refine { hinv with heap := hholds.perm hpieces, large_lt := fun block hblock => ?_ }
    rcases List.mem_cons.mp hblock with rfl | hold
    · exact horder (Option.some_ne_none address)
    · exact hinv.large_lt block hold

omit [DecidableEq τ] in
theorem Inv.deallocLarge (hblock : block ∈ s.large) : Keeps (s.deallocLarge block) := by
  have hpieces : s.pieces.Perm ((block.address, block.layout.blockOrder) ::
      (s.owned.map (·, heapSlabSpanLayout.blockOrder) ++
        (s.large.erase block).map fun block => (block.address, block.layout.blockOrder))) :=
    (((List.perm_cons_erase hblock).map _).append_left _).trans List.perm_middle
  obtain ⟨heap, hrun, hholds⟩ := (hinv.heap.perm hpieces).dealloc (hinv.large_lt block hblock)
  refine ⟨_, lists, by rw [SlabConfig.deallocLarge, hrun], ?_⟩
  exact { hinv with
    heap := hholds
    large_lt := fun other hother => hinv.large_lt other (List.mem_of_mem_erase hother) }

omit [DecidableEq τ] in
theorem Inv.grow {start stop : ℕ} (hfresh : s.Fresh start stop) : Keeps (s.grow start stop) := by
  obtain ⟨hpos, hroom, happart⟩ := hfresh
  have hdisjoint : Disjoint (Set.Ico start stop) s.managed := by
    rw [Set.disjoint_left]
    rintro byte ⟨hlow, hhigh⟩ ⟨range, hrange, hrangeLow, hrangeHigh⟩
    rcases happart range hrange with hbelow | habove <;> omega
  obtain ⟨heap, hrun, hholds⟩ := hinv.heap.addToHeap
    (le_trans (Nat.add_le_add_left (by decide) start) hroom) hdisjoint
  have hmanaged : s.managed ∪ Set.Ico start stop ⊆
      { s with heap := heap, memory := (start, stop) :: s.memory }.managed := by
    rintro byte (⟨range, hrange, hbyte⟩ | hbyte)
    · exact ⟨range, List.mem_cons_of_mem _ hrange, hbyte⟩
    · exact ⟨(start, stop), List.mem_cons_self, hbyte⟩
  refine ⟨_, lists, by rw [SlabConfig.grow, hrun], ?_⟩
  refine { hinv with heap := hholds.mono hmanaged, zero := ?_ }
  rintro ⟨range, hrange, hlow, hhigh⟩
  rcases List.mem_cons.mp hrange with rfl | hold
  · exact absurd hlow (Nat.not_le.mpr hpos)
  · exact hinv.zero ⟨range, hold, hlow, hhigh⟩

theorem Inv.sectionOf {step : SlabStep cpus τ} {run : Except SlabPanic (SlabConfig cpus τ)}
    (hrun : s.sectionOf step = some run) : Keeps run := by
  cases step <;> simp only [SlabConfig.sectionOf] at hrun
  case alloc thread cpu layout =>
    split at hrun <;> cases hrun
    next hidle hlayout => exact hinv.allocFromCpuSlab hidle hlayout
  case obtainSpan thread =>
    split at hrun <;> cases hrun
    next hrefill => exact hinv.obtainSpan hrefill
  case giveUp thread =>
    split at hrun <;> cases hrun
    next hrefill =>
      refine ⟨_, lists, rfl, hinv.setCall (by simp) ?_ (by simp)⟩
      rw [hrefill]
      rfl
  case insertSpan thread cpu =>
    split at hrun <;> cases hrun
    next hinsert => exact hinv.insertSpan hinsert
  case dealloc thread block =>
    split at hrun
    · next hidle hlayout =>
      split at hrun <;> cases hrun
      next hblock => exact hinv.deallocToCpuSlab hidle hlayout hblock
    · simp at hrun
  case returnSpan thread =>
    split at hrun <;> cases hrun
    next hreclaim => exact hinv.returnSpan hreclaim
  case allocLarge layout =>
    split at hrun <;> cases hrun
    exact hinv.allocLarge layout
  case deallocLarge block =>
    split at hrun <;> cases hrun
    next hblock => exact hinv.deallocLarge hblock
  case grow start stop =>
    split at hrun <;> cases hrun
    next hfresh => exact hinv.grow hfresh

end SlabConfig

/-! ## Runs of the slab heap -/

variable {cls : ℕ}

theorem heapSlabClassSize_eq {layout : Layout} (hcls : heapSlabClass layout = some cls) :
    heapSlabClassSize cls =
      max (nextPowerOfTwo (max (max layout.size layout.align) 1)) heapSlabMinSize := by
  unfold heapSlabClass at hcls
  split at hcls
  · simp at hcls
  · next rounded hrounded =>
    obtain rfl := checkedNextPowerOfTwo_eq_some hrounded
    have hmin : heapSlabMinSize = 2 ^ 4 := rfl
    have hsize : max (nextPowerOfTwo (max (max layout.size layout.align) 1)) heapSlabMinSize =
        2 ^ max (Nat.clog 2 (max (max layout.size layout.align) 1)) 4 := by
      rw [hmin, nextPowerOfTwo]
      exact (Monotone.map_max (fun _ _ hle => Nat.pow_le_pow_right two_pos hle)).symm
    simp only [hsize] at hcls ⊢
    split at hcls
    · simp at hcls
    · next hle =>
      have hexponent : max (Nat.clog 2 (max (max layout.size layout.align) 1)) 4 ≤ 12 :=
        (Nat.pow_le_pow_iff_right one_lt_two).mp (not_lt.mp hle)
      have hbits : wordBits = 64 := rfl
      split at hcls <;> cases hcls
      rw [heapSlabClassSize, hmin, ← pow_add, DyadicBlock.trailingZeros_two_pow,
        DyadicBlock.trailingZeros_two_pow, hbits]
      congr 1
      omega

theorem fits_of_heapSlabClass {layout : Layout} (hcls : heapSlabClass layout = some cls) :
    layout.size ≤ heapSlabClassSize cls ∧ layout.align ∣ heapSlabClassSize cls := by
  have hle : max layout.size layout.align ≤ heapSlabClassSize cls := by
    rw [heapSlabClassSize_eq hcls]
    calc max layout.size layout.align ≤ max (max layout.size layout.align) 1 := le_max_left ..
      _ ≤ nextPowerOfTwo (max (max layout.size layout.align) 1) := le_nextPowerOfTwo _
      _ ≤ _ := le_max_left ..
  refine ⟨(le_max_left ..).trans hle, ?_⟩
  obtain ⟨exponent, halign⟩ := layout.align_pow
  have hpow : heapSlabClassSize cls = 2 ^ (4 + cls) := by
    rw [heapSlabClassSize, pow_add]
    rfl
  have hbelow : layout.align ≤ heapSlabClassSize cls := (le_max_right ..).trans hle
  rw [hpow, halign] at hbelow ⊢
  exact Nat.pow_dvd_pow 2 ((Nat.pow_le_pow_iff_right one_lt_two).mp hbelow)

def slotSize (layout : Layout) : ℕ := (heapSlabClass layout).elim 0 heapSlabClassSize

def SlabBlock.slot (block : SlabBlock) : Set ℕ :=
  Set.Ico block.address (block.address + slotSize block.layout)

theorem slotAddress_dvd {base slot : ℕ} (hbase : heapSlabSpanSize ∣ base)
    (hcls : cls < heapSlabClassCount) : heapSlabClassSize cls ∣ slotAddress base cls slot :=
  Nat.dvd_add (Nat.dvd_add ((slotOffset_bounds hcls).2.2.2.2.trans hbase)
    (classSize_dvd_slotOffset cls)) (Dvd.intro_left _ rfl)

theorem slots_apart {base first second : ℕ} (hne : first ≠ second) : Disjoint
      (Set.Ico (slotAddress base cls first) (slotAddress base cls first + heapSlabClassSize cls))
      (Set.Ico (slotAddress base cls second)
        (slotAddress base cls second + heapSlabClassSize cls)) := by
  have horder : ∀ low high : ℕ, low < high → slotAddress base cls low + heapSlabClassSize cls ≤
      slotAddress base cls high := by
    intro low high hlt
    have hmul : (low + 1) * heapSlabClassSize cls ≤ high * heapSlabClassSize cls :=
      Nat.mul_le_mul_right _ hlt
    rw [Nat.add_mul, Nat.one_mul] at hmul
    unfold slotAddress
    omega
  rw [Set.Ico_disjoint_Ico]
  rcases Nat.lt_or_gt_of_ne hne with hlt | hlt
  · exact (min_le_left ..).trans ((horder _ _ hlt).trans (le_max_right ..))
  · exact (min_le_right ..).trans ((horder _ _ hlt).trans (le_max_left ..))

/-- The spans from `current` on, at most `fuel` of them. -/
def walk (spans : SpanMemory) : (fuel current : ℕ) → List ℕ
  | 0, _ => []
  | fuel + 1, current =>
    if current = 0 then [] else current :: walk spans fuel (spans current).next

theorem walk_eq {spans : SpanMemory} {current : ℕ} {list : List ℕ}
    (hchain : Chain (fun base => (spans base).next) 0 current list) :
    walk spans list.length current = list := by
  induction list generalizing current with
  | nil => rfl
  | cons base rest ih =>
    obtain ⟨rfl, hne, hrest⟩ := hchain
    rw [List.length_cons, walk, if_neg hne, ih hrest]

namespace SlabConfig

variable {cpus : ℕ} {τ : Type*}

def spanList (config : SlabConfig cpus τ) (cpu : Fin cpus) (cls : ℕ) : List ℕ :=
  walk config.spans (config.caches (cpu, cls)).spanCount (config.caches (cpu, cls)).head

variable {config s : SlabConfig cpus τ} {lists : Fin cpus × ℕ → List ℕ} {base : ℕ}

theorem Inv.spanList_eq (hinv : Inv s lists) (cpu : Fin cpus) (cls : ℕ) :
    s.spanList cpu cls = lists (cpu, cls) := by
  have hclass := hinv.classes (cpu, cls)
  rw [spanList, hclass.span_count]
  exact walk_eq hclass.chain

inductive SpanState (cpus : ℕ) (τ : Type*) where
  | listed (cpu : Fin cpus) (cls : ℕ)
  | carried (thread : τ)
  | returned

/-- A carried span is on its way between the global heap and a list. -/
def InState (s : SlabConfig cpus τ) (base : ℕ) : SpanState cpus τ → Prop
  | .listed cpu cls => base ∈ s.spanList cpu cls
  | .carried thread => base ∈ (s.calls thread).carried
  | .returned => base ∉ s.owned

def SpanState.ofOwner : Fin cpus × ℕ ⊕ τ → SpanState cpus τ
  | .inl (cpu, cls) => .listed cpu cls
  | .inr thread => .carried thread

theorem Inv.inState_ofOwner (hinv : Inv s lists) (owner : Fin cpus × ℕ ⊕ τ) :
    s.InState base (SpanState.ofOwner owner) ↔ base ∈ s.holdings lists owner := by
  cases owner with
  | inl place =>
    rw [SpanState.ofOwner, InState, hinv.spanList_eq]
    rfl
  | inr thread => rfl

theorem Inv.existsUnique_inState (hinv : Inv s lists) (base : ℕ) :
    ∃! state, s.InState base state := by
  by_cases howned : base ∈ s.owned
  · obtain ⟨owner, howner⟩ := (hinv.owned_iff base).mp howned
    have hunique : ∀ other, base ∈ s.holdings lists other → other = owner :=
      fun other hother => hinv.exclusive.unique other owner base hother howner
    refine ⟨SpanState.ofOwner owner, (hinv.inState_ofOwner owner).mpr howner, ?_⟩
    intro state hstate
    cases state with
    | listed cpu cls =>
      rw [← hunique (Sum.inl (cpu, cls)) ((hinv.inState_ofOwner (Sum.inl (cpu, cls))).mp hstate)]
      rfl
    | carried thread =>
      rw [← hunique (Sum.inr thread) hstate]
      rfl
    | returned => exact absurd howned hstate
  · refine ⟨.returned, howned, ?_⟩
    intro state hstate
    cases state with
    | listed cpu cls =>
      rw [InState, hinv.spanList_eq] at hstate
      exact absurd (hinv.owned_of_listed hstate) howned
    | carried thread =>
      exact absurd ((hinv.owned_iff base).mpr ⟨Sum.inr thread, hstate⟩) howned
    | returned => rfl

/-! ## Soundness -/

structure Sound (config : SlabConfig cpus τ) : Prop where
  live_apart : config.live.Pairwise fun first second => Disjoint first.slot second.slot
  live_fits : ∀ block ∈ config.live,
    block.layout.size ≤ slotSize block.layout ∧ block.layout.align ∣ block.address
  live_inside : ∀ block ∈ config.live,
    block.slot ⊆ Set.Ico (heapSlabSpanBase block.address + heapSlabHeaderSize)
      (heapSlabSpanBase block.address + heapSlabSpanSize) ∧
    ∃ cpu cls, heapSlabSpanBase block.address ∈ config.spanList cpu cls
  counted : ∀ base ∈ config.owned,
    (∀ thread layout cls, config.calls thread ≠ .insert layout cls base) →
      (config.spans base).Counted
  empty_count : ∀ cpu cls, (config.caches (cpu, cls)).emptyCount =
    (config.spanList cpu cls).countP fun base => (config.spans base).isEmpty
  empty_le : ∀ cpu cls, (config.caches (cpu, cls)).emptyCount ≤ 1
  active : ∀ cpu cls, (config.caches (cpu, cls)).active = 0 ∨
    (config.caches (cpu, cls)).active ∈ config.spanList cpu cls
  list_nodup : ∀ cpu cls, (config.spanList cpu cls).Nodup
  placed : ∀ base, ∃! state, config.InState base state
  owned_apart : ∀ base ∈ config.owned, ∀ piece, config.heap.Free piece →
    Disjoint (Set.Ico base (base + heapSlabSpanSize)) (cells piece)

section

variable (hinv : Inv s lists)
include hinv

theorem Inv.live_placed {block : SlabBlock} (hblock : block ∈ s.live) :
    block.layout.size ≤ slotSize block.layout ∧ block.layout.align ∣ block.address ∧
      block.slot ⊆ Set.Ico (heapSlabSpanBase block.address + heapSlabHeaderSize)
        (heapSlabSpanBase block.address + heapSlabSpanSize) ∧
      ∃ cpu cls, heapSlabSpanBase block.address ∈ s.spanList cpu cls := by
  obtain ⟨place, base, hbase, slot, hslot, haddress, hclass⟩ := hinv.live block hblock
  have hcls := hinv.class_lt_of_mem hbase
  have hdvd := hinv.span_dvd (hinv.owned_of_listed hbase)
  have hspan : heapSlabSpanBase block.address = base := by
    rw [haddress]
    exact heapSlabSpanBase_slotAddress hdvd hcls hslot
  have hsize : slotSize block.layout = heapSlabClassSize place.2 := by rw [slotSize, hclass]; rfl
  obtain ⟨hfits, halign⟩ := fits_of_heapSlabClass hclass
  obtain ⟨hlow, hhigh⟩ := slotAddress_inside base hcls hslot
  rw [hspan, SlabBlock.slot, hsize, haddress]
  refine ⟨hfits, halign.trans (slotAddress_dvd hdvd hcls), Set.Ico_subset_Ico hlow hhigh,
    place.1, place.2, ?_⟩
  rw [hinv.spanList_eq]
  exact hbase

theorem Inv.heapSlabSpanBase_of_mem_slot {block : SlabBlock} (hblock : block ∈ s.live) {byte : ℕ}
    (hbyte : byte ∈ block.slot) : heapSlabSpanBase byte = heapSlabSpanBase block.address := by
  obtain ⟨hlow, hhigh⟩ := (hinv.live_placed hblock).2.2.1 hbyte
  exact heapSlabSpanBase_of_mem (Dvd.intro_left _ rfl) ⟨(Nat.le_add_right ..).trans hlow, hhigh⟩

theorem Inv.live_apart : s.live.Pairwise fun first second => Disjoint first.slot second.slot := by
  refine (List.pairwise_map.mp hinv.live_nodup).imp_of_mem ?_
  intro first second hfirst hsecond hne
  by_cases hspan : heapSlabSpanBase first.address = heapSlabSpanBase second.address
  · obtain ⟨place, base, hbase, slot, hslot, haddress, hclass⟩ := hinv.live first hfirst
    obtain ⟨other, span, hlisted, index, hindex, hat, hother⟩ := hinv.live second hsecond
    rw [haddress, hat, heapSlabSpanBase_slotAddress (hinv.span_dvd (hinv.owned_of_listed hbase))
        (hinv.class_lt_of_mem hbase) hslot,
      heapSlabSpanBase_slotAddress (hinv.span_dvd (hinv.owned_of_listed hlisted))
        (hinv.class_lt_of_mem hlisted) hindex] at hspan
    subst span
    obtain rfl := hinv.place_eq hbase hlisted
    simp only [SlabBlock.slot, slotSize, hclass, hother, haddress, hat, Option.elim_some]
    refine slots_apart ?_
    rintro rfl
    exact hne (haddress.trans hat.symm)
  · rw [Set.disjoint_left]
    intro byte hbyte hsecondByte
    exact hspan ((hinv.heapSlabSpanBase_of_mem_slot hfirst hbyte).symm.trans
      (hinv.heapSlabSpanBase_of_mem_slot hsecond hsecondByte))

theorem Inv.counted (howned : base ∈ s.owned)
    (hnot : ∀ thread layout cls, s.calls thread ≠ .insert layout cls base) :
    (s.spans base).Counted := by
  obtain ⟨owner, howner⟩ := (hinv.owned_iff base).mp howned
  cases owner with
  | inl place => exact ((hinv.classes place).formed base howner).free_count
  | inr thread =>
    have hcarried : base ∈ (s.calls thread).carried := howner
    cases hcall : s.calls thread with
    | idle | refill layout cls => simp [hcall, SlabCall.carried] at hcarried
    | insert layout cls address =>
      rw [hcall, SlabCall.carried, List.mem_singleton] at hcarried
      exact absurd (hcarried ▸ hcall) (hnot thread layout cls)
    | reclaim address =>
      rw [hcall, SlabCall.carried, List.mem_singleton] at hcarried
      exact hinv.reclaimed thread base (hcarried ▸ hcall)

theorem Inv.sound : Sound s where
  live_apart := hinv.live_apart
  live_fits := fun block hblock => ⟨(hinv.live_placed hblock).1, (hinv.live_placed hblock).2.1⟩
  live_inside := fun block hblock => (hinv.live_placed hblock).2.2
  counted := fun base howned hnot => hinv.counted howned hnot
  empty_count := fun cpu cls => by
    rw [hinv.spanList_eq]
    exact (hinv.classes (cpu, cls)).empty_count
  empty_le := fun cpu cls => hinv.empty_le (cpu, cls)
  active := fun cpu cls => by
    rw [hinv.spanList_eq]
    exact (hinv.classes (cpu, cls)).active
  list_nodup := fun cpu cls => by
    rw [hinv.spanList_eq]
    exact (hinv.classes (cpu, cls)).nodup
  placed := hinv.existsUnique_inState
  owned_apart := fun base howned piece hfree => by
    have hapart := hinv.heap.between piece hfree (base, heapSlabSpanLayout.blockOrder)
      (List.mem_append_left _ (List.mem_map_of_mem howned))
    rw [blockOrder_span] at hapart
    exact hapart.symm

end

variable [DecidableEq τ]

theorem inv_of_reachable {spans : SpanMemory} (hreach : Reachable next always (booted spans) s) :
    ∃ lists, Inv s lists := by
  induction hreach with
  | start => exact ⟨_, inv_booted spans⟩
  | step step _ _ hnext ih =>
    obtain ⟨lists, hinv⟩ := ih
    obtain ⟨run, hrun, hafter⟩ := Option.bind_eq_some_iff.mp hnext
    obtain ⟨result, lists, rfl, hkept⟩ := hinv.sectionOf hrun
    cases hafter
    exact ⟨lists, hkept⟩

/-- In every reachable state the slab heap is sound, and no section panics. -/
theorem sound_of_reachable
    {spans : SpanMemory} (hreach : Reachable next always (booted spans) config) :
    Sound config ∧ ∀ step run, config.sectionOf step = some run → ∃ after, run = .ok after := by
  obtain ⟨lists, hinv⟩ := inv_of_reachable hreach
  refine ⟨hinv.sound, fun step run hrun => ?_⟩
  obtain ⟨after, -, hafter, -⟩ := hinv.sectionOf hrun
  exact ⟨after, hafter⟩

def blankSpan : HeapSlabSpan := ⟨0, 0, 0, 0, 0, 0, 0, 0, fun _ => 0⟩

theorem eight_pow : ∃ exponent, 8 = 2 ^ exponent := ⟨3, rfl⟩

def page : Layout := ⟨4096, 8, eight_pow, by decide⟩

/-- Two calls find the class empty at the same time and put two spans to use. -/
def twoSpans : List (SlabStep 1 (Fin 2)) :=
  [.grow 0x20000 0x40000, .alloc i₀ i₀ page, .alloc i₁ i₀ page, .obtainSpan i₀, .obtainSpan i₁,
    .insertSpan i₀ i₀, .insertSpan i₁ i₀]

theorem sound_after_twoSpans : ∃ config : SlabConfig 1 (Fin 2),
      Reachable next always (booted fun _ => blankSpan) config ∧
        config.live = [⟨0x31000, page⟩, ⟨0x21000, page⟩] ∧ Sound config ∧
        ∀ step run, config.sectionOf step = some run → ∃ after, run = .ok after := by
  refine (exists_reachable_of_runSteps twoSpans ?_).imp fun config ⟨hreach, hlive⟩ =>
    ⟨hreach, hlive, sound_of_reachable hreach⟩
  decide +kernel

/-- On a list, or full and on no list, or with the global heap. -/
def Settled (config : SlabConfig cpus τ) (base : ℕ) : Prop :=
  (∃ cpu cls, base ∈ config.spanList cpu cls) ∨
    ((∀ cpu cls, base ∉ config.spanList cpu cls) ∧ (config.spans base).freeCount = 0) ∨
    base ∉ config.owned

/-- Both blocks are freed again.  The second span is then off its list, entirely
free, and not yet with the global heap. -/
theorem not_settled_after_twoSpans : ∃ config : SlabConfig 1 (Fin 2),
      Reachable next always (booted fun _ => blankSpan) config ∧
        (config.spans 0x30000).magic = heapSlabMagic ∧ ¬config.Settled 0x30000 := by
  obtain ⟨config, hreach, hcall, howned, hmagic, hfree⟩ : ∃ config : SlabConfig 1 (Fin 2),
      Reachable next always (booted fun _ => blankSpan) config ∧
        config.calls 1 = .reclaim 0x30000 ∧ 0x30000 ∈ config.owned ∧
        (config.spans 0x30000).magic = heapSlabMagic ∧ (config.spans 0x30000).freeCount ≠ 0 :=
    exists_reachable_of_runSteps
      (twoSpans ++ [.dealloc 0 ⟨0x21000, page⟩, .dealloc 1 ⟨0x31000, page⟩]) (by decide +kernel)
  obtain ⟨lists, hinv⟩ := inv_of_reachable hreach
  refine ⟨config, hreach, hmagic, ?_⟩
  rintro (⟨cpu, cls, hlisted⟩ | ⟨-, hfull⟩ | hreturned)
  · rw [hinv.spanList_eq] at hlisted
    exact hinv.notListed_of_reclaim hcall hlisted
  · exact hfree hfull
  · exact hreturned howned

/-- A slot of a listed span is taken exactly when a live block starts there: no slot is
lost. -/
theorem taken_iff_live_of_reachable {spans : SpanMemory}
    (hreach : Reachable next always (booted spans) config) (cpu : Fin cpus) (cls : ℕ) :
    ∀ base ∈ config.spanList cpu cls, ∀ slot < slotsOfClass cls,
      bit (config.spans base).freeBitmap slot = false ↔
        ∃ block ∈ config.live, block.address = slotAddress base cls slot := by
  obtain ⟨lists, hinv⟩ := inv_of_reachable hreach
  intro base hbase slot hslot
  rw [hinv.spanList_eq] at hbase
  exact (hinv.slots (cpu, cls) base hbase slot hslot).trans List.mem_map

theorem taken_after_twoSpans : ∃ config : SlabConfig 1 (Fin 2),
      Reachable next always (booted fun _ => blankSpan) config ∧
        bit (config.spans 0x30000).freeBitmap 0 = false := by
  obtain ⟨config, hreach, hlive, hlisted⟩ : ∃ config : SlabConfig 1 (Fin 2),
      Reachable next always (booted fun _ => blankSpan) config ∧
        ⟨0x31000, page⟩ ∈ config.live ∧ 0x30000 ∈ config.spanList 0 8 :=
    exists_reachable_of_runSteps twoSpans (by decide +kernel)
  exact ⟨config, hreach, (taken_iff_live_of_reachable hreach 0 8 0x30000 hlisted 0
    (by decide)).mpr ⟨_, hlive, rfl⟩⟩

end SlabConfig

end Kairix.KernelHeap
