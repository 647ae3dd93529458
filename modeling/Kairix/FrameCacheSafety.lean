import Kairix.FrameAllocatorSafety
import Kairix.FrameCacheSteps
import Kairix.LabelledRun

/-!
# Runs of the frame caches

In every state which any number of CPUs can reach, a page of the memory map is
in one place, its state byte tells which, and what is handed out as zeroed was
cleared since its last use.
-/

namespace Kairix.Frame

open Function PanicOutcome ExclusiveHoldings BuddyFrameAllocator LabelledRun DyadicBlock List

namespace CacheConfig

variable {cpus : ℕ} {bounds : List (ℕ × ℕ)} {s : CacheConfig cpus}
variable {cpu : Fin cpus}

/-! ## Draining -/

attribute [local simp] CacheConfig.setPhase CpuPhase.transitState CpuPhase.Ok CpuPhase.transit
  ownerState setCache

theorem entryPhase_transit (call : AllocCall) : (entryPhase call).transit = [] := by
  cases hrequest : call.request <;> simp [entryPhase, hrequest]

theorem drainNext_transit (call : AllocCall) (kind : CacheKind) :
    (drainNext call kind).transit = [] := by
  cases kind with
  | free => rfl
  | dirty => rfl
  | zeroed => exact entryPhase_transit call

theorem drainNext_ok (call : AllocCall) (kind : CacheKind) (dirty zeroed : List ℕ)
    (cleared : Finset ℕ) : (drainNext call kind).Ok dirty zeroed cleared := by
  cases kind with
  | free => trivial
  | dirty => trivial
  | zeroed => cases hrequest : call.request <;> simp [drainNext, entryPhase, hrequest]

section

variable (hinv : s.Invariant bounds)
include hinv

theorem Invariant.unpublish {call : AllocCall} {kind : CacheKind} {place : Fin cpus} {index : ℕ}
    (hidle : (s.phase cpu).transit = []) :
    ∃ changed, CacheConfig.unpublish s.allocator kind (s.cache kind place) = .ok changed ∧
      (((s.setCache kind place []).setAllocator changed).setPhase cpu
        (.drainFlush call kind index (s.cache kind place))).Invariant bounds := by
  have hpulled (hstate : CpuPhase.transitState (.drainFlush call kind index
      (s.cache kind place)) = kind.frameState) :=
    hinv.pull (Perm.of_eq (append_nil _).symm) (nil_sublist _)
      (by rw [hidle, append_nil]; rfl) (fun hsome => absurd hidle hsome) hstate trivial
  cases kind with
  | free | dirty => exact ⟨s.allocator, rfl, hpulled rfl⟩
  | zeroed =>
    have hmoved := moved_cache_to_transit (.drainFlush call .zeroed index
      (s.cache .zeroed place)) (Perm.of_eq (append_nil _).symm)
      (by rw [hidle, append_nil]; rfl) fun hsome => absurd hidle hsome
    obtain ⟨changed, htransition, howned⟩ := Owned.transitionAll frameStateAnonZeroed
      frameStateAllocated hmoved hinv.owned (by decide) (fun _ => rfl) (fun _ => by
        simp)
    exact ⟨changed, htransition, hinv.withdraw (nil_sublist _) howned trivial⟩

theorem Invariant.drainStep {call : AllocCall} {kind : CacheKind} {index : ℕ}
    (hphase : s.phase cpu = .drain call kind index) :
    StepOk bounds s (s.drainStep cpu call kind index) := by
  have hidle := idle_of_phase hphase rfl
  rw [CacheConfig.drainStep]
  by_cases hindex : index < cpus
  · rw [dif_pos hindex]
    simp only
    split
    · exact StepOk.quiet (hinv.setPhase hidle rfl trivial)
    · rw [if_neg (Nat.not_lt.mpr (hinv.guarded.capacity kind ⟨index, hindex⟩))]
      obtain ⟨changed, hchanged, hafter⟩ := hinv.unpublish hidle
      rw [hchanged]
      apply StepOk.quiet
      cases kind with
      | free | dirty | zeroed => exact hafter.withCounts _ _ _
  · rw [dif_neg hindex]
    exact StepOk.quiet (hinv.setPhase hidle (drainNext_transit call kind)
      (drainNext_ok call kind _ _ _))

theorem Invariant.drainFlushStep {call : AllocCall} {kind : CacheKind} {index : ℕ} {batch : List ℕ}
    (hphase : s.phase cpu = .drainFlush call kind index batch) :
    StepOk bounds s (s.drainFlushStep cpu call kind index batch) := by
  have hbatch : (s.phase cpu).transit = batch := congrArg CpuPhase.transit hphase
  have hstate : (s.phase cpu).transitState = frameStateAllocated ∨
      (s.phase cpu).transitState = frameStateCpuCached := by
    rw [hphase]
    cases kind with
    | free => exact .inr rfl
    | dirty => exact .inl rfl
    | zeroed => exact .inl rfl
  rw [CacheConfig.drainFlushStep]
  apply (hinv.giveBack (.drain call kind (index + 1)) hbatch hstate rfl fun _ _ _ => trivial).bind
  exact fun freed hafter => StepOk.quiet hafter

theorem Invariant.flushStep {batch : List ℕ} (hphase : s.phase cpu = .flush batch) :
    StepOk bounds s (s.flushStep cpu batch) := by
  have hbatch : (s.phase cpu).transit = batch := congrArg CpuPhase.transit hphase
  have hstate : (s.phase cpu).transitState = frameStateCpuCached :=
    congrArg CpuPhase.transitState hphase
  rw [CacheConfig.flushStep]
  apply (hinv.giveBack .idle hbatch (.inr hstate) rfl fun _ _ _ => trivial).bind
  exact fun freed hafter => StepOk.quiet hafter

end

theorem Invariant.deallocPush {ppn : ℕ} (count : ℕ) (phase : CpuPhase)
    (hinv : s.Invariant bounds) (hphase : s.phase cpu = .deallocPush ppn)
    (htransit : phase.transit = (s.cache .free cpu).take count)
    (hstate : phase.transit ≠ [] → phase.transitState = frameStateCpuCached)
    (hroom : (s.cache .free cpu).length - count < CacheKind.capacity .free)
    (hok : ∀ dirty zeroed, phase.Ok dirty zeroed s.cleared) :
    ((s.setCache .free cpu (ppn :: (s.cache .free cpu).drop count)).setPhase cpu
      phase).Invariant bounds := by
  let pulled := (s.setCache .free cpu ((s.cache .free cpu).drop count)).setPhase cpu
    (.flush ((s.cache .free cpu).take count ++ [ppn]))
  have hpulled : pulled.Invariant bounds :=
    hinv.pull (Perm.of_eq (take_append_drop count _).symm) (drop_sublist count _)
      (by rw [hphase]; rfl) (fun _ => by rw [hphase]; rfl) rfl trivial
  have hpages : (pulled.phase cpu).transit.Perm ([ppn] ++ phase.transit) := by
    rw [setPhase_phase_self, htransit]
    exact perm_append_comm
  have hcached : (pulled.phase cpu).transitState = CacheKind.frameState .free := by
    rw [setPhase_phase_self]
    rfl
  have hcache : pulled.cache .free cpu = (s.cache .free cpu).drop count := by
    simp [pulled]
  have hpushed := hpulled.push hpages hcached (fun hsome => (hstate hsome).trans hcached.symm)
    (by rw [hcache, length_append, length_singleton, length_drop]; omega) hok
    (by simp)
  have hsame : (pulled.setCache .free cpu ([ppn] ++ pulled.cache .free cpu)).setPhase cpu phase =
      (s.setCache .free cpu (ppn :: (s.cache .free cpu).drop count)).setPhase cpu
        phase := by
    rw [hcache]
    simp only [pulled, CacheConfig.setPhase, setCache, Function.update_idem, singleton_append]
    congr
    funext kind place
    split <;> rfl
  rwa [hsame] at hpushed

theorem Invariant.deallocPushStep {ppn : ℕ} (hinv : s.Invariant bounds)
    (hphase : s.phase cpu = .deallocPush ppn) :
    StepOk bounds s (s.deallocPushStep cpu ppn) := by
  have hcapacity := hinv.guarded.capacity .free cpu
  rw [CacheConfig.deallocPushStep]
  simp only
  generalize hcount : (if (s.cache .free cpu).length = CacheKind.capacity .free then
    frameFreeCacheFlush else 0) = count
  have hroom : (s.cache .free cpu).length - count < CacheKind.capacity .free := by
    by_cases hfull : (s.cache .free cpu).length = CacheKind.capacity .free
    · rw [if_pos hfull] at hcount
      simp only [frameFreeCacheFlush, CacheKind.capacity] at hcount hfull ⊢
      omega
    · omega
  rw [if_neg (by rw [length_drop]; omega)]
  apply StepOk.quiet
  split
  · next hnone =>
    have hafter := hinv.deallocPush count .idle hphase hnone.symm
      (fun hsome => absurd rfl hsome) hroom fun _ _ => trivial
    exact hafter.withCounts _ _ _
  · have hafter := hinv.deallocPush count (.flush ((s.cache .free cpu).take count))
      hphase rfl (fun _ => rfl) hroom fun _ _ => trivial
    exact hafter.withCounts _ _ _

/-! ## Clearing pages on an idle CPU -/

section

variable (hinv : s.Invariant bounds)
include hinv

theorem Invariant.prezeroCheckStep (hphase : s.phase cpu = .prezeroCheck) :
    (s.prezeroCheckStep cpu).Invariant bounds := by
  have hidle := idle_of_phase hphase rfl
  rw [CacheConfig.prezeroCheckStep]
  split
  · exact hinv.setPhase hidle rfl trivial
  · next hcheck =>
    rw [not_or, Nat.not_le] at hcheck
    exact hinv.setPhase hidle rfl hcheck.2

theorem Invariant.prezeroDirtyStep {offset : ℕ} (hphase : s.phase cpu = .prezeroDirty offset) :
    (s.prezeroDirtyStep cpu offset).Invariant bounds := by
  have hidle := idle_of_phase hphase rfl
  have hroom := hinv.ok_of_phase hphase
  rw [CacheConfig.prezeroDirtyStep]
  split
  · exact hinv.setPhase hidle rfl hroom
  · split
    · exact hinv.setPhase hidle rfl hroom
    · next ppn rest hpop =>
      apply hinv.pop_dirty hidle hpop rfl rfl
      simpa using hroom

theorem Invariant.prezeroFreeStep (hphase : s.phase cpu = .prezeroFree) :
    StepOk bounds s (s.prezeroFreeStep cpu) := by
  have hidle := idle_of_phase hphase rfl
  have hroom := hinv.ok_of_phase hphase
  rw [CacheConfig.prezeroFreeStep, popCpuFreeFrame]
  cases hcache : s.cache .free cpu with
  | nil => exact StepOk.quiet (hinv.setPhase hidle rfl hroom)
  | cons ppn rest =>
    obtain ⟨changed, htransition, hafter⟩ := hinv.pop_transit (.prezeroClear ppn false)
      hidle hcache rfl rfl (by simpa using hroom)
    change s.allocator.transitionFrameState ppn frameStateCpuCached
      frameStateAllocated = .ok changed at htransition
    simp only [htransition]
    exact StepOk.quiet (hafter.withCounts _ _ _)

theorem Invariant.prezeroCentralStep {locked : Bool} (hphase : s.phase cpu = .prezeroCentral) :
    StepOk bounds s (s.prezeroCentralStep cpu locked) := by
  have hidle := idle_of_phase hphase rfl
  have hroom := hinv.ok_of_phase hphase
  rw [CacheConfig.prezeroCentralStep]
  split
  · exact StepOk.quiet (hinv.setPhase hidle rfl trivial)
  · apply hinv.owned.central.alloc.bind
    rintro ⟨taken, found⟩ htaken
    cases found with
    | none =>
      apply StepOk.quiet
      exact hinv.take hidle htaken rfl (fun hsome => absurd rfl hsome) trivial
    | some ppn =>
      apply StepOk.quiet
      exact hinv.take hidle htaken rfl (fun _ => rfl) hroom

theorem Invariant.prezeroClear {ppn : ℕ} {cached : Bool}
    (hphase : s.phase cpu = .prezeroClear ppn cached) :
    ({ s with cleared := insert ppn s.cleared }.setPhase cpu
      (.prezeroPublish ppn cached)).Invariant bounds := by
  have hroom := hinv.ok_of_phase hphase
  have htransit : (s.phase cpu).transit = [ppn] := congrArg CpuPhase.transit hphase
  have hstate : (s.phase cpu).transitState = frameStateAllocated :=
    congrArg CpuPhase.transitState hphase
  have howned := hinv.owned_setPhase (.prezeroPublish ppn cached) htransit.symm fun _ => hstate.symm
  refine ⟨howned, hinv.guarded.shrink cpu howned.exclusive (fun _ => update_phase_of_ne)
    (fun _ _ => .refl _) ?_ fun page hpage => .inl ?_⟩
  · simp only [setPhase_phase_self]
    exact ⟨hroom, Finset.mem_insert_self ppn s.cleared⟩
  · exact Finset.mem_insert_of_mem hpage

theorem Invariant.prezeroPublishStep {ppn : ℕ} {cached : Bool}
    (hphase : s.phase cpu = .prezeroPublish ppn cached) :
    StepOk bounds s (s.prezeroPublishStep cpu ppn cached) := by
  have hok := hinv.ok_of_phase hphase
  have hin : ppn ∈ s.holdings (.transit cpu) := by simp [holdings, hphase]
  have hsame (owner : FrameOwner cpus) :
      (s.setPhase cpu (.prezeroPush ppn cached)).holdings owner = s.holdings owner := by
    by_cases howner : owner = .transit cpu
    · simp [howner, holdings, hphase]
    · exact (holdings_setPhase_of_ne howner).1
  obtain ⟨changed, htransition, howned⟩ : ∃ changed, s.allocator.transitionAll
      frameStateAllocated frameStateAnonZeroed [ppn] = .ok changed ∧ Owned bounds changed
        (s.setPhase cpu (.prezeroPush ppn cached)).holdings
        (s.setPhase cpu (.prezeroPush ppn cached)).ownerState := by
    rw [funext hsame]
    refine hinv.owned.restate hinv.owned.exclusive rfl (by decide) (nodup_singleton ppn)
      (fun page hpage => ⟨mem_singleton.mp hpage ▸ hin, ?_⟩) ?_ ?_
    · simp [hphase]
    · intro owner page hpage hpublished
      rw [mem_singleton.mp hpublished] at hpage
      rw [hinv.owned.exclusive.unique owner _ ppn hpage hin, ownerState, setPhase_phase_self]
      rfl
    · intro owner page hpage hstays
      refine ⟨hpage, (holdings_setPhase_of_ne ?_).2⟩
      rintro rfl
      simp only [holdings, hphase] at hpage
      exact hstays hpage
  rw [transitionAll_singleton] at htransition
  rw [CacheConfig.prezeroPublishStep, htransition]
  exact StepOk.quiet (hinv.rephase howned hok)

theorem Invariant.prezeroPushStep {ppn : ℕ} {cached : Bool}
    (hphase : s.phase cpu = .prezeroPush ppn cached) :
    StepOk bounds s (s.prezeroPushStep cpu ppn cached) := by
  obtain ⟨hroom, hcleared⟩ := hinv.ok_of_phase hphase
  rw [CacheConfig.prezeroPushStep, if_neg (Nat.not_le.mpr hroom)]
  apply StepOk.quiet
  have hstate : (s.phase cpu).transitState = CacheKind.frameState .zeroed := by
    rw [hphase]
    rfl
  have hsplit : (s.phase cpu).transit.Perm
      ([ppn] ++ CpuPhase.transit (.prezeroAnonCount cached)) := by
    rw [hphase]
    rfl
  apply hinv.push hsplit hstate (fun hsome => absurd rfl hsome)
  · simp only [length_append, length_singleton]
    omega
  · exact fun _ _ => trivial
  · intro _ page hpage
    rwa [mem_singleton.mp hpage]

end

/-! ## All steps -/

variable (hinv : s.Invariant bounds)
include hinv

theorem Invariant.advance (cpu : Fin cpus) (locked : Bool) :
    StepOk bounds s (s.advance cpu locked) := by
  rw [CacheConfig.advance]
  cases hphase : s.phase cpu with
  | idle => exact StepOk.quiet hinv
  | zeroedLoad call =>
    have hidle := idle_of_phase hphase rfl
    apply StepOk.quiet
    split <;> exact hinv.setPhase hidle rfl trivial
  | zeroedScan call offset => exact hinv.zeroedScanStep hphase
  | freePop call => exact hinv.freePopStep hphase
  | dirtyScan call offset => exact StepOk.quiet (hinv.dirtyScanStep hphase)
  | dirtyCount ppn =>
    apply StepOk.handsOut
    have hafter : (s.handOut cpu [ppn]).Invariant bounds :=
      hinv.handOut_transit (by rw [hphase]; rfl) (by rw [hphase]; rfl)
    exact hafter.withCounts _ _ _
  | refill call => exact hinv.refillStep hphase
  | extend batch => exact hinv.extendStep hphase
  | heapLoad pages alignPages minFreePages | heapLoadAnon pages alignPages minFreePages freeSeen =>
    exact StepOk.quiet (hinv.setPhase (by rw [hphase]; rfl) rfl trivial)
  | central call => exact hinv.centralStep hphase
  | drain call kind index => exact hinv.drainStep hphase
  | drainFlush call kind index batch => exact hinv.drainFlushStep hphase
  | deallocPush ppn => exact hinv.deallocPushStep hphase
  | flush batch => exact hinv.flushStep hphase
  | prezeroCheck => exact StepOk.quiet (hinv.prezeroCheckStep hphase)
  | prezeroDirty offset => exact StepOk.quiet (hinv.prezeroDirtyStep hphase)
  | prezeroFree => exact hinv.prezeroFreeStep hphase
  | prezeroCentral => exact hinv.prezeroCentralStep hphase
  | prezeroClear ppn cached => exact StepOk.quiet (hinv.prezeroClear hphase)
  | prezeroPublish ppn cached => exact hinv.prezeroPublishStep hphase
  | prezeroPush ppn cached => exact hinv.prezeroPushStep hphase
  | prezeroAnonCount cached =>
    apply StepOk.quiet
    have hafter : (s.setPhase cpu .prezeroZeroedCount).Invariant bounds :=
      hinv.setPhase (by rw [hphase]; rfl) rfl trivial
    exact hafter.withCounts _ _ _
  | prezeroZeroedCount =>
    apply StepOk.quiet
    have hafter : (s.setPhase cpu .idle).Invariant bounds :=
      hinv.setPhase (by rw [hphase]; rfl) rfl trivial
    exact hafter.withCounts _ _ _

theorem Invariant.alloc {request : AllocRequest} {stage : AllocStage}
    (hidle : s.phase cpu = .idle) :
    StepOk bounds s (s.exec (.alloc cpu request stage)) := by
  have htransit := idle_of_phase hidle rfl
  apply StepOk.quiet
  cases request with
  | heapExtent pages alignPages minFreePages cachedPages =>
    exact hinv.setPhase htransit rfl trivial
  | profiled | single | contiguous pages => exact hinv.setPhase htransit rfl trivial

theorem Invariant.dealloc {ppn : ℕ} (hidle : s.phase cpu = .idle)
    (hin : ppn ∈ s.outstanding) : StepOk bounds s (s.exec (.dealloc cpu ppn)) := by
  have htransit := idle_of_phase hidle rfl
  have hmoved := moved_outstanding_to_transit htransit hin
    (rfl : CpuPhase.transit (.deallocPush ppn) = [ppn])
  obtain ⟨changed, htransition, howned⟩ := Owned.transitionAll frameStateAllocated
    frameStateCpuCached hmoved hinv.owned (by decide) (fun _ => rfl) (fun _ => by
      simp)
  rw [transitionAll_singleton] at htransition
  rw [CacheConfig.exec, htransition]
  apply StepOk.quiet
  refine ⟨howned, hinv.guarded.shrink cpu howned.exclusive (fun _ => update_phase_of_ne)
    (fun _ _ => .refl _) ?_ fun page hpage => .inl hpage⟩
  simp

theorem Invariant.store {ppn : ℕ} {node : BuddyNode} (hin : ppn ∈ s.outstanding) :
    StepOk bounds s (s.exec (.store ppn node)) := by
  obtain ⟨lists, hholds, hall⟩ := hinv.owned.holds
  apply StepOk.quiet
  refine ⟨⟨hinv.owned.bounds_eq, hinv.owned.exclusive, hinv.owned.states, lists, ?_, hall⟩,
    hinv.guarded.capacity, hinv.guarded.phases, hinv.guarded.zeroed⟩
  apply hholds.withNodes
  intro page hpage
  have hne : page ≠ ppn := by
    rintro rfl
    exact hpage ⟨.outstanding, hin⟩
  exact update_of_ne hne ..

theorem Invariant.exec_spec {step : CacheStep cpus} (hlegal : s.legal step) :
    StepOk bounds s (s.exec step) := by
  cases step with
  | alloc cpu request stage => exact hinv.alloc hlegal.1
  | dealloc cpu ppn => exact hinv.dealloc hlegal.1 hlegal.2
  | prezero cpu =>
    have hidle : s.phase cpu = .idle := hlegal
    exact StepOk.quiet (hinv.setPhase (by rw [hidle]; rfl) rfl trivial)
  | advance cpu locked => exact hinv.advance cpu locked
  | store ppn node => exact hinv.store hlegal

end CacheConfig

/-! ## Runs of the frame caches -/

inductive FrameLocation (cpus : ℕ) where
  | owner (owner : FrameOwner cpus)
  | central

namespace CacheConfig

variable {cpus : ℕ} {bounds : List (ℕ × ℕ)} {config s : CacheConfig cpus}

def At (s : CacheConfig cpus) (page : ℕ) : FrameLocation cpus → Prop
  | .owner owner => page ∈ s.holdings owner
  | .central => s.allocator.Fresh page ∨ page ∈ s.allocator.freePages

/-- The state byte of a page in the central allocator: a page never handed out
is marked as allocated, a free block by its order on the first page and as
interior on the others. -/
def CentralState (allocator : BuddyFrameAllocator) (page : ℕ) : Prop :=
  allocator.Fresh page ∧ allocator.frameState page = some frameStateAllocated ∨
    ∃ order < frameBuddyOrders, ∃ base, page ∈ block base order ∧
      allocator.frameState base = some order ∧
      (page ≠ base → allocator.frameState page = some frameStateFreeInterior)

structure Located (map : MemoryMap) (config : CacheConfig cpus) : Prop where
  place : ∀ page, map.Page page → ∃! location, config.At page location
  onMap : ∀ page location, config.At page location → map.Page page
  once : ∀ owner, (config.holdings owner).Nodup
  ownerState : ∀ owner, ∀ page ∈ config.holdings owner,
    config.allocator.frameState page = some (config.ownerState owner)
  centralState : ∀ page, config.At page .central → CentralState config.allocator page
  capacity : ∀ kind cpu, (config.cache kind cpu).length ≤ kind.capacity

theorem boot_spec (cpus : ℕ) (map : MemoryMap) (nodes : ℕ → BuddyNode) :
    Outcome (boot cpus map nodes) (map.ranges.length ≤ memVectorCapacity) fun s =>
      s.Invariant (map.ranges.filter fun range => range.1 < range.2) := by
  rw [boot]
  have hadd := (untouched_new nodes).addRanges map.ranges map.disjoint map.bounded
  rw [nil_append] at hadd
  apply hadd.bind
  intro allocator huntouched
  generalize hconfig : ({
    allocator := allocator, cache := fun _ _ => [], phase := fun _ => .idle,
    cpuCachedCount := 0, anonCachedCount := 0, anonZeroedCount := 0,
    outstanding := [], cleared := ∅ } : CacheConfig cpus) = s
  have hempty : ∀ owner, s.holdings owner = [] := by
    intro owner
    subst hconfig
    cases owner <;> rfl
  have hallocator : s.allocator = allocator := by rw [← hconfig]
  constructor
  · constructor
    case bounds_eq => rw [hallocator, huntouched.bounds]
    case exclusive => exact Exclusive.of_empty hempty
    case states =>
      intro owner page hpage
      rw [hempty owner] at hpage
      exact absurd hpage not_mem_nil
    case holds =>
      refine ⟨fun _ => [], ?_, ?_⟩
      · rw [hallocator, held_of_empty hempty]
        exact huntouched.holds
      · intro _ order _ base hbase
        simp at hbase
  · subst hconfig
    constructor
    · exact fun kind _ => Nat.zero_le _
    · exact fun _ => trivial
    · exact fun _ page hpage => absurd hpage not_mem_nil

theorem next_eq_some {step : CacheStep cpus} {s' : CacheConfig cpus}
    (hnext : s.next step = some s') : ∃ handed, s.exec step = .ok (s', handed) := by
  rw [next, Option.map_eq_some_iff] at hnext
  obtain ⟨⟨state, handed⟩, hexec, rfl⟩ := hnext
  exact ⟨handed, eq_ok_of_toOption hexec⟩

theorem Invariant.reachable {start : CacheConfig cpus} (hstart : start.Invariant bounds)
    (hreach : Reachable next legal start s) : s.Invariant bounds := by
  apply hreach.invariant hstart
  intro state step s' hinv hlegal hnext
  obtain ⟨handed, hexec⟩ := next_eq_some hnext
  exact ((hinv.exec_spec hlegal).value hexec).1

theorem Invariant.located {map : MemoryMap}
    (hinv : s.Invariant (map.ranges.filter fun range => range.1 < range.2)) :
    s.Located map := by
  obtain ⟨lists, hholds, -⟩ := hinv.owned.holds
  have hfree := hholds.freePages_eq
  have hcentral : ∀ page, s.At page .central ↔ s.allocator.Fresh page ∨
        (s.allocator.Reached page ∧ page ∉ held s.holdings) := by
    intro page
    rw [At, hfree, hholds.covered_iff]
  constructor
  case place =>
    intro page hpage
    rw [page_iff_managed hinv.owned.bounds_eq, hholds.formed.managed_iff] at hpage
    by_cases hheld : page ∈ held s.holdings
    · obtain ⟨owner, howner⟩ := hheld
      refine ⟨.owner owner, howner, ?_⟩
      intro location hlocation
      cases location with
      | owner other =>
        rw [hinv.owned.exclusive.unique other owner page hlocation howner]
      | central =>
        rcases (hcentral page).mp hlocation with hfresh | ⟨-, hout⟩
        · exact absurd hfresh (fun hfresh => hholds.formed.not_reached_and_fresh
            (hholds.held_reached page ⟨owner, howner⟩) hfresh)
        · exact absurd ⟨owner, howner⟩ hout
    · refine ⟨.central, (hcentral page).mpr ?_, ?_⟩
      · rcases hpage with hreached | hfresh
        · exact .inr ⟨hreached, hheld⟩
        · exact .inl hfresh
      · intro location hlocation
        cases location with
        | owner other => exact absurd ⟨other, hlocation⟩ hheld
        | central => rfl
  case onMap =>
    intro page location hlocation
    rw [page_iff_managed hinv.owned.bounds_eq, hholds.formed.managed_iff]
    cases location with
    | owner owner => exact .inl (hholds.held_reached page ⟨owner, hlocation⟩)
    | central =>
      rcases (hcentral page).mp hlocation with hfresh | ⟨hreached, -⟩
      · exact .inr hfresh
      · exact .inl hreached
  case once => exact hinv.owned.exclusive.nodup
  case ownerState => exact hinv.owned.states
  case centralState =>
    intro page hpage
    rw [At, hfree] at hpage
    rcases hpage with hfresh | ⟨order, horder, base, hbase, hpage⟩
    · exact .inl ⟨hfresh, hholds.fresh_state page hfresh⟩
    · exact .inr ⟨order, horder, base, hpage, (hholds.state_iff order horder base).mpr hbase,
        hholds.interior order horder base hbase page hpage⟩
  case capacity => exact hinv.guarded.capacity

/-- In every state reached each page has one place and the state byte that fits,
and caches are within their capacity.  No assertion of the caches fails: a panic
comes from the buddy lists, on a map whose ranges can share a block. -/
theorem located_of_reachable (cpus : ℕ) (map : MemoryMap) (nodes : ℕ → BuddyNode)
    {start config : CacheConfig cpus} (hboot : boot cpus map nodes = .ok start)
    (hreach : Reachable next legal start config) :
    config.Located map ∧ ∀ step, config.legal step →
        (∀ panic, config.exec step = .error panic → panic.OfLayout map.ranges) ∧
        ∀ after out, config.exec step = .ok (after, some out) → out.zeroed = true →
          ∀ page ∈ out.pages, page ∈ config.cleared := by
  have hinv := ((boot_spec cpus map nodes).value hboot).reachable hreach
  refine ⟨hinv.located, fun step hlegal => ⟨?_, ?_⟩⟩
  · intro panic hexec
    have hlayout := (hinv.exec_spec hlegal).panic hexec
    cases panic with
    | central fault =>
      refine ⟨hlayout.1, fun hmerge => hlayout.2 ?_⟩
      intro first hfirst second hsecond
      exact hmerge first (mem_filter.mp hfirst).1 second (mem_filter.mp hsecond).1
    | outsideMemory | stateMismatch | cacheOverflow | zeroedCacheFilled => exact hlayout
  · intro after out hexec
    exact ((hinv.exec_spec hlegal).value hexec).2 out rfl

instance (config : CacheConfig cpus) (step : CacheStep cpus) :
    Decidable (config.legal step) := by
  unfold legal
  cases step <;> infer_instance

/-- The first CPU takes one of two pages and reserves the other, the second CPU
clears it, and the first CPU asks again. -/
def stolenPrezero : List (CacheStep 2) :=
  [.alloc i₀ .profiled .first] ++ replicate 7 (.advance i₀ true) ++
    [.prezero i₁] ++ replicate 8 (.advance i₁ true) ++
    [.alloc i₀ .profiled .first] ++ replicate 2 (.advance i₀ true)

theorem stolenPrezero_run :
    ((boot 2 FrameConfig.touchingMap fun _ => FrameConfig.emptyNode).toOption.bind fun start =>
      (runSteps next legal start stolenPrezero).bind fun s =>
        (s.exec (.advance 0 true)).toOption.bind Prod.snd) = some ⟨[2], true⟩ := by
  decide +kernel

theorem located_after_stolenPrezero : ∃ start config after,
      boot 2 FrameConfig.touchingMap (fun _ => FrameConfig.emptyNode) = .ok start ∧
      Reachable next legal start config ∧ config.Located FrameConfig.touchingMap ∧
      config.exec (.advance 0 true) = .ok (after, some ⟨[2], true⟩) ∧ 2 ∈ config.cleared := by
  obtain ⟨start, hboot, hrest⟩ := Option.bind_eq_some_iff.mp stolenPrezero_run
  obtain ⟨config, hrun, hlast⟩ := Option.bind_eq_some_iff.mp hrest
  obtain ⟨⟨after, handed⟩, hexec, rfl⟩ := Option.bind_eq_some_iff.mp hlast
  have hreach := Reachable.start.runSteps hrun
  have hlocated := located_of_reachable 2 FrameConfig.touchingMap _ (eq_ok_of_toOption hboot) hreach
  refine ⟨start, config, after, eq_ok_of_toOption hboot, hreach, hlocated.1,
    eq_ok_of_toOption hexec, ?_⟩
  exact (hlocated.2 (.advance 0 true) trivial).2 after ⟨[2], true⟩
    (eq_ok_of_toOption hexec) rfl 2 mem_cons_self

end CacheConfig

end Kairix.Frame
