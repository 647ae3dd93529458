import Kairix.FrameCacheOwnership

/-!
# The invariant of the frame caches

Besides ownership, the invariant says what the capacity checks rest on: only
its own CPU adds to a cache, and what a CPU found out about its own caches
stays true until it acts on it.
-/

namespace Kairix.Frame

open Function PanicOutcome ExclusiveHoldings BuddyFrameAllocator List

variable {cpus : ℕ}

/-- What a CPU relies on in a phase, given its own reserved pages, its own
cleared pages, and the pages cleared since their last use. -/
def CpuPhase.Ok (dirty zeroed : List ℕ) (cleared : Finset ℕ) : CpuPhase → Prop
  | .dirtyScan _ offset => 0 < offset → dirty = []
  | .refill _ => dirty = []
  | .extend batch => dirty = [] ∧ batch.length ≤ CacheKind.capacity .dirty
  | .prezeroDirty _ => zeroed.length < CacheKind.capacity .zeroed
  | .prezeroFree => zeroed.length < CacheKind.capacity .zeroed
  | .prezeroCentral => zeroed.length < CacheKind.capacity .zeroed
  | .prezeroClear _ _ => zeroed.length < CacheKind.capacity .zeroed
  | .prezeroPublish ppn _ => zeroed.length < CacheKind.capacity .zeroed ∧ ppn ∈ cleared
  | .prezeroPush ppn _ => zeroed.length < CacheKind.capacity .zeroed ∧ ppn ∈ cleared
  | _ => True

theorem CpuPhase.Ok.mono {dirty zeroed dirtyAfter zeroedAfter : List ℕ}
    {cleared clearedAfter : Finset ℕ} {phase : CpuPhase} (hok : phase.Ok dirty zeroed cleared)
    (hdirty : dirtyAfter.Sublist dirty) (hzeroed : zeroedAfter.Sublist zeroed)
    (hcleared : ∀ page ∈ phase.transit, page ∈ cleared → page ∈ clearedAfter) :
    phase.Ok dirtyAfter zeroedAfter clearedAfter := by
  have hnil : dirty = [] → dirtyAfter = [] := by
    rintro rfl
    exact sublist_nil.mp hdirty
  have hlength := hzeroed.length_le
  cases phase with
  | dirtyScan call offset => exact fun hoffset => hnil (hok hoffset)
  | refill call => exact hnil hok
  | extend batch => exact ⟨hnil hok.1, hok.2⟩
  | prezeroDirty offset | prezeroFree | prezeroCentral | prezeroClear ppn cached =>
    exact hlength.trans_lt hok
  | prezeroPublish ppn cached | prezeroPush ppn cached =>
    exact ⟨hlength.trans_lt hok.1, hcleared ppn mem_cons_self hok.2⟩
  | _ => trivial

namespace CacheConfig

def holdings (config : CacheConfig cpus) : FrameOwner cpus → List ℕ
  | .outstanding => config.outstanding
  | .cache kind cpu => config.cache kind cpu
  | .transit cpu => (config.phase cpu).transit

def ownerState (config : CacheConfig cpus) : FrameOwner cpus → ℕ
  | .outstanding => frameStateAllocated
  | .cache kind _ => kind.frameState
  | .transit cpu => (config.phase cpu).transitState

structure Guarded (s : CacheConfig cpus) : Prop where
  capacity : ∀ kind cpu, (s.cache kind cpu).length ≤ kind.capacity
  phases : ∀ cpu, (s.phase cpu).Ok (s.cache .dirty cpu)
    (s.cache .zeroed cpu) s.cleared
  zeroed : ∀ cpu, ∀ page ∈ s.cache .zeroed cpu, page ∈ s.cleared

structure Invariant (bounds : List (ℕ × ℕ)) (s : CacheConfig cpus) : Prop where
  owned : Owned bounds s.allocator s.holdings s.ownerState
  guarded : s.Guarded

variable {bounds : List (ℕ × ℕ)} {s s' : CacheConfig cpus} {cpu : Fin cpus}

/-- One CPU steps: it may add to its own caches, every other cache can only
lose pages, and pages lose their cleared mark when they leave the caches. -/
theorem Guarded.step (cpu : Fin cpus) (hguarded : s.Guarded) (hexclusive : Exclusive s'.holdings)
    (hphase : ∀ other, other ≠ cpu → s'.phase other = s.phase other)
    (hcache : ∀ kind other, other ≠ cpu → (s'.cache kind other).Sublist (s.cache kind other))
    (hcapacity : ∀ kind, (s'.cache kind cpu).length ≤ kind.capacity)
    (hself : (s'.phase cpu).Ok (s'.cache .dirty cpu) (s'.cache .zeroed cpu) s'.cleared)
    (hcleared : ∀ page ∈ s.cleared, page ∈ s'.cleared ∨
      page ∈ s'.outstanding ∨ page ∉ held s'.holdings)
    (hzeroed : ∀ page ∈ s'.cache .zeroed cpu, page ∈ s.cache .zeroed cpu ∨ page ∈ s'.cleared) :
    s'.Guarded := by
  have hkept : ∀ owner, owner ≠ FrameOwner.outstanding → ∀ page ∈ s'.holdings owner,
      page ∈ s.cleared → page ∈ s'.cleared := by
    intro owner howner page hpage hold
    rcases hcleared page hold with hin | hout | hfree
    · exact hin
    · exact absurd (hexclusive.unique owner .outstanding page hpage hout) howner
    · exact absurd (mem_held hpage) hfree
  constructor
  · intro kind other
    by_cases hother : other = cpu
    · rw [hother]
      exact hcapacity kind
    · exact (hcache kind other hother).length_le.trans (hguarded.capacity kind other)
  · intro other
    by_cases hother : other = cpu
    · rw [hother]
      exact hself
    · rw [hphase other hother]
      apply (hguarded.phases other).mono (hcache .dirty other hother) (hcache .zeroed other hother)
      intro page hpage
      apply hkept (.transit other) (by simp)
      rwa [holdings, hphase other hother]
  · intro other page hpage
    by_cases hother : other = cpu
    · subst other
      rcases hzeroed page hpage with hold | hnew
      · exact hkept (.cache .zeroed cpu) (by simp) page hpage (hguarded.zeroed cpu page hold)
      · exact hnew
    · exact hkept (.cache .zeroed other) (by simp) page hpage
        (hguarded.zeroed other page ((hcache .zeroed other hother).subset hpage))

theorem Guarded.shrink (cpu : Fin cpus) (hguarded : s.Guarded) (hexclusive : Exclusive s'.holdings)
    (hphase : ∀ other, other ≠ cpu → s'.phase other = s.phase other)
    (hcache : ∀ kind other, (s'.cache kind other).Sublist (s.cache kind other))
    (hself : (s'.phase cpu).Ok (s'.cache .dirty cpu) (s'.cache .zeroed cpu) s'.cleared)
    (hcleared : ∀ page ∈ s.cleared, page ∈ s'.cleared ∨
      page ∈ s'.outstanding ∨ page ∉ held s'.holdings) :
    s'.Guarded := by
  apply hguarded.step cpu hexclusive hphase (fun kind other _ => hcache kind other) _ hself hcleared
  · intro page hpage
    exact .inl ((hcache .zeroed cpu).subset hpage)
  · intro kind
    exact (hcache kind cpu).length_le.trans (hguarded.capacity kind cpu)

/-! ## How steps move pages -/

variable {pages : List ℕ}

variable {phase : CpuPhase}

def Moves (s s' : CacheConfig cpus) (source target : FrameOwner cpus) (pages : List ℕ) :
    Prop :=
  Moved s.holdings s'.holdings s.ownerState s'.ownerState source target pages

theorem Moves.of_fields {source target : FrameOwner cpus} (hne : source ≠ target)
    (hsource : (s.holdings source).Perm (pages ++ s'.holdings source))
    (htarget : (s'.holdings target).Perm (pages ++ s.holdings target))
    (hout : .outstanding ≠ source → .outstanding ≠ target → s'.outstanding = s.outstanding)
    (hcache : ∀ kind index, .cache kind index ≠ source → .cache kind index ≠ target →
      s'.cache kind index = s.cache kind index)
    (hphase : s'.phase = update s.phase cpu phase)
    (htransit : .transit cpu ≠ source → .transit cpu ≠ target →
      phase.transit = (s.phase cpu).transit)
    (hkept : ∀ page ∈ phase.transit, page ∉ pages →
      phase.transitState = (s.phase cpu).transitState) :
    s.Moves s' source target pages := by
  refine ⟨hne, hsource, htarget, ?_, ?_⟩
  · intro owner hownerSource hownerTarget
    cases owner with
    | outstanding => exact hout hownerSource hownerTarget
    | cache kind index => exact hcache kind index hownerSource hownerTarget
    | transit other =>
      rw [holdings, holdings, hphase]
      by_cases hother : other = cpu
      · subst other
        rw [update_self]
        exact htransit hownerSource hownerTarget
      · rw [update_of_ne hother]
  · intro owner page hpage hstays
    cases owner with
    | outstanding => rfl
    | cache kind index => rfl
    | transit other =>
      rw [holdings, hphase] at hpage
      rw [ownerState, ownerState, hphase]
      by_cases hother : other = cpu
      · subst other
        rw [update_self] at hpage ⊢
        exact hkept page hpage hstays
      · rw [update_of_ne hother]

variable {kind : CacheKind} {index : Fin cpus} {rest : List ℕ}

theorem setCache_cache_of_ne {other : CacheKind} {place : Fin cpus}
    (hne : (.cache other place : FrameOwner cpus) ≠ .cache kind index) :
    (s.setCache kind index rest).cache other place = s.cache other place := by
  simp only [ne_eq, FrameOwner.cache.injEq] at hne
  simp only [setCache, if_neg hne]

attribute [local simp] CacheConfig.setPhase setCache setPhase setAllocator ownerState

theorem moved_cache_to_transit (phase : CpuPhase)
    (hsplit : (s.cache kind index).Perm (pages ++ rest))
    (htransit : phase.transit.Perm (pages ++ (s.phase cpu).transit))
    (hkept : (s.phase cpu).transit ≠ [] → phase.transitState = (s.phase cpu).transitState) :
    s.Moves ((s.setCache kind index rest).setPhase cpu phase) (.cache kind index) (.transit cpu)
      pages := by
  refine .of_fields (by simp) ?_ ?_ (fun _ _ => rfl)
    (fun _ _ hsource _ => setCache_cache_of_ne hsource) rfl
    (fun _ htarget => absurd rfl htarget) fun page hpage hstays => hkept ?_
  · simpa [holdings] using hsplit
  · simpa [holdings] using htransit
  · rw [htransit.mem_iff, mem_append] at hpage
    exact ne_nil_of_mem (hpage.resolve_left hstays)

theorem moved_transit_to_outstanding (hpages : (s.phase cpu).transit = pages) :
    s.Moves (s.handOut cpu pages) (.transit cpu) .outstanding pages := by
  refine .of_fields (by simp) ?_ ?_ (fun _ htarget => absurd rfl htarget)
    (fun _ _ _ _ => rfl) rfl (fun hsource => absurd rfl hsource)
    fun _ hpage => absurd hpage not_mem_nil
  · rw [holdings, hpages]
    simp [holdings, handOut, CpuPhase.transit]
  · simp [holdings, handOut]

theorem moved_transit_to_cache (hsplit : (s.phase cpu).transit.Perm (pages ++ phase.transit))
    (hkept : phase.transit ≠ [] → phase.transitState = (s.phase cpu).transitState) :
    s.Moves ((s.setCache kind cpu (pages ++ s.cache kind cpu)).setPhase cpu phase)
      (.transit cpu) (.cache kind cpu) pages := by
  refine .of_fields (by simp) ?_ ?_ (fun _ _ => rfl)
    (fun _ _ _ htarget => setCache_cache_of_ne htarget) rfl
    (fun hsource => absurd rfl hsource) fun _ hpage _ => hkept (ne_nil_of_mem hpage)
  · simpa [holdings] using hsplit
  · simp [holdings]

theorem moved_outstanding_to_transit {ppn : ℕ} (hidle : (s.phase cpu).transit = [])
    (hin : ppn ∈ s.outstanding) (htransit : phase.transit = [ppn]) :
    s.Moves ({ s with outstanding := s.outstanding.erase ppn }.setPhase cpu phase)
      .outstanding (.transit cpu) [ppn] := by
  refine .of_fields (by simp) ?_ ?_ (fun hsource => absurd rfl hsource)
    (fun _ _ _ _ => rfl) rfl (fun _ htarget => absurd rfl htarget)
    fun _ hpage hstays => absurd (htransit ▸ hpage) hstays
  · simpa [holdings] using perm_cons_erase hin
  · simp [holdings, htransit, hidle]

/-! ## Steps of a CPU -/

def ZeroedIsCleared (config : CacheConfig cpus) (handed : Option HandedOut) : Prop :=
  ∀ out, handed = some out → out.zeroed = true → ∀ page ∈ out.pages, page ∈ config.cleared

def StepOk (bounds : List (ℕ × ℕ)) (config : CacheConfig cpus) (result : StepResult cpus) : Prop :=
  Settled result (CachePanic.OfLayout bounds) fun value =>
    value.1.Invariant bounds ∧ ZeroedIsCleared config value.2

theorem zeroedIsCleared_none (s : CacheConfig cpus) : ZeroedIsCleared s none := by
  intro out hout
  simp at hout

theorem zeroedIsCleared_dirty (s : CacheConfig cpus) (pages : List ℕ) :
    ZeroedIsCleared s (some ⟨pages, false⟩) := by
  intro out hout hzeroed
  obtain rfl : HandedOut.mk pages false = out := Option.some.inj hout
  simp at hzeroed

theorem StepOk.quiet (hafter : s'.Invariant bounds) : StepOk bounds s (.ok (s', none)) :=
  ⟨hafter, zeroedIsCleared_none s⟩

theorem StepOk.handsOut (hafter : s'.Invariant bounds) :
    StepOk bounds s (.ok (s', some ⟨pages, false⟩)) :=
  ⟨hafter, zeroedIsCleared_dirty s pages⟩

theorem setPhase_phase_self : (s.setPhase cpu phase).phase cpu = phase := Function.update_self ..

theorem update_phase_of_ne {other : Fin cpus} (hother : other ≠ cpu) :
    (s.setPhase cpu phase).phase other = s.phase other :=
  Function.update_of_ne hother ..

theorem setCache_sublist (hrest : rest.Sublist (s.cache kind index)) (other : CacheKind)
    (place : Fin cpus) :
    ((s.setCache kind index rest).cache other place).Sublist (s.cache other place) := by
  by_cases hplace : other = kind ∧ place = index
  · obtain ⟨rfl, rfl⟩ := hplace
    simpa using hrest
  · simp only [setCache, if_neg hplace]
    exact .refl _

theorem idle_of_phase (hphase : s.phase cpu = phase) (hidle : phase.transit = []) :
    (s.phase cpu).transit = [] := by
  rwa [hphase]

theorem Invariant.ok_of_phase (hinv : s.Invariant bounds) (hphase : s.phase cpu = phase) :
    phase.Ok (s.cache .dirty cpu) (s.cache .zeroed cpu) s.cleared :=
  hphase ▸ hinv.guarded.phases cpu

theorem Invariant.withCounts (hinv : s.Invariant bounds) (cpuCached anonCached anonZeroed : ℕ) :
    ({ s with
      cpuCachedCount := cpuCached
      anonCachedCount := anonCached
      anonZeroedCount := anonZeroed } : CacheConfig cpus).Invariant bounds :=
  ⟨hinv.owned, hinv.guarded.capacity, hinv.guarded.phases, hinv.guarded.zeroed⟩

theorem holdings_setPhase_of_ne {owner : FrameOwner cpus} (howner : owner ≠ .transit cpu) :
    (s.setPhase cpu phase).holdings owner = s.holdings owner ∧
      (s.setPhase cpu phase).ownerState owner = s.ownerState owner := by
  cases owner with
  | outstanding => exact ⟨rfl, rfl⟩
  | cache kind index => exact ⟨rfl, rfl⟩
  | transit other =>
    have hother : other ≠ cpu := fun heq => howner (congrArg _ heq)
    simp only [holdings, ownerState, update_phase_of_ne hother, and_self]

theorem ownerState_setPhase {owner : FrameOwner cpus} {page : ℕ} (hpage : page ∈ s.holdings owner)
    (hstate : (s.phase cpu).transit ≠ [] → phase.transitState = (s.phase cpu).transitState) :
    (s.setPhase cpu phase).ownerState owner = s.ownerState owner := by
  by_cases howner : owner = .transit cpu
  · subst howner
    simpa only [ownerState, setPhase_phase_self] using hstate (ne_nil_of_mem hpage)
  · exact (holdings_setPhase_of_ne howner).2

theorem Invariant.rephase {taken : BuddyFrameAllocator} (hinv : s.Invariant bounds)
    (howned : Owned bounds taken (s.setPhase cpu phase).holdings (s.setPhase cpu phase).ownerState)
    (hok : phase.Ok (s.cache .dirty cpu) (s.cache .zeroed cpu) s.cleared) :
    ((s.setAllocator taken).setPhase cpu phase).Invariant bounds := by
  refine ⟨howned, hinv.guarded.shrink cpu howned.exclusive (fun _ => update_phase_of_ne)
    (fun _ _ => .refl _) ?_ fun page hpage => .inl hpage⟩
  simpa using hok

theorem Invariant.owned_setPhase (phase : CpuPhase) (hinv : s.Invariant bounds)
    (htransit : phase.transit = (s.phase cpu).transit)
    (hstate : (s.phase cpu).transit ≠ [] → phase.transitState = (s.phase cpu).transitState) :
    Owned bounds s.allocator (s.setPhase cpu phase).holdings (s.setPhase cpu phase).ownerState := by
  have hsame : (s.setPhase cpu phase).holdings = s.holdings := by
    funext owner
    by_cases howner : owner = .transit cpu
    · subst howner
      simpa only [holdings, setPhase_phase_self] using htransit
    · exact (holdings_setPhase_of_ne howner).1
  rw [hsame]
  refine { hinv.owned with states := fun owner page hpage => ?_ }
  rw [ownerState_setPhase hpage hstate]
  exact hinv.owned.states owner page hpage

theorem Invariant.setPhase (hinv : s.Invariant bounds)
    (hbefore : (s.phase cpu).transit = []) (hafter : phase.transit = [])
    (hok : phase.Ok (s.cache .dirty cpu) (s.cache .zeroed cpu) s.cleared) :
    (s.setPhase cpu phase).Invariant bounds :=
  hinv.rephase (hinv.owned_setPhase phase (hafter.trans hbefore.symm)
    fun hsome => absurd hbefore hsome) hok

theorem Invariant.take {taken : BuddyFrameAllocator} (hinv : s.Invariant bounds)
    (hidle : (s.phase cpu).transit = [])
    (htaken : Taken bounds s.allocator taken (held s.holdings) pages)
    (htransit : phase.transit = pages)
    (hstate : pages ≠ [] → phase.transitState = frameStateAllocated)
    (hok : phase.Ok (s.cache .dirty cpu) (s.cache .zeroed cpu) s.cleared) :
    ((s.setAllocator taken).setPhase cpu phase).Invariant bounds := by
  refine hinv.rephase (hinv.owned.take (.transit cpu) htaken ?_
    (fun _ howner => (holdings_setPhase_of_ne howner).1) ?_ ?_) hok
  · simp [holdings, htransit, hidle]
  · intro hpages
    simpa using hstate hpages
  · exact fun _ _ hpage => ownerState_setPhase hpage fun hsome => absurd hidle hsome

theorem Invariant.handOut_transit (hinv : s.Invariant bounds)
    (hpages : (s.phase cpu).transit = pages)
    (hstate : (s.phase cpu).transitState = frameStateAllocated) :
    (s.handOut cpu pages).Invariant bounds := by
  have hmoved := moved_transit_to_outstanding hpages
  have howned := Owned.move hmoved hinv.owned (fun _ => hstate.symm)
  refine ⟨howned, hinv.guarded.shrink cpu howned.exclusive (fun _ => update_phase_of_ne)
    (fun _ _ => .refl _) ?_ ?_⟩
  · simp [handOut, CpuPhase.Ok]
  · intro page hpage
    by_cases hin : page ∈ pages
    · right
      left
      simp [handOut, hin]
    · left
      simpa [handOut, hin] using hpage

theorem Invariant.handOut_of_setPhase (hafter : (s.setPhase cpu phase).Invariant bounds)
    (hpages : phase.transit = pages) (hstate : phase.transitState = frameStateAllocated) :
    (s.handOut cpu pages).Invariant bounds := by
  have hhanded := hafter.handOut_transit ((congrArg _ setPhase_phase_self).trans hpages)
    ((congrArg _ setPhase_phase_self).trans hstate)
  simpa [handOut, Function.update_idem] using hhanded

theorem Invariant.take_handOut {taken : BuddyFrameAllocator} (hinv : s.Invariant bounds)
    (hidle : (s.phase cpu).transit = [])
    (htaken : Taken bounds s.allocator taken (held s.holdings) pages) :
    ((s.setAllocator taken).handOut cpu pages).Invariant bounds := by
  have hbatch : ((s.setAllocator taken).setPhase cpu
      (.drainFlush ⟨.single, .first⟩ .dirty 0 pages)).Invariant bounds :=
    hinv.take hidle htaken rfl (fun _ => rfl) trivial
  exact hbatch.handOut_of_setPhase rfl rfl

theorem Invariant.push (hinv : s.Invariant bounds)
    (hsplit : (s.phase cpu).transit.Perm (pages ++ phase.transit))
    (hstate : (s.phase cpu).transitState = kind.frameState)
    (hkept : phase.transit ≠ [] → phase.transitState = (s.phase cpu).transitState)
    (hroom : (pages ++ s.cache kind cpu).length ≤ kind.capacity)
    (hok : ∀ dirty zeroed, phase.Ok dirty zeroed s.cleared)
    (hcleared : kind = .zeroed → ∀ page ∈ pages, page ∈ s.cleared) :
    ((s.setCache kind cpu (pages ++ s.cache kind cpu)).setPhase cpu phase).Invariant bounds := by
  have howned := Owned.move (moved_transit_to_cache hsplit hkept) hinv.owned fun _ => hstate.symm
  refine ⟨howned, hinv.guarded.step cpu howned.exclusive (fun _ => update_phase_of_ne)
    ?_ ?_ ?_ (fun page hpage => .inl hpage) ?_⟩
  · intro other place hplace
    have hout : ¬(other = kind ∧ place = cpu) := fun hsame => hplace hsame.2
    simp only [CacheConfig.setPhase, setCache, if_neg hout, Sublist.refl]
  · intro other
    by_cases hother : other = kind
    · subst other
      simpa using hroom
    · simpa [hother] using hinv.guarded.capacity other cpu
  · simpa using hok _ _
  · intro page hpage
    by_cases hkind : kind = .zeroed
    · subst hkind
      simp only [CacheConfig.setPhase, setCache, and_self, if_true, mem_append] at hpage
      exact hpage.symm.imp_right (hcleared rfl page)
    · left
      simpa [Ne.symm hkind] using hpage

theorem Invariant.giveBack (phase : CpuPhase) {batch : List ℕ} (hinv : s.Invariant bounds)
    (hbatch : (s.phase cpu).transit = batch)
    (hstate : (s.phase cpu).transitState = frameStateAllocated ∨
      (s.phase cpu).transitState = frameStateCpuCached) (hphase : phase.transit = [])
    (hok : ∀ dirty zeroed cleared, phase.Ok dirty zeroed cleared) :
    Settled (s.allocator.deallocAll batch) (CachePanic.OfLayout bounds) fun freed =>
      ({ s.setAllocator freed with
        cleared := s.cleared \ batch.toFinset }.setPhase cpu phase).Invariant bounds := by
  have hsource : (s.holdings (.transit cpu)).Perm
      (batch ++ (s.setPhase cpu phase).holdings (.transit cpu)) := by
    simp [holdings, hbatch, hphase]
  have hother (owner : FrameOwner cpus) (howner : owner ≠ .transit cpu) :
      (s.setPhase cpu phase).holdings owner = s.holdings owner :=
    (holdings_setPhase_of_ne howner).1
  have hkept : ∀ owner, ∀ page ∈ (s.setPhase cpu phase).holdings owner,
      (s.setPhase cpu phase).ownerState owner = s.ownerState owner := by
    intro owner page hpage
    refine (holdings_setPhase_of_ne ?_).2
    rintro rfl
    simp [holdings, hphase] at hpage
  refine (hinv.owned.deallocAll hsource hother (fun _ => hstate) hkept).mono fun freed howned =>
    ⟨howned, hinv.guarded.shrink cpu howned.exclusive
      (fun _ => update_phase_of_ne) (fun _ _ => .refl _) ?_ ?_⟩
  · simpa using hok _ _ _
  · intro page hpage
    by_cases hin : page ∈ batch
    · right
      right
      have hheld := held_leave hinv.owned.exclusive hsource hother
      change page ∉ held (s.setPhase cpu phase).holdings
      rw [hheld]
      exact fun hstays => hstays.2 hin
    · left
      simpa [hin] using hpage

variable {ppn : ℕ}

theorem Invariant.withdraw {changed : BuddyFrameAllocator} (hinv : s.Invariant bounds)
    (hrest : rest.Sublist (s.cache kind index))
    (howned : Owned bounds changed ((s.setCache kind index rest).setPhase cpu phase).holdings
      ((s.setCache kind index rest).setPhase cpu phase).ownerState)
    (hok : phase.Ok ((s.setCache kind index rest).cache .dirty cpu)
      ((s.setCache kind index rest).cache .zeroed cpu) s.cleared) :
    (((s.setCache kind index rest).setAllocator changed).setPhase cpu phase).Invariant bounds := by
  refine ⟨howned, hinv.guarded.shrink cpu howned.exclusive (fun _ => update_phase_of_ne)
    (setCache_sublist hrest) ?_ fun page hpage => .inl hpage⟩
  simpa using hok

theorem Invariant.pop_transit (phase : CpuPhase) (hinv : s.Invariant bounds)
    (hidle : (s.phase cpu).transit = []) (hpop : s.cache kind index = ppn :: rest)
    (htransit : phase.transit = [ppn]) (hstate : phase.transitState = frameStateAllocated)
    (hok : phase.Ok ((s.setCache kind index rest).cache .dirty cpu)
      ((s.setCache kind index rest).cache .zeroed cpu) s.cleared) :
    ∃ changed, s.allocator.transitionFrameState ppn kind.frameState
        frameStateAllocated = .ok changed ∧
      (((s.setCache kind index rest).setAllocator changed).setPhase cpu
        phase).Invariant bounds := by
  have hmoved := moved_cache_to_transit phase (Perm.of_eq hpop : Perm _ ([ppn] ++ rest))
    (by simp [hidle, htransit]) fun hsome => absurd hidle hsome
  obtain ⟨changed, htransition, howned⟩ := Owned.transitionAll _ _ hmoved hinv.owned
    (by decide : frameBuddyOrders ≤ frameStateAllocated) (fun _ => rfl) (fun _ => by
      simpa using hstate)
  rw [transitionAll_singleton] at htransition
  exact ⟨changed, htransition, hinv.withdraw (hpop ▸ sublist_cons_self ppn rest) howned hok⟩

theorem Invariant.pop_handOut (hinv : s.Invariant bounds)
    (hidle : (s.phase cpu).transit = []) (hpop : s.cache kind index = ppn :: rest) :
    ∃ changed, s.allocator.transitionFrameState ppn kind.frameState
        frameStateAllocated = .ok changed ∧
      (((s.setCache kind index rest).setAllocator changed).handOut cpu [ppn]).Invariant bounds := by
  obtain ⟨changed, htransition, hafter⟩ := hinv.pop_transit
    (.drainFlush ⟨.single, .first⟩ .dirty 0 [ppn]) hidle hpop rfl rfl trivial
  exact ⟨changed, htransition, hafter.handOut_of_setPhase rfl rfl⟩

theorem Invariant.pull (hinv : s.Invariant bounds)
    (hsplit : (s.cache kind index).Perm (pages ++ rest))
    (hrest : rest.Sublist (s.cache kind index))
    (htransit : phase.transit.Perm (pages ++ (s.phase cpu).transit))
    (hkept : (s.phase cpu).transit ≠ [] → phase.transitState = (s.phase cpu).transitState)
    (hstate : phase.transitState = kind.frameState)
    (hok : phase.Ok ((s.setCache kind index rest).cache .dirty cpu)
      ((s.setCache kind index rest).cache .zeroed cpu) s.cleared) :
    ((s.setCache kind index rest).setPhase cpu phase).Invariant bounds := by
  refine hinv.withdraw hrest (Owned.move (moved_cache_to_transit phase hsplit htransit hkept)
    hinv.owned fun _ => ?_) hok
  simpa using hstate

theorem Invariant.pop_dirty (hinv : s.Invariant bounds)
    (hidle : (s.phase cpu).transit = []) (hpop : s.cache .dirty index = ppn :: rest)
    (htransit : phase.transit = [ppn]) (hstate : phase.transitState = frameStateAllocated)
    (hok : phase.Ok ((s.setCache .dirty index rest).cache .dirty cpu)
      ((s.setCache .dirty index rest).cache .zeroed cpu) s.cleared) :
    ((s.setCache .dirty index rest).setPhase cpu phase).Invariant bounds :=
  hinv.pull (Perm.of_eq hpop : Perm _ ([ppn] ++ rest))
    (hpop ▸ sublist_cons_self ppn rest) (by simp [hidle, htransit])
    (fun hsome => absurd hidle hsome) hstate hok

/-! ## Allocation -/

variable {call : AllocCall}

theorem Invariant.zeroedScanStep {offset : ℕ} (hinv : s.Invariant bounds)
    (hphase : s.phase cpu = .zeroedScan call offset) :
    StepOk bounds s (s.zeroedScanStep cpu call offset) := by
  have hidle := idle_of_phase hphase rfl
  rw [CacheConfig.zeroedScanStep]
  split
  · exact StepOk.quiet (hinv.setPhase hidle rfl trivial)
  · split
    · exact StepOk.quiet (hinv.setPhase hidle rfl trivial)
    · next ppn rest hpop =>
      obtain ⟨changed, htransition, hafter⟩ := hinv.pop_handOut hidle hpop
      change s.allocator.transitionFrameState ppn frameStateAnonZeroed
        frameStateAllocated = .ok changed at htransition
      rw [htransition]
      refine ⟨hafter.withCounts _ _ _, ?_⟩
      intro out hout _ page hpage
      obtain rfl : HandedOut.mk [ppn] true = out := Option.some.inj hout
      obtain rfl : page = ppn := by simpa using hpage
      apply hinv.guarded.zeroed (scanIndex cpu offset)
      rw [hpop]
      exact mem_cons_self

theorem Invariant.freePopStep (hinv : s.Invariant bounds) (hphase : s.phase cpu = .freePop call) :
    StepOk bounds s (s.freePopStep cpu call) := by
  have hidle := idle_of_phase hphase rfl
  rw [CacheConfig.freePopStep, popCpuFreeFrame]
  cases hcache : s.cache .free cpu with
  | nil =>
    dsimp only [bind, Except.bind]
    split
    · exact StepOk.quiet (hinv.setPhase hidle rfl (by simp [CpuPhase.Ok]))
    · exact StepOk.quiet (hinv.setPhase hidle rfl trivial)
  | cons ppn rest =>
    obtain ⟨changed, htransition, hafter⟩ := hinv.pop_handOut hidle hcache
    change s.allocator.transitionFrameState ppn frameStateCpuCached
      frameStateAllocated = .ok changed at htransition
    simp only [htransition]
    exact StepOk.handsOut (hafter.withCounts _ _ _)

theorem Invariant.dirtyScanStep {offset : ℕ} (hinv : s.Invariant bounds)
    (hphase : s.phase cpu = .dirtyScan call offset) :
    (s.dirtyScanStep cpu call offset).Invariant bounds := by
  have hidle := idle_of_phase hphase rfl
  have hok := hinv.ok_of_phase hphase
  rw [CacheConfig.dirtyScanStep]
  split
  · next hend =>
    have hpos : 0 < cpus := Nat.zero_lt_of_lt cpu.isLt
    exact hinv.setPhase hidle rfl (hok (by omega))
  · split
    · next hempty =>
      apply hinv.setPhase hidle rfl
      intro _
      by_cases hfirst : offset = 0
      · have hself : scanIndex cpu offset = cpu := by
          apply Fin.ext
          simp [scanIndex, hfirst, Nat.mod_eq_of_lt cpu.isLt]
        rwa [hself] at hempty
      · exact hok (by omega)
    · next ppn rest hpop => exact hinv.pop_dirty hidle hpop rfl rfl trivial

theorem failPhase_transit (call : AllocCall) : (failPhase call).transit = [] := by
  cases hstage : call.stage <;> simp [failPhase, hstage, CpuPhase.transit]

theorem failPhase_ok (call : AllocCall) (dirty zeroed : List ℕ) (cleared : Finset ℕ) :
    (failPhase call).Ok dirty zeroed cleared := by
  cases hstage : call.stage <;> simp [failPhase, hstage, CpuPhase.Ok]

variable (hinv : s.Invariant bounds)
include hinv

theorem Invariant.take_fail {taken : BuddyFrameAllocator} (hidle : (s.phase cpu).transit = [])
    (htaken : Taken bounds s.allocator taken (held s.holdings) []) :
    StepOk bounds s (.ok ((s.setAllocator taken).setPhase cpu (failPhase call), none)) :=
  StepOk.quiet (hinv.take hidle htaken (failPhase_transit call) (fun hsome => absurd rfl hsome)
    (failPhase_ok call _ _ _))

theorem Invariant.refillStep (hphase : s.phase cpu = .refill call) :
    StepOk bounds s (s.refillStep cpu call) := by
  have hidle := idle_of_phase hphase rfl
  have hempty : s.cache .dirty cpu = [] := hinv.ok_of_phase hphase
  rw [CacheConfig.refillStep]
  apply (hinv.owned.central.allocBatch _).bind
  rintro ⟨taken, batch⟩ ⟨hlength, htaken⟩
  simp only at hlength htaken ⊢
  split
  · next hnone =>
    subst hnone
    exact hinv.take_fail hidle htaken
  · apply StepOk.quiet
    exact hinv.take hidle htaken rfl (fun _ => rfl) ⟨hempty, hlength⟩

theorem Invariant.centralStep (hphase : s.phase cpu = .central call) :
    StepOk bounds s (s.centralStep cpu call) := by
  have hidle := idle_of_phase hphase rfl
  have hextent : ∀ pages alignPages refused,
      StepOk bounds s (centralStep.extent s cpu call pages alignPages refused) := by
    intro pages alignPages refused
    rw [centralStep.extent]
    split
    · exact StepOk.quiet (hinv.setPhase hidle rfl trivial)
    · apply (hinv.owned.central.allocContiguous pages alignPages).bind
      rintro ⟨taken, found⟩ htaken
      cases found with
      | none => exact hinv.take_fail hidle htaken
      | some extent => exact StepOk.handsOut (hinv.take_handOut hidle htaken)
  rw [CacheConfig.centralStep]
  cases call.request with
  | profiled => exact StepOk.quiet (hinv.setPhase hidle rfl trivial)
  | single =>
    apply hinv.owned.central.alloc.bind
    rintro ⟨taken, found⟩ htaken
    cases found with
    | none => exact hinv.take_fail hidle htaken
    | some ppn => exact StepOk.handsOut (hinv.take_handOut hidle htaken)
  | contiguous pages => exact hextent pages 1 false
  | heapExtent pages alignPages minFreePages cachedPages => exact hextent _ _ _

theorem Invariant.extendStep {batch : List ℕ} (hphase : s.phase cpu = .extend batch) :
    StepOk bounds s (s.extendStep cpu batch) := by
  obtain ⟨hempty, hlength⟩ := hinv.ok_of_phase hphase
  have hbatch : (s.phase cpu).transit = batch := congrArg CpuPhase.transit hphase
  have hstate : (s.phase cpu).transitState = frameStateAllocated :=
    congrArg CpuPhase.transitState hphase
  rw [CacheConfig.extendStep]
  cases hlast : batch.getLast? with
  | none =>
    rw [getLast?_eq_none_iff] at hlast
    exact StepOk.quiet (hinv.setPhase (hbatch.trans hlast) rfl trivial)
  | some ppn =>
    have hsplit : batch = batch.dropLast ++ [ppn] := (dropLast_append_getLast? ppn hlast).symm
    simp only
    split
    · next hsingle =>
      rw [hsingle, nil_append] at hsplit
      exact StepOk.handsOut (hinv.handOut_transit (hbatch.trans hsplit) hstate)
    · have hroom : batch.dropLast.length ≤ CacheKind.capacity .dirty := by
        rw [length_dropLast]
        omega
      rw [if_neg (by rw [hempty]; simpa using hroom)]
      have hpushed : ((s.setCache .dirty cpu (batch.dropLast.reverse ++
          s.cache .dirty cpu)).setPhase cpu (.dirtyCount ppn)).Invariant bounds := by
        apply hinv.push
        · rw [hbatch]
          nth_rewrite 1 [hsplit]
          exact (reverse_perm _).symm.append_right _
        · exact hstate
        · exact fun _ => hstate.symm
        · simpa [hempty] using hroom
        · exact fun _ _ => trivial
        · simp
      exact StepOk.handsOut ((hpushed.handOut_of_setPhase rfl rfl).withCounts _ _ _)

end CacheConfig

end Kairix.Frame
