import Kairix.MachineWord
import Kairix.LabelledRun

/-!
# The path MTU cache

Reports of routers lower the segment size of a destination for the lifetime of a cache
entry.  Every call reads the clock before it takes the lock of the cache.
-/

namespace Kairix.PathMtu

open LabelledRun List

def ipv4MinPathMtu : ℕ := 68
def pmtuCacheTtlUs : ℕ := 10 * 60 * 1000000
def pmtuCacheMaxEntries : ℕ := 32
structure PathMtuEntry where
  dstIp : ℕ
  mtu : ℕ
  updatedAtUs : ℕ
  deriving DecidableEq

def age (now : ℕ) (entry : PathMtuEntry) : ℕ :=
  (now + usizeLimit - entry.updatedAtUs) % usizeLimit

def retain (now : ℕ) (cache : List PathMtuEntry) : List PathMtuEntry :=
  cache.filter fun entry => age now entry ≤ pmtuCacheTtlUs

def lookup (dstIp : ℕ) (cache : List PathMtuEntry) : Option PathMtuEntry :=
  cache.find? fun entry => entry.dstIp = dstIp

def tcpMssFromMtu (mtu : ℕ) : ℕ := max (mtu - (20 + 20)) 1

/-- The first entry of the destination is overwritten. -/
def lower (new : PathMtuEntry) : List PathMtuEntry → List PathMtuEntry
  | [] => []
  | entry :: rest => if entry.dstIp = new.dstIp then new :: rest else entry :: lower new rest

/-- The last of the oldest entries, as `max_by_key` finds it. -/
def oldest (now : ℕ) (cache : List PathMtuEntry) : ℕ :=
  (cache.zipIdx.foldl (fun best item =>
    if best.1 ≤ age now item.1 then (age now item.1, item.2) else best) (0, 0)).2

def swapRemove (index : ℕ) (cache : List PathMtuEntry) : List PathMtuEntry :=
  match cache.getLast? with
  | none => []
  | some last => (cache.set index last).dropLast

section

/-! The MTU of the output device of each destination. -/

variable (mtus : ℕ → ℕ)

def outputDeviceMtu (dstIp : ℕ) : ℕ := max (mtus dstIp) ipv4MinPathMtu

def tcpMssForDst (dstIp now : ℕ) (cache : List PathMtuEntry) : ℕ :=
  tcpMssFromMtu (min (((lookup dstIp (retain now cache)).map (·.mtu)).getD
    (outputDeviceMtu mtus dstIp)) (outputDeviceMtu mtus dstIp))

/-- The cache afterwards, and the entry of the report if it has been accepted. -/
def updatePathMtu (dstIp reportedMtu now : ℕ) (cache : List PathMtuEntry) :
    List PathMtuEntry × Option PathMtuEntry :=
  if reportedMtu < ipv4MinPathMtu then (cache, none)
  else
    let new : PathMtuEntry := ⟨dstIp, min reportedMtu (outputDeviceMtu mtus dstIp), now⟩
    let cache := retain now cache
    match lookup dstIp cache with
    | some entry => if entry.mtu ≤ new.mtu then (cache, none) else (lower new cache, some new)
    | none =>
      if outputDeviceMtu mtus dstIp ≤ new.mtu then (cache, none)
      else if pmtuCacheMaxEntries ≤ cache.length then
        (swapRemove (oldest now cache) cache ++ [new], some new)
      else (cache ++ [new], some new)

end

/-- The cache, the latest time which a call has read, and the last accepted reports. -/
structure PmtuConfig where
  cache : List PathMtuEntry
  clock : ℕ
  accepted : ℕ → Option PathMtuEntry

inductive PmtuStep where
  | mss (dstIp now : ℕ)
  | update (dstIp reportedMtu now : ℕ)

namespace PmtuConfig

def boot : PmtuConfig := ⟨[], 0, fun _ => none⟩

def accept (config : PmtuConfig) (new : PathMtuEntry) : ℕ → Option PathMtuEntry :=
  Function.update config.accepted new.dstIp (some new)

def next (mtus : ℕ → ℕ) (config : PmtuConfig) : PmtuStep → Option PmtuConfig
  | .mss _ now =>
    some { config with cache := retain now config.cache, clock := max config.clock now }
  | .update dstIp reportedMtu now =>
    let result := updatePathMtu mtus dstIp reportedMtu now config.cache
    some ⟨result.1, max config.clock now, result.2.elim config.accepted config.accept⟩

/-- For the lifetime of the last accepted report the segments have its size, and a report
which is accepted meanwhile lowers it. -/
structure Lowers (mtus : ℕ → ℕ) (config : PmtuConfig) : Prop where
  limit : ∀ dstIp now,
    tcpMssForDst mtus dstIp now config.cache ≤ tcpMssFromMtu (outputDeviceMtu mtus dstIp)
  live : ∀ dstIp, ∀ entry ∈ config.accepted dstIp, ∀ now, config.clock ≤ now → now < usizeLimit →
    now ≤ entry.updatedAtUs + pmtuCacheTtlUs →
      tcpMssForDst mtus dstIp now config.cache = tcpMssFromMtu entry.mtu ∧
      ∀ reportedMtu, ∀ new ∈ (updatePathMtu mtus dstIp reportedMtu now config.cache).2,
        new.mtu < entry.mtu
  unique : (config.cache.map (·.dstIp)).Nodup
  bounded : config.cache.length ≤ pmtuCacheMaxEntries

/-- The calls take the lock in the order in which they read the clock, and there is room for
the entry of a new destination. -/
def Timely (config : PmtuConfig) : PmtuStep → Prop
  | .mss _ now => config.clock ≤ now ∧ now < usizeLimit
  | .update dstIp _ now => config.clock ≤ now ∧ now < usizeLimit ∧
    ((lookup dstIp (retain now config.cache)).isSome ∨
      (retain now config.cache).length < pmtuCacheMaxEntries)

instance (config : PmtuConfig) (step : PmtuStep) : Decidable (config.Timely step) := by
  unfold Timely
  cases step <;> infer_instance

structure Inv (mtus : ℕ → ℕ) (s : PmtuConfig) : Prop where
  unique : (s.cache.map (·.dstIp)).Nodup
  bounded : s.cache.length ≤ pmtuCacheMaxEntries
  entries : ∀ entry ∈ s.cache,
    entry.mtu ≤ outputDeviceMtu mtus entry.dstIp ∧ entry.updatedAtUs ≤ s.clock
  kept : ∀ dstIp, ∀ entry ∈ s.accepted dstIp, entry.dstIp = dstIp ∧
    (s.clock ≤ entry.updatedAtUs + pmtuCacheTtlUs → entry ∈ s.cache)

end PmtuConfig

variable {cache : List PathMtuEntry} {entry new : PathMtuEntry} {dstIp now : ℕ}

theorem mem_retain (hpast : entry.updatedAtUs ≤ now) (hnow : now < usizeLimit) :
    entry ∈ retain now cache ↔ entry ∈ cache ∧ now ≤ entry.updatedAtUs + pmtuCacheTtlUs := by
  have hage : age now entry = now - entry.updatedAtUs := by
    rw [age, Nat.sub_add_comm hpast, Nat.add_mod_right]
    exact Nat.mod_eq_of_lt (by omega)
  simp [retain, hage, Nat.add_comm]

theorem lookup_some (h : lookup dstIp cache = some entry) : entry ∈ cache ∧ entry.dstIp = dstIp :=
  ⟨mem_of_find?_eq_some h, by simpa using find?_some h⟩

theorem lookup_none (h : lookup dstIp cache = none) : ∀ entry ∈ cache, entry.dstIp ≠ dstIp := by
  simpa [lookup, find?_eq_none] using h

theorem lookup_of_mem (hunique : (cache.map (·.dstIp)).Nodup) (hmem : entry ∈ cache) :
    lookup entry.dstIp cache = some entry := by
  cases hfound : lookup entry.dstIp cache with
  | none => exact absurd rfl (lookup_none hfound entry hmem)
  | some other =>
    obtain ⟨hother, hsame⟩ := lookup_some hfound
    rw [inj_on_of_nodup_map hunique hother hmem hsame]

theorem map_lower : (lower new cache).map (·.dstIp) = cache.map (·.dstIp) := by
  induction cache with
  | nil => rfl
  | cons head rest ih =>
    rw [lower]
    split
    · next h => simp [h]
    · simp [ih]

theorem mem_lower (hunique : (cache.map (·.dstIp)).Nodup) (hmem : entry ∈ cache)
    (hsame : entry.dstIp = new.dstIp) (other : PathMtuEntry) :
    other ∈ lower new cache ↔ other = new ∨ other ∈ cache ∧ other.dstIp ≠ new.dstIp := by
  induction cache with
  | nil => simp at hmem
  | cons head rest ih =>
    rw [map_cons, nodup_cons] at hunique
    rw [lower]
    split
    · next hhead =>
      have hrest (h : other ∈ rest) : other.dstIp ≠ new.dstIp := fun h' =>
        hunique.1 (hhead ▸ h' ▸ mem_map_of_mem h)
      grind
    · grind

namespace PmtuConfig

variable {mtus : ℕ → ℕ} {s : PmtuConfig}

theorem Inv.retain (hinv : s.Inv mtus) (hclock : s.clock ≤ now) (hnow : now < usizeLimit) :
    Inv mtus { s with cache := retain now s.cache, clock := now } := by
  have hpast {entry : PathMtuEntry} (h : entry ∈ s.cache) : entry.updatedAtUs ≤ now :=
    (hinv.entries entry h).2.trans hclock
  exact
    { unique := hinv.unique.sublist (filter_sublist.map _)
      bounded := (length_filter_le _ _).trans hinv.bounded
      entries := fun entry h =>
        have hmem := (mem_filter.1 h).1
        ⟨(hinv.entries entry hmem).1, hpast hmem⟩
      kept := fun dstIp entry hentry => by
        obtain ⟨hdst, hkept⟩ := hinv.kept dstIp entry hentry
        refine ⟨hdst, fun hlive => ?_⟩
        have hmem := hkept (hclock.trans hlive)
        exact (mem_retain (hpast hmem) hnow).2 ⟨hmem, hlive⟩ }

theorem Inv.lowers (hinv : s.Inv mtus) : s.Lowers mtus where
  limit _ _ := by
    unfold tcpMssForDst tcpMssFromMtu
    omega
  live dstIp entry hentry now hclock hnow hlive := by
    have hretained := hinv.retain hclock hnow
    obtain ⟨rfl, hkept⟩ := hretained.kept dstIp entry hentry
    have hmem := hkept hlive
    have hfound := lookup_of_mem hretained.unique hmem
    refine ⟨?_, fun reportedMtu new hnew => ?_⟩
    · rw [tcpMssForDst, hfound]
      exact congrArg _ (min_eq_left (hretained.entries entry hmem).1)
    · rw [updatePathMtu] at hnew
      simp only [hfound] at hnew
      split_ifs at hnew with hmin hless
      · simp at hnew
      · simp at hnew
      · obtain rfl := Option.some.inj hnew
        exact Nat.lt_of_not_le hless
  unique := hinv.unique
  bounded := hinv.bounded

theorem Inv.accept (hinv : s.Inv mtus) (hnow : new.updatedAtUs = s.clock)
    (hbelow : new.mtu ≤ outputDeviceMtu mtus new.dstIp) (hunique : (cache.map (·.dstIp)).Nodup)
    (hbounded : cache.length ≤ pmtuCacheMaxEntries)
    (hmem : ∀ other, other ∈ cache ↔ other = new ∨ other ∈ s.cache ∧ other.dstIp ≠ new.dstIp) :
    Inv mtus ⟨cache, s.clock, s.accept new⟩ where
  unique := hunique
  bounded := hbounded
  entries other h := by
    rcases (hmem other).1 h with rfl | h
    · exact ⟨hbelow, hnow.le⟩
    · exact hinv.entries other h.1
  kept dstIp entry hentry := by
    by_cases hsame : dstIp = new.dstIp
    · obtain rfl : new = entry := by simpa [PmtuConfig.accept, hsame] using hentry
      exact ⟨hsame.symm, fun _ => (hmem _).2 (.inl rfl)⟩
    · obtain ⟨hdst, hkept⟩ := hinv.kept dstIp entry
        (by simpa [PmtuConfig.accept, hsame] using hentry)
      exact ⟨hdst, fun hlive => (hmem _).2 (.inr ⟨hkept hlive, hdst ▸ hsame⟩)⟩

theorem Inv.update {reportedMtu : ℕ} (hinv : s.Inv mtus)
    (htimely : s.Timely (.update dstIp reportedMtu now)) {s' : PmtuConfig}
    (hstep : s.next mtus (.update dstIp reportedMtu now) = some s') : s'.Inv mtus := by
  obtain ⟨hclock, hnow, hroom⟩ := htimely
  cases hstep
  have hretained := hinv.retain hclock hnow
  rw [max_eq_right hclock, updatePathMtu]
  split
  · exact
      { hinv with
        entries := fun entry h => (hinv.entries entry h).imp_right (·.trans hclock)
        kept := fun dstIp entry h =>
          (hinv.kept dstIp entry h).imp_right fun hkept hlive => hkept (hclock.trans hlive) }
  · simp only
    split
    · next entry hfound =>
      obtain ⟨hmem, hsame⟩ := lookup_some hfound
      split
      · exact hretained
      · refine hretained.accept rfl (min_le_right _ _) ?_ ?_ (mem_lower hretained.unique hmem hsame)
        · rw [map_lower]
          exact hretained.unique
        · rw [← length_map (·.dstIp), map_lower, length_map]
          exact hretained.bounded
    · next hnone =>
      have hfresh := lookup_none hnone
      have hspace : (PathMtu.retain now s.cache).length < pmtuCacheMaxEntries := by
        simpa [hnone] using hroom
      split
      · exact hretained
      · rw [if_neg (Nat.not_le.2 hspace)]
        refine hretained.accept rfl (min_le_right _ _) ?_ (by simpa using hspace) fun other => ?_
        · rw [map_append]
          refine hretained.unique.append (nodup_singleton _) fun item hitem hnew => ?_
          obtain ⟨other, hother, rfl⟩ := mem_map.1 hitem
          exact hfresh other hother (mem_singleton.1 hnew)
        · rw [mem_append, mem_singleton, or_comm]
          exact or_congr_right ⟨fun h => ⟨h, hfresh other h⟩, And.left⟩

theorem lowers_of_reachable {config : PmtuConfig}
    (hreach : Reachable (next mtus) Timely boot config) : config.Lowers mtus := by
  have hboot : boot.Inv mtus := ⟨nodup_nil, Nat.zero_le _, by simp [boot], by simp [boot]⟩
  refine Inv.lowers (hreach.invariant hboot fun s step s' hinv htimely hstep => ?_)
  cases step with
  | mss dstIp now =>
    cases hstep
    rw [max_eq_right htimely.1]
    exact hinv.retain htimely.1 htimely.2
  | update dstIp reportedMtu now => exact hinv.update htimely hstep

theorem lowers_after_two_reports :
    ∃ config, Reachable (next fun _ => 1500) Timely boot config ∧ config.Lowers (fun _ => 1500) ∧
      tcpMssForDst (fun _ => 1500) 1 20 config.cache = 860 := by
  refine (exists_reachable_of_runSteps [.update 1 1000 10, .update 2 1200 11, .update 1 900 20]
    ?_).imp fun config ⟨hreach, hsize⟩ => ⟨hreach, lowers_of_reachable hreach, hsize⟩
  decide +kernel

/-- The report for one destination more than fits evicts the entry of the first one. -/
theorem not_lowers_after_eviction :
    ∃ config, Reachable (next fun _ => 1500) always boot config ∧ ¬config.Lowers fun _ => 1500 := by
  obtain ⟨config, hreach, haccepted, hclock, hsize⟩ : ∃ config,
      Reachable (next fun _ => 1500) always boot config ∧ config.accepted 0 = some ⟨0, 1000, 0⟩ ∧
        config.clock = 32 ∧ tcpMssForDst (fun _ => 1500) 0 32 config.cache = 1460 :=
    exists_reachable_of_runSteps ((range 33).map fun i => .update i 1000 i) (by decide +kernel)
  refine ⟨config, hreach, fun hlowers => ?_⟩
  have hlive := (hlowers.live 0 _ haccepted 32 hclock.le (by decide) (by decide)).1
  rw [hsize] at hlive
  exact absurd hlive (by decide)

end PmtuConfig

end Kairix.PathMtu
