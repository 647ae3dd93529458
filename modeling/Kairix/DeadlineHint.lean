import Kairix.LabelledRun
import Kairix.PiFutex

/-!
# The next futex deadline

A timed waiter is queued first and publishes its deadline afterwards, in one
atomic word which keeps the earliest one.  The timeout scan reads this word, then
the clock, and looks into the table only when the deadline it has read is over.
Once no expired waiter is left it stores the earliest queued deadline.  The queues
of all keys are one list here, and a waiter which is woken or removed leaves it.
-/

namespace Kairix.Futex

open LabelledRun Function

def noFutexDeadline : ℕ := 2 ^ 64 - 1

structure TimedWaiter where
  ticket : ℕ
  deadline : Option ℕ
  deriving DecidableEq, Repr

/-- The waiters of one call, with the tickets from `first` up to `bound`, and their
deadline.  `futex_waitv` publishes once for all of its waiters. -/
structure Publication where
  first : ℕ
  bound : ℕ
  deadline : ℕ
  deriving DecidableEq, Repr

def Publication.covers (publication : Publication) (ticket : ℕ) : Bool :=
  publication.first ≤ ticket ∧ ticket < publication.bound

/-- Where a task stands in `publish_futex_deadline`. -/
inductive Publishing where
  | idle
  | load (publication : Publication)
  | exchange (publication : Publication) (current : ℕ) (hlater : publication.deadline < current)
  deriving DecidableEq

def Publishing.publication : Publishing → Option Publication
  | .idle => none
  | .load publication => some publication
  | .exchange publication _ _ => some publication

/-- Where a CPU stands in `check_futex_timeouts`.  `known` are the waiters whose
publication was complete when the hint was loaded. -/
inductive Scanning where
  | idle
  | check (hint : ℕ) (known : ℕ → Bool)
  | search (now : ℕ)

structure HintConfig (τ : Type*) (cpus : ℕ) where
  queued : List TimedWaiter
  issued : ℕ
  hint : ℕ
  clock : ℕ
  published : ℕ → Bool
  publishing : τ → Publishing
  scanning : Fin cpus → Scanning

inductive HintStep (τ : Type*) (cpus : ℕ) where
  | enqueue (task : τ) (count : ℕ) (deadline : Option ℕ)
  | leave (ticket : ℕ)
  | publish (task : τ) (spurious : Bool)
  | scan (cpu : Fin cpus)
  | tick (elapsed : ℕ)

namespace HintConfig

variable {τ : Type*} [DecidableEq τ] {cpus : ℕ} (config s : HintConfig τ cpus)

def monotonicNow : ℕ := min config.clock (noFutexDeadline - 1)

def followingDeadline : List TimedWaiter → ℕ
  | [] => noFutexDeadline
  | waiter :: rest =>
    match waiter.deadline with
    | some deadline => min deadline (followingDeadline rest)
    | none => followingDeadline rest

def leave (ticket : ℕ) : HintConfig τ cpus :=
  { config with queued := config.queued.filter fun waiter => waiter.ticket ≠ ticket }

def scanStep (cpu : Fin cpus) : HintConfig τ cpus :=
  match config.scanning cpu with
  | .idle =>
    if config.hint = noFutexDeadline then config
    else { config with
      scanning := update config.scanning cpu (.check config.hint config.published) }
  | .check hint _ =>
    { config with
      scanning := update config.scanning cpu
        (if config.monotonicNow < hint then .idle else .search config.monotonicNow) }
  | .search now =>
    match config.queued.find? fun waiter => expired waiter.deadline now with
    | some waiter => config.leave waiter.ticket
    | none =>
      { config with
        hint := followingDeadline config.queued
        scanning := update config.scanning cpu .idle }

def enqueue (task : τ) (count : ℕ) (deadline : Option ℕ) : HintConfig τ cpus :=
  { config with
    queued := config.queued ++
      (List.range' config.issued count).map fun ticket => ⟨ticket, deadline⟩
    issued := config.issued + count
    publishing := match deadline with
      | none => config.publishing
      | some deadline => update config.publishing task
          (.load ⟨config.issued, config.issued + count, deadline⟩) }

def complete (task : τ) (publication : Publication) : HintConfig τ cpus :=
  { config with
    published := fun ticket => config.published ticket || publication.covers ticket
    publishing := update config.publishing task .idle }

/-- The loop goes on while the deadline is earlier than the observed hint. -/
def observe (task : τ) (publication : Publication) : HintConfig τ cpus :=
  if hlater : publication.deadline < config.hint then
    { config with
      publishing := update config.publishing task
        (.exchange publication config.hint hlater) }
  else config.complete task publication

def publishStep (task : τ) (spurious : Bool) : Option (HintConfig τ cpus) :=
  match config.publishing task with
  | .idle => none
  | .load publication => some (config.observe task publication)
  | .exchange publication current _ =>
    if spurious = false ∧ config.hint = current then
      some ({ config with hint := publication.deadline }.complete task publication)
    else some (config.observe task publication)

def next : HintStep τ cpus → Option (HintConfig τ cpus)
  | .enqueue task count deadline =>
    if config.publishing task = .idle then some (config.enqueue task count deadline) else none
  | .leave ticket => some (config.leave ticket)
  | .publish task spurious => config.publishStep task spurious
  | .scan cpu => some (config.scanStep cpu)
  | .tick elapsed => some { config with clock := config.clock + elapsed }

def boot (τ : Type*) (cpus : ℕ) : HintConfig τ cpus :=
  ⟨[], 0, noFutexDeadline, 0, fun _ => false, fun _ => .idle, fun _ => .idle⟩

/-! ## The hint is never late -/

/-- The next step of the scan returns because of the hint. -/
def skips (cpu : Fin cpus) : Bool :=
  match config.scanning cpu with
  | .idle => config.hint = noFutexDeadline
  | .check hint _ => config.monotonicNow < hint
  | .search _ => false

/-- The waiters whose publication was complete when the scan loaded the hint. -/
def knownTo (cpu : Fin cpus) : ℕ → Bool :=
  match config.scanning cpu with
  | .check _ known => known
  | _ => config.published

/-- The hint is at most the deadline of every queued waiter which has been published. -/
def NeverLate : Prop :=
  ∀ waiter ∈ config.queued, ∀ deadline, waiter.deadline = some deadline →
    config.published waiter.ticket = true → config.hint ≤ deadline

/-- A scan which returns because of the hint leaves no expired waiter among the given ones. -/
def SkipsNobody (waiters : Fin cpus → ℕ → Bool) : Prop :=
  ∀ cpu, config.skips cpu = true → ∀ waiter ∈ config.queued,
    waiters cpu waiter.ticket = true → expired waiter.deadline config.monotonicNow = false

/-- The tickets are in use, and no waiter with one of them has an earlier deadline. -/
structure Promise (bound : ℕ) (tickets : ℕ → Bool) : Prop where
  used : ∀ ticket, tickets ticket = true → ticket < config.issued
  waits : ∀ waiter ∈ config.queued, tickets waiter.ticket = true →
    ∀ deadline, waiter.deadline = some deadline → bound ≤ deadline

structure Hinted : Prop where
  issued : ∀ waiter ∈ config.queued, waiter.ticket < config.issued
  hint : config.Promise config.hint config.published
  known : ∀ cpu bound tickets, config.scanning cpu = .check bound tickets →
    config.Promise bound tickets
  claims : ∀ task publication, (config.publishing task).publication = some publication →
    config.Promise publication.deadline publication.covers

variable {config s} {s' : HintConfig τ cpus} {task : τ} {publication : Publication}

structure Carries (s s' : HintConfig τ cpus) : Prop where
  issued : s.issued ≤ s'.issued
  queued : ∀ waiter ∈ s'.queued, waiter ∈ s.queued ∨
    s.issued ≤ waiter.ticket ∧ waiter.ticket < s'.issued

omit [DecidableEq τ] in
theorem Promise.carry {bound : ℕ} {tickets : ℕ → Bool} (hpromise : s.Promise bound tickets)
    (hcarries : Carries s s') : s'.Promise bound tickets := by
  refine ⟨fun ticket hticket => (hpromise.used ticket hticket).trans_le hcarries.issued, ?_⟩
  intro waiter hwaiter hticket
  rcases hcarries.queued waiter hwaiter with hold | hnew
  · exact hpromise.waits waiter hold hticket
  · exact absurd (hpromise.used _ hticket) (Nat.not_lt.mpr hnew.1)

section

variable (hinv : s.Hinted)
include hinv

omit [DecidableEq τ] in
theorem Hinted.carry (hcarries : Carries s s') (hhint : s'.Promise s'.hint s'.published)
    (hknown : ∀ cpu bound tickets, s'.scanning cpu = .check bound tickets → s.Promise bound tickets)
    (hclaims : ∀ task publication, (s'.publishing task).publication = some publication →
      (s.publishing task).publication = some publication ∨
        s'.Promise publication.deadline publication.covers) : s'.Hinted := by
  refine ⟨?_, hhint, fun cpu bound tickets hcheck => (hknown cpu bound tickets hcheck).carry
    hcarries, ?_⟩
  · intro waiter hwaiter
    rcases hcarries.queued waiter hwaiter with hold | hnew
    · exact (hinv.issued waiter hold).trans_le hcarries.issued
    · exact hnew.2
  · intro task publication hclaim
    rcases hclaims task publication hclaim with hold | hnew
    · exact (hinv.claims task publication hold).carry hcarries
    · exact hnew

omit [DecidableEq τ] in
theorem Hinted.leave (ticket : ℕ) : (s.leave ticket).Hinted := by
  have hcarries : Carries s (s.leave ticket) :=
    ⟨le_rfl, fun waiter hwaiter => .inl (List.mem_of_mem_filter hwaiter)⟩
  exact hinv.carry hcarries (hinv.hint.carry hcarries) hinv.known fun _ _ hclaim => .inl hclaim

omit hinv in
theorem publication_of_update {publishing : Publishing}
    (hpublishing : publishing.publication = none ∨
      (s.publishing task).publication = publishing.publication) {other : τ}
    (hclaim : (update s.publishing task publishing other).publication =
      some publication) : (s.publishing other).publication = some publication := by
  by_cases hother : other = task
  · subst other
    rw [update_self] at hclaim
    rcases hpublishing with hnone | hsame
    · simp [hnone] at hclaim
    · rwa [hsame]
  · rwa [update_of_ne hother] at hclaim

theorem Hinted.complete {hint : ℕ} (hclaim : (s.publishing task).publication = some publication)
    (hhint : hint ≤ s.hint) (hlow : hint ≤ publication.deadline) :
    ({ s with hint := hint }.complete task publication).Hinted := by
  have hpromise := hinv.claims task publication hclaim
  refine hinv.carry ⟨le_rfl, fun _ hwaiter => .inl hwaiter⟩ ⟨?_, ?_⟩ hinv.known
    fun _ _ hfound => .inl (publication_of_update (.inl rfl) hfound)
  · intro ticket hticket
    rcases Bool.or_eq_true_iff.mp hticket with hold | hnew
    · exact hinv.hint.used ticket hold
    · exact hpromise.used ticket hnew
  · intro waiter hwaiter hticket deadline hdeadline
    rcases Bool.or_eq_true_iff.mp hticket with hold | hnew
    · exact hhint.trans (hinv.hint.waits waiter hwaiter hold deadline hdeadline)
    · exact hlow.trans (hpromise.waits waiter hwaiter hnew deadline hdeadline)

theorem Hinted.observe (hclaim : (s.publishing task).publication = some publication) :
    (s.observe task publication).Hinted := by
  rw [HintConfig.observe]
  split
  · exact hinv.carry ⟨le_rfl, fun _ hwaiter => .inl hwaiter⟩ ⟨hinv.hint.used, hinv.hint.waits⟩
      hinv.known fun _ _ hfound => .inl (publication_of_update (.inr hclaim) hfound)
  · next hlow => exact hinv.complete hclaim le_rfl (Nat.le_of_not_lt hlow)

theorem Hinted.publishStep {spurious : Bool}
    (hnext : s.publishStep task spurious = some s') : s'.Hinted := by
  rw [HintConfig.publishStep] at hnext
  split at hnext
  · simp at hnext
  · next publication hphase =>
    cases hnext
    exact hinv.observe (congrArg Publishing.publication hphase)
  · next publication current hlater hphase =>
    have hclaim := congrArg Publishing.publication hphase
    split at hnext
    all_goals cases hnext
    · next hexchange =>
      exact hinv.complete hclaim (hexchange.2 ▸ hlater.le) le_rfl
    · exact hinv.observe hclaim

theorem Hinted.enqueue (count : ℕ) (deadline : Option ℕ) :
    (s.enqueue task count deadline).Hinted := by
  have hcarries : Carries s (s.enqueue task count deadline) := by
    refine ⟨Nat.le_add_right _ _, fun waiter hwaiter => ?_⟩
    refine (List.mem_append.mp hwaiter).imp_right fun hnew => ?_
    obtain ⟨ticket, hticket, rfl⟩ := List.mem_map.mp hnew
    exact List.mem_range'_1.mp hticket
  refine hinv.carry hcarries (hinv.hint.carry hcarries) hinv.known fun other found hfound => ?_
  cases deadline with
  | none => exact .inl hfound
  | some deadline =>
    by_cases hother : other = task
    · subst other
      cases (congrArg Publishing.publication (update_self ..)).symm.trans hfound
      refine .inr ⟨fun ticket hticket => (of_decide_eq_true hticket).2, ?_⟩
      intro waiter hwaiter hticket found hfound
      rcases List.mem_append.mp hwaiter with hold | hnew
      · exact absurd (of_decide_eq_true hticket).1 (Nat.not_le.mpr (hinv.issued waiter hold))
      · obtain ⟨ticket, -, rfl⟩ := List.mem_map.mp hnew
        cases hfound
        exact le_rfl
    · refine .inl ?_
      rwa [← update_of_ne hother (.load _) s.publishing]

omit hinv in
theorem followingDeadline_le {queued : List TimedWaiter} {waiter : TimedWaiter}
    (hwaiter : waiter ∈ queued) {deadline : ℕ} (hdeadline : waiter.deadline = some deadline) :
    followingDeadline queued ≤ deadline := by
  induction queued with
  | nil => simp at hwaiter
  | cons first rest ih =>
    rw [followingDeadline]
    rcases List.mem_cons.mp hwaiter with rfl | hrest
    · rw [hdeadline]
      exact min_le_left _ _
    · split
      · exact (min_le_right _ _).trans (ih hrest)
      · exact ih hrest

omit [DecidableEq τ] in
theorem Hinted.setScanning {cpu : Fin cpus} {scanning : Scanning} {hint : ℕ}
    (hhint : s.Promise hint s.published)
    (hscanning : ∀ bound tickets, scanning = .check bound tickets → s.Promise bound tickets) :
    { s with
      hint := hint
      scanning := update s.scanning cpu scanning }.Hinted := by
  refine hinv.carry ⟨le_rfl, fun _ hwaiter => .inl hwaiter⟩ ⟨hhint.used, hhint.waits⟩
    (fun other bound tickets hcheck => ?_) fun _ _ hclaim => .inl hclaim
  by_cases hother : other = cpu
  · subst other
    exact hscanning bound tickets (by simpa using hcheck)
  · exact hinv.known other bound tickets (by simpa [hother] using hcheck)

omit [DecidableEq τ] in
theorem Hinted.scanStep (cpu : Fin cpus) : (s.scanStep cpu).Hinted := by
  rw [HintConfig.scanStep]
  split
  · split
    · exact hinv
    · refine hinv.setScanning hinv.hint fun bound tickets hcheck => ?_
      cases hcheck
      exact hinv.hint
  · refine hinv.setScanning hinv.hint fun bound tickets hcheck => ?_
    split at hcheck <;> simp at hcheck
  · split
    · exact hinv.leave _
    · exact hinv.setScanning ⟨hinv.hint.used, fun _ hwaiter _ _ hdeadline =>
        followingDeadline_le hwaiter hdeadline⟩ (by simp)

theorem Hinted.step {step : HintStep τ cpus} (hnext : s.next step = some s') : s'.Hinted := by
  cases step with
  | enqueue task count deadline =>
    rw [next] at hnext
    split at hnext <;> cases hnext
    exact hinv.enqueue count deadline
  | leave ticket =>
    cases hnext
    exact hinv.leave ticket
  | publish task spurious => exact hinv.publishStep hnext
  | scan cpu =>
    cases hnext
    exact hinv.scanStep cpu
  | tick elapsed =>
    cases hnext
    exact hinv.carry ⟨le_rfl, fun _ hwaiter => .inl hwaiter⟩ ⟨hinv.hint.used, hinv.hint.waits⟩
      hinv.known fun _ _ hclaim => .inl hclaim

omit [DecidableEq τ] in
theorem Hinted.skipsNobody : s.SkipsNobody s.knownTo := by
  intro cpu hskips waiter hwaiter hknown
  have hnow : s.monotonicNow < noFutexDeadline := (min_le_right _ _).trans_lt (by decide)
  have hlate : ∀ deadline, waiter.deadline = some deadline → s.monotonicNow < deadline := by
    intro deadline hdeadline
    rw [skips] at hskips
    rw [knownTo] at hknown
    split at hskips
    · next hidle =>
      rw [hidle] at hknown
      exact hnow.trans_le ((of_decide_eq_true hskips) ▸
        hinv.hint.waits waiter hwaiter hknown deadline hdeadline)
    · next bound tickets hcheck =>
      rw [hcheck] at hknown
      exact (of_decide_eq_true hskips).trans_le
        ((hinv.known cpu bound tickets hcheck).waits waiter hwaiter hknown deadline hdeadline)
    · simp at hskips
  cases hdeadline : waiter.deadline with
  | none => rfl
  | some deadline => exact decide_eq_false (Nat.not_le.mpr (hlate deadline hdeadline))

end

omit [DecidableEq τ] in
theorem hinted_boot : (boot τ cpus).Hinted := by
  constructor <;> simp [boot, Publishing.publication]
  exact ⟨by simp, by simp⟩

/-- In every run the hint is never late, and a scan which returns because of it overlooks
no expired waiter which had been published when the scan read it. -/
theorem neverLate_of_reachable (hreach : Reachable next always (boot τ cpus) config) :
    config.NeverLate ∧ config.SkipsNobody config.knownTo := by
  have hinv : config.Hinted :=
    hreach.invariant hinted_boot fun _ _ _ hinv _ hnext => hinv.step hnext
  exact ⟨fun waiter hwaiter deadline hdeadline hpublished =>
    hinv.hint.waits waiter hwaiter hpublished deadline hdeadline, hinv.skipsNobody⟩

/-- A waiter with a late deadline publishes it, and a scan reads the hint. -/
def hintRead : List (HintStep Bool 1) :=
  [.enqueue false 1 (some 1000), .publish false false, .publish false false, .scan i₀]

theorem neverLate_after_hintRead : ∃ config, Reachable next always (boot Bool 1) config ∧
      (config.NeverLate ∧ config.SkipsNobody config.knownTo) ∧ config.skips 0 = true ∧
        config.hint = 1000 := by
  refine (exists_reachable_of_runSteps hintRead ?_).imp fun config ⟨hreach, hfact⟩ =>
    ⟨hreach, neverLate_of_reachable hreach, hfact⟩
  decide +kernel

/-- Between the two reads of the scan another waiter publishes its deadline, which then passes. -/
theorem not_skipsNobody_of_later_publication :
    ¬ ∀ config, Reachable next always (boot Bool 1) config →
      config.NeverLate ∧ config.SkipsNobody fun _ => config.published := by
  intro hall
  obtain ⟨config, hreach, hskips, waiter, hwaiter, hpublished, hexpired⟩ :
      ∃ config : HintConfig Bool 1, Reachable next always (boot Bool 1) config ∧
        config.skips 0 = true ∧ ∃ waiter ∈ config.queued, config.published waiter.ticket = true ∧
            expired waiter.deadline config.monotonicNow = true :=
    exists_reachable_of_runSteps (hintRead ++ [.enqueue true 1 (some 500), .publish true false,
      .publish true false, .tick 600]) (by decide +kernel)
  have hunexpired := (hall config hreach).2 0 hskips waiter hwaiter hpublished
  simp [hexpired] at hunexpired

end HintConfig

end Kairix.Futex
