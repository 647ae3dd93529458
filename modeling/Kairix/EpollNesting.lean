import Kairix.LabelledRun
import Kairix.SysError

/-!
# Nesting of epoll instances

An epoll instance watches files and is a file itself.  `epoll_ctl` checks a nested
instance and inserts it afterwards, so the graph may change between the two steps, and
the check looks only at what the nested instance watches.
-/

namespace Kairix.Epoll

open LabelledRun Function List Option

inductive File (ι : Type*) where
  | epoll (id : ι)
  | other (index : ℕ) (supportsEpoll : Bool)
  deriving DecidableEq

structure EpollEvent where
  events : UInt32
  data : UInt64
  deriving DecidableEq

structure EpollInterest (ι : Type*) where
  file : File ι
  event : EpollEvent
  deriving DecidableEq

def epollIn : UInt32 := 0x001
def epollPri : UInt32 := 0x002
def epollOut : UInt32 := 0x004
def epollUserEvents : UInt32 := 0xe000201f
def epollCtlMaxNesting : ℕ := 5

variable {ι : Type*}

/-- The interests of one instance, in the order of their descriptors. -/
abbrev Interests (ι : Type*) := List (ℕ × EpollInterest ι)

def File.epollId : File ι → Option ι
  | .epoll id => some id
  | .other _ _ => none

def nested (interests : Interests ι) : List ι :=
  interests.filterMap fun entry => entry.2.file.epollId

/-! ## Recursion through nested instances, as far as the fuel lasts -/

def nestingDepth (watched : ι → Interests ι) : ℕ → ι → Option ℕ
  | 0, _ => none
  | fuel + 1, id => (nested (watched id)).foldr (fun target deepest => do
      return max (1 + (← nestingDepth watched fuel target)) (← deepest)) (some 0)

def containsEpollId [DecidableEq ι] (watched : ι → Interests ι) (sought : ι) : ℕ → ι → Option Bool
  | 0, _ => none
  | fuel + 1, id =>
    if id = sought then some true
    else (nested (watched id)).foldr (fun target rest => do
      if ← containsEpollId watched sought fuel target then return true else rest) (some false)

def readyEpollEvent (interest : EpollInterest ι) (readable writable : Bool) : Option EpollEvent :=
  let wanted := interest.event.events
  let events :=
    (if wanted &&& epollIn ≠ 0 ∧ readable = true then epollIn else 0) |||
    (if wanted &&& epollPri ≠ 0 ∧ readable = true then epollPri else 0) |||
    (if wanted &&& epollOut ≠ 0 ∧ writable = true then epollOut else 0)
  if events ≠ 0 then some ⟨wanted &&& ~~~epollUserEvents ||| events, interest.event.data⟩ else none

def collectReady (fileReady : File ι → Option (Bool × Bool)) (maxevents : ℕ) :
    List EpollEvent → Interests ι → Option (List EpollEvent)
  | ready, [] => some ready
  | ready, (_, interest) :: rest => do
    let (readable, writable) ← fileReady interest.file
    match readyEpollEvent interest readable writable with
    | none => collectReady fileReady maxevents ready rest
    | some event =>
      if (ready ++ [event]).length = maxevents then return ready ++ [event]
      else collectReady fileReady maxevents (ready ++ [event]) rest

/-- A nested instance is readable when it has an event, and always writable. -/
def readyEvents (watched : ι → Interests ι) (fileReady : ℕ → Bool × Bool) :
    ℕ → ι → ℕ → Option (List EpollEvent)
  | 0, _, _ => none
  | fuel + 1, id, maxevents =>
    collectReady (fun
      | .epoll target => do return (!(← readyEvents watched fileReady fuel target 1).isEmpty, true)
      | .other index _ => some (fileReady index)) maxevents [] (watched id)

/-! ## `sys_epoll_ctl` -/

inductive CtlOp where
  | add
  | delete
  | modify
  deriving DecidableEq

structure CtlCall (ι : Type*) where
  op : CtlOp
  epoll : ι
  target : File ι
  fd : ℕ
  deriving DecidableEq

structure EpollConfig (ι : Type*) (tasks : ℕ) where
  interests : ι → Interests ι
  calls : Fin tasks → Option (CtlCall ι)

/-- A call starts with its checks, which end within the fuel, and finishes with the event
it has read, if the event can be read. -/
inductive EpollStep (ι : Type*) (tasks : ℕ) where
  | check (task : Fin tasks) (call : CtlCall ι) (fuel : ℕ)
  | finish (task : Fin tasks) (event : Option EpollEvent)

namespace EpollConfig

variable [DecidableEq ι] {tasks : ℕ}

def check (config : EpollConfig ι tasks) (call : CtlCall ι) (fuel : ℕ) :
    Option (Except SysError Unit) :=
  match call.target with
  | .other _ supportsEpoll => some (if supportsEpoll = true then .ok () else .error .eperm)
  | .epoll id =>
    if id = call.epoll then some (.error .einval)
    else if call.op ≠ .add then some (.ok ())
    else do
      if ← containsEpollId config.interests call.epoll fuel id then return .error .eloop
      if 1 + (← nestingDepth config.interests fuel id) ≥ epollCtlMaxNesting then
        return .error .einval
      return .ok ()

def perform (interests : Interests ι) (call : CtlCall ι) (event : Option EpollEvent) :
    Except SysError (Interests ι) :=
  let present := interests.any fun entry => entry.1 = call.fd
  match call.op, event with
  | .delete, _ =>
    if present then .ok (interests.filter fun entry => entry.1 ≠ call.fd) else .error .enoent
  | _, none => .error .efault
  | .add, some event =>
    if present then .error .eexist
    else .ok (interests.orderedInsert (·.1 ≤ ·.1) (call.fd, ⟨call.target, event⟩))
  | .modify, some event =>
    if present then
      .ok (interests.map fun entry =>
        if entry.1 = call.fd then (entry.1, { entry.2 with event := event }) else entry)
    else .error .enoent

def next (config : EpollConfig ι tasks) : EpollStep ι tasks → Option (EpollConfig ι tasks)
  | .check task call fuel =>
    if config.calls task = none then
      (config.check call fuel).map fun
        | .ok _ => { config with calls := update config.calls task (some call) }
        | .error _ => config
    else none
  | .finish task event =>
    (config.calls task).map fun call =>
      { interests :=
          match perform (config.interests call.epoll) call event with
          | .ok interests => update config.interests call.epoll interests
          | .error _ => config.interests
        calls := update config.calls task none }

def boot (ι : Type*) (tasks : ℕ) : EpollConfig ι tasks := ⟨fun _ => [], fun _ => none⟩

def Watches (config : EpollConfig ι tasks) (first second : ι) : Prop :=
  second ∈ nested (config.interests first)

instance (config : EpollConfig ι tasks) : DecidableRel config.Watches :=
  fun _ _ => inferInstanceAs (Decidable (_ ∈ _))

/-- No cycle, no chain of more instances than the limit, and every recursion ends. -/
structure Bounded (config : EpollConfig ι tasks) : Prop where
  acyclic : ∀ id, ¬Relation.TransGen config.Watches id id
  chains : ∀ chain : List ι, chain.IsChain config.Watches → chain.length ≤ epollCtlMaxNesting
  depth : ∀ id, (nestingDepth config.interests epollCtlMaxNesting id).isSome = true
  contains : ∀ sought id,
    (containsEpollId config.interests sought epollCtlMaxNesting id).isSome = true
  ready : ∀ fileReady id maxevents,
    (readyEvents config.interests fileReady epollCtlMaxNesting id maxevents).isSome = true

end EpollConfig

/-! ## Bounded chains -/

/-- A chain from `first` has at most `limit` instances. -/
def Within (watches : ι → ι → Prop) : ℕ → ι → Prop
  | 0, _ => False
  | limit + 1, first => ∀ second, watches first second → Within watches limit second

section Within

variable {watches s' : ι → ι → Prop} {limit : ℕ} {first : ι}
  (hwithin : Within watches limit first)
include hwithin

theorem Within.mono {bound : ℕ} (hle : limit ≤ bound)
    (hafter : ∀ first second, s' first second → watches first second) :
    Within s' bound first := by
  induction limit generalizing bound first with
  | zero => exact hwithin.elim
  | succ limit ih =>
    cases bound with
    | zero => omega
    | succ bound =>
      exact fun second hsecond => ih (hwithin second (hafter first second hsecond)) (by omega)

theorem Within.acyclic : ¬Relation.TransGen watches first first := by
  intro hcycle
  induction limit generalizing first with
  | zero => exact hwithin
  | succ limit ih =>
    obtain ⟨second, hsecond, hback⟩ := Relation.TransGen.head'_iff.mp hcycle
    exact ih (hwithin second hsecond) (.tail' hback hsecond)

theorem Within.length_le {rest : List ι} (hchain : (first :: rest).IsChain watches) :
    (first :: rest).length ≤ limit := by
  induction limit generalizing first rest with
  | zero => exact hwithin.elim
  | succ limit ih =>
    cases rest with
    | nil => simp
    | cons second rest =>
      obtain ⟨hsecond, hrest⟩ := isChain_cons_cons.mp hchain
      exact Nat.succ_le_succ (ih (hwithin second hsecond) hrest)

theorem Within.ends {motive : ℕ → ι → Prop} (hstep : ∀ fuel id,
    (∀ target, watches id target → motive fuel target) → motive (fuel + 1) id) :
    motive limit first := by
  induction limit generalizing first with
  | zero => exact hwithin.elim
  | succ limit ih =>
    exact hstep limit first fun target htarget => ih (hwithin target htarget)

/-- The chains which lead to the instance leave room for those of the new one. -/
theorem Within.insert {epoll target : ι} (hroom : ∀ rest, (first :: rest).IsChain watches →
      (first :: rest).getLast (cons_ne_nil _ _) = epoll →
        Within s' (limit - (rest.length + 1)) target)
    (hmore : ∀ first second, s' first second →
      watches first second ∨ first = epoll ∧ second = target) :
    Within s' limit first := by
  induction limit generalizing first with
  | zero => exact hwithin
  | succ limit ih =>
    intro second hsecond
    rcases hmore first second hsecond with hold | ⟨rfl, rfl⟩
    · refine ih (hwithin second hold) fun rest hrest hlast => ?_
      have hlonger := hroom (second :: rest) (isChain_cons_cons.mpr ⟨hold, hrest⟩)
        (by rwa [getLast_cons_cons])
      rwa [length_cons, Nat.add_sub_add_right] at hlonger
    · exact hroom [] (isChain_singleton first) rfl

end Within

theorem collectReady_isSome {fileReady : File ι → Option (Bool × Bool)} {maxevents : ℕ}
    {interests : Interests ι} (hready : ∀ entry ∈ interests, (fileReady entry.2.file).isSome = true)
    (ready : List EpollEvent) :
    (collectReady fileReady maxevents ready interests).isSome = true := by
  induction interests generalizing ready with
  | nil => rfl
  | cons entry rest ih =>
    obtain ⟨both, hboth⟩ := isSome_iff_exists.mp (hready entry mem_cons_self)
    have hrest := ih fun other hother => hready other (mem_cons_of_mem entry hother)
    simp only [collectReady, hboth, bind_eq_bind, bind_some]
    split
    · exact hrest ready
    · split
      · rfl
      · exact hrest _

namespace EpollConfig

variable {tasks : ℕ} {config s : EpollConfig ι tasks}

theorem bounded_of_within [DecidableEq ι] (hwithin : ∀ id, Within s.Watches epollCtlMaxNesting id) :
    s.Bounded where
  acyclic id := (hwithin id).acyclic
  chains chain hchain := by
    cases chain with
    | nil => exact Nat.zero_le _
    | cons first rest => exact (hwithin first).length_le hchain
  depth id := by
    refine (hwithin id).ends (motive := fun fuel id =>
      (nestingDepth s.interests fuel id).isSome = true) fun fuel id hall => ?_
    refine foldrRecOn (motive := fun depth : Option ℕ => depth.isSome = true) _ _ rfl
      fun deepest hdeepest target htarget => ?_
    obtain ⟨deep, hdeep⟩ := isSome_iff_exists.mp (hall target htarget)
    obtain ⟨deepest, rfl⟩ := isSome_iff_exists.mp hdeepest
    simp [hdeep]
  contains sought id := by
    refine (hwithin id).ends (motive := fun fuel id =>
      (containsEpollId s.interests sought fuel id).isSome = true) fun fuel id hall => ?_
    rw [containsEpollId]
    split
    · rfl
    · refine foldrRecOn (motive := fun found : Option Bool => found.isSome = true) _ _ rfl
        fun rest hrest target htarget => ?_
      obtain ⟨found, hfound⟩ := isSome_iff_exists.mp (hall target htarget)
      cases found <;> simp [hfound, hrest]
  ready fileReady id := by
    refine (hwithin id).ends (motive := fun fuel id => ∀ maxevents,
      (readyEvents s.interests fileReady fuel id maxevents).isSome = true)
      fun fuel id hall maxevents => ?_
    refine collectReady_isSome (fun entry hentry => ?_) []
    cases hfile : entry.2.file with
    | other index supportsEpoll => rfl
    | epoll target =>
      obtain ⟨events, hevents⟩ := isSome_iff_exists.mp
        (hall target (mem_filterMap.mpr ⟨entry, hentry, by rw [hfile]; rfl⟩) 1)
      simp [hevents]

theorem within_of_nestingDepth {fuel depth : ℕ} {first : ι}
    (hdepth : nestingDepth s.interests fuel first = some depth) :
    Within s.Watches (depth + 1) first := by
  induction fuel generalizing depth first with
  | zero => simp [nestingDepth] at hdepth
  | succ fuel ih =>
    unfold Within Watches
    rw [nestingDepth] at hdepth
    generalize nested (s.interests first) = targets at hdepth ⊢
    induction targets generalizing depth with
    | nil => simp
    | cons target rest ihRest =>
      simp only [foldr_cons, Option.bind_eq_bind, Option.pure_def,
        Option.bind_eq_some_iff, Option.some.injEq] at hdepth
      obtain ⟨deep, hdeep, deepest, hdeepest, rfl⟩ := hdepth
      intro other hother
      rcases mem_cons.mp hother with rfl | hrest
      · exact (ih hdeep).mono (by omega) fun _ _ hwatches => hwatches
      · exact (ihRest hdeepest other hrest).mono (by omega) fun _ _ hwatches => hwatches

theorem mem_nested_of_perform {interests changed : Interests ι} {call : CtlCall ι}
    {event : Option EpollEvent} {id : ι} (hperform : perform interests call event = .ok changed)
    (hid : id ∈ nested changed) :
    id ∈ nested interests ∨ call.op = .add ∧ call.target.epollId = some id := by
  unfold perform at hperform
  dsimp only at hperform
  split at hperform
  · split at hperform <;> cases hperform
    exact .inl ((filter_sublist.filterMap _).subset hid)
  · cases hperform
  · next event hop =>
    split at hperform <;> cases hperform
    obtain ⟨entry, hentry, hfile⟩ := mem_filterMap.mp hid
    rcases (mem_orderedInsert ..).mp hentry with rfl | hold
    · exact .inr ⟨hop, hfile⟩
    · exact .inl (mem_filterMap.mpr ⟨entry, hold, hfile⟩)
  · split at hperform <;> cases hperform
    obtain ⟨entry, hentry, hfile⟩ := mem_filterMap.mp hid
    obtain ⟨old, hmem, rfl⟩ := mem_map.mp hentry
    exact .inl (mem_filterMap.mpr ⟨old, hmem, by split at hfile <;> exact hfile⟩)

variable [DecidableEq ι]

/-- When a nested instance is inserted its check would still pass, and the chains which end
in the other instance are short enough for the depth of the nested one. -/
def Settled (config : EpollConfig ι tasks) : EpollStep ι tasks → Prop
  | .check _ _ _ => True
  | .finish task _ => ∀ call ∈ config.calls task, call.op = .add → ∀ id ∈ call.target.epollId,
      config.check call epollCtlMaxNesting = some (.ok ()) ∧
        ∀ depth ∈ nestingDepth config.interests epollCtlMaxNesting id,
          Within (fun below above => config.Watches above below)
            (epollCtlMaxNesting - (depth + 1)) call.epoll

theorem unreached_of_containsEpollId {fuel : ℕ} {sought id : ι}
    (hcontains : containsEpollId s.interests sought fuel id = some false) :
    ¬Relation.ReflTransGen s.Watches id sought := by
  induction fuel generalizing id with
  | zero => simp [containsEpollId] at hcontains
  | succ fuel ih =>
    rw [containsEpollId] at hcontains
    split at hcontains
    · simp at hcontains
    · next hne =>
      intro hreaches
      obtain hsame | ⟨target, htarget, hreaches⟩ := hreaches.cases_head
      · exact hne hsame
      · refine ih ?_ hreaches
        change target ∈ nested (s.interests id) at htarget
        generalize nested (s.interests id) = targets at hcontains htarget
        induction targets with
        | nil => simp at htarget
        | cons other rest ihRest =>
          simp only [foldr_cons, Option.bind_eq_bind, Option.bind_eq_some_iff] at hcontains
          obtain ⟨found, hfound, hrest⟩ := hcontains
          cases found with
          | true => simp at hrest
          | false =>
            rcases mem_cons.mp htarget with rfl | hmem
            · exact hfound
            · exact ihRest hrest hmem

theorem check_ok {call : CtlCall ι} {fuel : ℕ} {id : ι} (hop : call.op = .add)
    (hid : call.target.epollId = some id) (hcheck : s.check call fuel = some (.ok ())) :
    ¬Relation.ReflTransGen s.Watches id call.epoll ∧
      ∃ depth, nestingDepth s.interests fuel id = some depth := by
  cases htarget : call.target with
  | other index supportsEpoll => simp [htarget, File.epollId] at hid
  | epoll target =>
    obtain rfl : target = id := by simpa [htarget, File.epollId] using hid
    simp only [check, htarget, hop] at hcheck
    split at hcheck
    · cases hcheck
    · simp [bind_eq_some_iff] at hcheck
      exact ⟨unreached_of_containsEpollId hcheck.1, hcheck.2.imp fun _ hdepth => hdepth.1⟩

/-- A call which is performed adds at most the edge from its instance to its target. -/
theorem watches_of_perform {call : CtlCall ι} {event : Option EpollEvent} {changed : Interests ι}
    (hperform : perform (s.interests call.epoll) call event = .ok changed) (first second : ι)
    (hwatches : second ∈ nested (update s.interests call.epoll changed first)) :
    s.Watches first second ∨
      first = call.epoll ∧ call.op = .add ∧ call.target.epollId = some second := by
  by_cases hfirst : first = call.epoll
  · subst hfirst
    rw [update_self] at hwatches
    exact (mem_nested_of_perform hperform hwatches).imp_right fun hnew => ⟨rfl, hnew⟩
  · rw [update_of_ne hfirst] at hwatches
    exact .inl hwatches

theorem within_next {step : EpollStep ι tasks} {config' : EpollConfig ι tasks}
    (hwithin : ∀ id, Within s.Watches epollCtlMaxNesting id) (hsettled : s.Settled step)
    (hnext : s.next step = some config') (id : ι) :
    Within config'.Watches epollCtlMaxNesting id := by
  cases step with
  | check task call fuel =>
    simp only [next] at hnext
    split at hnext
    · obtain ⟨result, -, rfl⟩ := map_eq_some_iff.mp hnext
      cases result <;> exact hwithin id
    · cases hnext
  | finish task event =>
    obtain ⟨call, hcall, rfl⟩ := map_eq_some_iff.mp hnext
    cases hperform : perform (s.interests call.epoll) call event with
    | error err => exact hwithin id
    | ok changed =>
      have hmore := watches_of_perform hperform
      by_cases hnew : call.op = .add ∧ call.target.epollId ≠ none
      · obtain ⟨target, htarget⟩ := ne_none_iff_exists'.mp hnew.2
        obtain ⟨hcheck, habove⟩ := hsettled call hcall hnew.1 target htarget
        obtain ⟨hunreached, depth, hdepth⟩ := check_ok hnew.1 htarget hcheck
        have hinserts (first second : ι)
            (hwatches : second ∈ nested (update s.interests call.epoll changed first)) :
            s.Watches first second ∨ first = call.epoll ∧ second = target :=
          (hmore first second hwatches).imp_right fun hadd =>
            ⟨hadd.1, some.inj (hadd.2.2.symm.trans htarget)⟩
        have hbelow := (within_of_nestingDepth hdepth).insert (fun rest hrest hlast => absurd
          (relationReflTransGen_of_exists_isChain_cons rest hrest hlast) hunreached) hinserts
        refine (hwithin id).insert (fun rest hrest hlast => hbelow.mono ?_ fun _ _ h => h)
          hinserts
        -- Read from its end the path is one of the chains above the instance.
        rw [← dropLast_append_getLast (cons_ne_nil id rest), hlast] at hrest
        have hchain := isChain_reverse.mpr hrest
        rw [reverse_append, reverse_singleton, singleton_append] at hchain
        have hlength := (habove depth hdepth).length_le hchain
        simp only [length_cons, length_reverse, length_dropLast] at hlength
        omega
      · refine (hwithin id).mono le_rfl fun first second hwatches =>
          (hmore first second hwatches).resolve_right fun hadd => hnew ⟨hadd.2.1, ?_⟩
        simp [hadd.2.2]

theorem bounded_of_reachable (hreach : Reachable next Settled (boot ι tasks) config) :
    config.Bounded := by
  refine bounded_of_within (hreach.invariant ?_ fun _ _ _ => within_next)
  intro id second hsecond
  cases hsecond

instance decidableWithin [Fintype ι] (watches : ι → ι → Prop) [DecidableRel watches] :
    ∀ limit first, Decidable (Within watches limit first)
  | 0, _ => instDecidableFalse
  | limit + 1, first =>
    have := decidableWithin watches limit
    inferInstanceAs (Decidable (∀ second, watches first second → Within watches limit second))

instance [Fintype ι] (config : EpollConfig ι tasks) (step : EpollStep ι tasks) :
    Decidable (config.Settled step) := by
  unfold Settled; cases step <;> infer_instance

def addCall (epoll target : ι) : CtlCall ι := ⟨.add, epoll, .epoll target, 0⟩

/-- Two instances are nested from the top, and the last call puts one above them. -/
theorem bounded_after_nesting :
    ∃ config : EpollConfig (Fin 4) 1, Reachable next Settled (boot (Fin 4) 1) config ∧
      config.Bounded ∧ [0, 1, 2, 3].IsChain config.Watches := by
  refine (exists_reachable_of_runSteps [.check 0 (addCall 1 2) 1, .finish 0 (some ⟨1, 0⟩),
    .check 0 (addCall 2 3) 1, .finish 0 (some ⟨1, 0⟩),
    .check 0 (addCall 0 1) 3, .finish 0 (some ⟨1, 0⟩)] ?_).imp
    fun config ⟨hreach, hfact⟩ => ⟨hreach, bounded_of_reachable hreach, hfact⟩
  decide +kernel

/-- Top-down insertions pass every check, and so do two checks before either insertion. -/
theorem not_bounded_of_reachable :
    (∃ config : EpollConfig (Fin 7) 1, Reachable next always (boot (Fin 7) 1) config ∧
      (finRange 7).IsChain config.Watches ∧ ¬config.Bounded) ∧
    ∃ config : EpollConfig (Fin 2) 2, Reachable next always (boot (Fin 2) 2) config ∧
      config.Watches 0 1 ∧ config.Watches 1 0 ∧ ¬config.Bounded := by
  constructor
  · obtain ⟨config, hreach, hchain⟩ : ∃ config : EpollConfig (Fin 7) 1,
        Reachable next always (boot (Fin 7) 1) config ∧ (finRange 7).IsChain config.Watches :=
      exists_reachable_of_runSteps ((finRange 6).flatMap fun id =>
        [.check 0 (addCall id.castSucc id.succ) 1, .finish 0 (some ⟨1, 0⟩)]) (by decide +kernel)
    exact ⟨config, hreach, hchain, fun hbounded => absurd (hbounded.chains _ hchain) (by decide)⟩
  · obtain ⟨config, hreach, hfirst, hsecond⟩ : ∃ config : EpollConfig (Fin 2) 2,
        Reachable next always (boot (Fin 2) 2) config ∧ config.Watches 0 1 ∧ config.Watches 1 0 :=
      exists_reachable_of_runSteps [.check 0 (addCall 0 1) 1, .check 1 (addCall 1 0) 1,
        .finish 0 (some ⟨1, 0⟩), .finish 1 (some ⟨1, 0⟩)] (by decide +kernel)
    exact ⟨config, hreach, hfirst, hsecond, fun hbounded => hbounded.acyclic 0
      (.tail (.single hfirst) hsecond)⟩

end EpollConfig

end Kairix.Epoll
