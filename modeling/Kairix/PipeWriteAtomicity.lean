import Kairix.LabelledRun
import Kairix.PipeWriteSections

/-!
# Atomicity of small pipe writes

Any number of write calls and readers share one pipe, and their locked rounds
interleave freely.  Every accepted byte is recorded with the call which wrote
it.  A write of at most `PIPE_BUF` bytes is atomic as long as no round offers
the multi-buffer path only a part of the space it needs; the single-page path
checks for this, the multi-buffer path does not.
-/

namespace Kairix.Pipe

open Function PipeRingBuffer LabelledRun List

/-! ## The shared pipe -/

/-- The accepted bytes of a pipe, each with the call which wrote it. -/
abbrev Stream := List (ℕ × UInt8)

def tagged (id : ℕ) (bytes : List UInt8) : Stream :=
  bytes.map fun byte => (id, byte)

/-- A pipe with its write calls.  The last three fields record the history:
whether every round of a call saw `O_NONBLOCK`, the accepted bytes with their
call, and how many of them have left the pipe. -/
structure PipeConfig where
  ring : PipeRingBuffer
  nonblock : Bool
  calls : ℕ → Option WriteCall
  nonblocking : ℕ → Bool
  stream : Stream
  consumed : ℕ

def PipeConfig.initial : PipeConfig where
  ring := PipeRingBuffer.new
  nonblock := false
  calls := fun _ => none
  nonblocking := fun _ => true
  stream := []
  consumed := 0

inductive PipeStep where
  | start (id : ℕ) (path : WritePath) (buffers : List (List UInt8))
  | round (id : ℕ)
  | wake (id : ℕ)
  | interrupt (id : ℕ)
  | read (lens : List ℕ)
  | setStatusFlags (nonblock : Bool)
  | resize (capacity : ℕ)
  | closeRead
  | closeWrite

def readBuffers (ring : PipeRingBuffer) : List ℕ → PipeRingBuffer × ℕ
  | [] => (ring, 0)
  | len :: rest =>
    let read := ring.readSlice len
    let more := readBuffers read.1 rest
    (more.1, read.2.length + more.2)

namespace PipeConfig

def setCall (config : PipeConfig) (id : ℕ) (call : WriteCall) : PipeConfig :=
  { config with calls := update config.calls id (some call) }

def round (config : PipeConfig) (id : ℕ) (call : WriteCall) : Option PipeConfig :=
  (writeSection config.ring config.nonblock call).map fun written =>
    { config.setCall id written.2 with
      ring := written.1
      nonblocking := update config.nonblocking id
        (config.nonblocking id && config.nonblock)
      stream := config.stream ++ tagged id (call.storedBy written.2) }

def step (config : PipeConfig) : PipeStep → Option PipeConfig
  | .start id path buffers =>
    if (config.calls id).isSome ∨ (path = .userSlice ∧ buffers.length ≠ 1) then none
    else some (config.setCall id (.start path buffers))
  | .round id =>
    match config.calls id with
    | some call =>
      match call.phase with
      | .ready => config.round id call
      | _ => none
    | none => none
  | .wake id =>
    match config.calls id with
    | some call =>
      match call.phase with
      | .waiting => some (config.setCall id { call with phase := .ready })
      | _ => none
    | none => none
  | .interrupt id =>
    match config.calls id with
    | some call =>
      match call.phase with
      | .waiting => some (config.setCall id (call.finish (.error .eintr)))
      | _ => none
    | none => none
  | .read lens =>
    let read := readBuffers config.ring lens
    some { config with
      ring := read.1
      consumed := config.consumed + read.2 }
  | .setStatusFlags nonblock => some { config with nonblock := nonblock }
  | .resize capacity =>
    (config.ring.setPipeCapacity capacity).map fun resized =>
      { config with ring := resized.1 }
  | .closeRead =>
    some { config with
      ring := config.ring.closeReadEnd
      consumed := config.consumed + config.ring.availableRead }
  | .closeWrite => some { config with ring := config.ring.closeWriteEnd }

end PipeConfig

def Absent (stream : Stream) (id : ℕ) : Prop :=
  ∀ entry ∈ stream, entry.1 ≠ id

/-- The bytes of the call were accepted one after the other, once. -/
def Contiguous (stream : Stream) (id : ℕ) (bytes : List UInt8) : Prop :=
  ∃ before after,
    stream = before ++ tagged id bytes ++ after ∧ Absent before id ∧ Absent after id

def written (stream : Stream) (id : ℕ) : List UInt8 :=
  (stream.filter fun entry => entry.1 = id).map Prod.snd

namespace PipeConfig

/-- The pipe holds the accepted bytes which have not left it. -/
def HoldsStream (config : PipeConfig) : Prop :=
  config.ring.Represents ((config.stream.map Prod.snd).drop config.consumed)

/-- Successful small writes are contiguous, and a small non-blocking write
stores everything or fails with `EAGAIN` and stores nothing. -/
def AtomicWrites (config : PipeConfig) : Prop :=
  ∀ id call, config.calls id = some call → call.wantToWrite ≤ pipeBuf →
    (∀ count, call.phase = .done (.ok count) → Contiguous config.stream id call.bytes) ∧
    (config.nonblocking id = true → ∀ result, call.phase = .done result →
      (result = .ok call.wantToWrite ∧
          Contiguous config.stream id call.bytes) ∨
        (result = .error .eagain ∧ Absent config.stream id))

/-- No round of a small multi-buffer write finds space for only a part of
it, and no non-blocking round of a small write finds the read end closed. -/
def StepFits (config : PipeConfig) : PipeStep → Prop
  | .round id =>
    ∀ call, config.calls id = some call → call.wantToWrite ≤ pipeBuf →
      RoundFits config.ring call ∧ (config.nonblock = true → config.ring.readEndOpen = true)
  | _ => True

/-- A finished call has appended the bytes it reports, and none if it failed. -/
def ExactWrites (config : PipeConfig) : Prop :=
  ∀ id call result, config.calls id = some call → call.phase = .done result →
    match result with
    | .ok count =>
      count ≤ call.wantToWrite ∧ written config.stream id = call.bytes.take count
    | .error _ => written config.stream id = []

/-- No call which has stored bytes finds the read end closed or is interrupted. -/
def StepKeeps (config : PipeConfig) : PipeStep → Prop
  | .round id => ∀ call, config.calls id = some call → 0 < call.alreadyWrite →
      config.ring.readEndOpen = true
  | .interrupt id => ∀ call, config.calls id = some call → call.alreadyWrite = 0
  | _ => True

end PipeConfig

variable {stream : Stream} {id other : ℕ}

theorem Absent.append_tagged (habsent : Absent stream other) (hne : id ≠ other)
    (bytes : List UInt8) :
    Absent (stream ++ tagged id bytes) other := by
  intro entry hentry
  rcases mem_append.mp hentry with hold | hnew
  · exact habsent entry hold
  · obtain ⟨byte, _, rfl⟩ := mem_map.mp hnew
    exact hne

theorem Contiguous.append_tagged {bytes : List UInt8} (hcontiguous : Contiguous stream other bytes)
    (hne : id ≠ other) (more : List UInt8) : Contiguous (stream ++ tagged id more) other bytes := by
  obtain ⟨before, s', rfl, hbefore, hafter⟩ := hcontiguous
  refine ⟨before, s' ++ tagged id more, ?_, hbefore, hafter.append_tagged hne more⟩
  simp [append_assoc]

theorem Absent.contiguous_append (habsent : Absent stream id) (bytes : List UInt8) :
    Contiguous (stream ++ tagged id bytes) id bytes :=
  ⟨stream, [], by simp, habsent, by intro entry hentry; cases hentry⟩

attribute [local simp] PipeConfig.setCall tagged comp_def

@[simp] theorem tagged_map_snd (id : ℕ) (bytes : List UInt8) :
    (tagged id bytes).map Prod.snd = bytes := by
  simp [map_map]

/-! ## The invariant -/

def SmallWrite (stream : Stream) (nonblocking : Bool) (id : ℕ) (call : WriteCall) : Prop :=
  match call.phase with
  | .done (.ok count) =>
    count = call.wantToWrite ∧ Contiguous stream id call.bytes
  | .done (.error error) =>
    Absent stream id ∧ (nonblocking = true → error = .eagain)
  | _ => call.alreadyWrite = 0 ∧ Absent stream id

/-- A waiting call was not always non-blocking, and a small call is all or nothing. -/
def SmallCall (stream : Stream) (nonblocking : Bool) (id : ℕ) (call : WriteCall) : Prop :=
  (call.phase = .waiting → nonblocking = false) ∧
    (call.wantToWrite ≤ pipeBuf → SmallWrite stream nonblocking id call)

/-- The accepted bytes of a call are the first ones of its data, as many as it counts, and
its result says so. -/
def ExactCall (stream : Stream) (_ : Bool) (id : ℕ) (call : WriteCall) : Prop :=
  written stream id = call.bytes.take call.alreadyWrite ∧
    match call.phase with
    | .done (.ok count) => count = call.alreadyWrite
    | .done (.error _) => call.alreadyWrite = 0
    | _ => True

section

variable (kept : Stream → Bool → ℕ → WriteCall → Prop)

structure CallInvariant (stream : Stream) (nonblocking : Bool) (id : ℕ)
    (call : WriteCall) : Prop where
  valid : call.Valid
  pending_pos : (∀ result, call.phase ≠ .done result) → 0 < call.wantToWrite
  kept : kept stream nonblocking id call

/-- A property of calls which every admitted step of any call keeps. -/
structure CallRule (admits : PipeConfig → PipeStep → Prop) : Prop where
  append {stream nonblocking id other call} (bytes : List UInt8) (hne : id ≠ other)
    (hkept : kept stream nonblocking other call) :
    kept (stream ++ tagged id bytes) nonblocking other call
  start {stream nonblocking id} (path : WritePath) (buffers : List (List UInt8))
    (habsent : Absent stream id) : kept stream nonblocking id (.start path buffers)
  wake {stream nonblocking id call} (hphase : call.phase = .waiting)
    (hkept : kept stream nonblocking id call) :
    kept stream nonblocking id { call with phase := .ready }
  interrupt {config : PipeConfig} {id call} (hadmits : admits config (.interrupt id))
    (hcalls : config.calls id = some call) (hphase : call.phase = .waiting)
    (hkept : kept config.stream (config.nonblocking id) id call) :
    kept config.stream (config.nonblocking id) id (call.finish (.error .eintr))
  round {config : PipeConfig} {id call ring' call' queue} (hadmits : admits config (.round id))
    (hcalls : config.calls id = some call) (hphase : call.phase = .ready)
    (hround : RoundOutcome config.ring config.nonblock call queue ring' call')
    (hkept : kept config.stream (config.nonblocking id) id call) :
    kept (config.stream ++ tagged id (call.storedBy call'))
      (config.nonblocking id && config.nonblock) id call'

end

@[simp] theorem storedBy_withPhase (call : WriteCall) (phase : CallPhase) :
    call.storedBy { call with phase := phase } = [] := by
  simp [WriteCall.storedBy]

theorem RoundEffect.bytes_eq {ring ring' : PipeRingBuffer} {call call' : WriteCall}
    {queue : List UInt8} (heffect : RoundEffect ring call queue ring' call') :
    call'.bytes = call.bytes := by
  rw [WriteCall.bytes, heffect.buffers_eq]
  rfl

theorem WriteCall.start_phase (path : WritePath) (buffers : List (List UInt8)) :
    (WriteCall.start path buffers).phase = .done (.ok 0) ∧ buffers.flatten = [] ∨
      (WriteCall.start path buffers).phase = .ready ∧ 0 < buffers.flatten.length := by
  by_cases hempty : buffers.flatten.length = 0
  · exact .inl ⟨if_pos hempty, length_eq_zero_iff.mp hempty⟩
  · exact .inr ⟨if_neg hempty, Nat.pos_of_ne_zero hempty⟩

theorem smallCall_rule : CallRule SmallCall PipeConfig.StepFits where
  append bytes hne hkept := by
    refine ⟨hkept.1, fun hsmall => ?_⟩
    have hold := hkept.2 hsmall
    unfold SmallWrite at hold ⊢
    split at hold
    · exact ⟨hold.1, hold.2.append_tagged hne bytes⟩
    · exact ⟨hold.1.append_tagged hne bytes, hold.2⟩
    · exact ⟨hold.1, hold.2.append_tagged hne bytes⟩
  start path buffers habsent := by
    rcases WriteCall.start_phase path buffers with ⟨hphase, hnil⟩ | ⟨hphase, -⟩
    · have hcontiguous := habsent.contiguous_append []
      rw [tagged, map_nil, append_nil] at hcontiguous
      simp [SmallCall, SmallWrite, WriteCall.wantToWrite, WriteCall.bytes, WriteCall.start, hnil,
        hcontiguous]
    · simp only [SmallCall, SmallWrite, hphase]
      exact ⟨by rintro ⟨⟩, fun _ => ⟨rfl, habsent⟩⟩
  wake hphase hkept := by
    refine ⟨by rintro ⟨⟩, fun hsmall => ?_⟩
    have hold := hkept.2 hsmall
    simp only [SmallWrite, hphase] at hold ⊢
    exact hold
  interrupt _ _ hphase hkept := by
    refine ⟨by rintro ⟨⟩, fun hsmall => ?_⟩
    have hold := hkept.2 hsmall
    simp only [SmallWrite, hphase] at hold
    refine ⟨hold.2, fun hnonblocking => ?_⟩
    rw [hkept.1 hphase] at hnonblocking
    cases hnonblocking
  round {s id call ring' call' queue} hadmits hcalls hphase hround hkept := by
    have hfits := hadmits call hcalls
    have hold := hkept.2
    simp only [SmallWrite, hphase] at hold
    cases hround with
    | closed hclosed =>
      refine ⟨by rintro ⟨⟩, fun hsmall => ?_⟩
      have hopen := (hfits hsmall).2
      simp only [WriteCall.finish, SmallWrite, storedBy_withPhase, tagged, map_nil,
        append_nil, Bool.and_eq_true]
      exact ⟨(hold hsmall).2, fun hboth => by simp [hopen hboth.2] at hclosed⟩
    | refused result hnonblock hresult =>
      refine ⟨by rintro ⟨⟩, fun hsmall => ?_⟩
      obtain ⟨hzero, habsent⟩ := hold hsmall
      rcases hresult with ⟨-, hpos⟩ | ⟨rfl, -⟩
      · omega
      · simpa [WriteCall.finish, SmallWrite] using habsent
    | waits hnonblock =>
      refine ⟨fun _ => by rw [hnonblock, Bool.and_false], fun hsmall => ?_⟩
      simpa [WriteCall.wait, SmallWrite] using hold hsmall
    | stored heffect hspace hslice halready hresult =>
      have hbytes := heffect.bytes_eq
      have hwant : call'.wantToWrite = call.wantToWrite := by
        rw [WriteCall.wantToWrite, hbytes]
        rfl
      refine ⟨fun hwaiting => ?_, fun hsmall => ?_⟩
      · rcases hresult with hdone | ⟨hsame, -⟩
        · simp [hdone] at hwaiting
        · simp [hsame, hphase] at hwaiting
      · rw [hwant] at hsmall
        obtain ⟨hzero, habsent⟩ := hold hsmall
        have hroom : call.wantToWrite ≤ s.ring.availableWrite := by
          rcases (hfits hsmall).1 with hpath | hnone | hroom
          · exact hslice hpath hsmall
          · exact absurd hnone hspace
          · exact hroom
        have hall : call'.alreadyWrite = call.wantToWrite := by omega
        have hdone := hresult.resolve_right fun hmore => hmore.2 hall
        have hstored : call.storedBy call' = call.bytes := by
          rw [WriteCall.storedBy, hall, hzero]
          simp [WriteCall.wantToWrite]
        rw [hstored]
        simp only [SmallWrite, hdone, hbytes]
        exact ⟨hall.trans hwant.symm, habsent.contiguous_append call.bytes⟩

theorem written_append (stream : Stream) (id other : ℕ) (bytes : List UInt8) :
    written (stream ++ tagged id bytes) other =
      written stream other ++ if id = other then bytes else [] := by
  rw [written, filter_append, map_append, tagged, filter_map]
  split
  · next heq => simp [written, heq]
  · next hne => simp [written, hne]

theorem exactCall_rule : CallRule ExactCall PipeConfig.StepKeeps where
  append bytes hne hkept := by
    refine ⟨?_, hkept.2⟩
    rw [written_append, if_neg hne, append_nil]
    exact hkept.1
  start {stream _ id} path buffers habsent := by
    have hnone : stream.filter (fun entry => entry.1 = id) = [] :=
      filter_eq_nil_iff.mpr fun entry hentry => by simpa using habsent entry hentry
    refine ⟨by rw [written, hnone]; rfl, ?_⟩
    rcases WriteCall.start_phase path buffers with ⟨hphase, -⟩ | ⟨hphase, -⟩
    · rw [hphase]
      rfl
    · rw [hphase]
      trivial
  wake _ hkept := ⟨hkept.1, trivial⟩
  interrupt {_ _ call} hadmits hcalls _ hkept := ⟨hkept.1, hadmits call hcalls⟩
  round {s id call ring' call' queue} hadmits hcalls hphase hround hkept := by
    obtain ⟨hrecorded, -⟩ := hkept
    have hkeeps (phase : CallPhase) :
        written (s.stream ++ tagged id (call.storedBy { call with phase := phase })) id =
          call.bytes.take call.alreadyWrite := by
      simpa using hrecorded
    cases hround with
    | closed hclosed =>
      refine ⟨hkeeps _, ?_⟩
      refine Nat.eq_zero_of_not_pos fun hpos => ?_
      simp [hadmits call hcalls hpos] at hclosed
    | refused result _ hresult =>
      refine ⟨hkeeps _, ?_⟩
      rcases hresult with ⟨rfl, -⟩ | ⟨rfl, hzero⟩
      · rfl
      · exact hzero
    | waits => exact ⟨hkeeps _, trivial⟩
    | stored heffect _ _ halready hresult =>
      refine ⟨?_, ?_⟩
      · rw [written_append, if_pos rfl, hrecorded, WriteCall.storedBy, ← take_add,
          heffect.bytes_eq]
        congr 1
        omega
      · rcases hresult with hdone | ⟨hsame, -⟩
        · rw [hdone]
        · rw [hsame, hphase]
          trivial

namespace PipeConfig

section

variable {kept : Stream → Bool → ℕ → WriteCall → Prop}

structure Invariant (kept : Stream → Bool → ℕ → WriteCall → Prop) (s : PipeConfig) :
    Prop where
  holds : s.HoldsStream
  consumed_le : s.consumed ≤ s.stream.length
  calls : ∀ id call, s.calls id = some call →
    CallInvariant kept s.stream (s.nonblocking id) id call
  fresh : ∀ id, s.calls id = none → Absent s.stream id

theorem initial_invariant : PipeConfig.initial.Invariant kept := by
  refine ⟨represents_new, Nat.le_refl 0, ?_, ?_⟩
  · intro id call hcall
    cases hcall
  · intro id _ entry hentry
    cases hentry

variable {s next : PipeConfig}

section

variable {admits : PipeConfig → PipeStep → Prop} (hrule : CallRule kept admits)
  (hinv : s.Invariant kept)
include hrule hinv

theorem Invariant.append {id : ℕ} {call : WriteCall} {ring : PipeRingBuffer} {nonblocking : Bool}
    {bytes : List UInt8}
    (hrep : ring.Represents ((s.stream.map Prod.snd).drop s.consumed ++ bytes))
    (hcall : CallInvariant kept (s.stream ++ tagged id bytes) nonblocking id call) :
    Invariant kept { s.setCall id call with
      ring := ring
      nonblocking := update s.nonblocking id nonblocking
      stream := s.stream ++ tagged id bytes } := by
  have hle := hinv.consumed_le
  refine ⟨?_, ?_, ?_, ?_⟩
  · unfold HoldsStream
    simp only [map_append, tagged_map_snd]
    rw [drop_append_of_le_length (by simpa using hle)]
    exact hrep
  · simp only [length_append]
    exact Nat.le_add_right_of_le hle
  · intro other otherCall hother
    by_cases heq : other = id
    · subst heq
      simp only [PipeConfig.setCall, update_self, Option.some.injEq] at hother ⊢
      subst hother
      exact hcall
    · simp only [PipeConfig.setCall, update_of_ne heq] at hother ⊢
      have hold := hinv.calls other otherCall hother
      exact ⟨hold.valid, hold.pending_pos, hrule.append _ (Ne.symm heq) hold.kept⟩
  · intro other hother
    by_cases heq : other = id
    · subst heq
      simp at hother
    · simp only [PipeConfig.setCall, update_of_ne heq] at hother
      exact (hinv.fresh other hother).append_tagged (Ne.symm heq) _

theorem Invariant.setCall {id : ℕ} {call : WriteCall}
    (hcall : CallInvariant kept s.stream (s.nonblocking id) id call) :
    (s.setCall id call).Invariant kept := by
  have hrep : s.ring.Represents ((s.stream.map Prod.snd).drop s.consumed ++ []) := by
    rw [append_nil]
    exact hinv.holds
  have hsame : s.stream ++ tagged id [] = s.stream := append_nil _
  have hafter := hinv.append hrule hrep (hsame.symm ▸ hcall)
  rw [hsame, update_eq_self] at hafter
  exact hafter

theorem Invariant.round {id : ℕ} {call : WriteCall} (hcalls : s.calls id = some call)
    (hphase : call.phase = .ready) (hadmits : admits s (.round id))
    (hround : s.round id call = some next) : next.Invariant kept := by
  have hcall := hinv.calls id call hcalls
  have hpending : ∀ result, call.phase ≠ .done result := by simp [hphase]
  have hpos := hcall.pending_pos hpending
  obtain ⟨ring', call', hsection, houtcome⟩ :=
    writeSection_outcome hinv.holds hcall.valid hpending hpos s.nonblock
  have heffect := houtcome.effect hinv.holds hcall.valid hpending
  simp only [PipeConfig.round, hsection, Option.map_some, Option.some.injEq] at hround
  subst hround
  refine hinv.append hrule heffect.represents ⟨heffect.valid, fun _ => ?_,
    hrule.round hadmits hcalls hphase houtcome hcall.kept⟩
  rw [WriteCall.wantToWrite, heffect.bytes_eq]
  exact hpos

end

theorem Invariant.setRing (hinv : s.Invariant kept) {ring : PipeRingBuffer} (count : ℕ)
    (hcount : count ≤ s.stream.length - s.consumed)
    (hrep : ring.Represents (((s.stream.map Prod.snd).drop s.consumed).drop count)) :
    Invariant kept { s with ring := ring, consumed := s.consumed + count } := by
  have hle := hinv.consumed_le
  refine ⟨?_, by dsimp only; omega, hinv.calls, hinv.fresh⟩
  unfold HoldsStream
  rw [drop_drop] at hrep
  exact hrep

variable {queue : List UInt8}

theorem readBuffers_spec {ring : PipeRingBuffer} (hrep : ring.Represents queue) (lens : List ℕ) :
    (readBuffers ring lens).2 ≤ queue.length ∧
      (readBuffers ring lens).1.Represents (queue.drop (readBuffers ring lens).2) := by
  induction lens generalizing ring queue with
  | nil => exact ⟨Nat.zero_le _, hrep⟩
  | cons len rest ih =>
    obtain ⟨hbytes, hrep', _⟩ := hrep.readSlice_spec len
    obtain ⟨hle, hrest⟩ := ih hrep'
    have hlen : (ring.readSlice len).2.length = min len queue.length := by
      rw [hbytes, length_take]
    simp only [readBuffers]
    rw [length_drop] at hle
    refine ⟨by omega, ?_⟩
    rw [hlen, ← drop_drop, drop_min_length]
    exact hrest

theorem Invariant.resize (hinv : s.Invariant kept) {capacity : ℕ}
    (hstep : s.step (.resize capacity) = some next) : next.Invariant kept := by
  have hpos : 0 < max capacity pipeBuf := by
    unfold pipeBuf
    omega
  have hresize := PipeRingBuffer.Represents.resize_spec hinv.holds hpos
  have hkeep : ∀ ring result, s.ring.setPipeCapacity capacity = some (ring, result) →
        ring.Represents ((s.stream.map Prod.snd).drop s.consumed) := by
    intro ring result hset
    unfold setPipeCapacity at hset
    split at hset
    · cases hset
      exact hinv.holds
    · split at hset
      · cases hset
        exact hinv.holds
      · split at hresize
        · rw [hresize] at hset
          cases hset
          exact hinv.holds
        · obtain ⟨ring', hring, hrep, _⟩ := hresize
          rw [hring] at hset
          cases hset
          exact hrep
  obtain ⟨resized, hset, hnext⟩ := Option.map_eq_some_iff.mp hstep
  subst hnext
  exact hinv.setRing 0 (Nat.zero_le _) (hkeep _ _ hset)

theorem Invariant.step {admits : PipeConfig → PipeStep → Prop} {label : PipeStep}
    (hrule : CallRule kept admits) (hinv : s.Invariant kept) (hadmits : admits s label)
    (hstep : s.step label = some next) : next.Invariant kept := by
  cases label with
  | start id path buffers =>
    simp only [PipeConfig.step] at hstep
    split at hstep
    · cases hstep
    · next hguard =>
        simp only [Option.some.injEq] at hstep
        subst hstep
        have hnone : s.calls id = none := by
          simpa using fun hsome => hguard (.inl hsome)
        refine hinv.setCall hrule ⟨WriteCall.valid_start path buffers, fun hpending => ?_,
          hrule.start path buffers (hinv.fresh id hnone)⟩
        rcases WriteCall.start_phase path buffers with ⟨hphase, -⟩ | ⟨-, hpos⟩
        · exact absurd hphase (hpending _)
        · exact hpos
  | round id =>
    simp only [PipeConfig.step] at hstep
    split at hstep
    · next call hcalls =>
        split at hstep
        · next hphase => exact hinv.round hrule hcalls hphase hadmits hstep
        · cases hstep
    · cases hstep
  | wake id | interrupt id =>
    simp only [PipeConfig.step] at hstep
    split at hstep
    · next call hcalls =>
        split at hstep
        · next hphase =>
            cases hstep
            have hcall := hinv.calls id call hcalls
            have hpending : ∀ result, call.phase ≠ .done result := by simp [hphase]
            have hvalid := hcall.valid.withPhase
            first
              | exact hinv.setCall hrule ⟨hvalid _ hpending, fun _ => hcall.pending_pos hpending,
                  hrule.wake hphase hcall.kept⟩
              | exact hinv.setCall hrule ⟨hvalid _ hpending, fun hnot => absurd rfl (hnot _),
                  hrule.interrupt hadmits hcalls hphase hcall.kept⟩
        · cases hstep
    · cases hstep
  | read lens =>
    cases hstep
    obtain ⟨hle, hrep⟩ := readBuffers_spec hinv.holds lens
    exact hinv.setRing _ (by simpa using hle) hrep
  | setStatusFlags nonblock =>
    cases hstep
    exact ⟨hinv.holds, hinv.consumed_le, hinv.calls, hinv.fresh⟩
  | resize capacity => exact hinv.resize hstep
  | closeRead =>
    cases hstep
    have hread := PipeRingBuffer.Represents.availableRead_eq hinv.holds
    rw [length_drop, length_map] at hread
    refine hinv.setRing _ (by omega) ?_
    rw [drop_drop, drop_eq_nil_of_le (by
      rw [length_map]; omega)]
    exact (PipeRingBuffer.Represents.closeReadEnd_spec hinv.holds).1
  | closeWrite =>
    cases hstep
    refine hinv.setRing 0 (Nat.zero_le _) ?_
    obtain ⟨⟨hhead, hcount, htail, hempty, hfull⟩, hview⟩ := hinv.holds
    exact ⟨⟨hhead, hcount, htail, hempty, hfull⟩, hview⟩

theorem invariant_of_reachable {admits : PipeConfig → PipeStep → Prop}
    (hrule : CallRule kept admits) (hreach : Reachable PipeConfig.step admits .initial s) :
    s.Invariant kept :=
  hreach.invariant initial_invariant fun _ _ _ hinv hadmits hstep => hinv.step hrule hadmits hstep

end

variable {s : PipeConfig} {queue : List UInt8}

/-- In every run whose rounds fit, small writes are atomic and the pipe
holds exactly the accepted bytes which have not left it. -/
theorem atomicWrites_of_stepFits (config : PipeConfig)
    (hreach : Reachable PipeConfig.step StepFits .initial config) :
    config.AtomicWrites ∧ config.HoldsStream := by
  have hinv := invariant_of_reachable smallCall_rule hreach
  refine ⟨fun id call hcalls hsmall => ?_, hinv.holds⟩
  have hwrite := (hinv.calls id call hcalls).kept.2 hsmall
  refine ⟨fun count hphase => ?_, fun hnonblocking result hphase => ?_⟩
  · simp only [SmallWrite, hphase] at hwrite
    exact hwrite.2
  · cases result with
    | ok count =>
      simp only [SmallWrite, hphase] at hwrite
      exact .inl ⟨by rw [hwrite.1], hwrite.2⟩
    | error error =>
      simp only [SmallWrite, hphase] at hwrite
      exact .inr ⟨by rw [hwrite.2 hnonblocking], hwrite.1⟩

instance (config : PipeConfig) (step : PipeStep) : Decidable (config.StepFits step) := by
  unfold StepFits RoundFits
  cases step with
  | round id => exact inferInstanceAs (Decidable (∀ call ∈ config.calls id, _))
  | _ => infer_instance

/-- A write of two bytes on two pages of an empty pipe fits. -/
theorem atomicWrites_of_fitting_write :
    ∃ config, Reachable PipeConfig.step StepFits .initial config ∧
      (∃ call, config.calls 0 = some call ∧ call.phase = .done (.ok 2)) ∧
      config.AtomicWrites ∧ config.HoldsStream := by
  obtain ⟨config, hreach, hdone⟩ : ∃ config, Reachable PipeConfig.step StepFits .initial config ∧
      ∃ call ∈ config.calls 0, call.phase = .done (.ok 2) :=
    exists_reachable_of_runSteps [.start 0 .buffers [[1], [2]], .round 0] (by decide +kernel)
  exact ⟨config, hreach, hdone, atomicWrites_of_stepFits config hreach⟩

/-- With six free bytes, a non-blocking write of ten bytes which lie five and
five on two pages stores six of them and reports success. -/
theorem not_atomicWrites_of_split_write :
    ¬ ∀ config, Reachable PipeConfig.step always .initial config → config.AtomicWrites := by
  intro hatomic
  obtain ⟨config, hreach, hnonblocking, call, hcall, hwant, hphase⟩ : ∃ config,
      Reachable PipeConfig.step always .initial config ∧ config.nonblocking 1 = true ∧
        ∃ call ∈ config.calls 1, call.wantToWrite = 10 ∧ call.phase = .done (.ok 6) :=
    exists_reachable_of_runSteps [.resize 4096, .setStatusFlags true,
      .start 0 .buffers [replicate 4090 0], .round 0,
      .start 1 .buffers [[1, 2, 3, 4, 5], [6, 7, 8, 9, 10]], .round 1, .round 1]
      (by decide +kernel)
  rcases (hatomic config hreach 1 call hcall (hwant ▸ by decide)).2 hnonblocking _ hphase with
    ⟨hok, -⟩ | ⟨herror, -⟩
  · rw [hwant] at hok
    exact absurd hok (by decide)
  · cases herror

/-- In every run in which no call that has stored bytes finds the read end closed or is
interrupted, the results of writes are exact. -/
theorem exactWrites_of_stepKeeps (config : PipeConfig)
    (hreach : Reachable PipeConfig.step StepKeeps .initial config) :
    config.ExactWrites ∧ config.HoldsStream := by
  have hinv := invariant_of_reachable exactCall_rule hreach
  refine ⟨fun id call result hcalls hphase => ?_, hinv.holds⟩
  obtain ⟨hvalid, -, hrecorded, hresult⟩ := hinv.calls id call hcalls
  rw [hphase] at hresult
  cases result with
  | ok count =>
    obtain rfl : count = call.alreadyWrite := hresult
    exact ⟨hvalid.already_le, hrecorded⟩
  | error error =>
    have hzero : call.alreadyWrite = 0 := hresult
    rw [hzero, take_zero] at hrecorded
    exact hrecorded

instance (config : PipeConfig) (step : PipeStep) : Decidable (config.StepKeeps step) := by
  unfold StepKeeps
  cases step with
  | round id | interrupt id => exact inferInstanceAs (Decidable (∀ call ∈ config.calls id, _))
  | _ => infer_instance

/-- A write of one byte more than the pipe holds fills it and waits; the reader takes a byte,
and the write stores its last one. -/
theorem exactWrites_after_waiting : ∃ config, Reachable PipeConfig.step StepKeeps .initial config ∧
      (∃ call, config.calls 0 = some call ∧ call.phase = .done (.ok 4097)) ∧
      config.ExactWrites ∧ config.HoldsStream := by
  obtain ⟨config, hreach, hdone⟩ : ∃ config, Reachable PipeConfig.step StepKeeps .initial config ∧
      ∃ call ∈ config.calls 0, call.phase = .done (.ok 4097) :=
    exists_reachable_of_runSteps [.resize 4096, .start 0 .buffers [replicate 4097 0], .round 0,
      .round 0, .read [1], .wake 0, .round 0] (by decide +kernel)
  exact ⟨config, hreach, hdone, exactWrites_of_stepKeeps config hreach⟩

/-- Such a write fills the pipe; the reader closes its end and the write fails with `EPIPE`. -/
theorem not_exactWrites_of_closed_reader :
    ¬∀ config, Reachable PipeConfig.step always .initial config → config.ExactWrites := by
  intro hexact
  obtain ⟨config, hreach, call, hcall, hphase, hwritten⟩ : ∃ config,
      Reachable PipeConfig.step always .initial config ∧ ∃ call ∈ config.calls 0,
        call.phase = .done (.error .epipe) ∧ written config.stream 0 ≠ [] :=
    exists_reachable_of_runSteps [.resize 4096, .start 0 .buffers [replicate 4097 0], .round 0,
      .closeRead, .round 0] (by decide +kernel)
  exact hwritten (hexact config hreach 0 call _ hcall hphase)

end PipeConfig

end Kairix.Pipe
