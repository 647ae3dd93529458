import Kairix.PipeRingRepresentation

/-!
# Locked sections of a pipe write

A write call takes the pipe lock once per round of its loop.  The model has
one definition per round: `userSliceSection` for the single-page path of
`write_user_slice` and `buffersSection` for the multi-buffer path of
`Pipe::write`.  Between two rounds other calls may take the lock.
-/

namespace Kairix.Pipe

open PipeRingBuffer List

/-- The two write paths: a user slice inside one page, or one slice for
every page which the user buffer crosses. -/
inductive WritePath where
  | userSlice
  | buffers
  deriving DecidableEq, Repr

inductive CallPhase where
  | ready
  | waiting
  | done (result : SyscallResult)
  deriving DecidableEq

structure WriteCall where
  path : WritePath
  buffers : List (List UInt8)
  currentBuffer : ℕ
  currentOffset : ℕ
  alreadyWrite : ℕ
  phase : CallPhase

section

variable (call : WriteCall)

def WriteCall.bytes : List UInt8 :=
  call.buffers.flatten

def WriteCall.wantToWrite : ℕ :=
  call.bytes.length

/-- A call before its first round; an empty buffer returns at once. -/
def WriteCall.start (path : WritePath) (buffers : List (List UInt8)) : WriteCall where
  path := path
  buffers := buffers
  currentBuffer := 0
  currentOffset := 0
  alreadyWrite := 0
  phase := if buffers.flatten.length = 0 then .done (.ok 0) else .ready

def WriteCall.finish (result : SyscallResult) : WriteCall :=
  { call with phase := .done result }

def WriteCall.wait : WriteCall :=
  { call with phase := .waiting }

/-- One round of `write_user_slice`. -/
def userSliceSection (ring : PipeRingBuffer) (nonblock : Bool)
    (call : WriteCall) : Option (PipeRingBuffer × WriteCall) :=
  if ring.allReadEndsClosed then some (ring, call.finish (.error .epipe))
  else if ring.availableWrite = 0 ∨
      (call.wantToWrite ≤ pipeBuf ∧ ring.availableWrite < call.wantToWrite) then
    if nonblock then some (ring, call.finish (.error .eagain))
    else some (ring, call.wait)
  else
    (ring.writeSlice (call.bytes.take
      (min ring.availableWrite call.wantToWrite))).map fun write =>
        if 0 < write.2 then
          (write.1, { call with
            alreadyWrite := write.2
            phase := .done (.ok write.2) })
        else (write.1, call)

def WriteCall.currentSlice : List UInt8 :=
  call.buffers.getD call.currentBuffer []

def WriteCall.nextBuffer : WriteCall :=
  { call with
    currentBuffer := call.currentBuffer + 1
    currentOffset := 0 }

def WriteCall.advance (len : ℕ) : WriteCall :=
  let moved : WriteCall :=
    { call with
      currentOffset := call.currentOffset + len
      alreadyWrite := call.alreadyWrite + len }
  if moved.currentOffset = call.currentSlice.length then moved.nextBuffer
  else moved

end

@[simp] theorem WriteCall.advance_buffers (call : WriteCall) (len : ℕ) :
    (call.advance len).buffers = call.buffers := by
  unfold WriteCall.advance
  dsimp only
  split <;> rfl

@[simp] theorem WriteCall.advance_alreadyWrite (call : WriteCall) (len : ℕ) :
    (call.advance len).alreadyWrite = call.alreadyWrite + len := by
  unfold WriteCall.advance
  dsimp only
  split <;> rfl

theorem WriteCall.le_advance_currentBuffer (call : WriteCall) (len : ℕ) :
    call.currentBuffer ≤ (call.advance len).currentBuffer := by
  unfold WriteCall.advance
  dsimp only
  split
  · exact Nat.le_succ _
  · exact Nat.le_refl _

/-- The copy loop inside one round of `Pipe::write`. -/
def writeBuffersLoop (loopWrite : ℕ) (ring : PipeRingBuffer)
    (call : WriteCall) (roundWrite : ℕ) : Option (PipeRingBuffer × WriteCall) :=
  if roundWrite < loopWrite ∧ call.alreadyWrite < call.wantToWrite ∧
      call.currentBuffer < call.buffers.length then
    if call.currentOffset = call.currentSlice.length then
      writeBuffersLoop loopWrite ring call.nextBuffer roundWrite
    else
      (ring.writeSlice (call.currentSlice.drop call.currentOffset)).bind
        fun write =>
          if write.2 = 0 then some (write.1, call)
          else
            writeBuffersLoop loopWrite write.1 (call.advance write.2) (roundWrite + write.2)
  else some (ring, call)
termination_by
  (call.buffers.length - call.currentBuffer) + (call.wantToWrite - call.alreadyWrite)
decreasing_by
  · simp only [WriteCall.nextBuffer, WriteCall.wantToWrite, WriteCall.bytes]
    simp only [WriteCall.wantToWrite, WriteCall.bytes] at *
    omega
  · have hcursor := call.le_advance_currentBuffer write.2
    simp only [WriteCall.wantToWrite, WriteCall.bytes,
      WriteCall.advance_buffers, WriteCall.advance_alreadyWrite] at *
    omega

/-- One round of `Pipe::write`. -/
def buffersSection (ring : PipeRingBuffer) (nonblock : Bool)
    (call : WriteCall) : Option (PipeRingBuffer × WriteCall) :=
  if ring.allReadEndsClosed then some (ring, call.finish (.error .epipe))
  else if ring.availableWrite = 0 then
    if nonblock then
      if 0 < call.alreadyWrite then
        some (ring, call.finish (.ok call.alreadyWrite))
      else some (ring, call.finish (.error .eagain))
    else some (ring, call.wait)
  else
    (writeBuffersLoop ring.availableWrite ring call 0).map fun written =>
      if written.2.alreadyWrite = written.2.wantToWrite then
        (written.1, written.2.finish (.ok written.2.wantToWrite))
      else written

def writeSection (ring : PipeRingBuffer) (nonblock : Bool)
    (call : WriteCall) : Option (PipeRingBuffer × WriteCall) :=
  match call.path with
  | .userSlice => userSliceSection ring nonblock call
  | .buffers => buffersSection ring nonblock call

/-! ## What a round stores -/

/-- The cursor of a call points at its first unwritten byte. -/
structure WriteCall.Aligned (call : WriteCall) : Prop where
  offset_le : call.currentOffset ≤ call.currentSlice.length
  rest_eq :
    call.bytes.drop call.alreadyWrite =
      (call.buffers.drop call.currentBuffer).flatten.drop call.currentOffset

variable {call : WriteCall}

theorem WriteCall.buffers_drop_eq_cons (hcursor : call.currentBuffer < call.buffers.length) :
    call.buffers.drop call.currentBuffer =
      call.currentSlice :: call.buffers.drop (call.currentBuffer + 1) := by
  rw [drop_eq_getElem_cons hcursor]
  simp [WriteCall.currentSlice, getD_eq_getElem?_getD, getElem?_eq_getElem hcursor]

section

variable (haligned : call.Aligned) (hcursor : call.currentBuffer < call.buffers.length)
include haligned hcursor

theorem WriteCall.Aligned.rest_eq_append : call.bytes.drop call.alreadyWrite =
      call.currentSlice.drop call.currentOffset ++
        (call.buffers.drop (call.currentBuffer + 1)).flatten := by
  rw [haligned.rest_eq, buffers_drop_eq_cons hcursor, flatten_cons,
    drop_append_of_le_length haligned.offset_le]

theorem WriteCall.Aligned.nextBuffer (hend : call.currentOffset = call.currentSlice.length) :
    call.nextBuffer.Aligned := by
  refine ⟨Nat.zero_le _, ?_⟩
  have hrest := haligned.rest_eq_append hcursor
  rw [hend, drop_length, nil_append] at hrest
  exact hrest

theorem WriteCall.Aligned.advance {len : ℕ}
    (hlen : len ≤ call.currentSlice.length - call.currentOffset) : (call.advance len).Aligned := by
  have hoffset := haligned.offset_le
  have hmoved : WriteCall.Aligned
      { call with
        currentOffset := call.currentOffset + len
        alreadyWrite := call.alreadyWrite + len } := by
    refine ⟨?_, ?_⟩
    · change call.currentOffset + len ≤ call.currentSlice.length
      omega
    · change call.bytes.drop (call.alreadyWrite + len) =
        (call.buffers.drop call.currentBuffer).flatten.drop (call.currentOffset + len)
      rw [← drop_drop, haligned.rest_eq, drop_drop]
  unfold WriteCall.advance
  dsimp only
  split
  · next hend => exact hmoved.nextBuffer hcursor hend
  · exact hmoved

end

theorem WriteCall.Aligned.done (haligned : call.Aligned)
    (hcursor : call.buffers.length ≤ call.currentBuffer) :
    call.wantToWrite ≤ call.alreadyWrite := by
  have hrest := haligned.rest_eq
  rw [drop_eq_nil_of_le hcursor, flatten_nil, drop_nil] at hrest
  exact drop_eq_nil_iff.mp hrest

def WriteCall.SameRequest (call other : WriteCall) : Prop :=
  other.path = call.path ∧ other.buffers = call.buffers ∧ other.phase = call.phase

theorem WriteCall.advance_sameRequest (call : WriteCall) (len : ℕ) :
    call.SameRequest (call.advance len) := by
  unfold WriteCall.advance
  dsimp only
  split <;> exact ⟨rfl, rfl, rfl⟩

variable {ring : PipeRingBuffer} {queue : List UInt8}

theorem writeBuffersLoop_spec (hrep : ring.Represents queue) (haligned : call.Aligned)
    (loopWrite roundWrite : ℕ) (hround : roundWrite ≤ loopWrite)
    (hfree : ring.capacity - queue.length = loopWrite - roundWrite)
    (halready : call.alreadyWrite ≤ call.wantToWrite) :
    ∃ ring' call', writeBuffersLoop loopWrite ring call roundWrite = some (ring', call') ∧
        call.SameRequest call' ∧ call'.Aligned ∧
        call'.alreadyWrite = call.alreadyWrite +
            min (loopWrite - roundWrite) (call.wantToWrite - call.alreadyWrite) ∧
        ring'.Represents
          (queue ++ (call.bytes.drop call.alreadyWrite).take (loopWrite - roundWrite)) ∧
        ring'.settings = ring.settings := by
  induction ring, call, roundWrite using writeBuffersLoop.induct loopWrite generalizing queue with
  | case1 ring call roundWrite hguard hend ih =>
    rw [writeBuffersLoop, if_pos hguard, if_pos hend]
    exact ih hrep (haligned.nextBuffer hguard.2.2 hend) hround hfree halready
  | case2 ring call roundWrite hguard hend ih =>
    have hoffset := haligned.offset_le
    have hrest := haligned.rest_eq_append hguard.2.2
    have hlen := congrArg length hrest
    simp only [length_drop, length_append] at hlen
    obtain ⟨ring₁, hwrite, hrep₁, hsettings₁⟩ :=
      hrep.writeSlice_spec (call.currentSlice.drop call.currentOffset)
    rw [hfree, length_drop] at hwrite
    rw [hfree] at hrep₁
    have hcapacity : ring₁.capacity = ring.capacity := congrArg Prod.fst hsettings₁
    generalize hcount : min (call.currentSlice.length - call.currentOffset)
      (loopWrite - roundWrite) = count at hwrite
    have hpos : count ≠ 0 := by omega
    have hwant : (call.advance count).wantToWrite = call.wantToWrite := by
      simp [WriteCall.wantToWrite, WriteCall.bytes]
    have hbytes : (call.advance count).bytes = call.bytes := by
      simp [WriteCall.bytes]
    obtain ⟨ring₂, call₂, hloop, hsame, haligned₂, halready₂, hrep₂, hsettings₂⟩ :=
      ih (ring₁, count) hpos hrep₁
        (haligned.advance hguard.2.2 (by omega)) (by dsimp only; omega) (by
          dsimp only
          rw [hcapacity, length_append, length_take, length_drop]
          omega) (by
          rw [WriteCall.advance_alreadyWrite, hwant]
          change _ ≤ call.bytes.length
          omega)
    have hmove := call.advance_sameRequest count
    rw [WriteCall.advance_alreadyWrite] at halready₂ hrep₂
    rw [hwant] at halready₂
    rw [hbytes] at hrep₂
    refine ⟨ring₂, call₂, ?_,
      ⟨hsame.1.trans hmove.1, hsame.2.1.trans hmove.2.1, hsame.2.2.trans hmove.2.2⟩,
      haligned₂, ?_, ?_, hsettings₂.trans hsettings₁⟩
    · rw [writeBuffersLoop, if_pos hguard, if_neg hend, hwrite]
      simp only [Option.bind_some]
      rw [if_neg hpos]
      exact hloop
    · rw [halready₂]
      change _ = call.alreadyWrite + min (loopWrite - roundWrite)
        (call.bytes.length - call.alreadyWrite)
      change call.alreadyWrite + count + min (loopWrite - (roundWrite + count))
        (call.bytes.length - (call.alreadyWrite + count)) = _
      omega
    · rw [append_assoc] at hrep₂
      have hsplit : loopWrite - roundWrite = count + (loopWrite - (roundWrite + count)) := by omega
      have hchunk : (call.currentSlice.drop call.currentOffset).take (loopWrite - roundWrite) =
            (call.bytes.drop call.alreadyWrite).take count := by
        rw [hrest, take_append_of_le_length (by
          rw [length_drop]; omega), take_eq_take_iff,
          length_drop]
        omega
      rw [hchunk, ← drop_drop, ← take_add, ← hsplit] at hrep₂
      exact hrep₂
  | case3 ring call roundWrite hguard =>
    have hnone : min (loopWrite - roundWrite) (call.wantToWrite - call.alreadyWrite) = 0 := by
      by_cases hcursor : call.currentBuffer < call.buffers.length
      · omega
      · have hdone := haligned.done (Nat.le_of_not_lt hcursor)
        omega
    have hstored : (call.bytes.drop call.alreadyWrite).take (loopWrite - roundWrite) = [] := by
      apply length_eq_zero_iff.mp
      rw [length_take, length_drop]
      exact hnone
    rw [writeBuffersLoop, if_neg hguard, hnone, hstored, append_nil]
    exact ⟨ring, call, rfl, ⟨rfl, rfl, rfl⟩, haligned, rfl, hrep, rfl⟩

/-! ## Specification of a round -/

structure WriteCall.Valid (call : WriteCall) : Prop where
  aligned : call.path = .buffers → call.Aligned
  already_le : call.alreadyWrite ≤ call.wantToWrite
  untouched : call.path = .userSlice → (∀ result, call.phase ≠ .done result) → call.alreadyWrite = 0

theorem WriteCall.valid_start (path : WritePath) (buffers : List (List UInt8)) :
    (WriteCall.start path buffers).Valid :=
  ⟨fun _ => ⟨Nat.zero_le _, rfl⟩, Nat.zero_le _, fun _ _ => rfl⟩

theorem WriteCall.Valid.withPhase (hvalid : call.Valid) (phase : CallPhase)
    (hpending : ∀ result, call.phase ≠ .done result) :
    WriteCall.Valid { call with phase := phase } := by
  refine ⟨?_, hvalid.already_le, ?_⟩
  · intro hpath
    have haligned := hvalid.aligned hpath
    exact ⟨haligned.offset_le, haligned.rest_eq⟩
  · intro hpath _
    exact hvalid.untouched hpath hpending

def WriteCall.storedBy (call after : WriteCall) : List UInt8 :=
  (call.bytes.drop call.alreadyWrite).take (after.alreadyWrite - call.alreadyWrite)

structure RoundEffect (ring : PipeRingBuffer) (call : WriteCall)
    (queue : List UInt8) (ring' : PipeRingBuffer) (call' : WriteCall) : Prop where
  represents : ring'.Represents (queue ++ call.storedBy call')
  settings_eq : ring'.settings = ring.settings
  path_eq : call'.path = call.path
  buffers_eq : call'.buffers = call.buffers
  valid : call'.Valid

/-- The outcomes of a round: the read end is closed, there is no space for a
non-blocking or for a blocking call, or bytes are stored. -/
inductive RoundOutcome (ring : PipeRingBuffer) (nonblock : Bool) (call : WriteCall)
    (queue : List UInt8) : PipeRingBuffer → WriteCall → Prop
  | closed (hclosed : ring.readEndOpen = false) :
    RoundOutcome ring nonblock call queue ring (call.finish (.error .epipe))
  | refused (result : SyscallResult) (hnonblock : nonblock = true)
    (hresult : (result = .ok call.alreadyWrite ∧ 0 < call.alreadyWrite) ∨
      (result = .error .eagain ∧ call.alreadyWrite = 0)) :
    RoundOutcome ring nonblock call queue ring (call.finish result)
  | waits (hnonblock : nonblock = false) : RoundOutcome ring nonblock call queue ring call.wait
  | stored {ring' : PipeRingBuffer} {call' : WriteCall}
    (heffect : RoundEffect ring call queue ring' call') (hspace : ring.availableWrite ≠ 0)
    (hslice : call.path = .userSlice → call.wantToWrite ≤ pipeBuf →
      call.wantToWrite ≤ ring.availableWrite)
    (halready : call'.alreadyWrite =
      call.alreadyWrite + min ring.availableWrite (call.wantToWrite - call.alreadyWrite))
    (hphase : call'.phase = .done (.ok call'.alreadyWrite) ∨
      call'.phase = call.phase ∧ call'.alreadyWrite ≠ call.wantToWrite) :
    RoundOutcome ring nonblock call queue ring' call'

variable {ring' : PipeRingBuffer} {call' : WriteCall}

section

variable (hrep : ring.Represents queue)
include hrep

section

variable (hvalid : call.Valid)
include hvalid

theorem RoundOutcome.effect {nonblock : Bool} (hpending : ∀ result, call.phase ≠ .done result)
    (hround : RoundOutcome ring nonblock call queue ring' call') :
    RoundEffect ring call queue ring' call' := by
  cases hround with
  | closed | refused | waits =>
    refine ⟨?_, rfl, rfl, rfl, hvalid.withPhase _ hpending⟩
    simpa [WriteCall.storedBy, WriteCall.finish, WriteCall.wait] using hrep
  | stored heffect => exact heffect

theorem userSliceSection_outcome (hpath : call.path = .userSlice)
    (hpending : ∀ result, call.phase ≠ .done result) (hpos : 0 < call.wantToWrite)
    (nonblock : Bool) :
    ∃ ring' call', userSliceSection ring nonblock call = some (ring', call') ∧
        RoundOutcome ring nonblock call queue ring' call' := by
  have hzero := hvalid.untouched hpath hpending
  unfold userSliceSection allReadEndsClosed
  split
  · next hclosed => exact ⟨ring, _, rfl, .closed (by simpa using hclosed)⟩
  · split
    · cases nonblock with
      | true => exact ⟨ring, _, rfl, .refused _ rfl (.inr ⟨rfl, hzero⟩)⟩
      | false => exact ⟨ring, _, rfl, .waits rfl⟩
    · next hspace =>
        obtain ⟨ring', hwrite, hrep', hsettings⟩ :=
          hrep.writeSlice_spec (call.bytes.take (min ring.availableWrite call.wantToWrite))
        have hcount : min (call.bytes.take (min ring.availableWrite call.wantToWrite)).length
            (ring.capacity - queue.length) = min ring.availableWrite call.wantToWrite := by
          rw [length_take, ← hrep.availableWrite_eq]
          change min (min _ call.wantToWrite) _ = _
          omega
        rw [← hrep.availableWrite_eq, take_take, ← min_assoc, min_self] at hrep'
        rw [hwrite, hcount, Option.map_some, if_pos (by dsimp only; omega)]
        refine ⟨ring', _, rfl, .stored ⟨?_, hsettings, rfl, rfl, ?_, ?_, ?_⟩ (by omega)
          (by omega) (by simp [hzero]) (.inl rfl)⟩
        · simpa [WriteCall.storedBy, hzero] using hrep'
        · simp [hpath]
        · exact Nat.min_le_right _ _
        · exact fun _ hnot => absurd rfl (hnot _)

theorem buffersSection_of_space (hpath : call.path = .buffers)
    (hpending : ∀ result, call.phase ≠ .done result) (nonblock : Bool)
    (hopen : ring.readEndOpen = true) (hspace : ring.availableWrite ≠ 0) :
    ∃ ring' call', buffersSection ring nonblock call = some (ring', call') ∧
        RoundEffect ring call queue ring' call' ∧
        call'.alreadyWrite =
          call.alreadyWrite + min ring.availableWrite (call.wantToWrite - call.alreadyWrite) ∧
        call'.phase =
          if call'.alreadyWrite = call.wantToWrite then
            .done (.ok call.wantToWrite)
          else call.phase := by
  have havailable := hrep.availableWrite_eq
  have hle := hvalid.already_le
  obtain ⟨ring', call', hloop, hsame, haligned, halready, hrep', hsettings⟩ :=
    writeBuffersLoop_spec hrep (hvalid.aligned hpath) ring.availableWrite 0
      (Nat.zero_le _) (by omega) hle
  obtain ⟨hpath', hbuffers', hphase'⟩ := hsame
  rw [Nat.sub_zero] at halready hrep'
  have hwant : call'.wantToWrite = call.wantToWrite := by
    rw [WriteCall.wantToWrite, WriteCall.bytes, hbuffers']
    rfl
  have hvalid' : call'.Valid := by
    refine ⟨fun _ => haligned, by rw [hwant]; omega, ?_⟩
    intro hslice
    rw [hpath', hpath] at hslice
    cases hslice
  have hpending' : ∀ result, call'.phase ≠ .done result := by
    rw [hphase']
    exact hpending
  have hstored : ring'.Represents (queue ++ call.storedBy call') := by
    have htake : call.storedBy call' =
        (call.bytes.drop call.alreadyWrite).take ring.availableWrite := by
      rw [WriteCall.storedBy, take_eq_take_iff, length_drop]
      change min _ (call.wantToWrite - _) = min _ (call.wantToWrite - _)
      omega
    rw [htake]
    exact hrep'
  unfold buffersSection allReadEndsClosed
  rw [hloop]
  simp only [hopen, Bool.not_true, Bool.false_eq_true, if_false,
    if_neg hspace, Option.map_some, hwant]
  by_cases hall : call'.alreadyWrite = call.wantToWrite
  · refine ⟨ring', call'.finish (.ok call.wantToWrite), by rw [if_pos hall],
      ⟨hstored, hsettings, hpath', hbuffers', ?_⟩, halready, ?_⟩
    · exact hvalid'.withPhase _ hpending'
    · exact (if_pos hall).symm
  · refine ⟨ring', call', by rw [if_neg hall],
      ⟨hstored, hsettings, hpath', hbuffers', hvalid'⟩, halready, ?_⟩
    rw [if_neg hall]
    exact hphase'

theorem buffersSection_outcome (hpath : call.path = .buffers)
    (hpending : ∀ result, call.phase ≠ .done result) (nonblock : Bool) :
    ∃ ring' call', buffersSection ring nonblock call = some (ring', call') ∧
        RoundOutcome ring nonblock call queue ring' call' := by
  cases hopen : ring.readEndOpen with
  | false =>
    refine ⟨ring, call.finish (.error .epipe), ?_, .closed hopen⟩
    simp [buffersSection, allReadEndsClosed, hopen]
  | true =>
    by_cases hspace : ring.availableWrite = 0
    · unfold buffersSection allReadEndsClosed
      simp only [hopen, Bool.not_true, Bool.false_eq_true, if_false, if_pos hspace]
      cases nonblock with
      | true =>
        simp only [if_true]
        split
        · next hpos => exact ⟨ring, _, rfl, .refused _ rfl (.inl ⟨rfl, hpos⟩)⟩
        · next hzero =>
            exact ⟨ring, _, rfl, .refused _ rfl (.inr ⟨rfl, Nat.eq_zero_of_not_pos hzero⟩)⟩
      | false => exact ⟨ring, _, rfl, .waits rfl⟩
    · obtain ⟨ring', call', hsection, heffect, halready, hphase⟩ :=
        buffersSection_of_space hrep hvalid hpath hpending nonblock hopen hspace
      refine ⟨ring', call', hsection, .stored heffect hspace (by simp [hpath]) halready ?_⟩
      split at hphase
      · next hall => exact .inl (by rw [hphase, hall])
      · next hall => exact .inr ⟨hphase, hall⟩

theorem writeSection_outcome (hpending : ∀ result, call.phase ≠ .done result)
    (hpos : 0 < call.wantToWrite) (nonblock : Bool) :
    ∃ ring' call', writeSection ring nonblock call = some (ring', call') ∧
        RoundOutcome ring nonblock call queue ring' call' := by
  unfold writeSection
  cases hpath : call.path with
  | userSlice => exact userSliceSection_outcome hrep hvalid hpath hpending hpos nonblock
  | buffers => exact buffersSection_outcome hrep hvalid hpath hpending nonblock

end

end

/-- The round does not offer a multi-buffer write a nonempty part of the
space it needs. -/
def RoundFits (ring : PipeRingBuffer) (call : WriteCall) : Prop :=
  call.path = .userSlice ∨ ring.availableWrite = 0 ∨ call.wantToWrite ≤ ring.availableWrite

end Kairix.Pipe
