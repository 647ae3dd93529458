import Kairix.EpollNesting
import Kairix.PipeWriteSections

/-!
# Epoll readiness of a pipe end

Epoll classifies a pipe end by its fill level and its open ends, and a read or a
write decides by its own tests whether it has to wait.  The two agree except for a
write end without readers.
-/

namespace Kairix.Pipe

open PipeRingBuffer Epoll

/-- One open file of a pipe. -/
structure PipeEnd where
  readable : Bool
  writable : Bool
  nonblock : Bool

def epollFileReady (ring : PipeRingBuffer) (file : PipeEnd) : Bool × Bool :=
  (file.readable && (0 < ring.availableRead || ring.allWriteEndsClosed),
    file.writable && 0 < ring.availableWrite && !ring.allReadEndsClosed)

/-- The copy loop inside one round of `Pipe::read`, for buffers with the lengths
`lens` of which the first may be partly filled. -/
def readBuffersLoop (loopRead wantToRead : ℕ) (ring : PipeRingBuffer) (dst : List UInt8) :
    List ℕ → PipeRingBuffer × List UInt8
  | [] => (ring, dst)
  | len :: lens =>
    if dst.length < loopRead ∧ dst.length < wantToRead then
      if len = 0 then readBuffersLoop loopRead wantToRead ring dst lens
      else
        if (ring.readSlice len).2.length = 0 then ((ring.readSlice len).1, dst)
        else readBuffersLoop loopRead wantToRead (ring.readSlice len).1
          (dst ++ (ring.readSlice len).2) ((len - (ring.readSlice len).2.length) :: lens)
    else (ring, dst)
termination_by lens => lens.length + lens.sum
decreasing_by
  all_goals
    simp only [List.length_cons, List.sum_cons]
    omega

/-- The first round of `read_user_slice`, or of `Pipe::read`, with the bytes read. -/
def readSection (ring : PipeRingBuffer) (nonblock : Bool) (path : WritePath) (lens : List ℕ) :
    PipeRingBuffer × List UInt8 × CallPhase :=
  if lens.sum = 0 then (ring, [], .done (.ok 0))
  else if ring.availableRead = 0 then
    if ring.allWriteEndsClosed then (ring, [], .done (.ok 0))
    else if nonblock then (ring, [], .done (.error .eagain))
    else (ring, [], .waiting)
  else
    let read := match path with
      | .userSlice => ring.readSlice (min ring.availableRead lens.sum)
      | .buffers => readBuffersLoop ring.availableRead lens.sum ring [] lens
    (read.1, read.2, if 0 < read.2.length then .done (.ok read.2.length) else .ready)

def blocked (nonblock : Bool) : CallPhase :=
  if nonblock then .done (.error .eagain) else .waiting

def reports (report : Option EpollEvent) (event : UInt32) : Prop :=
  ∃ reported, report = some reported ∧ reported.events &&& event ≠ 0

variable {ι : Type*} {interest : EpollInterest ι} {ring : PipeRingBuffer} {file : PipeEnd}

theorem reports_epollIn (hwanted : interest.event.events &&& epollIn ≠ 0) (writable : Bool) :
    reports (readyEpollEvent interest true writable) epollIn := by
  have hbit (other pri out : UInt32) : (other ||| (epollIn ||| pri ||| out)) &&& epollIn ≠ 0 := by
    intro h
    simpa [epollIn] using congrArg (fun events => events.toBitVec.getLsbD 0) h
  simp only [readyEpollEvent, hwanted, ne_eq, not_false_eq_true, true_and, if_true]
  rw [if_pos (by simp [UInt32.or_eq_zero_iff, epollIn])]
  exact ⟨_, rfl, hbit _ _ _⟩

theorem reports_epollOut (hwanted : interest.event.events &&& epollOut ≠ 0) (readable : Bool) :
    reports (readyEpollEvent interest readable true) epollOut := by
  have hbit (other events : UInt32) : (other ||| (events ||| epollOut)) &&& epollOut ≠ 0 := by
    intro h
    simpa [epollOut] using congrArg (fun events => events.toBitVec.getLsbD 2) h
  simp only [readyEpollEvent, hwanted, ne_eq, not_false_eq_true, and_true, if_true]
  rw [if_pos (by simp [UInt32.or_eq_zero_iff, epollOut])]
  exact ⟨_, rfl, hbit _ _⟩

theorem not_reports_epollOut (readable : Bool) :
    ¬ reports (readyEpollEvent interest readable false) epollOut := by
  have hbit (wanted events : UInt32) (hevents : events &&& epollOut = 0) :
      (wanted &&& ~~~epollUserEvents ||| events) &&& epollOut = 0 := by
    have hother : wanted &&& ~~~epollUserEvents &&& epollOut = 0 := by
      rw [UInt32.and_assoc, show ~~~epollUserEvents &&& epollOut = 0 by decide, UInt32.and_zero]
    rw [← UInt32.toBitVec_inj, UInt32.toBitVec_and] at hevents hother ⊢
    rw [UInt32.toBitVec_or, BitVec.and_or_distrib_right, hother, hevents]
    rfl
  rintro ⟨reported, hreport, hevent⟩
  simp only [readyEpollEvent, Bool.false_eq_true, and_false, if_false,
    Option.ite_none_right_eq_some, Option.some.injEq] at hreport
  obtain ⟨-, rfl⟩ := hreport
  refine hevent (hbit _ _ ?_)
  split_ifs <;> decide

/-- The end which epoll looks at, for an event it does not report. -/
def Silent (ring : PipeRingBuffer) (file : PipeEnd) (interest : EpollInterest ι) (event : UInt32) :
    Prop :=
  interest.event.events &&& event ≠ 0 ∧ ¬ reports (readyEpollEvent interest
    (epollFileReady ring file).1 (epollFileReady ring file).2) event

section

variable (interest ring file) (path : WritePath)

def ReadWaits : Prop :=
  Silent ring file interest epollIn → file.readable = true → ∀ lens, lens.sum ≠ 0 →
    readSection ring file.nonblock path lens = (ring, [], blocked file.nonblock)

def WriteWaits : Prop :=
  Silent ring file interest epollOut → file.writable = true → ∀ buffers, buffers.flatten ≠ [] →
    writeSection ring file.nonblock (.start path buffers) =
      some (ring, { WriteCall.start path buffers with phase := blocked file.nonblock })

theorem readWaits : ReadWaits interest ring file path := by
  rintro ⟨hwanted, hsilent⟩ hreadable lens hlens
  have hready : (epollFileReady ring file).1 = false := by
    by_contra h
    rw [Bool.not_eq_false] at h
    exact hsilent (h ▸ reports_epollIn hwanted _)
  simp only [epollFileReady, hreadable, Bool.true_and, Bool.or_eq_false_iff,
    decide_eq_false_iff_not, Nat.pos_iff_ne_zero, not_not] at hready
  simp only [readSection, hlens, hready, if_false, if_true, Bool.false_eq_true, blocked]
  split <;> rfl

theorem writeWaits_of_open (hopen : ring.readEndOpen = true) :
    WriteWaits interest ring file path := by
  rintro ⟨hwanted, hsilent⟩ hwritable buffers -
  have hready : (epollFileReady ring file).2 = false := by
    by_contra h
    rw [Bool.not_eq_false] at h
    exact hsilent (h ▸ reports_epollOut hwanted _)
  have hclosed : ring.allReadEndsClosed = false := by simp [allReadEndsClosed, hopen]
  have hfull : ring.availableWrite = 0 := by
    simpa [epollFileReady, hwritable, hclosed] using hready
  have hsection : writeSection ring file.nonblock (.start path buffers) =
      if file.nonblock then some (ring, (WriteCall.start path buffers).finish (.error .eagain))
      else some (ring, (WriteCall.start path buffers).wait) := by
    cases path with
    | userSlice => simp [writeSection, WriteCall.start, userSliceSection, hclosed, hfull]
    | buffers => simp [writeSection, WriteCall.start, buffersSection, hclosed, hfull]
  rw [hsection, blocked]
  split <;> rfl

theorem silent_of_closed (hwanted : interest.event.events &&& epollOut ≠ 0)
    (hopen : ring.readEndOpen = false) : Silent ring file interest epollOut := by
  have hready : (epollFileReady ring file).2 = false := by
    simp [epollFileReady, allReadEndsClosed, hopen]
  exact ⟨hwanted, hready ▸ not_reports_epollOut _⟩

theorem writeSection_of_closed (hopen : ring.readEndOpen = false) (buffers : List (List UInt8)) :
    writeSection ring file.nonblock (.start path buffers) =
      some (ring, (WriteCall.start path buffers).finish (.error .epipe)) := by
  cases path <;>
    simp [writeSection, WriteCall.start, userSliceSection, buffersSection, allReadEndsClosed, hopen]

/-- The only silent end which does not wait is a write end without readers. -/
theorem waits_iff : ReadWaits interest ring file path ∧ WriteWaits interest ring file path ↔
    interest.event.events &&& epollOut = 0 ∨ file.writable = false ∨ ring.readEndOpen = true := by
  constructor
  · rintro ⟨-, hwaits⟩
    by_contra! hends
    obtain ⟨hwanted, hwritable, hopen⟩ := hends
    rw [ne_eq, Bool.not_eq_true] at hopen
    have hcall := hwaits (silent_of_closed interest ring file hwanted hopen)
      (by simpa using hwritable) [[0]] (by simp)
    rw [writeSection_of_closed ring file path hopen] at hcall
    simp only [WriteCall.finish, blocked, Option.some.injEq, Prod.mk.injEq, true_and] at hcall
    split at hcall <;> simp at hcall
  · rintro hends
    refine ⟨readWaits interest ring file path, fun hsilent hwritable => ?_⟩
    rcases hends with hwanted | hnot | hopen
    · exact absurd hwanted hsilent.1
    · simp [hwritable] at hnot
    · exact writeWaits_of_open interest ring file path hopen hsilent hwritable

end

/-- On a full pipe with a reader nothing is reported, and a write waits. -/
theorem waits_of_full : ∃ (ring : PipeRingBuffer) (file : PipeEnd) (interest : EpollInterest ℕ),
    ring.status = .full ∧ file.writable = true ∧ Silent ring file interest epollOut ∧
      ∀ path, ReadWaits interest ring file path ∧ WriteWaits interest ring file path := by
  refine ⟨{ PipeRingBuffer.new with status := .full }, ⟨false, true, false⟩,
    ⟨.other 0 true, ⟨epollOut, 0⟩⟩, rfl, rfl, ⟨by decide, not_reports_epollOut _⟩,
    fun path => (waits_iff _ _ _ path).mpr (.inr (.inr rfl))⟩

theorem not_waits_of_closed : ∃ (ring : PipeRingBuffer) (file : PipeEnd)
    (interest : EpollInterest ℕ) (buffers : List (List UInt8)), file.writable = true ∧
      Silent ring file interest epollOut ∧
        writeSection ring file.nonblock (.start .buffers buffers) =
          some (ring, (WriteCall.start .buffers buffers).finish (.error .epipe)) := by
  refine ⟨PipeRingBuffer.new.closeReadEnd, ⟨false, true, false⟩, ⟨.other 0 true, ⟨epollOut, 0⟩⟩,
    [[0]], rfl, ⟨by decide, ?_⟩, rfl⟩
  rintro ⟨reported, hreport, -⟩
  cases hreport

end Kairix.Pipe
