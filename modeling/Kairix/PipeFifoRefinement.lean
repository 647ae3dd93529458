import Kairix.BoundedFifo
import Kairix.PipeRingRepresentation

/-!
# Pipes refine bounded byte queues

A family of pipes serves write, read, peek, discard, transfer, resize,
reclamation and close requests.  The same requests are served by bounded
queues with a ledger; the two servers give the same replies on every
sequence of requests.
-/

namespace Kairix.Pipe

open Function PipeRingBuffer

variable {ι : Type*}

inductive PipeRequest (ι : Type*) where
  | write (pipe : ι) (src : List UInt8)
  | read (pipe : ι) (len : ℕ)
  | peek (pipe : ι) (len : ℕ)
  | discard (pipe : ι) (len : ℕ)
  | transfer (input output : ι) (len : ℕ)
  | resize (pipe : ι) (capacity : ℕ)
  | reclaim (pipe : ι)
  | closeRead (pipe : ι)
  | closeWrite (pipe : ι)

inductive PipeReply where
  | bytes (data : List UInt8)
  | result (value : SyscallResult)

abbrev PipeSystem (ι : Type*) := ι → PipeRingBuffer

def initialSystem : PipeSystem ι := fun _ => PipeRingBuffer.new

section Serve

variable [DecidableEq ι]

/-- Serve one request under the lock of the pipes it names. -/
def serve (system : PipeSystem ι) : PipeRequest ι → Option (PipeSystem ι × PipeReply)
  | .write pipe src =>
    if (system pipe).allReadEndsClosed then
      some (system, .result (.error .epipe))
    else
      ((system pipe).writeSlice src).map fun write =>
        (update system pipe write.1, .result (.ok write.2))
  | .read pipe len =>
    let read := (system pipe).readSlice len
    some (update system pipe read.1, .bytes read.2)
  | .peek pipe len => some (system, .bytes ((system pipe).peekSlice len))
  | .discard pipe len =>
    let discard := (system pipe).discardSlice len
    some (update system pipe discard.1, .result (.ok discard.2))
  | .transfer input output len =>
    if input = output then some (system, .result (.error .einval))
    else
      (transferLocked (system input) (system output) len).map fun moved =>
        (update (update system input moved.1) output moved.2.1, .result moved.2.2)
  | .resize pipe capacity =>
    ((system pipe).setPipeCapacity capacity).map fun resized =>
      (update system pipe resized.1, .result resized.2)
  | .reclaim pipe =>
    some (update system pipe (system pipe).reclaimConsumedPages, .result (.ok 0))
  | .closeRead pipe =>
    some (update system pipe (system pipe).closeReadEnd, .result (.ok 0))
  | .closeWrite pipe =>
    some (update system pipe (system pipe).closeWriteEnd, .result (.ok 0))

def serveAll (system : PipeSystem ι) : List (PipeRequest ι) → Option (PipeSystem ι × List PipeReply)
  | [] => some (system, [])
  | request :: rest =>
    (serve system request).bind fun first =>
      (serveAll first.1 rest).map fun last =>
        (last.1, first.2 :: last.2)

/-- What a pipe is for: a bounded byte queue between two ends. -/
structure PipeSpec where
  fifo : BoundedFifo UInt8
  readEndOpen : Bool
  writeEndOpen : Bool

def PipeSpec.new : PipeSpec where
  fifo := .empty defaultPipeCapacity
  readEndOpen := true
  writeEndOpen := true

abbrev SpecSystem (ι : Type*) := ι → PipeSpec

def initialSpec : SpecSystem ι := fun _ => PipeSpec.new

def PipeSpec.withFifo (spec : PipeSpec) (fifo : BoundedFifo UInt8) : PipeSpec :=
  { spec with fifo := fifo }

/-- The accepted capacities are rounded up to `PIPE_BUF`. -/
def PipeSpec.resize (spec : PipeSpec) (capacity : ℕ) : PipeSpec × SyscallResult :=
  if pipeSizeLimit < capacity then (spec, .error .einval)
  else if pipeMaxSize < capacity then (spec, .error .eperm)
  else if hfit : spec.fifo.contents.length ≤ max capacity pipeBuf then
    (spec.withFifo (spec.fifo.setCapacity (max capacity pipeBuf) hfit), .ok 0)
  else (spec, .error .ebusy)

def specServe (spec : SpecSystem ι) : PipeRequest ι → SpecSystem ι × PipeReply
  | .write pipe src =>
    if (spec pipe).readEndOpen then
      (update spec pipe
          ((spec pipe).withFifo ((spec pipe).fifo.push src)),
        .result (.ok (min src.length (spec pipe).fifo.space)))
    else (spec, .result (.error .epipe))
  | .read pipe len =>
    (update spec pipe
        ((spec pipe).withFifo ((spec pipe).fifo.pop len)),
      .bytes ((spec pipe).fifo.contents.take len))
  | .peek pipe len => (spec, .bytes ((spec pipe).fifo.contents.take len))
  | .discard pipe len =>
    (update spec pipe
        ((spec pipe).withFifo ((spec pipe).fifo.pop len)),
      .result (.ok (min len (spec pipe).fifo.contents.length)))
  | .transfer input output len =>
    if input = output then (spec, .result (.error .einval))
    else if (spec output).readEndOpen then
      let moved := min (min len (spec input).fifo.contents.length) (spec output).fifo.space
      (update
          (update spec input ((spec input).withFifo ((spec input).fifo.pop moved)))
          output
          ((spec output).withFifo ((spec output).fifo.push
            ((spec input).fifo.contents.take moved))),
        .result (.ok moved))
    else (spec, .result (.error .epipe))
  | .resize pipe capacity =>
    (update spec pipe ((spec pipe).resize capacity).1,
      .result ((spec pipe).resize capacity).2)
  | .reclaim _ => (spec, .result (.ok 0))
  | .closeRead pipe =>
    (update spec pipe
        { (spec pipe) with
          fifo := (spec pipe).fifo.pop (spec pipe).fifo.contents.length
          readEndOpen := false },
      .result (.ok 0))
  | .closeWrite pipe =>
    (update spec pipe { (spec pipe) with writeEndOpen := false },
      .result (.ok 0))

def specServeAll (spec : SpecSystem ι) : List (PipeRequest ι) → SpecSystem ι × List PipeReply
  | [] => (spec, [])
  | request :: rest =>
    let first := specServe spec request
    let last := specServeAll first.1 rest
    (last.1, first.2 :: last.2)

/-! ## Refinement -/

structure Implements (ring : PipeRingBuffer) (spec : PipeSpec) : Prop where
  represents : ring.Represents spec.fifo.contents
  settings_eq : ring.settings = (spec.fifo.capacity, spec.readEndOpen, spec.writeEndOpen)

theorem implements_new : Implements PipeRingBuffer.new PipeSpec.new := ⟨represents_new, rfl⟩

variable {ring : PipeRingBuffer} {spec : PipeSpec}

section

variable (himpl : Implements ring spec)
include himpl

theorem Implements.capacity_eq : ring.capacity = spec.fifo.capacity :=
  congrArg Prod.fst himpl.settings_eq

theorem Implements.readEndOpen_eq : ring.readEndOpen = spec.readEndOpen :=
  congrArg (fun settings => settings.2.1) himpl.settings_eq

theorem Implements.writeEndOpen_eq : ring.writeEndOpen = spec.writeEndOpen :=
  congrArg (fun settings => settings.2.2) himpl.settings_eq

theorem Implements.withFifo {ring' : PipeRingBuffer} {fifo : BoundedFifo UInt8}
    (hcapacity : fifo.capacity = spec.fifo.capacity) (hrep : ring'.Represents fifo.contents)
    (hsettings : ring'.settings = ring.settings) : Implements ring' (spec.withFifo fifo) := by
  refine ⟨hrep, ?_⟩
  rw [hsettings, himpl.settings_eq]
  simp [PipeSpec.withFifo, hcapacity]

theorem Implements.resize (capacity : ℕ) : ∃ ring', ring.setPipeCapacity capacity =
          some (ring', (spec.resize capacity).2) ∧
        Implements ring' (spec.resize capacity).1 := by
  unfold setPipeCapacity PipeSpec.resize
  split
  · exact ⟨ring, rfl, himpl⟩
  · split
    · exact ⟨ring, rfl, himpl⟩
    · have hpos : 0 < max capacity pipeBuf := by
        unfold pipeBuf
        omega
      have hresize := himpl.represents.resize_spec hpos
      split at hresize
      · next hbig =>
          rw [dif_neg (by omega)]
          exact ⟨ring, hresize, himpl⟩
      · next hfit =>
          rw [dif_pos (by omega)]
          obtain ⟨ring', hring, hrep, hsettings⟩ := hresize
          refine ⟨ring', hring, hrep, ?_⟩
          rw [hsettings, himpl.readEndOpen_eq, himpl.writeEndOpen_eq]
          rfl

end

def Refines (system : PipeSystem ι) (spec : SpecSystem ι) : Prop :=
  ∀ pipe, Implements (system pipe) (spec pipe)

variable {system : PipeSystem ι}

section

variable {spec : SpecSystem ι} (hrefines : Refines system spec)
include hrefines

theorem Refines.update (pipe : ι) {queue : PipeSpec} (himpl : Implements ring queue) :
    Refines (update system pipe ring) (update spec pipe queue) := by
  intro other
  by_cases hother : other = pipe
  · subst hother
    simpa using himpl
  · simpa [Function.update_of_ne hother] using hrefines other

theorem serve_transfer_refines (input output : ι) (len : ℕ) : ∃ system',
      serve system (.transfer input output len) =
          some (system', (specServe spec (.transfer input output len)).2) ∧
        Refines system' (specServe spec (.transfer input output len)).1 := by
  have hin := hrefines input
  have hout := hrefines output
  unfold serve specServe
  dsimp only
  split
  · exact ⟨system, rfl, hrefines⟩
  · split
    · next hopen =>
        obtain ⟨ringIn, ringOut, htransfer, hrepIn, hsetIn, hrepOut, hsetOut⟩ :=
          transferLocked_spec hin.represents hout.represents (hout.readEndOpen_eq.trans hopen) len
        rw [hout.capacity_eq] at htransfer hrepIn hrepOut
        refine ⟨_, by rw [htransfer]; rfl, ?_⟩
        apply Refines.update
        · apply hrefines.update
          exact hin.withFifo rfl hrepIn hsetIn
        · refine hout.withFifo rfl ?_ hsetOut
          have hall : ((spec input).fifo.contents.take
                (min (min len (spec input).fifo.contents.length) (spec output).fifo.space)).length ≤
                (spec output).fifo.space :=
            (List.length_take_le _ _).trans (Nat.min_le_right _ _)
          simp only [BoundedFifo.push]
          rw [List.take_of_length_le hall]
          exact hrepOut
    · next hclosed =>
        refine ⟨system, ?_, hrefines⟩
        unfold transferLocked allReadEndsClosed
        rw [hout.readEndOpen_eq]
        simp [hclosed]

theorem serve_refines (request : PipeRequest ι) : ∃ system',
      serve system request = some (system', (specServe spec request).2) ∧
        Refines system' (specServe spec request).1 := by
  cases request with
  | write pipe src =>
    have himpl := hrefines pipe
    unfold serve specServe allReadEndsClosed
    dsimp only
    rw [himpl.readEndOpen_eq]
    cases hopen : (spec pipe).readEndOpen with
    | false => exact ⟨system, rfl, hrefines⟩
    | true =>
      obtain ⟨ring, hwrite, hrep, hsettings⟩ := himpl.represents.writeSlice_spec src
      rw [himpl.capacity_eq] at hwrite hrep
      refine ⟨_, by simp [hwrite, BoundedFifo.space]; rfl, ?_⟩
      exact hrefines.update pipe (himpl.withFifo rfl hrep hsettings)
  | read pipe len =>
    have himpl := hrefines pipe
    obtain ⟨hbytes, hrep, hsettings⟩ := himpl.represents.readSlice_spec len
    refine ⟨_, by unfold serve specServe; dsimp only; rw [hbytes], ?_⟩
    exact hrefines.update pipe (himpl.withFifo rfl hrep hsettings)
  | peek pipe len =>
    refine ⟨system, ?_, hrefines⟩
    unfold serve specServe
    dsimp only
    rw [(hrefines pipe).represents.peekSlice_eq]
  | discard pipe len =>
    have himpl := hrefines pipe
    obtain ⟨hcount, hrep, hsettings⟩ := himpl.represents.discardSlice_spec len
    refine ⟨_, by unfold serve specServe; dsimp only; rw [hcount], ?_⟩
    exact hrefines.update pipe (himpl.withFifo rfl hrep hsettings)
  | transfer input output len =>
    exact serve_transfer_refines hrefines input output len
  | resize pipe capacity =>
    obtain ⟨ring, hresize, himpl⟩ := (hrefines pipe).resize capacity
    refine ⟨_, by unfold serve specServe; dsimp only; rw [hresize]; rfl, ?_⟩
    exact hrefines.update pipe himpl
  | reclaim pipe =>
    have himpl := hrefines pipe
    refine ⟨_, rfl, ?_⟩
    rw [← Function.update_eq_self pipe spec]
    apply hrefines.update
    refine ⟨himpl.represents.reclaimConsumedPages, ?_⟩
    rw [reclaimConsumedPages_settings]
    exact himpl.settings_eq
  | closeRead pipe =>
    have himpl := hrefines pipe
    obtain ⟨hrep, hsettings⟩ := himpl.represents.closeReadEnd_spec
    refine ⟨_, rfl, hrefines.update pipe ⟨?_, ?_⟩⟩
    · simpa [BoundedFifo.pop] using hrep
    · rw [hsettings, himpl.capacity_eq, himpl.writeEndOpen_eq]
      rfl
  | closeWrite pipe =>
    have himpl := hrefines pipe
    refine ⟨_, rfl, hrefines.update pipe ⟨?_, ?_⟩⟩
    · obtain ⟨⟨hhead, hcount, htail, hempty, hfull⟩, hview⟩ := himpl.represents
      exact ⟨⟨hhead, hcount, htail, hempty, hfull⟩, hview⟩
    · change ((system pipe).capacity, (system pipe).readEndOpen, false) = _
      rw [himpl.capacity_eq, himpl.readEndOpen_eq]

theorem serveAll_refines (requests : List (PipeRequest ι)) : ∃ system', serveAll system requests =
          some (system', (specServeAll spec requests).2) ∧
        Refines system' (specServeAll spec requests).1 := by
  induction requests generalizing system spec with
  | nil => exact ⟨system, rfl, hrefines⟩
  | cons request rest ih =>
    obtain ⟨next, hserve, hnext⟩ := serve_refines hrefines request
    obtain ⟨last, hrest, hlast⟩ := ih hnext
    refine ⟨last, ?_, hlast⟩
    rw [serveAll, hserve]
    simp only [Option.bind_some]
    rw [hrest]
    rfl

end

/-- Every sequence of requests is served, with the replies of the bounded
queues.  At its end each pipe peeks what it would read, its readable and
writable bytes add up to its capacity, and what entered it is what left it
followed by what is readable. -/
theorem serveAll_refines_boundedFifo (requests : List (PipeRequest ι)) : ∃ system,
      serveAll initialSystem requests = some (system, (specServeAll initialSpec requests).2) ∧
        ∀ pipe, (∀ len, (system pipe).peekSlice len = ((system pipe).readSlice len).2) ∧
          (system pipe).availableRead + (system pipe).availableWrite = (system pipe).capacity ∧
          ((specServeAll initialSpec requests).1 pipe).fifo.entered =
            ((specServeAll initialSpec requests).1 pipe).fifo.left ++
              (system pipe).peekSlice (system pipe).availableRead := by
  have hinitial : Refines (initialSystem : PipeSystem ι) initialSpec := fun _ => implements_new
  obtain ⟨system, hserve, hrefines⟩ := serveAll_refines hinitial requests
  refine ⟨system, hserve, ?_⟩
  intro pipe
  have hrep := (hrefines pipe).represents
  refine ⟨?_, ?_, ?_⟩
  · intro len
    rw [hrep.peekSlice_eq, (hrep.readSlice_spec len).1]
  · have hle := hrep.layout.count_le
    rw [hrep.availableRead_eq, hrep.availableWrite_eq]
    omega
  · rw [hrep.peekSlice_eq, hrep.availableRead_eq, List.take_length]
    exact ((specServeAll initialSpec requests).1 pipe).fifo.balance

end Serve

end Kairix.Pipe
