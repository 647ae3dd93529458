import Mathlib

/-!
# Retransmission chunks

A tracked segment which is longer than the current maximum segment size is sent
again in several chunks.  The definitions follow `socket/tcp.rs`; sequence numbers
are 32-bit words, and SYN and FIN take one number each, before and after the bytes.
-/

namespace Kairix.Tcp

open List

def tcpFlagFin : BitVec 8 := 0x01

def tcpFlagSyn : BitVec 8 := 0x02

def tcpFlagPsh : BitVec 8 := 0x08

def carries (flags flag : BitVec 8) : Bool :=
  flags &&& flag != 0

def synAdvance (flags : BitVec 8) : ℕ :=
  (carries flags tcpFlagSyn).toNat

def finAdvance (flags : BitVec 8) : ℕ :=
  (carries flags tcpFlagFin).toNat

def segmentEndSeq (seq : BitVec 32) (flags : BitVec 8) (payloadLen : ℕ) : BitVec 32 :=
  seq + BitVec.ofNat 32 payloadLen + BitVec.ofNat 32 (synAdvance flags + finAdvance flags)

structure RetransmitSegment where
  seq : BitVec 32
  ack : BitVec 32
  flags : BitVec 8
  payload : List UInt8
  deriving DecidableEq

structure Addresses where
  localIp : BitVec 32
  localPort : BitVec 16
  remoteIp : BitVec 32
  remotePort : BitVec 16
  deriving DecidableEq

structure PendingRetransmit extends Addresses, RetransmitSegment
  deriving DecidableEq

def RetransmitSegment.endSeq (seg : RetransmitSegment) : BitVec 32 :=
  segmentEndSeq seg.seq seg.flags seg.payload.length

def chunkFlags (flags : BitVec 8) (first last : Bool) : BitVec 8 :=
  let flags := if first then flags else flags &&& ~~~tcpFlagSyn
  if last then flags else flags &&& ~~~(tcpFlagFin ||| tcpFlagPsh)

section Chunks

variable (addresses : Addresses) (seg : RetransmitSegment) (mss : ℕ)

def RetransmitSegment.chunkSeq (offset : ℕ) : BitVec 32 :=
  if offset = 0 then seg.seq
  else seg.seq + BitVec.ofNat 32 (synAdvance seg.flags) + BitVec.ofNat 32 offset

def RetransmitSegment.chunk (offset stop : ℕ) : PendingRetransmit where
  toAddresses := addresses
  seq := seg.chunkSeq offset
  ack := seg.ack
  flags := chunkFlags seg.flags (offset = 0) (stop = seg.payload.length)
  payload := (seg.payload.drop offset).take (stop - offset)

/-- The `while` loop, which makes at most one round for each byte. -/
def chunkLoop : ℕ → ℕ → List PendingRetransmit
  | 0, _ => []
  | rounds + 1, offset =>
    if offset < seg.payload.length then
      let stop := min (offset + mss) seg.payload.length
      seg.chunk addresses offset stop :: chunkLoop rounds stop
    else []

def appendRetransmitChunks (pending : List PendingRetransmit) : List PendingRetransmit :=
  let mss := max mss 1
  if seg.payload.length ≤ mss then pending ++ [⟨addresses, seg⟩]
  else pending ++ chunkLoop addresses seg mss seg.payload.length 0

end Chunks

def seqRange (start : BitVec 32) (count : ℕ) : List (BitVec 32) :=
  (range count).map fun index => start + BitVec.ofNat 32 index

/-- The sequence numbers of a segment, in their order. -/
def RetransmitSegment.occupied (seg : RetransmitSegment) : List (BitVec 32) :=
  seqRange seg.seq (synAdvance seg.flags + seg.payload.length + finAdvance seg.flags)

attribute [local simp] BitVec.ofNat_add BitVec.add_assoc

theorem seqRange_add (start : BitVec 32) (first second : ℕ) : seqRange start (first + second) =
      seqRange start first ++ seqRange (start + BitVec.ofNat 32 first) second := by
  simp only [seqRange, range_add, map_append, map_map]
  congr 2
  funext index
  simp

theorem seqRange_nodup (start : BitVec 32) {count : ℕ} (hcount : count ≤ 2 ^ 32) :
    (seqRange start count).Nodup := by
  refine Nodup.map_on (fun first hfirst second hsecond heq => ?_) nodup_range
  have hnat := congrArg BitVec.toNat (add_left_cancel heq)
  rw [mem_range] at hfirst hsecond
  simp only [BitVec.toNat_ofNat] at hnat
  omega

theorem carries_chunkFlags (flags : BitVec 8) (first last : Bool) :
    carries (chunkFlags flags first last) tcpFlagSyn = (first && carries flags tcpFlagSyn) ∧
      carries (chunkFlags flags first last) tcpFlagFin = (last && carries flags tcpFlagFin) := by
  revert flags
  cases first <;> cases last <;> decide +kernel

namespace RetransmitSegment

variable {addresses : Addresses} {seg : RetransmitSegment} {mss offset stop : ℕ}
  {chunks : List PendingRetransmit}

theorem endSeq_eq : seg.endSeq = seg.seq + BitVec.ofNat 32 seg.occupied.length := by
  simp [endSeq, segmentEndSeq, occupied, seqRange]
  ac_rfl

/-- The sequence number of SYN counts for the chunk at the front. -/
def synFrom (seg : RetransmitSegment) (offset : ℕ) : ℕ :=
  if offset = 0 then synAdvance seg.flags else 0

/-- `chunks` carry what the segment holds from `offset` on. -/
structure SplitFrom (seg : RetransmitSegment) (mss offset : ℕ)
    (chunks : List PendingRetransmit) : Prop where
  payload : chunks.flatMap (·.payload) = seg.payload.drop offset
  size : ∀ chunk ∈ chunks, chunk.payload.length ≤ mss
  occupied : chunks ≠ [] → chunks.flatMap (·.occupied) = seqRange (seg.chunkSeq offset)
    (seg.synFrom offset + (seg.payload.length - offset) + finAdvance seg.flags)
  ends : ∀ before chunk after, chunks = before ++ chunk :: after →
    (carries chunk.flags tcpFlagSyn ↔
      carries seg.flags tcpFlagSyn ∧ before = [] ∧ offset = 0) ∧
    (carries chunk.flags tcpFlagFin ↔ carries seg.flags tcpFlagFin ∧ after = [])

theorem chunkLoop_eq_nil_iff {rounds : ℕ} (hrounds : seg.payload.length ≤ offset + rounds) :
    chunkLoop addresses seg mss rounds offset = [] ↔ seg.payload.length ≤ offset := by
  cases rounds with
  | zero => simpa [chunkLoop] using hrounds
  | succ rounds =>
    rw [chunkLoop]
    split <;> simp <;> omega

theorem length_chunk_payload (hstop : stop ≤ seg.payload.length) :
    (seg.chunk addresses offset stop).payload.length = stop - offset := by
  simp only [chunk, length_take, length_drop]
  omega

theorem occupied_chunk (hstop : stop ≤ seg.payload.length) :
    (seg.chunk addresses offset stop).occupied = seqRange (seg.chunkSeq offset)
      (seg.synFrom offset + (stop - offset) +
        if stop = seg.payload.length then finAdvance seg.flags else 0) := by
  rw [RetransmitSegment.occupied, length_chunk_payload hstop]
  simp only [chunk, synAdvance, finAdvance, carries_chunkFlags, synFrom]
  congr 2 <;> split <;> simp_all

theorem chunkSeq_of_lt (hlt : offset < stop) : seg.chunkSeq stop =
      seg.chunkSeq offset + BitVec.ofNat 32 (seg.synFrom offset + (stop - offset)) := by
  obtain ⟨size, rfl⟩ := Nat.exists_eq_add_of_lt hlt
  simp only [chunkSeq, synFrom, show offset + size + 1 ≠ 0 by omega, if_false]
  split
  · subst offset
    simp
  · simp [Nat.add_assoc]

theorem SplitFrom.cons (hlt : stop ≠ seg.payload.length → offset < stop) (hle : offset ≤ stop)
    (hsize : stop ≤ offset + mss) (hstop : stop ≤ seg.payload.length)
    (hlast : chunks = [] ↔ stop = seg.payload.length) (hsplit : seg.SplitFrom mss stop chunks) :
    seg.SplitFrom mss offset (seg.chunk addresses offset stop :: chunks) where
  payload := by
    have hdrop : seg.payload.drop stop = (seg.payload.drop offset).drop (stop - offset) := by
      rw [drop_drop, Nat.add_sub_cancel' hle]
    rw [flatMap_cons, hsplit.payload, hdrop]
    exact take_append_drop _ _
  size := by
    rw [forall_mem_cons, length_chunk_payload hstop]
    exact ⟨by omega, hsplit.size⟩
  occupied _ := by
    rw [flatMap_cons, occupied_chunk hstop]
    by_cases hchunks : chunks = []
    · simp [hchunks, hlast.mp hchunks]
    · have hne : stop ≠ seg.payload.length := fun h => hchunks (hlast.mpr h)
      have hpos := hlt hne
      have hsyn : seg.synFrom stop = 0 := if_neg (by omega)
      rw [hsplit.occupied hchunks, if_neg hne, chunkSeq_of_lt hpos, Nat.add_zero, ← seqRange_add,
        hsyn]
      congr 1
      omega
  ends := by
    intro before chunk s' heq
    cases before with
    | nil =>
      obtain ⟨rfl, rfl⟩ := cons.inj heq
      simp [RetransmitSegment.chunk, carries_chunkFlags, hlast, and_comm]
    | cons head before =>
      obtain ⟨rfl, htail⟩ := cons.inj heq
      have hne : stop ≠ 0 := fun h => by have := hlt; simp_all
      simpa [hne] using hsplit.ends before chunk s' htail

theorem splitFrom_nil : seg.SplitFrom mss seg.payload.length [] where
  payload := by simp
  size := by simp
  occupied h := absurd rfl h
  ends := by simp

theorem splitFrom_chunkLoop (hmss : 0 < mss) (rounds : ℕ) (hoffset : offset ≤ seg.payload.length)
    (hrounds : seg.payload.length ≤ offset + rounds) :
    seg.SplitFrom mss offset (chunkLoop addresses seg mss rounds offset) := by
  induction rounds generalizing offset with
  | zero =>
    obtain rfl : offset = seg.payload.length := by omega
    exact splitFrom_nil
  | succ rounds ih =>
    rw [chunkLoop]
    split
    · have hleft : seg.payload.length ≤ min (offset + mss) seg.payload.length + rounds := by omega
      refine .cons (by omega) (by omega) (min_le_left _ _) (min_le_right _ _) ?_
        (ih (min_le_right _ _) hleft)
      rw [chunkLoop_eq_nil_iff hleft]
      omega
    · obtain rfl : offset = seg.payload.length := by omega
      exact splitFrom_nil

theorem chunk_whole : seg.chunk addresses 0 seg.payload.length = ⟨addresses, seg⟩ := by
  simp [chunk, chunkSeq, chunkFlags]

end RetransmitSegment

/-- The chunks hold the bytes and the sequence numbers of the segment in their order. -/
theorem appendRetransmitChunks_splits (addresses : Addresses) (seg : RetransmitSegment) (mss : ℕ)
    (pending : List PendingRetransmit) :
    ∃ chunks, appendRetransmitChunks addresses seg mss pending = pending ++ chunks ∧
      chunks.flatMap (·.payload) = seg.payload ∧
      (∀ chunk ∈ chunks, chunk.payload.length ≤ max mss 1) ∧
      chunks.flatMap (·.occupied) = seg.occupied ∧
      (seg.occupied.length ≤ 2 ^ 32 →
        chunks.Pairwise fun first second => first.occupied.Disjoint second.occupied) ∧
      ∀ before chunk after, chunks = before ++ chunk :: after →
        (carries chunk.flags tcpFlagSyn ↔ carries seg.flags tcpFlagSyn ∧ before = []) ∧
        (carries chunk.flags tcpFlagFin ↔ carries seg.flags tcpFlagFin ∧ after = []) := by
  obtain ⟨chunks, heq, hne, hsplit⟩ : ∃ chunks,
      appendRetransmitChunks addresses seg mss pending = pending ++ chunks ∧ chunks ≠ [] ∧
        seg.SplitFrom (max mss 1) 0 chunks := by
    rw [appendRetransmitChunks]
    split
    · rename_i hshort
      refine ⟨_, rfl, by simp, ?_⟩
      rw [← RetransmitSegment.chunk_whole]
      exact .cons (by simp) (by simp) (by omega) le_rfl (by simp) RetransmitSegment.splitFrom_nil
    · exact ⟨_, rfl, by rw [Ne, RetransmitSegment.chunkLoop_eq_nil_iff (by simp)]; omega,
        RetransmitSegment.splitFrom_chunkLoop (by simp) _ (by simp) (by simp)⟩
  have hoccupied : chunks.flatMap (·.occupied) = seg.occupied := hsplit.occupied hne
  refine ⟨chunks, heq, hsplit.payload, hsplit.size, hoccupied, fun hlength => ?_, ?_⟩
  · have hnodup : (chunks.flatMap (·.occupied)).Nodup := by
      rw [hoccupied]
      exact seqRange_nodup _ (by simpa [RetransmitSegment.occupied, seqRange] using hlength)
    exact (nodup_flatMap.mp hnodup).2
  · simpa using hsplit.ends

/-- A size of zero is treated as one byte. -/
theorem appendRetransmitChunks_exceeds_mss : ¬ ∀ (addresses : Addresses)
    (seg : RetransmitSegment) (mss : ℕ), ∀ chunk ∈ appendRetransmitChunks addresses seg mss [],
      chunk.payload.length ≤ mss := by
  intro hall
  exact absurd (hall ⟨0, 0, 0, 0⟩ ⟨0, 0, 0, [0]⟩ 0) (by decide)

end Kairix.Tcp
