import Kairix.LabelledRun
import Kairix.RecordLocks

/-!
# Exclusion of record locks

In every run of lock requests, closes and exits, no byte is locked by two owners
of which one writes, and the locks of an owner are kept in canonical form.
-/

namespace Kairix.RecordLock

open RangeCover LabelledRun List Function Option

/-! ## Locks as labelled ranges -/

attribute [local simp] minByStart InodeLocks.empty LockType.code

theorem code_injective : Injective LockType.code := by
  intro first second hcode
  cases first with
  | read =>
    cases second with
    | read => rfl
    | write => simp at hcode
  | write =>
    cases second with
    | read => simp at hcode
    | write => rfl

namespace PosixLock

/-- Owner and type of a lock, in the order in which they are sorted. -/
def label (lock : PosixLock) : ℕ ×ₗ ℕ := toLex (lock.ownerPid, lock.lockType.code)

def piece (lock : PosixLock) : Labelled (ℕ ×ₗ ℕ) offsetMax := ⟨lock.label, lock.range⟩

theorem label_eq_iff {first second : PosixLock} : first.label = second.label ↔
      first.ownerPid = second.ownerPid ∧ first.lockType = second.lockType := by
  rw [label, label, toLex_inj, Prod.mk.injEq, code_injective.eq_iff]

theorem label_lt_iff {first second : PosixLock} :
    first.label < second.label ↔ first.ownerPid < second.ownerPid ∨
      first.ownerPid = second.ownerPid ∧ first.lockType.code < second.lockType.code := by
  rw [label, label, Prod.Lex.toLex_lt_toLex]

end PosixLock

theorem sortsBefore_iff {first second : PosixLock} :
    sortsBefore first second ↔ Before first.piece second.piece := by
  rw [sortsBefore, Before, PosixLock.piece, PosixLock.piece, PosixLock.label_lt_iff,
    PosixLock.label_eq_iff, ← code_injective.eq_iff]
  constructor
  · rintro (hlt | ⟨heq, hcode | ⟨hcode, hstart⟩⟩)
    · exact .inl (.inl hlt)
    · exact .inl (.inr ⟨heq, hcode⟩)
    · exact .inr ⟨⟨heq, hcode⟩, hstart⟩
  · rintro ((hlt | ⟨heq, hcode⟩) | ⟨⟨heq, hcode⟩, hstart⟩)
    · exact .inl hlt
    · exact .inr ⟨heq, .inl hcode⟩
    · exact .inr ⟨heq, .inr ⟨hcode, hstart⟩⟩

theorem mergesInto_iff
    {last lock : PosixLock} : mergesInto last lock ↔ Mergeable last.piece lock.piece := by
  have hordered := lock.range.ordered
  have hbounded := lock.range.bounded
  rw [mergesInto, Mergeable, PosixLock.piece, PosixLock.piece, PosixLock.label_eq_iff, and_assoc]
  refine and_congr_right fun _ => and_congr_right fun _ => ?_
  simp only
  omega

theorem map_mergeFrom (last : PosixLock) (locks : List PosixLock) :
    (mergeFrom last locks).map PosixLock.piece =
      coalesceFrom last.piece (locks.map PosixLock.piece) := by
  induction locks generalizing last with
  | nil => rfl
  | cons lock rest ih =>
    rw [mergeFrom, map_cons, coalesceFrom]
    by_cases hmerges : mergesInto last lock
    · rw [if_pos hmerges, if_pos (mergesInto_iff.mp hmerges), ih]
      rfl
    · rw [if_neg hmerges, if_neg fun hpiece => hmerges (mergesInto_iff.mpr hpiece),
        map_cons, ih]

section

variable (locks : List PosixLock)

theorem map_mergeLocks :
    (mergeLocks locks).map PosixLock.piece = coalesce (locks.map PosixLock.piece) := by
  cases locks with
  | nil => rfl
  | cons first rest => exact map_mergeFrom first rest

theorem map_splitLock (pid : ℕ) (range : ByteRange) (lock : PosixLock) :
    (splitLock pid range lock).map PosixLock.piece =
      if decide ((ofLex lock.label).1 = pid) = true ∧ lock.range.Overlaps range then
        (lock.range.without range).map fun part => ⟨lock.label, part⟩
      else [lock.piece] := by
  rw [splitLock]
  by_cases hcut : lock.ownerPid = pid ∧ lock.range.Overlaps range
  · have hsplit : ¬(lock.ownerPid ≠ pid ∨ ¬lock.range.Overlaps range) := by simp [hcut]
    rw [if_neg hsplit, if_pos ⟨decide_eq_true hcut.1, hcut.2⟩, map_append, Range.without,
      map_append]
    congr 1
    · split <;> rfl
    · split <;> rfl
  · rw [if_pos (not_and_or.mp hcut), if_neg fun hboth => hcut ⟨of_decide_eq_true hboth.1, hboth.2⟩]
    rfl

theorem map_flatMap_splitLock (pid : ℕ) (range : ByteRange) (locks : List PosixLock) :
    (locks.flatMap (splitLock pid range)).map PosixLock.piece =
      carve (fun label => decide ((ofLex label).1 = pid)) range (locks.map PosixLock.piece) := by
  rw [map_flatMap, carve, flatMap_map]
  apply flatMap_congr
  intro lock _
  exact map_splitLock pid range lock

def Holds (locks : List PosixLock) (pid : ℕ) (lockType : LockType) (byte : ℕ) : Prop :=
  ∃ lock ∈ locks, lock.ownerPid = pid ∧ lock.lockType = lockType ∧ byte ∈ lock.range

theorem holds_iff_covers {locks : List PosixLock} {pid byte : ℕ} {lockType : LockType} :
    Holds locks pid lockType byte ↔
      Covers (locks.map PosixLock.piece) (toLex (pid, lockType.code)) byte := by
  constructor
  · rintro ⟨lock, hlock, rfl, rfl, hbyte⟩
    exact ⟨lock.piece, mem_map_of_mem hlock, rfl, hbyte⟩
  · rintro ⟨piece, hpiece, hlabel, hbyte⟩
    obtain ⟨lock, hlock, rfl⟩ := mem_map.mp hpiece
    have hsame : lock.label = PosixLock.label ⟨pid, lockType, lock.range⟩ := hlabel
    obtain ⟨howner, htype⟩ := PosixLock.label_eq_iff.mp hsame
    exact ⟨lock, hlock, howner, htype, hbyte⟩

def addedLock (pid : ℕ) (lockType : Option LockType) (range : ByteRange) : List PosixLock :=
  match lockType with
  | some lockType => [⟨pid, lockType, range⟩]
  | none => []

theorem map_replaceOwnerRange (pid : ℕ) (lockType : Option LockType) (range : ByteRange) :
    (replaceOwnerRange locks pid lockType range).map PosixLock.piece =
      coalesce ((carve (fun label => decide ((ofLex label).1 = pid)) range
        (locks.map PosixLock.piece) ++
          (addedLock pid lockType range).map PosixLock.piece).insertionSort Before) := by
  unfold replaceOwnerRange
  rw [map_mergeLocks, map_insertionSort sortsBefore Before PosixLock.piece _
    fun _ _ _ _ => sortsBefore_iff, map_append, map_flatMap_splitLock]
  rfl

theorem apart_replaceOwnerRange (pid : ℕ) (lockType : Option LockType) (range : ByteRange) :
    ((replaceOwnerRange locks pid lockType range).map PosixLock.piece).Pairwise Apart := by
  rw [map_replaceOwnerRange]
  exact pairwise_coalesce (pairwise_insertionSort Before _)

theorem holds_addedLock
    {pid owner byte : ℕ} {request : Option LockType} {lockType : LockType} {range : ByteRange} :
    Holds (addedLock pid request range) owner lockType byte ↔
      owner = pid ∧ request = some lockType ∧ byte ∈ range := by
  cases request with
  | none => simp [Holds, addedLock]
  | some requested => simp [Holds, addedLock, eq_comm]

theorem holds_replaceOwnerRange (pid : ℕ) (request : Option LockType) (range : ByteRange)
    (owner : ℕ) (lockType : LockType) (byte : ℕ) :
    Holds (replaceOwnerRange locks pid request range) owner lockType byte ↔
      (Holds locks owner lockType byte ∧ ¬(owner = pid ∧ byte ∈ range)) ∨
        owner = pid ∧ request = some lockType ∧ byte ∈ range := by
  rw [holds_iff_covers, map_replaceOwnerRange,
    covers_coalesce (pairwise_insertionSort Before _),
    covers_of_perm (perm_insertionSort Before _), covers_append, covers_carve,
    ← holds_iff_covers, ← holds_iff_covers, holds_addedLock, decide_eq_true_iff]
  rfl

theorem piece_injective : Injective PosixLock.piece := by
  intro first second hpiece
  obtain ⟨hlabel, hrange⟩ := Labelled.mk.inj hpiece
  obtain ⟨howner, htype⟩ := PosixLock.label_eq_iff.mp hlabel
  obtain ⟨owner, lockType, range⟩ := first
  simp_all

theorem eq_of_holds {locks others : List PosixLock}
    (hlocks : (locks.map PosixLock.piece).Pairwise Apart)
    (hothers : (others.map PosixLock.piece).Pairwise Apart)
    (hholds : ∀ pid lockType byte, Holds locks pid lockType byte ↔ Holds others pid lockType byte) :
    locks = others := by
  have hcovers {first second : List PosixLock}
      (hholds : ∀ pid lockType byte, Holds first pid lockType byte → Holds second pid lockType byte)
      {label : ℕ ×ₗ ℕ} {byte : ℕ} (hfirst : Covers (first.map PosixLock.piece) label byte) :
      Covers (second.map PosixLock.piece) label byte := by
    obtain ⟨piece, hpiece, rfl, hbyte⟩ := hfirst
    obtain ⟨lock, hlock, rfl⟩ := mem_map.mp hpiece
    exact holds_iff_covers.mp
      (hholds lock.ownerPid lock.lockType byte ⟨lock, hlock, rfl, rfl, hbyte⟩)
  refine piece_injective.list_map (eq_of_covers hlocks hothers fun label byte => ⟨?_, ?_⟩)
  · exact hcovers fun pid lockType byte => (hholds pid lockType byte).mp
  · exact hcovers fun pid lockType byte => (hholds pid lockType byte).mpr

/-- The list is sorted, locks of one owner and type do not touch, and a byte has one type
for an owner. -/
structure Normal (locks : List PosixLock) : Prop where
  apart : (locks.map PosixLock.piece).Pairwise Apart
  single : ∀ pid byte first second, Holds locks pid first byte → Holds locks pid second byte →
    first = second

theorem normal_nil : Normal [] := ⟨Pairwise.nil, by simp [Holds]⟩

structure Updates (locks : List PosixLock) (pid : ℕ) (request : Option LockType)
    (range : ByteRange) (after : List PosixLock) : Prop where
  inside : ∀ byte ∈ range, ∀ lockType, Holds after pid lockType byte ↔ request = some lockType
  outside : ∀ byte, byte ∉ range → ∀ lockType,
    Holds after pid lockType byte ↔ Holds locks pid lockType byte
  others : after.filter (fun lock => lock.ownerPid ≠ pid) =
    locks.filter fun lock => lock.ownerPid ≠ pid
  normal : Normal after

theorem holds_filter {locks : List PosixLock} {pid owner byte : ℕ} {lockType : LockType} :
    Holds (locks.filter fun lock => lock.ownerPid ≠ pid) owner lockType byte ↔
      Holds locks owner lockType byte ∧ owner ≠ pid := by
  simp only [Holds, mem_filter, decide_eq_true_eq]
  constructor
  · rintro ⟨lock, ⟨hlock, hne⟩, rfl, htype, hbyte⟩
    exact ⟨⟨lock, hlock, rfl, htype, hbyte⟩, hne⟩
  · rintro ⟨⟨lock, hlock, rfl, htype, hbyte⟩, hne⟩
    exact ⟨lock, ⟨hlock, hne⟩, rfl, htype, hbyte⟩

section

variable {locks : List PosixLock}

theorem Normal.replaceOwnerRange (hnormal : Normal locks) (pid : ℕ) (request : Option LockType)
    (range : ByteRange) : Normal (replaceOwnerRange locks pid request range) where
  apart := apart_replaceOwnerRange locks pid request range
  single owner byte first second hfirst hsecond := by
    rw [holds_replaceOwnerRange] at hfirst hsecond
    rcases hfirst with ⟨hold, hnot⟩ | ⟨rfl, hrequest, hbyte⟩
    · rcases hsecond with ⟨hold', -⟩ | ⟨rfl, -, hbyte⟩
      · exact hnormal.single owner byte first second hold hold'
      · exact absurd ⟨rfl, hbyte⟩ hnot
    · rcases hsecond with ⟨-, hnot⟩ | ⟨-, hrequest', -⟩
      · exact absurd ⟨rfl, hbyte⟩ hnot
      · exact some.inj (hrequest.symm.trans hrequest')

theorem replaceOwnerRange_updates (hnormal : Normal locks) (pid : ℕ) (request : Option LockType)
    (range : ByteRange) :
    Updates locks pid request range (replaceOwnerRange locks pid request range) ∧
      (∀ other request' (range' : ByteRange), ¬range.Overlaps range' →
        replaceOwnerRange (replaceOwnerRange locks pid request range) other request' range' =
          replaceOwnerRange (replaceOwnerRange locks other request' range') pid request range) ∧
      replaceOwnerRange (replaceOwnerRange locks pid request range) pid request range =
        replaceOwnerRange locks pid request range := by
  have hafter := apart_replaceOwnerRange
  refine ⟨⟨?_, ?_, ?_, hnormal.replaceOwnerRange pid request range⟩, ?_, ?_⟩
  · intro byte hbyte lockType
    simp [holds_replaceOwnerRange, hbyte]
  · intro byte hbyte lockType
    simp [holds_replaceOwnerRange, hbyte]
  · refine eq_of_holds ((hafter ..).sublist (filter_sublist.map _))
      (hnormal.apart.sublist (filter_sublist.map _)) fun owner lockType byte => ?_
    rw [holds_filter, holds_filter, and_congr_left_iff]
    intro hne
    simp [holds_replaceOwnerRange, hne]
  · intro other request' range' hdisjoint
    refine eq_of_holds (hafter ..) (hafter ..) fun owner lockType byte => ?_
    by_cases hbyte : byte ∈ range
    · have houtside : byte ∉ range' := fun hboth =>
        hdisjoint (Range.overlaps_iff.mpr ⟨byte, hbyte, hboth⟩)
      simp [holds_replaceOwnerRange, hbyte, houtside]
    · simp [holds_replaceOwnerRange, hbyte]
  · refine eq_of_holds (hafter ..) (hafter ..) fun owner lockType byte => ?_
    by_cases hbyte : owner = pid ∧ byte ∈ range
    · simp [holds_replaceOwnerRange, hbyte]
    · simp [holds_replaceOwnerRange, hbyte]

theorem updates_after_read_lock :
    let locks := replaceOwnerRange [] 1 (some .read) ⟨0, 9, by decide, by decide⟩
    let after := replaceOwnerRange locks 1 (some .write) ⟨3, 5, by decide, by decide⟩
    Updates locks 1 (some .write) ⟨3, 5, by decide, by decide⟩ after ∧
      after.map (fun lock => (lock.lockType, lock.range.start, lock.range.stop)) =
        [(.read, 0, 2), (.read, 6, 9), (.write, 3, 5)] :=
  ⟨(replaceOwnerRange_updates (normal_nil.replaceOwnerRange ..) ..).1, by decide⟩

end

end

/-! ## Exclusion -/

/-- Locks are sorted and apart, a byte has one type for an owner, and writers of a
byte are alone. -/
structure Sound (locks : List PosixLock) : Prop extends Normal locks where
  exclusive : ∀ pid other byte first second, pid ≠ other → Holds locks pid first byte →
    Holds locks other second byte → first = .read ∧ second = .read

theorem sound_nil : Sound [] := ⟨normal_nil, by simp [Holds]⟩

section

variable {locks : List PosixLock}

theorem minByStart_eq_none : minByStart locks = none ↔ locks = [] := by
  cases locks with
  | nil => simp
  | cons lock rest =>
    rw [minByStart]
    split
    · simp
    · split
      · simp
      · simp

theorem mem_of_minByStart {best : PosixLock} (hbest : minByStart locks = some best) :
    best ∈ locks := by
  induction locks generalizing best with
  | nil => simp at hbest
  | cons lock rest ih =>
    rw [minByStart] at hbest
    split at hbest
    · simp_all
    · split at hbest
      · simp_all
      · simp_all

/-- A reported lock, taken as a request, is for the range of the lock. -/
theorem normalizeRange_conflictToUser {φ : Type*} (file : FileView φ) (lock : PosixLock) :
    normalizeRange file (conflictToUser lock).toUserFlock = .ok lock.range := by
  have hordered := lock.range.ordered
  have hbounded := lock.range.bounded
  rw [normalizeRange, conflictToUser, rangeBase, if_pos rfl]
  simp only [rangeFrom, zero_add]
  rw [dif_pos ⟨by omega, by omega⟩]
  by_cases hstop : lock.range.stop = offsetMax
  · rw [if_pos hstop, if_pos rfl]
    exact congrArg _ (Range.ext (by simp) hstop.symm)
  · rw [if_neg hstop, if_neg (by omega), dif_pos (by omega), dif_pos (by omega)]
    exact congrArg _ (Range.ext (by simp) (by simp))

theorem read_of_firstConflict {pid other byte : ℕ} {lockType existing : LockType}
    {range : ByteRange} (hfree : firstConflict locks pid lockType range = none)
    (hother : other ≠ pid) (hholds : Holds locks other existing byte) (hbyte : byte ∈ range) :
    existing = .read ∧ lockType = .read := by
  rw [firstConflict, minByStart_eq_none, filter_eq_nil_iff] at hfree
  obtain ⟨lock, hlock, rfl, rfl, hmem⟩ := hholds
  have hnone : ¬(lock.lockType = .write ∨ lockType = .write) := by
    intro hwrite
    apply hfree lock hlock
    simp only [conflicts, decide_eq_true_eq]
    exact ⟨hother, Range.overlaps_iff.mpr ⟨byte, hmem, hbyte⟩, hwrite⟩
  rw [not_or] at hnone
  constructor
  · cases htype : lock.lockType with
    | read => rfl
    | write => exact absurd htype hnone.1
  · cases htype : lockType with
    | read => rfl
    | write => exact absurd htype hnone.2

theorem Sound.replaceOwnerRange {pid : ℕ} {request : Option LockType} {range : ByteRange}
    (hsound : Sound locks)
    (hfree : ∀ lockType, request = some lockType → firstConflict locks pid lockType range = none) :
    Sound (replaceOwnerRange locks pid request range) where
  toNormal := hsound.toNormal.replaceOwnerRange pid request range
  exclusive owner other byte first second hne hfirst hsecond := by
    rw [holds_replaceOwnerRange] at hfirst hsecond
    rcases hfirst with ⟨hold, -⟩ | ⟨rfl, hrequest, hbyte⟩
    · rcases hsecond with ⟨hold', -⟩ | ⟨rfl, hrequest, hbyte⟩
      · exact hsound.exclusive owner other byte first second hne hold hold'
      · exact read_of_firstConflict (hfree second hrequest) hne hold hbyte
    · rcases hsecond with ⟨hold, -⟩ | ⟨rfl, -, -⟩
      · exact (read_of_firstConflict (hfree first hrequest) (Ne.symm hne) hold hbyte).symm
      · exact absurd rfl hne

theorem Holds.of_filter {keep : PosixLock → Bool} {pid byte : ℕ} {lockType : LockType}
    (hholds : Holds (locks.filter keep) pid lockType byte) : Holds locks pid lockType byte := by
  obtain ⟨lock, hlock, howner⟩ := hholds
  exact ⟨lock, mem_of_mem_filter hlock, howner⟩

theorem Sound.filter (hsound : Sound locks) (keep : PosixLock → Bool) :
    Sound (locks.filter keep) where
  apart := hsound.apart.sublist (filter_sublist.map _)
  single pid byte first second hfirst hsecond :=
    hsound.single pid byte first second hfirst.of_filter hsecond.of_filter
  exclusive pid other byte first second hne hfirst hsecond :=
    hsound.exclusive pid other byte first second hne hfirst.of_filter hsecond.of_filter

/-- No byte is covered by locks of two owners one of which writes. -/
def Exclusive (locks : List PosixLock) : Prop :=
  ∀ first ∈ locks, ∀ second ∈ locks, first.ownerPid ≠ second.ownerPid →
    ∀ byte ∈ first.range, byte ∈ second.range → first.lockType ≠ .write ∧ second.lockType ≠ .write

/-- The locks of an owner are sorted by type and start, pairwise disjoint, and
locks of one type do not touch. -/
def Canonical (locks : List PosixLock) (pid : ℕ) : Prop :=
  (locks.filter fun lock => lock.ownerPid = pid).Pairwise fun first second =>
    (first.lockType.code < second.lockType.code ∨
        first.lockType = second.lockType ∧ first.range.start < second.range.start) ∧
      ¬first.range.Overlaps second.range ∧
      (first.lockType = second.lockType → first.range.stop + 1 ≠ second.range.start ∧
        second.range.stop + 1 ≠ first.range.start)

theorem Sound.toExclusive (hsound : Sound locks) : Exclusive locks := by
  intro first hfirst second hsecond hne byte hbyte hother
  obtain ⟨hread, hread'⟩ := hsound.exclusive first.ownerPid second.ownerPid byte first.lockType
    second.lockType hne ⟨first, hfirst, rfl, rfl, hbyte⟩ ⟨second, hsecond, rfl, rfl, hother⟩
  rw [hread, hread']
  simp

theorem Sound.canonical (hsound : Sound locks) (pid : ℕ) : Canonical locks pid := by
  have happart := pairwise_map.mp hsound.apart
  refine (happart.sublist filter_sublist).imp_of_mem ?_
  intro first second hfirst hsecond hapart
  obtain ⟨hmem, howner⟩ := mem_filter.mp hfirst
  obtain ⟨hmem', howner'⟩ := mem_filter.mp hsecond
  have hsame : first.ownerPid = second.ownerPid := by simp_all
  have hordered := first.range.ordered
  have hordered' := second.range.ordered
  rcases hapart with hlt | ⟨heq, hgap⟩
  · have hcode : first.lockType.code < second.lockType.code := by
      rcases PosixLock.label_lt_iff.mp hlt with howners | ⟨-, hcode⟩
      · exact absurd hsame howners.ne
      · exact hcode
    have htype : first.lockType ≠ second.lockType := fun htype => hcode.ne (by rw [htype])
    refine ⟨.inl hcode, ?_, fun htypes => absurd htypes htype⟩
    intro hoverlaps
    obtain ⟨byte, hbyte, hother⟩ := Range.overlaps_iff.mp hoverlaps
    exact htype (hsound.single first.ownerPid byte first.lockType second.lockType
      ⟨first, hmem, rfl, rfl, hbyte⟩ ⟨second, hmem', hsame.symm, rfl, hother⟩)
  · have htype := (PosixLock.label_eq_iff.mp heq).2
    have hgap' : first.range.stop + 1 < second.range.start := hgap
    refine ⟨.inr ⟨htype, by omega⟩, ?_, fun _ => ⟨by omega, by omega⟩⟩
    rintro ⟨-, hstart⟩
    omega

end

/-! ## The table -/

namespace RecordLockTable

variable {φ τ : Type*} [DecidableEq φ]

def locks (table : RecordLockTable φ τ) (key : φ) : List PosixLock := (table.entry key).locks

def Sound (table : RecordLockTable φ τ) : Prop := ∀ key, RecordLock.Sound (table.locks key)

variable {table : RecordLockTable φ τ} {key : φ}

section

variable {inode : InodeLocks τ}

theorem locks_put_self : (table.put key inode).locks key = inode.locks := by
  simp only [locks, entry, put, update_self]
  split
  · next hempty =>
    simp only [InodeLocks.isEmpty, Bool.and_eq_true, List.isEmpty_iff] at hempty
    rw [hempty.1.1.1]
    rfl
  · rfl

theorem locks_put_of_ne {other : φ} (hother : other ≠ key) :
    (table.put key inode).locks other = table.locks other := by
  simp only [locks, entry, put, update_of_ne hother]

theorem locks_put (hlocks : inode.locks = table.locks key) (other : φ) :
    (table.put key inode).locks other = table.locks other := by
  by_cases hother : other = key
  · rw [hother, locks_put_self, hlocks]
  · exact locks_put_of_ne hother

theorem locks_insert (hlocks : inode.locks = table.locks key) (other : φ) :
    (table.insert key inode).locks other = table.locks other := by
  by_cases hother : other = key
  · subst other
    rw [← hlocks]
    simp [locks, entry, insert]
  · simp only [locks, entry, insert, update_of_ne hother]

end

theorem locks_dropOwner_self (pid : ℕ) (key : φ) : (table.dropOwner pid key).locks key =
      (table.locks key).filter fun lock => lock.ownerPid ≠ pid := by
  rw [dropOwner]
  split
  · next hnone => simp [locks, entry, hnone]
  · next inode hsome =>
    simp only
    rw [locks_put_self]
    simp [locks, entry, hsome]

theorem locks_dropOwner_of_ne {pid : ℕ} {other : φ} (hother : other ≠ key) :
    (table.dropOwner pid key).locks other = table.locks other := by
  rw [dropOwner]
  split
  · rfl
  · simp only
    rw [locks_put_of_ne hother]

theorem locks_releaseProcessRecordLocks (pid : ℕ) (key : φ) :
    (table.releaseProcessRecordLocks pid).locks key =
      (table.locks key).filter fun lock => lock.ownerPid ≠ pid := by
  rw [← locks_dropOwner_self]
  rfl

section Steps

variable [DecidableEq τ]

theorem locks_forgetWaiter (alive : τ → Bool) (task : τ) (other : φ) :
    (table.forgetWaiter alive key task).locks other = table.locks other := by
  rw [forgetWaiter]
  split
  · rfl
  · next inode hsome =>
    refine locks_put ?_ other
    simp [locks, entry, hsome, InodeLocks.removeWaiter]

omit [DecidableEq φ] [DecidableEq τ] in
theorem cacheInodeId_of_checkRequest
    {file : FileView φ} {requested : UserFlock} {request : Option LockType} {range : ByteRange}
    (hcheck : checkRequest file requested = .ok (key, request, range)) :
    file.cacheInodeId = some key := by
  unfold checkRequest at hcheck
  split at hcheck
  · simp at hcheck
  · split at hcheck
    · simp at hcheck
    · split at hcheck
      · simp at hcheck
      · split at hcheck
        · simp at hcheck
        · next place hplace =>
          split at hcheck
          · simp at hcheck
          · rw [hplace]
            simp_all

def LockStep.Requests (pid : ℕ) (key : φ) : LockStep φ τ → Prop
  | .attempt owner _ _ file _ _ => owner = pid ∧ file.cacheInodeId = some key
  | _ => False

/-- A step drops locks of a file, or a request puts a lock into a range without
conflicts. -/
theorem locks_next {s' : RecordLockTable φ τ} {step : LockStep φ τ}
    (hstep : table.next step = some s') (key : φ) :
    (∃ keep, s'.locks key = (table.locks key).filter keep) ∨
      ∃ pid request range, step.Requests pid key ∧
        (∀ lockType, request = some lockType →
          firstConflict (table.locks key) pid lockType range = none) ∧
        s'.locks key = replaceOwnerRange (table.locks key) pid request range := by
  have hsame {after : RecordLockTable φ τ} (hlocks : after.locks key = table.locks key) :
      ∃ keep, after.locks key = (table.locks key).filter keep :=
    ⟨fun _ => true, by rw [hlocks, filter_true]⟩
  cases step with
  | attempt pid task alive file requested blocking =>
    cases hstep
    rw [RecordLockTable.attempt]
    split
    · exact .inl (hsame rfl)
    · next place request range hcheck =>
      simp only
      split
      · next hfree =>
        by_cases hkey : key = place
        · subst place
          refine .inr ⟨pid, request, range, ⟨rfl, cacheInodeId_of_checkRequest hcheck⟩, ?_,
            locks_put_self⟩
          rintro lockType rfl
          exact isNone_iff_eq_none.mp hfree
        · exact .inl (hsame (locks_put_of_ne hkey))
      · split <;> exact .inl (hsame (locks_insert (by rfl) key))
  | interrupted alive place task =>
    cases hstep
    exact .inl (hsame (locks_forgetWaiter alive task key))
  | close pid file =>
    cases hstep
    rw [releaseProcessFileLocks]
    split
    · exact .inl (hsame rfl)
    · next place hplace =>
      by_cases hkey : key = place
      · subst place
        exact .inl ⟨_, locks_dropOwner_self pid key⟩
      · exact .inl (hsame (locks_dropOwner_of_ne hkey))
  | exit pid =>
    cases hstep
    exact .inl ⟨_, locks_releaseProcessRecordLocks pid key⟩
  | flock place locks waiters =>
    cases hstep
    exact .inl (hsame (locks_put (by rfl) key))

theorem Sound.next {s' : RecordLockTable φ τ} {step : LockStep φ τ} (hsound : table.Sound)
    (hstep : table.next step = some s') : s'.Sound := by
  intro key
  rcases locks_next hstep key with ⟨keep, hlocks⟩ | ⟨pid, request, range, -, hfree, hlocks⟩
  · rw [hlocks]
    exact (hsound key).filter keep
  · rw [hlocks]
    exact (hsound key).replaceOwnerRange hfree

/-! ## Owners -/

def OwnsNothing (table : RecordLockTable φ τ) (pid : ℕ) (key : φ) : Prop :=
  ∀ lock ∈ table.locks key, lock.ownerPid ≠ pid

theorem OwnsNothing.next {pid : ℕ} {s' : RecordLockTable φ τ} {step : LockStep φ τ}
    (hnothing : table.OwnsNothing pid key) (hrequests : ¬step.Requests pid key)
    (hstep : table.next step = some s') : s'.OwnsNothing pid key := by
  intro lock hlock howner
  rcases locks_next hstep key with ⟨keep, hlocks⟩ | ⟨owner, request, range, hrequest, -, hlocks⟩
  · rw [hlocks] at hlock
    exact hnothing lock (mem_of_mem_filter hlock) howner
  · rw [hlocks] at hlock
    have hholds : Holds (replaceOwnerRange (table.locks key) owner request range) pid
        lock.lockType lock.range.start := ⟨lock, hlock, howner, rfl, lock.range.start_mem⟩
    rw [holds_replaceOwnerRange] at hholds
    rcases hholds with ⟨⟨old, hold, howner', -⟩, -⟩ | ⟨rfl, -⟩
    · exact hnothing old hold howner'
    · exact hrequests hrequest

omit [DecidableEq τ] in
theorem ownsNothing_releaseProcessFileLocks {pid : ℕ} {file : FileView φ}
    (hkey : file.cacheInodeId = some key) :
    (table.releaseProcessFileLocks pid file).OwnsNothing pid key := by
  intro lock hlock
  rw [releaseProcessFileLocks, hkey, locks_dropOwner_self] at hlock
  simpa using (mem_filter.mp hlock).2

omit [DecidableEq τ] in
theorem ownsNothing_releaseProcessRecordLocks (pid : ℕ) :
    (table.releaseProcessRecordLocks pid).OwnsNothing pid key := by
  intro lock hlock
  rw [locks_releaseProcessRecordLocks] at hlock
  simpa using (mem_filter.mp hlock).2

theorem attempt_failed {pid : ℕ} {task : τ} {alive : τ → Bool} {file : FileView φ}
    {requested : UserFlock} {error : SysError}
    (hfailed : (table.attempt pid task alive file requested false).2.1 = .returned (.error error)) :
    (table.attempt pid task alive file requested false).1 = table := by
  rw [RecordLockTable.attempt] at hfailed ⊢
  split
  · rfl
  · next place request range hcheck =>
    rw [hcheck] at hfailed
    simp only at hfailed ⊢
    split
    · next hfree =>
      rw [if_pos hfree] at hfailed
      simp at hfailed
    · next hconflict =>
      have hsome : table.inodes place = some (table.entry place) := by
        cases hplace : table.inodes place with
        | some inode => simp [entry, hplace]
        | none =>
          refine absurd ?_ hconflict
          have hempty : (table.entry place).locks = [] := by
            simp [entry, hplace]
          cases request with
          | none => rfl
          | some lockType => simp [hempty, firstConflict]
      rw [if_pos trivial, RecordLockTable.insert, ← hsome, update_eq_self]

end Steps

end RecordLockTable

/-! ## Runs of calls -/

namespace LockConfig

variable {φ τ : Type*} [DecidableEq φ] [DecidableEq τ] {config s s' : LockConfig φ τ}

/-- No call of the process for the file is in progress. -/
def Free (config : LockConfig φ τ) (pid : ℕ) (key : φ) : Prop :=
  ∀ task, ∀ call ∈ config.call task, call.pid = pid → call.file.cacheInodeId ≠ some key

/-- A process closes a file, and exits, when no lock call of it is in progress. -/
def Careful (config : LockConfig φ τ) : CallStep φ τ → Prop
  | .close pid file => ∀ key ∈ file.cacheInodeId, config.Free pid key
  | .exit pid => ∀ task, ∀ call ∈ config.call task, call.pid ≠ pid
  | _ => True

/-- What a step does to the table is a step of the table, or nothing. -/
theorem table_next {step : CallStep φ τ} (hstep : s.next step = some s') :
    s'.table = s.table ∨ ∃ label, s.table.next label = some s'.table ∧
      ∀ pid key, label.Requests pid key → ¬s.Free pid key := by
  cases step with
  | call task call =>
    simp only [next] at hstep
    split_ifs at hstep
    cases hstep
    exact .inl rfl
  | round task alive =>
    obtain ⟨call, hcall, rfl⟩ := map_eq_some_iff.mp hstep
    refine .inr ⟨.attempt call.pid task alive call.file call.requested call.blocking, rfl, ?_⟩
    rintro pid key ⟨hpid, hkey⟩ hfree
    exact hfree task call hcall hpid hkey
  | interrupted task alive =>
    obtain ⟨call, -, hmap⟩ := bind_eq_some_iff.mp hstep
    obtain ⟨key, -, rfl⟩ := map_eq_some_iff.mp hmap
    exact .inr ⟨.interrupted alive key task, rfl, fun _ _ h => h.elim⟩
  | close pid file =>
    cases hstep
    exact .inr ⟨.close pid file, rfl, fun _ _ h => h.elim⟩
  | exit pid =>
    cases hstep
    exact .inr ⟨.exit pid, rfl, fun _ _ h => h.elim⟩
  | flock key locks waiters =>
    cases hstep
    exact .inr ⟨.flock key locks waiters, rfl, fun _ _ h => h.elim⟩

theorem tableSound_of_reachable {admits : LockConfig φ τ → CallStep φ τ → Prop}
    (hreach : Reachable next admits start config) : config.table.Sound := by
  induction hreach with
  | start => exact fun _ => sound_nil
  | step label _ _ hstep ih =>
    rcases table_next hstep with htable | ⟨label, htable, -⟩
    · rwa [htable]
    · exact ih.next htable

/-- A closed file is not locked, and no call is on its way to lock it. -/
def Settled (s : LockConfig φ τ) : Prop :=
  ∀ pid key, s.closed pid key = true → s.table.OwnsNothing pid key ∧ s.Free pid key

omit [DecidableEq φ] in
/-- The call of one task is replaced by nothing, or by a call which is not for the file. -/
theorem Free.update {pid : ℕ} {key : φ} {task : τ} {call : Option (LockCall φ)}
    (hfree : s.Free pid key)
    (hcall : ∀ new ∈ call, new.pid = pid → new.file.cacheInodeId ≠ some key)
    (hcalls : s'.call = Function.update s.call task call) : s'.Free pid key := by
  intro other new hnew
  rw [hcalls] at hnew
  by_cases hother : other = task
  · subst hother
    exact hcall new (by rwa [update_self] at hnew)
  · rw [update_of_ne hother] at hnew
    exact hfree other new hnew

theorem Settled.next {step : CallStep φ τ} (hsettled : s.Settled) (hcareful : s.Careful step)
    (hstep : s.next step = some s') : s'.Settled := by
  -- Without a call of the process, a step leaves a file which it does not own unlocked.
  have hkeeps {pid : ℕ} {key : φ} (hclosed : s.closed pid key = true) :
      s'.table.OwnsNothing pid key := by
    obtain ⟨hnothing, hfree⟩ := hsettled pid key hclosed
    rcases table_next hstep with htable | ⟨label, htable, hrequests⟩
    · rwa [htable]
    · exact hnothing.next (fun h => hrequests pid key h hfree) htable
  intro pid key hclosed
  cases step with
  | call task call =>
    simp only [LockConfig.next] at hstep
    split_ifs at hstep
    cases hstep
    simp only [Bool.and_eq_true, Bool.not_eq_true', Bool.and_eq_false_iff, beq_eq_false_iff_ne,
      ne_eq] at hclosed
    obtain ⟨hbefore, hother⟩ := hclosed
    refine ⟨hkeeps hbefore, (hsettled pid key hbefore).2.update ?_ rfl⟩
    rintro _ ⟨⟩ hpid hkey
    exact hother.elim (fun h => h hpid.symm) (fun h => h hkey)
  | round task alive =>
    obtain ⟨call, hcall, rfl⟩ := map_eq_some_iff.mp hstep
    have hfree := (hsettled pid key hclosed).2
    refine ⟨hkeeps hclosed, ?_⟩
    cases houtcome : (s.table.attempt call.pid task alive call.file call.requested
        call.blocking).2.1 with
    | waits => simpa only [Free, houtcome] using hfree
    | returned result =>
      have hended : Free { s with call := Function.update s.call task none } pid key :=
        hfree.update (by simp) rfl
      simpa only [Free, houtcome] using hended
  | interrupted task alive =>
    obtain ⟨call, -, hmap⟩ := bind_eq_some_iff.mp hstep
    obtain ⟨place, -, rfl⟩ := map_eq_some_iff.mp hmap
    exact ⟨hkeeps hclosed, (hsettled pid key hclosed).2.update (by simp) rfl⟩
  | close owner file =>
    cases hstep
    simp only [Bool.or_eq_true, Bool.and_eq_true, beq_iff_eq] at hclosed
    rcases hclosed with hbefore | ⟨rfl, hkey⟩
    · exact ⟨hkeeps hbefore, (hsettled pid key hbefore).2⟩
    · exact ⟨RecordLockTable.ownsNothing_releaseProcessFileLocks hkey, hcareful key hkey⟩
  | exit owner =>
    cases hstep
    simp only [Bool.or_eq_true, beq_iff_eq] at hclosed
    rcases hclosed with hbefore | rfl
    · exact ⟨hkeeps hbefore, (hsettled pid key hbefore).2⟩
    · exact ⟨RecordLockTable.ownsNothing_releaseProcessRecordLocks pid,
        fun task call hcall hpid => absurd hpid (hcareful task call hcall)⟩
  | flock place locks waiters =>
    cases hstep
    exact ⟨hkeeps hclosed, (hsettled pid key hclosed).2⟩

/-- In every run of calls, closes and exits: locks exclude each other and are in canonical
form, and a failed request changes nothing.  A process which has closed a file or has exited
owns no lock on it, if no call of it was waiting then. -/
theorem recordLocks_sound (hreach : Reachable next Careful start config) :
    (∀ key, Exclusive (config.table.locks key) ∧
      ∀ pid, Canonical (config.table.locks key) pid) ∧
    (∀ pid task alive file requested error,
      (config.table.attempt pid task alive file requested false).2.1 = .returned (.error error) →
        (config.table.attempt pid task alive file requested false).1 = config.table) ∧
    ∀ pid key, config.closed pid key = true → config.table.OwnsNothing pid key := by
  have hsound := tableSound_of_reachable hreach
  have hsettled : config.Settled :=
    hreach.invariant (by simp [Settled, start]) fun _ _ _ hbefore hcareful hstep =>
      hbefore.next hcareful hstep
  exact ⟨fun key => ⟨(hsound key).toExclusive, (hsound key).canonical⟩,
    fun _ _ _ _ _ _ => RecordLockTable.attempt_failed, fun pid key h => (hsettled pid key h).1⟩

instance [Fintype τ] (config : LockConfig φ τ) (step : CallStep φ τ) :
    Decidable (config.Careful step) := by
  unfold Careful Free
  cases step <;> infer_instance

def sharedFile : FileView ℕ := ⟨some 0, true, true, 0, some 0⟩

/-- The first task locks the file, and the second one has to wait for it. -/
def waitingRun : List (CallStep ℕ (Fin 2)) :=
  [.call i₀ ⟨1, sharedFile, ⟨1, 0, 0, 10⟩, false⟩, .round i₀ fun _ => true,
    .call i₁ ⟨2, sharedFile, ⟨0, 0, 5, 10⟩, true⟩, .round i₁ fun _ => true]

theorem recordLocks_sound_after_close : ∃ config : LockConfig ℕ (Fin 2),
    Reachable next Careful start config ∧ config.closed 1 0 = true ∧
      (config.table.locks 0).length = 1 ∧ config.table.OwnsNothing 1 0 ∧
        Exclusive (config.table.locks 0) := by
  obtain ⟨config, hreach, hclosed, hlength⟩ : ∃ config : LockConfig ℕ (Fin 2),
      Reachable next Careful start config ∧ config.closed 1 0 = true ∧
        (config.table.locks 0).length = 1 :=
    exists_reachable_of_runSteps (waitingRun ++ [.close 1 sharedFile, .round 1 fun _ => true])
      (by decide +kernel)
  obtain ⟨hlocks, -, hnothing⟩ := recordLocks_sound hreach
  exact ⟨config, hreach, hclosed, hlength, hnothing 1 0 hclosed, (hlocks 0).1⟩

/-- The waiting process closes the file, and is granted the lock afterwards. -/
theorem not_ownsNothing_of_waiting : ∃ config : LockConfig ℕ (Fin 2),
    Reachable next always start config ∧ config.closed 2 0 = true ∧
      ¬config.table.OwnsNothing 2 0 := by
  obtain ⟨config, hreach, hclosed, lock, hlock, howner⟩ : ∃ config : LockConfig ℕ (Fin 2),
      Reachable next always start config ∧ config.closed 2 0 = true ∧
        ∃ lock ∈ config.table.locks 0, lock.ownerPid = 2 :=
    exists_reachable_of_runSteps (waitingRun ++ [.close 2 sharedFile, .close 1 sharedFile,
      .round 1 fun _ => true]) (by decide +kernel)
  exact ⟨config, hreach, hclosed, fun hnothing => hnothing lock hlock howner⟩

end LockConfig

namespace RecordLockTable

section Queries

variable {φ τ : Type*} [DecidableEq φ] [DecidableEq τ] {table : RecordLockTable φ τ} {key : φ}

/-! ## Queries -/

omit [DecidableEq φ] [DecidableEq τ] in
theorem firstConflict_entry (pid : ℕ) (lockType : LockType) (range : ByteRange) :
    ((table.inodes key).bind fun inode => firstConflict inode.locks pid lockType range) =
      firstConflict (table.entry key).locks pid lockType range := by
  cases hinode : table.inodes key with
  | none => simp [entry, hinode, firstConflict]
  | some inode => simp [entry, hinode]

theorem getLock_agrees (table : RecordLockTable φ τ) (pid : ℕ) (task : τ) (alive : τ → Bool)
    (file : FileView φ) (requested : OwnedFlock) (hlock : requested.lockType ≠ 2)
    (hread : requested.lockType = 0 → file.readable = true)
    (hwrite : requested.lockType = 1 → file.writable = true) :
    match table.getLock pid file requested with
    | .error error => (table.attempt pid task alive file requested.toUserFlock false).2.1 =
        .returned (.error error)
    | .ok reply =>
      (reply.lockType = 2 ↔ (table.attempt pid task alive file requested.toUserFlock false).2.1 =
          .returned (.ok 0)) ∧
      (reply.lockType ≠ 2 → ∃ key lockType range, file.cacheInodeId = some key ∧
        parseLockType requested.lockType = .ok (some lockType) ∧
        normalizeRange file requested.toUserFlock = .ok range ∧
        ∃ lock ∈ table.locks key, conflicts pid lockType range lock = true ∧
          reply = conflictToUser lock ∧
            normalizeRange file reply.toUserFlock = .ok lock.range) := by
  cases hparse : parseLockType requested.lockType with
  | error error => simp [getLock, attempt, checkRequest, hparse]
  | ok request =>
    obtain ⟨lockType, rfl, hreads, hwrites⟩ : ∃ lockType, request = some lockType ∧
        ¬(request = some .read ∧ file.readable = false) ∧
        ¬(request = some .write ∧ file.writable = false) := by
      simp only [parseLockType] at hparse
      split_ifs at hparse with hzero hone <;> cases hparse
      · exact ⟨.read, rfl, by simp [hread hzero], by simp⟩
      · exact ⟨.write, rfl, by simp, by simp [hwrite hone]⟩
    simp only [getLock, attempt, checkRequest, hparse, if_neg hreads, if_neg hwrites]
    cases hkey : file.cacheInodeId with
    | none => rfl
    | some key =>
      cases hrange : normalizeRange file requested.toUserFlock with
      | error error => rfl
      | ok range =>
        simp only [firstConflict_entry, all_some]
        rcases eq_none_or_eq_some
          (firstConflict (table.entry key).locks pid lockType range) with hfirst | ⟨lock, hfirst⟩
        · simp [hfirst]
        · obtain ⟨hmem, hconflict⟩ := mem_filter.mp (mem_of_minByStart hfirst)
          have htype : (conflictToUser lock).lockType ≠ 2 := by
            rw [conflictToUser]
            cases lock.lockType <;> simp
          simp only [hfirst, elim_some]
          refine ⟨iff_of_false htype (by simp), fun _ => ?_⟩
          exact ⟨key, lockType, range, rfl, rfl, rfl, lock, hmem, hconflict, rfl,
            normalizeRange_conflictToUser file lock⟩

theorem getLock_agrees_after_write_lock :
    let file : FileView Unit := ⟨some (), true, true, 0, some 0⟩
    let table : RecordLockTable Unit Unit :=
      (start.attempt 1 () (fun _ => true) file ⟨1, 0, 10, 0⟩ false).1
    ∃ reply, table.getLock 2 file ⟨⟨0, 0, 30, -10⟩, 0⟩ = .ok reply ∧ reply.lockType = 1 ∧
      (reply.lockType = 2 ↔ (table.attempt 2 () (fun _ => true) file ⟨0, 0, 30, -10⟩ false).2.1 =
          .returned (.ok 0)) := by
  intro file table
  have hagrees := getLock_agrees table 2 () (fun _ => true) file ⟨⟨0, 0, 30, -10⟩, 0⟩
    (by simp) (by simp [file]) (by simp)
  exact ⟨_, rfl, rfl, And.left hagrees⟩

/-- A write lock on a file which is not open for writing is free, but not granted. -/
theorem not_getLock_agrees_of_read_only :
    ¬ ∀ (table : RecordLockTable Unit Unit) (pid : ℕ) (file : FileView Unit)
      (requested : OwnedFlock),
      (∃ reply, table.getLock pid file requested = .ok reply ∧ reply.lockType = 2) ↔
        (table.attempt pid () (fun _ => true) file requested.toUserFlock false).2.1 =
          .returned (.ok 0) := by
  intro hagrees
  have hgranted := (hagrees start 1 ⟨some (), true, false, 0, some 0⟩ ⟨⟨1, 0, 0, 0⟩, 0⟩).mp
    ⟨_, rfl, rfl⟩
  cases hgranted

end Queries

end RecordLockTable

end Kairix.RecordLock
