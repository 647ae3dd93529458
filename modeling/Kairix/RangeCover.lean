import Mathlib.Data.List.Sort
import Mathlib.Order.Defs.LinearOrder
import Mathlib.Tactic

/-!
# Labelled ranges

Closed ranges of points up to a bound carry labels.  A list of them covers points
with labels; cutting a range out of some labels and merging ranges of one label
change the list, and what it covers in the obvious way.
-/

namespace RangeCover

open List

/-- A closed range which is not empty and stays below a bound. -/
@[ext]
structure Range (bound : ℕ) where
  start : ℕ
  stop : ℕ
  ordered : start ≤ stop
  bounded : stop ≤ bound
  deriving DecidableEq

namespace Range

variable {bound : ℕ}

instance : Membership ℕ (Range bound) where
  mem range point := range.start ≤ point ∧ point ≤ range.stop

variable {range : Range bound}

theorem mem_iff {point : ℕ} : point ∈ range ↔ range.start ≤ point ∧ point ≤ range.stop := Iff.rfl

theorem start_mem (range : Range bound) : range.start ∈ range := ⟨le_rfl, range.ordered⟩

def Overlaps (first second : Range bound) : Prop :=
  first.start ≤ second.stop ∧ second.start ≤ first.stop

instance (first second : Range bound) : Decidable (first.Overlaps second) :=
  inferInstanceAs (Decidable (_ ∧ _))

theorem overlaps_iff {first second : Range bound} :
    first.Overlaps second ↔ ∃ point, point ∈ first ∧ point ∈ second := by
  have hfirst := first.ordered
  have hsecond := second.ordered
  constructor
  · rintro ⟨hstop, hstart⟩
    exact ⟨max first.start second.start, by simp only [mem_iff]; omega,
      by simp only [mem_iff]; omega⟩
  · rintro ⟨point, hin, hother⟩
    simp only [mem_iff] at hin hother
    exact ⟨by omega, by omega⟩

def below (range cut : Range bound) (hstart : range.start < cut.start) : Range bound where
  start := range.start
  stop := cut.start - 1
  ordered := by omega
  bounded := by
    have hordered := cut.ordered
    have hbounded := cut.bounded
    omega

def above (range cut : Range bound) (hstop : cut.stop < range.stop) : Range bound where
  start := cut.stop + 1
  stop := range.stop
  ordered := hstop
  bounded := range.bounded

/-- What is left of a range after another one has been cut out. -/
def without (range cut : Range bound) : List (Range bound) :=
  (if hstart : range.start < cut.start then [range.below cut hstart] else []) ++
    if hstop : cut.stop < range.stop then [range.above cut hstop] else []

theorem exists_mem_without {cut : Range bound} (hoverlaps : range.Overlaps cut) (point : ℕ) :
    (∃ part ∈ range.without cut, point ∈ part) ↔ point ∈ range ∧ point ∉ cut := by
  have hcut := cut.ordered
  obtain ⟨hfirst, hsecond⟩ := hoverlaps
  constructor
  · rintro ⟨part, hpart, hpoint⟩
    rw [without, mem_append] at hpart
    rcases hpart with hbelow | habove
    · split at hbelow
      · next hstart =>
        obtain rfl := mem_singleton.mp hbelow
        simp only [mem_iff, below] at hpoint ⊢
        omega
      · simp at hbelow
    · split at habove
      · next hstop =>
        obtain rfl := mem_singleton.mp habove
        simp only [mem_iff, above] at hpoint ⊢
        omega
      · simp at habove
  · rintro ⟨hrange, hnot⟩
    simp only [mem_iff] at hrange hnot
    by_cases hpoint : point < cut.start
    · have hstart : range.start < cut.start := by omega
      refine ⟨range.below cut hstart, by simp [without, hstart], ?_⟩
      simp only [mem_iff, below]
      omega
    · have hstop : cut.stop < range.stop := by omega
      refine ⟨range.above cut hstop, by simp [without, hstop], ?_⟩
      simp only [mem_iff, above]
      omega

def extend (range other : Range bound) : Range bound where
  start := range.start
  stop := max range.stop other.stop
  ordered := range.ordered.trans (le_max_left _ _)
  bounded := max_le range.bounded other.bounded

theorem mem_extend {other : Range bound} (hstart : range.start ≤ other.start)
    (htouch : other.start ≤ range.stop + 1) (point : ℕ) :
    point ∈ range.extend other ↔ point ∈ range ∨ point ∈ other := by
  have hrange := range.ordered
  have hother := other.ordered
  simp only [mem_iff, extend]
  omega

end Range

/-! ## Lists of labelled ranges -/

structure Labelled (γ : Type*) (bound : ℕ) where
  label : γ
  range : Range bound
  deriving DecidableEq

variable {γ : Type*} {bound : ℕ}

def Covers (pieces : List (Labelled γ bound)) (label : γ) (point : ℕ) : Prop :=
  ∃ piece ∈ pieces, piece.label = label ∧ point ∈ piece.range

variable {label : γ} {point : ℕ}

theorem covers_append {first second : List (Labelled γ bound)} :
    Covers (first ++ second) label point ↔
      Covers first label point ∨ Covers second label point := by
  simp only [Covers, mem_append, or_and_right, exists_or]

variable {piece : Labelled γ bound} {rest : List (Labelled γ bound)}

theorem covers_cons : Covers (piece :: rest) label point ↔
      (piece.label = label ∧ point ∈ piece.range) ∨ Covers rest label point := by
  simp [Covers]

theorem covers_of_perm {first second : List (Labelled γ bound)} (hperm : first.Perm second) :
    Covers first label point ↔ Covers second label point := by
  simp only [Covers, hperm.mem_iff]

def carve (cuts : γ → Bool) (cut : Range bound) (pieces : List (Labelled γ bound)) :
    List (Labelled γ bound) :=
  pieces.flatMap fun piece =>
    if cuts piece.label = true ∧ piece.range.Overlaps cut then
      (piece.range.without cut).map fun range => ⟨piece.label, range⟩
    else [piece]

theorem covers_carve (cuts : γ → Bool) (cut : Range bound) (pieces : List (Labelled γ bound))
    (label : γ) (point : ℕ) :
    Covers (carve cuts cut pieces) label point ↔
      Covers pieces label point ∧ ¬(cuts label = true ∧ point ∈ cut) := by
  induction pieces with
  | nil => simp [Covers, carve]
  | cons piece rest ih =>
    rw [carve, flatMap_cons, covers_append, covers_cons, or_and_right]
    refine or_congr ?_ ih
    split
    · next hcut =>
      have hparts := Range.exists_mem_without hcut.2 point
      constructor
      · rintro ⟨other, hother, rfl, hpoint⟩
        obtain ⟨part, hpart, rfl⟩ := mem_map.mp hother
        obtain ⟨hrange, hnot⟩ := hparts.mp ⟨part, hpart, hpoint⟩
        exact ⟨⟨rfl, hrange⟩, fun hboth => hnot hboth.2⟩
      · rintro ⟨⟨rfl, hrange⟩, hnot⟩
        obtain ⟨part, hpart, hpoint⟩ := hparts.mpr ⟨hrange, fun hmem => hnot ⟨hcut.1, hmem⟩⟩
        exact ⟨⟨piece.label, part⟩, mem_map_of_mem hpart, rfl, hpoint⟩
    · next hkept =>
      rw [covers_cons]
      constructor
      · rintro (⟨rfl, hrange⟩ | hnone)
        · refine ⟨⟨rfl, hrange⟩, fun hboth => hkept ⟨hboth.1, ?_⟩⟩
          exact Range.overlaps_iff.mpr ⟨point, hrange, hboth.2⟩
        · simp [Covers] at hnone
      · rintro ⟨hpiece, -⟩
        exact .inl hpiece

variable [LinearOrder γ]

def Before (first second : Labelled γ bound) : Prop :=
  first.label < second.label ∨ first.label = second.label ∧ first.range.start ≤ second.range.start

instance (first second : Labelled γ bound) : Decidable (Before first second) :=
  inferInstanceAs (Decidable (_ ∨ _))

instance : IsTrans (Labelled γ bound) Before where
  trans first second third hfirst hsecond := by
    rcases hfirst with hlt | ⟨heq, hle⟩
    · rcases hsecond with hlt' | ⟨heq', -⟩
      · exact .inl (hlt.trans hlt')
      · exact .inl (heq' ▸ hlt)
    · rcases hsecond with hlt' | ⟨heq', hle'⟩
      · exact .inl (heq ▸ hlt')
      · exact .inr ⟨heq.trans heq', hle.trans hle'⟩

instance : Std.Total (Before : Labelled γ bound → Labelled γ bound → Prop) where
  total first second := by
    rcases lt_trichotomy first.label second.label with hlt | heq | hgt
    · exact .inl (.inl hlt)
    · rcases le_total first.range.start second.range.start with hle | hge
      · exact .inl (.inr ⟨heq, hle⟩)
      · exact .inr (.inr ⟨heq.symm, hge⟩)
    · exact .inr (.inl hgt)

def Mergeable (first second : Labelled γ bound) : Prop :=
  first.label = second.label ∧ second.range.start ≤ first.range.stop + 1

instance (first second : Labelled γ bound) : Decidable (Mergeable first second) :=
  inferInstanceAs (Decidable (_ ∧ _))

/-- Merge every piece into the one in front of it where they touch. -/
def coalesceFrom (last : Labelled γ bound) : List (Labelled γ bound) → List (Labelled γ bound)
  | [] => [last]
  | piece :: rest =>
    if Mergeable last piece then
      coalesceFrom ⟨last.label, last.range.extend piece.range⟩ rest
    else last :: coalesceFrom piece rest

def coalesce : List (Labelled γ bound) → List (Labelled γ bound)
  | [] => []
  | first :: rest => coalesceFrom first rest

/-- Labels are in order, and ranges of one label are in order with gaps. -/
def Apart (first second : Labelled γ bound) : Prop :=
  first.label < second.label ∨
    first.label = second.label ∧ first.range.stop + 1 < second.range.start

variable {first last : Labelled γ bound}

theorem before_of_mem_coalesceFrom (hlast : Before first last)
    (hrest : ∀ other ∈ rest, Before first other) (hpiece : piece ∈ coalesceFrom last rest) :
    Before first piece := by
  induction rest generalizing last with
  | nil =>
    rw [coalesceFrom, mem_singleton] at hpiece
    rw [hpiece]
    exact hlast
  | cons head tail ih =>
    have htail : ∀ other ∈ tail, Before first other :=
      fun other hother => hrest other (mem_cons_of_mem head hother)
    rw [coalesceFrom] at hpiece
    split at hpiece
    · have hextended : Before first ⟨last.label, last.range.extend head.range⟩ := hlast
      exact ih hextended htail hpiece
    · rcases mem_cons.mp hpiece with rfl | hlater
      · exact hlast
      · exact ih (hrest head mem_cons_self) htail hlater

theorem apart_of_not_mergeable {second : Labelled γ bound} (hbefore : Before first second)
    (hnot : ¬Mergeable first second) : Apart first second := by
  rcases hbefore with hlt | ⟨heq, -⟩
  · exact .inl hlt
  · exact .inr ⟨heq, not_le.mp fun hle => hnot ⟨heq, hle⟩⟩

theorem Apart.of_before {second third : Labelled γ bound} (hapart : Apart first second)
    (hbefore : Before second third) : Apart first third := by
  rcases hapart with hlt | ⟨heq, hgap⟩
  · rcases hbefore with hlt' | ⟨heq', -⟩
    · exact .inl (hlt.trans hlt')
    · exact .inl (heq' ▸ hlt)
  · rcases hbefore with hlt' | ⟨heq', hle'⟩
    · exact .inl (heq ▸ hlt')
    · exact .inr ⟨heq.trans heq', hgap.trans_le hle'⟩

theorem before_extend {other : Labelled γ bound} (hlast : Before last other) :
    Before ⟨last.label, last.range.extend piece.range⟩ other := hlast

theorem pairwise_coalesceFrom (hsorted : (last :: rest).Pairwise Before) :
    (coalesceFrom last rest).Pairwise Apart := by
  induction rest generalizing last with
  | nil => exact pairwise_singleton _ _
  | cons piece rest ih =>
    obtain ⟨hlast, hrest⟩ := pairwise_cons.mp hsorted
    obtain ⟨hpiece, htail⟩ := pairwise_cons.mp hrest
    rw [coalesceFrom]
    split
    · refine ih (pairwise_cons.mpr ⟨fun other hother => ?_, htail⟩)
      exact before_extend (hlast other (mem_cons_of_mem piece hother))
    · next hnot =>
      refine pairwise_cons.mpr ⟨fun other hother => ?_, ih hrest⟩
      have hapart := apart_of_not_mergeable (hlast piece mem_cons_self) hnot
      exact hapart.of_before (before_of_mem_coalesceFrom (.inr ⟨rfl, le_rfl⟩) hpiece hother)

theorem covers_coalesceFrom (hsorted : (last :: rest).Pairwise Before) (label : γ) (point : ℕ) :
    Covers (coalesceFrom last rest) label point ↔ Covers (last :: rest) label point := by
  induction rest generalizing last with
  | nil => rfl
  | cons piece rest ih =>
    obtain ⟨hlast, hrest⟩ := pairwise_cons.mp hsorted
    obtain ⟨hpiece, htail⟩ := pairwise_cons.mp hrest
    rw [coalesceFrom]
    split
    · next hmerge =>
      obtain ⟨hlabel, htouch⟩ := hmerge
      have hstart : last.range.start ≤ piece.range.start := by
        rcases hlast piece mem_cons_self with hlt | ⟨-, hle⟩
        · exact absurd hlabel hlt.ne
        · exact hle
      rw [ih (pairwise_cons.mpr ⟨fun other hother =>
        before_extend (hlast other (mem_cons_of_mem piece hother)), htail⟩),
        covers_cons, covers_cons, covers_cons, Range.mem_extend hstart htouch, ← hlabel,
        and_or_left, or_assoc]
    · rw [covers_cons, ih hrest]
      exact covers_cons.symm

theorem pairwise_coalesce {pieces : List (Labelled γ bound)} (hsorted : pieces.Pairwise Before) :
    (coalesce pieces).Pairwise Apart := by
  cases pieces with
  | nil => exact Pairwise.nil
  | cons first rest => exact pairwise_coalesceFrom hsorted

theorem covers_coalesce {pieces : List (Labelled γ bound)} (hsorted : pieces.Pairwise Before)
    (label : γ) (point : ℕ) : Covers (coalesce pieces) label point ↔ Covers pieces label point := by
  cases pieces with
  | nil => rfl
  | cons first rest => exact covers_coalesceFrom hsorted label point

/-! ## Canonical lists -/

/-- Ranges of one label are the same or have a gap between them. -/
def Separate (first second : Labelled γ bound) : Prop :=
  first.label = second.label → first = second ∨ first.range.stop + 1 < second.range.start ∨
    second.range.stop + 1 < first.range.start

instance : Std.Symm (Separate : Labelled γ bound → Labelled γ bound → Prop) where
  symm first second hseparate hlabel := by
    rcases hseparate hlabel.symm with rfl | hbefore | hafter
    · exact .inl rfl
    · exact .inr (.inr hbefore)
    · exact .inr (.inl hafter)

theorem Apart.separate {first second : Labelled γ bound} (hapart : Apart first second) :
    Separate first second := by
  intro hlabel
  rcases hapart with hlt | ⟨-, hgap⟩
  · exact absurd hlabel hlt.ne
  · exact .inr (.inl hgap)

instance : Std.Asymm (Apart : Labelled γ bound → Labelled γ bound → Prop) where
  asymm first second hfirst hsecond := by
    have hordered := first.range.ordered
    have hordered' := second.range.ordered
    rcases hfirst with hlt | ⟨hlabel, hgap⟩
    · rcases hsecond with hlt' | ⟨hlabel', -⟩
      · exact hlt.asymm hlt'
      · exact hlt.ne' hlabel'
    · rcases hsecond with hlt' | ⟨-, hgap'⟩
      · exact hlt'.ne' hlabel
      · omega

variable {pieces others : List (Labelled γ bound)}

/-- The pieces of a canonical list are the longest ranges which it covers. -/
theorem mem_iff_covers (hapart : pieces.Pairwise Apart) :
    piece ∈ pieces ↔ (∀ point ∈ piece.range, Covers pieces piece.label point) ∧
      ∀ point, point + 1 = piece.range.start ∨ point = piece.range.stop + 1 →
        ¬Covers pieces piece.label point := by
  have hseparate := Pairwise.forall_of_forall (fun _ _ _ => .inl rfl)
    (hapart.imp Apart.separate)
  constructor
  · refine fun hpiece => ⟨fun point hpoint => ⟨piece, hpiece, rfl, hpoint⟩, ?_⟩
    rintro point hpoint ⟨other, hother, hlabel, hmem⟩
    rw [Range.mem_iff] at hmem
    have hordered := piece.range.ordered
    rcases hseparate hother hpiece hlabel with rfl | hgap | hgap <;> omega
  · rintro ⟨hcovered, hends⟩
    have hordered := piece.range.ordered
    obtain ⟨other, hother, hlabel, hmem⟩ := hcovered _ piece.range.start_mem
    rw [Range.mem_iff] at hmem
    have hstart : other.range.start = piece.range.start := by
      by_contra hne
      exact hends (piece.range.start - 1) (by omega)
        ⟨other, hother, hlabel, Range.mem_iff.mpr (by omega)⟩
    have hstop : ¬piece.range.stop < other.range.stop := fun hlt =>
      hends (piece.range.stop + 1) (by omega) ⟨other, hother, hlabel, Range.mem_iff.mpr (by omega)⟩
    have hstop' : ¬other.range.stop < piece.range.stop := by
      intro hlt
      obtain ⟨next, hnext, hlabel', hmem'⟩ :=
        hcovered (other.range.stop + 1) (Range.mem_iff.mpr (by omega))
      rw [Range.mem_iff] at hmem'
      rcases hseparate hother hnext (hlabel.trans hlabel'.symm) with rfl | hgap | hgap <;> omega
    have hrange : other.range = piece.range := Range.ext hstart (by omega)
    obtain ⟨label, range⟩ := other
    obtain ⟨rfl, rfl⟩ : label = piece.label ∧ range = piece.range := ⟨hlabel, hrange⟩
    exact hother

theorem eq_of_covers (hpieces : pieces.Pairwise Apart) (hothers : others.Pairwise Apart)
    (hcovers : ∀ label point, Covers pieces label point ↔ Covers others label point) :
    pieces = others := by
  refine hpieces.eq_of_mem_iff hothers fun piece => ?_
  rw [mem_iff_covers hpieces, mem_iff_covers hothers]
  simp only [hcovers]

end RangeCover
