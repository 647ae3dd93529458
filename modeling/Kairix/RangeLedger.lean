import Mathlib.Tactic

/-!
# Ledgers of ranges

Owners claim parts of a line of places which grows at its end.  A claim is kept as a whole
or in part when its owner completes it, and the end may move back over places which nobody
keeps.
-/

open Function Finset

/-- Places from `first` to `stop` which are claimed by an owner or kept for good, each at
most once. -/
structure RangeLedger {ο : Type*} (first stop : ℕ) (claim : ο → Finset ℕ)
    (kept : List (Finset ℕ)) : Prop where
  first_le : first ≤ stop
  claims : ∀ owner other, owner ≠ other → Disjoint (claim owner) (claim other)
  claim_kept : ∀ owner, ∀ range ∈ kept, Disjoint (claim owner) range
  pairwise : kept.Pairwise Disjoint
  claim_within : ∀ owner, claim owner ⊆ Ico first stop
  kept_within : ∀ range ∈ kept, range ⊆ Ico first stop

namespace RangeLedger

variable {ο : Type*} [DecidableEq ο] {first stop : ℕ} {claim : ο → Finset ℕ}
  {kept : List (Finset ℕ)}

omit [DecidableEq ο] in
theorem empty (first : ℕ) : RangeLedger first first (fun _ : ο => ∅) [] where
  first_le := Nat.le_refl _
  claims _ _ _ := disjoint_empty_left _
  claim_kept _ _ hmem := absurd hmem List.not_mem_nil
  pairwise := .nil
  claim_within _ := empty_subset _
  kept_within _ hmem := absurd hmem List.not_mem_nil

variable {owner : ο} {stop' : ℕ}

variable (hledger : RangeLedger first stop claim kept)
include hledger

theorem extend (hstop : stop ≤ stop') :
    RangeLedger first stop' (update claim owner (Ico stop stop')) kept := by
  have hbehind : ∀ range : Finset ℕ, range ⊆ Ico first stop → Disjoint (Ico stop stop') range := by
    intro range hrange
    exact disjoint_of_subset_right hrange (Ico_disjoint_Ico_consecutive first stop stop').symm
  have hwider : Ico first stop ⊆ Ico first stop' := Ico_subset_Ico_right hstop
  refine ⟨hledger.first_le.trans hstop, ?_, ?_, hledger.pairwise, ?_,
    fun range hrange => (hledger.kept_within range hrange).trans hwider⟩
  · intro one two hne
    by_cases hone : one = owner
    · subst hone
      rw [update_self, update_of_ne hne.symm]
      exact hbehind _ (hledger.claim_within two)
    · rw [update_of_ne hone]
      by_cases htwo : two = owner
      · subst htwo
        rw [update_self]
        exact (hbehind _ (hledger.claim_within one)).symm
      · rw [update_of_ne htwo]
        exact hledger.claims one two hne
  · intro one range hrange
    by_cases hone : one = owner
    · subst hone
      rw [update_self]
      exact hbehind _ (hledger.kept_within range hrange)
    · rw [update_of_ne hone]
      exact hledger.claim_kept one range hrange
  · intro one
    by_cases hone : one = owner
    · subst hone
      rw [update_self]
      exact Ico_subset_Ico_left hledger.first_le
    · rw [update_of_ne hone]
      exact (hledger.claim_within one).trans hwider

theorem release (hstop : first ≤ stop') (hgap : Ico stop' stop ⊆ claim owner) :
    RangeLedger first stop' (update claim owner ∅) kept := by
  have hbefore : ∀ range : Finset ℕ, range ⊆ Ico first stop → Disjoint (claim owner) range →
      range ⊆ Ico first stop' := by
    intro range hrange hdisjoint place hplace
    have hwithin := mem_Ico.mp (hrange hplace)
    refine mem_Ico.mpr ⟨hwithin.1, ?_⟩
    by_contra hlate
    have hclaimed : place ∈ claim owner := hgap (mem_Ico.mpr ⟨by omega, hwithin.2⟩)
    exact disjoint_left.mp hdisjoint hclaimed hplace
  refine ⟨hstop, ?_, ?_, hledger.pairwise, ?_, fun range hrange =>
    hbefore range (hledger.kept_within range hrange) (hledger.claim_kept owner range hrange)⟩
  · intro one two hne
    by_cases hone : one = owner
    · simp [hone]
    · by_cases htwo : two = owner
      · simp [htwo]
      · simpa [hone, htwo] using hledger.claims one two hne
  · intro one range hrange
    by_cases hone : one = owner
    · simp [hone]
    · simpa [hone] using hledger.claim_kept one range hrange
  · intro one
    by_cases hone : one = owner
    · simp [hone]
    · rw [update_of_ne hone]
      exact hbefore _ (hledger.claim_within one) (hledger.claims owner one (Ne.symm hone))

theorem complete {part : Finset ℕ} (hpart : part ⊆ claim owner) (hwithin : part ⊆ Ico first stop')
    (hstop : first ≤ stop') (hgap : Ico stop' stop ⊆ claim owner) :
    RangeLedger first stop' (update claim owner ∅) (part :: kept) := by
  refine { hledger.release hstop hgap with
    claim_kept := ?_
    pairwise := .cons (fun range hrange =>
      disjoint_of_subset_left hpart (hledger.claim_kept owner range hrange)) hledger.pairwise
    kept_within := ?_ }
  · intro one range hrange
    rcases List.mem_cons.mp hrange with rfl | hrange
    · by_cases hone : one = owner
      · simp [hone]
      · rw [update_of_ne hone]
        exact disjoint_of_subset_right hpart (hledger.claims one owner hone)
    · exact (hledger.release hstop hgap).claim_kept one range hrange
  · intro range hrange
    rcases List.mem_cons.mp hrange with rfl | hrange
    · exact hwithin
    · exact (hledger.release hstop hgap).kept_within range hrange

omit [DecidableEq ο] in
theorem sum_card_le : first + (kept.map card).sum ≤ stop := by
  have hcard : ∀ (ranges : List (Finset ℕ)) (all : Finset ℕ), ranges.Pairwise Disjoint →
      (∀ range ∈ ranges, range ⊆ all) → (ranges.map card).sum ≤ all.card := by
    intro ranges
    induction ranges with
    | nil => simp
    | cons range rest ih =>
      intro all hpairwise hall
      rw [List.pairwise_cons] at hpairwise
      have hrange : range ⊆ all := hall range (by simp)
      have hrest : ∀ other ∈ rest, other ⊆ all \ range := fun other hother =>
        subset_sdiff.mpr ⟨hall other (by simp [hother]), (hpairwise.1 other hother).symm⟩
      have hsum := ih (all \ range) hpairwise.2 hrest
      have hsplit := card_sdiff_add_card_eq_card hrange
      simp only [List.map_cons, List.sum_cons]
      omega
  have hsum := hcard kept (Ico first stop) hledger.pairwise hledger.kept_within
  have hfirst := hledger.first_le
  rw [Nat.card_Ico] at hsum
  omega

end RangeLedger
