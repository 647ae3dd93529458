import Mathlib

/-!
# Exclusive holdings

Items are held by owners, each owner holding a list of items.  The holdings are
exclusive when no item is held twice, be it by two owners or by one.  Items
change hands by three operations: they move from one owner to another, enter
from outside, and leave.
-/

namespace ExclusiveHoldings

open Function

variable {ω α : Type*}

structure Exclusive (holdings : ω → List α) : Prop where
  nodup : ∀ owner, (holdings owner).Nodup
  unique : ∀ first second item, item ∈ holdings first → item ∈ holdings second → first = second

def held (holdings : ω → List α) : Set α :=
  {item | ∃ owner, item ∈ holdings owner}

variable {holdings : ω → List α}

theorem mem_held {owner : ω} {item : α} (hitem : item ∈ holdings owner) : item ∈ held holdings :=
  ⟨owner, hitem⟩

theorem Exclusive.of_empty (hempty : ∀ owner, holdings owner = []) : Exclusive holdings := by
  constructor
  · intro owner
    rw [hempty owner]
    exact List.nodup_nil
  · intro first second item hfirst
    rw [hempty first] at hfirst
    exact absurd hfirst List.not_mem_nil

theorem held_of_empty (hempty : ∀ owner, holdings owner = []) : held holdings = ∅ := by
  ext item
  simp [held, hempty]

variable {before s' : ω → List α} {source target : ω} {items : List α}

theorem Exclusive.of_perm (hbefore : Exclusive before)
    (hperm : ∀ owner, (s' owner).Perm (before owner)) : Exclusive s' where
  nodup owner := (hperm owner).nodup_iff.mpr (hbefore.nodup owner)
  unique first second item hfirst hsecond :=
    hbefore.unique first second item ((hperm first).mem_iff.mp hfirst)
      ((hperm second).mem_iff.mp hsecond)

theorem held_of_perm (hperm : ∀ owner, (s' owner).Perm (before owner)) : held s' = held before :=
  Set.ext fun _ => exists_congr fun owner => (hperm owner).mem_iff

section

variable (htarget : (s' target).Perm (items ++ before target))
  (hother : ∀ owner, owner ≠ target → s' owner = before owner)
include htarget hother

theorem mem_enter {owner : ω} {item : α} :
    item ∈ s' owner ↔ owner = target ∧ item ∈ items ∨ item ∈ before owner := by
  by_cases howner : owner = target
  · simp [howner, htarget.mem_iff]
  · simp [howner, hother owner howner]

theorem Exclusive.enter (hbefore : Exclusive before) (hnodup : items.Nodup)
    (hfresh : ∀ item ∈ items, item ∉ held before) : Exclusive s' := by
  constructor
  · intro owner
    by_cases howner : owner = target
    · subst owner
      rw [htarget.nodup_iff, List.nodup_append']
      exact ⟨hnodup, hbefore.nodup target, fun item hitem hold =>
        hfresh item hitem (mem_held hold)⟩
    · rw [hother owner howner]
      exact hbefore.nodup owner
  · intro first second item hfirst hsecond
    rw [mem_enter htarget hother] at hfirst hsecond
    rcases hfirst with ⟨rfl, hnew⟩ | hold
    · rcases hsecond with ⟨rfl, -⟩ | hheld
      · rfl
      · exact absurd (mem_held hheld) (hfresh item hnew)
    · rcases hsecond with ⟨rfl, hnew⟩ | hheld
      · exact absurd (mem_held hold) (hfresh item hnew)
      · exact hbefore.unique first second item hold hheld

theorem held_enter : held s' = held before ∪ {item | item ∈ items} := by
  ext item
  constructor
  · rintro ⟨owner, hitem⟩
    exact ((mem_enter htarget hother).mp hitem).symm.imp mem_held And.right
  · rintro (⟨owner, hold⟩ | hnew)
    · exact ⟨owner, (mem_enter htarget hother).mpr (.inr hold)⟩
    · exact ⟨target, (mem_enter htarget hother).mpr (.inl ⟨rfl, hnew⟩)⟩

end

section

variable (hbefore : Exclusive before) (hsource : (before source).Perm (items ++ s' source))
  (hother : ∀ owner, owner ≠ source → s' owner = before owner)
include hbefore hsource hother

theorem mem_leave {owner : ω} {item : α} :
    item ∈ s' owner ↔ item ∈ before owner ∧ item ∉ items := by
  by_cases howner : owner = source
  · subst owner
    have hnodup := hsource.nodup_iff.mp (hbefore.nodup source)
    rw [List.nodup_append'] at hnodup
    rw [hsource.mem_iff, List.mem_append]
    exact ⟨fun hitem => ⟨.inr hitem, fun hleft => hnodup.2.2 hleft hitem⟩,
      fun hitem => hitem.1.resolve_left hitem.2⟩
  · rw [hother owner howner]
    refine ⟨fun hitem => ⟨hitem, fun hleft => howner ?_⟩, And.left⟩
    exact hbefore.unique owner source item hitem
      (hsource.mem_iff.mpr (List.mem_append_left _ hleft))

theorem Exclusive.leave : Exclusive s' := by
  constructor
  · intro owner
    by_cases howner : owner = source
    · subst owner
      exact (hsource.nodup_iff.mp (hbefore.nodup source)).of_append_right
    · rw [hother owner howner]
      exact hbefore.nodup owner
  · intro first second item hfirst hsecond
    exact hbefore.unique first second item ((mem_leave hbefore hsource hother).mp hfirst).1
      ((mem_leave hbefore hsource hother).mp hsecond).1

theorem held_leave : held s' = held before \ {item | item ∈ items} := by
  ext item
  simp [held, mem_leave hbefore hsource hother]

end

variable [DecidableEq ω]

theorem Exclusive.move (hbefore : Exclusive before) (hne : source ≠ target)
    (hsource : (before source).Perm (items ++ s' source))
    (htarget : (s' target).Perm (items ++ before target))
    (hother : ∀ owner, owner ≠ source → owner ≠ target → s' owner = before owner) :
    Exclusive s' ∧ held s' = held before := by
  have hmiddleSource :
      (before source).Perm (items ++ update before source (s' source) source) := by
    rwa [update_self]
  have hmiddleOther : ∀ owner, owner ≠ source →
      update before source (s' source) owner = before owner :=
    fun owner howner => update_of_ne howner ..
  have hleft := hbefore.leave hmiddleSource hmiddleOther
  have hheldLeft := held_leave hbefore hmiddleSource hmiddleOther
  have henterTarget :
      (s' target).Perm (items ++ update before source (s' source) target) := by
    rwa [hmiddleOther target hne.symm]
  have henterOther : ∀ owner, owner ≠ target →
      s' owner = update before source (s' source) owner := by
    intro owner howner
    by_cases hownerSource : owner = source
    · rw [hownerSource, update_self]
    · rw [hmiddleOther owner hownerSource]
      exact hother owner hownerSource howner
  have hnodup := hsource.nodup_iff.mp (hbefore.nodup source)
  rw [List.nodup_append'] at hnodup
  have hfresh : ∀ item ∈ items, item ∉ held (update before source (s' source)) := by
    intro item hitem
    rw [hheldLeft]
    exact fun hstays => hstays.2 hitem
  refine ⟨.enter henterTarget henterOther hleft hnodup.1 hfresh, ?_⟩
  rw [held_enter henterTarget henterOther, hheldLeft]
  apply Set.sdiff_union_of_subset
  intro item hitem
  exact ⟨source, hsource.mem_iff.mpr (List.mem_append_left _ hitem)⟩

end ExclusiveHoldings
