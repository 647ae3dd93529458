import Mathlib.Data.List.Basic
import Mathlib.Tactic

/-!
# Ids from a recycling allocator

Ids are handed out in order, and ids which have been given back are handed out again
first, the last one before the others.
-/

namespace RecyclingIds

structure Allocator where
  current : ℕ
  recycled : List ℕ
  deriving DecidableEq, Repr

namespace Allocator

def withStart (start : ℕ) : Allocator := ⟨start, []⟩

def nextId (ids : Allocator) : ℕ := ids.recycled.head?.getD ids.current

def alloc (ids : Allocator) : Allocator :=
  match ids.recycled with
  | [] => { ids with current := ids.current + 1 }
  | _ :: rest => { ids with recycled := rest }

/-- Giving back an id fails if it was never handed out or has been given back already. -/
def dealloc (ids : Allocator) (id : ℕ) : Option Allocator :=
  if id < ids.current ∧ id ∉ ids.recycled then
    some { ids with recycled := id :: ids.recycled }
  else none

def Allocated (ids : Allocator) (id : ℕ) : Prop := id < ids.current ∧ id ∉ ids.recycled

structure WellFormed (ids : Allocator) : Prop where
  nodup : ids.recycled.Nodup
  below : ∀ id ∈ ids.recycled, id < ids.current

theorem not_allocated_nextId (ids : Allocator) : ¬ ids.Allocated ids.nextId := by
  rintro ⟨hbelow, hfresh⟩
  cases hrecycled : ids.recycled with
  | nil => simp [nextId, hrecycled] at hbelow
  | cons id rest => simp [nextId, hrecycled] at hfresh

variable {ids : Allocator}

theorem WellFormed.alloc (hids : ids.WellFormed) : ids.alloc.WellFormed := by
  cases hrecycled : ids.recycled with
  | nil => exact ⟨by simp [Allocator.alloc, hrecycled], by simp [Allocator.alloc, hrecycled]⟩
  | cons id rest =>
    have hnodup := hids.nodup
    have hbelow := hids.below
    rw [hrecycled] at hnodup hbelow
    refine ⟨by simpa [Allocator.alloc, hrecycled] using hnodup.of_cons, fun other hmem => ?_⟩
    simp only [Allocator.alloc, hrecycled] at hmem ⊢
    exact hbelow other (List.mem_cons_of_mem id hmem)

theorem WellFormed.allocated_alloc (hids : ids.WellFormed) (id : ℕ) :
    ids.alloc.Allocated id ↔ ids.Allocated id ∨ id = ids.nextId := by
  cases hrecycled : ids.recycled with
  | nil =>
    simp only [Allocated, Allocator.alloc, nextId, hrecycled, List.not_mem_nil, List.head?_nil,
      Option.getD_none, not_false_eq_true, and_true]
    omega
  | cons head rest =>
    have hnodup := hids.nodup
    have hbelow := hids.below head (by simp [hrecycled])
    rw [hrecycled, List.nodup_cons] at hnodup
    simp only [Allocated, Allocator.alloc, nextId, hrecycled, List.mem_cons, List.head?_cons,
      Option.getD_some]
    constructor
    · rintro ⟨hid, hrest⟩
      by_cases hsame : id = head
      · exact .inr hsame
      · exact .inl ⟨hid, by simp [hsame, hrest]⟩
    · rintro (⟨hid, hnot⟩ | rfl)
      · exact ⟨hid, fun hmem => hnot (.inr hmem)⟩
      · exact ⟨hbelow, hnodup.1⟩

theorem dealloc_of_allocated {id : ℕ} (hid : ids.Allocated id) :
    ids.dealloc id = some { ids with recycled := id :: ids.recycled } :=
  if_pos hid

theorem WellFormed.dealloc (hids : ids.WellFormed) {id : ℕ} (hid : ids.Allocated id) :
    WellFormed { ids with recycled := id :: ids.recycled } := by
  refine ⟨List.nodup_cons.mpr ⟨hid.2, hids.nodup⟩, fun other hmem => ?_⟩
  rcases List.mem_cons.mp hmem with rfl | hrest
  · exact hid.1
  · exact hids.below other hrest

theorem allocated_dealloc (ids : Allocator) (id other : ℕ) :
    Allocated { ids with recycled := id :: ids.recycled } other ↔
      ids.Allocated other ∧ other ≠ id := by
  simp only [Allocated, List.mem_cons, not_or]
  tauto

end Allocator

end RecyclingIds
