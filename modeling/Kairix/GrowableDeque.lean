import Mathlib

/-!
# Double-ended queues with a capacity

A queue is a list together with the size of its storage, which never falls
below the length of the list.  Adding to a full queue takes larger storage.
-/

namespace GrowableDeque

open List

variable {α : Type*}

structure Deque (α : Type*) where
  items : List α
  capacity : ℕ
  fits : items.length ≤ capacity

namespace Deque

def withCapacity (capacity : ℕ) : Deque α :=
  ⟨[], capacity, Nat.zero_le capacity⟩

def length (deque : Deque α) : ℕ :=
  deque.items.length

def room (deque : Deque α) : ℕ :=
  if deque.length < deque.capacity then deque.capacity else max 4 (2 * deque.capacity)

theorem length_lt_room (deque : Deque α) : deque.length < deque.room := by
  have hfits := deque.fits
  rw [room]
  split
  · assumption
  · rw [length] at *
    omega

def pushBack (deque : Deque α) (item : α) : Deque α where
  items := deque.items ++ [item]
  capacity := deque.room
  fits := by
    rw [length_append, length_singleton]
    exact deque.length_lt_room

def pushFront (deque : Deque α) (item : α) : Deque α where
  items := item :: deque.items
  capacity := deque.room
  fits := deque.length_lt_room

def insertAt (deque : Deque α) (position : ℕ) (item : α) : Deque α where
  items := deque.items.take position ++ item :: deque.items.drop position
  capacity := deque.room
  fits := by
    have hroom := deque.length_lt_room
    rw [length] at hroom
    simp only [length_append, length_take, length_cons, length_drop]
    omega

def popFront (deque : Deque α) : Option (α × Deque α) :=
  match hitems : deque.items with
  | [] => none
  | item :: rest =>
    some (item, ⟨rest, deque.capacity, by
      have hfits := deque.fits
      rw [hitems] at hfits
      exact (Nat.le_succ _).trans hfits⟩)

def remove [DecidableEq α] (deque : Deque α) (item : α) : Deque α where
  items := deque.items.erase item
  capacity := deque.capacity
  fits := (length_erase_le).trans deque.fits

def moveInto (target : Deque α) : List α → Deque α
  | [] => target
  | item :: rest => (target.pushBack item).moveInto rest

@[simp] theorem items_withCapacity (capacity : ℕ) :
    (withCapacity capacity : Deque α).items = [] := rfl

@[simp] theorem items_pushBack (deque : Deque α) (item : α) :
    (deque.pushBack item).items = deque.items ++ [item] := rfl

theorem items_moveInto (target : Deque α) (items : List α) :
    (target.moveInto items).items = target.items ++ items := by
  induction items generalizing target with
  | nil => simp [moveInto]
  | cons item rest ih => simp [moveInto, ih]

theorem items_of_popFront_eq_some {deque rest : Deque α} {item : α}
    (hpop : deque.popFront = some (item, rest)) : deque.items = item :: rest.items := by
  rw [popFront] at hpop
  split at hpop
  · simp at hpop
  · next first others hitems =>
    rw [Option.some.injEq, Prod.mk.injEq] at hpop
    rw [hitems, ← hpop.1, ← hpop.2]

end Deque

def Takes (found : Option α) (before after : Multiset α) : Prop :=
  match found with
  | some item => before = item ::ₘ after
  | none => after = before

namespace Deque

def bag (deque : Deque α) : Multiset α :=
  ↑deque.items

@[simp] theorem bag_withCapacity (capacity : ℕ) : (withCapacity capacity : Deque α).bag = 0 := rfl

variable (deque : Deque α)

@[simp] theorem bag_pushBack (item : α) : (deque.pushBack item).bag = item ::ₘ deque.bag := by
  rw [bag, bag, items_pushBack, Multiset.cons_coe, Multiset.coe_eq_coe]
  exact perm_append_singleton item deque.items

@[simp] theorem bag_pushFront (item : α) : (deque.pushFront item).bag = item ::ₘ deque.bag := rfl

@[simp] theorem bag_insertAt (position : ℕ) (item : α) :
    (deque.insertAt position item).bag = item ::ₘ deque.bag := by
  rw [bag, bag, insertAt, Multiset.cons_coe, Multiset.coe_eq_coe]
  have hsplit := take_append_drop position deque.items
  nth_rewrite 3 [← hsplit]
  exact perm_middle

theorem bag_of_popFront_eq_some {deque rest : Deque α} {item : α}
    (hpop : deque.popFront = some (item, rest)) : deque.bag = item ::ₘ rest.bag := by
  rw [bag, bag, items_of_popFront_eq_some hpop, Multiset.cons_coe]

theorem card_bag : deque.bag.card = deque.length := Multiset.coe_card deque.items

theorem bag_remove [DecidableEq α] (item : α) :
    (deque.remove item).bag = deque.bag.erase item := rfl

end Deque

end GrowableDeque
