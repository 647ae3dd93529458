import Mathlib.Order.Defs.LinearOrder
import Mathlib.Data.List.Basic
import Mathlib.Tactic

/-!
# Tables of queues

A table maps keys to queues.  It is a list of rows in the order of the keys, and
a row is removed when its queue becomes empty, so a missing row and an empty
queue are the same.
-/

namespace QueueTable

open List

variable {κ α : Type*} [LinearOrder κ]

/-! ## Rows -/

def lookup (key : κ) : List (κ × List α) → List α
  | [] => []
  | row :: rest => if row.1 = key then row.2 else lookup key rest

def store (key : κ) (queue : List α) : List (κ × List α) → List (κ × List α)
  | [] => if queue.isEmpty = true then [] else [(key, queue)]
  | row :: rest =>
    if row.1 < key then row :: store key queue rest
    else if row.1 = key then
      if queue.isEmpty = true then rest else (key, queue) :: rest
    else if queue.isEmpty = true then row :: rest else (key, queue) :: row :: rest

def retainRows (keep : α → Bool) (rows : List (κ × List α)) : List (κ × List α) :=
  (rows.map fun row => (row.1, row.2.filter keep)).filter fun row => !row.2.isEmpty

def Sorted (rows : List (κ × List α)) : Prop :=
  rows.Pairwise fun first second => first.1 < second.1

variable {key : κ} {rows : List (κ × List α)}

theorem lookup_eq_nil (hrows : ∀ row ∈ rows, key < row.1) : lookup key rows = [] := by
  induction rows with
  | nil => rfl
  | cons row rest ih =>
    have hrow := hrows row mem_cons_self
    rw [lookup, if_neg hrow.ne']
    exact ih fun other hother => hrows other (mem_cons_of_mem row hother)

theorem mem_store {queue : List α} {row : κ × List α} (hrow : row ∈ store key queue rows) :
    row = (key, queue) ∧ queue ≠ [] ∨ row ∈ rows := by
  induction rows with
  | nil =>
    rw [store] at hrow
    split at hrow
    · simp at hrow
    · next hqueue =>
      exact .inl ⟨by simpa using hrow, by simpa using hqueue⟩
  | cons first rest ih =>
    rw [store] at hrow
    split at hrow
    · rcases mem_cons.mp hrow with hfirst | hrest
      · exact .inr (by simp [hfirst])
      · rcases ih hrest with hkey | hold
        · exact .inl hkey
        · exact .inr (mem_cons_of_mem first hold)
    · split at hrow
      · split at hrow
        · exact .inr (mem_cons_of_mem first hrow)
        · next hqueue =>
          rcases mem_cons.mp hrow with hkey | hrest
          · exact .inl ⟨hkey, by simpa using hqueue⟩
          · exact .inr (mem_cons_of_mem first hrest)
      · split at hrow
        · exact .inr hrow
        · next hqueue =>
          rcases mem_cons.mp hrow with hkey | hrest
          · exact .inl ⟨hkey, by simpa using hqueue⟩
          · exact .inr hrest

theorem Sorted.store (hsorted : Sorted rows) (key : κ) (queue : List α) :
    Sorted (store key queue rows) := by
  induction rows with
  | nil =>
    rw [QueueTable.store]
    split
    · exact Pairwise.nil
    · exact pairwise_singleton _ _
  | cons first rest ih =>
    obtain ⟨hfirst, hrest⟩ := pairwise_cons.mp hsorted
    rw [QueueTable.store]
    split
    · next hlt =>
      refine pairwise_cons.mpr ⟨?_, ih hrest⟩
      intro row hrow
      rcases mem_store hrow with ⟨rfl, -⟩ | hold
      · exact hlt
      · exact hfirst row hold
    · next hge =>
      split
      · next heq =>
        split
        · exact hrest
        · exact pairwise_cons.mpr ⟨fun row hrow => heq ▸ hfirst row hrow, hrest⟩
      · next hne =>
        have hlt : key < first.1 := lt_of_le_of_ne (not_lt.mp hge) (Ne.symm hne)
        split
        · exact hsorted
        · refine pairwise_cons.mpr ⟨?_, hsorted⟩
          intro row hrow
          rcases mem_cons.mp hrow with rfl | hold
          · exact hlt
          · exact hlt.trans (hfirst row hold)

theorem lookup_store_self (hsorted : Sorted rows) (key : κ) (queue : List α) :
    lookup key (store key queue rows) = queue := by
  induction rows with
  | nil =>
    rw [store]
    split
    · next hqueue => exact (isEmpty_iff.mp hqueue).symm
    · simp [lookup]
  | cons first rest ih =>
    obtain ⟨hfirst, hrest⟩ := pairwise_cons.mp hsorted
    rw [store]
    split
    · next hlt =>
      rw [lookup, if_neg hlt.ne]
      exact ih hrest
    · next hge =>
      split
      · next heq =>
        split
        · next hqueue =>
          rw [isEmpty_iff.mp hqueue]
          exact lookup_eq_nil fun row hrow => heq ▸ hfirst row hrow
        · simp [lookup]
      · next hne =>
        have hlt : key < first.1 := lt_of_le_of_ne (not_lt.mp hge) (Ne.symm hne)
        split
        · next hqueue =>
          rw [isEmpty_iff.mp hqueue]
          refine lookup_eq_nil fun row hrow => ?_
          rcases mem_cons.mp hrow with rfl | hold
          · exact hlt
          · exact hlt.trans (hfirst row hold)
        · simp [lookup]

theorem lookup_store_of_ne (rows : List (κ × List α)) {other : κ} (hother : other ≠ key)
    (queue : List α) : lookup other (store key queue rows) = lookup other rows := by
  induction rows with
  | nil =>
    rw [store]
    split
    · rfl
    · simp [lookup, Ne.symm hother]
  | cons first rest ih =>
    rw [store]
    split
    · rw [lookup, lookup, ih]
    · split
      · next heq =>
        have hfirst : first.1 ≠ other := fun hsame => hother (hsame.symm.trans heq)
        split
        · rw [lookup, if_neg hfirst]
        · rw [lookup, if_neg (Ne.symm hother), lookup, if_neg hfirst]
      · split
        · rfl
        · rw [lookup, if_neg (Ne.symm hother)]

theorem flatMap_store_perm (hsorted : Sorted rows) (key : κ) (queue : List α) :
    ((store key queue rows).flatMap Prod.snd ++ lookup key rows).Perm
      (rows.flatMap Prod.snd ++ queue) := by
  induction rows with
  | nil =>
    rw [store]
    split
    · next hqueue => simp [lookup, isEmpty_iff.mp hqueue]
    · simp [lookup]
  | cons first rest ih =>
    obtain ⟨hfirst, hrest⟩ := pairwise_cons.mp hsorted
    rw [store]
    split
    · next hlt =>
      rw [lookup, if_neg hlt.ne, flatMap_cons, flatMap_cons, append_assoc,
        append_assoc]
      exact (ih hrest).append_left first.2
    · next hge =>
      split
      · next heq =>
        rw [lookup, if_pos heq]
        split
        · next hqueue =>
          rw [isEmpty_iff.mp hqueue, flatMap_cons, append_nil]
          exact perm_append_comm
        · rw [flatMap_cons, flatMap_cons]
          calc
            (queue ++ rest.flatMap Prod.snd ++ first.2).Perm
                (first.2 ++ (queue ++ rest.flatMap Prod.snd)) := perm_append_comm
            _ |>.Perm (first.2 ++ (rest.flatMap Prod.snd ++ queue)) :=
                perm_append_comm.append_left first.2
            _ = first.2 ++ rest.flatMap Prod.snd ++ queue := (append_assoc _ _ _).symm
      · next hne =>
        have hlt : key < first.1 := lt_of_le_of_ne (not_lt.mp hge) (Ne.symm hne)
        have hnil : lookup key (first :: rest) = [] := by
          refine lookup_eq_nil fun row hrow => ?_
          rcases mem_cons.mp hrow with rfl | hold
          · exact hlt
          · exact hlt.trans (hfirst row hold)
        rw [hnil, append_nil]
        split
        · next hqueue => rw [isEmpty_iff.mp hqueue, append_nil]
        · rw [flatMap_cons]
          exact perm_append_comm

omit [LinearOrder κ] in
theorem mem_retainRows {keep : α → Bool} {row : κ × List α} (hrow : row ∈ retainRows keep rows) :
    row.2 ≠ [] ∧ ∃ old ∈ rows, old.1 = row.1 := by
  obtain ⟨hmapped, hqueue⟩ := mem_filter.mp hrow
  obtain ⟨old, hold, rfl⟩ := mem_map.mp hmapped
  exact ⟨by simpa using hqueue, old, hold, rfl⟩

theorem Sorted.retainRows (hsorted : Sorted rows) (keep : α → Bool) :
    Sorted (retainRows keep rows) := by
  have hmapped : Sorted (rows.map fun row => (row.1, row.2.filter keep)) :=
    pairwise_map.mpr hsorted
  exact hmapped.filter _

omit [LinearOrder κ] in
theorem flatMap_retainRows (keep : α → Bool) (rows : List (κ × List α)) :
    (retainRows keep rows).flatMap Prod.snd = (rows.flatMap Prod.snd).filter keep := by
  induction rows with
  | nil => rfl
  | cons row rest ih =>
    rw [retainRows] at ih ⊢
    rw [map_cons, filter_cons, flatMap_cons, filter_append, ← ih]
    split
    · rfl
    · next hempty =>
      have hnil : row.2.filter keep = [] := by simpa using hempty
      rw [hnil, nil_append]

theorem lookup_retainRows (hsorted : Sorted rows) (keep : α → Bool) (key : κ) :
    lookup key (retainRows keep rows) = (lookup key rows).filter keep := by
  induction rows with
  | nil => rfl
  | cons row rest ih =>
    obtain ⟨hrow, hrest⟩ := pairwise_cons.mp hsorted
    have hkeys : ∀ other ∈ retainRows keep rest, row.1 < other.1 := by
      intro other hother
      obtain ⟨-, old, hold, hsame⟩ := mem_retainRows hother
      rw [← hsame]
      exact hrow old hold
    rw [lookup]
    have hcons : retainRows keep (row :: rest) =
        if (row.2.filter keep).isEmpty = true then retainRows keep rest
        else (row.1, row.2.filter keep) :: retainRows keep rest := by
      rw [retainRows, map_cons, filter_cons]
      by_cases hempty : (row.2.filter keep).isEmpty = true
      · simp [hempty, retainRows]
      · simp [hempty, retainRows]
    rw [hcons]
    split
    · next hempty =>
      split
      · next hkey =>
        rw [isEmpty_iff.mp hempty]
        exact lookup_eq_nil fun other hother => hkey ▸ hkeys other hother
      · exact ih hrest
    · rw [lookup]
      split
      · rfl
      · exact ih hrest

def searchRows (test : α → Bool) : List (κ × List α) → Option (κ × ℕ)
  | [] => none
  | row :: rest =>
    match row.2.findIdx? test with
    | some index => some (row.1, index)
    | none => searchRows test rest

end QueueTable

/-- A table of queues whose rows are sorted and not empty. -/
structure QueueTable (κ α : Type*) [LinearOrder κ] where
  rows : List (κ × List α)
  sorted : QueueTable.Sorted rows
  inhabited : ∀ row ∈ rows, row.2 ≠ []

namespace QueueTable

variable {κ α : Type*} [LinearOrder κ]

def empty : QueueTable κ α := ⟨[], List.Pairwise.nil, by simp⟩

section

variable (table : QueueTable κ α)

def queue (key : κ) : List α := lookup key table.rows

def elements : List α := table.rows.flatMap Prod.snd

def put (key : κ) (queue : List α) : QueueTable κ α where
  rows := store key queue table.rows
  sorted := table.sorted.store key queue
  inhabited row hrow := by
    rcases mem_store hrow with ⟨rfl, hqueue⟩ | hold
    · exact hqueue
    · exact table.inhabited row hold

def retain (keep : α → Bool) : QueueTable κ α where
  rows := retainRows keep table.rows
  sorted := table.sorted.retainRows keep
  inhabited _ hrow := (mem_retainRows hrow).1

def search (test : α → Bool) : Option (κ × ℕ) :=
  searchRows test table.rows

end

variable (table : QueueTable κ α)

@[simp]
theorem queue_put_self (key : κ) (queue : List α) : (table.put key queue).queue key = queue :=
  lookup_store_self table.sorted key queue

theorem queue_put_of_ne {key other : κ} (hother : other ≠ key) (queue : List α) :
    (table.put key queue).queue other = table.queue other :=
  lookup_store_of_ne table.rows hother queue

@[simp]
theorem queue_retain (keep : α → Bool) (key : κ) :
    (table.retain keep).queue key = (table.queue key).filter keep :=
  lookup_retainRows table.sorted keep key

@[simp]
theorem elements_retain (keep : α → Bool) :
    (table.retain keep).elements = table.elements.filter keep :=
  flatMap_retainRows keep table.rows

theorem elements_put_perm (key : κ) (queue : List α) :
    ((table.put key queue).elements ++ table.queue key).Perm (table.elements ++ queue) :=
  flatMap_store_perm table.sorted key queue

theorem elements_perm_of_taken {table : QueueTable κ α} {key : κ} {taken left : List α}
    (hqueue : (table.queue key).Perm (taken ++ left)) :
    table.elements.Perm (taken ++ (table.put key left).elements) := by
  have hexchange : ((table.put key left).elements ++ (taken ++ left)).Perm
      (table.elements ++ left) :=
    (hqueue.symm.append_left _).trans (table.elements_put_perm key left)
  rw [← List.append_assoc] at hexchange
  exact ((List.perm_append_right_iff left).mp hexchange).symm.trans List.perm_append_comm

theorem elements_perm_of_added (key : κ) (added : List α) :
    (table.put key (table.queue key ++ added)).elements.Perm (table.elements ++ added) := by
  have hexchange := table.elements_put_perm key (table.queue key ++ added)
  have hswap : (table.elements ++ (table.queue key ++ added)).Perm
      (table.elements ++ added ++ table.queue key) := by
    rw [List.append_assoc]
    exact List.perm_append_comm.append_left table.elements
  exact (List.perm_append_right_iff (table.queue key)).mp (hexchange.trans hswap)

end QueueTable
