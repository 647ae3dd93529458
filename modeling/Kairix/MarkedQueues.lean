import Mathlib

/-!
# Queues with markers and counters

Every item has a marker which may name a queue, and every queue has a counter.
Contents, marker and counter are updated one after the other inside the
critical section of the queue, except that the counter may also be lowered
after the section.  `Agrees` says how far the three agree at each stage of the
section; outside of it they agree up to lowerings which are still pending.
-/

namespace MarkedQueues

variable {κ τ : Type*}

/-- How far the critical section of a queue has come.  An item is carried while
it is marked but not in the queue. -/
inductive Stage (τ : Type*) where
  | quiet
  | adding (item : τ)
  | counting (item : τ)
  | carrying (item : τ)
  | leaving

namespace Stage

def carried : Stage τ → Option τ
  | .adding item => some item
  | .carrying item => some item
  | _ => none

def uncounted : Stage τ → ℕ
  | .counting _ => 1
  | _ => 0

def overcounted : Stage τ → ℕ
  | .carrying _ => 1
  | .leaving => 1
  | _ => 0

def content (stage : Stage τ) (items : Multiset τ) : Multiset τ :=
  stage.carried.elim items (· ::ₘ items)

variable {stage : Stage τ} {items : Multiset τ}

theorem mem_content {item : τ} :
    item ∈ stage.content items ↔ item ∈ items ∨ stage.carried = some item := by
  cases h : stage.carried with
  | none => simp [content, h]
  | some other => simp [content, h, or_comm, eq_comm]

theorem nodup_content : (stage.content items).Nodup ↔
    items.Nodup ∧ ∀ item, stage.carried = some item → item ∉ items := by
  cases h : stage.carried with
  | none => simp [content, h]
  | some other => simp [content, h, and_comm]

end Stage

structure Agrees (queue : κ) (items : Multiset τ) (count : ℕ) (stage : Stage τ)
    (pending : ℕ) (marker : τ → Option κ) : Prop where
  nodup : items.Nodup
  marked : ∀ item, marker item = some queue ↔ item ∈ items ∨ stage.carried = some item
  apart : ∀ item, stage.carried = some item → item ∉ items
  counting_mem : ∀ item, stage = .counting item → item ∈ items
  count_eq : count + stage.uncounted = items.card + stage.overcounted + pending

variable {queue : κ} {items s' : Multiset τ} {count pending : ℕ} {item : τ}
variable {stage : Stage τ} {marker markerAfter : τ → Option κ}

theorem Agrees.notMem_of_unmarked (hagrees : Agrees queue items count stage pending marker)
    (hmarker : marker item ≠ some queue) : item ∉ items :=
  fun hitem => hmarker ((hagrees.marked item).mpr (.inl hitem))

attribute [local simp] Stage.carried

theorem Agrees.mem_of_marked (hagrees : Agrees queue items count .quiet pending marker)
    (hmarker : marker item = some queue) : item ∈ items :=
  ((hagrees.marked item).mp hmarker).resolve_right (by simp)

theorem Agrees.frame (hagrees : Agrees queue items count stage pending marker)
    (hsame : ∀ item, markerAfter item = some queue ↔ marker item = some queue) :
    Agrees queue items count stage pending markerAfter :=
  { hagrees with marked := fun item => (hsame item).trans (hagrees.marked item) }

theorem Agrees.mark (hagrees : Agrees queue items count .quiet pending marker)
    (hbefore : marker item ≠ some queue) (hafter : markerAfter item = some queue)
    (hother : ∀ other, other ≠ item → markerAfter other = marker other) :
    Agrees queue items count (.adding item) pending markerAfter := by
  have hout := hagrees.notMem_of_unmarked hbefore
  constructor
  case nodup => exact hagrees.nodup
  case marked =>
    intro other
    by_cases hitem : other = item
    · subst other
      simp [hafter]
    · rw [hother other hitem, hagrees.marked other]
      simp [Ne.symm hitem]
  case apart =>
    intro other hother
    obtain rfl : item = other := Option.some.inj hother
    exact hout
  case counting_mem =>
    intro other hother
    cases hother
  case count_eq => exact hagrees.count_eq

/-- The contents stay as they are while the carried item is put down or taken up, and the
counter follows. -/
theorem Agrees.rearrange {countAfter pendingAfter : ℕ} {next : Stage τ}
    (hagrees : Agrees queue items count stage pending marker)
    (hcontent : next.content s' = stage.content items)
    (hcounting : ∀ item, next = .counting item → item ∈ s')
    (hcount : countAfter + next.uncounted = s'.card + next.overcounted + pendingAfter) :
    Agrees queue s' countAfter next pendingAfter marker := by
  have hnodup := Stage.nodup_content.mpr ⟨hagrees.nodup, hagrees.apart⟩
  rw [← hcontent, Stage.nodup_content] at hnodup
  exact {
    nodup := hnodup.1
    marked := fun item => by
      rw [hagrees.marked, ← Stage.mem_content, ← hcontent, Stage.mem_content]
    apart := hnodup.2
    counting_mem := hcounting
    count_eq := hcount }

theorem Agrees.add (hagrees : Agrees queue items count (.adding item) pending marker)
    (hitems : s' = item ::ₘ items) :
    Agrees queue s' count (.counting item) pending marker := by
  have hcount := hagrees.count_eq
  refine hagrees.rearrange hitems (by simp [hitems]) ?_
  simp only [Stage.uncounted, Stage.overcounted, hitems, Multiset.card_cons] at hcount ⊢
  omega

/-! ## Leaving the queue -/

theorem Agrees.pop (hagrees : Agrees queue items count .quiet pending marker)
    (hitems : items = item ::ₘ s') :
    Agrees queue s' count (.carrying item) pending marker := by
  have hcount := hagrees.count_eq
  refine hagrees.rearrange hitems.symm (by simp) ?_
  simpa only [Stage.uncounted, Stage.overcounted, hitems, Multiset.card_cons] using hcount

theorem Agrees.putBack (hagrees : Agrees queue items count (.carrying item) pending marker)
    (hitems : s' = item ::ₘ items) : Agrees queue s' count .quiet pending marker := by
  have hcount := hagrees.count_eq
  refine hagrees.rearrange hitems (by simp) ?_
  simpa only [Stage.uncounted, Stage.overcounted, hitems, Multiset.card_cons] using hcount

theorem Agrees.unmark (hagrees : Agrees queue items count (.carrying item) pending marker)
    (hafter : markerAfter item ≠ some queue)
    (hother : ∀ other, other ≠ item → markerAfter other = marker other) :
    Agrees queue items count .leaving pending markerAfter := by
  have hout := hagrees.apart item rfl
  constructor
  case nodup => exact hagrees.nodup
  case marked =>
    intro other
    by_cases hitem : other = item
    · subst other
      simp [hafter, hout]
    · rw [hother other hitem, hagrees.marked other]
      simp [Ne.symm hitem]
  case apart => simp
  case counting_mem => simp
  case count_eq => exact hagrees.count_eq

theorem Agrees.countDown (hagrees : Agrees queue items count .leaving pending marker) :
    0 < count ∧ Agrees queue items (count - 1) .quiet pending marker := by
  have hcount := hagrees.count_eq
  simp only [Stage.uncounted, Stage.overcounted] at hcount
  exact ⟨by omega, hagrees.rearrange rfl (by simp) (by
    simp only [Stage.uncounted, Stage.overcounted]
    omega)⟩

theorem Agrees.postpone (hagrees : Agrees queue items count .leaving pending marker) :
    Agrees queue items count .quiet (pending + 1) marker := by
  have hcount := hagrees.count_eq
  refine hagrees.rearrange rfl (by simp) ?_
  simp only [Stage.uncounted, Stage.overcounted] at hcount ⊢
  omega

theorem Agrees.card_pos
    (hagrees : Agrees queue items count stage (pending + 1) marker) : 0 < count := by
  have hcount := hagrees.count_eq
  cases stage with
  | counting item =>
    have hcard := Multiset.card_pos_iff_exists_mem.mpr ⟨item, hagrees.counting_mem item rfl⟩
    simp only [Stage.uncounted, Stage.overcounted] at hcount
    omega
  | quiet | adding item | carrying item | leaving => simp only [Stage.uncounted] at hcount; omega

theorem Agrees.settle (hagrees : Agrees queue items count stage (pending + 1) marker) :
    0 < count ∧ Agrees queue items (count - 1) stage pending marker := by
  have hpos := hagrees.card_pos
  have hcount := hagrees.count_eq
  exact ⟨hpos, { hagrees with count_eq := by omega }⟩

theorem Agrees.shuffle (hagrees : Agrees queue items count stage pending marker)
    (hitems : s' = items) : Agrees queue s' count stage pending marker := by
  rwa [hitems]

end MarkedQueues
