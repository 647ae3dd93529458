import Mathlib.Data.List.Nodup
import Mathlib.Logic.Function.Basic
import Mathlib.Tactic

/-!
# Doubly linked lists threaded through a memory

Every cell of a memory holds the names of its two neighbours.  `Linked` says
which list of cells the links describe, and the two lemmas about it are the
pointer updates of an insertion in front and of a removal anywhere.
-/

namespace LinkedCells

open List

variable {κ : Type*}

/-- The cells of `cells` are chained in this order, with `stop` at both
ends. -/
structure Linked (previous next : κ → κ) (stop head : κ) (cells : List κ) :
    Prop where
  head_eq : head = cells.headD stop
  nodup : cells.Nodup
  stop_notMem : stop ∉ cells
  previous_eq : ∀ before cell after, cells = before ++ cell :: after →
    previous cell = before.getLastD stop
  next_eq : ∀ before cell after, cells = before ++ cell :: after → next cell = after.headD stop

variable {previous next : κ → κ} {stop head : κ} {cells : List κ}

theorem Linked.nil : Linked previous next stop stop [] where
  head_eq := rfl
  nodup := nodup_nil
  stop_notMem := not_mem_nil
  previous_eq := by simp
  next_eq := by simp

theorem headD_mem_or (stop : κ) (cells : List κ) :
    cells.headD stop = stop ∨ cells.headD stop ∈ cells := by
  cases cells with
  | nil => exact .inl rfl
  | cons first rest => exact .inr mem_cons_self

theorem getLastD_mem_or (stop : κ) (cells : List κ) :
    cells.getLastD stop = stop ∨ cells.getLastD stop ∈ cells := by
  rcases eq_nil_or_concat' cells with rfl | ⟨front, last, rfl⟩
  · exact .inl rfl
  · exact .inr (by simp)

variable {cell : κ} {previousAfter nextAfter : κ → κ} {headAfter : κ}

/-- Following `next` from `head` visits the cells of the list and ends at
`stop`. -/
def Chain (next : κ → κ) (stop : κ) : κ → List κ → Prop
  | head, [] => head = stop
  | head, cell :: rest => head = cell ∧ cell ≠ stop ∧ Chain next stop (next cell) rest

theorem Chain.stop_notMem (hchain : Chain next stop head cells) : stop ∉ cells := by
  induction cells generalizing head with
  | nil => exact not_mem_nil
  | cons cell rest ih =>
    obtain ⟨-, hne, hrest⟩ := hchain
    rw [mem_cons, not_or]
    exact ⟨hne.symm, ih hrest⟩

theorem Chain.congr (hchain : Chain next stop head cells)
    (hnext : ∀ cell ∈ cells, nextAfter cell = next cell) : Chain nextAfter stop head cells := by
  induction cells generalizing head with
  | nil => exact hchain
  | cons cell rest ih =>
    obtain ⟨hhead, hne, hrest⟩ := hchain
    refine ⟨hhead, hne, ?_⟩
    rw [hnext cell mem_cons_self]
    exact ih hrest fun other hother => hnext other (mem_cons_of_mem _ hother)

theorem Chain.unlink {before s' : List κ} (hchain : Chain next stop head (before ++ cell :: s'))
    (hnodup : (before ++ cell :: s').Nodup)
    (hother : ∀ other ∈ before ++ s', before.getLast? ≠ some other → nextAfter other = next other)
    (hprevious : ∀ previous, before.getLast? = some previous → nextAfter previous = next cell) :
    Chain nextAfter stop (if before = [] then next cell else head) (before ++ s') := by
  induction before generalizing head with
  | nil =>
    obtain ⟨-, -, hrest⟩ := hchain
    rw [if_pos rfl]
    refine hrest.congr fun other hmem => hother other hmem ?_
    simp
  | cons first rest ih =>
    obtain ⟨hhead, hne, hrest⟩ := hchain
    rw [if_neg (cons_ne_nil _ _)]
    refine ⟨hhead, hne, ?_⟩
    rw [cons_append, nodup_cons] at hnodup
    cases rest with
    | nil =>
      obtain ⟨-, -, hafter⟩ := hrest
      rw [hprevious first rfl]
      refine hafter.congr fun other hmem => hother other (mem_cons_of_mem _ hmem) ?_
      intro hlast
      obtain rfl : first = other := by simpa using hlast
      exact hnodup.1 (by simp [hmem])
    | cons second rest =>
      have hlast : (first :: second :: rest).getLast? = (second :: rest).getLast? :=
        getLast?_cons_cons
      have hfirst : nextAfter first = next first := by
        refine hother first mem_cons_self ?_
        rw [hlast]
        intro heq
        exact hnodup.1 (mem_append_left _ (mem_of_getLast? heq))
      rw [hfirst]
      have hunlinked := ih hrest hnodup.2
        (fun other hmem hne => hother other (mem_cons_of_mem _ hmem) (by rwa [hlast]))
        (fun previous hprev => hprevious previous (by rwa [hlast]))
      simpa using hunlinked

theorem chain_iff : Chain next stop head cells ↔ head = cells.headD stop ∧ stop ∉ cells ∧
    ∀ before cell s', cells = before ++ cell :: s' → next cell = s'.headD stop := by
  induction cells generalizing head with
  | nil => simp [Chain]
  | cons first rest ih =>
    rw [Chain, ih]
    constructor
    · rintro ⟨hhead, hne, hnext, hstop, hrest⟩
      refine ⟨hhead, by simp [hne.symm, hstop], fun before cell s' hsplit => ?_⟩
      cases before with
      | nil =>
        obtain ⟨rfl, rfl⟩ := cons.inj hsplit
        exact hnext
      | cons second before =>
        exact hrest before cell s' (cons.inj hsplit).2
    · rintro ⟨hhead, hstop, hnext⟩
      rw [mem_cons, not_or] at hstop
      refine ⟨hhead, Ne.symm hstop.1, hnext [] first rest rfl, hstop.2, ?_⟩
      rintro before cell s' rfl
      exact hnext (first :: before) cell s' rfl

/-- The links are two chains, one in each direction. -/
theorem linked_iff : Linked previous next stop head cells ↔ cells.Nodup ∧
    Chain next stop head cells ∧ Chain previous stop (cells.getLastD stop) cells.reverse := by
  have hlast : cells.getLastD stop = cells.reverse.headD stop := by simp
  simp only [chain_iff, mem_reverse, hlast, true_and]
  constructor
  · rintro ⟨hhead, hnodup, hstop, hprevious, hnext⟩
    refine ⟨hnodup, ⟨hhead, hstop, hnext⟩, hstop, fun before cell s' hsplit => ?_⟩
    rw [hprevious s'.reverse cell before.reverse (by simpa using congrArg reverse hsplit)]
    simp
  · rintro ⟨hnodup, ⟨hhead, hstop, hnext⟩, -, hprevious⟩
    refine ⟨hhead, hnodup, hstop, fun before cell s' hsplit => ?_, hnext⟩
    rw [hprevious s'.reverse cell before.reverse (by simp [hsplit])]
    simp

theorem Chain.bypass {before s' : List κ} (hchain : Chain next stop head (before ++ cell :: s'))
    (hnodup : (before ++ cell :: s').Nodup)
    (hnext : ∀ other ∈ before ++ s', other ≠ before.getLastD stop → nextAfter other = next other)
    (hlast : before.getLastD stop ≠ stop → nextAfter (before.getLastD stop) = next cell) :
    Chain nextAfter stop ((before ++ s').headD stop) (before ++ s') := by
  have hstop := hchain.stop_notMem
  simp only [mem_append, mem_cons, not_or] at hstop
  have hunlinked : Chain nextAfter stop _ (before ++ s') :=
    hchain.unlink hnodup (fun other hmem hother => hnext other hmem ?_) fun last hbefore => ?_
  · rwa [(chain_iff.1 hunlinked).1] at hunlinked
  · rintro rfl
    rcases eq_nil_or_concat' before with rfl | ⟨front, last, rfl⟩
    · exact hstop.2.2 hmem
    · exact hother (by simp)
  · have heq : before.getLastD stop = last := by simp [getLastD_eq_getLast?, hbefore]
    rw [heq] at hlast
    exact hlast fun hend => hstop.1 (hend ▸ mem_of_getLast? hbefore)

theorem Linked.reverse (hlinked : Linked previous next stop head cells) :
    Linked next previous stop (cells.getLastD stop) cells.reverse := by
  obtain ⟨hnodup, hforward, hbackward⟩ := linked_iff.1 hlinked
  refine linked_iff.2 ⟨nodup_reverse.2 hnodup, hbackward, ?_⟩
  simpa [hlinked.head_eq] using hforward

theorem Linked.head_mem (hlinked : Linked previous next stop head cells) (hne : head ≠ stop) :
    head ∈ cells := by
  have hhead := hlinked.head_eq
  cases cells with
  | nil => exact absurd hhead hne
  | cons first rest =>
    rw [hhead]
    exact mem_cons_self

section

variable (hlinked : Linked previous next stop head cells)
include hlinked

section

variable (hmem : cell ∈ cells)
include hmem

theorem Linked.next_mem_or :
    next cell = stop ∨ next cell ∈ cells := by
  obtain ⟨before, s', rfl⟩ := append_of_mem hmem
  rw [hlinked.next_eq before cell s' rfl]
  refine (headD_mem_or stop s').imp_right fun h => ?_
  exact mem_append_right _ (mem_cons_of_mem _ h)

theorem Linked.previous_mem_or : previous cell = stop ∨ previous cell ∈ cells := by
  simpa using hlinked.reverse.next_mem_or (mem_reverse.2 hmem)

theorem Linked.next_previous (hprevious : previous cell ≠ stop) : next (previous cell) = cell := by
  obtain ⟨before, s', rfl⟩ := append_of_mem hmem
  rw [hlinked.previous_eq before cell s' rfl] at hprevious ⊢
  rcases eq_nil_or_concat' before with rfl | ⟨front, last, rfl⟩
  · exact absurd rfl hprevious
  · simpa using hlinked.next_eq front last (cell :: s') (by simp)

theorem Linked.previous_next (hnext : next cell ≠ stop) : previous (next cell) = cell :=
  hlinked.reverse.next_previous (mem_reverse.2 hmem) hnext

theorem Linked.previous_ne_next (hprevious : previous cell ≠ stop) : previous cell ≠ next cell := by
  obtain ⟨before, s', rfl⟩ := append_of_mem hmem
  have hnodup := hlinked.nodup
  rw [nodup_append'] at hnodup
  rw [hlinked.previous_eq before cell s' rfl] at hprevious ⊢
  rw [hlinked.next_eq before cell s' rfl]
  intro heq
  have hlast := (getLastD_mem_or stop before).resolve_left hprevious
  have hfirst := (headD_mem_or stop s').resolve_left (heq ▸ hprevious)
  exact hnodup.2.2 hlast (mem_cons_of_mem _ (heq ▸ hfirst))

theorem Linked.head_of_previous_stop (hprevious : previous cell = stop) : head = cell := by
  obtain ⟨before, s', rfl⟩ := append_of_mem hmem
  rw [hlinked.previous_eq before cell s' rfl] at hprevious
  rcases eq_nil_or_concat' before with rfl | ⟨front, last, rfl⟩
  · exact hlinked.head_eq
  · have hlast : last = stop := by simpa using hprevious
    exact absurd (by simp [hlast]) hlinked.stop_notMem

end

theorem Linked.previous_head (hne : head ≠ stop) : previous head = stop := by
  have hhead := hlinked.head_eq
  cases cells with
  | nil => exact absurd hhead hne
  | cons first rest =>
    rw [hhead]
    exact hlinked.previous_eq [] first rest rfl

end

inductive Follows (next : κ → κ) (stop head : κ) : κ → Prop
  | head : head ≠ stop → Follows next stop head head
  | next {cell : κ} : Follows next stop head cell → next cell ≠ stop →
      Follows next stop head (next cell)

section

variable (hlinked : Linked previous next stop head cells)
include hlinked

theorem Linked.follows_iff (cell : κ) : Follows next stop head cell ↔ cell ∈ cells := by
  constructor
  · intro hfollows
    induction hfollows with
    | head hne => exact hlinked.head_mem hne
    | next _ hne ih => exact (hlinked.next_mem_or ih).resolve_left hne
  · intro hmem
    obtain ⟨before, s', hsplit⟩ := append_of_mem hmem
    have hne : ∀ other ∈ cells, other ≠ stop := by
      rintro other hother rfl
      exact hlinked.stop_notMem hother
    induction before using reverseRecOn generalizing cell s' with
    | nil =>
      have hhead : head = cell := by simpa [hsplit] using hlinked.head_eq
      rw [← hhead]
      exact Follows.head (hhead ▸ hne cell hmem)
    | append_singleton before last ih =>
      have hlast : cells = before ++ last :: cell :: s' := by simpa using hsplit
      have hnext : next last = cell := hlinked.next_eq before last _ hlast
      have hprior := ih last (by simp [hlast]) (cell :: s') hlast
      rw [← hnext]
      exact Follows.next hprior (hnext ▸ hne cell hmem)

theorem Linked.congr (hprevious : ∀ cell ∈ cells, previousAfter cell = previous cell)
    (hnext : ∀ cell ∈ cells, nextAfter cell = next cell) :
    Linked previousAfter nextAfter stop head cells where
  head_eq := hlinked.head_eq
  nodup := hlinked.nodup
  stop_notMem := hlinked.stop_notMem
  previous_eq before cell s' hsplit := by
    rw [hprevious cell (by simp [hsplit])]
    exact hlinked.previous_eq before cell s' hsplit
  next_eq before cell s' hsplit := by
    rw [hnext cell (by simp [hsplit])]
    exact hlinked.next_eq before cell s' hsplit

theorem Linked.push (hfresh : cell ∉ cells) (hcell : cell ≠ stop)
    (hcellPrevious : previousAfter cell = stop) (hcellNext : nextAfter cell = head)
    (hheadPrevious : head ≠ stop → previousAfter head = cell)
    (hprevious : ∀ other ∈ cells, other ≠ head → previousAfter other = previous other)
    (hnext : ∀ other ∈ cells, nextAfter other = next other) :
    Linked previousAfter nextAfter stop cell (cell :: cells) where
  head_eq := rfl
  nodup := nodup_cons.mpr ⟨hfresh, hlinked.nodup⟩
  stop_notMem := by
    simpa using ⟨hcell.symm, hlinked.stop_notMem⟩
  previous_eq := by
    intro before other s' hsplit
    cases before with
    | nil =>
      obtain ⟨rfl, -⟩ := cons.inj hsplit
      exact hcellPrevious
    | cons first front =>
      obtain ⟨rfl, hcells⟩ := cons.inj hsplit
      change cells = front ++ other :: s' at hcells
      cases front with
      | nil =>
        have hother : other = head := by
          rw [hlinked.head_eq, hcells]
          rfl
        subst hother
        have hne : other ≠ stop := by
          intro hstop
          exact hlinked.stop_notMem (by simp [hcells, hstop])
        simpa using hheadPrevious hne
      | cons second rest =>
        have hne : other ≠ head := by
          intro hother
          have hnodup := hlinked.nodup
          rw [hlinked.head_eq, hcells] at hother
          rw [hcells, cons_append, nodup_cons] at hnodup
          have hsecond : other = second := hother
          exact hnodup.1 (by simp [← hsecond])
        rw [hprevious other (by simp [hcells]) hne,
          hlinked.previous_eq (second :: rest) other s' hcells]
        simp
  next_eq := by
    intro before other s' hsplit
    cases before with
    | nil =>
      obtain ⟨rfl, rfl⟩ := cons.inj hsplit
      rw [hcellNext, hlinked.head_eq]
    | cons first front =>
      obtain ⟨rfl, hcells⟩ := cons.inj hsplit
      rw [hnext other (by simp [hcells])]
      exact hlinked.next_eq front other s' hcells

end

theorem Linked.remove [DecidableEq κ] {before s' : List κ}
    (hlinked : Linked previous next stop head (before ++ cell :: s'))
    (hhead : headAfter = if previous cell = stop then next cell else head)
    (hprevious : ∀ other ∈ before ++ s', other ≠ next cell → previousAfter other = previous other)
    (hnextPrevious : next cell ≠ stop → previousAfter (next cell) = previous cell)
    (hnext : ∀ other ∈ before ++ s', other ≠ previous cell → nextAfter other = next other)
    (hpreviousNext : previous cell ≠ stop → nextAfter (previous cell) = next cell) :
    Linked previousAfter nextAfter stop headAfter (before ++ s') := by
  obtain ⟨hnodup, hforward, hbackward⟩ := linked_iff.1 hlinked
  have hcellPrevious := hlinked.previous_eq before cell s' rfl
  have hcellNext := hlinked.next_eq before cell s' rfl
  have hreverse : (before ++ cell :: s').reverse = s'.reverse ++ cell :: before.reverse := by
    simp
  have hlast : s'.reverse.getLastD stop = s'.headD stop := by simp
  rw [hcellPrevious] at hnext hpreviousNext hhead
  rw [hcellNext, ← hlast] at hprevious hnextPrevious
  rw [hreverse] at hbackward
  have hfirst : headAfter = (before ++ s').headD stop := by
    cases before with
    | nil => simpa [hcellNext] using hhead
    | cons first front =>
      have hmem : (first :: front).getLastD stop ∈ first :: front := by
        rw [getLastD_cons, mem_cons]
        exact getLastD_mem_or first front
      have hne : (first :: front).getLastD stop ≠ stop := fun heq =>
        hlinked.stop_notMem (mem_append_left _ (heq ▸ hmem))
      rw [hhead, if_neg hne, hlinked.head_eq]
      rfl
  refine linked_iff.2 ⟨hnodup.sublist (by simp), ?_, ?_⟩
  · rw [hfirst]
    exact hforward.bypass hnodup hnext hpreviousNext
  · have hchain := hbackward.bypass (hreverse ▸ nodup_reverse.2 hnodup)
      (fun other hmem => hprevious other (by simpa [or_comm] using hmem)) hnextPrevious
    simpa using hchain

end LinkedCells
