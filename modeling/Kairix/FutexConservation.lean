import Kairix.FutexTable
import Kairix.LabelledRun

/-!
# Conservation of futex waiters

Every waiter which has been queued is either in the table or has left it once,
for one cause.  A call which wakes or moves waiters accounts for all waiters of
the queues it works on: the ones it wakes, the ones it moves, the ones it leaves,
and the other entries of the `futex_waitv` tasks it wakes, which disappear.
-/

namespace Kairix.Futex

open LabelledRun List

variable {κ τ : Type*}

theorem takeMatching_fst
    (test : TableWaiter κ τ → Bool) (limit : ℕ) (queue : List (TableWaiter κ τ)) :
    (takeMatching test limit queue).1 = (queue.filter test).take limit := by
  induction queue generalizing limit with
  | nil => simp [takeMatching]
  | cons waiter rest ih =>
    rw [takeMatching]
    split
    · next htest =>
      obtain ⟨count, rfl⟩ : ∃ count, limit = count + 1 := ⟨limit - 1, by omega⟩
      simp [htest.2, ih]
    · next htest =>
      rw [ih]
      by_cases hwaiter : test waiter = true
      · have hlimit : limit = 0 := by
          by_contra hpos
          exact htest ⟨Nat.pos_of_ne_zero hpos, hwaiter⟩
        simp [hlimit]
      · simp [hwaiter]

theorem takeMatching_perm
    (test : TableWaiter κ τ → Bool) (limit : ℕ) (queue : List (TableWaiter κ τ)) :
    queue.Perm ((takeMatching test limit queue).1 ++ (takeMatching test limit queue).2) := by
  induction queue generalizing limit with
  | nil => simp [takeMatching]
  | cons waiter rest ih =>
    rw [takeMatching]
    split
    · exact (ih (limit - 1)).cons waiter
    · exact ((ih limit).cons waiter).trans perm_middle.symm

theorem queue_split (queue : List (TableWaiter κ τ)) (nrWake nrRequeue : ℕ) :
    queue = queue.take nrWake ++ ((queue.drop nrWake).take nrRequeue ++
      (queue.drop nrWake).drop nrRequeue) := by
  rw [take_append_drop, take_append_drop]

namespace TableState

variable [LinearOrder κ]

def tickets (state : TableState κ τ) : List ℕ :=
  state.table.elements.map TableWaiter.ticket ++ state.departed.map Prod.fst

def Conserved (state : TableState κ τ) : Prop :=
  state.tickets.Perm (range state.issued)

variable {s : TableState κ τ}

theorem Conserved.depart {left : QueueTable κ (TableWaiter κ τ)}
    {gone others : List (TableWaiter κ τ)} {cause other : Cause} (hconserved : s.Conserved)
    (hperm : s.table.elements.Perm (left.elements ++ (gone ++ others))) :
    (({ s with table := left }.depart cause gone).depart other others).Conserved := by
  refine Perm.trans ?_ hconserved
  have htickets := hperm.map TableWaiter.ticket
  simp only [tickets, TableState.depart, map_append, map_map,
    Function.comp_def] at htickets ⊢
  rw [← Multiset.coe_eq_coe] at htickets ⊢
  simp only [← Multiset.coe_add] at htickets ⊢
  rw [htickets]
  abel

theorem Conserved.leave {left : QueueTable κ (TableWaiter κ τ)} {gone : List (TableWaiter κ τ)}
    {cause : Cause} (hconserved : s.Conserved)
    (hperm : s.table.elements.Perm (left.elements ++ gone)) :
    ({ s with table := left }.depart cause gone).Conserved := by
  have hnone : ∀ other : TableState κ τ, other.depart cause [] = other := by
    intro other
    simp [TableState.depart]
  have hboth : (({ s with table := left }.depart cause gone).depart cause []).Conserved := by
    refine hconserved.depart ?_
    rw [append_nil]
    exact hperm
  rw [hnone] at hboth
  exact hboth

theorem Conserved.enqueue (hconserved : s.Conserved) (key : κ) (task : τ) (bitset : Word)
    (deadline wakeIndex : Option ℕ) (target : Option κ) :
    (s.enqueue key task bitset deadline wakeIndex target).Conserved := by
  rw [Conserved] at hconserved ⊢
  have hadded := (s.table.elements_perm_of_added key
    [⟨task, bitset, deadline, wakeIndex, false, target, s.issued⟩]).map TableWaiter.ticket
  simp only [tickets, TableState.enqueue, range_succ, map_append,
    map_cons, map_nil] at hadded hconserved ⊢
  rw [← Multiset.coe_eq_coe] at hadded hconserved ⊢
  simp only [← Multiset.coe_add] at hadded hconserved ⊢
  rw [hadded, ← hconserved]
  abel

variable {task : τ} {deadline : Option ℕ}

theorem Conserved.enqueueAll {entries : List (WaitvEntry κ)} {index : ℕ}
    (hconserved : s.Conserved) : (enqueueAll task deadline index entries s).Conserved := by
  induction entries generalizing index s with
  | nil => exact hconserved
  | cons entry rest ih =>
    rw [TableState.enqueueAll]
    exact ih (hconserved.enqueue _ _ _ _ _ _)

def requeued (state : TableState κ τ) (key target : κ) (nrWake nrRequeue : ℕ) :
    QueueTable κ (TableWaiter κ τ) :=
  let queue := state.table.queue key
  let moved := (queue.drop nrWake).take nrRequeue
  let left := state.table.put key ((queue.drop nrWake).drop nrRequeue)
  if moved.isEmpty = true then left else left.put target (left.queue target ++ moved)

theorem elements_perm_requeued (key target : κ) (nrWake nrRequeue : ℕ) :
    s.table.elements.Perm ((s.requeued key target nrWake nrRequeue).elements ++
      (s.table.queue key).take nrWake) := by
  have hsplit : (s.table.queue key).Perm (((s.table.queue key).take nrWake ++
      ((s.table.queue key).drop nrWake).take nrRequeue) ++
        ((s.table.queue key).drop nrWake).drop nrRequeue) := by
    rw [append_assoc, ← queue_split]
  have htaken := QueueTable.elements_perm_of_taken hsplit
  rw [requeued]
  split
  · next hempty =>
    rw [isEmpty_iff.mp hempty, append_nil] at htaken
    exact htaken.trans perm_append_comm
  · have hadded := (s.table.put key
      (((s.table.queue key).drop nrWake).drop nrRequeue)).elements_perm_of_added target
        (((s.table.queue key).drop nrWake).take nrRequeue)
    refine htaken.trans (Perm.trans ?_ (hadded.symm.append_right _))
    rw [← Multiset.coe_eq_coe]
    simp only [← Multiset.coe_add]
    abel

theorem queue_requeued_of_ne {key target : κ} (hne : key ≠ target) (nrWake nrRequeue : ℕ) :
    (s.requeued key target nrWake nrRequeue).queue key =
        ((s.table.queue key).drop nrWake).drop nrRequeue ∧
      (s.requeued key target nrWake nrRequeue).queue target =
        s.table.queue target ++ ((s.table.queue key).drop nrWake).take nrRequeue := by
  rw [requeued]
  split
  · next hempty =>
    rw [isEmpty_iff.mp hempty, append_nil, QueueTable.queue_put_self,
      QueueTable.queue_put_of_ne _ (Ne.symm hne)]
    exact ⟨rfl, rfl⟩
  · rw [QueueTable.queue_put_of_ne _ hne, QueueTable.queue_put_self,
      QueueTable.queue_put_self, QueueTable.queue_put_of_ne _ (Ne.symm hne)]
    exact ⟨rfl, rfl⟩

theorem queue_requeued_self (key : κ) (nrWake nrRequeue : ℕ) :
    (s.requeued key key nrWake nrRequeue).queue key =
      ((s.table.queue key).drop nrWake).drop nrRequeue ++
        ((s.table.queue key).drop nrWake).take nrRequeue := by
  rw [requeued]
  split
  · next hempty => rw [isEmpty_iff.mp hempty, append_nil, QueueTable.queue_put_self]
  · rw [QueueTable.queue_put_self, QueueTable.queue_put_self]

def collected (state : TableState κ τ) (key second : κ) (nrWake limit : ℕ) :
    QueueTable κ (TableWaiter κ τ) :=
  let first := state.table.put key ((state.table.queue key).drop nrWake)
  first.put second ((first.queue second).drop limit)

def secondQueue (state : TableState κ τ) (key second : κ) (nrWake : ℕ) : List (TableWaiter κ τ) :=
  (state.table.put key ((state.table.queue key).drop nrWake)).queue second

theorem elements_perm_collected (key second : κ) (nrWake limit : ℕ) :
    s.table.elements.Perm ((s.collected key second nrWake limit).elements ++
      ((s.table.queue key).take nrWake ++ (s.secondQueue key second nrWake).take limit)) := by
  have hfirst : s.table.elements.Perm ((s.table.queue key).take nrWake ++
      (s.table.put key ((s.table.queue key).drop nrWake)).elements) :=
    QueueTable.elements_perm_of_taken (by rw [take_append_drop])
  have hsecond : (s.table.put key ((s.table.queue key).drop nrWake)).elements.Perm
      ((s.secondQueue key second nrWake).take limit ++
        (s.collected key second nrWake limit).elements) :=
    QueueTable.elements_perm_of_taken (by rw [secondQueue, take_append_drop])
  refine hfirst.trans ((hsecond.append_left _).trans ?_)
  rw [← Multiset.coe_eq_coe]
  simp only [← Multiset.coe_add]
  abel

end TableState

/-! ## Commits -/

section Commits

variable [DecidableEq τ]

theorem ofTask_perm (task : τ) (waiters : List (TableWaiter κ τ)) :
    waiters.Perm (ofTask task waiters ++ notOfTask task waiters) := by
  have hsplit := filter_append_perm (fun waiter => decide (waiter.task = task)) waiters
  simp only [ofTask, notOfTask]
  refine hsplit.symm.trans ?_
  simp

def claims (woken : List (TableWaiter κ τ)) (task : τ) : Bool :=
  woken.any fun waiter => waiter.wakeIndex.isSome && decide (waiter.task = task)

def unclaimed (woken waiters : List (TableWaiter κ τ)) : List (TableWaiter κ τ) :=
  waiters.filter fun waiter => !claims woken waiter.task

theorem claims_iff {woken : List (TableWaiter κ τ)} {task : τ} :
    claims woken task = true ↔ ∃ waiter ∈ woken, waiter.wakeIndex ≠ none ∧ waiter.task = task := by
  simp [claims, any_eq_true, Option.isSome_iff_ne_none]

theorem unclaimed_cons_of_none {waiter : TableWaiter κ τ} (hindex : waiter.wakeIndex = none)
    (woken waiters : List (TableWaiter κ τ)) :
    unclaimed (waiter :: woken) waiters = unclaimed woken waiters := by
  apply filter_congr
  intro other _
  simp [claims, hindex]

theorem unclaimed_cons_of_waitv {waiter : TableWaiter κ τ} (hindex : waiter.wakeIndex ≠ none)
    (woken waiters : List (TableWaiter κ τ)) :
    unclaimed (waiter :: woken) waiters =
      unclaimed woken (waiters.filter fun other => other.task ≠ waiter.task) := by
  have hwaitv : waiter.wakeIndex.isSome = true := Option.isSome_iff_ne_none.mpr hindex
  rw [unclaimed, unclaimed, filter_filter]
  apply filter_congr
  intro other _
  by_cases htask : other.task = waiter.task
  · simp [claims, hwaitv, htask]
  · simp [claims, hwaitv, htask, Ne.symm htask]

variable [LinearOrder κ]

variable (table : QueueTable κ (TableWaiter κ τ)) (selected : List (TableWaiter κ τ))

attribute [local simp] commitSelections

theorem commitSelections_perm :
    (table.elements ++ selected).Perm ((commitSelections table selected).table.elements ++
      ((commitSelections table selected).woken ++
        (commitSelections table selected).discarded)) := by
  induction table, selected using commitSelections.induct with
  | case1 table => simp
  | case2 table waiter rest hindex ih =>
    rw [commitSelections, if_pos hindex]
    exact perm_middle.trans ((ih.cons waiter).trans perm_middle.symm)
  | case3 table waiter rest hindex ih =>
    have hqueued := ofTask_perm waiter.task table.elements
    have hrest := ofTask_perm waiter.task rest
    have hkept : (removeWaitvSiblings table waiter.task).elements =
        notOfTask waiter.task table.elements := table.elements_retain _
    rw [hkept] at ih
    rw [commitSelections, if_neg hindex]
    rw [← Multiset.coe_eq_coe] at ih hqueued hrest ⊢
    simp only [← Multiset.coe_add, ← Multiset.cons_coe] at ih hqueued hrest ⊢
    have hregroup : ∀ first second third fourth : Multiset (TableWaiter κ τ),
        first + second + ({waiter} + (third + fourth)) =
          {waiter} + (third + first) + (second + fourth) := by
      intro first second third fourth
      abel
    simp only [← Multiset.singleton_add]
    rw [hqueued, hrest, hregroup, ih]
    abel

theorem commitSelections_sublist : (commitSelections table selected).woken.Sublist selected := by
  induction table, selected using commitSelections.induct with
  | case1 table => simp
  | case2 table waiter rest hindex ih =>
    rw [commitSelections, if_pos hindex]
    exact ih.cons_cons waiter
  | case3 table waiter rest hindex ih =>
    rw [commitSelections, if_neg hindex]
    exact (ih.trans filter_sublist).cons_cons waiter

theorem commitSelections_read
    (read : QueueTable κ (TableWaiter κ τ) → List (TableWaiter κ τ))
    (hread : ∀ table task, read (removeWaitvSiblings table task) =
      (read table).filter fun other => other.task ≠ task) :
    read (commitSelections table selected).table =
      unclaimed (commitSelections table selected).woken (read table) := by
  induction table, selected using commitSelections.induct with
  | case1 table => simp [unclaimed, claims]
  | case2 table waiter rest hindex ih =>
    rw [commitSelections, if_pos hindex, ih, unclaimed_cons_of_none hindex]
  | case3 table waiter rest hindex ih =>
    rw [commitSelections, if_neg hindex, ih, unclaimed_cons_of_waitv hindex, hread]

theorem commitSelections_queue (key : κ) : (commitSelections table selected).table.queue key =
      unclaimed (commitSelections table selected).woken (table.queue key) :=
  commitSelections_read _ _ (·.queue key) fun table _ => table.queue_retain ..

theorem commitSelections_elements : (commitSelections table selected).table.elements =
      unclaimed (commitSelections table selected).woken table.elements :=
  commitSelections_read _ _ (·.elements) fun table _ => table.elements_retain ..

theorem commitSelections_selected :
    ∃ dropped, selected.Perm ((commitSelections table selected).woken ++ dropped) ∧
      ∀ waiter ∈ dropped, claims (commitSelections table selected).woken waiter.task = true := by
  induction table, selected using commitSelections.induct with
  | case1 table => exact ⟨[], by simp⟩
  | case2 table waiter rest hindex ih =>
    obtain ⟨dropped, hperm, hclaims⟩ := ih
    rw [commitSelections, if_pos hindex]
    refine ⟨dropped, hperm.cons waiter, ?_⟩
    intro other hother
    simpa [claims, hindex] using hclaims other hother
  | case3 table waiter rest hindex ih =>
    obtain ⟨dropped, hperm, hclaims⟩ := ih
    rw [commitSelections, if_neg hindex]
    refine ⟨ofTask waiter.task rest ++ dropped, ?_, ?_⟩
    · refine Perm.cons waiter ((ofTask_perm waiter.task rest).trans ?_)
      exact (hperm.append_left _).trans (perm_append_comm_assoc _ _ _)
    · intro other hother
      rcases mem_append.mp hother with hsame | hold
      · have htask : other.task = waiter.task := by
          simpa using (mem_filter.mp hsame).2
        simp [claims, Option.isSome_iff_ne_none, hindex, htask]
      · have hlater := hclaims other hold
        rw [claims] at hlater ⊢
        simp [any_cons, hlater]

/-- The waiters of a queue are woken, stay in the table, or disappear with a woken
entry of their task.  None disappears if no task is queued twice. -/
def Accounts (queue woken rest : List (TableWaiter κ τ)) : Prop :=
  (∃ discarded, queue.Perm (woken ++ rest ++ discarded) ∧
    ∀ waiter ∈ discarded, claims woken waiter.task = true) ∧
  ((queue.map TableWaiter.task).Nodup → queue.length = woken.length + rest.length)

omit [LinearOrder κ] in
theorem accounts_of_perm {queue woken rest discarded : List (TableWaiter κ τ)}
    (hperm : queue.Perm (woken ++ rest ++ discarded))
    (hclaims : ∀ waiter ∈ discarded, claims woken waiter.task = true) :
    Accounts queue woken rest := by
  refine ⟨⟨discarded, hperm, hclaims⟩, ?_⟩
  intro hnodup
  have hempty : discarded = [] := by
    rw [eq_nil_iff_forall_not_mem]
    intro waiter hwaiter
    obtain ⟨other, hother, -, htask⟩ := claims_iff.mp (hclaims waiter hwaiter)
    have hsame := (hperm.map TableWaiter.task).nodup_iff.mp hnodup
    rw [map_append] at hsame
    refine disjoint_of_nodup_append hsame ?_ (mem_map_of_mem hwaiter)
    rw [← htask]
    exact mem_map_of_mem (mem_append_left rest hother)
  rw [hperm.length_eq, hempty]
  simp

omit [LinearOrder κ] in
theorem unclaimed_perm (woken waiters : List (TableWaiter κ τ)) :
    waiters.Perm (unclaimed woken waiters ++
      waiters.filter fun waiter => claims woken waiter.task) := by
  have hsplit := filter_append_perm (fun waiter => claims woken waiter.task) waiters
  exact hsplit.symm.trans perm_append_comm

theorem accounts_of_split
    {queue left : List (TableWaiter κ τ)} (hqueue : queue.Perm (selected ++ left)) :
    Accounts queue (commitSelections table selected).woken
      (unclaimed (commitSelections table selected).woken left) := by
  obtain ⟨dropped, hselected, hdropped⟩ := commitSelections_selected table selected
  have hleft := unclaimed_perm (commitSelections table selected).woken left
  have hsplit : (selected ++ left).Perm ((commitSelections table selected).woken ++
      unclaimed (commitSelections table selected).woken left ++ (dropped ++
        left.filter fun waiter =>
          claims (commitSelections table selected).woken waiter.task)) := by
    refine (hselected.append hleft).trans ?_
    rw [← Multiset.coe_eq_coe]
    simp only [← Multiset.coe_add]
    abel
  refine accounts_of_perm (hqueue.trans hsplit) ?_
  · intro waiter hwaiter
    rcases mem_append.mp hwaiter with hdrop | hkept
    · exact hdropped waiter hdrop
    · exact (mem_filter.mp hkept).2

end Commits

/-! ## Runs -/

namespace TableState

variable [DecidableEq τ] [LinearOrder κ] {state s : TableState κ τ}

/-- What a call can do: nothing, a change which wakes nobody, the wake-up of a selection, or
the timeout of a waiter with its siblings. -/
inductive Effect (state : TableState κ τ) : Outcome κ τ → Prop
  | refuses (error : SysError) : Effect state (state.refuse error)
  | changes {after : TableState κ τ} (hafter : state.Conserved → after.Conserved) :
    Effect state after.proceed
  | wakes {left : QueueTable κ (TableWaiter κ τ)} {selected moved : List (TableWaiter κ τ)}
    {stored : Option Word} (hperm : state.table.elements.Perm (left.elements ++ selected)) :
    Effect state (state.wakeSelected left selected moved stored)
  | expires {left : QueueTable κ (TableWaiter κ τ)} {waiter : TableWaiter κ τ}
    {siblings : List (TableWaiter κ τ)}
    (hperm : state.table.elements.Perm (left.elements ++ ([waiter] ++ siblings)))
    (hleft : waiter.wakeIndex ≠ none → ∀ other ∈ left.elements, other.task ≠ waiter.task) :
    Effect state ⟨({ state with table := left }.depart .timedOut [waiter]).depart .sibling siblings,
      none, [], [], [waiter], none⟩

theorem effect_timeoutRound (now : ℕ) : s.Effect (s.timeoutRound now) := by
  rw [TableState.timeoutRound]
  split
  · exact .changes id
  · next key index hsearch =>
    split
    · exact .changes id
    · next waiter hwaiter =>
      obtain ⟨hindex, hget⟩ := List.getElem?_eq_some_iff.mp hwaiter
      have hqueue : (s.table.queue key).Perm ([waiter] ++ (s.table.queue key).eraseIdx index) := by
        rw [← hget]
        exact (getElem_cons_eraseIdx_perm hindex).symm
      have htaken := QueueTable.elements_perm_of_taken hqueue
      split
      · next hsingle =>
        exact .expires (htaken.trans perm_append_comm) fun hindex => absurd hsingle hindex
      · have hkept : (removeWaitvSiblings (s.table.put key
            ((s.table.queue key).eraseIdx index)) waiter.task).elements =
            notOfTask waiter.task (s.table.put key ((s.table.queue key).eraseIdx index)).elements :=
          QueueTable.elements_retain _ _
        refine .expires ?_ fun _ other hother => ?_
        · rw [hkept]
          refine (htaken.trans ((ofTask_perm waiter.task _).append_left [waiter])).trans ?_
          rw [← Multiset.coe_eq_coe]
          simp only [← Multiset.coe_add]
          abel
        · rw [hkept] at hother
          simpa using (mem_filter.mp hother).2

theorem effect_requeueSelected (key target : κ) (nrWake nrRequeue : ℕ) :
    s.Effect (s.requeueSelected key target nrWake nrRequeue) :=
  .wakes (elements_perm_requeued key target nrWake nrRequeue)

theorem effect_perform (call : TableCall κ τ) : s.Effect (s.perform call) := by
  cases call with
  | wait task key value bitset deadline target early observed now =>
    rw [perform, TableState.futexWait]
    split_ifs
    case neg => exact .changes fun hconserved => hconserved.enqueue ..
    all_goals exact .refuses _
  | waitv task entries deadline now =>
    rw [perform, TableState.futexWaitv]
    repeat' split
    case isFalse => exact .changes fun hconserved => hconserved.enqueueAll
    all_goals exact .refuses _
  | wake key nrWake bitset =>
    rw [perform, TableState.futexWake]
    split_ifs
    case neg =>
      exact .wakes ((QueueTable.elements_perm_of_taken (takeMatching_perm _ nrWake _)).trans
        perm_append_comm)
    all_goals exact .refuses _
  | requeue key target nrWake nrRequeue =>
    rw [perform, TableState.futexRequeue]
    split
    · exact .refuses _
    · exact effect_requeueSelected ..
  | cmpRequeue key target nrWake nrRequeue cmpval observed =>
    rw [perform, TableState.futexCmpRequeue]
    split_ifs
    case neg => exact effect_requeueSelected ..
    all_goals exact .refuses _
  | wakeOp key second nrWake nrWake2 encoded old =>
    rw [perform, TableState.futexWakeOp]
    split
    · exact .refuses _
    · split
      · exact .refuses _
      · exact .wakes (elements_perm_collected key second nrWake _)
  | timeout now => exact effect_timeoutRound now
  | removeFromQueue key task =>
    exact .changes fun hconserved => hconserved.leave ((QueueTable.elements_perm_of_taken
      (ofTask_perm task (s.table.queue key))).trans perm_append_comm)
  | removeFromTable task =>
    refine .changes fun hconserved => hconserved.leave ?_
    rw [QueueTable.elements_retain]
    exact (ofTask_perm task s.table.elements).trans perm_append_comm
  | setPiState key owned => exact .changes id

theorem Conserved.perform (hconserved : s.Conserved) (call : TableCall κ τ) :
    (s.perform call).state.Conserved := by
  have heffect := s.effect_perform call
  generalize s.perform call = outcome at heffect ⊢
  cases heffect with
  | refuses => exact hconserved
  | changes hafter => exact hafter hconserved
  | wakes hperm => exact hconserved.depart (hperm.trans (commitSelections_perm ..))
  | expires hperm => exact hconserved.depart hperm

theorem conserved_of_reachable {start : TableState κ τ} (hstart : start.Conserved)
    (hreach : Reachable next always start s) : s.Conserved := by
  refine hreach.invariant hstart ?_
  intro before call s' hbefore _ hstep
  cases hstep
  exact hbefore.perform call

/-! ## What a call accounts for -/

/-- Every waiter which was ever queued is in the table once, or has left it once. -/
def LeavesOnce (state : TableState κ τ) : Prop :=
  ∀ ticket, ticket < state.issued →
    ((state.table.elements.map TableWaiter.ticket).count ticket = 1 ∧
        (state.departed.map Prod.fst).count ticket = 0) ∨
      ((state.table.elements.map TableWaiter.ticket).count ticket = 0 ∧
        (state.departed.map Prod.fst).count ticket = 1)

omit [DecidableEq τ] in
theorem Conserved.leavesOnce (hconserved : s.Conserved) : s.LeavesOnce := by
  intro ticket hticket
  have hcount := hconserved.count_eq ticket
  rw [tickets, count_append, count_eq_one_of_mem nodup_range
    (mem_range.mpr hticket)] at hcount
  omega

/-- A requeue wakes the first waiters of a queue, moves the next ones, and leaves
the others. -/
def Requeues (state : TableState κ τ) (outcome : Outcome κ τ) (key target : κ)
    (nrWake nrRequeue : ℕ) : Prop :=
  outcome.woken.Sublist ((state.table.queue key).take nrWake) ∧
    outcome.moved.length ≤ nrRequeue ∧
    (key ≠ target →
      Accounts (state.table.queue key) outcome.woken
          (unclaimed outcome.woken outcome.moved ++ outcome.state.table.queue key) ∧
        outcome.state.table.queue target =
          unclaimed outcome.woken (state.table.queue target ++ outcome.moved)) ∧
    (key = target → Accounts (state.table.queue key) outcome.woken (outcome.state.table.queue key))

/-- A double wake-up wakes the first waiters of one queue, then those of another. -/
def WakesBoth (state : TableState κ τ) (outcome : Outcome κ τ) (key second : κ)
    (nrWake nrWake2 : ℕ) : Prop :=
  (∃ first rest, outcome.woken = first ++ rest ∧
      first.Sublist ((state.table.queue key).take nrWake) ∧
      rest.Sublist ((state.secondQueue key second nrWake).take nrWake2)) ∧
    (key ≠ second →
      Accounts (state.table.queue key ++ state.table.queue second) outcome.woken
        (outcome.state.table.queue key ++ outcome.state.table.queue second)) ∧
    (key = second → Accounts (state.table.queue key) outcome.woken (outcome.state.table.queue key))

/-- What a call does to the waiters of the queues under its keys. -/
def Accounted (state : TableState κ τ) (call : TableCall κ τ) : Prop :=
  match call with
  | .wake key nrWake bitset =>
    Accounts (state.table.queue key) (state.perform call).woken
        ((state.perform call).state.table.queue key) ∧
      (state.perform call).woken.Sublist
        (((state.table.queue key).filter (TableWaiter.matchesBitset bitset)).take nrWake)
  | .requeue key target nrWake nrRequeue =>
    state.Requeues (state.perform call) key target nrWake nrRequeue
  | .cmpRequeue key target nrWake nrRequeue _ _ =>
    state.Requeues (state.perform call) key target nrWake nrRequeue
  | .wakeOp key second nrWake nrWake2 _ _ =>
    state.WakesBoth (state.perform call) key second nrWake nrWake2
  | _ => True

/-- When an entry of a `futex_waitv` task is woken or times out, no entry of the
task is left. -/
def SiblingsLeave (state : TableState κ τ) (call : TableCall κ τ) : Prop :=
  ∀ waiter ∈ (state.perform call).woken ++ (state.perform call).timedOut,
    waiter.wakeIndex ≠ none →
      ∀ other ∈ (state.perform call).state.table.elements, other.task ≠ waiter.task

omit [LinearOrder κ] in
theorem accounts_nobody (queue : List (TableWaiter κ τ)) : Accounts queue [] queue := by
  have hperm : queue.Perm ([] ++ queue ++ []) := by simp
  exact accounts_of_perm hperm (by simp)

omit [LinearOrder κ] in
theorem unclaimed_nobody (waiters : List (TableWaiter κ τ)) : unclaimed [] waiters = waiters := by
  simp [unclaimed, claims]

theorem requeues_refused (key target : κ) (nrWake nrRequeue : ℕ) (error : SysError) :
    s.Requeues (s.refuse error) key target nrWake nrRequeue := by
  refine ⟨nil_sublist _, Nat.zero_le _, fun _ => ⟨accounts_nobody _, ?_⟩,
    fun _ => accounts_nobody _⟩
  simp [refuse, unclaimed_nobody]

theorem requeues_selected (key target : κ) (nrWake nrRequeue : ℕ) :
    s.Requeues (s.requeueSelected key target nrWake nrRequeue) key target nrWake
      nrRequeue := by
  have hqueue : ∀ place, (s.requeueSelected key target nrWake nrRequeue).state.table.queue
      place = unclaimed (s.requeueSelected key target nrWake nrRequeue).woken
        ((s.requeued key target nrWake nrRequeue).queue place) :=
    commitSelections_queue (s.requeued key target nrWake nrRequeue)
      ((s.table.queue key).take nrWake)
  have hsplit := queue_split (s.table.queue key) nrWake nrRequeue
  refine ⟨commitSelections_sublist _ _, length_take_le _ _, ?_, ?_⟩
  · intro hne
    obtain ⟨hkey, htarget⟩ := s.queue_requeued_of_ne hne nrWake nrRequeue
    refine ⟨?_, ?_⟩
    · rw [hqueue, hkey]
      have haccounts := accounts_of_split (s.requeued key target nrWake nrRequeue)
        ((s.table.queue key).take nrWake) (Perm.of_eq hsplit)
      rw [unclaimed, filter_append] at haccounts
      exact haccounts
    · rw [hqueue, htarget]
      rfl
  · rintro rfl
    rw [hqueue, queue_requeued_self]
    refine accounts_of_split (s.requeued key key nrWake nrRequeue)
      ((s.table.queue key).take nrWake) ((Perm.of_eq hsplit).trans ?_)
    exact perm_append_comm.append_left _

theorem accounted_futexWake (key : κ) (nrWake : ℕ) (bitset : Word) :
    s.Accounted (.wake key nrWake bitset) := by
  rw [Accounted, perform, futexWake]
  split
  · exact ⟨accounts_nobody _, nil_sublist _⟩
  · split
    · exact ⟨accounts_nobody _, nil_sublist _⟩
    · simp only [TableState.wakeSelected, TableState.depart]
      refine ⟨?_, ?_⟩
      · rw [commitSelections_queue, QueueTable.queue_put_self]
        exact accounts_of_split _ _ (takeMatching_perm _ nrWake _)
      · rw [← takeMatching_fst]
        exact commitSelections_sublist _ _

theorem wakesBoth_refused (key second : κ) (nrWake nrWake2 : ℕ) (error : SysError) :
    s.WakesBoth (s.refuse error) key second nrWake nrWake2 :=
  ⟨⟨[], [], rfl, nil_sublist _, nil_sublist _⟩, fun _ => accounts_nobody _,
    fun _ => accounts_nobody _⟩

theorem wakesBoth_collected {key second : κ} {nrWake nrWake2 limit : ℕ} {stored : Option Word}
    (hlimit : limit ≤ nrWake2) :
    s.WakesBoth (s.wakeSelected (s.collected key second nrWake limit)
      ((s.table.queue key).take nrWake ++ (s.secondQueue key second nrWake).take limit)
      [] stored) key second nrWake nrWake2 := by
  have hkey : (s.table.queue key).Perm
      ((s.table.queue key).take nrWake ++ (s.table.queue key).drop nrWake) := by
    rw [take_append_drop]
  have hsecond : (s.secondQueue key second nrWake).Perm
      ((s.secondQueue key second nrWake).take limit ++
        (s.secondQueue key second nrWake).drop limit) := by
    rw [take_append_drop]
  simp only [WakesBoth, TableState.wakeSelected, TableState.depart]
  refine ⟨?_, ?_, ?_⟩
  · obtain ⟨first, rest, hwoken, hfirst, hrest⟩ :=
      sublist_append_iff.mp (commitSelections_sublist
        (s.collected key second nrWake limit) ((s.table.queue key).take nrWake ++
          (s.secondQueue key second nrWake).take limit))
    refine ⟨first, rest, hwoken, hfirst, hrest.trans ?_⟩
    exact (take_prefix_take_left hlimit).sublist
  · intro hne
    have hother : s.secondQueue key second nrWake = s.table.queue second :=
      QueueTable.queue_put_of_ne _ (Ne.symm hne) _
    have hfirst : (s.collected key second nrWake limit).queue key =
        (s.table.queue key).drop nrWake := by
      rw [collected, QueueTable.queue_put_of_ne _ hne, QueueTable.queue_put_self]
    have hrest : (s.collected key second nrWake limit).queue second =
        (s.secondQueue key second nrWake).drop limit := QueueTable.queue_put_self _ _ _
    rw [commitSelections_queue, commitSelections_queue, hfirst, hrest, unclaimed, unclaimed,
      ← filter_append]
    refine accounts_of_split _ _ ?_
    rw [← hother]
    refine (hkey.append hsecond).trans ?_
    rw [← Multiset.coe_eq_coe]
    simp only [← Multiset.coe_add]
    abel
  · rintro rfl
    have hrest : (s.collected key key nrWake limit).queue key =
        (s.secondQueue key key nrWake).drop limit := QueueTable.queue_put_self _ _ _
    have hsame : s.secondQueue key key nrWake = (s.table.queue key).drop nrWake :=
      QueueTable.queue_put_self _ _ _
    rw [commitSelections_queue, hrest]
    refine accounts_of_split _ _ (hkey.trans ?_)
    rw [append_assoc, ← hsame]
    exact hsecond.append_left _

theorem accounted_perform (call : TableCall κ τ) : s.Accounted call := by
  cases call with
  | wake key nrWake bitset => exact accounted_futexWake key nrWake bitset
  | requeue key target nrWake nrRequeue =>
    rw [Accounted, perform, futexRequeue]
    split
    · exact requeues_refused _ _ _ _ _
    · exact requeues_selected _ _ _ _
  | cmpRequeue key target nrWake nrRequeue cmpval observed =>
    rw [Accounted, perform, futexCmpRequeue]
    split_ifs
    case neg => exact requeues_selected _ _ _ _
    all_goals exact requeues_refused _ _ _ _ _
  | wakeOp key second nrWake nrWake2 encoded old =>
    rw [Accounted, perform, futexWakeOp]
    split
    · exact wakesBoth_refused _ _ _ _ _
    · split
      · exact wakesBoth_refused _ _ _ _ _
      · refine wakesBoth_collected ?_
        split
        · exact le_rfl
        · exact Nat.zero_le _
  | _ => trivial

variable {waiter other : TableWaiter κ τ}

omit [LinearOrder κ] in
theorem ne_task_of_unclaimed {woken waiters : List (TableWaiter κ τ)} (hwaiter : waiter ∈ woken)
    (hindex : waiter.wakeIndex ≠ none) (hother : other ∈ unclaimed woken waiters) :
    other.task ≠ waiter.task := by
  intro htask
  have hfree : claims woken other.task = false := by
    simpa using (mem_filter.mp hother).2
  have hclaims : claims woken other.task = true :=
    claims_iff.mpr ⟨waiter, hwaiter, hindex, htask.symm⟩
  rw [hfree] at hclaims
  exact Bool.false_ne_true hclaims

theorem siblingsLeave_perform (call : TableCall κ τ) : s.SiblingsLeave call := by
  intro waiter hwaiter hindex other hother
  have heffect := s.effect_perform call
  generalize s.perform call = outcome at heffect hwaiter hother
  cases heffect with
  | refuses => cases hwaiter
  | changes => cases hwaiter
  | wakes =>
    simp only [TableState.wakeSelected, TableState.depart, append_nil] at hwaiter hother
    rw [commitSelections_elements] at hother
    exact ne_task_of_unclaimed hwaiter hindex hother
  | expires _ hleft =>
    obtain rfl := mem_singleton.mp hwaiter
    exact hleft hindex other hother

/-- In every run from any table, every waiter leaves at most once, every call
accounts for the waiters of its queues, and the entries of a task which waits for
several futexes leave together. -/
theorem waiters_conserved {start : TableState κ τ} (hstart : start.Conserved)
    (hreach : Reachable next always start state) :
    state.LeavesOnce ∧ ∀ call, state.Accounted call ∧ state.SiblingsLeave call := by
  have hconserved := conserved_of_reachable hstart hreach
  exact ⟨hconserved.leavesOnce, fun call => ⟨accounted_perform call, siblingsLeave_perform call⟩⟩

def emptyTable : TableState ℕ ℕ := ⟨QueueTable.empty, fun _ => false, 0, []⟩

/-- A call of `futex_waitv` which names one futex twice, then a wait of another task. -/
def waitTwice : List (TableCall ℕ ℕ) :=
  [.waitv 1 [⟨0, 0, some 0, some 0⟩, ⟨0, 0, some 0, some 0⟩] none 0,
    .wait 2 0 0 futexBitsetMatchAny none none (some 0) (some 0) 0]

theorem waiters_conserved_after_waitTwice :
    ∃ state : TableState ℕ ℕ, Reachable next always emptyTable state ∧
      (state.table.queue 0).length = 3 ∧ state.LeavesOnce ∧
        ∀ call, state.Accounted call ∧ state.SiblingsLeave call := by
  have hstart : emptyTable.Conserved := .refl _
  refine (exists_reachable_of_runSteps waitTwice ?_).imp fun state ⟨hreach, hlength⟩ =>
    ⟨hreach, hlength, waiters_conserved hstart hreach⟩
  decide +kernel

/-- Two entries are asked for, one task is woken, and one waiter is left of three. -/
theorem not_wake_adds_up : ¬ ∀ state : TableState ℕ ℕ, Reachable next always emptyTable state →
      ∀ key nrWake bitset, (state.perform (.wake key nrWake bitset)).refused = none →
        (state.perform (.wake key nrWake bitset)).woken.length +
            ((state.perform (.wake key nrWake bitset)).state.table.queue key).length =
          (state.table.queue key).length := by
  intro hadds
  obtain ⟨state, hreach, hrefused, hwoken, hleft, hbefore⟩ :
      ∃ state : TableState ℕ ℕ, Reachable next always emptyTable state ∧
        (state.perform (.wake 0 2 futexBitsetMatchAny)).refused = none ∧
        (state.perform (.wake 0 2 futexBitsetMatchAny)).woken.length = 1 ∧
        ((state.perform (.wake 0 2 futexBitsetMatchAny)).state.table.queue 0).length = 1 ∧
        (state.table.queue 0).length = 3 :=
    exists_reachable_of_runSteps waitTwice (by decide +kernel)
  have hsum := hadds state hreach 0 2 futexBitsetMatchAny hrefused
  omega

end TableState

end Kairix.Futex
