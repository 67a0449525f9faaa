/-
  Opcore.Library.BudgetedSearch

  Breadth-first search that marks a vertex when it leaves the queue and pays
  one unit of a budget for every edge it looks at.  The search stops in the
  middle of an adjacency list when the budget is spent.

  What it has met is always reachable (`sound`), it has met everything when it
  was not stopped (`mem_reachable_iff`), it is not stopped exactly when the budget covers
  the edges that leave the reachable vertices (`stopped_eq_false_iff`), and it
  meets all the vertices next to the start exactly when the budget covers the
  edges that leave all of them but the last (`targets_sub_iff`).
-/
import Opcore.Library.DepthFirst
import Opcore.Library.BTreeMap
import Mathlib.Algebra.BigOperators.Group.Finset.Basic
import Mathlib.Algebra.Order.BigOperators.Group.Finset
import Mathlib.Algebra.GroupWithZero.Nat

namespace BudgetedSearch

open Digraph Collections DepthFirst Loop

variable {α : Type*} [LinearOrder α] {targets : α → List α} {start x : α}

structure State (α : Type*) [LinearOrder α] where
  visited : BTreeSet α
  reachable : BTreeSet α
  queue : List α
  budget : Nat
  stopped : Bool := false

/-- Queue the targets one by one while the budget lasts. -/
def enqueue : List α → State α → State α
  | [], s => s
  | target :: rest, s =>
    if s.budget = 0 then { s with stopped := true }
    else enqueue rest { s with queue := s.queue ++ [target], budget := s.budget - 1 }

/-- One round of the loop over the queue. -/
def step (targets : α → List α) (s : State α) : Option (State α) :=
  if s.stopped then none
  else
    match s.queue with
    | [] => none
    | current :: queue =>
      if current ∈ s.visited then some { s with queue := queue }
      else some (enqueue (targets current)
        { s with
          queue := queue
          visited := s.visited.insert current
          reachable := s.reachable.insert current })

/-- Every round drops a vertex of the queue, and every vertex added is paid for. -/
def run (targets : α → List α) (s : State α) : State α :=
  iterate (step targets) (s.queue.length + s.budget) s

def init (targets : α → List α) (start : α) (budget : Nat) : State α :=
  ⟨(∅ : BTreeSet α).insert start, ∅, targets start, budget, false⟩

def search (targets : α → List α) (start : α) (budget : Nat) : State α :=
  run targets (init targets start budget)

/-! ## One round -/

variable {s : State α}

theorem enqueue_of_le {l : List α} (h : l.length ≤ s.budget) :
    enqueue l s = { s with queue := s.queue ++ l, budget := s.budget - l.length } := by
  induction l generalizing s with
  | nil => simp [enqueue]
  | cons target rest ih =>
    rw [List.length_cons] at h
    rw [enqueue, if_neg (by omega), ih (by simp only; omega)]
    simp only [List.append_assoc, List.cons_append, List.nil_append, List.length_cons]
    congr 1
    omega

theorem enqueue_of_lt {l : List α} (h : s.budget < l.length) :
    enqueue l s
      = { s with queue := s.queue ++ l.take s.budget, budget := 0, stopped := true } := by
  induction l generalizing s with
  | nil => simp at h
  | cons target rest ih =>
    rw [List.length_cons] at h
    rw [enqueue]
    split_ifs with hzero
    · simp [hzero]
    · rw [ih (by simp only; omega)]
      obtain ⟨n, hn⟩ : ∃ n, s.budget = n + 1 := ⟨s.budget - 1, by omega⟩
      simp [hn]

variable {s s' : State α}

/-- Everything one round does: the loop ends, a vertex met before is dropped, a
new vertex is met and all its targets are queued, or the budget ends there. -/
theorem step_cases (h : step targets s = some s') :
    s.stopped = false ∧ ∃ current queue, s.queue = current :: queue ∧
      ((current ∈ s.visited ∧ s' = { s with queue := queue })
      ∨ (current ∉ s.visited ∧ (targets current).length ≤ s.budget
        ∧ s' = ⟨s.visited.insert current, s.reachable.insert current,
            queue ++ targets current, s.budget - (targets current).length, false⟩)
      ∨ (current ∉ s.visited ∧ s.budget < (targets current).length
        ∧ s' = ⟨s.visited.insert current, s.reachable.insert current,
            queue ++ (targets current).take s.budget, 0, true⟩)) := by
  obtain ⟨visited, reachable, queue, budget, stopped⟩ := s
  cases stopped with
  | true => simp [step] at h
  | false =>
    cases queue with
    | nil => simp [step] at h
    | cons current queue =>
      refine ⟨rfl, current, queue, rfl, ?_⟩
      by_cases hvisited : current ∈ visited
      · exact Or.inl ⟨hvisited, by simpa [step, hvisited] using h.symm⟩
      · by_cases hbudget : (targets current).length ≤ budget
        · refine Or.inr (Or.inl ⟨hvisited, hbudget, ?_⟩)
          simp only [step, Bool.false_eq_true, if_false, if_neg hvisited] at h
          rw [← Option.some.inj h, enqueue_of_le (by simpa using hbudget)]
        · refine Or.inr (Or.inr ⟨hvisited, by simpa using hbudget, ?_⟩)
          simp only [step, Bool.false_eq_true, if_false, if_neg hvisited] at h
          rw [← Option.some.inj h, enqueue_of_lt (by simpa using hbudget)]

theorem step_eq_none_iff :
    step targets s = none ↔ s.stopped = true ∨ s.queue = [] := by
  rw [step]
  split_ifs with h
  · simp [h]
  · split
    · simp_all
    · split_ifs <;> simp_all

/-- A round drops one vertex of the queue and pays for each one it adds. -/
theorem measure_step (h : step targets s = some s') :
    s'.queue.length + s'.budget < s.queue.length + s.budget := by
  obtain ⟨-, current, queue, hqueue, hcases⟩ := step_cases h
  rw [hqueue, List.length_cons]
  obtain ⟨-, rfl⟩ | ⟨-, hle, rfl⟩ | ⟨-, hlt, rfl⟩ := hcases
  · simp only
    omega
  · simp only [List.length_append]
    omega
  · simp only [List.length_append, List.length_take]
    omega

/-- The loop runs to its own end. -/
theorem run_stops (s : State α) : step targets (run targets s) = none :=
  iterate_stops (I := fun _ => True) (fun s => s.queue.length + s.budget)
    (fun _ _ _ _ => trivial) (fun _ _ _ h => measure_step h) trivial le_rfl

theorem run_of_step (h : step targets s = some s') :
    run targets s = run targets s' := by
  -- The iterations left over after the end of the loop do nothing.
  have hmore : ∀ (n k : Nat) (s : State α), s.queue.length + s.budget ≤ n →
      iterate (step targets) (n + k) s = iterate (step targets) n s := by
    intro n
    induction n with
    | zero =>
      intro k s hn
      have hnone : step targets s = none := by
        rw [step_eq_none_iff]
        exact Or.inr (List.eq_nil_of_length_eq_zero (by omega))
      rw [iterate_of_none hnone, iterate_of_none hnone]
    | succ n ih =>
      intro k s hn
      cases hs : step targets s with
      | none => rw [iterate_of_none hs, iterate_of_none hs]
      | some s' =>
        have hlt := measure_step hs
        rw [show n + 1 + k = n + k + 1 by omega, iterate_succ_of_some hs,
          iterate_succ_of_some hs, ih k s' (by omega)]
  have hlt := measure_step h
  obtain ⟨k, hk⟩ := Nat.exists_eq_add_of_lt hlt
  rw [run, run, hk, iterate_succ_of_some h]
  exact hmore _ _ _ le_rfl

/-! ## What the search meets -/

/-- The invariant of the search. -/
structure Inv (targets : α → List α) (start : α) (s : State α) : Prop where
  visited_iff : ∀ x, x ∈ s.visited ↔ x = start ∨ x ∈ s.reachable
  start_not_mem : start ∉ s.reachable
  reach : ∀ x ∈ s.reachable, Reach (Edge targets) start x
  queue_reach : ∀ x ∈ s.queue, Reach (Edge targets) start x
  closed : s.stopped = false →
    ∀ x ∈ s.visited, ∀ y ∈ targets x, y ∈ s.visited ∨ y ∈ s.queue

theorem inv_init (budget : Nat) : Inv targets start (init targets start budget) := by
  refine ⟨?_, ?_, ?_, ?_, ?_⟩
  · simp [init]
  · simp [init]
  · simp [init]
  · exact fun x hx => .single hx
  · intro _ x hx y hy
    have hstart : x = start := by simpa [init] using hx
    subst hstart
    exact Or.inr hy

variable {budget : Nat}

/-- Meeting a vertex of the queue keeps the invariant, however much of its
targets is queued; the closure is kept when all of them are. -/
theorem Inv.meet {current : α} {queue added : List α}
    {stopped : Bool} (hI : Inv targets start s) (hs : s.stopped = false)
    (hqueue : s.queue = current :: queue) (hnew : current ∉ s.visited)
    (hsub : ∀ x ∈ added, x ∈ targets current) (hall : stopped = false → added = targets current) :
    Inv targets start ⟨s.visited.insert current, s.reachable.insert current,
      queue ++ added, budget, stopped⟩ := by
  have hcurrent : Reach (Edge targets) start current :=
    hI.queue_reach current (by simp [hqueue])
  refine ⟨?_, ?_, ?_, ?_, ?_⟩
  · intro x
    simp only [BTreeSet.mem_insert, hI.visited_iff]
    tauto
  · intro hmem
    rcases BTreeSet.mem_insert.mp hmem with rfl | hmem
    · exact hnew ((hI.visited_iff _).mpr (Or.inl rfl))
    · exact hI.start_not_mem hmem
  · intro x hx
    rcases BTreeSet.mem_insert.mp hx with rfl | hx
    · exact hcurrent
    · exact hI.reach x hx
  · intro x hx
    rcases List.mem_append.mp hx with hx | hx
    · exact hI.queue_reach x (by simp [hqueue, hx])
    · exact hcurrent.tail (hsub x hx)
  · intro hstopped x hx y hy
    simp only [BTreeSet.mem_insert, List.mem_append]
    rcases BTreeSet.mem_insert.mp hx with rfl | hx
    · exact Or.inr (Or.inr (by rw [hall hstopped]; exact hy))
    · rcases hI.closed hs x hx y hy with h | h
      · exact Or.inl (Or.inr h)
      · rw [hqueue] at h
        rcases List.mem_cons.mp h with rfl | h
        · exact Or.inl (Or.inl rfl)
        · exact Or.inr (Or.inl h)

theorem inv_step (s s' : State α) (hI : Inv targets start s)
    (h : step targets s = some s') : Inv targets start s' := by
  obtain ⟨hs, current, queue, hqueue, hcases⟩ := step_cases h
  obtain ⟨hvisited, rfl⟩ | ⟨hnew, -, rfl⟩ | ⟨hnew, -, rfl⟩ := hcases
  · refine ⟨hI.visited_iff, hI.start_not_mem, hI.reach, ?_, ?_⟩
    · exact fun x hx => hI.queue_reach x (by rw [hqueue]; exact List.mem_cons_of_mem _ hx)
    · intro hstopped x hx y hy
      rcases hI.closed hstopped x hx y hy with h | h
      · exact Or.inl h
      · rw [hqueue] at h
        rcases List.mem_cons.mp h with rfl | h
        · exact Or.inl hvisited
        · exact Or.inr h
  · exact hI.meet hs hqueue hnew (fun _ h => h) fun _ => rfl
  · exact hI.meet hs hqueue hnew (fun _ h => List.mem_of_mem_take h) (by simp)

theorem inv_search (budget : Nat) : Inv targets start (search targets start budget) :=
  iterate_inv inv_step (inv_init budget)

/-- What is met can be reached, and is not the start. -/
theorem sound (h : x ∈ (search targets start budget).reachable) :
    x ≠ start ∧ Reach (Edge targets) start x := by
  have hI := @inv_search α _ targets start budget
  refine ⟨?_, hI.reach x h⟩
  rintro rfl
  exact hI.start_not_mem h

/-- A search that was not stopped has met everything but the start. -/
theorem mem_reachable_iff (h : (search targets start budget).stopped = false) :
    x ∈ (search targets start budget).reachable
      ↔ x ≠ start ∧ Reach (Edge targets) start x := by
  have hI := @inv_search α _ targets start budget
  have hqueue : (search targets start budget).queue = [] := by
    have hend : step targets (search targets start budget) = none := run_stops _
    rw [step_eq_none_iff, h] at hend
    exact hend.resolve_left (by simp)
  -- The visited vertices hold the start and are closed under edges.
  have hvisited : ∀ y, Reach (Edge targets) start y →
      y ∈ (search targets start budget).visited := by
    intro y hy
    induction hy with
    | refl => exact (hI.visited_iff _).mpr (Or.inl rfl)
    | tail _ hedge ih =>
      rcases hI.closed h _ ih _ hedge with hmem | hmem
      · exact hmem
      · simp [hqueue] at hmem
  refine ⟨sound, fun ⟨hne, hreach⟩ => ?_⟩
  exact ((hI.visited_iff x).mp (hvisited x hreach)).resolve_left hne

/-! ## What the search costs -/

/-- The edges that leave a set of vertices. -/
def cost (targets : α → List α) (S : Finset α) : Nat := ∑ x ∈ S, (targets x).length

/-- While it is not stopped, the search has paid for the edges that leave what it met. -/
structure Paid (targets : α → List α) (budget : Nat) (s : State α) : Prop where
  visited : ∀ x ∈ s.reachable, x ∈ s.visited
  paid : s.stopped = false → s.budget + cost targets s.reachable.toFinset = budget
  short : s.stopped = true → budget < cost targets s.reachable.toFinset

theorem toFinset_insert (s : BTreeSet α) (a : α) :
    (s.insert a).toFinset = Insert.insert a s.toFinset := by
  ext x
  simp

theorem cost_insert {s : BTreeSet α} {a : α} (h : a ∉ s) :
    cost targets (s.insert a).toFinset = (targets a).length + cost targets s.toFinset := by
  rw [cost, toFinset_insert, Finset.sum_insert (by simpa using h)]
  rfl

theorem paid_step (s s' : State α) (hI : Paid targets budget s)
    (h : step targets s = some s') : Paid targets budget s' := by
  obtain ⟨hs, current, queue, hqueue, hcases⟩ := step_cases h
  have hpaid := hI.paid hs
  obtain ⟨hvisited, rfl⟩ | ⟨hnew, hle, rfl⟩ | ⟨hnew, hlt, rfl⟩ := hcases
  · exact ⟨hI.visited, hI.paid, hI.short⟩
  · have hcost := @cost_insert α _ targets _ current fun hmem => hnew (hI.visited _ hmem)
    refine ⟨?_, ?_, by simp⟩
    · intro x hx
      rw [BTreeSet.mem_insert] at hx ⊢
      exact hx.imp_right (hI.visited x)
    · intro _
      simp only [hcost]
      omega
  · have hcost := @cost_insert α _ targets _ current fun hmem => hnew (hI.visited _ hmem)
    refine ⟨?_, by simp, ?_⟩
    · intro x hx
      rw [BTreeSet.mem_insert] at hx ⊢
      exact hx.imp_right (hI.visited x)
    · intro _
      simp only [hcost]
      omega

theorem paid_search (budget : Nat) : Paid targets budget (search targets start budget) :=
  iterate_inv paid_step ⟨by simp [init], by simp [init, cost], by simp [init]⟩

/-- The search is not stopped exactly when the budget covers the edges that
leave the vertices it would meet. -/
theorem stopped_eq_false_iff {S : Finset α}
    (hS : ∀ x, x ∈ S ↔ x ≠ start ∧ Reach (Edge targets) start x) :
    (search targets start budget).stopped = false ↔ cost targets S ≤ budget := by
  have hpaid := @paid_search α _ targets start budget
  constructor
  · intro h
    have hset : (search targets start budget).reachable.toFinset = S := by
      ext x
      rw [BTreeSet.mem_toFinset, mem_reachable_iff h, hS]
    have := hpaid.paid h
    rw [hset] at this
    omega
  · intro hle
    by_contra hstopped
    have hshort := hpaid.short (by simpa using hstopped)
    have hsub : (search targets start budget).reachable.toFinset ⊆ S := by
      intro x hx
      rw [hS]
      exact sound (BTreeSet.mem_toFinset.mp hx)
    have hmono : cost targets (search targets start budget).reachable.toFinset
        ≤ cost targets S := Finset.sum_le_sum_of_subset hsub
    omega

/-- What is left of the budget when the search was not stopped. -/
theorem budget_search {S : Finset α} (hS : ∀ x, x ∈ S ↔ x ≠ start ∧ Reach (Edge targets) start x)
    (h : (search targets start budget).stopped = false) :
    (search targets start budget).budget = budget - cost targets S := by
  have hset : (search targets start budget).reachable.toFinset = S := by
    ext x
    rw [BTreeSet.mem_toFinset, mem_reachable_iff h, hS]
  have hpaid := (@paid_search α _ targets start budget).paid h
  rw [hset] at hpaid
  omega

/-! ## The vertices next to the start -/

theorem reachable_run_mono (h : x ∈ s.reachable) :
    x ∈ (run targets s).reachable := by
  refine iterate_inv (I := fun s : State α => x ∈ s.reachable) ?_ h
  intro s s' hmem hstep
  obtain ⟨-, current, queue, -, hcases⟩ := step_cases hstep
  obtain ⟨-, rfl⟩ | ⟨-, -, rfl⟩ | ⟨-, -, rfl⟩ := hcases
  · exact hmem
  · exact BTreeSet.mem_insert.mpr (Or.inr hmem)
  · exact BTreeSet.mem_insert.mpr (Or.inr hmem)

/-- The edges that leave every vertex of a list but the last. -/
def leadCost {α : Type*} (targets : α → List α) (l : List α) : Nat :=
  (l.dropLast.map fun x => (targets x).length).sum

omit [LinearOrder α] in
@[simp] theorem leadCost_nil : leadCost targets [] = 0 := rfl

omit [LinearOrder α] in
@[simp] theorem leadCost_singleton : leadCost targets [x] = 0 := rfl

omit [LinearOrder α] in
theorem leadCost_cons_cons {y : α} {l : List α} :
    leadCost targets (x :: y :: l) = (targets x).length + leadCost targets (y :: l) := by
  simp [leadCost]

/-- New vertices at the front of the queue are all met exactly when the budget
covers the edges that leave all of them but the last; otherwise the search
ends with fewer vertices than that. -/
theorem front_met {front : List α} {s : State α} {tail : List α} (hs : s.stopped = false)
    (hqueue : s.queue = front ++ tail) (hnodup : front.Nodup)
    (hnew : ∀ x ∈ front, x ∉ s.visited) (hsub : ∀ x ∈ s.reachable, x ∈ s.visited) :
    (leadCost targets front ≤ s.budget → ∀ x ∈ front, x ∈ (run targets s).reachable)
    ∧ (s.budget < leadCost targets front →
      (run targets s).reachable.size < s.reachable.size + front.length) := by
  obtain ⟨visited, reachable, queue, budget, stopped⟩ := s
  dsimp only at hs hqueue hnew hsub ⊢
  subst hs hqueue
  induction front generalizing visited reachable budget tail with
  | nil => simp
  | cons d front ih =>
    obtain ⟨hd, hnodup⟩ := List.nodup_cons.mp hnodup
    have hdnew : d ∉ visited := hnew d (by simp)
    have hsize : (reachable.insert d).size = reachable.size + 1 :=
      BTreeSet.size_insert_of_not_mem fun hmem => hdnew (hsub d hmem)
    have hstep : step targets ⟨visited, reachable, d :: front ++ tail, budget, false⟩
        = some (enqueue (targets d)
          ⟨visited.insert d, reachable.insert d, front ++ tail, budget, false⟩) := by
      simp [step, hdnew]
    rw [run_of_step hstep]
    by_cases hbudget : (targets d).length ≤ budget
    · have hnew' : ∀ x ∈ front, x ∉ visited.insert d := by
        intro x hx hmem
        rcases BTreeSet.mem_insert.mp hmem with rfl | hmem
        · exact hd hx
        · exact hnew x (List.mem_cons_of_mem _ hx) hmem
      have hsub' : ∀ x ∈ reachable.insert d, x ∈ visited.insert d := by
        intro x hx
        rw [BTreeSet.mem_insert] at hx ⊢
        exact hx.imp_right (hsub x)
      have hlead : leadCost targets (d :: front) ≤ budget ↔
          leadCost targets front ≤ budget - (targets d).length := by
        cases front with
        | nil => simp
        | cons y front =>
          rw [leadCost_cons_cons]
          omega
      rw [enqueue_of_le hbudget]
      dsimp only
      obtain ⟨hmet, hfew⟩ := @ih (tail ++ targets d) hnodup (visited.insert d) (reachable.insert d)
        (budget - (targets d).length) hnew' hsub'
      rw [← List.append_assoc] at hmet hfew
      refine ⟨fun hle x hx => ?_, fun hlt => ?_⟩
      · rcases List.mem_cons.mp hx with rfl | hx
        · exact reachable_run_mono (BTreeSet.mem_insert.mpr (Or.inl rfl))
        · exact hmet (hlead.mp hle) x hx
      · have hshort := hfew (not_le.mp fun hle => absurd (hlead.mpr hle) (not_le.mpr hlt))
        rw [hsize] at hshort
        rw [List.length_cons]
        omega
    · rw [enqueue_of_lt (by simpa using hbudget)]
      -- The search ends while it looks at the edges of `d`.
      have hend : ∀ queue, run targets (⟨visited.insert d, reachable.insert d, queue, 0,
          true⟩ : State α) = ⟨visited.insert d, reachable.insert d, queue, 0, true⟩ :=
        fun queue => iterate_of_none (step_eq_none_iff.mpr (Or.inl rfl))
      rw [hend]
      cases front with
      | nil => simp
      | cons y front =>
        rw [leadCost_cons_cons]
        refine ⟨fun hle => by omega, fun _ => ?_⟩
        simp only [hsize, List.length_cons]
        omega

/-- What the rule above says of the start of a search. -/
theorem targets_met {budget : Nat} (hnodup : (targets start).Nodup)
    (hstart : start ∉ targets start) :
    (leadCost targets (targets start) ≤ budget →
      ∀ x ∈ targets start, x ∈ (search targets start budget).reachable)
    ∧ (budget < leadCost targets (targets start) →
      (search targets start budget).reachable.size < (targets start).length) := by
  have hfront := @front_met α _ targets (targets start) (init targets start budget) [] rfl
    (by simp [init]) hnodup
    (by
      intro x hx hmem
      have hxs : x = start := by simpa [init] using hmem
      exact hstart (hxs ▸ hx))
    (by simp [init])
  have hzero : (init targets start budget).reachable.size = 0 := rfl
  rw [hzero, Nat.zero_add] at hfront
  exact hfront

theorem length_targets_le (hnodup : (targets start).Nodup)
    (h : ∀ x ∈ targets start, x ∈ (search targets start budget).reachable) :
    (targets start).length ≤ (search targets start budget).reachable.size := by
  rw [← List.toFinset_card_of_nodup hnodup, ← BTreeSet.card_toFinset]
  exact Finset.card_le_card fun x hx => BTreeSet.mem_toFinset.mpr (h x (by simpa using hx))

/-- All the vertices next to the start are met exactly when the budget covers the
edges that leave all of them but the last. -/
theorem targets_sub_iff (hnodup : (targets start).Nodup) (hstart : start ∉ targets start) :
    (∀ x ∈ targets start, x ∈ (search targets start budget).reachable)
      ↔ leadCost targets (targets start) ≤ budget := by
  obtain ⟨hmet, hfew⟩ := @targets_met α _ targets start budget hnodup hstart
  refine ⟨fun hall => ?_, hmet⟩
  by_contra hlt
  have := hfew (not_le.mp hlt)
  have := length_targets_le hnodup hall
  omega

/-- As many vertices are met as are next to the start exactly when those are met. -/
theorem length_targets_le_iff (hnodup : (targets start).Nodup) (hstart : start ∉ targets start) :
    (targets start).length ≤ (search targets start budget).reachable.size
      ↔ leadCost targets (targets start) ≤ budget := by
  obtain ⟨hmet, hfew⟩ := @targets_met α _ targets start budget hnodup hstart
  refine ⟨fun hle => ?_, fun hle => length_targets_le hnodup (hmet hle)⟩
  by_contra hlt
  have := hfew (not_le.mp hlt)
  omega

end BudgetedSearch
