/-
  Opcore.Library.BreadthFirst

  Breadth-first search with predecessor pointers over a graph given by
  adjacency lists, and the walk back along the pointers.  A reachable goal is
  found, and the walk back from it ends at the start (`walkBack_search`).
-/
import Opcore.Library.DepthFirst
import Opcore.Library.BTreeMap

namespace BreadthFirst

open Digraph Collections DepthFirst

variable {α : Type*} [LinearOrder α] {targets : α → List α} {vertices : List α}
  {start goal node v x : α}

structure SearchState (α : Type*) [LinearOrder α] where
  queue : List α
  previous : BTreeMap α α
  visited : BTreeSet α

/-- Meet one target of `node`. -/
def visit (node : α) (s : SearchState α) (target : α) : SearchState α :=
  if target ∈ s.visited then s
  else ⟨s.queue ++ [target], s.previous.insert target node, s.visited.insert target⟩

def searchStep (targets : α → List α) (goal : α) (s : SearchState α) : Option (SearchState α) :=
  match s.queue with
  | [] => none
  | node :: queue =>
    if node = goal then none
    else some ((targets node).foldl (visit node) { s with queue := queue })

def search (targets : α → List α) (bound : Nat) (start goal : α) : SearchState α :=
  Loop.iterate (searchStep targets goal) bound ⟨[start], ∅, (∅ : BTreeSet α).insert start⟩

/-- Follow the predecessors from `current` back to `stop`, at most `fuel` times. -/
def walkBack (previous : BTreeMap α α) (stop : α) : Nat → α → Option (List α)
  | 0, current => if current = stop then some [current] else none
  | fuel + 1, current =>
    if current = stop then some [current]
    else (previous.get? current).bind fun prior =>
      (walkBack previous stop fuel prior).map (current :: ·)

/-- `n` predecessor pointers, each along an edge, lead from a vertex to `start`. -/
inductive Traces (targets : α → List α) (previous : BTreeMap α α) (start : α) : Nat → α → Prop
  | start : Traces targets previous start 0 start
  | step {n x y} : previous.get? x = some y → x ∈ targets y →
      Traces targets previous start n y → Traces targets previous start (n + 1) x

theorem Traces.mono {previous previous' : BTreeMap α α} {n : Nat}
    (hsub : ∀ x y, previous.get? x = some y → previous'.get? x = some y)
    (h : Traces targets previous start n x) : Traces targets previous' start n x := by
  induction h with
  | start => exact .start
  | step hget hedge _ ih => exact .step (hsub _ _ hget) hedge ih

/-- The walk back succeeds within as many steps as there are pointers to follow. -/
theorem walkBack_of_traces {previous : BTreeMap α α} {n fuel : Nat}
    (h : Traces targets previous start n x) (hfuel : n ≤ fuel) :
    ∃ path, walkBack previous start fuel x = some path
      ∧ path.head? = some x ∧ path.getLast? = some start
      ∧ path.IsChain fun a b => a ∈ targets b := by
  induction h generalizing fuel with
  | start => exact ⟨[start], by cases fuel <;> simp [walkBack]⟩
  | step hget hedge _ ih =>
    rename_i n x y _
    by_cases hx : x = start
    · exact ⟨[x], by cases fuel <;> simp [walkBack, hx]⟩
    · obtain ⟨fuel, rfl⟩ : ∃ f, fuel = f + 1 := ⟨fuel - 1, by omega⟩
      obtain ⟨path, hpath, hhead, hlast, hchain⟩ := ih (show n ≤ fuel by omega)
      refine ⟨x :: path, by simp [walkBack, hx, hget, hpath], rfl, ?_, ?_⟩
      · rw [List.getLast?_cons, hlast]
        rfl
      · cases path with
        | nil => simp at hhead
        | cons b path =>
          obtain rfl : b = y := by simpa using hhead
          exact List.isChain_cons_cons.mpr ⟨hedge, hchain⟩

/-- The invariant of the search, `pending` being the vertex under expansion. -/
structure SearchInv (targets : α → List α) (start : α) (pending : Option α)
    (s : SearchState α) : Prop where
  start_mem : start ∈ s.visited
  queue_sub : ∀ x ∈ s.queue, x ∈ s.visited
  pending_sub : ∀ x ∈ pending, x ∈ s.visited
  keys_sub : ∀ x y, s.previous.get? x = some y → x ∈ s.visited
  traces : ∀ x ∈ s.visited, ∃ n ≤ s.previous.size, Traces targets s.previous start n x
  expanded : ∀ x ∈ s.visited, x ∈ s.queue ∨ x ∈ pending ∨ ∀ t ∈ targets x, t ∈ s.visited

theorem SearchInv.visit {s : SearchState α} {target : α}
    (hI : SearchInv targets start (some node) s) (hedge : target ∈ targets node) :
    SearchInv targets start (some node) (visit node s target)
      ∧ target ∈ (BreadthFirst.visit node s target).visited
      ∧ ∀ x ∈ s.visited, x ∈ (BreadthFirst.visit node s target).visited := by
  rw [BreadthFirst.visit]
  split_ifs with hvis
  · exact ⟨hI, hvis, fun _ h => h⟩
  · have hnone : s.previous.get? target = none := by
      cases h : s.previous.get? target with
      | none => rfl
      | some y => exact absurd (hI.keys_sub target y h) hvis
    -- A link that is there stays.
    have hmono : ∀ x y, s.previous.get? x = some y →
        (s.previous.insert target node).get? x = some y := by
      intro x y h
      rw [BTreeMap.get?_insert, if_neg]
      · exact h
      · rintro rfl
        rw [hnone] at h
        cases h
    refine ⟨⟨?_, ?_, ?_, ?_, ?_, ?_⟩, by simp, fun x hx => by simp [hx]⟩
    · exact BTreeSet.mem_insert.mpr (Or.inr hI.start_mem)
    · intro x hx
      rw [BTreeSet.mem_insert]
      rcases List.mem_append.mp hx with hx | hx
      · exact Or.inr (hI.queue_sub x hx)
      · exact Or.inl (by simpa using hx)
    · exact fun x hx => BTreeSet.mem_insert.mpr (Or.inr (hI.pending_sub x hx))
    · intro x y h
      rw [BTreeMap.get?_insert] at h
      rw [BTreeSet.mem_insert]
      split_ifs at h with hx
      · exact Or.inl hx
      · exact Or.inr (hI.keys_sub x y h)
    · intro x hx
      simp only [BTreeMap.size_insert_of_get?_eq_none hnone]
      rcases BTreeSet.mem_insert.mp hx with rfl | hx
      · obtain ⟨n, hn, htr⟩ := hI.traces node (hI.pending_sub node rfl)
        exact ⟨n + 1, by omega, .step (by simp) hedge (htr.mono hmono)⟩
      · obtain ⟨n, hn, htr⟩ := hI.traces x hx
        exact ⟨n, by omega, htr.mono hmono⟩
    · intro x hx
      simp only [List.mem_append, BTreeSet.mem_insert]
      rcases BTreeSet.mem_insert.mp hx with rfl | hx
      · exact Or.inl (Or.inr (List.mem_cons_self ..))
      · rcases hI.expanded x hx with h | h | h
        · exact Or.inl (Or.inl h)
        · exact Or.inr (Or.inl h)
        · exact Or.inr (Or.inr fun t ht => Or.inr (h t ht))

theorem SearchInv.foldl_visit {s : SearchState α} (l : List α)
    (hI : SearchInv targets start (some node) s) (hedges : ∀ t ∈ l, t ∈ targets node) :
    SearchInv targets start (some node) (l.foldl (BreadthFirst.visit node) s)
      ∧ (∀ t ∈ l, t ∈ (l.foldl (BreadthFirst.visit node) s).visited)
      ∧ ∀ x ∈ s.visited, x ∈ (l.foldl (BreadthFirst.visit node) s).visited := by
  induction l generalizing s with
  | nil => exact ⟨hI, by simp, fun _ h => h⟩
  | cons t l ih =>
    obtain ⟨hI', ht, hsub⟩ := hI.visit (hedges t (List.mem_cons_self ..))
    obtain ⟨hI'', hl, hsub'⟩ := ih hI' fun t ht => hedges t (List.mem_cons_of_mem _ ht)
    refine ⟨hI'', fun x hx => ?_, fun x hx => hsub' x (hsub x hx)⟩
    rcases List.mem_cons.mp hx with rfl | hx
    · exact hsub' x ht
    · exact hl x hx

theorem searchInv_step (s s' : SearchState α) (hI : SearchInv targets start none s)
    (h : searchStep targets goal s = some s') : SearchInv targets start none s' := by
  rw [searchStep] at h
  split at h
  · cases h
  · rename_i node queue hq
    split_ifs at h
    cases h
    have hpop : SearchInv targets start (some node) { s with queue := queue } := by
      refine ⟨hI.start_mem, ?_, ?_, hI.keys_sub, hI.traces, ?_⟩
      · exact fun x hx => hI.queue_sub x (by rw [hq]; exact List.mem_cons_of_mem _ hx)
      · rintro x ⟨⟩
        exact hI.queue_sub node (by rw [hq]; exact List.mem_cons_self ..)
      · intro x hx
        rcases hI.expanded x hx with h | h | h
        · rw [hq] at h
          rcases List.mem_cons.mp h with rfl | h
          · exact Or.inr (Or.inl rfl)
          · exact Or.inl h
        · cases h
        · exact Or.inr (Or.inr h)
    obtain ⟨hI', hall, -⟩ := hpop.foldl_visit (targets node) fun _ h => h
    refine ⟨hI'.start_mem, hI'.queue_sub, by simp, hI'.keys_sub, hI'.traces, fun x hx => ?_⟩
    rcases hI'.expanded x hx with h | h | h
    · exact Or.inl h
    · obtain rfl : node = x := by simpa using h
      exact Or.inr (Or.inr hall)
    · exact Or.inr (Or.inr h)

/-! ## Termination -/

/-- A visit moves one unvisited vertex into the queue or does nothing. -/
theorem size_foldl_visit (node : α) (l : List α) (s : SearchState α) :
    (l.foldl (visit node) s).visited.size + s.queue.length
      = s.visited.size + (l.foldl (visit node) s).queue.length := by
  induction l generalizing s with
  | nil => rfl
  | cons t l ih =>
    rw [List.foldl_cons]
    have hrest := ih (visit node s t)
    have hone : (visit node s t).visited.size + s.queue.length
        = s.visited.size + (visit node s t).queue.length := by
      rw [visit]
      split_ifs with hvis
      · rfl
      · simp only [BTreeSet.size_insert_of_not_mem hvis, List.length_append, List.length_cons,
          List.length_nil]
        omega
    omega

variable {U : BTreeSet α}

theorem visited_sub_foldl_visit (l : List α) (s : SearchState α)
    (hl : ∀ t ∈ l, t ∈ U) (hs : ∀ x ∈ s.visited, x ∈ U) :
    ∀ x ∈ (l.foldl (visit node) s).visited, x ∈ U := by
  induction l generalizing s with
  | nil => exact hs
  | cons t l ih =>
    refine ih _ (fun t ht => hl t (List.mem_cons_of_mem _ ht)) fun x hx => ?_
    rw [visit] at hx
    split_ifs at hx with hvis
    · exact hs x hx
    · rcases BTreeSet.mem_insert.mp hx with rfl | hx
      · exact hl x (List.mem_cons_self ..)
      · exact hs x hx

theorem searchStep_stops {bound : Nat} (hU : ∀ a b, b ∈ targets a → b ∈ U)
    (hstart : start ∈ U) (hbound : U.size ≤ bound) :
    searchStep targets goal (search targets bound start goal) = none := by
  have hsub : ∀ s s' : SearchState α, (∀ x ∈ s.visited, x ∈ U) →
      searchStep targets goal s = some s' → ∀ x ∈ s'.visited, x ∈ U := by
    intro s s' hs h
    rw [searchStep] at h
    split at h
    · cases h
    · rename_i node queue hq
      split_ifs at h
      cases h
      exact visited_sub_foldl_visit (targets node) { s with queue := queue } (hU node) hs
  refine Loop.iterate_stops (I := fun s : SearchState α => ∀ x ∈ s.visited, x ∈ U)
    (fun s => U.size - s.visited.size + s.queue.length) hsub ?_ ?_ ?_
  · intro s s' hs h
    have hs' := BTreeSet.size_le_of_subset (hsub s s' hs h)
    rw [searchStep] at h
    split at h
    · cases h
    · rename_i node queue hq
      split_ifs at h
      cases h
      have hsize := size_foldl_visit node (targets node) { s with queue := queue }
      simp only [hq, List.length_cons] at hsize hs' ⊢
      omega
  · intro x hx
    obtain rfl : x = start := by simpa using hx
    exact hstart
  · have hone : ((∅ : BTreeSet α).insert start).size = 1 := rfl
    have hpos := BTreeSet.size_le_of_subset (s := (∅ : BTreeSet α).insert start) (t := U)
      fun x hx => by
        obtain rfl : x = start := by simpa using hx
        exact hstart
    simp only [List.length_cons, List.length_nil]
    omega

/-! ## The search finds its goal -/

theorem searchInv_search {bound : Nat} :
    SearchInv targets start none (search targets bound start goal) := by
  refine Loop.iterate_inv searchInv_step ⟨by simp, by simp, by simp, by simp, ?_, ?_⟩
  · intro x hx
    obtain rfl : x = start := by simpa using hx
    exact ⟨0, Nat.zero_le _, .start⟩
  · intro x hx
    exact Or.inl (by simpa using hx)

theorem mem_visited_search {bound : Nat} (hU : ∀ a b, b ∈ targets a → b ∈ U)
    (hstart : start ∈ U) (hbound : U.size ≤ bound) (h : Reach (Edge targets) start goal) :
    goal ∈ (search targets bound start goal).visited := by
  have hI : SearchInv targets start none (search targets bound start goal) := searchInv_search
  have hstop : searchStep targets goal (search targets bound start goal) = none :=
    searchStep_stops hU hstart hbound
  rw [searchStep] at hstop
  split at hstop
  · -- the queue ran empty, so the visited vertices are closed under edges
    rename_i hq
    have hclosed : ∀ y, Reach (Edge targets) start y →
        y ∈ (search targets bound start goal).visited := by
      intro y hy
      induction hy with
      | refl => exact hI.start_mem
      | tail _ hedge ih =>
        rcases hI.expanded _ ih with h | h | h
        · rw [hq] at h
          cases h
        · cases h
        · exact h _ hedge
    exact hclosed goal h
  · rename_i node queue hq
    split_ifs at hstop with hgoal
    exact hgoal ▸ hI.queue_sub node (by rw [hq]; exact List.mem_cons_self ..)

/-- A reachable goal is visited and the walk back from it, given as many steps
    as there are pointers, ends at the start. -/
theorem walkBack_search {n : Nat} (hU : ∀ a b, b ∈ targets a → b ∈ U)
    (hstart : start ∈ U) (hn : U.size ≤ n) (h : Reach (Edge targets) start goal) :
    let found := search targets n start goal
    goal ∈ found.visited
      ∧ ∃ path, walkBack found.previous start found.previous.size goal = some path
        ∧ path.head? = some goal ∧ path.getLast? = some start
        ∧ path.IsChain fun a b => a ∈ targets b := by
  intro found
  have hvis := mem_visited_search hU hstart hn h
  obtain ⟨m, hm, htr⟩ := searchInv_search.traces goal hvis
  exact ⟨hvis, walkBack_of_traces htr hm⟩

end BreadthFirst
