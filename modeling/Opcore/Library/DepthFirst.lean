/-
  Opcore.Library.DepthFirst

  Two explicit-stack searches over a graph given by adjacency lists: the
  depth-first search that records the order in which vertices finish, and the
  backward sweep that reads that order from its end and closes each unvisited
  vertex under a second adjacency.  Run one after the other on a graph and its
  reverse they compute the strongly connected components
  (`sweep_components`).
-/
import Opcore.Library.Digraph
import Opcore.Library.Loop
import Mathlib.Data.Set.Insert
import Mathlib.Data.List.Basic
import Mathlib.Data.List.Nodup
import Mathlib.Algebra.BigOperators.Group.List.Basic
import Mathlib.Algebra.Order.BigOperators.Group.List
import Mathlib.Algebra.Order.Group.Nat
import Mathlib.Algebra.GroupWithZero.Nat

namespace DepthFirst

open Digraph

variable {α : Type*} {targets : α → List α} {vertices : List α} {a v : α}

/-- The edge relation of adjacency lists. -/
def Edge (targets : α → List α) (a b : α) : Prop := b ∈ targets a

/-- Both endpoints of every edge are vertices. -/
def Closed (vertices : List α) (targets : α → List α) : Prop :=
  ∀ a b, b ∈ targets a → a ∈ vertices ∧ b ∈ vertices

/-! ## Finishing order -/

/-- `stack` holds, top first, the open vertices with the number of their
    targets already examined; `order` holds the finished ones. -/
structure FinishState (α : Type*) where
  visited : List α
  stack : List (α × Nat)
  order : List α

def finishStep [DecidableEq α] (targets : α → List α) (s : FinishState α) : Option (FinishState α) :=
  match s.stack with
  | [] => none
  | (node, next) :: stack =>
    match (targets node)[next]? with
    | some target =>
      if target ∈ s.visited then
        some { s with stack := (node, next + 1) :: stack }
      else
        some { s with
          visited := target :: s.visited
          stack := (target, 0) :: (node, next + 1) :: stack }
    | none => some { s with stack := stack, order := s.order ++ [node] }

/-- Steps a search can take: each target of each vertex once, and each vertex
    once more when it finishes. -/
def finishFuel (vertices : List α) (targets : α → List α) : Nat :=
  (vertices.map fun v => (targets v).length + 1).sum

def finishFrom [DecidableEq α] (vertices : List α) (targets : α → List α)
    (s : FinishState α) (start : α) : FinishState α :=
  if start ∈ s.visited then s
  else Loop.iterate (finishStep targets) (finishFuel vertices targets)
    { s with visited := start :: s.visited, stack := [(start, 0)] }

def finishOrder [DecidableEq α] (vertices : List α) (targets : α → List α) : List α :=
  (vertices.foldl (finishFrom vertices targets) ⟨[], [], []⟩).order

/-- The invariant of the search.  The last two fields are what makes the result
    a finishing order: an open vertex reaches everything that reaches it through
    finished vertices, and so does a finished one through those before it. -/
structure FinishInv (vertices : List α) (targets : α → List α) (s : FinishState α) : Prop where
  nodup : (s.order ++ s.stack.map Prod.fst).Nodup
  visited_iff : ∀ v, v ∈ s.visited ↔ v ∈ s.order ∨ v ∈ s.stack.map Prod.fst
  sub : ∀ v ∈ s.visited, v ∈ vertices
  finished : ∀ v ∈ s.order, ∀ t ∈ targets v, t ∈ s.visited
  examined : ∀ e ∈ s.stack, ∀ t ∈ (targets e.1).take e.2, t ∈ s.visited
  chain : (s.stack.map Prod.fst).Pairwise fun upper lower => Reach (Edge targets) lower upper
  open_returns : ∀ g ∈ s.stack.map Prod.fst, ∀ w,
    Reach (EdgeFrom (Edge targets) {x | x ∈ s.order}) w g → Reach (Edge targets) g w
  returns : ∀ earlier v later, s.order = earlier ++ v :: later →
    ∀ w, Reach (EdgeFrom (Edge targets) {x | x ∈ earlier}) w v → Reach (Edge targets) v w

variable {s : FinishState α}

/-- A vertex not yet visited is reached through finished vertices only by itself. -/
theorem FinishInv.eq_of_reach_unvisited (hI : FinishInv vertices targets s)
    {w : α} (hv : v ∉ s.visited)
    (h : Reach (EdgeFrom (Edge targets) {x | x ∈ s.order}) w v) : w = v := by
  rcases Relation.ReflTransGen.cases_tail h with hEq | ⟨u, -, hu, huv⟩
  · exact hEq.symm
  · exact absurd (hI.finished u hu v huv) hv

/-- Opening an unvisited vertex below which every open vertex reaches it. -/
theorem FinishInv.push (hI : FinishInv vertices targets s)
    (hv : v ∈ vertices) (hnew : v ∉ s.visited)
    (hreach : ∀ g ∈ s.stack.map Prod.fst, Reach (Edge targets) g v) :
    FinishInv vertices targets
      { s with visited := v :: s.visited, stack := (v, 0) :: s.stack } := by
  have hnot : v ∉ s.order ∧ v ∉ s.stack.map Prod.fst := by
    rw [hI.visited_iff] at hnew
    exact not_or.mp hnew
  refine ⟨?_, ?_, ?_, ?_, ?_, ?_, ?_, hI.returns⟩
  · simp only [List.map_cons]
    rw [List.nodup_middle, List.nodup_cons, List.mem_append]
    exact ⟨not_or.mpr hnot, hI.nodup⟩
  · intro x
    simp only [List.mem_cons, List.map_cons, hI.visited_iff]
    tauto
  · intro x hx
    rcases List.mem_cons.mp hx with rfl | hx
    · exact hv
    · exact hI.sub x hx
  · intro x hx t ht
    exact List.mem_cons_of_mem _ (hI.finished x hx t ht)
  · intro e he t ht
    rcases List.mem_cons.mp he with rfl | he
    · simp at ht
    · exact List.mem_cons_of_mem _ (hI.examined e he t ht)
  · exact List.pairwise_cons.mpr ⟨hreach, hI.chain⟩
  · intro g hg w hw
    rcases List.mem_cons.mp hg with rfl | hg
    · rw [hI.eq_of_reach_unvisited hnew hw]
    · exact hI.open_returns g hg w hw

/-- Only `examined` depends on how many targets an open vertex has examined. -/
theorem FinishInv.restack {stack : List (α × Nat)}
    (hI : FinishInv vertices targets s) (hfst : stack.map Prod.fst = s.stack.map Prod.fst)
    (hexamined : ∀ e ∈ stack, ∀ t ∈ (targets e.1).take e.2, t ∈ s.visited) :
    FinishInv vertices targets { s with stack := stack } := by
  refine ⟨?_, ?_, hI.sub, hI.finished, hexamined, ?_, ?_, hI.returns⟩
  · simp only [hfst]
    exact hI.nodup
  · simp only [hfst]
    exact hI.visited_iff
  · simp only [hfst]
    exact hI.chain
  · simp only [hfst]
    exact hI.open_returns

variable {visited : List α}

/-- One more examined target, once it is visited. -/
theorem mem_visited_of_take_succ {node target t : α} {next : Nat}
    (hbefore : ∀ t ∈ (targets node).take next, t ∈ visited)
    (htarget : (targets node)[next]? = some target) (hvis : target ∈ visited)
    (ht : t ∈ (targets node).take (next + 1)) : t ∈ visited := by
  rw [List.take_add_one, htarget, List.mem_append] at ht
  rcases ht with ht | ht
  · exact hbefore t ht
  · obtain rfl : t = target := by simpa using ht
    exact hvis

/-- Finishing the top vertex once all its targets are examined. -/
theorem FinishInv.finish {node : α} {next : Nat} {stack : List (α × Nat)}
    (hI : FinishInv vertices targets s) (hs : s.stack = (node, next) :: stack)
    (hnone : (targets node)[next]? = none) :
    FinishInv vertices targets { s with stack := stack, order := s.order ++ [node] } := by
  have hfst : s.stack.map Prod.fst = node :: stack.map Prod.fst := by rw [hs]; rfl
  have hnode := hI.open_returns node (by rw [hfst]; exact List.mem_cons_self ..)
  have hchain := hI.chain
  rw [hfst, List.pairwise_cons] at hchain
  refine ⟨?_, ?_, hI.sub, ?_, ?_, hchain.2, ?_, ?_⟩
  · have hnd := hI.nodup
    rw [hfst] at hnd
    simpa using hnd
  · intro x
    rw [hI.visited_iff, hfst]
    simp only [List.mem_append, List.mem_cons, List.not_mem_nil, or_false]
    tauto
  · intro x hx t ht
    rcases List.mem_append.mp hx with hx | hx
    · exact hI.finished x hx t ht
    · obtain rfl : x = node := by simpa using hx
      have hall := hI.examined (x, next) (by rw [hs]; exact List.mem_cons_self ..) t
      rw [List.take_of_length_le (List.getElem?_eq_none_iff.mp hnone)] at hall
      exact hall ht
  · exact fun e he => hI.examined e (by rw [hs]; exact List.mem_cons_of_mem _ he)
  · -- a path through `node` reaches it first, and the lower vertex reaches `node`
    intro g hg w hw
    have hset : {x | x ∈ s.order ++ [node]} = insert node {x | x ∈ s.order} := by
      ext x
      rw [Set.mem_insert_iff]
      simp [or_comm]
    simp only [hset] at hw
    rcases EdgeFrom.reach_insert hw with hw | hw
    · exact hI.open_returns g (by rw [hfst]; exact List.mem_cons_of_mem _ hg) w hw
    · exact (hchain.1 g hg).trans (hnode w hw)
  · intro earlier v later hsplit
    rcases List.eq_nil_or_concat later with rfl | ⟨later', last, rfl⟩
    · obtain ⟨rfl, hv⟩ := List.append_inj' hsplit rfl
      obtain rfl : node = v := by simpa using hv
      exact hnode
    · rw [List.concat_eq_append, ← List.cons_append, ← List.append_assoc] at hsplit
      exact hI.returns earlier v later' (List.append_inj' hsplit rfl).1

theorem finishInv_step [DecidableEq α] (hclosed : Closed vertices targets) (s s' : FinishState α)
    (hI : FinishInv vertices targets s) (h : finishStep targets s = some s') :
    FinishInv vertices targets s' := by
  rw [finishStep] at h
  split at h
  · cases h
  · rename_i node next stack hs
    split at h
    · rename_i target ht
      have hmem : target ∈ targets node := List.mem_of_getElem? ht
      split_ifs at h with hvis
      · cases h
        refine hI.restack (by rw [hs]; rfl) fun e he t ht' => ?_
        rcases List.mem_cons.mp he with rfl | he
        · exact mem_visited_of_take_succ (hI.examined (node, next) (by simp [hs])) ht hvis ht'
        · exact hI.examined e (by simp [hs, he]) t ht'
      · cases h
        -- open the target, then count it as examined by its opener
        have hpush := hI.push (hclosed node target hmem).2 hvis fun g hg => by
          have hchain := hI.chain
          rw [hs] at hg hchain
          rcases List.mem_cons.mp hg with rfl | hg
          · exact .single hmem
          · exact ((List.pairwise_cons.mp hchain).1 g hg).tail hmem
        refine hpush.restack (by simp [hs]) fun e he t ht' => ?_
        rcases List.mem_cons.mp he with rfl | he
        · simp at ht'
        rcases List.mem_cons.mp he with rfl | he
        · exact mem_visited_of_take_succ (hpush.examined (node, next) (by simp [hs])) ht
            (List.mem_cons_self ..) ht'
        · exact hpush.examined e (by simp [hs, he]) t ht'
    · rename_i hnone
      cases h
      exact hI.finish hs hnone

/-- Work left: every target of an unvisited vertex, the unexamined targets of an
    open one, and the finishing step of both. -/
def finishMeasure [DecidableEq α] (vertices : List α) (targets : α → List α)
    (s : FinishState α) : Nat :=
  ((vertices.filter fun v => v ∉ s.visited).map fun v => (targets v).length + 1).sum
    + (s.stack.map fun e => (targets e.1).length - e.2 + 1).sum

/-- Marking a vertex as visited removes its share of the unvisited work. -/
theorem sum_filter_not_mem_cons [DecidableEq α] (f : α → Nat)
    (hnew : v ∉ visited) (hv : v ∈ vertices) :
    ((vertices.filter fun x => x ∉ v :: visited).map f).sum + f v
      ≤ ((vertices.filter fun x => x ∉ visited).map f).sum := by
  induction vertices with
  | nil => simp at hv
  | cons x vertices ih =>
    by_cases hx : x = v
    · subst hx
      have hle : ((vertices.filter fun y => y ∉ x :: visited).map f).sum
          ≤ ((vertices.filter fun y => y ∉ visited).map f).sum := by
        refine (List.Sublist.map f ?_).sum_le_sum fun _ _ => Nat.zero_le _
        refine List.monotone_filter_right _ fun y hy => ?_
        simp only [List.mem_cons, not_or, decide_eq_true_eq] at hy ⊢
        exact hy.2
      simp only [List.filter_cons, List.mem_cons, true_or, not_true_eq_false, decide_false,
        Bool.false_eq_true, if_false, hnew, not_false_eq_true, decide_true, if_true,
        List.map_cons, List.sum_cons]
      simp only [List.mem_cons] at hle
      omega
    · have hv' : v ∈ vertices := by
        rcases List.mem_cons.mp hv with h | h
        · exact absurd h.symm hx
        · exact h
      have hrest := ih hv'
      by_cases hvis : x ∈ visited
      · simpa [List.filter_cons, hx, hvis] using hrest
      · simp only [List.filter_cons, List.mem_cons, not_or, hx, hvis, not_false_eq_true,
          and_self, decide_true, if_true, List.map_cons, List.sum_cons] at hrest ⊢
        omega

theorem finishMeasure_step [DecidableEq α] (hclosed : Closed vertices targets)
    (s s' : FinishState α) (h : finishStep targets s = some s') :
    finishMeasure vertices targets s' < finishMeasure vertices targets s := by
  rw [finishStep] at h
  split at h
  · cases h
  · rename_i node next stack hs
    split at h
    · rename_i target ht
      have hlt : next < (targets node).length := (List.getElem?_eq_some_iff.mp ht).1
      split_ifs at h with hvis
      · cases h
        simp only [finishMeasure, hs, List.map_cons, List.sum_cons]
        omega
      · cases h
        have hdrop := sum_filter_not_mem_cons (fun v => (targets v).length + 1) hvis
          (hclosed node target (List.mem_of_getElem? ht)).2
        simp only [finishMeasure, hs, List.map_cons, List.sum_cons]
        omega
    · cases h
      simp only [finishMeasure, hs, List.map_cons, List.sum_cons]
      omega

theorem visited_subset_finishStep [DecidableEq α] {s s' : FinishState α}
    (h : finishStep targets s = some s') (hv : v ∈ s.visited) : v ∈ s'.visited := by
  rw [finishStep] at h
  split at h
  · cases h
  · split at h
    · split_ifs at h <;> cases h
      · exact hv
      · exact List.mem_cons_of_mem _ hv
    · cases h
      exact hv

theorem stack_eq_nil_of_finishStep [DecidableEq α]
    (h : finishStep targets s = none) : s.stack = [] := by
  rw [finishStep] at h
  split at h
  · assumption
  · split at h
    · split_ifs at h
    · cases h

/-- The search from one start ends with nothing open, and loses no visited vertex. -/
theorem finishFrom_spec [DecidableEq α] (hclosed : Closed vertices targets)
    {start : α} (hI : FinishInv vertices targets s) (hstack : s.stack = [])
    (hstart : start ∈ vertices) :
    FinishInv vertices targets (finishFrom vertices targets s start)
      ∧ (finishFrom vertices targets s start).stack = []
      ∧ ∀ v, v = start ∨ v ∈ s.visited → v ∈ (finishFrom vertices targets s start).visited := by
  rw [finishFrom]
  split_ifs with hvis
  · refine ⟨hI, hstack, ?_⟩
    rintro v (rfl | hv)
    · exact hvis
    · exact hv
  · have hpush := hI.push hstart hvis (by simp [hstack])
    rw [hstack] at hpush
    refine ⟨Loop.iterate_inv (finishInv_step hclosed) hpush, ?_, ?_⟩
    · refine stack_eq_nil_of_finishStep (show finishStep targets _ = none from ?_)
      refine Loop.iterate_stops (I := fun _ => True) (finishMeasure vertices targets)
        (fun _ _ _ _ => trivial) (fun s s' _ h => finishMeasure_step hclosed s s' h) trivial ?_
      have hdrop := sum_filter_not_mem_cons (fun v => (targets v).length + 1) hvis hstart
      have hall : ((vertices.filter fun v => v ∉ s.visited).map
          fun v => (targets v).length + 1).sum ≤ finishFuel vertices targets :=
        (List.filter_sublist.map _).sum_le_sum fun _ _ => Nat.zero_le _
      simp only [finishMeasure, List.map_cons, List.map_nil, List.sum_cons, List.sum_nil]
      omega
    · intro v hv
      refine Loop.iterate_inv (I := fun s' : FinishState α => v ∈ s'.visited)
        (fun _ _ hv h => visited_subset_finishStep h hv) ?_
      rcases hv with rfl | hv
      · exact List.mem_cons_self ..
      · exact List.mem_cons_of_mem _ hv

theorem finishInv_empty : FinishInv vertices targets ⟨[], [], []⟩ := by
  refine ⟨?_, ?_, ?_, ?_, ?_, ?_, ?_, ?_⟩ <;> simp

theorem foldl_finishFrom_spec [DecidableEq α] (hclosed : Closed vertices targets)
    (starts : List α) (hsub : ∀ v ∈ starts, v ∈ vertices) (s : FinishState α)
    (hI : FinishInv vertices targets s) (hstack : s.stack = []) :
    FinishInv vertices targets (starts.foldl (finishFrom vertices targets) s)
      ∧ (starts.foldl (finishFrom vertices targets) s).stack = []
      ∧ ∀ v, v ∈ starts ∨ v ∈ s.visited →
          v ∈ (starts.foldl (finishFrom vertices targets) s).visited := by
  induction starts generalizing s with
  | nil => simp [hI, hstack]
  | cons start starts ih =>
    obtain ⟨hI', hstack', hvis'⟩ :=
      finishFrom_spec hclosed hI hstack (hsub start (List.mem_cons_self ..))
    obtain ⟨hI'', hstack'', hvis''⟩ :=
      ih (fun v hv => hsub v (List.mem_cons_of_mem _ hv)) _ hI' hstack'
    refine ⟨hI'', hstack'', fun v hv => hvis'' v ?_⟩
    rcases hv with hv | hv
    · rcases List.mem_cons.mp hv with rfl | hv
      · exact Or.inr (hvis' v (Or.inl rfl))
      · exact Or.inl hv
    · exact Or.inr (hvis' v (Or.inr hv))

/-- The search emits every vertex once, in a finishing order. -/
theorem finishingOrder_finishOrder [DecidableEq α] (hclosed : Closed vertices targets) :
    FinishingOrder (Edge targets) {v | v ∈ vertices} (finishOrder vertices targets) := by
  obtain ⟨hI, hstack, hvis⟩ := foldl_finishFrom_spec hclosed vertices (fun _ hv => hv)
    ⟨[], [], []⟩ finishInv_empty rfl
  have hnodup := hI.nodup
  have hmem := hI.visited_iff
  rw [hstack] at hnodup hmem
  refine ⟨by simpa [finishOrder] using hnodup, fun v => ⟨fun hv => ?_, fun hv => ?_⟩, hI.returns⟩
  · exact hI.sub v ((hmem v).mpr (Or.inl hv))
  · simpa [finishOrder] using (hmem v).mp (hvis v (Or.inl hv))

/-! ## Backward sweep -/

/-- One closure: `stack` holds vertices marked but not expanded yet. -/
structure CollectState (α : Type*) where
  visited : List α
  stack : List α
  component : List α

/-- Mark and push a vertex met for the first time. -/
def pushUnvisited [DecidableEq α] (s : CollectState α) (target : α) : CollectState α :=
  if target ∈ s.visited then s
  else { s with visited := target :: s.visited, stack := target :: s.stack }

def collectStep [DecidableEq α] (sources : α → List α) (s : CollectState α) :
    Option (CollectState α) :=
  match s.stack with
  | [] => none
  | node :: stack =>
    some ((sources node).reverse.foldl pushUnvisited
      { s with stack := stack, component := s.component ++ [node] })

/-- The sweep: the marks so far and the components closed so far. -/
structure SweepState (α : Type*) where
  visited : List α
  components : List (List α)

def collectFrom [DecidableEq α] (vertices : List α) (sources : α → List α)
    (s : SweepState α) (start : α) : SweepState α :=
  if start ∈ s.visited then s
  else
    let closed := Loop.iterate (collectStep sources) vertices.length
      ⟨start :: s.visited, [start], []⟩
    ⟨closed.visited, s.components ++ [closed.component]⟩

def sweep [DecidableEq α] (vertices : List α) (sources : α → List α) (order : List α) :
    List (List α) :=
  (order.reverse.foldl (collectFrom vertices sources) ⟨[], []⟩).components

/-- What one expansion pushes: the targets met for the first time, each once. -/
theorem foldl_pushUnvisited [DecidableEq α] (l : List α) (s : CollectState α) :
    ∃ new : List α, l.foldl pushUnvisited s
        = { s with visited := new ++ s.visited, stack := new ++ s.stack }
      ∧ new.Nodup ∧ ∀ x, x ∈ new ↔ x ∈ l ∧ x ∉ s.visited := by
  induction l generalizing s with
  | nil => exact ⟨[], by simp⟩
  | cons b l ih =>
    by_cases hb : b ∈ s.visited
    · have hstep : pushUnvisited s b = s := if_pos hb
      obtain ⟨new, heq, hnd, hmem⟩ := ih s
      refine ⟨new, by rw [List.foldl_cons, hstep, heq], hnd, fun x => ?_⟩
      rw [hmem, List.mem_cons]
      constructor
      · exact fun h => ⟨Or.inr h.1, h.2⟩
      · rintro ⟨rfl | hx, hnot⟩
        · exact absurd hb hnot
        · exact ⟨hx, hnot⟩
    · have hstep : pushUnvisited s b
          = { s with visited := b :: s.visited, stack := b :: s.stack } := if_neg hb
      obtain ⟨new, heq, hnd, hmem⟩ := ih (pushUnvisited s b)
      rw [hstep] at heq hmem
      refine ⟨new ++ [b], ?_, ?_, fun x => ?_⟩
      · rw [List.foldl_cons, hstep, heq]
        simp
      · have hbnew : b ∉ new := fun h => ((hmem b).mp h).2 (List.mem_cons_self ..)
        rw [List.nodup_append]
        refine ⟨hnd, List.nodup_singleton b, ?_⟩
        rintro x hx y hy rfl
        obtain rfl : x = b := by simpa using hy
        exact hbnew hx
      · rw [List.mem_append, hmem]
        simp only [List.mem_cons, List.not_mem_nil, or_false, not_or]
        by_cases hxb : x = b
        · subst hxb
          simp [hb]
        · simp [hxb]

/-- The invariant of one closure from `start`, where `V` was visited before. -/
structure CollectInv (sources : α → List α) (V : Set α) (start : α) (s : CollectState α) :
    Prop where
  nodup : (s.component ++ s.stack).Nodup
  visited_iff : ∀ v, v ∈ s.visited ↔ v ∈ V ∨ v ∈ s.component ∨ v ∈ s.stack
  fresh : ∀ v, v ∈ s.component ∨ v ∈ s.stack → v ∉ V ∧ Reach (Edge sources) start v
  start_mem : start ∈ s.component ∨ start ∈ s.stack
  expanded : ∀ v ∈ s.component, ∀ t ∈ sources v, t ∈ s.visited

variable {sources : α → List α}

theorem collectInv_step [DecidableEq α] {V : Set α} {start : α}
    (s s' : CollectState α) (hI : CollectInv sources V start s)
    (h : collectStep sources s = some s') : CollectInv sources V start s' := by
  rw [collectStep] at h
  split at h
  · cases h
  · rename_i node stack hs
    obtain ⟨new, heq, hnd, hmem⟩ := foldl_pushUnvisited (sources node).reverse
      { s with stack := stack, component := s.component ++ [node] }
    rw [heq] at h
    cases h
    simp only [List.mem_reverse] at hmem
    have hvis := hI.visited_iff
    have hfresh := hI.fresh
    have hnodup := hI.nodup
    have hstart := hI.start_mem
    rw [hs] at hvis hfresh hnodup hstart
    simp only [List.mem_cons] at hvis hfresh hstart
    have hnode := hfresh node (Or.inr (Or.inl rfl))
    refine ⟨?_, ?_, ?_, ?_, ?_⟩
    · -- What is pushed was not visited before.
      have hdisj : ∀ x ∈ new, x ∉ s.component ++ node :: stack := by
        intro x hx hin
        apply ((hmem x).mp hx).2
        rw [hvis]
        simp only [List.mem_append, List.mem_cons] at hin
        exact Or.inr hin
      have hperm : (s.component ++ [node] ++ (new ++ stack)).Perm
          (new ++ (s.component ++ node :: stack)) := by
        have h₁ : (s.component ++ [node] ++ new).Perm (new ++ (s.component ++ [node])) :=
          List.perm_append_comm
        have h₂ := h₁.append_right stack
        simpa using h₂
      rw [hperm.nodup_iff]
      refine List.nodup_append.mpr ⟨hnd, hnodup, ?_⟩
      rintro x hx y hy rfl
      exact hdisj x hx hy
    · intro v
      simp only [List.mem_append, List.mem_cons, List.not_mem_nil, or_false, hvis v]
      tauto
    · intro v hv
      simp only [List.mem_append, List.mem_cons, List.not_mem_nil, or_false] at hv
      rcases hv with (hv | rfl) | hv | hv
      · exact hfresh v (Or.inl hv)
      · exact hnode
      · obtain ⟨hsrc, hnot⟩ := (hmem v).mp hv
        refine ⟨fun hV => hnot ((hvis v).mpr (Or.inl hV)), hnode.2.tail hsrc⟩
      · exact hfresh v (Or.inr (Or.inr hv))
    · simp only [List.mem_append, List.mem_cons, List.not_mem_nil, or_false]
      tauto
    · intro v hv t ht
      simp only [List.mem_append, List.mem_cons, List.not_mem_nil, or_false] at hv ⊢
      rcases hv with hv | rfl
      · exact Or.inr (hI.expanded v hv t ht)
      · by_cases htv : t ∈ s.visited
        · exact Or.inr htv
        · exact Or.inl ((hmem t).mpr ⟨ht, htv⟩)

/-- Unvisited vertices, and those waiting to be expanded. -/
def collectMeasure [DecidableEq α] (vertices : List α) (s : CollectState α) : Nat :=
  ((vertices.filter fun v => v ∉ s.visited).map fun _ => 1).sum + s.stack.length

theorem sum_filter_not_mem_append [DecidableEq α] {visited new : List α}
    (hnd : new.Nodup) (hsub : ∀ x ∈ new, x ∈ vertices ∧ x ∉ visited) :
    ((vertices.filter fun x => x ∉ new ++ visited).map fun _ => 1).sum + new.length
      ≤ ((vertices.filter fun x => x ∉ visited).map fun _ => 1).sum := by
  induction new with
  | nil => simp
  | cons b new ih =>
    obtain ⟨hb, hnd⟩ := List.nodup_cons.mp hnd
    have hrest := ih hnd fun x hx => hsub x (List.mem_cons_of_mem _ hx)
    obtain ⟨hbv, hbn⟩ := hsub b (List.mem_cons_self ..)
    have hnew : b ∉ new ++ visited := by simp [hb, hbn]
    have hone := sum_filter_not_mem_cons (fun _ => 1) hnew hbv
    rw [List.cons_append, List.length_cons]
    omega

theorem collectMeasure_step [DecidableEq α]
    (hclosed : Closed vertices sources) (s s' : CollectState α)
    (h : collectStep sources s = some s') :
    collectMeasure vertices s' < collectMeasure vertices s := by
  rw [collectStep] at h
  split at h
  · cases h
  · rename_i node stack hs
    obtain ⟨new, heq, hnd, hmem⟩ := foldl_pushUnvisited (sources node).reverse
      { s with stack := stack, component := s.component ++ [node] }
    rw [heq] at h
    cases h
    simp only [List.mem_reverse] at hmem
    have hsub : ∀ x ∈ new, x ∈ vertices ∧ x ∉ s.visited := fun x hx =>
      ⟨(hclosed node x ((hmem x).mp hx).1).2, ((hmem x).mp hx).2⟩
    have hdrop := sum_filter_not_mem_append hnd hsub
    simp only [collectMeasure, hs, List.length_append, List.length_cons]
    omega

/-- One closure collects what `start` reaches outside the vertices visited
    before, when those are closed under the adjacency. -/
theorem collect_spec [DecidableEq α] {start : α}
    (hclosed : Closed vertices sources) (hstart : start ∈ vertices) (hnew : start ∉ visited)
    (hV : ∀ x y, y ∈ sources x → x ∈ visited → y ∈ visited) :
    let closed := Loop.iterate (collectStep sources) vertices.length
      ⟨start :: visited, [start], []⟩
    closed.component.Nodup
      ∧ (∀ v, v ∈ closed.component ↔ Reach (Edge sources) start v ∧ v ∉ visited)
      ∧ ∀ v, v ∈ closed.visited ↔ v ∈ visited ∨ v ∈ closed.component := by
  intro closed
  have hinit : CollectInv sources {x | x ∈ visited} start ⟨start :: visited, [start], []⟩ := by
    refine ⟨by simp, ?_, ?_, by simp, by simp⟩
    · intro v
      simp [or_comm]
    · intro v hv
      obtain rfl : v = start := by simpa using hv
      exact ⟨hnew, .refl⟩
  have hI : CollectInv sources {x | x ∈ visited} start closed :=
    Loop.iterate_inv collectInv_step hinit
  have hstop : collectStep sources closed = none := by
    refine Loop.iterate_stops (I := fun _ => True) (collectMeasure vertices)
      (fun _ _ _ _ => trivial) (fun s s' _ h => collectMeasure_step hclosed s s' h) trivial ?_
    have hdrop := sum_filter_not_mem_cons (fun _ => 1) hnew hstart
    have hall : ((vertices.filter fun v => v ∉ visited).map fun _ => 1).sum
        ≤ vertices.length := by
      simpa using List.length_filter_le _ vertices
    simp only [collectMeasure, List.length_cons, List.length_nil]
    omega
  have hstack : closed.stack = [] := by
    rw [collectStep] at hstop
    split at hstop
    · assumption
    · cases hstop
  have hvis := hI.visited_iff
  have hfresh := hI.fresh
  have hmem := hI.start_mem
  rw [hstack] at hvis hfresh hmem
  simp only [List.not_mem_nil, or_false] at hvis hfresh hmem
  refine ⟨by simpa [hstack] using hI.nodup, fun v => ⟨fun hv => ?_, ?_⟩, hvis⟩
  · exact ⟨(hfresh v hv).2, (hfresh v hv).1⟩
  · rintro ⟨hreach, hv⟩
    induction hreach with
    | refl => exact hmem
    | tail hy hyz ih =>
      rename_i y z
      have hy' := ih fun hyV => hv (hV y z hyz hyV)
      rcases (hvis z).mp (hI.expanded y hy' z hyz) with hz | hz
      · exact absurd hz hv
      · exact hz

/-- The invariant of the sweep once the part `later` of the order is done. -/
structure SweepInv (vertices : List α) (targets : α → List α) (later : List α)
    (s : SweepState α) : Prop where
  closed : ∀ x y, y ∈ targets x → y ∈ s.visited → x ∈ s.visited
  done : ∀ v ∈ later, v ∈ s.visited
  visited_iff : ∀ v, v ∈ s.visited ↔ ∃ c ∈ s.components, v ∈ c
  block : ∀ c ∈ s.components, c.Nodup ∧
    ∃ r ∈ vertices, ∀ v, v ∈ c ↔ v ∈ component (Edge targets) r
  disjoint : s.components.Pairwise fun c d => ∀ v ∈ c, v ∉ d

theorem reach_reverse (hrev : ∀ a b, b ∈ sources a ↔ a ∈ targets b)
    {b : α} : Reach (Edge sources) a b ↔ Reach (Edge targets) b a := by
  have hswap : Edge sources = Function.swap (Edge targets) := by
    funext x y
    exact propext (hrev x y)
  rw [hswap]
  exact Relation.reflTransGen_swap

theorem sweepInv_collectFrom [DecidableEq α] {earlier later : List α}
    {s : SweepState α} (hclosed : Closed vertices targets)
    (hrev : ∀ a b, b ∈ sources a ↔ a ∈ targets b)
    (hO : FinishingOrder (Edge targets) {v | v ∈ vertices} (earlier ++ v :: later))
    (hI : SweepInv vertices targets later s) :
    SweepInv vertices targets (v :: later) (collectFrom vertices sources s v) := by
  rw [collectFrom]
  split_ifs with hvis
  · refine ⟨hI.closed, fun x hx => ?_, hI.visited_iff, hI.block, hI.disjoint⟩
    rcases List.mem_cons.mp hx with rfl | hx
    · exact hvis
    · exact hI.done x hx
  · have hclosed' : Closed vertices sources := fun a b h =>
      (hclosed b a ((hrev a b).mp h)).symm
    have hv : v ∈ vertices := (hO.mem_iff v).mp (by simp)
    obtain ⟨hnd, hmem, hvis'⟩ := collect_spec hclosed' hv hvis fun x y hy hx =>
      hI.closed y x ((hrev x y).mp hy) hx
    -- what the closure collected is the component of `v`
    have hcomp : component (Edge targets) v
        = {w | Reach (Edge targets) w v ∧ w ∉ {x | x ∈ s.visited}} :=
      hO.component_eq (fun x y hxy _ => (hclosed x y hxy).1) hI.closed hI.done hvis
    simp only [reach_reverse hrev] at hmem
    have hblock : ∀ w, w ∈ (Loop.iterate (collectStep sources) vertices.length
        ⟨v :: s.visited, [v], []⟩).component ↔ w ∈ component (Edge targets) v := by
      intro w
      rw [hmem, hcomp]
      rfl
    refine ⟨fun x y hxy hy => ?_, fun x hx => ?_, fun x => ?_, ?_, ?_⟩
    · rw [hvis'] at hy ⊢
      rcases hy with hy | hy
      · exact Or.inl (hI.closed x y hxy hy)
      · by_cases hx : x ∈ s.visited
        · exact Or.inl hx
        · exact Or.inr ((hmem x).mpr ⟨.head hxy ((hmem y).mp hy).1, hx⟩)
    · rw [hvis']
      rcases List.mem_cons.mp hx with rfl | hx
      · exact Or.inr ((hblock x).mpr (mem_component_self x))
      · exact Or.inl (hI.done x hx)
    · rw [hvis', hI.visited_iff]
      simp only [List.mem_append, List.mem_singleton, or_and_right, exists_or, exists_eq_left]
    · intro c hc
      rcases List.mem_append.mp hc with hc | hc
      · exact hI.block c hc
      · rw [List.mem_singleton.mp hc]
        exact ⟨hnd, v, hv, hblock⟩
    · refine List.pairwise_append.mpr ⟨hI.disjoint, List.pairwise_singleton _ _, ?_⟩
      intro c hc d hd x hx hxd
      rw [List.mem_singleton.mp hd] at hxd
      exact ((hmem x).mp hxd).2 ((hI.visited_iff x).mpr ⟨c, hc, hx⟩)

/-- The sweep of a finishing order along the reversed edges lists the strongly
    connected components, each vertex in exactly one. -/
theorem sweep_components [DecidableEq α] (sources : α → List α) {order : List α}
    (hclosed : Closed vertices targets) (hrev : ∀ a b, b ∈ sources a ↔ a ∈ targets b)
    (hO : FinishingOrder (Edge targets) {v | v ∈ vertices} order) :
    (∀ c ∈ sweep vertices sources order, c.Nodup ∧
        ∃ r ∈ vertices, ∀ v, v ∈ c ↔ v ∈ component (Edge targets) r)
      ∧ (∀ v ∈ vertices, ∃ c ∈ sweep vertices sources order, v ∈ c)
      ∧ (sweep vertices sources order).Pairwise fun c d => ∀ v ∈ c, v ∉ d := by
  have hinv : ∀ later, (∃ earlier, order = earlier ++ later) →
      SweepInv vertices targets later
        (later.foldr (fun v s => collectFrom vertices sources s v) ⟨[], []⟩) := by
    intro later
    induction later with
    | nil => exact fun _ => ⟨by simp, by simp, by simp, by simp, List.Pairwise.nil⟩
    | cons v later ih =>
      rintro ⟨earlier, rfl⟩
      have hI := ih ⟨earlier ++ [v], by simp⟩
      exact sweepInv_collectFrom hclosed hrev hO hI
  have hI := hinv order ⟨[], rfl⟩
  rw [sweep, List.foldl_reverse]
  exact ⟨hI.block, fun v hv => (hI.visited_iff v).mp (hI.done v ((hO.mem_iff v).mpr hv)),
    hI.disjoint⟩

end DepthFirst
