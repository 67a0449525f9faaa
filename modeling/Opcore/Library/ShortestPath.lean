/-
  Opcore.Library.ShortestPath

  Breadth-first search over sorted adjacency lists finds the least path.  Paths
  are compared by length and then element by element; the search discovers the
  vertices in the order of the paths it finds for them, so each path is the
  least of all walks to its end (`walkBack_search_least`).
-/
import Opcore.Library.BreadthFirst
import Mathlib.Data.List.Chain
import Mathlib.Data.List.Lex
import Mathlib.Data.Prod.Lex
import Mathlib.Logic.Function.Basic

namespace BreadthFirst

open Digraph Collections DepthFirst

variable {α : Type*} [LinearOrder α] {targets : α → List α} {start goal node x y : α}
  {l m : List α}

/-! ## The order of paths -/

/-- Shorter lists first, and lists of one length by their elements. -/
def rank (l : List α) : ℕ ×ₗ List α := toLex (l.length, l)

theorem rank_lt_iff : rank l < rank m ↔ l.length < m.length ∨ l.length = m.length ∧ l < m :=
  Prod.Lex.toLex_lt_toLex

theorem rank_le_iff : rank l ≤ rank m ↔ l.length < m.length ∨ l.length = m.length ∧ l ≤ m :=
  Prod.Lex.toLex_le_toLex

omit [LinearOrder α] in
theorem rank_injective : Function.Injective (rank (α := α)) :=
  fun _ _ h => congrArg Prod.snd (toLex.injective h)

theorem append_lt_append_of_length_eq (hlen : l.length = m.length) (h : l < m) (s t : List α) :
    l ++ s < m ++ t := by
  induction l generalizing m with
  | nil =>
    obtain rfl := List.length_eq_zero_iff.mp hlen.symm
    exact absurd h (lt_irrefl _)
  | cons a l ih =>
    cases m with
    | nil => cases hlen
    | cons b m =>
      rw [List.cons_append, List.cons_append, List.cons_lt_cons_iff]
      rcases List.cons_lt_cons_iff.mp h with hab | ⟨hab, hlm⟩
      · exact .inl hab
      · exact .inr ⟨hab, ih (Nat.succ.inj hlen) hlm⟩

theorem rank_append_lt (h : rank l < rank m) (x y : α) : rank (l ++ [x]) < rank (m ++ [y]) := by
  rw [rank_lt_iff] at h ⊢
  rw [List.length_append, List.length_append, List.length_singleton, List.length_singleton]
  rcases h with hlt | ⟨heq, hlt⟩
  · exact .inl (by omega)
  · exact .inr ⟨by omega, append_lt_append_of_length_eq heq hlt [x] [y]⟩

theorem rank_append_le (h : rank l ≤ rank m) (x : α) : rank (l ++ [x]) ≤ rank (m ++ [x]) := by
  rcases h.lt_or_eq with hlt | heq
  · exact (rank_append_lt hlt x x).le
  · rw [rank_injective heq]

theorem rank_append_lt_of_lt (l : List α) (h : x < y) : rank (l ++ [x]) < rank (l ++ [y]) := by
  rw [rank_lt_iff]
  refine .inr ⟨by simp, List.append_left_lt ?_⟩
  exact List.cons_lt_cons_iff.mpr (.inl h)

theorem rank_lt_append (l : List α) (x : α) : rank l < rank (l ++ [x]) := by
  rw [rank_lt_iff]
  exact .inl (by simp)

/-! ## The order of discovery -/

/-- The vertices are discovered in the order of their paths; `expanded` are those
    taken from the queue, and a path ends with a vertex one of them led to. -/
structure OrderInv (start : α) (expanded : List α) (path : α → List α) (s : SearchState α) :
    Prop where
  visited_iff : ∀ x, x ∈ s.visited ↔ x ∈ expanded ++ s.queue
  start_mem : start ∈ s.visited
  path_start : path start = [start]
  previous : ∀ x y, s.previous.get? x = some y →
    x ∈ s.visited ∧ y ∈ s.visited ∧ path x = path y ++ [x]
  sorted : (expanded ++ s.queue).Pairwise fun a b => rank (path a) < rank (path b)
  found : ∀ z ∈ s.visited, z = start ∨ ∃ x ∈ expanded, path z = path x ++ [z]

/-- The targets of a vertex are discovered, each along the vertex or better. -/
def Leads (targets : List α) (path : α → List α) (s : SearchState α) (x : α) : Prop :=
  ∀ y ∈ targets, y ∈ s.visited ∧ rank (path y) ≤ rank (path x ++ [y])

/-- Every path discovered comes before a step from `node` to a target in `l`. -/
def Below (path : α → List α) (node : α) (s : SearchState α) (l : List α) : Prop :=
  ∀ z ∈ s.visited, ∀ t ∈ l, rank (path z) < rank (path node ++ [t])

variable {expanded : List α} {path : α → List α} {s : SearchState α}

/-- Meeting an undiscovered target gives it the path through `node`. -/
theorem OrderInv.visit_new {t : α}
    (hI : OrderInv start expanded path s) (hnode : node ∈ expanded) (hnew : t ∉ s.visited)
    (hbelow : ∀ z ∈ s.visited, rank (path z) < rank (path node ++ [t])) :
    OrderInv start expanded (Function.update path t (path node ++ [t])) (visit node s t) := by
  have hkept : ∀ z ∈ s.visited, Function.update path t (path node ++ [t]) z = path z := by
    intro z hz
    refine Function.update_of_ne ?_ _ _
    rintro rfl
    exact hnew hz
  have hnodev : node ∈ s.visited := (hI.visited_iff node).mpr (List.mem_append_left _ hnode)
  have hvisit : visit node s t
      = ⟨s.queue ++ [t], s.previous.insert t node, s.visited.insert t⟩ := if_neg hnew
  rw [hvisit]
  refine ⟨?_, BTreeSet.mem_insert.mpr (.inr hI.start_mem), ?_, ?_, ?_, ?_⟩
  · intro z
    rw [BTreeSet.mem_insert, hI.visited_iff, ← List.append_assoc]
    simp only [List.mem_append, List.mem_singleton]
    tauto
  · rw [hkept start hI.start_mem, hI.path_start]
  · intro z y hz
    rw [BTreeMap.get?_insert] at hz
    split_ifs at hz with heq
    · cases hz
      subst heq
      refine ⟨BTreeSet.mem_insert.mpr (.inl rfl), BTreeSet.mem_insert.mpr (.inr hnodev), ?_⟩
      rw [Function.update_self, hkept node hnodev]
    · obtain ⟨hzv, hyv, hpath⟩ := hI.previous z y hz
      refine ⟨BTreeSet.mem_insert.mpr (.inr hzv), BTreeSet.mem_insert.mpr (.inr hyv), ?_⟩
      rw [hkept z hzv, hkept y hyv, hpath]
  · rw [← List.append_assoc, List.pairwise_append]
    refine ⟨?_, List.pairwise_singleton _ _, ?_⟩
    · refine hI.sorted.imp_of_mem ?_
      intro a b ha hb hab
      rw [hkept a ((hI.visited_iff a).mpr ha), hkept b ((hI.visited_iff b).mpr hb)]
      exact hab
    · intro a ha b hb
      obtain rfl := List.mem_singleton.mp hb
      have hav := (hI.visited_iff a).mpr ha
      rw [hkept a hav, Function.update_self]
      exact hbelow a hav
  · intro z hz
    rcases BTreeSet.mem_insert.mp hz with rfl | hz
    · refine .inr ⟨node, hnode, ?_⟩
      rw [Function.update_self, hkept node hnodev]
    · rcases hI.found z hz with rfl | ⟨x, hx, hpath⟩
      · exact .inl rfl
      · have hxv := (hI.visited_iff x).mpr (List.mem_append_left _ hx)
        refine .inr ⟨x, hx, ?_⟩
        rw [hkept z hz, hkept x hxv, hpath]

/-- Meeting sorted targets of `node` one after the other keeps the order. -/
theorem OrderInv.foldl_visit
    (hI : OrderInv start expanded path s) (hnode : node ∈ expanded) (hl : l.Pairwise (· < ·))
    (hbelow : Below path node s l) :
    ∃ path', OrderInv start expanded path' (l.foldl (visit node) s)
      ∧ (∀ z ∈ s.visited, z ∈ (l.foldl (visit node) s).visited ∧ path' z = path z)
      ∧ Leads l path' (l.foldl (visit node) s) node := by
  induction l generalizing path s with
  | nil => exact ⟨path, hI, fun z hz => ⟨hz, rfl⟩, nofun⟩
  | cons t l ih =>
    obtain ⟨ht, hl⟩ := List.pairwise_cons.mp hl
    rw [List.foldl_cons]
    have hnodev : node ∈ s.visited := (hI.visited_iff node).mpr (List.mem_append_left _ hnode)
    by_cases hvisited : t ∈ s.visited
    · -- A target discovered before keeps its path, which comes first.
      have hvisit : visit node s t = s := if_pos hvisited
      rw [hvisit]
      obtain ⟨path', hI', hkept, hleads⟩ := ih hI hl fun z hz t' ht' =>
        hbelow z hz t' (List.mem_cons_of_mem t ht')
      refine ⟨path', hI', hkept, List.forall_mem_cons.mpr ⟨⟨(hkept t hvisited).1, ?_⟩, hleads⟩⟩
      rw [(hkept t hvisited).2, (hkept node hnodev).2]
      exact (hbelow t hvisited t List.mem_cons_self).le
    · have hnew := hI.visit_new hnode hvisited fun z hz => hbelow z hz t List.mem_cons_self
      have hmem : ∀ z, z ∈ (visit node s t).visited ↔ z = t ∨ z ∈ s.visited := by
        intro z
        rw [visit, if_neg hvisited]
        exact BTreeSet.mem_insert
      have hne : ∀ z ∈ s.visited, z ≠ t := by
        rintro z hz rfl
        exact hvisited hz
      have hbelow' : Below (Function.update path t (path node ++ [t])) node (visit node s t) l := by
        intro z hz t' ht'
        rw [Function.update_of_ne (hne node hnodev)]
        rcases (hmem z).mp hz with rfl | hz
        · rw [Function.update_self]
          exact rank_append_lt_of_lt _ (ht t' ht')
        · rw [Function.update_of_ne (hne z hz)]
          exact hbelow z hz t' (List.mem_cons_of_mem t ht')
      obtain ⟨path', hI', hkept, hleads⟩ := ih hnew hl hbelow'
      refine ⟨path', hI', ?_, List.forall_mem_cons.mpr ⟨?_, hleads⟩⟩
      · intro z hz
        obtain ⟨hzv, hpath⟩ := hkept z ((hmem z).mpr (.inr hz))
        exact ⟨hzv, hpath.trans (Function.update_of_ne (hne z hz) _ _)⟩
      · obtain ⟨htv, hpath⟩ := hkept t ((hmem t).mpr (.inl rfl))
        obtain ⟨-, hpathnode⟩ := hkept node ((hmem node).mpr (.inr hnodev))
        refine ⟨htv, ?_⟩
        rw [hpath, hpathnode, Function.update_self, Function.update_of_ne (hne node hnodev)]

/-- A state of the search with its order of discovery, every vertex taken from the
    queue having led to its targets. -/
def Ordered (targets : α → List α) (start : α) (s : SearchState α) : Prop :=
  ∃ expanded path, OrderInv start expanded path s
    ∧ ∀ x ∈ expanded, Leads (targets x) path s x

theorem ordered_step (hsorted : ∀ a, (targets a).Pairwise (· < ·)) (s s' : SearchState α)
    (hO : Ordered targets start s) (h : searchStep targets goal s = some s') :
    Ordered targets start s' := by
  obtain ⟨expanded, path, hI, hleads⟩ := hO
  rw [searchStep] at h
  split at h
  · cases h
  · next node queue hq =>
    split_ifs at h
    cases h
    have happend : expanded ++ [node] ++ queue = expanded ++ s.queue := by
      rw [hq, List.append_assoc, List.singleton_append]
    have hpop : OrderInv start (expanded ++ [node]) path { s with queue := queue } := by
      refine ⟨?_, hI.start_mem, hI.path_start, hI.previous, ?_, ?_⟩
      · intro z
        show _ ↔ z ∈ expanded ++ [node] ++ queue
        rw [happend]
        exact hI.visited_iff z
      · show (expanded ++ [node] ++ queue).Pairwise _
        rw [happend]
        exact hI.sorted
      · intro z hz
        rcases hI.found z hz with rfl | ⟨x, hx, hpath⟩
        · exact .inl rfl
        · exact .inr ⟨x, List.mem_append_left _ hx, hpath⟩
    have hnode : node ∈ s.visited := (hI.visited_iff node).mpr (by simp [hq])
    -- The queue is sorted, so the paths over its head come behind all others.
    have hbelow : Below path node { s with queue := queue } (targets node) := by
      intro z hz t _
      rcases hI.found z hz with rfl | ⟨x, hx, hpath⟩
      · rw [hI.path_start, rank_lt_iff]
        left
        rcases hI.found node hnode with rfl | ⟨y, -, hpath⟩
        · rw [hI.path_start]
          simp
        · rw [hpath]
          simp
      · rw [hpath]
        refine rank_append_lt ?_ z t
        have hpair := hI.sorted
        rw [hq, List.pairwise_append] at hpair
        exact hpair.2.2 x hx node List.mem_cons_self
    obtain ⟨path', hI', hkept, hlead⟩ := hpop.foldl_visit
      (List.mem_append_right _ (List.mem_singleton_self node)) (hsorted node) hbelow
    refine ⟨expanded ++ [node], path', hI', ?_⟩
    intro x hx
    rcases List.mem_append.mp hx with hx | hx
    · intro y hy
      obtain ⟨hyv, hrank⟩ := hleads x hx y hy
      have hxv := (hI.visited_iff x).mpr (List.mem_append_left _ hx)
      refine ⟨(hkept y hyv).1, ?_⟩
      rw [(hkept y hyv).2, (hkept x hxv).2]
      exact hrank
    · obtain rfl := List.mem_singleton.mp hx
      exact hlead

theorem ordered_search (hsorted : ∀ a, (targets a).Pairwise (· < ·)) {bound : Nat} :
    Ordered targets start (search targets bound start goal) := by
  refine Loop.iterate_inv (ordered_step hsorted) ?_
  refine ⟨[], fun x => [x], ⟨?_, ?_, rfl, ?_, ?_, ?_⟩, nofun⟩
  · intro x
    simp
  · simp
  · intro x y h
    simp at h
  · simp
  · intro z hz
    exact .inl (by simpa using hz)

/-! ## The least path -/

/-- The walk back along the predecessors is the path, from its end. -/
theorem OrderInv.reverse_walkBack (hI : OrderInv start expanded path s) {fuel : Nat} {back : List α}
    (h : walkBack s.previous start fuel x = some back) : back.reverse = path x := by
  induction fuel generalizing x back with
  | zero =>
    rw [walkBack] at h
    split_ifs at h with heq
    cases h
    rw [heq, hI.path_start]
    rfl
  | succ fuel ih =>
    rw [walkBack] at h
    split_ifs at h with heq
    · cases h
      rw [heq, hI.path_start]
      rfl
    · obtain ⟨prior, hprior, h⟩ := Option.bind_eq_some_iff.mp h
      obtain ⟨rest, hrest, rfl⟩ := Option.map_eq_some_iff.mp h
      obtain ⟨-, -, hpath⟩ := hI.previous x prior hprior
      rw [List.reverse_cons, ih hrest, hpath]

/-- A walk that comes no later than the path of the goal ends at a vertex whose
    path comes no later than the walk. -/
theorem OrderInv.path_le_walk
    (hI : OrderInv start expanded path s) (hleads : ∀ x ∈ expanded, Leads (targets x) path s x)
    (hexpanded : ∀ x ∈ s.visited, rank (path x) < rank (path goal) → x ∈ expanded)
    {walk : List α} (hhead : walk.head? = some start) (hlast : walk.getLast? = some y)
    (hchain : walk.IsChain (Edge targets)) (hle : rank walk ≤ rank (path goal)) :
    y ∈ s.visited ∧ rank (path y) ≤ rank walk := by
  -- Induction from the end: the walk without its last vertex comes strictly first.
  induction walk using List.reverseRecOn generalizing y with
  | nil => cases hlast
  | append_singleton walk z ih =>
    rw [List.getLast?_concat] at hlast
    cases hlast
    cases hend : walk.getLast? with
    | none =>
      rw [List.getLast?_eq_none_iff] at hend
      subst hend
      cases hhead
      rw [hI.path_start]
      exact ⟨hI.start_mem, le_refl _⟩
    | some x =>
      have hhead' : walk.head? = some start := by
        cases walk with
        | nil => cases hend
        | cons a walk => exact hhead
      obtain ⟨hchain', -, hedge⟩ := List.isChain_append.mp hchain
      have hlt : rank walk < rank (path goal) := (rank_lt_append walk z).trans_le hle
      obtain ⟨hx, hrank⟩ := ih hhead' hend hchain' hlt.le
      have hxz : z ∈ targets x := hedge x hend z rfl
      obtain ⟨hz, hpath⟩ := hleads x (hexpanded x hx (hrank.trans_lt hlt)) z hxz
      exact ⟨hz, hpath.trans (rank_append_le hrank z)⟩

/-- Where the search has stopped, everything that comes before its goal has been
    taken from the queue. -/
theorem OrderInv.mem_expanded_of_stopped (hI : OrderInv start expanded path s)
    (hstop : searchStep targets goal s = none) :
    ∀ x ∈ s.visited, rank (path x) < rank (path goal) → x ∈ expanded := by
  intro x hx hlt
  have hmem := (hI.visited_iff x).mp hx
  rw [searchStep] at hstop
  split at hstop
  · next hq =>
    rw [hq, List.append_nil] at hmem
    exact hmem
  · next node queue hq =>
    split_ifs at hstop with hgoal
    subst hgoal
    rw [hq] at hmem
    rcases List.mem_append.mp hmem with hmem | hmem
    · exact hmem
    · rcases List.mem_cons.mp hmem with rfl | hmem
      · exact absurd hlt (lt_irrefl _)
      · have hpair := hI.sorted
        rw [hq, List.pairwise_append] at hpair
        exact absurd hlt ((List.pairwise_cons.mp hpair.2.1).1 x hmem).asymm

/-- Over sorted adjacency lists the path found is the least of all walks from the
    start to the goal. -/
theorem walkBack_search_least {U : BTreeSet α} {n : Nat} (hU : ∀ a b, b ∈ targets a → b ∈ U)
    (hstart : start ∈ U) (hn : U.size ≤ n) (hsorted : ∀ a, (targets a).Pairwise (· < ·))
    {back : List α}
    (hback : walkBack (search targets n start goal).previous start
      (search targets n start goal).previous.size goal = some back)
    {walk : List α} (hhead : walk.head? = some start) (hlast : walk.getLast? = some goal)
    (hchain : walk.IsChain (Edge targets)) : rank back.reverse ≤ rank walk := by
  obtain ⟨expanded, path, hI, hleads⟩ :=
    @ordered_search _ _ targets start goal hsorted n
  rw [hI.reverse_walkBack hback]
  rcases le_total (rank walk) (rank (path goal)) with hle | hle
  · exact (hI.path_le_walk hleads (hI.mem_expanded_of_stopped (searchStep_stops hU hstart hn))
      hhead hlast hchain hle).2
  · exact hle

end BreadthFirst
