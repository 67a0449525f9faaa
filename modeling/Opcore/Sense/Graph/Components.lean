/-
  Opcore.Sense.Graph.Components

  Strongly connected components of a dependency graph.  The nodes are numbered
  in path order, a depth-first search over the numbers yields a finishing order
  and the sweep of that order along the reversed edges yields the components,
  listed by their least path.
-/
import Opcore.Sense.Model
import Opcore.Library.BreadthFirst

namespace Opcore

open Text Collections Digraph

/-! ## Numbered adjacency -/

/-- The number of each path. -/
def pathIndexes (paths : List RepoPath) : BTreeMap RepoPath Nat := BTreeMap.ofList paths.zipIdx

structure IndexedAdjacency where
  forward : List (List Nat)
  reverse : List (List Nat)

/-- Record one edge in both directions; an edge that leaves the nodes is skipped. -/
def IndexedAdjacency.link (indexes : BTreeMap RepoPath Nat) (adjacency : IndexedAdjacency)
    (edge : DependencyEdge) : IndexedAdjacency :=
  match indexes.get? edge.from, indexes.get? edge.to with
  | some source, some target =>
    ⟨adjacency.forward.modify source (· ++ [target]),
      adjacency.reverse.modify target (· ++ [source])⟩
  | _, _ => adjacency

/-- `sort_unstable` followed by `dedup`. -/
def sortDedup {α : Type*} [LinearOrder α] (targets : List α) : List α :=
  (BTreeSet.ofList targets).elems

theorem mem_sortDedup {α : Type*} [LinearOrder α] {targets : List α} {x : α} :
    x ∈ sortDedup targets ↔ x ∈ targets := BTreeSet.mem_ofList

def indexedAdjacency (paths : List RepoPath) (edges : List DependencyEdge) : IndexedAdjacency :=
  let linked := edges.foldl (IndexedAdjacency.link (pathIndexes paths))
    ⟨List.replicate paths.length [], List.replicate paths.length []⟩
  ⟨linked.forward.map sortDedup, linked.reverse.map sortDedup⟩

/-! ## Components -/

/-- `finish_order`. -/
def finishOrder (adjacency : List (List Nat)) : List Nat :=
  DepthFirst.finishOrder (List.range adjacency.length) fun node => adjacency.getD node []

/-- `Option<&RepoPath>` order on the least elements: an empty set comes first. -/
def firstLe (left right : BTreeSet RepoPath) : Bool :=
  match left.first?, right.first? with
  | none, _ => true
  | some _, none => false
  | some a, some b => a ≤ b

/-- `collect_components`; `insertionSort` is a stable sort, as `sort_by` is. -/
def collectComponents (paths : List RepoPath) (reverse : List (List Nat)) (order : List Nat) :
    List (BTreeSet RepoPath) :=
  let components := DepthFirst.sweep (List.range paths.length)
    (fun node => reverse.getD node []) order
  (components.map fun component =>
    BTreeSet.ofList (component.filterMap (paths[·]?))).insertionSort fun left right =>
      firstLe left right

def components (nodes : BTreeSet RepoPath) (edges : List DependencyEdge) :
    List (BTreeSet RepoPath) :=
  let adjacency := indexedAdjacency nodes.elems edges
  collectComponents nodes.elems adjacency.reverse (finishOrder adjacency.forward)

/-! ## Numbering -/

section Numbering

variable {paths : List RepoPath} {edges : List DependencyEdge} {p q : RepoPath} {i j : Nat}

theorem get?_pathIndexes (hnd : paths.Nodup) :
    (pathIndexes paths).get? p = some i ↔ paths[i]? = some p := by
  rw [pathIndexes, BTreeMap.get?_ofList_of_nodup (by simpa using hnd),
    List.mem_zipIdx_iff_getElem?]

/-- The pairs of numbers one list of edges joins. -/
def Joined (indexes : BTreeMap RepoPath Nat) (edges : List DependencyEdge) (i j : Nat) : Prop :=
  ∃ edge ∈ edges, indexes.get? edge.from = some i ∧ indexes.get? edge.to = some j

theorem mem_getD_modify_append {l : List (List Nat)} {k x : Nat} (hk : k < l.length) :
    x ∈ (l.modify k (· ++ [j])).getD i [] ↔ x ∈ l.getD i [] ∨ (i = k ∧ x = j) := by
  simp only [List.getD_eq_getElem?_getD, List.getElem?_modify]
  by_cases hik : k = i
  · subst hik
    simp [hk]
  · have hik' : i ≠ k := fun h => hik h.symm
    cases l[i]? <;> simp [hik, hik']

/-- The lists hold exactly the joined pairs, once in each direction. -/
theorem foldl_link_spec {indexes : BTreeMap RepoPath Nat} {n : Nat}
    (hbound : ∀ p i, indexes.get? p = some i → i < n) (edges : List DependencyEdge)
    (adjacency : IndexedAdjacency) (hf : adjacency.forward.length = n)
    (hr : adjacency.reverse.length = n) :
    let linked := edges.foldl (IndexedAdjacency.link indexes) adjacency
    linked.forward.length = n ∧ linked.reverse.length = n
      ∧ (∀ i j, j ∈ linked.forward.getD i [] ↔
          j ∈ adjacency.forward.getD i [] ∨ Joined indexes edges i j)
      ∧ ∀ i j, i ∈ linked.reverse.getD j [] ↔
          i ∈ adjacency.reverse.getD j [] ∨ Joined indexes edges i j := by
  induction edges generalizing adjacency with
  | nil => simp [hf, hr, Joined]
  | cons edge edges ih =>
    intro linked
    have hstep : linked = edges.foldl (IndexedAdjacency.link indexes)
        (adjacency.link indexes edge) := rfl
    have hjoin : ∀ i j, Joined indexes (edge :: edges) i j ↔
        (indexes.get? edge.from = some i ∧ indexes.get? edge.to = some j)
          ∨ Joined indexes edges i j := by
      intro i j
      simp [Joined]
    cases hs : indexes.get? edge.from with
    | none =>
      have hskip : adjacency.link indexes edge = adjacency := by
        simp [IndexedAdjacency.link, hs]
      rw [hstep, hskip]
      simpa [hjoin, hs] using ih adjacency hf hr
    | some source =>
      cases ht : indexes.get? edge.to with
      | none =>
        have hskip : adjacency.link indexes edge = adjacency := by
          simp [IndexedAdjacency.link, hs, ht]
        rw [hstep, hskip]
        simpa [hjoin, hs, ht] using ih adjacency hf hr
      | some target =>
        have hlink : adjacency.link indexes edge
            = ⟨adjacency.forward.modify source (· ++ [target]),
              adjacency.reverse.modify target (· ++ [source])⟩ := by
          simp [IndexedAdjacency.link, hs, ht]
        obtain ⟨h₁, h₂, h₃, h₄⟩ := ih (adjacency.link indexes edge)
          (by simpa [hlink] using hf) (by simpa [hlink] using hr)
        rw [hstep]
        refine ⟨h₁, h₂, fun i j => ?_, fun i j => ?_⟩
        · rw [h₃, hlink, mem_getD_modify_append (hf ▸ hbound _ _ hs), hjoin, hs, ht]
          simp only [Option.some.injEq]
          tauto
        · rw [h₄, hlink, mem_getD_modify_append (hr ▸ hbound _ _ ht), hjoin, hs, ht]
          simp only [Option.some.injEq]
          tauto

theorem mem_getD_map_sortDedup {l : List (List Nat)} {x : Nat} :
    x ∈ (l.map sortDedup).getD i [] ↔ x ∈ l.getD i [] := by
  simp only [List.getD_eq_getElem?_getD, List.getElem?_map]
  cases l[i]? with
  | none => simp
  | some targets => simp [mem_sortDedup]

theorem indexedAdjacency_spec (edges : List DependencyEdge) (hnd : paths.Nodup) :
    (indexedAdjacency paths edges).forward.length = paths.length
      ∧ (∀ i j, j ∈ (indexedAdjacency paths edges).forward.getD i [] ↔
          Joined (pathIndexes paths) edges i j)
      ∧ ∀ i j, i ∈ (indexedAdjacency paths edges).reverse.getD j [] ↔
          Joined (pathIndexes paths) edges i j := by
  have hbound : ∀ p i, (pathIndexes paths).get? p = some i → i < paths.length := by
    intro p i h
    exact (List.getElem?_eq_some_iff.mp ((get?_pathIndexes hnd).mp h)).1
  have hempty : ∀ i j, j ∉ (List.replicate paths.length ([] : List Nat)).getD i [] := by
    intro i j
    rw [List.getD_eq_getElem?_getD, List.getElem?_replicate]
    split_ifs <;> simp
  obtain ⟨hf, -, hfwd, hrev⟩ := foldl_link_spec hbound edges
    ⟨List.replicate paths.length [], List.replicate paths.length []⟩ (by simp) (by simp)
  refine ⟨?_, fun i j => ?_, fun i j => ?_⟩
  · simpa [indexedAdjacency] using hf
  · simp only [indexedAdjacency, mem_getD_map_sortDedup]
    rw [hfwd]
    simp only [hempty, false_or]
  · simp only [indexedAdjacency, mem_getD_map_sortDedup]
    rw [hrev]
    simp only [hempty, false_or]

end Numbering

/-! ## Correctness -/

section Correctness

variable {nodes : BTreeSet RepoPath} {edges : List DependencyEdge} {p q : RepoPath} {i j : Nat}

/-- The edges of the graph the components are taken of. -/
def EdgeIn (nodes : BTreeSet RepoPath) (edges : List DependencyEdge) (a b : RepoPath) : Prop :=
  a ∈ nodes ∧ b ∈ nodes ∧ ∃ edge ∈ edges, edge.from = a ∧ edge.to = b

theorem joined_iff :
    Joined (pathIndexes nodes.elems) edges i j ↔
      ∃ p q, nodes.elems[i]? = some p ∧ nodes.elems[j]? = some q ∧ EdgeIn nodes edges p q := by
  constructor
  · rintro ⟨edge, he, hi, hj⟩
    rw [get?_pathIndexes nodes.nodup_elems] at hi hj
    exact ⟨edge.from, edge.to, hi, hj, List.mem_of_getElem? hi, List.mem_of_getElem? hj,
      edge, he, rfl, rfl⟩
  · rintro ⟨_, _, hi, hj, -, -, edge, he, rfl, rfl⟩
    exact ⟨edge, he, (get?_pathIndexes nodes.nodup_elems).mpr hi,
      (get?_pathIndexes nodes.nodup_elems).mpr hj⟩

/-- A node's number is unique. -/
theorem index_unique (hi : nodes.elems[i]? = some p) (hj : nodes.elems[j]? = some p) : i = j := by
  rw [← get?_pathIndexes nodes.nodup_elems] at hi hj
  simpa [hi] using hj

theorem reach_path_of_index (hi : nodes.elems[i]? = some p)
    (h : Reach (Joined (pathIndexes nodes.elems) edges) i j) :
    ∃ q, nodes.elems[j]? = some q ∧ Reach (EdgeIn nodes edges) p q := by
  induction h with
  | refl => exact ⟨p, hi, .refl⟩
  | tail _ hstep ih =>
    obtain ⟨q, hq, hreach⟩ := ih
    obtain ⟨a, b, ha, hb, hedge⟩ := joined_iff.mp hstep
    obtain rfl : q = a := by simpa [hq] using ha
    exact ⟨b, hb, hreach.tail hedge⟩

theorem reach_index_of_path (hi : nodes.elems[i]? = some p) (h : Reach (EdgeIn nodes edges) p q) :
    ∃ j, nodes.elems[j]? = some q ∧ Reach (Joined (pathIndexes nodes.elems) edges) i j := by
  induction h with
  | refl => exact ⟨i, hi, .refl⟩
  | tail _ hedge ih =>
    obtain ⟨k, hk, hreach⟩ := ih
    obtain ⟨j, hj⟩ := List.getElem?_of_mem hedge.2.1
    exact ⟨j, hj, hreach.tail (joined_iff.mpr ⟨_, _, hk, hj, hedge⟩)⟩

theorem reach_index_iff (hi : nodes.elems[i]? = some p) (hj : nodes.elems[j]? = some q) :
    Reach (Joined (pathIndexes nodes.elems) edges) i j ↔ Reach (EdgeIn nodes edges) p q := by
  constructor
  · intro h
    obtain ⟨q', hq', hreach⟩ := reach_path_of_index hi h
    obtain rfl : q' = q := by simpa [hj] using hq'.symm
    exact hreach
  · intro h
    obtain ⟨j', hj', hreach⟩ := reach_index_of_path hi h
    obtain rfl := index_unique hj' hj
    exact hreach

/-- The result of `components`: a partition of the nodes into the classes of
    mutual reachability. -/
structure IsPartition (nodes : BTreeSet RepoPath) (edges : List DependencyEdge)
    (blocks : List (BTreeSet RepoPath)) : Prop where
  block : ∀ c ∈ blocks, ∃ r ∈ nodes, ∀ v, v ∈ c ↔ v ∈ component (EdgeIn nodes edges) r
  cover : ∀ v ∈ nodes, ∃ c ∈ blocks, v ∈ c
  disjoint : blocks.Pairwise fun c d => ∀ v ∈ c, v ∉ d

variable {blocks : List (BTreeSet RepoPath)} {c : BTreeSet RepoPath}

/-- The blocks are all the components, not only some of them. -/
theorem IsPartition.mem_iff (hP : IsPartition nodes edges blocks) :
    c ∈ blocks ↔ ∃ r ∈ nodes, ∀ v, v ∈ c ↔ v ∈ component (EdgeIn nodes edges) r := by
  refine ⟨hP.block c, ?_⟩
  rintro ⟨r, hr, hc⟩
  obtain ⟨d, hd, hrd⟩ := hP.cover r hr
  obtain ⟨s, -, hds⟩ := hP.block d hd
  have hEq : c = d := by
    apply BTreeSet.ext_mem
    intro v
    rw [hc, hds, component_eq_of_mem ((hds r).mp hrd)]
  exact hEq ▸ hd

theorem isPartition_of_perm {blocks blocks' : List (BTreeSet RepoPath)} (h : blocks'.Perm blocks)
    (hP : IsPartition nodes edges blocks) : IsPartition nodes edges blocks' := by
  refine ⟨fun c hc => hP.block c (h.mem_iff.mp hc), fun v hv => ?_, ?_⟩
  · obtain ⟨c, hc, hvc⟩ := hP.cover v hv
    exact ⟨c, h.mem_iff.mpr hc, hvc⟩
  · refine (h.pairwise_iff ?_).mpr hP.disjoint
    intro c d hcd v hvd hvc
    exact hcd v hvc hvd

/-- The numbers in the adjacency are those of nodes. -/
theorem closed_indexedAdjacency (nodes : BTreeSet RepoPath) (edges : List DependencyEdge) :
    DepthFirst.Closed (List.range nodes.elems.length)
      fun node => (indexedAdjacency nodes.elems edges).forward.getD node [] := by
  obtain ⟨-, hfwd, -⟩ := indexedAdjacency_spec edges nodes.nodup_elems
  intro i j hij
  obtain ⟨p, q, hi, hj, -⟩ := joined_iff.mp ((hfwd i j).mp hij)
  simp only [List.mem_range]
  exact ⟨(List.getElem?_eq_some_iff.mp hi).1, (List.getElem?_eq_some_iff.mp hj).1⟩

/-- `components` computes the strongly connected components. -/
theorem components_partition (nodes : BTreeSet RepoPath) (edges : List DependencyEdge) :
    IsPartition nodes edges (components nodes edges) := by
  obtain ⟨hlen, hfwd, hrev⟩ := indexedAdjacency_spec edges nodes.nodup_elems
  have hEdge : DepthFirst.Edge
      (fun node => (indexedAdjacency nodes.elems edges).forward.getD node [])
        = Joined (pathIndexes nodes.elems) edges := by
    funext i j
    exact propext (hfwd i j)
  have hclosed := closed_indexedAdjacency nodes edges
  obtain ⟨hblock, hcover, hdisj⟩ := DepthFirst.sweep_components
    (fun node => (indexedAdjacency nodes.elems edges).reverse.getD node []) hclosed
    (fun i j => by rw [hrev, ← hfwd]) (DepthFirst.finishingOrder_finishOrder hclosed)
  rw [hEdge] at hblock
  -- one block, from numbers to paths
  have hmem : ∀ (l : List Nat) v, v ∈ BTreeSet.ofList (l.filterMap (nodes.elems[·]?)) ↔
      ∃ i ∈ l, nodes.elems[i]? = some v := by
    intro l v
    rw [BTreeSet.mem_ofList, List.mem_filterMap]
  rw [components, collectComponents, finishOrder, hlen]
  refine isPartition_of_perm (List.perm_insertionSort _ _) ⟨?_, ?_, ?_⟩
  · intro c hc
    obtain ⟨l, hl, rfl⟩ := List.mem_map.mp hc
    obtain ⟨-, r, hr, hlr⟩ := hblock l hl
    have hrlt := List.mem_range.mp hr
    have hget : nodes.elems[r]? = some nodes.elems[r] := List.getElem?_eq_getElem hrlt
    refine ⟨nodes.elems[r], List.getElem_mem hrlt, fun v => ?_⟩
    rw [hmem]
    constructor
    · rintro ⟨i, hi, hv⟩
      obtain ⟨h₁, h₂⟩ := (hlr i).mp hi
      exact ⟨(reach_index_iff hget hv).mp h₁, (reach_index_iff hv hget).mp h₂⟩
    · rintro ⟨h₁, h₂⟩
      obtain ⟨i, hv, hreach⟩ := reach_index_of_path hget h₁
      exact ⟨i, (hlr i).mpr ⟨hreach, (reach_index_iff hv hget).mpr h₂⟩, hv⟩
  · intro v hv
    obtain ⟨i, hi⟩ := List.getElem?_of_mem hv
    obtain ⟨l, hl, hil⟩ := hcover i (List.mem_range.mpr (List.getElem?_eq_some_iff.mp hi).1)
    exact ⟨_, List.mem_map_of_mem hl, (hmem l v).mpr ⟨i, hil, hi⟩⟩
  · refine List.pairwise_map.mpr (hdisj.imp fun {l l'} hll v hv hv' => ?_)
    obtain ⟨i, hi, hiv⟩ := (hmem l v).mp hv
    obtain ⟨j, hj, hjv⟩ := (hmem l' v).mp hv'
    obtain rfl := index_unique hiv hjv
    exact hll i hi hj

/-- The blocks stand in the order of their least elements. -/
theorem sorted_components (nodes : BTreeSet RepoPath) (edges : List DependencyEdge) :
    (components nodes edges).Pairwise fun left right => firstLe left right = true := by
  have htotal : ∀ left right : BTreeSet RepoPath,
      firstLe left right = true ∨ firstLe right left = true := by
    intro left right
    unfold firstLe
    cases left.first? with
    | none => exact .inl rfl
    | some a =>
      cases right.first? with
      | none => exact .inr rfl
      | some b => simpa using le_total a b
  have htrans : ∀ a b c : BTreeSet RepoPath, firstLe a b = true → firstLe b c = true →
      firstLe a c = true := by
    intro a b c
    unfold firstLe
    cases a.first? with
    | none => exact fun _ _ => rfl
    | some x =>
      cases b.first? with
      | none => exact fun h => absurd h Bool.false_ne_true
      | some y =>
        cases c.first? with
        | none => exact fun _ h => absurd h Bool.false_ne_true
        | some z => simpa using le_trans
  have htotal' : Std.Total fun left right : BTreeSet RepoPath => firstLe left right = true :=
    ⟨htotal⟩
  have htrans' : IsTrans (BTreeSet RepoPath) fun left right => firstLe left right = true :=
    ⟨htrans⟩
  exact List.pairwise_insertionSort _ _

theorem IsPartition.nonempty
    (hP : IsPartition nodes edges blocks) (hc : c ∈ blocks) : ∃ least, c.first? = some least := by
  obtain ⟨r, -, hr⟩ := hP.block c hc
  have hmem : r ∈ c := (hr r).mpr (mem_component_self r)
  cases hfirst : c.first? with
  | some least => exact ⟨least, rfl⟩
  | none =>
    rw [BTreeSet.first?_eq_none_iff.mp hfirst] at hmem
    exact absurd hmem BTreeSet.not_mem_empty

theorem IsPartition.mem_nodes
    (hP : IsPartition nodes edges blocks) (hc : c ∈ blocks) {v : RepoPath} (hv : v ∈ c) :
    v ∈ nodes := by
  obtain ⟨r, hr, hblock⟩ := hP.block c hc
  obtain ⟨hreach, -⟩ := (hblock v).mp hv
  rcases Relation.ReflTransGen.cases_tail hreach with rfl | ⟨u, -, hedge⟩
  · exact hr
  · exact hedge.2.1

theorem IsPartition.mem_iff_mutual
    (hP : IsPartition nodes edges blocks) (hc : c ∈ blocks) {a b : RepoPath} (ha : a ∈ c) :
    b ∈ c ↔ Mutual (EdgeIn nodes edges) a b := by
  obtain ⟨r, -, hblock⟩ := hP.block c hc
  rw [hblock b, ← component_eq_of_mem ((hblock a).mp ha)]
  exact Iff.rfl

/-- `components` partitions the nodes: two of them share a block exactly when each
    reaches the other inside the nodes, the blocks stand in the order of their
    least elements, and the depth-first search emits every node once. -/
theorem components_exact (nodes : BTreeSet RepoPath) (edges : List DependencyEdge) :
    (∀ v, (∃ c ∈ components nodes edges, v ∈ c) ↔ v ∈ nodes)
      ∧ ((components nodes edges).Pairwise fun c d => ∀ v ∈ c, v ∉ d)
      ∧ (∀ c ∈ components nodes edges, ∀ a ∈ c, ∀ b,
        b ∈ c ↔ Mutual (EdgeIn nodes edges) a b)
      ∧ ((components nodes edges).Pairwise fun c d =>
        ∃ a b, c.first? = some a ∧ d.first? = some b ∧ a < b)
      ∧ (finishOrder (indexedAdjacency nodes.elems edges).forward).Perm
        (List.range nodes.elems.length) := by
  have hP := components_partition nodes edges
  refine ⟨?_, hP.disjoint, ?_, ?_, ?_⟩
  · intro v
    refine ⟨?_, hP.cover v⟩
    rintro ⟨c, hc, hv⟩
    exact hP.mem_nodes hc hv
  · exact fun c hc a ha b => hP.mem_iff_mutual hc ha
  · refine (hP.disjoint.and (sorted_components nodes edges)).imp_of_mem ?_
    rintro c d hc hd ⟨hdisjoint, hle⟩
    obtain ⟨a, ha⟩ := hP.nonempty hc
    obtain ⟨b, hb⟩ := hP.nonempty hd
    refine ⟨a, b, ha, hb, lt_of_le_of_ne ?_ ?_⟩
    · unfold firstLe at hle
      rw [ha, hb] at hle
      exact of_decide_eq_true hle
    · rintro rfl
      exact hdisjoint a (BTreeSet.first?_eq_some_iff.mp ha).1 (BTreeSet.first?_eq_some_iff.mp hb).1
  · obtain ⟨hlen, -, -⟩ := indexedAdjacency_spec edges nodes.nodup_elems
    have hO := DepthFirst.finishingOrder_finishOrder (closed_indexedAdjacency nodes edges)
    rw [finishOrder, hlen]
    refine (List.perm_ext_iff_of_nodup hO.nodup List.nodup_range).mpr ?_
    exact fun v => hO.mem_iff v

end Correctness

end Opcore
