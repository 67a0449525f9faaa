/-
  Opcore.Sense.Graph.Cycles

  Runtime dependency cycles present after a change that no single cycle before
  the change already contained.
-/
import Opcore.Library.ShortestPath
import Opcore.Sense.Graph.Components
import Mathlib.Data.List.Chain

namespace Opcore

open Text Collections Digraph

/-! ## Cyclic components -/

/-- The components of several modules, or of one that imports itself. -/
def cyclicComponents (projection : Projection) : List (BTreeSet RepoPath) :=
  let runtimeEdges := projection.runtimeEdges
  let selfEdges := BTreeSet.ofList
    ((runtimeEdges.filter fun edge => edge.from = edge.to).map DependencyEdge.from)
  (components projection.nodes runtimeEdges).filter fun component =>
    1 < component.size || component.elems.any fun node => node ∈ selfEdges

def componentMembership (components : List (BTreeSet RepoPath)) : BTreeMap RepoPath Nat :=
  BTreeMap.ofList (components.zipIdx.flatMap fun (component, index) =>
    component.elems.map fun path => (path, index))

def containedInPriorCycle (after : BTreeSet RepoPath) (membership : BTreeMap RepoPath Nat) :
    Bool :=
  match after.first?.bind membership.get? with
  | none => false
  | some component => after.elems.all fun path => membership.get? path = some component

/-! ## Triggers -/

/-- The runtime edges that the first view does not have, under their sources. -/
def newRuntimeEdges (after : Projection) (before : BTreeSet DependencyEdge) :
    BTreeMap RepoPath (List DependencyEdge) :=
  BTreeMap.group ((after.runtimeEdges.filter fun edge => edge ∉ before).map
    fun edge => (edge.from, edge))

/-- The first edge that is new and stays inside the component. -/
def firstNewInternalEdge (component : BTreeSet RepoPath)
    (newEdges : BTreeMap RepoPath (List DependencyEdge)) : Option DependencyEdge :=
  component.elems.findSome? fun path =>
    (newEdges.get? path).bind fun edges => edges.find? fun edge => edge.to ∈ component

/-! ## Witnesses -/

def adjacency (nodes : BTreeSet RepoPath) (edges : List DependencyEdge) :
    BTreeMap RepoPath (List RepoPath) :=
  let unlinked := BTreeMap.ofList (nodes.elems.map fun node => (node, ([] : List RepoPath)))
  let linked := edges.foldl
    (fun adjacency edge => adjacency.alter edge.from (Option.map (· ++ [edge.to]))) unlinked
  linked.mapValues sortDedup

/-- The targets `witness_predecessors` follows: those inside the component. -/
def witnessTargets (adjacency : BTreeMap RepoPath (List RepoPath))
    (component : BTreeSet RepoPath) (node : RepoPath) : List RepoPath :=
  ((adjacency.get? node).getD []).filter fun target => target ∈ component

def witnessPredecessors (adjacency : BTreeMap RepoPath (List RepoPath))
    (component : BTreeSet RepoPath) (start target : RepoPath) :
    Option (BTreeMap RepoPath RepoPath) :=
  let found := BreadthFirst.search (witnessTargets adjacency component) (component.size + 1)
    start target
  if target ∈ found.visited then some found.previous else none

def reconstructWitness (previous : BTreeMap RepoPath RepoPath) (trigger : DependencyEdge) :
    Option (List RepoPath) :=
  (BreadthFirst.walkBack previous trigger.to previous.size trigger.from).map
    fun reversePath => trigger.from :: reversePath.reverse

/-- A shortest closed walk that starts with the trigger. -/
def shortestWitness (adjacency : BTreeMap RepoPath (List RepoPath))
    (component : BTreeSet RepoPath) (trigger : DependencyEdge) : Option (List RepoPath) :=
  if trigger.from = trigger.to then some [trigger.from, trigger.from]
  else
    (witnessPredecessors adjacency component trigger.to trigger.from).bind
      fun previous => reconstructWitness previous trigger

/-! ## Introduced cycles -/

/-- What is reported of a component: at most so many members, and a walk or none. -/
def introducedCycle (adjacency : BTreeMap RepoPath (List RepoPath))
    (component : BTreeSet RepoPath) (trigger : DependencyEdge) : Option IntroducedCycle :=
  (shortestWitness adjacency component trigger).map fun witness =>
    let witnessTruncated := decide (maxCycleWitnessPaths < witness.length)
    { memberCount := component.size
      members := component.elems.take maxCycleMemberPaths
      membersTruncated := maxCycleMemberPaths < component.size
      trigger
      witness := if witnessTruncated then [] else witness
      witnessTruncated }

/-- The components that no component of the first view contained, each with its first new edge
    and a shortest walk through it. -/
def introducedCycles (before after : Projection) : List IntroducedCycle :=
  let beforeMembership := componentMembership (cyclicComponents before)
  let beforeEdges := BTreeSet.ofList before.runtimeEdges
  let newEdges := newRuntimeEdges after beforeEdges
  let adjacency := adjacency after.nodes after.runtimeEdges
  ((cyclicComponents after).filter
      fun component => !containedInPriorCycle component beforeMembership).filterMap
    fun component =>
      (firstNewInternalEdge component newEdges).bind
        fun trigger => introducedCycle adjacency component trigger

/-! ## What the code computes -/

/-- The runtime graph of a projection. -/
def Projection.RuntimeEdge (projection : Projection) (a b : RepoPath) : Prop :=
  (⟨a, b, .runtime⟩ : DependencyEdge) ∈ projection.edges

instance (projection : Projection) (a b : RepoPath) : Decidable (projection.RuntimeEdge a b) :=
  inferInstanceAs (Decidable (_ ∈ _))

/-- Runtime edges join nodes of the projection. -/
def Projection.RuntimeClosed (projection : Projection) : Prop :=
  ∀ edge ∈ projection.runtimeEdges, edge.from ∈ projection.nodes ∧ edge.to ∈ projection.nodes

/-- A strongly connected component of the runtime graph with a cycle in it. -/
structure IsCyclicComponent (projection : Projection) (c : BTreeSet RepoPath) : Prop where
  scc : ∃ r ∈ projection.nodes, ∀ v, v ∈ c ↔ v ∈ component projection.RuntimeEdge r
  cyclic : 1 < c.size ∨ ∃ v ∈ c, projection.RuntimeEdge v v

/-- A cyclic component that lies inside no single cyclic component of `before`. -/
def IsIntroduced (before after : Projection) (c : BTreeSet RepoPath) : Prop :=
  IsCyclicComponent after c ∧ ¬∃ d, IsCyclicComponent before d ∧ ∀ v ∈ c, v ∈ d

/-- The entry `introduced_cycles` reports for a component. -/
structure ReportsCycle (before after : Projection) (c : BTreeSet RepoPath)
    (entry : IntroducedCycle) : Prop where
  memberCount : entry.memberCount = c.size
  members : entry.members = c.elems.take maxCycleMemberPaths
  membersTruncated : entry.membersTruncated = decide (maxCycleMemberPaths < c.size)
  trigger_new : entry.trigger ∈ after.runtimeEdges ∧ entry.trigger ∉ before.edges
  trigger_internal : entry.trigger.from ∈ c ∧ entry.trigger.to ∈ c
  witness_truncated : entry.witnessTruncated = true → entry.witness = []
  witness_closed : entry.witnessTruncated = false →
    entry.witness.head? = some entry.trigger.from
      ∧ entry.witness.getLast? = some entry.trigger.from
      ∧ entry.witness.IsChain after.RuntimeEdge

variable {projection before after : Projection} {c d : BTreeSet RepoPath} {a b : RepoPath}

theorem edgeIn_runtimeEdges (hclosed : projection.RuntimeClosed) :
    EdgeIn projection.nodes projection.runtimeEdges = projection.RuntimeEdge := by
  funext a b
  refine propext ⟨?_, fun h => ?_⟩
  · rintro ⟨-, -, ⟨_, _, kind⟩, he, rfl, rfl⟩
    obtain ⟨he, rfl⟩ := Projection.mem_runtimeEdges.mp he
    exact he
  · have he : (⟨a, b, .runtime⟩ : DependencyEdge) ∈ projection.runtimeEdges :=
      Projection.mem_runtimeEdges.mpr ⟨h, rfl⟩
    exact ⟨(hclosed _ he).1, (hclosed _ he).2, _, he, rfl, rfl⟩

theorem runtimeEdge_iff : projection.RuntimeEdge a b ↔
    ∃ edge ∈ projection.runtimeEdges, edge.from = a ∧ edge.to = b := by
  constructor
  · exact fun h => ⟨_, Projection.mem_runtimeEdges.mpr ⟨h, rfl⟩, rfl, rfl⟩
  · rintro ⟨⟨_, _, kind⟩, he, rfl, rfl⟩
    obtain ⟨he, rfl⟩ := Projection.mem_runtimeEdges.mp he
    exact he

theorem mem_cyclicComponents (hclosed : projection.RuntimeClosed) :
    c ∈ cyclicComponents projection ↔ IsCyclicComponent projection c := by
  have hself : ∀ v, v ∈ BTreeSet.ofList ((projection.runtimeEdges.filter
      fun edge => edge.from = edge.to).map DependencyEdge.from) ↔
      projection.RuntimeEdge v v := by
    intro v
    simp only [BTreeSet.mem_ofList, List.mem_map, List.mem_filter, decide_eq_true_eq,
      runtimeEdge_iff]
    constructor
    · rintro ⟨edge, ⟨he, hloop⟩, rfl⟩
      exact ⟨edge, he, rfl, hloop.symm⟩
    · rintro ⟨edge, he, rfl, hloop⟩
      exact ⟨edge, ⟨he, hloop.symm⟩, rfl⟩
  have hmem := (components_partition projection.nodes projection.runtimeEdges).mem_iff (c := c)
  rw [edgeIn_runtimeEdges hclosed] at hmem
  rw [cyclicComponents, List.mem_filter, hmem]
  simp only [Bool.or_eq_true, decide_eq_true_eq, List.any_eq_true, hself]
  exact ⟨fun h => ⟨h.1, h.2⟩, fun h => ⟨h.1, h.2⟩⟩

theorem disjoint_cyclicComponents (projection : Projection) :
    (cyclicComponents projection).Pairwise fun c d => ∀ v ∈ c, v ∉ d :=
  (components_partition projection.nodes projection.runtimeEdges).disjoint.filter _

theorem IsCyclicComponent.nonempty (h : IsCyclicComponent projection c) : ∃ v, v ∈ c := by
  obtain ⟨r, -, hc⟩ := h.scc
  exact ⟨r, (hc r).mpr (mem_component_self r)⟩

theorem IsCyclicComponent.mutual (h : IsCyclicComponent projection c) (ha : a ∈ c) (hb : b ∈ c) :
    Mutual projection.RuntimeEdge a b := by
  obtain ⟨r, -, hc⟩ := h.scc
  exact ((hc a).mp ha).symm.trans ((hc b).mp hb)

theorem nodup_cyclicComponents (hclosed : projection.RuntimeClosed) :
    (cyclicComponents projection).Nodup := by
  refine (disjoint_cyclicComponents projection).imp_of_mem ?_
  rintro c d hc - hdisj rfl
  obtain ⟨v, hv⟩ := ((mem_cyclicComponents hclosed).mp hc).nonempty
  exact hdisj v hv hv

/-! ## Membership of prior cycles -/

/-- In disjoint components a path belongs to the one its membership names. -/
theorem get?_componentMembership {components : List (BTreeSet RepoPath)} {index : Nat}
    (hdisj : components.Pairwise fun c d => ∀ v ∈ c, v ∉ d) :
    (componentMembership components).get? a = some index ↔
      ∃ d, components[index]? = some d ∧ a ∈ d := by
  rw [componentMembership, BTreeMap.get?_ofList_of_nodup]
  · simp only [List.mem_flatMap, List.mem_map, Prod.mk.injEq, Prod.exists,
      List.mem_zipIdx_iff_getElem?]
    constructor
    · rintro ⟨d, i, hd, p, hp, rfl, rfl⟩
      exact ⟨d, hd, hp⟩
    · rintro ⟨d, hd, ha⟩
      exact ⟨d, index, hd, a, ha, rfl, rfl⟩
  · rw [List.map_flatMap, List.nodup_flatMap]
    constructor
    · rintro ⟨d, i⟩ -
      simpa [List.map_map, Function.comp_def] using d.nodup_elems
    · have hz : components.zipIdx.Pairwise fun c d => ∀ v ∈ c.1, v ∉ d.1 := by
        have hmap : (components.zipIdx.map Prod.fst).Pairwise fun c d => ∀ v ∈ c, v ∉ d := by
          simpa using hdisj
        exact List.pairwise_map.mp hmap
      refine hz.imp fun {c d} hcd => ?_
      intro v hv hv'
      simp only [List.map_map, List.mem_map, Function.comp_apply, exists_eq_right] at hv hv'
      exact hcd v hv hv'

theorem containedInPriorCycle_iff {components : List (BTreeSet RepoPath)}
    (hdisj : components.Pairwise fun c d => ∀ v ∈ c, v ∉ d) (hne : ∃ v, v ∈ c) :
    containedInPriorCycle c (componentMembership components) = true ↔
      ∃ d ∈ components, ∀ v ∈ c, v ∈ d := by
  obtain ⟨first, hfirst⟩ : ∃ first, c.first? = some first := by
    obtain ⟨v, hv⟩ := hne
    cases h : c.first? with
    | some first => exact ⟨first, rfl⟩
    | none =>
      rw [BTreeSet.first?_eq_none_iff.mp h] at hv
      exact absurd hv BTreeSet.not_mem_empty
  have hmem : first ∈ c := (BTreeSet.first?_eq_some_iff.mp hfirst).1
  rw [containedInPriorCycle, hfirst, Option.bind_some]
  constructor
  · intro h
    split at h
    · cases h
    · rename_i index hindex
      obtain ⟨d, hd, -⟩ := (get?_componentMembership hdisj).mp hindex
      refine ⟨d, List.mem_of_getElem? hd, fun v hv => ?_⟩
      have hv' := List.all_eq_true.mp h v hv
      obtain ⟨d', hd', hvd'⟩ := (get?_componentMembership hdisj).mp (decide_eq_true_eq.mp hv')
      obtain rfl : d = d' := by simpa [hd] using hd'
      exact hvd'
  · rintro ⟨d, hd, hsub⟩
    obtain ⟨index, hindex⟩ := List.getElem?_of_mem hd
    have hget : ∀ v ∈ c, (componentMembership components).get? v = some index := fun v hv =>
      (get?_componentMembership hdisj).mpr ⟨d, hindex, hsub v hv⟩
    rw [hget first hmem]
    exact List.all_eq_true.mpr fun v hv => decide_eq_true (hget v hv)

/-! ## Triggers of introduced cycles -/

variable {known : BTreeSet DependencyEdge} {edge : DependencyEdge}

theorem mem_newRuntimeEdges :
    edge ∈ ((newRuntimeEdges after known).get? a).getD [] ↔
      edge ∈ after.runtimeEdges ∧ edge ∉ known ∧ edge.from = a := by
  rw [newRuntimeEdges, BTreeMap.getD_get?_group, BTreeMap.mem_valuesAt]
  simp only [List.mem_map, List.mem_filter, decide_eq_true_eq, Prod.mk.injEq]
  constructor
  · rintro ⟨e, ⟨he, hnew⟩, rfl, rfl⟩
    exact ⟨he, hnew, rfl⟩
  · rintro ⟨he, hnew, rfl⟩
    exact ⟨edge, ⟨he, hnew⟩, rfl, rfl⟩

theorem firstNewInternalEdge_some
    (h : firstNewInternalEdge c (newRuntimeEdges after known) = some edge) :
    edge ∈ after.runtimeEdges ∧ edge ∉ known ∧ edge.from ∈ c ∧ edge.to ∈ c := by
  obtain ⟨a, ha, hsome⟩ := List.exists_of_findSome?_eq_some h
  obtain ⟨edges, hedges, hfind⟩ := Option.bind_eq_some_iff.mp hsome
  have hmem : edge ∈ ((newRuntimeEdges after known).get? a).getD [] := by
    rw [hedges]
    exact List.mem_of_find?_eq_some hfind
  obtain ⟨he, hnew, rfl⟩ := mem_newRuntimeEdges.mp hmem
  exact ⟨he, hnew, ha, by simpa using List.find?_some hfind⟩

theorem firstNewInternalEdge_none (h : firstNewInternalEdge c (newRuntimeEdges after known) = none)
    (he : edge ∈ after.runtimeEdges) (hfrom : edge.from ∈ c) (hto : edge.to ∈ c) :
    edge ∈ known := by
  by_contra hnew
  have hmem := mem_newRuntimeEdges.mpr ⟨he, hnew, rfl⟩
  have hnone := List.findSome?_eq_none_iff.mp h edge.from hfrom
  cases hg : (newRuntimeEdges after known).get? edge.from with
  | none => simp [hg] at hmem
  | some edges =>
    rw [hg] at hmem hnone
    exact absurd (decide_eq_true hto) (by simpa using List.find?_eq_none.mp hnone edge hmem)

/-- If every internal runtime edge of a cyclic component existed before, the
    component already lay inside one cyclic component before. -/
theorem contained_of_edges_known (hb : before.RuntimeClosed) (hc : IsCyclicComponent after c)
    (hknown : ∀ a ∈ c, ∀ b ∈ c, after.RuntimeEdge a b → before.RuntimeEdge a b) :
    ∃ d, IsCyclicComponent before d ∧ ∀ v ∈ c, v ∈ d := by
  -- reachability inside the component survives in the before graph
  have hreach : ∀ a ∈ c, ∀ b ∈ c, Reach before.RuntimeEdge a b := by
    intro a ha b hb
    have hmutual := hc.mutual ha hb
    have hin : ∀ x, Mutual after.RuntimeEdge a x → x ∈ c := by
      intro x hx
      obtain ⟨r, -, hr⟩ := hc.scc
      exact (hr x).mpr (((hr a).mp ha).trans hx)
    have hpath := reach_within_component hmutual
    induction hpath with
    | refl => exact .refl
    | tail _ hstep ih =>
      obtain ⟨hy, hz, hedge⟩ := hstep
      exact (ih (hin _ hy) hy).tail (hknown _ (hin _ hy) _ (hin _ hz) hedge)
  have hnode : ∀ a b, before.RuntimeEdge a b → a ∈ before.nodes := fun a b h =>
    (hb _ (Projection.mem_runtimeEdges.mpr ⟨h, rfl⟩)).1
  -- some member has an internal edge, so it is a node of the before graph
  obtain ⟨r, hr, hrnode⟩ : ∃ r ∈ c, r ∈ before.nodes := by
    rcases hc.cyclic with hsize | ⟨v, hv, hloop⟩
    · obtain ⟨a, ha⟩ := hc.nonempty
      obtain ⟨b, hbc, hne⟩ : ∃ b ∈ c, b ≠ a := by
        obtain ⟨b, hb, hne⟩ := Finset.exists_mem_ne (s := c.toFinset) hsize a
        exact ⟨b, hb, hne⟩
      rcases Relation.ReflTransGen.cases_head (hreach a ha b hbc) with hEq | ⟨x, hax, -⟩
      · exact absurd hEq.symm hne
      · exact ⟨a, ha, hnode a x hax⟩
    · exact ⟨v, hv, hnode v v (hknown v hv v hv hloop)⟩
  obtain ⟨d, hd, hrd⟩ :=
    (components_partition before.nodes before.runtimeEdges).cover r hrnode
  obtain ⟨s, hs, hds⟩ := (components_partition before.nodes before.runtimeEdges).block d hd
  rw [edgeIn_runtimeEdges hb] at hds
  have hsub : ∀ v ∈ c, v ∈ d := by
    intro v hv
    rw [hds, ← component_eq_of_mem ((hds r).mp hrd)]
    exact ⟨hreach r hr v hv, hreach v hv r hr⟩
  refine ⟨d, ⟨⟨s, hs, hds⟩, ?_⟩, hsub⟩
  rcases hc.cyclic with hsize | ⟨v, hv, hloop⟩
  · exact Or.inl (hsize.trans_le (BTreeSet.size_le_of_subset hsub))
  · exact Or.inr ⟨v, hsub v hv, hknown v hv v hv hloop⟩

/-! ## Witnesses of introduced cycles -/

theorem mem_adjacency {nodes : BTreeSet RepoPath} {edges : List DependencyEdge} :
    b ∈ ((adjacency nodes edges).get? a).getD [] ↔
      a ∈ nodes ∧ ∃ edge ∈ edges, edge.from = a ∧ edge.to = b := by
  have hunlinked : (BTreeMap.ofList (nodes.elems.map
      fun node => (node, ([] : List RepoPath)))).get? a = if a ∈ nodes then some [] else none := by
    have hnd : ((nodes.elems.map fun node => (node, ([] : List RepoPath))).map Prod.fst).Nodup := by
      simpa [Function.comp_def] using nodes.nodup_elems
    split_ifs with ha
    · rw [BTreeMap.get?_ofList_of_nodup hnd]
      exact List.mem_map_of_mem ha
    · cases hg : (BTreeMap.ofList (nodes.elems.map
        fun node => (node, ([] : List RepoPath)))).get? a with
      | none => rfl
      | some targets =>
        rw [BTreeMap.get?_ofList_of_nodup hnd] at hg
        obtain ⟨p, hp, hEq⟩ := List.mem_map.mp hg
        cases hEq
        exact absurd hp ha
  have hfold : ∀ (edges : List DependencyEdge) (m : BTreeMap RepoPath (List RepoPath)),
      (edges.foldl (fun m edge => m.alter edge.from (Option.map (· ++ [edge.to]))) m).get? a
        = (m.get? a).map
            (· ++ (edges.filter fun edge => edge.from = a).map DependencyEdge.to) := by
    intro edges
    induction edges with
    | nil => simp
    | cons edge edges ih =>
      intro m
      rw [List.foldl_cons, ih, BTreeMap.get?_alter]
      by_cases ha : a = edge.from
      · subst ha
        cases m.get? edge.from <;> simp
      · have ha' : edge.from ≠ a := fun h => ha h.symm
        simp [ha, ha']
  rw [adjacency, BTreeMap.get?_mapValues, hfold, hunlinked]
  split_ifs with ha
  · simp [mem_sortDedup, ha, and_assoc]
  · simp [ha]

/-! ## The least witness -/

/-- A closed walk through a trigger: it starts with the trigger, follows runtime
    edges inside the component and ends where it started. -/
structure IsWitness (after : Projection) (c : BTreeSet RepoPath) (trigger : DependencyEdge)
    (walk : List RepoPath) : Prop where
  starts : ∃ rest, walk = trigger.from :: trigger.to :: rest
  ends : walk.getLast? = some trigger.from
  chain : walk.IsChain after.RuntimeEdge
  inside : ∀ x ∈ walk, x ∈ c

theorem mem_witnessTargets :
    b ∈ witnessTargets (adjacency after.nodes after.runtimeEdges) c a ↔
      a ∈ after.nodes ∧ after.RuntimeEdge a b ∧ b ∈ c := by
  rw [witnessTargets, List.mem_filter, mem_adjacency, decide_eq_true_eq, runtimeEdge_iff,
    and_assoc]

theorem sorted_witnessTargets (after : Projection) (c : BTreeSet RepoPath) (a : RepoPath) :
    (witnessTargets (adjacency after.nodes after.runtimeEdges) c a).Pairwise (· < ·) := by
  refine List.Pairwise.filter _ ?_
  unfold adjacency
  rw [BTreeMap.get?_mapValues]
  generalize BTreeMap.get? _ a = targets
  cases targets with
  | none => exact List.Pairwise.nil
  | some targets => exact (BTreeSet.ofList targets).sorted

/-- The members of a cyclic component are nodes that reach each other inside it. -/
theorem reach_cyclicComponent (hc : c ∈ cyclicComponents after) (ha : a ∈ c) (hb : b ∈ c) :
    Reach (DepthFirst.Edge (witnessTargets (adjacency after.nodes after.runtimeEdges) c)) a b := by
  have hmutual : ∀ x, x ∈ c ↔ Mutual (EdgeIn after.nodes after.runtimeEdges) a x := fun x =>
    (components_partition after.nodes after.runtimeEdges).mem_iff_mutual
      (List.mem_of_mem_filter hc) ha
  refine Relation.ReflTransGen.mono ?_ _ _ (reach_within_component ((hmutual b).mp hb))
  rintro x y ⟨-, hy, hx, -, hedge⟩
  exact mem_witnessTargets.mpr ⟨hx, runtimeEdge_iff.mpr hedge, (hmutual y).mpr hy⟩

theorem mem_nodes_of_cyclicComponent (hc : c ∈ cyclicComponents after) (ha : a ∈ c) :
    a ∈ after.nodes :=
  (components_partition after.nodes after.runtimeEdges).mem_nodes (List.mem_of_mem_filter hc) ha

variable {trigger : DependencyEdge}

/-- A walk of a witness after its first vertex is a walk of the search. -/
theorem IsWitness.isChain_tail {rest : List RepoPath} (hc : c ∈ cyclicComponents after)
    (h : IsWitness after c trigger (trigger.from :: trigger.to :: rest)) :
    (trigger.to :: rest).IsChain
      (DepthFirst.Edge (witnessTargets (adjacency after.nodes after.runtimeEdges) c)) := by
  have hinside : ∀ x ∈ trigger.to :: rest, x ∈ c :=
    fun x hx => h.inside x (List.mem_cons_of_mem _ hx)
  refine List.IsChain.imp_of_mem_imp ?_ (List.isChain_cons_cons.mp h.chain).2
  intro x y hx hy hedge
  exact mem_witnessTargets.mpr
    ⟨mem_nodes_of_cyclicComponent hc (hinside x hx), hedge, hinside y hy⟩

/-- The search and the walk back find a closed walk of the least rank. -/
theorem exists_least_witness (hc : c ∈ cyclicComponents after)
    (htrigger : trigger ∈ after.runtimeEdges) (hfrom : trigger.from ∈ c) (hto : trigger.to ∈ c) :
    ∃ witness, shortestWitness (adjacency after.nodes after.runtimeEdges) c trigger = some witness
      ∧ IsWitness after c trigger witness
      ∧ ∀ walk, IsWitness after c trigger walk →
        witness.length < walk.length ∨ witness.length = walk.length ∧ witness ≤ walk := by
  have hedge : after.RuntimeEdge trigger.from trigger.to :=
    runtimeEdge_iff.mpr ⟨trigger, htrigger, rfl, rfl⟩
  rw [shortestWitness]
  split_ifs with hloop
  · refine ⟨_, rfl, ⟨⟨[], by rw [hloop]⟩, rfl, ?_, ?_⟩, ?_⟩
    · rw [← hloop] at hedge
      simpa using hedge
    · simpa using hfrom
    · intro walk hwalk
      obtain ⟨rest, rfl⟩ := hwalk.starts
      rw [← hloop]
      cases rest with
      | nil => exact .inr ⟨rfl, le_refl _⟩
      | cons x rest => exact .inl (by simp)
  · have hU : ∀ a b, b ∈ witnessTargets (adjacency after.nodes after.runtimeEdges) c a → b ∈ c :=
      fun a b h => (mem_witnessTargets.mp h).2.2
    obtain ⟨hvisited, back, hback, hhead, hlast, hchain⟩ := BreadthFirst.walkBack_search hU hto
      (Nat.le_succ c.size) (reach_cyclicComponent hc hto hfrom)
    have hstart : back.reverse.head? = some trigger.to := by
      rw [List.head?_reverse, hlast]
    obtain ⟨rest, hrest⟩ : ∃ rest, back.reverse = trigger.to :: rest := by
      cases hreverse : back.reverse with
      | nil =>
        rw [hreverse] at hstart
        cases hstart
      | cons x rest =>
        rw [hreverse] at hstart
        cases hstart
        exact ⟨rest, rfl⟩
    have hpath : (trigger.to :: rest).IsChain
        (DepthFirst.Edge (witnessTargets (adjacency after.nodes after.runtimeEdges) c)) := by
      rw [← hrest, List.isChain_reverse]
      exact hchain
    refine ⟨trigger.from :: back.reverse, ?_, ⟨⟨rest, by rw [hrest]⟩, ?_, ?_, ?_⟩, ?_⟩
    · simp [witnessPredecessors, hvisited, reconstructWitness, hback]
    · rw [List.getLast?_cons, List.getLast?_reverse, hhead]
      rfl
    · rw [hrest]
      refine List.isChain_cons_cons.mpr ⟨hedge, ?_⟩
      exact hpath.imp fun x y h => (mem_witnessTargets.mp h).2.1
    · -- Every vertex after the first is a target of the search.
      rw [hrest]
      refine List.forall_mem_cons.mpr ⟨hfrom, ?_⟩
      exact hpath.induction (· ∈ c) _ (fun x y hxy _ => hU x y hxy) (fun _ => hto)
    · intro walk hwalk
      obtain ⟨others, rfl⟩ := hwalk.starts
      have hends : (trigger.to :: others).getLast? = some trigger.from := by
        have := hwalk.ends
        rwa [List.getLast?_cons_cons] at this
      have hleast := BreadthFirst.walkBack_search_least hU hto (Nat.le_succ c.size)
        (sorted_witnessTargets after c) hback rfl hends (hwalk.isChain_tail hc)
      rcases BreadthFirst.rank_le_iff.mp hleast with hlt | ⟨heq, hle⟩
      · exact .inl (by simpa using hlt)
      · refine .inr ⟨by simpa using heq, ?_⟩
        rcases hle.lt_or_eq with hlt | heq'
        · exact (List.cons_lt_cons_iff.mpr (.inr ⟨rfl, hlt⟩)).le
        · rw [heq']

/-- The witness of a trigger inside a cyclic component is found, and it is the
    least of its closed walks: none is shorter, and none of its length comes
    before it in path order. -/
theorem shortestWitness_least (after : Projection) (c : BTreeSet RepoPath)
    (trigger : DependencyEdge) (hc : c ∈ cyclicComponents after)
    (htrigger : trigger ∈ after.runtimeEdges) (hfrom : trigger.from ∈ c) (hto : trigger.to ∈ c) :
    ∃ witness, shortestWitness (adjacency after.nodes after.runtimeEdges) c trigger = some witness
      ∧ IsWitness after c trigger witness
      ∧ ∀ walk, IsWitness after c trigger walk →
        witness.length < walk.length ∨ witness.length = walk.length ∧ witness ≤ walk :=
  exists_least_witness hc htrigger hfrom hto

/-- A trigger inside a component has a closed walk as its witness. -/
theorem shortestWitness_spec (hclosed : after.RuntimeClosed)
    (hc : IsCyclicComponent after c) (htrigger : trigger ∈ after.runtimeEdges)
    (hfrom : trigger.from ∈ c) (hto : trigger.to ∈ c) :
    ∃ witness, shortestWitness (adjacency after.nodes after.runtimeEdges) c trigger = some witness
      ∧ witness.head? = some trigger.from ∧ witness.getLast? = some trigger.from
      ∧ witness.IsChain after.RuntimeEdge := by
  obtain ⟨witness, hfound, hwitness, -⟩ := exists_least_witness
    ((mem_cyclicComponents hclosed).mpr hc) htrigger hfrom hto
  obtain ⟨rest, rfl⟩ := hwitness.starts
  exact ⟨_, hfound, rfl, hwitness.ends, hwitness.chain⟩

theorem introducedCycle_spec (ha : after.RuntimeClosed)
    (hc : IsCyclicComponent after c) (htrigger : trigger ∈ after.runtimeEdges)
    (hnew : trigger ∉ before.edges) (hfrom : trigger.from ∈ c) (hto : trigger.to ∈ c) :
    ∃ entry, introducedCycle (adjacency after.nodes after.runtimeEdges) c trigger = some entry
      ∧ ReportsCycle before after c entry := by
  obtain ⟨witness, hwitness, hhead, hlast, hchain⟩ :=
    shortestWitness_spec ha hc htrigger hfrom hto
  refine ⟨_, by rw [introducedCycle, hwitness]; rfl, ?_⟩
  refine ⟨rfl, rfl, rfl, ⟨htrigger, hnew⟩, ⟨hfrom, hto⟩, fun h => if_pos h, fun h => ?_⟩
  have hkeep : (if decide (maxCycleWitnessPaths < witness.length) = true then [] else witness)
      = witness := if_neg (by simpa using h)
  simp only [hkeep]
  exact ⟨hhead, hlast, hchain⟩

/-! ## Completeness and soundness -/

/-- Each component that survives the first filter yields its entry. -/
theorem report_of_introduced (hb : before.RuntimeClosed) (ha : after.RuntimeClosed)
    (hc : IsIntroduced before after c) :
    ∃ entry, ((firstNewInternalEdge c
        (newRuntimeEdges after (BTreeSet.ofList before.runtimeEdges))).bind fun trigger =>
          introducedCycle (adjacency after.nodes after.runtimeEdges) c trigger) = some entry
      ∧ ReportsCycle before after c entry := by
  obtain ⟨hcyc, hnot⟩ := hc
  cases htrigger : firstNewInternalEdge c
      (newRuntimeEdges after (BTreeSet.ofList before.runtimeEdges)) with
  | none =>
    refine absurd (contained_of_edges_known hb hcyc fun x hx y hy hxy => ?_) hnot
    have hmem := firstNewInternalEdge_none htrigger
      (Projection.mem_runtimeEdges.mpr ⟨hxy, rfl⟩) hx hy
    exact (Projection.mem_runtimeEdges.mp (BTreeSet.mem_ofList.mp hmem)).1
  | some trigger =>
    obtain ⟨hmem, hnew, hfrom, hto⟩ := firstNewInternalEdge_some htrigger
    rw [BTreeSet.mem_ofList, Projection.mem_runtimeEdges] at hnew
    have hnew' : trigger ∉ before.edges := fun h =>
      hnew ⟨h, (Projection.mem_runtimeEdges.mp hmem).2⟩
    exact introducedCycle_spec ha hcyc hmem hnew' hfrom hto

theorem forall₂_filterMap {α β : Type*} {R : α → β → Prop} {f : α → Option β} {l : List α}
    (h : ∀ x ∈ l, ∃ y, f x = some y ∧ R x y) : List.Forall₂ R l (l.filterMap f) := by
  induction l with
  | nil => exact .nil
  | cons x l ih =>
    obtain ⟨y, hy, hR⟩ := h x (List.mem_cons_self ..)
    rw [List.filterMap_cons_some hy]
    exact .cons hR (ih fun x hx => h x (List.mem_cons_of_mem _ hx))

/-- `introduced_cycles` reports each introduced component once and nothing else:
    the entries correspond one to one, in order, to a list without repetition
    whose members are exactly the introduced components. -/
theorem introducedCycles_exact (before after : Projection) (hb : before.RuntimeClosed)
    (ha : after.RuntimeClosed) :
    ∃ components : List (BTreeSet RepoPath), components.Nodup
      ∧ (∀ c, c ∈ components ↔ IsIntroduced before after c)
      ∧ List.Forall₂ (ReportsCycle before after) components (introducedCycles before after) := by
  have hmem : ∀ c, c ∈ (cyclicComponents after).filter (fun component =>
      !containedInPriorCycle component (componentMembership (cyclicComponents before))) ↔
        IsIntroduced before after c := by
    intro c
    rw [List.mem_filter, mem_cyclicComponents ha, IsIntroduced]
    refine and_congr_right fun hc => ?_
    rw [Bool.not_eq_true', ← Bool.not_eq_true,
      containedInPriorCycle_iff (disjoint_cyclicComponents before) hc.nonempty]
    simp only [mem_cyclicComponents hb]
  refine ⟨_, (nodup_cyclicComponents ha).filter _, hmem, ?_⟩
  exact forall₂_filterMap fun c hc => report_of_introduced hb ha ((hmem c).mp hc)

/-! Two modules, first with one import between them and then with both. -/

def moduleA : RepoPath := samplePath "a.py"

def moduleB : RepoPath := samplePath "b.py"

def oneImport : Projection where
  nodes := BTreeSet.ofList [moduleA, moduleB]
  edges := BTreeSet.ofList [⟨moduleA, moduleB, .runtime⟩]

def mutualImport : Projection where
  nodes := BTreeSet.ofList [moduleA, moduleB]
  edges := BTreeSet.ofList [⟨moduleA, moduleB, .runtime⟩, ⟨moduleB, moduleA, .runtime⟩]

instance (projection : Projection) : Decidable projection.RuntimeClosed :=
  inferInstanceAs (Decidable (∀ edge ∈ projection.runtimeEdges, _))

theorem introducedCycles_exact_mutualImport :
    (introducedCycles oneImport mutualImport).map IntroducedCycle.witness
        = [[moduleB, moduleA, moduleB]]
      ∧ ∃ components : List (BTreeSet RepoPath), components.Nodup
        ∧ (∀ c, c ∈ components ↔ IsIntroduced oneImport mutualImport c)
        ∧ List.Forall₂ (ReportsCycle oneImport mutualImport) components
            (introducedCycles oneImport mutualImport) :=
  ⟨by decide +kernel, introducedCycles_exact oneImport mutualImport (by decide) (by decide)⟩

theorem shortestWitness_least_mutualImport :
    ∃ witness, shortestWitness (adjacency mutualImport.nodes mutualImport.runtimeEdges)
        (BTreeSet.ofList [moduleA, moduleB]) ⟨moduleA, moduleB, .runtime⟩ = some witness
      ∧ IsWitness mutualImport (BTreeSet.ofList [moduleA, moduleB])
        ⟨moduleA, moduleB, .runtime⟩ witness := by
  obtain ⟨witness, hfound, hwitness, -⟩ := shortestWitness_least mutualImport
    (BTreeSet.ofList [moduleA, moduleB]) ⟨moduleA, moduleB, .runtime⟩ (by decide +kernel)
    (by decide +kernel) (by decide +kernel) (by decide +kernel)
  exact ⟨witness, hfound, hwitness⟩

end Opcore
