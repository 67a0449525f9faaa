/-
  Opcore.Sense.Metrics.Impact

  Reverse impact: for each changed path, the files of one view from which it
  can be reached along dependency edges.  The searches of a request share one
  budget of edge visits, and an observation whose search was cut short says
  that its count is a lower bound.
-/
import Opcore.Sense.Model
import Opcore.Library.BudgetedSearch

namespace Opcore.Metrics

open Text Collections Digraph

/-! ## Observations -/

structure ImpactObservation where
  path : RepoPath
  deleted : Bool
  confirmedDirectDependents : Nat
  confirmedReachableDependents : Nat
  reachableCountIsLowerBound : Bool
  sample : List RepoPath
  sampleTruncated : Bool
  deriving DecidableEq

structure HighImpactChange where
  path : RepoPath
  confirmedDirectDependents : Nat
  threshold : Nat
  deriving DecidableEq

/-! ## The reverse adjacency of a view -/

abbrev ReverseAdjacency := BTreeMap RepoPath (BTreeSet RepoPath)

/-- Record one edge; a self-edge and an edge onto no file of the view are skipped. -/
def recordDependent (reverse : ReverseAdjacency) (edge : DependencyEdge) : ReverseAdjacency :=
  if edge.from = edge.to then reverse
  else
    match reverse.get? edge.to with
    | some dependents => reverse.insert edge.to (dependents.insert edge.from)
    | none => reverse

def reverseAdjacency (projection : Projection) : ReverseAdjacency :=
  projection.edges.elems.foldl recordDependent
    (BTreeMap.ofList (projection.nodes.elems.map fun path => (path, ∅)))

/-- `reverse.get(path).into_iter().flatten()`. -/
def dependents (reverse : ReverseAdjacency) (path : RepoPath) : List RepoPath :=
  ((reverse.get? path).map BTreeSet.elems).getD []

/-! ## Searching -/

structure ReverseReach where
  reachable : BTreeSet RepoPath
  complete : Bool
  edgeVisitBudget : Nat

/-- `reverse_reachable`, with the budget that is left. -/
def reverseReachable (path : RepoPath) (reverse : ReverseAdjacency) (edgeVisitBudget : Nat) :
    ReverseReach :=
  if edgeVisitBudget = 0 then
    ⟨BTreeSet.ofList (dependents reverse path), (reverse.get? path).all BTreeSet.isEmpty, 0⟩
  else
    let final := BudgetedSearch.search (dependents reverse) path edgeVisitBudget
    ⟨final.reachable, !final.stopped, final.budget⟩

structure ImpactState where
  impact : List ImpactObservation := []
  highImpact : List HighImpactChange := []
  sampleBudget : Nat := maxSenseSamplePaths
  edgeVisitBudget : Nat := maxImpactEdgeVisits
  impactTruncated : Bool := false

/-- The view a changed path is looked up in: the one before where it was deleted. -/
def impactView (before after : Projection) (path : RepoPath) : Projection :=
  if path ∉ after.nodes then before else after

/-- The search for one changed path, with what the paths before it left of the budget. -/
def impactReach (before after : Projection) (s : ImpactState) (path : RepoPath) : ReverseReach :=
  reverseReachable path (reverseAdjacency (impactView before after path)) s.edgeVisitBudget

def impactObservation (before after : Projection) (s : ImpactState) (path : RepoPath) :
    ImpactObservation :=
  let reverse := reverseAdjacency (impactView before after path)
  let reach := impactReach before after s path
  let sampleCount := min (min reach.reachable.size maxObservationPaths) s.sampleBudget
  { path := path
    deleted := path ∉ after.nodes
    confirmedDirectDependents := ((reverse.get? path).map BTreeSet.size).getD 0
    confirmedReachableDependents := reach.reachable.size
    reachableCountIsLowerBound := !reach.complete
    sample := reach.reachable.elems.take sampleCount
    sampleTruncated := sampleCount < reach.reachable.size }

/-- One round of the loop over the changed paths. -/
def impactStep (before after : Projection) (highImpactThreshold : Nat) (s : ImpactState)
    (path : RepoPath) : ImpactState :=
  let observation := impactObservation before after s path
  let directCount := observation.confirmedDirectDependents
  { impact := s.impact ++ [observation]
    highImpact :=
      if highImpactThreshold ≤ directCount then
        s.highImpact ++ [⟨path, directCount, highImpactThreshold⟩]
      else s.highImpact
    sampleBudget := s.sampleBudget - observation.sample.length
    edgeVisitBudget := (impactReach before after s path).edgeVisitBudget
    impactTruncated := s.impactTruncated || observation.reachableCountIsLowerBound }

/-- The loop over changed paths, in any order. -/
def impactRun (before after : Projection) (highImpactThreshold : Nat)
    (changedPaths : List RepoPath) : ImpactState :=
  changedPaths.foldl (impactStep before after highImpactThreshold) {}

def impactObservations (before after : Projection) (changedPaths : BTreeSet RepoPath)
    (highImpactThreshold : Nat) : List ImpactObservation × List HighImpactChange × Bool :=
  let final := impactRun before after highImpactThreshold changedPaths.elems
  (final.impact, final.highImpact, final.impactTruncated)

/-! ## Dependents -/

/-- `p` has a dependency edge onto the file `q` of the view. -/
def DependsOn (view : Projection) (p q : RepoPath) : Prop :=
  q ∈ view.nodes ∧ ∃ edge ∈ view.edges, edge.from = p ∧ edge.to = q

instance (view : Projection) (p q : RepoPath) : Decidable (DependsOn view p q) :=
  decidable_of_iff (q ∈ view.nodes ∧ ∃ edge ∈ view.edges.elems, edge.from = p ∧ edge.to = q) Iff.rfl

section Dependents

variable {view : Projection} {reverse : ReverseAdjacency} {p q : RepoPath}

theorem get?_recordDependent (edge : DependencyEdge) :
    (recordDependent reverse edge).get? p = (reverse.get? p).map fun dependents =>
      if edge.to = p ∧ edge.from ≠ p then dependents.insert edge.from else dependents := by
  by_cases hself : edge.from = edge.to
  · have hnot : ¬(edge.to = p ∧ edge.from ≠ p) := fun h => h.2 (hself.trans h.1)
    rw [recordDependent, if_pos hself]
    simp [hnot]
  · rw [recordDependent, if_neg hself]
    by_cases hto : edge.to = p
    · subst hto
      cases h : reverse.get? edge.to with
      | none => simp [h]
      | some dependents => simp [hself]
    · cases h : reverse.get? edge.to with
      | none => simp [hto]
      | some dependents => simp [hto, BTreeMap.get?_insert, Ne.symm hto]

/-- The fold records exactly the edges of its list, one after the other. -/
theorem mem_dependents_foldl (edges : List DependencyEdge) :
    q ∈ dependents (edges.foldl recordDependent reverse) p ↔
      q ∈ dependents reverse p ∨ ((reverse.get? p).isSome ∧ q ≠ p
        ∧ ∃ edge ∈ edges, edge.from = q ∧ edge.to = p) := by
  induction edges generalizing reverse with
  | nil => simp
  | cons edge edges ih =>
    rw [List.foldl_cons, ih]
    simp only [dependents, get?_recordDependent]
    cases reverse.get? p with
    | none => simp
    | some set =>
      simp only [Option.map_some, Option.getD_some, Option.isSome_some, true_and,
        List.mem_cons, exists_eq_or_imp, ← BTreeSet.mem_def]
      split_ifs with h
      · obtain ⟨rfl, hne⟩ := h
        rw [BTreeSet.mem_insert]
        constructor
        · rintro ((rfl | hmem) | hrest)
          · exact Or.inr ⟨hne, Or.inl ⟨rfl, rfl⟩⟩
          · exact Or.inl hmem
          · exact Or.inr ⟨hrest.1, Or.inr hrest.2⟩
        · rintro (hmem | ⟨hq, ⟨rfl, -⟩ | hrest⟩)
          · exact Or.inl (Or.inr hmem)
          · exact Or.inl (Or.inl rfl)
          · exact Or.inr ⟨hq, hrest⟩
      · constructor
        · rintro (hmem | hrest)
          · exact Or.inl hmem
          · exact Or.inr ⟨hrest.1, Or.inr hrest.2⟩
        · rintro (hmem | ⟨hq, ⟨rfl, hto⟩ | hrest⟩)
          · exact Or.inl hmem
          · exact absurd ⟨hto, hq⟩ h
          · exact Or.inr ⟨hq, hrest⟩

theorem get?_start (nodes : BTreeSet RepoPath) :
    (BTreeMap.ofList (nodes.elems.map fun path => (path, (∅ : BTreeSet RepoPath)))).get? p
      = if p ∈ nodes then some ∅ else none := by
  have hnodup : ((nodes.elems.map fun path => (path, (∅ : BTreeSet RepoPath))).map
      Prod.fst).Nodup := by
    rw [List.map_map]
    simpa [Function.comp_def] using nodes.nodup_elems
  ext set
  rw [BTreeMap.get?_ofList_of_nodup hnodup]
  split_ifs with h
  · simp [← BTreeSet.mem_def, h]
  · simp [← BTreeSet.mem_def, h]

/-- The direct dependents of a path: the other files with an edge onto it. -/
theorem mem_dependents_iff :
    q ∈ dependents (reverseAdjacency view) p ↔ q ≠ p ∧ DependsOn view q p := by
  rw [reverseAdjacency, mem_dependents_foldl, get?_start]
  simp only [dependents, get?_start, DependsOn]
  by_cases h : p ∈ view.nodes
  · simp [h, BTreeSet.mem_def]
  · simp [h]

theorem sorted_dependents : (dependents reverse p).Pairwise (· < ·) := by
  rw [dependents]
  cases reverse.get? p with
  | none => exact List.Pairwise.nil
  | some set => exact set.sorted

theorem nodup_dependents : (dependents reverse p).Nodup :=
  sorted_dependents.imp ne_of_lt

theorem not_mem_dependents_self : p ∉ dependents (reverseAdjacency view) p := by
  simp [mem_dependents_iff]

/-- Searching backwards reaches the files that reach the path; self-edges do not matter. -/
theorem reach_dependents_iff :
    Reach (DepthFirst.Edge (dependents (reverseAdjacency view))) p q ↔
      Reach (DependsOn view) q p := by
  constructor
  · intro h
    induction h with
    | refl => exact .refl
    | tail _ hedge ih => exact .head (mem_dependents_iff.mp hedge).2 ih
  · intro h
    induction h using Relation.ReflTransGen.head_induction_on with
    | refl => exact .refl
    | @head a b hedge _ ih =>
      by_cases hab : a = b
      · exact hab ▸ ih
      · exact ih.tail (mem_dependents_iff.mpr ⟨hab, hedge⟩)

theorem length_dependents :
    (dependents reverse p).length = ((reverse.get? p).map BTreeSet.size).getD 0 := by
  rw [dependents]
  cases reverse.get? p <;> rfl

end Dependents

/-! ## One search -/

section Search

variable {view : Projection} {p q : RepoPath} {budget : Nat}

theorem reverseReachable_zero :
    reverseReachable p (reverseAdjacency view) 0
      = ⟨BTreeSet.ofList (dependents (reverseAdjacency view) p),
        ((reverseAdjacency view).get? p).all BTreeSet.isEmpty, 0⟩ := by
  simp [reverseReachable]

theorem reverseReachable_pos (h : budget ≠ 0) :
    reverseReachable p (reverseAdjacency view) budget
      = ⟨(BudgetedSearch.search (dependents (reverseAdjacency view)) p budget).reachable,
        !(BudgetedSearch.search (dependents (reverseAdjacency view)) p budget).stopped,
        (BudgetedSearch.search (dependents (reverseAdjacency view)) p budget).budget⟩ := by
  simp [reverseReachable, h]

theorem edgeVisitBudget_reverseReachable (h : budget ≠ 0) :
    (reverseReachable p (reverseAdjacency view) budget).edgeVisitBudget
      = (BudgetedSearch.search (dependents (reverseAdjacency view)) p budget).budget := by
  rw [reverseReachable_pos h]

/-- A file that a search counts is another file from which the path is reachable. -/
theorem reverseReachable_sound
    (h : q ∈ (reverseReachable p (reverseAdjacency view) budget).reachable) :
    q ≠ p ∧ Reach (DependsOn view) q p := by
  by_cases hbudget : budget = 0
  · subst hbudget
    rw [reverseReachable_zero, BTreeSet.mem_ofList, mem_dependents_iff] at h
    exact ⟨h.1, .single h.2⟩
  · rw [reverseReachable_pos hbudget] at h
    obtain ⟨hne, hreach⟩ := BudgetedSearch.sound h
    exact ⟨hne, reach_dependents_iff.mp hreach⟩

/-- A complete search counts every such file. -/
theorem reverseReachable_exact
    (h : (reverseReachable p (reverseAdjacency view) budget).complete = true) :
    q ∈ (reverseReachable p (reverseAdjacency view) budget).reachable
      ↔ q ≠ p ∧ Reach (DependsOn view) q p := by
  by_cases hbudget : budget = 0
  · subst hbudget
    refine ⟨reverseReachable_sound, fun ⟨hne, hreach⟩ => ?_⟩
    rw [reverseReachable_zero] at h
    -- Nothing depends on the path, so nothing reaches it.
    have hnone : dependents (reverseAdjacency view) p = [] := by
      rw [dependents]
      cases hget : (reverseAdjacency view).get? p with
      | none => rfl
      | some set =>
        have hempty : set = ∅ := BTreeSet.isEmpty_iff.mp (by simpa [hget] using h)
        simp [hempty]
    rcases Relation.ReflTransGen.cases_head (reach_dependents_iff.mpr hreach) with rfl | ⟨x, hx, -⟩
    · exact absurd rfl hne
    · rw [DepthFirst.Edge, hnone] at hx
      cases hx
  · rw [reverseReachable_pos hbudget] at h ⊢
    rw [BudgetedSearch.mem_reachable_iff (by simpa using h), reach_dependents_iff]

/-- The visits left cover the dependents of all direct dependents but the last,
or none are left at all. -/
def VisitsCover (view : Projection) (path : RepoPath) (edgeVisitBudget : Nat) : Prop :=
  edgeVisitBudget = 0
    ∨ BudgetedSearch.leadCost (dependents (reverseAdjacency view))
      (dependents (reverseAdjacency view) path) ≤ edgeVisitBudget

/-- A search finds all direct dependents exactly when the visits left cover them. -/
theorem dependents_sub_iff :
    (∀ q ∈ dependents (reverseAdjacency view) p,
        q ∈ (reverseReachable p (reverseAdjacency view) budget).reachable)
      ↔ VisitsCover view p budget := by
  by_cases hbudget : budget = 0
  · subst hbudget
    simp [reverseReachable_zero, VisitsCover]
  · rw [reverseReachable_pos hbudget,
      BudgetedSearch.targets_sub_iff nodup_dependents not_mem_dependents_self]
    simp [VisitsCover, hbudget]

/-- It counts as many files as there are direct dependents in the same cases. -/
theorem length_dependents_le_iff :
    (dependents (reverseAdjacency view) p).length
        ≤ (reverseReachable p (reverseAdjacency view) budget).reachable.size
      ↔ VisitsCover view p budget := by
  by_cases hbudget : budget = 0
  · subst hbudget
    have hset : BTreeSet.ofList (dependents (reverseAdjacency view) p)
        = ⟨dependents (reverseAdjacency view) p, sorted_dependents⟩ :=
      BTreeSet.ext_mem fun q => BTreeSet.mem_ofList
    simp [reverseReachable_zero, VisitsCover, hset, BTreeSet.size]
  · rw [reverseReachable_pos hbudget,
      BudgetedSearch.length_targets_le_iff nodup_dependents not_mem_dependents_self]
    simp [VisitsCover, hbudget]

end Search

/-! ## Whole requests -/

section Run

variable {before after : Projection} {highImpactThreshold : Nat}

theorem impactRun_append (earlier later : List RepoPath) :
    impactRun before after highImpactThreshold (earlier ++ later)
      = later.foldl (impactStep before after highImpactThreshold)
        (impactRun before after highImpactThreshold earlier) :=
  List.foldl_append

theorem edgeVisitBudget_impactStep (s : ImpactState) (path : RepoPath) :
    (impactStep before after highImpactThreshold s path).edgeVisitBudget
      = (reverseReachable path (reverseAdjacency (impactView before after path))
        s.edgeVisitBudget).edgeVisitBudget := rfl

/-- Later paths only add observations. -/
theorem impact_extends (later : List RepoPath) (s : ImpactState) :
    s.impact <+: (later.foldl (impactStep before after highImpactThreshold) s).impact := by
  induction later generalizing s with
  | nil => exact List.prefix_rfl
  | cons path later ih =>
    rw [List.foldl_cons]
    exact (List.prefix_append s.impact _).trans
      (ih (impactStep before after highImpactThreshold s path))

theorem length_impact (changedPaths : List RepoPath) :
    (impactRun before after highImpactThreshold changedPaths).impact.length
      = changedPaths.length := by
  induction changedPaths using List.reverseRecOn with
  | nil => rfl
  | append_singleton earlier path ih =>
    rw [impactRun_append, List.foldl_cons, List.foldl_nil, impactStep]
    simp [ih]

/-- The observation of a changed path is made with what the paths before it left. -/
theorem getElem?_impact (earlier : List RepoPath) (path : RepoPath) (later : List RepoPath) :
    (impactRun before after highImpactThreshold (earlier ++ path :: later)).impact[earlier.length]?
      = some (impactObservation before after
          (impactRun before after highImpactThreshold earlier) path) := by
  rw [impactRun_append, List.foldl_cons]
  obtain ⟨added, hadded⟩ := @impact_extends before after highImpactThreshold later
    (impactStep before after highImpactThreshold
      (impactRun before after highImpactThreshold earlier) path)
  rw [← hadded]
  have hlength := @length_impact before after highImpactThreshold earlier
  simp only [impactStep]
  rw [List.getElem?_append_left (by simp [hlength]), ← hlength]
  simp

end Run

/-- Reverse impact is sound, and exact where it is not flagged.  Whatever paths
come before a changed path and use up the shared budget, its observation counts
other files of its view that reach it along dependency edges; unless the count
is flagged as a lower bound, it counts all of them. -/
theorem impact_reachable_exact (before after : Projection) (highImpactThreshold : Nat)
    (earlier : List RepoPath) (path : RepoPath) (later : List RepoPath) :
    let s := impactRun before after highImpactThreshold earlier
    let observation := impactObservation before after s path
    let reachable := (impactReach before after s path).reachable
    let view := impactView before after path
    (impactRun before after highImpactThreshold
          (earlier ++ path :: later)).impact[earlier.length]? = some observation
      ∧ observation.confirmedReachableDependents = reachable.size
      ∧ (∀ q ∈ reachable, q ≠ path ∧ Reach (DependsOn view) q path)
      ∧ (observation.reachableCountIsLowerBound = false →
        ∀ q, q ∈ reachable ↔ q ≠ path ∧ Reach (DependsOn view) q path) := by
  intro s observation reachable view
  refine ⟨getElem?_impact earlier path later, rfl, fun q hq => ?_, fun hflag q => ?_⟩
  · exact reverseReachable_sound hq
  · exact reverseReachable_exact (by simpa [observation, impactObservation, impactReach] using hflag)

/-- The observation of a changed path counts all its direct dependents exactly
when the visits left by the paths before it cover them. -/
theorem impact_counts_direct_iff (before after : Projection) (highImpactThreshold : Nat)
    (earlier : List RepoPath) (path : RepoPath) (later : List RepoPath) :
    let s := impactRun before after highImpactThreshold earlier
    let observation := impactObservation before after s path
    let view := impactView before after path
    (impactRun before after highImpactThreshold
          (earlier ++ path :: later)).impact[earlier.length]? = some observation
      ∧ ((observation.confirmedDirectDependents ≤ observation.confirmedReachableDependents
          ∧ ∀ q ∈ dependents (reverseAdjacency view) path,
            q ∈ (impactReach before after s path).reachable)
        ↔ VisitsCover view path s.edgeVisitBudget) := by
  intro s observation view
  refine ⟨getElem?_impact earlier path later, fun h => dependents_sub_iff.mp h.2, fun h => ?_⟩
  refine ⟨?_, dependents_sub_iff.mpr h⟩
  have hle := length_dependents_le_iff.mpr h
  rw [length_dependents] at hle
  exact hle

/-! ## Files that all depend on each other

A graph of 447 files and 199362 edges.  The search for the first changed file
visits 446 * 446 edges and leaves 1084 visits, with which the search for the
second one expands no more than three of its 446 direct dependents. -/

namespace Mesh

def file (i : Nat) : RepoPath :=
  (RepoPath.new ([byte 'm', UInt8.ofNat (48 + i / 100), UInt8.ofNat (48 + i / 10 % 10),
    UInt8.ofNat (48 + i % 10)] ++ ascii ".ts")).toOption.getD .requestMarker

def files : List RepoPath := (List.range 447).map file

theorem sorted_files : files.Pairwise (· < ·) := by
  rw [← List.isChain_iff_pairwise]
  decide +kernel

def nodes : BTreeSet RepoPath := ⟨files, sorted_files⟩

def projection : Projection where
  nodes := nodes
  edges := BTreeSet.ofList (files.flatMap fun p =>
    (files.filter (· ≠ p)).map fun q => ⟨p, q, .runtime⟩)

theorem dependsOn_iff {p q : RepoPath} :
    DependsOn projection p q ↔ p ∈ files ∧ q ∈ files ∧ q ≠ p := by
  simp only [DependsOn, projection, BTreeSet.mem_ofList, List.mem_flatMap, List.mem_map,
    List.mem_filter, decide_eq_true_eq]
  constructor
  · rintro ⟨hq, edge, ⟨a, ha, b, ⟨hb, hne⟩, rfl⟩, rfl, rfl⟩
    exact ⟨ha, hb, hne⟩
  · rintro ⟨hp, hq, hne⟩
    exact ⟨hq, _, ⟨p, hp, q, ⟨hq, hne⟩, rfl⟩, rfl, rfl⟩

theorem length_files : files.length = 447 := by
  rw [files, List.length_map, List.length_range]

theorem nodup_files : files.Nodup := sorted_files.imp ne_of_lt

variable {p : RepoPath}

/-- All other files depend on a file directly. -/
theorem dependents_eq (hp : p ∈ files) :
    dependents (reverseAdjacency projection) p = files.filter (· ≠ p) := by
  refine eq_of_pairwise_lt_of_mem sorted_dependents (sorted_files.filter _) fun q => ?_
  rw [mem_dependents_iff, dependsOn_iff, List.mem_filter, decide_eq_true_eq]
  constructor
  · rintro ⟨hne, hq, -, -⟩
    exact ⟨hq, hne⟩
  · rintro ⟨hq, hne⟩
    exact ⟨hne, hq, hp, hne.symm⟩

theorem length_dependents_eq (hp : p ∈ files) :
    (dependents (reverseAdjacency projection) p).length = 446 := by
  have hcount : files.countP (fun q => decide ¬ q ≠ p) = 1 := by
    have := List.count_eq_one_of_mem nodup_files hp
    rw [List.count] at this
    rw [← this]
    exact List.countP_congr fun q _ => by simp
  have hsplit := files.length_eq_countP_add_countP (fun q => decide (q ≠ p))
  rw [length_files] at hsplit
  rw [dependents_eq hp, ← List.countP_eq_length_filter]
  simp only [decide_eq_true_eq] at hsplit
  omega

/-- The other files reach a file, and nothing else does. -/
theorem mem_others_iff (hp : p ∈ files) (q : RepoPath) :
    q ∈ nodes.toFinset.erase p
      ↔ q ≠ p ∧ Reach (DepthFirst.Edge (dependents (reverseAdjacency projection))) p q := by
  rw [Finset.mem_erase, BTreeSet.mem_toFinset]
  refine and_congr_right fun hne => ⟨fun hq => ?_, fun hreach => ?_⟩
  · exact .single (mem_dependents_iff.mpr ⟨hne, dependsOn_iff.mpr ⟨hq, hp, hne.symm⟩⟩)
  · rw [reach_dependents_iff] at hreach
    rcases Relation.ReflTransGen.cases_head hreach with rfl | ⟨x, hx, -⟩
    · exact absurd rfl hne
    · exact (dependsOn_iff.mp hx).1

theorem cost_others (hp : p ∈ files) :
    BudgetedSearch.cost (dependents (reverseAdjacency projection)) (nodes.toFinset.erase p)
      = 446 * 446 := by
  have hcard : (nodes.toFinset.erase p).card = 446 := by
    have hsize : nodes.size = 447 := length_files
    rw [Finset.card_erase_of_mem (BTreeSet.mem_toFinset.mpr hp), BTreeSet.card_toFinset, hsize]
  rw [BudgetedSearch.cost, Finset.sum_congr rfl fun x hx => length_dependents_eq
    (BTreeSet.mem_toFinset.mp (Finset.mem_of_mem_erase hx)), Finset.sum_const, hcard, Nat.nsmul_eq_mul]

/-- The search for the first changed file is complete and leaves 1084 visits. -/
theorem budget_after_first (hp : p ∈ files) :
    (impactRun projection projection 10 [p]).edgeVisitBudget = 1084 := by
  have hview : impactView projection projection p = projection := by
    simp [impactView]
  have hcost := cost_others hp
  have hcomplete : (BudgetedSearch.search (dependents (reverseAdjacency projection)) p
      maxImpactEdgeVisits).stopped = false := by
    rw [BudgetedSearch.stopped_eq_false_iff (mem_others_iff hp), hcost, maxImpactEdgeVisits]
    omega
  have hleft := BudgetedSearch.budget_search (mem_others_iff hp) hcomplete
  rw [hcost] at hleft
  have hreach : (impactRun projection projection 10 [p]).edgeVisitBudget
      = (reverseReachable p (reverseAdjacency projection) maxImpactEdgeVisits).edgeVisitBudget := by
    have hstart : ({} : ImpactState).edgeVisitBudget = maxImpactEdgeVisits := rfl
    rw [impactRun, List.foldl_cons, List.foldl_nil, edgeVisitBudget_impactStep, hview, hstart]
  have hpos : maxImpactEdgeVisits ≠ 0 := by
    simp [maxImpactEdgeVisits]
  have hvalue : maxImpactEdgeVisits - 446 * 446 = 1084 := by
    simp [maxImpactEdgeVisits]
  rw [hreach, edgeVisitBudget_reverseReachable hpos, hleft, hvalue]

/-- 1084 visits do not cover the dependents of 445 files. -/
theorem not_visitsCover (hp : p ∈ files) :
    ¬ VisitsCover projection p 1084 := by
  have hlengths : ((dependents (reverseAdjacency projection) p).dropLast.map fun q =>
      (dependents (reverseAdjacency projection) q).length) = List.replicate 445 446 := by
    rw [List.eq_replicate_iff, List.length_map, List.length_dropLast, length_dependents_eq hp]
    refine ⟨rfl, fun n hn => ?_⟩
    obtain ⟨q, hq, rfl⟩ := List.mem_map.mp hn
    have hmem : q ∈ files := by
      have := List.mem_of_mem_dropLast hq
      rw [dependents_eq hp] at this
      exact (List.mem_filter.mp this).1
    exact length_dependents_eq hmem
  rw [VisitsCover, BudgetedSearch.leadCost, hlengths, List.sum_replicate, Nat.nsmul_eq_mul]
  omega

end Mesh

/-- Two changed files of the mesh: the second one's 446 direct dependents are
more than the files its observation counts as reachable. -/
theorem not_forall_impact_counts_direct :
    ¬ ∀ (before after : Projection) (changedPaths : BTreeSet RepoPath)
        (highImpactThreshold : Nat),
      ∀ observation ∈ (impactObservations before after changedPaths highImpactThreshold).1,
        observation.confirmedDirectDependents ≤ observation.confirmedReachableDependents := by
  intro hall
  have hfirst : Mesh.file 0 ∈ Mesh.files := List.mem_map_of_mem (by simp)
  have hsecond : Mesh.file 1 ∈ Mesh.files := List.mem_map_of_mem (by simp)
  let changedPaths : BTreeSet RepoPath := ⟨[Mesh.file 0, Mesh.file 1], by decide +kernel⟩
  have hobserved := @getElem?_impact Mesh.projection Mesh.projection 10 [Mesh.file 0]
    (Mesh.file 1) []
  have hle := hall Mesh.projection Mesh.projection changedPaths 10 _
    (List.mem_of_getElem? hobserved)
  have hview : impactView Mesh.projection Mesh.projection (Mesh.file 1) = Mesh.projection := by
    simp [impactView]
  simp only [impactObservation, impactReach, hview, Mesh.budget_after_first hfirst,
    ← length_dependents] at hle
  exact Mesh.not_visitsCover hsecond (length_dependents_le_iff.mp hle)

end Opcore.Metrics
