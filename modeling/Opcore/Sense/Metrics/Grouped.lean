/-
  Opcore.Sense.Metrics.Grouped

  The counts over the edges of a view are those of a grouping.  Both loops pass over the edges
  once and carry the path they are at with them; since the edges are ordered by where they
  start, each changed path is passed once, and its count is recorded when the next path or the
  end is reached.
-/
import Opcore.Library.Streaming
import Opcore.Sense.Metrics.Interfaces
import Mathlib.Data.Finset.Lattice.Fold
import Mathlib.Order.Lattice.Nat

namespace Opcore.Metrics

open Text Collections Streaming

/-! ## The groups -/

/-- What the edges of a path lead to, whatever their kind. -/
def targetsOf (projection : Projection) (path : RepoPath) : Finset RepoPath :=
  (projection.edges.toFinset.filter fun edge => edge.from = path).image DependencyEdge.to

/-- How many selectors the interface edges of a path have. -/
def selectorCountsOf (projection : Projection) (path : RepoPath) : Finset Nat :=
  (projection.interfaceEdges.entries.toFinset.filter fun entry => entry.1.from = path).image
    fun entry => entry.2.selectors.size

/-- What is recorded of a path: nothing if it is not a changed path or has no edge. -/
def recordedOf {β : Type*} (changedPaths : BTreeSet RepoPath) (measure : Finset β → Nat)
    (values : RepoPath → Finset β) (path : RepoPath) : Option Nat :=
  if path ∈ changedPaths ∧ (values path).Nonempty then some (measure (values path)) else none

theorem targetsOf_eq_valuesOf (projection : Projection) :
    targetsOf projection
      = valuesOf DependencyEdge.from DependencyEdge.to projection.edges.elems := by
  funext path
  ext target
  simp [targetsOf, mem_valuesOf, BTreeSet.mem_def, and_assoc]

theorem selectorCountsOf_eq_valuesOf (projection : Projection) :
    selectorCountsOf projection
      = valuesOf (fun entry => entry.1.from) (fun entry => entry.2.selectors.size)
          projection.interfaceEdges.entries := by
  funext path
  ext count
  simp [selectorCountsOf, mem_valuesOf, and_assoc]

section Recorded

variable {β : Type*} {changedPaths : BTreeSet RepoPath} {measure : Finset β → Nat}
  {values values' : RepoPath → Finset β} {path : RepoPath}

theorem recordedOf_of_nonempty (hmem : path ∈ changedPaths) (h : (values path).Nonempty) :
    recordedOf changedPaths measure values path = some (measure (values path)) :=
  if_pos ⟨hmem, h⟩

theorem recordedOf_of_not_mem (h : path ∉ changedPaths) :
    recordedOf changedPaths measure values path = none := if_neg fun hpath => h hpath.1

theorem recordedOf_congr (h : values path = values' path) :
    recordedOf changedPaths measure values path = recordedOf changedPaths measure values' path := by
  rw [recordedOf, recordedOf, h]

end Recorded

/-! ## The order of the edges -/

theorem from_le_of_lt {a b : DependencyEdge} (h : a < b) : a.from ≤ b.from :=
  have hlex : toLex (a.from, toLex (a.to, a.kind)) < toLex (b.from, toLex (b.to, b.kind)) := h
  Prod.Lex.monotone_fst _ _ hlex.le

/-- The edges of one path are ordered by where they lead. -/
theorem from_to_le_of_lt {a b : DependencyEdge} (h : a < b) :
    toLex (a.from, a.to) ≤ toLex (b.from, b.to) := by
  have hlex : toLex (a.from, toLex (a.to, a.kind)) < toLex (b.from, toLex (b.to, b.kind)) := h
  rw [Prod.Lex.toLex_le_toLex]
  exact (Prod.Lex.toLex_lt_toLex.mp hlex).imp_right fun ⟨heq, hrest⟩ =>
    ⟨heq, Prod.Lex.monotone_fst _ _ hrest.le⟩

theorem edgeKey_from_le_of_lt {a b : InterfaceEdgeKey} (h : a < b) : a.from ≤ b.from :=
  have hlex : toLex (a.from, toLex (a.to, a.namespace))
      < toLex (b.from, toLex (b.to, b.namespace)) := h
  Prod.Lex.monotone_fst _ _ hlex.le

/-! ## Dependency targets -/

section Targets

variable {changedPaths : BTreeSet RepoPath} {done : List DependencyEdge} {edge : DependencyEdge}
  {s : TargetCountState}

/-- What the edges passed so far leave to be recorded for a path. -/
def targetsRecorded (changedPaths : BTreeSet RepoPath) (done : List DependencyEdge) :
    RepoPath → Option Nat :=
  recordedOf changedPaths Finset.card (valuesOf DependencyEdge.from DependencyEdge.to done)

/-- The state after some edges: recording it now would give their counts, and it is at the
path and the target of the last of them. -/
structure TargetCountState.Passed (changedPaths : BTreeSet RepoPath) (done : List DependencyEdge)
    (s : TargetCountState) : Prop where
  recorded : ∀ path, s.recorded.get? path = targetsRecorded changedPaths done path
  currentFrom : s.currentFrom = done.getLast?.map DependencyEdge.from
  selected : ∀ path, s.currentFrom = some path →
    s.currentFromSelected = decide (path ∈ changedPaths)
  lastTarget : s.currentFromSelected = true → s.lastTarget = done.getLast?.map DependencyEdge.to

theorem TargetCountState.passed_nil : ({} : TargetCountState).Passed changedPaths [] where
  recorded path := by simp [recorded, targetsRecorded, recordedOf]
  currentFrom := rfl
  selected path h := by cases h
  lastTarget _ := rfl

/-- An edge of another path changes nothing for a path. -/
theorem targetsRecorded_snoc_of_ne {path : RepoPath} (h : path ≠ edge.from) :
    targetsRecorded changedPaths (done ++ [edge]) path = targetsRecorded changedPaths done path :=
  recordedOf_congr (valuesOf_snoc_of_ne h)

theorem targetsRecorded_snoc_self (hmem : edge.from ∈ changedPaths) :
    targetsRecorded changedPaths (done ++ [edge]) edge.from
      = some (insert edge.to
          (valuesOf DependencyEdge.from DependencyEdge.to done edge.from)).card := by
  rw [targetsRecorded, recordedOf_of_nonempty hmem] <;> rw [valuesOf_snoc_self]
  exact Finset.insert_nonempty _ _

/-- The first half of a round: at an edge of another path, the path before it is recorded. -/
def TargetCountState.enter (changedPaths : BTreeSet RepoPath) (s : TargetCountState)
    (edge : DependencyEdge) : TargetCountState :=
  if s.currentFrom = some edge.from then s
  else
    { counts := s.recorded
      currentFrom := some edge.from
      currentFromSelected := edge.from ∈ changedPaths
      lastTarget := none
      targetCount := 0 }

/-- The second half: a target that is not the last one counts. -/
def TargetCountState.count (s : TargetCountState) (edge : DependencyEdge) : TargetCountState :=
  if !s.currentFromSelected || s.lastTarget = some edge.to then s
  else { s with targetCount := s.targetCount + 1, lastTarget := some edge.to }

theorem countTarget_eq : countTarget changedPaths s edge = (s.enter changedPaths edge).count edge :=
  rfl

/-- Between the halves: the state is at the path of the edge, with what the edges before it
gave, and the last target tells whether the one of this edge was among them. -/
structure TargetCountState.Entered (changedPaths : BTreeSet RepoPath) (done : List DependencyEdge)
    (edge : DependencyEdge) (s : TargetCountState) : Prop where
  recorded : ∀ path, path ≠ edge.from →
    s.recorded.get? path = targetsRecorded changedPaths done path
  currentFrom : s.currentFrom = some edge.from
  selected : s.currentFromSelected = decide (edge.from ∈ changedPaths)
  unselected : edge.from ∉ changedPaths → s.recorded.get? edge.from = none
  targetCount : edge.from ∈ changedPaths →
    s.targetCount = (valuesOf DependencyEdge.from DependencyEdge.to done edge.from).card
  lastTarget : edge.from ∈ changedPaths → (s.lastTarget = some edge.to ↔
    edge.to ∈ valuesOf DependencyEdge.from DependencyEdge.to done edge.from)

/-- With one path to go, what is recorded of it is the count that is carried along. -/
theorem TargetCountState.get?_recorded {path : RepoPath} (hfrom : s.currentFrom = some path)
    (hselected : s.currentFromSelected = true) :
    s.recorded.get? path = some s.targetCount := by
  simp [recorded, hfrom, hselected]

theorem TargetCountState.Passed.entered_of_eq (h : s.Passed changedPaths done)
    (hsorted : (done ++ [edge]).Pairwise (· < ·)) (hsame : s.currentFrom = some edge.from) :
    s.Entered changedPaths done edge := by
  have hselected := h.selected edge.from hsame
  obtain ⟨last, hlast, hlastFrom⟩ : ∃ last, done.getLast? = some last ∧ last.from = edge.from := by
    have hmap := h.currentFrom.symm.trans hsame
    simpa using hmap
  have hmem : last ∈ done := List.mem_of_getLast? hlast
  refine ⟨fun path _ => h.recorded path, hsame, hselected, fun hnot => ?_, fun hin => ?_,
    fun hin => ⟨fun hto => ?_, fun hto => ?_⟩⟩
  · rw [h.recorded]
    exact recordedOf_of_not_mem hnot
  · have hcount := s.get?_recorded hsame (by simpa [hselected] using hin)
    have hnonempty : (valuesOf DependencyEdge.from DependencyEdge.to done edge.from).Nonempty :=
      ⟨last.to, mem_valuesOf.mpr ⟨last, hmem, hlastFrom, rfl⟩⟩
    rw [h.recorded, targetsRecorded, recordedOf_of_nonempty hin hnonempty] at hcount
    exact (Option.some.inj hcount).symm
  · rw [h.lastTarget (by simpa [hselected] using hin), hlast] at hto
    exact mem_valuesOf.mpr ⟨last, hmem, hlastFrom, Option.some.inj hto⟩
  · -- an earlier edge of the path onto the same target has only edges like it after it
    obtain ⟨first, hfirst, hfrom, hfirstTo⟩ := mem_valuesOf.mp hto
    rw [h.lastTarget (by simpa [hselected] using hin), hlast]
    by_contra hne
    have hother : done.getLast?.map (fun e => toLex (e.from, e.to))
        ≠ some (toLex (edge.from, edge.to)) := by
      rw [hlast]
      intro heq
      have hpair : (last.from, last.to) = (edge.from, edge.to) := by simpa using heq
      exact hne (congrArg some (Prod.ext_iff.mp hpair).2)
    have hnew := ne_of_getLast? (hsorted.imp from_to_le_of_lt) hother first hfirst
    exact hnew (by rw [hfrom, hfirstTo])

theorem TargetCountState.Passed.entered_of_ne (h : s.Passed changedPaths done)
    (hsorted : (done ++ [edge]).Pairwise (· < ·)) (hother : s.currentFrom ≠ some edge.from) :
    (s.enter changedPaths edge).Entered changedPaths done edge := by
  have hnew : valuesOf DependencyEdge.from DependencyEdge.to done edge.from = ∅ :=
    valuesOf_eq_empty (ne_of_getLast? (hsorted.imp from_le_of_lt) (h.currentFrom ▸ hother))
  rw [enter, if_neg hother]
  refine ⟨fun path hpath => ?_, rfl, rfl, fun hnot => ?_, fun _ => ?_, fun _ => ?_⟩
  · rw [TargetCountState.recorded]
    split_ifs
    · rw [BTreeMap.get?_insert, if_neg hpath]
      exact h.recorded path
    · exact h.recorded path
  · have hrecorded : s.recorded.get? edge.from = none := by
      rw [h.recorded]
      exact recordedOf_of_not_mem hnot
    simpa [TargetCountState.recorded, hnot] using hrecorded
  · rw [hnew]
    rfl
  · simp [hnew]

theorem TargetCountState.Passed.enter (h : s.Passed changedPaths done)
    (hsorted : (done ++ [edge]).Pairwise (· < ·)) :
    (s.enter changedPaths edge).Entered changedPaths done edge := by
  by_cases hsame : s.currentFrom = some edge.from
  · have hstay : s.enter changedPaths edge = s := if_pos hsame
    rw [hstay]
    exact h.entered_of_eq hsorted hsame
  · exact h.entered_of_ne hsorted hsame

/-- One round passes one edge. -/
theorem TargetCountState.Entered.count (h : s.Entered changedPaths done edge) :
    (s.count edge).Passed changedPaths (done ++ [edge]) := by
  have hselected : ∀ path, s.currentFrom = some path →
      s.currentFromSelected = decide (path ∈ changedPaths) := by
    intro path hpath
    rw [h.selected, Option.some.inj (h.currentFrom.symm.trans hpath)]
  by_cases hin : edge.from ∈ changedPaths
  · have htrue : s.currentFromSelected = true := by simpa [h.selected] using hin
    by_cases hlast : s.lastTarget = some edge.to
    · -- the target is the last one again
      have hstay : s.count edge = s := by simp [TargetCountState.count, hlast]
      have hsame := Finset.insert_eq_self.mpr ((h.lastTarget hin).mp hlast)
      rw [hstay]
      refine ⟨fun path => ?_, by simpa using h.currentFrom, hselected, fun _ => by simpa using hlast⟩
      by_cases hpath : path = edge.from
      · rw [hpath, targetsRecorded_snoc_self hin, hsame, ← h.targetCount hin]
        exact s.get?_recorded h.currentFrom htrue
      · rw [targetsRecorded_snoc_of_ne hpath]
        exact h.recorded path hpath
    · have hcount : s.count edge
          = { s with targetCount := s.targetCount + 1, lastTarget := some edge.to } := by
        simp [TargetCountState.count, htrue, hlast]
      have hnew : edge.to ∉ valuesOf DependencyEdge.from DependencyEdge.to done edge.from :=
        fun hmem => hlast ((h.lastTarget hin).mpr hmem)
      rw [hcount]
      refine ⟨fun path => ?_, by simpa using h.currentFrom, hselected, fun _ => by simp⟩
      by_cases hpath : path = edge.from
      · rw [hpath, targetsRecorded_snoc_self hin, Finset.card_insert_of_notMem hnew,
          ← h.targetCount hin]
        exact TargetCountState.get?_recorded h.currentFrom htrue
      · rw [targetsRecorded_snoc_of_ne hpath, ← h.recorded path hpath]
        simp [TargetCountState.recorded, h.currentFrom, htrue, BTreeMap.get?_insert, hpath]
  · have hfalse : s.currentFromSelected = false := by simpa [h.selected] using hin
    have hstay : s.count edge = s := by simp [TargetCountState.count, hfalse]
    rw [hstay]
    refine ⟨fun path => ?_, by simpa using h.currentFrom, hselected, fun htrue => ?_⟩
    · by_cases hpath : path = edge.from
      · rw [hpath, h.unselected hin]
        exact (recordedOf_of_not_mem hin).symm
      · rw [targetsRecorded_snoc_of_ne hpath]
        exact h.recorded path hpath
    · rw [hfalse] at htrue
      cases htrue

/-- The loop over all edges of a view. -/
theorem get?_dependencyTargetCounts (projection : Projection) (path : RepoPath) :
    (dependencyTargetCounts projection changedPaths).get? path
      = recordedOf changedPaths Finset.card (targetsOf projection) path := by
  have hpassed : (projection.edges.elems.foldl (countTarget changedPaths) {}).Passed changedPaths
      projection.edges.elems :=
    foldl_passed (I := TargetCountState.Passed changedPaths) TargetCountState.passed_nil
      fun done edge s hprefix h => by
        rw [countTarget_eq]
        exact (h.enter (projection.edges.sorted.sublist hprefix.sublist)).count
  rw [targetsOf_eq_valuesOf]
  exact hpassed.recorded path

end Targets

/-! ## Selectors of an edge -/

section Selectors

variable {changedPaths : BTreeSet RepoPath} {done : List (InterfaceEdgeKey × InterfaceEdge)}
  {entry : InterfaceEdgeKey × InterfaceEdge} {s : SelectorMaxState}

/-- The selector counts of the interface edges of a path, among the edges passed so far. -/
def countsPassed (done : List (InterfaceEdgeKey × InterfaceEdge)) : RepoPath → Finset Nat :=
  valuesOf (fun entry => entry.1.from) (fun entry => entry.2.selectors.size) done

/-- The state after some interface edges: those of changed paths, up to the last of them. -/
structure SelectorMaxState.Passed (changedPaths : BTreeSet RepoPath)
    (done : List (InterfaceEdgeKey × InterfaceEdge)) (s : SelectorMaxState) : Prop where
  recorded : ∀ path, s.recorded.get? path
    = recordedOf changedPaths (fun counts => counts.sup id) (countsPassed done) path
  currentFrom : s.currentFrom
    = (done.filter fun entry => entry.1.from ∈ changedPaths).getLast?.map fun entry => entry.1.from

theorem SelectorMaxState.passed_nil : ({} : SelectorMaxState).Passed changedPaths [] where
  recorded path := by simp [recorded, recordedOf, countsPassed]
  currentFrom := rfl

theorem countsPassed_snoc_of_ne {path : RepoPath} (h : path ≠ entry.1.from) :
    countsPassed (done ++ [entry]) path = countsPassed done path := valuesOf_snoc_of_ne h

theorem countsPassed_snoc_self :
    countsPassed (done ++ [entry]) entry.1.from
      = insert entry.2.selectors.size (countsPassed done entry.1.from) := valuesOf_snoc_self

/-- What is recorded after an edge of a changed path: the path has the larger of its count and
the maximum so far, the other paths have what they had. -/
theorem recordedOf_countsPassed_snoc (hin : entry.1.from ∈ changedPaths) (path : RepoPath) :
    recordedOf changedPaths (fun counts => counts.sup id) (countsPassed (done ++ [entry])) path
      = if path = entry.1.from then
          some (max entry.2.selectors.size ((countsPassed done entry.1.from).sup id))
        else recordedOf changedPaths (fun counts => counts.sup id) (countsPassed done) path := by
  by_cases hpath : path = entry.1.from
  · rw [if_pos hpath, hpath, recordedOf_of_nonempty hin] <;> rw [countsPassed_snoc_self]
    · rw [Finset.sup_insert]
      rfl
    · exact Finset.insert_nonempty _ _
  · rw [if_neg hpath]
    exact recordedOf_congr (countsPassed_snoc_of_ne hpath)

/-- An edge of a path that is not looked at is passed over. -/
theorem SelectorMaxState.Passed.skip (h : s.Passed changedPaths done)
    (hnot : entry.1.from ∉ changedPaths) : s.Passed changedPaths (done ++ [entry]) where
  recorded path := by
    by_cases hpath : path = entry.1.from
    · rw [h.recorded, hpath, recordedOf_of_not_mem hnot, recordedOf_of_not_mem hnot]
    · rw [h.recorded]
      exact (recordedOf_congr (countsPassed_snoc_of_ne hpath)).symm
  currentFrom := by
    rw [h.currentFrom]
    simp [hnot]

/-- At a further edge of the path the loop is at, the maximum so far is the one it carries. -/
theorem SelectorMaxState.Passed.currentMax (h : s.Passed changedPaths done) {path : RepoPath}
    (hfrom : s.currentFrom = some path) : s.currentMax = (countsPassed done path).sup id := by
  have hcurrent : s.recorded.get? path = some s.currentMax := by
    simp [SelectorMaxState.recorded, hfrom]
  rw [h.recorded, recordedOf] at hcurrent
  split_ifs at hcurrent with hgroup
  exact (Option.some.inj hcurrent).symm

/-- A changed path that the loop is not at has had no edge yet. -/
theorem SelectorMaxState.Passed.countsPassed_eq_empty (h : s.Passed changedPaths done)
    (hsorted : (done ++ [entry]).Pairwise fun a b => a.1 < b.1)
    (hin : entry.1.from ∈ changedPaths) (hother : s.currentFrom ≠ some entry.1.from) :
    countsPassed done entry.1.from = ∅ := by
  have hselected : ((done.filter fun entry => entry.1.from ∈ changedPaths) ++ [entry]).Pairwise
      fun a b => a.1.from ≤ b.1.from := by
    have hkept := (hsorted.imp edgeKey_from_le_of_lt).filter
      fun entry => decide (entry.1.from ∈ changedPaths)
    simpa [hin] using hkept
  have hlast : (done.filter fun entry => entry.1.from ∈ changedPaths).getLast?.map
      (fun entry => entry.1.from) ≠ some entry.1.from := h.currentFrom ▸ hother
  have hnew := ne_of_getLast? hselected hlast
  refine valuesOf_eq_empty fun earlier hearlier hfrom => ?_
  exact hnew earlier (List.mem_filter.mpr ⟨hearlier, by simpa [hfrom] using hin⟩) hfrom

/-- One round passes one interface edge. -/
theorem SelectorMaxState.Passed.observe (h : s.Passed changedPaths done)
    (hsorted : (done ++ [entry]).Pairwise fun a b => a.1 < b.1) :
    (observeSelectors changedPaths s entry).Passed changedPaths (done ++ [entry]) := by
  by_cases hin : entry.1.from ∈ changedPaths
  · have hlast : some entry.1.from
        = ((done ++ [entry]).filter fun entry => entry.1.from ∈ changedPaths).getLast?.map
            fun entry => entry.1.from := by simp [hin]
    by_cases hsame : s.currentFrom = some entry.1.from
    · have hround : observeSelectors changedPaths s entry
          = { s with currentMax := max s.currentMax entry.2.selectors.size } := by
        simp [observeSelectors, hin, hsame]
      rw [hround]
      refine ⟨fun path => ?_, hsame.trans hlast⟩
      rw [recordedOf_countsPassed_snoc hin, ← h.currentMax hsame, ← h.recorded]
      by_cases hpath : path = entry.1.from
      · simp [SelectorMaxState.recorded, hsame, hpath, max_comm]
      · simp [SelectorMaxState.recorded, hsame, hpath, BTreeMap.get?_insert]
    · have hround : observeSelectors changedPaths s entry
          = { counts := s.recorded, currentFrom := some entry.1.from,
              currentMax := entry.2.selectors.size } := by
        simp [observeSelectors, hin, hsame]
      rw [hround]
      refine ⟨fun path => ?_, hlast⟩
      rw [recordedOf_countsPassed_snoc hin, h.countsPassed_eq_empty hsorted hin hsame,
        ← h.recorded, SelectorMaxState.recorded]
      simp [BTreeMap.get?_insert]
  · have hround : observeSelectors changedPaths s entry = s := by simp [observeSelectors, hin]
    rw [hround]
    exact h.skip hin

/-- The loop over all interface edges of a view. -/
theorem get?_maxEdgeSelectorCounts (projection : Projection) (path : RepoPath) :
    (maxEdgeSelectorCounts projection changedPaths).get? path
      = recordedOf changedPaths (fun counts => counts.sup id) (selectorCountsOf projection)
          path := by
  have hpassed : (projection.interfaceEdges.entries.foldl (observeSelectors changedPaths) {}).Passed
      changedPaths projection.interfaceEdges.entries :=
    foldl_passed (I := SelectorMaxState.Passed changedPaths) SelectorMaxState.passed_nil
      fun done entry s hprefix h =>
        h.observe (projection.interfaceEdges.sorted.sublist hprefix.sublist)
  rw [selectorCountsOf_eq_valuesOf]
  exact hpassed.recorded path

end Selectors

/-! ## The metrics are their definitions -/

/-- Each changed path with an edge has the number of its distinct targets, each changed path
with an interface edge has the maximum of its selector counts, and no other path has an entry.
The groups are sets of edges, so the order of the edges has no part in them. -/
theorem interface_counts_grouped (projection : Projection) (changedPaths : BTreeSet RepoPath)
    (path : RepoPath) :
    (dependencyTargetCounts projection changedPaths).get? path
        = (if path ∈ changedPaths ∧ (targetsOf projection path).Nonempty then
            some (targetsOf projection path).card
          else none)
      ∧ (maxEdgeSelectorCounts projection changedPaths).get? path
        = (if path ∈ changedPaths ∧ (selectorCountsOf projection path).Nonempty then
            some ((selectorCountsOf projection path).sup id)
          else none) :=
  ⟨get?_dependencyTargetCounts projection path, get?_maxEdgeSelectorCounts projection path⟩

section State

variable {view : Projection} {changedPaths : BTreeSet RepoPath} {path : RepoPath}

/-- A changed path without an edge counts as one with none. -/
theorem getD_recordedOf {β : Type*} {measure : Finset β → Nat} {values : RepoPath → Finset β}
    (h : path ∈ changedPaths) (hzero : measure ∅ = 0) :
    (recordedOf changedPaths measure values path).getD 0 = measure (values path) := by
  rcases (values path).eq_empty_or_nonempty with hempty | hnonempty
  · simp [recordedOf, hempty, hzero]
  · rw [recordedOf_of_nonempty h hnonempty]
    rfl

/-- The state of a changed path in a view has the counts of its groups. -/
theorem counts_interfacePathState (fanIn : BTreeMap RepoPath Nat) (policy : InterfacePolicy)
    (h : path ∈ changedPaths) :
    (InterfacePathState.new view (.new view changedPaths) fanIn policy path).targets
        = (targetsOf view path).card
      ∧ (InterfacePathState.new view (.new view changedPaths) fanIn policy path).maxEdge
        = (selectorCountsOf view path).sup id := by
  simp only [InterfacePathState.new, InterfaceMetricIndex.new]
  rw [get?_dependencyTargetCounts, get?_maxEdgeSelectorCounts]
  exact ⟨getD_recordedOf h rfl, getD_recordedOf h rfl⟩

end State

end Opcore.Metrics
