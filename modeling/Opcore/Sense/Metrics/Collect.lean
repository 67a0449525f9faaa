/-
  Opcore.Sense.Metrics.Collect

  The observations of a request: what the changed paths depend on, what depends on
  them and what their interfaces became.  All five lists share one bound; while
  there are too many observations, the longest list gives up its last entry.
-/
import Opcore.Library.Levels
import Opcore.Library.Loop
import Opcore.Sense.Report

namespace Opcore.Sense

open Text Collections Metrics Levels

def maxSenseObservations : Nat := 4096

/-! ## Direct dependencies -/

structure OutgoingCounts where
  runtime : Nat := 0
  typeOnly : Nat := 0
  structural : Nat := 0

def OutgoingCounts.add (self : OutgoingCounts) : EdgeKind → OutgoingCounts
  | .runtime => { self with runtime := self.runtime + 1 }
  | .typeOnly => { self with typeOnly := self.typeOnly + 1 }
  | .structural => { self with structural := self.structural + 1 }

def outgoingCounts (projection : Projection) (changedPaths : BTreeSet RepoPath) :
    BTreeMap RepoPath OutgoingCounts :=
  (projection.edges.elems.filter fun edge => edge.from ∈ changedPaths).foldl
    (fun counts edge => counts.upsert edge.from {} (·.add edge.kind)) ∅

def signedDelta (after before : Nat) : Int := after - before

/-- The dependencies of a path before and after, by kind. -/
def dependencyDelta (before after : BTreeMap RepoPath OutgoingCounts)
    (afterNodes : BTreeSet RepoPath) (path : RepoPath) : DirectDependencyDelta :=
  let before := (before.get? path).getD {}
  let after := (after.get? path).getD {}
  { path
    deleted := path ∉ afterNodes
    beforeRuntime := before.runtime
    afterRuntime := after.runtime
    runtimeDelta := signedDelta after.runtime before.runtime
    beforeTypeOnly := before.typeOnly
    afterTypeOnly := after.typeOnly
    typeOnlyDelta := signedDelta after.typeOnly before.typeOnly
    beforeStructural := before.structural
    afterStructural := after.structural
    structuralDelta := signedDelta after.structural before.structural }

/-! ## The bound on observations -/

def SenseObservations.lengths (self : SenseObservations) : List Nat :=
  [self.dependencyDeltas.length, self.impact.length, self.highImpactChanges.length,
    self.interfaces.length, self.importantNodes.length]

/-- The index of the longest list, the first of several. -/
def firstLongest (lengths : List Nat) : Nat := lengths.idxOf (lengths.foldr max 0)

/-- One round of the loop: the longest list gives up an entry. -/
def shortenLongest (lengths : List Nat) : Option (List Nat) :=
  if lengths.sum ≤ maxSenseObservations then none
  else some (lengths.modify (firstLongest lengths) (· - 1))

def boundedLengths (lengths : List Nat) : List Nat :=
  Loop.iterate shortenLongest lengths.sum lengths

/-- The lists cut to lengths that fit the bound together. -/
def boundObservations (observations : SenseObservations) : SenseObservations :=
  let lengths := boundedLengths observations.lengths
  { observations with
    dependencyDeltas := observations.dependencyDeltas.take (lengths.getD 0 0)
    impact := observations.impact.take (lengths.getD 1 0)
    highImpactChanges := observations.highImpactChanges.take (lengths.getD 2 0)
    interfaces := observations.interfaces.take (lengths.getD 3 0)
    importantNodes := observations.importantNodes.take (lengths.getD 4 0)
    truncated := maxSenseObservations < observations.lengths.sum }

/-! ## Collecting -/

/-- Both views, what changed between them, and the limits. -/
structure MetricInputs where
  before : Projection
  after : Projection
  changedPaths : BTreeSet RepoPath
  continuity : BTreeMap RepoPath RepoPath
  highImpactThreshold : Nat
  maxDependencyTargets : Nat
  maxEdgeSelectors : Nat
  maxModuleExports : Nat
  maxShapeMembers : Nat

structure MetricResults where
  observations : SenseObservations := {}
  interfaceFindings : List InterfaceFinding := []

def MetricInputs.interfacePolicy (inputs : MetricInputs) : InterfacePolicy where
  dependencyTargetsLimit := inputs.maxDependencyTargets
  edgeSelectorsLimit := inputs.maxEdgeSelectors
  moduleExportsLimit := inputs.maxModuleExports
  shapeMembersLimit := inputs.maxShapeMembers
  importantFanIn := inputs.highImpactThreshold

/-- The observations and findings of a request; without a change there are none. -/
def collect (inputs : MetricInputs) : MetricResults :=
  if inputs.changedPaths.isEmpty then {}
  else
    let changedPaths := canonicalChangedPaths inputs.changedPaths inputs.continuity
    let beforeOutgoing := outgoingCounts inputs.before changedPaths
    let afterOutgoing := outgoingCounts inputs.after changedPaths
    let (impact, highImpactChanges, impactTruncated) :=
      impactObservations inputs.before inputs.after changedPaths inputs.highImpactThreshold
    let interfaces := interfaceMetrics inputs.before inputs.after changedPaths inputs.continuity
      inputs.interfacePolicy
    { observations := boundObservations
        { dependencyDeltas := changedPaths.elems.map
            (dependencyDelta beforeOutgoing afterOutgoing inputs.after.nodes)
          impact
          highImpactChanges
          interfaces := interfaces.deltas
          importantNodes := interfaces.importantNodes
          impactTruncated }
      interfaceFindings := interfaces.findings }

/-! ## What the bound keeps -/

section Bound

variable {lengths shorter : List Nat}

theorem firstLongest_lt_length (h : lengths ≠ []) : firstLongest lengths < lengths.length :=
  List.idxOf_lt_length_iff.mpr (foldr_max_mem h)

/-- The list that gives up an entry has as many as the longest. -/
theorem getD_firstLongest (h : lengths ≠ []) :
    lengths.getD (firstLongest lengths) 0 = lengths.foldr max 0 := by
  have hlt := firstLongest_lt_length h
  rw [List.getD_eq_getElem _ _ hlt]
  exact List.getElem_idxOf hlt

/-- What a round does, and when. -/
theorem shortenLongest_eq_some (h : shortenLongest lengths = some shorter) :
    maxSenseObservations < lengths.sum
      ∧ shorter = lengths.modify (firstLongest lengths) (· - 1) := by
  rw [shortenLongest] at h
  split_ifs at h with hfits
  exact ⟨by omega, (Option.some.inj h).symm⟩

/-- Each round leaves one observation less, and never takes the last that fits. -/
theorem sum_shortenLongest (h : shortenLongest lengths = some shorter) :
    maxSenseObservations < lengths.sum ∧ shorter.sum + 1 = lengths.sum := by
  obtain ⟨hover, rfl⟩ := shortenLongest_eq_some h
  have hsum : 0 < lengths.sum := by omega
  have hne : lengths ≠ [] := by
    rintro rfl
    simp at hsum
  have hlt := firstLongest_lt_length hne
  have hpos : 0 < lengths[firstLongest lengths] := by
    rw [← List.getD_eq_getElem _ 0 hlt, getD_firstLongest hne]
    exact foldr_max_pos hsum
  exact ⟨hover, sum_modify_pred hlt hpos⟩

/-- The loop ends by itself, with no more rounds than there are observations. -/
theorem iterate_shortenLongest_stops {n : Nat} (hn : lengths.sum ≤ n) :
    shortenLongest (Loop.iterate shortenLongest n lengths) = none :=
  Loop.iterate_stops (I := fun _ => True) List.sum (fun _ _ _ _ => trivial)
    (fun _ _ _ h => by have := (sum_shortenLongest h).2; omega) trivial hn

/-- The loop ends when the observations fit. -/
theorem sum_iterate_shortenLongest {n : Nat} (hn : lengths.sum ≤ n) :
    (Loop.iterate shortenLongest n lengths).sum = min lengths.sum maxSenseObservations := by
  have hstop := iterate_shortenLongest_stops hn
  have hlower : min lengths.sum maxSenseObservations
      ≤ (Loop.iterate shortenLongest n lengths).sum :=
    Loop.iterate_inv (I := fun l : List Nat => min lengths.sum maxSenseObservations ≤ l.sum)
      (fun l shorter hl h => by have := sum_shortenLongest h; omega) (min_le_left _ _)
  have hupper : (Loop.iterate shortenLongest n lengths).sum ≤ lengths.sum :=
    Loop.iterate_inv (I := fun l : List Nat => l.sum ≤ lengths.sum)
      (fun l shorter hl h => by have := sum_shortenLongest h; omega) le_rfl
  have hfits : (Loop.iterate shortenLongest n lengths).sum ≤ maxSenseObservations := by
    rw [shortenLongest] at hstop
    split_ifs at hstop with hfits
    exact hfits
  omega

/-- Every round keeps the lengths level. -/
theorem levelled_shortenLongest {original : List Nat} (hlevelled : Levelled original lengths)
    (h : shortenLongest lengths = some shorter) : Levelled original shorter := by
  obtain ⟨hover, rfl⟩ := shortenLongest_eq_some h
  have hne : lengths ≠ [] := by
    rintro rfl
    simp at hover
  refine hlevelled.shorten fun j => ?_
  rw [getD_firstLongest hne]
  rcases Nat.lt_or_ge j lengths.length with hj | hj
  · rw [List.getD_eq_getElem _ _ hj]
    exact le_foldr_max (List.getElem_mem hj)
  · rw [List.getD_eq_default _ _ hj]
    exact Nat.zero_le _

theorem levelled_boundedLengths (lengths : List Nat) :
    Levelled lengths (boundedLengths lengths) :=
  Loop.iterate_inv (fun _ _ hlevelled h => levelled_shortenLongest hlevelled h)
    (Levelled.refl lengths)

end Bound

section Observations

variable (observations : SenseObservations)

/-- The lists that are returned have the lengths that the loop ended with. -/
theorem lengths_boundObservations :
    (boundObservations observations).lengths = boundedLengths observations.lengths := by
  have hlevelled := levelled_boundedLengths observations.lengths
  have hlength : (boundedLengths observations.lengths).length = 5 := hlevelled.length_eq
  have hle := hlevelled.le
  obtain ⟨a, b, c, d, e, hlengths⟩ : ∃ a b c d e,
      boundedLengths observations.lengths = [a, b, c, d, e] := by
    match hmatch : boundedLengths observations.lengths, hlength with
    | [a, b, c, d, e], _ => exact ⟨a, b, c, d, e, rfl⟩
  rw [hlengths] at hle
  have h0 := hle 0
  have h1 := hle 1
  have h2 := hle 2
  have h3 := hle 3
  have h4 := hle 4
  simp only [SenseObservations.lengths, List.getD_cons_zero, List.getD_cons_succ] at h0 h1 h2 h3 h4
  simp only [boundObservations, SenseObservations.lengths] at hlengths ⊢
  rw [hlengths]
  simp [h0, h1, h2, h3, h4]

/-- The observations are said to be cut off exactly when one of the lists is. -/
theorem boundObservations_truncated_iff :
    (boundObservations observations).truncated = true
      ↔ (boundObservations observations).lengths ≠ observations.lengths := by
  have hsum : (Loop.iterate shortenLongest observations.lengths.sum observations.lengths).sum
      = min observations.lengths.sum maxSenseObservations := sum_iterate_shortenLongest le_rfl
  have hflag : (boundObservations observations).truncated = true
      ↔ maxSenseObservations < observations.lengths.sum := by simp [boundObservations]
  rw [lengths_boundObservations, hflag]
  constructor
  · intro hover hsame
    rw [boundedLengths] at hsame
    rw [hsame] at hsum
    omega
  · intro hcut
    by_contra hfits
    exact hcut (Loop.iterate_of_none (if_pos (by omega)))

/-- The bound on observations is fair and takes no more than it must.  The loop ends by itself
and more rounds would change nothing; the lists are prefixes of what was collected; together
they have as many entries as fit; what was cut is said; and a list that was cut is no shorter
than another, up to one entry. -/
theorem boundObservations_levelled :
    (∀ n, observations.lengths.sum ≤ n →
        Loop.iterate shortenLongest n observations.lengths = boundedLengths observations.lengths)
      ∧ shortenLongest (boundedLengths observations.lengths) = none
      ∧ ((boundObservations observations).dependencyDeltas <+: observations.dependencyDeltas
        ∧ (boundObservations observations).impact <+: observations.impact
        ∧ (boundObservations observations).highImpactChanges <+: observations.highImpactChanges
        ∧ (boundObservations observations).interfaces <+: observations.interfaces
        ∧ (boundObservations observations).importantNodes <+: observations.importantNodes)
      ∧ (boundObservations observations).lengths.sum
        = min observations.lengths.sum maxSenseObservations
      ∧ ((boundObservations observations).truncated = true
        ↔ (boundObservations observations).lengths ≠ observations.lengths)
      ∧ ∀ i j, (boundObservations observations).lengths.getD i 0 < observations.lengths.getD i 0 →
        (boundObservations observations).lengths.getD j 0
          ≤ (boundObservations observations).lengths.getD i 0 + 1 := by
  have hlengths := lengths_boundObservations observations
  refine ⟨fun n hn => ?_, iterate_shortenLongest_stops le_rfl,
    ⟨List.take_prefix _ _, List.take_prefix _ _, List.take_prefix _ _, List.take_prefix _ _,
      List.take_prefix _ _⟩, ?_, boundObservations_truncated_iff observations, ?_⟩
  · exact Loop.iterate_eq_of_stops (iterate_shortenLongest_stops le_rfl) hn
  · rw [hlengths]
    exact sum_iterate_shortenLongest le_rfl
  · rw [hlengths]
    exact (levelled_boundedLengths observations.lengths).level

end Observations

end Opcore.Sense
