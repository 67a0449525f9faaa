/-
  Opcore.Sense.Metrics.Importance

  When a module becomes important.  A module is important in a view when enough
  other modules depend on it or when its authoritative surface exports enough
  names; the observation of a changed module, and the trigger computed from it,
  say whether the module is newly important.
-/
import Opcore.Sense.Documentation

namespace Opcore.Metrics

open Text Collections Documentation

/-- The public surface of the module is known completely. -/
def SurfaceAuthoritative (view : Projection) (path : RepoPath) : Prop :=
  ∃ module, view.interfaces.get? path = some module ∧ module.publicSurfaceComplete = true

/-- The module exports more names than the policy allows, as far as its surface is known. -/
def ExportsBeyond (policy : InterfacePolicy) (view : Projection) (path : RepoPath) : Prop :=
  policy.moduleExportsLimit < exportCount (view.interfaces.get? path)

/-- A module is important by its confirmed fan-in or by its authoritative exports. -/
def Important (policy : InterfacePolicy) (view : Projection) (path : RepoPath) : Prop :=
  policy.importantFanIn ≤ confirmedFanIn view path
    ∨ (SurfaceAuthoritative view path ∧ ExportsBeyond policy view path)

/-- The observation of a changed path, where it is important in one of the views. -/
def importanceOf (before after : Projection) (changedPaths : BTreeSet RepoPath)
    (continuity : BTreeMap RepoPath RepoPath) (policy : InterfacePolicy) (path : RepoPath) :
    Option ImportantNodeObservation :=
  let context := InterfaceMetricContext.new before after changedPaths continuity policy
  context.importantNode path (.new context path)

/-- The importance observation of a path says that it is newly important. -/
def ObservedNew (before after : Projection) (changedPaths : BTreeSet RepoPath)
    (continuity : BTreeMap RepoPath RepoPath) (policy : InterfacePolicy) (path : RepoPath) : Prop :=
  (importanceOf before after changedPaths continuity policy path).any
    ImportantNodeObservation.newlyImportant = true

/-- The documentation trigger computed from the observation says so. -/
def TriggeredNew (before after : Projection) (changedPaths : BTreeSet RepoPath)
    (continuity : BTreeMap RepoPath RepoPath) (policy : InterfacePolicy) (path : RepoPath) : Prop :=
  (importanceOf before after changedPaths continuity policy path).any (fun node =>
    (trigger node (.ofInterfaces policy)).any Trigger.newlyImportant) = true

section

variable {before after : Projection} {changedPaths : BTreeSet RepoPath}
  {continuity : BTreeMap RepoPath RepoPath} {policy : InterfacePolicy} {path : RepoPath}

theorem publicSurfaceIsAuthoritative_iff {view : Projection} :
    publicSurfaceIsAuthoritative (view.interfaces.get? path) = true
      ↔ SurfaceAuthoritative view path := by
  rw [publicSurfaceIsAuthoritative, SurfaceAuthoritative]
  cases view.interfaces.get? path <;> simp

theorem isImportant_iff {view : Projection} :
    isImportant (confirmedFanIn view path) (exportCount (view.interfaces.get? path))
        (publicSurfaceIsAuthoritative (view.interfaces.get? path)) policy = true
      ↔ Important policy view path := by
  rw [isImportant, Bool.or_eq_true, decide_eq_true_eq, Bool.and_eq_true, decide_eq_true_eq,
    publicSurfaceIsAuthoritative_iff, Important, ExportsBeyond]

/-- The fan-in crosses the threshold, or exports that were authoritative before
grow beyond the limit. -/
def BecomesImportant (policy : InterfacePolicy) (before after : Projection) (path : RepoPath) :
    Prop :=
  (confirmedFanIn before path < policy.importantFanIn
      ∧ policy.importantFanIn ≤ confirmedFanIn after path)
    ∨ (SurfaceAuthoritative before path ∧ SurfaceAuthoritative after path
      ∧ ExportsBeyond policy after path
      ∧ exportCount (before.interfaces.get? path) < exportCount (after.interfaces.get? path))

theorem BecomesImportant.important (h : BecomesImportant policy before after path) :
    Important policy after path := by
  rcases h with ⟨-, hfan⟩ | ⟨-, hsurface, hexports, -⟩
  · exact Or.inl hfan
  · exact Or.inr ⟨hsurface, hexports⟩

/-- What the observation of a module that is still there records as newly important. -/
theorem observedNew_iff (hchanged : path ∈ changedPaths)
    (hpresent : (after.interfaces.get? path).isSome) :
    ObservedNew before after changedPaths continuity policy path
      ↔ BecomesImportant policy before after path := by
  have hfan (view : Projection) : ((dependencyFanIn view changedPaths).get? path).getD 0
      = confirmedFanIn view path := by
    rw [get?_dependencyFanIn hchanged, Option.getD_some]
  have hrecorded : ∀ node, importanceOf before after changedPaths continuity policy path = some node →
      (node.newlyImportant = true ↔ BecomesImportant policy before after path) := by
    intro node hnode
    rw [importanceOf, InterfaceMetricContext.importantNode] at hnode
    split_ifs at hnode
    rw [← Option.some.inj hnode]
    simp only [InterfacePathMetrics.new, InterfaceMetricContext.new, InterfacePathState.new, hfan,
      crossedImportanceThreshold, introducedViolation, Bool.and_eq_true, Bool.or_eq_true,
      decide_eq_true_eq, publicSurfaceIsAuthoritative_iff, Option.isNone_eq_false_iff.mpr hpresent,
      Bool.not_false, true_and, BecomesImportant, ExportsBeyond, and_assoc]
  rw [ObservedNew]
  cases hnode : importanceOf before after changedPaths continuity policy path with
  | some node => simpa using hrecorded node hnode
  | none =>
    -- Without an observation the module is not important after either.
    refine ⟨by simp, fun h => ?_⟩
    have himportant := isImportant_iff.mpr h.important
    rw [importanceOf, InterfaceMetricContext.importantNode] at hnode
    simp [InterfacePathMetrics.new, InterfaceMetricContext.new, InterfacePathState.new, hfan,
      himportant] at hnode

/-- The trigger takes over what the observation says. -/
theorem triggeredNew_iff (hchanged : path ∈ changedPaths)
    (hpresent : (after.interfaces.get? path).isSome) :
    TriggeredNew before after changedPaths continuity policy path
      ↔ ObservedNew before after changedPaths continuity policy path := by
  have hfan (view : Projection) : ((dependencyFanIn view changedPaths).get? path).getD 0
      = confirmedFanIn view path := by
    rw [get?_dependencyFanIn hchanged, Option.getD_some]
  have hobserved := @observedNew_iff before after changedPaths continuity policy path hchanged
    hpresent
  rw [TriggeredNew, ObservedNew] at *
  cases hnode : importanceOf before after changedPaths continuity policy path with
  | none => simp
  | some node =>
    rw [hnode] at hobserved
    simp only [Option.any_some, any_trigger, triggerOf, newlyImportant, Bool.and_eq_true] at *
    refine ⟨fun h => h.1.1, fun h => ?_⟩
    have himportant := isImportant_iff.mpr (hobserved.mp h).important
    rw [importanceOf, InterfaceMetricContext.importantNode] at hnode
    split_ifs at hnode
    rw [← Option.some.inj hnode] at h ⊢
    simp only [InterfacePathMetrics.new, InterfaceMetricContext.new, InterfacePathState.new,
      hfan, Option.isNone_eq_false_iff.mpr hpresent, Bool.not_false, and_true]
    exact ⟨by simpa [InterfacePathMetrics.new, InterfaceMetricContext.new,
      InterfacePathState.new, hfan, Option.isNone_eq_false_iff.mpr hpresent] using h, himportant⟩

end

/-- Newly important means a transition into importance, exports counting only
against a surface that was authoritative before.  The trigger says what the
observation says; only modules that are important after are newly important; a
module of the first view that was not important is newly important exactly when
it has enough fan-in after, or an authoritative surface in both views and too
many exports after; enough fan-in suffices for any module that was not
important; and one that was important is not newly important unless its
fan-in crosses the threshold or its authoritative exports grow beyond the limit. -/
theorem newly_important_transition (before after : Projection) (changedPaths : BTreeSet RepoPath)
    (continuity : BTreeMap RepoPath RepoPath) (policy : InterfacePolicy) (path : RepoPath)
    (hchanged : path ∈ changedPaths) (hpresent : (after.interfaces.get? path).isSome) :
    let observed := ObservedNew before after changedPaths continuity policy path
    let enoughFanIn := policy.importantFanIn ≤ confirmedFanIn after path
    (TriggeredNew before after changedPaths continuity policy path ↔ observed)
      ∧ (observed → Important policy after path)
      ∧ (path ∈ before.nodes → ¬ Important policy before path →
        (observed ↔ enoughFanIn ∨ (SurfaceAuthoritative before path
          ∧ SurfaceAuthoritative after path ∧ ExportsBeyond policy after path)))
      ∧ (¬ Important policy before path → enoughFanIn → observed)
      ∧ (Important policy before path →
        ¬ (confirmedFanIn before path < policy.importantFanIn ∧ enoughFanIn) →
        ¬ (SurfaceAuthoritative before path ∧ SurfaceAuthoritative after path
          ∧ ExportsBeyond policy after path
          ∧ exportCount (before.interfaces.get? path) < exportCount (after.interfaces.get? path)) →
        ¬ observed) := by
  intro observed enoughFanIn
  have hobserved : observed ↔ BecomesImportant policy before after path :=
    observedNew_iff hchanged hpresent
  -- Below both thresholds, a crossing is all that is asked of the view after.
  have hbelow (h : ¬ Important policy before path) :
      confirmedFanIn before path < policy.importantFanIn
        ∧ (SurfaceAuthoritative before path →
          exportCount (before.interfaces.get? path) ≤ policy.moduleExportsLimit) := by
    rw [Important, not_or, not_le, not_and, ExportsBeyond] at h
    exact ⟨h.1, fun hsurface => not_lt.mp (h.2 hsurface)⟩
  refine ⟨triggeredNew_iff hchanged hpresent, fun h => (hobserved.mp h).important, ?_, ?_, ?_⟩
  · intro _ hbefore
    obtain ⟨hfan, hexports⟩ := hbelow hbefore
    rw [hobserved, BecomesImportant]
    refine or_congr (and_iff_right hfan) (and_congr_right fun hsurface =>
      and_congr_right fun _ => and_iff_left_of_imp fun hbeyond => ?_)
    exact (hexports hsurface).trans_lt hbeyond
  · intro hbefore henough
    exact hobserved.mpr (Or.inl ⟨(hbelow hbefore).1, henough⟩)
  · intro _ hfan hexports h
    rcases hobserved.mp h with hcrossed | hgrown
    · exact hfan hcrossed
    · exact hexports hgrown

/-! ## A surface that was unknown before -/

namespace UnknownSurface

def api : RepoPath := (RepoPath.new (ascii "src/api.ts")).toOption.getD .requestMarker

def policy : InterfacePolicy := ⟨20, 8, 20, 20, 10⟩

/-- A module of one view, with as many exports as asked for. -/
def view (exports : Nat) (complete : Bool) : Projection where
  nodes := BTreeSet.ofList [api]
  interfaces := BTreeMap.ofList [(api,
    { exports := BTreeSet.ofList ((List.range exports).map fun i => ⟨.value, [UInt8.ofNat i]⟩)
      hasLocalExports := true
      publicSurfaceComplete := complete })]

def changed : BTreeSet RepoPath := BTreeSet.ofList [api]

end UnknownSurface

open UnknownSurface in
/-- A module whose surface is first known with 21 exports is important after and
was not before, but it is not newly important. -/
theorem not_forall_newly_important_iff :
    ¬ ∀ (before after : Projection) (changedPaths : BTreeSet RepoPath)
        (continuity : BTreeMap RepoPath RepoPath) (policy : InterfacePolicy) (path : RepoPath),
      path ∈ changedPaths → (after.interfaces.get? path).isSome →
        (ObservedNew before after changedPaths continuity policy path
          ↔ Important policy after path
            ∧ ¬ (path ∈ before.nodes ∧ Important policy before path)) := by
  intro hall
  have hiff := hall (view 0 false) (view 21 true) changed ∅ policy api (by decide +kernel)
    (by decide +kernel)
  have hafter : Important policy (view 21 true) api :=
    isImportant_iff.mp (by decide +kernel)
  have hbefore : ¬ Important policy (view 0 false) api := fun h =>
    absurd (isImportant_iff.mpr h) (by decide +kernel)
  have hobserved : ¬ ObservedNew (view 0 false) (view 21 true) changed ∅ policy api := by
    rw [ObservedNew]
    decide +kernel
  exact hobserved (hiff.mpr ⟨hafter, fun h => hbefore h.2⟩)

open UnknownSurface in
/-- A module whose known exports grow from 20 to 21 is newly important. -/
theorem newly_important_transition_growth :
    ObservedNew (view 20 true) (view 21 true) changed ∅ policy api := by
  have hnot : ¬ Important policy (view 20 true) api := fun h =>
    absurd (isImportant_iff.mpr h) (by decide +kernel)
  have hsurface : SurfaceAuthoritative (view 20 true) api :=
    publicSurfaceIsAuthoritative_iff.mp (by decide +kernel)
  have hsurface' : SurfaceAuthoritative (view 21 true) api :=
    publicSurfaceIsAuthoritative_iff.mp (by decide +kernel)
  have hbeyond : ExportsBeyond policy (view 21 true) api := by
    rw [ExportsBeyond]
    decide +kernel
  exact ((newly_important_transition (view 20 true) (view 21 true) changed ∅ policy api
    (by decide +kernel) (by decide +kernel)).2.2.1 (by decide +kernel) hnot).mpr
    (Or.inr ⟨hsurface, hsurface', hbeyond⟩)

end Opcore.Metrics
