/-
  Opcore.Sense.Metrics.Interfaces

  Explicit module interfaces of the changed paths: dependency targets, fan-in,
  exports, selectors and shapes in both views, and what is reported when they
  grow beyond the limits of the policy.
-/
import Opcore.Sense.Model
import Mathlib.Order.WithBot

namespace Opcore.Metrics

open Text Collections

/-! ## Policy and results -/

structure InterfacePolicy where
  dependencyTargetsLimit : Nat
  edgeSelectorsLimit : Nat
  moduleExportsLimit : Nat
  shapeMembersLimit : Nat
  importantFanIn : Nat

/-- A number that has grown beyond its limit. -/
structure InterfaceFinding where
  code : Str
  path : RepoPath
  target : Option RepoPath
  entity : Option Str
  metric : Str
  before : Nat
  after : Nat
  limit : Nat
  basis : Str
  deriving DecidableEq

/-- The derived order of an `Option`: `None` comes before every value. -/
def optionKey {α : Type} (value : Option α) : WithBot α := value

@[simp] theorem optionKey_inj {α : Type} {a b : Option α} : optionKey a = optionKey b ↔ a = b :=
  Iff.rfl

instance : LinearOrder InterfaceFinding :=
  LinearOrder.lift' (fun f : InterfaceFinding =>
    toLex (f.code, toLex (f.path, toLex (optionKey f.target,
      toLex (optionKey f.entity, toLex (f.metric, toLex (f.before,
        toLex (f.after, toLex (f.limit, f.basis))))))))) (by
    rintro ⟨c₁, p₁, t₁, e₁, m₁, b₁, a₁, l₁, s₁⟩ ⟨c₂, p₂, t₂, e₂, m₂, b₂, a₂, l₂, s₂⟩ h
    simpa using h)

structure InterfaceDelta where
  path : RepoPath
  deleted : Bool
  beforePublicSurfaceAuthoritative : Bool
  afterPublicSurfaceAuthoritative : Bool
  publicSurfaceChanged : Bool
  beforeDependencyTargets : Nat
  afterDependencyTargets : Nat
  beforeExports : Nat
  afterExports : Nat
  beforeMaxEdgeSelectors : Nat
  afterMaxEdgeSelectors : Nat
  beforeMaxShapeMembers : Nat
  afterMaxShapeMembers : Nat
  deriving DecidableEq

def InterfaceDelta.changed (delta : InterfaceDelta) : Bool :=
  delta.deleted || delta.publicSurfaceChanged
    || delta.beforeDependencyTargets ≠ delta.afterDependencyTargets
    || delta.beforeExports ≠ delta.afterExports
    || delta.beforeMaxEdgeSelectors ≠ delta.afterMaxEdgeSelectors
    || delta.beforeMaxShapeMembers ≠ delta.afterMaxShapeMembers

structure ImportantNodeObservation where
  path : RepoPath
  beforePath : Option RepoPath
  deleted : Bool
  beforeConfirmedDependencyFanIn : Nat
  afterConfirmedDependencyFanIn : Nat
  beforeExplicitExports : Nat
  afterExplicitExports : Nat
  beforePublicSurfaceAuthoritative : Bool
  afterPublicSurfaceAuthoritative : Bool
  newlyImportant : Bool
  publicSurfaceChanged : Bool
  deriving DecidableEq

/-! ## Counts over the edges of a view -/

/-- Count one dependency edge onto a path that is looked at. -/
def countDependent (fanIn : BTreeMap RepoPath Nat) (edge : DependencyEdge) : BTreeMap RepoPath Nat :=
  match fanIn.get? edge.to with
  | some count => fanIn.insert edge.to (count + 1)
  | none => fanIn

/-- How many modules depend on each of the changed paths. -/
def dependencyFanIn (projection : Projection) (changedPaths : BTreeSet RepoPath) :
    BTreeMap RepoPath Nat :=
  (projection.dependencyEdges.filter fun edge => edge.from ≠ edge.to).foldl countDependent
    (BTreeMap.ofList (changedPaths.elems.map fun path => (path, 0)))

structure TargetCountState where
  counts : BTreeMap RepoPath Nat := ∅
  currentFrom : Option RepoPath := none
  currentFromSelected : Bool := false
  lastTarget : Option RepoPath := none
  targetCount : Nat := 0

/-- `record_target_count`. -/
def TargetCountState.recorded (s : TargetCountState) : BTreeMap RepoPath Nat :=
  match s.currentFrom with
  | some path => if s.currentFromSelected then s.counts.insert path s.targetCount else s.counts
  | none => s.counts

/-- One edge in order: a new source starts a count, a new target raises it. -/
def countTarget (changedPaths : BTreeSet RepoPath) (s : TargetCountState) (edge : DependencyEdge) :
    TargetCountState :=
  let s :=
    if s.currentFrom = some edge.from then s
    else
      { counts := s.recorded
        currentFrom := some edge.from
        currentFromSelected := edge.from ∈ changedPaths
        lastTarget := none
        targetCount := 0 }
  if !s.currentFromSelected || s.lastTarget = some edge.to then s
  else { s with targetCount := s.targetCount + 1, lastTarget := some edge.to }

def dependencyTargetCounts (projection : Projection) (changedPaths : BTreeSet RepoPath) :
    BTreeMap RepoPath Nat :=
  (projection.edges.elems.foldl (countTarget changedPaths) {}).recorded

structure SelectorMaxState where
  counts : BTreeMap RepoPath Nat := ∅
  currentFrom : Option RepoPath := none
  currentMax : Nat := 0

/-- `record_selector_max`. -/
def SelectorMaxState.recorded (s : SelectorMaxState) : BTreeMap RepoPath Nat :=
  match s.currentFrom with
  | some path => s.counts.insert path s.currentMax
  | none => s.counts

def observeSelectors (changedPaths : BTreeSet RepoPath) (s : SelectorMaxState)
    (entry : InterfaceEdgeKey × InterfaceEdge) : SelectorMaxState :=
  if entry.1.from ∉ changedPaths then s
  else
    let s :=
      if s.currentFrom = some entry.1.from then s
      else { counts := s.recorded, currentFrom := some entry.1.from, currentMax := 0 }
    { s with currentMax := max s.currentMax entry.2.selectors.size }

def maxEdgeSelectorCounts (projection : Projection) (changedPaths : BTreeSet RepoPath) :
    BTreeMap RepoPath Nat :=
  (projection.interfaceEdges.entries.foldl (observeSelectors changedPaths) {}).recorded

/-! ## Modules -/

def exportCount (module : Option ModuleInterface) : Nat :=
  (module.map fun module => module.exports.size).getD 0

def maxShapeMembers (module : Option ModuleInterface) : Nat :=
  (module.map fun module => module.shapes.values.foldl max 0).getD 0

def publicSurfaceIsAuthoritative (module : Option ModuleInterface) : Bool :=
  module.any ModuleInterface.publicSurfaceComplete

/-- Enough modules depend on it, or its authoritative surface is wide. -/
def isImportant (fanIn exports : Nat) (authoritative : Bool) (policy : InterfacePolicy) : Bool :=
  policy.importantFanIn ≤ fanIn || (authoritative && policy.moduleExportsLimit < exports)

def introducedViolation (before after limit : Nat) : Bool := limit < after && before < after

def crossedImportanceThreshold (before after threshold : Nat) : Bool :=
  before < threshold && threshold ≤ after

/-- Did a complete surface change, against one that was complete before? -/
def publicSurfaceChanged (before : Projection) (path : RepoPath)
    (beforeModule afterModule : Option ModuleInterface) : Bool :=
  match afterModule.filter ModuleInterface.publicSurfaceComplete with
  | none => false
  | some afterModule =>
    if path ∉ before.nodes then !afterModule.exports.isEmpty || !afterModule.shapes.isEmpty
    else
      match beforeModule.filter ModuleInterface.publicSurfaceComplete with
      | none => false
      | some beforeModule =>
        beforeModule.exports ≠ afterModule.exports
          || beforeModule.shapes ≠ afterModule.shapes
          || beforeModule.shapeFingerprints ≠ afterModule.shapeFingerprints

/-! ## The metrics of one path -/

structure InterfaceMetricIndex where
  targets : BTreeMap RepoPath Nat
  maxEdgeSelectors : BTreeMap RepoPath Nat

def InterfaceMetricIndex.new (projection : Projection) (changedPaths : BTreeSet RepoPath) :
    InterfaceMetricIndex :=
  ⟨dependencyTargetCounts projection changedPaths, maxEdgeSelectorCounts projection changedPaths⟩

/-- Both views, and the numbers of their changed paths. -/
structure InterfaceMetricContext where
  before : Projection
  after : Projection
  beforeIndex : InterfaceMetricIndex
  afterIndex : InterfaceMetricIndex
  beforeDependencyFanIn : BTreeMap RepoPath Nat
  afterDependencyFanIn : BTreeMap RepoPath Nat
  priorPathByCurrent : BTreeMap RepoPath RepoPath
  policy : InterfacePolicy

/-- The numbers of both views for the changed paths. -/
def InterfaceMetricContext.new (before after : Projection) (changedPaths : BTreeSet RepoPath)
    (continuity : BTreeMap RepoPath RepoPath) (policy : InterfacePolicy) :
    InterfaceMetricContext where
  before := before
  after := after
  beforeIndex := .new before changedPaths
  afterIndex := .new after changedPaths
  beforeDependencyFanIn := dependencyFanIn before changedPaths
  afterDependencyFanIn := dependencyFanIn after changedPaths
  priorPathByCurrent := BTreeMap.ofList (continuity.entries.map fun entry => (entry.2, entry.1))
  policy := policy

structure InterfacePathState where
  targets : Nat
  exports : Nat
  maxEdge : Nat
  maxShape : Nat
  fanIn : Nat
  authoritative : Bool
  important : Bool

/-- The state of a path in one view. -/
def InterfacePathState.new (view : Projection) (index : InterfaceMetricIndex)
    (fanIn : BTreeMap RepoPath Nat) (policy : InterfacePolicy) (path : RepoPath) :
    InterfacePathState :=
  let module := view.interfaces.get? path
  let fanIn := (fanIn.get? path).getD 0
  { targets := (index.targets.get? path).getD 0
    exports := exportCount module
    maxEdge := (index.maxEdgeSelectors.get? path).getD 0
    maxShape := maxShapeMembers module
    fanIn := fanIn
    authoritative := publicSurfaceIsAuthoritative module
    important := isImportant fanIn (exportCount module) (publicSurfaceIsAuthoritative module)
      policy }

structure InterfacePathMetrics where
  deleted : Bool
  before : InterfacePathState
  after : InterfacePathState
  publicSurfaceChanged : Bool

def InterfacePathMetrics.new (context : InterfaceMetricContext) (path : RepoPath) :
    InterfacePathMetrics where
  deleted := (context.after.interfaces.get? path).isNone
  before := .new context.before context.beforeIndex context.beforeDependencyFanIn context.policy path
  after := .new context.after context.afterIndex context.afterDependencyFanIn context.policy path
  publicSurfaceChanged := Metrics.publicSurfaceChanged context.before path
    (context.before.interfaces.get? path) (context.after.interfaces.get? path)

/-- The numbers of a path before and after. -/
def InterfacePathMetrics.delta (metrics : InterfacePathMetrics) (path : RepoPath) :
    InterfaceDelta where
  path := path
  deleted := metrics.deleted
  beforePublicSurfaceAuthoritative := metrics.before.authoritative
  afterPublicSurfaceAuthoritative := metrics.after.authoritative
  publicSurfaceChanged := metrics.publicSurfaceChanged
  beforeDependencyTargets := metrics.before.targets
  afterDependencyTargets := metrics.after.targets
  beforeExports := metrics.before.exports
  afterExports := metrics.after.exports
  beforeMaxEdgeSelectors := metrics.before.maxEdge
  afterMaxEdgeSelectors := metrics.after.maxEdge
  beforeMaxShapeMembers := metrics.before.maxShape
  afterMaxShapeMembers := metrics.after.maxShape

namespace InterfaceMetricContext

/-- A path that was or is important, with what made it so. -/
def importantNode (context : InterfaceMetricContext) (path : RepoPath)
    (metrics : InterfacePathMetrics) : Option ImportantNodeObservation :=
  if !metrics.before.important && !metrics.after.important then none
  else some
    { path := path
      beforePath := context.priorPathByCurrent.get? path
      deleted := metrics.deleted
      beforeConfirmedDependencyFanIn := metrics.before.fanIn
      afterConfirmedDependencyFanIn := metrics.after.fanIn
      beforeExplicitExports := metrics.before.exports
      afterExplicitExports := metrics.after.exports
      beforePublicSurfaceAuthoritative := metrics.before.authoritative
      afterPublicSurfaceAuthoritative := metrics.after.authoritative
      newlyImportant := !metrics.deleted
        && (crossedImportanceThreshold metrics.before.fanIn metrics.after.fanIn
              context.policy.importantFanIn
            || (metrics.before.authoritative && metrics.after.authoritative
              && introducedViolation metrics.before.exports metrics.after.exports
                context.policy.moduleExportsLimit))
      publicSurfaceChanged := metrics.publicSurfaceChanged }

end InterfaceMetricContext

/-! ## Findings -/

/-- `to_ascii_lowercase`. -/
def toAsciiLowercase (text : Str) : Str :=
  text.map fun b => if byte 'A' ≤ b ∧ b ≤ byte 'Z' then b + 32 else b

/-- Is the path one of test code, by its name or a directory of it? -/
def isTestLike (path : RepoPath) : Bool :=
  match path.asUtf8 with
  | none => false
  | some path =>
    let lower := toAsciiLowercase path
    (ascii "_test.go").isSuffixOf lower
      || (lower.splitOn (byte '/')).any fun segment =>
        segment = ascii "test" || segment = ascii "tests" || segment = ascii "__tests__"
          || containsText (ascii ".test.") segment || containsText (ascii ".spec.") segment

def edgeSelectorMetric : InterfaceNamespace → Str
  | .runtime => ascii "confirmed_runtime_edge_selectors"
  | .typeOnly => ascii "confirmed_type_edge_selectors"

def shapeMemberMetric : InterfaceShapeKind → Str
  | .interface => ascii "exported_interface_members"
  | .struct => ascii "exported_struct_fields"
  | .typeLiteralAlias => ascii "exported_type_literal_members"

/-- A finding of the module itself, not of one of its edges or shapes. -/
def interfaceFinding (code : Str) (path : RepoPath) (target : Option RepoPath)
    (entity : Option Str) (metric : Str) (before after limit : Nat) : InterfaceFinding :=
  ⟨code, path, target, entity, metric, before, after, limit, ascii "confirmed"⟩

namespace InterfaceMetricContext

variable (context : InterfaceMetricContext) (path : RepoPath) (metrics : InterfacePathMetrics)

def collectDependencyFinding : List InterfaceFinding :=
  if introducedViolation metrics.before.targets metrics.after.targets
      context.policy.dependencyTargetsLimit then
    [interfaceFinding (ascii "sense.interface.dependency_targets") path none none
      (ascii "confirmed_dependency_targets") metrics.before.targets metrics.after.targets
      context.policy.dependencyTargetsLimit]
  else []

/-- `self.before.nodes.contains(path) && !metrics.before.authoritative`. -/
def surfaceUnknownBefore : Bool :=
  path ∈ context.before.nodes && !metrics.before.authoritative

def collectModuleFinding (afterModule : ModuleInterface) : List InterfaceFinding :=
  if afterModule.pureBarrel || context.surfaceUnknownBefore path metrics then []
  else if introducedViolation metrics.before.exports metrics.after.exports
      context.policy.moduleExportsLimit then
    [interfaceFinding (ascii "sense.interface.module_exports") path none none
      (ascii "explicit_module_exports") metrics.before.exports metrics.after.exports
      context.policy.moduleExportsLimit]
  else []

/-- More names taken over an edge than the limit and than before, where both are known. -/
def edgeFinding (entry : InterfaceEdgeKey × InterfaceEdge) : Option InterfaceFinding :=
  let afterCount := entry.2.selectors.size
  let beforeEdge := context.before.interfaceEdges.get? entry.1
  let beforeCount := (beforeEdge.map fun edge => edge.selectors.size).getD 0
  if beforeEdge.any InterfaceEdge.unknownWidth then none
  else if introducedViolation beforeCount afterCount context.policy.edgeSelectorsLimit then
    some (interfaceFinding (ascii "sense.interface.edge_selectors") path (some entry.1.to) none
      (edgeSelectorMetric entry.1.namespace) beforeCount afterCount
      context.policy.edgeSelectorsLimit)
  else none

def collectEdgeFindings : List InterfaceFinding :=
  (context.after.interfaceEdges.entries.filter fun entry => entry.1.from = path).filterMap
    (context.edgeFinding path)

def shapeFinding (entry : InterfaceShapeKey × Nat) : Option InterfaceFinding :=
  let beforeCount := (((context.before.interfaces.get? path).bind fun module =>
    module.shapes.get? entry.1)).getD 0
  if introducedViolation beforeCount entry.2 context.policy.shapeMembersLimit then
    some (interfaceFinding (ascii "sense.interface.shape_members") path none (some entry.1.name)
      (shapeMemberMetric entry.1.kind) beforeCount entry.2 context.policy.shapeMembersLimit)
  else none

def collectShapeFindings (afterModule : ModuleInterface) : List InterfaceFinding :=
  if context.surfaceUnknownBefore path metrics then []
  else afterModule.shapes.entries.filterMap (context.shapeFinding path)

/-- The findings of a path, which is no test and no declaration file. -/
def collectFindings : List InterfaceFinding :=
  match context.after.interfaces.get? path with
  | none => []
  | some afterModule =>
    if isTestLike path || afterModule.declarationFile then []
    else
      context.collectDependencyFinding path metrics
        ++ context.collectModuleFinding path metrics afterModule
        ++ context.collectEdgeFindings path
        ++ context.collectShapeFindings path metrics afterModule

end InterfaceMetricContext

structure InterfaceMetricResults where
  deltas : List InterfaceDelta := []
  importantNodes : List ImportantNodeObservation := []
  findings : List InterfaceFinding := []

def InterfaceMetricContext.collectPath (context : InterfaceMetricContext)
    (results : InterfaceMetricResults) (path : RepoPath) : InterfaceMetricResults :=
  let metrics := InterfacePathMetrics.new context path
  let delta := metrics.delta path
  { deltas := if delta.changed then results.deltas ++ [delta] else results.deltas
    importantNodes := results.importantNodes ++ (context.importantNode path metrics).toList
    findings := results.findings ++ context.collectFindings path metrics }

def interfaceMetrics (before after : Projection) (changedPaths : BTreeSet RepoPath)
    (continuity : BTreeMap RepoPath RepoPath) (policy : InterfacePolicy) :
    InterfaceMetricResults :=
  let context := InterfaceMetricContext.new before after changedPaths continuity policy
  let results := changedPaths.elems.foldl context.collectPath {}
  { results with findings := results.findings.insertionSort (· ≤ ·) }

/-! ## What the counts are -/

section Counts

variable {view : Projection} {changedPaths : BTreeSet RepoPath} {path : RepoPath}

theorem get?_countDependents (edges : List DependencyEdge) (fanIn : BTreeMap RepoPath Nat) :
    (edges.foldl countDependent fanIn).get? path
      = (fanIn.get? path).map (· + edges.countP fun edge => edge.to = path) := by
  induction edges generalizing fanIn with
  | nil => simp
  | cons edge edges ih =>
    rw [List.foldl_cons, ih, countDependent]
    by_cases hto : edge.to = path
    · subst hto
      cases h : fanIn.get? edge.to with
      | none => simp [h]
      | some count => simp [Nat.add_assoc, Nat.add_comm 1]
    · cases h : fanIn.get? edge.to with
      | none => simp [hto]
      | some count => simp [hto, BTreeMap.get?_insert, Ne.symm hto]

/-- The confirmed fan-in of a path: the dependency edges of the view that other
paths have onto it. -/
def confirmedFanIn (view : Projection) (path : RepoPath) : Nat :=
  view.dependencyEdges.countP fun edge => edge.from ≠ edge.to && edge.to = path

/-- Every path that is looked at is given its fan-in. -/
theorem get?_dependencyFanIn (h : path ∈ changedPaths) :
    (dependencyFanIn view changedPaths).get? path = some (confirmedFanIn view path) := by
  have hstart : (BTreeMap.ofList (changedPaths.elems.map fun path => (path, 0))).get? path
      = some 0 := by
    have hnodup : ((changedPaths.elems.map fun path => (path, 0)).map Prod.fst).Nodup := by
      rw [List.map_map]
      simpa [Function.comp_def] using changedPaths.nodup_elems
    rw [BTreeMap.get?_ofList_of_nodup hnodup]
    exact List.mem_map_of_mem h
  rw [dependencyFanIn, get?_countDependents, hstart, List.countP_filter, confirmedFanIn]
  simp [Bool.and_comm]

end Counts

end Opcore.Metrics
