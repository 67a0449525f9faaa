/-
  Opcore.Sense.PackageDebt

  The interface debt of a Go package across a change.  A package is looked up under the path
  of its first production file, in each view separately.  As long as that file stays first, up
  to an exact rename, the package is compared with itself and is not reported unless it grows;
  where another file comes first, it is compared with what that file was before.
-/
import Opcore.Sense.Engine
import Opcore.Sense.Metrics.Grouped
import Opcore.Sense.Resolver.Accounting
import Opcore.Sense.Resolver.Packages

namespace Opcore.Sense

open Text Collections Metrics Resolver

/-! ## A view under new names -/

section Renamed

variable {view : Projection} {path : RepoPath}

/-- A view whose paths are those of a snapshot. -/
structure ViewOf (snapshot : SourceSnapshot) (view : Projection) : Prop where
  nodes : ∀ path, path ∈ view.nodes ↔ path ∈ snapshot.paths
  edges : ∀ edge ∈ view.edges, edge.from ∈ snapshot.paths ∧ edge.to ∈ snapshot.paths
  interfaces : ∀ path, (view.interfaces.get? path).isSome = true → path ∈ snapshot.paths

/-- The continuity of a pair of snapshots keeps the paths of the first one apart. -/
def KeepsApart (snapshot : SourceSnapshot) (continuity : BTreeMap RepoPath RepoPath) : Prop :=
  ∀ p ∈ snapshot.paths, ∀ q ∈ snapshot.paths,
    canonicalPath continuity p = canonicalPath continuity q → p = q

variable {snapshot : SourceSnapshot} {continuity : BTreeMap RepoPath RepoPath}

theorem get?_interfaces_canonicalize (hview : ViewOf snapshot view)
    (hapart : KeepsApart snapshot continuity) {module : ModuleInterface} :
    (canonicalize view continuity).interfaces.get? path = some module
      ↔ ∃ old ∈ snapshot.paths, canonicalPath continuity old = path
        ∧ view.interfaces.get? old = some module := by
  have hkey : ∀ key ∈ view.interfaces.keys, key ∈ snapshot.paths := fun key hkey => by
    obtain ⟨module, hmodule⟩ := BTreeMap.mem_keys_iff.mp hkey
    exact hview.interfaces key (by rw [hmodule]; rfl)
  have hnodup := nodup_map_keys (m := view.interfaces) (g := canonicalPath continuity)
    fun p hp q hq => hapart p (hkey p hp) q (hkey q hq)
  rw [canonicalize]
  dsimp only
  rw [BTreeMap.get?_ofList_of_nodup hnodup]
  constructor
  · intro hmem
    obtain ⟨⟨old, module'⟩, hentry, hpair⟩ := List.mem_map.mp hmem
    obtain ⟨hpath, rfl⟩ := Prod.mk.inj hpair
    have hget := BTreeMap.mem_entries_iff.mp hentry
    exact ⟨old, hview.interfaces old (by rw [hget]; rfl), hpath, hget⟩
  · rintro ⟨old, -, rfl, hget⟩
    exact List.mem_map.mpr ⟨(old, module), BTreeMap.mem_entries_iff.mpr hget, rfl⟩

theorem mem_nodes_canonicalize (hview : ViewOf snapshot view) :
    path ∈ (canonicalize view continuity).nodes
      ↔ ∃ old ∈ snapshot.paths, canonicalPath continuity old = path := by
  rw [canonicalize]
  dsimp only
  rw [BTreeSet.mem_map]
  simp only [hview.nodes]

theorem mem_targetsOf {path target : RepoPath} :
    target ∈ targetsOf view path ↔ ∃ edge ∈ view.edges, edge.from = path ∧ edge.to = target := by
  simp [targetsOf, and_assoc]

/-- What the edges under a new name lead to, under its new name. -/
theorem mem_targetsOf_canonicalize {target : RepoPath} :
    target ∈ targetsOf (canonicalize view continuity) path
      ↔ ∃ edge ∈ view.edges, canonicalPath continuity edge.from = path
        ∧ canonicalPath continuity edge.to = target := by
  rw [mem_targetsOf, canonicalize]
  dsimp only
  simp only [BTreeSet.mem_map]
  constructor
  · rintro ⟨edge, ⟨old, hold, rfl⟩, hfrom, hto⟩
    exact ⟨old, hold, hfrom, hto⟩
  · rintro ⟨old, hold, hfrom, hto⟩
    exact ⟨_, ⟨old, hold, rfl⟩, hfrom, hto⟩

/-- A path has as many targets as it had under its old name. -/
theorem card_targetsOf_canonicalize (hview : ViewOf snapshot view)
    (hapart : KeepsApart snapshot continuity) {old : RepoPath} (hold : old ∈ snapshot.paths) :
    (targetsOf (canonicalize view continuity) (canonicalPath continuity old)).card
      = (targetsOf view old).card := by
  have himage : targetsOf (canonicalize view continuity) (canonicalPath continuity old)
      = (targetsOf view old).image (canonicalPath continuity) := by
    ext target
    rw [mem_targetsOf_canonicalize, Finset.mem_image]
    constructor
    · rintro ⟨edge, hedge, hfrom, hto⟩
      have hsame := hapart _ (hview.edges edge hedge).1 _ hold hfrom
      exact ⟨edge.to, mem_targetsOf.mpr ⟨edge, hedge, hsame, rfl⟩, hto⟩
    · rintro ⟨next, hnext, rfl⟩
      obtain ⟨edge, hedge, rfl, rfl⟩ := mem_targetsOf.mp hnext
      exact ⟨edge, hedge, rfl, rfl⟩
  rw [himage]
  apply Finset.card_image_of_injOn
  intro p hp q hq hpq
  obtain ⟨edge, hedge, -, rfl⟩ := mem_targetsOf.mp hp
  obtain ⟨edge', hedge', -, rfl⟩ := mem_targetsOf.mp hq
  exact hapart _ (hview.edges edge hedge).2 _ (hview.edges edge' hedge').2 hpq

end Renamed

/-! ## The views of a request -/

section Views

variable [Sha256] (request : SenseRequest) (facts : RequestFacts)

theorem keepsApart_continuity : KeepsApart request.before request.continuity := by
  intro p hp q hq hpq
  rw [SenseRequest.continuity] at hpq
  split_ifs at hpq
  · exact hpq
  · exact canonicalPath_injOn request.after hp hq hpq

theorem viewOf_projectWithIndex (snapshot : SourceSnapshot) (fileFacts : FactMap)
    (parserOptions : Str) (goModules : BTreeMap RepoPath Str) (interfacePaths : BTreeSet RepoPath) :
    ViewOf snapshot (projectWithIndex snapshot ⟨fileFacts, parserOptions,
      .new snapshot fileFacts parserOptions goModules, interfacePaths⟩) := by
  have hbalanced := project_balanced snapshot snapshot fileFacts parserOptions goModules
    interfacePaths rfl
  refine ⟨hbalanced.nodes, fun edge hedge => ?_, fun path hpath => ?_⟩
  · obtain ⟨hfrom, hto⟩ := hbalanced.endpoints edge hedge
    exact ⟨(hbalanced.nodes _).mp hfrom, (hbalanced.nodes _).mp hto⟩
  · rw [get?_interfaces_projectWithIndex] at hpath
    split_ifs at hpath
    · cases hfiles : snapshot.fileList.filter fun file => (ResolutionIndex.new snapshot fileFacts
        parserOptions goModules).go.logicalPath file = path with
      | nil =>
        rw [hfiles] at hpath
        cases hpath
      | cons file files =>
        have hmem : file ∈ snapshot.fileList.filter fun file => (ResolutionIndex.new snapshot
            fileFacts parserOptions goModules).go.logicalPath file = path := by
          rw [hfiles]
          exact List.mem_cons_self
        obtain ⟨hfile, hlogical⟩ := List.mem_filter.mp hmem
        obtain ⟨file', hfile', hsame⟩ := (ResolutionIndex.describes_new snapshot fileFacts
          parserOptions goModules).mem_of_logicalPath hfile
        rw [← decide_eq_true_eq.mp hlogical, ← hsame, ← snapshot.map_path_fileList]
        exact List.mem_map_of_mem hfile'
    · cases hpath

/-- The first view, up to the files that were not read. -/
theorem beforeProjection_eq :
    request.beforeProjection facts
      = addUnsupportedCoverage (request.pairInput facts).beforeProjection
          request.beforeUnsupportedFiles := by
  rw [SenseRequest.beforeProjection, projectPair]
  split_ifs <;> rfl

theorem viewOf_beforeProjection : ViewOf request.before (request.beforeProjection facts) := by
  rw [beforeProjection_eq]
  exact ⟨(viewOf_projectWithIndex _ _ _ _ _).nodes, (viewOf_projectWithIndex _ _ _ _ _).edges,
    (viewOf_projectWithIndex _ _ _ _ _).interfaces⟩

/-- What the first view has under the names of the second one. -/
structure Compares (path : RepoPath) : Prop where
  nodes : path ∈ (request.comparisonBefore facts).nodes
    ↔ ∃ old ∈ request.before.paths, canonicalPath request.continuity old = path
  interfaces : ∀ module, (request.comparisonBefore facts).interfaces.get? path = some module
    ↔ ∃ old ∈ request.before.paths, canonicalPath request.continuity old = path
      ∧ (request.beforeProjection facts).interfaces.get? old = some module
  targets : ∀ old ∈ request.before.paths, canonicalPath request.continuity old = path →
    (targetsOf (request.comparisonBefore facts) path).card
      = (targetsOf (request.beforeProjection facts) old).card
  noTargets : (∀ old ∈ request.before.paths, canonicalPath request.continuity old ≠ path) →
    targetsOf (request.comparisonBefore facts) path = ∅

theorem compares (path : RepoPath) : Compares request facts path := by
  have hview := viewOf_beforeProjection request facts
  have hapart := keepsApart_continuity request
  by_cases hempty : request.continuity.isEmpty = true
  · have hcompare : request.comparisonBefore facts = request.beforeProjection facts := if_pos hempty
    have hnames : ∀ p, canonicalPath request.continuity p = p := by
      intro p
      rw [BTreeMap.isEmpty_iff.mp hempty]
      rfl
    refine ⟨?_, ?_, ?_, ?_⟩
    · rw [hcompare, hview.nodes]
      exact ⟨fun hmem => ⟨path, hmem, hnames path⟩, fun ⟨old, hold, hpath⟩ =>
        hpath ▸ (hnames old).symm ▸ hold⟩
    · intro module
      rw [hcompare]
      constructor
      · intro hget
        exact ⟨path, hview.interfaces path (by rw [hget]; rfl), hnames path, hget⟩
      · rintro ⟨old, -, hpath, hget⟩
        rw [hnames] at hpath
        rwa [hpath] at hget
    · intro old _ hpath
      rw [hcompare, ← hpath, hnames]
    · intro hnew
      rw [hcompare, Finset.eq_empty_iff_forall_notMem]
      intro target htarget
      obtain ⟨edge, hedge, hfrom, -⟩ := mem_targetsOf.mp htarget
      exact hnew _ (hview.edges edge hedge).1 ((hnames _).trans hfrom)
  · have hcompare : request.comparisonBefore facts
        = canonicalize (request.beforeProjection facts) request.continuity := if_neg hempty
    refine ⟨?_, ?_, ?_, ?_⟩
    · rw [hcompare]
      exact mem_nodes_canonicalize hview
    · intro module
      rw [hcompare]
      exact get?_interfaces_canonicalize hview hapart
    · intro old hold hpath
      rw [hcompare, ← hpath]
      exact card_targetsOf_canonicalize hview hapart hold
    · intro hnew
      rw [hcompare, Finset.eq_empty_iff_forall_notMem]
      intro target htarget
      obtain ⟨edge, hedge, hfrom, -⟩ := mem_targetsOf_canonicalize.mp htarget
      exact hnew _ (hview.edges edge hedge).1 hfrom

theorem viewsMatch_pairInput : (request.pairInput facts).viewsMatch = request.viewsMatch := by
  have hmodules : (!(request.pairInput facts).metadataChanged)
      = decide (request.goModules.before = request.goModules.after) := by
    by_cases h : request.goModules.before = request.goModules.after <;>
      simp [PairInput.metadataChanged, SenseRequest.pairInput, h]
  rw [PairInput.viewsMatch, hmodules]
  rfl

/-- What the second view is resolved in, where it is projected from scratch. -/
def afterContext : ResolutionContext :=
  (request.pairInput facts).context (request.pairInput facts).afterIndex
    (interfacePaths (request.pairInput facts).afterIndex request.changedPaths
      (request.pairInput facts).metadataChanged)

/-- Where the second view holds a Go file, it is projected from scratch. -/
theorem projectPair_of_go (hviews : request.viewsMatch = false) {file : SourceFile}
    (hfile : file ∈ request.after.fileList) (hgo : file.language = .go) :
    projectPair (request.pairInput facts)
      = ((request.pairInput facts).beforeProjection,
        projectWithIndex request.after (afterContext request facts),
        (request.pairInput facts).beforeInterfacePaths.union
          (afterContext request facts).interfacePaths) := by
  have hsensitive : (request.pairInput facts).goSensitive = true := by
    have hany : request.after.fileList.any (·.language = .go) = true :=
      List.any_eq_true.mpr ⟨file, hfile, by simpa using hgo⟩
    simp [PairInput.goSensitive, SenseRequest.pairInput, hany]
  have hunsafe : (request.pairInput facts).incrementalSafe = false := by
    simp [PairInput.incrementalSafe, hsensitive]
  have hfull : (request.pairInput facts).fullProjectionRequired = true := by
    simp [PairInput.fullProjectionRequired, hunsafe]
  have hmatch : (request.pairInput facts).viewsMatch = false := by
    rw [viewsMatch_pairInput, hviews]
  rw [projectPair, hmatch]
  simp only [Bool.false_eq_true, if_false, projectChanged, hunsafe, hfull, if_true]
  rfl

theorem afterProjection_eq (hviews : request.viewsMatch = false) {file : SourceFile}
    (hfile : file ∈ request.after.fileList) (hgo : file.language = .go) :
    request.afterProjection facts
      = addUnsupportedCoverage (projectWithIndex request.after (afterContext request facts))
          request.afterUnsupportedFiles := by
  rw [SenseRequest.afterProjection, projectPair_of_go request facts hviews hfile hgo]

/-- A second view that is the first one again. -/
theorem projections_of_viewsMatch (hviews : request.viewsMatch = true) :
    (request.afterProjection facts).interfaces = (request.comparisonBefore facts).interfaces
      ∧ (request.afterProjection facts).edges = (request.comparisonBefore facts).edges
      ∧ (request.afterProjection facts).interfaceEdges
        = (request.comparisonBefore facts).interfaceEdges := by
  have hmatch : (request.pairInput facts).viewsMatch = true := by
    rw [viewsMatch_pairInput, hviews]
  have hempty : request.continuity = ∅ := if_pos hviews
  have hbefore : request.comparisonBefore facts = request.beforeProjection facts := by
    rw [SenseRequest.comparisonBefore, hempty]
    rfl
  rw [hbefore, SenseRequest.afterProjection, SenseRequest.beforeProjection, projectPair, hmatch]
  exact ⟨rfl, rfl, rfl⟩

end Views

/-! ## Findings of a path -/

section Findings

variable {before after : Projection} {changedPaths : BTreeSet RepoPath}
  {continuity : BTreeMap RepoPath RepoPath} {policy : InterfacePolicy}
  {finding : InterfaceFinding}

/-- The findings of a request are those of its changed paths. -/
theorem mem_findings_interfaceMetrics :
    finding ∈ (interfaceMetrics before after changedPaths continuity policy).findings
      ↔ ∃ path ∈ changedPaths,
        finding ∈ (InterfaceMetricContext.new before after changedPaths continuity
          policy).collectFindings path (.new (.new before after changedPaths continuity policy)
            path) := by
  have hfold (context : InterfaceMetricContext) (paths : List RepoPath)
      (results : InterfaceMetricResults) :
      (paths.foldl context.collectPath results).findings
        = results.findings ++ paths.flatMap fun path =>
          context.collectFindings path (.new context path) := by
    induction paths generalizing results with
    | nil => simp
    | cons path paths ih =>
      rw [List.foldl_cons, ih, List.flatMap_cons, ← List.append_assoc]
      rfl
  rw [interfaceMetrics]
  dsimp only
  rw [List.mem_insertionSort, hfold, List.nil_append, List.mem_flatMap]
  rfl

/-- The surface of a path was known before, or the path is new. -/
def SurfaceKnown (before : Projection) (path : RepoPath) : Prop :=
  path ∈ before.nodes → publicSurfaceIsAuthoritative (before.interfaces.get? path) = true

def shapeCount (view : Projection) (path : RepoPath) (key : InterfaceShapeKey) : Option Nat :=
  (view.interfaces.get? path).bind fun module => module.shapes.get? key

/-- What has grown beyond a limit between two views of a path. -/
inductive Violates (before after : Projection) (policy : InterfacePolicy) (path : RepoPath) :
    Prop
  | targets (h : introducedViolation (targetsOf before path).card (targetsOf after path).card
      policy.dependencyTargetsLimit = true)
  | exports (hbarrel : (after.interfaces.get? path).any ModuleInterface.pureBarrel = false)
      (hknown : SurfaceKnown before path)
      (h : introducedViolation (exportCount (before.interfaces.get? path))
        (exportCount (after.interfaces.get? path)) policy.moduleExportsLimit = true)
  | selectors (key : InterfaceEdgeKey) (edge : InterfaceEdge) (hfrom : key.from = path)
      (hedge : after.interfaceEdges.get? key = some edge)
      (hwidth : (before.interfaceEdges.get? key).any InterfaceEdge.unknownWidth = false)
      (h : introducedViolation
        (((before.interfaceEdges.get? key).map fun edge => edge.selectors.size).getD 0)
        edge.selectors.size policy.edgeSelectorsLimit = true)
  | shape (hknown : SurfaceKnown before path) (key : InterfaceShapeKey) (count : Nat)
      (hcount : shapeCount after path key = some count)
      (h : introducedViolation ((shapeCount before path key).getD 0) count
        policy.shapeMembersLimit = true)

variable {path : RepoPath}

section Kinds

variable (before after changedPaths continuity policy path)

/-- The context of a request, and the metrics of a path in it. -/
abbrev contextOf : InterfaceMetricContext := .new before after changedPaths continuity policy

abbrev metricsOf : InterfacePathMetrics :=
  .new (contextOf before after changedPaths continuity policy) path

theorem surfaceUnknownBefore_iff :
    (contextOf before after changedPaths continuity policy).surfaceUnknownBefore path
        (metricsOf before after changedPaths continuity policy path) = true
      ↔ ¬ SurfaceKnown before path := by
  by_cases hmem : path ∈ before.nodes <;>
    simp [InterfaceMetricContext.surfaceUnknownBefore, InterfacePathMetrics.new,
      InterfacePathState.new, InterfaceMetricContext.new, SurfaceKnown, hmem]

theorem exists_dependencyFinding_iff (hpath : path ∈ changedPaths) :
    (∃ finding, finding ∈ (contextOf before after changedPaths continuity
        policy).collectDependencyFinding path
          (metricsOf before after changedPaths continuity policy path))
      ↔ introducedViolation (targetsOf before path).card (targetsOf after path).card
          policy.dependencyTargetsLimit = true := by
  have hcounts (view : Projection) : (InterfacePathState.new view (.new view changedPaths)
      (dependencyFanIn view changedPaths) policy path).targets = (targetsOf view path).card :=
    (counts_interfacePathState (dependencyFanIn view changedPaths) policy hpath).1
  rw [← hcounts before, ← hcounts after, InterfaceMetricContext.collectDependencyFinding]
  split_ifs with h
  · exact iff_of_true ⟨_, List.mem_singleton.mpr rfl⟩ h
  · exact iff_of_false (fun ⟨_, h⟩ => List.not_mem_nil h) h

theorem exists_moduleFinding_iff {module : ModuleInterface} :
    (∃ finding, finding ∈ (contextOf before after changedPaths continuity
        policy).collectModuleFinding path
          (metricsOf before after changedPaths continuity policy path) module)
      ↔ module.pureBarrel = false ∧ SurfaceKnown before path
        ∧ introducedViolation (exportCount (before.interfaces.get? path))
          (exportCount (after.interfaces.get? path)) policy.moduleExportsLimit = true := by
  have hunknown := surfaceUnknownBefore_iff before after changedPaths continuity policy path
  rw [InterfaceMetricContext.collectModuleFinding]
  split_ifs with hskip h
  · refine iff_of_false (fun ⟨_, h⟩ => List.not_mem_nil h) ?_
    rintro ⟨hbarrel, hknown, -⟩
    rw [hbarrel, Bool.false_or, hunknown] at hskip
    exact hskip hknown
  · rw [Bool.or_eq_true, not_or, hunknown, not_not] at hskip
    exact iff_of_true ⟨_, List.mem_singleton.mpr rfl⟩ ⟨by simpa using hskip.1, hskip.2, h⟩
  · refine iff_of_false (fun ⟨_, h⟩ => List.not_mem_nil h) ?_
    rintro ⟨-, -, hviolation⟩
    exact h hviolation

theorem exists_edgeFinding_iff :
    (∃ finding, finding ∈ (contextOf before after changedPaths continuity
        policy).collectEdgeFindings path)
      ↔ ∃ key edge, key.from = path ∧ after.interfaceEdges.get? key = some edge
        ∧ (before.interfaceEdges.get? key).any InterfaceEdge.unknownWidth = false
        ∧ introducedViolation
          (((before.interfaceEdges.get? key).map fun edge => edge.selectors.size).getD 0)
          edge.selectors.size policy.edgeSelectorsLimit = true := by
  rw [InterfaceMetricContext.collectEdgeFindings]
  constructor
  · rintro ⟨finding, hfinding⟩
    obtain ⟨⟨key, edge⟩, hentry, hsome⟩ := List.mem_filterMap.mp hfinding
    obtain ⟨hmem, hfrom⟩ := List.mem_filter.mp hentry
    rw [InterfaceMetricContext.edgeFinding] at hsome
    dsimp only at hsome
    split_ifs at hsome with hwidth hviolation
    have hfrom : key.from = path := decide_eq_true_eq.mp hfrom
    have hedge : after.interfaceEdges.get? key = some edge := BTreeMap.mem_entries_iff.mp hmem
    exact ⟨key, edge, hfrom, hedge, Bool.not_eq_true _ ▸ hwidth, hviolation⟩
  · rintro ⟨key, edge, rfl, hedge, hwidth, hviolation⟩
    have hentry : (key, edge) ∈ after.interfaceEdges.entries.filter fun entry =>
        entry.1.from = key.from :=
      List.mem_filter.mpr ⟨BTreeMap.mem_entries_iff.mpr hedge, by simp⟩
    have hsome : ((contextOf before after changedPaths continuity policy).edgeFinding key.from
        (key, edge)).isSome = true := by
      rw [InterfaceMetricContext.edgeFinding]
      exact Option.isSome_iff_exists.mpr
        ⟨_, (if_neg (Bool.eq_false_iff.mp hwidth)).trans (if_pos hviolation)⟩
    obtain ⟨finding, hfinding⟩ := Option.isSome_iff_exists.mp hsome
    exact ⟨finding, List.mem_filterMap.mpr ⟨_, hentry, hfinding⟩⟩

theorem exists_shapeFinding_iff {module : ModuleInterface}
    (hmodule : after.interfaces.get? path = some module) :
    (∃ finding, finding ∈ (contextOf before after changedPaths continuity
        policy).collectShapeFindings path
          (metricsOf before after changedPaths continuity policy path) module)
      ↔ SurfaceKnown before path ∧ ∃ key count, shapeCount after path key = some count
        ∧ introducedViolation ((shapeCount before path key).getD 0) count
          policy.shapeMembersLimit = true := by
  have hunknown := surfaceUnknownBefore_iff before after changedPaths continuity policy path
  have hcounts (key : InterfaceShapeKey) (count : Nat) :
      shapeCount after path key = some count ↔ (key, count) ∈ module.shapes.entries := by
    rw [shapeCount, hmodule, BTreeMap.mem_entries_iff]
    rfl
  rw [InterfaceMetricContext.collectShapeFindings]
  split_ifs with hskip
  · exact iff_of_false (fun ⟨_, h⟩ => List.not_mem_nil h) fun h => hunknown.mp hskip h.1
  · rw [hunknown, not_not] at hskip
    constructor
    · rintro ⟨finding, hfinding⟩
      obtain ⟨⟨key, count⟩, hentry, hsome⟩ := List.mem_filterMap.mp hfinding
      rw [InterfaceMetricContext.shapeFinding] at hsome
      dsimp only at hsome
      split_ifs at hsome with hviolation
      exact ⟨hskip, key, count, (hcounts key count).mpr hentry, hviolation⟩
    · rintro ⟨-, key, count, hcount, hviolation⟩
      have hsome : ((contextOf before after changedPaths continuity policy).shapeFinding path
          (key, count)).isSome = true := by
        rw [InterfaceMetricContext.shapeFinding]
        exact Option.isSome_iff_exists.mpr ⟨_, if_pos hviolation⟩
      obtain ⟨finding, hfinding⟩ := Option.isSome_iff_exists.mp hsome
      exact ⟨finding, List.mem_filterMap.mpr ⟨_, (hcounts key count).mp hcount, hfinding⟩⟩

end Kinds

/-- A path has a finding if it has an interface, is no test and no declaration file, and
something has grown. -/
theorem exists_finding_iff (hpath : path ∈ changedPaths) :
    (∃ finding, finding ∈ (contextOf before after changedPaths continuity policy).collectFindings
        path (metricsOf before after changedPaths continuity policy path))
      ↔ (∃ module, after.interfaces.get? path = some module ∧ module.declarationFile = false)
        ∧ isTestLike path = false ∧ Violates before after policy path := by
  rw [InterfaceMetricContext.collectFindings]
  cases hmodule : after.interfaces.get? path with
  | none => simp [InterfaceMetricContext.new, hmodule]
  | some module =>
    have hmodule' : (contextOf before after changedPaths continuity
        policy).after.interfaces.get? path = some module := hmodule
    have hdependency := exists_dependencyFinding_iff before after changedPaths continuity policy
      path hpath
    have hexports := @exists_moduleFinding_iff before after changedPaths continuity policy path
      module
    have hedges := exists_edgeFinding_iff before after changedPaths continuity policy path
    have hshapes := exists_shapeFinding_iff before after changedPaths continuity policy path
      hmodule
    have hbarrel : (after.interfaces.get? path).any ModuleInterface.pureBarrel
        = module.pureBarrel := by rw [hmodule]; rfl
    rw [hmodule']
    dsimp only
    split_ifs with hskip
    · refine iff_of_false (fun ⟨_, h⟩ => List.not_mem_nil h) ?_
      rintro ⟨⟨module', hsome, hdeclaration⟩, htest, -⟩
      obtain rfl := Option.some.inj hsome
      simp [hdeclaration, htest] at hskip
    · simp only [Bool.or_eq_true, not_or, Bool.not_eq_true] at hskip
      simp only [List.mem_append, exists_or, hdependency, hexports, hedges, hshapes]
      constructor
      · intro h
        refine ⟨⟨module, rfl, hskip.2⟩, hskip.1, ?_⟩
        rcases h with ((h | ⟨hnone, hknown, h⟩) | ⟨key, edge, hfrom, hedge, hwidth, h⟩)
          | ⟨hknown, key, count, hcount, h⟩
        · exact .targets h
        · exact .exports (hbarrel.trans hnone) hknown h
        · exact .selectors key edge hfrom hedge hwidth h
        · exact .shape hknown key count hcount h
      · rintro ⟨-, -, hviolates⟩
        cases hviolates with
        | targets h => exact .inl (.inl (.inl h))
        | exports hnone hknown h => exact .inl (.inl (.inr ⟨hbarrel.symm.trans hnone, hknown, h⟩))
        | selectors key edge hfrom hedge hwidth h =>
          exact .inl (.inr ⟨key, edge, hfrom, hedge, hwidth, h⟩)
        | shape hknown key count hcount h => exact .inr ⟨hknown, key, count, hcount, h⟩

/-- A finding of a path names the path. -/
theorem path_of_mem_collectFindings (h : finding ∈ (contextOf before after changedPaths continuity
    policy).collectFindings path (metricsOf before after changedPaths continuity policy path)) :
    finding.path = path := by
  rw [InterfaceMetricContext.collectFindings] at h
  split at h
  · cases h
  · split_ifs at h
    · cases h
    · simp only [List.mem_append] at h
      rcases h with ((h | h) | h) | h
      · rw [InterfaceMetricContext.collectDependencyFinding] at h
        split_ifs at h
        · rw [List.mem_singleton.mp h]
          rfl
        · cases h
      · rw [InterfaceMetricContext.collectModuleFinding] at h
        split_ifs at h
        · cases h
        · rw [List.mem_singleton.mp h]
          rfl
        · cases h
      · obtain ⟨entry, -, hsome⟩ := List.mem_filterMap.mp h
        rw [InterfaceMetricContext.edgeFinding] at hsome
        split_ifs at hsome
        rw [← Option.some.inj hsome]
        rfl
      · rw [InterfaceMetricContext.collectShapeFindings] at h
        split_ifs at h
        · cases h
        · obtain ⟨entry, -, hsome⟩ := List.mem_filterMap.mp h
          rw [InterfaceMetricContext.shapeFinding] at hsome
          split_ifs at hsome
          rw [← Option.some.inj hsome]
          rfl

/-- A path is among the findings of a request if it is a changed path and has one. -/
theorem exists_mem_findings_iff :
    (∃ finding ∈ (interfaceMetrics before after changedPaths continuity policy).findings,
        finding.path = path)
      ↔ path ∈ changedPaths
        ∧ (∃ module, after.interfaces.get? path = some module ∧ module.declarationFile = false)
        ∧ isTestLike path = false ∧ Violates before after policy path := by
  constructor
  · rintro ⟨finding, hmem, rfl⟩
    obtain ⟨path, hpath, hfinding⟩ := mem_findings_interfaceMetrics.mp hmem
    rw [path_of_mem_collectFindings hfinding]
    exact ⟨hpath, (exists_finding_iff hpath).mp ⟨finding, hfinding⟩⟩
  · rintro ⟨hpath, h⟩
    obtain ⟨finding, hfinding⟩ := (@exists_finding_iff _ _ _ continuity _ _ hpath).mpr h
    exact ⟨finding, mem_findings_interfaceMetrics.mpr ⟨path, hpath, hfinding⟩,
      path_of_mem_collectFindings hfinding⟩

end Findings

/-! ## What a path of the second view was -/

section Prior

variable [Sha256] (request : SenseRequest) (facts : RequestFacts) (path : RepoPath)

/-- The path of the first view that goes by a path in the second one. -/
def SenseRequest.priorPath : Option RepoPath :=
  request.before.paths.find? fun old => canonicalPath request.continuity old = path

variable {request path} in
theorem priorPath_eq_some_iff {old : RepoPath} :
    request.priorPath path = some old
      ↔ old ∈ request.before.paths ∧ canonicalPath request.continuity old = path := by
  constructor
  · intro h
    have hpath := List.find?_some h
    exact ⟨List.mem_of_find?_eq_some h, decide_eq_true_eq.mp hpath⟩
  · rintro ⟨hold, hpath⟩
    cases hfind : request.priorPath path with
    | none => exact absurd (decide_eq_true hpath) (List.find?_eq_none.mp hfind old hold)
    | some old' =>
      have hfound := List.find?_some hfind
      have hpath' : canonicalPath request.continuity old' = path := decide_eq_true_eq.mp hfound
      rw [keepsApart_continuity request old' (List.mem_of_find?_eq_some hfind) old hold
        (hpath'.trans hpath.symm)]

theorem priorPath_eq_none_iff :
    request.priorPath path = none
      ↔ ∀ old ∈ request.before.paths, canonicalPath request.continuity old ≠ path := by
  rw [SenseRequest.priorPath, List.find?_eq_none]
  simp

theorem mem_nodes_comparisonBefore :
    path ∈ (request.comparisonBefore facts).nodes ↔ (request.priorPath path).isSome = true := by
  rw [(compares request facts path).nodes, Option.isSome_iff_exists]
  simp only [priorPath_eq_some_iff]

theorem get?_interfaces_comparisonBefore :
    (request.comparisonBefore facts).interfaces.get? path
      = (request.priorPath path).bind (request.beforeProjection facts).interfaces.get? := by
  apply Option.ext
  intro module
  rw [(compares request facts path).interfaces, Option.bind_eq_some_iff]
  simp only [priorPath_eq_some_iff, and_assoc]

/-- The targets that the path had under its prior name. -/
def priorTargets : Nat :=
  ((request.priorPath path).map fun old =>
    (targetsOf (request.beforeProjection facts) old).card).getD 0

theorem card_targetsOf_comparisonBefore :
    (targetsOf (request.comparisonBefore facts) path).card = priorTargets request facts path := by
  rw [priorTargets]
  cases hprior : request.priorPath path with
  | none =>
    rw [(compares request facts path).noTargets ((priorPath_eq_none_iff request path).mp hprior)]
    rfl
  | some old =>
    obtain ⟨hold, hpath⟩ := priorPath_eq_some_iff.mp hprior
    exact (compares request facts path).targets old hold hpath

/-- The files of the first view that a path of it stands for. -/
def filesBefore (old : RepoPath) : List SourceFile :=
  request.before.fileList.filter fun file =>
    (request.pairInput facts).beforeIndex.go.logicalPath file = old

/-- What the files of the first view declare that a path of the second one stands for. -/
def priorInterfaces : List InterfaceFacts :=
  interfacesOf facts.fileFacts facts.parserOptions
    (((request.priorPath path).map (filesBefore request facts)).getD [])

/-- A path of the first view is looked at, and what it stands for is known in full. -/
def SurfaceRead (old : RepoPath) : Prop :=
  (∃ changed ∈ request.changedPaths,
      (request.pairInput facts).beforeIndex.go.logicalPathFor changed = old)
    ∧ interfacesOf facts.fileFacts facts.parserOptions (filesBefore request facts old) ≠ []
    ∧ ∀ interfaces ∈ interfacesOf facts.fileFacts facts.parserOptions
        (filesBefore request facts old), interfaces.publicSurfaceStatus = .complete

/-- The path was there before, but what it stood for is not known. -/
def Hidden : Prop := ∃ old, request.priorPath path = some old ∧ ¬ SurfaceRead request facts old

end Prior

/-! ## The debt of a package -/

section Debt

variable [Sha256]

/-- What the production files of a Go package have together in a view: their exports, the
largest member count of each shape, and the targets they depend on. -/
structure PackageAggregate where
  exports : Nat
  shapeMembers : InterfaceShapeKey → Nat
  targets : Nat

instance : LE PackageAggregate :=
  ⟨fun a b => a.exports ≤ b.exports ∧ (∀ key, a.shapeMembers key ≤ b.shapeMembers key)
    ∧ a.targets ≤ b.targets⟩

def countExports (interfaces : List InterfaceFacts) : Nat :=
  (BTreeSet.ofList (interfaces.flatMap exportKeys)).size

/-- The member counts that a shape is declared with. -/
def shapeMembersOf (interfaces : List InterfaceFacts) (key : InterfaceShapeKey) : List Nat :=
  BTreeMap.valuesAt key (interfaces.flatMap shapeCounts)

variable (request : SenseRequest) (facts : RequestFacts) (directory : Str) (path : RepoPath)

def productionInterfaces (snapshot : SourceSnapshot) : List InterfaceFacts :=
  interfacesOf facts.fileFacts facts.parserOptions (Go.productionFiles snapshot directory)

def packageAggregate (snapshot : SourceSnapshot) (view : Projection) : PackageAggregate where
  exports := countExports (productionInterfaces facts directory snapshot)
  shapeMembers := fun key =>
    (shapeMembersOf (productionInterfaces facts directory snapshot) key).foldr max 0
  targets := ((Go.packagePath snapshot directory).map fun path =>
    (targetsOf view path).card).getD 0

/-- A package that is not looked at: it is test code, or no production file of it is known or
has changed. -/
def Unread : Prop :=
  isTestLike path = true ∨ productionInterfaces facts directory request.after = []
    ∨ ∀ file ∈ Go.productionFiles request.after directory, file.path ∉ request.changedPaths

/-- The path that stands for a package stood for it before, up to an exact rename. -/
def Carried : Prop := request.priorPath path = Go.packagePath request.before directory

/-- No shape of a package was declared twice. -/
def ShapesDistinct : Prop :=
  ∀ key, (shapeMembersOf (productionInterfaces facts directory request.before) key).length ≤ 1

/-- A package is within the limits, or has grown over nothing that its path had before. -/
structure FitsPrior : Prop where
  targets : (targetsOf (request.afterProjection facts) path).card
    ≤ max request.options.maxDependencyTargets (priorTargets request facts path)
  exports : Hidden request facts path
    ∨ countExports (productionInterfaces facts directory request.after)
      ≤ max request.options.maxModuleExports (countExports (priorInterfaces request facts path))
  shapes : Hidden request facts path
    ∨ ∀ key,
        (shapeMembersOf (productionInterfaces facts directory request.after) key).getLast?.getD 0
          ≤ max request.options.maxShapeMembers
            ((shapeMembersOf (priorInterfaces request facts path) key).getLast?.getD 0)

/-- Where the interface of a package is compared with what it was, or fits anyway. -/
def DebtCompared : Prop :=
  request.viewsMatch = true ∨ Unread request facts directory path
    ∨ (Carried request directory path ∧ ShapesDistinct request facts directory)
    ∨ FitsPrior request facts directory path

/-- The facts of a Go file: it imports packages whole, exports what it declares, and is no
declaration file. -/
structure GoFacts (file : SourceFile) : Prop where
  imports : ImportsPackages facts.fileFacts facts.parserOptions file
  exports : file.language = .go → ∀ fileFacts,
    facts.fileFacts.get? (factKey file facts.parserOptions) = some fileFacts →
    reExports fileFacts.interfaces = false
  declaration : file.language = .go → containsText (ascii "declaration") file.languageMode = false

end Debt

/-! ## The interfaces that are compared -/

section Compared

variable [Sha256] {request : SenseRequest} (facts : RequestFacts) {directory : Str}
  {path old : RepoPath} (hmodules : request.goModules.before = request.goModules.after)
  (hpackage : Go.packagePath request.after directory = some path)

section

include hmodules

omit [Sha256] in
theorem metadataChanged_pairInput :
    (request.pairInput facts).metadataChanged = false := by
  simp [PairInput.metadataChanged, SenseRequest.pairInput, hmodules]

omit [Sha256] in
/-- Without a change of the modules, the paths that are looked at are those that stand for a
changed one. -/
theorem mem_interfacePaths (index : ResolutionIndex) :
    path ∈ interfacePaths index request.changedPaths (request.pairInput facts).metadataChanged
      ↔ ∃ changed ∈ request.changedPaths, index.go.logicalPathFor changed = path := by
  rw [metadataChanged_pairInput facts hmodules, interfacePaths]
  exact BTreeSet.mem_map

theorem get?_interfaces_beforeProjection :
    (request.beforeProjection facts).interfaces.get? old
      = if ∃ changed ∈ request.changedPaths,
            (request.pairInput facts).beforeIndex.go.logicalPathFor changed = old then
          mergedModule ((filesBefore request facts old).filterMap
            (moduleOf facts.fileFacts facts.parserOptions))
        else none := by
  have hlooked := @mem_interfacePaths request facts old hmodules
    (request.pairInput facts).beforeIndex
  rw [beforeProjection_eq]
  refine (get?_interfaces_projectWithIndex request.before _ old).trans ?_
  exact if_congr hlooked rfl rfl

end

include hpackage

omit [Sha256] in
/-- A Go package has a file of the second view. -/
theorem exists_go_file :
    ∃ file ∈ request.after.fileList, file.language = .go := by
  obtain ⟨first, hfirst, -⟩ := Go.exists_of_packagePath hpackage
  exact ⟨first, (Go.mem_productionFiles.mp hfirst).1.1, Go.language_of_mem_productionFiles hfirst⟩

/-- A package selects nothing of what it imports. -/
theorem selectors_afterProjection (hviews : request.viewsMatch = false)
    (hgo : ∀ file ∈ request.after.fileList, GoFacts facts file) {key : InterfaceEdgeKey}
    {edge : InterfaceEdge} (hfrom : key.from = path)
    (hedge : (request.afterProjection facts).interfaceEdges.get? key = some edge) :
    edge.selectors = ∅ := by
  obtain ⟨file, hfile, hlanguage⟩ := exists_go_file hpackage
  have hindex : (afterContext request facts).index.go
      = Go.Index.build request.after request.goModules.after := go_new ..
  have hselectors : (((projectWithIndex request.after
      (afterContext request facts)).interfaceEdges.get? key).getD {}).selectors = ∅ :=
    selectors_package hindex (hfrom ▸ hpackage) fun file hfile => (hgo file hfile).imports
  rw [afterProjection_eq request facts hviews hfile hlanguage] at hedge
  have hentry : (projectWithIndex request.after (afterContext request facts)).interfaceEdges.get?
      key = some edge := hedge
  rw [hentry] at hselectors
  exact hselectors

include hmodules

/-- A package is looked at if a production file of it has changed. -/
theorem package_mem_interfacePaths :
    path ∈ interfacePaths (request.pairInput facts).afterIndex request.changedPaths
        (request.pairInput facts).metadataChanged
      ↔ ∃ file ∈ Go.productionFiles request.after directory, file.path ∈ request.changedPaths := by
  have hindex : (request.pairInput facts).afterIndex.go
      = Go.Index.build request.after request.goModules.after := go_new ..
  rw [mem_interfacePaths facts hmodules, hindex]
  constructor
  · rintro ⟨changed, hchanged, hlogical⟩
    have hmem : changed ∈ request.after.paths := by
      by_contra hnot
      rw [Go.logicalPathFor_build_of_not_mem _ hnot] at hlogical
      obtain ⟨first, hfirst, rfl⟩ := Go.exists_of_packagePath hpackage
      apply hnot
      rw [hlogical, ← request.after.map_path_fileList]
      exact List.mem_map_of_mem (Go.mem_productionFiles.mp hfirst).1.1
    rw [← request.after.map_path_fileList] at hmem
    obtain ⟨file, hfile, rfl⟩ := List.mem_map.mp hmem
    exact ⟨file, (Go.logicalPath_eq_iff _ hpackage hfile).mp hlogical, hchanged⟩
  · rintro ⟨file, hfile, hchanged⟩
    exact ⟨file.path, hchanged, (Go.logicalPath_eq_iff _ hpackage
      (Go.mem_productionFiles.mp hfile).1.1).mpr hfile⟩

theorem get?_interfaces_afterProjection (hviews : request.viewsMatch = false) :
    (request.afterProjection facts).interfaces.get? path
      = if ∃ file ∈ Go.productionFiles request.after directory,
            file.path ∈ request.changedPaths then
          mergedModule ((Go.productionFiles request.after directory).filterMap
            (moduleOf facts.fileFacts facts.parserOptions))
        else none := by
  obtain ⟨file, hfile, hgo⟩ := exists_go_file hpackage
  have hlooked := package_mem_interfacePaths facts hmodules hpackage
  have hindex : (afterContext request facts).index.go
      = Go.Index.build request.after request.goModules.after := go_new ..
  rw [afterProjection_eq request facts hviews hfile hgo]
  refine (get?_interfaces_package hindex hpackage).trans ?_
  exact if_congr hlooked rfl rfl

end Compared

/-! ## What has grown -/

section Grown

variable [Sha256] {request : SenseRequest} {facts : RequestFacts} {directory : Str}
  {path old : RepoPath}

section

variable (hmodules : request.goModules.before = request.goModules.after)

include hmodules

/-- The surface of a path is authoritative in the first view if it was read there. -/
theorem authoritative_beforeProjection :
    publicSurfaceIsAuthoritative ((request.beforeProjection facts).interfaces.get? old) = true
      ↔ SurfaceRead request facts old := by
  rw [get?_interfaces_beforeProjection facts hmodules, SurfaceRead]
  split_ifs with hlooked
  · cases hmerged : mergedModule ((filesBefore request facts old).filterMap
        (moduleOf facts.fileFacts facts.parserOptions)) with
    | none =>
      have hnone : interfacesOf facts.fileFacts facts.parserOptions
          (filesBefore request facts old) = [] := (interfacesOf_eq_nil_iff _ _).mpr hmerged
      refine iff_of_false (by simp [publicSurfaceIsAuthoritative]) ?_
      rintro ⟨-, hsome, -⟩
      exact hsome hnone
    | some merged =>
      have hdeclared := declaredBy_mergedModule _ _ hmerged
      have hsome : interfacesOf facts.fileFacts facts.parserOptions
          (filesBefore request facts old) ≠ [] := fun hnil => by
        rw [(interfacesOf_eq_nil_iff _ _).mp hnil] at hmerged
        cases hmerged
      rw [publicSurfaceIsAuthoritative, Option.any_some, hdeclared.publicSurfaceComplete]
      simp [hlooked, hsome]
  · refine iff_of_false (by simp [publicSurfaceIsAuthoritative]) ?_
    rintro ⟨hread, -⟩
    exact hlooked hread

theorem surfaceKnown_comparisonBefore_iff :
    SurfaceKnown (request.comparisonBefore facts) path ↔ ¬ Hidden request facts path := by
  rw [SurfaceKnown, mem_nodes_comparisonBefore, get?_interfaces_comparisonBefore, Hidden]
  cases hprior : request.priorPath path with
  | none => simp
  | some old =>
    rw [Option.bind_some, authoritative_beforeProjection hmodules]
    simp

/-- A path that is not hidden is compared with what it stood for. -/
theorem prior_of_not_hidden (hknown : ¬ Hidden request facts path) :
    exportCount ((request.comparisonBefore facts).interfaces.get? path)
        = countExports (priorInterfaces request facts path)
      ∧ ∀ key, shapeCount (request.comparisonBefore facts) path key
        = (shapeMembersOf (priorInterfaces request facts path) key).getLast? := by
  have hinterfaces := get?_interfaces_comparisonBefore request facts path
  cases hprior : request.priorPath path with
  | none =>
    rw [hprior] at hinterfaces
    rw [priorInterfaces, hprior]
    constructor
    · rw [hinterfaces]
      rfl
    · intro key
      rw [shapeCount, hinterfaces]
      rfl
  | some old =>
    have hread : SurfaceRead request facts old := by
      by_contra hunread
      exact hknown ⟨old, hprior, hunread⟩
    rw [hprior, Option.bind_some, get?_interfaces_beforeProjection facts hmodules,
      if_pos hread.1] at hinterfaces
    cases hmerged : mergedModule ((filesBefore request facts old).filterMap
        (moduleOf facts.fileFacts facts.parserOptions)) with
    | none => exact absurd ((interfacesOf_eq_nil_iff _ _).mpr hmerged) hread.2.1
    | some merged =>
      have hdeclared := declaredBy_mergedModule _ _ hmerged
      rw [hmerged] at hinterfaces
      rw [priorInterfaces, hprior, Option.map_some, Option.getD_some]
      constructor
      · rw [hinterfaces, exportCount, Option.map_some, Option.getD_some, hdeclared.exports,
          countExports]
      · intro key
        rw [shapeCount, hinterfaces, Option.bind_some, hdeclared.shapes,
          BTreeMap.get?_ofList_eq_getLast?, shapeMembersOf]

end

omit [Sha256] in
theorem introducedViolation_iff {before after limit : Nat} :
    introducedViolation before after limit = true ↔ ¬ after ≤ max limit before := by
  simp [introducedViolation]

omit [Sha256] in
/-- Nothing has grown from a view to itself. -/
theorem not_violates_of_same {before after : Projection} {policy : InterfacePolicy}
    (hinterfaces : after.interfaces = before.interfaces) (hedges : after.edges = before.edges)
    (hinterfaceEdges : after.interfaceEdges = before.interfaceEdges) :
    ¬ Violates before after policy path := by
  have hself {count limit : Nat} : introducedViolation count count limit ≠ true := by
    simp [introducedViolation]
  intro hviolates
  cases hviolates with
  | targets h =>
    have htargets : targetsOf after path = targetsOf before path := by
      rw [targetsOf, targetsOf, hedges]
    rw [htargets] at h
    exact hself h
  | exports _ _ h =>
    rw [hinterfaces] at h
    exact hself h
  | selectors key edge _ hedge _ h =>
    rw [hinterfaceEdges] at hedge
    rw [hedge] at h
    exact hself h
  | shape _ key count hcount h =>
    rw [shapeCount, hinterfaces, ← shapeCount] at hcount
    rw [hcount] at h
    exact hself h

/-- Go packages are no barrels. -/
theorem hasReexports_package (hgo : ∀ file ∈ request.after.fileList, GoFacts facts file) :
    (productionInterfaces facts directory request.after).any reExports = false := by
  rw [List.any_eq_false]
  intro interfaces hmem
  obtain ⟨file, hfile, hfacts⟩ := List.mem_filterMap.mp hmem
  obtain ⟨fileFacts, hget, rfl⟩ := Option.map_eq_some_iff.mp hfacts
  have hin := (Go.mem_productionFiles.mp hfile).1.1
  rw [(hgo file hin).exports (Go.language_of_mem_productionFiles hfile) fileFacts hget]
  exact Bool.false_ne_true

/-- What a package has grown over is what does not fit. -/
theorem violates_iff (hviews : request.viewsMatch = false)
    (hmodules : request.goModules.before = request.goModules.after)
    (hgo : ∀ file ∈ request.after.fileList, GoFacts facts file)
    (hpackage : Go.packagePath request.after directory = some path) {merged : ModuleInterface}
    (hmerged : mergedModule ((Go.productionFiles request.after directory).filterMap
      (moduleOf facts.fileFacts facts.parserOptions)) = some merged)
    (hafter : (request.afterProjection facts).interfaces.get? path = some merged) :
    Violates (request.comparisonBefore facts) (request.afterProjection facts)
        (request.metricInputs facts).interfacePolicy path
      ↔ ¬ FitsPrior request facts directory path := by
  have hdeclared : DeclaredBy (productionInterfaces facts directory request.after) merged :=
    declaredBy_mergedModule _ _ hmerged
  have hbarrel : merged.pureBarrel = false := by
    rw [ModuleInterface.pureBarrel, hdeclared.hasReexports, hasReexports_package hgo]
    rfl
  have hexports : exportCount ((request.afterProjection facts).interfaces.get? path)
      = countExports (productionInterfaces facts directory request.after) := by
    rw [hafter, exportCount, Option.map_some, Option.getD_some, hdeclared.exports, countExports]
  have hshapes (key : InterfaceShapeKey) : shapeCount (request.afterProjection facts) path key
      = (shapeMembersOf (productionInterfaces facts directory request.after) key).getLast? := by
    rw [shapeCount, hafter, Option.bind_some, hdeclared.shapes, BTreeMap.get?_ofList_eq_getLast?,
      shapeMembersOf]
  have htargets := card_targetsOf_comparisonBefore request facts path
  have hknown : SurfaceKnown (request.comparisonBefore facts) path ↔ ¬ Hidden request facts path :=
    surfaceKnown_comparisonBefore_iff hmodules
  -- Each kind of violation is one of the three limits; a package has no selectors.
  constructor
  · rintro hviolates hfits
    cases hviolates with
    | targets h =>
      rw [introducedViolation_iff, htargets] at h
      exact h hfits.targets
    | exports _ hsurface h =>
      have hvisible := hknown.mp hsurface
      rw [introducedViolation_iff, hexports, (prior_of_not_hidden hmodules hvisible).1] at h
      exact h (hfits.exports.resolve_left hvisible)
    | selectors key edge hfrom hedge _ h =>
      have hnone := selectors_afterProjection facts hpackage hviews hgo hfrom hedge
      rw [introducedViolation_iff, hnone] at h
      exact h (Nat.zero_le _)
    | shape hsurface key count hcount h =>
      have hvisible := hknown.mp hsurface
      have hfit := hfits.shapes.resolve_left hvisible key
      rw [introducedViolation_iff, (prior_of_not_hidden hmodules hvisible).2] at h
      rw [← hshapes, hcount] at hfit
      exact h hfit
  · intro hunfit
    by_contra hnone
    apply hunfit
    refine ⟨?_, ?_, ?_⟩
    · by_contra hover
      exact hnone (.targets (introducedViolation_iff.mpr (htargets ▸ hover)))
    · by_cases hhidden : Hidden request facts path
      · exact .inl hhidden
      · right
        by_contra hover
        refine hnone (.exports (by rw [hafter]; exact hbarrel) (hknown.mpr hhidden) ?_)
        rw [introducedViolation_iff, hexports, (prior_of_not_hidden hmodules hhidden).1]
        exact hover
    · by_cases hhidden : Hidden request facts path
      · exact .inl hhidden
      · refine .inr fun key => ?_
        by_contra hover
        cases hlast : (shapeMembersOf (productionInterfaces facts directory request.after)
            key).getLast? with
        | none =>
          rw [hlast] at hover
          exact hover (Nat.zero_le _)
        | some count =>
          refine hnone (.shape (hknown.mpr hhidden) key count ((hshapes key).trans hlast) ?_)
          rw [introducedViolation_iff, (prior_of_not_hidden hmodules hhidden).2]
          rw [hlast] at hover
          exact hover

end Grown

/-! ## What is reported -/

section Reported

variable [Sha256] {request : SenseRequest} {facts : RequestFacts} {directory : Str}
  {path : RepoPath}

/-- A package that is carried on and has not grown fits. -/
theorem fitsPrior_of_carried (hpackage : Go.packagePath request.after directory = some path)
    (hcarried : Carried request directory path)
    (hdistinct : ShapesDistinct request facts directory)
    (hless : packageAggregate facts directory request.after (request.afterProjection facts)
      ≤ packageAggregate facts directory request.before (request.beforeProjection facts)) :
    FitsPrior request facts directory path := by
  obtain ⟨hexports, hshapes, htargets⟩ := hless
  have hinterfaces : priorInterfaces request facts path
      = productionInterfaces facts directory request.before := by
    rw [priorInterfaces, hcarried, productionInterfaces]
    cases hbefore : Go.packagePath request.before directory with
    | none =>
      have hnone : Go.productionFiles request.before directory = [] := by
        rw [List.eq_nil_iff_forall_not_mem]
        intro file hfile
        obtain ⟨old, hold⟩ := Go.exists_packagePath hfile
        rw [hbefore] at hold
        cases hold
      rw [hnone]
      rfl
    | some old =>
      have hindex : (request.pairInput facts).beforeIndex.go
          = Go.Index.build request.before request.goModules.before := go_new ..
      rw [Option.map_some, Option.getD_some, filesBefore, hindex,
        Go.filter_logicalPath_eq _ hbefore]
  refine ⟨?_, .inr ?_, .inr fun key => ?_⟩
  · have hafter : (packageAggregate facts directory request.after
        (request.afterProjection facts)).targets
          = (targetsOf (request.afterProjection facts) path).card := by
      rw [packageAggregate, hpackage]
      rfl
    have hprior : (packageAggregate facts directory request.before
        (request.beforeProjection facts)).targets = priorTargets request facts path := by
      rw [packageAggregate, priorTargets, hcarried]
    rw [← hafter, ← hprior]
    exact htargets.trans (le_max_right _ _)
  · rw [hinterfaces]
    exact hexports.trans (le_max_right _ _)
  · -- A shape declared once has one count.
    have hlast (counts : List Nat) : counts.getLast?.getD 0 ≤ counts.foldr max 0 := by
      cases hget : counts.getLast? with
      | none => exact Nat.zero_le _
      | some count => exact List.le_max_of_le' 0 (List.mem_of_getLast? hget) le_rfl
    have honly (counts : List Nat) (h : counts.length ≤ 1) :
        counts.foldr max 0 = counts.getLast?.getD 0 := by
      match counts, h with
      | [], _ => rfl
      | [count], _ => exact Nat.max_eq_left (Nat.zero_le _)
    rw [hinterfaces, ← honly _ (hdistinct key)]
    exact ((hlast _).trans (hshapes key)).trans (le_max_right _ _)

/-- A path of the second view goes by its own name. -/
theorem canonicalPath_of_mem_after (h : path ∈ request.after.paths) :
    canonicalPath request.continuity path = path := by
  rw [SenseRequest.continuity]
  split_ifs
  · rfl
  · rw [canonicalPath]
    cases hget : (exactPathContinuity request.before request.after).get? path with
    | none => rfl
    | some next => exact absurd h (get?_exactPathContinuity.mp hget).source.2

/-- A package that is looked at is among the changed paths of the metrics. -/
theorem mem_canonicalChangedPaths (facts : RequestFacts) (hviews : request.viewsMatch = false)
    (hmodules : request.goModules.before = request.goModules.after)
    (hpackage : Go.packagePath request.after directory = some path)
    (hread : ∃ file ∈ Go.productionFiles request.after directory,
      file.path ∈ request.changedPaths) :
    path ∈ canonicalChangedPaths (request.logicalChangedPaths facts) request.continuity := by
  obtain ⟨file, hfile, hgo⟩ := exists_go_file hpackage
  obtain ⟨first, hfirst, hpath⟩ := Go.exists_of_packagePath hpackage
  have hafter : path ∈ request.after.paths := by
    rw [← hpath, ← request.after.map_path_fileList]
    exact List.mem_map_of_mem (Go.mem_productionFiles.mp hfirst).1.1
  have hlooked : path ∈ (afterContext request facts).interfacePaths :=
    (package_mem_interfacePaths facts hmodules hpackage).mpr hread
  rw [canonicalChangedPaths, BTreeSet.mem_map]
  refine ⟨path, ?_, canonicalPath_of_mem_after hafter⟩
  rw [SenseRequest.logicalChangedPaths, projectPair_of_go request facts hviews hfile hgo]
  exact BTreeSet.mem_union.mpr (.inr hlooked)

/-- Go packages are no declaration files. -/
theorem declarationFile_package (hgo : ∀ file ∈ request.after.fileList, GoFacts facts file)
    {merged : ModuleInterface}
    (hmerged : mergedModule ((Go.productionFiles request.after directory).filterMap
      (moduleOf facts.fileFacts facts.parserOptions)) = some merged) :
    merged.declarationFile = false := by
  apply declarationFile_mergedModule hmerged
  intro module hmodule
  obtain ⟨file, hfile, hsome⟩ := List.mem_filterMap.mp hmodule
  obtain ⟨fileFacts, -, rfl⟩ := Option.map_eq_some_iff.mp hsome
  exact (hgo file (Go.mem_productionFiles.mp hfile).1.1).declaration
    (Go.language_of_mem_productionFiles hfile)

omit [Sha256] in
/-- What is collected for a path. -/
theorem exists_mem_collect_iff {inputs : MetricInputs} :
    (∃ finding ∈ (collect inputs).interfaceFindings, finding.path = path)
      ↔ path ∈ canonicalChangedPaths inputs.changedPaths inputs.continuity
        ∧ (∃ module, inputs.after.interfaces.get? path = some module
            ∧ module.declarationFile = false)
        ∧ isTestLike path = false
        ∧ Violates inputs.before inputs.after inputs.interfacePolicy path := by
  rw [collect]
  split_ifs with hempty
  · have hnone : path ∉ canonicalChangedPaths inputs.changedPaths inputs.continuity := by
      rw [canonicalChangedPaths, BTreeSet.isEmpty_iff.mp hempty, BTreeSet.mem_map]
      rintro ⟨changed, hchanged, -⟩
      exact BTreeSet.not_mem_empty hchanged
    exact iff_of_false (fun ⟨_, h, _⟩ => List.not_mem_nil h) fun h => hnone h.1
  · exact exists_mem_findings_iff

/-- A path is reported by an evaluation. -/
def DebtReported [Base64] (request : SenseRequest) (facts : RequestFacts) (path : RepoPath) :
    Prop :=
  ∃ finding ∈ (evaluateGraph request facts).interfaceFindings, finding.path = path

instance [Base64] (request : SenseRequest) (facts : RequestFacts) (path : RepoPath) :
    Decidable (DebtReported request facts path) :=
  inferInstanceAs (Decidable
    (∃ finding ∈ (evaluateGraph request facts).interfaceFindings, finding.path = path))

variable [Base64]

/-- What is reported of a path was collected, and all of it is unless the report is cut off. -/
theorem debtReported_of_collected :
    (DebtReported request facts path →
        ∃ finding ∈ (collect (request.metricInputs facts)).interfaceFindings, finding.path = path)
      ∧ ((evaluateGraph request facts).findingsTruncated = false →
        (∃ finding ∈ (collect (request.metricInputs facts)).interfaceFindings,
          finding.path = path) → DebtReported request facts path) := by
  constructor
  · rintro ⟨finding, hmem, hpath⟩
    exact ⟨finding, List.mem_of_mem_take hmem, hpath⟩
  · rintro hwhole ⟨finding, hmem, hpath⟩
    refine ⟨finding, ?_, hpath⟩
    rw [evaluateGraph] at hwhole ⊢
    simp only [Bool.or_eq_false_iff, decide_eq_false_iff_not, not_lt] at hwhole
    rw [List.take_of_length_le hwhole.2]
    exact hmem

omit [Base64] in
/-- A package is collected exactly if it is looked at and does not fit. -/
theorem exists_collected_iff (hviews : request.viewsMatch = false)
    (hmodules : request.goModules.before = request.goModules.after)
    (hgo : ∀ file ∈ request.after.fileList, GoFacts facts file)
    (hpackage : Go.packagePath request.after directory = some path) :
    (∃ finding ∈ (collect (request.metricInputs facts)).interfaceFindings, finding.path = path)
      ↔ ¬ Unread request facts directory path ∧ ¬ FitsPrior request facts directory path := by
  have hinterfaces := get?_interfaces_afterProjection facts hmodules hpackage hviews
  rw [exists_mem_collect_iff, Unread]
  by_cases hread : ∃ file ∈ Go.productionFiles request.after directory,
      file.path ∈ request.changedPaths
  · rw [if_pos hread] at hinterfaces
    cases hmerged : mergedModule ((Go.productionFiles request.after directory).filterMap
        (moduleOf facts.fileFacts facts.parserOptions)) with
    | none =>
      have hnone : productionInterfaces facts directory request.after = [] :=
        (interfacesOf_eq_nil_iff _ _).mpr hmerged
      rw [hmerged] at hinterfaces
      refine iff_of_false ?_ fun h => h.1 (.inr (.inl hnone))
      rintro ⟨-, ⟨module, hsome, -⟩, -⟩
      cases hinterfaces.symm.trans hsome
    | some merged =>
      rw [hmerged] at hinterfaces
      have hsome : productionInterfaces facts directory request.after ≠ [] := fun hnil => by
        rw [productionInterfaces, interfacesOf_eq_nil_iff, hmerged] at hnil
        cases hnil
      have hviolates := violates_iff hviews hmodules hgo hpackage hmerged hinterfaces
      have hchanged := mem_canonicalChangedPaths facts hviews hmodules hpackage hread
      have hmodule : ∃ module, (request.afterProjection facts).interfaces.get? path = some module
          ∧ module.declarationFile = false :=
        ⟨merged, hinterfaces, declarationFile_package hgo hmerged⟩
      have hunread : ¬ ∀ file ∈ Go.productionFiles request.after directory,
          file.path ∉ request.changedPaths := fun hnone =>
        hread.elim fun file hfile => hnone file hfile.1 hfile.2
      constructor
      · rintro ⟨-, -, htest, h⟩
        refine ⟨?_, hviolates.mp h⟩
        rintro (h | h | h)
        · rw [htest] at h
          cases h
        · exact hsome h
        · exact hunread h
      · rintro ⟨hlooked, hunfit⟩
        refine ⟨hchanged, hmodule, ?_, hviolates.mpr hunfit⟩
        rw [← Bool.not_eq_true]
        exact fun htest => hlooked (.inl htest)
  · -- Nothing changed under the path: its interface is not read.
    rw [if_neg hread] at hinterfaces
    refine iff_of_false ?_ fun h => h.1 (.inr (.inr ?_))
    · rintro ⟨-, ⟨module, hsome, -⟩, -⟩
      cases hinterfaces.symm.trans hsome
    · intro file hfile hchanged
      exact hread ⟨file, hfile, hchanged⟩

end Reported

/-- **Package debt.**  A Go package whose exports, shapes and targets have not grown in a change
without a change of its modules is not reported if the path that stands for it stood for it
before, or if it fits anyway; and in a report that is not cut off it is not reported only then. -/
theorem package_debt_iff [Sha256] [Base64] (request : SenseRequest) (facts : RequestFacts)
    (directory : Str) (path : RepoPath)
    (hmodules : request.goModules.before = request.goModules.after)
    (hgo : ∀ file ∈ request.after.fileList, GoFacts facts file)
    (hpackage : Go.packagePath request.after directory = some path)
    (hless : packageAggregate facts directory request.after (request.afterProjection facts)
      ≤ packageAggregate facts directory request.before (request.beforeProjection facts)) :
    (DebtCompared request facts directory path → ¬ DebtReported request facts path)
      ∧ ((evaluateGraph request facts).findingsTruncated = false →
        ¬ DebtReported request facts path → DebtCompared request facts directory path) := by
  obtain ⟨hcollected, hwhole⟩ := @debtReported_of_collected _ request facts path _
  cases hviews : request.viewsMatch with
  | true =>
    refine ⟨fun _ hreported => ?_, fun _ _ => .inl hviews⟩
    obtain ⟨hinterfaces, hedges, hinterfaceEdges⟩ :=
      projections_of_viewsMatch request facts hviews
    obtain ⟨-, -, -, hviolates⟩ := exists_mem_collect_iff.mp (hcollected hreported)
    exact not_violates_of_same hinterfaces hedges hinterfaceEdges hviolates
  | false =>
    have hiff := exists_collected_iff hviews hmodules hgo hpackage
    constructor
    · rintro (hsame | hunread | ⟨hcarried, hdistinct⟩ | hfits) hreported
      · rw [hviews] at hsame
        cases hsame
      · exact (hiff.mp (hcollected hreported)).1 hunread
      · exact (hiff.mp (hcollected hreported)).2
          (fitsPrior_of_carried hpackage hcarried hdistinct hless)
      · exact (hiff.mp (hcollected hreported)).2 hfits
    · intro huncut hnone
      by_contra hcompared
      apply hnone
      apply hwhole huncut
      rw [hiff]
      exact ⟨fun hunread => hcompared (.inr (.inl hunread)),
        fun hfits => hcompared (.inr (.inr (.inr hfits)))⟩

/-! A Go package of 21 exported names in one file, to which a file without any is added.  Where
the new file comes first, the package goes by its path, under which there was nothing. -/

def packageFile (path : RepoPath) (text : String) : SourceFile :=
  ⟨path, ascii text, .go, ascii "go:source:linux:amd64"⟩

def fileA : RepoPath := ⟨ascii "p/a.go", by decide⟩
def fileB : RepoPath := ⟨ascii "p/b.go", by decide⟩
def fileC : RepoPath := ⟨ascii "p/c.go", by decide⟩

def packageFacts (names : String) : FileFacts where
  dependencies := { status := .complete }
  interfaces :=
    { status := .complete
      publicSurfaceStatus := .complete
      exports := (ascii names).map fun letter => ⟨[letter], .value, .local, .function⟩ }

def packageRequest (added : RepoPath) : SenseRequest where
  before := .new [packageFile fileB "letters"]
  after := .new [packageFile fileB "letters", packageFile added "empty"]
  changedPaths := BTreeSet.ofList [added]

def packageRequestFacts [Sha256] (added : RepoPath) : RequestFacts where
  fileFacts := BTreeMap.ofList
    [(factKey (packageFile fileB "letters") [], packageFacts "ABCDEFGHIJKLMNOPQRSTU"),
      (factKey (packageFile added "empty") [], packageFacts "")]
  factKeys := (uniqueFiles [] (packageRequest added).before (packageRequest added).after).factKeys
  parserOptions := []

theorem goFacts_of_entries [Sha256] {facts : RequestFacts} {file : SourceFile}
    (hmode : containsText (ascii "declaration") file.languageMode = false)
    (hentries : ∀ entry ∈ facts.fileFacts.entries,
      (∀ fact ∈ entry.2.interfaces.imports, isNamed fact.selector = false)
        ∧ reExports entry.2.interfaces = false) : GoFacts facts file where
  imports := fun _ _ hget => (hentries _ (BTreeMap.mem_entries_iff.mpr hget)).1
  exports := fun _ _ hget => (hentries _ (BTreeMap.mem_entries_iff.mpr hget)).2
  declaration := fun _ => hmode

/-- Without shapes an aggregate is compared by its two counts. -/
theorem packageAggregate_le_of_counts [Sha256] {facts : RequestFacts} {directory : Str}
    {before after : SourceSnapshot} {beforeView afterView : Projection}
    (hshapes : (productionInterfaces facts directory after).flatMap shapeCounts = [])
    (hexports : countExports (productionInterfaces facts directory after)
      ≤ countExports (productionInterfaces facts directory before))
    (htargets : (packageAggregate facts directory after afterView).targets
      ≤ (packageAggregate facts directory before beforeView).targets) :
    packageAggregate facts directory after afterView
      ≤ packageAggregate facts directory before beforeView := by
  have hnone (key : InterfaceShapeKey) :
      shapeMembersOf (productionInterfaces facts directory after) key = [] := by
    rw [shapeMembersOf, hshapes]
    rfl
  refine ⟨hexports, fun key => ?_, htargets⟩
  calc (shapeMembersOf (productionInterfaces facts directory after) key).foldr max 0
      = 0 := by rw [hnone]; rfl
    _ ≤ _ := Nat.zero_le _

theorem package_debt_depends_on_file :
    letI := identityDigest
    letI := plainBase64
    let request := packageRequest fileA
    let facts := packageRequestFacts fileA
    request.goModules.before = request.goModules.after
      ∧ (∀ file ∈ request.after.fileList, GoFacts facts file)
      ∧ Go.packagePath request.after (ascii "p") = some fileA
      ∧ packageAggregate facts (ascii "p") request.after (request.afterProjection facts)
        ≤ packageAggregate facts (ascii "p") request.before (request.beforeProjection facts)
      ∧ DebtReported request facts fileA := by
  let := identityDigest
  let := plainBase64
  refine ⟨rfl, ?_, by decide +kernel, ?_, by decide +kernel⟩
  · have hmodes : ∀ file ∈ (packageRequest fileA).after.fileList,
        containsText (ascii "declaration") file.languageMode = false := by decide +kernel
    exact fun file hfile => goFacts_of_entries (hmodes file hfile) (by decide +kernel)
  · exact packageAggregate_le_of_counts (by decide +kernel) (by decide +kernel) (by decide +kernel)

/-- Where the new file comes last, the package is compared with itself. -/
theorem package_debt_iff_last :
    letI := identityDigest
    letI := plainBase64
    ¬ DebtReported (packageRequest fileC) (packageRequestFacts fileC) fileB := by
  let := identityDigest
  let := plainBase64
  have hmodes : ∀ file ∈ (packageRequest fileC).after.fileList,
      containsText (ascii "declaration") file.languageMode = false := by decide +kernel
  have hless : packageAggregate (packageRequestFacts fileC) (ascii "p")
        (packageRequest fileC).after
        ((packageRequest fileC).afterProjection (packageRequestFacts fileC))
      ≤ packageAggregate (packageRequestFacts fileC) (ascii "p") (packageRequest fileC).before
        ((packageRequest fileC).beforeProjection (packageRequestFacts fileC)) :=
    packageAggregate_le_of_counts (by decide +kernel) (by decide +kernel) (by decide +kernel)
  have hshapes : (productionInterfaces (packageRequestFacts fileC) (ascii "p")
      (packageRequest fileC).before).flatMap shapeCounts = [] := by decide +kernel
  have hcarried : Carried (packageRequest fileC) (ascii "p") fileB := by
    rw [Carried]
    decide +kernel
  have hdistinct : ShapesDistinct (packageRequest fileC) (packageRequestFacts fileC)
      (ascii "p") := fun key => by
    rw [shapeMembersOf, hshapes]
    exact Nat.zero_le _
  exact (package_debt_iff (packageRequest fileC) (packageRequestFacts fileC) (ascii "p") fileB rfl
    (fun file hfile => goFacts_of_entries (hmodes file hfile) (by decide +kernel))
    (by decide +kernel) hless).1 (.inr (.inr (.inl ⟨hcarried, hdistinct⟩)))

end Opcore.Sense
