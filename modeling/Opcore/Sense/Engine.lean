/-
  Opcore.Sense.Engine

  The evaluation of a request: both projections, the cycles, duplicates and
  interface findings that are new in the second view, and the report of them.
-/
import Opcore.Facts
import Opcore.Sense.Graph.Continuity
import Opcore.Sense.Metrics.Collect
import Opcore.Sense.Resolver.Projection

namespace Opcore.Sense

open Text Collections Metrics Documentation Resolver

/-! ## Requests -/

structure SenseOptions where
  limits : RuleLimits := {}
  highImpactThreshold : Nat := 10
  minimumIdenticalBytes : Nat := 256
  maxDependencyTargets : Nat := 20
  maxEdgeSelectors : Nat := 8
  maxModuleExports : Nat := 20
  maxShapeMembers : Nat := 20

/-- Both snapshots of a change, and what was left out of them. -/
structure SenseRequest where
  before : SourceSnapshot
  after : SourceSnapshot
  changedPaths : BTreeSet RepoPath
  beforeUnsupportedFiles : Nat := 0
  afterUnsupportedFiles : Nat := 0
  unsupportedChangedFiles : Nat := 0
  dependencyMetadataChangedFiles : Nat := 0
  goModules : GoModuleViews := {}
  validAsOf : Str := []
  options : SenseOptions := {}

/-- What is read of a request beside it: the facts of its files and how they are
    looked up. -/
structure RequestFacts where
  fileFacts : FactMap
  factKeys : FactKeyLookup
  parserOptions : Str

def minDedupCallableTokens : Nat := 48

/-- The limits of an evaluation as its report states them. -/
def effectivePolicy (options : SenseOptions) : EffectiveSensePolicy where
  minimumIdenticalBytes := options.minimumIdenticalBytes
  minimumCallableTokens := minDedupCallableTokens
  minimumRegionTokens := minDedupRegionTokens
  maxDependencyTargets := options.maxDependencyTargets
  maxEdgeSelectors := options.maxEdgeSelectors
  maxModuleExports := options.maxModuleExports
  maxShapeMembers := options.maxShapeMembers
  importantFanIn := options.highImpactThreshold
  documentationRegistry := documentationRegistryPath
  excludedPaths := []

/-! ## Evaluation -/

/-- What an evaluation finds, before a report is made of it. -/
structure GraphEvaluation where
  beforeProjection : Projection
  afterProjection : Projection
  introducedCycles : List IntroducedCycle
  introducedDuplicates : List IntroducedDuplicate
  interfaceFindings : List InterfaceFinding
  findingsTruncated : Bool
  dedupCoverage : DedupCoverage
  dedupIssues : List SenseIssue
  observations : SenseObservations

/-- Files that were not read count as unsupported. -/
def addUnsupportedCoverage (projection : Projection) (files : Nat) : Projection :=
  { projection with
    coverage :=
      { projection.coverage with
        files := projection.coverage.files + files
        unsupportedFiles := projection.coverage.unsupportedFiles + files }
    interfaceCoverage :=
      { projection.interfaceCoverage with
        files := projection.interfaceCoverage.files + files
        unsupportedFiles := projection.interfaceCoverage.unsupportedFiles + files } }

section

variable [Sha256]

namespace SenseRequest

variable (request : SenseRequest) (facts : RequestFacts)

def pairInput : PairInput where
  before := request.before
  after := request.after
  fileFacts := facts.fileFacts
  parserOptions := facts.parserOptions
  interfacePaths := request.changedPaths
  goModules := request.goModules

def beforeProjection : Projection :=
  addUnsupportedCoverage (projectPair (request.pairInput facts)).1 request.beforeUnsupportedFiles

def afterProjection : Projection :=
  addUnsupportedCoverage (projectPair (request.pairInput facts)).2.1 request.afterUnsupportedFiles

/-- The logical paths of the change. -/
def logicalChangedPaths : BTreeSet RepoPath := (projectPair (request.pairInput facts)).2.2

def viewsMatch : Bool :=
  request.before.id = request.after.id && request.goModules.before = request.goModules.after

def continuity : BTreeMap RepoPath RepoPath :=
  if request.viewsMatch then ∅ else exactPathContinuity request.before request.after

/-- The first view under the names its files have in the second. -/
def comparisonBefore : Projection :=
  if request.continuity.isEmpty then request.beforeProjection facts
  else canonicalize (request.beforeProjection facts) request.continuity

/-- Every cycle that is new, before any bound. -/
def allCycles : List IntroducedCycle :=
  if request.viewsMatch then []
  else introducedCycles (request.comparisonBefore facts) (request.afterProjection facts)

def metricInputs : MetricInputs where
  before := request.comparisonBefore facts
  after := request.afterProjection facts
  changedPaths := request.logicalChangedPaths facts
  continuity := request.continuity
  highImpactThreshold := request.options.highImpactThreshold
  maxDependencyTargets := request.options.maxDependencyTargets
  maxEdgeSelectors := request.options.maxEdgeSelectors
  maxModuleExports := request.options.maxModuleExports
  maxShapeMembers := request.options.maxShapeMembers

def dedupInputs (findingLimit : Nat) : DedupInputs where
  before := request.before
  after := request.after
  fileFacts := facts.fileFacts
  factKeys := facts.factKeys
  changedPaths := request.changedPaths
  continuity := request.continuity
  minimumIdenticalBytes := request.options.minimumIdenticalBytes
  findingLimit := findingLimit

end SenseRequest

variable [Base64]

/-- Cycles, duplicates and interface findings, each with the room the earlier ones left. -/
def evaluateGraph (request : SenseRequest) (facts : RequestFacts) : GraphEvaluation :=
  let allCycles := request.allCycles facts
  let introducedCycles := allCycles.take maxSenseFindings
  let metrics := collect (request.metricInputs facts)
  let dedup := introducedDuplicates
    (request.dedupInputs facts (maxSenseFindings - introducedCycles.length))
  let interfaceBudget := maxSenseFindings - introducedCycles.length - dedup.findings.length
  { beforeProjection := request.beforeProjection facts
    afterProjection := request.afterProjection facts
    introducedCycles
    introducedDuplicates := dedup.findings
    interfaceFindings := metrics.interfaceFindings.take interfaceBudget
    findingsTruncated := maxSenseFindings < allCycles.length || dedup.findingsTruncated
      || interfaceBudget < metrics.interfaceFindings.length
    dedupCoverage := dedup.coverage
    dedupIssues := dedup.issues
    observations := metrics.observations }

/-! ## The report -/

omit [Base64] in
def graphViewId (snapshot : SourceSnapshot) (moduleFiles : BTreeMap RepoPath Str) : Str :=
  if moduleFiles.isEmpty then hexEncode snapshot.id
  else
    let manifest := moduleFiles.entries.flatMap fun (path, bytes) =>
      be64 path.bytes.length ++ path.bytes ++ ContentId.of bytes
    hexEncode (hashDomain (ascii "sense-graph-view/v1") [hexEncode snapshot.id, manifest])

omit [Base64] in
/-- One view in numbers. -/
def graphSummary (snapshot : SourceSnapshot) (moduleFiles : BTreeMap RepoPath Str)
    (projection : Projection) : GraphViewSummary :=
  let runtimeEdges := projection.runtimeEdges.length
  let structuralEdges := projection.edges.elems.countP fun edge => edge.kind = .structural
  { viewId := graphViewId snapshot moduleFiles
    files := projection.coverage.files
    runtimeEdges
    typeOnlyEdges := projection.edges.size - runtimeEdges - structuralEdges
    structuralEdges
    coverage := projection.coverage
    resolutionGaps := projection.resolutionGaps.elems
    resolutionGapsTruncated := projection.resolutionGapsTruncated
    interfaceEdges := projection.interfaceEdges.size
    interfaceCoverage := projection.interfaceCoverage }

namespace GraphEvaluation

omit [Sha256] [Base64] in
def truncation (graph : GraphEvaluation) : ReportTruncation where
  findings := graph.findingsTruncated
  observations := graph.observations.truncated
  impact := graph.observations.impactTruncated

omit [Sha256] [Base64] in
def statusInputs (graph : GraphEvaluation) : StatusInputs where
  before := graph.beforeProjection
  after := graph.afterProjection
  hasFindings := !graph.introducedCycles.isEmpty || !graph.introducedDuplicates.isEmpty
    || !graph.interfaceFindings.isEmpty
  truncation := graph.truncation
  dedup := graph.dedupCoverage

omit [Base64] in
def issueInputs (graph : GraphEvaluation) (request : SenseRequest) : IssueInputs where
  findingsTruncated := graph.truncation.findings
  observationsTruncated := graph.truncation.observations
  impactTruncated := graph.truncation.impact
  dedup := graph.dedupCoverage
  dedupIssues := graph.dedupIssues
  before := graphSummary request.before request.goModules.before graph.beforeProjection
  after := graphSummary request.after request.goModules.after graph.afterProjection

end GraphEvaluation

omit [Base64] in
/-- The report of an evaluation; what was measured on the way is given. -/
def buildReport (request : SenseRequest) (graph : GraphEvaluation) (timing : SenseTiming)
    (cache : CacheMetadata) : SenseReport where
  status := senseStatus graph.statusInputs
  issues := reportIssues (graph.issueInputs request)
  introducedCycles := graph.introducedCycles
  introducedDuplicates := graph.introducedDuplicates
  interfaceFindings := graph.interfaceFindings
  documentationRequirements := []
  findingsTruncated := graph.findingsTruncated
  dedupCoverage := graph.dedupCoverage
  documentationCoverage := {}
  observations := graph.observations
  effectivePolicy := effectivePolicy request.options
  before := graphSummary request.before request.goModules.before graph.beforeProjection
  after := graphSummary request.after request.goModules.after graph.afterProjection
  changedFiles := request.changedPaths.size + request.unsupportedChangedFiles
    + request.dependencyMetadataChangedFiles
  validAsOf := request.validAsOf
  provider := {}
  timing := timing
  cache := cache

/-! ## Status and issues -/

omit [Base64] in
theorem incompleteCoverage_eq_summary (snapshot : SourceSnapshot)
    (moduleFiles : BTreeMap RepoPath Str) (projection : Projection) :
    incompleteCoverage projection = (incompleteSummary (graphSummary snapshot moduleFiles projection)
      || decide (0 < projection.interfaceCoverage.truncatedPublicSurfaces)) :=
  incompleteCoverage_eq projection (graphSummary snapshot moduleFiles projection) rfl rfl

section Explained

omit [Base64]

variable {request : SenseRequest} {graph : GraphEvaluation} {timing : SenseTiming}
  {cache : CacheMetadata}

/-- What makes an evaluation incomplete. -/
theorem status_buildReport_iff :
    (buildReport request graph timing cache).status = .incomplete ↔
      graph.findingsTruncated = true ∨ graph.observations.truncated = true
      ∨ (incompleteSummary (graph.issueInputs request).before = true
        ∨ 0 < graph.beforeProjection.interfaceCoverage.truncatedPublicSurfaces)
      ∨ (incompleteSummary (graph.issueInputs request).after = true
        ∨ 0 < graph.afterProjection.interfaceCoverage.truncatedPublicSurfaces)
      ∨ incompleteDedup graph.dedupCoverage = true := by
  show senseStatus graph.statusInputs = .incomplete ↔ _
  rw [senseStatus_eq_incomplete_iff, statusIncomplete]
  simp only [GraphEvaluation.statusInputs, GraphEvaluation.truncation, GraphEvaluation.issueInputs,
    incompleteCoverage_eq_summary request.before request.goModules.before graph.beforeProjection,
    incompleteCoverage_eq_summary request.after request.goModules.after graph.afterProjection,
    Bool.or_eq_true, decide_eq_true_eq, or_assoc]

theorem issues_buildReport_eq_nil_iff :
    (buildReport request graph timing cache).issues = [] ↔ graph.findingsTruncated = false
      ∧ graph.observations.truncated = false ∧ graph.observations.impactTruncated = false
      ∧ incompleteSummary (graph.issueInputs request).before = false
      ∧ incompleteSummary (graph.issueInputs request).after = false
      ∧ incompleteDedup graph.dedupCoverage = false :=
  reportIssues_eq_nil_iff

/-- No issue but that of the reverse impact is reported of a complete evaluation. -/
theorem status_of_mem_issues {issue : SenseIssue}
    (h : issue ∈ (buildReport request graph timing cache).issues)
    (hne : issue ≠ impactTruncatedIssue) :
    (buildReport request graph timing cache).status = .incomplete := by
  have hcause : graph.findingsTruncated = true ∨ graph.observations.truncated = true
      ∨ incompleteSummary (graph.issueInputs request).before = true
      ∨ incompleteSummary (graph.issueInputs request).after = true
      ∨ incompleteDedup graph.dedupCoverage = true := cause_of_mem_reportIssues h hne
  rw [status_buildReport_iff]
  tauto

end Explained

/-- The status of an evaluation knows every cause its issues know, and one more: public
    surfaces that were cut off.  The issues explain the status, and are reported with it
    only, exactly when such a surface is not the only cause. -/
theorem incomplete_explained_iff (request : SenseRequest) (facts : RequestFacts)
    (timing : SenseTiming) (cache : CacheMetadata) :
    let graph := evaluateGraph request facts
    let report := buildReport request graph timing cache
    ((report.status = .incomplete → report.issues ≠ [])
        ∧ ∀ issue ∈ report.issues, issue ≠ impactTruncatedIssue → report.status = .incomplete)
      ↔ (0 < graph.beforeProjection.interfaceCoverage.truncatedPublicSurfaces
          ∨ 0 < graph.afterProjection.interfaceCoverage.truncatedPublicSurfaces →
        graph.findingsTruncated = true ∨ graph.observations.truncated = true
          ∨ graph.observations.impactTruncated = true
          ∨ incompleteSummary (graph.issueInputs request).before = true
          ∨ incompleteSummary (graph.issueInputs request).after = true
          ∨ incompleteDedup graph.dedupCoverage = true) := by
  intro graph report
  have hconverse : ∀ issue ∈ report.issues, issue ≠ impactTruncatedIssue →
      report.status = .incomplete := fun issue hmem hne => status_of_mem_issues hmem hne
  rw [and_iff_left hconverse, Ne, issues_buildReport_eq_nil_iff, status_buildReport_iff]
  simp only [← Bool.not_eq_true]
  tauto

end

/-! An edit of a module that lists one name 4097 times in `__all__`.  One more than the bound
on facts was listed, so its public surface is cut off; no import was dropped, so the extraction
itself counts as complete.  The texts stand for two such modules. -/

def listedModule : RepoPath := ⟨ascii "api.py", by decide⟩

def listedFile (text : String) : SourceFile := ⟨listedModule, ascii text, .python, ascii "python"⟩

def listedFacts : FileFacts where
  dependencies := { status := .complete }
  callableFingerprints := { status := .complete }
  regionFingerprints := { status := .complete }
  interfaces :=
    { status := .complete
      publicSurfaceStatus := .truncated
      exports := [⟨ascii "x", .value, .local, .unknown⟩] }

def listedRequest : SenseRequest where
  before := .new [listedFile "before"]
  after := .new [listedFile "after"]
  changedPaths := BTreeSet.ofList [listedModule]

def listedRequestFacts [Sha256] : RequestFacts where
  fileFacts := BTreeMap.ofList
    [(factKey (listedFile "before") [], listedFacts), (factKey (listedFile "after") [], listedFacts)]
  factKeys := (uniqueFiles [] listedRequest.before listedRequest.after).factKeys
  parserOptions := []

theorem listed_incomplete_unexplained :
    letI := identityDigest
    letI := plainBase64
    let report := buildReport listedRequest (evaluateGraph listedRequest listedRequestFacts) {}
      ⟨ascii "memory", 0, 2, 2⟩
    report.status = .incomplete ∧ report.issues = [] := by
  decide +kernel

end Opcore.Sense
