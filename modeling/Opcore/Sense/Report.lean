/-
  Opcore.Sense.Report

  The report of a comparison of two views: the findings, the observations beside
  them, what each view was covered by, and the issues and the status that say how
  much of it was looked at.  Status and issues are computed by two families of
  predicates, one over the projections and one over their summaries.
-/
import Opcore.Sense.Dedup.Duplicates
import Opcore.Sense.Documentation
import Opcore.Sense.Metrics.Impact

namespace Opcore.Documentation

open Text Collections Metrics

def documentationRegistryPath : Str := ascii ".opcore.json"

instance : LinearOrder DocumentationReason :=
  LinearOrder.lift' DocumentationReason.ctorIdx
    (Function.LeftInverse.injective DocumentationReason.ofNat_ctorIdx)

structure DocumentationRequirement where
  code : Str
  path : RepoPath
  beforePath : Option RepoPath
  document : Option RepoPath
  reasons : List DocumentationReason
  deriving DecidableEq

instance : LinearOrder DocumentationRequirement :=
  LinearOrder.lift' (fun r : DocumentationRequirement =>
    toLex (r.code, toLex (r.path, toLex (optionKey r.beforePath,
      toLex (optionKey r.document, r.reasons))))) (by
    rintro ⟨c₁, p₁, b₁, d₁, r₁⟩ ⟨c₂, p₂, b₂, d₂, r₂⟩ h
    simpa using h)

inductive DocumentationRegistryState where
  | notRead
  | missing
  | valid
  | invalid
  | unavailable
  deriving DecidableEq

structure DocumentationCoverage where
  evaluated : Bool := false
  beforeRegistry : DocumentationRegistryState := .notRead
  afterRegistry : DocumentationRegistryState := .notRead
  beforeBindings : Nat := 0
  afterBindings : Nat := 0
  documentsRequested : Nat := 0
  beforeDocuments : Nat := 0
  afterDocuments : Nat := 0
  changedDocuments : Nat := 0
  publicSurfaceCandidates : Nat := 0
  authoritativePublicSurfaces : Nat := 0
  unavailablePublicSurfaces : Nat := 0
  deriving DecidableEq

end Opcore.Documentation

namespace Opcore.Sense

open Text Collections Metrics Documentation

/-! ## Data of a report -/

structure DirectDependencyDelta where
  path : RepoPath
  deleted : Bool
  beforeRuntime : Nat
  afterRuntime : Nat
  runtimeDelta : Int
  beforeTypeOnly : Nat
  afterTypeOnly : Nat
  typeOnlyDelta : Int
  beforeStructural : Nat
  afterStructural : Nat
  structuralDelta : Int
  deriving DecidableEq

structure SenseObservations where
  dependencyDeltas : List DirectDependencyDelta := []
  impact : List ImpactObservation := []
  highImpactChanges : List HighImpactChange := []
  interfaces : List InterfaceDelta := []
  importantNodes : List ImportantNodeObservation := []
  impactTruncated : Bool := false
  truncated : Bool := false
  deriving DecidableEq

inductive SenseStatus where
  | clean
  | findings
  | partial_
  | incomplete
  deriving DecidableEq

structure EffectiveSensePolicy where
  minimumIdenticalBytes : Nat
  minimumCallableTokens : Nat
  minimumRegionTokens : Nat
  maxDependencyTargets : Nat
  maxEdgeSelectors : Nat
  maxModuleExports : Nat
  maxShapeMembers : Nat
  importantFanIn : Nat
  documentationRegistry : Str
  excludedPaths : List RepoPath
  deriving DecidableEq

structure GraphViewSummary where
  viewId : Str
  files : Nat
  runtimeEdges : Nat
  typeOnlyEdges : Nat
  structuralEdges : Nat
  coverage : ResolutionCoverage
  resolutionGaps : List ResolutionGapEvidence
  resolutionGapsTruncated : Bool
  interfaceEdges : Nat
  interfaceCoverage : InterfaceCoverage
  deriving DecidableEq

structure SenseTiming where
  totalUs : Nat := 0
  captureUs : Nat := 0
  factsUs : Nat := 0
  resolutionUs : Nat := 0
  cyclesUs : Nat := 0
  observationsUs : Nat := 0
  dedupUs : Nat := 0
  documentationUs : Nat := 0
  renderUs : Nat := 0
  uniqueFilesAnalyzed : Nat := 0
  uniqueSourceBytes : Nat := 0
  deriving DecidableEq

structure ProviderMetadata where
  name : Str := ascii "opcore"
  version : Str := ascii "0.3.3"
  factAbi : Str := Opcore.factAbi
  deriving DecidableEq

structure CacheMetadata where
  state : Str
  hits : Nat := 0
  misses : Nat := 0
  writes : Nat := 0
  deriving DecidableEq

structure SenseReport where
  status : SenseStatus
  issues : List SenseIssue
  introducedCycles : List IntroducedCycle
  introducedDuplicates : List IntroducedDuplicate
  interfaceFindings : List InterfaceFinding
  documentationRequirements : List DocumentationRequirement
  findingsTruncated : Bool
  dedupCoverage : DedupCoverage
  documentationCoverage : DocumentationCoverage
  observations : SenseObservations
  effectivePolicy : EffectiveSensePolicy
  before : GraphViewSummary
  after : GraphViewSummary
  changedFiles : Nat
  validAsOf : Str
  provider : ProviderMetadata
  timing : SenseTiming
  cache : CacheMetadata
  deriving DecidableEq

/-! ## Status -/

/-- What was cut off from a report because of a bound. -/
structure ReportTruncation where
  findings : Bool
  observations : Bool
  impact : Bool

structure StatusInputs where
  before : Projection
  after : Projection
  hasFindings : Bool
  truncation : ReportTruncation
  dedup : DedupCoverage

def incompleteCoverage (projection : Projection) : Bool :=
  0 < projection.coverage.truncatedFiles
    || 0 < projection.coverage.configurationErrors
    || projection.coverage.edgesTruncated
    || 0 < projection.interfaceCoverage.truncatedFiles
    || 0 < projection.interfaceCoverage.truncatedPublicSurfaces
    || projection.interfaceCoverage.selectorsTruncated

def partialInterfaceCoverage (projection : Projection) : Bool :=
  0 < projection.interfaceCoverage.partialFiles
    || 0 < projection.interfaceCoverage.unsupportedFiles
    || 0 < projection.interfaceCoverage.parserFailedFiles
    || 0 < projection.interfaceCoverage.partialPublicSurfaces
    || 0 < projection.interfaceCoverage.unsupportedPublicSurfaces

def partialCoverage (projection : Projection) : Bool :=
  0 < projection.coverage.unsupportedFiles
    || 0 < projection.coverage.parserFailedFiles
    || 0 < projection.coverage.nodeBuiltinReferences
    || 0 < projection.coverage.externalReferences
    || 0 < projection.coverage.ambiguousReferences
    || 0 < projection.coverage.unresolvedReferences
    || 0 < projection.coverage.unsupportedDynamicReferences
    || partialInterfaceCoverage projection

def partialDedup (coverage : DedupCoverage) : Bool :=
  0 < coverage.before.unsupportedFiles
    || 0 < coverage.after.unsupportedFiles
    || 0 < coverage.before.parserFailedFiles
    || 0 < coverage.after.parserFailedFiles

def statusIncomplete (inputs : StatusInputs) : Bool :=
  inputs.truncation.findings
    || inputs.truncation.observations
    || incompleteCoverage inputs.before
    || incompleteCoverage inputs.after
    || incompleteDedup inputs.dedup

def statusPartial (inputs : StatusInputs) : Bool :=
  inputs.truncation.impact
    || partialCoverage inputs.before
    || partialCoverage inputs.after
    || partialDedup inputs.dedup

def senseStatus (inputs : StatusInputs) : SenseStatus :=
  if statusIncomplete inputs then .incomplete
  else if statusPartial inputs then .partial_
  else if inputs.hasFindings then .findings
  else .clean

theorem senseStatus_eq_incomplete_iff {inputs : StatusInputs} :
    senseStatus inputs = .incomplete ↔ statusIncomplete inputs = true := by
  rw [senseStatus]
  split_ifs <;> simp_all

theorem senseStatus_eq_partial_iff {inputs : StatusInputs} :
    senseStatus inputs = .partial_
      ↔ statusIncomplete inputs = false ∧ statusPartial inputs = true := by
  rw [senseStatus]
  split_ifs <;> simp_all

/-! ## Issues -/

structure IssueInputs where
  findingsTruncated : Bool
  observationsTruncated : Bool
  impactTruncated : Bool
  dedup : DedupCoverage
  dedupIssues : List SenseIssue
  before : GraphViewSummary
  after : GraphViewSummary

def incompleteSummary (summary : GraphViewSummary) : Bool :=
  0 < summary.coverage.truncatedFiles
    || 0 < summary.coverage.configurationErrors
    || summary.coverage.edgesTruncated
    || 0 < summary.interfaceCoverage.truncatedFiles
    || summary.interfaceCoverage.selectorsTruncated

def findingsTruncatedIssue : SenseIssue :=
  { code := ascii "findings_truncated"
    message := ascii "sense findings exceeded the report bound" }

def observationsTruncatedIssue : SenseIssue :=
  { code := ascii "observations_truncated"
    message := ascii "sense observations exceeded the report bound" }

def impactTruncatedIssue : SenseIssue :=
  { code := ascii "impact_truncated"
    message := ascii "reverse-impact traversal reached its request-wide edge-visit bound" }

def graphTruncatedIssue : SenseIssue :=
  { code := ascii "graph_truncated"
    message := ascii ("dependency/interface facts or confirmed edges/selectors exceeded a "
      ++ "resource bound") }

def dedupTruncatedIssue : SenseIssue :=
  { code := ascii "dedup_truncated"
    message := ascii ("duplicate fingerprint extraction, request collection, or exact comparison "
      ++ "exceeded a resource bound") }

/-- The issue of a cause that may be there or not. -/
def issueIf (cause : Bool) (issue : SenseIssue) : List SenseIssue := if cause then [issue] else []

def dedupReportIssues (inputs : IssueInputs) : List SenseIssue :=
  if incompleteDedup inputs.dedup then
    if inputs.dedupIssues.isEmpty then [dedupTruncatedIssue] else inputs.dedupIssues
  else []

def reportIssues (inputs : IssueInputs) : List SenseIssue :=
  issueIf inputs.findingsTruncated findingsTruncatedIssue
    ++ issueIf inputs.observationsTruncated observationsTruncatedIssue
    ++ issueIf inputs.impactTruncated impactTruncatedIssue
    ++ issueIf (incompleteSummary inputs.before || incompleteSummary inputs.after)
      graphTruncatedIssue
    ++ dedupReportIssues inputs

@[simp] theorem mem_issueIf {cause : Bool} {issue other : SenseIssue} :
    other ∈ issueIf cause issue ↔ cause = true ∧ other = issue := by
  cases cause <;> simp [issueIf]

variable {inputs : IssueInputs}

theorem dedupReportIssues_eq_nil_iff :
    dedupReportIssues inputs = [] ↔ incompleteDedup inputs.dedup = false := by
  rw [dedupReportIssues]
  split_ifs with hincomplete hempty
  · simp [hincomplete]
  · simpa [hincomplete] using hempty
  · simpa using hincomplete

theorem incompleteDedup_of_mem {issue : SenseIssue}
    (h : issue ∈ dedupReportIssues inputs) : incompleteDedup inputs.dedup = true := by
  have hne : dedupReportIssues inputs ≠ [] := List.ne_nil_of_mem h
  rw [Ne, dedupReportIssues_eq_nil_iff, Bool.not_eq_false] at hne
  exact hne

/-- A report carries no issue exactly when none of the causes is there. -/
theorem reportIssues_eq_nil_iff :
    reportIssues inputs = [] ↔ inputs.findingsTruncated = false
      ∧ inputs.observationsTruncated = false ∧ inputs.impactTruncated = false
      ∧ incompleteSummary inputs.before = false ∧ incompleteSummary inputs.after = false
      ∧ incompleteDedup inputs.dedup = false := by
  have hif : ∀ (cause : Bool) (issue : SenseIssue), issueIf cause issue = [] ↔ cause = false := by
    intro cause issue
    cases cause <;> simp [issueIf]
  rw [reportIssues, List.append_eq_nil_iff, List.append_eq_nil_iff, List.append_eq_nil_iff,
    List.append_eq_nil_iff, hif, hif, hif, hif, dedupReportIssues_eq_nil_iff, Bool.or_eq_false_iff]
  tauto

/-- Every issue but that of the reverse impact stands for a loss of evidence. -/
theorem cause_of_mem_reportIssues {issue : SenseIssue}
    (h : issue ∈ reportIssues inputs) (hne : issue ≠ impactTruncatedIssue) :
    inputs.findingsTruncated = true ∨ inputs.observationsTruncated = true
      ∨ incompleteSummary inputs.before = true ∨ incompleteSummary inputs.after = true
      ∨ incompleteDedup inputs.dedup = true := by
  simp only [reportIssues, List.mem_append, mem_issueIf, Bool.or_eq_true] at h
  rcases h with (((⟨h, -⟩ | ⟨h, -⟩) | ⟨-, rfl⟩) | ⟨h, -⟩) | h
  · exact .inl h
  · exact .inr (.inl h)
  · exact absurd rfl hne
  · exact .inr (.inr (h.elim .inl fun h => .inr (.inl h)))
  · exact .inr (.inr (.inr (.inr (incompleteDedup_of_mem h))))

/-! ## Summaries -/

/-- The one cause of incompleteness that a summary is not asked for. -/
theorem incompleteCoverage_eq (projection : Projection) (summary : GraphViewSummary)
    (hcoverage : summary.coverage = projection.coverage)
    (hinterface : summary.interfaceCoverage = projection.interfaceCoverage) :
    incompleteCoverage projection = (incompleteSummary summary
      || decide (0 < summary.interfaceCoverage.truncatedPublicSurfaces)) := by
  rw [incompleteCoverage, incompleteSummary, hcoverage, hinterface]
  cases projection.coverage.edgesTruncated <;>
    cases projection.interfaceCoverage.selectorsTruncated <;> simp [Bool.or_comm]

end Opcore.Sense
