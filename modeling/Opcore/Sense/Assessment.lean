/-
  Opcore.Sense.Assessment

  What the command makes of a report of the engine: the documentation policy is
  evaluated over its important modules, and a report whose coverage is partial
  stops the command unless the gaps are acknowledged.  Node built-ins can be
  acknowledged alone; the command reads off the report whether they are the only
  gap.
-/
import Opcore.Sense.Engine
import Opcore.Sense.Obligations

namespace Opcore.Sense

open Text Collections Metrics Documentation

/-! ## Captures -/

def maxAuxiliaryPaths : Nat := 4097

def registryPath : RepoPath := ⟨documentationRegistryPath, by decide⟩

structure GitAuxiliaryCapture where
  paths : BTreeMap RepoPath AuxiliaryPathState
  validAsOf : Str

structure DocumentationCaptures where
  registry : Option GitAuxiliaryCapture := none
  documents : Option GitAuxiliaryCapture := none

/-- What documentation is read from: exact captures of paths, and the reader of registries. -/
structure DocumentationSource where
  captureAuxiliary : BTreeSet RepoPath → Except Str GitAuxiliaryCapture
  reader : RegistryReader

structure ParsedRegistry where
  state : DocumentationRegistryState
  registry : Option DocumentationRegistry
  error : Option Str

def parseRegistry (reader : RegistryReader) (bytes : Option Str) : ParsedRegistry :=
  match parseOptionalDocumentationRegistry reader bytes with
  | .ok (some registry) => ⟨.valid, some registry, none⟩
  | .ok none => ⟨.missing, none, none⟩
  | .error error => ⟨.invalid, none, some error.message⟩

/-! ## Changes to a report -/

namespace SenseReport

def markIncomplete (report : SenseReport) (code message : Str) : SenseReport :=
  { report with
    status := .incomplete
    issues :=
      if report.issues.any fun issue => issue.code = code then report.issues
      else report.issues ++ [{ code, message }] }

/-- The report is valid as of the captures it rests on. -/
def bindDocumentationFreshness (report : SenseReport) (captures : DocumentationCaptures) :
    SenseReport :=
  match captures.registry with
  | none => report
  | some registry =>
    { report with
      validAsOf := (Json.Value.object
        [(ascii "documents",
            (captures.documents.map fun capture => Json.Value.string capture.validAsOf).getD .null),
          (ascii "kind", .string (ascii "git-sense")),
          (ascii "registry", .string registry.validAsOf),
          (ascii "source", .string report.validAsOf)]).serialize }

/-- The finding budget that the engine left. -/
def findingBudget (report : SenseReport) : Nat :=
  maxSenseFindings - (report.introducedCycles.length + report.introducedDuplicates.length
    + report.interfaceFindings.length)

def documentationPolicy (report : SenseReport) : DocumentationPolicy :=
  ⟨report.effectivePolicy.importantFanIn, report.effectivePolicy.maxModuleExports⟩

end SenseReport

/-! ## Evaluating documentation -/

/-- How far the evaluation of documentation came.  The coverage is what was recorded on the
    way; a failure is bound to the captures that were made unless `bound` is false. -/
inductive DocumentationOutcome where
  | skipped
  | failed (coverage : DocumentationCoverage) (captures : DocumentationCaptures)
      (code message : Str) (bound : Bool)
  | evaluated (coverage : DocumentationCoverage) (captures : DocumentationCaptures)
      (inputs : DocumentationInputs)

/-- The documents that the registry names for the modules that must be documented. -/
def evaluateDocumentationFiles (source : DocumentationSource) (report : SenseReport)
    (coverage : DocumentationCoverage) (captures : DocumentationCaptures)
    (afterRegistry : Option DocumentationRegistry) : DocumentationOutcome :=
  let documentPaths := referencedDocuments report.observations.importantNodes afterRegistry
    report.documentationPolicy
  let coverage := { coverage with documentsRequested := documentPaths.size }
  if maxAuxiliaryPaths < documentPaths.size then
    .failed coverage captures (ascii "documentation_paths_truncated")
      (ascii (toString documentPaths.size ++ " required documentation paths exceed limit "
        ++ toString maxAuxiliaryPaths)) true
  else
    let documents :=
      if documentPaths.isEmpty then .ok none
      else (source.captureAuxiliary documentPaths).map some
    match documents with
    | .error error =>
      .failed coverage captures (ascii "documentation_files_capture_failed")
        (ascii "could not capture exact documentation files: " ++ error) true
    | .ok documents =>
      .evaluated coverage { captures with documents }
        { nodes := report.observations.importantNodes
          afterRegistry
          documents := (documents.map GitAuxiliaryCapture.paths).getD ∅
          policy := report.documentationPolicy
          findingLimit := report.findingBudget }

/-- Read the registry of both views, and the documents it names. -/
def captureDocumentationRegistry (source : DocumentationSource) (report : SenseReport)
    (coverage : DocumentationCoverage) : DocumentationOutcome :=
  match source.captureAuxiliary (BTreeSet.ofList [registryPath]) with
  | .error error =>
    .failed { coverage with beforeRegistry := .unavailable, afterRegistry := .unavailable } {}
      (ascii "documentation_registry_capture_failed")
      (ascii "could not capture exact documentation registry: " ++ error) false
  | .ok capture =>
    match capture.paths.get? registryPath with
    | none =>
      .failed coverage { registry := some capture }
        (ascii "documentation_registry_capture_missing")
        (ascii "exact documentation capture omitted the requested registry path") false
    | some state =>
      let before := parseRegistry source.reader state.before
      let after := parseRegistry source.reader state.after
      let coverage :=
        { coverage with
          beforeRegistry := before.state
          afterRegistry := after.state
          beforeBindings := (before.registry.map fun registry => registry.bindings.length).getD 0
          afterBindings := (after.registry.map fun registry => registry.bindings.length).getD 0 }
      match before.error <|> after.error with
      | some error =>
        .failed coverage { registry := some capture }
          (ascii "documentation_registry_invalid")
          (ascii "documentation registry is invalid in a required view: " ++ error) true
      | none =>
        evaluateDocumentationFiles source report coverage { registry := some capture }
          after.registry

namespace SenseReport

/-- The report with what the documents come to. -/
def withDocumentation (report : SenseReport) (coverage : DocumentationCoverage)
    (result : DocumentationResult) : SenseReport :=
  { report with
    documentationCoverage :=
      { coverage with
        documentsRequested := result.documentsRequested
        beforeDocuments := result.beforeDocuments
        afterDocuments := result.afterDocuments
        changedDocuments := result.changedDocuments
        publicSurfaceCandidates := result.publicSurfaceCandidates
        authoritativePublicSurfaces := result.authoritativePublicSurfaces
        unavailablePublicSurfaces := result.unavailablePublicSurfaces }
    documentationRequirements := result.requirements }

/-- Requirements that were dropped make the report incomplete; others are findings. -/
def recordRequirements (report : SenseReport) (findingsTruncated : Bool) : SenseReport :=
  if findingsTruncated then
    { report with findingsTruncated := true }.markIncomplete findingsTruncatedIssue.code
      findingsTruncatedIssue.message
  else if report.documentationRequirements ≠ [] ∧ report.status = .clean then
    { report with status := .findings }
  else report

def recordCoverageIssues (report : SenseReport) (coverageIssues : List SenseIssue) : SenseReport :=
  if coverageIssues = [] then report
  else
    { report with
      issues := report.issues ++ coverageIssues
      status := if report.status = .incomplete then .incomplete else .partial_ }

end SenseReport

/-- A report with the result of an evaluation. -/
def recordDocumentation (report : SenseReport) (coverage : DocumentationCoverage)
    (result : DocumentationResult) : SenseReport :=
  ((report.withDocumentation coverage result).recordRequirements result.findingsTruncated)
    |>.recordCoverageIssues result.coverageIssues

section

variable [Platform]

/-- Nothing to evaluate, a failure on the way, or the inputs of the policy. -/
def documentationOutcome (source : DocumentationSource) (report : SenseReport) :
    DocumentationOutcome :=
  if report.observations.truncated then
    .failed report.documentationCoverage {} (ascii "documentation_input_truncated")
      (ascii ("documentation policy was not evaluated because important-node observations were "
        ++ "bounded")) false
  else if !needsEvaluation report.observations.importantNodes report.documentationPolicy then .skipped
  else
    captureDocumentationRegistry source report { report.documentationCoverage with evaluated := true }

variable [Sha256]

/-- The report with its documentation part, and the captures behind it. -/
def applyDocumentation (source : DocumentationSource) (report : SenseReport) :
    SenseReport × DocumentationCaptures :=
  match documentationOutcome source report with
  | .skipped => (report, {})
  | .failed coverage captures code message bound =>
    let report := { report with documentationCoverage := coverage }.markIncomplete code message
    (if bound then report.bindDocumentationFreshness captures else report, captures)
  | .evaluated coverage captures inputs =>
    ((recordDocumentation report coverage
        (Documentation.evaluate inputs)).bindDocumentationFreshness captures, captures)

end

/-! ## Enforcement -/

def hasNonBuiltinResolutionGap (coverage : ResolutionCoverage) : Bool :=
  0 < coverage.unsupportedFiles
    || 0 < coverage.parserFailedFiles
    || coverage.nodeBuiltinReferences < coverage.externalReferences
    || 0 < coverage.ambiguousReferences
    || 0 < coverage.unresolvedReferences
    || 0 < coverage.unsupportedDynamicReferences

def hasInterfaceGap (coverage : InterfaceCoverage) : Bool :=
  0 < coverage.partialFiles
    || 0 < coverage.unsupportedFiles
    || 0 < coverage.parserFailedFiles
    || 0 < coverage.partialPublicSurfaces
    || 0 < coverage.unsupportedPublicSurfaces

def hasPartialDedupGap (report : SenseReport) : Bool :=
  0 < report.dedupCoverage.before.unsupportedFiles
    || 0 < report.dedupCoverage.after.unsupportedFiles
    || 0 < report.dedupCoverage.before.parserFailedFiles
    || 0 < report.dedupCoverage.after.parserFailedFiles

def partialOnlyForNodeBuiltins (report : SenseReport) : Bool :=
  let views := [report.before, report.after]
  0 < (views.map fun view => view.coverage.nodeBuiltinReferences).sum
    && (views.all fun view =>
      !hasNonBuiltinResolutionGap view.coverage && !hasInterfaceGap view.interfaceCoverage)
    && !report.observations.impactTruncated
    && !hasPartialDedupGap report
    && report.documentationCoverage.unavailablePublicSurfaces = 0

/-! ## What documentation does to a report -/

/-- The evidence of the engine, which documentation leaves as it is. -/
structure SameEvidence (report final : SenseReport) : Prop where
  introducedCycles : final.introducedCycles = report.introducedCycles
  introducedDuplicates : final.introducedDuplicates = report.introducedDuplicates
  interfaceFindings : final.interfaceFindings = report.interfaceFindings
  dedupCoverage : final.dedupCoverage = report.dedupCoverage
  observations : final.observations = report.observations
  before : final.before = report.before
  after : final.after = report.after

theorem SameEvidence.trans {r₁ r₂ r₃ : SenseReport} (h₁ : SameEvidence r₁ r₂)
    (h₂ : SameEvidence r₂ r₃) : SameEvidence r₁ r₃ where
  introducedCycles := h₂.introducedCycles.trans h₁.introducedCycles
  introducedDuplicates := h₂.introducedDuplicates.trans h₁.introducedDuplicates
  interfaceFindings := h₂.interfaceFindings.trans h₁.interfaceFindings
  dedupCoverage := h₂.dedupCoverage.trans h₁.dedupCoverage
  observations := h₂.observations.trans h₁.observations
  before := h₂.before.trans h₁.before
  after := h₂.after.trans h₁.after

section Recorded

variable {report : SenseReport} {coverage : DocumentationCoverage} {result : DocumentationResult}

/-- Only the freshness of a report is bound to captures. -/
theorem bindDocumentationFreshness_eq (report : SenseReport) (captures : DocumentationCaptures) :
    ∃ validAsOf, report.bindDocumentationFreshness captures = { report with validAsOf } := by
  rw [SenseReport.bindDocumentationFreshness]
  cases captures.registry with
  | none => exact ⟨report.validAsOf, rfl⟩
  | some registry => exact ⟨_, rfl⟩

theorem sameEvidence_recordRequirements (report : SenseReport) (findingsTruncated : Bool) :
    SameEvidence report (report.recordRequirements findingsTruncated) := by
  rw [SenseReport.recordRequirements]
  split_ifs
  · exact ⟨rfl, rfl, rfl, rfl, rfl, rfl, rfl⟩
  · exact ⟨rfl, rfl, rfl, rfl, rfl, rfl, rfl⟩
  · exact ⟨rfl, rfl, rfl, rfl, rfl, rfl, rfl⟩

theorem sameEvidence_recordCoverageIssues (report : SenseReport) (issues : List SenseIssue) :
    SameEvidence report (report.recordCoverageIssues issues) := by
  rw [SenseReport.recordCoverageIssues]
  by_cases hnone : issues = []
  · rw [if_pos hnone]
    exact ⟨rfl, rfl, rfl, rfl, rfl, rfl, rfl⟩
  · rw [if_neg hnone]
    exact ⟨rfl, rfl, rfl, rfl, rfl, rfl, rfl⟩

theorem sameEvidence_recordDocumentation :
    SameEvidence report (recordDocumentation report coverage result) := by
  have hdocumented : SameEvidence report (report.withDocumentation coverage result) :=
    ⟨rfl, rfl, rfl, rfl, rfl, rfl, rfl⟩
  exact (hdocumented.trans (sameEvidence_recordRequirements _ _)).trans
    (sameEvidence_recordCoverageIssues _ _)

theorem unavailable_recordDocumentation :
    (recordDocumentation report coverage result).documentationCoverage.unavailablePublicSurfaces
      = result.unavailablePublicSurfaces := by
  have hrequirements : ((report.withDocumentation coverage result).recordRequirements
      result.findingsTruncated).documentationCoverage.unavailablePublicSurfaces
        = result.unavailablePublicSurfaces := by
    rw [SenseReport.recordRequirements]
    split_ifs
    · rfl
    · rfl
    · rfl
  rw [recordDocumentation, SenseReport.recordCoverageIssues]
  by_cases hnone : result.coverageIssues = []
  · rw [if_pos hnone, hrequirements]
  · rw [if_neg hnone, hrequirements]

/-- The status after an evaluation: what was dropped makes a report incomplete, what could not
    be told makes it partial, and a requirement is a finding. -/
theorem status_recordDocumentation :
    (recordDocumentation report coverage result).status =
      if result.findingsTruncated = true then .incomplete
      else if result.coverageIssues ≠ [] then
        if report.status = .incomplete then .incomplete else .partial_
      else if result.requirements ≠ [] ∧ report.status = .clean then .findings
      else report.status := by
  have hrequirements : ((report.withDocumentation coverage result).recordRequirements
      result.findingsTruncated).status
        = if result.findingsTruncated = true then .incomplete
          else if result.requirements ≠ [] ∧ report.status = .clean then .findings
          else report.status := by
    rw [SenseReport.recordRequirements]
    split_ifs with htruncated hfound hfound' hfound'
    · rfl
    · rfl
    · exact absurd hfound hfound'
    · exact absurd hfound' hfound
    · rfl
  rw [recordDocumentation, SenseReport.recordCoverageIssues]
  by_cases hissues : result.coverageIssues = []
  · rw [if_pos hissues, hrequirements, if_neg (not_not.mpr hissues)]
  · rw [if_neg hissues, if_pos hissues]
    dsimp only
    rw [hrequirements]
    cases htruncated : result.findingsTruncated with
    | true => simp
    | false =>
      by_cases hfound : result.requirements ≠ [] ∧ report.status = .clean
      · simp [hfound]
      · simp [hfound]

end Recorded

/-! ## Built-ins as the only gap -/

/-- The view as it would be without its references to Node built-ins. -/
def withoutBuiltins (projection : Projection) : Projection :=
  { projection with
    coverage :=
      { projection.coverage with
        nodeBuiltinReferences := 0
        externalReferences := projection.coverage.externalReferences
          - projection.coverage.nodeBuiltinReferences } }

def GraphEvaluation.withoutBuiltins (graph : GraphEvaluation) : GraphEvaluation :=
  { graph with
    beforeProjection := Sense.withoutBuiltins graph.beforeProjection
    afterProjection := Sense.withoutBuiltins graph.afterProjection }

section Builtins

variable {projection : Projection} {graph : GraphEvaluation}

theorem partialCoverage_withoutBuiltins_iff :
    partialCoverage (withoutBuiltins projection) = true
      ↔ hasNonBuiltinResolutionGap projection.coverage = true
        ∨ hasInterfaceGap projection.interfaceCoverage = true := by
  rw [partialCoverage, partialInterfaceCoverage, hasNonBuiltinResolutionGap, hasInterfaceGap]
  simp only [Bool.or_eq_true, decide_eq_true_eq]
  simp only [withoutBuiltins, Nat.sub_pos_iff_lt, lt_irrefl, or_false, or_assoc]

theorem withoutBuiltins_of_eq_zero (h : projection.coverage.nodeBuiltinReferences = 0) :
    withoutBuiltins projection = projection := by
  obtain ⟨nodes, edges, coverage, gaps, gapsTruncated, interfaces, interfaceEdges, interface⟩ :=
    projection
  obtain ⟨_, _, _, _, _, _, _, _, _, builtins, _, _, _, _, _, _⟩ := coverage
  dsimp only at h
  subst h
  rfl

theorem statusIncomplete_withoutBuiltins :
    statusIncomplete graph.withoutBuiltins.statusInputs = statusIncomplete graph.statusInputs := rfl

/-- Without built-ins an evaluation is partial for the gaps that the command looks for. -/
theorem statusPartial_withoutBuiltins_iff :
    statusPartial graph.withoutBuiltins.statusInputs = true
      ↔ graph.observations.impactTruncated = true
        ∨ (hasNonBuiltinResolutionGap graph.beforeProjection.coverage = true
          ∨ hasInterfaceGap graph.beforeProjection.interfaceCoverage = true)
        ∨ (hasNonBuiltinResolutionGap graph.afterProjection.coverage = true
          ∨ hasInterfaceGap graph.afterProjection.interfaceCoverage = true)
        ∨ partialDedup graph.dedupCoverage = true := by
  rw [← partialCoverage_withoutBuiltins_iff, ← partialCoverage_withoutBuiltins_iff, statusPartial]
  simp only [Bool.or_eq_true, or_assoc]
  rfl

theorem partialOnlyForNodeBuiltins_iff {report : SenseReport} :
    partialOnlyForNodeBuiltins report = true
      ↔ 0 < report.before.coverage.nodeBuiltinReferences
            + report.after.coverage.nodeBuiltinReferences
        ∧ (¬ hasNonBuiltinResolutionGap report.before.coverage = true
          ∧ ¬ hasInterfaceGap report.before.interfaceCoverage = true)
        ∧ (¬ hasNonBuiltinResolutionGap report.after.coverage = true
          ∧ ¬ hasInterfaceGap report.after.interfaceCoverage = true)
        ∧ ¬ report.observations.impactTruncated = true
        ∧ ¬ partialDedup report.dedupCoverage = true
        ∧ report.documentationCoverage.unavailablePublicSurfaces = 0 := by
  have hdedup : hasPartialDedupGap report = partialDedup report.dedupCoverage := rfl
  rw [partialOnlyForNodeBuiltins, hdedup]
  simp [and_assoc]

variable [Sha256] {request : SenseRequest} {timing : SenseTiming} {cache : CacheMetadata}

/-- The report of an evaluation that is partial: built-ins are the only gap exactly when the
    evaluation without them is not partial. -/
theorem partialOnly_iff_of_partialStatus
    (hstatus : (buildReport request graph timing cache).status = .partial_) :
    (0 < graph.beforeProjection.coverage.nodeBuiltinReferences
            + graph.afterProjection.coverage.nodeBuiltinReferences
        ∧ ¬ statusPartial graph.withoutBuiltins.statusInputs = true)
      ↔ (buildReport request graph.withoutBuiltins timing cache).status ≠ .partial_ := by
  have hengine : statusIncomplete graph.statusInputs = false
      ∧ statusPartial graph.statusInputs = true := senseStatus_eq_partial_iff.mp hstatus
  have hwithout : (buildReport request graph.withoutBuiltins timing cache).status = .partial_
      ↔ statusIncomplete graph.statusInputs = false
        ∧ statusPartial graph.withoutBuiltins.statusInputs = true := senseStatus_eq_partial_iff
  rw [Ne, hwithout, and_iff_right hengine.1]
  refine ⟨And.right, fun hnot => ⟨?_, hnot⟩⟩
  -- without any built-in the evaluation would be the same
  by_contra hnone
  have hsame : graph.withoutBuiltins = graph := by
    rw [GraphEvaluation.withoutBuiltins, withoutBuiltins_of_eq_zero (by omega),
      withoutBuiltins_of_eq_zero (by omega)]
  rw [hsame] at hnot
  exact hnot hengine.2

/-- What the command reads off a report, in terms of the evaluation. -/
theorem partialOnly_iff_of_sameEvidence {report : SenseReport}
    (h : SameEvidence (buildReport request graph timing cache) report) :
    partialOnlyForNodeBuiltins report = true
      ↔ (0 < graph.beforeProjection.coverage.nodeBuiltinReferences
            + graph.afterProjection.coverage.nodeBuiltinReferences
          ∧ ¬ statusPartial graph.withoutBuiltins.statusInputs = true)
        ∧ report.documentationCoverage.unavailablePublicSurfaces = 0 := by
  rw [partialOnlyForNodeBuiltins_iff, statusPartial_withoutBuiltins_iff, h.before, h.after,
    h.observations, h.dedupCoverage]
  simp only [buildReport, graphSummary]
  tauto

/-- Leaving built-ins out does not make an evaluation incomplete. -/
theorem status_withoutBuiltins_ne_incomplete
    (hstatus : (buildReport request graph timing cache).status = .partial_) :
    (buildReport request graph.withoutBuiltins timing cache).status ≠ .incomplete := by
  have hengine : statusIncomplete graph.statusInputs = false
      ∧ statusPartial graph.statusInputs = true := senseStatus_eq_partial_iff.mp hstatus
  intro hincomplete
  have hwithout : statusIncomplete graph.withoutBuiltins.statusInputs = true :=
    senseStatus_eq_incomplete_iff.mp hincomplete
  rw [statusIncomplete_withoutBuiltins, hengine.1] at hwithout
  cases hwithout

end Builtins

section Acknowledged

variable [Sha256] [Platform]

theorem partialOnly_applyDocumentation_iff (request : SenseRequest) (graph : GraphEvaluation)
    (source : DocumentationSource) (timing : SenseTiming) (cache : CacheMetadata)
    (hstatus : (applyDocumentation source (buildReport request graph timing cache)).1.status
      = .partial_) :
    partialOnlyForNodeBuiltins (applyDocumentation source (buildReport request graph timing cache)).1
        = true
      ↔ (applyDocumentation source
            (buildReport request graph.withoutBuiltins timing cache)).1.status ≠ .partial_
        ∧ (applyDocumentation source
            (buildReport request graph.withoutBuiltins timing cache)).1.status ≠ .incomplete := by
  -- documentation goes the same way with and without built-ins
  have hsame : documentationOutcome source (buildReport request graph.withoutBuiltins timing cache)
      = documentationOutcome source (buildReport request graph timing cache) := rfl
  rw [applyDocumentation] at hstatus
  rw [applyDocumentation, applyDocumentation, hsame]
  cases houtcome : documentationOutcome source (buildReport request graph timing cache) with
  | skipped =>
    rw [houtcome] at hstatus
    dsimp only at hstatus ⊢
    rw [partialOnly_iff_of_sameEvidence ⟨rfl, rfl, rfl, rfl, rfl, rfl, rfl⟩,
      partialOnly_iff_of_partialStatus hstatus]
    exact ⟨fun h => ⟨h.1, status_withoutBuiltins_ne_incomplete hstatus⟩, fun h => ⟨h.1, rfl⟩⟩
  | failed coverage captures code message bound =>
    rw [houtcome] at hstatus
    cases bound with
    | true =>
      obtain ⟨validAsOf, hbound⟩ := bindDocumentationFreshness_eq
        (({ buildReport request graph timing cache with
          documentationCoverage := coverage } : SenseReport).markIncomplete code message) captures
      dsimp only at hstatus
      rw [if_pos rfl, hbound] at hstatus
      cases hstatus
    | false => cases hstatus
  | evaluated coverage captures inputs =>
    rw [houtcome] at hstatus
    obtain ⟨validAsOf, hbound⟩ := bindDocumentationFreshness_eq
      (recordDocumentation (buildReport request graph timing cache) coverage
        (Documentation.evaluate inputs)) captures
    obtain ⟨validAsOf', hbound'⟩ := bindDocumentationFreshness_eq
      (recordDocumentation (buildReport request graph.withoutBuiltins timing cache) coverage
        (Documentation.evaluate inputs)) captures
    dsimp only at hstatus ⊢
    rw [hbound] at hstatus ⊢
    rw [hbound']
    dsimp only at hstatus ⊢
    have hevidence : SameEvidence (buildReport request graph timing cache)
        { recordDocumentation (buildReport request graph timing cache) coverage
            (Documentation.evaluate inputs) with validAsOf } :=
      sameEvidence_recordDocumentation.trans ⟨rfl, rfl, rfl, rfl, rfl, rfl, rfl⟩
    rw [partialOnly_iff_of_sameEvidence hevidence]
    dsimp only
    rw [unavailable_recordDocumentation]
    rw [status_recordDocumentation] at hstatus ⊢
    by_cases htruncated : (Documentation.evaluate inputs).findingsTruncated = true
    · rw [if_pos htruncated] at hstatus
      cases hstatus
    rw [if_neg htruncated] at hstatus ⊢
    have hissues := coverageIssues_eq_nil_iff (Bool.not_eq_true _ ▸ htruncated)
    by_cases hnone : (Documentation.evaluate inputs).coverageIssues = []
    · rw [if_neg (not_not.mpr hnone)] at hstatus ⊢
      split_ifs at hstatus with hfound
      rw [partialOnly_iff_of_partialStatus hstatus, and_iff_left (hissues.mp hnone)]
      have hcomplete := status_withoutBuiltins_ne_incomplete hstatus
      split_ifs with hclean
      · simp [hclean.2]
      · exact ⟨fun h => ⟨h, hcomplete⟩, And.left⟩
    · -- a surface that was not available is a gap of its own
      have hunavailable : (Documentation.evaluate inputs).unavailablePublicSurfaces ≠ 0 :=
        hissues.not.mp hnone
      rw [if_pos hnone]
      split_ifs
      · simp [hunavailable]
      · simp [hunavailable]

/-- Built-ins are acknowledged alone: a report that is partial passes for partial because of
    built-ins exactly when the same evidence without them is neither partial nor incomplete. -/
theorem node_builtins_only_iff [Base64] (request : SenseRequest) (facts : RequestFacts)
    (source : DocumentationSource) (timing : SenseTiming) (cache : CacheMetadata) :
    let graph := evaluateGraph request facts
    let report := (applyDocumentation source (buildReport request graph timing cache)).1
    let recomputed := (applyDocumentation source
      (buildReport request graph.withoutBuiltins timing cache)).1
    report.status = .partial_ →
      (partialOnlyForNodeBuiltins report = true
        ↔ recomputed.status ≠ .partial_ ∧ recomputed.status ≠ .incomplete) :=
  partialOnly_applyDocumentation_iff request (evaluateGraph request facts) source timing cache

end Acknowledged

/-! A module that imports a Node built-in. -/

def importingModule : RepoPath := ⟨ascii "files.ts", by decide⟩

def importingFile (text : String) : SourceFile :=
  ⟨importingModule, ascii text, .typeScript, ascii "typescript"⟩

def importingFacts : FileFacts where
  dependencies := { status := .complete, references := [⟨.nodeRuntime, ascii "node:fs", 0⟩] }
  callableFingerprints := { status := .complete }
  regionFingerprints := { status := .complete }
  interfaces := { status := .complete, publicSurfaceStatus := .complete }

def importingRequest : SenseRequest where
  before := .new [importingFile "import 'node:fs'"]
  after := .new [importingFile "import 'node:fs';"]
  changedPaths := BTreeSet.ofList [importingModule]

def importingRequestFacts [Sha256] : RequestFacts where
  fileFacts := BTreeMap.ofList
    [(factKey (importingFile "import 'node:fs'") [], importingFacts),
      (factKey (importingFile "import 'node:fs';") [], importingFacts)]
  factKeys := (uniqueFiles [] importingRequest.before importingRequest.after).factKeys
  parserOptions := []

/-- Nothing can be captured. -/
def noDocumentation : DocumentationSource where
  captureAuxiliary _ := .error (ascii "no repository")
  reader := ⟨fun _ => .error [], fun _ => .error []⟩

abbrev linux : Platform := ⟨ascii "linux", ascii "x86_64"⟩

theorem node_builtins_only_importing :
    letI := identityDigest
    letI := plainBase64
    letI := linux
    let graph := evaluateGraph importingRequest importingRequestFacts
    let report := (applyDocumentation noDocumentation
      (buildReport importingRequest graph {} ⟨ascii "memory", 0, 2, 2⟩)).1
    let recomputed := (applyDocumentation noDocumentation
      (buildReport importingRequest graph.withoutBuiltins {} ⟨ascii "memory", 0, 2, 2⟩)).1
    report.status = .partial_ ∧ partialOnlyForNodeBuiltins report = true
      ∧ recomputed.status ≠ .partial_ ∧ recomputed.status ≠ .incomplete := by
  have hiff := @node_builtins_only_iff identityDigest linux plainBase64 importingRequest
    (@importingRequestFacts identityDigest) noDocumentation {} ⟨ascii "memory", 0, 2, 2⟩
  dsimp only at hiff ⊢
  refine ⟨?status, ?only, (hiff ?status).mp ?only⟩
  case status => decide +kernel
  case only => decide +kernel

end Opcore.Sense
