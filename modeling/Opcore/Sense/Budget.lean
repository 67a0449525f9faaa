/-
  Opcore.Sense.Budget

  The budget of findings.  Cycles, duplicates, interface findings, documentation
  requirements and documentation coverage issues draw on one bound, in this order;
  each category is given what those before it left.
-/
import Opcore.Sense.Assessment
import Opcore.Sense.Dedup.FindingLimit
import Opcore.Sense.Dedup.LimitIssues

namespace Opcore.Sense

open Text Collections Metrics Documentation

/-! ## What the categories found -/

/-- The documentation requirements that an evaluation found, before any bound. -/
def DocumentationOutcome.requirements [Sha256] [Platform] :
    DocumentationOutcome → List DocumentationRequirement
  | .evaluated _ _ inputs => allRequirements inputs
  | _ => []

/-- The documentation coverage issues that an evaluation found, before any bound. -/
def DocumentationOutcome.coverageIssues [Sha256] [Platform] : DocumentationOutcome → List SenseIssue
  | .evaluated _ _ inputs => allCoverageIssues inputs
  | _ => []

/-- The documentation coverage issues of a report. -/
def SenseReport.documentationIssues (report : SenseReport) : List SenseIssue :=
  report.issues.filter fun issue => issue.code = publicSurfaceUnavailableCode

/-- Each category of a report is the beginning of what was found, as far as the earlier ones
    leave room. -/
structure WithinBudget (report : SenseReport) (cycles : List IntroducedCycle)
    (duplicates : List IntroducedDuplicate) (interfaces : List InterfaceFinding)
    (requirements : List DocumentationRequirement) (issues : List SenseIssue) : Prop where
  cyclesKept : report.introducedCycles = cycles.take maxSenseFindings
  duplicatesKept : report.introducedDuplicates
    = duplicates.take (maxSenseFindings - report.introducedCycles.length)
  interfacesKept : report.interfaceFindings
    = interfaces.take (maxSenseFindings - report.introducedCycles.length
      - report.introducedDuplicates.length)
  requirementsKept : report.documentationRequirements
    = requirements.take (maxSenseFindings - report.introducedCycles.length
      - report.introducedDuplicates.length - report.interfaceFindings.length)
  issuesKept : report.documentationIssues
    = issues.take (maxSenseFindings - report.introducedCycles.length
      - report.introducedDuplicates.length - report.interfaceFindings.length
      - report.documentationRequirements.length)
  total : report.introducedCycles.length + report.introducedDuplicates.length
      + report.interfaceFindings.length + report.documentationRequirements.length
      + report.documentationIssues.length ≤ maxSenseFindings
  truncated_iff : report.findingsTruncated = true
    ↔ report.introducedCycles ≠ cycles ∨ report.introducedDuplicates ≠ duplicates
      ∨ report.interfaceFindings ≠ interfaces ∨ report.documentationRequirements ≠ requirements
      ∨ report.documentationIssues ≠ issues
  incomplete : report.findingsTruncated = true → report.status = .incomplete

theorem take_ne_self_iff {α : Type*} {l : List α} {n : Nat} : l.take n ≠ l ↔ n < l.length := by
  rw [Ne, List.take_eq_self_iff, not_le]

/-- The five lists, when each is cut at what the earlier ones leave, and the marks agree. -/
theorem withinBudget_of_take {report : SenseReport} {cycles : List IntroducedCycle}
    {duplicates : List IntroducedDuplicate} {interfaces : List InterfaceFinding}
    {requirements : List DocumentationRequirement} {issues : List SenseIssue}
    (hcycles : report.introducedCycles = cycles.take maxSenseFindings)
    (hduplicates : report.introducedDuplicates
      = duplicates.take (maxSenseFindings - cycles.length))
    (hinterfaces : report.interfaceFindings
      = interfaces.take (maxSenseFindings - cycles.length - duplicates.length))
    (hrequirements : report.documentationRequirements
      = requirements.take (maxSenseFindings - cycles.length - duplicates.length
        - interfaces.length))
    (hissues : report.documentationIssues
      = issues.take (maxSenseFindings - cycles.length - duplicates.length - interfaces.length
        - requirements.length))
    (htruncated : report.findingsTruncated = true
      ↔ maxSenseFindings < cycles.length + duplicates.length + interfaces.length
        + requirements.length + issues.length)
    (hincomplete : report.findingsTruncated = true → report.status = .incomplete) :
    WithinBudget report cycles duplicates interfaces requirements issues := by
  have hleft : ∀ n m : Nat, n - min n m = n - m := by omega
  refine ⟨hcycles, ?_, ?_, ?_, ?_, ?_, ?_, hincomplete⟩
  · rw [hduplicates, hcycles, List.length_take, hleft]
  · rw [hinterfaces, hduplicates, hcycles, List.length_take, List.length_take, hleft, hleft]
  · rw [hrequirements, hinterfaces, hduplicates, hcycles, List.length_take, List.length_take,
      List.length_take, hleft, hleft, hleft]
  · rw [hissues, hrequirements, hinterfaces, hduplicates, hcycles, List.length_take,
      List.length_take, List.length_take, List.length_take, hleft, hleft, hleft, hleft]
  · rw [hissues, hrequirements, hinterfaces, hduplicates, hcycles, List.length_take,
      List.length_take, List.length_take, List.length_take, List.length_take]
    omega
  · rw [htruncated, hissues, hrequirements, hinterfaces, hduplicates, hcycles, take_ne_self_iff,
      take_ne_self_iff, take_ne_self_iff, take_ne_self_iff, take_ne_self_iff]
    omega

/-! ## The engine -/

section Engine

variable [Sha256] [Base64] (request : SenseRequest) (facts : RequestFacts)

/-- What the engine keeps of the first three categories. -/
theorem evaluateGraph_within : ∃ duplicates : List IntroducedDuplicate,
    (∀ limit, (introducedDuplicates (request.dedupInputs facts limit)).findings
      = duplicates.take limit)
    ∧ (evaluateGraph request facts).introducedCycles
      = (request.allCycles facts).take maxSenseFindings
    ∧ (evaluateGraph request facts).introducedDuplicates
      = duplicates.take (maxSenseFindings - (request.allCycles facts).length)
    ∧ (evaluateGraph request facts).interfaceFindings
      = (collect (request.metricInputs facts)).interfaceFindings.take
        (maxSenseFindings - (request.allCycles facts).length - duplicates.length)
    ∧ ((evaluateGraph request facts).findingsTruncated = true
      ↔ maxSenseFindings < (request.allCycles facts).length + duplicates.length
        + (collect (request.metricInputs facts)).interfaceFindings.length) := by
  obtain ⟨duplicates, hkept⟩ := introducedDuplicates_keptOf (request.dedupInputs facts 0)
  have hfindings : ∀ limit, (introducedDuplicates (request.dedupInputs facts limit)).findings
      = duplicates.take limit := fun limit => congrArg Prod.fst (hkept limit)
  have hmark : ∀ limit, (introducedDuplicates (request.dedupInputs facts limit)).findingsTruncated
      = decide (limit < duplicates.length) := fun limit => congrArg Prod.snd (hkept limit)
  have hleft : ∀ n m : Nat, n - min n m = n - m := by omega
  refine ⟨duplicates, hfindings, rfl, ?_, ?_, ?_⟩
  · rw [evaluateGraph]
    dsimp only
    rw [hfindings, List.length_take, hleft]
  · rw [evaluateGraph]
    dsimp only
    rw [hfindings, List.length_take, List.length_take, hleft, hleft]
  · rw [evaluateGraph]
    dsimp only
    rw [hfindings, hmark, List.length_take, List.length_take]
    simp only [Bool.or_eq_true, decide_eq_true_eq]
    omega

/-- No issue of the engine is about documentation. -/
theorem code_of_mem_dedupIssues {inputs : DedupInputs} {issue : SenseIssue}
    (h : issue ∈ (introducedDuplicates inputs).issues) :
    issue.code ≠ publicSurfaceUnavailableCode := by
  have hsnapshot : ∀ snapshot views malformed,
      issue ∈ snapshotLimitIssues snapshot inputs.fileFacts inputs.factKeys views malformed →
        issue.code ≠ publicSurfaceUnavailableCode := by
    intro snapshot views malformed hmem
    obtain hcode | hcode | ⟨hcode, -⟩ | ⟨hcode, -⟩ := code_of_mem_render hmem
    · rw [hcode]; decide
    · rw [hcode]; decide
    · rw [hcode]; decide
    · rw [hcode]; decide
  have hcomparison : ∀ s : ComparisonState, issue ∈ s.issues →
      issue.code ≠ publicSurfaceUnavailableCode := by
    intro s hmem
    obtain ⟨hcode, -⟩ | ⟨hcode, -⟩ := code_of_mem_issues hmem
    · rw [hcode]; decide
    · rw [hcode]; decide
  rw [introducedDuplicates] at h
  split_ifs at h
  · rw [identicalSnapshotResult] at h
    obtain h | h := List.mem_append.mp h
    · exact hsnapshot _ _ _ h
    · exact hcomparison _ h
  · obtain h | h := List.mem_append.mp h
    · obtain h | h := List.mem_append.mp h
      · exact hsnapshot _ _ _ h
      · exact hsnapshot _ _ _ h
    · exact hcomparison _ h

theorem documentationIssues_buildReport (timing : SenseTiming) (cache : CacheMetadata) :
    (buildReport request (evaluateGraph request facts) timing cache).documentationIssues = [] := by
  rw [SenseReport.documentationIssues, List.filter_eq_nil_iff]
  intro issue hissue
  have hcode : issue.code ≠ publicSurfaceUnavailableCode := by
    have hmem : issue ∈ reportIssues ((evaluateGraph request facts).issueInputs request) := hissue
    simp only [reportIssues, List.mem_append, mem_issueIf] at hmem
    rcases hmem with (((⟨-, rfl⟩ | ⟨-, rfl⟩) | ⟨-, rfl⟩) | ⟨-, rfl⟩) | hdedup
    · decide
    · decide
    · decide
    · decide
    · rw [dedupReportIssues] at hdedup
      split_ifs at hdedup
      · rw [List.mem_singleton.mp hdedup]
        decide
      · exact code_of_mem_dedupIssues hdedup
      · cases hdedup
  simpa using hcode

end Engine

/-! ## Documentation -/

section Documentation

/-- What a step of documentation can end in: a failure under a code of its own, or an evaluation
    with the budget that the engine left. -/
def DocumentationOutcome.Sound (report : SenseReport) : DocumentationOutcome → Prop
  | .skipped => True
  | .failed _ _ code _ _ => code ≠ publicSurfaceUnavailableCode
  | .evaluated _ _ inputs => inputs.findingLimit = report.findingBudget

variable (source : DocumentationSource)

theorem sound_evaluateDocumentationFiles (report : SenseReport)
    (coverage : DocumentationCoverage) (captures : DocumentationCaptures)
    (afterRegistry : Option DocumentationRegistry) :
    (evaluateDocumentationFiles source report coverage captures afterRegistry).Sound report := by
  rw [evaluateDocumentationFiles]
  dsimp only
  split_ifs
  · show ascii "documentation_paths_truncated" ≠ _
    decide
  · rfl
  · cases source.captureAuxiliary
        (referencedDocuments report.observations.importantNodes afterRegistry
          report.documentationPolicy) with
    | error error =>
      show ascii "documentation_files_capture_failed" ≠ _
      decide
    | ok documents => rfl

theorem sound_captureDocumentationRegistry (report : SenseReport)
    (coverage : DocumentationCoverage) :
    (captureDocumentationRegistry source report coverage).Sound report := by
  rw [captureDocumentationRegistry]
  cases source.captureAuxiliary (BTreeSet.ofList [registryPath]) with
  | error error =>
    show ascii "documentation_registry_capture_failed" ≠ _
    decide
  | ok capture =>
    dsimp only
    cases capture.paths.get? registryPath with
    | none =>
      show ascii "documentation_registry_capture_missing" ≠ _
      decide
    | some state =>
      dsimp only
      cases (parseRegistry source.reader state.before).error
          <|> (parseRegistry source.reader state.after).error with
      | some error =>
        show ascii "documentation_registry_invalid" ≠ _
        decide
      | none => exact sound_evaluateDocumentationFiles _ _ _ _ _

theorem sound_documentationOutcome [Platform] (report : SenseReport) :
    (documentationOutcome source report).Sound report := by
  rw [documentationOutcome]
  split_ifs
  · show ascii "documentation_input_truncated" ≠ _
    decide
  · trivial
  · exact sound_captureDocumentationRegistry _ _ _

variable {report : SenseReport} {coverage : DocumentationCoverage} {result : DocumentationResult}

theorem documentationIssues_markIncomplete {code message : Str}
    (hcode : code ≠ publicSurfaceUnavailableCode) :
    (report.markIncomplete code message).documentationIssues = report.documentationIssues := by
  rw [SenseReport.documentationIssues, SenseReport.documentationIssues, SenseReport.markIncomplete]
  dsimp only
  split_ifs
  · rfl
  · simp [List.filter_append, hcode]

theorem findings_recordDocumentation :
    (recordDocumentation report coverage result).documentationRequirements = result.requirements
      ∧ (recordDocumentation report coverage result).findingsTruncated
        = (report.findingsTruncated || result.findingsTruncated) := by
  have hrequirements : ((report.withDocumentation coverage result).recordRequirements
      result.findingsTruncated).documentationRequirements = result.requirements
        ∧ ((report.withDocumentation coverage result).recordRequirements
          result.findingsTruncated).findingsTruncated
            = (report.findingsTruncated || result.findingsTruncated) := by
    rw [SenseReport.recordRequirements]
    split_ifs with htruncated hfound
    · exact ⟨rfl, by simp [htruncated, SenseReport.markIncomplete]⟩
    · exact ⟨rfl, by simp [htruncated, SenseReport.withDocumentation]⟩
    · exact ⟨rfl, by simp [htruncated, SenseReport.withDocumentation]⟩
  rw [recordDocumentation, SenseReport.recordCoverageIssues]
  by_cases hnone : result.coverageIssues = []
  · rw [if_pos hnone]
    exact hrequirements
  · rw [if_neg hnone]
    exact hrequirements

theorem documentationIssues_recordDocumentation (hreport : report.documentationIssues = [])
    (hcode : ∀ issue ∈ result.coverageIssues, issue.code = publicSurfaceUnavailableCode) :
    (recordDocumentation report coverage result).documentationIssues = result.coverageIssues := by
  have hrequirements : ((report.withDocumentation coverage result).recordRequirements
      result.findingsTruncated).documentationIssues = [] := by
    rw [SenseReport.recordRequirements]
    split_ifs
    · rw [documentationIssues_markIncomplete (by decide)]
      exact hreport
    · exact hreport
    · exact hreport
  rw [recordDocumentation, SenseReport.recordCoverageIssues]
  by_cases hnone : result.coverageIssues = []
  · rw [if_pos hnone, hrequirements, hnone]
  · rw [if_neg hnone, SenseReport.documentationIssues]
    dsimp only
    rw [List.filter_append]
    rw [SenseReport.documentationIssues] at hrequirements
    rw [hrequirements, List.nil_append, List.filter_eq_self]
    exact fun issue hissue => decide_eq_true (hcode issue hissue)

/-- A report that dropped findings stays incomplete. -/
theorem incomplete_recordDocumentation
    (h : report.findingsTruncated = true → report.status = .incomplete)
    (htruncated : (recordDocumentation report coverage result).findingsTruncated = true) :
    (recordDocumentation report coverage result).status = .incomplete := by
  rw [findings_recordDocumentation.2, Bool.or_eq_true] at htruncated
  rw [status_recordDocumentation]
  obtain hengine | hresult := htruncated
  · simp [h hengine]
  · rw [if_pos hresult]

end Documentation

/-! ## The whole budget -/

section Budget

variable [Sha256] [Platform]

theorem withinBudget_applyDocumentation {report : SenseReport} {cycles : List IntroducedCycle}
    {duplicates : List IntroducedDuplicate} {interfaces : List InterfaceFinding}
    (hcycles : report.introducedCycles = cycles.take maxSenseFindings)
    (hduplicates : report.introducedDuplicates
      = duplicates.take (maxSenseFindings - cycles.length))
    (hinterfaces : report.interfaceFindings
      = interfaces.take (maxSenseFindings - cycles.length - duplicates.length))
    (hrequirements : report.documentationRequirements = [])
    (hissues : report.documentationIssues = [])
    (hmark : report.findingsTruncated = true
      ↔ maxSenseFindings < cycles.length + duplicates.length + interfaces.length)
    (hincomplete : report.findingsTruncated = true → report.status = .incomplete)
    (source : DocumentationSource) :
    WithinBudget (applyDocumentation source report).1 cycles duplicates interfaces
      (documentationOutcome source report).requirements
      (documentationOutcome source report).coverageIssues := by
  have hsound := sound_documentationOutcome source report
  rw [applyDocumentation]
  cases houtcome : documentationOutcome source report with
  | skipped =>
    refine withinBudget_of_take hcycles hduplicates hinterfaces ?_ ?_ hmark hincomplete
    · exact hrequirements.trans List.take_nil.symm
    · exact hissues.trans List.take_nil.symm
  | failed coverage captures code message bound =>
    rw [houtcome] at hsound
    obtain ⟨validAsOf, hbound⟩ := bindDocumentationFreshness_eq
      (({ report with documentationCoverage := coverage } : SenseReport).markIncomplete code
        message) captures
    -- A failure changes the status and the captures, and no finding.
    have hfailed : ∃ validAsOf, (if bound then
        (({ report with documentationCoverage := coverage } : SenseReport).markIncomplete code
          message).bindDocumentationFreshness captures
        else ({ report with documentationCoverage := coverage } : SenseReport).markIncomplete code
          message)
        = { ({ report with documentationCoverage := coverage } : SenseReport).markIncomplete code
          message with validAsOf } := by
      cases bound with
      | true => exact ⟨validAsOf, hbound⟩
      | false => exact ⟨report.validAsOf, rfl⟩
    obtain ⟨validAsOf, hfailed⟩ := hfailed
    dsimp only
    rw [hfailed]
    refine withinBudget_of_take hcycles hduplicates hinterfaces ?_ ?_ hmark fun _ => rfl
    · exact hrequirements.trans List.take_nil.symm
    · exact ((documentationIssues_markIncomplete hsound).trans hissues).trans List.take_nil.symm
  | evaluated coverage captures inputs =>
    rw [houtcome] at hsound
    obtain ⟨validAsOf, hbound⟩ := bindDocumentationFreshness_eq
      (recordDocumentation report coverage (Documentation.evaluate inputs)) captures
    have hevidence :=
      @sameEvidence_recordDocumentation report coverage (Documentation.evaluate inputs)
    obtain ⟨hrecorded, hmarked⟩ :=
      @findings_recordDocumentation report coverage (Documentation.evaluate inputs)
    -- The documents get the room that the three lists before them leave.
    have hlimit : inputs.findingLimit
        = maxSenseFindings - cycles.length - duplicates.length - interfaces.length := by
      have hbudget : inputs.findingLimit = report.findingBudget := hsound
      rw [hbudget, SenseReport.findingBudget, hcycles, hduplicates, hinterfaces, List.length_take,
        List.length_take, List.length_take]
      omega
    dsimp only
    rw [hbound]
    refine withinBudget_of_take (hevidence.introducedCycles.trans hcycles)
      (hevidence.introducedDuplicates.trans hduplicates)
      (hevidence.interfaceFindings.trans hinterfaces) ?_ ?_ ?_ ?_
    · rw [← hlimit]
      exact hrecorded.trans (requirements_evaluate inputs)
    · rw [← hlimit]
      exact (documentationIssues_recordDocumentation hissues
        fun issue => code_of_mem_coverageIssues inputs).trans (coverageIssues_evaluate inputs)
    · dsimp only [DocumentationOutcome.requirements, DocumentationOutcome.coverageIssues]
      rw [hmarked, Bool.or_eq_true, findingsTruncated_evaluate_iff, hmark, hlimit]
      omega
    · exact incomplete_recordDocumentation hincomplete

/-- Every category of findings is given what the earlier ones leave of the bound, what is dropped
    is marked, and a report that dropped a finding is incomplete. -/
theorem findings_within_budget [Base64] (request : SenseRequest) (facts : RequestFacts)
    (source : DocumentationSource) (timing : SenseTiming) (cache : CacheMetadata) :
    let engine := buildReport request (evaluateGraph request facts) timing cache
    let outcome := documentationOutcome source engine
    ∃ duplicates : List IntroducedDuplicate,
      (∀ limit, (introducedDuplicates (request.dedupInputs facts limit)).findings
        = duplicates.take limit)
      ∧ WithinBudget (applyDocumentation source engine).1 (request.allCycles facts) duplicates
        (collect (request.metricInputs facts)).interfaceFindings outcome.requirements
        outcome.coverageIssues := by
  intro engine outcome
  obtain ⟨duplicates, hduplicates, hcycles, hkept, hinterfaces, hmark⟩ :=
    evaluateGraph_within request facts
  exact ⟨duplicates, hduplicates, withinBudget_applyDocumentation hcycles hkept hinterfaces rfl
    (documentationIssues_buildReport request facts timing cache) hmark
    (fun h => status_buildReport_iff.mpr (.inl h)) source⟩

end Budget

end Opcore.Sense
