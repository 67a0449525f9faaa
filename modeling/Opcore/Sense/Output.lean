/-
  Opcore.Sense.Output

  What is written of a report.  A report that does not fit the byte bound is marked
  and shrunk, first the details of its findings, then its observations, then the
  findings themselves, until it fits; one that cannot be shrunk any more is replaced
  by a compact failure.
-/
import Opcore.Library.Shortening
import Opcore.Protocol.Framing
import Opcore.Sense.Engine

namespace Opcore.Sense

open Text Metrics Documentation Shortening

/-! ## Rendering -/

/-- How a report is turned into text. -/
structure Renderer where
  /-- `serde_json::to_string`. -/
  toJson : SenseReport → Except Str Str
  humanOutput : SenseReport → Str

def renderOutput (renderer : Renderer) (report : SenseReport) (json : Bool) : Except Str Str :=
  if json then (renderer.toJson report).map (· ++ [newline])
  else .ok (renderer.humanOutput report)

def serializedReportLen (renderer : Renderer) (report : SenseReport) : Except Str Nat :=
  (renderer.toJson report).map (·.length + 1)

/-! ## Shrinking -/

def hasCycleDetails (cycle : IntroducedCycle) : Bool :=
  !cycle.members.isEmpty || !cycle.witness.isEmpty

def clearCycleDetails (cycle : IntroducedCycle) : IntroducedCycle :=
  { cycle with
    membersTruncated := cycle.membersTruncated || !cycle.members.isEmpty
    members := []
    witnessTruncated := cycle.witnessTruncated || !cycle.witness.isEmpty
    witness := [] }

def shrinkCycleDetails (report : SenseReport) : SenseReport × Bool :=
  ({ report with introducedCycles := report.introducedCycles.map clearCycleDetails },
    report.introducedCycles.any hasCycleDetails)

def clearSample (impact : ImpactObservation) : ImpactObservation :=
  { impact with
    sampleTruncated := impact.sampleTruncated || !impact.sample.isEmpty
    sample := [] }

def shrinkImpactSamples (report : SenseReport) : SenseReport × Bool :=
  ({ report with
      observations :=
        { report.observations with impact := report.observations.impact.map clearSample } },
    report.observations.impact.any fun impact => !impact.sample.isEmpty)

def keepFirstOccurrence (duplicate : IntroducedDuplicate) : IntroducedDuplicate :=
  { duplicate with
    occurrencesTruncated := duplicate.occurrencesTruncated || 1 < duplicate.occurrences.length
    occurrences := duplicate.occurrences.take 1 }

def shrinkDuplicateOccurrences (report : SenseReport) : SenseReport × Bool :=
  ({ report with introducedDuplicates := report.introducedDuplicates.map keepFirstOccurrence },
    report.introducedDuplicates.any fun duplicate => 1 < duplicate.occurrences.length)

/-- `max_by_key` over the enumerated lengths: of several longest the last. -/
def lastLongest (lengths : List Nat) : Option (Nat × Nat) :=
  lengths.zipIdx.foldl (fun best entry =>
    match best with
    | some (_, longest) => if longest ≤ entry.1 then some (entry.2, entry.1) else best
    | none => some (entry.2, entry.1)) none

/-- Halve the longest list of observations. -/
def shrinkObservations (observations : SenseObservations) : SenseObservations × Bool :=
  match lastLongest observations.lengths with
  | none => (observations, false)
  | some (index, length) =>
    if length = 0 then (observations, false)
    else
      let keep := length / 2
      let cut : SenseObservations := { observations with truncated := true }
      match index with
      | 0 => ({ cut with dependencyDeltas := observations.dependencyDeltas.take keep }, true)
      | 1 => ({ cut with impact := observations.impact.take keep }, true)
      | 2 => ({ cut with highImpactChanges := observations.highImpactChanges.take keep }, true)
      | 3 => ({ cut with interfaces := observations.interfaces.take keep }, true)
      | 4 => ({ cut with importantNodes := observations.importantNodes.take keep }, true)
      | _ => (observations, false)

/-- `none` where the list is left as it is. -/
def truncateHalf {α : Type*} (items : List α) : Option (List α) :=
  if items.length ≤ 1 then none else some (items.take (items.length / 2))

/-- The first of the four lists that can be halved is. -/
def shrinkFindings (report : SenseReport) : SenseReport × Bool :=
  match truncateHalf report.interfaceFindings with
  | some kept => ({ report with interfaceFindings := kept, findingsTruncated := true }, true)
  | none =>
  match truncateHalf report.documentationRequirements with
  | some kept =>
    ({ report with documentationRequirements := kept, findingsTruncated := true }, true)
  | none =>
  match truncateHalf report.introducedCycles with
  | some kept => ({ report with introducedCycles := kept, findingsTruncated := true }, true)
  | none =>
  match truncateHalf report.introducedDuplicates with
  | some kept => ({ report with introducedDuplicates := kept, findingsTruncated := true }, true)
  | none => (report, false)

/-- One round of shrinking: samples first, then observations, then findings. -/
def shrinkReport (report : SenseReport) : SenseReport × Bool :=
  let cycles := shrinkCycleDetails report
  let impact := shrinkImpactSamples cycles.1
  let occurrences := shrinkDuplicateOccurrences impact.1
  if occurrences.2 || (impact.2 || cycles.2) then (occurrences.1, true)
  else
    let observations := shrinkObservations occurrences.1.observations
    let report := { occurrences.1 with observations := observations.1 }
    if observations.2 then (report, true) else shrinkFindings report

/-! ## The loop -/

def outputTruncatedIssue : SenseIssue :=
  { code := ascii "output_truncated"
    message := ascii "sense evidence exceeded the output byte bound" }

def outputTooLargeIssue : SenseIssue :=
  { code := ascii "output_too_large"
    message := ascii "sense evidence could not fit the output byte bound" }

/-- The issues of a report that is marked as cut. -/
def truncatedIssues (issues : List SenseIssue) : List SenseIssue :=
  if issues.any fun issue => issue.code = outputTruncatedIssue.code then issues
  else issues ++ [outputTruncatedIssue]

def markOutputTruncated (report : SenseReport) : SenseReport :=
  { report with
    status := .incomplete
    observations := { report.observations with truncated := true }
    issues := truncatedIssues report.issues }

/-- A view of which nothing is known. -/
def unavailableView : GraphViewSummary where
  viewId := ascii "unavailable"
  files := 0
  runtimeEdges := 0
  typeOnlyEdges := 0
  structuralEdges := 0
  coverage := {}
  resolutionGaps := []
  resolutionGapsTruncated := false
  interfaceEdges := 0
  interfaceCoverage := {}

/-- The report that only says what went wrong. -/
def incompleteReport (issue : SenseIssue) (totalUs : Nat) : SenseReport where
  status := .incomplete
  issues := [issue]
  introducedCycles := []
  introducedDuplicates := []
  interfaceFindings := []
  documentationRequirements := []
  findingsTruncated := false
  dedupCoverage := {}
  documentationCoverage := {}
  observations := {}
  effectivePolicy := effectivePolicy {}
  before := unavailableView
  after := unavailableView
  changedFiles := 0
  validAsOf := ascii "unavailable"
  provider := {}
  timing := { totalUs }
  cache := { state := ascii "memory" }

/-- What the clock shows in one pass of the loop: twice at its head, and once more where the
    report is replaced. -/
structure ElapsedTimes where
  renderUs : Nat := 0
  totalUs : Nat := 0
  replacedUs : Nat := 0

def SenseReport.withTimes (report : SenseReport) (times : ElapsedTimes) : SenseReport :=
  { report with
    timing := { report.timing with renderUs := times.renderUs, totalUs := times.totalUs } }

structure OutputState where
  report : SenseReport
  replacedOversizeReport : Bool := false
  passes : Nat := 0

/-- The size of what was rendered, and of the assessment when that is another text. -/
def outputSizes (renderer : Renderer) (json : Bool) (report : SenseReport) :
    Except Str (Str × Nat) := do
  let rendered ← renderOutput renderer report json
  let assessmentBytes ← if json then .ok rendered.length else serializedReportLen renderer report
  return (rendered, assessmentBytes)

/-- One pass of the loop: the next state, or what is returned and what became of the report. -/
def outputPass (renderer : Renderer) (json : Bool) (clock : Nat → ElapsedTimes)
    (state : OutputState) : OutputState ⊕ (Except Str Str × SenseReport) :=
  let report := state.report.withTimes (clock state.passes)
  match outputSizes renderer json report with
  | .error error => .inr (.error error, report)
  | .ok (rendered, assessmentBytes) =>
    if rendered.length ≤ maxAssessmentBytes ∧ assessmentBytes ≤ maxAssessmentBytes then
      .inr (.ok rendered, report)
    else
      let shrunk := shrinkReport (markOutputTruncated report)
      if shrunk.2 then
        .inl { state with report := shrunk.1, passes := state.passes + 1 }
      else if state.replacedOversizeReport then
        .inr (.error (ascii "compact sense failure cannot fit the output byte bound"), shrunk.1)
      else
        .inl
          { report := incompleteReport outputTooLargeIssue (clock state.passes).replacedUs
            replacedOversizeReport := true
            passes := state.passes + 1 }

/-- The loop, for at most so many passes; what is returned, and what became of the report. -/
def prepareOutput (renderer : Renderer) (json : Bool) (clock : Nat → ElapsedTimes) (fuel : Nat)
    (report : SenseReport) : Option (Except Str Str × SenseReport) :=
  Loop.runUntil (outputPass renderer json clock) fuel { report }

/-! ## What is left of a report -/

/-- A cycle of which nothing but the listed members and the witness may be missing. -/
structure CycleCut (kept original : IntroducedCycle) : Prop where
  members : CutOff (kept.members, kept.membersTruncated)
    (original.members, original.membersTruncated)
  witness : CutOff (kept.witness, kept.witnessTruncated)
    (original.witness, original.witnessTruncated)
  rest : ({ kept with
        members := [], membersTruncated := true, witness := [], witnessTruncated := true } :
      IntroducedCycle)
    = { original with
        members := [], membersTruncated := true, witness := [], witnessTruncated := true }

/-- A duplicate of which nothing but the listed occurrences may be missing. -/
structure DuplicateCut (kept original : IntroducedDuplicate) : Prop where
  occurrences : CutOff (kept.occurrences, kept.occurrencesTruncated)
    (original.occurrences, original.occurrencesTruncated)
  rest : ({ kept with occurrences := [], occurrencesTruncated := true } : IntroducedDuplicate)
    = { original with occurrences := [], occurrencesTruncated := true }

/-- An impact of which nothing but the sample may be missing. -/
structure ImpactCut (kept original : ImpactObservation) : Prop where
  sample : CutOff (kept.sample, kept.sampleTruncated) (original.sample, original.sampleTruncated)
  rest : ({ kept with sample := [], sampleTruncated := true } : ImpactObservation)
    = { original with sample := [], sampleTruncated := true }

/-- Each list of a report is a beginning of what it was, and what is missing of the details of
    an entry left is flagged. -/
structure ListsShortened (kept original : SenseReport) : Prop where
  introducedCycles : Shortened CycleCut kept.introducedCycles original.introducedCycles
  introducedDuplicates :
    Shortened DuplicateCut kept.introducedDuplicates original.introducedDuplicates
  interfaceFindings : kept.interfaceFindings <+: original.interfaceFindings
  documentationRequirements :
    kept.documentationRequirements <+: original.documentationRequirements
  dependencyDeltas : kept.observations.dependencyDeltas <+: original.observations.dependencyDeltas
  impact : Shortened ImpactCut kept.observations.impact original.observations.impact
  highImpactChanges :
    kept.observations.highImpactChanges <+: original.observations.highImpactChanges
  interfaces : kept.observations.interfaces <+: original.observations.interfaces
  importantNodes : kept.observations.importantNodes <+: original.observations.importantNodes

def SenseReport.findingCount (report : SenseReport) : Nat :=
  report.introducedCycles.length + report.introducedDuplicates.length
    + report.interfaceFindings.length + report.documentationRequirements.length

/-- What of a report neither shrinking nor marking touches. -/
def SenseReport.untouched (report : SenseReport) : SenseReport :=
  { report with
    status := .incomplete
    issues := []
    introducedCycles := []
    introducedDuplicates := []
    interfaceFindings := []
    documentationRequirements := []
    findingsTruncated := true
    observations := { impactTruncated := report.observations.impactTruncated }
    timing := {} }

/-- A report that was shrunk: what is missing is flagged, and all else is as it was. -/
structure ShrunkFrom (kept original : SenseReport) : Prop extends
    ListsShortened kept original where
  findingsTruncated : kept.findingsTruncated
    = (original.findingsTruncated || decide (kept.findingCount < original.findingCount))
  untouched : kept.untouched = original.untouched

/-- A report marked as cut. -/
structure MarkedFrom (kept original : SenseReport) : Prop where
  status : kept.status = .incomplete
  observationsTruncated : kept.observations.truncated = true
  issues : kept.issues = truncatedIssues original.issues

section Shrinking

variable {kept middle original report : SenseReport} (cycle : IntroducedCycle)

theorem CycleCut.refl : CycleCut cycle cycle :=
  ⟨.refl _, .refl _, rfl⟩

theorem CycleCut.trans (a b c : IntroducedCycle) (h₁ : CycleCut a b) (h₂ : CycleCut b c) :
    CycleCut a c :=
  ⟨h₁.members.trans h₂.members, h₁.witness.trans h₂.witness, h₁.rest.trans h₂.rest⟩

variable (duplicate : IntroducedDuplicate)

theorem DuplicateCut.refl : DuplicateCut duplicate duplicate :=
  ⟨.refl _, rfl⟩

theorem DuplicateCut.trans (a b c : IntroducedDuplicate) (h₁ : DuplicateCut a b)
    (h₂ : DuplicateCut b c) : DuplicateCut a c :=
  ⟨h₁.occurrences.trans h₂.occurrences, h₁.rest.trans h₂.rest⟩

variable (impact : ImpactObservation)

theorem ImpactCut.refl : ImpactCut impact impact :=
  ⟨.refl _, rfl⟩

theorem ImpactCut.trans (a b c : ImpactObservation) (h₁ : ImpactCut a b) (h₂ : ImpactCut b c) :
    ImpactCut a c :=
  ⟨h₁.sample.trans h₂.sample, h₁.rest.trans h₂.rest⟩

theorem ListsShortened.refl (report : SenseReport) : ListsShortened report report where
  introducedCycles := shortened_refl CycleCut.refl _
  introducedDuplicates := shortened_refl DuplicateCut.refl _
  interfaceFindings := List.prefix_refl _
  documentationRequirements := List.prefix_refl _
  dependencyDeltas := List.prefix_refl _
  impact := shortened_refl ImpactCut.refl _
  highImpactChanges := List.prefix_refl _
  interfaces := List.prefix_refl _
  importantNodes := List.prefix_refl _

theorem ListsShortened.trans (h₁ : ListsShortened kept middle)
    (h₂ : ListsShortened middle original) : ListsShortened kept original where
  introducedCycles := h₁.introducedCycles.trans CycleCut.trans h₂.introducedCycles
  introducedDuplicates := h₁.introducedDuplicates.trans DuplicateCut.trans h₂.introducedDuplicates
  interfaceFindings := h₁.interfaceFindings.trans h₂.interfaceFindings
  documentationRequirements := h₁.documentationRequirements.trans h₂.documentationRequirements
  dependencyDeltas := h₁.dependencyDeltas.trans h₂.dependencyDeltas
  impact := h₁.impact.trans ImpactCut.trans h₂.impact
  highImpactChanges := h₁.highImpactChanges.trans h₂.highImpactChanges
  interfaces := h₁.interfaces.trans h₂.interfaces
  importantNodes := h₁.importantNodes.trans h₂.importantNodes

theorem ListsShortened.findingCount_le (h : ListsShortened kept original) :
    kept.findingCount ≤ original.findingCount := by
  have hcycles := h.introducedCycles.length_le
  have hduplicates := h.introducedDuplicates.length_le
  have hinterfaces := h.interfaceFindings.length_le
  have hrequirements := h.documentationRequirements.length_le
  rw [SenseReport.findingCount, SenseReport.findingCount]
  omega

theorem ShrunkFrom.trans (h₁ : ShrunkFrom kept middle) (h₂ : ShrunkFrom middle original) :
    ShrunkFrom kept original where
  toListsShortened := h₁.toListsShortened.trans h₂.toListsShortened
  findingsTruncated := by
    have hle₁ := h₁.findingCount_le
    have hle₂ := h₂.findingCount_le
    rw [h₁.findingsTruncated, h₂.findingsTruncated, Bool.or_assoc, ← Bool.decide_or]
    congr 1
    exact decide_eq_decide.mpr (by omega)
  untouched := h₁.untouched.trans h₂.untouched

/-- Where no finding is dropped, only what the lists hold is to be looked at. -/
theorem ShrunkFrom.of_lists (h : ListsShortened kept original)
    (hcount : kept.findingCount = original.findingCount)
    (hflag : kept.findingsTruncated = original.findingsTruncated)
    (huntouched : kept.untouched = original.untouched) : ShrunkFrom kept original where
  toListsShortened := h
  findingsTruncated := by rw [hflag, hcount]; simp
  untouched := huntouched

/-- Where a finding is dropped, the flag is raised. -/
theorem ShrunkFrom.of_lt (h : ListsShortened kept original)
    (hcount : kept.findingCount < original.findingCount) (hflag : kept.findingsTruncated = true)
    (huntouched : kept.untouched = original.untouched) : ShrunkFrom kept original where
  toListsShortened := h
  findingsTruncated := by rw [hflag, decide_eq_true hcount, Bool.or_true]
  untouched := huntouched

theorem ShrunkFrom.refl (report : SenseReport) : ShrunkFrom report report :=
  .of_lists (.refl report) rfl rfl rfl

theorem shrunkFrom_markOutputTruncated (report : SenseReport) :
    ShrunkFrom (markOutputTruncated report) report :=
  .of_lists { ListsShortened.refl report with } rfl rfl rfl

theorem shrunkFrom_withTimes (report : SenseReport) (times : ElapsedTimes) :
    ShrunkFrom (report.withTimes times) report :=
  .of_lists { ListsShortened.refl report with } rfl rfl rfl

/-! ## The four stages -/

theorem decide_zero_lt_length {α : Type*} (l : List α) : decide (0 < l.length) = !l.isEmpty := by
  cases l <;> simp

theorem cutOff_nil {α : Type*} (l : List α) (flag : Bool) :
    CutOff ([], flag || !l.isEmpty) (l, flag) := by
  have hcut := cutOff_take l flag 0
  rwa [List.take_zero, decide_zero_lt_length] at hcut

theorem cycleCut_clearCycleDetails :
    CycleCut (clearCycleDetails cycle) cycle :=
  ⟨cutOff_nil _ _, cutOff_nil _ _, rfl⟩

theorem impactCut_clearSample : ImpactCut (clearSample impact) impact :=
  ⟨cutOff_nil _ _, rfl⟩

theorem duplicateCut_keepFirstOccurrence :
    DuplicateCut (keepFirstOccurrence duplicate) duplicate :=
  ⟨cutOff_take _ _ 1, rfl⟩

theorem shrunkFrom_shrinkCycleDetails (report : SenseReport) :
    ShrunkFrom (shrinkCycleDetails report).1 report := by
  refine .of_lists { ListsShortened.refl report with
    introducedCycles := shortened_map cycleCut_clearCycleDetails _ } ?_ rfl rfl
  rw [SenseReport.findingCount, SenseReport.findingCount, shrinkCycleDetails]
  dsimp only
  rw [List.length_map]

theorem shrunkFrom_shrinkImpactSamples (report : SenseReport) :
    ShrunkFrom (shrinkImpactSamples report).1 report :=
  .of_lists { ListsShortened.refl report with
    impact := shortened_map impactCut_clearSample _ } rfl rfl rfl

theorem shrunkFrom_shrinkDuplicateOccurrences (report : SenseReport) :
    ShrunkFrom (shrinkDuplicateOccurrences report).1 report := by
  refine .of_lists { ListsShortened.refl report with
    introducedDuplicates := shortened_map duplicateCut_keepFirstOccurrence _ } ?_ rfl rfl
  rw [SenseReport.findingCount, SenseReport.findingCount, shrinkDuplicateOccurrences]
  dsimp only
  rw [List.length_map]

theorem getElem?_of_lastLongest {lengths : List Nat} {index length : Nat}
    (h : lastLongest lengths = some (index, length)) : lengths[index]? = some length := by
  have hbest : ∀ best ∈ lastLongest lengths, lengths[best.1]? = some best.2 := by
    rw [lastLongest]
    refine List.foldlRecOn lengths.zipIdx _
      (motive := fun best : Option (Nat × Nat) => ∀ b ∈ best, lengths[b.1]? = some b.2)
      (fun _ hnone => absurd hnone (by simp)) ?_
    rintro best hold ⟨length, index⟩ hentry
    have hget : lengths[index]? = some length := List.mem_zipIdx_iff_getElem?.mp hentry
    intro b hb
    rcases best with _ | ⟨i, longest⟩
    · cases hb
      exact hget
    · dsimp only at hb
      split_ifs at hb with hle
      · cases hb
        exact hget
      · exact hold b hb
  exact hbest _ h

/-- One of the five lists of observations is halved, or all are empty. -/
theorem shrinkObservations_cases (observations : SenseObservations) :
    (∃ n < observations.dependencyDeltas.length, shrinkObservations observations
      = ({ observations with
          dependencyDeltas := observations.dependencyDeltas.take n, truncated := true }, true))
    ∨ (∃ n < observations.impact.length, shrinkObservations observations
      = ({ observations with impact := observations.impact.take n, truncated := true }, true))
    ∨ (∃ n < observations.highImpactChanges.length, shrinkObservations observations
      = ({ observations with
          highImpactChanges := observations.highImpactChanges.take n, truncated := true }, true))
    ∨ (∃ n < observations.interfaces.length, shrinkObservations observations
      = ({ observations with
          interfaces := observations.interfaces.take n, truncated := true }, true))
    ∨ (∃ n < observations.importantNodes.length, shrinkObservations observations
      = ({ observations with
          importantNodes := observations.importantNodes.take n, truncated := true }, true))
    ∨ shrinkObservations observations = (observations, false) := by
  cases hlongest : lastLongest observations.lengths with
  | none =>
    refine .inr (.inr (.inr (.inr (.inr ?_))))
    rw [shrinkObservations, hlongest]
  | some longest =>
    obtain ⟨index, length⟩ := longest
    have hget := getElem?_of_lastLongest hlongest
    by_cases hzero : length = 0
    · refine .inr (.inr (.inr (.inr (.inr ?_))))
      rw [shrinkObservations, hlongest]
      exact if_pos hzero
    -- the length found is that of the list at the index found
    have hhalf : ∀ n, observations.lengths[index]? = some n → length / 2 < n := by
      intro n hn
      cases hget.symm.trans hn
      exact Nat.div_lt_self (Nat.pos_of_ne_zero hzero) (by decide)
    rcases index with _ | _ | _ | _ | _ | index
    · exact .inl ⟨length / 2, hhalf _ rfl, by
        rw [shrinkObservations, hlongest]; exact if_neg hzero⟩
    · exact .inr (.inl ⟨length / 2, hhalf _ rfl, by
        rw [shrinkObservations, hlongest]; exact if_neg hzero⟩)
    · exact .inr (.inr (.inl ⟨length / 2, hhalf _ rfl, by
        rw [shrinkObservations, hlongest]; exact if_neg hzero⟩))
    · exact .inr (.inr (.inr (.inl ⟨length / 2, hhalf _ rfl, by
        rw [shrinkObservations, hlongest]; exact if_neg hzero⟩)))
    · exact .inr (.inr (.inr (.inr (.inl ⟨length / 2, hhalf _ rfl, by
        rw [shrinkObservations, hlongest]; exact if_neg hzero⟩))))
    · rw [SenseObservations.lengths] at hget
      simp at hget

theorem truncateHalf_eq_none_or {α : Type*} (items : List α) :
    truncateHalf items = none
      ∨ ∃ n < items.length, truncateHalf items = some (items.take n) := by
  rw [truncateHalf]
  split_ifs with hle
  · exact .inl rfl
  · exact .inr ⟨_, by omega, rfl⟩

/-- One of the four lists of findings is halved, or none can be. -/
theorem shrinkFindings_cases (report : SenseReport) :
    (∃ n < report.interfaceFindings.length, shrinkFindings report
      = ({ report with
          interfaceFindings := report.interfaceFindings.take n, findingsTruncated := true }, true))
    ∨ (∃ n < report.documentationRequirements.length, shrinkFindings report
      = ({ report with
          documentationRequirements := report.documentationRequirements.take n
          findingsTruncated := true }, true))
    ∨ (∃ n < report.introducedCycles.length, shrinkFindings report
      = ({ report with
          introducedCycles := report.introducedCycles.take n, findingsTruncated := true }, true))
    ∨ (∃ n < report.introducedDuplicates.length, shrinkFindings report
      = ({ report with
          introducedDuplicates := report.introducedDuplicates.take n
          findingsTruncated := true }, true))
    ∨ shrinkFindings report = (report, false) := by
  rw [shrinkFindings]
  obtain h₁ | ⟨n, hlt, h₁⟩ := truncateHalf_eq_none_or report.interfaceFindings
  swap
  · exact .inl ⟨n, hlt, by rw [h₁]⟩
  obtain h₂ | ⟨n, hlt, h₂⟩ := truncateHalf_eq_none_or report.documentationRequirements
  swap
  · exact .inr (.inl ⟨n, hlt, by rw [h₁, h₂]⟩)
  obtain h₃ | ⟨n, hlt, h₃⟩ := truncateHalf_eq_none_or report.introducedCycles
  swap
  · exact .inr (.inr (.inl ⟨n, hlt, by rw [h₁, h₂, h₃]⟩))
  obtain h₄ | ⟨n, hlt, h₄⟩ := truncateHalf_eq_none_or report.introducedDuplicates
  swap
  · exact .inr (.inr (.inr (.inl ⟨n, hlt, by rw [h₁, h₂, h₃, h₄]⟩)))
  · exact .inr (.inr (.inr (.inr (by rw [h₁, h₂, h₃, h₄]))))

theorem shrunkFrom_shrinkObservations (report : SenseReport) :
    ShrunkFrom { report with observations := (shrinkObservations report.observations).1 }
      report := by
  obtain ⟨n, -, h⟩ | ⟨n, -, h⟩ | ⟨n, -, h⟩ | ⟨n, -, h⟩ | ⟨n, -, h⟩ | h :=
    shrinkObservations_cases report.observations
  all_goals rw [h]
  · exact .of_lists { ListsShortened.refl report with
      dependencyDeltas := List.take_prefix n _ } rfl rfl rfl
  · exact .of_lists { ListsShortened.refl report with
      impact := shortened_take ImpactCut.refl _ n } rfl rfl rfl
  · exact .of_lists { ListsShortened.refl report with
      highImpactChanges := List.take_prefix n _ } rfl rfl rfl
  · exact .of_lists { ListsShortened.refl report with
      interfaces := List.take_prefix n _ } rfl rfl rfl
  · exact .of_lists { ListsShortened.refl report with
      importantNodes := List.take_prefix n _ } rfl rfl rfl
  · exact .refl report

theorem shrunkFrom_shrinkFindings (report : SenseReport) :
    ShrunkFrom (shrinkFindings report).1 report := by
  have hshorter : ∀ {α : Type} {l : List α} {n : Nat}, n < l.length →
      (l.take n).length < l.length := by
    intro α l n hlt
    rw [List.length_take]
    omega
  obtain ⟨n, hlt, h⟩ | ⟨n, hlt, h⟩ | ⟨n, hlt, h⟩ | ⟨n, hlt, h⟩ | h := shrinkFindings_cases report
  all_goals rw [h]
  · refine .of_lt { ListsShortened.refl report with
      interfaceFindings := List.take_prefix n _ } ?_ rfl rfl
    exact Nat.add_lt_add_right (Nat.add_lt_add_left (hshorter hlt) _) _
  · refine .of_lt { ListsShortened.refl report with
      documentationRequirements := List.take_prefix n _ } ?_ rfl rfl
    exact Nat.add_lt_add_left (hshorter hlt) _
  · refine .of_lt { ListsShortened.refl report with
      introducedCycles := shortened_take CycleCut.refl _ n } ?_ rfl rfl
    exact Nat.add_lt_add_right (Nat.add_lt_add_right (Nat.add_lt_add_right (hshorter hlt) _) _) _
  · refine .of_lt { ListsShortened.refl report with
      introducedDuplicates := shortened_take DuplicateCut.refl _ n } ?_ rfl rfl
    exact Nat.add_lt_add_right (Nat.add_lt_add_right (Nat.add_lt_add_left (hshorter hlt) _) _) _
  · exact .refl report

/-! ## The stages together -/

/-- The report after its details were cleared. -/
def clearedReport (report : SenseReport) : SenseReport :=
  (shrinkDuplicateOccurrences (shrinkImpactSamples (shrinkCycleDetails report).1).1).1

def halvedObservations (report : SenseReport) : SenseReport :=
  { report with observations := (shrinkObservations report.observations).1 }

theorem shrunkFrom_clearedReport (report : SenseReport) :
    ShrunkFrom (clearedReport report) report :=
  (shrunkFrom_shrinkDuplicateOccurrences _).trans
    ((shrunkFrom_shrinkImpactSamples _).trans (shrunkFrom_shrinkCycleDetails report))

/-- What is shrunk are the details, then also the observations, then also the findings. -/
theorem shrinkReport_cases (report : SenseReport) :
    (shrinkReport report = (clearedReport report, true)
      ∧ ((shrinkCycleDetails report).2 = true
        ∨ (shrinkImpactSamples (shrinkCycleDetails report).1).2 = true
        ∨ (shrinkDuplicateOccurrences
          (shrinkImpactSamples (shrinkCycleDetails report).1).1).2 = true))
    ∨ (shrinkReport report = (halvedObservations (clearedReport report), true)
      ∧ (shrinkObservations (clearedReport report).observations).2 = true)
    ∨ shrinkReport report = shrinkFindings (halvedObservations (clearedReport report)) := by
  by_cases hdetails : ((shrinkDuplicateOccurrences
      (shrinkImpactSamples (shrinkCycleDetails report).1).1).2
    || ((shrinkImpactSamples (shrinkCycleDetails report).1).2
      || (shrinkCycleDetails report).2)) = true
  · refine .inl ⟨by rw [shrinkReport]; exact if_pos hdetails, ?_⟩
    rw [Bool.or_eq_true, Bool.or_eq_true] at hdetails
    tauto
  by_cases hobservations : (shrinkObservations (clearedReport report).observations).2 = true
  · refine .inr (.inl ⟨?_, hobservations⟩)
    rw [shrinkReport]
    exact (if_neg hdetails).trans (if_pos hobservations)
  · refine .inr (.inr ?_)
    rw [shrinkReport]
    exact (if_neg hdetails).trans (if_neg hobservations)

/-- Every stage that shrinks a report flags what it takes away. -/
theorem shrunkFrom_shrinkReport (report : SenseReport) :
    ShrunkFrom (shrinkReport report).1 report := by
  have hcleared := shrunkFrom_clearedReport report
  have hhalved : ShrunkFrom (halvedObservations (clearedReport report)) report :=
    (shrunkFrom_shrinkObservations (clearedReport report)).trans hcleared
  obtain ⟨h, -⟩ | ⟨h, -⟩ | h := shrinkReport_cases report
  all_goals rw [h]
  · exact hcleared
  · exact hhalved
  · exact (shrunkFrom_shrinkFindings _).trans hhalved

/-- Shrinking does not take a mark away. -/
structure SameMarks (kept original : SenseReport) : Prop where
  status : kept.status = original.status
  issues : kept.issues = original.issues
  observationsTruncated : original.observations.truncated = true
    → kept.observations.truncated = true

theorem sameMarks_halvedObservations (report : SenseReport) :
    SameMarks (halvedObservations report) report := by
  refine ⟨rfl, rfl, fun htruncated => ?_⟩
  rw [halvedObservations]
  obtain ⟨n, -, h⟩ | ⟨n, -, h⟩ | ⟨n, -, h⟩ | ⟨n, -, h⟩ | ⟨n, -, h⟩ | h :=
    shrinkObservations_cases report.observations
  all_goals rw [h]
  exact htruncated

theorem sameMarks_shrinkReport (report : SenseReport) :
    SameMarks (shrinkReport report).1 report := by
  obtain ⟨hstatus, hissues, htruncated⟩ := sameMarks_halvedObservations (clearedReport report)
  obtain ⟨h, -⟩ | ⟨h, -⟩ | h := shrinkReport_cases report
  all_goals rw [h]
  · exact ⟨rfl, rfl, id⟩
  · exact ⟨hstatus, hissues, htruncated⟩
  obtain ⟨n, -, h⟩ | ⟨n, -, h⟩ | ⟨n, -, h⟩ | ⟨n, -, h⟩ | h :=
    shrinkFindings_cases (halvedObservations (clearedReport report))
  all_goals
    rw [h]
    exact ⟨hstatus, hissues, htruncated⟩

/-! ## The loop ends -/

def cycleSize (cycle : IntroducedCycle) : Nat := cycle.members.length + cycle.witness.length

def duplicateSize (duplicate : IntroducedDuplicate) : Nat := duplicate.occurrences.length

def impactSize (impact : ImpactObservation) : Nat := impact.sample.length

def SenseObservations.size (observations : SenseObservations) : Nat :=
  observations.dependencyDeltas.length + weight impactSize observations.impact
    + observations.highImpactChanges.length + observations.interfaces.length
    + observations.importantNodes.length

/-- How much there is to shrink in a report: every entry of a list counts, and every entry of
    the details of a finding. -/
def SenseReport.size (report : SenseReport) : Nat :=
  weight cycleSize report.introducedCycles
    + weight duplicateSize report.introducedDuplicates
    + report.interfaceFindings.length + report.documentationRequirements.length
    + report.observations.size

theorem size_clearCycleDetails_le :
    cycleSize (clearCycleDetails cycle) ≤ cycleSize cycle :=
  Nat.zero_le _

theorem size_keepFirstOccurrence_le :
    duplicateSize (keepFirstOccurrence duplicate) ≤ duplicateSize duplicate :=
  List.length_take_le' 1 _

theorem size_clearSample_le :
    impactSize (clearSample impact) ≤ impactSize impact :=
  Nat.zero_le _

theorem size_shrinkCycleDetails (report : SenseReport) :
    (shrinkCycleDetails report).1.size ≤ report.size
      ∧ ((shrinkCycleDetails report).2 = true
        → (shrinkCycleDetails report).1.size < report.size) := by
  rw [SenseReport.size, SenseReport.size, shrinkCycleDetails]
  dsimp only
  constructor
  · have hle := weight_map_le size_clearCycleDetails_le report.introducedCycles
    omega
  · intro hshrunk
    obtain ⟨cycle, hcycle, hdetails⟩ := List.any_eq_true.mp hshrunk
    have hlt : cycleSize (clearCycleDetails cycle) < cycleSize cycle := by
      rw [hasCycleDetails, Bool.or_eq_true, ← decide_zero_lt_length, ← decide_zero_lt_length,
        decide_eq_true_eq, decide_eq_true_eq] at hdetails
      change 0 < cycle.members.length + cycle.witness.length
      omega
    have hlighter := weight_map_lt size_clearCycleDetails_le hcycle hlt
    omega

theorem size_shrinkImpactSamples (report : SenseReport) :
    (shrinkImpactSamples report).1.size ≤ report.size
      ∧ ((shrinkImpactSamples report).2 = true
        → (shrinkImpactSamples report).1.size < report.size) := by
  rw [SenseReport.size, SenseReport.size, SenseObservations.size, SenseObservations.size,
    shrinkImpactSamples]
  dsimp only
  constructor
  · have hle := weight_map_le size_clearSample_le report.observations.impact
    omega
  · intro hshrunk
    obtain ⟨impact, himpact, hsample⟩ := List.any_eq_true.mp hshrunk
    have hlt : impactSize (clearSample impact) < impactSize impact := by
      rw [← decide_zero_lt_length, decide_eq_true_eq] at hsample
      exact hsample
    have hlighter := weight_map_lt size_clearSample_le himpact hlt
    omega

theorem size_shrinkDuplicateOccurrences (report : SenseReport) :
    (shrinkDuplicateOccurrences report).1.size ≤ report.size
      ∧ ((shrinkDuplicateOccurrences report).2 = true
        → (shrinkDuplicateOccurrences report).1.size < report.size) := by
  rw [SenseReport.size, SenseReport.size, shrinkDuplicateOccurrences]
  dsimp only
  constructor
  · have hle := weight_map_le size_keepFirstOccurrence_le report.introducedDuplicates
    omega
  · intro hshrunk
    obtain ⟨duplicate, hduplicate, hmany⟩ := List.any_eq_true.mp hshrunk
    have hlt : duplicateSize (keepFirstOccurrence duplicate) < duplicateSize duplicate := by
      rw [decide_eq_true_eq] at hmany
      rw [duplicateSize, duplicateSize, keepFirstOccurrence, List.length_take]
      omega
    have hlighter := weight_map_lt size_keepFirstOccurrence_le hduplicate hlt
    omega

theorem size_clearedReport_le (report : SenseReport) :
    (clearedReport report).size ≤ report.size :=
  ((size_shrinkDuplicateOccurrences _).1.trans (size_shrinkImpactSamples _).1).trans
    (size_shrinkCycleDetails report).1

/-- Clearing details that are there makes the report smaller. -/
theorem size_clearedReport_lt (h : (shrinkCycleDetails report).2 = true
    ∨ (shrinkImpactSamples (shrinkCycleDetails report).1).2 = true
    ∨ (shrinkDuplicateOccurrences (shrinkImpactSamples (shrinkCycleDetails report).1).1).2 = true) :
    (clearedReport report).size < report.size := by
  have hcycles := size_shrinkCycleDetails report
  have himpact := size_shrinkImpactSamples (shrinkCycleDetails report).1
  have hoccurrences := size_shrinkDuplicateOccurrences
    (shrinkImpactSamples (shrinkCycleDetails report).1).1
  rw [clearedReport]
  obtain h | h | h := h
  · exact (hoccurrences.1.trans himpact.1).trans_lt (hcycles.2 h)
  · exact hoccurrences.1.trans_lt ((himpact.2 h).trans_le hcycles.1)
  · exact (hoccurrences.2 h).trans_le (himpact.1.trans hcycles.1)

theorem size_halvedObservations (report : SenseReport) :
    (halvedObservations report).size ≤ report.size
      ∧ ((shrinkObservations report.observations).2 = true
        → (halvedObservations report).size < report.size) := by
  have hobservations : (shrinkObservations report.observations).1.size ≤ report.observations.size
      ∧ ((shrinkObservations report.observations).2 = true
        → (shrinkObservations report.observations).1.size < report.observations.size) := by
    rw [SenseObservations.size, SenseObservations.size]
    obtain ⟨n, hlt, h⟩ | ⟨n, hlt, h⟩ | ⟨n, hlt, h⟩ | ⟨n, hlt, h⟩ | ⟨n, hlt, h⟩ | h :=
      shrinkObservations_cases report.observations
    all_goals rw [h]
    · dsimp only
      rw [List.length_take]
      omega
    · have hlighter := @weight_take_lt _ report.observations.impact n impactSize hlt
      dsimp only
      omega
    · dsimp only
      rw [List.length_take]
      omega
    · dsimp only
      rw [List.length_take]
      omega
    · dsimp only
      rw [List.length_take]
      omega
    · exact ⟨le_rfl, nofun⟩
  rw [SenseReport.size, SenseReport.size, halvedObservations]
  dsimp only
  exact ⟨by omega, fun h => by have hlt := hobservations.2 h; omega⟩

theorem size_shrinkFindings (h : (shrinkFindings report).2 = true) :
    (shrinkFindings report).1.size < report.size := by
  rw [SenseReport.size, SenseReport.size]
  obtain ⟨n, hlt, hcut⟩ | ⟨n, hlt, hcut⟩ | ⟨n, hlt, hcut⟩ | ⟨n, hlt, hcut⟩ | hcut :=
    shrinkFindings_cases report
  all_goals rw [hcut] at h ⊢
  · dsimp only
    rw [List.length_take]
    omega
  · dsimp only
    rw [List.length_take]
    omega
  · have hlighter := @weight_take_lt _ report.introducedCycles n cycleSize hlt
    dsimp only
    omega
  · have hlighter := @weight_take_lt _ report.introducedDuplicates n duplicateSize hlt
    dsimp only
    omega
  · cases h

/-- Whatever was shrunk, there is less to shrink afterwards. -/
theorem size_shrinkReport (h : (shrinkReport report).2 = true) :
    (shrinkReport report).1.size < report.size := by
  have hcleared := size_clearedReport_le report
  have hhalved := size_halvedObservations (clearedReport report)
  obtain ⟨hcut, hdetails⟩ | ⟨hcut, hobservations⟩ | hcut := shrinkReport_cases report
  all_goals rw [hcut] at h ⊢
  · exact size_clearedReport_lt hdetails
  · exact (hhalved.2 hobservations).trans_le hcleared
  · exact (size_shrinkFindings h).trans_le (hhalved.1.trans hcleared)

end Shrinking

/-! ## One pass -/

section Pass

variable {renderer : Renderer} {json : Bool} {clock : Nat → ElapsedTimes} {original : SenseReport}
  {state next : OutputState} {outcome : Except Str Str} {final : SenseReport} {rendered : Str}

/-- The report beside its timing. -/
def SenseReport.untimed (report : SenseReport) : SenseReport := { report with timing := {} }

def compactFailure : SenseReport := (incompleteReport outputTooLargeIssue 0).untimed

/-- A report as the loop may have left it: as it was given, marked and shrunk, or replaced. -/
inductive Prepared (original : SenseReport) : OutputState → Prop
  | given : Prepared original { report := original }
  | shrunk {state : OutputState} : state.replacedOversizeReport = false →
      ShrunkFrom state.report original → MarkedFrom state.report original →
      Prepared original state
  | replaced {state : OutputState} : state.replacedOversizeReport = true →
      state.report.untimed = compactFailure → Prepared original state

/-- How far a state is from the end of the loop. -/
def OutputState.distance (state : OutputState) : Nat :=
  if state.replacedOversizeReport then state.report.size else state.report.size + 1

/-- The report as it goes into shrinking. -/
def OutputState.marked (state : OutputState) (clock : Nat → ElapsedTimes) : SenseReport :=
  markOutputTruncated (state.report.withTimes (clock state.passes))

/-- What a pass that goes on does. -/
theorem outputPass_inl (h : outputPass renderer json clock state = .inl next) :
    ((shrinkReport (state.marked clock)).2 = true
      ∧ next = { state with
          report := (shrinkReport (state.marked clock)).1, passes := state.passes + 1 })
    ∨ (state.replacedOversizeReport = false
      ∧ next =
        { report := incompleteReport outputTooLargeIssue (clock state.passes).replacedUs
          replacedOversizeReport := true
          passes := state.passes + 1 }) := by
  rw [outputPass] at h
  dsimp only at h
  split at h
  · cases h
  · split_ifs at h with hfits hshrunk hreplaced
    · cases h
      exact .inl ⟨hshrunk, rfl⟩
    · cases h
      exact .inr ⟨Bool.not_eq_true _ ▸ hreplaced, rfl⟩

/-- What a pass that returns a text has found. -/
theorem outputPass_inr (h : outputPass renderer json clock state = .inr (.ok rendered, final)) :
    final = state.report.withTimes (clock state.passes)
      ∧ ∃ assessmentBytes, outputSizes renderer json final = .ok (rendered, assessmentBytes)
        ∧ rendered.length ≤ maxAssessmentBytes ∧ assessmentBytes ≤ maxAssessmentBytes := by
  rw [outputPass] at h
  dsimp only at h
  split at h
  · cases h
  · rename_i text assessmentBytes hsizes
    split_ifs at h with hfits
    · cases h
      exact ⟨rfl, assessmentBytes, hsizes, hfits⟩
    · cases h

theorem truncatedIssues_truncatedIssues (issues : List SenseIssue) :
    truncatedIssues (truncatedIssues issues) = truncatedIssues issues := by
  by_cases hmarked : (issues.any fun issue => issue.code = outputTruncatedIssue.code) = true
  · have honce : truncatedIssues issues = issues := if_pos hmarked
    rw [honce, honce]
  · have honce : truncatedIssues issues = issues ++ [outputTruncatedIssue] := if_neg hmarked
    rw [honce, truncatedIssues, if_pos]
    simp

/-- A state goes on to a state of a report that is left in one of the three ways, nearer to the
    end. -/
theorem prepared_outputPass (hstate : Prepared original state)
    (h : outputPass renderer json clock state = .inl next) :
    Prepared original next ∧ next.distance < state.distance := by
  have hsize : (state.marked clock).size = state.report.size := rfl
  obtain ⟨hshrunk, rfl⟩ | ⟨hfirst, rfl⟩ := outputPass_inl h
  · have hlt := size_shrinkReport hshrunk
    have hmarks := sameMarks_shrinkReport (state.marked clock)
    have hkept : ShrunkFrom (shrinkReport (state.marked clock)).1 state.report :=
      (shrunkFrom_shrinkReport _).trans
        ((shrunkFrom_markOutputTruncated _).trans (shrunkFrom_withTimes _ _))
    refine ⟨?_, ?_⟩
    · cases hstate with
      | given =>
        exact .shrunk rfl hkept ⟨hmarks.status, hmarks.observationsTruncated rfl, hmarks.issues⟩
      | shrunk hfirst hfrom hmarked =>
        refine .shrunk hfirst (hkept.trans hfrom)
          ⟨hmarks.status, hmarks.observationsTruncated rfl, hmarks.issues.trans ?_⟩
        change truncatedIssues state.report.issues = _
        rw [hmarked.issues, truncatedIssues_truncatedIssues]
      | replaced hreplaced hcompact =>
        -- there is nothing left to shrink in the compact failure
        have hnone : state.report.untimed.size = compactFailure.size := by rw [hcompact]
        rw [hsize] at hlt
        exact absurd (hlt.trans_eq hnone) (Nat.not_lt_zero _)
    · rw [OutputState.distance, OutputState.distance]
      dsimp only
      split_ifs <;> omega
  · refine ⟨.replaced rfl rfl, ?_⟩
    rw [OutputState.distance, OutputState.distance, hfirst]
    exact Nat.succ_pos _

end Pass

/-! ## What is returned -/

section Returned

variable {renderer : Renderer} {json : Bool} {original final : SenseReport} {rendered : Str}

/-- The returned text and the assessment, which is the text itself with `--json`, are within the
    byte bound. -/
theorem sizes_of_outputSizes {assessmentBytes : Nat}
    (h : outputSizes renderer json final = .ok (rendered, assessmentBytes)) :
    renderOutput renderer final json = .ok rendered
      ∧ serializedReportLen renderer final = .ok assessmentBytes := by
  rw [outputSizes] at h
  cases json with
  | true =>
    rw [renderOutput, if_pos rfl] at h ⊢
    rw [serializedReportLen]
    cases htext : renderer.toJson final with
    | error error =>
      rw [htext] at h
      cases h
    | ok text =>
      rw [htext] at h
      cases h
      refine ⟨rfl, ?_⟩
      exact congrArg Except.ok (@List.length_append _ text [newline]).symm
  | false =>
    rw [renderOutput, if_neg (by decide)] at h ⊢
    rw [serializedReportLen] at h ⊢
    cases htext : renderer.toJson final with
    | error error =>
      rw [htext] at h
      cases h
    | ok text =>
      rw [htext] at h
      cases h
      exact ⟨rfl, rfl⟩

/-- A text that is returned is that of the report as it was given but for its timing, of a marked
    report whose losses are all flagged, or of the compact failure. -/
structure NoHiddenLoss (renderer : Renderer) (json : Bool) (original final : SenseReport)
    (rendered : Str) : Prop where
  rendered_eq : renderOutput renderer final json = .ok rendered
  rendered_le : rendered.length ≤ maxAssessmentBytes
  serialized_le : ∃ bytes, serializedReportLen renderer final = .ok bytes
    ∧ bytes ≤ maxAssessmentBytes
  changed : final.untimed ≠ original.untimed →
    final.status = .incomplete ∧ ListsShortened final original
    ∧ ((outputTruncatedIssue.code ∈ final.issues.map SenseIssue.code
        ∧ ShrunkFrom final original ∧ MarkedFrom final original)
      ∨ (outputTooLargeIssue ∈ final.issues ∧ final.untimed = compactFailure))

theorem listsShortened_of_compact (h : final.untimed = compactFailure) :
    ListsShortened final original := by
  have hlists : ListsShortened compactFailure original :=
    { introducedCycles := shortened_nil _
      introducedDuplicates := shortened_nil _
      interfaceFindings := List.nil_prefix
      documentationRequirements := List.nil_prefix
      dependencyDeltas := List.nil_prefix
      impact := shortened_nil _
      highImpactChanges := List.nil_prefix
      interfaces := List.nil_prefix
      importantNodes := List.nil_prefix }
  rw [← h] at hlists
  exact { hlists with }

theorem outputTruncated_mem_of_marked (h : MarkedFrom final original) :
    outputTruncatedIssue.code ∈ final.issues.map SenseIssue.code := by
  rw [h.issues, truncatedIssues]
  split_ifs with hmarked
  · obtain ⟨issue, hissue, hcode⟩ := List.any_eq_true.mp hmarked
    exact List.mem_map.mpr ⟨issue, hissue, of_decide_eq_true hcode⟩
  · exact List.mem_map.mpr ⟨outputTruncatedIssue, by simp, rfl⟩

theorem noHiddenLoss_outputPass {clock : Nat → ElapsedTimes} {state : OutputState}
    (hstate : Prepared original state)
    (h : outputPass renderer json clock state = .inr (.ok rendered, final)) :
    NoHiddenLoss renderer json original final rendered := by
  obtain ⟨rfl, assessmentBytes, hsizes, hrendered, hassessment⟩ := outputPass_inr h
  obtain ⟨hrender, hserialized⟩ := sizes_of_outputSizes hsizes
  refine ⟨hrender, hrendered, ⟨assessmentBytes, hserialized, hassessment⟩, fun hchanged => ?_⟩
  cases hstate with
  | given => exact absurd rfl hchanged
  | shrunk _ hfrom hmarked =>
    have hfinal := (shrunkFrom_withTimes state.report (clock state.passes)).trans hfrom
    have hmarks : MarkedFrom (state.report.withTimes (clock state.passes)) original :=
      ⟨hmarked.status, hmarked.observationsTruncated, hmarked.issues⟩
    exact ⟨hmarks.status, hfinal.toListsShortened,
      .inl ⟨outputTruncated_mem_of_marked hmarks, hfinal, hmarks⟩⟩
  | replaced _ hcompact =>
    have hfinal : (state.report.withTimes (clock state.passes)).untimed = compactFailure :=
      hcompact
    have hissues : (state.report.withTimes (clock state.passes)).untimed.issues
        = compactFailure.issues := by rw [hfinal]
    have hstatus : (state.report.withTimes (clock state.passes)).untimed.status
        = compactFailure.status := by rw [hfinal]
    refine ⟨hstatus, listsShortened_of_compact hfinal, .inr ⟨?_, hfinal⟩⟩
    exact hissues ▸ List.mem_singleton.mpr rfl

/-- The loop is left after as many passes as there is to shrink, whatever the renderer and the
    clock are.  A report that fits is returned as it is; nothing that is missing from a text that
    is returned is hidden, unless the whole report gave way to the compact failure. -/
theorem prepareOutput_hides_no_loss (renderer : Renderer) (json : Bool)
    (clock : Nat → ElapsedTimes) (report : SenseReport) :
    ∃ outcome final,
      (∀ fuel, report.size + 1 < fuel →
        prepareOutput renderer json clock fuel report = some (outcome, final))
      ∧ (∀ rendered, outcome = .ok rendered → NoHiddenLoss renderer json report final rendered)
      ∧ (∀ rendered assessmentBytes,
        outputSizes renderer json (report.withTimes (clock 0)) = .ok (rendered, assessmentBytes) →
        rendered.length ≤ maxAssessmentBytes → assessmentBytes ≤ maxAssessmentBytes →
        outcome = .ok rendered ∧ final = report.withTimes (clock 0)) := by
  obtain ⟨⟨outcome, final⟩, hreturned, hrun⟩ := Loop.exists_runUntil (I := Prepared report)
    (Q := fun result => ∀ rendered, result.1 = .ok rendered →
      NoHiddenLoss renderer json report result.2 rendered)
    OutputState.distance (fun state next hstate hpass => prepared_outputPass hstate hpass)
    (fun state result hstate hpass rendered hok =>
      noHiddenLoss_outputPass hstate (hpass.trans (congrArg Sum.inr (Prod.ext hok rfl))))
    .given
  refine ⟨outcome, final, hrun, hreturned, fun rendered bytes hsizes hrendered hbytes => ?_⟩
  have hfirst : outputPass renderer json clock { report }
      = .inr (.ok rendered, report.withTimes (clock 0)) := by
    rw [outputPass]
    dsimp only
    rw [hsizes]
    exact if_pos ⟨hrendered, hbytes⟩
  have hdone := hrun (report.size + 2) (Nat.lt_succ_self _)
  rw [Loop.runUntil_succ_of_inr hfirst] at hdone
  cases hdone
  exact ⟨rfl, rfl⟩

end Returned

/-! A report that cannot be shrunk enough: one cycle, beside an issue whose message alone
    exceeds the bound. -/

/-- As many bytes as the messages of the issues have. -/
def messageRenderer : Renderer where
  toJson report := .ok (report.issues.flatMap SenseIssue.message)
  humanOutput report := report.issues.flatMap SenseIssue.message

def oversizeReport : SenseReport :=
  { incompleteReport
      { code := ascii "oversize", message := List.replicate (maxAssessmentBytes + 1) 120 } 0 with
    introducedCycles :=
      [{ memberCount := 1, members := [], membersTruncated := true
         trigger := ⟨⟨ascii "a", by decide⟩, ⟨ascii "a", by decide⟩, .runtime⟩
         witness := [], witnessTruncated := true }] }

/-- The cycle is dropped and the flag is not raised. -/
theorem compact_failure_unflagged : ∃ rendered final,
    prepareOutput messageRenderer true (fun _ => {}) 2 oversizeReport = some (.ok rendered, final)
    ∧ final.introducedCycles.length < oversizeReport.introducedCycles.length
    ∧ final.findingsTruncated = false := by
  have hlong : (messageRenderer.toJson (oversizeReport.withTimes {})) =
      .ok (List.replicate (maxAssessmentBytes + 1) 120) := by
    exact congrArg Except.ok (List.append_nil _)
  have hfirst : outputPass messageRenderer true (fun _ => {}) { report := oversizeReport }
      = .inl
        { report := incompleteReport outputTooLargeIssue 0
          replacedOversizeReport := true
          passes := 1 } := by
    have hsizes : outputSizes messageRenderer true (oversizeReport.withTimes {})
        = .ok (List.replicate (maxAssessmentBytes + 1) 120 ++ [newline], maxAssessmentBytes + 2) := by
      rw [outputSizes, renderOutput, if_pos rfl, hlong]
      simp [Except.map, bind, Except.bind, pure, Except.pure]
    rw [outputPass]
    dsimp only
    rw [hsizes]
    dsimp only
    rw [if_neg (by simp), if_neg (by decide)]
    rfl
  refine ⟨outputTooLargeIssue.message ++ [newline], incompleteReport outputTooLargeIssue 0, ?_,
    by decide, rfl⟩
  rw [prepareOutput, Loop.runUntil_succ_of_inl hfirst]
  decide +kernel

end Opcore.Sense
