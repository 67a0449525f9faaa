/-
  Opcore.Sense.Dedup.LimitAgreement

  Three passes over a snapshot bound what duplicate analysis looks at: the view of
  its callables, the view of its regions, and the one that reports the limits.  File
  by file they admit the same callables and the same anchors, so the coverage of a
  view and the issues about it say the same.
-/
import Opcore.Sense.Dedup.Duplicates
import Opcore.Sense.Dedup.Malformed

namespace Opcore

open Text Collections Smallest Fallible

/-! ## Limits of one file -/

section Files

variable {fileFacts : FileFacts} {coverage : FingerprintCoverage} {state : SnapshotLimitState}
  {path : RepoPath} {malformed : Bool}

/-- One of the two fingerprint lists is longer than a file may have. -/
def FileFacts.Oversized (facts : FileFacts) : Prop :=
  maxCallableFingerprintsPerFile < facts.callableFingerprints.callables.length
    ∨ maxRegionFingerprintsPerFile < facts.regionFingerprints.anchors.length

/-- A truncated extraction beside a failed or unsupported one: the file counts by the
    worse of both, so the coverage does not show the truncation. -/
def FileFacts.Masked (facts : FileFacts) : Prop :=
  ¬ facts.Oversized
    ∧ (facts.callableFingerprints.status = .truncated ∧ .truncated < facts.regionFingerprints.status
      ∨ facts.regionFingerprints.status = .truncated
        ∧ .truncated < facts.callableFingerprints.status)

/-- The coverage counts the file as truncated. -/
def FileFacts.CountedTruncated (facts : FileFacts) : Prop :=
  facts.Oversized
    ∨ max facts.callableFingerprints.status facts.regionFingerprints.status = .truncated

/-- The limit pass reports the file. -/
def FileFacts.Affected (facts : FileFacts) : Prop :=
  facts.Oversized ∨ facts.callableFingerprints.status = .truncated
    ∨ facts.regionFingerprints.status = .truncated

theorem affected_iff : fileFacts.Affected ↔ fileFacts.CountedTruncated ∨ fileFacts.Masked := by
  rw [FileFacts.Affected, FileFacts.CountedTruncated, FileFacts.Masked]
  by_cases hover : fileFacts.Oversized
  · simp only [hover, true_or]
  · generalize fileFacts.callableFingerprints.status = c
    generalize fileFacts.regionFingerprints.status = r
    simp only [hover, false_or, not_false_eq_true, true_and]
    cases c <;> cases r <;> decide

/-- Only the count of truncated files tells a truncation. -/
theorem recordFingerprintStatus_fields :
    (recordFingerprintStatus coverage fileFacts).callableOccurrences = coverage.callableOccurrences
      ∧ (recordFingerprintStatus coverage fileFacts).requestTruncated = coverage.requestTruncated
      ∧ (0 < (recordFingerprintStatus coverage fileFacts).truncatedFiles
          ↔ 0 < coverage.truncatedFiles ∨ fileFacts.CountedTruncated) := by
  have hstatus : ∀ status, (if maxCallableFingerprintsPerFile
        < fileFacts.callableFingerprints.callables.length
          ∨ maxRegionFingerprintsPerFile < fileFacts.regionFingerprints.anchors.length then
        FingerprintExtractionStatus.truncated
      else max fileFacts.callableFingerprints.status fileFacts.regionFingerprints.status) = status →
      (status = .truncated ↔ fileFacts.CountedTruncated) := by
    rintro status rfl
    rw [FileFacts.CountedTruncated, FileFacts.Oversized]
    split_ifs with hover
    · exact iff_of_true rfl (Or.inl hover)
    · simp only [hover, false_or]
  simp only [recordFingerprintStatus]
  generalize hEq : (if maxCallableFingerprintsPerFile
        < fileFacts.callableFingerprints.callables.length
          ∨ maxRegionFingerprintsPerFile < fileFacts.regionFingerprints.anchors.length then
        FingerprintExtractionStatus.truncated
      else max fileFacts.callableFingerprints.status fileFacts.regionFingerprints.status) = status
  have hcounted := hstatus status hEq
  cases status with
  | complete => simp [← hcounted]
  | truncated => simp [← hcounted]
  | parserFailed => simp [← hcounted]
  | unsupported => simp [← hcounted]

/-! ## Callables -/

/-- The coverage after the callables of one file. -/
def FingerprintCoverage.admitCallables (self : FingerprintCoverage) (count : Nat) :
    FingerprintCoverage :=
  { self with
    callableOccurrences := self.callableOccurrences
      + min count (maxCallableFingerprintsPerRequest - self.callableOccurrences)
    requestTruncated := self.requestTruncated
      || decide (maxCallableFingerprintsPerRequest - self.callableOccurrences < count) }

/-- Pushed one by one, the callables of a file are counted as they are together. -/
theorem coverage_foldl_push (family : Str) (callables : List CallableFingerprint)
    (view : CallableView)
    (hroom : view.coverage.callableOccurrences ≤ maxCallableFingerprintsPerRequest) :
    (callables.foldl (CallableView.push family path) view).coverage
      = view.coverage.admitCallables callables.length := by
  induction callables generalizing view with
  | nil => simp [FingerprintCoverage.admitCallables]
  | cons callable callables ih =>
    rw [List.foldl_cons]
    by_cases hfull : maxCallableFingerprintsPerRequest ≤ view.coverage.callableOccurrences
    · have hpush : (CallableView.push family path view callable).coverage
          = { view.coverage with requestTruncated := true } := by
        rw [CallableView.push, if_pos hfull]
      have hzero : maxCallableFingerprintsPerRequest - view.coverage.callableOccurrences = 0 := by
        omega
      rw [ih _ (by rw [hpush]; exact hroom), hpush]
      simp [FingerprintCoverage.admitCallables, hzero]
    · have hpush : (CallableView.push family path view callable).coverage
          = { view.coverage with
              callableOccurrences := view.coverage.callableOccurrences + 1 } := by
        rw [CallableView.push, if_neg hfull]
      rw [ih _ (by rw [hpush]; simp only; omega), hpush]
      simp only [FingerprintCoverage.admitCallables, List.length_cons,
        FingerprintCoverage.mk.injEq, true_and, and_true]
      refine ⟨by omega, ?_⟩
      congr 2
      exact propext (by omega)

end Files

section Callables

variable [Sha256] {fileFacts : FactMap} {factKeys : FactKeyLookup}

/-- One file of either pass. -/
theorem coverage_step (continuity : BTreeMap RepoPath RepoPath) (view : CallableView)
    (file : SourceFile)
    (hroom : view.coverage.callableOccurrences ≤ maxCallableFingerprintsPerRequest) :
    (CallableView.step fileFacts factKeys continuity view file).coverage
      = FingerprintCoverage.step fileFacts factKeys view.coverage file := by
  rw [CallableView.step, FingerprintCoverage.step]
  cases lookupFileFact file fileFacts factKeys with
  | none => rfl
  | some found =>
    obtain ⟨factKey, facts⟩ := found
    obtain ⟨hoccurrences, -, -⟩ := @recordFingerprintStatus_fields facts
      { view.coverage with files := view.coverage.files + 1 }
    simp only [recordNonRegionCoverage]
    by_cases hskip : facts.callableFingerprints.status ≠ .complete
        ∨ maxCallableFingerprintsPerFile < facts.callableFingerprints.callables.length
    · have hskip' : facts.callableFingerprints.status ≠ .complete
          ∨ facts.callableFingerprints.callables.isEmpty = true
          ∨ maxCallableFingerprintsPerFile < facts.callableFingerprints.callables.length :=
        hskip.imp_right Or.inr
      rw [if_pos hskip, if_pos hskip']
    · rw [if_neg hskip]
      by_cases hempty : facts.callableFingerprints.callables = []
      · rw [if_pos (Or.inr (Or.inl (by rw [hempty]; rfl))), hempty]
        simp
      · rw [if_neg (by simpa [hempty] using hskip)]
        refine coverage_foldl_push _ _ _ ?_
        rw [hoccurrences]
        exact hroom

theorem callableOccurrences_step_le {coverage : FingerprintCoverage} (file : SourceFile)
    (hroom : coverage.callableOccurrences ≤ maxCallableFingerprintsPerRequest) :
    (FingerprintCoverage.step fileFacts factKeys coverage file).callableOccurrences
      ≤ maxCallableFingerprintsPerRequest := by
  rw [FingerprintCoverage.step]
  cases lookupFileFact file fileFacts factKeys with
  | none => exact hroom
  | some found =>
    obtain ⟨hoccurrences, -, -⟩ := @recordFingerprintStatus_fields found.2
      { coverage with files := coverage.files + 1 }
    simp only [recordNonRegionCoverage]
    split_ifs
    · rw [hoccurrences]
      exact hroom
    · simp only [hoccurrences]
      omega

/-- Looking for duplicates gives the same coverage as not looking. -/
theorem coverage_callableView (snapshot : SourceSnapshot) (continuity : BTreeMap RepoPath RepoPath) :
    (callableView snapshot fileFacts factKeys continuity).coverage
      = fingerprintCoverage snapshot fileFacts factKeys := by
  have hfold : ∀ (files : List SourceFile) (view : CallableView),
      view.coverage.callableOccurrences ≤ maxCallableFingerprintsPerRequest →
      (files.foldl (CallableView.step fileFacts factKeys continuity) view).coverage
        = files.foldl (FingerprintCoverage.step fileFacts factKeys) view.coverage := by
    intro files
    induction files with
    | nil => exact fun view _ => rfl
    | cons file files ih =>
      intro view hroom
      have hstep := @coverage_step _ fileFacts factKeys continuity view file hroom
      rw [List.foldl_cons, List.foldl_cons, ih _ ?_, hstep]
      rw [hstep]
      exact callableOccurrences_step_le file hroom
  exact hfold snapshot.fileList {} (Nat.zero_le _)

end Callables

/-! ## The limit pass -/

section Observing

variable {fileFacts : FileFacts} {state : SnapshotLimitState} {path : RepoPath} {malformed : Bool}

theorem count_push (affected : AffectedPaths) (path : RepoPath) : 0 < (affected.push path).count :=
  Nat.succ_pos _

/-- What the callables of a file change. -/
structure CallablesObserved (fileFacts : FileFacts) (state state' : SnapshotLimitState) : Prop where
  files : 0 < state'.callableFiles.count ↔ 0 < state.callableFiles.count
    ∨ fileFacts.callableFingerprints.status = .truncated
    ∨ maxCallableFingerprintsPerFile < fileFacts.callableFingerprints.callables.length
  skipped : fileFacts.callableFingerprints.status ≠ .complete
      ∨ maxCallableFingerprintsPerFile < fileFacts.callableFingerprints.callables.length →
    state'.callables = state.callables
      ∧ state'.callableRequest = state.callableRequest
  admitted : ¬ (fileFacts.callableFingerprints.status ≠ .complete
      ∨ maxCallableFingerprintsPerFile < fileFacts.callableFingerprints.callables.length) →
    state'.callables = state.callables
        + min fileFacts.callableFingerprints.callables.length
            (maxCallableFingerprintsPerRequest - state.callables)
      ∧ (0 < state'.callableRequest.count ↔ 0 < state.callableRequest.count
          ∨ maxCallableFingerprintsPerRequest - state.callables
              < fileFacts.callableFingerprints.callables.length)
  regionFiles : state'.regionFiles = state.regionFiles
  regionRequest : state'.regionRequest = state.regionRequest
  regions : state'.regions = state.regions

theorem callablesObserved : CallablesObserved fileFacts state
    (observeCallableLimits state path fileFacts) := by
  have hpush := count_push state.callableFiles path
  have hrequest := count_push state.callableRequest path
  -- the file limit and the request limit do not touch each other's fields
  refine ⟨?_, ?_, ?_, ?_, ?_, ?_⟩
  · simp only [observeCallableLimits, Bool.not_eq_true', decide_eq_false_iff_not, not_le]
    split_ifs with hfile
    all_goals simp_all
  · intro hskip
    simp only [observeCallableLimits, Bool.not_eq_true', decide_eq_false_iff_not, not_le]
    rw [if_pos hskip.symm]
    split_ifs
    · exact ⟨rfl, rfl⟩
    · exact ⟨rfl, rfl⟩
  · intro hadmit
    simp only [observeCallableLimits, Bool.not_eq_true', decide_eq_false_iff_not, not_le]
    rw [if_neg (mt Or.symm hadmit)]
    split_ifs
    all_goals simp_all
  all_goals
    simp only [observeCallableLimits]
    split_ifs <;> rfl

/-- The anchors of the file are asked for. -/
def FileFacts.AsksRegions (facts : FileFacts) (malformed : Bool) : Prop :=
  facts.regionFingerprints.anchors.length ≤ maxRegionFingerprintsPerFile
    ∧ malformed = false ∧ facts.regionFingerprints.status = .complete

instance : Decidable (fileFacts.AsksRegions malformed) := inferInstanceAs (Decidable (_ ∧ _ ∧ _))

/-- What the regions of a file change. -/
structure RegionsObserved (fileFacts : FileFacts) (malformed : Bool)
    (state state' : SnapshotLimitState) : Prop where
  files : 0 < state'.regionFiles.count ↔ 0 < state.regionFiles.count
    ∨ fileFacts.regionFingerprints.status = .truncated
    ∨ maxRegionFingerprintsPerFile < fileFacts.regionFingerprints.anchors.length
  skipped : ¬ fileFacts.AsksRegions malformed →
    state'.regions = state.regions ∧ state'.regionRequest = state.regionRequest
  refused : fileFacts.AsksRegions malformed →
    prospectiveRegionAnchorTotal state.regions fileFacts.regionFingerprints.anchors.length = none →
      state'.regions = state.regions ∧ 0 < state'.regionRequest.count
  admitted : fileFacts.AsksRegions malformed → ∀ total,
    prospectiveRegionAnchorTotal state.regions fileFacts.regionFingerprints.anchors.length
        = some total →
      state'.regions = total ∧ state'.regionRequest = state.regionRequest
  callableFiles : state'.callableFiles = state.callableFiles
  callableRequest : state'.callableRequest = state.callableRequest
  callables : state'.callables = state.callables

theorem regionsObserved : RegionsObserved fileFacts malformed state
    (observeRegionLimits state path fileFacts malformed) := by
  have hpush := count_push state.regionFiles path
  have hrequest := count_push state.regionRequest path
  have hasks : (fileFacts.regionFingerprints.anchors.length ≤ maxRegionFingerprintsPerFile
      ∧ malformed = false ∧ fileFacts.regionFingerprints.status = .complete)
      ↔ fileFacts.AsksRegions malformed := Iff.rfl
  refine ⟨?_, ?_, ?_, ?_, ?_, ?_, ?_⟩
  · simp only [observeRegionLimits, Bool.not_eq_true', decide_eq_false_iff_not, not_le]
    split_ifs with hfile
    all_goals simp_all
  · intro hskip
    simp only [observeRegionLimits, Bool.not_eq_true', decide_eq_true_eq, hasks, if_neg hskip]
    split_ifs
    · exact ⟨rfl, rfl⟩
    · exact ⟨rfl, rfl⟩
  · intro hask hnone
    simp only [observeRegionLimits, Bool.not_eq_true', decide_eq_true_eq, hasks, if_pos hask,
      admitRegionAnchors]
    split_ifs
    all_goals simp_all
  · intro hask total hsome
    simp only [observeRegionLimits, Bool.not_eq_true', decide_eq_true_eq, hasks, if_pos hask,
      admitRegionAnchors]
    split_ifs
    all_goals simp_all
  all_goals
    simp only [observeRegionLimits]
    split_ifs <;> rfl

end Observing

/-! ## The coverage and the limit pass -/

section Coverage

variable [Sha256] {fileFacts : FactMap} {factKeys : FactKeyLookup}
  {malformedFactKeys : BTreeSet FileFactKey} {masked : Prop} {coverage : FingerprintCoverage}
  {state : SnapshotLimitState} {file : SourceFile}

/-- The coverage of a view and the limits of its snapshot, after the same files. -/
structure CoverageAgrees (masked : Prop) (coverage : FingerprintCoverage)
    (state : SnapshotLimitState) : Prop where
  callables : coverage.callableOccurrences = state.callables
  room : state.callables ≤ maxCallableFingerprintsPerRequest
  request : coverage.requestTruncated = true ↔ 0 < state.callableRequest.count
  files : 0 < state.callableFiles.count ∨ 0 < state.regionFiles.count
    ↔ 0 < coverage.truncatedFiles ∨ masked

/-- A file with a truncation that the coverage does not show. -/
def MaskedFile (fileFacts : FactMap) (factKeys : FactKeyLookup) (file : SourceFile) : Prop :=
  ∃ factKey facts, lookupFileFact file fileFacts factKeys = some (factKey, facts) ∧ facts.Masked

omit [Sha256] in
theorem or_regroup {a b c d e f p q r s : Prop} (h : a ∨ b ↔ p ∨ q)
    (h' : (e ∨ f) ∨ c ∨ d ↔ r ∨ s) : (a ∨ c ∨ e) ∨ (b ∨ d ∨ f) ↔ (p ∨ r) ∨ q ∨ s := by
  calc (a ∨ c ∨ e) ∨ (b ∨ d ∨ f) ↔ (a ∨ b) ∨ (c ∨ e) ∨ (d ∨ f) := or_or_or_comm
    _ ↔ (a ∨ b) ∨ ((e ∨ f) ∨ c ∨ d) := by rw [or_or_or_comm (a := c), or_comm (a := c ∨ d)]
    _ ↔ (p ∨ q) ∨ (r ∨ s) := or_congr h h'
    _ ↔ (p ∨ r) ∨ q ∨ s := or_or_or_comm

theorem CoverageAgrees.step (h : CoverageAgrees masked coverage state) :
    CoverageAgrees (masked ∨ MaskedFile fileFacts factKeys file)
      (FingerprintCoverage.step fileFacts factKeys coverage file)
      (SnapshotLimitState.step fileFacts factKeys malformedFactKeys state file) := by
  rw [FingerprintCoverage.step, SnapshotLimitState.step]
  cases hlookup : lookupFileFact file fileFacts factKeys with
  | none =>
    have hmasked : ¬ MaskedFile fileFacts factKeys file := by
      rintro ⟨factKey, facts, hsome, -⟩
      rw [hlookup] at hsome
      cases hsome
    rw [or_iff_left hmasked]
    exact ⟨h.callables, h.room, h.request, h.files⟩
  | some found =>
    obtain ⟨factKey, facts⟩ := found
    have hmasked : MaskedFile fileFacts factKeys file ↔ facts.Masked := by
      constructor
      · rintro ⟨factKey', facts', hsome, hmasked⟩
        rw [hlookup] at hsome
        cases hsome
        exact hmasked
      · exact fun hmasked => ⟨factKey, facts, hlookup, hmasked⟩
    obtain ⟨hoccurrences, hrequest, htruncated⟩ := @recordFingerprintStatus_fields facts
      { coverage with files := coverage.files + 1 }
    have hcallables := @callablesObserved facts state file.path
    have hregions := @regionsObserved facts (observeCallableLimits state file.path facts) file.path
      (factKey ∈ malformedFactKeys)
    simp only [recordNonRegionCoverage]
    -- the file limits
    have hfiles : 0 < (observeRegionLimits (observeCallableLimits state file.path facts) file.path
          facts (factKey ∈ malformedFactKeys)).callableFiles.count
        ∨ 0 < (observeRegionLimits (observeCallableLimits state file.path facts) file.path
          facts (factKey ∈ malformedFactKeys)).regionFiles.count
        ↔ (0 < coverage.truncatedFiles ∨ facts.CountedTruncated)
          ∨ masked ∨ MaskedFile fileFacts factKeys file := by
      rw [hregions.callableFiles, hregions.files, hcallables.files, hcallables.regionFiles, hmasked]
      have haffected := @affected_iff facts
      rw [FileFacts.Affected, FileFacts.Oversized] at haffected
      exact or_regroup h.files haffected
    by_cases hskip : facts.callableFingerprints.status ≠ .complete
        ∨ maxCallableFingerprintsPerFile < facts.callableFingerprints.callables.length
    · obtain ⟨hsame, hsameRequest⟩ := hcallables.skipped hskip
      rw [if_pos hskip]
      refine ⟨?_, ?_, ?_, ?_⟩
      · rw [hregions.callables, hsame, hoccurrences]
        exact h.callables
      · rw [hregions.callables, hsame]
        exact h.room
      · rw [hregions.callableRequest, hsameRequest, hrequest]
        exact h.request
      · rw [htruncated]
        exact hfiles
    · obtain ⟨hadded, haddedRequest⟩ := hcallables.admitted hskip
      have hroom := h.room
      rw [if_neg hskip]
      refine ⟨?_, ?_, ?_, ?_⟩
      · rw [hregions.callables, hadded]
        simp only [hoccurrences]
        rw [h.callables]
      · rw [hregions.callables, hadded]
        omega
      · rw [hregions.callableRequest, haddedRequest]
        simp only [hoccurrences, hrequest, Bool.or_eq_true, decide_eq_true_eq]
        rw [h.request, h.callables]
      · simp only [htruncated]
        exact hfiles

/-- The two passes over a whole snapshot. -/
theorem coverageAgrees (snapshot : SourceSnapshot) (malformedFactKeys : BTreeSet FileFactKey) :
    CoverageAgrees (∃ file ∈ snapshot.fileList, MaskedFile fileFacts factKeys file)
      (fingerprintCoverage snapshot fileFacts factKeys)
      (snapshotLimitState snapshot fileFacts factKeys malformedFactKeys) := by
  have hfold : ∀ (files : List SourceFile) (masked : Prop) (coverage : FingerprintCoverage)
      (state : SnapshotLimitState), CoverageAgrees masked coverage state →
      CoverageAgrees (masked ∨ ∃ file ∈ files, MaskedFile fileFacts factKeys file)
        (files.foldl (FingerprintCoverage.step fileFacts factKeys) coverage)
        (files.foldl (SnapshotLimitState.step fileFacts factKeys malformedFactKeys) state) := by
    intro files
    induction files with
    | nil =>
      intro masked coverage state h
      simpa using h
    | cons file files ih =>
      intro masked coverage state h
      have hnext := ih _ _ _ (@CoverageAgrees.step _ fileFacts factKeys malformedFactKeys
        _ _ _ file h)
      rw [or_assoc] at hnext
      simpa only [List.mem_cons, exists_eq_or_imp, List.foldl_cons] using hnext
  have hstart : CoverageAgrees False {} {} :=
    ⟨rfl, Nat.zero_le _, iff_of_false nofun nofun, iff_of_false (by decide) (by decide)⟩
  have h := hfold snapshot.fileList False {} {} hstart
  rwa [false_or] at h

end Coverage

/-! ## The region view and the limit pass -/

section Regions

variable [Sha256] [Base64] {fileFacts : FactMap} {factKeys : FactKeyLookup}
  {continuity : BTreeMap RepoPath RepoPath} {malformedFactKeys : BTreeSet FileFactKey}
  {files : List SourceFile} {file : SourceFile} {state : SnapshotLimitState}
  {s : RegionView × DecodedEvidence}

/-- The regions of a view and the limits of its snapshot, after the same files. -/
structure RegionsAgree (view : RegionView) (state : SnapshotLimitState) : Prop where
  regions : view.retainedAnchors = state.regions
  request : view.requestTruncated = true ↔ 0 < state.regionRequest.count

/-- The set of malformed keys says of the files whether they can be decoded. -/
def TellsMalformed (fileFacts : FactMap) (factKeys : FactKeyLookup)
    (malformedFactKeys : BTreeSet FileFactKey) (files : List SourceFile) : Prop :=
  ∀ file ∈ files, ∀ factKey facts, completeEvidence fileFacts factKeys file = some (factKey, facts) →
    (factKey ∈ malformedFactKeys ↔ DecodedTokens.decode file facts = none)

omit [Sha256] [Base64] in
/-- A file whose anchors are not asked for leaves the limits of regions alone. -/
theorem RegionsAgree.skip {view : RegionView} (h : RegionsAgree view state) {facts : FileFacts}
    {path : RepoPath} {malformed : Bool} (hskip : ¬ facts.AsksRegions malformed) :
    RegionsAgree view (observeRegionLimits (observeCallableLimits state path facts) path facts
      malformed) := by
  have hcallables := @callablesObserved facts state path
  obtain ⟨hregions, hrequest⟩ := regionsObserved.skipped hskip
  refine ⟨?_, ?_⟩
  · rw [hregions, hcallables.regions]
    exact h.regions
  · rw [hrequest, hcallables.regionRequest]
    exact h.request

theorem RegionsAgree.step (h : RegionsAgree s.1 state)
    (hevidence : s.2.Faithful fileFacts factKeys files)
    (hkeys : SharedKeysAgree fileFacts factKeys files) (hfile : file ∈ files)
    (hmalformed : TellsMalformed fileFacts factKeys malformedFactKeys files) :
    RegionsAgree (RegionView.step fileFacts factKeys continuity s file).1
      (SnapshotLimitState.step fileFacts factKeys malformedFactKeys state file) := by
  rw [SnapshotLimitState.step]
  cases hlookup : lookupFileFact file fileFacts factKeys with
  | none =>
    have hincomplete : completeEvidence fileFacts factKeys file = none := by
      rw [completeEvidence, hlookup]
    rw [RegionView.step_incomplete hincomplete]
    exact h
  | some found =>
    obtain ⟨factKey, facts⟩ := found
    by_cases hstatus : facts.regionFingerprints.status = .complete
    · have hcomplete : completeEvidence fileFacts factKeys file
          = some (factKey, facts.regionFingerprints) := by
        rw [completeEvidence, hlookup]
        simp only [hstatus, if_true]
      -- Evidence that is marked malformed is the one that does not decode.
      have htells := hmalformed file hfile _ _ hcomplete
      have hcallables := @callablesObserved facts state file.path
      have hobserved := @regionsObserved facts (observeCallableLimits state file.path facts) file.path
        (factKey ∈ malformedFactKeys)
      have hasks : DecodedTokens.decode file facts.regionFingerprints ≠ none →
          facts.regionFingerprints.anchors.length ≤ maxRegionFingerprintsPerFile →
          facts.AsksRegions (decide (factKey ∈ malformedFactKeys)) := fun hdecodes hbounded =>
        ⟨hbounded, decide_eq_false fun hmem => hdecodes (htells.mp hmem), hstatus⟩
      obtain ⟨hstep, -⟩ := @RegionView.step_complete _ _ _ _ continuity _ _ _ _ _ hevidence hkeys
        hfile hcomplete
      generalize RegionView.step fileFacts factKeys continuity s file = s' at hstep ⊢
      obtain ⟨view', evidence'⟩ := s'
      simp only at hstep ⊢
      cases hstep with
      | malformed hdecode =>
        have hskip : ¬ facts.AsksRegions (decide (factKey ∈ malformedFactKeys)) := by
          rintro ⟨-, hfalse, -⟩
          exact absurd (htells.mpr hdecode) (of_decide_eq_false hfalse)
        obtain ⟨hregions, hrequest⟩ := @RegionsAgree.skip _ _ h _ file.path _ hskip
        exact ⟨hregions, hrequest⟩
      | skipped hdecode hadmitted =>
        rw [RegionView.admitted] at hadmitted
        -- Beyond the bound of a file neither side asks for room.
        by_cases hbounded : facts.regionFingerprints.anchors.length ≤ maxRegionFingerprintsPerFile
        · rw [if_pos hbounded, h.regions, ← hcallables.regions] at hadmitted
          obtain ⟨hregions, hrequest⟩ :=
            hobserved.refused (hasks (Option.isSome_iff_ne_none.mp hdecode) hbounded) hadmitted
          refine ⟨?_, iff_of_true ?_ hrequest⟩
          · rw [hregions, hcallables.regions]
            exact h.regions
          · simp only [RegionView.skipFile, hbounded, decide_true, Bool.or_true]
        · have hskip : s.1.skipFile facts.regionFingerprints = s.1 := by
            simp only [RegionView.skipFile, hbounded, decide_false, Bool.or_false]
          rw [hskip]
          exact h.skip fun hasks => hbounded hasks.1
      | @pushed decoded retainedAnchors hdecode hadmitted =>
        rw [RegionView.admitted] at hadmitted
        split_ifs at hadmitted with hbounded
        rw [h.regions, ← hcallables.regions] at hadmitted
        have hdecodes : DecodedTokens.decode file facts.regionFingerprints ≠ none := by
          rw [hdecode]
          exact Option.some_ne_none _
        obtain ⟨hregions, hrequest⟩ := hobserved.admitted (hasks hdecodes hbounded) _ hadmitted
        refine ⟨hregions.symm, ?_⟩
        rw [hrequest, hcallables.regionRequest]
        exact h.request
    · have hincomplete : completeEvidence fileFacts factKeys file = none := by
        rw [completeEvidence, hlookup]
        simp only [hstatus, if_false]
      rw [RegionView.step_incomplete hincomplete]
      exact h.skip fun hasks => hstatus hasks.2.2

/-- The two passes over a whole snapshot. -/
theorem regionsAgree (hkeys : SharedKeysAgree fileFacts factKeys files)
    (hmalformed : TellsMalformed fileFacts factKeys malformedFactKeys files) (senseView : SenseView)
    (snapshot : SourceSnapshot) (hfiles : ∀ file ∈ snapshot.fileList, file ∈ files)
    {evidence : DecodedEvidence} (hevidence : evidence.Faithful fileFacts factKeys files) :
    RegionsAgree (RegionView.new senseView snapshot fileFacts factKeys continuity evidence).1
      (snapshotLimitState snapshot fileFacts factKeys malformedFactKeys) := by
  have hfold : ∀ (rest : List SourceFile), (∀ file ∈ rest, file ∈ files) →
      ∀ (s : RegionView × DecodedEvidence) (state : SnapshotLimitState),
        RegionsAgree s.1 state → s.2.Faithful fileFacts factKeys files →
        RegionsAgree (rest.foldl (RegionView.step fileFacts factKeys continuity) s).1
          (rest.foldl (SnapshotLimitState.step fileFacts factKeys malformedFactKeys) state) := by
    intro rest
    induction rest with
    | nil => exact fun _ s state h _ => h
    | cons file rest ih =>
      intro hrest s state h hevidence
      obtain ⟨hfile, hrest⟩ := List.forall_mem_cons.mp hrest
      rw [List.foldl_cons, List.foldl_cons]
      refine ih hrest _ _ (h.step hevidence hkeys hfile hmalformed) ?_
      cases hcomplete : completeEvidence fileFacts factKeys file with
      | none =>
        rw [RegionView.step_incomplete hcomplete]
        exact hevidence
      | some found =>
        obtain ⟨factKey, facts⟩ := found
        exact (RegionView.step_complete hevidence hkeys hfile hcomplete).2
  obtain ⟨hregions, hrequest⟩ := hfold snapshot.fileList hfiles ({ view := senseView }, evidence) {}
    ⟨rfl, iff_of_false nofun nofun⟩ hevidence
  exact ⟨hregions, hrequest⟩

end Regions

end Opcore
