/-
  Opcore.Sense.Dedup.Malformed

  Malformed evidence is found when the views are built or not at all.  The views of a
  request retain decoded streams only, no comparison of theirs fails to read a token,
  and the request reports malformed evidence exactly for the streams that could not
  be decoded.
-/
import Opcore.Sense.Dedup.ViewEvidence

namespace Opcore

open Text Collections Smallest Fallible

/-! ## What a comparison cannot do -/

/-- A retained file with the evidence it was decoded from: the records kept for its
    tokens, and the text each of them stands for, are in the decoded bytes. -/
def RegionFile.Decoded [Sha256] [Base64] (fileFacts : FactMap) (factKeys : FactKeyLookup)
    (file : RegionFile) : Prop :=
  ∃ factKey facts bytes records,
    completeEvidence fileFacts factKeys file.source = some (factKey, facts)
      ∧ DecodedTokens.decode file.source facts = some file.decoded
      ∧ Base64.decode facts.encodedTokens = some bytes
      ∧ tokenRecordsAt bytes file.source.bytes.length facts.tokenCount 0 0 = some records
      ∧ file.decoded.tokens = records.map (TokenRecord.toToken bytes)
      ∧ ∀ record ∈ records, (record.lead? bytes).isSome

/-- No comparison that starts from an anchor reaches `mark_malformed_location`, which
    is what sets the flag of malformed evidence. -/
structure NeverFails [Sha256] (context : EvaluationContext) : Prop where
  regions : ∀ family anchor, ∀ seed ∈ context.after.group family anchor,
    ∀ peer ∈ context.after.group family anchor, NeverMarks (maximalExactRegion context.after seed peer)
  candidates : ∀ family anchor, ∀ seed ∈ context.after.group family anchor,
    ∀ comparison, Unmarked comparison →
      Unmarked (candidateRegions context.after anchor seed (context.after.group family anchor)
        comparison).2
  comparisons : ∀ family anchor, ∀ seed ∈ context.after.group family anchor, ∀ comparison,
    ∀ candidate ∈ (candidateRegions context.after anchor seed
      (context.after.group family anchor) comparison).1,
    ∀ target, target = context.before ∨ target = context.after →
      ∀ occurrence ∈ target.group family anchor, candidate.anchorOffset ≤ occurrence.tokenIndex →
        NeverMarks (regionsEqual ⟨context.after, candidate.file, candidate.start, candidate.stop,
          target, occurrence.file, occurrence.tokenIndex - candidate.anchorOffset,
          occurrence.tokenIndex - candidate.anchorOffset + candidate.len⟩)
  occurrences : ∀ family anchor, ∀ seed ∈ context.after.group family anchor, ∀ comparison,
    ∀ candidate ∈ (candidateRegions context.after anchor seed
      (context.after.group family anchor) comparison).1,
    ∀ target, target = context.before ∨ target = context.after → ∀ changedPaths,
      NeverMarks (exactOccurrences context.after candidate target family changedPaths)
  classes : ∀ family anchor, ∀ seed ∈ context.after.group family anchor, ∀ comparison,
    ∀ candidate ∈ (candidateRegions context.after anchor seed
      (context.after.group family anchor) comparison).1,
      NeverMarks (exactClass context family candidate)
        ∧ (context.after.regionDigest candidate.file candidate.start candidate.stop).isSome

section

variable [Sha256] {context : EvaluationContext}

theorem neverFails_of_validated (hbefore : context.before.Validated)
    (hafter : context.after.Validated) : NeverFails context := by
  have htarget : ∀ target, target = context.before ∨ target = context.after → target.Validated := by
    rintro target (rfl | rfl)
    · exact hbefore
    · exact hafter
  refine ⟨?_, ?_, ?_, ?_, ?_⟩
  · intro family anchor seed hseed peer hpeer
    exact keeps_maximalExactRegion stable_unmarked hafter hseed hpeer
  · intro family anchor seed hseed comparison hs
    exact stable_candidateRegions stable_unmarked hafter hseed hs
  · intro family anchor seed hseed comparison candidate hcandidate target htargetEq occurrence
      hoccurrence hoffset
    have hplaced := placed_candidateRegions candidate hcandidate
    exact keeps_regionsEqual stable_unmarked hafter (htarget target htargetEq)
      (exists_file_of_inRange (hplaced.inRange hplaced.pos))
      (exists_file_of_inRange ((htarget target htargetEq).anchored family anchor occurrence hoccurrence))
  · intro family anchor seed hseed comparison candidate hcandidate target htargetEq changedPaths
    have hplaced := placed_candidateRegions candidate hcandidate
    exact keeps_exactOccurrences stable_unmarked hafter (htarget target htargetEq) hplaced.pos
      hplaced.stop (exists_file_of_inRange (hplaced.inRange hplaced.pos))
  · intro family anchor seed hseed comparison candidate hcandidate
    have hplaced := placed_candidateRegions candidate hcandidate
    have hstop := hplaced.stop
    have hpos := hplaced.pos
    obtain ⟨digest, hdigest⟩ := exists_regionDigest hafter
      (show candidate.start < candidate.stop by omega) fun o ho =>
        hplaced.inRange (show o < candidate.len from ho)
    exact ⟨keeps_exactClass stable_unmarked hbefore hafter hplaced, by rw [hdigest]; rfl⟩

/-! ## The flag of malformed evidence -/

omit [Sha256] in
theorem malformedEvidence_foldl (paths : List RepoPath) (s : ComparisonState) :
    (paths.foldl ComparisonState.recordMalformedPath s).malformedEvidence = s.malformedEvidence
      ∧ (paths.foldl ComparisonState.recordMalformedPath s).incomplete = s.incomplete := by
  induction paths generalizing s with
  | nil => exact ⟨rfl, rfl⟩
  | cons path paths ih => exact ih _

omit [Sha256] in
/-- Looking at a view sets both flags exactly when it has malformed evidence. -/
theorem observeMalformedView_flags (s : ComparisonState) (view : RegionView) :
    (s.observeMalformedView view).malformedEvidence = (s.malformedEvidence || view.hasMalformed)
      ∧ (s.observeMalformedView view).incomplete = (s.incomplete || view.hasMalformed) := by
  rw [ComparisonState.observeMalformedView, RegionView.hasMalformed]
  cases hempty : view.malformedPaths.isEmpty with
  | false =>
    simp only [Bool.false_and, Bool.false_eq_true, if_false, malformedEvidence_foldl, Bool.not_false,
      Bool.true_or, Bool.or_true, and_self]
  | true =>
    cases htruncated : view.malformedPathsTruncated with
    | false => simp
    | true =>
      simp only [Bool.not_true, Bool.and_false, Bool.false_eq_true, if_false,
        malformedEvidence_foldl, Bool.or_true, and_self]

/-- After the whole evaluation, the flag still says what the views said. -/
theorem malformedEvidence_evaluateRegions (hbefore : context.before.Validated)
    (hafter : context.after.Validated) :
    (evaluateRegions context).comparison.malformedEvidence
      = (context.before.hasMalformed || context.after.hasMalformed) := by
  have hfirst := observeMalformedView_flags {} context.before
  have hboth := observeMalformedView_flags
    (({} : ComparisonState).observeMalformedView context.before) context.after
  rw [hfirst.1, hfirst.2, Bool.false_or] at hboth
  rw [evaluateRegions]
  split_ifs with hincomplete
  · exact hboth.1
  · rw [Bool.not_eq_true] at hincomplete
    rw [hboth.2] at hincomplete
    rw [hincomplete]
    refine stable_evaluateGroups stable_unmarked hbefore hafter _
      (fun group h => group_of_mem_allGroups h) _ ?_
    exact hboth.1.trans hincomplete

def malformedEvidenceCode : Str := ascii "dedup_exact_evidence_malformed"

omit [Sha256] in
/-- The issue is there exactly when the flag is set. -/
theorem exists_malformedIssue_iff (s : ComparisonState) :
    (∃ issue ∈ s.issues, issue.code = malformedEvidenceCode) ↔ s.malformedEvidence = true := by
  have hcode : ascii "dedup_exact_comparison_limit" ≠ malformedEvidenceCode := by decide
  have hlimit : ∀ issue ∈ s.limitIssue, issue.code ≠ malformedEvidenceCode := by
    intro issue hissue
    rw [ComparisonState.limitIssue] at hissue
    split_ifs at hissue
    · cases hissue
    · obtain rfl := Option.some.inj hissue
      exact hcode
  rw [ComparisonState.issues]
  constructor
  · rintro ⟨issue, hissue, hmalformed⟩
    obtain h | h := List.mem_append.mp hissue
    · exact absurd hmalformed (hlimit issue (Option.mem_toList.mp h))
    · have h := Option.mem_toList.mp h
      rw [ComparisonState.malformedIssue] at h
      split_ifs at h with hflag
      exact hflag
  · intro hflag
    have hsome : ∃ issue ∈ s.malformedIssue, issue.code = malformedEvidenceCode := by
      rw [ComparisonState.malformedIssue, if_pos hflag]
      exact ⟨_, rfl, rfl⟩
    obtain ⟨issue, hissue, hmalformed⟩ := hsome
    exact ⟨issue, List.mem_append_right _ (Option.mem_toList.mpr hissue), hmalformed⟩

end

/-! ## The request -/

section

variable [Sha256] [Base64] (inputs : RegionInputs) {fileFacts : FactMap} {factKeys : FactKeyLookup}

/-- All files of the request. -/
def RegionInputs.files : List SourceFile := inputs.before.fileList ++ inputs.after.fileList

/-- Both views are built from the files of their snapshots. -/
theorem regionViews_built {inputs : RegionInputs}
    (hkeys : SharedKeysAgree inputs.fileFacts inputs.factKeys inputs.files) :
    RegionView.BuiltFrom inputs.fileFacts inputs.factKeys inputs.before.fileList
        (regionViews inputs).1.before
      ∧ RegionView.BuiltFrom inputs.fileFacts inputs.factKeys inputs.after.fileList
        (regionViews inputs).1.after
      ∧ (regionViews inputs).2.Faithful inputs.fileFacts inputs.factKeys inputs.files := by
  have hempty : DecodedEvidence.Faithful inputs.fileFacts inputs.factKeys inputs.files ∅ :=
    ⟨fun factKey state hstate => by cases hstate⟩
  obtain ⟨hbefore, hevidence⟩ := @RegionView.builtFrom_new _ _ _ _ inputs.continuity _ hkeys .before
    inputs.before (fun file hfile => List.mem_append_left _ hfile) _ hempty
  obtain ⟨hafter, hevidence⟩ := @RegionView.builtFrom_new _ _ _ _ ∅ _ hkeys .after
    inputs.after (fun file hfile => List.mem_append_right _ hfile) _ hevidence
  exact ⟨hbefore, hafter, hevidence⟩

theorem decoded_of_builtFrom {done : List SourceFile} {view : RegionView}
    (h : RegionView.BuiltFrom fileFacts factKeys done view) :
    ∀ file ∈ view.files, file.Decoded fileFacts factKeys := by
  intro file hfile
  obtain ⟨factKey, facts, hcomplete, hdecode⟩ := h.retained file hfile
  obtain ⟨bytes, records, hbytes, hrecords, htokens, hreadable⟩ := exists_records_of_decode hdecode
  exact ⟨factKey, facts, bytes, records, hcomplete, hdecode, hbytes, hrecords, htokens, hreadable⟩

/-- The report of two equal views names malformed evidence exactly when the view has it. -/
theorem identical_malformed_iff {snapshot : SourceSnapshot}
    (hkeys : SharedKeysAgree fileFacts factKeys snapshot.fileList) :
    (∃ issue ∈ (validateIdenticalSnapshot snapshot fileFacts factKeys).2.1,
        issue.code = malformedEvidenceCode)
      ↔ ∃ file ∈ snapshot.fileList, DecodingFails fileFacts factKeys file := by
  have hempty : DecodedEvidence.Faithful fileFacts factKeys snapshot.fileList ∅ :=
    ⟨fun factKey state hstate => by cases hstate⟩
  obtain ⟨hbuilt, -⟩ := @RegionView.builtFrom_new _ _ _ _ ∅ _ hkeys .before snapshot
    (fun file hfile => hfile) _ hempty
  rw [← hbuilt.malformed]
  rw [validateIdenticalSnapshot]
  simp only
  rw [exists_malformedIssue_iff]
  have hflags := (observeMalformedView_flags {}
    (RegionView.new .before snapshot fileFacts factKeys ∅ ∅).1).1
  rw [Bool.false_or] at hflags
  split_ifs
  · exact Bool.eq_iff_iff.mp hflags
  · exact Bool.eq_iff_iff.mp hflags

/-- Evidence can be malformed in arbitrary ways: what is retained was decoded and can
    be read, no comparison fails on it, and the request reports malformed evidence
    exactly when the evidence of some complete file could not be decoded. -/
theorem validated_evidence_never_fails
    (hkeys : SharedKeysAgree inputs.fileFacts inputs.factKeys inputs.files) :
    (∀ view, view = (regionViews inputs).1.before ∨ view = (regionViews inputs).1.after →
        ∀ file ∈ view.files, file.Decoded inputs.fileFacts inputs.factKeys)
      ∧ NeverFails (regionViews inputs).1
      ∧ ((∃ issue ∈ (regionFindings inputs).comparisonIssues, issue.code = malformedEvidenceCode)
          ↔ ∃ file ∈ inputs.files, DecodingFails inputs.fileFacts inputs.factKeys file)
      ∧ ((∃ issue ∈ (validateIdenticalSnapshot inputs.before inputs.fileFacts inputs.factKeys).2.1,
            issue.code = malformedEvidenceCode)
          ↔ ∃ file ∈ inputs.before.fileList,
              DecodingFails inputs.fileFacts inputs.factKeys file) := by
  obtain ⟨hbefore, hafter, -⟩ := regionViews_built hkeys
  refine ⟨?_, neverFails_of_validated hbefore.validated hafter.validated, ?_, ?_⟩
  · rintro view (rfl | rfl)
    · exact decoded_of_builtFrom hbefore
    · exact decoded_of_builtFrom hafter
  · rw [regionFindings]
    simp only
    rw [exists_malformedIssue_iff,
      malformedEvidence_evaluateRegions hbefore.validated hafter.validated, Bool.or_eq_true,
      hbefore.malformed, hafter.malformed]
    simp only [RegionInputs.files, List.mem_append, or_and_right, exists_or]
  · exact identical_malformed_iff fun file hfile other hother =>
      hkeys file (List.mem_append_left _ hfile) other (List.mem_append_left _ hother)

/-- A file whose cached stream holds one byte where a record should be. -/
def corruptedFile : SourceFile := ⟨samplePath "p.py", ascii "x", .python, []⟩

def corruptedFacts : RegionFingerprintFacts :=
  { status := .complete, tokenCount := 1, encodedTokens := [0], anchors := [⟨0, 0, 0⟩] }

/-- The file, of which the second view has a copy. -/
def corruptedInputs : RegionInputs where
  suppressedPaths := ∅
  callableFindings := []
  findingLimit := maxSenseFindings
  changedPaths := ∅
  continuity := ∅
  before := .new [corruptedFile]
  after := .new [corruptedFile, { corruptedFile with path := samplePath "q.py" }]
  fileFacts :=
    BTreeMap.ofList [(factKey corruptedFile [], { regionFingerprints := corruptedFacts })]
  factKeys :=
    BTreeMap.ofList [(corruptedFile.contentId, BTreeMap.ofList [([], factKey corruptedFile [])])]

end

theorem corruptedInputs_reported :
    letI := identityDigest
    letI := plainBase64
    SharedKeysAgree corruptedInputs.fileFacts corruptedInputs.factKeys corruptedInputs.files
      ∧ ∃ issue ∈ (regionFindings corruptedInputs).comparisonIssues,
          issue.code = malformedEvidenceCode := by
  let := identityDigest
  let := plainBase64
  have hbytes : ∀ file ∈ corruptedInputs.files, file.bytes = ascii "x" := by decide +kernel
  have hkeys : SharedKeysAgree corruptedInputs.fileFacts corruptedInputs.factKeys
      corruptedInputs.files := by
    intro file hfile other hother _ _ _ _ _
    rw [hbytes file hfile, hbytes other hother]
  refine ⟨hkeys, (validated_evidence_never_fails corruptedInputs hkeys).2.2.1.mpr ?_⟩
  exact ⟨corruptedFile, by decide +kernel, factKey corruptedFile [], corruptedFacts,
    by decide +kernel, by decide +kernel⟩

end Opcore
