/-
  Opcore.Protocol.Accepted

  The host accepts what the fast provider returns.  A request the host builds is
  read back as it was meant, the provider's trees have the candidate's paths, and
  whether it ends in an evaluation or in a gap, its assessment passes each of the
  host's checks against that request and the blobs it was handed.
-/
import Opcore.Engine.Introduced
import Opcore.Protocol.AssessmentParts
import Opcore.Protocol.Candidate
import Opcore.Protocol.ReadSet

namespace Opcore

open Text Collections Json Asp Validation

/-! ## The request -/

/-- The params of an evaluation request of a host, in key order. -/
def evaluationParams [Build] (changeset : ChangeSet) (comparison : Str) (configuration : Value) :
    Value :=
  .object [(ascii "changeset", changeset.toValue), (ascii "comparison", .string comparison),
    (ascii "configuration", configuration), (ascii "scope", .string (ascii "workspace"))]

/-- A host sends a changeset as its JSON, on the baseline of its workspace. -/
theorem hostInput_params [Sha256] [Build] {capture : GitNativeCapture} {root : WorkspaceRoot}
    {comparison : Str} {verify : Value} {prepared : PreparedRoot}
    (h : hostInput capture root .fast comparison verify = .ok prepared) :
    ∃ changeset : ChangeSet, prepared.workspace.baseline = changeset.baseline.toValue
      ∧ prepared.params
        = evaluationParams changeset comparison (.object [(ascii "verify", verify)]) := by
  obtain ⟨mapping, hmapping, hsent⟩ := hostInput_ok h
  obtain ⟨empty, -, h⟩ := Except.bind_eq_ok_iff.mp h
  obtain ⟨mapping', hmapping', h⟩ := Except.bind_eq_ok_iff.mp h
  obtain ⟨⟨listed, candidates⟩, -, h⟩ := Except.bind_eq_ok_iff.mp h
  obtain ⟨⟨values, final⟩, hfinal, h⟩ := Except.bind_eq_ok_iff.mp h
  cases h
  refine ⟨sentChangeset capture mapping', hsent.baseline, ?_⟩
  show Value.object _ = _
  rw [(rootChanges_ok hfinal).2.2]
  rfl

section

variable [PriorEvidence] [Build] {changeset : ChangeSet} {comparison : Str} {configuration : Value}

/-- The params are read where every path of the changeset can be sent. -/
theorem parseCanonicalParams_ok {params : CanonicalParams}
    (h : parseCanonicalParams (evaluationParams changeset comparison configuration) = .ok params) :
    (∀ change ∈ changeset.changes, change.isSendable = true)
      ∧ ∃ wire : WireComparison, wire.asStr = comparison
        ∧ params = ⟨changeset, .workspace, wire, some configuration, [], []⟩ := by
  unfold parseCanonicalParams at h
  split at h
  · cases h
  · next parsed priorDiagnostics priorAssessments hparsed =>
    obtain ⟨_, -, h⟩ := Except.bind_eq_ok_iff.mp h
    cases h
    obtain ⟨read, hread, hparsed⟩ := Option.bind_eq_some_iff.mp hparsed
    obtain ⟨scope, hscope, hparsed⟩ := Option.bind_eq_some_iff.mp hparsed
    obtain ⟨wire, hwire, hparsed⟩ := Option.bind_eq_some_iff.mp hparsed
    obtain ⟨sources, hsources, hparsed⟩ := Option.bind_eq_some_iff.mp hparsed
    obtain ⟨rules, hrules, hparsed⟩ := Option.bind_eq_some_iff.mp hparsed
    obtain ⟨diagnostics, -, hparsed⟩ := Option.bind_eq_some_iff.mp hparsed
    obtain ⟨assessments, -, hparsed⟩ := Option.bind_eq_some_iff.mp hparsed
    cases hparsed
    cases hscope
    cases hsources
    cases hrules
    have hread : ChangeSet.ofValue? changeset.toValue = some read := hread
    rw [ChangeSet.ofValue?_toValue] at hread
    split_ifs at hread with hall
    cases hread
    refine ⟨List.all_eq_true.mp hall, wire, ?_, rfl⟩
    have hwire : [WireComparison.introduced, .all, .resolved].find?
        (fun wire => decide (wire.asStr = comparison)) = some wire := hwire
    simpa using List.find?_some hwire

/-- What a normalized request of a host comes from. -/
theorem normalizeParamsFor_ok [Sha256] {session : AspSession} {request : NormalizedRequest}
    (h : normalizeParamsFor (evaluationParams changeset comparison configuration) session .fast
      = .ok request) :
    (∀ change ∈ changeset.changes, change.isSendable = true)
      ∧ validateChangeset changeset = .ok ()
      ∧ ∃ wire resolved, wire.asStr = comparison
        ∧ Configuration.resolve (some configuration) .fast = .ok resolved
        ∧ request = normalizeComparison ⟨changeset, .workspace, wire, some configuration, [], []⟩
          .workspace resolved .fast := by
  obtain ⟨params, hparams, h⟩ := Except.bind_eq_ok_iff.mp h
  obtain ⟨hsendable, wire, hwire, rfl⟩ := parseCanonicalParams_ok hparams
  obtain ⟨resolved, hresolved, h⟩ := Except.bind_eq_ok_iff.mp h
  obtain ⟨scope, hscope, h⟩ := Except.bind_eq_ok_iff.mp h
  cases hscope
  obtain ⟨_, hinputs, h⟩ := Except.bind_eq_ok_iff.mp h
  cases h
  obtain ⟨_, -, hinputs⟩ := Except.bind_eq_ok_iff.mp hinputs
  obtain ⟨_, -, hinputs⟩ := Except.bind_eq_ok_iff.mp hinputs
  obtain ⟨_, hvalid, -⟩ := Except.bind_eq_ok_iff.mp hinputs
  exact ⟨hsendable, hvalid, wire, resolved, hwire, hresolved, rfl⟩

end

/-! ## What the host expects -/

section

variable [Build] {prepared : PreparedRoot} {changeset : ChangeSet} {comparison : Str}
  {configuration : Value}

/-- A request without names asks for everything the provider has. -/
theorem expectedCoveragePart_evaluationParams
    (hparams : prepared.params = evaluationParams changeset comparison configuration) :
    expectedCoveragePart prepared.request .fast
      = .ok (coveragePart (.string (ascii "workspace")) [ProviderProfile.fast.providerId]
        [ProviderProfile.fast.rule] (.string comparison), .string comparison) := by
  unfold expectedCoveragePart PreparedRoot.request
  rw [hparams]
  rfl

/-- The paths a diagnostic may have are those of the candidate. -/
theorem requestedDiagnosticPaths_evaluationParams
    (hparams : prepared.params = evaluationParams changeset comparison configuration)
    (hsendable : ∀ change ∈ changeset.changes, change.isSendable = true)
    (hlegal : ∀ change ∈ changeset.changes, change.Legal) :
    requestedDiagnosticPaths prepared.request
      = .ok (changeset.changes.foldl CandidatePaths.apply
        ⟨prepared.workspace.entries.keySet, ∅⟩).candidate := by
  have hchanges : (prepared.request.evaluationParams.get? (ascii "changeset")).bind
      (·.get? (ascii "changes")) = some (.array (changeset.changes.map Change.toValue)) := by
    unfold PreparedRoot.request
    rw [hparams]
    rfl
  have hscope : prepared.request.evaluationParams.get? (ascii "scope")
      = some (.string (ascii "workspace")) := by
    unfold PreparedRoot.request
    rw [hparams]
    rfl
  unfold requestedDiagnosticPaths
  dsimp only
  rw [hchanges, hscope]
  exact Except.bind_eq_ok_iff.mpr
    ⟨_, foldlM_applyCandidateChange hsendable hlegal _, rfl⟩

end

/-! ## The session -/

/-- The permissions a host grants. -/
def grantValue (wallclockMs : Nat) : Value :=
  .object [(ascii "network", .bool false), (ascii "read", .array [.string (ascii "**/*")]),
    (ascii "resourceLimits", .object [(ascii "wallclockMs", .number (.int wallclockMs))]),
    (ascii "write", .bool false)]

theorem hostSession_ok [Build] {workspace : HostWorkspace} {profile : ProviderProfile}
    {wallclockMs : Nat} {session : AspSession}
    (h : hostSession workspace profile wallclockMs = .ok session) :
    session.baseline = workspace.baseline ∧ session.initializedGrant = grantValue wallclockMs := by
  obtain ⟨⟨_, expected⟩, -, h⟩ := Except.bind_eq_ok_iff.mp h
  obtain ⟨_, -, h⟩ := Except.bind_eq_ok_iff.mp h
  obtain ⟨baseline, hbaseline, h⟩ := Except.bind_eq_ok_iff.mp h
  obtain ⟨_, -, h⟩ := Except.bind_eq_ok_iff.mp h
  obtain ⟨granted, -, h⟩ := Except.bind_eq_ok_iff.mp h
  cases h
  refine ⟨?_, rfl⟩
  obtain ⟨_, -, hbaseline⟩ := Except.bind_eq_ok_iff.mp hbaseline
  dsimp only at hbaseline
  split_ifs at hbaseline
  · cases hbaseline
  · cases hbaseline
    rfl

/-! ## What the provider claims -/

/-- What the provider works on, where it supports the comparison. -/
def normalizedParams [Sha256] [Build] (changeset : ChangeSet) (comparison : Comparison)
    (resolved : Configuration) : NormalizedParams where
  changeset
  changesetDigest := jsonDigest changeset.toValue
  scope := .workspace
  scopeJson := .string (ascii "workspace")
  comparison
  requestedSources := [ProviderProfile.fast.providerId]
  requestedRules := [ProviderProfile.fast.rule]
  configuration := resolved

section

variable [Sha256] [Build] {assessment : Assessment} {changeset : ChangeSet}
  {comparison : Comparison} {resolved : Configuration}

/-- Every notice is the provider's own, with a known reason and a detail. -/
theorem notice_of_mem_degraded {item : Value}
    (h : item ∈ (AspCoverage.new assessment
      (normalizedParams changeset comparison resolved)).degraded) :
    ∃ reason detail, item = coverageNotice ProviderProfile.fast.providerId reason detail
      ∧ reason ∈ degradationReasons ∧ detail ≠ [] := by
  rcases List.mem_append.mp h with hunsupported | hincomplete
  · rcases List.mem_append.mp hunsupported with hgap | hrequest
    · obtain ⟨gap, -, rfl⟩ := List.mem_map.mp hgap
      refine ⟨_, _, rfl, by decide, ?_⟩
      exact List.append_ne_nil_of_left_ne_nil (List.append_ne_nil_of_right_ne_nil _ (by decide)) _
    · have hsupported : requestUnsupported (AspCoverage.new assessment
          (normalizedParams changeset comparison resolved)).requestSupport = [] := rfl
      have hnone : item ∈ ([] : List Value) := hsupported ▸ hrequest
      cases hnone
  · split_ifs at hincomplete with hstatus
    · rw [List.mem_singleton.mp hincomplete]
      exact ⟨_, _, rfl, by decide, by decide⟩
    · cases hincomplete

theorem mem_degraded_of_mem_unsupported {item : Value}
    (h : item ∈ (AspCoverage.new assessment
      (normalizedParams changeset comparison resolved)).unsupported) :
    item ∈ (AspCoverage.new assessment
      (normalizedParams changeset comparison resolved)).degraded :=
  List.mem_append_left _ h

/-- The status of a coverage and what it claims fit, whatever the engine found. -/
theorem claimed_new (assessment : Assessment) (requested : List Str → List Str → Value) :
    let coverage := AspCoverage.new assessment (normalizedParams changeset comparison resolved)
    Claimed (coverage.status assessment)
      (requested [ProviderProfile.fast.providerId] [ProviderProfile.fast.rule])
      (requested coverage.coveredSources coverage.coveredRules) coverage.degraded
      coverage.unsupported coverage.isComplete coverage.isIncomplete := by
  intro coverage
  have hsame : coverage.assessmentStatus = assessment.status := rfl
  have hcomplete : coverage.isComplete = true ↔ coverage.unsupported = []
      ∧ assessment.status ∉ [AssessmentStatus.notChecked, .incomplete, .error, .cancelled] := by
    rw [AspCoverage.isComplete, Bool.and_eq_true, List.isEmpty_iff, decide_eq_true_iff, hsame]
  refine ⟨?_, ?_⟩
  · rw [hcomplete]
    unfold AspCoverage.status
    rw [hsame]
    have hnames : ascii "cancelled" ≠ ascii "complete" ∧ ascii "error" ≠ ascii "complete"
        ∧ ascii "unsupported" ≠ ascii "complete" ∧ ascii "incomplete" ≠ ascii "complete" := by
      decide
    obtain ⟨hcancelled, herror, hunsupported, hincomplete⟩ := hnames
    cases assessment.status <;> by_cases hnone : coverage.unsupported = [] <;>
      simp [hnone, hcancelled, herror, hunsupported, hincomplete]
  · intro hexhaustive
    obtain ⟨hnone, hstatus⟩ := hcomplete.mp hexhaustive
    have hincomplete : assessment.status ≠ .incomplete := by
      intro heq
      exact hstatus (heq ▸ List.mem_cons_of_mem _ List.mem_cons_self)
    refine ⟨decide_eq_false hincomplete, ?_, ?_, hnone⟩
    · rw [AspCoverage.coveredSources, AspCoverage.coveredRules, if_pos hexhaustive,
        if_pos hexhaustive]
      rfl
    · have hdegraded : coverage.degraded = coverage.unsupported ++ [] :=
        congrArg (coverage.unsupported ++ ·) (if_neg hincomplete)
      rw [hdegraded, hnone]
      rfl

end

/-! ## Answers to a request -/

theorem Asp.WireComparison.asStr_mem (wire : WireComparison) :
    wire.asStr ∈ [ascii "introduced", ascii "all", ascii "resolved"] := by
  cases wire <;> decide

theorem jsonDigest_ne_nil [Sha256] (value : Value) : jsonDigest value ≠ [] :=
  List.append_ne_nil_of_left_ne_nil (by decide) _

theorem containsHostOwnedField_baseline [Build] (baseline : Baseline) :
    containsHostOwnedField baseline.toValue = false := by
  obtain ⟨rev, dirty, stampedAt⟩ := baseline
  cases dirty <;> cases stampedAt <;> rfl

/-- The part of the coverage the host asks for. -/
def requestedCoverage (wire : WireComparison) : Value :=
  coveragePart (.string (ascii "workspace")) [ProviderProfile.fast.providerId]
    [ProviderProfile.fast.rule] (.string wire.asStr)

theorem validateCoveragePart_requested (wire : WireComparison) (label : Str) :
    validateCoveragePart (some (requestedCoverage wire)) label = .ok () :=
  validateCoveragePart_coveragePart (by decide) (by decide) (by decide) (by decide) wire.asStr_mem

theorem validateCoveragePart_uncovered (wire : WireComparison) (label : Str) :
    validateCoveragePart (some (coveragePart (.string (ascii "workspace")) [] []
      (.string wire.asStr))) label = .ok () :=
  validateCoveragePart_coveragePart nofun List.nodup_nil nofun List.nodup_nil wire.asStr_mem

section

variable [Sha256] [Build]

/-- A request of a host that the provider has read, with the session it reads it in. -/
structure Asked (prepared : PreparedRoot) (session : AspSession) (changeset : ChangeSet)
    (wire : WireComparison) (configuration : Value) (resolved : Configuration) (wallclockMs : Nat) :
    Prop where
  params : prepared.params = evaluationParams changeset wire.asStr configuration
  sendable : ∀ change ∈ changeset.changes, change.isSendable = true
  legal : ∀ change ∈ changeset.changes, change.Legal
  resolved : Configuration.resolve (some configuration) .fast = .ok resolved
  changeset_baseline : prepared.workspace.baseline = changeset.baseline.toValue
  session_baseline : session.baseline = prepared.workspace.baseline
  grant : session.initializedGrant = grantValue wallclockMs

namespace Asked

variable {prepared : PreparedRoot} {session : AspSession} {changeset : ChangeSet}
  {wire : WireComparison} {configuration : Value} {resolved : Configuration} {wallclockMs : Nat}
  (h : Asked prepared session changeset wire configuration resolved wallclockMs)

include h

theorem validateFreshness_ok {readIds : List Str} (hne : ∀ id ∈ readIds, id ≠ [])
    (hnodup : readIds.Nodup) :
    validateFreshness
      (some (validAsOfValue session.baseline (jsonDigest changeset.toValue) readIds))
        prepared.request (BTreeSet.ofList readIds) = .ok () := by
  have hchangeset : prepared.request.evaluationParams.get? (ascii "changeset")
      = some changeset.toValue := by
    unfold PreparedRoot.request
    rw [h.params]
    rfl
  rw [h.session_baseline]
  exact validateFreshness_validAsOfValue hchangeset hne hnodup

theorem validateProvider_ok :
    validateProvider (some (providerValue .fast resolved.digest)) .fast prepared.request
      = .ok () := by
  have hconfiguration : prepared.request.evaluationParams.get? (ascii "configuration")
      = some configuration := by
    unfold PreparedRoot.request
    rw [h.params]
    rfl
  refine validateProvider_providerValue ?_ ?_
  · rw [hconfiguration, configurationDigest, h.resolved]
    rfl
  · obtain ⟨verify, -, hresolved⟩ := Except.bind_eq_ok_iff.mp h.resolved
    cases hresolved
    exact jsonDigest_ne_nil _

theorem hostOwned_validAsOf (changesetDigest : Str) (readIds : List Str) :
    containsHostOwnedField (validAsOfValue session.baseline changesetDigest readIds) = false := by
  refine containsHostOwnedField_validAsOfValue ?_ changesetDigest readIds
  rw [h.session_baseline, h.changeset_baseline]
  exact containsHostOwnedField_baseline changeset.baseline

/-! ## Gaps -/

/-- A gap that names itself is accepted: it covers nothing and cites no blob. -/
theorem coverageGapValue_accepted {status detail : Str} (truncated : Bool)
    (hstatus : status ∈ [ascii "incomplete", ascii "unsupported"]) (hdetail : detail ≠ []) :
    ∃ accepted, validateAssessment
      (coverageGapValue
        { profile := .fast, session, scope := .string (ascii "workspace")
          comparison := .string wire.asStr
          requestedSources := [ProviderProfile.fast.providerId]
          requestedRules := [ProviderProfile.fast.rule]
          changesetDigest := jsonDigest changeset.toValue, detail
          configDigest := resolved.digest, status, truncated })
      prepared.request .fast ∅ = .ok accepted := by
  have hknown : status ∈ degradationReasons ∧ status ∈ assessmentStatuses := by
    rcases List.mem_cons.mp hstatus with rfl | hstatus
    · decide
    · rw [List.mem_singleton.mp hstatus]
      decide
  have hnotice : ∀ label, validateDegradation label ProviderProfile.fast.providerId
      (coverageNotice ProviderProfile.fast.providerId status detail) = .ok () :=
    fun label => validateDegradation_coverageNotice hknown.1 hdetail
  -- The notice stands in the list of its status and in no other.
  have hunsupported : ∀ item ∈ (if status = ascii "unsupported" then
      [coverageNotice ProviderProfile.fast.providerId status detail] else []),
      item = coverageNotice ProviderProfile.fast.providerId status detail := by
    intro item hitem
    split_ifs at hitem
    · exact List.mem_singleton.mp hitem
    · cases hitem
  have hclaimed : Claimed status (requestedCoverage wire)
      (coveragePart (.string (ascii "workspace")) [] [] (.string wire.asStr))
      [coverageNotice ProviderProfile.fast.providerId status detail]
      (if status = ascii "unsupported" then
        [coverageNotice ProviderProfile.fast.providerId status detail] else []) false
        truncated := by
    refine ⟨⟨nofun, ?_⟩, nofun⟩
    rintro rfl
    exact absurd hstatus (by decide)
  refine validateAssessment_assessmentValue (expectedCoveragePart_evaluationParams h.params)
    (requestedDiagnosticPaths_evaluationParams h.params h.sendable h.legal) ?_ hknown.2
    (Nat.zero_le _) nofun validateEvidence_nil ?_ ?_ h.validateProvider_ok (by decide) (by decide)
  · -- No host field, then coverage, then freshness.
    refine containsHostOwnedField_assessmentValue ?_ nofun nofun (h.hostOwned_validAsOf _ [])
    refine containsHostOwnedField_coverageValue (containsHostOwnedField_coveragePart _ _ _ _)
      (containsHostOwnedField_coveragePart _ _ _ _) ?_ ?_
    · intro item hitem
      rw [List.mem_singleton.mp hitem]
      rfl
    · intro item hitem
      rw [hunsupported item hitem]
      rfl
  · refine validateCoverage_coverageValue (validateCoveragePart_requested wire _)
      (validateCoveragePart_uncovered wire _) ?_ ?_ hclaimed
    · intro item hitem label
      rw [List.mem_singleton.mp hitem]
      exact hnotice label
    · intro item hitem label
      rw [hunsupported item hitem]
      exact hnotice label
  · exact h.validateFreshness_ok nofun List.nodup_nil

/-! ## Assessments -/

/-- What the provider makes of the engine's assessment is accepted: its diagnostics are
    the ones of files of the candidate. -/
theorem toAspAssessment_accepted {comparison : Comparison}
    (hcomparison : comparison.asStr = wire.asStr) {assessment : Assessment}
    {measured : Measurement} {readIds : List Str} (hne : ∀ id ∈ readIds, id ≠ [])
    (hnodup : readIds.Nodup) (hcount : assessment.diagnostics.length ≤ maxDiagnostics)
    (hreported : ∀ diagnostic ∈ assessment.diagnostics, ∃ file raw n,
      diagnostic = (materializeOne file raw n).diagnostic ∧ raw.Reportable
        ∧ isProtocolPath file.path = true
        ∧ file.path ∈ (changeset.changes.foldl CandidatePaths.apply
          ⟨prepared.workspace.entries.keySet, ∅⟩).candidate) :
    ∃ accepted, validateAssessment
      (toAspAssessment assessment measured (normalizedParams changeset comparison resolved) readIds
        session.baseline session.initializedGrant)
      prepared.request .fast (BTreeSet.ofList readIds) = .ok accepted := by
  have hdiagnostics : ∀ item ∈ assessment.diagnostics.map (aspDiagnostic comparison),
      validateDiagnostic .fast (.string wire.asStr)
        (changeset.changes.foldl CandidatePaths.apply
          ⟨prepared.workspace.entries.keySet, ∅⟩).candidate item = .ok () := by
    intro item hitem
    obtain ⟨diagnostic, hdiagnostic, rfl⟩ := List.mem_map.mp hitem
    obtain ⟨file, raw, n, rfl, hraw, hpath, hallowed⟩ := hreported diagnostic hdiagnostic
    rw [← hcomparison]
    exact validateDiagnostic_aspDiagnostic comparison hraw hpath hallowed
  -- What the engine says of itself names a known reason and has a text.
  have hnotice : ∀ item ∈ (AspCoverage.new assessment
      (normalizedParams changeset comparison resolved)).degraded,
      containsHostOwnedField item = false
        ∧ ∀ label, validateDegradation label ProviderProfile.fast.providerId item = .ok () := by
    intro item hitem
    obtain ⟨reason, detail, rfl, hreason, hdetail⟩ := notice_of_mem_degraded hitem
    exact ⟨rfl, fun label => validateDegradation_coverageNotice hreason hdetail⟩
  let coverage := AspCoverage.new assessment (normalizedParams changeset comparison resolved)
  have hcovered : ∀ label, validateCoveragePart (some (coveragePart (.string (ascii "workspace"))
      coverage.coveredSources coverage.coveredRules (.string wire.asStr))) label = .ok () := by
    intro label
    rw [AspCoverage.coveredSources, AspCoverage.coveredRules]
    cases coverage.isComplete with
    | true => exact validateCoveragePart_requested wire label
    | false => exact validateCoveragePart_uncovered wire label
  have hclaimed := @claimed_new _ _ changeset comparison resolved assessment fun sources rules =>
    coveragePart (.string (ascii "workspace")) sources rules (.string wire.asStr)
  have hstatus : coverage.status assessment ∈ assessmentStatuses := by
    unfold AspCoverage.status
    split
    · decide
    · decide
    · decide
    · split_ifs <;> decide
  have hcache : cacheStatus measured
      ∈ [ascii "hit", ascii "miss", ascii "stale", ascii "disabled"] := by
    unfold cacheStatus
    split_ifs <;> decide
  -- The value that the profile builds, spelled out for the validator.
  show ∃ accepted, validateAssessment (assessmentValue (cacheStatus measured)
    (coverageValue
      (coveragePart (.string (ascii "workspace")) [ProviderProfile.fast.providerId]
        [ProviderProfile.fast.rule] (.string comparison.asStr))
      (coveragePart (.string (ascii "workspace")) coverage.coveredSources coverage.coveredRules
        (.string comparison.asStr))
      coverage.degraded coverage.unsupported coverage.isComplete coverage.isIncomplete)
    (assessment.diagnostics.map (aspDiagnostic comparison))
    [evidenceValue assessment measured session.initializedGrant]
    (providerValue .fast resolved.digest) (coverage.status assessment) measured.durationMs.toNat
    (validAsOfValue session.baseline (jsonDigest changeset.toValue) readIds)) prepared.request .fast
    (BTreeSet.ofList readIds) = .ok accepted
  rw [hcomparison]
  refine validateAssessment_assessmentValue (expectedCoveragePart_evaluationParams h.params)
    (requestedDiagnosticPaths_evaluationParams h.params h.sendable h.legal) ?_ hstatus
    ((List.length_map _).trans_le hcount) hdiagnostics (validateEvidence_evidenceValue _ _ _) ?_
    (h.validateFreshness_ok hne hnodup) h.validateProvider_ok measured.durationMs.toNat_lt hcache
  · refine containsHostOwnedField_assessmentValue ?_ ?_ ?_ (h.hostOwned_validAsOf _ readIds)
    · exact containsHostOwnedField_coverageValue (containsHostOwnedField_coveragePart _ _ _ _)
        (containsHostOwnedField_coveragePart _ _ _ _) (fun item hitem => (hnotice item hitem).1)
        fun item hitem => (hnotice item (mem_degraded_of_mem_unsupported hitem)).1
    · intro item hitem
      obtain ⟨diagnostic, -, rfl⟩ := List.mem_map.mp hitem
      exact containsHostOwnedField_aspDiagnostic comparison diagnostic
    · intro item hitem
      rw [List.mem_singleton.mp hitem, h.grant]
      exact containsHostOwnedField_evidenceValue rfl assessment measured
  · exact validateCoverage_coverageValue (validateCoveragePart_requested wire _) (hcovered _)
      (fun item hitem => (hnotice item hitem).2)
      (fun item hitem => (hnotice item (mem_degraded_of_mem_unsupported hitem)).2) hclaimed

/-! ## Evaluations -/

section

variable [Base64] [Asp.Base64] [Platform] {comparison : Comparison}
  (hcomparison : comparison.asStr = wire.asStr) {runtime : EvaluationRuntime}

include hcomparison

variable {assessment : Value}

/-- What the provider makes of views it has read is accepted. -/
theorem evaluateViews_accepted {views : PreparedViews}
    (hviews : prepareViews prepared.workspace.host session changeset .workspace = .ok views)
    (hload : ∀ limits file facts, runtime.load limits file = .ok facts → facts.Reportable)
    (heval : evaluateViews (normalizedParams changeset comparison resolved) session runtime views
      = .ok assessment) :
    ∃ accepted, validateAssessment assessment prepared.request .fast
      (BTreeSet.ofList views.readIds) = .ok accepted := by
  obtain ⟨-, hnodup, hids⟩ := viewCallbacks_of_ok hviews
  obtain ⟨_, -, heval⟩ := Except.bind_eq_ok_iff.mp heval
  obtain ⟨engine, hengine, heval⟩ := Except.bind_eq_ok_iff.mp heval
  split_ifs at heval
  cases heval
  obtain ⟨hcount, hreported⟩ := reported_of_evaluate (Except.mapError_eq_ok_iff.mp hengine)
  refine h.toAspAssessment_accepted hcomparison (fun id hid => (hids id hid).1) hnodup hcount ?_
  intro diagnostic hdiagnostic
  obtain ⟨file, facts, raw, n, hread, hfacts, hraw, rfl⟩ := hreported diagnostic hdiagnostic
  obtain ⟨hcandidate, hpath⟩ :=
    mem_candidate_of_read h.session_baseline h.sendable h.legal hviews hread
  exact ⟨file, raw, n, rfl, hload _ file facts hfacts raw hraw, hpath, hcandidate⟩

/-- A gap in the views is accepted too; no blob was read for it. -/
theorem evaluateFast_accepted (hload : ∀ limits file facts, runtime.load limits file = .ok facts →
      facts.Reportable)
    (heval : evaluateFast (normalizedParams changeset comparison resolved) session
      prepared.workspace.host runtime = .ok assessment) :
    ∃ reads accepted, recordedReads prepared.workspace
        (viewCallbacks prepared.workspace.host session changeset .workspace) = .ok reads
      ∧ validateAssessment assessment prepared.request .fast reads = .ok accepted := by
  unfold evaluateFast at heval
  split at heval
  · cases heval
  · next gap hgap =>
    cases heval
    have hgap : prepareViews prepared.workspace.host session changeset .workspace
        = .error (.coverage gap) := hgap
    obtain ⟨⟨hstatus, hdetail⟩, hcallbacks⟩ := viewCallbacks_of_gap hgap
    obtain ⟨accepted, haccepted⟩ :=
      h.coverageGapValue_accepted gap.truncated hstatus hdetail
    rw [← hcomparison] at haccepted
    have hnone : ∀ id ∈ ([] : List Str), ∃ result,
        prepared.workspace.host.readBlob id = .ok result := nofun
    refine ⟨∅, accepted, ?_, haccepted⟩
    rw [hcallbacks]
    exact recordedReads_views hnone session changeset .workspace
  · next views hviews =>
    have hviews : prepareViews prepared.workspace.host session changeset .workspace
        = .ok views := hviews
    obtain ⟨hcallbacks, -, hids⟩ := viewCallbacks_of_ok hviews
    obtain ⟨accepted, haccepted⟩ := h.evaluateViews_accepted hcomparison hviews hload heval
    refine ⟨BTreeSet.ofList views.readIds, accepted, ?_, haccepted⟩
    rw [hcallbacks]
    exact recordedReads_views (fun id hid => (hids id hid).2) session changeset .workspace

/-- Whatever a request that is supported ends in is accepted. -/
theorem supported_accepted [PriorEvidence]
    (hload : ∀ limits file facts, runtime.load limits file = .ok facts → facts.Reportable)
    (hnormalized : normalizeParamsFor prepared.params session .fast
      = .ok (.supported (normalizedParams changeset comparison resolved)))
    (heval : evaluateFor prepared.params session .fast prepared.workspace.host runtime
      = .ok assessment) :
    ∃ reads accepted, recordedReads prepared.workspace
        (fastCallbacks prepared.params session prepared.workspace.host runtime) = .ok reads
      ∧ validateAssessment assessment prepared.request .fast reads = .ok accepted := by
  have hfull : hasFullWorkspaceRead session = true := by
    rw [hasFullWorkspaceRead, h.grant]
    rfl
  obtain ⟨_, hrequest, heval⟩ := Except.bind_eq_ok_iff.mp heval
  cases hnormalized.symm.trans hrequest
  obtain ⟨_, hcancelled, heval⟩ := Except.bind_eq_ok_iff.mp heval
  have hrunning : ¬ runtime.cancelled .normalized = true := by
    intro hcancel
    rw [EvaluationRuntime.ensureNotCancelled, if_pos hcancel] at hcancelled
    cases hcancelled
  have hcallbacks : fastCallbacks prepared.params session prepared.workspace.host runtime
      = viewCallbacks prepared.workspace.host session changeset .workspace := by
    unfold fastCallbacks
    rw [hnormalized]
    refine if_neg ?_
    rintro (hcancel | ⟨-, hpartial⟩)
    · exact hrunning hcancel
    · rw [hfull] at hpartial
      exact Bool.false_ne_true hpartial
  rw [hcallbacks]
  refine h.evaluateFast_accepted hcomparison hload ?_
  have hbranch : ¬ ((normalizedParams changeset comparison resolved).scope = .workspace
      ∧ (!hasFullWorkspaceRead session) = true) := by
    rw [hfull]
    exact fun hpartial => Bool.false_ne_true hpartial.2
  rw [if_neg hbranch, if_neg (not_not.mpr rfl)] at heval
  exact heval

end

end Asked

end

/-! ## Every assessment is accepted -/

/-- Whatever the fast provider returns for a request the host built, the host accepts:
    evaluated or not, with or without findings, on the blobs the host recorded as read.
    The loaded facts have rules, messages, and positions that are `u32`. -/
theorem fast_assessment_accepted [Sha256] [Base64] [Asp.Base64] [Platform] [Build] [PriorEvidence]
    {capture : GitNativeCapture} {root : WorkspaceRoot} {comparison : Str} {verify : Value}
    {prepared : PreparedRoot}
    (hinput : hostInput capture root .fast comparison verify = .ok prepared)
    {wallclockMs : Nat} {session : AspSession}
    (hsession : hostSession prepared.workspace .fast wallclockMs = .ok session)
    {runtime : EvaluationRuntime}
    (hload : ∀ limits file facts, runtime.load limits file = .ok facts →
      facts.Reportable) {assessment : Value}
    (heval : evaluateFor prepared.params session .fast prepared.workspace.host runtime
      = .ok assessment) :
    ∃ reads accepted, recordedReads prepared.workspace
        (fastCallbacks prepared.params session prepared.workspace.host runtime) = .ok reads
      ∧ validateAssessment assessment prepared.request .fast reads = .ok accepted := by
  obtain ⟨changeset, hworkspace, hparams⟩ := hostInput_params hinput
  obtain ⟨hbaseline, hgrant⟩ := hostSession_ok hsession
  obtain ⟨request, hrequest, -⟩ := Except.bind_eq_ok_iff.mp heval
  have hnormalized := hrequest
  rw [hparams] at hrequest
  obtain ⟨hsendable, hvalid, wire, resolved, rfl, hresolved, rfl⟩ := normalizeParamsFor_ok hrequest
  have h : Asked prepared session changeset wire (.object [(ascii "verify", verify)]) resolved
      wallclockMs :=
    ⟨hparams, hsendable, (wellFormed_of_validateChangeset hvalid).legal, hresolved, hworkspace,
      hbaseline, hgrant⟩
  cases wire with
  | introduced =>
    have hsame : Comparison.introduced.asStr = WireComparison.introduced.asStr := rfl
    exact h.supported_accepted hsame hload hnormalized heval
  | all =>
    have hsame : Comparison.all.asStr = WireComparison.all.asStr := rfl
    exact h.supported_accepted hsame hload hnormalized heval
  | resolved =>
    -- No callback was made: the provider answers with a gap at once.
    unfold evaluateFor at heval
    rw [hnormalized] at heval
    cases heval
    have hstatus : ascii "unsupported" ∈ [ascii "incomplete", ascii "unsupported"] := by decide
    have hdetail : ascii "resolved comparison is not supported by this provider" ≠ [] := by decide
    obtain ⟨accepted, haccepted⟩ := h.coverageGapValue_accepted false hstatus hdetail
    refine ⟨∅, accepted, ?_, haccepted⟩
    unfold fastCallbacks
    rw [hnormalized]
    rfl

/-- Front ends that know Python alone, and find nothing in it. -/
def quietFrontends : Frontends where
  go := ⟨Unit, fun _ => .error .cancelled, fun _ => .error .cancelled,
    fun _ _ _ _ => .error .cancelled, fun _ _ _ _ _ => .error .cancelled,
    fun _ _ _ => .error .cancelled⟩
  node := ⟨fun _ => .error [], fun _ _ _ _ _ => .error .cancelled⟩
  rust _ _ _ := .error .cancelled
  python _ _ := .ok {}
  hcl _ _ := .error .cancelled
  shell _ _ := .error .cancelled
  protobuf _ _ := .error .cancelled

theorem quietFrontends_reportable : quietFrontends.Reportable := by
  refine ⟨?_, ?_, ?_, ?_, ?_, ?_, ?_, ?_⟩
  · intro tree source lines target diagnostics h
    cases h
  · intro tree source tokens lines limits metrics h
    cases h
  · intro bytes mode type commonJsFile limits facts h
    cases h
  · intro bytes mode limits facts h
    cases h
  · intro bytes limits facts h
    cases h
    exact nofun
  · intro bytes mode facts h
    cases h
  · intro bytes mode facts h
    cases h
  · intro bytes mode facts h
    cases h

/-- A run of the provider in which every line of a file is one too many. -/
def quietRuntime : EvaluationRuntime where
  order := identityHeapOrder
  workers := identitySchedule
  load limits file := @analyze sampleDigest quietFrontends file limits
  cancelled _ := false
  measured := ⟨0, 0, ascii "disabled", 0, 0⟩
  native _ _ _ := .error .cancelled

abbrev noPriorEvidence : PriorEvidence where
  Diagnostic := Unit
  diagnosticOfValue? _ := none
  Assessment := Unit
  assessmentOfValue? _ := none
  validate _ _ := .ok ()

def shortLimits : Value :=
  .object [(ascii "maxFileLines", .number (.int 0)), (ascii "maxFunctionLines", .number (.int 0))]

structure SampleRun where
  prepared : PreparedRoot
  session : AspSession
  assessment : Value

def sampleRun : Option SampleRun := do
  let prepared ← (@hostInput sampleDigest sampleCapture packageRoot .fast (ascii "all")
    shortLimits).toOption
  let session ← (@hostSession Server.bareBuild prepared.workspace .fast 1000).toOption
  let assessment ← (@evaluateFor sampleDigest Server.bareBuild ⟨.ok⟩ samplePlatform
    noPriorEvidence prepared.params session .fast
    (@HostWorkspace.host plainBase64 Server.bareBuild prepared.workspace) quietRuntime).toOption
  return ⟨prepared, session, assessment⟩

/-- The modified file is reported and the deleted one is a gap; the host accepts both,
    and records the two blobs as read. -/
theorem fast_assessment_accepted_lines :
    ∃ run reads accepted, sampleRun = some run
      ∧ (run.assessment.get? (ascii "diagnostics")).any
        (fun diagnostics => (arrayItems? (some diagnostics)).any (·.length = 1)) = true
      ∧ @recordedReads plainBase64 run.prepared.workspace
        (@fastCallbacks sampleDigest Server.bareBuild ⟨.ok⟩ samplePlatform noPriorEvidence
          run.prepared.params run.session
          (@HostWorkspace.host plainBase64 Server.bareBuild run.prepared.workspace) quietRuntime)
            = .ok reads
      ∧ @validateAssessment sampleDigest Server.bareBuild run.assessment run.prepared.request .fast
        reads = .ok accepted := by
  have hreported : sampleRun.any (fun run =>
      (run.assessment.get? (ascii "diagnostics")).any fun diagnostics =>
        (arrayItems? (some diagnostics)).any (·.length = 1)) = true := by decide +kernel
  cases hrun : sampleRun with
  | none =>
    rw [hrun] at hreported
    cases hreported
  | some run =>
    rw [hrun, Option.any_some] at hreported
    unfold sampleRun at hrun
    obtain ⟨prepared, hprepared, hrun⟩ := Option.bind_eq_some_iff.mp hrun
    obtain ⟨session, hsession, hrun⟩ := Option.bind_eq_some_iff.mp hrun
    obtain ⟨assessment, hassessment, hrun⟩ := Option.bind_eq_some_iff.mp hrun
    cases hrun
    have hload : ∀ limits file facts, quietRuntime.load limits file = .ok facts →
        facts.Reportable := fun limits file facts h =>
      @Frontends.Reportable.analyze sampleDigest quietFrontends file limits facts
        quietFrontends_reportable h
    obtain ⟨reads, accepted, hreads, haccepted⟩ := @fast_assessment_accepted sampleDigest
      plainBase64 ⟨.ok⟩ samplePlatform Server.bareBuild noPriorEvidence _ _ _ _ prepared
      (Except.toOption_eq_some_iff.mp hprepared) _ session
      (Except.toOption_eq_some_iff.mp hsession) quietRuntime hload assessment
      (Except.toOption_eq_some_iff.mp hassessment)
    exact ⟨⟨prepared, session, assessment⟩, reads, accepted, rfl, hreported, hreads, haccepted⟩

end Opcore
