/-
  Opcore.Protocol.AssessmentParts

  The parts of an assessment.  Each one the provider encodes passes the check that
  the host makes of it, and none holds a field the host owns.
-/
import Opcore.Analysis.Reportable
import Opcore.Protocol.Evaluate
import Opcore.Protocol.Validation

namespace Opcore

open Text Collections Json Asp Validation

/-! ## Parts that are accepted -/

section

variable {label : Str}

theorem validateDegradation_coverageNotice {providerId reason detail : Str}
    (hreason : reason ∈ degradationReasons) (hdetail : detail ≠ []) :
    validateDegradation label providerId (coverageNotice providerId reason detail) = .ok () := by
  refine Except.bind_eq_ok_iff.mpr ⟨_, requiredObject_object rfl rfl, ?_⟩
  refine Except.bind_eq_ok_iff.mpr ⟨(), requireEqualString_string providerId, ?_⟩
  refine Except.bind_eq_ok_iff.mpr ⟨(), requireOneOfStrings_string hreason, ?_⟩
  refine Except.bind_eq_ok_iff.mpr ⟨(), requireNonemptyString_string hdetail, ?_⟩
  have hcapability : requireOneOfStrings (some (.string (ascii "check"))) label
      [ascii "inspect", ascii "check", ascii "edit"] = .ok () :=
    requireOneOfStrings_string (by decide)
  exact Except.bind_eq_ok_iff.mpr ⟨(), hcapability, rfl⟩

theorem validateCoveragePart_coveragePart {sources rules : List Str} {comparison : Str}
    (hsources : ∀ source ∈ sources, source ≠ []) (hsources' : sources.Nodup)
    (hrules : ∀ rule ∈ rules, rule ≠ []) (hrules' : rules.Nodup)
    (hcomparison : comparison ∈ [ascii "introduced", ascii "all", ascii "resolved"]) :
    validateCoveragePart (some (coveragePart (.string (ascii "workspace")) sources rules
      (.string comparison))) label = .ok () := by
  refine Except.bind_eq_ok_iff.mpr ⟨_, requiredObject_object rfl rfl, ?_⟩
  refine Except.bind_eq_ok_iff.mpr ⟨(), rfl, ?_⟩
  refine Except.bind_eq_ok_iff.mpr ⟨_, stringSet_strings hsources hsources', ?_⟩
  refine Except.bind_eq_ok_iff.mpr ⟨_, stringSet_strings hrules hrules', ?_⟩
  exact requireOneOfStrings_string hcomparison

theorem asU64?_count {n : Nat} (h : n < 2 ^ 64) : (count n).asU64? = some n := by
  have hbounds : (0 : Int) ≤ n ∧ (n : Int) < 2 ^ 64 := by omega
  have hread : (count n).asU64? = if (0 : Int) ≤ n ∧ (n : Int) < 2 ^ 64 then some (n : Int).toNat
      else none := rfl
  rw [hread, if_pos hbounds, Int.toNat_natCast]

theorem validatePosition_positionMembers {position : Position} (h : position.Fits) :
    validatePosition (some (.object (positionMembers position))) label = .ok () := by
  have hread : ∀ n, n ≤ u32Max → ((count (n - 1)).asU64?).isNone = false := by
    intro n hn
    rw [asU64?_count (lt_of_le_of_lt (n.sub_le 1) (lt_of_le_of_lt hn (by decide)))]
    rfl
  refine Except.bind_eq_ok_iff.mpr ⟨positionMembers position, requiredObject_object rfl rfl, ?_⟩
  have hline : (positionMembers position).lookup (ascii "line")
      = some (count (position.line - 1)) := rfl
  have hchar : (positionMembers position).lookup (ascii "char")
      = some (count (position.column - 1)) := rfl
  rw [hline, hchar, Option.bind_some, Option.bind_some, hread _ h.1, hread _ h.2]
  rfl

theorem validateRange_rangeValue {range : SourceRange} (hstart : range.start.Fits)
    (hstop : range.stop.Fits) : validateRange (some (rangeValue range)) = .ok () := by
  refine Except.bind_eq_ok_iff.mpr ⟨_, requiredObject_object rfl rfl, ?_⟩
  exact Except.bind_eq_ok_iff.mpr
    ⟨(), validatePosition_positionMembers hstart, validatePosition_positionMembers hstop⟩

/-! ## Diagnostics -/

section

variable [Sha256] {file : SourceFile} {raw : RawDiagnostic} {n : Nat}
  {allowedPaths : BTreeSet RepoPath}

theorem validateLocation_locationMembers (hraw : raw.Reportable)
    (hpath : isProtocolPath file.path = true) (hallowed : file.path ∈ allowedPaths) :
    validateLocation (some (.object (locationMembers (materializeOne file raw n).diagnostic)))
      allowedPaths = .ok () := by
  have hprotocol := protocolPath_pathText hpath (ascii "diagnostic location path is invalid")
  have hrange : whenPresent (raw.range.map rangeValue) validateRange = .ok () := by
    cases hsome : raw.range with
    | none => rfl
    | some range =>
      obtain ⟨hstart, hstop⟩ := hraw.range range hsome
      rw [Option.map_some, whenPresent_some]
      exact validateRange_rangeValue hstart hstop
  have hpathMember : (locationMembers (materializeOne file raw n).diagnostic).lookup (ascii "path")
      = some (.string (pathText file.path)) := rfl
  have hrangeMember : (locationMembers (materializeOne file raw n).diagnostic).lookup
      (ascii "range") = raw.range.map rangeValue := by
    obtain ⟨ruleId, severity, message, range, entityKey, causeKey, evidence⟩ := raw
    cases range <;> rfl
  have hallowedKeys : ((locationMembers (materializeOne file raw n).diagnostic).map Prod.fst).all
      (fun key => decide (key ∈ [ascii "path", ascii "range"])) = true := by
    obtain ⟨ruleId, severity, message, range, entityKey, causeKey, evidence⟩ := raw
    cases range <;> rfl
  refine Except.bind_eq_ok_iff.mpr ⟨locationMembers (materializeOne file raw n).diagnostic,
    requiredObject_object hallowedKeys rfl, ?_⟩
  rw [hpathMember, hrangeMember]
  refine Except.bind_eq_ok_iff.mpr ⟨file.path, hprotocol, ?_⟩
  rw [if_neg (not_not.mpr hallowed)]
  exact hrange

theorem validateDiagnostic_aspDiagnostic (comparison : Comparison) (hraw : raw.Reportable)
    (hpath : isProtocolPath file.path = true) (hallowed : file.path ∈ allowedPaths) :
    validateDiagnostic .fast (.string comparison.asStr) allowedPaths
      (aspDiagnostic comparison (materializeOne file raw n).diagnostic) = .ok () := by
  have hlocation := validateLocation_locationMembers (n := n) hraw hpath hallowed
  have hseverity : requireOneOfStrings (some (.string raw.severity.asStr))
      (ascii "diagnostic severity") [ascii "error", ascii "warning", ascii "info"] = .ok () := by
    refine requireOneOfStrings_string ?_
    cases raw.severity <;> decide
  have hidentity : validateDiagnosticIdentity
      (diagnosticMembers comparison (materializeOne file raw n).diagnostic) .fast = .ok () := by
    cases comparison <;> exact Except.bind_eq_ok_iff.mpr
      ⟨(), requirePrefixedString_append hraw.rule,
        Except.bind_eq_ok_iff.mpr ⟨(), requireEqualString_string _, hseverity⟩⟩
  have hmessage : validateDiagnosticMessage
      (diagnosticMembers comparison (materializeOne file raw n).diagnostic) = .ok () := by
    have hfingerprint :
        ascii "sha256:" ++ (materializeOne file raw n).diagnostic.fingerprint ≠ [] :=
      List.append_ne_nil_of_left_ne_nil (by decide) _
    cases comparison <;> exact Except.bind_eq_ok_iff.mpr
      ⟨(), requireNonemptyString_string hraw.message, requireNonemptyString_string hfingerprint⟩
  have hmember : (diagnosticMembers comparison (materializeOne file raw n).diagnostic).lookup
      (ascii "location")
        = some (.object (locationMembers (materializeOne file raw n).diagnostic)) := by
    cases comparison <;> rfl
  have hobject : requiredObject
      (some (aspDiagnostic comparison (materializeOne file raw n).diagnostic))
      (ascii "provider diagnostic") diagnosticFields requiredDiagnosticFields
        = .ok (diagnosticMembers comparison (materializeOne file raw n).diagnostic) := by
    cases comparison <;> exact requiredObject_object rfl rfl
  refine Except.bind_eq_ok_iff.mpr ⟨_, hobject, ?_⟩
  refine Except.bind_eq_ok_iff.mpr ⟨(), hidentity, ?_⟩
  refine Except.bind_eq_ok_iff.mpr ⟨(), hmessage, ?_⟩
  rw [hmember]
  refine Except.bind_eq_ok_iff.mpr ⟨(), hlocation, ?_⟩
  cases comparison <;> exact Except.bind_eq_ok_iff.mpr ⟨(), rfl, rfl⟩

end

end

/-! ## Evidence and metadata -/

theorem validateEvidence_nil : validateEvidence (some (.array [])) = .ok () := rfl

theorem validateEvidence_evidenceValue (assessment : Assessment) (measured : Measurement)
    (grant : Value) :
    validateEvidence (some (.array [evidenceValue assessment measured grant])) = .ok () := by
  have hitem : validateEvidenceItem (evidenceValue assessment measured grant) = .ok () := by
    refine Except.bind_eq_ok_iff.mpr ⟨_, requiredObject_object rfl rfl, ?_⟩
    refine Except.bind_eq_ok_iff.mpr ⟨(), requireOneOfStrings_string (by decide), ?_⟩
    exact Except.bind_eq_ok_iff.mpr ⟨(), rfl, rfl⟩
  refine Except.forM_eq_ok_iff.mpr ?_
  intro item hmem
  cases List.mem_singleton.mp hmem
  exact hitem

variable {elapsedMs : Nat}

theorem validateTiming_elapsed (h : elapsedMs < 2 ^ 64) :
    validateTiming (some (.object [(ascii "elapsedMs", count elapsedMs)])) = .ok () := by
  have hlookup : [(ascii "elapsedMs", count elapsedMs)].lookup (ascii "elapsedMs")
      = some (count elapsedMs) := rfl
  refine Except.bind_eq_ok_iff.mpr
    ⟨[(ascii "elapsedMs", count elapsedMs)], requiredObject_object rfl rfl, ?_⟩
  rw [hlookup, Option.any_some, asU64?_count h]
  rfl

theorem validateCache_status {status : Str}
    (h : status ∈ [ascii "hit", ascii "miss", ascii "stale", ascii "disabled"]) :
    validateCache (some (.object [(ascii "status", .string status)])) = .ok () := by
  refine Except.bind_eq_ok_iff.mpr ⟨_, requiredObject_object rfl rfl, ?_⟩
  exact Except.bind_eq_ok_iff.mpr ⟨(), requireOneOfStrings_string h, rfl⟩

section

variable [Sha256] {request : HostRequest}

theorem validateFreshness_validAsOfValue {changeset : Value} {readIds : List Str}
    (hchangeset : request.evaluationParams.get? (ascii "changeset") = some changeset)
    (hne : ∀ id ∈ readIds, id ≠ []) (hnodup : readIds.Nodup) :
    validateFreshness
      (some (validAsOfValue request.workspace.baseline (jsonDigest changeset) readIds)) request
        (BTreeSet.ofList readIds) = .ok () := by
  refine Except.bind_eq_ok_iff.mpr ⟨_, requiredObject_object rfl rfl, ?_⟩
  refine (if_neg (not_not.mpr rfl)).trans ?_
  rw [hchangeset]
  refine Except.bind_eq_ok_iff.mpr ⟨(), requireEqualString_string _, ?_⟩
  refine Except.bind_eq_ok_iff.mpr ⟨_, stringSet_strings hne hnodup, ?_⟩
  exact if_neg (not_not.mpr rfl)

theorem validateProvider_providerValue [Build] {profile : ProviderProfile} {configDigest : Str}
    (hdigest : configurationDigest (request.evaluationParams.get? (ascii "configuration")) profile
      = .ok configDigest) (hne : configDigest ≠ []) :
    validateProvider (some (providerValue profile configDigest)) profile request = .ok () := by
  refine Except.bind_eq_ok_iff.mpr ⟨_, requiredObject_object rfl rfl, ?_⟩
  refine Except.bind_eq_ok_iff.mpr ⟨(), ?_, ?_⟩
  · refine Except.bind_eq_ok_iff.mpr ⟨(), requireEqualString_string _, ?_⟩
    exact Except.bind_eq_ok_iff.mpr ⟨(), requireEqualString_string _, requireEqualString_string _⟩
  refine Except.bind_eq_ok_iff.mpr ⟨(), ?_, ?_⟩
  · exact Except.bind_eq_ok_iff.mpr
      ⟨(), requireNonemptyString_string hne, requireEqualString_string _⟩
  refine Except.bind_eq_ok_iff.mpr ⟨configDigest, Except.mapError_eq_ok_iff.mpr hdigest, ?_⟩
  refine Except.bind_eq_ok_iff.mpr ⟨(), requireEqualString_string _, ?_⟩
  exact Except.bind_eq_ok_iff.mpr ⟨(), rfl, rfl⟩

end

/-! ## Coverage -/

/-- What the flags and notices of a coverage have to say for its status. -/
structure Claimed (status : Str) (requested covered : Value) (degraded unsupported : List Value)
    (exhaustive truncated : Bool) : Prop where
  exhaustive_iff : exhaustive = true ↔ status = ascii "complete"
  complete : exhaustive = true →
    truncated = false ∧ covered = requested ∧ degraded = [] ∧ unsupported = []

theorem validateCoverage_coverageValue {status providerId : Str} {requested covered : Value}
    {degraded unsupported : List Value} {exhaustive truncated : Bool}
    (hrequested : validateCoveragePart (some requested) (ascii "requested coverage") = .ok ())
    (hcovered : validateCoveragePart (some covered) (ascii "covered coverage") = .ok ())
    (hdegraded : ∀ item ∈ degraded, ∀ label, validateDegradation label providerId item = .ok ())
    (hunsupported : ∀ item ∈ unsupported, ∀ label,
      validateDegradation label providerId item = .ok ())
    (hclaimed : Claimed status requested covered degraded unsupported exhaustive truncated) :
    validateCoverage
      (some (coverageValue requested covered degraded unsupported exhaustive truncated)) status
      requested providerId = .ok () := by
  refine Except.bind_eq_ok_iff.mpr ⟨_, requiredObject_object rfl rfl, ?_⟩
  refine Except.bind_eq_ok_iff.mpr ⟨(), ?_, ?_⟩
  · refine Except.bind_eq_ok_iff.mpr ⟨(), hrequested, ?_⟩
    refine Except.bind_eq_ok_iff.mpr ⟨(), hcovered, ?_⟩
    refine (if_neg (not_not.mpr rfl)).trans ?_
    refine Except.bind_eq_ok_iff.mpr ⟨(), Except.forM_eq_ok_iff.mpr ?_, ?_⟩
    · exact fun item hitem => hdegraded item hitem _
    · exact Except.forM_eq_ok_iff.mpr fun item hitem => hunsupported item hitem _
  refine Except.bind_eq_ok_iff.mpr ⟨(exhaustive, truncated), rfl, ?_⟩
  cases exhaustive with
  | true =>
    obtain ⟨rfl, rfl, rfl, rfl⟩ := hclaimed.complete rfl
    refine (if_pos (hclaimed.exhaustive_iff.mp rfl)).trans ?_
    refine (if_neg ?_).trans rfl
    show ¬ decide (some covered ≠ some covered) = true
    simp
  | false =>
    have hstatus : status ≠ ascii "complete" :=
      fun heq => Bool.false_ne_true (hclaimed.exhaustive_iff.mpr heq)
    exact (if_neg hstatus).trans (if_neg Bool.false_ne_true)

/-! ## No field of the host -/

/-- The keys of a diagnostic, a coverage and the other parts are the provider's own. -/
theorem containsHostOwnedField_aspDiagnostic (comparison : Comparison) (diagnostic : Diagnostic) :
    containsHostOwnedField (aspDiagnostic comparison diagnostic) = false := by
  obtain ⟨ruleId, severity, message, path, range, fingerprint, language, evidence⟩ := diagnostic
  cases comparison <;> cases range <;> rfl

theorem containsHostOwnedField_coveragePart (scope : Str) (sources rules : List Str)
    (comparison : Str) : containsHostOwnedField
      (coveragePart (.string scope) sources rules (.string comparison)) = false := by
  refine containsHostOwnedField_object rfl ?_
  simp only [List.forall_mem_cons, List.not_mem_nil, false_imp_iff, implies_true, and_true]
  exact ⟨rfl, containsHostOwnedField_strings sources, containsHostOwnedField_strings rules, rfl⟩

theorem containsHostOwnedField_coverageValue {requested covered : Value}
    {degraded unsupported : List Value} {exhaustive truncated : Bool}
    (hrequested : containsHostOwnedField requested = false)
    (hcovered : containsHostOwnedField covered = false)
    (hdegraded : ∀ item ∈ degraded, containsHostOwnedField item = false)
    (hunsupported : ∀ item ∈ unsupported, containsHostOwnedField item = false) :
    containsHostOwnedField
      (coverageValue requested covered degraded unsupported exhaustive truncated) = false := by
  refine containsHostOwnedField_object rfl ?_
  simp only [List.forall_mem_cons, List.not_mem_nil, false_imp_iff, implies_true, and_true]
  exact ⟨hcovered, containsHostOwnedField_array hdegraded, rfl, hrequested, rfl,
    containsHostOwnedField_array hunsupported⟩

theorem containsHostOwnedField_evidenceValue {grant : Value}
    (hgrant : containsHostOwnedField grant = false) (assessment : Assessment)
    (measured : Measurement) :
    containsHostOwnedField (evidenceValue assessment measured grant) = false := by
  refine containsHostOwnedField_object rfl ?_
  simp only [List.forall_mem_cons, List.not_mem_nil, false_imp_iff, implies_true, and_true]
  refine ⟨containsHostOwnedField_object rfl ?_, rfl, rfl⟩
  simp only [List.forall_mem_cons, List.not_mem_nil, false_imp_iff, implies_true, and_true]
  exact ⟨rfl, rfl, rfl, rfl, hgrant⟩

theorem containsHostOwnedField_validAsOfValue {baseline : Value}
    (hbaseline : containsHostOwnedField baseline = false) (changesetDigest : Str)
    (readIds : List Str) :
    containsHostOwnedField (validAsOfValue baseline changesetDigest readIds) = false := by
  refine containsHostOwnedField_object rfl ?_
  simp only [List.forall_mem_cons, List.not_mem_nil, false_imp_iff, implies_true, and_true]
  exact ⟨hbaseline, containsHostOwnedField_strings readIds, rfl⟩

theorem containsHostOwnedField_assessmentValue [Build] {cacheStatus status configDigest : Str}
    {coverage validAsOf : Value} {diagnostics evidence : List Value} {profile : ProviderProfile}
    (hcoverage : containsHostOwnedField coverage = false)
    (hdiagnostics : ∀ item ∈ diagnostics, containsHostOwnedField item = false)
    (hevidence : ∀ item ∈ evidence, containsHostOwnedField item = false)
    (hvalidAsOf : containsHostOwnedField validAsOf = false) :
    containsHostOwnedField (assessmentValue cacheStatus coverage diagnostics evidence
      (providerValue profile configDigest) status elapsedMs validAsOf) = false := by
  refine containsHostOwnedField_object rfl ?_
  simp only [assessmentMembers, List.forall_mem_cons, List.not_mem_nil, false_imp_iff,
    implies_true, and_true]
  exact ⟨rfl, hcoverage, containsHostOwnedField_array hdiagnostics,
    containsHostOwnedField_array hevidence, rfl, rfl, rfl, hvalidAsOf⟩

/-! ## The assessment as a whole -/

/-- An assessment whose parts all pass is accepted. -/
theorem validateAssessment_assessmentValue [Sha256] [Build] {request : HostRequest}
    {profile : ProviderProfile} {readBlobs : BTreeSet Str} {cacheStatus status : Str}
    {coverage provider validAsOf expected comparison : Value} {diagnostics evidence : List Value}
    {paths : BTreeSet RepoPath}
    (hexpected : expectedCoveragePart request profile = .ok (expected, comparison))
    (hpaths : requestedDiagnosticPaths request = .ok paths)
    (howned : containsHostOwnedField (assessmentValue cacheStatus coverage diagnostics evidence
      provider status elapsedMs validAsOf) = false)
    (hstatus : status ∈ assessmentStatuses) (hcount : diagnostics.length ≤ maxDiagnostics)
    (hdiagnostics : ∀ item ∈ diagnostics, validateDiagnostic profile comparison paths item = .ok ())
    (hevidence : validateEvidence (some (.array evidence)) = .ok ())
    (hcoverage : validateCoverage (some coverage) status expected profile.providerId = .ok ())
    (hfreshness : validateFreshness (some validAsOf) request readBlobs = .ok ())
    (hprovider : validateProvider (some provider) profile request = .ok ())
    (helapsed : elapsedMs < 2 ^ 64)
    (hcache : cacheStatus ∈ [ascii "hit", ascii "miss", ascii "stale", ascii "disabled"]) :
    ∃ accepted, validateAssessment (assessmentValue cacheStatus coverage diagnostics evidence
      provider status elapsedMs validAsOf) request profile readBlobs = .ok accepted := by
  refine ⟨stampDiagnosticSources (assessmentMembers cacheStatus coverage diagnostics evidence
    provider status elapsedMs validAsOf) profile.providerId, ?_⟩
  refine Except.bind_eq_ok_iff.mpr ⟨_, requiredObject_object rfl rfl, ?_⟩
  refine (if_neg (by rw [howned]; decide)).trans ?_
  refine Except.bind_eq_ok_iff.mpr ⟨(), ?_, ?_⟩
  · refine Except.bind_eq_ok_iff.mpr ⟨status, if_pos hstatus, ?_⟩
    refine Except.bind_eq_ok_iff.mpr ⟨(expected, comparison), hexpected, ?_⟩
    refine Except.bind_eq_ok_iff.mpr ⟨paths, hpaths, ?_⟩
    refine Except.bind_eq_ok_iff.mpr ⟨(), ?_, ?_⟩
    · exact (if_neg (Nat.not_lt.mpr hcount)).trans (Except.forM_eq_ok_iff.mpr hdiagnostics)
    exact Except.bind_eq_ok_iff.mpr ⟨(), hevidence, hcoverage⟩
  refine Except.bind_eq_ok_iff.mpr ⟨(), ?_, rfl⟩
  refine Except.bind_eq_ok_iff.mpr ⟨(), hfreshness, ?_⟩
  refine Except.bind_eq_ok_iff.mpr ⟨(), hprovider, ?_⟩
  exact Except.bind_eq_ok_iff.mpr ⟨(), validateTiming_elapsed helapsed, validateCache_status hcache⟩

end Opcore
