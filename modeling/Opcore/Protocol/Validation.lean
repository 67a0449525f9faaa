/-
  Opcore.Protocol.Validation

  The host's check of an assessment.  It has to answer the request that was sent,
  on the baseline it was sent for and with the blobs the host handed out; its
  coverage may claim no more than its status; and a diagnostic has to lie at a
  path the candidate has.  A failed check is known by the text of its complaint.
-/
import Opcore.Library.JsonEdit
import Opcore.Protocol.EvaluateParams

namespace Opcore

open Text Collections Json Asp

/-! ## Requests -/

/-- One `check/evaluate` request and the workspace its callbacks are answered from. -/
structure HostRequest where
  workspace : HostWorkspace
  evaluationParams : Value

def PreparedRoot.request (prepared : PreparedRoot) : HostRequest :=
  ⟨prepared.workspace, prepared.params⟩

namespace Validation

/-! ## Requirements -/

section

variable (value : Option Value) (label : Str)

def requiredObject (allowed required : List Str) : Except Str (List (Str × Value)) := do
  let object ← HostWorkspace.exactObject (value.getD .null) allowed label
  match required.find? fun field => (object.lookup field).isNone with
  | some field => .error (label ++ ascii " omitted required field " ++ field)
  | none => return object

def arrayItems? : Option (List Value) :=
  match value with
  | some (.array items) => some items
  | _ => none

/-- One round of the loop of `string_set`. -/
def insertEntry (unique : BTreeSet Str) (value : Value) : Except Str (BTreeSet Str) :=
  match value.asStr? with
  | none => .error (label ++ ascii " entries must be strings")
  | some text =>
    if text = [] then .error (label ++ ascii " entries must not be empty")
    else if text ∈ unique then .error (label ++ ascii " contains a duplicate entry")
    else .ok (unique.insert text)

def stringSet : Except Str (BTreeSet Str) :=
  match arrayItems? value with
  | none => .error (label ++ ascii " must be an array")
  | some values => values.foldlM (insertEntry label) ∅

def requireNonemptyString : Except Str Unit :=
  if (value.bind Value.asStr?).all (· = []) then
    .error (label ++ ascii " must be a non-empty string")
  else .ok ()

def requireTimestamp : Except Str Unit :=
  match (value.bind Value.asStr?).filter (· ≠ []) with
  | none => .error (label ++ ascii " must be a non-empty string")
  | some timestamp =>
    if isRfc3339Timestamp timestamp then .ok ()
    else .error (label ++ ascii " must be an RFC 3339 date-time")

def requireEqualString (expected : Str) : Except Str Unit :=
  if value.bind Value.asStr? = some expected then .ok ()
  else .error (label ++ ascii " does not match the expected value")

def requirePrefixedString (start : Str) : Except Str Unit :=
  if (value.bind Value.asStr?).any fun text =>
      start.isPrefixOf text && decide (start.length < text.length) then .ok ()
  else .error (label ++ ascii " is outside the provider namespace")

def requireOneOfStrings (expected : List Str) : Except Str Unit :=
  if (value.bind Value.asStr?).any (· ∈ expected) then .ok ()
  else .error (label ++ ascii " is invalid")

/-- A check of a member that may be missing. -/
def whenPresent (check : Option Value → Except Str Unit) : Except Str Unit :=
  match value with
  | none => .ok ()
  | some value => check (some value)

end

/-! What passes the requirements. -/

section

variable {label : Str}

theorem requiredObject_object {members : List (Str × Value)} {allowed required : List Str}
    (hallowed : (members.map Prod.fst).all (fun key => decide (key ∈ allowed)) = true)
    (hrequired : required.all (fun field => (members.lookup field).isSome) = true) :
    requiredObject (some (.object members)) label allowed required = .ok members := by
  have hexact : HostWorkspace.exactObject (.object members) allowed label = .ok members := by
    have hnone : (members.find? fun member => decide (member.1 ∉ allowed)) = none := by
      rw [List.find?_eq_none]
      intro member hmember
      have := List.all_eq_true.mp hallowed _ (List.mem_map_of_mem (f := Prod.fst) hmember)
      simpa using this
    unfold HostWorkspace.exactObject
    simp only [Value.asObject?, hnone]
  have hnone : (required.find? fun field => (members.lookup field).isNone) = none := by
    rw [List.find?_eq_none]
    intro field hfield
    have := List.all_eq_true.mp hrequired _ hfield
    simpa using this
  refine Except.bind_eq_ok_iff.mpr ⟨members, hexact, ?_⟩
  rw [hnone]
  rfl

theorem whenPresent_some (value : Value) (check : Option Value → Except Str Unit) :
    whenPresent (some value) check = check (some value) := rfl

theorem requireNonemptyString_string {text : Str} (h : text ≠ []) :
    requireNonemptyString (some (.string text)) label = .ok () := by
  refine if_neg ?_
  show ¬ decide (text = []) = true
  simpa using h

theorem requireEqualString_string (text : Str) :
    requireEqualString (some (.string text)) label text = .ok () := if_pos rfl

theorem requireOneOfStrings_string {text : Str} {expected : List Str} (h : text ∈ expected) :
    requireOneOfStrings (some (.string text)) label expected = .ok () :=
  if_pos (decide_eq_true h)

theorem requirePrefixedString_append {start rest : Str} (h : rest ≠ []) :
    requirePrefixedString (some (.string (start ++ rest))) label start = .ok () := by
  have hlength : 0 < rest.length := List.length_pos_iff.mpr h
  refine if_pos ?_
  show (start.isPrefixOf (start ++ rest) && decide (start.length < (start ++ rest).length)) = true
  rw [Bool.and_eq_true, List.isPrefixOf_iff_prefix, decide_eq_true_eq, List.length_append]
  exact ⟨List.prefix_append start rest, by omega⟩

theorem foldlM_insertEntry {texts : List Str} (hne : ∀ text ∈ texts, text ≠ [])
    (hnodup : texts.Nodup) {unique : BTreeSet Str} (hnew : ∀ text ∈ texts, text ∉ unique) :
    (texts.map Value.string).foldlM (insertEntry label) unique = .ok (unique.extend texts) := by
  induction texts generalizing unique with
  | nil => rfl
  | cons text texts ih =>
    obtain ⟨htext, hne⟩ := List.forall_mem_cons.mp hne
    obtain ⟨hfresh, hnew⟩ := List.forall_mem_cons.mp hnew
    obtain ⟨hother, hnodup⟩ := List.nodup_cons.mp hnodup
    have hstep : insertEntry label unique (.string text) = .ok (unique.insert text) := by
      show (if _ then _ else if _ then _ else _) = _
      rw [if_neg htext, if_neg hfresh]
    rw [List.map_cons, List.foldlM_cons, hstep]
    refine ih hne hnodup ?_
    intro other hmem hinsert
    rcases BTreeSet.mem_insert.mp hinsert with rfl | hmem'
    · exact hother hmem
    · exact hnew other hmem hmem'

/-- A list of distinct names is the set of them. -/
theorem stringSet_strings {texts : List Str} (hne : ∀ text ∈ texts, text ≠ [])
    (hnodup : texts.Nodup) :
    stringSet (some (.array (texts.map Value.string))) label = .ok (BTreeSet.ofList texts) :=
  foldlM_insertEntry hne hnodup fun _ _ => BTreeSet.not_mem_empty

end

/-- A path that comes with the context of its error. -/
def protocolPath (text context : Str) : Except Str RepoPath :=
  (RepoPath.fromProtocol text).mapError fun _ => context

theorem protocolPath_pathText {path : RepoPath} (h : isProtocolPath path = true) (context : Str) :
    protocolPath (pathText path) context = .ok path := by
  have hread := pathOfValue?_pathText path
  rw [if_pos h] at hread
  exact Except.mapError_eq_ok_iff.mpr (Except.toOption_eq_some_iff.mp hread)

/-! ## Fields the host owns -/

def hostOwnedFields : List Str :=
  [ascii "authority", ascii "assurance", ascii "apply", ascii "decision", ascii "disposition",
    ascii "fail", ascii "pass", ascii "transactionGuarantee", ascii "transaction",
    ascii "verdict", ascii "applyReceipt", ascii "receipt", ascii "policy",
    ascii "policyDigest", ascii "policyRef", ascii "policyReference",
    ascii "authorityEvidence", ascii "hostDecision", ascii "applyAttempt", ascii "applyResult"]

mutual

/-- Does a field of the host stand anywhere in the value? -/
def containsHostOwnedField : Value → Bool
  | .object members => membersHostOwned members
  | .array items => itemsHostOwned items
  | _ => false

def itemsHostOwned : List Value → Bool
  | [] => false
  | item :: items => containsHostOwnedField item || itemsHostOwned items

def membersHostOwned : List (Str × Value) → Bool
  | [] => false
  | (key, value) :: members =>
    decide (key ∈ hostOwnedFields) || containsHostOwnedField value || membersHostOwned members

end

theorem itemsHostOwned_eq_false {items : List Value}
    (h : ∀ item ∈ items, containsHostOwnedField item = false) : itemsHostOwned items = false := by
  induction items with
  | nil => rfl
  | cons item items ih =>
    obtain ⟨hitem, h⟩ := List.forall_mem_cons.mp h
    rw [itemsHostOwned, hitem, ih h, Bool.or_false]

theorem membersHostOwned_eq_false {members : List (Str × Value)}
    (hkeys : (members.map Prod.fst).all (fun key => decide (key ∉ hostOwnedFields)) = true)
    (h : ∀ member ∈ members, containsHostOwnedField member.2 = false) :
    membersHostOwned members = false := by
  induction members with
  | nil => rfl
  | cons member members ih =>
    obtain ⟨key, value⟩ := member
    rw [List.map_cons, List.all_cons, Bool.and_eq_true, decide_eq_true_eq] at hkeys
    obtain ⟨hvalue, h⟩ := List.forall_mem_cons.mp h
    rw [membersHostOwned, decide_eq_false hkeys.1, hvalue, ih hkeys.2 h]
    rfl

theorem containsHostOwnedField_array {items : List Value}
    (h : ∀ item ∈ items, containsHostOwnedField item = false) :
    containsHostOwnedField (.array items) = false := by
  rw [containsHostOwnedField]
  exact itemsHostOwned_eq_false h

theorem containsHostOwnedField_object {members : List (Str × Value)}
    (hkeys : (members.map Prod.fst).all (fun key => decide (key ∉ hostOwnedFields)) = true)
    (h : ∀ member ∈ members, containsHostOwnedField member.2 = false) :
    containsHostOwnedField (.object members) = false := by
  rw [containsHostOwnedField]
  exact membersHostOwned_eq_false hkeys h

theorem containsHostOwnedField_strings (texts : List Str) :
    containsHostOwnedField (.array (texts.map Value.string)) = false := by
  refine containsHostOwnedField_array ?_
  intro item hitem
  obtain ⟨text, -, rfl⟩ := List.mem_map.mp hitem
  rfl

/-! ## What the request expects -/

def assessmentFields : List Str :=
  [ascii "status", ascii "diagnostics", ascii "evidence", ascii "coverage", ascii "validAsOf",
    ascii "provider", ascii "timing", ascii "cache"]

def assessmentObject (value : Value) : Except Str (List (Str × Value)) :=
  requiredObject (some value) (ascii "provider assessment") assessmentFields
    [ascii "status", ascii "diagnostics", ascii "coverage", ascii "validAsOf", ascii "provider",
      ascii "timing", ascii "cache"]

def assessmentStatuses : List Str :=
  [ascii "complete", ascii "incomplete", ascii "unsupported", ascii "error", ascii "cancelled"]

def assessmentStatus (value : Option Value) : Except Str Str :=
  match value.bind Value.asStr? with
  | none => .error (ascii "provider assessment status must be a string")
  | some status =>
    if status ∈ assessmentStatuses then .ok status
    else .error (ascii "provider assessment status is unknown")

def requestStrings (value : Option Value) (default label : Str) : Except Str (List Str) :=
  match value with
  | none => .ok [default]
  | some value => do
    let values ← stringSet (some value) label
    return if values.isEmpty then [default] else values.elems

/-- The part of the coverage a request asks for, and its comparison. -/
def expectedCoveragePart (request : HostRequest) (profile : ProviderProfile) :
    Except Str (Value × Value) :=
  match request.evaluationParams.asObject? with
  | none => .error (ascii "check/evaluate params must remain an object")
  | some params => do
    let sources ← requestStrings (params.lookup (ascii "diagnosticSources")) profile.providerId
      (ascii "requested diagnosticSources")
    let rules ← requestStrings (params.lookup (ascii "rules")) profile.rule
      (ascii "requested rules")
    match params.lookup (ascii "scope"), params.lookup (ascii "comparison") with
    | none, _ => .error (ascii "check/evaluate scope is missing")
    | _, none => .error (ascii "check/evaluate comparison is missing")
    | some scope, some comparison =>
      return (coveragePart scope sources rules comparison, comparison)

/-! ## Paths a diagnostic may have -/

/-- The paths of the candidate, and those among them that a change wrote. -/
structure CandidatePaths where
  candidate : BTreeSet RepoPath
  changedAfter : BTreeSet RepoPath

def CandidatePaths.add (paths : CandidatePaths) (path : RepoPath) : CandidatePaths :=
  ⟨paths.candidate.insert path, paths.changedAfter.insert path⟩

def CandidatePaths.remove (paths : CandidatePaths) (path : RepoPath) : CandidatePaths :=
  { paths with candidate := paths.candidate.erase path }

def parseCandidateChange (change : Value) : Except Str (List (Str × Value) × RepoPath × Str) :=
  match change.asObject? with
  | none => .error (ascii "check/evaluate change must be an object")
  | some object =>
    match (object.lookup (ascii "path")).bind Value.asStr? with
    | none => .error (ascii "check/evaluate change path must be a string")
    | some path => do
      let path ← protocolPath path (ascii "check/evaluate change path is invalid")
      match (object.lookup (ascii "kind")).bind Value.asStr? with
      | none => .error (ascii "check/evaluate change kind is invalid")
      | some kind => return (object, path, kind)

def applyCandidateRename (object : List (Str × Value)) (paths : CandidatePaths) (path : RepoPath) :
    Except Str CandidatePaths :=
  match (object.lookup (ascii "from")).bind Value.asStr? with
  | none => .error (ascii "rename change requires from")
  | some source => do
    let source ← protocolPath source (ascii "rename source path is invalid")
    return (paths.remove source).add path

def applyCandidateChange (paths : CandidatePaths) (change : Value) : Except Str CandidatePaths := do
  let (object, path, kind) ← parseCandidateChange change
  if kind = ascii "create" ∨ kind = ascii "modify" then return paths.add path
  else if kind = ascii "delete" then return paths.remove path
  else if kind = ascii "rename" then applyCandidateRename object paths path
  else .error (ascii "check/evaluate change kind is invalid")

/-- One round of the loop of `requested_path_subset`. -/
def addRequestedPath (candidate allowed : BTreeSet RepoPath) (path : Value) :
    Except Str (BTreeSet RepoPath) :=
  match path.asStr? with
  | none => .error (ascii "path scope entries must be strings")
  | some path => do
    let path ← protocolPath path (ascii "path scope entry is invalid")
    return if path ∈ candidate then allowed.insert path else allowed

def requestedPathSubset (scope : List (Str × Value)) (candidate : BTreeSet RepoPath) :
    Except Str (BTreeSet RepoPath) :=
  match arrayItems? (scope.lookup (ascii "paths")) with
  | none => .error (ascii "path scope requires paths")
  | some paths => paths.foldlM (addRequestedPath candidate) ∅

def selectRequestedPaths (scope : Option Value) (paths : CandidatePaths) :
    Except Str (BTreeSet RepoPath) :=
  match scope with
  | some (.string scope) =>
    if scope = ascii "workspace" then .ok paths.candidate
    else if scope = ascii "changeset" then .ok paths.changedAfter
    else .error (ascii "check/evaluate scope is invalid")
  | some (.object scope) => requestedPathSubset scope paths.candidate
  | _ => .error (ascii "check/evaluate scope is invalid")

def requestedDiagnosticPaths (request : HostRequest) : Except Str (BTreeSet RepoPath) :=
  let changes := (request.evaluationParams.get? (ascii "changeset")).bind (·.get? (ascii "changes"))
  match arrayItems? changes with
  | none => .error (ascii "check/evaluate changes must be an array")
  | some changes => do
    let paths ← changes.foldlM applyCandidateChange ⟨request.workspace.entries.keySet, ∅⟩
    selectRequestedPaths (request.evaluationParams.get? (ascii "scope")) paths

/-! ## Diagnostics -/

def validatePosition (value : Option Value) (label : Str) : Except Str Unit := do
  let position ← requiredObject value label [ascii "line", ascii "char"]
    [ascii "line", ascii "char"]
  if ((position.lookup (ascii "line")).bind Value.asU64?).isNone
      ∨ ((position.lookup (ascii "char")).bind Value.asU64?).isNone then
    .error (label ++ ascii " line and char must be non-negative integers")

def validateRange (value : Option Value) : Except Str Unit := do
  let range ← requiredObject value (ascii "diagnostic range") [ascii "start", ascii "end"]
    [ascii "start", ascii "end"]
  validatePosition (range.lookup (ascii "start")) (ascii "diagnostic range start")
  validatePosition (range.lookup (ascii "end")) (ascii "diagnostic range end")

def validateLocation (value : Option Value) (allowedPaths : BTreeSet RepoPath) :
    Except Str Unit := do
  let location ← requiredObject value (ascii "diagnostic location") [ascii "path", ascii "range"]
    [ascii "path"]
  match (location.lookup (ascii "path")).bind Value.asStr? with
  | none => .error (ascii "diagnostic location path must be a string")
  | some path =>
    let path ← protocolPath path (ascii "diagnostic location path is invalid")
    if path ∉ allowedPaths then
      .error (ascii "diagnostic location is outside the requested candidate scope")
    else whenPresent (location.lookup (ascii "range")) validateRange

def validateDiagnosticIdentity (diagnostic : List (Str × Value)) (profile : ProviderProfile) :
    Except Str Unit := do
  requirePrefixedString (diagnostic.lookup (ascii "code")) (ascii "diagnostic code")
    (profile.providerId ++ ascii "/")
  requireEqualString (diagnostic.lookup (ascii "source")) (ascii "diagnostic source")
    profile.providerId
  requireOneOfStrings (diagnostic.lookup (ascii "severity")) (ascii "diagnostic severity")
    [ascii "error", ascii "warning", ascii "info"]

def validateDiagnosticMessage (diagnostic : List (Str × Value)) : Except Str Unit := do
  requireNonemptyString (diagnostic.lookup (ascii "message")) (ascii "diagnostic message")
  requireNonemptyString (diagnostic.lookup (ascii "fingerprint")) (ascii "diagnostic fingerprint")

def validateCodeDescription (value : Option Value) : Except Str Unit := do
  let description ← requiredObject value (ascii "diagnostic codeDescription") [ascii "href"] []
  whenPresent (description.lookup (ascii "href")) fun href =>
    requireNonemptyString href (ascii "diagnostic codeDescription href")

def validateDiagnosticOptions (diagnostic : List (Str × Value)) : Except Str Unit := do
  whenPresent (diagnostic.lookup (ascii "help")) fun help =>
    requireNonemptyString help (ascii "diagnostic help")
  whenPresent (diagnostic.lookup (ascii "codeDescription")) validateCodeDescription

def validateIntroduced (value : Option Value) (comparison : Value) : Except Str Unit :=
  let marked := value.bind Value.asBool?
  match comparison.asStr? with
  | some comparison =>
    if comparison = ascii "introduced" then
      if marked = some true then .ok ()
      else .error (ascii "introduced diagnostic must be marked introduced")
    else if comparison = ascii "all" then
      if value = none ∨ marked = some false then .ok ()
      else .error (ascii "all-comparison diagnostic cannot be marked introduced")
    else if comparison = ascii "resolved" then
      .error (ascii "unsupported resolved assessment cannot contain diagnostics")
    else .error (ascii "provider assessment comparison is invalid")
  | none => .error (ascii "provider assessment comparison is invalid")

def requiredDiagnosticFields : List Str :=
  [ascii "code", ascii "severity", ascii "source", ascii "message", ascii "location",
    ascii "fingerprint"]

def diagnosticFields : List Str :=
  requiredDiagnosticFields ++ [ascii "introduced", ascii "help", ascii "codeDescription"]

def validateDiagnostic (profile : ProviderProfile) (comparison : Value)
    (allowedPaths : BTreeSet RepoPath) (value : Value) : Except Str Unit := do
  let diagnostic ← requiredObject (some value) (ascii "provider diagnostic") diagnosticFields
    requiredDiagnosticFields
  validateDiagnosticIdentity diagnostic profile
  validateDiagnosticMessage diagnostic
  validateLocation (diagnostic.lookup (ascii "location")) allowedPaths
  validateDiagnosticOptions diagnostic
  validateIntroduced (diagnostic.lookup (ascii "introduced")) comparison

def validateDiagnostics (value : Option Value) (profile : ProviderProfile) (comparison : Value)
    (allowedPaths : BTreeSet RepoPath) : Except Str Unit :=
  match arrayItems? value with
  | none => .error (ascii "provider diagnostics must be an array")
  | some diagnostics =>
    if maxDiagnostics < diagnostics.length then
      .error (ascii "provider diagnostics exceed 10000 findings")
    else diagnostics.forM (validateDiagnostic profile comparison allowedPaths)

/-! ## Evidence -/

def validateEvidenceItem (value : Value) : Except Str Unit := do
  let item ← requiredObject (some value) (ascii "provider evidence item")
    [ascii "kind", ascii "id", ascii "digest", ascii "uri", ascii "message", ascii "data"]
    [ascii "kind"]
  requireOneOfStrings (item.lookup (ascii "kind")) (ascii "provider evidence kind")
    [ascii "trace", ascii "artifact", ascii "metric", ascii "message", ascii "reference"]
  [ascii "id", ascii "digest", ascii "uri", ascii "message"].forM fun field =>
    whenPresent (item.lookup field) fun value =>
      requireNonemptyString value (ascii "provider evidence string")
  if (item.lookup (ascii "data")).any fun data => data.asObject?.isNone then
    .error (ascii "provider evidence data must be an object")

def validateEvidence (value : Option Value) : Except Str Unit :=
  match value with
  | none => .ok ()
  | some value =>
    match arrayItems? (some value) with
    | none => .error (ascii "provider evidence must be an array")
    | some evidence => evidence.forM validateEvidenceItem

/-! ## Coverage -/

/-- One round of the loop over the paths of a scope. -/
def insertScopePath (unique : BTreeSet RepoPath) (path : Value) : Except Str (BTreeSet RepoPath) :=
  match path.asStr? with
  | none => .error (ascii "path scope entry must be a string")
  | some path => do
    let path ← protocolPath path (ascii "path scope entry is invalid")
    if path ∈ unique then .error (ascii "path scope contains a duplicate path")
    else return unique.insert path

def validateScope (value : Option Value) (label : Str) : Except Str Unit :=
  if (value.bind Value.asStr?).any (· ∈ [ascii "changeset", ascii "workspace"]) then .ok ()
  else do
    let scope ← requiredObject value label [ascii "paths"] [ascii "paths"]
    match arrayItems? (scope.lookup (ascii "paths")) with
    | none => .error (ascii "path scope paths must be an array")
    | some paths =>
      if paths = [] then .error (ascii "path scope must not be empty")
      else
        let _ ← paths.foldlM insertScopePath ∅
        return

def validateCoveragePart (value : Option Value) (label : Str) : Except Str Unit := do
  let part ← requiredObject value label
    [ascii "scope", ascii "diagnosticSources", ascii "rules", ascii "comparison"]
    [ascii "scope", ascii "diagnosticSources", ascii "rules", ascii "comparison"]
  validateScope (part.lookup (ascii "scope")) label
  let _ ← stringSet (part.lookup (ascii "diagnosticSources")) label
  let _ ← stringSet (part.lookup (ascii "rules")) label
  requireOneOfStrings (part.lookup (ascii "comparison")) label
    [ascii "introduced", ascii "all", ascii "resolved"]

def degradationReasons : List Str :=
  [ascii "fail-open", ascii "quarantined", ascii "crashed", ascii "skewed", ascii "missing",
    ascii "stale", ascii "missing-required-provider", ascii "stale-baseline",
    ascii "blocking-diagnostic", ascii "missing-authority", ascii "insufficient-assurance",
    ascii "incomplete", ascii "unsupported", ascii "error", ascii "cancelled",
    ascii "malformed", ascii "timed-out", ascii "optional-degraded", ascii "unavailable",
    ascii "incompatible", ascii "unsupported-assurance", ascii "policy-self-authorization",
    ascii "direct-write-risk", ascii "lattice-fast-path"]

def providerStates : List Str :=
  [ascii "launched", ascii "initializing", ascii "initialized", ascii "active",
    ascii "cancelled", ascii "shutting-down", ascii "exited", ascii "crashed",
    ascii "timed-out", ascii "incompatible", ascii "malformed", ascii "unavailable",
    ascii "quarantined", ascii "degraded"]

def validateDegradationOptions (item : List (Str × Value)) (label : Str) : Except Str Unit := do
  whenPresent (item.lookup (ascii "capability")) fun capability =>
    requireOneOfStrings capability label [ascii "inspect", ascii "check", ascii "edit"]
  whenPresent (item.lookup (ascii "requirement")) fun requirement =>
    requireNonemptyString requirement label
  whenPresent (item.lookup (ascii "providerState")) fun state =>
    requireOneOfStrings state label providerStates

def validateDegradation (label providerId : Str) (value : Value) : Except Str Unit := do
  let item ← requiredObject (some value) label
    [ascii "source", ascii "reason", ascii "requirement", ascii "detail", ascii "capability",
      ascii "providerState"]
    [ascii "source", ascii "reason", ascii "detail"]
  requireEqualString (item.lookup (ascii "source")) label providerId
  requireOneOfStrings (item.lookup (ascii "reason")) label degradationReasons
  requireNonemptyString (item.lookup (ascii "detail")) label
  validateDegradationOptions item label

def validateDegradations (value : Option Value) (label providerId : Str) : Except Str Unit :=
  match arrayItems? value with
  | none => .error (label ++ ascii " must be an array")
  | some items => items.forM (validateDegradation label providerId)

def coverageFields : List Str :=
  [ascii "requested", ascii "covered", ascii "degraded", ascii "unsupported",
    ascii "exhaustive", ascii "truncated"]

def validateCoverageClaims (coverage : List (Str × Value)) (expected : Value) (providerId : Str) :
    Except Str Unit := do
  validateCoveragePart (coverage.lookup (ascii "requested")) (ascii "requested coverage")
  validateCoveragePart (coverage.lookup (ascii "covered")) (ascii "covered coverage")
  if coverage.lookup (ascii "requested") ≠ some expected then
    .error (ascii "provider requested coverage does not echo the host request")
  else
    validateDegradations (coverage.lookup (ascii "degraded")) (ascii "coverage degraded") providerId
    validateDegradations (coverage.lookup (ascii "unsupported")) (ascii "coverage unsupported")
      providerId

def coverageFlags (coverage : List (Str × Value)) : Except Str (Bool × Bool) :=
  match (coverage.lookup (ascii "exhaustive")).bind Value.asBool? with
  | none => .error (ascii "coverage exhaustive must be a boolean")
  | some exhaustive =>
    match (coverage.lookup (ascii "truncated")).bind Value.asBool? with
    | none => .error (ascii "coverage truncated must be a boolean")
    | some truncated => .ok (exhaustive, truncated)

def validateCompleteCoverage (coverage : List (Str × Value)) (expected : Value)
    (exhaustive truncated : Bool) : Except Str Unit :=
  if !exhaustive || truncated || decide (coverage.lookup (ascii "covered") ≠ some expected) then
    .error (ascii "complete assessment did not cover the exact requested scope")
  else
    [ascii "degraded", ascii "unsupported"].forM fun field =>
      if (arrayItems? (coverage.lookup field)).any List.isEmpty then .ok ()
      else .error (ascii "complete assessment contains degraded coverage")

def validateCoverageStatus (coverage : List (Str × Value)) (expected : Value) (status : Str)
    (exhaustive truncated : Bool) : Except Str Unit :=
  if status = ascii "complete" then
    validateCompleteCoverage coverage expected exhaustive truncated
  else if exhaustive then
    .error (ascii "non-complete assessment cannot claim exhaustive coverage")
  else .ok ()

def validateCoverage (value : Option Value) (status : Str) (expected : Value) (providerId : Str) :
    Except Str Unit := do
  let coverage ← requiredObject value (ascii "provider coverage") coverageFields coverageFields
  validateCoverageClaims coverage expected providerId
  let (exhaustive, truncated) ← coverageFlags coverage
  validateCoverageStatus coverage expected status exhaustive truncated

/-! ## Metadata -/

def validateTiming (value : Option Value) : Except Str Unit := do
  let timing ← requiredObject value (ascii "assessment timing")
    [ascii "startedAt", ascii "endedAt", ascii "elapsedMs"] []
  if (timing.lookup (ascii "elapsedMs")).any fun elapsed => elapsed.asU64?.isNone then
    .error (ascii "assessment elapsedMs must be a non-negative integer")
  [ascii "startedAt", ascii "endedAt"].forM fun field =>
    whenPresent (timing.lookup field) fun value =>
      requireTimestamp value (ascii "assessment timestamp")
  if (timing.lookup (ascii "elapsedMs")).isSome then return
  requireTimestamp (timing.lookup (ascii "startedAt")) (ascii "assessment startedAt")
  requireTimestamp (timing.lookup (ascii "endedAt")) (ascii "assessment endedAt")

def validateCache (value : Option Value) : Except Str Unit := do
  let cache ← requiredObject value (ascii "assessment cache")
    [ascii "status", ascii "key", ascii "digest", ascii "refreshedAt"] [ascii "status"]
  requireOneOfStrings (cache.lookup (ascii "status")) (ascii "assessment cache status")
    [ascii "hit", ascii "miss", ascii "stale", ascii "disabled"]
  [ascii "key", ascii "digest"].forM fun field =>
    whenPresent (cache.lookup field) fun value =>
      requireNonemptyString value (ascii "assessment cache field")
  whenPresent (cache.lookup (ascii "refreshedAt")) fun value =>
    requireTimestamp value (ascii "assessment cache refreshedAt")

section

variable [Sha256]

def validateFreshness (value : Option Value) (request : HostRequest) (readBlobs : BTreeSet Str) :
    Except Str Unit := do
  let freshness ← requiredObject value (ascii "provider validAsOf")
    [ascii "baseline", ascii "changesetDigest", ascii "blobs"]
    [ascii "baseline", ascii "changesetDigest", ascii "blobs"]
  if freshness.lookup (ascii "baseline") ≠ some request.workspace.baseline then
    .error (ascii "provider assessment echoed a stale baseline")
  else
    match request.evaluationParams.get? (ascii "changeset") with
    | none => .error (ascii "check/evaluate changeset is missing")
    | some changeset =>
      requireEqualString (freshness.lookup (ascii "changesetDigest"))
        (ascii "assessment changeset digest") (jsonDigest changeset)
      let cited ← stringSet (freshness.lookup (ascii "blobs")) (ascii "assessment blob read set")
      if cited ≠ readBlobs then
        .error (ascii "provider assessment blob read set does not match host callbacks")
      else return

section

variable [Build]

def validateProviderIdentity (provider : List (Str × Value)) (profile : ProviderProfile) :
    Except Str Unit := do
  requireEqualString (provider.lookup (ascii "id")) (ascii "assessment provider id")
    profile.providerId
  requireEqualString (provider.lookup (ascii "version")) (ascii "assessment provider version")
    Build.version
  requireEqualString (provider.lookup (ascii "capabilityVersion"))
    (ascii "assessment capability version") capabilityVersion

def validateProviderDigests (provider : List (Str × Value)) : Except Str Unit := do
  requireNonemptyString (provider.lookup (ascii "configDigest")) (ascii "assessment config digest")
  requireEqualString (provider.lookup (ascii "buildDigest")) (ascii "assessment build digest")
    Build.digest

def validateProviderOptions (provider : List (Str × Value)) : Except Str Unit := do
  whenPresent (provider.lookup (ascii "capabilityFamily")) fun family =>
    requireEqualString family (ascii "assessment capability family") (ascii "check")
  whenPresent (provider.lookup (ascii "artifactDigest")) fun digest =>
    requireNonemptyString digest (ascii "assessment artifact digest")

def validateProvider (value : Option Value) (profile : ProviderProfile) (request : HostRequest) :
    Except Str Unit := do
  let provider ← requiredObject value (ascii "assessment provider")
    [ascii "id", ascii "version", ascii "configDigest", ascii "capabilityVersion",
      ascii "buildDigest", ascii "artifactDigest", ascii "capabilityFamily"]
    [ascii "id", ascii "version", ascii "configDigest", ascii "capabilityVersion"]
  validateProviderIdentity provider profile
  validateProviderDigests provider
  let expected ← (configurationDigest (request.evaluationParams.get? (ascii "configuration"))
    profile).mapError RpcFailure.detail
  requireEqualString (provider.lookup (ascii "configDigest")) (ascii "assessment config digest")
    expected
  validateProviderOptions provider

/-! ## Assessments -/

def validateAssessmentContent (object : List (Str × Value)) (request : HostRequest)
    (profile : ProviderProfile) : Except Str Unit := do
  let status ← assessmentStatus (object.lookup (ascii "status"))
  let (expected, comparison) ← expectedCoveragePart request profile
  let diagnosticPaths ← requestedDiagnosticPaths request
  validateDiagnostics (object.lookup (ascii "diagnostics")) profile comparison diagnosticPaths
  validateEvidence (object.lookup (ascii "evidence"))
  validateCoverage (object.lookup (ascii "coverage")) status expected profile.providerId

def validateAssessmentMetadata (object : List (Str × Value)) (request : HostRequest)
    (profile : ProviderProfile) (readBlobs : BTreeSet Str) : Except Str Unit := do
  validateFreshness (object.lookup (ascii "validAsOf")) request readBlobs
  validateProvider (object.lookup (ascii "provider")) profile request
  validateTiming (object.lookup (ascii "timing"))
  validateCache (object.lookup (ascii "cache"))

/-- The source of a diagnostic, which is an object once it is validated, set anew. -/
def stampSource (providerId : Str) : Value → Value
  | .object members => .object (setMember members (ascii "source") (.string providerId))
  | value => value

def stampDiagnosticSources (object : List (Str × Value)) (providerId : Str) : Value :=
  match arrayItems? (object.lookup (ascii "diagnostics")) with
  | some diagnostics => .object (setMember object (ascii "diagnostics")
      (.array (diagnostics.map (stampSource providerId))))
  | none => .object object

/-- `validate_assessment`: the assessment the host goes on with. -/
def validateAssessment (assessment : Value) (request : HostRequest) (profile : ProviderProfile)
    (readBlobs : BTreeSet Str) : Except Str Value := do
  let object ← assessmentObject assessment
  if containsHostOwnedField assessment then
    .error (ascii "provider assessment contains a host-owned field")
  else
    validateAssessmentContent object request profile
    validateAssessmentMetadata object request profile readBlobs
    return stampDiagnosticSources object profile.providerId

end

end

end Validation

end Opcore
