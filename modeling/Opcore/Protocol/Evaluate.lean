/-
  Opcore.Protocol.Evaluate

  `check/evaluate` as the fast provider answers it: the views are read through the
  callbacks of the host, the engine evaluates them, and its assessment is encoded
  with the coverage it may claim.  The host answers a callback from its workspace
  and records the blobs it hands out.
-/
import Opcore.Analysis.Dedup
import Opcore.Protocol.EvaluateParams

namespace Opcore

open Text Collections Json Asp

/-! ## Texts -/

def Severity.asStr : Severity → Str
  | .error => ascii "error"
  | .warning => ascii "warning"
  | .info => ascii "info"

def Comparison.asStr : Comparison → Str
  | .introduced => ascii "introduced"
  | .all => ascii "all"

def AnalysisError.display : AnalysisError → Str
  | .cancelled => ascii "analysis cancelled"
  | .unsupported reason => ascii "unsupported source: " ++ reason
  | .parser reason => ascii "parser failure: " ++ reason

/-! ## Callbacks -/

structure Callback where
  method : Str
  params : Value

def listTreeCallback (baseline : Value) (paths : Option (BTreeSet RepoPath)) : Callback where
  method := ascii "workspace/listTree"
  params := .object ((ascii "baseline", baseline) :: (paths.map fun paths =>
    (ascii "paths", Value.array (paths.elems.map fun path => .string (pathText path)))).toList)

def readBlobCallback (id : Str) : Callback where
  method := ascii "workspace/readBlob"
  params := .object [(ascii "blobs", .array [.string id])]

section Host

variable [Base64]

def encodedBlob (id bytes : Str) : Value :=
  .object [(ascii "bytes", .string (Base64.encode bytes)),
    (ascii "encoding", .string (ascii "base64")), (ascii "id", .string id)]

/-- `read_blobs`, the callback `workspace/readBlob`; its loop has one round. -/
def HostWorkspace.readBlobs (workspace : HostWorkspace) (params : Value) : Except Str Value := do
  let object ← HostWorkspace.exactObject params [ascii "blobs"] (ascii "workspace/readBlob")
  match object.lookup (ascii "blobs") with
  | some (.array [value]) =>
    match value.asStr? with
    | none => .error (ascii "workspace/readBlob ids must be strings")
    | some id =>
      match workspace.blobs.get? id with
      | none => .error (ascii "workspace/readBlob requested unknown id " ++ id)
      | some bytes => return .object [(ascii "blobs", .array [encodedBlob id bytes])]
  | some (.array _) =>
    .error (ascii "workspace/readBlob requires exactly one blob per bounded callback")
  | _ => .error (ascii "workspace/readBlob.blobs must be an array")

def HostWorkspace.callback (workspace : HostWorkspace) (callback : Callback) : Except Str Value :=
  if callback.method = ascii "workspace/listTree" then workspace.listTree callback.params
  else if callback.method = ascii "workspace/readBlob" then workspace.readBlobs callback.params
  else .error (ascii "provider requested unsupported callback " ++ callback.method)

/-- The pointer `/blobs/0`. -/
def firstBlob (params : Value) : Option Value :=
  match params.get? (ascii "blobs") with
  | some (.array (blob :: _)) => some blob
  | _ => none

/-- An answered read puts its blob among those that were read. -/
def recordBlobRead (callback : Callback) (result : Except Str Value) (readBlobs : BTreeSet Str) :
    Except Str (BTreeSet Str) :=
  match result with
  | .error _ => .ok readBlobs
  | .ok _ =>
    if callback.method ≠ ascii "workspace/readBlob" then .ok readBlobs
    else
      match (firstBlob callback.params).bind Value.asStr? with
      | none => .error (ascii "validated workspace/readBlob omitted its blob")
      | some blob => .ok (readBlobs.insert blob)

/-- What the host has recorded after one callback.  An answer too large for a frame
    reaches the provider as an error, after which it makes no assessment. -/
def answerCallback (workspace : HostWorkspace) (readBlobs : BTreeSet Str) (callback : Callback) :
    Except Str (BTreeSet Str) :=
  recordBlobRead callback (workspace.callback callback) readBlobs

/-- The blobs the host has handed out in a run of callbacks. -/
def recordedReads (workspace : HostWorkspace) (callbacks : List Callback) :
    Except Str (BTreeSet Str) :=
  callbacks.foldlM (answerCallback workspace) ∅

end Host

namespace Asp

/-- How a callback the host refused reaches the provider. -/
def callbackRefused (detail : Str) : RpcFailure :=
  ⟨-32012, ascii "host-callback-policy", ascii "policy", false, detail⟩

def blobEncodingOfValue? (value : Value) : Option BlobEncoding := do
  let name ← unitVariant value
  if name = ascii "utf-8" then some .utf8
  else if name = ascii "base64" then some .base64
  else none

def BlobResult.ofValue? (value : Value) : Option BlobResult := do
  let fields ← structFields [ascii "id", ascii "encoding", ascii "bytes"] value
  let id ← requiredField Value.asStr? fields (ascii "id")
  let encoding ← requiredField blobEncodingOfValue? fields (ascii "encoding")
  let bytes ← requiredField Value.asStr? fields (ascii "bytes")
  return ⟨id, encoding, bytes⟩

def ReadBlobResult.ofValue? (value : Value) : Option ReadBlobResult := do
  let fields ← structFields [ascii "blobs"] value
  (requiredField (readArray BlobResult.ofValue?) fields (ascii "blobs")).map ReadBlobResult.mk

def parseReadBlob [Build] (value : Value) : Except RpcFailure ReadBlobResult :=
  match ReadBlobResult.ofValue? value with
  | none => .error (.contract (ascii "malformed workspace/readBlob result: "
      ++ Build.deserializeError value))
  | some result => .ok result

end Asp

/-- The callbacks of a provider whose host answers from a workspace. -/
def HostWorkspace.host [Base64] [Build] (workspace : HostWorkspace) : AspHost where
  listTree baseline paths := do
    let value ← (workspace.callback (listTreeCallback baseline paths)).mapError callbackRefused
    parseListing value
  readBlob id := do
    let value ← (workspace.callback (readBlobCallback id)).mapError callbackRefused
    parseReadBlob value

/-! ## The handshake -/

section

variable [Build]

def initializeParams (workspace : HostWorkspace) : Value :=
  .object [
    (ascii "host", .object [(ascii "name", .string (ascii "opcore-host")),
      (ascii "version", .string Build.version)]),
    (ascii "protocolVersion", .string protocolVersion),
    (ascii "workspace", .object [(ascii "baseline", workspace.baseline),
      (ascii "root", .string (ascii "/candidate"))])]

def initializedParams (workspace : HostWorkspace) (wallclockMs : Nat) : Value :=
  .object [(ascii "baseline", workspace.baseline),
    (ascii "grantedPermissions", .object [(ascii "network", .bool false),
      (ascii "read", .array [.string (ascii "**/*")]),
      (ascii "resourceLimits", .object [(ascii "wallclockMs", .number (.int wallclockMs))]),
      (ascii "write", .bool false)])]

/-- The session a provider has after the handshake with a host. -/
def hostSession (workspace : HostWorkspace) (profile : ProviderProfile) (wallclockMs : Nat) :
    Except RpcFailure AspSession := do
  let (_, baseline) ← initializeFor (initializeParams workspace) profile
  initialized (initializedParams workspace wallclockMs) baseline

end

/-! ## Coverage -/

namespace Asp

def coverageNotice (source reason detail : Str) : Value :=
  .object [(ascii "capability", .string (ascii "check")), (ascii "detail", .string detail),
    (ascii "reason", .string reason), (ascii "source", .string source)]

structure RequestSupport where
  sources : Bool
  rules : Bool

structure AspCoverage where
  unsupported : List Value
  degraded : List Value
  assessmentStatus : AssessmentStatus
  requestSupport : RequestSupport
  requestedSources : List Str
  requestedRules : List Str

def unsupportedGaps (assessment : Assessment) : List Value :=
  (assessment.coverage.gaps.filter fun item =>
    item.status = .unsupported ∨ item.status = .notChecked).map fun item =>
      coverageNotice ProviderProfile.fast.providerId (ascii "unsupported")
        (item.path.displayLossless ++ ascii ": "
          ++ item.reason.getD (ascii "unsupported source"))

def requestUnsupported (support : RequestSupport) : List Value :=
  (if support.sources then []
    else [coverageNotice ProviderProfile.fast.providerId (ascii "unsupported")
      (ascii "requested diagnostic source is not owned by opcore")])
  ++ (if support.rules then []
    else [coverageNotice ProviderProfile.fast.providerId (ascii "unsupported")
      (ascii "requested rule is not owned by Opcore Verify")])

namespace AspCoverage

def new (assessment : Assessment) (params : NormalizedParams) : AspCoverage :=
  let requestSupport : RequestSupport :=
    { sources := params.requestedSources.all (· = ProviderProfile.fast.providerId)
      rules := params.requestedRules.all (· = ProviderProfile.fast.rule) }
  let unsupported := unsupportedGaps assessment ++ requestUnsupported requestSupport
  { unsupported
    degraded := unsupported ++
      (if assessment.status = .incomplete then
        [coverageNotice ProviderProfile.fast.providerId (ascii "incomplete")
          (ascii "required file coverage was incomplete")]
      else [])
    assessmentStatus := assessment.status
    requestSupport
    requestedSources := params.requestedSources
    requestedRules := params.requestedRules }

variable (coverage : AspCoverage)

def status (assessment : Assessment) : Str :=
  match assessment.status with
  | .cancelled => ascii "cancelled"
  | .error => ascii "error"
  | .notChecked => ascii "unsupported"
  | _ =>
    if coverage.assessmentStatus = .incomplete then ascii "incomplete"
    else if coverage.unsupported ≠ [] then ascii "unsupported"
    else ascii "complete"

def isComplete : Bool :=
  coverage.unsupported.isEmpty && coverage.assessmentStatus ∉
    [AssessmentStatus.notChecked, .incomplete, .error, .cancelled]

def isIncomplete : Bool := coverage.assessmentStatus = .incomplete

def coveredSources : List Str := if coverage.isComplete then coverage.requestedSources else []

def coveredRules : List Str := if coverage.isComplete then coverage.requestedRules else []

end AspCoverage

/-! ## Encoding an assessment -/

/-- What the engine measures of an evaluation besides its result. -/
structure Measurement where
  durationMs : UInt64
  filesParsed : UInt64
  cacheState : Str
  cacheHits : UInt64
  cacheMisses : UInt64

def count (n : Nat) : Value := .number (.int n)

def positionMembers (position : Position) : List (Str × Value) :=
  [(ascii "char", count (position.column - 1)), (ascii "line", count (position.line - 1))]

def rangeValue (range : SourceRange) : Value :=
  .object [(ascii "end", .object (positionMembers range.stop)),
    (ascii "start", .object (positionMembers range.start))]

def locationMembers (diagnostic : Diagnostic) : List (Str × Value) :=
  (ascii "path", .string (pathText diagnostic.path))
    :: (diagnostic.range.map fun range => (ascii "range", rangeValue range)).toList

def diagnosticMembers (comparison : Comparison) (diagnostic : Diagnostic) : List (Str × Value) :=
  [(ascii "code", .string (ProviderProfile.fast.providerId ++ ascii "/" ++ diagnostic.ruleId)),
      (ascii "fingerprint", .string (ascii "sha256:" ++ diagnostic.fingerprint))]
    ++ (if comparison = .introduced then [(ascii "introduced", .bool true)] else [])
    ++ [(ascii "location", .object (locationMembers diagnostic)),
      (ascii "message", .string diagnostic.message),
      (ascii "severity", .string diagnostic.severity.asStr),
      (ascii "source", .string ProviderProfile.fast.providerId)]

def aspDiagnostic (comparison : Comparison) (diagnostic : Diagnostic) : Value :=
  .object (diagnosticMembers comparison diagnostic)

def aspDiagnostics (diagnostics : List Diagnostic) (params : NormalizedParams)
    (coverage : AspCoverage) : List Value :=
  if coverage.requestSupport.rules && coverage.requestSupport.sources then
    diagnostics.map (aspDiagnostic params.comparison)
  else []

def cacheStatus (measured : Measurement) : Str :=
  if measured.cacheState = ascii "disabled" then ascii "disabled"
  else if measured.cacheMisses = 0 ∧ 0 < measured.cacheHits then ascii "hit"
  else ascii "miss"

/-- The evidence of an assessment: what was read and parsed, and under which grant. -/
def evidenceValue (assessment : Assessment) (measured : Measurement) (initializedGrant : Value) :
    Value :=
  .object [
    (ascii "data", .object [
      (ascii "cacheHits", count measured.cacheHits.toNat),
      (ascii "cacheMisses", count measured.cacheMisses.toNat),
      (ascii "filesParsed", count measured.filesParsed.toNat),
      (ascii "filesRead", count assessment.filesRead),
      (ascii "initializedGrant", initializedGrant)]),
    (ascii "kind", .string (ascii "metric")),
    (ascii "message", .string (ascii "Opcore in-process parser verification; "
      ++ ascii "evidence does not grant host authority."))]

def coverageValue (requested covered : Value) (degraded unsupported : List Value)
    (exhaustive truncated : Bool) : Value :=
  .object [(ascii "covered", covered), (ascii "degraded", .array degraded),
    (ascii "exhaustive", .bool exhaustive), (ascii "requested", requested),
    (ascii "truncated", .bool truncated), (ascii "unsupported", .array unsupported)]

def validAsOfValue (baseline : Value) (changesetDigest : Str) (readIds : List Str) : Value :=
  .object [(ascii "baseline", baseline), (ascii "blobs", .array (readIds.map Value.string)),
    (ascii "changesetDigest", .string changesetDigest)]

def providerValue [Build] (profile : ProviderProfile) (configDigest : Str) : Value :=
  .object [(ascii "buildDigest", .string Build.digest),
    (ascii "capabilityFamily", .string (ascii "check")),
    (ascii "capabilityVersion", .string capabilityVersion),
    (ascii "configDigest", .string configDigest), (ascii "id", .string profile.providerId),
    (ascii "version", .string Build.version)]

section

variable (cacheStatus : Str) (coverage : Value) (diagnostics evidence : List Value)
  (provider : Value) (status : Str) (elapsedMs : Nat) (validAsOf : Value)

/-- The members of an assessment, in key order. -/
def assessmentMembers : List (Str × Value) :=
  [(ascii "cache", .object [(ascii "status", .string cacheStatus)]),
    (ascii "coverage", coverage),
    (ascii "diagnostics", .array diagnostics),
    (ascii "evidence", .array evidence),
    (ascii "provider", provider),
    (ascii "status", .string status),
    (ascii "timing", .object [(ascii "elapsedMs", count elapsedMs)]),
    (ascii "validAsOf", validAsOf)]

def assessmentValue : Value :=
  .object (assessmentMembers cacheStatus coverage diagnostics evidence provider status elapsedMs
    validAsOf)

end

/-- The assessment of the engine in the form of the protocol. -/
def toAspAssessment [Build] (assessment : Assessment) (measured : Measurement)
    (params : NormalizedParams) (readIds : List Str) (baseline initializedGrant : Value) : Value :=
  let coverage := AspCoverage.new assessment params
  let part sources rules :=
    coveragePart params.scopeJson sources rules (.string params.comparison.asStr)
  assessmentValue (cacheStatus measured)
    (coverageValue (part params.requestedSources params.requestedRules)
      (part coverage.coveredSources coverage.coveredRules) coverage.degraded coverage.unsupported
      coverage.isComplete coverage.isIncomplete)
    (aspDiagnostics assessment.diagnostics params coverage)
    [evidenceValue assessment measured initializedGrant]
    (providerValue .fast params.configuration.digest)
    (coverage.status assessment) measured.durationMs.toNat
    (validAsOfValue baseline params.changesetDigest readIds)

/-! ## Gaps -/

structure CoverageGapInput where
  profile : ProviderProfile
  session : AspSession
  scope : Value
  comparison : Value
  requestedSources : List Str
  requestedRules : List Str
  changesetDigest : Str
  detail : Str
  configDigest : Str
  status : Str
  truncated : Bool

def coverageGapValue [Build] (input : CoverageGapInput) : Value :=
  let notice := coverageNotice input.profile.providerId input.status input.detail
  assessmentValue (ascii "disabled")
    (coverageValue
      (coveragePart input.scope input.requestedSources input.requestedRules input.comparison)
      (coveragePart input.scope [] [] input.comparison) [notice]
      (if input.status = ascii "unsupported" then [notice] else []) false input.truncated)
    [] [] (providerValue input.profile input.configDigest) input.status 0
    (validAsOfValue input.session.baseline input.changesetDigest [])

section

variable (session : AspSession) (profile : ProviderProfile)

/-- A gap in the evaluation of a request that is supported. -/
def normalizedGap (params : NormalizedParams) (detail status : Str) (truncated : Bool) :
    CoverageGapInput where
  profile
  session
  scope := params.scopeJson
  comparison := .string params.comparison.asStr
  requestedSources := params.requestedSources
  requestedRules := params.requestedRules
  changesetDigest := params.changesetDigest
  detail
  configDigest := params.configuration.digest
  status
  truncated

/-- The gap of a request whose comparison is not supported. -/
def unsupportedGap (params : UnsupportedParams) (detail : Str) : CoverageGapInput where
  profile
  session
  scope := params.scopeJson
  comparison := .string params.comparison.asStr
  requestedSources := params.requestedSources
  requestedRules := params.requestedRules
  changesetDigest := params.changesetDigest
  detail
  configDigest := params.configuration.digest
  status := ascii "unsupported"
  truncated := false

variable [Build]

def unsupportedComparisonAssessment (params : UnsupportedParams) : Value :=
  coverageGapValue (unsupportedGap session profile params
    (ascii "resolved comparison is not supported by this provider"))

def unsupportedNormalizedAssessment (params : NormalizedParams) (detail : Str) : Value :=
  coverageGapValue (normalizedGap session profile params detail (ascii "unsupported") false)

def workspaceGapAssessment (params : NormalizedParams) (gap : WorkspaceGap) : Value :=
  coverageGapValue (normalizedGap session profile params gap.detail gap.status gap.truncated)

end

/-! ## Evaluation -/

/-- Where an evaluation asks whether it was cancelled. -/
inductive Checkpoint where
  | normalized
  | prepared
  | path (path : RepoPath)
  | evaluated

/-- What an evaluation depends on besides the request and the host.  Its wallclock
    grant only ever turns an assessment into an error, and is left out. -/
structure EvaluationRuntime where
  order : HeapOrder
  workers : Schedule
  load : RuleLimits → SourceFile → Except AnalysisError FileFacts
  cancelled : Checkpoint → Bool
  measured : Measurement
  native : NormalizedParams → AspSession → ProviderProfile → Except RpcFailure Value

def EvaluationRuntime.ensureNotCancelled (runtime : EvaluationRuntime) (checkpoint : Checkpoint) :
    Except RpcFailure Unit :=
  if runtime.cancelled checkpoint then .error .cancelled else .ok ()

def engineScope : Scope → Opcore.Scope
  | .changeset => .changeset
  | .workspace => .workspace
  | .paths names => .paths names

def evaluationRequest (params : NormalizedParams) (prepared : PreparedViews) :
    EvaluationRequest where
  before := some prepared.before
  after := prepared.after
  scope := engineScope params.scope
  comparison := params.comparison
  paths := prepared.paths
  validAsOf := params.changesetDigest
  publicFingerprintComparison := true

def hasFullWorkspaceRead (session : AspSession) : Bool :=
  session.initializedGrant.get? (ascii "read") = some (.array [.string (ascii "**/*")])

section

variable [Sha256] [Build]

/-- The engine's part of `evaluate_fast`, once the views are read. -/
def evaluateViews (params : NormalizedParams) (session : AspSession) (runtime : EvaluationRuntime)
    (prepared : PreparedViews) : Except RpcFailure Value := do
  runtime.ensureNotCancelled .prepared
  let assessment ← (evaluate runtime.order runtime.workers
    (runtime.load params.configuration.verify) (fun path => runtime.cancelled (.path path))
    (evaluationRequest params prepared)).mapError fun error => .unavailable error.display
  if runtime.cancelled .evaluated ∨ assessment.status = .cancelled then .error .cancelled
  else
    return toAspAssessment assessment runtime.measured params prepared.readIds session.baseline
      session.initializedGrant

variable [Asp.Base64] [Platform]

def evaluateFast (params : NormalizedParams) (session : AspSession) (host : AspHost)
    (runtime : EvaluationRuntime) : Except RpcFailure Value :=
  match prepareViews host session params.changeset params.scope with
  | .error (.rpc failure) => .error failure
  | .error (.coverage gap) => .ok (workspaceGapAssessment session .fast params gap)
  | .ok prepared => evaluateViews params session runtime prepared

variable [PriorEvidence]

/-- Evaluate for a profile, or say why the request is not supported. -/
def evaluateFor (params : Value) (session : AspSession) (profile : ProviderProfile)
    (host : AspHost) (runtime : EvaluationRuntime) : Except RpcFailure Value := do
  match ← normalizeParamsFor params session profile with
  | .unsupported params => return unsupportedComparisonAssessment session profile params
  | .supported params =>
    runtime.ensureNotCancelled .normalized
    if params.scope = .workspace ∧ !hasFullWorkspaceRead session then
      return unsupportedNormalizedAssessment session profile params
        (ascii "workspace scope requires the exact full-workspace read grant")
    else if profile ≠ .fast then runtime.native params session profile
    else evaluateFast params session host runtime

/-! ## The callbacks of an evaluation -/

/-- The ids the loop of `read_blobs` asks for: each one before which all were read. -/
def AspHost.requestedIds (host : AspHost) (ids : List Str) : List Str :=
  (ids.zipIdx.filter fun (_, n) => (host.readBlobs (ids.take n) 0 ∅).isOk).map Prod.fst

/-- The listing `prepare_views` asks for. -/
def viewListing (session : AspSession) (changeset : ChangeSet) (scope : Scope) : Callback :=
  let requested := requestedPaths scope (affectedSourcePaths changeset)
  let preconditions := scopedChangePreconditionPaths changeset scope requested
  listTreeCallback session.baseline (allowedListingPaths scope preconditions requested)

/-- The blobs `prepare_views` asks for, where it comes to know its trees. -/
def blobCallbacks (host : AspHost) :
    WorkspaceResult (BTreeSet RepoPath × TreeState × TreeState) → List Callback
  | .error _ => []
  | .ok (paths, baseline, after) =>
    match rejectSourceSymlinks paths baseline after with
    | .error _ => []
    | .ok () =>
      (host.requestedIds (requiredBlobIds paths baseline after).elems).map readBlobCallback

/-- The callbacks with which `prepare_views` reads the views, in order. -/
def viewCallbacks (host : AspHost) (session : AspSession) (changeset : ChangeSet) (scope : Scope) :
    List Callback :=
  viewListing session changeset scope
    :: blobCallbacks host (viewTrees host session changeset scope)

/-- The callbacks of an evaluation by the fast provider. -/
def fastCallbacks (params : Value) (session : AspSession) (host : AspHost)
    (runtime : EvaluationRuntime) : List Callback :=
  match normalizeParamsFor params session .fast with
  | .ok (.supported params) =>
    if runtime.cancelled .normalized = true
        ∨ params.scope = .workspace ∧ !hasFullWorkspaceRead session then []
    else viewCallbacks host session params.changeset params.scope
  | _ => []

end

end Asp

end Opcore
