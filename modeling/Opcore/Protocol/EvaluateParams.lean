/-
  Opcore.Protocol.EvaluateParams

  What the provider reads of a `check/evaluate` request: its params, the settings
  in them with their digest, and the request it works on once all are accepted.
-/
import Opcore.Engine.Evaluation
import Opcore.Policy.Configuration
import Opcore.Protocol.HostInput

namespace Opcore.Asp

open Text Collections Json

def capabilityVersion : Str := ascii "check/1.0"

def ProviderProfile.rule : ProviderProfile → Str
  | .fast => ascii "opcore/core"
  | .rustNative => ascii "opcore-rust-native/cargo-check"
  | .nodeNative => ascii "opcore-node-native/typescript-check"
  | .pythonNative => ascii "opcore-python-native/type-check"

/-- The evidence of earlier checks a request may carry: how it is read and what
    is checked of it.  The provider drops it after these checks. -/
class PriorEvidence where
  Diagnostic : Type
  diagnosticOfValue? : Value → Option Diagnostic
  Assessment : Type
  assessmentOfValue? : Value → Option Assessment
  validate : List Diagnostic → List Assessment → Except RpcFailure Unit

/-! ## Settings -/

structure Configuration where
  verify : RuleLimits
  digest : Str

/-- A field that has a default. -/
def defaultedField {α : Type} (read : Value → Option α) (fields : List (Str × Value)) (key : Str)
    (default : α) : Option α :=
  (optionalField read fields key).map (·.getD default)

/-- The derived deserializer of `RuleLimits`. -/
def ruleLimitsOfValue? (value : Value) : Option RuleLimits := do
  let fields ← structFields RuleLimits.fields value
  let limit := defaultedField u32.decode fields
  let maxFileLines ← limit (ascii "maxFileLines") ({} : RuleLimits).maxFileLines
  let maxLineBytes ← limit (ascii "maxLineBytes") ({} : RuleLimits).maxLineBytes
  let maxFunctionLines ← limit (ascii "maxFunctionLines") ({} : RuleLimits).maxFunctionLines
  let maxParameters ← limit (ascii "maxParameters") ({} : RuleLimits).maxParameters
  let maxNesting ← limit (ascii "maxNesting") ({} : RuleLimits).maxNesting
  let maxCyclomaticComplexity ←
    limit (ascii "maxCyclomaticComplexity") ({} : RuleLimits).maxCyclomaticComplexity
  return { maxFileLines, maxLineBytes, maxFunctionLines, maxParameters, maxNesting,
           maxCyclomaticComplexity }

/-- The derived deserializer of `FastConfiguration`. -/
def fastConfigurationOfValue? (value : Value) : Option RuleLimits := do
  let fields ← structFields [ascii "verify"] value
  defaultedField ruleLimitsOfValue? fields (ascii "verify") {}

section

variable [Sha256] [Build]

/-- The limits a profile takes from its settings; a native one has none to set. -/
def configurationLimits (value : Value) (profile : ProviderProfile) :
    Except RpcFailure RuleLimits :=
  match value.asObject? with
  | none => .error (.input (ascii "configuration must be an object"))
  | some object =>
    if profile = .fast then
      match fastConfigurationOfValue? value with
      | none => .error (.input (ascii "invalid configuration: " ++ Build.deserializeError value))
      | some verify => do
        (validateVerify verify).mapError fun failure =>
          .input (ascii "invalid configuration: " ++ List.intercalate (ascii ": ") failure)
        return verify
    else if object ≠ [] then
      .error (.input (profile.providerId
        ++ ascii " accepts only an empty configuration object; native project settings come "
        ++ ascii "from captured workspace inputs"))
    else .ok {}

/-- The settings a digest names. -/
def configurationValue (profile : ProviderProfile) (verify : RuleLimits) : Value :=
  .object [(ascii "capabilityVersion", .string capabilityVersion),
    (ascii "configuration", .object
      (if profile = .fast then [(ascii "verify", verify.toValue)] else [])),
    (ascii "provider", .string profile.providerId)]

/-- `configuration::resolve`. -/
def Configuration.resolve (value : Option Value) (profile : ProviderProfile) :
    Except RpcFailure Configuration := do
  let verify ← configurationLimits (value.getD (.object [])) profile
  return ⟨verify, jsonDigest (configurationValue profile verify)⟩

/-- `configuration_digest`: the identity a provider must report for some settings. -/
def configurationDigest (value : Option Value) (profile : ProviderProfile) :
    Except RpcFailure Str :=
  (Configuration.resolve value profile).map Configuration.digest

end

/-! ## Changesets as JSON -/

def ChangeSet.toValue [Build] (changeset : ChangeSet) : Value :=
  .object [(ascii "baseline", changeset.baseline.toValue),
    (ascii "changes", .array (changeset.changes.map Change.toValue))]

/-- A changeset is read back where all its paths are. -/
theorem ChangeSet.ofValue?_toValue [Build] (changeset : ChangeSet) :
    ChangeSet.ofValue? changeset.toValue
      = if changeset.changes.all Change.isSendable then some changeset else none := by
  obtain ⟨⟨rev, dirty, stampedAt⟩, changes⟩ := changeset
  have hbaseline : Baseline.ofValue? (Baseline.toValue ⟨rev, dirty, stampedAt⟩)
      = some ⟨rev, dirty, stampedAt⟩ := by
    cases dirty <;> cases stampedAt <;> rfl
  have hchanges : (changes.map Change.toValue).mapM Change.ofValue?
      = if changes.all Change.isSendable then some (changes.map id) else none := by
    apply Option.mapM_of_map_eq_ite
    rw [List.map_map]
    apply List.map_congr_left
    intro change _
    exact Change.ofValue?_toValue change
  have hread : ChangeSet.ofValue? (ChangeSet.toValue ⟨⟨rev, dirty, stampedAt⟩, changes⟩)
      = (Baseline.ofValue? (Baseline.toValue ⟨rev, dirty, stampedAt⟩)).bind fun baseline =>
          ((changes.map Change.toValue).mapM Change.ofValue?).bind fun changes =>
            some ⟨baseline, changes⟩ := rfl
  rw [hread, hbaseline, hchanges, List.map_id]
  cases changes.all Change.isSendable <;> rfl

/-! ## Params -/

inductive WireComparison where
  | introduced
  | all
  | resolved
  deriving DecidableEq

def WireComparison.asStr : WireComparison → Str
  | .introduced => ascii "introduced"
  | .all => ascii "all"
  | .resolved => ascii "resolved"

def WireComparison.ofValue? (value : Value) : Option WireComparison := do
  let name ← unitVariant value
  [WireComparison.introduced, .all, .resolved].find? fun comparison => comparison.asStr = name

inductive ScopeWire where
  | changeset
  | workspace
  | paths (paths : List RepoPath)

def namedScopeOfValue? (value : Value) : Option ScopeWire := do
  let name ← unitVariant value
  if name = ascii "changeset" then some .changeset
  else if name = ascii "workspace" then some .workspace
  else none

def pathScopeOfValue? (value : Value) : Option ScopeWire := do
  let fields ← structFields [ascii "paths"] value
  (requiredField (readArray pathOfValue?) fields (ascii "paths")).map ScopeWire.paths

/-- The untagged deserializer, which tries a name first. -/
def ScopeWire.ofValue? (value : Value) : Option ScopeWire :=
  namedScopeOfValue? value <|> pathScopeOfValue? value

def ScopeWire.normalize : ScopeWire → Except RpcFailure Scope
  | .changeset => .ok .changeset
  | .workspace => .ok .workspace
  | .paths names =>
    if names = [] then .error (.input (ascii "path scope must contain at least one path"))
    else if (BTreeSet.ofList names).size ≠ names.length then
      .error (.input (ascii "path scope contains duplicates"))
    else .ok (.paths names)

structure CanonicalParams where
  changeset : ChangeSet
  scope : ScopeWire
  comparison : WireComparison
  configuration : Option Value
  diagnosticSources : List Str
  rules : List Str

section

variable [PriorEvidence]

/-- The params with the prior evidence, which goes no further than its checks. -/
def CanonicalParams.ofValue? (value : Value) :
    Option (CanonicalParams × List PriorEvidence.Diagnostic × List PriorEvidence.Assessment) := do
  let fields ← structFields [ascii "changeset", ascii "scope", ascii "comparison",
    ascii "configuration", ascii "diagnosticSources", ascii "rules", ascii "priorDiagnostics",
    ascii "priorAssessments"] value
  let changeset ← requiredField ChangeSet.ofValue? fields (ascii "changeset")
  let scope ← requiredField ScopeWire.ofValue? fields (ascii "scope")
  let comparison ← requiredField WireComparison.ofValue? fields (ascii "comparison")
  let diagnosticSources ←
    defaultedField (readArray Value.asStr?) fields (ascii "diagnosticSources") []
  let rules ← defaultedField (readArray Value.asStr?) fields (ascii "rules") []
  let priorDiagnostics ← defaultedField (readArray PriorEvidence.diagnosticOfValue?) fields
    (ascii "priorDiagnostics") []
  let priorAssessments ← defaultedField (readArray PriorEvidence.assessmentOfValue?) fields
    (ascii "priorAssessments") []
  return (⟨changeset, scope, comparison, fields.lookup (ascii "configuration"),
    diagnosticSources, rules⟩, priorDiagnostics, priorAssessments)

def parseCanonicalParams [Build] (value : Value) : Except RpcFailure CanonicalParams :=
  match CanonicalParams.ofValue? value with
  | none =>
    .error (.input (ascii "invalid check/evaluate request: " ++ Build.deserializeError value))
  | some (params, priorDiagnostics, priorAssessments) => do
    PriorEvidence.validate priorDiagnostics priorAssessments
    return params

end

/-! ## Requests -/

/-- A part of a coverage, `requested` or `covered`. -/
def coveragePart (scope : Value) (sources rules : List Str) (comparison : Value) : Value :=
  .object [(ascii "comparison", comparison),
    (ascii "diagnosticSources", .array (sources.map Value.string)),
    (ascii "rules", .array (rules.map Value.string)), (ascii "scope", scope)]

structure NormalizedParams where
  changeset : ChangeSet
  changesetDigest : Str
  scope : Scope
  scopeJson : Value
  comparison : Comparison
  requestedSources : List Str
  requestedRules : List Str
  configuration : Configuration

structure UnsupportedParams where
  changesetDigest : Str
  scopeJson : Value
  comparison : WireComparison
  requestedSources : List Str
  requestedRules : List Str
  configuration : Configuration

inductive NormalizedRequest where
  | supported (params : NormalizedParams)
  | unsupported (params : UnsupportedParams)

def validateRequestNames (values : List Str) (label : Str) : Except RpcFailure Unit :=
  if maxFiles < values.length then .error (.input (label ++ ascii " exceeds 10000 entries"))
  else if (BTreeSet.ofList values).size ≠ values.length then
    .error (.input (label ++ ascii " contains duplicates"))
  else if values.any List.isEmpty then
    .error (.input (label ++ ascii " entries must not be empty"))
  else .ok ()

def validateActiveBaseline [Build] (baseline : Baseline) (active : Value) :
    Except RpcFailure Unit :=
  if baseline.toValue.serialize ≠ active.serialize then
    .error (.health (ascii "request baseline differs from the active initialized baseline"))
  else .ok ()

def validateRequestInputs [Build] (changeset : ChangeSet) (sources rules : List Str)
    (session : AspSession) : Except RpcFailure Unit := do
  validateRequestNames sources (ascii "diagnosticSources")
  validateRequestNames rules (ascii "rules")
  validateChangeset changeset
  validateActiveBaseline changeset.baseline session.baseline

def scopeValue : Scope → Value
  | .changeset => .string (ascii "changeset")
  | .workspace => .string (ascii "workspace")
  | .paths names =>
    .object [(ascii "paths", .array (names.map fun path => .string (pathText path)))]

def defaultRequest (values : List Str) (default : Str) : List Str :=
  if values = [] then [default] else values

section

variable [Sha256] [Build]

def normalizeComparison (params : CanonicalParams) (scope : Scope) (configuration : Configuration)
    (profile : ProviderProfile) : NormalizedRequest :=
  let changesetDigest := jsonDigest params.changeset.toValue
  let scopeJson := scopeValue scope
  let requestedSources := defaultRequest params.diagnosticSources profile.providerId
  let requestedRules := defaultRequest params.rules profile.rule
  let supported (comparison : Comparison) : NormalizedRequest :=
    .supported { changeset := params.changeset, changesetDigest, scope, scopeJson, comparison,
                 requestedSources, requestedRules, configuration }
  match params.comparison with
  | .introduced => supported .introduced
  | .all => supported .all
  | .resolved =>
    .unsupported { changesetDigest, scopeJson, comparison := .resolved, requestedSources,
                   requestedRules, configuration }

def normalizeParamsFor [PriorEvidence] (value : Value) (session : AspSession)
    (profile : ProviderProfile) : Except RpcFailure NormalizedRequest := do
  let params ← parseCanonicalParams value
  let configuration ← Configuration.resolve params.configuration profile
  let scope ← params.scope.normalize
  validateRequestInputs params.changeset params.diagnosticSources params.rules session
  return normalizeComparison params scope configuration profile

end

end Opcore.Asp
