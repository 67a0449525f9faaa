/-
  Opcore.Protocol.Session

  The initialization handshake of a provider: failures as the protocol reports
  them, baselines, granted permissions, and the three message bodies
  (`initialize`, `initialized`, `workspace/baselineChanged`) that can set up or
  move a session.
-/
import Opcore.Library.Json

namespace Opcore.Asp

open Text
open Json (Value)

/-- What comes into the protocol from outside the source: the build's version
    and digest, and the text of the deserializer's complaint about a value. -/
class Build where
  version : Str
  digest : Str
  deserializeError : Value → Str

/-! ## Failures -/

structure RpcFailure where
  code : Int
  message : Str
  failClass : Str
  retryable : Bool
  detail : Str
  deriving DecidableEq

namespace RpcFailure

def input (detail : Str) : RpcFailure :=
  ⟨-32013, ascii "invalid-input", ascii "input", false, detail⟩

def health (detail : Str) : RpcFailure :=
  ⟨-32011, ascii "stale-or-unhealthy", ascii "health", true, detail⟩

def unavailable (detail : Str) : RpcFailure :=
  ⟨-32015, ascii "unavailable", ascii "health", true, detail⟩

def contract (detail : Str) : RpcFailure :=
  ⟨-32014, ascii "protocol-contract-failure", ascii "contract", false, detail⟩

def providerNotInitialized : RpcFailure :=
  ⟨-32010, ascii "provider-not-initialized", ascii "health", true,
    ascii "check/evaluate requires a completed initialized grant"⟩

def policy (detail : Str) : RpcFailure :=
  ⟨-32012, ascii "policy-denied", ascii "policy", false, detail⟩

def cancelled : RpcFailure :=
  ⟨-32016, ascii "cancelled", ascii "health", true, ascii "evaluation was cancelled"⟩

/-- The members of an error object, in key order. -/
def errorObject (code : Int) (message failClass : Str) (retryable : Bool) (detail : Str) : Value :=
  .object [
    (ascii "code", .number (.int code)),
    (ascii "data", .object [
      (ascii "detail", .string detail),
      (ascii "failClass", .string failClass),
      (ascii "retryable", .bool retryable)]),
    (ascii "message", .string message)]

def toJson (failure : RpcFailure) : Value :=
  errorObject failure.code failure.message failure.failClass failure.retryable failure.detail

end RpcFailure

/-- An object accepts only the keys it knows. -/
def rejectKeys (object : List (Str × Value)) (allowed : List Str) : Except RpcFailure Unit :=
  match object.find? fun member => member.1 ∉ allowed with
  | some (key, _) => .error (.input (ascii "unsupported field " ++ key))
  | none => .ok ()

def validateEnumValue (value : Value) (choices : List Str) (field : Str) :
    Except RpcFailure Unit :=
  if value.asStr?.any (· ∈ choices) then .ok ()
  else .error (.input (field ++ ascii " is invalid"))

/-! ## Timestamps -/

section Timestamp

def isAsciiDigit (b : UInt8) : Bool := byte '0' ≤ b ∧ b ≤ byte '9'

def decimalValue (digits : Str) : Option Nat :=
  digits.foldlM (fun value digit =>
    if isAsciiDigit digit then some (value * 10 + (digit - byte '0').toNat) else none) 0

def slice (bytes : Str) (start stop : Nat) : Str := (bytes.take stop).drop start

def timestampSeparators (bytes : Str) : Bool :=
  bytes[4]? = some (byte '-') ∧ bytes[7]? = some (byte '-')
    ∧ (bytes[10]? = some (byte 'T') ∨ bytes[10]? = some (byte 't'))
    ∧ bytes[13]? = some (byte ':') ∧ bytes[16]? = some (byte ':')

def daysInMonth (year month : Nat) : Nat :=
  if month = 2 then
    if year % 400 = 0 ∨ (year % 4 = 0 ∧ year % 100 ≠ 0) then 29 else 28
  else if month = 4 ∨ month = 6 ∨ month = 9 ∨ month = 11 then 30
  else 31

def validDate (year month day : Nat) : Bool :=
  1 ≤ month ∧ month ≤ 12 ∧ 0 < day ∧ day ≤ daysInMonth year month

def validTime (hour minute second : Nat) : Bool := hour ≤ 23 ∧ minute ≤ 59 ∧ second ≤ 60

/-- `Z`, or a numeric offset, and then the end. -/
def validOffset (rest : Str) : Bool :=
  match rest with
  | zone :: offset =>
    if zone = byte 'Z' ∨ zone = byte 'z' then offset = []
    else if (zone = byte '+' ∨ zone = byte '-') ∧ rest.length = 6 then
      rest[3]? = some (byte ':') ∧ (decimalValue (slice rest 1 3)).any (· ≤ 23)
        ∧ (decimalValue (slice rest 4 6)).any (· ≤ 59)
    else false
  | [] => false

/-- What follows the seconds: an optional fraction and the offset. -/
def validTimestampSuffix (bytes : Str) : Bool :=
  match bytes.drop 19 with
  | 46 :: rest =>
    let fraction := rest.takeWhile isAsciiDigit
    fraction ≠ [] ∧ validOffset (rest.dropWhile isAsciiDigit)
  | rest => validOffset rest

def isRfc3339Timestamp (bytes : Str) : Bool :=
  if bytes.length < 20 ∨ ¬ timestampSeparators bytes then false
  else
    match decimalValue (slice bytes 0 4), decimalValue (slice bytes 5 7),
        decimalValue (slice bytes 8 10), decimalValue (slice bytes 11 13),
        decimalValue (slice bytes 14 16), decimalValue (slice bytes 17 19) with
    | some year, some month, some day, some hour, some minute, some second =>
      validDate year month day && validTime hour minute second && validTimestampSuffix bytes
    | _, _, _, _, _, _ => false

end Timestamp

/-! ## Baselines -/

structure Baseline where
  rev : Str
  dirty : Option Str
  stampedAt : Option Str
  deriving DecidableEq

variable [Build]

namespace Baseline

/-- An optional member that is a string when it is there. -/
def optionalText (object : List (Str × Value)) (key : Str) : Option (Option Str) :=
  match object.lookup key with
  | none => some none
  | some value => value.asStr?.map some

/-- The derived deserializer: an object with the known fields, or an array of
    them in order. -/
def ofValue? : Value → Option Baseline
  | .object members =>
    if members.any fun member =>
        member.1 ∉ [ascii "rev", ascii "dirty", ascii "stampedAt"] then none
    else do
      let rev ← (members.lookup (ascii "rev")).bind Value.asStr?
      let dirty ← optionalText members (ascii "dirty")
      let stampedAt ← optionalText members (ascii "stampedAt")
      some ⟨rev, dirty, stampedAt⟩
  | .array [.string rev] => some ⟨rev, none, none⟩
  | .array [.string rev, .string dirty] => some ⟨rev, some dirty, none⟩
  | .array [.string rev, .string dirty, .string stampedAt] => some ⟨rev, some dirty, some stampedAt⟩
  | _ => none

def toValue (baseline : Baseline) : Value :=
  .object ((baseline.dirty.map fun dirty => (ascii "dirty", Value.string dirty)).toList
    ++ [(ascii "rev", .string baseline.rev)]
    ++ (baseline.stampedAt.map fun stamp => (ascii "stampedAt", Value.string stamp)).toList)

def validateTimestamp (baseline : Baseline) : Except RpcFailure Unit :=
  if baseline.stampedAt.any fun value => ¬ isRfc3339Timestamp value then
    .error (.input (ascii "baseline stampedAt must be an RFC 3339 date-time"))
  else .ok ()

/-- Deserialize and check a baseline, naming the message it came with. -/
def parse (context : String) (value : Value) : Except RpcFailure Baseline :=
  match ofValue? value with
  | none => .error (.input (ascii context ++ Build.deserializeError value))
  | some baseline =>
    match baseline.validateTimestamp with
    | .error error => .error error
    | .ok () => .ok baseline

end Baseline

/-! ## `initialize` -/

inductive ProviderProfile where
  | fast
  | rustNative
  | nodeNative
  | pythonNative
  deriving DecidableEq

def ProviderProfile.providerId : ProviderProfile → Str
  | .fast => ascii "opcore"
  | .rustNative => ascii "opcore-rust-native"
  | .nodeNative => ascii "opcore-node-native"
  | .pythonNative => ascii "opcore-python-native"

def protocolVersion : Str := ascii "asp/1.0"

def initializeObject (params : Value) : Except RpcFailure (List (Str × Value)) := do
  let some object := params.asObject?
    | .error (.input (ascii "initialize params must be an object"))
  rejectKeys object [ascii "protocolVersion", ascii "host", ascii "hostCapabilities",
    ascii "workspace", ascii "assuranceMode", ascii "authorityMode", ascii "trustTier"]
  if (object.lookup (ascii "protocolVersion")).bind Value.asStr? ≠ some protocolVersion then
    .error ⟨-32014, ascii "unsupported-version", ascii "contract", false,
      ascii "only asp/1.0 is supported"⟩
  if (object.lookup (ascii "hostCapabilities")).any fun value => value.asObject?.isNone then
    .error (.input (ascii "hostCapabilities must be an object"))
  for field in [ascii "assuranceMode", ascii "authorityMode"] do
    if let some value := object.lookup field then
      validateEnumValue value
        [ascii "advisory", ascii "gated", ascii "mediated-write", ascii "isolated"] field
  if let some value := object.lookup (ascii "trustTier") then
    validateEnumValue value [ascii "first-party", ascii "certified", ascii "untrusted"]
      (ascii "trustTier")
  return object

def validateInitializeHost (object : List (Str × Value)) : Except RpcFailure Unit := do
  let some host := (object.lookup (ascii "host")).bind Value.asObject?
    | .error (.input (ascii "initialize.host is required"))
  if ((host.lookup (ascii "name")).bind Value.asStr?).isNone
      ∨ ((host.lookup (ascii "version")).bind Value.asStr?).isNone then
    .error (.input (ascii "initialize.host requires name and version"))

def initializeBaseline (object : List (Str × Value)) : Except RpcFailure Value := do
  let some workspace := (object.lookup (ascii "workspace")).bind Value.asObject?
    | .error (.input (ascii "initialize.workspace is required"))
  if ((workspace.lookup (ascii "root")).bind Value.asStr?).isNone then
    .error (.input (ascii "initialize.workspace.root is required"))
  let some baseline := workspace.lookup (ascii "baseline")
    | .error (.input (ascii "initialize.workspace.baseline is required"))
  let baseline ← Baseline.parse "invalid initialize baseline: " baseline
  return baseline.toValue

def initializeResult (profile : ProviderProfile) : Value :=
  let strings (items : List Str) : Value := .array (items.map Value.string)
  let scopes : List Str :=
    match profile with
    | .fast => [ascii "changeset", ascii "workspace"]
    | _ => [ascii "workspace"]
  .object [
    (ascii "capabilities", .object [
      (ascii "check", .object [
        (ascii "capabilityVersion", .string (ascii "check/1.0")),
        (ascii "comparisons", strings [ascii "introduced", ascii "all"]),
        (ascii "diagnosticSources", strings [profile.providerId]),
        (ascii "fixes", .bool false),
        (ascii "incremental", .bool false),
        (ascii "partialResults", .bool false),
        (ascii "scopes", strings scopes),
        (ascii "unsupportedReporting", .string (ascii "assessment-status"))]),
      (ascii "transport", strings [ascii "stdio"])]),
    (ascii "capabilityFamilies", strings [ascii "check"]),
    (ascii "provenance", .object [(ascii "publisher", .string (ascii "the-open-engine"))]),
    (ascii "requestedPermissions", .object [
      (ascii "network", .bool false),
      (ascii "read", strings [ascii "**/*"]),
      (ascii "write", .bool false)]),
    (ascii "roles", strings [ascii "judge"]),
    (ascii "serverInfo", .object [
      (ascii "fingerprint", .string Build.digest),
      (ascii "name", .string profile.providerId),
      (ascii "version", .string Build.version)])]

/-- The answer to `initialize` and the baseline the session will start from. -/
def initializeFor (params : Value) (profile : ProviderProfile) :
    Except RpcFailure (Value × Value) := do
  let object ← initializeObject params
  validateInitializeHost object
  let baseline ← initializeBaseline object
  return (initializeResult profile, baseline)

/-! ## `initialized` and `workspace/baselineChanged` -/

structure AspSession where
  baseline : Value
  wallclockMs : Nat
  initializedGrant : Value

def initializedBaseline (object : List (Str × Value)) (expected : Value) :
    Except RpcFailure Value := do
  let some baseline := object.lookup (ascii "baseline")
    | .error (.input (ascii "initialized.baseline is required"))
  let _ ← Baseline.parse "invalid initialized baseline: " baseline
  if baseline.serialize ≠ expected.serialize then
    .error (.health (ascii "initialized baseline differs from initialize baseline"))
  return baseline

def validateDeniedPermission (permissions : List (Str × Value)) (name : Str) :
    Except RpcFailure Unit :=
  match permissions.lookup name with
  | none | some (.bool false) => .ok ()
  | some (.bool true) =>
    .error (.policy (ascii "provider cannot accept " ++ name ++ ascii " permission"))
  | some _ =>
    .error (.input (ascii "granted " ++ name ++ ascii " permission must be a boolean"))

def validateAllowlistEntry (entry : Value) : Except RpcFailure Unit := do
  let some entry := entry.asObject?
    | .error (.input (ascii "networkAllowlist entries must be objects"))
  rejectKeys entry [ascii "host", ascii "port", ascii "proto"]
  if ((entry.lookup (ascii "host")).bind Value.asStr?).isNone then
    .error (.input (ascii "networkAllowlist entry requires a string host"))
  if (entry.lookup (ascii "port")).any fun port => port.asI64?.isNone then
    .error (.input (ascii "networkAllowlist port must be an integer"))
  if let some proto := entry.lookup (ascii "proto") then
    validateEnumValue proto [ascii "https", ascii "http", ascii "tcp"]
      (ascii "networkAllowlist proto")

def validateNetworkAllowlist : Option Value → Except RpcFailure Unit
  | none => .ok ()
  | some (.array entries) => entries.forM validateAllowlistEntry
  | some _ => .error (.input (ascii "networkAllowlist must be an array"))

def validatePermissions (permissions : List (Str × Value)) : Except RpcFailure Unit := do
  rejectKeys permissions [ascii "read", ascii "write", ascii "network",
    ascii "networkAllowlist", ascii "resourceLimits"]
  validateDeniedPermission permissions (ascii "write")
  validateDeniedPermission permissions (ascii "network")
  validateNetworkAllowlist (permissions.lookup (ascii "networkAllowlist"))
  match permissions.lookup (ascii "read") with
  | some (.array values) =>
    if values.any fun value => value.asStr?.isNone then
      .error (.input (ascii "granted read entries must be strings"))
  | none => return
  | some _ => .error (.input (ascii "granted read permission must be an array"))

def grantedWallclock (permissions : List (Str × Value)) : Except RpcFailure Nat := do
  let some limits := (permissions.lookup (ascii "resourceLimits")).bind Value.asObject?
    | .error (.input (ascii "initialized resourceLimits are required"))
  rejectKeys limits [ascii "cpuPct", ascii "memoryMb", ascii "wallclockMs", ascii "fd"]
  if limits.any fun limit => limit.2.asU64?.isNone then
    .error (.input (ascii "resource limits must be non-negative integers"))
  let wallclockMs :=
    min (((limits.lookup (ascii "wallclockMs")).bind Value.asU64?).getD 30000) 300000
  if wallclockMs = 0 then
    .error (.policy (ascii "initialized wallclockMs grant must permit at least one millisecond"))
  return wallclockMs

def initialized (params expectedBaseline : Value) : Except RpcFailure AspSession := do
  let some object := params.asObject?
    | .error (.input (ascii "initialized params must be an object"))
  rejectKeys object [ascii "grantedPermissions", ascii "baseline"]
  let baseline ← initializedBaseline object expectedBaseline
  let some permissions := (object.lookup (ascii "grantedPermissions")).bind Value.asObject?
    | .error (.input (ascii "initialized.grantedPermissions is required"))
  validatePermissions permissions
  let wallclockMs ← grantedWallclock permissions
  return ⟨baseline, wallclockMs, .object permissions⟩

def baselineChanged (params : Value) : Except RpcFailure Value := do
  let some object := params.asObject?
    | .error (.input (ascii "workspace/baselineChanged params must be an object"))
  rejectKeys object [ascii "baseline"]
  let some baseline := object.lookup (ascii "baseline")
    | .error (.input (ascii "workspace/baselineChanged.baseline is required"))
  let _ ← Baseline.parse "invalid changed baseline: " baseline
  return baseline

end Opcore.Asp
