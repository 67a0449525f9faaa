/-
  Opcore.Protocol.Conversation

  One provider process and the host that started it.  The host sends and waits
  in the order of `run_lifecycle` and `shutdown`; the provider is the process of
  `Opcore.Protocol.Server`.  Either side moves whenever it can, and what one has
  written the other reads in order, some time later.
-/
import Opcore.Protocol.Evaluate
import Opcore.Protocol.Framing
import Opcore.Protocol.Steps
import Opcore.Protocol.Validation

namespace Opcore

open Text Collections Json Asp

def HostRequest.new (workspace : HostWorkspace) (evaluationParams : Value) :
    Except Str HostRequest :=
  if evaluationParams.asObject?.isNone then
    .error (ascii "check/evaluate params must be an object")
  else .ok ⟨workspace, evaluationParams⟩

/-! ## The check of an initialization -/

namespace Validation

def requireExactStrings (value : Option Value) (label : Str) (expected : List Str) :
    Except Str Unit := do
  let actual ← stringSet value label
  if actual ≠ BTreeSet.ofList expected then
    .error (label ++ ascii " does not match the bundled profile")
  else return

def requireEqualBool (value : Option Value) (label : Str) (expected : Bool) : Except Str Unit :=
  if value = some (.bool expected) then .ok ()
  else .error (label ++ ascii " does not match the expected value")

def validateInitializeMetadata (result : Value) : Except Str Unit := do
  whenPresent (result.get? (ascii "roles")) fun roles =>
    requireExactStrings roles (ascii "provider roles") [ascii "judge"]
  whenPresent (result.get? (ascii "provenance")) fun provenance => do
    let provenance ← requiredObject provenance (ascii "provider provenance")
      [ascii "publisher", ascii "signature"] []
    whenPresent (provenance.lookup (ascii "publisher")) fun publisher =>
      requireEqualString publisher (ascii "provider publisher") (ascii "the-open-engine")
    whenPresent (provenance.lookup (ascii "signature")) fun signature =>
      requireNonemptyString signature (ascii "provider signature")

def checkCapability (result : Value) : Except Str (List (Str × Value)) := do
  let capabilities ← requiredObject (result.get? (ascii "capabilities"))
    (ascii "provider capabilities") [ascii "check", ascii "transport"]
    [ascii "check", ascii "transport"]
  let check ← requiredObject (capabilities.lookup (ascii "check"))
    (ascii "provider check capability")
    [ascii "capabilityVersion", ascii "diagnosticSources", ascii "scopes", ascii "comparisons",
      ascii "partialResults", ascii "incremental", ascii "unsupportedReporting", ascii "fixes"]
    [ascii "capabilityVersion", ascii "diagnosticSources", ascii "scopes", ascii "comparisons",
      ascii "partialResults", ascii "incremental", ascii "unsupportedReporting"]
  requireExactStrings (capabilities.lookup (ascii "transport")) (ascii "provider transports")
    [ascii "stdio"]
  return check

def validateCheckIdentity (check : List (Str × Value)) (profile : ProviderProfile) :
    Except Str Unit := do
  requireEqualString (check.lookup (ascii "capabilityVersion"))
    (ascii "provider capability version") capabilityVersion
  requireExactStrings (check.lookup (ascii "diagnosticSources"))
    (ascii "provider diagnostic sources") [profile.providerId]
  let scopes : List Str :=
    match profile with
    | .fast => [ascii "changeset", ascii "workspace"]
    | _ => [ascii "workspace"]
  requireExactStrings (check.lookup (ascii "scopes")) (ascii "provider scopes") scopes

def validateCheckBehavior (check : List (Str × Value)) : Except Str Unit := do
  requireExactStrings (check.lookup (ascii "comparisons")) (ascii "provider comparisons")
    [ascii "introduced", ascii "all"]
  requireEqualBool (check.lookup (ascii "partialResults")) (ascii "partialResults") false
  requireEqualBool (check.lookup (ascii "incremental")) (ascii "incremental") false
  requireEqualString (check.lookup (ascii "unsupportedReporting"))
    (ascii "unsupported reporting") (ascii "assessment-status")
  requireEqualBool (check.lookup (ascii "fixes")) (ascii "fixes") false

def validateCheckCapability (result : Value) (profile : ProviderProfile) : Except Str Unit := do
  let check ← checkCapability result
  validateCheckIdentity check profile
  validateCheckBehavior check

def validateRequestedPermissions (result : Value) : Except Str Unit := do
  let permissions ← requiredObject (result.get? (ascii "requestedPermissions"))
    (ascii "provider requestedPermissions") [ascii "read", ascii "write", ascii "network"]
    [ascii "read", ascii "write", ascii "network"]
  requireExactStrings (permissions.lookup (ascii "read")) (ascii "provider requested read paths")
    [ascii "**/*"]
  requireEqualBool (permissions.lookup (ascii "write")) (ascii "requested write") false
  requireEqualBool (permissions.lookup (ascii "network")) (ascii "requested network") false

section

variable [Build]

def validateServerInfo (result : Value) (profile : ProviderProfile) : Except Str Unit := do
  let info ← requiredObject (result.get? (ascii "serverInfo")) (ascii "provider serverInfo")
    [ascii "name", ascii "version", ascii "fingerprint"]
    [ascii "name", ascii "version", ascii "fingerprint"]
  requireEqualString (info.lookup (ascii "name")) (ascii "provider name") profile.providerId
  requireEqualString (info.lookup (ascii "version")) (ascii "provider version") Build.version
  requireEqualString (info.lookup (ascii "fingerprint")) (ascii "provider build fingerprint")
    Build.digest

/-- What the host asks of a greeting. -/
def validateInitializeResult (result : Value) (profile : ProviderProfile) : Except Str Unit := do
  let _ ← requiredObject (some result) (ascii "provider initialize result")
    [ascii "serverInfo", ascii "capabilityFamilies", ascii "roles", ascii "capabilities",
      ascii "requestedPermissions", ascii "provenance"]
    [ascii "serverInfo", ascii "capabilityFamilies", ascii "capabilities",
      ascii "requestedPermissions"]
  validateServerInfo result profile
  requireExactStrings (result.get? (ascii "capabilityFamilies"))
    (ascii "provider capabilityFamilies") [ascii "check"]
  validateCheckCapability result profile
  validateRequestedPermissions result
  validateInitializeMetadata result

end

end Validation

namespace Conversation

open Validation

/-! ## Frames of the provider -/

def responseObject (value : Value) (expectedId : Str) : Except Str (List (Str × Value)) :=
  match value.asObject? with
  | none => .error (ascii "ASP provider frame must be an object")
  | some object =>
    if (object.lookup (ascii "jsonrpc")).bind Value.asStr? ≠ some (ascii "2.0") then
      .error (ascii "ASP provider frame has an invalid jsonrpc version")
    else if (object.lookup (ascii "method")).isNone
        ∧ (object.lookup (ascii "id")).bind Value.asStr? ≠ some expectedId then
      .error (ascii "ASP provider returned an unexpected response id")
    else .ok object

def validRequestId (id : Value) : Bool :=
  id.asStr?.isSome || id.asI64?.isSome || id.asU64?.isSome

/-- The id of a callback, and what it asks for. -/
def parseCallback (object : List (Str × Value)) (method : Value) : Except Str (Value × Callback) :=
  match object.find? fun member =>
      member.1 ∉ [ascii "jsonrpc", ascii "id", ascii "method", ascii "params"] with
  | some (field, _) => .error (ascii "ASP provider callback contains unsupported field " ++ field)
  | none =>
    match object.lookup (ascii "id") with
    | none => .error (ascii "ASP provider callback omitted id")
    | some id =>
      if ¬ validRequestId id then
        .error (ascii "ASP provider callback id must be a string or integer")
      else
        match method.asStr? with
        | none => .error (ascii "ASP provider callback method must be a string")
        | some method => .ok (id, ⟨method, (object.lookup (ascii "params")).getD (.object [])⟩)

def rpcResult (object : List (Str × Value)) : Except Str Value :=
  match object.lookup (ascii "result"), object.lookup (ascii "error") with
  | some result, none => .ok result
  | none, some error => .error (ascii "ASP provider returned an RPC error: " ++ error.serialize)
  | _, _ => .error (ascii "ASP provider response must contain exactly one of result or error")

def callbackError (id : Value) (detail : Str) : Value :=
  Server.errorMessage id
    (RpcFailure.errorObject (-32012) (ascii "policy-denied") (ascii "policy") false detail)

def callbackResponse (id : Value) : Except Str Value → Value
  | .ok value => Server.resultMessage id value
  | .error error => callbackError id error

def oversizedCallbackError (id : Value) : Value :=
  callbackError id (ascii "workspace callback result exceeded the host frame bound")

/-! ## Messages of the host -/

def requestMessage (id method : Str) (params : Value) : Value :=
  .object [(ascii "id", .string id), (ascii "jsonrpc", .string (ascii "2.0")),
    (ascii "method", .string method), (ascii "params", params)]

def notificationMessage (method : Str) (params : Value) : Value :=
  .object [(ascii "jsonrpc", .string (ascii "2.0")), (ascii "method", .string method),
    (ascii "params", params)]

def initializeId : Str := ascii "host:initialize"

def evaluateId : Str := ascii "host:evaluate"

def shutdownId : Str := ascii "host:shutdown"

def shutdownMessage : Value := requestMessage shutdownId (ascii "shutdown") (.object [])

def exitMessage : Value := notificationMessage (ascii "exit") (.object [])

section

variable [Opcore.Base64] (workspace : HostWorkspace)

/-- `answer_callback`: what the host sends for a callback. -/
def callbackAnswer (id : Value) (callback : Callback) : Value :=
  let message := callbackResponse id (workspace.callback callback)
  if maxFrameBytes < message.serialize.length then oversizedCallbackError id else message

/-- `answer_callback`: what the host has recorded once it has sent the answer. -/
def recordAnswer (readBlobs : BTreeSet Str) (id : Value) (callback : Callback) :
    Except Str (BTreeSet Str) :=
  let result := workspace.callback callback
  if maxFrameBytes < (callbackResponse id result).serialize.length then .ok readBlobs
  else recordBlobRead callback result readBlobs

end

/-! ## The host -/

/-- An error with its contexts, the outermost first. -/
abbrev Failure := List Str

/-- Where the host stands in `evaluate`. -/
inductive Phase where
  /-- about to send `initialize` -/
  | greeting
  | initializing
  /-- about to send `initialized` -/
  | granting
  /-- about to send `check/evaluate` -/
  | requesting
  | evaluating (readBlobs : BTreeSet Str)
  /-- about to send the answer to a callback -/
  | answering (message : Value) (recorded : Except Str (BTreeSet Str))
  /-- about to send `shutdown` -/
  | leaving (assessment : Value)
  | closing (assessment : Value)
  /-- about to send `exit` -/
  | exiting (assessment : Value)
  /-- `await_exit` -/
  | reaping (assessment : Value)
  | returned (result : Except Failure Value)

namespace Phase

/-- How an error of this phase leaves `evaluate`; the phases of `shutdown` have a context. -/
def failure (phase : Phase) (text : Str) : Failure :=
  match phase with
  | .leaving _ | .closing _ | .exiting _ | .reaping _ =>
    [ascii "complete ASP provider shutdown", text]
  | _ => [text]

/-- The error of a phase whose deadline has passed. -/
def overdue? : Phase → Option Str
  | .initializing | .evaluating _ | .closing _ =>
    some (ascii "ASP provider exceeded its wallclock grant")
  | .reaping _ => some (ascii "ASP provider did not exit before its wallclock deadline")
  | .returned _ => none
  | _ => some (ascii "ASP provider write exceeded its wallclock grant")

def isReaping : Phase → Bool
  | .reaping _ => true
  | _ => false

def waits : Phase → Bool
  | .initializing | .evaluating _ | .closing _ => true
  | _ => false

def answered : Except Str (BTreeSet Str) → Phase
  | .ok readBlobs => .evaluating readBlobs
  | .error error => .returned (.error [error])

end Phase

/-- One round of `wait_response`, with what it does about a callback where one is allowed. -/
def waitResponse (expectedId : Str) (value : Value) (onCallback : Option (Value → Callback → Phase))
    (onResult : Value → Except Str Phase) : Except Str Phase := do
  let object ← responseObject value expectedId
  match object.lookup (ascii "method") with
  | some method =>
    match onCallback with
    | none =>
      .error (ascii "ASP provider requested a workspace callback outside evaluation")
    | some answer => do
      let (id, callback) ← parseCallback object method
      return answer id callback
  | none => do onResult (← rpcResult object)

section

variable [Opcore.Base64] [Build] [Sha256] (request : HostRequest) (profile : ProviderProfile)
  (wallclockMs : Nat)

def initializeMessage : Value :=
  requestMessage initializeId (ascii "initialize") (initializeParams request.workspace)

def initializedMessage : Value :=
  notificationMessage (ascii "initialized") (initializedParams request.workspace wallclockMs)

def evaluateMessage : Value :=
  requestMessage evaluateId (ascii "check/evaluate") request.evaluationParams

/-- The message a phase is about to send, and the phase after it. -/
def Phase.outgoing : Phase → Option (Value × Phase)
  | .greeting => some (initializeMessage request, .initializing)
  | .granting => some (initializedMessage request wallclockMs, .requesting)
  | .requesting => some (evaluateMessage request, .evaluating ∅)
  | .answering message recorded => some (message, .answered recorded)
  | .leaving assessment => some (shutdownMessage, .closing assessment)
  | .exiting assessment => some (exitMessage, .reaping assessment)
  | _ => none

/-- What a message read makes of a phase. -/
def Phase.hear (value : Value) : Phase → Except Str Phase
  | .initializing =>
    waitResponse initializeId value none fun result => do
      validateInitializeResult result profile
      return .granting
  | .evaluating readBlobs =>
    waitResponse evaluateId value
      (some fun id callback =>
        .answering (callbackAnswer request.workspace id callback)
          (recordAnswer request.workspace readBlobs id callback))
      fun result => do return .leaving (← validateAssessment result request profile readBlobs)
  | .closing assessment =>
    waitResponse shutdownId value none fun result =>
      if result ≠ .null then .error (ascii "ASP provider shutdown result must be null")
      else .ok (.exiting assessment)
  | phase => .ok phase

end

/-! ## The two ends of the wire -/

/-- What `write_messages` writes for a message. -/
def onWire (message : Value) : Value :=
  if message.serialize.length ≤ maxAssessmentBytes then message
  else Server.oversizedMessage ((message.get? (ascii "id")).getD .null)

/-- What the host reads where the provider has sent a message. -/
def hostReads (message : Value) : Except Str Value :=
  if (onWire message).serialize.length < maxFrameBytes then .ok (onWire message)
  else .error (ascii "invalid ASP provider frame: frame exceeds 8388608 bytes")

/-- What the provider reads where the host has sent a message. -/
def providerReads (message : Value) : Server.ReadEvent :=
  if message.serialize.length < maxFrameBytes then .frame (.ok message)
  else .unreadable (ascii "frame exceeds 8388608 bytes")

theorem written_eq (message : Value) :
    Server.written message = (onWire message).serialize ++ [newline] := by
  unfold Server.written Server.boundedMessageBytes onWire
  dsimp only
  split <;> rfl

variable {stream : Stream}

/-- The host reads a message off a stream as its frame reader does. -/
theorem hostReads_eq_ok_iff {message value : Value} {rest : Str}
    (hbytes : stream.bytes = Server.written message ++ rest) :
    hostReads message = .ok value
      ↔ value = onWire message ∧ Delivered Host.readFrame stream value rest := by
  rw [written_eq, List.append_assoc] at hbytes
  unfold hostReads
  split
  · next hfits =>
    constructor
    · rintro ⟨⟩
      exact ⟨rfl, (Host.delivered_iff hbytes).mpr hfits⟩
    · rintro ⟨rfl, -⟩
      rfl
  · next hlong =>
    constructor
    · rintro ⟨⟩
    · rintro ⟨rfl, hdelivered⟩
      exact absurd ((Host.delivered_iff hbytes).mp hdelivered) hlong

/-- The provider reads a message off a stream as its frame reader does. -/
theorem providerReads_eq_frame_iff {message : Value} {bytes rest : Str}
    (hsend : Host.send message = .ok bytes) (hbytes : stream.bytes = bytes ++ rest) :
    providerReads message = .frame (.ok message)
      ↔ Delivered Server.readFrame stream message rest := by
  obtain ⟨-, rfl⟩ := Host.send_eq_ok_iff.mp hsend
  rw [List.append_assoc] at hbytes
  rw [@Server.delivered_iff stream message rest hbytes]
  unfold providerReads
  split
  · next hfits => exact ⟨fun _ => hfits, fun _ => rfl⟩
  · next hlong =>
    constructor
    · rintro ⟨⟩
    · intro hfits
      exact absurd hfits hlong

/-- A reader takes these messages, and nothing else, off a stream one after the other. -/
def ReadsAll (read : Stream → Except Str (Option Str) × Stream) : Stream → List Value → Prop
  | stream, [] => stream.bytes = []
  | stream, message :: messages =>
    Delivered read stream message (read stream).2.bytes ∧ ReadsAll read (read stream).2 messages

/-- Messages that are each read off the front of a stream are all read off it. -/
theorem readsAll_of_delivered {Message : Type}
    {read : Stream → Except Str (Option Str) × Stream} {wire : Message → Str}
    {value : Message → Value} {messages : List Message}
    (hread : ∀ message ∈ messages, ∀ (stream : Stream) (rest : Str),
      stream.bytes = wire message ++ rest → Delivered read stream (value message) rest)
    (hbytes : stream.bytes = messages.flatMap wire) :
    ReadsAll read stream (messages.map value) := by
  induction messages generalizing stream with
  | nil => exact hbytes
  | cons message messages ih =>
    obtain ⟨hfirst, hrest⟩ := hread message List.mem_cons_self stream _ hbytes
    refine ⟨⟨hfirst, rfl⟩, ih (fun later hlater => ?_) hrest⟩
    exact hread later (List.mem_cons_of_mem _ hlater)

/-! ## The conversation -/

structure State where
  phase : Phase
  /-- every message the host has written -/
  written : List Value
  /-- how many of them the provider has read -/
  delivered : Nat
  provider : Server.State
  /-- how many messages of the provider the host has read -/
  seen : Nat

def State.start : State where
  phase := .greeting
  written := []
  delivered := 0
  provider := .new
  seen := 0

inductive Action where
  /-- the host writes a message -/
  | send
  /-- the host reads a message, or the end of the stream -/
  | receive
  /-- the host finds the provider exited, with what is left of its standard error -/
  | reap (stderr : Str)
  /-- a deadline of the host passes -/
  | expire
  /-- the provider reads a message, or the end of the stream -/
  | deliver
  /-- the provider moves by itself -/
  | provider (action : Server.Action)

namespace State

variable (c : State)

def fail (text : Str) : State := { c with phase := .returned (.error (c.phase.failure text)) }

def expire : Option State := c.phase.overdue?.map c.fail

def reap (stderr : Str) : Option State :=
  match c.phase, c.provider.router with
  | .reaping assessment, .stopped (some true) =>
    some { c with phase := .returned (.ok assessment) }
  | .reaping _, .stopped _ =>
    some (c.fail (ascii "ASP provider exited unsuccessfully" ++ stderr))
  | _, _ => none

section

variable [Opcore.Base64] [Build] [Sha256] (request : HostRequest) (profile : ProviderProfile)
  (wallclockMs : Nat)

def send : Option State :=
  match c.phase.outgoing request wallclockMs with
  | none => none
  | some (message, next) =>
    match Host.send message with
    | .error error => some (c.fail error)
    | .ok _ => some { c with phase := next, written := c.written ++ [message] }

/-- The host reads the next message, or finds that there will be none. -/
def receive : Option State :=
  if c.phase.waits then
    match c.provider.sent[c.seen]? with
    | some sent =>
      match (hostReads sent.message).bind fun value => c.phase.hear request profile value with
      | .ok phase => some { c with phase, seen := c.seen + 1 }
      | .error error => some (c.fail error)
    | none =>
      match c.provider.router with
      | .stopped _ =>
        some (c.fail (ascii "ASP provider closed stdout before completing lifecycle"))
      | _ => none
  else none

/-- The provider's standard input ends once the host has closed it. -/
def deliver : Option State :=
  match c.written[c.delivered]? with
  | some message =>
    (Server.step profile c.provider (.receive (providerReads message))).map fun provider =>
      { c with provider, delivered := c.delivered + 1 }
  | none =>
    if c.phase.isReaping then
      (Server.step profile c.provider (.receive .eof)).map fun provider => { c with provider }
    else none

end

end State

section

variable [Opcore.Base64] [Build] [Sha256] (request : HostRequest) (profile : ProviderProfile)
  (wallclockMs : Nat)

/-- What an action does while the host has not returned. -/
def State.act (c : State) : Action → Option State
  | .send => c.send request wallclockMs
  | .receive => c.receive request profile
  | .reap stderr => c.reap stderr
  | .expire => c.expire
  | .deliver => c.deliver profile
  | .provider action =>
    if action.internal then
      (Server.step profile c.provider action).map fun provider => { c with provider }
    else none

/-- One step of the conversation.  It is over once the host has returned: the
    provider has exited, or the host has killed it. -/
def step (c : State) (action : Action) : Option State :=
  match c.phase with
  | .returned _ => none
  | _ => c.act request profile wallclockMs action

abbrev Reachable (c : State) : Prop :=
  Transition.Reachable (step request profile wallclockMs) .start c

end

end Conversation

end Opcore
