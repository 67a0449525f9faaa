/-
  Opcore.Protocol.Server

  The provider process as a transition system.  One frame loop decodes and
  routes incoming frames in order; each admitted evaluation runs as a task of
  its own.  Lifecycle, active requests and pending callbacks are locked
  separately, so routing one frame takes several steps wherever the source
  releases one lock before it takes the next or waits for the output queue,
  and evaluation tasks may move in between.
-/
import Opcore.Library.BTreeMap
import Opcore.Library.Transition
import Opcore.Protocol.Session

namespace Opcore.Server

open Text
open Json (Value)
open Asp Collections

/-! ## Messages -/

/-- The error answers of the transport itself. -/
structure ErrorResponse where
  id : Value
  code : Int
  message : Str
  failClass : Str
  retryable : Bool
  detail : Str

namespace ErrorResponse

def parse (detail : Str) : ErrorResponse :=
  ⟨.null, -32700, ascii "parse-error", ascii "input", false, detail⟩

def invalidRequest (id : Value) (detail : Str) : ErrorResponse :=
  ⟨id, -32600, ascii "invalid-request", ascii "input", false, detail⟩

def nonObject : ErrorResponse := invalidRequest .null (ascii "JSON-RPC frame must be an object")

def invalidMethod (object : List (Str × Value)) : ErrorResponse :=
  invalidRequest ((object.lookup (ascii "id")).getD .null) (ascii "method must be a string")

def invalidId : ErrorResponse :=
  invalidRequest .null (ascii "request id must be a string or number")

def duplicateId (id : Value) : ErrorResponse :=
  invalidRequest id (ascii "duplicate live request id")

def methodNotFound (id : Value) (method : Str) : ErrorResponse :=
  ⟨id, -32601, ascii "method-not-found", ascii "contract", false,
    ascii "unsupported method " ++ method⟩

end ErrorResponse

/-- A response with an error object. -/
def errorMessage (id error : Value) : Value :=
  .object [(ascii "error", error), (ascii "id", id), (ascii "jsonrpc", .string (ascii "2.0"))]

/-- A response with a result. -/
def resultMessage (id result : Value) : Value :=
  .object [(ascii "id", id), (ascii "jsonrpc", .string (ascii "2.0")), (ascii "result", result)]

/-- What `send_error` sends. -/
def ErrorResponse.toMessage (error : ErrorResponse) : Value :=
  errorMessage error.id
    (RpcFailure.errorObject error.code error.message error.failClass error.retryable error.detail)

/-- What `send_result` sends. -/
def responseMessage (id : Value) : Except RpcFailure Value → Value
  | .ok result => resultMessage id result
  | .error error => errorMessage id error.toJson

/-- What `HostClient::request` sends for its `n`-th callback. -/
def callbackMessage (n : Nat) (method : Str) (params : Value) : Value :=
  .object [
    (ascii "id", .string (ascii "opcore:" ++ Json.decimal n)),
    (ascii "jsonrpc", .string (ascii "2.0")),
    (ascii "method", .string method),
    (ascii "params", params)]

def validId (id : Value) : Bool :=
  id.asStr?.isSome || id.asI64?.isSome || id.asU64?.isSome

def idKey (id : Value) : Str := id.serialize

/-! ## Decoding a frame -/

inductive Incoming where
  | callback (object : List (Str × Value))
  | request (method : Str) (params id : Value)
  | notification (method : Str) (params : Value)

def validateJsonrpc (object : List (Str × Value)) : Except ErrorResponse Unit :=
  if (object.lookup (ascii "jsonrpc")).bind Value.asStr? = some (ascii "2.0") then .ok ()
  else
    .error (.invalidRequest ((object.lookup (ascii "id")).getD .null)
      (ascii "jsonrpc must equal 2.0"))

def incomingMethod (object : List (Str × Value)) : Except ErrorResponse (Option Str) :=
  match object.lookup (ascii "method") with
  | none => .ok none
  | some (.string method) => .ok (some method)
  | some _ => .error (.invalidMethod object)

def isContainer : Value → Bool
  | .object _ | .array _ => true
  | _ => false

def validateCallFields (object : List (Str × Value)) : Except ErrorResponse Unit := do
  if (object.lookup (ascii "id")).any fun id => ¬ validId id then
    .error .invalidId
  if (object.lookup (ascii "params")).any fun params => ¬ isContainer params then
    .error (.invalidRequest ((object.lookup (ascii "id")).getD .null)
      (ascii "params must be an object or array"))

def incomingCall (object : List (Str × Value)) (method : Str) (params : Value) : Incoming :=
  match object.lookup (ascii "id") with
  | some id => .request method params id
  | none => .notification method params

/-- `decode_incoming`, given what the JSON parser makes of the frame. -/
def decodeIncoming (parsed : Except Str Value) : Except ErrorResponse Incoming :=
  match parsed with
  | .error error => .error (.parse error)
  | .ok value =>
    match value.asObject? with
    | none => .error .nonObject
    | some object => do
      validateJsonrpc object
      match ← incomingMethod object with
      | none => return .callback object
      | some method =>
        validateCallFields object
        let params := (object.lookup (ascii "params")).getD (.object [])
        return incomingCall object method params

/-! ## Lifecycle -/

inductive Lifecycle where
  | fresh
  | awaitingInitialized (baseline : Value)
  | active (session : AspSession)
  | failed (error : RpcFailure) (grantAccepted : Bool)
  | shuttingDown

section Lifecycle

variable [Build]

/-- The answer to `initialize` and the next lifecycle. -/
def initializeState (state : Lifecycle) (params : Value) (profile : ProviderProfile) :
    Except RpcFailure Value × Lifecycle :=
  match state with
  | .fresh =>
    match initializeFor params profile with
    | .ok (result, baseline) => (.ok result, .awaitingInitialized baseline)
    | .error error => (.error error, .fresh)
  | state => (.error (.input (ascii "initialize may be called exactly once")), state)

def activeSession : Lifecycle → Except RpcFailure AspSession
  | .active session => .ok session
  | .failed error true => .error error
  | .shuttingDown => .error (.unavailable (ascii "provider is shutting down"))
  | _ => .error .providerNotInitialized

def failLifecycle (state : Lifecycle) (error : RpcFailure) : Lifecycle :=
  .failed error <|
    match state with
    | .active _ => true
    | .failed _ grantAccepted => grantAccepted
    | .fresh | .awaitingInitialized _ | .shuttingDown => false

def initializeSession (state : Lifecycle) (params : Value) : Except RpcFailure Lifecycle :=
  match state with
  | .awaitingInitialized baseline =>
    match initialized params baseline with
    | .ok session => .ok (.active session)
    | .error error => .error error
  | _ => .error (.input (ascii "initialized notification is out of order"))

/-- The notification `initialized`. -/
def initializedLifecycle (state : Lifecycle) (params : Value) : Lifecycle :=
  match initializeSession state params with
  | .ok state => state
  | .error error => failLifecycle state error

def updateBaseline (state : Lifecycle) (result : Except RpcFailure Value) : Lifecycle :=
  match result with
  | .ok baseline =>
    match state with
    | .active session => .active { session with baseline := baseline }
    | state =>
      failLifecycle state (.input (ascii "baselineChanged requires an active session"))
  | .error error => failLifecycle state error

end Lifecycle

/-! ## The process -/

/-- An evaluation task, from `spawn_evaluation` until it has sent its result.
    `result` is there once the task has removed itself from the active
    requests.  `serial` says which received message the task answers. -/
structure Evaluation where
  serial : Nat
  params : Value
  id : Value
  key : Str
  session : AspSession
  result : Option (Except RpcFailure Value)

def Evaluation.running (evaluation : Evaluation) : Bool := evaluation.result.isNone

/-- Where the frame loop stands. -/
inductive Router where
  /-- about to read the next frame -/
  | ready
  /-- waiting for the output queue to take a message -/
  | sending (serial : Option Nat) (message : Value)
  /-- `evaluate` holds a session and has not locked the active requests yet -/
  | admitting (serial : Nat) (params id : Value) (session : AspSession)
  /-- `baseline_changed` has looked at the active requests and not locked the lifecycle yet -/
  | rebasing (result : Except RpcFailure Value)
  /-- `shutdown` has set the lifecycle and not cancelled the active requests yet -/
  | cancelling (serial : Nat) (id : Value)
  /-- `wait_for_active` -/
  | waiting (serial : Nat) (id : Value)
  /-- `serve_frames` has returned -/
  | leaving (exit : Option Bool)
  | stopped (exit : Option Bool)

/-- A message on the output queue; `serial` says which received message it answers. -/
structure Sent where
  serial : Option Nat
  message : Value

structure State where
  lifecycle : Lifecycle
  /-- the live request keys, with their cancellation tokens -/
  active : BTreeMap Str Bool
  /-- the keys of callbacks whose answer is awaited -/
  pending : BTreeSet Str
  nextId : Nat
  evaluations : List Evaluation
  router : Router
  /-- every message decoded so far -/
  received : List Incoming
  sent : List Sent

def State.new : State where
  lifecycle := .fresh
  active := ∅
  pending := ∅
  nextId := 1
  evaluations := []
  router := .ready
  received := []
  sent := []

/-- What `read_frame` and the JSON parser return. -/
inductive ReadEvent where
  | eof
  | unreadable (error : Str)
  | frame (parsed : Except Str Value)

namespace State

variable (state : State)

def cancelAll : State := { state with active := state.active.mapValues fun _ => true }

def cancelRequest (params : Value) : State :=
  match params.get? (ascii "id") with
  | some id =>
    if state.active.contains (idKey id) then
      { state with active := state.active.insert (idKey id) true }
    else state
  | none => state

def send (serial : Option Nat) (message : Value) : State :=
  { state with sent := state.sent ++ [⟨serial, message⟩] }

/-- Queue the answer to the message just decoded. -/
def answer (message : Value) : State :=
  { state with router := .sending (some (state.received.length - 1)) message }

variable [Build] (profile : ProviderProfile)

def initializeRequest (params id : Value) : State :=
  if ¬ validId id then state.answer ErrorResponse.invalidId.toMessage
  else
    let (response, lifecycle) := initializeState state.lifecycle params profile
    { state with lifecycle }.answer (responseMessage id response)

/-- `evaluate`, up to the release of the lifecycle lock. -/
def evaluate (params id : Value) : State :=
  if ¬ validId id then state.answer ErrorResponse.invalidId.toMessage
  else
    match activeSession state.lifecycle with
    | .ok session =>
      { state with router := .admitting (state.received.length - 1) params id session }
    | .error error => state.answer (responseMessage id (.error error))

/-- `shutdown`, up to the release of the lifecycle lock.  The source locks once
    to look and once to set; no other task writes the lifecycle. -/
def shutdown (id : Value) : State :=
  if ¬ validId id then state.answer ErrorResponse.invalidId.toMessage
  else
    match state.lifecycle with
    | .shuttingDown =>
      state.answer
        (responseMessage id (.error (.input (ascii "shutdown may be called exactly once"))))
    | _ =>
      { state with
        lifecycle := .shuttingDown
        router := .cancelling (state.received.length - 1) id }

def routeRequest (method : Str) (params id : Value) : State :=
  if method = ascii "initialize" then state.initializeRequest profile params id
  else if method = ascii "check/evaluate" then state.evaluate params id
  else if method = ascii "shutdown" then state.shutdown id
  else state.answer (ErrorResponse.methodNotFound id method).toMessage

def isShuttingDown : Lifecycle → Bool
  | .shuttingDown => true
  | _ => false

def routeNotification (method : Str) (params : Value) : State :=
  if method = ascii "initialized" then
    { state with lifecycle := initializedLifecycle state.lifecycle params }
  else if method = ascii "workspace/baselineChanged" then
    let result :=
      if state.active.isEmpty then baselineChanged params
      else .error (.health (ascii "baseline changed while evaluations were active"))
    { state with router := .rebasing result }
  else if method = ascii "$/cancelRequest" then state.cancelRequest params
  else if method = ascii "exit" then
    { state with router := .leaving (some (isShuttingDown state.lifecycle)) }
  else state

/-- A response to a callback ends the wait for it. -/
def routeCallbackResponse (object : List (Str × Value)) : State :=
  match object.lookup (ascii "id") with
  | some id => { state with pending := state.pending.erase (idKey id) }
  | none => state

def route : Incoming → State
  | .callback object => state.routeCallbackResponse object
  | .request method params id => state.routeRequest profile method params id
  | .notification method params => state.routeNotification method params

/-- The frame loop after one read. -/
def receive : ReadEvent → State
  | .eof => { state with router := .leaving none }
  | .unreadable error =>
    { state with router := .sending none (ErrorResponse.parse error).toMessage }
  | .frame parsed =>
    match decodeIncoming parsed with
    | .error error => { state with router := .sending none error.toMessage }
    | .ok incoming => { state with received := state.received ++ [incoming] }.route profile incoming

/-- `evaluate`, from the lock of the active requests on. -/
def evaluateLocked (serial : Nat) (params id : Value) (session : AspSession) : State :=
  let key := idKey id
  if state.active.contains key then
    { state with router := .sending (some serial) (ErrorResponse.duplicateId id).toMessage }
  else if ¬ state.active.isEmpty then
    { state with
      router := .sending (some serial) (responseMessage id
        (.error (.unavailable (ascii "provider is already evaluating another request")))) }
  else
    { state with
      active := state.active.insert key false
      evaluations := state.evaluations ++ [⟨serial, params, id, key, session, none⟩]
      router := .ready }

/-- The next step of the frame loop between two reads. -/
def proceed : Option State :=
  match state.router with
  | .ready | .stopped _ => none
  | .sending serial message => some { state.send serial message with router := .ready }
  | .admitting serial params id session => some (state.evaluateLocked serial params id session)
  | .rebasing result =>
    some { state with lifecycle := updateBaseline state.lifecycle result, router := .ready }
  | .cancelling serial id => some { state.cancelAll with router := .waiting serial id }
  | .waiting serial id =>
    if state.active.isEmpty then
      some { state with router := .sending (some serial) (resultMessage id .null) }
    else none
  | .leaving exit => some { state.cancelAll with pending := ∅, router := .stopped exit }

/-- The deadline of `wait_for_active` passes. -/
def expire : Option State :=
  match state.router with
  | .waiting serial id =>
    some { state with router := .sending (some serial) (resultMessage id .null) }
  | _ => none

/-- A running evaluation asks the host for something. -/
def callback (serial : Nat) (method : Str) (params : Value) : Option State :=
  if state.evaluations.any fun e => e.serial = serial && e.running then
    some { state.send none (callbackMessage state.nextId method params) with
      nextId := state.nextId + 1
      pending := state.pending.insert
        (idKey (.string (ascii "opcore:" ++ Json.decimal state.nextId))) }
  else none

/-- An evaluation stops waiting for a callback: it was cancelled or timed out. -/
def abandon (key : Str) : State := { state with pending := state.pending.erase key }

/-- `evaluate_for` has returned, and the task removes its request. -/
def finish (serial : Nat) (result : Except RpcFailure Value) : Option State :=
  match state.evaluations.find? fun e => e.serial = serial && e.running with
  | none => none
  | some evaluation =>
    some { state with
      active := state.active.erase evaluation.key
      evaluations := state.evaluations.map fun e =>
        if e.serial = serial then { e with result := some result } else e }

/-- A finished evaluation sends its result. -/
def respond (serial : Nat) : Option State :=
  match state.evaluations.find? fun e => e.serial = serial with
  | some evaluation =>
    match evaluation.result with
    | some result =>
      some { state.send (some serial) (responseMessage evaluation.id result) with
        evaluations := state.evaluations.filter fun e => e.serial ≠ serial }
    | none => none
  | none => none

end State

inductive Action where
  | receive (event : ReadEvent)
  | proceed
  | expire
  | callback (serial : Nat) (method : Str) (params : Value)
  | abandon (key : Str)
  | finish (serial : Nat) (result : Except RpcFailure Value)
  | respond (serial : Nat)

/-- One step of the process. -/
def step [Build] (profile : ProviderProfile) (state : State) : Action → Option State
  | .receive event =>
    match state.router with
    | .ready => some (state.receive profile event)
    | _ => none
  | .proceed => state.proceed
  | .expire => state.expire
  | .callback serial method params => state.callback serial method params
  | .abandon key => some (state.abandon key)
  | .finish serial result => state.finish serial result
  | .respond serial => state.respond serial

/-! ## Frames as a host writes them -/

def requestFrame (id : Int) (method : Str) (params : Value) : ReadEvent :=
  .frame (.ok (.object [
    (ascii "id", .number (.int id)),
    (ascii "jsonrpc", .string (ascii "2.0")),
    (ascii "method", .string method),
    (ascii "params", params)]))

def notificationFrame (method : Str) (params : Value) : ReadEvent :=
  .frame (.ok (.object [
    (ascii "jsonrpc", .string (ascii "2.0")),
    (ascii "method", .string method),
    (ascii "params", params)]))

end Opcore.Server
