/-
  Opcore.Protocol.Script

  What a host and its provider write, in order.  Whatever the two do and however
  their steps interleave, the host's messages are a prefix of one script, which
  answers every callback once and in turn, and the provider's are a prefix of the
  replies to it.  The host therefore never meets a message it does not expect.
-/
import Opcore.Protocol.Conversation

namespace Opcore.Conversation

open Text Collections Json Asp Validation
open Server (Incoming Lifecycle Router decodeIncoming responseMessage resultMessage
  errorMessage callbackMessage)

/-! ## The greeting -/

theorem requireExactStrings_strings {texts : List Str} (label : Str)
    (hne : ∀ text ∈ texts, text ≠ []) (hnodup : texts.Nodup) :
    requireExactStrings (some (.array (texts.map Value.string))) label texts = .ok () := by
  refine Except.bind_eq_ok_iff.mpr ⟨_, stringSet_strings hne hnodup, ?_⟩
  exact if_neg fun h => h rfl

theorem requireEqualBool_bool (label : Str) (b : Bool) :
    requireEqualBool (some (.bool b)) label b = .ok () := if_pos rfl

section

variable [Build]

theorem validateServerInfo_initializeResult (profile : ProviderProfile) :
    validateServerInfo (initializeResult profile) profile = .ok () := by
  refine Except.bind_eq_ok_iff.mpr ⟨_, requiredObject_object rfl rfl, ?_⟩
  refine Except.bind_eq_ok_iff.mpr ⟨_, requireEqualString_string profile.providerId, ?_⟩
  refine Except.bind_eq_ok_iff.mpr ⟨_, requireEqualString_string Build.version, ?_⟩
  exact requireEqualString_string Build.digest

theorem validateCheckCapability_initializeResult (profile : ProviderProfile) :
    validateCheckCapability (initializeResult profile) profile = .ok () := by
  refine Except.bind_eq_ok_iff.mpr ⟨_, Except.bind_eq_ok_iff.mpr
    ⟨_, requiredObject_object rfl rfl, Except.bind_eq_ok_iff.mpr
      ⟨_, requiredObject_object rfl rfl, Except.bind_eq_ok_iff.mpr
        ⟨(), requireExactStrings_strings _ (by decide) (by decide), rfl⟩⟩⟩,
    Except.bind_eq_ok_iff.mpr ⟨(), ?_, ?_⟩⟩
  · refine Except.bind_eq_ok_iff.mpr ⟨(), requireEqualString_string capabilityVersion, ?_⟩
    refine Except.bind_eq_ok_iff.mpr ⟨(), requireExactStrings_strings _ ?_ ?_, ?_⟩
    · cases profile <;> decide
    · cases profile <;> decide
    · cases profile <;> exact requireExactStrings_strings _ (by decide) (by decide)
  · refine Except.bind_eq_ok_iff.mpr ⟨(), requireExactStrings_strings _ (by decide) (by decide), ?_⟩
    refine Except.bind_eq_ok_iff.mpr ⟨(), requireEqualBool_bool _ false, ?_⟩
    refine Except.bind_eq_ok_iff.mpr ⟨(), requireEqualBool_bool _ false, ?_⟩
    refine Except.bind_eq_ok_iff.mpr ⟨(), requireEqualString_string _, ?_⟩
    exact requireEqualBool_bool _ false

/-- A host of the same build accepts the greeting of its provider. -/
theorem validateInitializeResult_initializeResult (profile : ProviderProfile) :
    validateInitializeResult (initializeResult profile) profile = .ok () := by
  refine Except.bind_eq_ok_iff.mpr ⟨_, requiredObject_object rfl rfl, ?_⟩
  refine Except.bind_eq_ok_iff.mpr ⟨(), validateServerInfo_initializeResult profile, ?_⟩
  refine Except.bind_eq_ok_iff.mpr ⟨(), requireExactStrings_strings _ (by decide) (by decide), ?_⟩
  refine Except.bind_eq_ok_iff.mpr ⟨(), validateCheckCapability_initializeResult profile, ?_⟩
  refine Except.bind_eq_ok_iff.mpr ⟨(), ?_, ?_⟩
  · refine Except.bind_eq_ok_iff.mpr ⟨_, requiredObject_object rfl rfl, ?_⟩
    refine Except.bind_eq_ok_iff.mpr
      ⟨(), requireExactStrings_strings _ (by decide) (by decide), ?_⟩
    exact Except.bind_eq_ok_iff.mpr
      ⟨(), requireEqualBool_bool _ false, requireEqualBool_bool _ false⟩
  · refine Except.bind_eq_ok_iff.mpr
      ⟨(), requireExactStrings_strings _ (by decide) (by decide), ?_⟩
    refine Except.bind_eq_ok_iff.mpr ⟨_, requiredObject_object rfl rfl, ?_⟩
    exact Except.bind_eq_ok_iff.mpr ⟨(), requireEqualString_string _, rfl⟩

end

/-! ## What the host hears -/

section

variable {id : Str} {onCallback : Option (Value → Callback → Phase)}
  {onResult : Value → Except Str Phase}

def rpcError (error : Value) : Str :=
  ascii "ASP provider returned an RPC error: " ++ error.serialize

theorem waitResponse_result (result : Value) :
    waitResponse id (resultMessage (.string id) result) onCallback onResult = onResult result := by
  have hobject : responseObject (resultMessage (.string id) result) id
      = .ok [(ascii "id", .string id), (ascii "jsonrpc", .string (ascii "2.0")),
        (ascii "result", result)] := by
    refine if_neg ?_
    rintro ⟨-, hid⟩
    exact hid rfl
  unfold waitResponse
  rw [hobject]
  rfl

theorem waitResponse_error (error : Value) :
    waitResponse id (errorMessage (.string id) error) onCallback onResult
      = .error (rpcError error) := by
  have hobject : responseObject (errorMessage (.string id) error) id
      = .ok [(ascii "error", error), (ascii "id", .string id),
        (ascii "jsonrpc", .string (ascii "2.0"))] := by
    refine if_neg ?_
    rintro ⟨-, hid⟩
    exact hid rfl
  unfold waitResponse
  rw [hobject]
  rfl

/-- The id of a callback. -/
def callId (n : Nat) : Value := .string (ascii "opcore:" ++ Json.decimal n)

theorem waitResponse_callback (n : Nat) (callback : Callback) (answer : Value → Callback → Phase) :
    waitResponse id (callbackMessage n callback.method callback.params) (some answer) onResult
      = .ok (answer (callId n) callback) := by
  have hobject : responseObject (callbackMessage n callback.method callback.params) id
      = .ok [(ascii "id", callId n), (ascii "jsonrpc", .string (ascii "2.0")),
        (ascii "method", .string callback.method), (ascii "params", callback.params)] := rfl
  unfold waitResponse
  rw [hobject]
  rfl

end

/-! ## Where the provider stands -/

/-- Where the provider stands in a conversation. -/
inductive Stand where
  | unread
  /-- `initialize` is read and not answered yet -/
  | greeting
  | greeted
  | granted
  | admitting (session : AspSession)
  /-- the answer to `check/evaluate` is an error of the lifecycle -/
  | refusing (error : RpcFailure)
  | running (session : AspSession)
  | finished (session : AspSession) (result : Except RpcFailure Value)
  | responded (result : Except RpcFailure Value)
  /-- `shutdown` is read -/
  | cancelling (result : Except RpcFailure Value)
  | waiting (result : Except RpcFailure Value)
  | closing (result : Except RpcFailure Value)
  | closed (result : Except RpcFailure Value)
  /-- `exit` is read -/
  | leaving (result : Except RpcFailure Value)
  | stopped (result : Except RpcFailure Value)

namespace Stand

/-- The answer to `check/evaluate`, once it is sent. -/
def result? : Stand → Option (Except RpcFailure Value)
  | .responded result | .cancelling result | .waiting result | .closing result | .closed result
  | .leaving result | .stopped result => some result
  | _ => none

/-- The numbers of calls made and of messages read at which a provider stands here. -/
def Reads (calls delivered : Nat) : Stand → Prop
  | .unread => calls = 0 ∧ delivered = 0
  | .greeting | .greeted => calls = 0 ∧ delivered = 1
  | .granted => calls = 0 ∧ delivered = 2
  | .admitting _ | .refusing _ => calls = 0 ∧ delivered = 3
  | .running _ | .finished _ _ | .responded _ => 3 ≤ delivered ∧ delivered ≤ 3 + calls
  | .cancelling _ | .waiting _ | .closing _ | .closed _ => delivered = 4 + calls
  | .leaving _ | .stopped _ => delivered = 5 + calls

end Stand

/-- The messages in which a provider makes its calls. -/
def callMessages (calls : List Callback) : List Server.Sent :=
  calls.mapIdx fun i call => ⟨none, callbackMessage (i + 1) call.method call.params⟩

section

variable [Opcore.Base64] [Build] (request : HostRequest) (profile : ProviderProfile)
  (wallclockMs : Nat)

/-- The host's answer to a callback, by its place among the callbacks. -/
def answerTo (i : Nat) (call : Callback) : Value :=
  callbackAnswer request.workspace (callId (i + 1)) call

def answers (calls : List Callback) : List Value := calls.mapIdx (answerTo request)

/-- Everything a host writes to a provider that makes these calls. -/
def script (calls : List Callback) : List Value :=
  [initializeMessage request, initializedMessage request wallclockMs, evaluateMessage request]
    ++ answers request calls ++ [shutdownMessage, exitMessage]

/-- What the host has recorded once the calls are answered. -/
def recorded (calls : List Callback) : Except Str (BTreeSet Str) :=
  calls.zipIdx.foldlM (fun readBlobs (call, i) =>
    recordAnswer request.workspace readBlobs (callId (i + 1)) call) ∅

/-- The provider's answer to `initialize`, and its lifecycle from there. -/
def greetingAnswer : Except RpcFailure Value × Lifecycle :=
  Server.initializeState .fresh (initializeParams request.workspace) profile

def grantedLifecycle : Lifecycle :=
  Server.initializedLifecycle (greetingAnswer request profile).2
    (initializedParams request.workspace wallclockMs)

/-- What the provider has sent where it stands. -/
def Stand.sent (calls : List Callback) (stand : Stand) : List Server.Sent :=
  let greeting : Server.Sent :=
    ⟨some 0, responseMessage (.string initializeId) (greetingAnswer request profile).1⟩
  let answer (result : Except RpcFailure Value) : Server.Sent :=
    ⟨some 2, responseMessage (.string evaluateId) result⟩
  let closing : Server.Sent := ⟨some (3 + calls.length), resultMessage (.string shutdownId) .null⟩
  match stand with
  | .unread | .greeting => []
  | .greeted | .granted | .admitting _ | .refusing _ => [greeting]
  | .running _ | .finished _ _ => greeting :: callMessages calls
  | .responded result | .cancelling result | .waiting result | .closing result =>
    greeting :: callMessages calls ++ [answer result]
  | .closed result | .leaving result | .stopped result =>
    greeting :: callMessages calls ++ [answer result, closing]

/-- The evaluation the host asks for. -/
def evaluation (session : AspSession) (result : Option (Except RpcFailure Value)) :
    Server.Evaluation :=
  ⟨2, request.evaluationParams, .string evaluateId, Server.idKey (.string evaluateId), session,
    result⟩

def Stand.lifecycle : Stand → Lifecycle
  | .unread => .fresh
  | .greeting | .greeted => (greetingAnswer request profile).2
  | .granted | .admitting _ | .refusing _ | .running _ | .finished _ _ | .responded _ =>
    grantedLifecycle request profile wallclockMs
  | .cancelling _ | .waiting _ | .closing _ | .closed _ | .leaving _ | .stopped _ => .shuttingDown

def Stand.active : Stand → BTreeMap Str Bool
  | .running _ => (∅ : BTreeMap Str Bool).insert (Server.idKey (.string evaluateId)) false
  | _ => ∅

def Stand.evaluations : Stand → List Server.Evaluation
  | .running session => [evaluation request session none]
  | .finished session result => [evaluation request session (some result)]
  | _ => []

def Stand.router (calls : Nat) : Stand → Router
  | .greeting =>
    .sending (some 0) (responseMessage (.string initializeId) (greetingAnswer request profile).1)
  | .admitting session => .admitting 2 request.evaluationParams (.string evaluateId) session
  | .refusing error => .sending (some 2) (responseMessage (.string evaluateId) (.error error))
  | .cancelling _ => .cancelling (3 + calls) (.string shutdownId)
  | .waiting _ => .waiting (3 + calls) (.string shutdownId)
  | .closing _ => .sending (some (3 + calls)) (resultMessage (.string shutdownId) .null)
  | .leaving _ => .leaving (some true)
  | .stopped _ => .stopped (some true)
  | _ => .ready

/-- The provider where it stands. -/
def Stand.state (calls : List Callback) (received : List Incoming) (pending : BTreeSet Str)
    (stand : Stand) : Server.State where
  lifecycle := stand.lifecycle request profile wallclockMs
  active := stand.active
  pending
  nextId := calls.length + 1
  evaluations := stand.evaluations request
  router := stand.router request profile calls.length
  received
  sent := stand.sent request profile calls

end

/-! ## What the provider does by itself -/

/-- The ways a provider moves on by itself. -/
inductive Moves : Stand → Stand → Prop where
  | greets : Moves .greeting .greeted
  | admits (session : AspSession) : Moves (.admitting session) (.running session)
  | refuses (error : RpcFailure) : Moves (.refusing error) (.responded (.error error))
  | finishes (session : AspSession) (result : Except RpcFailure Value) :
      Moves (.running session) (.finished session result)
  | responds (session : AspSession) (result : Except RpcFailure Value) :
      Moves (.finished session result) (.responded result)
  | cancels (result : Except RpcFailure Value) : Moves (.cancelling result) (.waiting result)
  | waits (result : Except RpcFailure Value) : Moves (.waiting result) (.closing result)
  | closes (result : Except RpcFailure Value) : Moves (.closing result) (.closed result)
  | leaves (result : Except RpcFailure Value) : Moves (.leaving result) (.stopped result)

/-- What a step of the provider by itself makes of its stand and its calls. -/
inductive Advances (calls : List Callback) (stand : Stand) :
    Server.Action → List Callback → Stand → Prop where
  | stays (key : Str) : Advances calls stand (.abandon key) calls stand
  | asks (session : AspSession) (running : stand = .running session) (serial : Nat)
      (call : Callback) :
      Advances calls stand (.callback serial call.method call.params) (calls ++ [call]) stand
  | moves (action : Server.Action) (stand' : Stand) (moves : Moves stand stand')
      (silent : ∀ serial method params, action ≠ .callback serial method params) :
      Advances calls stand action calls stand'

@[simp] theorem callMessages_append (calls : List Callback) (call : Callback) :
    callMessages (calls ++ [call]) = callMessages calls
      ++ [⟨none, callbackMessage (calls.length + 1) call.method call.params⟩] := by
  simp [callMessages, List.mapIdx_append]

@[simp] theorem length_callMessages (calls : List Callback) :
    (callMessages calls).length = calls.length := by
  simp [callMessages]

section

variable [Build] {request : HostRequest} {profile : ProviderProfile} {wallclockMs : Nat}
  {calls : List Callback} {received : List Incoming} {pending : BTreeSet Str} {stand : Stand}
  {delivered : Nat}

theorem sent_closed (result : Except RpcFailure Value) :
    Stand.sent request profile calls (.closed result)
      = Stand.sent request profile calls (.closing result)
        ++ [⟨some (3 + calls.length), resultMessage (.string shutdownId) .null⟩] := by
  simp [Stand.sent]

variable {t : Server.State}

theorem proceed_advances (hreads : stand.Reads calls.length delivered)
    (h : (stand.state request profile wallclockMs calls received pending).proceed = some t) :
    ∃ stand' pending', t = stand'.state request profile wallclockMs calls received pending'
      ∧ Moves stand stand' := by
  cases stand with
  | greeting =>
    cases h
    exact ⟨.greeted, pending, rfl, .greets⟩
  | admitting session =>
    have hnil : calls = [] := List.length_eq_zero_iff.mp hreads.1
    subst hnil
    cases h
    exact ⟨.running session, pending, rfl, .admits session⟩
  | refusing error =>
    have hnil : calls = [] := List.length_eq_zero_iff.mp hreads.1
    subst hnil
    cases h
    exact ⟨.responded (.error error), pending, rfl, .refuses error⟩
  | cancelling result =>
    cases h
    exact ⟨.waiting result, pending, rfl, .cancels result⟩
  | waiting result =>
    cases h
    exact ⟨.closing result, pending, rfl, .waits result⟩
  | closing result =>
    cases h
    refine ⟨.closed result, pending, ?_, .closes result⟩
    simp only [Stand.state, Server.State.send, sent_closed]
    rfl
  | leaving result =>
    cases h
    exact ⟨.stopped result, ∅, rfl, .leaves result⟩
  | _ => cases h

theorem sent_asked (session : AspSession) (call : Callback) :
    Stand.sent request profile (calls ++ [call]) (.running session)
      = Stand.sent request profile calls (.running session)
        ++ [⟨none, callbackMessage (calls.length + 1) call.method call.params⟩] := by
  simp [Stand.sent]

omit [Build] in
theorem erase_active (session : AspSession) :
    (Stand.active (.running session)).erase (Server.idKey (.string evaluateId)) = ∅ := by
  refine BTreeMap.ext_get? fun key => ?_
  rw [Stand.active, BTreeMap.get?_erase, BTreeMap.get?_insert]
  split <;> simp_all

variable {serial : Nat}

theorem callback_advances {method : Str} {params : Value}
    (h : (stand.state request profile wallclockMs calls received pending).callback
      serial method params = some t) :
    ∃ calls' stand' pending', t = stand'.state request profile wallclockMs calls' received pending'
      ∧ Advances calls stand (.callback serial method params) calls' stand' := by
  obtain ⟨hrun, ht⟩ := Option.ite_none_right_eq_some.mp h
  cases stand with
  | running session =>
    refine ⟨calls ++ [⟨method, params⟩], .running session, t.pending, ?_,
      .asks session rfl serial ⟨method, params⟩⟩
    rw [Stand.state, sent_asked, List.length_append, ← Option.some.inj ht]
    rfl
  | finished session result =>
    simp [Stand.state, Stand.evaluations, evaluation, Server.Evaluation.running] at hrun
  | _ => cases hrun

theorem finish_advances {result : Except RpcFailure Value}
    (h : (stand.state request profile wallclockMs calls received pending).finish serial result
      = some t) :
    ∃ stand' pending', t = stand'.state request profile wallclockMs calls received pending'
      ∧ Moves stand stand' := by
  cases stand with
  | running session =>
    simp only [Server.State.finish, Stand.state, Stand.evaluations, List.find?_cons,
      Server.Evaluation.running, evaluation, Option.isNone_none, Bool.and_true] at h
    by_cases hserial : 2 = serial
    · subst hserial
      cases h
      refine ⟨.finished session result, pending, ?_, .finishes session result⟩
      simp only [Stand.state, erase_active]
      rfl
    · simp [hserial] at h
  | finished session earlier =>
    simp [Server.State.finish, Stand.state, Stand.evaluations, Server.Evaluation.running,
      evaluation] at h
  | _ => cases h

theorem respond_advances
    (h : (stand.state request profile wallclockMs calls received pending).respond serial = some t) :
    ∃ stand' pending', t = stand'.state request profile wallclockMs calls received pending'
      ∧ Moves stand stand' := by
  cases stand with
  | running session =>
    simp only [Server.State.respond, Stand.state, Stand.evaluations, List.find?_cons,
      evaluation] at h
    by_cases hserial : 2 = serial <;> simp [hserial] at h
  | finished session result =>
    simp only [Server.State.respond, Stand.state, Stand.evaluations, List.find?_cons,
      evaluation] at h
    by_cases hserial : 2 = serial
    · subst hserial
      cases h
      exact ⟨.responded result, pending, rfl, .responds session result⟩
    · simp [hserial] at h
  | _ => cases h

theorem step_advances {action : Server.Action}
    (hreads : stand.Reads calls.length delivered) (hinternal : action.internal = true)
    (h : Server.step profile (stand.state request profile wallclockMs calls received pending) action
      = some t) :
    ∃ calls' stand' pending', t = stand'.state request profile wallclockMs calls' received pending'
      ∧ Advances calls stand action calls' stand' := by
  cases action with
  | receive event => cases hinternal
  | proceed =>
    obtain ⟨stand', pending', ht, hmoves⟩ := proceed_advances hreads h
    exact ⟨calls, stand', pending', ht, .moves _ stand' hmoves (by rintro _ _ _ ⟨⟩)⟩
  | expire =>
    cases stand with
    | waiting result =>
      cases h
      exact ⟨calls, .closing result, pending, rfl, .moves _ _ (.waits result) (by rintro _ _ _ ⟨⟩)⟩
    | _ => cases h
  | callback serial method params => exact callback_advances h
  | abandon key =>
    cases h
    exact ⟨calls, stand, pending.erase key, rfl, .stays key⟩
  | finish serial result =>
    obtain ⟨stand', pending', ht, hmoves⟩ := finish_advances h
    exact ⟨calls, stand', pending', ht, .moves _ stand' hmoves (by rintro _ _ _ ⟨⟩)⟩
  | respond serial =>
    obtain ⟨stand', pending', ht, hmoves⟩ := respond_advances h
    exact ⟨calls, stand', pending', ht, .moves _ stand' hmoves (by rintro _ _ _ ⟨⟩)⟩

end

/-- How far a provider has come. -/
def Stand.rank : Stand → Nat
  | .unread => 0
  | .greeting => 1
  | .greeted => 2
  | .granted => 3
  | .admitting _ | .refusing _ => 4
  | .running _ => 5
  | .finished _ _ => 6
  | .responded _ => 7
  | .cancelling _ => 8
  | .waiting _ => 9
  | .closing _ => 10
  | .closed _ => 11
  | .leaving _ => 12
  | .stopped _ => 13

theorem Stand.rank_le (stand : Stand) : stand.rank ≤ 13 := by
  cases stand <;> simp [Stand.rank]

theorem Moves.rank_lt {stand stand' : Stand} (h : Moves stand stand') :
    stand.rank < stand'.rank := by
  cases h <;> simp [Stand.rank]

namespace Advances

variable {calls calls' : List Callback} {stand stand' : Stand} {delivered : Nat}
  {action : Server.Action}

theorem reads (h : Advances calls stand action calls' stand')
    (hreads : stand.Reads calls.length delivered) : stand'.Reads calls'.length delivered := by
  cases h with
  | stays key => exact hreads
  | asks session hrunning serial call =>
    subst hrunning
    obtain ⟨hlow, hhigh⟩ := hreads
    rw [List.length_append]
    exact ⟨hlow, by omega⟩
  | moves _ _ hmoves _ =>
    cases hmoves with
    | admits session =>
      obtain ⟨hcalls, rfl⟩ := hreads
      exact ⟨by omega, by omega⟩
    | refuses error =>
      obtain ⟨hcalls, rfl⟩ := hreads
      exact ⟨by omega, by omega⟩
    | _ => exact hreads

theorem result (h : Advances calls stand action calls' stand') {r : Except RpcFailure Value}
    (hresult : stand.result? = some r) : stand'.result? = some r ∧ calls' = calls := by
  cases h with
  | stays key => exact ⟨hresult, rfl⟩
  | asks session hrunning serial call =>
    subst hrunning
    cases hresult
  | moves _ _ hmoves _ =>
    cases hmoves with
    | cancels => exact ⟨hresult, rfl⟩
    | waits => exact ⟨hresult, rfl⟩
    | closes => exact ⟨hresult, rfl⟩
    | leaves => exact ⟨hresult, rfl⟩
    | _ => cases hresult

theorem calls_prefix (h : Advances calls stand action calls' stand') : calls <+: calls' := by
  cases h with
  | asks session hrunning serial call => exact List.prefix_append calls [call]
  | _ => exact List.prefix_rfl

theorem sent [Build] {request : HostRequest} {profile : ProviderProfile}
    (h : Advances calls stand action calls' stand') (hreads : stand.Reads calls.length delivered) :
    stand.sent request profile calls <+: stand'.sent request profile calls' := by
  cases h with
  | stays key => exact List.prefix_rfl
  | asks session hrunning serial call =>
    subst hrunning
    rw [sent_asked]
    exact List.prefix_append _ _
  | moves _ _ hmoves _ =>
    cases hmoves with
    | greets => exact List.nil_prefix
    | admits session =>
      have hnil : calls = [] := List.length_eq_zero_iff.mp hreads.1
      subst hnil
      exact List.prefix_rfl
    | refuses error =>
      have hnil : calls = [] := List.length_eq_zero_iff.mp hreads.1
      subst hnil
      exact List.prefix_append _ _
    | responds session result => exact List.prefix_append _ _
    | closes result =>
      rw [sent_closed]
      exact List.prefix_append _ _
    | _ => exact List.prefix_rfl

end Advances

/-! ## The script -/

section

variable [Opcore.Base64] [Build] {request : HostRequest} {profile : ProviderProfile}
  {wallclockMs : Nat} {calls : List Callback}

omit [Build] in
@[simp] theorem length_answers : (answers request calls).length = calls.length :=
  List.length_mapIdx

theorem length_script : (script request wallclockMs calls).length = 5 + calls.length := by
  simp only [script, List.length_append, List.length_cons, List.length_nil, length_answers]
  omega

theorem script_initializing :
    (script request wallclockMs calls)[0]? = some (initializeMessage request) := rfl

theorem script_initialized :
    (script request wallclockMs calls)[1]? = some (initializedMessage request wallclockMs) := rfl

theorem script_evaluate :
    (script request wallclockMs calls)[2]? = some (evaluateMessage request) := rfl

theorem script_answer {i : Nat} (hi : i < calls.length) :
    (script request wallclockMs calls)[3 + i]? = some (answerTo request i calls[i]) := by
  have hlength : i < (answers request calls).length := by rwa [length_answers]
  rw [script, List.append_assoc, List.getElem?_append_right (by simp)]
  rw [List.length_cons, List.length_cons, List.length_cons, List.length_nil,
    Nat.add_sub_cancel_left,
    List.getElem?_append_left hlength, List.getElem?_eq_getElem hlength]
  exact congrArg some List.getElem_mapIdx

theorem script_shutdown :
    (script request wallclockMs calls)[3 + calls.length]? = some shutdownMessage := by
  rw [script, List.getElem?_append_right (by simp; omega)]
  simp [Nat.add_comm 3]

theorem script_exit :
    (script request wallclockMs calls)[4 + calls.length]? = some exitMessage := by
  rw [script, List.getElem?_append_right (by simp; omega)]
  simp [show 4 + calls.length - (calls.length + 1 + 1 + 1) = 1 by omega]

/-- What is written before the host takes its leave does not depend on later calls. -/
theorem take_script_append {n : Nat} (hn : n ≤ 3 + calls.length) (more : List Callback) :
    (script request wallclockMs (calls ++ more)).take n
      = (script request wallclockMs calls).take n := by
  have hlength : n ≤ ([initializeMessage request, initializedMessage request wallclockMs,
      evaluateMessage request] ++ answers request calls).length := by
    simp only [List.length_append, List.length_cons, List.length_nil, length_answers]
    omega
  have hmore : ∃ rest, answers request (calls ++ more) = answers request calls ++ rest :=
    ⟨_, List.mapIdx_append⟩
  obtain ⟨rest, hrest⟩ := hmore
  simp only [script, hrest]
  rw [← List.append_assoc, List.append_assoc _ rest, List.take_append_of_le_length hlength,
    List.take_append_of_le_length hlength]

end

/-! ## The replies -/

section

variable [Build] (request : HostRequest) (profile : ProviderProfile)

/-- Everything a provider sends that makes these calls and comes to this result. -/
def replies (calls : List Callback) (result : Except RpcFailure Value) : List Server.Sent :=
  ⟨some 0, responseMessage (.string initializeId) (greetingAnswer request profile).1⟩
    :: callMessages calls
    ++ [⟨some 2, responseMessage (.string evaluateId) result⟩,
      ⟨some (3 + calls.length), resultMessage (.string shutdownId) .null⟩]

variable {request profile} {calls : List Callback} {stand : Stand}
  {result : Except RpcFailure Value}

theorem length_replies : (replies request profile calls result).length = 3 + calls.length := by
  simp only [replies, List.length_append, List.length_cons, List.length_nil, length_callMessages]
  omega

theorem sent_initial (hresult : ∀ r, stand.result? = some r → r = result) :
    stand.sent request profile calls <+: replies request profile calls result := by
  cases stand with
  | unread => exact List.nil_prefix
  | greeting => exact List.nil_prefix
  | greeted => exact List.prefix_append [_] _
  | granted => exact List.prefix_append [_] _
  | admitting session => exact List.prefix_append [_] _
  | refusing error => exact List.prefix_append [_] _
  | running session => exact List.prefix_append _ _
  | finished session r => exact List.prefix_append _ _
  | responded r =>
    obtain rfl := hresult r rfl
    exact List.prefix_append_right_inj _ |>.mpr (List.prefix_append [_] _)
  | cancelling r =>
    obtain rfl := hresult r rfl
    exact List.prefix_append_right_inj _ |>.mpr (List.prefix_append [_] _)
  | waiting r =>
    obtain rfl := hresult r rfl
    exact List.prefix_append_right_inj _ |>.mpr (List.prefix_append [_] _)
  | closing r =>
    obtain rfl := hresult r rfl
    exact List.prefix_append_right_inj _ |>.mpr (List.prefix_append [_] _)
  | closed r =>
    obtain rfl := hresult r rfl
    exact List.prefix_rfl
  | leaving r =>
    obtain rfl := hresult r rfl
    exact List.prefix_rfl
  | stopped r =>
    obtain rfl := hresult r rfl
    exact List.prefix_rfl

theorem length_sent_le (hresult : stand.result? = none) :
    (stand.sent request profile calls).length ≤ 1 + calls.length := by
  cases stand with
  | running session => simp [Stand.sent, Nat.add_comm]
  | finished session r => simp [Stand.sent, Nat.add_comm]
  | unread => simp [Stand.sent]
  | greeting => simp [Stand.sent]
  | greeted => simp [Stand.sent]
  | granted => simp [Stand.sent]
  | admitting session => simp [Stand.sent]
  | refusing error => simp [Stand.sent]
  | _ => cases hresult

theorem replies_greeting : (replies request profile calls result)[0]?
    = some ⟨some 0, responseMessage (.string initializeId) (greetingAnswer request profile).1⟩ :=
  rfl

theorem replies_call {k : Nat} (hk : k < calls.length) :
    (replies request profile calls result)[k + 1]?
      = some ⟨none, callbackMessage (k + 1) calls[k].method calls[k].params⟩ := by
  have hlength : k < (callMessages calls).length := by rwa [length_callMessages]
  rw [replies, List.cons_append, List.getElem?_cons_succ, List.getElem?_append_left hlength,
    List.getElem?_eq_getElem hlength]
  exact congrArg some List.getElem_mapIdx

theorem replies_answer : (replies request profile calls result)[calls.length + 1]?
    = some ⟨some 2, responseMessage (.string evaluateId) result⟩ := by
  rw [replies, List.cons_append, List.getElem?_cons_succ, List.getElem?_append_right (by simp),
    length_callMessages, Nat.sub_self]
  rfl

theorem replies_closing : (replies request profile calls result)[calls.length + 2]?
    = some ⟨some (3 + calls.length), resultMessage (.string shutdownId) .null⟩ := by
  rw [replies, List.cons_append, List.getElem?_cons_succ, List.getElem?_append_right (by simp),
    length_callMessages, Nat.add_sub_cancel_left]
  rfl

end

theorem result_eq_of_greetingAnswer [Build] {request : HostRequest} {profile : ProviderProfile}
    {result : Value} (h : (greetingAnswer request profile).1 = .ok result) :
    result = initializeResult profile := by
  unfold greetingAnswer Server.initializeState at h
  dsimp only at h
  split at h
  · next value baseline hinitialize =>
    cases h
    obtain ⟨object, -, hrest⟩ := Except.bind_eq_ok_iff.mp hinitialize
    obtain ⟨-, -, hrest⟩ := Except.bind_eq_ok_iff.mp hrest
    obtain ⟨baseline', -, hrest⟩ := Except.bind_eq_ok_iff.mp hrest
    cases hrest
    rfl
  · cases h

/-- The answer to `shutdown` is sent as it is. -/
theorem onWire_closing : onWire (resultMessage (.string shutdownId) .null)
    = resultMessage (.string shutdownId) .null := by
  refine if_pos ?_
  decide

theorem hostReads_of_lt {message : Value} (h : (onWire message).serialize.length < maxFrameBytes) :
    hostReads message = .ok (onWire message) := if_pos h

/-- An answer reaches the host as it is, or as an error in its place. -/
theorem onWire_response (id : Str) (response : Except RpcFailure Value) :
    (∃ result, response = .ok result
        ∧ onWire (responseMessage (.string id) response) = resultMessage (.string id) result)
      ∨ ∃ error,
        onWire (responseMessage (.string id) response) = errorMessage (.string id) error := by
  unfold onWire
  split
  · cases response with
    | ok result => exact .inl ⟨result, rfl, rfl⟩
    | error error => exact .inr ⟨error.toJson, rfl⟩
  · rw [Server.responseMessage_id]
    exact .inr ⟨_, rfl⟩

/-! ## What the host records -/

section

variable [Opcore.Base64]

omit [Opcore.Base64] in
theorem eq_object_of_exactObject {value : Value} {allowed : List Str} {method : Str}
    {object : List (Str × Value)}
    (h : HostWorkspace.exactObject value allowed method = .ok object) : value = .object object := by
  cases value with
  | object members =>
    unfold HostWorkspace.exactObject at h
    dsimp only [Value.asObject?] at h
    split at h
    · cases h
    · cases h
      rfl
  | _ => cases h

theorem exists_firstBlob {workspace : HostWorkspace} {params value : Value}
    (h : workspace.readBlobs params = .ok value) :
    ∃ text, (firstBlob params).bind Value.asStr? = some text := by
  obtain ⟨object, hobject, hrest⟩ := Except.bind_eq_ok_iff.mp h
  obtain rfl := eq_object_of_exactObject hobject
  split at hrest
  · next blob hblobs =>
    split at hrest
    · cases hrest
    · next text htext =>
      refine ⟨text, ?_⟩
      rw [firstBlob, Value.get?, hblobs]
      exact htext
  · cases hrest
  · cases hrest

/-- The host's record of a callback it has answered does not fail. -/
theorem exists_recordAnswer (workspace : HostWorkspace) (readBlobs : BTreeSet Str) (id : Value)
    (callback : Callback) :
    ∃ readBlobs', recordAnswer workspace readBlobs id callback = .ok readBlobs' := by
  unfold recordAnswer recordBlobRead
  dsimp only
  split
  · exact ⟨_, rfl⟩
  split
  · exact ⟨_, rfl⟩
  · next value hvalue =>
    split
    · exact ⟨_, rfl⟩
    · next hmethod =>
      rw [not_not] at hmethod
      have hread : workspace.readBlobs callback.params = .ok value := by
        rw [HostWorkspace.callback, if_neg (by rw [hmethod]; decide), if_pos hmethod] at hvalue
        exact hvalue
      obtain ⟨text, htext⟩ := exists_firstBlob hread
      rw [htext]
      exact ⟨_, rfl⟩

theorem recorded_take {request : HostRequest} {calls : List Callback} {k : Nat} {call : Callback}
    {readBlobs : BTreeSet Str} (hcall : calls[k]? = some call)
    (hrecorded : recorded request (calls.take k) = .ok readBlobs) :
    recorded request (calls.take (k + 1))
      = recordAnswer request.workspace readBlobs (callId (k + 1)) call := by
  have hlength : (calls.take k).length = k := by
    rw [List.length_take]
    have := (List.getElem?_eq_some_iff.mp hcall).1
    omega
  rw [recorded] at hrecorded
  rw [List.take_add_one, hcall, recorded, Option.toList_some, List.zipIdx_append,
    List.foldlM_append,
    hrecorded, hlength, Nat.zero_add]
  show (recordAnswer request.workspace readBlobs (callId (k + 1)) call >>= pure) = _
  rw [bind_pure]

end

/-! ## What the provider reads -/

theorem isContainer_of_new {workspace : HostWorkspace} {params : Value} {request : HostRequest}
    (h : HostRequest.new workspace params = .ok request) :
    Server.isContainer request.evaluationParams = true := by
  cases params with
  | object members =>
    cases h
    rfl
  | _ => cases h

theorem decode_requestMessage (id method : Str) {params : Value}
    (hparams : Server.isContainer params = true) :
    decodeIncoming (.ok (requestMessage id method params))
      = .ok (.request method params (.string id)) := by
  cases params with
  | object members => rfl
  | array items => rfl
  | _ => cases hparams

theorem decode_answer [Opcore.Base64] (workspace : HostWorkspace) (id : Value)
    (callback : Callback) :
    ∃ object, decodeIncoming (.ok (callbackAnswer workspace id callback))
      = .ok (.callback object) := by
  unfold callbackAnswer
  dsimp only
  split
  · exact ⟨_, rfl⟩
  · cases workspace.callback callback with
    | ok value => exact ⟨_, rfl⟩
    | error error => exact ⟨_, rfl⟩

section

variable [Build] {request : HostRequest} {profile : ProviderProfile} {wallclockMs : Nat}

theorem grantedLifecycle_ne_shuttingDown :
    grantedLifecycle request profile wallclockMs ≠ .shuttingDown := by
  unfold grantedLifecycle Server.initializedLifecycle
  split
  · next state hstate =>
    unfold Server.initializeSession at hstate
    split at hstate
    · split at hstate
      · cases hstate
        rintro ⟨⟩
      · cases hstate
    · cases hstate
  · rintro ⟨⟩

theorem router_of_receive {s t : Server.State} {event : Server.ReadEvent}
    (h : Server.step profile s (.receive event) = some t) : s.router = .ready := by
  simp only [Server.step] at h
  split at h
  · next hready => exact hready
  · cases h

omit [Build] in
theorem providerReads_of_lt {message : Value} (h : message.serialize.length < maxFrameBytes) :
    providerReads message = .frame (.ok message) := if_pos h

theorem step_receive {s : Server.State} {message : Value} {incoming : Incoming}
    (hready : s.router = .ready) (hdecode : decodeIncoming (.ok message) = .ok incoming) :
    Server.step profile s (.receive (.frame (.ok message)))
      = some (Server.State.route { s with received := s.received ++ [incoming] } profile
        incoming) := by
  simp only [Server.step, hready, Server.State.receive, hdecode]

variable {calls : List Callback} {received : List Incoming} {pending : BTreeSet Str}

theorem route_initialize :
    Server.State.route
        { Stand.unread.state request profile wallclockMs calls [] pending with
          received := [.request (ascii "initialize") (initializeParams request.workspace)
            (.string initializeId)] }
        profile
        (.request (ascii "initialize") (initializeParams request.workspace) (.string initializeId))
      = Stand.greeting.state request profile wallclockMs calls
        [.request (ascii "initialize") (initializeParams request.workspace)
          (.string initializeId)] pending := rfl

theorem route_initialized (received' : List Incoming) :
    Server.State.route
        { Stand.greeted.state request profile wallclockMs calls received pending with
          received := received' }
        profile
        (.notification (ascii "initialized") (initializedParams request.workspace wallclockMs))
      = Stand.granted.state request profile wallclockMs calls received' pending := rfl

theorem routeRequest_evaluate (s : Server.State) (params id : Value) :
    s.routeRequest profile (ascii "check/evaluate") params id = s.evaluate params id := rfl

theorem routeRequest_shutdown (s : Server.State) (params id : Value) :
    s.routeRequest profile (ascii "shutdown") params id = s.shutdown id := rfl

theorem route_evaluate {received' : List Incoming} (hlength : received'.length = 3) :
    ∃ stand : Stand,
      Server.State.route
          { Stand.granted.state request profile wallclockMs calls received pending with
            received := received' }
          profile
          (.request (ascii "check/evaluate") request.evaluationParams (.string evaluateId))
        = stand.state request profile wallclockMs calls received' pending
      ∧ ((∃ session, stand = .admitting session) ∨ ∃ error, stand = .refusing error) := by
  cases hsession : Server.activeSession (grantedLifecycle request profile wallclockMs) with
  | ok session =>
    refine ⟨.admitting session, ?_, .inl ⟨session, rfl⟩⟩
    simp only [Server.State.route, routeRequest_evaluate, Server.State.evaluate, Stand.state,
      Stand.lifecycle, hsession, hlength]
    rfl
  | error error =>
    refine ⟨.refusing error, ?_, .inr ⟨error, rfl⟩⟩
    simp only [Server.State.route, routeRequest_evaluate, Server.State.evaluate,
      Server.State.answer, Stand.state, Stand.lifecycle, hsession, hlength]
    rfl

/-- An answer only ends the wait for it. -/
theorem route_answer (stand : Stand) (received' : List Incoming) (object : List (Str × Value)) :
    ∃ pending', Server.State.route
        { stand.state request profile wallclockMs calls received pending with
          received := received' }
        profile (.callback object)
      = stand.state request profile wallclockMs calls received' pending' := by
  simp only [Server.State.route, Server.State.routeCallbackResponse]
  split
  · exact ⟨_, rfl⟩
  · exact ⟨pending, rfl⟩

theorem route_shutdown {result : Except RpcFailure Value} {received' : List Incoming}
    (hlength : received'.length = 4 + calls.length) :
    Server.State.route
        { (Stand.responded result).state request profile wallclockMs calls received pending with
          received := received' }
        profile (.request (ascii "shutdown") (.object []) (.string shutdownId))
      = (Stand.cancelling result).state request profile wallclockMs calls received' pending := by
  have hserial : received'.length - 1 = 3 + calls.length := by omega
  have hup := @grantedLifecycle_ne_shuttingDown _ request profile wallclockMs
  have hvalid : Server.validId (.string shutdownId) = true := rfl
  simp only [Server.State.route, routeRequest_shutdown, Server.State.shutdown, hvalid,
    not_true_eq_false, if_false, Stand.state, Stand.lifecycle, hserial]
  rfl

theorem route_exit {result : Except RpcFailure Value} (received' : List Incoming) :
    Server.State.route
        { (Stand.closed result).state request profile wallclockMs calls received pending with
          received := received' }
        profile (.notification (ascii "exit") (.object []))
      = (Stand.leaving result).state request profile wallclockMs calls received' pending := rfl

end

end Opcore.Conversation
