/-
  Opcore.Protocol.Steps

  Everything one step can make of the provider process, with the facts the
  step has just established under its locks.  The invariants of the process are
  proved from this list, and from nothing else of the handlers.
-/
import Opcore.Protocol.Server

namespace Opcore.Server

open Text
open Json (Value)
open Asp Collections

/-! ## Message ids -/

@[simp] theorem errorMessage_id (id error : Value) :
    (errorMessage id error).get? (ascii "id") = some id := by
  have h : (ascii "id" == ascii "error") = false := by decide
  simp [errorMessage, Value.get?, List.lookup_cons, h]

@[simp] theorem resultMessage_id (id result : Value) :
    (resultMessage id result).get? (ascii "id") = some id := by
  simp [resultMessage, Value.get?]

@[simp] theorem responseMessage_id (id : Value) (response : Except RpcFailure Value) :
    (responseMessage id response).get? (ascii "id") = some id := by
  cases response <;> simp [responseMessage]

@[simp] theorem toMessage_id (error : ErrorResponse) :
    error.toMessage.get? (ascii "id") = some error.id := by
  simp [ErrorResponse.toMessage]

/-! ## What one frame can do -/

variable [Build] {profile : ProviderProfile}

/-- Everything one read can make of the process. -/
inductive Routed (profile : ProviderProfile) (s : State) : State → Prop where
  | closed : Routed profile s { s with router := .leaving none }
  | refused (message : Value) : Routed profile s { s with router := .sending none message }
  | called (object : List (Str × Value)) (pending : BTreeSet Str) :
      Routed profile s { s with received := s.received ++ [.callback object], pending }
  | ignored (method : Str) (params : Value) :
      Routed profile s { s with received := s.received ++ [.notification method params] }
  | established (method : Str) (params : Value) :
      Routed profile s
        { s with
          received := s.received ++ [.notification method params]
          lifecycle := initializedLifecycle s.lifecycle params }
  | rebasing (method : Str) (params : Value) (result : Except RpcFailure Value)
      (idle : ∀ baseline, result = .ok baseline → s.active = ∅) :
      Routed profile s
        { s with
          received := s.received ++ [.notification method params]
          router := .rebasing result }
  | cancelled (method : Str) (params : Value) (key : Str) (live : s.active.contains key) :
      Routed profile s
        { s with
          received := s.received ++ [.notification method params]
          active := s.active.insert key true }
  | leaving (method : Str) (params : Value) (exit : Option Bool) :
      Routed profile s
        { s with
          received := s.received ++ [.notification method params]
          router := .leaving exit }
  | answered (method : Str) (params id message : Value) (valid : validId id)
      (carries : message.get? (ascii "id") = some id)
      (again : method = ascii "shutdown" → s.lifecycle = .shuttingDown) :
      Routed profile s
        { s with
          received := s.received ++ [.request method params id]
          router := .sending (some s.received.length) message }
  | initialized (params id : Value) (valid : validId id) :
      Routed profile s
        { s with
          received := s.received ++ [.request (ascii "initialize") params id]
          lifecycle := (initializeState s.lifecycle params profile).2
          router := .sending (some s.received.length)
            (responseMessage id (initializeState s.lifecycle params profile).1) }
  | admitting (params id : Value) (valid : validId id) (session : AspSession)
      (active : s.lifecycle = .active session) :
      Routed profile s
        { s with
          received := s.received ++ [.request (ascii "check/evaluate") params id]
          router := .admitting s.received.length params id session }
  | shutdown (params id : Value) (valid : validId id) :
      Routed profile s
        { s with
          received := s.received ++ [.request (ascii "shutdown") params id]
          lifecycle := .shuttingDown
          router := .cancelling s.received.length id }

omit [Build] in
theorem activeSession_eq_ok {lifecycle : Lifecycle} {session : AspSession}
    (h : activeSession lifecycle = .ok session) : lifecycle = .active session := by
  unfold activeSession at h
  split at h
  · cases h; rfl
  · cases h
  · cases h
  · cases h

omit [Build] in
theorem validateCallFields_validId {object : List (Str × Value)}
    (h : validateCallFields object = .ok ()) {id : Value}
    (hid : object.lookup (ascii "id") = some id) : validId id := by
  by_contra hinvalid
  have : validateCallFields object = .error .invalidId := by
    simp [validateCallFields, hid, hinvalid, bind, Except.bind]
  rw [this] at h
  cases h

omit [Build] in
/-- A decoded request carries a valid id. -/
theorem decodeIncoming_validId {parsed : Except Str Value} {method : Str} {params id : Value}
    (h : decodeIncoming parsed = .ok (.request method params id)) : validId id := by
  unfold decodeIncoming at h
  cases parsed with
  | error error => cases h
  | ok value =>
    dsimp only at h
    cases hobject : value.asObject? with
    | none => rw [hobject] at h; cases h
    | some object =>
      rw [hobject] at h
      dsimp only at h
      cases hversion : validateJsonrpc object with
      | error error => rw [hversion] at h; cases h
      | ok =>
        rw [hversion] at h
        cases hmethod : incomingMethod object with
        | error error => rw [hmethod] at h; cases h
        | ok method? =>
          rw [hmethod] at h
          cases method? with
          | none => cases h
          | some name =>
            cases hfields : validateCallFields object with
            | error error => simp [hfields, bind, Except.bind] at h
            | ok =>
              simp only [hfields, bind, Except.bind, pure, Except.pure, Except.ok.injEq,
                incomingCall] at h
              split at h
              · next hid => cases h; exact validateCallFields_validId hfields hid
              · cases h

theorem routed_request (s : State) (method : Str) (params id : Value) (valid : validId id) :
    Routed profile s
      (State.routeRequest { s with received := s.received ++ [.request method params id] }
        profile method params id) := by
  have hserial : (s.received ++ [Incoming.request method params id]).length - 1
      = s.received.length := by simp
  unfold State.routeRequest
  split
  · next hmethod =>
    subst hmethod
    simp only [State.initializeRequest, State.answer, valid, not_true_eq_false, if_false, hserial]
    exact .initialized params id valid
  split
  · next hmethod =>
    subst hmethod
    simp only [State.evaluate, State.answer, valid, not_true_eq_false, if_false, hserial]
    split
    · next session hsession =>
      exact .admitting params id valid session (activeSession_eq_ok hsession)
    · exact .answered _ params id _ valid (by simp) fun h => absurd h (by decide)
  split
  · next hmethod =>
    subst hmethod
    simp only [State.shutdown, State.answer, valid, not_true_eq_false, if_false, hserial]
    split
    · next hdown => exact .answered _ params id _ valid (by simp) fun _ => hdown
    · exact .shutdown params id valid
  · next hmethod =>
    simp only [State.answer, hserial]
    exact .answered method params id _ valid (by simp [ErrorResponse.methodNotFound])
      fun h => absurd h hmethod

theorem routed_notification (s : State) (method : Str) (params : Value) :
    Routed profile s
      (State.routeNotification { s with received := s.received ++ [.notification method params] }
        method params) := by
  unfold State.routeNotification
  split
  · exact .established method params
  split
  · refine .rebasing method params _ ?_
    intro baseline hok
    dsimp only at hok
    split at hok
    · next hempty => exact BTreeMap.isEmpty_iff.mp hempty
    · cases hok
  split
  · unfold State.cancelRequest
    split
    · dsimp only
      split
      · next hlive => exact .cancelled method params _ hlive
      · exact .ignored method params
    · exact .ignored method params
  split
  · exact .leaving method params _
  · exact .ignored method params

theorem routed_receive (s : State) (event : ReadEvent) :
    Routed profile s (s.receive profile event) := by
  cases event with
  | eof => exact .closed
  | unreadable error => exact .refused _
  | frame parsed =>
    cases hdecoded : decodeIncoming parsed with
    | error error =>
      simp only [State.receive, hdecoded]
      exact .refused _
    | ok incoming =>
      simp only [State.receive, hdecoded]
      cases incoming with
      | callback object =>
        simp only [State.route, State.routeCallbackResponse]
        split
        · exact .called object _
        · exact .called object s.pending
      | request method params id =>
        exact routed_request s method params id (decodeIncoming_validId hdecoded)
      | notification method params => exact routed_notification s method params

/-! ## What one step can do -/

/-- Everything the process can do by itself. -/
inductive Moved (s : State) : State → Prop where
  | delivered (serial : Option Nat) (message : Value) (router : s.router = .sending serial message) :
      Moved s { s.send serial message with router := .ready }
  | turnedAway (serial : Nat) (params id : Value) (session : AspSession) (message : Value)
      (router : s.router = .admitting serial params id session)
      (carries : message.get? (ascii "id") = some id) :
      Moved s { s with router := .sending (some serial) message }
  | admitted (serial : Nat) (params id : Value) (session : AspSession)
      (router : s.router = .admitting serial params id session) (idle : s.active = ∅) :
      Moved s
        { s with
          active := s.active.insert (idKey id) false
          evaluations := s.evaluations ++ [⟨serial, params, id, idKey id, session, none⟩]
          router := .ready }
  | rebased (result : Except RpcFailure Value) (router : s.router = .rebasing result) :
      Moved s
        { s with lifecycle := updateBaseline s.lifecycle result, router := .ready }
  | cancelled (serial : Nat) (id : Value) (router : s.router = .cancelling serial id) :
      Moved s { s.cancelAll with router := .waiting serial id }
  | waited (serial : Nat) (id : Value) (router : s.router = .waiting serial id) :
      Moved s { s with router := .sending (some serial) (resultMessage id .null) }
  | left (exit : Option Bool) (router : s.router = .leaving exit) :
      Moved s { s.cancelAll with pending := ∅, router := .stopped exit }
  | called (message : Value) (nextId : Nat) (pending : BTreeSet Str) :
      Moved s { s.send none message with nextId, pending }
  | abandoned (pending : BTreeSet Str) : Moved s { s with pending }
  | finished (evaluation : Evaluation) (result : Except RpcFailure Value)
      (mem : evaluation ∈ s.evaluations) (running : evaluation.running) :
      Moved s
        { s with
          active := s.active.erase evaluation.key
          evaluations := s.evaluations.map fun e =>
            if e.serial = evaluation.serial then { e with result := some result } else e }
  | responded (evaluation : Evaluation) (result : Except RpcFailure Value)
      (mem : evaluation ∈ s.evaluations) (finished : evaluation.result = some result) :
      Moved s
        { s.send (some evaluation.serial) (responseMessage evaluation.id result) with
          evaluations := s.evaluations.filter fun e => e.serial ≠ evaluation.serial }

/-- An action of the process itself, as opposed to a read. -/
def Action.internal : Action → Bool
  | .receive _ => false
  | _ => true

/-- Everything one step can make of the process: a read does what `Routed`
    lists, and the process moves by itself as the other cases say. -/
inductive Stepped (profile : ProviderProfile) (s : State) : Action → State → Prop where
  | read (event : ReadEvent) (ready : s.router = .ready)
      (routed : Routed profile s (s.receive profile event)) :
      Stepped profile s (.receive event) (s.receive profile event)
  | internal {a : Action} {t : State} (internal : a.internal) (moved : Moved s t) :
      Stepped profile s a t

omit [Build] in
theorem moved_admit {s : State} {serial : Nat} {params id : Value} {session : AspSession}
    (h : s.router = .admitting serial params id session) :
    Moved s (s.evaluateLocked serial params id session) := by
  unfold State.evaluateLocked
  dsimp only
  split
  · exact .turnedAway serial params id session _ h (by simp [ErrorResponse.duplicateId,
      ErrorResponse.invalidRequest])
  split
  · exact .turnedAway serial params id session _ h (by simp)
  · next hidle =>
    rw [not_not] at hidle
    exact .admitted serial params id session h (BTreeMap.isEmpty_iff.mp hidle)

omit [Build] in
theorem moved_proceed {s t : State} (h : s.proceed = some t) : Moved s t := by
  unfold State.proceed at h
  split at h
  · cases h
  · cases h
  · next hrouter => cases h; exact .delivered _ _ hrouter
  · next hrouter => cases h; exact moved_admit hrouter
  · next hrouter => cases h; exact .rebased _ hrouter
  · next hrouter => cases h; exact .cancelled _ _ hrouter
  · next hrouter =>
    split at h
    · cases h; exact .waited _ _ hrouter
    · cases h
  · next hrouter => cases h; exact .left _ hrouter

theorem stepped_of_step {s t : State} {a : Action} (h : step profile s a = some t) :
    Stepped profile s a t := by
  cases a with
  | receive event =>
    simp only [step] at h
    split at h
    · next hready => cases h; exact .read event hready (routed_receive s event)
    · cases h
  | proceed => exact .internal rfl (moved_proceed h)
  | expire =>
    simp only [step, State.expire] at h
    split at h
    · next hrouter => cases h; exact .internal rfl (.waited _ _ hrouter)
    · cases h
  | callback serial method params =>
    simp only [step, State.callback] at h
    split at h
    · cases h; exact .internal rfl (.called _ _ _)
    · cases h
  | abandon key =>
    cases h
    exact .internal rfl (.abandoned _)
  | finish serial result =>
    simp only [step, State.finish] at h
    split at h
    · cases h
    · next evaluation hfind =>
      cases h
      have hmem := List.mem_of_find?_eq_some hfind
      have hfound := List.find?_some hfind
      simp only [Bool.and_eq_true, decide_eq_true_eq] at hfound
      -- The evaluation of this serial still runs.
      obtain ⟨rfl, hrunning⟩ := hfound
      exact .internal rfl (.finished evaluation result hmem hrunning)
  | respond serial =>
    simp only [step, State.respond] at h
    split at h
    · next evaluation hfind =>
      split at h
      · next result hresult =>
        cases h
        have hmem := List.mem_of_find?_eq_some hfind
        have hfound := List.find?_some hfind
        simp only [decide_eq_true_eq] at hfound
        subst hfound
        exact .internal rfl (.responded evaluation result hmem hresult)
      · cases h
    · cases h

/-! ## The lifecycle only moves forward -/

/-- How far the lifecycle has come. -/
def Lifecycle.rank : Lifecycle → Nat
  | .fresh => 0
  | .awaitingInitialized _ => 1
  | .active _ => 2
  | .failed _ _ => 3
  | .shuttingDown => 3

omit [Build] in
theorem Lifecycle.rank_eq_two_iff {lifecycle : Lifecycle} :
    lifecycle.rank = 2 ↔ ∃ session, lifecycle = .active session := by
  cases lifecycle <;> simp [Lifecycle.rank]

variable (lifecycle : Lifecycle)

omit [Build] in
theorem Lifecycle.rank_le_three : lifecycle.rank ≤ 3 := by
  cases lifecycle <;> simp [Lifecycle.rank]

omit [Build] in

omit [Build] in
@[simp] theorem rank_failLifecycle (error : RpcFailure) :
    (failLifecycle lifecycle error).rank = 3 := rfl

theorem rank_initializeState (params : Value) :
    lifecycle.rank ≤ (initializeState lifecycle params profile).2.rank
      ∧ (lifecycle.rank ≤ 1 → (initializeState lifecycle params profile).2.rank ≤ 1) := by
  unfold initializeState
  split
  · split <;> simp [Lifecycle.rank]
  · exact ⟨Nat.le_refl _, id⟩

theorem rank_initializedLifecycle (params : Value) :
    lifecycle.rank ≤ (initializedLifecycle lifecycle params).rank := by
  unfold initializedLifecycle
  split
  · next state hstate =>
    unfold initializeSession at hstate
    split at hstate
    · split at hstate
      · cases hstate
        simp [Lifecycle.rank]
      · cases hstate
    · cases hstate
  · exact lifecycle.rank_le_three

omit [Build] in
theorem rank_updateBaseline (result : Except RpcFailure Value) :
    lifecycle.rank ≤ (updateBaseline lifecycle result).rank
      ∧ 2 ≤ (updateBaseline lifecycle result).rank := by
  unfold updateBaseline
  split
  · split
    · exact ⟨Nat.le_refl _, Nat.le_refl _⟩
    · exact ⟨lifecycle.rank_le_three, by simp⟩
  · exact ⟨lifecycle.rank_le_three, by simp⟩

/-- No step takes the lifecycle back. -/
theorem step_rank {s t : State} {a : Action} (h : step profile s a = some t) :
    s.lifecycle.rank ≤ t.lifecycle.rank := by
  cases stepped_of_step h with
  | read event ready routed =>
    generalize s.receive profile event = t at routed
    cases routed with
    | established method params => exact rank_initializedLifecycle s.lifecycle params
    | initialized params id valid => exact (rank_initializeState s.lifecycle params).1
    | shutdown params id valid => exact s.lifecycle.rank_le_three
    | _ => exact Nat.le_refl _
  | internal _ moved =>
    cases moved with
    | rebased result _ => exact (rank_updateBaseline s.lifecycle result).1
    | _ => exact Nat.le_refl _

end Opcore.Server
