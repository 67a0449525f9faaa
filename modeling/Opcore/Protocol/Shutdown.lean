/-
  Opcore.Protocol.Shutdown

  After an answered shutdown.  The lifecycle stays `ShuttingDown` through every
  frame except the two notifications that go through `fail_lifecycle`; as long
  as neither of them arrives, later shutdowns and evaluations are refused and
  `exit` ends the process cleanly.
-/
import Opcore.Protocol.Admission

namespace Opcore.Server

open Text
open Json (Value)
open Asp Collections

variable [Build] {profile : ProviderProfile}

/-- The message a read delivers to the router, if any. -/
def ReadEvent.incoming? : ReadEvent → Option Incoming
  | .frame parsed => (decodeIncoming parsed).toOption
  | _ => none

/-- A notification that takes the lifecycle through `fail_lifecycle`. -/
def ReadEvent.unsettles (event : ReadEvent) : Bool :=
  match event.incoming? with
  | some (.notification method _) =>
    method = ascii "initialized" || method = ascii "workspace/baselineChanged"
  | _ => false

/-- The answer a request is due while the provider is shutting down. -/
def refusal (method : Str) (id : Value) : Option Value :=
  if method = ascii "shutdown" then
    some (responseMessage id (.error (.input (ascii "shutdown may be called exactly once"))))
  else if method = ascii "check/evaluate" then
    some (responseMessage id (.error (.unavailable (ascii "provider is shutting down"))))
  else none

/-- The refusal due to message number `i`. -/
def refusalOf (received : List Incoming) (i : Nat) : Option Value :=
  received[i]?.bind fun incoming =>
    match incoming with
    | .request method _ id => refusal method id
    | _ => none

/-- The step from `s` to `t` answers a shutdown request with the result `null`. -/
def AnswersShutdown (s t : State) : Prop :=
  ∃ i params id, s.received[i]? = some (.request (ascii "shutdown") params id)
    ∧ t.sent = s.sent ++ [⟨some i, resultMessage id .null⟩]

/-! ## Who answers a shutdown -/

/-- A shutdown request is never evaluated, and while its answer is under way the
    lifecycle is `ShuttingDown`. -/
def Closing (s : State) : Prop :=
  ∀ i params id, s.received[i]? = some (.request (ascii "shutdown") params id) →
    (s.router.holds = some i → s.lifecycle = .shuttingDown) ∧ ∀ e ∈ s.evaluations, e.serial ≠ i

omit [Build] in
theorem closing_new : Closing State.new := by
  intro i params id h
  simp [State.new] at h

variable {s t : State}

omit [Build] in
/-- A message that is no shutdown request leaves the requests before it as they are. -/
theorem Closing.received (hs : Closing s) (hcarried : Carried s)
    {incoming : Incoming} (hreceived : t.received = s.received ++ [incoming])
    (hevaluations : t.evaluations = s.evaluations)
    (hholds : t.router.holds = none ∨ t.router.holds = some s.received.length)
    (hnew : ∀ params id, incoming = .request (ascii "shutdown") params id →
      t.lifecycle = .shuttingDown) : Closing t := by
  intro i params id hi
  rw [hreceived] at hi
  rw [hevaluations]
  by_cases hlast : i = s.received.length
  · subst hlast
    rw [List.getElem?_append_right (Nat.le_refl _)] at hi
    simp only [Nat.sub_self, List.getElem?_cons_zero, Option.some.injEq] at hi
    refine ⟨fun _ => hnew params id hi, ?_⟩
    intro e he hserial
    have := hcarried.evaluations e he
    rw [hserial, requestId_length] at this
    cases this
  · have hlt : i < s.received.length := by
      have := (List.getElem?_eq_some_iff.mp hi).1
      simp only [List.length_append, List.length_singleton] at this
      omega
    rw [List.getElem?_append_left hlt] at hi
    refine ⟨?_, (hs i params id hi).2⟩
    intro hheld
    rcases hholds with h | h
    · rw [h] at hheld
      cases hheld
    · rw [h] at hheld
      exact absurd (Option.some.inj hheld).symm hlast

theorem Closing.read (hs : Closing s) (hcarried : Carried s)
    (ready : s.router = .ready) (routed : Routed profile s t) : Closing t := by
  have hidle : s.router.holds = none := by rw [ready]; rfl
  have hstale : ∀ i params id, s.received[i]? = some (.request (ascii "shutdown") params id) →
      ((none : Option Nat) = some i → s.lifecycle = .shuttingDown)
        ∧ ∀ e ∈ s.evaluations, e.serial ≠ i :=
    fun i params id hi => ⟨fun h => (by cases h), (hs i params id hi).2⟩
  cases routed with
  | closed => exact hstale
  | refused message => exact hstale
  | called object pending => exact hs.received hcarried rfl rfl (.inl hidle) (by simp)
  | ignored method params => exact hs.received hcarried rfl rfl (.inl hidle) (by simp)
  | established method params => exact hs.received hcarried rfl rfl (.inl hidle) (by simp)
  | rebasing method params result idle =>
    exact hs.received hcarried rfl rfl (.inl rfl) (by simp)
  | cancelled method params key live =>
    exact hs.received hcarried rfl rfl (.inl hidle) (by simp)
  | leaving method params exit => exact hs.received hcarried rfl rfl (.inl rfl) (by simp)
  | answered method params id message valid carries again =>
    refine hs.received hcarried rfl rfl (.inr rfl) ?_
    intro params' id' h
    cases h
    exact again rfl
  | initialized params id valid =>
    refine hs.received hcarried rfl rfl (.inr rfl) ?_
    intro params' id' h
    exact absurd (Incoming.request.inj h).1 (by decide)
  | admitting params id valid session active =>
    refine hs.received hcarried rfl rfl (.inr rfl) ?_
    intro params' id' h
    exact absurd (Incoming.request.inj h).1 (by decide)
  | shutdown params id valid =>
    exact hs.received hcarried rfl rfl (.inr rfl) fun _ _ _ => rfl

omit [Build] in
theorem Closing.moved (hs : Closing s) (hconsistent : Consistent s)
    (moved : Moved s t) : Closing t := by
  intro i params id hi
  cases moved with
  | delivered serial message router => exact ⟨by simp [Router.holds], (hs i params id hi).2⟩
  | turnedAway serial params' id' session message router carries =>
    have := hs i params id hi
    rw [router] at this
    exact this
  | admitted serial params' id' session router idle =>
    have hstale := hs i params id hi
    refine ⟨by simp [Router.holds], ?_⟩
    intro e he hserial
    rcases List.mem_append.mp he with he | he
    · exact hstale.2 e he hserial
    · -- Only a request held for admission is evaluated, and its session is active.
      cases List.mem_singleton.mp he
      cases hserial
      have hdown := hstale.1 (by rw [router]; rfl)
      rw [hconsistent.admitting _ _ _ _ router] at hdown
      cases hdown
  | rebased result router => exact ⟨by simp [Router.holds], (hs i params id hi).2⟩
  | cancelled serial id' router =>
    have := hs i params id hi
    rw [router] at this
    exact this
  | waited serial id' router =>
    have := hs i params id hi
    rw [router] at this
    exact this
  | left exit router => exact ⟨by simp [Router.holds], (hs i params id hi).2⟩
  | called message nextId pending => exact hs i params id hi
  | abandoned pending => exact hs i params id hi
  | finished evaluation result mem running =>
    refine ⟨(hs i params id hi).1, ?_⟩
    intro e he
    obtain ⟨e', he', rfl⟩ := List.mem_map.mp he
    have := (hs i params id hi).2 e' he'
    split <;> exact this
  | responded evaluation result mem finished =>
    exact ⟨(hs i params id hi).1, fun e he => (hs i params id hi).2 e (List.mem_filter.mp he).1⟩

variable {s : State}

theorem reachable_closing (hs : Reachable profile s) : Closing s := by
  refine (@Transition.Reachable.invariant _ _ _ _ _
    (fun s => (Accounted s ∧ Carried s ∧ Consistent s) ∧ Closing s)
    ⟨⟨accounted_new, carried_new, consistent_new⟩, closing_new⟩ ?_ hs).2
  rintro s a t ⟨⟨haccounted, hcarried, hconsistent⟩, hclosing⟩ h
  refine ⟨⟨accounted_step haccounted h, carried_step hcarried h,
    consistent_step hconsistent haccounted h⟩, ?_⟩
  cases stepped_of_step h with
  | read event ready routed => exact hclosing.read hcarried ready routed
  | internal _ moved => exact hclosing.moved hconsistent moved

/-! ## After the answer -/

/-- The process is shutting down, and has been since it had received `n`
    messages: whatever it received later it refuses. -/
structure Down (n : Nat) (s : State) : Prop where
  lifecycle : s.lifecycle = .shuttingDown
  since : n ≤ s.received.length
  evaluations : ∀ e ∈ s.evaluations, e.serial < n
  router : s.router = .ready ∨ (∃ serial message, s.router = .sending serial message)
    ∨ ∃ exit, s.router = .leaving exit ∨ s.router = .stopped exit
  sending : ∀ i message refused, s.router = .sending (some i) message → n ≤ i →
    refusalOf s.received i = some refused → message = refused
  sent : ∀ m ∈ s.sent, ∀ i refused, m.serial = some i → n ≤ i →
    refusalOf s.received i = some refused → m.message = refused
  exit : ∀ i params, n ≤ i → s.received[i]? = some (.notification (ascii "exit") params) →
    s.router = .leaving (some true) ∨ s.router = .stopped (some true)

omit [Build] in
theorem lt_of_requestId {received : List Incoming} {i : Nat} {id : Value}
    (h : requestId received i = some id) : i < received.length := by
  by_contra hlong
  simp [requestId, List.getElem?_eq_none (Nat.not_lt.mp hlong)] at h

omit [Build] in
theorem refusalOf_append (received : List Incoming) (incoming : Incoming) {i : Nat}
    (hi : i ≠ received.length) :
    refusalOf (received ++ [incoming]) i = refusalOf received i := by
  unfold refusalOf
  by_cases hlt : i < received.length
  · rw [List.getElem?_append_left hlt]
  · rw [List.getElem?_eq_none (by simp; omega), List.getElem?_eq_none (by omega)]

/-- The step that answers a shutdown leaves the process down. -/
theorem down_of_answersShutdown (hs : Reachable profile s) {a : Action}
    (h : step profile s a = some t) (hanswers : AnswersShutdown s t) :
    Down t.received.length t := by
  obtain ⟨i, params, id, hi, hsent⟩ := hanswers
  obtain ⟨hheld, hevaluations⟩ := reachable_closing hs i params id hi
  obtain ⟨-, hcarried, -⟩ := reachable_invariants (hs.next h)
  have hnow : t.lifecycle = .shuttingDown ∧ t.router = .ready := by
    cases stepped_of_step h with
    | read event ready routed =>
      generalize s.receive profile event = t at routed hsent
      cases routed <;> simp at hsent
    | internal _ moved =>
      cases moved with
      | delivered serial message router =>
        have : serial = some i := by simpa [State.send] using congrArg (·.map Sent.serial) hsent
        exact ⟨hheld (by rw [router, this]; rfl), rfl⟩
      | called message nextId pending =>
        have := congrArg (·.map Sent.serial) hsent
        simp [State.send] at this
      | responded evaluation result mem finished =>
        have : evaluation.serial = i := by
          simpa [State.send] using congrArg (·.map Sent.serial) hsent
        exact absurd this (hevaluations evaluation mem)
      | _ => simp [State.cancelAll] at hsent
  refine ⟨hnow.1, Nat.le_refl _, ?_, .inl hnow.2, ?_, ?_, ?_⟩
  · intro e he
    exact lt_of_requestId (hcarried.evaluations e he)
  · intro i message refused hrouter
    rw [hnow.2] at hrouter
    cases hrouter
  · intro m hm i refused hserial hlate
    obtain ⟨id, hid, -⟩ := hcarried.sent m hm i hserial
    exact absurd (lt_of_requestId hid) (Nat.not_lt.mpr hlate)
  · intro i params hlate hi
    rw [List.getElem?_eq_none hlate] at hi
    cases hi

/-! ## Later frames -/

/-- What a frame does while the provider is shutting down, unless it unsettles it. -/
inductive Deflected (s : State) : State → Prop where
  | closed : Deflected s { s with router := .leaving none }
  | refused (message : Value) : Deflected s { s with router := .sending none message }
  | noted (incoming : Incoming) (active : BTreeMap Str Bool) (pending : BTreeSet Str)
      (notRequest : ∀ method params id, incoming ≠ .request method params id)
      (notExit : ∀ params, incoming ≠ .notification (ascii "exit") params) :
      Deflected s { s with received := s.received ++ [incoming], active, pending }
  | exited (params : Value) :
      Deflected s
        { s with
          received := s.received ++ [.notification (ascii "exit") params]
          router := .leaving (some true) }
  | answered (method : Str) (params id message : Value)
      (due : ∀ refused, refusal method id = some refused → message = refused) :
      Deflected s
        { s with
          received := s.received ++ [.request method params id]
          router := .sending (some s.received.length) message }

theorem deflected_request (hdown : s.lifecycle = .shuttingDown) (method : Str)
    (params id : Value) (valid : validId id) :
    Deflected s
      (State.routeRequest { s with received := s.received ++ [.request method params id] }
        profile method params id) := by
  have hserial : (s.received ++ [Incoming.request method params id]).length - 1
      = s.received.length := by simp
  unfold State.routeRequest
  split
  · next hmethod =>
    subst hmethod
    simp only [State.initializeRequest, State.answer, valid, not_true_eq_false, if_false, hserial,
      hdown, initializeState]
    have := @Deflected.answered s (ascii "initialize") params id
      (responseMessage id (.error (.input (ascii "initialize may be called exactly once"))))
      (fun refused h => absurd h (by rw [refusal, if_neg (by decide), if_neg (by decide)]; simp))
    simpa only [hdown] using this
  split
  · next hmethod =>
    subst hmethod
    simp only [State.evaluate, State.answer, valid, not_true_eq_false, if_false, hserial, hdown,
      activeSession]
    have := @Deflected.answered s (ascii "check/evaluate") params id
      (responseMessage id (.error (.unavailable (ascii "provider is shutting down"))))
      (fun refused h => by
        rw [refusal, if_neg (by decide), if_pos rfl] at h
        exact Option.some.inj h)
    simpa only [hdown] using this
  split
  · next hmethod =>
    subst hmethod
    simp only [State.shutdown, State.answer, valid, not_true_eq_false, if_false, hserial, hdown]
    have := @Deflected.answered s (ascii "shutdown") params id
      (responseMessage id (.error (.input (ascii "shutdown may be called exactly once"))))
      (fun refused h => by
        rw [refusal, if_pos rfl] at h
        exact Option.some.inj h)
    simpa only [hdown] using this
  · next hevaluate hshutdown =>
    simp only [State.answer, hserial]
    refine .answered method params id _ ?_
    intro refused h
    simp [refusal, hevaluate, hshutdown] at h

theorem deflected_receive (hdown : s.lifecycle = .shuttingDown) {event : ReadEvent}
    (horderly : event.unsettles = false) : Deflected s (s.receive profile event) := by
  cases event with
  | eof => exact .closed
  | unreadable error => exact .refused _
  | frame parsed =>
    cases hdecoded : decodeIncoming parsed with
    | error error =>
      simp only [State.receive, hdecoded]
      exact .refused _
    | ok incoming =>
      simp only [State.receive, hdecoded]
      cases incoming with
      | callback object =>
        simp only [State.route, State.routeCallbackResponse]
        split
        · exact .noted _ s.active _ (by simp) (by simp)
        · exact .noted _ s.active s.pending (by simp) (by simp)
      | request method params id =>
        exact deflected_request hdown method params id (decodeIncoming_validId hdecoded)
      | notification method params =>
        simp only [ReadEvent.unsettles, ReadEvent.incoming?, hdecoded, Except.toOption,
          Bool.or_eq_false_iff, decide_eq_false_iff_not] at horderly
        simp only [State.route, State.routeNotification, if_neg horderly.1, if_neg horderly.2]
        split
        · next hcancel =>
          have hexit : ∀ params', Incoming.notification method params
              ≠ .notification (ascii "exit") params' := by
            intro params' h
            rw [hcancel] at h
            exact absurd (Incoming.notification.inj h).1 (by decide)
          unfold State.cancelRequest
          split
          · dsimp only
            split
            · exact .noted _ _ s.pending (by simp) hexit
            · exact .noted _ s.active s.pending (by simp) hexit
          · exact .noted _ s.active s.pending (by simp) hexit
        split
        · next hexit =>
          subst hexit
          simp only [hdown, State.isShuttingDown]
          have := @Deflected.exited s params
          simpa only [hdown] using this
        · next hexit =>
          refine .noted _ s.active s.pending (by simp) ?_
          intro params' h
          exact hexit (Incoming.notification.inj h).1

variable {n : Nat}

omit [Build] in
/-- One more message, before the frame loop has dealt with it. -/
theorem Down.received (hs : Down n s) {incoming : Incoming} :
    (∀ m ∈ s.sent, ∀ i refused, m.serial = some i → n ≤ i → i ≠ s.received.length →
      refusalOf (s.received ++ [incoming]) i = some refused → m.message = refused)
    ∧ (s.router = .ready → ∀ i params, n ≤ i →
      (s.received ++ [incoming])[i]? = some (.notification (ascii "exit") params) →
        incoming = .notification (ascii "exit") params) := by
  constructor
  · intro m hm i refused hserial hlate hold hrefused
    rw [refusalOf_append _ _ hold] at hrefused
    exact hs.sent m hm i refused hserial hlate hrefused
  · intro hready i params hlate hi
    by_cases hlt : i < s.received.length
    · rw [List.getElem?_append_left hlt] at hi
      rcases hs.exit i params hlate hi with h | h
      · rw [hready] at h; cases h
      · rw [hready] at h; cases h
    · have hbound := (List.getElem?_eq_some_iff.mp hi).1
      simp only [List.length_append, List.length_singleton] at hbound
      have : i = s.received.length := by omega
      subst this
      rw [List.getElem?_append_right (Nat.le_refl _)] at hi
      simpa using hi

omit [Build] in
theorem Down.deflected (hs : Down n s) (hcarried : Carried s)
    (ready : s.router = .ready) (h : Deflected s t) : Down n t := by
  have hstale : ∀ m ∈ s.sent, ∀ i, m.serial = some i → i ≠ s.received.length := by
    intro m hm i hserial
    obtain ⟨id, hid, -⟩ := hcarried.sent m hm i hserial
    exact Nat.ne_of_lt (lt_of_requestId hid)
  have hquiet : ∀ i params, n ≤ i →
      s.received[i]? ≠ some (.notification (ascii "exit") params) := by
    intro i params hlate hi
    rcases hs.exit i params hlate hi with h | h
    · rw [ready] at h; cases h
    · rw [ready] at h; cases h
  have hsince : ∀ incoming : Incoming, n ≤ (s.received ++ [incoming]).length := by
    intro incoming
    have := hs.since
    simp only [List.length_append, List.length_singleton]
    omega
  cases h with
  | closed =>
    exact ⟨hs.lifecycle, hs.since, hs.evaluations, .inr (.inr ⟨none, .inl rfl⟩), by simp, hs.sent,
      fun i params hlate hi => absurd hi (hquiet i params hlate)⟩
  | refused message =>
    exact ⟨hs.lifecycle, hs.since, hs.evaluations, .inr (.inl ⟨none, message, rfl⟩), by simp,
      hs.sent, fun i params hlate hi => absurd hi (hquiet i params hlate)⟩
  | noted incoming active pending notRequest notExit =>
    refine ⟨hs.lifecycle, hsince incoming, hs.evaluations, .inl ready, by simp [ready], ?_, ?_⟩
    · intro m hm i refused hserial hlate
      exact hs.received.1 m hm i refused hserial hlate (hstale m hm i hserial)
    · intro i params hlate hi
      exact absurd (hs.received.2 ready i params hlate hi) (notExit params)
  | exited params =>
    refine ⟨hs.lifecycle, hsince _, hs.evaluations, .inr (.inr ⟨some true, .inl rfl⟩), by simp, ?_,
      fun _ _ _ _ => .inl rfl⟩
    intro m hm i refused hserial hlate
    exact hs.received.1 m hm i refused hserial hlate (hstale m hm i hserial)
  | answered method params id message due =>
    refine ⟨hs.lifecycle, hsince _, hs.evaluations, .inr (.inl ⟨_, message, rfl⟩), ?_, ?_, ?_⟩
    · intro i message' refused hrouter hlate hrefused
      cases hrouter
      simp only [refusalOf, List.getElem?_append_right (Nat.le_refl _), Nat.sub_self,
        List.getElem?_cons_zero, Option.bind_some] at hrefused
      exact due refused hrefused
    · intro m hm i refused hserial hlate
      exact hs.received.1 m hm i refused hserial hlate (hstale m hm i hserial)
    · intro i params' hlate hi
      cases hs.received.2 ready i params' hlate hi

omit [Build] in
theorem Down.moved (hs : Down n s) (moved : Moved s t) : Down n t := by
  have hshape : ∀ router : Router, s.router = router →
      (router = .ready ∨ (∃ serial message, router = .sending serial message)
        ∨ ∃ exit, router = .leaving exit ∨ router = .stopped exit) := by
    rintro _ rfl
    exact hs.router
  cases moved with
  | delivered serial message router =>
    have hquiet : ∀ i params, n ≤ i →
        s.received[i]? ≠ some (.notification (ascii "exit") params) := by
      intro i params hlate hi
      rcases hs.exit i params hlate hi with h | h
      · rw [router] at h; cases h
      · rw [router] at h; cases h
    refine ⟨hs.lifecycle, hs.since, hs.evaluations, .inl rfl, by simp, ?_,
      fun i params hlate hi => absurd hi (hquiet i params hlate)⟩
    intro m hm i refused hserial hlate hrefused
    rcases List.mem_append.mp hm with hm | hm
    · exact hs.sent m hm i refused hserial hlate hrefused
    · cases List.mem_singleton.mp hm
      cases hserial
      exact hs.sending i message refused router hlate hrefused
  | turnedAway serial params id session message router carries =>
    simpa using hshape _ router
  | admitted serial params id session router idle => simpa using hshape _ router
  | rebased result router => simpa using hshape _ router
  | cancelled serial id router => simpa using hshape _ router
  | waited serial id router => simpa using hshape _ router
  | left exit router =>
    refine ⟨hs.lifecycle, hs.since, hs.evaluations, .inr (.inr ⟨exit, .inr rfl⟩), by simp, hs.sent,
      ?_⟩
    intro i params hlate hi
    rcases hs.exit i params hlate hi with h | h
    · rw [router] at h
      cases h
      exact .inr rfl
    · rw [router] at h
      cases h
  | called message nextId pending =>
    refine ⟨hs.lifecycle, hs.since, hs.evaluations, hs.router, hs.sending, ?_, hs.exit⟩
    intro m hm i refused hserial
    rcases List.mem_append.mp hm with hm | hm
    · exact hs.sent m hm i refused hserial
    · cases List.mem_singleton.mp hm
      cases hserial
  | abandoned pending =>
    exact ⟨hs.lifecycle, hs.since, hs.evaluations, hs.router, hs.sending, hs.sent, hs.exit⟩
  | finished evaluation result mem running =>
    refine ⟨hs.lifecycle, hs.since, ?_, hs.router, hs.sending, hs.sent, hs.exit⟩
    intro e he
    obtain ⟨e', he', rfl⟩ := List.mem_map.mp he
    have := hs.evaluations e' he'
    split <;> exact this
  | responded evaluation result mem finished =>
    refine ⟨hs.lifecycle, hs.since, fun e he => hs.evaluations e (List.mem_filter.mp he).1,
      hs.router, hs.sending, ?_, hs.exit⟩
    intro m hm i refused hserial hlate
    rcases List.mem_append.mp hm with hm | hm
    · exact hs.sent m hm i refused hserial hlate
    · -- What is still evaluated was received before the shutdown was answered.
      cases List.mem_singleton.mp hm
      cases hserial
      exact absurd (hs.evaluations evaluation mem) (Nat.not_lt.mpr hlate)

/-- A read that is none of the notifications that unsettle the lifecycle. -/
def Action.orderly : Action → Bool
  | .receive event => !event.unsettles
  | _ => true

theorem run_down {as : List Action} (hs : Reachable profile s)
    (hdown : Down n s) (horderly : ∀ a ∈ as, a.orderly)
    (hrun : Transition.run (step profile) s as = some t) : Down n t := by
  refine (@Transition.run_preserves _ _ _ _ _ _ (fun s => Reachable profile s ∧ Down n s)
    (fun a => a.orderly) ?_ hrun horderly ⟨hs, hdown⟩).2
  rintro s a t ⟨hs, hdown⟩ horderly h
  refine ⟨hs.next h, ?_⟩
  cases stepped_of_step h with
  | read event ready routed =>
    have : event.unsettles = false := by simpa [Action.orderly] using horderly
    exact hdown.deflected (reachable_invariants hs).2.1 ready
      (deflected_receive hdown.lifecycle this)
  | internal _ moved => exact hdown.moved moved

/-! ## Shutdown is absorbing -/

/-- What is asked of a state after the answer to a shutdown, given that `n`
    messages had been received by then. -/
structure StaysDown (n : Nat) (t : State) : Prop where
  lifecycle : t.lifecycle = .shuttingDown
  /-- a further shutdown request is answered once, and with this error -/
  shutdown : ∀ i params id, n ≤ i →
    t.received[i]? = some (.request (ascii "shutdown") params id) →
    (t.answers i).length + t.inFlight i = 1 ∧ ∀ m ∈ t.answers i, m.message
      = responseMessage id (.error (.input (ascii "shutdown may be called exactly once")))
  /-- so is an evaluation request -/
  evaluate : ∀ i params id, n ≤ i →
    t.received[i]? = some (.request (ascii "check/evaluate") params id) →
    (t.answers i).length + t.inFlight i = 1 ∧ ∀ m ∈ t.answers i, m.message
      = responseMessage id (.error (.unavailable (ascii "provider is shutting down")))
  /-- the exit notification ends the process cleanly -/
  exit : ∀ i params, n ≤ i → t.received[i]? = some (.notification (ascii "exit") params) →
    t.router = .leaving (some true) ∨ t.router = .stopped (some true)

omit [Build] in
theorem Down.answers (hs : Down n s) (haccounted : Accounted s) {i : Nat}
    {method : Str} {params id refused : Value} (hlate : n ≤ i)
    (hi : s.received[i]? = some (.request method params id))
    (hrefused : refusal method id = some refused) :
    (s.answers i).length + s.inFlight i = 1 ∧ ∀ m ∈ s.answers i, m.message = refused := by
  constructor
  · rw [haccounted i]
    simp [requestId, hi, Incoming.id?]
  · intro m hm
    obtain ⟨hmem, hserial⟩ := List.mem_filter.mp hm
    refine hs.sent m hmem i refused (by simpa using hserial) hlate ?_
    simpa [refusalOf, hi] using hrefused

omit [Build] in
theorem Down.staysDown (hs : Down n s) (haccounted : Accounted s) :
    StaysDown n s where
  lifecycle := hs.lifecycle
  shutdown := fun _ _ _ hlate hi => hs.answers haccounted hlate hi (by simp [refusal])
  evaluate := fun _ _ _ hlate hi => hs.answers haccounted hlate hi (by
    rw [refusal, if_neg (by decide), if_pos rfl])
  exit := hs.exit

/-- In every run after an answered shutdown, as long as no `initialized` and no
    `workspace/baselineChanged` notification arrives, the process stays down. -/
theorem shutdown_absorbing {s t u : State} {a : Action} {as : List Action}
    (hs : Reachable profile s) (h : step profile s a = some t) (hanswers : AnswersShutdown s t)
    (hrun : Transition.run (step profile) t as = some u) (horderly : ∀ a ∈ as, a.orderly) :
    StaysDown t.received.length u := by
  have hdown := run_down (hs.next h) (down_of_answersShutdown hs h hanswers) horderly hrun
  exact hdown.staysDown (reachable_invariants ((hs.next h).trans hrun)).1

/-- A build for concrete runs. -/
abbrev bareBuild : Build := ⟨[], [], fun _ => []⟩

/-- The process about to answer a shutdown, its first request. -/
def shutdownPending : State :=
  { State.new with
    lifecycle := .shuttingDown
    router := .sending (some 0) (resultMessage (.number (.int 1)) .null)
    received := [.request (ascii "shutdown") (.object []) (.number (.int 1))] }

def shutdownAnswered : State :=
  { shutdownPending with
    router := .ready
    sent := [⟨some 0, resultMessage (.number (.int 1)) .null⟩] }

omit [Build] in
theorem reachable_shutdownPending :
    letI := bareBuild
    Reachable .fast shutdownPending := by
  refine ⟨[.receive (requestFrame 1 (ascii "shutdown") (.object [])), .proceed, .proceed], ?_⟩
  rfl

omit [Build] in
theorem answersShutdown_shutdownAnswered : AnswersShutdown shutdownPending shutdownAnswered :=
  ⟨0, .object [], .number (.int 1), rfl, rfl⟩

/-- A second shutdown, an evaluation and the exit. -/
def afterShutdown : List Action := [
  .receive (requestFrame 2 (ascii "shutdown") (.object [])), .proceed,
  .receive (requestFrame 3 (ascii "check/evaluate") (.object [])), .proceed,
  .receive (notificationFrame (ascii "exit") (.object []))]

omit [Build] in
theorem shutdown_absorbing_refusals :
    letI := bareBuild
    ∃ u, Transition.run (step .fast) shutdownAnswered afterShutdown = some u ∧ StaysDown 1 u := by
  have horderly : ∀ a ∈ afterShutdown, a.orderly := by decide +kernel
  obtain ⟨u, hrun⟩ : ∃ u, Transition.run (@step bareBuild .fast) shutdownAnswered afterShutdown
      = some u := ⟨_, rfl⟩
  exact ⟨u, hrun, @shutdown_absorbing bareBuild .fast shutdownPending shutdownAnswered u .proceed
    afterShutdown reachable_shutdownPending rfl answersShutdown_shutdownAnswered hrun horderly⟩

omit [Build] in
/-- A stray `initialized` after the answered shutdown: the lifecycle leaves
    `ShuttingDown`, an evaluation is told that the provider is not initialized,
    a second shutdown is answered with `null` again, and without it the exit
    would be unclean. -/
theorem initialized_after_shutdown :
    letI := bareBuild
    Reachable .fast shutdownPending
      ∧ step .fast shutdownPending .proceed = some shutdownAnswered
      ∧ AnswersShutdown shutdownPending shutdownAnswered
      ∧ (∃ u, Transition.run (step .fast) shutdownAnswered [
            .receive (notificationFrame (ascii "initialized") (.object [])),
            .receive (requestFrame 2 (ascii "check/evaluate") (.object [])), .proceed,
            .receive (notificationFrame (ascii "exit") (.object []))] = some u
          ∧ u.answers 2 = [⟨some 2, responseMessage (.number (.int 2))
              (.error .providerNotInitialized)⟩]
          ∧ u.router = .leaving (some false)
          ∧ ¬ StaysDown 1 u)
      ∧ ∃ u, Transition.run (step .fast) shutdownAnswered [
            .receive (notificationFrame (ascii "initialized") (.object [])),
            .receive (requestFrame 2 (ascii "shutdown") (.object [])), .proceed, .proceed,
            .proceed] = some u
          ∧ u.answers 2 = [⟨some 2, resultMessage (.number (.int 2)) .null⟩] := by
  refine ⟨reachable_shutdownPending, rfl, answersShutdown_shutdownAnswered,
    ⟨_, rfl, rfl, rfl, ?_⟩, ⟨_, rfl, rfl⟩⟩
  intro h
  have := h.lifecycle
  cases this

end Opcore.Server
