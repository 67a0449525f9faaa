/-
  Opcore.Protocol.Accounting

  Requests and their answers: every decoded request is answered exactly once,
  by the frame loop or by the evaluation it was handed over to, and the answer
  carries the id of the request.
-/
import Opcore.Protocol.Steps

namespace Opcore.Server

open Text
open Json (Value)
open Asp Collections

/-! ## Requests by number -/

def Incoming.id? : Incoming → Option Value
  | .request _ _ id => some id
  | _ => none

/-- The id of the request that was received as number `i`. -/
def requestId (received : List Incoming) (i : Nat) : Option Value := received[i]?.bind Incoming.id?

theorem requestId_append (received : List Incoming) (incoming : Incoming) (i : Nat) :
    requestId (received ++ [incoming]) i
      = if i = received.length then incoming.id? else requestId received i := by
  unfold requestId
  split_ifs with h
  · simp [h]
  · by_cases hlt : i < received.length
    · rw [List.getElem?_append_left hlt]
    · rw [List.getElem?_eq_none (by simp; omega), List.getElem?_eq_none (by omega)]

theorem requestId_length (received : List Incoming) : requestId received received.length = none := by
  simp [requestId]

theorem requestId_append_of_some {received : List Incoming} {i : Nat} {id : Value}
    (h : requestId received i = some id) (incoming : Incoming) :
    requestId (received ++ [incoming]) i = some id := by
  rw [requestId_append, if_neg, h]
  rintro rfl
  rw [requestId_length] at h
  cases h

/-! ## What is owed to a request -/

/-- The request the frame loop is about to answer or to hand over. -/
def Router.holds : Router → Option Nat
  | .sending serial _ => serial
  | .admitting serial _ _ _ => some serial
  | .cancelling serial _ => some serial
  | .waiting serial _ => some serial
  | _ => none

/-- The messages sent in answer to request `i`. -/
def State.answers (s : State) (i : Nat) : List Sent :=
  s.sent.filter fun m => m.serial = some i

/-- The places an answer to request `i` is still to come from. -/
def State.inFlight (s : State) (i : Nat) : Nat :=
  (if s.router.holds = some i then 1 else 0) + s.evaluations.countP fun e => e.serial = i

/-- Every request is answered once or will be, and nothing else is answered. -/
def Accounted (s : State) : Prop :=
  ∀ i, (s.answers i).length + s.inFlight i = if (requestId s.received i).isSome then 1 else 0

/-- The message carries the id of request `i`. -/
def Carries (received : List Incoming) (i : Nat) (message : Value) : Prop :=
  ∃ id, requestId received i = some id ∧ message.get? (ascii "id") = some id

/-- What is sent, about to be sent or still evaluated for a request carries its id. -/
structure Carried (s : State) : Prop where
  sent : ∀ m ∈ s.sent, ∀ i, m.serial = some i → Carries s.received i m.message
  sending : ∀ i message, s.router = .sending (some i) message → Carries s.received i message
  admitting : ∀ i params id session, s.router = .admitting i params id session →
    requestId s.received i = some id
  cancelling : ∀ i id, s.router = .cancelling i id → requestId s.received i = some id
  waiting : ∀ i id, s.router = .waiting i id → requestId s.received i = some id
  evaluations : ∀ e ∈ s.evaluations, requestId s.received e.serial = some e.id

theorem accounted_new : Accounted State.new := by
  intro i
  simp [State.new, State.answers, State.inFlight, Router.holds, requestId]

theorem carried_new : Carried State.new where
  sent := by intro m hm; cases hm
  sending := by intro _ _ h; cases h
  admitting := by intro _ _ _ _ h; cases h
  cancelling := by intro _ _ h; cases h
  waiting := by intro _ _ h; cases h
  evaluations := by intro e he; cases he

variable [Build] {profile : ProviderProfile}

/-! ## Accounting -/

variable {s t : State}

omit [Build] in
/-- A message that is no request changes nothing. -/
theorem Accounted.received (hs : Accounted s) {incoming : Incoming}
    (hid : incoming.id? = none) (hreceived : t.received = s.received ++ [incoming])
    (hsent : t.sent = s.sent) (hevaluations : t.evaluations = s.evaluations)
    (hrouter : t.router.holds = s.router.holds) : Accounted t := by
  intro i
  have := hs i
  simp only [State.answers, State.inFlight] at this ⊢
  rw [hsent, hevaluations, hrouter, hreceived, requestId_append]
  by_cases hi : i = s.received.length
  · subst hi
    rw [requestId_length] at this
    rw [if_pos rfl, hid]
    exact this
  · rw [if_neg hi]
    exact this

omit [Build] in
/-- A request is taken up by the frame loop. -/
theorem Accounted.requested (hs : Accounted s) {incoming : Incoming} {id : Value}
    (hid : incoming.id? = some id) (hreceived : t.received = s.received ++ [incoming])
    (hsent : t.sent = s.sent) (hevaluations : t.evaluations = s.evaluations)
    (hidle : s.router.holds = none) (hrouter : t.router.holds = some s.received.length) :
    Accounted t := by
  intro i
  have := hs i
  simp only [State.answers, State.inFlight, hidle] at this ⊢
  rw [hsent, hevaluations, hrouter, hreceived, requestId_append]
  by_cases hi : i = s.received.length
  · subst hi
    rw [requestId_length] at this
    simp only [reduceCtorEq, if_false, Option.isSome_none, Bool.false_eq_true] at this
    simp only [if_true, hid, Option.isSome_some]
    omega
  · have hne : some s.received.length ≠ some i := fun h => hi (Option.some.inj h).symm
    simp only [reduceCtorEq, if_false] at this
    rw [if_neg hne, if_neg hi]
    exact this

theorem Accounted.read (hs : Accounted s) (ready : s.router = .ready)
    (routed : Routed profile s t) : Accounted t := by
  have hidle : s.router.holds = none := by rw [ready]; rfl
  cases routed with
  | closed => exact fun i => by simpa [State.answers, State.inFlight, ready, Router.holds] using hs i
  | refused message =>
    exact fun i => by simpa [State.answers, State.inFlight, ready, Router.holds] using hs i
  | called object pending => exact hs.received rfl rfl rfl rfl rfl
  | ignored method params => exact hs.received rfl rfl rfl rfl rfl
  | established method params => exact hs.received rfl rfl rfl rfl rfl
  | rebasing method params result idle => exact hs.received rfl rfl rfl rfl hidle.symm
  | cancelled method params key live => exact hs.received rfl rfl rfl rfl rfl
  | leaving method params exit => exact hs.received rfl rfl rfl rfl hidle.symm
  | answered method params id message valid carries again =>
    exact hs.requested rfl rfl rfl rfl hidle rfl
  | initialized params id valid => exact hs.requested rfl rfl rfl rfl hidle rfl
  | admitting params id valid session active =>
    exact hs.requested rfl rfl rfl rfl hidle rfl
  | shutdown params id valid => exact hs.requested rfl rfl rfl rfl hidle rfl

omit [Build] in
/-- An evaluation is the only one that answers its request, and it has not yet. -/
theorem Accounted.evaluation {s : State} (hs : Accounted s) {evaluation : Evaluation}
    (mem : evaluation ∈ s.evaluations) :
    s.router.holds ≠ some evaluation.serial ∧ (s.answers evaluation.serial).length = 0
      ∧ s.evaluations.countP (fun e => e.serial = evaluation.serial) = 1 := by
  have hcount : 0 < s.evaluations.countP fun e => e.serial = evaluation.serial :=
    List.countP_pos_iff.mpr ⟨evaluation, mem, by simp⟩
  have := hs evaluation.serial
  simp only [State.inFlight] at this
  split_ifs at this with hheld hsome hsome
  · omega
  · omega
  · exact ⟨hheld, by omega, by omega⟩
  · omega

omit [Build] in
theorem Accounted.unique {s : State} (hs : Accounted s) {e e' : Evaluation}
    (he : e ∈ s.evaluations) (he' : e' ∈ s.evaluations) (hserial : e.serial = e'.serial) :
    e = e' := by
  have hcount := (hs.evaluation he').2.2
  rw [List.countP_eq_length_filter] at hcount
  obtain ⟨only, honly⟩ := List.length_eq_one_iff.mp hcount
  have hmem : e ∈ [only] := honly ▸ List.mem_filter.mpr ⟨he, by simp [hserial]⟩
  have hmem' : e' ∈ [only] := honly ▸ List.mem_filter.mpr ⟨he', by simp⟩
  rw [List.mem_singleton.mp hmem, List.mem_singleton.mp hmem']

omit [Build] in
theorem countP_filter_ne (evaluations : List Evaluation) (serial i : Nat) :
    (evaluations.filter fun e => e.serial ≠ serial).countP (fun e => e.serial = i)
      = if i = serial then 0 else evaluations.countP fun e => e.serial = i := by
  rw [List.countP_filter]
  split_ifs with hi
  · subst hi
    simp
  · congr 1
    funext e
    by_cases he : e.serial = i
    · simp [he, hi]
    · simp [he]

omit [Build] in
theorem Accounted.moved (hs : Accounted s) (moved : Moved s t) : Accounted t := by
  cases moved with
  | delivered serial message router =>
    intro i
    have := hs i
    simp only [State.answers, State.inFlight, State.send, router, Router.holds, List.filter_append,
      List.length_append, reduceCtorEq, if_false] at this ⊢
    by_cases hi : serial = some i
    · simp [hi] at this ⊢
      omega
    · simp [hi] at this ⊢
      omega
  | turnedAway serial params id session message router carries =>
    exact fun i => by simpa [State.answers, State.inFlight, router, Router.holds] using hs i
  | admitted serial params id session router idle =>
    intro i
    have := hs i
    simp only [State.answers, State.inFlight, router, Router.holds, List.countP_append,
      List.countP_singleton, Option.some.injEq, decide_eq_true_eq, reduceCtorEq, if_false] at this ⊢
    omega
  | rebased result router =>
    exact fun i => by simpa [State.answers, State.inFlight, router, Router.holds] using hs i
  | cancelled serial id router =>
    exact fun i => by
      simpa [State.answers, State.inFlight, State.cancelAll, router, Router.holds] using hs i
  | waited serial id router =>
    exact fun i => by simpa [State.answers, State.inFlight, router, Router.holds] using hs i
  | left exit router =>
    exact fun i => by
      simpa [State.answers, State.inFlight, State.cancelAll, router, Router.holds] using hs i
  | called message nextId pending =>
    intro i
    have hfilter : (s.sent ++ [Sent.mk none message]).filter (fun m => m.serial = some i)
        = s.sent.filter fun m => m.serial = some i := by simp [List.filter_append]
    simp only [State.answers, State.inFlight, State.send, hfilter]
    exact hs i
  | abandoned pending => exact hs
  | finished evaluation result mem running =>
    intro i
    have hserial : (fun e : Evaluation => decide (e.serial = i))
        ∘ (fun e => if e.serial = evaluation.serial then { e with result := some result } else e)
        = fun e => decide (e.serial = i) := by
      funext e
      simp only [Function.comp_apply]
      split <;> rfl
    have := hs i
    simp only [State.answers, State.inFlight, List.countP_map, hserial] at this ⊢
    exact this
  | responded evaluation result mem finished =>
    intro i
    obtain ⟨hheld, hanswers, hcount⟩ := hs.evaluation mem
    have := hs i
    simp only [State.answers, State.inFlight, State.send, List.filter_append, List.length_append,
      countP_filter_ne] at this hanswers ⊢
    by_cases hi : i = evaluation.serial
    · -- The one evaluation of this request turns into its answer.
      subst hi
      simp only [hcount, hanswers, hheld, if_false, Nat.zero_add] at this
      simp only [hanswers, hheld, if_true, if_false, Nat.zero_add, Nat.add_zero]
      refine Eq.trans ?_ this
      simp
    · have hne : evaluation.serial ≠ i := fun h => hi h.symm
      simp [hi, hne] at this ⊢
      exact this

theorem accounted_step (hs : Accounted s) {a : Action}
    (h : step profile s a = some t) : Accounted t := by
  cases stepped_of_step h with
  | read event ready routed => exact hs.read ready routed
  | internal _ moved => exact hs.moved moved

/-! ## Carried ids -/

omit [Build] in
theorem Carries.append {received : List Incoming} {i : Nat} {message : Value}
    (h : Carries received i message) (incoming : Incoming) :
    Carries (received ++ [incoming]) i message := by
  obtain ⟨id, hid, hmessage⟩ := h
  exact ⟨id, requestId_append_of_some hid incoming, hmessage⟩

theorem Carried.read (hs : Carried s) (ready : s.router = .ready)
    (routed : Routed profile s t) : Carried t := by
  have hsent : ∀ incoming, ∀ m ∈ s.sent, ∀ i, m.serial = some i →
      Carries (s.received ++ [incoming]) i m.message :=
    fun incoming m hm i hi => (hs.sent m hm i hi).append incoming
  have hevaluations : ∀ incoming, ∀ e ∈ s.evaluations,
      requestId (s.received ++ [incoming]) e.serial = some e.id :=
    fun incoming e he => requestId_append_of_some (hs.evaluations e he) incoming
  have hnew : ∀ method params id,
      requestId (s.received ++ [Incoming.request method params id]) s.received.length = some id := by
    intro method params id
    rw [requestId_append, if_pos rfl]
    rfl
  cases routed with
  | closed => exact ⟨hs.sent, by simp, by simp, by simp, by simp, hs.evaluations⟩
  | refused message => exact ⟨hs.sent, by simp, by simp, by simp, by simp, hs.evaluations⟩
  | called object pending =>
    exact ⟨hsent _, by simp [ready], by simp [ready], by simp [ready], by simp [ready],
      hevaluations _⟩
  | ignored method params =>
    exact ⟨hsent _, by simp [ready], by simp [ready], by simp [ready], by simp [ready],
      hevaluations _⟩
  | established method params =>
    exact ⟨hsent _, by simp [ready], by simp [ready], by simp [ready], by simp [ready],
      hevaluations _⟩
  | rebasing method params result idle =>
    exact ⟨hsent _, by simp, by simp, by simp, by simp, hevaluations _⟩
  | cancelled method params key live =>
    exact ⟨hsent _, by simp [ready], by simp [ready], by simp [ready], by simp [ready],
      hevaluations _⟩
  | leaving method params exit =>
    exact ⟨hsent _, by simp, by simp, by simp, by simp, hevaluations _⟩
  | answered method params id message valid carries again =>
    refine ⟨hsent _, ?_, by simp, by simp, by simp, hevaluations _⟩
    intro i message' h
    cases h
    exact ⟨id, hnew method params id, carries⟩
  | initialized params id valid =>
    refine ⟨hsent _, ?_, by simp, by simp, by simp, hevaluations _⟩
    intro i message' h
    cases h
    exact ⟨id, hnew _ params id, by simp⟩
  | admitting params id valid session active =>
    refine ⟨hsent _, by simp, ?_, by simp, by simp, hevaluations _⟩
    intro i params' id' session' h
    cases h
    exact hnew _ params id
  | shutdown params id valid =>
    refine ⟨hsent _, by simp, by simp, ?_, by simp, hevaluations _⟩
    intro i id' h
    cases h
    exact hnew _ params id

omit [Build] in
theorem Carried.moved (hs : Carried s) (moved : Moved s t) : Carried t := by
  -- A step carries an answer only where it has a request at hand.
  cases moved with
  | delivered serial message router =>
    refine ⟨?_, by simp, by simp, by simp, by simp, hs.evaluations⟩
    intro m hm i hi
    rcases List.mem_append.mp hm with hm | hm
    · exact hs.sent m hm i hi
    · cases List.mem_singleton.mp hm
      cases hi
      exact hs.sending i message router
  | turnedAway serial params id session message router carries =>
    refine ⟨hs.sent, ?_, by simp, by simp, by simp, hs.evaluations⟩
    intro i message' h
    cases h
    exact ⟨id, hs.admitting _ _ _ _ router, carries⟩
  | admitted serial params id session router idle =>
    refine ⟨hs.sent, by simp, by simp, by simp, by simp, ?_⟩
    intro e he
    rcases List.mem_append.mp he with he | he
    · exact hs.evaluations e he
    · cases List.mem_singleton.mp he
      exact hs.admitting _ _ _ _ router
  | rebased result router =>
    exact ⟨hs.sent, by simp, by simp, by simp, by simp, hs.evaluations⟩
  | cancelled serial id router =>
    refine ⟨hs.sent, by simp, by simp, by simp, ?_, hs.evaluations⟩
    intro i id' h
    cases h
    exact hs.cancelling _ _ router
  | waited serial id router =>
    refine ⟨hs.sent, ?_, by simp, by simp, by simp, hs.evaluations⟩
    intro i message h
    cases h
    exact ⟨id, hs.waiting _ _ router, by simp⟩
  | left exit router =>
    exact ⟨hs.sent, by simp, by simp, by simp, by simp, hs.evaluations⟩
  | called message nextId pending =>
    refine ⟨?_, hs.sending, hs.admitting, hs.cancelling, hs.waiting, hs.evaluations⟩
    intro m hm i hi
    rcases List.mem_append.mp hm with hm | hm
    · exact hs.sent m hm i hi
    · cases List.mem_singleton.mp hm
      cases hi
  | abandoned pending =>
    exact ⟨hs.sent, hs.sending, hs.admitting, hs.cancelling, hs.waiting, hs.evaluations⟩
  | finished evaluation result mem running =>
    refine ⟨hs.sent, hs.sending, hs.admitting, hs.cancelling, hs.waiting, ?_⟩
    intro e he
    obtain ⟨e', he', rfl⟩ := List.mem_map.mp he
    split <;> exact hs.evaluations e' he'
  | responded evaluation result mem finished =>
    refine ⟨?_, hs.sending, hs.admitting, hs.cancelling, hs.waiting, ?_⟩
    · intro m hm i hi
      rcases List.mem_append.mp hm with hm | hm
      · exact hs.sent m hm i hi
      · cases List.mem_singleton.mp hm
        cases hi
        exact ⟨evaluation.id, hs.evaluations evaluation mem, by simp⟩
    · intro e he
      exact hs.evaluations e (List.mem_filter.mp he).1

theorem carried_step (hs : Carried s) {a : Action} (h : step profile s a = some t) : Carried t := by
  cases stepped_of_step h with
  | read event ready routed => exact hs.read ready routed
  | internal _ moved => exact hs.moved moved

end Opcore.Server
