/-
  Opcore.Protocol.Exchange

  Each step of either side keeps the wire in order.  The invariant says how far
  both sides have come in the script; where a side stands determines which
  messages it can still read, so neither meets one it does not expect.
-/
import Opcore.Protocol.Script

namespace Opcore.Conversation

open Text Collections Json Asp Validation
open Server (Incoming Lifecycle Router decodeIncoming responseMessage resultMessage
  errorMessage callbackMessage)

/-! ## Where the host stands -/

/-- The numbers of messages written and read at which a host is in a phase, where
    the provider has made so many calls. -/
def Phase.Counts (calls written seen : Nat) : Phase → Prop
  | .greeting => written = 0 ∧ seen = 0
  | .initializing => written = 1 ∧ seen = 0
  | .granting => written = 1 ∧ seen = 1
  | .requesting => written = 2 ∧ seen = 1
  | .evaluating _ => 3 ≤ written ∧ written ≤ 3 + calls ∧ seen + 2 = written
  | .answering _ _ => 3 ≤ written ∧ written < 3 + calls ∧ seen + 1 = written
  | .leaving _ => written = 3 + calls ∧ seen = 2 + calls
  | .closing _ => written = 4 + calls ∧ seen = 2 + calls
  | .exiting _ => written = 4 + calls ∧ seen = 3 + calls
  | .reaping _ | .returned (.ok _) => written = 5 + calls ∧ seen = 3 + calls
  | .returned (.error _) => True

section

variable [Opcore.Base64] [Build] [Sha256] (request : HostRequest) (profile : ProviderProfile)
  (wallclockMs : Nat)

/-- The assessment is the provider's, checked against the blobs the host handed out. -/
def Accepted (calls : List Callback) (stand : Stand) (assessment : Value) : Prop :=
  ∃ result readBlobs, stand.result? = some (.ok result)
    ∧ recorded request calls = .ok readBlobs
    ∧ validateAssessment result request profile readBlobs = .ok assessment

/-- What a host knows in a phase. -/
def Phase.Holds (calls : List Callback) (stand : Stand) (written : Nat) : Phase → Prop
  | .evaluating readBlobs => recorded request (calls.take (written - 3)) = .ok readBlobs
  | .answering message next => ∃ call readBlobs,
      calls[written - 3]? = some call
      ∧ recorded request (calls.take (written - 3)) = .ok readBlobs
      ∧ message = answerTo request (written - 3) call
      ∧ next = recordAnswer request.workspace readBlobs (callId (written - 3 + 1)) call
  | .leaving assessment | .closing assessment | .exiting assessment | .reaping assessment
  | .returned (.ok assessment) => Accepted request profile calls stand assessment
  | _ => True

/-- Why a host may return an error. -/
inductive Excused (sent : List Server.Sent) : Failure → Prop where
  | overdue (phase : Phase) (text : Str) (due : phase.overdue? = some text) :
      Excused sent (phase.failure text)
  | unsent (phase : Phase) (message : Value) (next : Phase)
      (outgoing : phase.outgoing request wallclockMs = some (message, next))
      (oversized : maxFrameBytes < message.serialize.length) :
      Excused sent [ascii "ASP host frame exceeds 8388608 bytes"]
  | refused (id : Str) (asked : id = initializeId ∨ id = evaluateId) (answer : Server.Sent)
      (mem : answer ∈ sent) (error : Value)
      (read : onWire answer.message = errorMessage (.string id) error) :
      Excused sent [rpcError error]
  | rejected (serial : Option Nat) (result : Value)
      (mem : ⟨serial, resultMessage (.string evaluateId) result⟩ ∈ sent) (readBlobs : BTreeSet Str)
      (text : Str) (check : validateAssessment result request profile readBlobs = .error text) :
      Excused sent [text]

/-- The conversation is in order. -/
structure Orderly (c : State) (stand : Stand) (calls : List Callback) : Prop where
  provider : c.provider
    = stand.state request profile wallclockMs calls c.provider.received c.provider.pending
  read : c.provider.received.length = c.delivered
  decoded : (c.written.take c.delivered).map (fun message => decodeIncoming (.ok message))
    = c.provider.received.map .ok
  reads : stand.Reads calls.length c.delivered
  written : c.written = (script request wallclockMs calls).take c.written.length
  delivered : c.delivered ≤ c.written.length
  seen : c.seen ≤ (stand.sent request profile calls).length
  counts : c.phase.Counts calls.length c.written.length c.seen
  left : 3 + calls.length < c.written.length → calls.length + 2 ≤ c.seen
  holds : c.phase.Holds request profile calls stand c.written.length
  exited : ∀ assessment, c.phase = .returned (.ok assessment) → ∃ result, stand = .stopped result
  excused : ∀ failure, c.phase = .returned (.error failure) →
    Excused request profile wallclockMs c.provider.sent failure

/-- No message on the wire is as long as the bound of a frame, once the provider's
    writer has replaced an answer that is longer. -/
structure Fits (c : State) : Prop where
  written : ∀ message ∈ c.written, message.serialize.length < maxFrameBytes
  sent : ∀ sent ∈ c.provider.sent, (onWire sent.message).serialize.length < maxFrameBytes
  asked : ∀ sent ∈ c.provider.sent, sent.serial = none → onWire sent.message = sent.message

variable {request : HostRequest} {profile : ProviderProfile} {wallclockMs : Nat}
  {c : State} {stand stand' : Stand} {calls calls' : List Callback}

theorem orderly_start : Orderly request profile wallclockMs .start .unread [] where
  provider := rfl
  read := rfl
  decoded := rfl
  reads := ⟨rfl, rfl⟩
  written := rfl
  delivered := Nat.le_refl _
  seen := Nat.le_refl _
  counts := ⟨rfl, rfl⟩
  left := fun h => absurd h (Nat.not_lt_zero _)
  holds := trivial
  exited := by
    rintro assessment ⟨⟩
  excused := by
    rintro failure ⟨⟩

theorem Orderly.sent_eq (h : Orderly request profile wallclockMs c stand calls) :
    c.provider.sent = stand.sent request profile calls := congrArg Server.State.sent h.provider

/-! ## The provider moves -/

/-- A host with an assessment has it from a provider that has its result. -/
theorem Accepted.result?_ne_none {assessment : Value}
    (h : Accepted request profile calls stand assessment) : stand.result? ≠ none := by
  obtain ⟨result, readBlobs, hsome, -⟩ := h
  rw [hsome]
  exact Option.some_ne_none _

/-- A host that has not taken its leave has written nothing after its answers. -/
theorem Orderly.written_le (h : Orderly request profile wallclockMs c stand calls)
    (hrunning : ∀ result, c.phase ≠ .returned result) (hresult : stand.result? = none) :
    c.written.length ≤ 3 + calls.length := by
  have hcounts := h.counts
  have hholds := h.holds
  cases hphase : c.phase with
  | returned result => exact absurd hphase (hrunning result)
  | greeting => rw [hphase] at hcounts; exact hcounts.1 ▸ Nat.zero_le _
  | initializing => rw [hphase] at hcounts; have := hcounts.1; omega
  | granting => rw [hphase] at hcounts; have := hcounts.1; omega
  | requesting => rw [hphase] at hcounts; have := hcounts.1; omega
  | evaluating readBlobs => rw [hphase] at hcounts; exact hcounts.2.1
  | answering message next => rw [hphase] at hcounts; exact hcounts.2.1.le
  | _ =>
    -- a host that takes its leave holds an assessment, so the provider has its result
    rw [hphase] at hholds
    exact absurd hresult (Accepted.result?_ne_none hholds)

variable {phase : Phase}

/-- What the host knows stays true when the provider makes more calls. -/
theorem Phase.Holds.append {written : Nat} (more : List Callback)
    (h : phase.Holds request profile calls stand written) (hle : written ≤ 3 + calls.length)
    (hresult : stand.result? = none) :
    phase.Holds request profile (calls ++ more) stand' written := by
  have htake : (calls ++ more).take (written - 3) = calls.take (written - 3) :=
    List.take_append_of_le_length (by omega)
  cases phase with
  | evaluating readBlobs =>
    rw [Holds, htake]
    exact h
  | answering message next =>
    obtain ⟨call, readBlobs, hcall, hrecorded, hmessage, hnext⟩ := h
    refine ⟨call, readBlobs, ?_, by rw [htake]; exact hrecorded, hmessage, hnext⟩
    rw [List.getElem?_append_left (List.getElem?_eq_some_iff.mp hcall).1]
    exact hcall
  | greeting => trivial
  | initializing => trivial
  | granting => trivial
  | requesting => trivial
  | returned result =>
    cases result with
    | ok assessment => exact absurd hresult h.result?_ne_none
    | error failure => trivial
  | _ => exact absurd hresult h.result?_ne_none

theorem Phase.Counts.append {written seen : Nat} (more : List Callback)
    (h : phase.Counts calls.length written seen) (hle : written ≤ 3 + calls.length)
    (hheld : phase.Holds request profile calls stand written) (hresult : stand.result? = none) :
    phase.Counts (calls ++ more).length written seen := by
  cases phase with
  | evaluating readBlobs =>
    obtain ⟨hlow, hhigh, hseen⟩ := h
    exact ⟨hlow, by rw [List.length_append]; omega, hseen⟩
  | answering message next =>
    obtain ⟨hlow, hhigh, hseen⟩ := h
    exact ⟨hlow, by rw [List.length_append]; omega, hseen⟩
  | greeting => exact h
  | initializing => exact h
  | granting => exact h
  | requesting => exact h
  | returned result =>
    cases result with
    | ok assessment => exact absurd hresult hheld.result?_ne_none
    | error failure => trivial
  | _ => exact absurd hresult hheld.result?_ne_none

omit [Opcore.Base64] [Build] [Sha256] in
/-- A host takes its leave once the provider has answered everything. -/
theorem Phase.Counts.left {n written seen : Nat}
    (h : phase.Counts n written seen) (hrunning : ∀ result, phase ≠ .returned result)
    (hlt : 3 + n < written) : n + 2 ≤ seen := by
  cases phase with
  | greeting => have := h.1; omega
  | initializing => have := h.1; omega
  | granting => have := h.1; omega
  | requesting => have := h.1; omega
  | evaluating readBlobs => have := h.2.1; omega
  | answering message next => have := h.2.1; omega
  | leaving assessment => have := h.2; omega
  | closing assessment => have := h.2; omega
  | exiting assessment => have := h.2; omega
  | reaping assessment => have := h.2; omega
  | returned result => exact absurd rfl (hrunning result)

theorem Phase.Holds.result {written : Nat} (h : phase.Holds request profile calls stand written)
    (hresult : stand'.result? = stand.result?) :
    phase.Holds request profile calls stand' written := by
  have hlast {assessment : Value} (h : Accepted request profile calls stand assessment) :
      Accepted request profile calls stand' assessment := by
    obtain ⟨result, readBlobs, hsome, hrest⟩ := h
    exact ⟨result, readBlobs, hresult.trans hsome, hrest⟩
  cases phase with
  | leaving assessment => exact hlast h
  | closing assessment => exact hlast h
  | exiting assessment => exact hlast h
  | reaping assessment => exact hlast h
  | returned result =>
    cases result with
    | ok assessment => exact hlast h
    | error failure => trivial
  | _ => exact h

section

variable (h : Orderly request profile wallclockMs c stand calls)

include h

/-- The provider moves by itself. -/
theorem Orderly.advance {action : Server.Action} {t : Server.State}
    (hrunning : ∀ result, c.phase ≠ .returned result) (hinternal : action.internal = true)
    (hstep : Server.step profile c.provider action = some t) :
    ∃ stand' calls', Orderly request profile wallclockMs { c with provider := t } stand' calls'
      ∧ Advances calls stand action calls' stand' := by
  rw [h.provider] at hstep
  obtain ⟨calls', stand', pending', rfl, hadvance⟩ := step_advances h.reads hinternal hstep
  refine ⟨stand', calls', ?_, hadvance⟩
  have hreads := hadvance.reads h.reads
  have hseen := h.seen.trans (hadvance.sent h.reads).length_le
  -- with its result the provider makes no more calls; before it has one, the host has written
  -- nothing behind its answers, and the script can still grow
  cases hresult : stand.result? with
  | some result =>
    obtain ⟨hresult', rfl⟩ := hadvance.result hresult
    exact { h with
      provider := rfl
      reads := hreads
      seen := hseen
      holds := h.holds.result (hresult'.trans hresult.symm)
      exited := fun assessment hphase => absurd hphase (hrunning _)
      excused := fun failure hphase => absurd hphase (hrunning _) }
  | none =>
    have hle := h.written_le hrunning hresult
    obtain ⟨more, rfl⟩ := hadvance.calls_prefix
    exact { h with
      provider := rfl
      reads := hreads
      written := h.written.trans (take_script_append hle more).symm
      seen := hseen
      counts := h.counts.append more hle h.holds hresult
      left := fun hlt => by
        rw [List.length_append] at hlt
        dsimp only at hlt
        omega
      holds := h.holds.append more hle hresult
      exited := fun assessment hphase => absurd hphase (hrunning _)
      excused := fun failure hphase => absurd hphase (hrunning _) }

/-! ## The provider reads -/

/-- What the host has written is the script's. -/
theorem Orderly.message_eq {message : Value} (hmessage : c.written[c.delivered]? = some message) :
    (script request wallclockMs calls)[c.delivered]? = some message
      ∧ c.delivered < c.written.length := by
  have hlt := (List.getElem?_eq_some_iff.mp hmessage).1
  refine ⟨?_, hlt⟩
  rw [h.written, List.getElem?_take_of_lt hlt] at hmessage
  exact hmessage

/-- A message after the answers is written by a host that has the provider's answer. -/
theorem Orderly.exists_result
    (hrunning : ∀ result, c.phase ≠ .returned result) (hlt : 3 + calls.length < c.written.length) :
    ∃ result, stand.result? = some result := by
  cases hresult : stand.result? with
  | some result => exact ⟨result, rfl⟩
  | none =>
    have := h.written_le hrunning hresult
    omega

end

/-- What one more message of the script makes of a provider that reads it. -/
structure Heard (request : HostRequest) (profile : ProviderProfile) (wallclockMs : Nat)
    (calls : List Callback) (stand : Stand) (received : List Incoming) (pending : BTreeSet Str)
    (message : Value) (stand' : Stand) : Prop where
  routed : ∃ incoming pending', decodeIncoming (.ok message) = .ok incoming
    ∧ Server.State.route
        { stand.state request profile wallclockMs calls received pending with
          received := received ++ [incoming] } profile incoming
      = stand'.state request profile wallclockMs calls (received ++ [incoming]) pending'
  reads : stand'.Reads calls.length (received.length + 1)
  sent : stand'.sent request profile calls = stand.sent request profile calls
  result : stand'.result? = stand.result?
  rank : stand.rank ≤ stand'.rank

omit [Sha256] in
theorem heard_answer {received : List Incoming} {pending : BTreeSet Str} {i : Nat}
    (hlength : received.length = 3 + i) (hi : i < calls.length)
    (hstand : ∀ delivered, 3 ≤ delivered → delivered ≤ 3 + calls.length →
      stand.Reads calls.length delivered) :
    Heard request profile wallclockMs calls stand received pending
      (answerTo request i calls[i]) stand where
  routed := by
    obtain ⟨object, hobject⟩ := decode_answer request.workspace (callId (i + 1)) calls[i]
    obtain ⟨pending', hroute⟩ := @route_answer _ request profile wallclockMs calls received pending
      stand (received ++ [.callback object]) object
    exact ⟨.callback object, pending', hobject, hroute⟩
  reads := hstand _ (by omega) (by omega)
  sent := rfl
  result := rfl
  rank := Nat.le_refl _

section

variable (h : Orderly request profile wallclockMs c stand calls)

include h

variable {message : Value}

/-- Where the provider is ready to read, the next message of the host is one it expects. -/
theorem Orderly.heard (hparams : Server.isContainer request.evaluationParams = true)
    (hrunning : ∀ result, c.phase ≠ .returned result) (hready : c.provider.router = .ready)
    (hmessage : c.written[c.delivered]? = some message) :
    ∃ stand', Heard request profile wallclockMs calls stand c.provider.received
      c.provider.pending message stand' := by
  obtain ⟨hscript, hlt⟩ := h.message_eq hmessage
  have hread := h.read
  have hreads := h.reads
  rw [h.provider] at hready
  -- behind the request to evaluate comes an answer, or the request to shut down
  have hanswers (hlow : 3 ≤ c.delivered) (hhigh : c.delivered ≤ 3 + calls.length) :
      (∃ i, ∃ hi : i < calls.length, c.delivered = 3 + i ∧ message = answerTo request i calls[i])
        ∨ c.delivered = 3 + calls.length ∧ message = shutdownMessage
          ∧ ∃ result, stand.result? = some result := by
    obtain ⟨i, hi⟩ := Nat.exists_eq_add_of_le hlow
    rcases Nat.lt_or_ge i calls.length with hlt' | hge
    · rw [hi, script_answer hlt'] at hscript
      exact .inl ⟨i, hlt', hi, (Option.some.inj hscript).symm⟩
    · have heq : i = calls.length := by omega
      rw [hi, heq, script_shutdown] at hscript
      refine .inr ⟨by omega, (Option.some.inj hscript).symm, h.exists_result hrunning (by omega)⟩
  -- where the provider stands says how much of the script it has read
  cases stand with
  | unread =>
    obtain ⟨hcalls, hzero⟩ := hreads
    rw [hzero] at hscript hread
    have hnil : c.provider.received = [] := List.length_eq_zero_iff.mp hread
    rw [script_initializing] at hscript
    obtain rfl := Option.some.inj hscript
    rw [hnil]
    exact ⟨.greeting, ⟨_, _, decode_requestMessage _ _ rfl, route_initialize⟩, ⟨hcalls, rfl⟩, rfl,
      rfl,
      by decide⟩
  | greeted =>
    obtain ⟨hcalls, hone⟩ := hreads
    rw [hone] at hscript hread
    rw [script_initialized] at hscript
    obtain rfl := Option.some.inj hscript
    exact ⟨.granted, ⟨_, _, rfl, route_initialized _⟩, ⟨hcalls, by rw [hread]⟩, rfl, rfl, by decide⟩
  | granted =>
    obtain ⟨hcalls, htwo⟩ := hreads
    rw [htwo] at hscript hread
    rw [script_evaluate] at hscript
    obtain rfl := Option.some.inj hscript
    obtain ⟨stand', hroute, hstand'⟩ := @route_evaluate _ request profile wallclockMs calls
      c.provider.received c.provider.pending (c.provider.received ++ [_])
      (by rw [List.length_append, hread]; rfl)
    refine ⟨stand', ⟨_, _, decode_requestMessage _ _ hparams, hroute⟩, ?_, ?_, ?_, ?_⟩
    · rcases hstand' with ⟨session, rfl⟩ | ⟨error, rfl⟩ <;> exact ⟨hcalls, by rw [hread]⟩
    · rcases hstand' with ⟨session, rfl⟩ | ⟨error, rfl⟩ <;> rfl
    · rcases hstand' with ⟨session, rfl⟩ | ⟨error, rfl⟩ <;> rfl
    · rcases hstand' with ⟨session, rfl⟩ | ⟨error, rfl⟩ <;> simp [Stand.rank]
  | running session =>
    rcases hanswers hreads.1 hreads.2 with ⟨i, hi, hdelivered, rfl⟩ | ⟨-, -, result, hresult⟩
    · exact ⟨.running session, heard_answer (by omega) hi fun _ hlow hhigh => ⟨hlow, hhigh⟩⟩
    · cases hresult
  | finished session result =>
    rcases hanswers hreads.1 hreads.2 with ⟨i, hi, hdelivered, rfl⟩ | ⟨-, -, result', hresult⟩
    · exact ⟨.finished session result, heard_answer (by omega) hi fun _ hlow hhigh => ⟨hlow, hhigh⟩⟩
    · cases hresult
  | responded result =>
    rcases hanswers hreads.1 hreads.2 with ⟨i, hi, hdelivered, rfl⟩ | ⟨hdelivered, rfl, -⟩
    · exact ⟨.responded result, heard_answer (by omega) hi fun _ hlow hhigh => ⟨hlow, hhigh⟩⟩
    · refine ⟨.cancelling result, ⟨_, _, decode_requestMessage _ _ rfl, route_shutdown ?_⟩, ?_, rfl,
        rfl, ?_⟩
      · rw [List.length_append, List.length_singleton]
        omega
      · show _ = _
        omega
      · simp [Stand.rank]
  | closed result =>
    have hfour : c.delivered = 4 + calls.length := hreads
    rw [hfour, script_exit] at hscript
    obtain rfl := Option.some.inj hscript
    refine ⟨.leaving result, ⟨_, _, rfl, route_exit _⟩, ?_, rfl, rfl, ?_⟩
    · show _ = _
      omega
    · simp [Stand.rank]
  | _ => cases hready

/-- The step in which the provider reads the next message of the host. -/
theorem Orderly.receive_step
    (hparams : Server.isContainer request.evaluationParams = true) (hfits : Fits c)
    (hrunning : ∀ result, c.phase ≠ .returned result) (hready : c.provider.router = .ready)
    (hmessage : c.written[c.delivered]? = some message) :
    ∃ stand' incoming pending', decodeIncoming (.ok message) = .ok incoming
      ∧ Server.step profile c.provider (.receive (providerReads message))
        = some (stand'.state request profile wallclockMs calls
          (c.provider.received ++ [incoming]) pending')
      ∧ Heard request profile wallclockMs calls stand c.provider.received c.provider.pending
        message stand' := by
  obtain ⟨stand', hheard⟩ := h.heard hparams hrunning hready hmessage
  obtain ⟨incoming, pending', hdecode, hroute⟩ := hheard.routed
  refine ⟨stand', incoming, pending', hdecode, ?_, hheard⟩
  rw [providerReads_of_lt (hfits.written _ (List.mem_of_getElem? hmessage)),
    step_receive hready hdecode, ← hroute]
  exact congrArg (fun s : Server.State => some (Server.State.route
    { s with received := c.provider.received ++ [incoming] } profile incoming)) h.provider

/-- The provider reads the next message of the host. -/
theorem Orderly.deliver
    (hparams : Server.isContainer request.evaluationParams = true) (hfits : Fits c)
    (hrunning : ∀ result, c.phase ≠ .returned result)
    (hmessage : c.written[c.delivered]? = some message) {t : Server.State}
    (hstep : Server.step profile c.provider (.receive (providerReads message)) = some t) :
    ∃ stand', Orderly request profile wallclockMs
      { c with provider := t, delivered := c.delivered + 1 } stand' calls
      ∧ stand.rank ≤ stand'.rank := by
  obtain ⟨hscript, hlt⟩ := h.message_eq hmessage
  obtain ⟨stand', incoming, pending', hdecode, hreceive, hheard⟩ :=
    h.receive_step hparams hfits hrunning (router_of_receive hstep) hmessage
  obtain rfl := Option.some.inj (hstep.symm.trans hreceive)
  refine ⟨stand', { h with
    provider := rfl
    read := ?_
    decoded := ?_
    reads := ?_
    delivered := hlt
    seen := hheard.sent ▸ h.seen
    holds := h.holds.result hheard.result
    exited := fun assessment hphase => absurd hphase (hrunning _)
    excused := fun failure hphase => absurd hphase (hrunning _) }, hheard.rank⟩
  · show (c.provider.received ++ [incoming]).length = c.delivered + 1
    rw [List.length_append, h.read, List.length_singleton]
  · show (c.written.take (c.delivered + 1)).map _
      = (c.provider.received ++ [incoming]).map Except.ok
    rw [List.take_add_one, hmessage, Option.toList_some, List.map_append, h.decoded,
      List.map_append, List.map_singleton, List.map_singleton, hdecode]
  · show stand'.Reads calls.length (c.delivered + 1)
    rw [← h.read]
    exact hheard.reads

/-- The provider does not come to the end of its input. -/
theorem Orderly.not_eof (hreaping : c.phase.isReaping = true)
    (hmessage : c.written[c.delivered]? = none) : c.provider.router ≠ .ready := by
  have hcounts := h.counts
  have hreads := h.reads
  have hlength := List.getElem?_eq_none_iff.mp hmessage
  cases hphase : c.phase with
  | reaping assessment =>
    rw [hphase] at hcounts
    obtain ⟨hwritten, -⟩ := hcounts
    rw [h.provider]
    -- whoever still reads has not come to `exit`, which has been written
    cases stand with
    | unread => have := hreads.2; omega
    | greeted => have := hreads.2; omega
    | granted => have := hreads.2; omega
    | running session => have := hreads.2; omega
    | finished session result => have := hreads.2; omega
    | responded result => have := hreads.2; omega
    | closed result =>
      have : c.delivered = 4 + calls.length := hreads
      omega
    | _ => rintro ⟨⟩
  | _ =>
    rw [hphase] at hreaping
    cases hreaping

/-! ## The host writes -/

/-- The host writes the next message of the script. -/
theorem Orderly.write {next : Phase}
    (hscript : (script request wallclockMs calls)[c.written.length]? = some message)
    (hcounts : next.Counts calls.length (c.written.length + 1) c.seen)
    (hholds : next.Holds request profile calls stand (c.written.length + 1))
    (hrunning : ∀ result, next ≠ .returned result) :
    Orderly request profile wallclockMs { c with phase := next, written := c.written ++ [message] }
      stand calls := by
  have hlength : (c.written ++ [message]).length = c.written.length + 1 := by simp
  exact { h with
    decoded := by
      rw [List.take_append_of_le_length h.delivered]
      exact h.decoded
    written := by
      dsimp only
      rw [hlength, List.take_add_one, ← h.written, hscript, Option.toList_some]
    delivered := by
      dsimp only
      rw [hlength]
      exact h.delivered.trans (Nat.le_succ _)
    counts := by
      dsimp only
      rw [hlength]
      exact hcounts
    left := by
      dsimp only
      rw [hlength]
      exact hcounts.left hrunning
    holds := by
      dsimp only
      rw [hlength]
      exact hholds
    exited := fun assessment hphase => absurd hphase (hrunning _)
    excused := fun failure hphase => absurd hphase (hrunning _) }

/-- The host gives up. -/
theorem Orderly.fail {failure : Failure}
    (hexcused : Excused request profile wallclockMs c.provider.sent failure) :
    Orderly request profile wallclockMs { c with phase := .returned (.error failure) } stand
      calls :=
  { h with
    counts := trivial
    holds := trivial
    exited := by
      rintro assessment ⟨⟩
    excused := by
      rintro _ ⟨⟩
      exact hexcused }

end

variable {t : State}

omit [Opcore.Base64] [Sha256] in
theorem send_cases (h : c.send request wallclockMs = some t) :
    ∃ message next, c.phase.outgoing request wallclockMs = some (message, next)
      ∧ (maxFrameBytes < message.serialize.length
          ∧ t = c.fail (ascii "ASP host frame exceeds 8388608 bytes")
        ∨ t = { c with phase := next, written := c.written ++ [message] }) := by
  unfold State.send at h
  split at h
  · cases h
  next message next houtgoing =>
  refine ⟨message, next, houtgoing, ?_⟩
  by_cases hlong : maxFrameBytes < message.serialize.length
  · have herror : Host.send message = .error (ascii "ASP host frame exceeds 8388608 bytes") :=
      if_pos hlong
    rw [herror] at h
    exact .inl ⟨hlong, (Option.some.inj h).symm⟩
  · have hok : Host.send message = .ok (message.serialize ++ [newline]) := if_neg hlong
    rw [hok] at h
    exact .inr (Option.some.inj h).symm

omit [Opcore.Base64] [Build] [Sha256] in
theorem shutdownMessage_fits : ¬ maxFrameBytes < shutdownMessage.serialize.length := by decide

omit [Opcore.Base64] [Build] [Sha256] in
theorem exitMessage_fits : ¬ maxFrameBytes < exitMessage.serialize.length := by decide

/-- A step of the host that writes. -/
theorem Orderly.send (h : Orderly request profile wallclockMs c stand calls)
    (hsend : c.send request wallclockMs = some t) :
    Orderly request profile wallclockMs t stand calls := by
  obtain ⟨message, next, houtgoing, hsent⟩ := send_cases hsend
  have hcounts := h.counts
  have hholds := h.holds
  have hunsent (hlong : maxFrameBytes < message.serialize.length) :=
    h.fail (.unsent c.phase message next houtgoing hlong)
  cases hphase : c.phase with
  | greeting =>
    rw [hphase] at hcounts houtgoing
    cases houtgoing
    obtain ⟨hwritten, hseen⟩ := hcounts
    rcases hsent with ⟨hlong, rfl⟩ | rfl
    · rw [State.fail, hphase]
      exact hunsent hlong
    · refine h.write (by rw [hwritten]; exact script_initializing) ⟨by omega, hseen⟩ trivial ?_
      rintro result ⟨⟩
  | granting =>
    rw [hphase] at hcounts houtgoing
    cases houtgoing
    obtain ⟨hwritten, hseen⟩ := hcounts
    rcases hsent with ⟨hlong, rfl⟩ | rfl
    · rw [State.fail, hphase]
      exact hunsent hlong
    · refine h.write (by rw [hwritten]; exact script_initialized) ⟨by omega, hseen⟩ trivial ?_
      rintro result ⟨⟩
  | requesting =>
    rw [hphase] at hcounts houtgoing
    cases houtgoing
    obtain ⟨hwritten, hseen⟩ := hcounts
    rcases hsent with ⟨hlong, rfl⟩ | rfl
    · rw [State.fail, hphase]
      exact hunsent hlong
    · refine h.write (by rw [hwritten]; exact script_evaluate) ⟨by omega, by omega, by omega⟩ ?_ ?_
      · rw [hwritten]
        rfl
      · rintro result ⟨⟩
  | answering answer recorded =>
    rw [hphase] at hcounts hholds houtgoing
    cases houtgoing
    obtain ⟨hlow, hhigh, hseen⟩ := hcounts
    obtain ⟨call, readBlobs, hcall, hrecorded, rfl, rfl⟩ := hholds
    obtain ⟨readBlobs', hrecord⟩ := exists_recordAnswer request.workspace readBlobs
      (callId (c.written.length - 3 + 1)) call
    rcases hsent with ⟨hlong, rfl⟩ | rfl
    · rw [State.fail, hphase]
      exact hunsent hlong
    · -- the answer that the phase holds is that of the call whose turn it is
      rw [hrecord]
      obtain ⟨hlt, hget⟩ := List.getElem?_eq_some_iff.mp hcall
      refine h.write ?_ ⟨by omega, by omega, by omega⟩ ?_ ?_
      · have hplace : c.written.length = 3 + (c.written.length - 3) := by omega
        rw [hplace, script_answer hlt, hget, Nat.add_sub_cancel_left]
      · have hplace : c.written.length + 1 - 3 = c.written.length - 3 + 1 := by omega
        show recorded request _ = _
        rw [hplace, recorded_take hcall hrecorded, hrecord]
      · rintro result ⟨⟩
  | leaving assessment =>
    rw [hphase] at hcounts hholds houtgoing
    cases houtgoing
    obtain ⟨hwritten, hseen⟩ := hcounts
    -- nothing of the request is in this message, nor in the next
    rcases hsent with ⟨hlong, rfl⟩ | rfl
    · exact absurd hlong shutdownMessage_fits
    · refine h.write (by rw [hwritten]; exact script_shutdown) ⟨by omega, hseen⟩ hholds ?_
      rintro result ⟨⟩
  | exiting assessment =>
    rw [hphase] at hcounts hholds houtgoing
    cases houtgoing
    obtain ⟨hwritten, hseen⟩ := hcounts
    rcases hsent with ⟨hlong, rfl⟩ | rfl
    · exact absurd hlong exitMessage_fits
    · refine h.write (by rw [hwritten]; exact script_exit) ⟨by omega, hseen⟩ hholds ?_
      rintro result ⟨⟩
  | _ =>
    rw [hphase] at houtgoing
    cases houtgoing

/-! ## The host reads -/

/-- The host has read one more message. -/
theorem Orderly.see (h : Orderly request profile wallclockMs c stand calls) {next : Phase}
    (hseen : c.seen < c.provider.sent.length)
    (hcounts : next.Counts calls.length c.written.length (c.seen + 1))
    (hholds : next.Holds request profile calls stand c.written.length)
    (hrunning : ∀ result, next ≠ .returned result) :
    Orderly request profile wallclockMs { c with phase := next, seen := c.seen + 1 } stand calls :=
  { h with
    seen := by
      rw [h.sent_eq] at hseen
      exact hseen
    counts := hcounts
    left := hcounts.left hrunning
    holds := hholds
    exited := fun assessment hphase => absurd hphase (hrunning _)
    excused := fun failure hphase => absurd hphase (hrunning _) }

/-- What the host makes of a message it reads. -/
def State.take (request : HostRequest) (profile : ProviderProfile) (c : State)
    (sent : Server.Sent) : State :=
  match c.phase.hear request profile (onWire sent.message) with
  | .ok phase => { c with phase, seen := c.seen + 1 }
  | .error error => c.fail error

variable {sent : Server.Sent}

theorem receive_eq (hwaits : c.phase.waits = true) (hsent : c.provider.sent[c.seen]? = some sent)
    (hfits : (onWire sent.message).serialize.length < maxFrameBytes) :
    c.receive request profile = some (c.take request profile sent) := by
  unfold State.receive
  rw [if_pos hwaits, hsent]
  dsimp only
  rw [hostReads_of_lt hfits]
  unfold State.take
  show (match c.phase.hear request profile (onWire sent.message) with
    | .ok phase => _
    | .error error => _) = _
  split <;> rfl

theorem take_of_ok {next : Phase}
    (h : c.phase.hear request profile (onWire sent.message) = .ok next) :
    c.take request profile sent = { c with phase := next, seen := c.seen + 1 } := by
  rw [State.take, h]

theorem take_of_error {error : Str}
    (h : c.phase.hear request profile (onWire sent.message) = .error error) :
    c.take request profile sent = c.fail error := by
  rw [State.take, h]

section

variable (h : Orderly request profile wallclockMs c stand calls)

include h

/-- What the host reads next is the next of the replies. -/
theorem Orderly.reply {sent : Server.Sent}
    (hsent : c.provider.sent[c.seen]? = some sent) (result : Except RpcFailure Value)
    (hresult : ∀ r, stand.result? = some r → r = result) :
    (replies request profile calls result)[c.seen]? = some sent := by
  rw [h.sent_eq] at hsent
  have hlt := (List.getElem?_eq_some_iff.mp hsent).1
  obtain ⟨rest, hrest⟩ := @sent_initial _ request profile calls stand result hresult
  rw [← hrest, List.getElem?_append_left hlt]
  exact hsent

/-- A host that waits does not find the provider gone. -/
theorem Orderly.not_gone
    (hwaits : c.phase.waits = true) (hnone : c.provider.sent[c.seen]? = none) {exit : Option Bool} :
    c.provider.router ≠ .stopped exit := by
  have hcounts := h.counts
  rw [h.sent_eq] at hnone
  have hlength := List.getElem?_eq_none_iff.mp hnone
  rw [h.provider]
  -- a provider that is gone has sent every reply, and a host that waits has one to come
  cases stand with
  | stopped result =>
    have hsent :
        (Stand.sent request profile calls (.stopped result)).length = 3 + calls.length := by
      simp only [Stand.sent, List.length_append, List.length_cons, List.length_nil,
        length_callMessages]
      omega
    rw [hsent] at hlength
    cases hphase : c.phase with
    | initializing =>
      rw [hphase] at hcounts
      have := hcounts.2
      omega
    | evaluating readBlobs =>
      rw [hphase] at hcounts
      have := hcounts.2
      omega
    | closing assessment =>
      rw [hphase] at hcounts
      have := hcounts.2
      omega
    | _ =>
      rw [hphase] at hwaits
      cases hwaits
  | _ => rintro ⟨⟩

section

variable {sent : Server.Sent}

theorem Orderly.take_greeting
    (hphase : c.phase = .initializing) (hsent : c.provider.sent[c.seen]? = some sent) :
    Orderly request profile wallclockMs (c.take request profile sent) stand calls := by
  have hlt := (List.getElem?_eq_some_iff.mp hsent).1
  have hcounts := h.counts
  rw [hphase] at hcounts
  obtain ⟨hwritten, hseen⟩ := hcounts
  have hreply := h.reply hsent (stand.result?.getD (.ok .null)) fun r hr => by rw [hr]; rfl
  rw [hseen, replies_greeting] at hreply
  have hanswer := congrArg Server.Sent.message (Option.some.inj hreply)
  dsimp only at hanswer
  rcases onWire_response initializeId (greetingAnswer request profile).1 with
    ⟨result, hresult, hread⟩ | ⟨error, hread⟩ <;> rw [hanswer] at hread
  · have hhear : c.phase.hear request profile (onWire sent.message) = .ok .granting := by
      rw [hphase, Phase.hear, hread, waitResponse_result, result_eq_of_greetingAnswer hresult,
        validateInitializeResult_initializeResult]
      rfl
    rw [take_of_ok hhear]
    refine h.see hlt ⟨hwritten, by rw [hseen]⟩ trivial ?_
    rintro result ⟨⟩
  · have hhear : c.phase.hear request profile (onWire sent.message) = .error (rpcError error) := by
      rw [hphase, Phase.hear, hread, waitResponse_error]
    rw [take_of_error hhear, State.fail, hphase]
    exact h.fail (.refused initializeId (.inl rfl) _ (List.mem_of_getElem? hsent) error hread)

theorem Orderly.take_callback {readBlobs : BTreeSet Str} (hphase : c.phase = .evaluating readBlobs)
    (hsent : c.provider.sent[c.seen]? = some sent)
    (hasked : sent.serial = none → onWire sent.message = sent.message)
    (hlt : c.written.length - 3 < calls.length) :
    Orderly request profile wallclockMs (c.take request profile sent) stand calls := by
  have hcounts := h.counts
  have hholds := h.holds
  rw [hphase] at hcounts hholds
  obtain ⟨hlow, hhigh, hseen⟩ := hcounts
  have hreply := h.reply hsent (stand.result?.getD (.ok .null)) fun r hr => by rw [hr]; rfl
  have hplace : c.seen = c.written.length - 3 + 1 := by omega
  rw [hplace, replies_call hlt] at hreply
  have hmessage := (Option.some.inj hreply).symm
  -- a callback is never replaced by its writer, so the host reads the call itself
  have hhear : c.phase.hear request profile (onWire sent.message) = .ok
      (.answering (answerTo request (c.written.length - 3) calls[c.written.length - 3])
        (recordAnswer request.workspace readBlobs (callId (c.written.length - 3 + 1))
          calls[c.written.length - 3])) := by
    rw [hphase, Phase.hear, hasked (by rw [hmessage]), hmessage, waitResponse_callback]
    rfl
  rw [take_of_ok hhear]
  refine h.see (List.getElem?_eq_some_iff.mp hsent).1 ⟨hlow, by omega, by omega⟩ ?_ ?_
  · exact ⟨calls[c.written.length - 3], readBlobs, List.getElem?_eq_getElem hlt, hholds, rfl, rfl⟩
  · rintro result ⟨⟩

theorem Orderly.take_answer {readBlobs : BTreeSet Str} (hphase : c.phase = .evaluating readBlobs)
    (hsent : c.provider.sent[c.seen]? = some sent) (hle : calls.length ≤ c.written.length - 3) :
    Orderly request profile wallclockMs (c.take request profile sent) stand calls := by
  have hmem := List.mem_of_getElem? hsent
  have hlt := (List.getElem?_eq_some_iff.mp hsent).1
  have hcounts := h.counts
  have hholds := h.holds
  rw [hphase] at hcounts hholds
  obtain ⟨hlow, hhigh, hseen⟩ := hcounts
  have hplace : c.seen = calls.length + 1 := by omega
  have hresult : ∃ result, stand.result? = some result := by
    cases hresult : stand.result? with
    | some result => exact ⟨result, rfl⟩
    | none =>
      rw [h.sent_eq] at hlt
      have := @length_sent_le _ request profile calls stand hresult
      omega
  obtain ⟨result, hresult⟩ := hresult
  have hreply := h.reply hsent result fun r hr => by
    rw [hresult] at hr
    exact (Option.some.inj hr).symm
  rw [hplace, replies_answer] at hreply
  have hmessage := (Option.some.inj hreply).symm
  rcases onWire_response evaluateId result with ⟨value, rfl, hread⟩ | ⟨error, hread⟩
  · have hhear : c.phase.hear request profile (onWire sent.message) = (do
        return .leaving (← validateAssessment value request profile readBlobs)) := by
      rw [hphase, Phase.hear, hmessage, hread, waitResponse_result]
    cases hcheck : validateAssessment value request profile readBlobs with
    | ok assessment =>
      rw [hcheck] at hhear
      rw [take_of_ok hhear]
      refine h.see hlt ⟨by omega, by omega⟩ ⟨value, readBlobs, hresult, ?_, hcheck⟩ ?_
      · have hall : calls.take (c.written.length - 3) = calls := List.take_of_length_le (by omega)
        rw [Phase.Holds, hall] at hholds
        exact hholds
      · rintro result ⟨⟩
    | error complaint =>
      rw [hcheck] at hhear
      rw [take_of_error hhear, State.fail, hphase]
      exact h.fail (.rejected (some 2) value (hmessage ▸ hmem) readBlobs complaint hcheck)
  · have hhear : c.phase.hear request profile (onWire sent.message) = .error (rpcError error) := by
      rw [hphase, Phase.hear, hmessage, hread, waitResponse_error]
    rw [take_of_error hhear, State.fail, hphase]
    exact h.fail (.refused evaluateId (.inr rfl) _ (hmessage ▸ hmem) error hread)

theorem Orderly.take_closing {assessment : Value} (hphase : c.phase = .closing assessment)
    (hsent : c.provider.sent[c.seen]? = some sent) :
    Orderly request profile wallclockMs (c.take request profile sent) stand calls := by
  have hcounts := h.counts
  have hholds := h.holds
  rw [hphase] at hcounts hholds
  obtain ⟨hwritten, hseen⟩ := hcounts
  obtain ⟨result, readBlobs, hresult, hrecorded⟩ := hholds
  have hreply := h.reply hsent (.ok result) fun r hr => by
    rw [hresult] at hr
    exact (Option.some.inj hr).symm
  have hplace : c.seen = calls.length + 2 := by omega
  rw [hplace, replies_closing] at hreply
  have hmessage := (Option.some.inj hreply).symm
  have hhear : c.phase.hear request profile (onWire sent.message) = .ok (.exiting assessment) := by
    rw [hphase, Phase.hear, hmessage, onWire_closing, waitResponse_result]
    rfl
  rw [take_of_ok hhear]
  refine h.see (List.getElem?_eq_some_iff.mp hsent).1 ⟨hwritten, by omega⟩
    ⟨result, readBlobs, hresult, hrecorded⟩ ?_
  rintro result ⟨⟩

end

/-- A step of the host that reads. -/
theorem Orderly.receive {t : State}
    (hfits : Fits c) (hreceive : c.receive request profile = some t) :
    Orderly request profile wallclockMs t stand calls := by
  have hwaits : c.phase.waits = true := by
    by_contra hwaits
    rw [State.receive, if_neg hwaits] at hreceive
    cases hreceive
  cases hsent : c.provider.sent[c.seen]? with
  | none =>
    rw [State.receive, if_pos hwaits, hsent] at hreceive
    dsimp only at hreceive
    split at hreceive
    · next exit hexit => exact absurd hexit (h.not_gone hwaits hsent)
    · cases hreceive
  | some sent =>
    have hmem := List.mem_of_getElem? hsent
    rw [receive_eq hwaits hsent (hfits.sent _ hmem)] at hreceive
    cases hreceive
    cases hphase : c.phase with
    | initializing => exact h.take_greeting hphase hsent
    | evaluating readBlobs =>
      rcases Nat.lt_or_ge (c.written.length - 3) calls.length with hlt | hge
      · exact h.take_callback hphase hsent (hfits.asked _ hmem) hlt
      · exact h.take_answer hphase hsent hge
    | closing assessment => exact h.take_closing hphase hsent
    | _ =>
      rw [hphase] at hwaits
      cases hwaits

/-! ## The host reaps, or gives up -/

theorem Orderly.reap {t : State} {stderr : Str}
    (hreap : c.reap stderr = some t) : Orderly request profile wallclockMs t stand calls := by
  have hstopped (exit : Option Bool) (hexit : c.provider.router = .stopped exit) :
      exit = some true ∧ ∃ result, stand = .stopped result := by
    rw [h.provider] at hexit
    cases stand with
    | stopped result =>
      cases hexit
      exact ⟨rfl, result, rfl⟩
    | _ => cases hexit
  unfold State.reap at hreap
  split at hreap
  · next assessment hphase hexit =>
    cases hreap
    have hcounts := h.counts
    have hholds := h.holds
    rw [hphase] at hcounts hholds
    exact { h with
      counts := hcounts
      holds := hholds
      exited := by
        rintro assessment ⟨⟩
        exact (hstopped _ hexit).2
      excused := by
        rintro failure ⟨⟩ }
  · next assessment exit hunclean hphase hexit => exact (hunclean (hstopped exit hexit).1).elim
  · cases hreap

theorem Orderly.expire {t : State}
    (hexpire : c.expire = some t) : Orderly request profile wallclockMs t stand calls := by
  obtain ⟨text, hdue, rfl⟩ := Option.map_eq_some_iff.mp hexpire
  exact h.fail (.overdue c.phase text hdue)

end

/-! ## Every step -/

theorem step_eq_some_iff {action : Action} :
    step request profile wallclockMs c action = some t
      ↔ (∀ result, c.phase ≠ .returned result)
        ∧ c.act request profile wallclockMs action = some t := by
  unfold Conversation.step
  split
  · next result hphase =>
    constructor
    · rintro ⟨⟩
    · rintro ⟨hrunning, -⟩
      exact absurd hphase (hrunning result)
  · next hrunning =>
    exact ⟨fun h => ⟨fun result hphase => hrunning result hphase, h⟩, fun h => h.2⟩

/-- A callback of the provider. -/
def Action.asks : Action → Bool
  | .provider (.callback _ _ _) => true
  | _ => false

/-- A step that neither makes a callback nor gives up on something. -/
def Action.advances : Action → Bool
  | .expire | .provider (.abandon _) | .provider (.callback _ _ _) => false
  | _ => true

def Phase.done : Phase → Nat
  | .returned _ => 1
  | _ => 0

/-- How far a conversation has come. -/
def State.work (c : State) (stand : Stand) : Nat :=
  c.written.length + c.seen + c.delivered + stand.rank + c.phase.done

omit [Opcore.Base64] [Build] [Sha256] in
theorem done_of_running (h : ∀ result, c.phase ≠ .returned result) : c.phase.done = 0 := by
  cases hphase : c.phase with
  | returned result => exact absurd hphase (h result)
  | _ => rfl

omit [Opcore.Base64] [Build] [Sha256] in
theorem work_fail (h : ∀ result, c.phase ≠ .returned result) (text : Str) :
    c.work stand < (c.fail text).work stand := by
  have := done_of_running h
  simp only [State.work, State.fail, Phase.done]
  omega

omit [Opcore.Base64] [Sha256] in
theorem work_send (h : ∀ result, c.phase ≠ .returned result)
    (hsend : c.send request wallclockMs = some t) : c.work stand < t.work stand := by
  obtain ⟨message, next, -, ⟨-, rfl⟩ | rfl⟩ := send_cases hsend
  · exact work_fail h _
  · have := done_of_running h
    simp only [State.work, List.length_append, List.length_singleton]
    omega

theorem work_receive (h : ∀ result, c.phase ≠ .returned result)
    (hreceive : c.receive request profile = some t) : c.work stand < t.work stand := by
  have hdone := done_of_running h
  unfold State.receive at hreceive
  split at hreceive
  · split at hreceive
    · split at hreceive
      · cases hreceive
        simp only [State.work]
        omega
      · cases hreceive
        exact work_fail h _
    · split at hreceive
      · cases hreceive
        exact work_fail h _
      · cases hreceive
  · cases hreceive

omit [Opcore.Base64] [Build] [Sha256] in
theorem work_reap {stderr : Str} (h : ∀ result, c.phase ≠ .returned result)
    (hreap : c.reap stderr = some t) : c.work stand < t.work stand := by
  have hdone := done_of_running h
  unfold State.reap at hreap
  split at hreap
  · cases hreap
    simp only [State.work, Phase.done]
    omega
  · cases hreap
    exact work_fail h _
  · cases hreap

/-- Every step keeps the conversation in order and takes it on. -/
theorem Orderly.step {action : Action} {t : State}
    (h : Orderly request profile wallclockMs c stand calls)
    (hparams : Server.isContainer request.evaluationParams = true) (hfits : Fits c)
    (hstep : step request profile wallclockMs c action = some t) :
    ∃ stand' calls', Orderly request profile wallclockMs t stand' calls'
      ∧ calls'.length = calls.length + action.asks.toNat
      ∧ c.work stand + action.advances.toNat ≤ t.work stand' := by
  obtain ⟨hrunning, hact⟩ := step_eq_some_iff.mp hstep
  cases action with
  | send => exact ⟨stand, calls, h.send hact, rfl, work_send hrunning hact⟩
  | receive => exact ⟨stand, calls, h.receive hfits hact, rfl, work_receive hrunning hact⟩
  | reap stderr => exact ⟨stand, calls, h.reap hact, rfl, work_reap hrunning hact⟩
  | expire =>
    obtain ⟨text, -, rfl⟩ := Option.map_eq_some_iff.mp hact
    exact ⟨stand, calls, h.expire hact, rfl, (work_fail hrunning text).le⟩
  | deliver =>
    simp only [State.act, State.deliver] at hact
    split at hact
    · next message hmessage =>
      obtain ⟨provider, hprovider, rfl⟩ := Option.map_eq_some_iff.mp hact
      obtain ⟨stand', horderly, hrank⟩ := h.deliver hparams hfits hrunning hmessage hprovider
      refine ⟨stand', calls, horderly, rfl, ?_⟩
      simp only [State.work, Action.advances, Bool.toNat_true]
      omega
    · next hnone =>
      obtain ⟨hreaping, hact⟩ := Option.ite_none_right_eq_some.mp hact
      obtain ⟨provider, hprovider, rfl⟩ := Option.map_eq_some_iff.mp hact
      -- No end of input before the host leaves.
      exact absurd (router_of_receive hprovider) (h.not_eof hreaping hnone)
  | provider action =>
    obtain ⟨hinternal, hact⟩ := Option.ite_none_right_eq_some.mp hact
    obtain ⟨provider, hprovider, rfl⟩ := Option.map_eq_some_iff.mp hact
    obtain ⟨stand', calls', horderly, hadvances⟩ := h.advance hrunning hinternal hprovider
    refine ⟨stand', calls', horderly, ?_⟩
    cases hadvances with
    | stays key => exact ⟨rfl, Nat.le_refl _⟩
    | asks session _ serial call => exact ⟨List.length_append, Nat.le_refl _⟩
    | moves _ _ hmoves hsilent =>
      have hrank := hmoves.rank_lt
      have hasks : (Action.provider action).asks = false := by
        cases action with
        | callback serial method params => exact absurd rfl (hsilent serial method params)
        | _ => rfl
      have hadvance : (Action.provider action).advances.toNat ≤ 1 := Bool.toNat_le _
      refine ⟨by rw [hasks]; rfl, ?_⟩
      simp only [State.work]
      omega

end

end Opcore.Conversation
