/-
  Opcore.Protocol.Outcome

  What a host and its provider come to.  A run fails only for a reason the
  protocol provides for, and succeeds with the provider gone and every callback
  answered once; it is no longer than its callbacks make it, and until the host
  has returned it can go on.
-/
import Opcore.Protocol.Exchange
import Opcore.Protocol.Shutdown

namespace Opcore.Conversation

open Text Collections Json Asp Validation
open Server (Incoming decodeIncoming)

section

variable [Opcore.Base64] [Build] [Sha256] {request : HostRequest} {profile : ProviderProfile}
  {wallclockMs : Nat} {c : State} {stand : Stand} {calls : List Callback}

/-! ## Runs -/

omit [Opcore.Base64] [Sha256] in
/-- Nothing that is on the wire is taken back. -/
theorem sent_prefix_of_step {s t : Server.State} {action : Server.Action}
    (h : Server.step profile s action = some t) : s.sent <+: t.sent := by
  cases Server.stepped_of_step h with
  | read event ready routed =>
    generalize s.receive profile event = t at routed
    cases routed <;> exact List.prefix_rfl
  | internal _ moved =>
    cases moved with
    | delivered serial message _ => exact List.prefix_append _ _
    | called message nextId pending => exact List.prefix_append _ _
    | responded evaluation result _ _ => exact List.prefix_append _ _
    | _ => exact List.prefix_rfl

variable {t : State}

theorem wire_of_step {action : Action} (hstep : step request profile wallclockMs c action = some t) :
    c.written <+: t.written ∧ c.provider.sent <+: t.provider.sent := by
  obtain ⟨-, hact⟩ := step_eq_some_iff.mp hstep
  cases action with
  | send =>
    obtain ⟨message, next, -, ⟨-, rfl⟩ | rfl⟩ := send_cases hact
    · exact ⟨List.prefix_rfl, List.prefix_rfl⟩
    · exact ⟨List.prefix_append _ _, List.prefix_rfl⟩
  | receive =>
    simp only [State.act, State.receive] at hact
    split at hact
    · split at hact
      · split at hact <;> cases hact <;> exact ⟨List.prefix_rfl, List.prefix_rfl⟩
      · split at hact <;> cases hact
        exact ⟨List.prefix_rfl, List.prefix_rfl⟩
    · cases hact
  | reap stderr =>
    simp only [State.act, State.reap] at hact
    split at hact <;> cases hact <;> exact ⟨List.prefix_rfl, List.prefix_rfl⟩
  | expire =>
    obtain ⟨text, -, rfl⟩ := Option.map_eq_some_iff.mp hact
    exact ⟨List.prefix_rfl, List.prefix_rfl⟩
  | deliver =>
    simp only [State.act, State.deliver] at hact
    split at hact
    · obtain ⟨provider, hprovider, rfl⟩ := Option.map_eq_some_iff.mp hact
      exact ⟨List.prefix_rfl, sent_prefix_of_step hprovider⟩
    · obtain ⟨-, hact⟩ := Option.ite_none_right_eq_some.mp hact
      obtain ⟨provider, hprovider, rfl⟩ := Option.map_eq_some_iff.mp hact
      exact ⟨List.prefix_rfl, sent_prefix_of_step hprovider⟩
  | provider action =>
    obtain ⟨-, hact⟩ := Option.ite_none_right_eq_some.mp hact
    obtain ⟨provider, hprovider, rfl⟩ := Option.map_eq_some_iff.mp hact
    exact ⟨List.prefix_rfl, sent_prefix_of_step hprovider⟩

theorem Fits.of_step {action : Action} (h : Fits t)
    (hstep : step request profile wallclockMs c action = some t) : Fits c := by
  obtain ⟨hwritten, hsent⟩ := wire_of_step hstep
  exact ⟨fun message hmem => h.written message (hwritten.subset hmem),
    fun sent hmem => h.sent sent (hsent.subset hmem),
    fun sent hmem => h.asked sent (hsent.subset hmem)⟩

theorem Fits.of_run {actions : List Action} (h : Fits t)
    (hrun : Transition.run (step request profile wallclockMs) c actions = some t) : Fits c := by
  induction actions generalizing c with
  | nil =>
    cases hrun
    exact h
  | cons action actions ih =>
    obtain ⟨next, hstep, hrest⟩ := Transition.run_cons_eq_some_iff.mp hrun
    exact (ih hrest).of_step hstep

/-- A run in which every message fits keeps the conversation in order, and its steps
    are counted by how far it has come. -/
theorem orderly_run (hparams : Server.isContainer request.evaluationParams = true)
    {actions : List Action}
    (hrun : Transition.run (step request profile wallclockMs) c actions = some t) (hfits : Fits t)
    (h : Orderly request profile wallclockMs c stand calls) :
    ∃ stand' calls', Orderly request profile wallclockMs t stand' calls'
      ∧ calls'.length = calls.length + actions.countP Action.asks
      ∧ c.work stand + actions.countP Action.advances ≤ t.work stand' := by
  induction actions generalizing c stand calls with
  | nil =>
    cases hrun
    exact ⟨stand, calls, h, rfl, Nat.le_refl _⟩
  | cons action actions ih =>
    obtain ⟨next, hstep, hrest⟩ := Transition.run_cons_eq_some_iff.mp hrun
    -- what is on the wire stays there, so that what fits at the end fits now
    obtain ⟨stand₁, calls₁, h₁, hcalls₁, hwork₁⟩ :=
      h.step hparams ((hfits.of_run hrest).of_step hstep) hstep
    obtain ⟨stand₂, calls₂, h₂, hcalls₂, hwork₂⟩ := ih hrest h₁
    refine ⟨stand₂, calls₂, h₂, ?_, ?_⟩
    · rw [hcalls₂, hcalls₁, List.countP_cons]
      cases action.asks <;> simp [Nat.add_comm, Nat.add_left_comm]
    · rw [List.countP_cons]
      cases hadvances : action.advances <;> rw [hadvances] at hwork₁ <;> simp at hwork₁ ⊢ <;> omega

/-! ## What is on the wire -/

omit [Opcore.Base64] [Build] [Sha256] in
/-- The provider's frame reader finds the host's messages in the bytes the host wrote. -/
theorem Fits.providerReads (h : Fits c) {stream : Stream}
    (hbytes : stream.bytes = c.written.flatMap fun message => message.serialize ++ [newline]) :
    ReadsAll Server.readFrame stream c.written := by
  rw [← c.written.map_id]
  refine readsAll_of_delivered (fun message hmem stream rest hstream => ?_) hbytes
  have hfits := h.written message hmem
  exact (providerReads_eq_frame_iff (Host.send_eq_ok_iff.mpr ⟨hfits.le, rfl⟩) hstream).mp
    (providerReads_of_lt hfits)

omit [Opcore.Base64] [Build] [Sha256] in
/-- The host's frame reader finds the provider's messages in the bytes its writer wrote. -/
theorem Fits.hostReads (h : Fits c) {stream : Stream}
    (hbytes : stream.bytes = c.provider.sent.flatMap fun sent => Server.written sent.message) :
    ReadsAll Host.readFrame stream (c.provider.sent.map fun sent => onWire sent.message) := by
  refine readsAll_of_delivered (fun sent hmem stream rest hstream => ?_) hbytes
  exact ((hostReads_eq_ok_iff hstream).mp (hostReads_of_lt (h.sent sent hmem))).2

/-! ## What a conversation comes to -/

/-- What both sides have done, where the provider makes these calls and comes to
    this result. -/
structure InOrder (request : HostRequest) (profile : ProviderProfile) (wallclockMs : Nat)
    (c : State) (calls : List Callback) (result : Except RpcFailure Value) : Prop where
  written : c.written <+: script request wallclockMs calls
  sent : c.provider.sent <+: replies request profile calls result
  asked : c.provider.nextId = calls.length + 1
  /-- the provider understands what it reads -/
  decoded : (c.written.take c.delivered).map (fun message => decodeIncoming (.ok message))
    = c.provider.received.map .ok
  /-- each side's reader gets the other's messages, whatever pieces their bytes come in -/
  providerReads : ∀ stream : Stream,
    stream.bytes = c.written.flatMap (fun message => message.serialize ++ [newline]) →
    ReadsAll Server.readFrame stream c.written
  hostReads : ∀ stream : Stream,
    stream.bytes = c.provider.sent.flatMap (fun sent => Server.written sent.message) →
    ReadsAll Host.readFrame stream (c.provider.sent.map fun sent => onWire sent.message)
  /-- the provider is asked to leave once the host has its answer and has answered it -/
  left : shutdownMessage ∈ c.written.drop (3 + calls.length) → calls.length + 2 ≤ c.seen
  failed : ∀ failure, c.phase = .returned (.error failure) →
    Excused request profile wallclockMs c.provider.sent failure
  returned : ∀ assessment, c.phase = .returned (.ok assessment) →
    c.written = script request wallclockMs calls
      ∧ c.provider.sent = replies request profile calls result
      ∧ c.provider.received.length = c.written.length
      ∧ c.seen = c.provider.sent.length
      ∧ c.provider.router = .stopped (some true)
      ∧ c.provider.evaluations = [] ∧ c.provider.active = ∅
      ∧ ∃ value readBlobs, result = .ok value ∧ recorded request calls = .ok readBlobs
        ∧ validateAssessment value request profile readBlobs = .ok assessment

theorem Orderly.inOrder (h : Orderly request profile wallclockMs c stand calls) (hfits : Fits c) :
    ∃ result, InOrder request profile wallclockMs c calls result := by
  refine ⟨stand.result?.getD (.ok .null), ?_, ?_, ?_, h.decoded, fun _ => hfits.providerReads,
    fun _ => hfits.hostReads, ?_, h.excused, ?_⟩
  · rw [h.written]
    exact List.take_prefix _ _
  · rw [h.sent_eq]
    exact sent_initial fun r hr => by rw [hr]; rfl
  · rw [h.provider]
    rfl
  · intro hmem
    refine h.left ?_
    by_contra hle
    rw [List.drop_of_length_le (Nat.le_of_not_lt hle)] at hmem
    cases hmem
  · -- an assessment is returned only where the process has been seen to end
    intro assessment hphase
    obtain ⟨result, rfl⟩ := h.exited assessment hphase
    have hcounts := h.counts
    have hholds := h.holds
    rw [hphase] at hcounts hholds
    obtain ⟨value, readBlobs, hresult, hrecorded, hcheck⟩ := hholds
    have hdelivered : c.delivered = 5 + calls.length := h.reads
    have hsent : c.provider.sent = replies request profile calls result := h.sent_eq
    refine ⟨?_, hsent, h.read.trans (hdelivered.trans hcounts.1.symm), ?_, ?_, ?_, ?_, value,
      readBlobs, Option.some.inj hresult, hrecorded, hcheck⟩
    · rw [h.written, hcounts.1, ← @length_script _ _ request wallclockMs calls, List.take_length]
    · rw [hsent, length_replies, hcounts.2]
    · rw [h.provider]
      rfl
    · rw [h.provider]
      rfl
    · rw [h.provider]
      rfl

/-- In every interleaving of a host and its provider whose messages fit both keep to
    the script: the provider's callbacks are answered once and in turn, and the host returns an
    assessment only from a provider that has answered everything and left, or an
    error the protocol provides for. -/
theorem conversation_in_order {workspace : HostWorkspace} {params : Value}
    (hrequest : HostRequest.new workspace params = .ok request)
    (hreach : Reachable request profile wallclockMs c) (hfits : Fits c) :
    ∃ calls result, InOrder request profile wallclockMs c calls result := by
  obtain ⟨actions, hrun⟩ := hreach
  obtain ⟨stand, calls, h, -⟩ := orderly_run (isContainer_of_new hrequest) hrun hfits orderly_start
  exact ⟨calls, h.inOrder hfits⟩

end

/-! A conversation in which the provider asks for the tree and leaves a gap. -/

/-- A short message fits. -/
theorem Fits.of_lt {c : State} (hwritten : ∀ message ∈ c.written,
      message.serialize.length < maxFrameBytes)
    (hsent : ∀ sent ∈ c.provider.sent, sent.message.serialize.length < maxFrameBytes) : Fits c := by
  have hwire (sent : Server.Sent) (hmem : sent ∈ c.provider.sent) :
      onWire sent.message = sent.message := if_pos (hsent sent hmem).le
  refine ⟨hwritten, ?_, fun sent hmem _ => hwire sent hmem⟩
  intro sent hmem
  rw [hwire sent hmem]
  exact hsent sent hmem

def sampleBaseline : Value := .object [(ascii "rev", .string (ascii "r"))]

def sampleChangeset : Value :=
  .object [(ascii "baseline", sampleBaseline), (ascii "changes", .array [])]

def sampleRequest : HostRequest :=
  ⟨⟨sampleBaseline, ∅, ∅, 0⟩, .object [(ascii "changeset", sampleChangeset),
    (ascii "comparison", .string (ascii "all")), (ascii "scope", .string (ascii "workspace"))]⟩

def sampleGap : Value :=
  @coverageGapValue Server.bareBuild {
    profile := .fast
    session := ⟨sampleBaseline, 1000, .null⟩
    scope := .string (ascii "workspace")
    comparison := .string (ascii "all")
    requestedSources := [ProviderProfile.fast.providerId]
    requestedRules := [ProviderProfile.fast.rule]
    changesetDigest := @jsonDigest sampleDigest sampleChangeset
    detail := ascii "gap"
    configDigest :=
      (@configurationDigest sampleDigest Server.bareBuild none .fast).toOption.getD []
    status := ascii "incomplete"
    truncated := false }

/-- The evaluation is over before the answer to its callback is read. -/
def sampleActions : List Action := [
  .send, .deliver, .provider .proceed, .receive, .send, .send, .deliver, .deliver,
  .provider .proceed,
  .provider (.callback 2 (ascii "workspace/listTree")
    (.object [(ascii "baseline", sampleBaseline)])),
  .receive, .send, .provider (.finish 2 (.ok sampleGap)), .deliver, .provider (.respond 2),
  .receive, .send, .deliver, .provider .proceed, .provider .proceed, .provider .proceed, .receive,
  .send, .deliver, .provider .proceed, .reap []]

def sampleConversation : Option State :=
  Transition.run (@step plainBase64 Server.bareBuild sampleDigest sampleRequest .fast 1000) .start
    sampleActions

def Phase.succeeded : Phase → Bool
  | .returned (.ok _) => true
  | _ => false

theorem sampleConversation_succeeds :
    ∃ c, sampleConversation = some c ∧ c.phase.succeeded = true ∧ Fits c := by
  have hends : sampleConversation.any (fun c => c.phase.succeeded
      && c.written.all (fun message => decide (message.serialize.length < maxFrameBytes))
      && c.provider.sent.all fun sent => decide (sent.message.serialize.length < maxFrameBytes))
      = true := by decide +kernel
  cases hc : sampleConversation with
  | none =>
    rw [hc] at hends
    cases hends
  | some c =>
    rw [hc, Option.any_some] at hends
    simp only [Bool.and_eq_true, List.all_eq_true, decide_eq_true_eq] at hends
    obtain ⟨⟨hphase, hwritten⟩, hsent⟩ := hends
    exact ⟨c, rfl, hphase, .of_lt hwritten hsent⟩

theorem conversation_in_order_gap :
    ∃ c calls result, sampleConversation = some c ∧ c.phase.succeeded = true
      ∧ @InOrder plainBase64 Server.bareBuild sampleDigest sampleRequest .fast 1000 c calls
        result := by
  obtain ⟨c, hc, hphase, hfits⟩ := sampleConversation_succeeds
  obtain ⟨calls, result, h⟩ := @conversation_in_order plainBase64 Server.bareBuild sampleDigest
    sampleRequest .fast 1000 c sampleRequest.workspace sampleRequest.evaluationParams rfl
    ⟨sampleActions, hc⟩ hfits
  exact ⟨c, calls, result, hc, hphase, h⟩

section

variable [Opcore.Base64] [Build] [Sha256] {request : HostRequest} {profile : ProviderProfile}
  {wallclockMs : Nat} {c : State} {stand : Stand} {calls : List Callback}

/-! ## A conversation does not get stuck -/

omit [Opcore.Base64] [Sha256] in
/-- A provider that is neither reading nor gone can proceed. -/
theorem exists_proceed {received : List Incoming} {pending : BTreeSet Str}
    (hready : stand.router request profile calls.length ≠ .ready)
    (hstopped : ∀ exit, stand.router request profile calls.length ≠ .stopped exit) :
    ∃ t, (stand.state request profile wallclockMs calls received pending).proceed = some t := by
  cases stand with
  | greeting => exact ⟨_, rfl⟩
  | admitting session => exact ⟨_, rfl⟩
  | refusing error => exact ⟨_, rfl⟩
  | cancelling result => exact ⟨_, rfl⟩
  | waiting result => exact ⟨_, rfl⟩
  | closing result => exact ⟨_, rfl⟩
  | leaving result => exact ⟨_, rfl⟩
  | stopped result => exact absurd rfl (hstopped (some true))
  | _ => exact absurd rfl hready

/-- Some step that advances is possible. -/
def CanAdvance (request : HostRequest) (profile : ProviderProfile) (wallclockMs : Nat) (c : State) :
    Prop :=
  ∃ action : Action, action.advances = true
    ∧ (step request profile wallclockMs c action).isSome = true

theorem CanAdvance.of_act (action : Action) (t : State)
    (hrunning : ∀ result, c.phase ≠ .returned result) (hadvances : action.advances = true)
    (h : c.act request profile wallclockMs action = some t) :
    CanAdvance request profile wallclockMs c :=
  ⟨action, hadvances, Option.isSome_of_mem (step_eq_some_iff.mpr ⟨hrunning, h⟩)⟩

theorem CanAdvance.of_provider (action : Server.Action) (t : Server.State)
    (hrunning : ∀ result, c.phase ≠ .returned result) (hinternal : action.internal = true)
    (hadvances : (Action.provider action).advances = true)
    (h : Server.step profile c.provider action = some t) :
    CanAdvance request profile wallclockMs c := by
  refine .of_act (.provider action) { c with provider := t } hrunning hadvances ?_
  rw [State.act, if_pos hinternal, h]
  rfl

section

variable (h : Orderly request profile wallclockMs c stand calls)

include h

/-- A provider that has a message to read, or is between two reads, moves on. -/
theorem Orderly.provider_advances
    (hparams : Server.isContainer request.evaluationParams = true) (hfits : Fits c)
    (hrunning : ∀ result, c.phase ≠ .returned result)
    (hstopped : ∀ exit, c.provider.router ≠ .stopped exit)
    (hmessage : c.provider.router = .ready → c.delivered < c.written.length) :
    CanAdvance request profile wallclockMs c := by
  by_cases hready : c.provider.router = .ready
  · have hget := List.getElem?_eq_getElem (hmessage hready)
    obtain ⟨stand', incoming, pending', -, hreceive, -⟩ :=
      h.receive_step hparams hfits hrunning hready hget
    refine .of_act .deliver { c with
      provider := stand'.state request profile wallclockMs calls
        (c.provider.received ++ [incoming]) pending'
      delivered := c.delivered + 1 } hrunning rfl ?_
    rw [State.act, State.deliver, hget]
    dsimp only
    rw [hreceive]
    rfl
  · have hproceed : ∃ t, c.provider.proceed = some t := by
      rw [h.provider] at hready hstopped ⊢
      exact exists_proceed hready hstopped
    obtain ⟨t, ht⟩ := hproceed
    exact .of_provider .proceed t hrunning rfl rfl ht

/-- A host that has read everything waits for a provider that has something to read. -/
theorem Orderly.unread_of_waiting
    (hwaits : c.phase.waits = true) (hsent : c.provider.sent[c.seen]? = none)
    (hrunning : ∀ session, stand ≠ .running session)
    (hfinished : ∀ session result, stand ≠ .finished session result)
    (hready : c.provider.router = .ready) : c.delivered < c.written.length := by
  have hcounts := h.counts
  have hreads := h.reads
  rw [h.sent_eq] at hsent
  have hlength := List.getElem?_eq_none_iff.mp hsent
  rw [h.provider] at hready
  -- The messages on either side, phase by phase.
  have hphase : (c.written.length = 1 ∧ c.seen = 0)
      ∨ (3 ≤ c.written.length ∧ c.written.length ≤ 3 + calls.length
        ∧ c.seen + 2 = c.written.length)
      ∨ (c.written.length = 4 + calls.length ∧ c.seen = 2 + calls.length) := by
    cases hphase : c.phase with
    | initializing =>
      rw [hphase] at hcounts
      exact .inl hcounts
    | evaluating readBlobs =>
      rw [hphase] at hcounts
      exact .inr (.inl hcounts)
    | closing assessment =>
      rw [hphase] at hcounts
      exact .inr (.inr hcounts)
    | _ =>
      rw [hphase] at hwaits
      cases hwaits
  cases stand with
  | unread =>
    obtain ⟨-, hdelivered⟩ := hreads
    omega
  | greeted =>
    obtain ⟨-, hdelivered⟩ := hreads
    simp only [Stand.sent, List.length_singleton] at hlength
    omega
  | granted =>
    obtain ⟨-, hdelivered⟩ := hreads
    simp only [Stand.sent, List.length_singleton] at hlength
    omega
  | running session => exact absurd rfl (hrunning session)
  | finished session result => exact absurd rfl (hfinished session result)
  | responded result =>
    obtain ⟨hlow, hhigh⟩ := hreads
    simp only [Stand.sent, List.length_append, List.length_cons, List.length_nil,
      length_callMessages] at hlength
    omega
  | closed result =>
    have hdelivered : c.delivered = 4 + calls.length := hreads
    simp only [Stand.sent, List.length_append, List.length_cons, List.length_nil,
      length_callMessages] at hlength
    omega
  | _ => cases hready

/-- A host that waits for a message has one to read, or the provider moves on. -/
theorem Orderly.waiting_advances
    (hparams : Server.isContainer request.evaluationParams = true) (hfits : Fits c)
    (hrunning : ∀ result, c.phase ≠ .returned result) (hwaits : c.phase.waits = true) :
    CanAdvance request profile wallclockMs c := by
  cases hsent : c.provider.sent[c.seen]? with
  | some sent =>
    exact .of_act .receive _ hrunning rfl
      (receive_eq hwaits hsent (hfits.sent _ (List.mem_of_getElem? hsent)))
  | none =>
    -- with nothing to read, an evaluation that runs may come to an end, one that has ended is
    -- answered, and anywhere else the provider reads or proceeds
    by_cases hevaluating : ∃ session, stand = .running session
    · obtain ⟨session, rfl⟩ := hevaluating
      have hfinish : ∃ t, c.provider.finish 2 (.error .cancelled) = some t := by
        rw [h.provider]
        exact ⟨_, rfl⟩
      obtain ⟨t, ht⟩ := hfinish
      exact .of_provider (.finish 2 (.error .cancelled)) t hrunning rfl rfl ht
    by_cases hfinished : ∃ session result, stand = .finished session result
    · obtain ⟨session, result, rfl⟩ := hfinished
      have hrespond : ∃ t, c.provider.respond 2 = some t := by
        rw [h.provider]
        exact ⟨_, rfl⟩
      obtain ⟨t, ht⟩ := hrespond
      exact .of_provider (.respond 2) t hrunning rfl rfl ht
    refine h.provider_advances hparams hfits hrunning (fun exit => h.not_gone hwaits hsent) ?_
    exact h.unread_of_waiting hwaits hsent (fun session hs => hevaluating ⟨session, hs⟩)
      fun session result hs => hfinished ⟨session, result, hs⟩

/-- A host that awaits the exit reaps a provider that is gone, and the provider goes. -/
theorem Orderly.reaping_advances
    (hparams : Server.isContainer request.evaluationParams = true) (hfits : Fits c)
    (hrunning : ∀ result, c.phase ≠ .returned result) {assessment : Value}
    (hphase : c.phase = .reaping assessment) : CanAdvance request profile wallclockMs c := by
  by_cases hstopped : ∃ exit, c.provider.router = .stopped exit
  · obtain ⟨exit, hexit⟩ := hstopped
    have hreap : ∃ t, c.reap [] = some t := by
      unfold State.reap
      rw [hphase, hexit]
      split
      · exact ⟨_, rfl⟩
      · exact ⟨_, rfl⟩
      · next hother => exact (hother assessment exit rfl rfl).elim
    obtain ⟨t, ht⟩ := hreap
    exact .of_act (.reap []) t hrunning rfl ht
  · refine h.provider_advances hparams hfits hrunning (fun exit hexit => hstopped ⟨exit, hexit⟩) ?_
    intro hready
    by_contra hle
    exact h.not_eof (by rw [hphase]; rfl)
      (List.getElem?_eq_none_iff.mpr (Nat.le_of_not_lt hle)) hready

/-- A conversation that is in order and not over can go on. -/
theorem Orderly.can_advance
    (hparams : Server.isContainer request.evaluationParams = true) (hfits : Fits c)
    (hrunning : ∀ result, c.phase ≠ .returned result) :
    CanAdvance request profile wallclockMs c := by
  -- the host waits for a message, awaits the exit, or has something to send
  by_cases hwaits : c.phase.waits = true
  · exact h.waiting_advances hparams hfits hrunning hwaits
  by_cases hreaping : ∃ assessment, c.phase = .reaping assessment
  · obtain ⟨assessment, hphase⟩ := hreaping
    exact h.reaping_advances hparams hfits hrunning hphase
  have houtgoing : ∃ message next,
      c.phase.outgoing request wallclockMs = some (message, next) := by
    cases hphase : c.phase with
    | returned result => exact absurd hphase (hrunning result)
    | reaping assessment => exact absurd ⟨assessment, hphase⟩ hreaping
    | initializing => exact absurd (by rw [hphase]; rfl) hwaits
    | evaluating readBlobs => exact absurd (by rw [hphase]; rfl) hwaits
    | closing assessment => exact absurd (by rw [hphase]; rfl) hwaits
    | _ => exact ⟨_, _, rfl⟩
  obtain ⟨message, next, houtgoing⟩ := houtgoing
  have hsend : ∃ t, c.send request wallclockMs = some t := by
    unfold State.send
    rw [houtgoing]
    dsimp only
    split <;> exact ⟨_, rfl⟩
  obtain ⟨t, ht⟩ := hsend
  exact .of_act .send t hrunning rfl ht

theorem Orderly.work_le :
    c.work stand ≤ 27 + 3 * calls.length := by
  have hrank := stand.rank_le
  have hdone : c.phase.done ≤ 1 := by
    cases c.phase <;> simp [Phase.done]
  have hwritten : c.written.length ≤ 5 + calls.length := by
    rw [h.written, List.length_take, @length_script _ _ request wallclockMs calls]
    exact Nat.min_le_right _ _
  have hsent : (stand.sent request profile calls).length ≤ 3 + calls.length := by
    have hprefix : stand.sent request profile calls
        <+: replies request profile calls (stand.result?.getD (.ok .null)) :=
      sent_initial fun r hr => by rw [hr]; rfl
    exact hprefix.length_le.trans (Nat.le_of_eq length_replies)
  have hseen := h.seen
  have hdelivered := h.delivered
  unfold State.work
  omega

end

/-- A conversation comes to an end: apart from its callbacks a run is bounded, and
    until the host has returned some step takes it on. -/
theorem conversation_ends {workspace : HostWorkspace} {params : Value}
    (hrequest : HostRequest.new workspace params = .ok request) {actions : List Action}
    (hrun : Transition.run (step request profile wallclockMs) .start actions = some c)
    (hfits : Fits c) :
    actions.countP Action.advances ≤ 27 + 3 * actions.countP Action.asks
      ∧ ((∃ result, c.phase = .returned result) ∨ CanAdvance request profile wallclockMs c) := by
  have hparams := isContainer_of_new hrequest
  obtain ⟨stand, calls, h, hcalls, hwork⟩ := orderly_run hparams hrun hfits orderly_start
  refine ⟨?_, ?_⟩
  · rw [List.length_nil, Nat.zero_add] at hcalls
    rw [← hcalls]
    exact (Nat.le_add_left _ _).trans (hwork.trans h.work_le)
  · by_cases hreturned : ∃ result, c.phase = .returned result
    · exact .inl hreturned
    · exact .inr (h.can_advance hparams hfits fun result hphase => hreturned ⟨result, hphase⟩)

end

theorem conversation_ends_gap :
    ∃ c, sampleConversation = some c
      ∧ sampleActions.countP Action.advances ≤ 27 + 3 * sampleActions.countP Action.asks
      ∧ ((∃ result, c.phase = .returned result)
        ∨ @CanAdvance plainBase64 Server.bareBuild sampleDigest sampleRequest .fast 1000 c) := by
  obtain ⟨c, hc, -, hfits⟩ := sampleConversation_succeeds
  exact ⟨c, hc, @conversation_ends plainBase64 Server.bareBuild sampleDigest sampleRequest .fast
    1000 c sampleRequest.workspace sampleRequest.evaluationParams rfl sampleActions hc hfits⟩

end Opcore.Conversation
