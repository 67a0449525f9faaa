/-
  Opcore.Protocol.Admission

  What holds of the provider process in every interleaving of the frame loop
  with its evaluation tasks: at most one evaluation is live, it was admitted
  from an active session whose baseline has not moved since, and every request
  is answered exactly once.
-/
import Opcore.Protocol.Accounting

namespace Opcore.Server

open Text
open Json (Value)
open Asp Collections

variable [Build] {profile : ProviderProfile}

/-! ## The live evaluation -/

/-- The request keys of the evaluations that have not removed themselves yet. -/
def runningKeys (evaluations : List Evaluation) : List Str :=
  (evaluations.filter Evaluation.running).map Evaluation.key

/-- The live requests are those of the running evaluations, there is at most
    one, and what the frame loop has read between two locks still holds. -/
structure Consistent (s : State) : Prop where
  keys : runningKeys s.evaluations = s.active.keys
  single : s.active.keys.length ≤ 1
  admitting : ∀ serial params id session,
    s.router = .admitting serial params id session → s.lifecycle = .active session
  rebasing : ∀ baseline, s.router = .rebasing (.ok baseline) → s.active = ∅
  early : s.lifecycle.rank ≤ 1 → s.active = ∅
  baseline : ∀ session, s.lifecycle = .active session →
    ∀ e ∈ s.evaluations, e.running → e.session.baseline = session.baseline

variable {s : State}

omit [Build] in
theorem Consistent.idle (h : Consistent s) (hactive : s.active = ∅) :
    ∀ e ∈ s.evaluations, ¬ e.running := by
  intro e he hrunning
  have hnil : runningKeys s.evaluations = [] := by
    rw [h.keys, BTreeMap.keys_eq_nil_iff.mpr hactive]
  have hmem : e.key ∈ runningKeys s.evaluations :=
    List.mem_map_of_mem (List.mem_filter.mpr ⟨he, hrunning⟩)
  rw [hnil] at hmem
  cases hmem

variable {lifecycle : Lifecycle} {session : AspSession}

theorem initializeState_eq_active {params : Value}
    (h : (initializeState lifecycle params profile).2 = .active session) :
    lifecycle = .active session := by
  unfold initializeState at h
  split at h
  · split at h <;> cases h
  · exact h

/-- A session becomes active only out of the handshake. -/
theorem initializedLifecycle_eq_active {params : Value}
    (h : initializedLifecycle lifecycle params = .active session) :
    ∃ baseline, lifecycle = .awaitingInitialized baseline := by
  cases lifecycle with
  | awaitingInitialized baseline => exact ⟨baseline, rfl⟩
  | fresh => simp [initializedLifecycle, initializeSession, failLifecycle] at h
  | active session => simp [initializedLifecycle, initializeSession, failLifecycle] at h
  | failed error grantAccepted =>
    simp [initializedLifecycle, initializeSession, failLifecycle] at h
  | shuttingDown => simp [initializedLifecycle, initializeSession, failLifecycle] at h

omit [Build] in
theorem updateBaseline_eq_active {result : Except RpcFailure Value}
    (h : updateBaseline lifecycle result = .active session) :
    ∃ baseline before, result = .ok baseline ∧ lifecycle = .active before
      ∧ session = { before with baseline := baseline } := by
  cases result with
  | error error => simp [updateBaseline, failLifecycle] at h
  | ok baseline =>
    cases lifecycle with
    | active before =>
      simp only [updateBaseline, Lifecycle.active.injEq] at h
      exact ⟨baseline, before, rfl, rfl, h.symm⟩
    | fresh => simp [updateBaseline, failLifecycle] at h
    | awaitingInitialized baseline => simp [updateBaseline, failLifecycle] at h
    | failed error grantAccepted => simp [updateBaseline, failLifecycle] at h
    | shuttingDown => simp [updateBaseline, failLifecycle] at h

omit [Build] in
theorem consistent_new : Consistent State.new where
  keys := rfl
  single := by decide
  admitting := by intro _ _ _ _ h; cases h
  rebasing := by intro _ h; cases h
  early := fun _ => rfl
  baseline := by intro _ _ e he; cases he

variable {s t : State}

/-- A frame leaves the evaluations alone, and what it learns it learns under one lock. -/
theorem Consistent.read (hs : Consistent s) (ready : s.router = .ready)
    (routed : Routed profile s t) : Consistent t := by
  have hadmitting : ∀ {lifecycle : Lifecycle} serial params id session,
      s.router = .admitting serial params id session → lifecycle = .active session := by
    intro _ _ _ _ _ h
    rw [ready] at h
    cases h
  have hrebasing : ∀ {active : BTreeMap Str Bool} baseline,
      s.router = .rebasing (.ok baseline) → active = ∅ := by
    intro _ _ h
    rw [ready] at h
    cases h
  cases routed with
  | closed =>
    exact ⟨hs.keys, hs.single, by simp, by simp, hs.early, hs.baseline⟩
  | refused message =>
    exact ⟨hs.keys, hs.single, by simp, by simp, hs.early, hs.baseline⟩
  | called object pending =>
    exact ⟨hs.keys, hs.single, hadmitting, hrebasing, hs.early, hs.baseline⟩
  | ignored method params =>
    exact ⟨hs.keys, hs.single, hadmitting, hrebasing, hs.early, hs.baseline⟩
  | established method params =>
    refine ⟨hs.keys, hs.single, hadmitting, hrebasing, ?_, ?_⟩
    · intro hrank
      exact hs.early (Nat.le_trans (rank_initializedLifecycle s.lifecycle params) hrank)
    · -- A session that becomes active finds no evaluation running.
      intro session hsession e he hrunning
      obtain ⟨baseline, hawaiting⟩ := initializedLifecycle_eq_active hsession
      exact absurd hrunning (hs.idle (hs.early (by simp [hawaiting, Lifecycle.rank])) e he)
  | rebasing method params result idle =>
    refine ⟨hs.keys, hs.single, by simp, ?_, hs.early, hs.baseline⟩
    intro baseline h
    exact idle baseline (Router.rebasing.inj h)
  | cancelled method params key live =>
    have hkeys : (s.active.insert key true).keys = s.active.keys :=
      BTreeMap.keys_insert_of_contains live
    refine ⟨hs.keys.trans hkeys.symm, ?_, hadmitting, hrebasing, ?_, hs.baseline⟩
    · rw [hkeys]
      exact hs.single
    · intro hrank
      exact BTreeMap.keys_eq_nil_iff.mp (hkeys.trans (BTreeMap.keys_eq_nil_iff.mpr (hs.early hrank)))
  | leaving method params exit =>
    exact ⟨hs.keys, hs.single, by simp, by simp, hs.early, hs.baseline⟩
  | answered method params id message valid carries again =>
    exact ⟨hs.keys, hs.single, by simp, by simp, hs.early, hs.baseline⟩
  | initialized params id valid =>
    refine ⟨hs.keys, hs.single, by simp, by simp, ?_, ?_⟩
    · intro hrank
      exact hs.early (Nat.le_trans (rank_initializeState s.lifecycle params).1 hrank)
    · intro session hsession
      exact hs.baseline session (initializeState_eq_active hsession)
  | admitting params id valid session active =>
    refine ⟨hs.keys, hs.single, ?_, by simp, hs.early, hs.baseline⟩
    intro _ _ _ session' h
    cases h
    exact active
  | shutdown params id valid =>
    refine ⟨hs.keys, hs.single, by simp, by simp, ?_, by simp⟩
    intro hrank
    simp [Lifecycle.rank] at hrank

omit [Build] in
/-- A running evaluation is the only one. -/
theorem Consistent.only (hs : Consistent s) {evaluation : Evaluation}
    (mem : evaluation ∈ s.evaluations) (running : evaluation.running) :
    s.evaluations.filter Evaluation.running = [evaluation] := by
  have hmem : evaluation ∈ s.evaluations.filter Evaluation.running :=
    List.mem_filter.mpr ⟨mem, running⟩
  have hlength : (s.evaluations.filter Evaluation.running).length ≤ 1 := by
    have := hs.single
    rwa [← hs.keys, runningKeys, List.length_map] at this
  match hlist : s.evaluations.filter Evaluation.running, hmem, hlength with
  | [e], hmem, _ => rw [List.mem_singleton.mp hmem]

omit [Build] in
/-- When it removes itself, no key is left. -/
theorem Consistent.runningKeys_finished (hs : Consistent s) {evaluation : Evaluation}
    (mem : evaluation ∈ s.evaluations) (running : evaluation.running)
    (result : Except RpcFailure Value) :
    runningKeys (s.evaluations.map fun e =>
        if e.serial = evaluation.serial then { e with result := some result } else e)
      = (s.active.erase evaluation.key).keys := by
  have honly := hs.only mem running
  have hactive : s.active.keys = [evaluation.key] := by rw [← hs.keys, runningKeys, honly]; rfl
  have hnone : (s.evaluations.map fun e =>
      if e.serial = evaluation.serial then { e with result := some result } else e).filter
        Evaluation.running = [] := by
    rw [List.filter_eq_nil_iff]
    intro e he hrunning
    obtain ⟨e', he', rfl⟩ := List.mem_map.mp he
    split at hrunning
    · cases hrunning
    · next hother =>
      have : e' ∈ s.evaluations.filter Evaluation.running := List.mem_filter.mpr ⟨he', hrunning⟩
      rw [honly, List.mem_singleton] at this
      exact hother (this ▸ rfl)
  rw [runningKeys, hnone, BTreeMap.keys_erase, hactive]
  simp

omit [Build] in
theorem Consistent.moved (hs : Consistent s) (haccounted : Accounted s)
    (moved : Moved s t) : Consistent t := by
  cases moved with
  | delivered serial message router =>
    exact ⟨hs.keys, hs.single, by simp, by simp, hs.early, hs.baseline⟩
  | turnedAway serial params id session message router carries =>
    exact ⟨hs.keys, hs.single, by simp, by simp, hs.early, hs.baseline⟩
  | admitted serial params id session router idle =>
    have hactive := hs.admitting serial params id session router
    have hrunning := hs.idle idle
    refine ⟨?_, ?_, by simp, by simp, ?_, ?_⟩
    · have hnone : s.evaluations.filter Evaluation.running = [] :=
        List.filter_eq_nil_iff.mpr fun e he => hrunning e he
      simp only [idle, BTreeMap.keys_insert_empty, runningKeys, List.filter_append, hnone]
      rfl
    · simp [idle, BTreeMap.keys_insert_empty]
    · intro hrank
      simp [hactive, Lifecycle.rank] at hrank
    · intro session' hsession' e he hlive
      rw [hactive] at hsession'
      cases hsession'
      rcases List.mem_append.mp he with he | he
      · exact absurd hlive (hrunning e he)
      · cases List.mem_singleton.mp he
        rfl
  | rebased result router =>
    refine ⟨hs.keys, hs.single, by simp, by simp, ?_, ?_⟩
    · intro hrank
      have := Nat.le_trans (rank_updateBaseline s.lifecycle result).2 hrank
      omega
    · intro session hsession e he hlive
      obtain ⟨baseline, before, rfl, -, -⟩ := updateBaseline_eq_active hsession
      exact absurd hlive (hs.idle (hs.rebasing baseline router) e he)
  | cancelled serial id router =>
    refine ⟨?_, ?_, by simp, by simp, ?_, hs.baseline⟩
    · simpa [State.cancelAll] using hs.keys
    · simpa [State.cancelAll] using hs.single
    · intro hrank
      rw [← BTreeMap.keys_eq_nil_iff]
      simpa [State.cancelAll] using BTreeMap.keys_eq_nil_iff.mpr (hs.early hrank)
  | waited serial id router =>
    exact ⟨hs.keys, hs.single, by simp, by simp, hs.early, hs.baseline⟩
  | left exit router =>
    refine ⟨?_, ?_, by simp, by simp, ?_, hs.baseline⟩
    · simpa [State.cancelAll] using hs.keys
    · simpa [State.cancelAll] using hs.single
    · intro hrank
      rw [← BTreeMap.keys_eq_nil_iff]
      simpa [State.cancelAll] using BTreeMap.keys_eq_nil_iff.mpr (hs.early hrank)
  | called message nextId pending =>
    exact ⟨hs.keys, hs.single, hs.admitting, hs.rebasing, hs.early, hs.baseline⟩
  | abandoned pending =>
    exact ⟨hs.keys, hs.single, hs.admitting, hs.rebasing, hs.early, hs.baseline⟩
  | finished evaluation result mem running =>
    have hsub : ∀ {m : BTreeMap Str Bool}, m = ∅ → m.erase evaluation.key = ∅ := by
      rintro _ rfl
      rfl
    refine ⟨hs.runningKeys_finished mem running result, ?_, hs.admitting, ?_, ?_, ?_⟩
    · rw [BTreeMap.keys_erase]
      exact Nat.le_trans (List.length_filter_le ..) hs.single
    · intro baseline hrouter
      exact hsub (hs.rebasing baseline hrouter)
    · intro hrank
      exact hsub (hs.early hrank)
    · intro session hsession e he hlive
      obtain ⟨e', he', rfl⟩ := List.mem_map.mp he
      split at hlive
      · cases hlive
      · next hother =>
        rw [if_neg hother]
        exact hs.baseline session hsession e' he' hlive
  | responded evaluation result mem finished =>
    -- The evaluation that leaves is not running, and no other has its number.
    have hstays : ∀ e ∈ s.evaluations, e.running → e.serial ≠ evaluation.serial := by
      intro e he hrunning hserial
      obtain rfl := haccounted.unique he mem hserial
      simp [Evaluation.running, finished] at hrunning
    have hfilter : (s.evaluations.filter fun e => e.serial ≠ evaluation.serial).filter
        Evaluation.running = s.evaluations.filter Evaluation.running := by
      rw [List.filter_filter]
      apply List.filter_congr
      intro e he
      by_cases hrunning : e.running
      · simp [hrunning, hstays e he hrunning]
      · simp [hrunning]
    refine ⟨?_, hs.single, hs.admitting, hs.rebasing, hs.early, ?_⟩
    · rw [runningKeys, hfilter]
      exact hs.keys
    · intro session hsession e he
      exact hs.baseline session hsession e (List.mem_filter.mp he).1

theorem consistent_step (hs : Consistent s) (haccounted : Accounted s) {a : Action}
    (h : step profile s a = some t) : Consistent t := by
  cases stepped_of_step h with
  | read event ready routed => exact hs.read ready routed
  | internal _ moved => exact hs.moved haccounted moved

/-! ## Every reachable state -/

/-- The states the process can get into. -/
abbrev Reachable (profile : ProviderProfile) (s : State) : Prop :=
  Transition.Reachable (step profile) State.new s

theorem reachable_invariants (hs : Reachable profile s) :
    Accounted s ∧ Carried s ∧ Consistent s := by
  refine @Transition.Reachable.invariant _ _ _ _ _ (fun s => Accounted s ∧ Carried s ∧ Consistent s)
    ⟨accounted_new, carried_new, consistent_new⟩ ?_ hs
  rintro s a t ⟨haccounted, hcarried, hconsistent⟩ h
  exact ⟨accounted_step haccounted h, carried_step hcarried h,
    consistent_step hconsistent haccounted h⟩

/-- The step from `s` to `t` starts the evaluation `e`. -/
def Admits (s t : State) (e : Evaluation) : Prop :=
  e ∈ t.evaluations ∧ ∀ e' ∈ s.evaluations, e'.serial ≠ e.serial

omit [Build] in
theorem Consistent.admits_moved (hs : Consistent s) (moved : Moved s t)
    {e : Evaluation} (hadmits : Admits s t e) : s.lifecycle = .active e.session := by
  obtain ⟨hmem, hnew⟩ := hadmits
  cases moved with
  | admitted serial params id session router idle =>
    rcases List.mem_append.mp hmem with hmem | hmem
    · exact absurd rfl (hnew e hmem)
    · cases List.mem_singleton.mp hmem
      exact hs.admitting _ _ _ _ router
  | finished evaluation result mem running =>
    obtain ⟨e', he', rfl⟩ := List.mem_map.mp hmem
    refine absurd ?_ (hnew e' he')
    split <;> rfl
  | responded evaluation result mem finished =>
    exact absurd rfl (hnew e (List.mem_filter.mp hmem).1)
  | _ => exact absurd rfl (hnew e hmem)

theorem Consistent.admits (hs : Consistent s) {a : Action}
    (h : step profile s a = some t) {e : Evaluation} (hadmits : Admits s t e) :
    s.lifecycle = .active e.session := by
  cases stepped_of_step h with
  | read event ready routed =>
    obtain ⟨hmem, hnew⟩ := hadmits
    generalize s.receive profile event = t at routed hmem
    cases routed <;> exact absurd rfl (hnew e hmem)
  | internal _ moved => exact hs.admits_moved moved hadmits

theorem run_rank {as : List Action} (hrun : Transition.run (step profile) s as = some t) :
    s.lifecycle.rank ≤ t.lifecycle.rank :=
  @Transition.run_preserves _ _ _ _ _ _ (fun u => s.lifecycle.rank ≤ u.lifecycle.rank)
    (fun _ => True) (fun _ _ _ hu _ h => Nat.le_trans hu (step_rank h)) hrun
    (fun _ _ => trivial) (Nat.le_refl _)

/-! ## Without further frames, everything in flight is answered -/

/-- The frame loop has nothing left to do. -/
def Router.settled : Router → Bool
  | .ready | .stopped _ => true
  | _ => false

/-- `t` follows `s` without any frame being read. -/
def Drains (profile : ProviderProfile) (s t : State) : Prop :=
  ∃ as : List Action, (∀ a ∈ as, a.internal)
    ∧ Transition.run (step profile) s as = some t ∧ t.received = s.received

theorem Drains.refl (s : State) : Drains profile s s := ⟨[], by simp, rfl, rfl⟩

theorem Drains.trans {s t u : State} (h₁ : Drains profile s t) (h₂ : Drains profile t u) :
    Drains profile s u := by
  obtain ⟨as, hint, hrun, hreceived⟩ := h₁
  obtain ⟨bs, hint', hrun', hreceived'⟩ := h₂
  refine ⟨as ++ bs, ?_, Transition.run_append hrun hrun', hreceived'.trans hreceived⟩
  intro a ha
  rcases List.mem_append.mp ha with ha | ha
  · exact hint a ha
  · exact hint' a ha

theorem Drains.single {s t : State} {a : Action} (ha : a.internal) (h : step profile s a = some t)
    (hreceived : t.received = s.received) : Drains profile s t :=
  ⟨[a], by simpa using ha, by simp [Transition.run, h], hreceived⟩

theorem Drains.proceed (h : s.proceed = some t)
    (hreceived : t.received = s.received) : Drains profile s t :=
  @Drains.single _ _ _ _ .proceed rfl h hreceived

theorem drains_sending {s : State} {serial : Option Nat} {message : Value}
    (h : s.router = .sending serial message) :
    ∃ t, Drains profile s t ∧ t.router.settled := by
  have hstep : s.proceed = some { s.send serial message with router := .ready } := by
    simp only [State.proceed, h]
  exact ⟨_, .proceed hstep rfl, rfl⟩

theorem drains_waiting {s : State} {serial : Nat} {id : Value}
    (h : s.router = .waiting serial id) : ∃ t, Drains profile s t ∧ t.router.settled := by
  have hstep : step profile s .expire
      = some { s with router := .sending (some serial) (resultMessage id .null) } := by
    simp only [step, State.expire, h]
  obtain ⟨t, ht, hsettled⟩ := @drains_sending _ profile
    { s with router := .sending (some serial) (resultMessage id .null) } _ _ rfl
  exact ⟨t, (Drains.single rfl hstep rfl).trans ht, hsettled⟩

omit [Build] in
theorem admit_router (s : State) (serial : Nat) (params id : Value) (session : AspSession) :
    (s.evaluateLocked serial params id session).received = s.received
      ∧ ((s.evaluateLocked serial params id session).router = .ready
        ∨ ∃ message, (s.evaluateLocked serial params id session).router
            = .sending (some serial) message) := by
  unfold State.evaluateLocked
  dsimp only
  split
  · exact ⟨rfl, .inr ⟨_, rfl⟩⟩
  split
  · exact ⟨rfl, .inr ⟨_, rfl⟩⟩
  · exact ⟨rfl, .inl rfl⟩

/-- The frame loop comes to the end of what it is doing. -/
theorem drains_router (s : State) : ∃ t, Drains profile s t ∧ t.router.settled := by
  cases hrouter : s.router with
  | ready => exact ⟨s, .refl s, by rw [hrouter]; rfl⟩
  | stopped exit => exact ⟨s, .refl s, by rw [hrouter]; rfl⟩
  | sending serial message => exact drains_sending hrouter
  | admitting serial params id session =>
    have hstep : s.proceed = some (s.evaluateLocked serial params id session) := by
      simp only [State.proceed, hrouter]
    obtain ⟨hreceived, hready | ⟨message, hsending⟩⟩ := admit_router s serial params id session
    · exact ⟨_, .proceed hstep hreceived, by rw [hready]; rfl⟩
    · obtain ⟨t, ht, hsettled⟩ := @drains_sending _ profile _ _ _ hsending
      exact ⟨t, (Drains.proceed hstep hreceived).trans ht, hsettled⟩
  | rebasing result =>
    have hstep : s.proceed
        = some { s with lifecycle := updateBaseline s.lifecycle result, router := .ready } := by
      simp only [State.proceed, hrouter]
    exact ⟨_, .proceed hstep rfl, rfl⟩
  | cancelling serial id =>
    have hstep : s.proceed = some { s.cancelAll with router := .waiting serial id } := by
      simp only [State.proceed, hrouter]
    obtain ⟨t, ht, hsettled⟩ := @drains_waiting _ profile
      { s.cancelAll with router := .waiting serial id } serial id rfl
    exact ⟨t, (Drains.proceed hstep rfl).trans ht, hsettled⟩
  | waiting serial id => exact drains_waiting hrouter
  | leaving exit =>
    have hstep : s.proceed
        = some { s.cancelAll with pending := ∅, router := .stopped exit } := by
      simp only [State.proceed, hrouter]
    exact ⟨_, .proceed hstep rfl, rfl⟩

/-- The first evaluation that has finished sends its result. -/
theorem drains_finished {s : State} {e : Evaluation} {rest : List Evaluation}
    (hevaluations : s.evaluations = e :: rest) {result : Except RpcFailure Value}
    (hresult : e.result = some result) :
    ∃ t, Drains profile s t ∧ t.router = s.router
      ∧ t.evaluations.length < s.evaluations.length := by
  have hstep : step profile s (.respond e.serial)
      = some { s.send (some e.serial) (responseMessage e.id result) with
          evaluations := s.evaluations.filter fun e' => e'.serial ≠ e.serial } := by
    simp only [step, State.respond, hevaluations, List.find?_cons, decide_true, hresult]
  refine ⟨_, .single rfl hstep rfl, rfl, ?_⟩
  have : (rest.filter fun e' => e'.serial ≠ e.serial).length ≤ rest.length :=
    List.length_filter_le ..
  simp only [hevaluations, List.filter_cons, ne_eq, not_true_eq_false, decide_false,
    Bool.false_eq_true, if_false, List.length_cons] at this ⊢
  omega

/-- So does the first evaluation that is still running, once it returns. -/
theorem drains_first {s : State} (h : s.evaluations ≠ []) :
    ∃ t, Drains profile s t ∧ t.router = s.router
      ∧ t.evaluations.length < s.evaluations.length := by
  obtain ⟨e, rest, hevaluations⟩ := List.exists_cons_of_ne_nil h
  cases hresult : e.result with
  | some result => exact drains_finished hevaluations hresult
  | none =>
    let finish : Evaluation → Evaluation := fun e' =>
      if e'.serial = e.serial then { e' with result := some (.error .cancelled) } else e'
    have hstep : step profile s (.finish e.serial (.error .cancelled))
        = some { s with
            active := s.active.erase e.key
            evaluations := s.evaluations.map finish } := by
      simp only [step, State.finish, hevaluations, List.find?_cons, decide_true,
        Evaluation.running, hresult, Option.isNone_none, Bool.and_self, finish]
    have hmapped : s.evaluations.map finish
        = { e with result := some (.error .cancelled) } :: rest.map finish := by
      simp [hevaluations, finish]
    obtain ⟨t, ht, hrouter, hlength⟩ := @drains_finished _ profile
      { s with active := s.active.erase e.key, evaluations := s.evaluations.map finish }
      _ _ hmapped _ rfl
    exact ⟨t, (Drains.single rfl hstep rfl).trans ht, hrouter, by simpa using hlength⟩

theorem drains_evaluations (s : State) :
    ∃ t, Drains profile s t ∧ t.router = s.router ∧ t.evaluations = [] := by
  induction hn : s.evaluations.length using Nat.strong_induction_on generalizing s with
  | _ n ih =>
    by_cases hnil : s.evaluations = []
    · exact ⟨s, .refl s, rfl, hnil⟩
    · obtain ⟨t, hst, hrouter, hless⟩ := @drains_first _ profile s hnil
      obtain ⟨u, htu, hrouter', hdone⟩ := ih _ (hn ▸ hless) t rfl
      exact ⟨u, hst.trans htu, hrouter'.trans hrouter, hdone⟩

/-- From every state the process can come to rest with nothing in flight. -/
theorem drains_quiet (s : State) : ∃ t, Drains profile s t ∧ ∀ i, t.inFlight i = 0 := by
  obtain ⟨t, hst, hsettled⟩ := @drains_router _ profile s
  obtain ⟨u, htu, hrouter, hdone⟩ := @drains_evaluations _ profile t
  refine ⟨u, hst.trans htu, ?_⟩
  intro i
  have hholds : u.router.holds = none := by
    rw [hrouter]
    cases hrouter' : t.router <;> rw [hrouter'] at hsettled <;> first | rfl | cases hsettled
  simp [State.inFlight, hholds, hdone]

/-! ## Admission is safe -/

/-- The lifecycle of the process is `Active`. -/
def State.IsActive (s : State) : Prop := ∃ session, s.lifecycle = .active session

/-- What admission guarantees in every interleaving of frames and tasks. -/
structure AdmissionSafe (profile : ProviderProfile) : Prop where
  /-- at most one evaluation is active, and the active ones are the running tasks -/
  atMostOne : ∀ s, Reachable profile s →
    s.active.size ≤ 1 ∧ (s.evaluations.filter Evaluation.running).map Evaluation.key = s.active.keys
  /-- an evaluation is admitted only while the lifecycle is `Active`, with its session -/
  whileActive : ∀ s t a e, Reachable profile s → step profile s a = some t → Admits s t e →
    s.lifecycle = .active e.session
  /-- once the lifecycle has left `Active`, no later evaluation is admitted -/
  neverAgain : ∀ s t u v as bs a e, Reachable profile s → s.IsActive →
    Transition.run (step profile) s as = some t → ¬ t.IsActive →
    Transition.run (step profile) t bs = some u → step profile u a = some v → ¬ Admits u v e
  /-- a running evaluation was admitted with the current baseline of an active session -/
  sameBaseline : ∀ s session e, Reachable profile s → s.lifecycle = .active session →
    e ∈ s.evaluations → e.running → e.session.baseline = session.baseline
  /-- a request is answered at most once, with its id, and until then its answer is in
      exactly one place -/
  atMostOnce : ∀ s i id, Reachable profile s → requestId s.received i = some id →
    (s.answers i).length + s.inFlight i = 1
      ∧ ∀ m ∈ s.answers i, m.message.get? (ascii "id") = some id
  /-- and when the frame loop and the tasks have done what they are doing, it is answered -/
  answered : ∀ s, Reachable profile s → ∃ t, Drains profile s t ∧
    ∀ i id, requestId s.received i = some id →
      ∃ m, t.answers i = [m] ∧ m.message.get? (ascii "id") = some id

omit [Build] in
theorem Carried.answers (hs : Carried s) {i : Nat} {id : Value}
    (hid : requestId s.received i = some id) :
    ∀ m ∈ s.answers i, m.message.get? (ascii "id") = some id := by
  intro m hm
  obtain ⟨hmem, hserial⟩ := List.mem_filter.mp hm
  obtain ⟨id', hid', hcarries⟩ := hs.sent m hmem i (by simpa using hserial)
  rw [hid] at hid'
  cases hid'
  exact hcarries

theorem admissionSafe (profile : ProviderProfile) : AdmissionSafe profile where
  atMostOne := by
    intro s hs
    obtain ⟨-, -, hconsistent⟩ := reachable_invariants hs
    refine ⟨?_, hconsistent.keys⟩
    have := hconsistent.single
    rwa [BTreeMap.keys, List.length_map] at this
  whileActive := by
    intro s t a e hs hstep hadmits
    exact (reachable_invariants hs).2.2.admits hstep hadmits
  neverAgain := by
    intro s t u v as bs a e hs hactive hst hleft htu hstep hadmits
    have hu : Reachable profile u := (hs.trans hst).trans htu
    have hsession := (reachable_invariants hu).2.2.admits hstep hadmits
    have hrank : s.lifecycle.rank = 2 := Lifecycle.rank_eq_two_iff.mpr hactive
    have hrank' : t.lifecycle.rank ≠ 2 := fun h => hleft (Lifecycle.rank_eq_two_iff.mp h)
    have hrank'' : u.lifecycle.rank = 2 := Lifecycle.rank_eq_two_iff.mpr ⟨_, hsession⟩
    have h₁ := run_rank hst
    have h₂ := run_rank htu
    omega
  sameBaseline := by
    intro s session e hs hsession hmem hrunning
    exact (reachable_invariants hs).2.2.baseline session hsession e hmem hrunning
  atMostOnce := by
    intro s i id hs hid
    obtain ⟨haccounted, hcarried, -⟩ := reachable_invariants hs
    have := haccounted i
    rw [hid, Option.isSome_some, if_pos rfl] at this
    exact ⟨this, hcarried.answers hid⟩
  answered := by
    intro s hs
    obtain ⟨t, hdrains, hquiet⟩ := @drains_quiet _ profile s
    refine ⟨t, hdrains, ?_⟩
    intro i id hid
    obtain ⟨as, -, hrun, hreceived⟩ := hdrains
    obtain ⟨haccounted, hcarried, -⟩ := reachable_invariants (hs.trans hrun)
    rw [← hreceived] at hid
    have := haccounted i
    rw [hquiet i, hid, Option.isSome_some, if_pos rfl] at this
    obtain ⟨m, hm⟩ := List.length_eq_one_iff.mp this
    exact ⟨m, hm, hcarried.answers hid m (by simp [hm])⟩

end Opcore.Server
