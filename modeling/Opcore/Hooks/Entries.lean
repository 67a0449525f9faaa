/-
  Opcore.Hooks.Entries

  What the edits of the installer do to a configuration: handlers that are not
  its own stay as they are, with their groups, and its own are taken out or put
  in.
-/
import Opcore.Hooks.Install

namespace Opcore.Hooks

open Text Json Asp

/-! ## Handlers of groups -/

def groupSettings (group : Value) : List (Str × Value) :=
  removeMember (group.asObject?.getD []) hooksKey

def groupHandlers (group : Value) : List Value :=
  ((group.get? hooksKey).bind asArray?).getD []

/-- The entry an installer for the agent writes, for some binary. -/
def Installs (agent : Agent) (owned : OwnedHook) : Prop :=
  ∃ args : ConfigureHookArgs, args.agent = agent ∧ isAbsolute args.binary = true
    ∧ installedHook args = .ok owned

/-- A handler of a group is an entry of the installer. -/
def IsInstaller (agent : Agent) (group handler : Value) : Prop :=
  ∃ owned, Installs agent owned ∧ groupMatcher group = some owned.matcher ∧ handler = owned.entry

noncomputable instance (agent : Agent) (group handler : Value) :
    Decidable (IsInstaller agent group handler) := Classical.propDecidable _

/-- The entries of the installer in some groups. -/
noncomputable def entriesIn (agent : Agent) (groups : List Value) : List Value :=
  groups.flatMap fun group => (groupHandlers group).filter fun handler =>
    IsInstaller agent group handler

/-- The other handlers of some groups, each with the rest of its group. -/
noncomputable def foreignIn (agent : Agent) (groups : List Value) :
    List (List (Str × Value) × Value) :=
  groups.flatMap fun group =>
    ((groupHandlers group).filter fun handler => ¬ IsInstaller agent group handler).map
      fun handler => (groupSettings group, handler)

theorem installedHook_spec {args : ConfigureHookArgs} {owned : OwnedHook}
    (h : installedHook args = .ok owned) :
    owned.matcher = args.agent.matcher ∧ isObject owned.entry = true := by
  unfold installedHook hookWithStatus at h
  cases hcommand : hookCommand args.binary with
  | error error =>
    rw [hcommand] at h
    cases h
  | ok command =>
    rw [hcommand] at h
    cases h
    exact ⟨rfl, rfl⟩

variable {agent : Agent}

theorem Installs.matcher {owned : OwnedHook} (h : Installs agent owned) :
    owned.matcher = agent.matcher := by
  obtain ⟨args, rfl, -, h⟩ := h
  exact (installedHook_spec h).1

theorem Installs.isObject {owned : OwnedHook} (h : Installs agent owned) :
    isObject owned.entry = true := by
  obtain ⟨args, -, -, h⟩ := h
  exact (installedHook_spec h).2

theorem IsInstaller.congr {group group' handler : Value}
    (h : groupMatcher group' = groupMatcher group) :
    IsInstaller agent group' handler ↔ IsInstaller agent group handler := by
  unfold IsInstaller
  rw [h]

/-- An owned handler is an entry of the installer. -/
theorem isInstaller_of_isOwned {owned : List OwnedHook}
    (howned : ∀ o ∈ owned, Installs agent o) {group handler : Value}
    (h : isOwned owned (groupMatcher group) handler = true) : IsInstaller agent group handler := by
  obtain ⟨o, ho, heq⟩ := List.any_eq_true.mp h
  rw [Bool.and_eq_true, decide_eq_true_eq, decide_eq_true_eq] at heq
  exact ⟨o, howned o ho, heq.1, heq.2⟩

/-- An entry of the installer that the receipt lists is owned. -/
theorem isOwned_of_isInstaller {owned : List OwnedHook} {group handler : Value}
    (h : IsInstaller agent group handler) (hmem : ⟨agent.matcher, handler⟩ ∈ owned) :
    isOwned owned (groupMatcher group) handler = true := by
  obtain ⟨o, ho, hmatcher, -⟩ := h
  refine List.any_eq_true.mpr ⟨_, hmem, ?_⟩
  rw [Bool.and_eq_true, decide_eq_true_eq, decide_eq_true_eq]
  exact ⟨hmatcher.trans (congrArg some ho.matcher), rfl⟩

section

variable {members : List (Str × Value)} {handlers : List Value}

theorem groupHandlers_object (h : members.lookup hooksKey = some (.array handlers)) :
    groupHandlers (.object members) = handlers := by
  show ((members.lookup hooksKey).bind asArray?).getD [] = handlers
  rw [h]
  rfl

theorem groupHandlers_setMember :
    groupHandlers (.object (setMember members hooksKey (.array handlers))) = handlers :=
  groupHandlers_object (by rw [lookup_setMember, if_pos rfl])

theorem groupMatcher_setMember {value : Value} :
    groupMatcher (.object (setMember members hooksKey value)) = groupMatcher (.object members) := by
  show ((setMember members hooksKey _).lookup (ascii "matcher")).bind _ = _
  rw [lookup_setMember, if_neg (by decide)]
  rfl

theorem addToGroup_object (h : members.lookup hooksKey = some (.array handlers)) (entry : Value) :
    addToGroup (.object members) entry
      = .ok (.object (setMember members hooksKey (.array (handlers ++ [entry])))) := by
  show (arrayEntry members hooksKey >>= fun _ => _) = _
  unfold arrayEntry
  rw [h]
  rfl

end

/-! ## Taking entries out -/

theorem retainEntries_spec (owned : List OwnedHook) (group : Value) :
    groupMatcher (retainEntries owned group) = groupMatcher group
      ∧ groupSettings (retainEntries owned group) = groupSettings group
      ∧ groupHandlers (retainEntries owned group)
        = (groupHandlers group).filter fun entry => !isOwned owned (groupMatcher group) entry := by
  cases group with
  | null => exact ⟨rfl, rfl, rfl⟩
  | bool b => exact ⟨rfl, rfl, rfl⟩
  | number n => exact ⟨rfl, rfl, rfl⟩
  | string s => exact ⟨rfl, rfl, rfl⟩
  | array items => exact ⟨rfl, rfl, rfl⟩
  | object members =>
    by_cases harray : ∃ entries, members.lookup hooksKey = some (.array entries)
    · obtain ⟨entries, hlookup⟩ := harray
      have hretain : retainEntries owned (.object members)
          = .object (setMember members hooksKey (.array (entries.filter fun entry =>
            !isOwned owned (groupMatcher (.object members)) entry))) := by
        simp only [retainEntries, hlookup]
      rw [hretain, groupHandlers_object hlookup]
      exact ⟨groupMatcher_setMember, removeMember_setMember, groupHandlers_setMember⟩
    · have hretain : retainEntries owned (.object members) = .object members := by
        simp only [retainEntries]
        split
        · next entries hlookup => exact absurd ⟨entries, hlookup⟩ harray
        · rfl
      have hhandlers : groupHandlers (.object members) = [] := by
        show ((members.lookup hooksKey).bind asArray?).getD [] = []
        cases hlookup : members.lookup hooksKey with
        | none => rfl
        | some value =>
          cases value with
          | array entries => exact absurd ⟨entries, hlookup⟩ harray
          | _ => rfl
      rw [hretain, hhandlers]
      exact ⟨rfl, rfl, rfl⟩

/-- A group that goes has no handlers. -/
theorem groupHandlers_of_retainGroup {group : Value} (h : retainGroup group = false) :
    groupHandlers group = [] := by
  unfold retainGroup at h
  unfold groupHandlers
  cases hentries : (group.get? hooksKey).bind asArray? with
  | none => rfl
  | some entries =>
    rw [hentries] at h
    cases entries with
    | nil => rfl
    | cons entry entries => simp at h

/-- What is left of some groups. -/
def retained (owned : List OwnedHook) (groups : List Value) : List Value :=
  (groups.map (retainEntries owned)).filter retainGroup

/-- Handlers can be gathered from the groups before those without any go. -/
theorem flatMap_filter_retainGroup {α : Type} {f : Value → List α}
    (hf : ∀ group, groupHandlers group = [] → f group = []) (groups : List Value) :
    (groups.filter retainGroup).flatMap f = groups.flatMap f := by
  induction groups with
  | nil => rfl
  | cons group groups ih =>
    rw [List.flatMap_cons, ← ih]
    cases hgroup : retainGroup group with
    | true => rw [List.filter_cons_of_pos hgroup, List.flatMap_cons]
    | false =>
      rw [List.filter_cons_of_neg (by simp [hgroup]),
        hf group (groupHandlers_of_retainGroup hgroup), List.nil_append]

/-- Taking owned entries out leaves the other handlers. -/
theorem foreignIn_retained {owned : List OwnedHook}
    (howned : ∀ o ∈ owned, Installs agent o) (groups : List Value) :
    foreignIn agent (retained owned groups) = foreignIn agent groups := by
  unfold foreignIn retained
  rw [flatMap_filter_retainGroup (fun group hgroup => by simp [hgroup]), List.flatMap_map]
  apply List.flatMap_congr
  intro group _
  obtain ⟨hmatcher, hsettings, hhandlers⟩ := retainEntries_spec owned group
  rw [hsettings, hhandlers, List.filter_filter]
  congr 1
  apply List.filter_congr
  intro handler _
  have hsame : decide (¬ IsInstaller agent (retainEntries owned group) handler)
      = decide (¬ IsInstaller agent group handler) :=
    decide_eq_decide.mpr (not_congr (IsInstaller.congr hmatcher))
  rw [hsame]
  by_cases hinstaller : IsInstaller agent group handler
  · simp [hinstaller]
  · have hnot : isOwned owned (groupMatcher group) handler = false := by
      rw [← Bool.not_eq_true]
      exact fun h => hinstaller (isInstaller_of_isOwned howned h)
    simp [hinstaller, hnot]

/-- No entry of the installer is left where all of them are owned. -/
theorem entriesIn_retained {owned : List OwnedHook} {groups : List Value}
    (hcovered : ∀ entry ∈ entriesIn agent groups, ⟨agent.matcher, entry⟩ ∈ owned) :
    entriesIn agent (retained owned groups) = [] := by
  unfold retained entriesIn
  rw [flatMap_filter_retainGroup (fun group hgroup => by simp [hgroup]), List.flatMap_map,
    List.flatMap_eq_nil_iff]
  intro group hgroup
  obtain ⟨hmatcher, -, hhandlers⟩ := retainEntries_spec owned group
  rw [hhandlers, List.filter_filter, List.filter_eq_nil_iff]
  intro handler hhandler hboth
  rw [Bool.and_eq_true, decide_eq_true_eq, IsInstaller.congr hmatcher] at hboth
  obtain ⟨hinstaller, hfree⟩ := hboth
  have hmem : handler ∈ entriesIn agent groups := by
    refine List.mem_flatMap.mpr ⟨group, hgroup, List.mem_filter.mpr ⟨hhandler, ?_⟩⟩
    exact decide_eq_true hinstaller
  rw [isOwned_of_isInstaller hinstaller (hcovered handler hmem)] at hfree
  cases hfree

/-! ## Putting an entry in -/

variable {event : Str}

theorem validateHookGroup_ok_iff {group : Value} :
    validateHookGroup event group = .ok () ↔ ∃ members handlers, group = .object members
      ∧ members.lookup hooksKey = some (.array handlers) ∧ handlers.all isObject = true := by
  constructor
  · intro h
    unfold validateHookGroup at h
    cases group with
    | object members =>
      cases hlookup : members.lookup hooksKey with
      | none =>
        have hnone : ((Value.object members).get? (ascii "hooks")).bind asArray? = none := by
          show (members.lookup hooksKey).bind asArray? = none
          rw [hlookup]
          rfl
        rw [hnone] at h
        cases h
      | some value =>
        have hsome : ((Value.object members).get? (ascii "hooks")).bind asArray? = asArray? value := by
          show (members.lookup hooksKey).bind asArray? = asArray? value
          rw [hlookup]
          rfl
        rw [hsome] at h
        cases value with
        | array handlers =>
          refine ⟨members, handlers, rfl, hlookup, ?_⟩
          by_contra hnot
          rw [show asArray? (.array handlers) = some handlers from rfl] at h
          dsimp only at h
          rw [if_neg hnot] at h
          cases h
        | _ => cases h
    | _ => cases h
  · rintro ⟨members, handlers, rfl, hlookup, hall⟩
    have hsome : ((Value.object members).get? (ascii "hooks")).bind asArray? = some handlers := by
      show (members.lookup hooksKey).bind asArray? = some handlers
      rw [hlookup]
      rfl
    unfold validateHookGroup
    rw [hsome]
    exact if_pos hall

/-- The entry is added at the end of a well-formed group. -/
theorem addToGroup_spec {group entry : Value}
    (hvalid : validateHookGroup event group = .ok ()) (hentry : isObject entry = true) :
    ∃ group', addToGroup group entry = .ok group'
      ∧ validateHookGroup event group' = .ok ()
      ∧ groupMatcher group' = groupMatcher group ∧ groupSettings group' = groupSettings group
      ∧ groupHandlers group' = groupHandlers group ++ [entry] := by
  obtain ⟨members, handlers, rfl, hlookup, hall⟩ := validateHookGroup_ok_iff.mp hvalid
  refine ⟨_, addToGroup_object hlookup entry, ?_, groupMatcher_setMember, removeMember_setMember, ?_⟩
  · refine validateHookGroup_ok_iff.mpr ⟨_, handlers ++ [entry], rfl, ?_, ?_⟩
    · rw [lookup_setMember, if_pos rfl]
    · rw [List.all_append, hall]
      simpa using hentry
  · rw [groupHandlers_setMember, groupHandlers_object hlookup]

/-- There is a place for an entry in all well-formed groups. -/
theorem addToGroups_ok {owned : OwnedHook} (hobject : isObject owned.entry = true)
    {groups : List Value} (hvalid : ∀ group ∈ groups, validateHookGroup event group = .ok ()) :
    ∃ groups', addToGroups owned groups = .ok groups' ∧ groups' ≠ []
      ∧ ∀ group ∈ groups', validateHookGroup event group = .ok () := by
  induction groups with
  | nil =>
    refine ⟨_, rfl, List.cons_ne_nil _ _, ?_⟩
    rw [List.forall_mem_singleton]
    exact validateHookGroup_ok_iff.mpr ⟨_, [owned.entry], rfl, rfl, by simpa using hobject⟩
  | cons group groups ih =>
    obtain ⟨hgroup, hvalid⟩ := List.forall_mem_cons.mp hvalid
    unfold addToGroups
    split_ifs
    · obtain ⟨group', hadd, hgroup', -⟩ := addToGroup_spec hgroup hobject
      refine ⟨group' :: groups, ?_, List.cons_ne_nil _ _, List.forall_mem_cons.mpr ⟨hgroup', hvalid⟩⟩
      rw [hadd]
      rfl
    · obtain ⟨groups', hadd, -, hvalid'⟩ := ih hvalid
      refine ⟨group :: groups', ?_, List.cons_ne_nil _ _, List.forall_mem_cons.mpr ⟨hgroup, hvalid'⟩⟩
      rw [hadd]
      rfl

/-- The entry is then a handler of a group with its matcher. -/
theorem exists_entry_addToGroups {owned : OwnedHook} {groups groups' : List Value}
    (hobject : isObject owned.entry = true)
    (hvalid : ∀ group ∈ groups, validateHookGroup event group = .ok ())
    (hadd : addToGroups owned groups = .ok groups') :
    ∃ group ∈ groups', groupMatcher group = some owned.matcher
      ∧ owned.entry ∈ groupHandlers group := by
  induction groups generalizing groups' with
  | nil =>
    cases hadd
    exact ⟨_, List.mem_singleton_self _, rfl, List.mem_singleton_self _⟩
  | cons group groups ih =>
    obtain ⟨hgroup, hvalid⟩ := List.forall_mem_cons.mp hvalid
    unfold addToGroups at hadd
    split_ifs at hadd with hmatcher
    · obtain ⟨group', hadd', -, hmatcher', -, hhandlers⟩ := addToGroup_spec hgroup hobject
      rw [hadd'] at hadd
      cases hadd
      refine ⟨group', List.mem_cons_self, hmatcher'.trans hmatcher, ?_⟩
      rw [hhandlers]
      exact List.mem_append_right _ (List.mem_singleton_self _)
    · obtain ⟨groups'', hadd', -⟩ := addToGroups_ok hobject hvalid
      rw [hadd'] at hadd
      cases hadd
      obtain ⟨found, hmem, hfound⟩ := ih hvalid hadd'
      exact ⟨found, List.mem_cons_of_mem _ hmem, hfound⟩

/-- A new entry joins the entries of the installer and leaves the other handlers. -/
theorem addToGroups_spec {owned : OwnedHook} (howned : Installs agent owned)
    {groups groups' : List Value}
    (hvalid : ∀ group ∈ groups, validateHookGroup event group = .ok ())
    (hadd : addToGroups owned groups = .ok groups') :
    foreignIn agent groups' = foreignIn agent groups
      ∧ (entriesIn agent groups = [] → entriesIn agent groups' = [owned.entry]) := by
  induction groups generalizing groups' with
  | nil =>
    cases hadd
    have hinstaller : IsInstaller agent (.object [(hooksKey, .array [owned.entry]),
        (ascii "matcher", .string owned.matcher)]) owned.entry := ⟨owned, howned, rfl, rfl⟩
    refine ⟨?_, fun _ => ?_⟩
    · show ((([owned.entry] : List Value).filter _).map _) ++ [] = []
      simp [hinstaller]
    · show (([owned.entry] : List Value).filter _) ++ [] = _
      simp [hinstaller]
  | cons group groups ih =>
    obtain ⟨hgroup, hvalid⟩ := List.forall_mem_cons.mp hvalid
    unfold addToGroups at hadd
    -- The entry goes into the first group of its matcher.
    by_cases hmatcher : groupMatcher group = some owned.matcher
    · obtain ⟨group', hadd', -, hmatcher', hsettings, hhandlers⟩ :=
        addToGroup_spec hgroup howned.isObject
      rw [if_pos hmatcher, hadd'] at hadd
      cases hadd
      have hinstaller : IsInstaller agent group owned.entry := ⟨owned, howned, hmatcher, rfl⟩
      have hsame : ∀ handler, IsInstaller agent group' handler ↔ IsInstaller agent group handler :=
        fun _ => IsInstaller.congr hmatcher'
      constructor
      · unfold foreignIn
        rw [List.flatMap_cons, List.flatMap_cons, hsettings, hhandlers, List.filter_append]
        simp [hsame, hinstaller]
      · intro hnone
        unfold entriesIn at hnone ⊢
        rw [List.flatMap_cons, List.append_eq_nil_iff] at hnone
        rw [List.flatMap_cons, hhandlers, List.filter_append, hnone.2]
        simp only [hsame]
        rw [hnone.1]
        simp [hinstaller]
    · obtain ⟨groups'', hadd', -⟩ := addToGroups_ok howned.isObject hvalid
      rw [if_neg hmatcher, hadd'] at hadd
      cases hadd
      obtain ⟨hforeign, hentries⟩ := ih hvalid hadd'
      constructor
      · unfold foreignIn at hforeign ⊢
        rw [List.flatMap_cons, List.flatMap_cons, hforeign]
      · intro hnone
        unfold entriesIn at hnone hentries ⊢
        rw [List.flatMap_cons, List.append_eq_nil_iff] at hnone
        rw [List.flatMap_cons, hnone.1, hentries hnone.2, List.nil_append]

/-! ## Configurations -/

def hookMembers (config : Value) : List (Str × Value) :=
  ((config.get? hooksKey).bind Value.asObject?).getD []

/-- The groups of the installer's event. -/
def eventGroups (config : Value) : List Value :=
  (((hookMembers config).lookup eventKey).bind asArray?).getD []

variable {config : Value}

theorem eventGroups_of_array {groups : List Value}
    (h : (hookMembers config).lookup eventKey = some (.array groups)) :
    eventGroups config = groups := by
  unfold eventGroups
  rw [h]
  rfl

/-- What a configuration holds beside the entries of the installer: its other
    settings, its other events, and the other handlers of the event in order. -/
@[ext]
structure ForeignView where
  settings : List (Str × Value)
  events : List (Str × Value)
  handlers : List (List (Str × Value) × Value)

noncomputable def foreignView (agent : Agent) (config : Value) : ForeignView where
  settings := removeMember (config.asObject?.getD []) hooksKey
  events := removeMember (hookMembers config) eventKey
  handlers := foreignIn agent (eventGroups config)

noncomputable def installerEntries (agent : Agent) (config : Value) : List Value :=
  entriesIn agent (eventGroups config)

/-- The configurations `read_config` accepts. -/
def Accepted (config : Value) : Prop :=
  isObject config = true ∧ validateHookGroups config = .ok ()

/-- What `read_config` reads. -/
theorem readConfig_eq_ok {file : Option JsonFile} {existed : Bool}
    (h : readConfig file = .ok (config, existed)) :
    Accepted config ∧ ((file = none ∧ config = .object [] ∧ existed = false)
      ∨ ∃ written, file = some written ∧ written.content = some config ∧ existed = true) := by
  unfold readConfig at h
  obtain ⟨value, hvalue, h⟩ := Except.bind_eq_ok_iff.mp h
  cases value with
  | none =>
    cases h
    refine ⟨⟨rfl, rfl⟩, .inl ⟨?_, rfl, rfl⟩⟩
    cases file with
    | none => rfl
    | some written => cases (content_of_readOptionalJson hvalue).2
  | some value =>
    dsimp only at h
    split at h
    · next hobject =>
      cases hvalid : validateHookGroups value with
      | error error =>
        rw [hvalid] at h
        cases h
      | ok _ =>
        rw [hvalid] at h
        cases h
        refine ⟨⟨hobject, hvalid⟩, .inr ?_⟩
        cases file with
        | none => cases hvalue
        | some written =>
          exact ⟨written, rfl, (content_of_readOptionalJson hvalue).1, rfl⟩
    · cases h

theorem readConfig_written (haccepted : Accepted config) (hfits : Fits config) :
    readConfig (some (writtenFile config)) = .ok (config, true) := by
  unfold readConfig
  rw [readOptionalJson_written, if_pos hfits]
  show (if isObject config = true then (validateHookGroups config).map fun _ => (config, true)
    else _) = _
  rw [if_pos haccepted.1, haccepted.2]
  rfl

theorem hookMembers_object (root : List (Str × Value)) :
    hookMembers (.object root) = ((root.lookup hooksKey).bind Value.asObject?).getD [] := rfl

variable {root : List (Str × Value)}

/-- An accepted configuration: an object whose hooks are well-formed events. -/
theorem accepted_iff :
    Accepted (.object root) ↔ (∀ value, root.lookup hooksKey = some value →
        value.asObject? = some (hookMembers (.object root)))
      ∧ ∀ member ∈ hookMembers (.object root), validateHookEvent member.1 member.2 = .ok () := by
  have hget : (Value.object root).get? (ascii "hooks") = root.lookup hooksKey := rfl
  unfold Accepted validateHookGroups
  rw [hget, hookMembers_object]
  cases hlookup : root.lookup hooksKey with
  | none =>
    refine ⟨fun _ => ⟨nofun, nofun⟩, fun _ => ⟨rfl, rfl⟩⟩
  | some value =>
    cases hobject : value.asObject? with
    | none =>
      constructor
      · rintro ⟨-, h⟩
        dsimp only at h
        rw [hobject] at h
        cases h
      · rintro ⟨h, -⟩
        have := h value rfl
        rw [hobject] at this
        cases this
    | some hooks =>
      dsimp only [Option.bind_some]
      rw [hobject]
      show (_ ∧ hooks.forM _ = Except.ok ()) ↔ _
      rw [Except.forM_eq_ok_iff]
      constructor
      · rintro ⟨-, h⟩
        refine ⟨?_, h⟩
        rintro value' hvalue'
        cases hvalue'
        exact hobject
      · rintro ⟨-, h⟩
        exact ⟨rfl, h⟩

theorem validateHookEvent_array {groups : List Value} :
    validateHookEvent event (.array groups) = .ok ()
      ↔ ∀ group ∈ groups, validateHookGroup event group = .ok () := by
  show groups.forM _ = Except.ok () ↔ _
  exact Except.forM_eq_ok_iff

/-- The event of an accepted configuration has well-formed groups. -/
theorem Accepted.groups (h : Accepted config) :
    ∀ group ∈ eventGroups config, validateHookGroup eventKey group = .ok () := by
  cases config with
  | object root =>
    obtain ⟨-, hevents⟩ := accepted_iff.mp h
    unfold eventGroups
    cases hlookup : (hookMembers (.object root)).lookup eventKey with
    | none => exact nofun
    | some value =>
      have hevent := hevents (eventKey, value) (mem_of_lookup hlookup)
      cases value with
      | array groups => exact validateHookEvent_array.mp hevent
      | _ => exact nofun
  | _ => exact absurd h.1 Bool.false_ne_true

theorem hookMembers_withGroups (root hooks : List (Str × Value)) (groups : List Value) :
    hookMembers (withGroups root hooks groups) = if groups.isEmpty then removeMember hooks eventKey
      else setMember hooks eventKey (.array groups) := by
  unfold withGroups
  dsimp only
  generalize (if groups.isEmpty = true then removeMember hooks eventKey
    else setMember hooks eventKey (.array groups)) = hooks'
  rw [hookMembers_object, lookup_edit]
  split_ifs with hempty
  · rw [List.isEmpty_iff.mp hempty]
    rfl
  · rfl

/-- Replacing the groups of the event: what else there is stays, and groups that
    are well-formed keep the configuration accepted. -/
theorem withGroups_spec {hooks : List (Str × Value)}
    (hmembers : hookMembers (.object root) = hooks) (agent : Agent) (groups : List Value) :
    (foreignView agent (withGroups root hooks groups)).settings
        = (foreignView agent (.object root)).settings
      ∧ (foreignView agent (withGroups root hooks groups)).events
        = (foreignView agent (.object root)).events
      ∧ eventGroups (withGroups root hooks groups) = groups
      ∧ (Accepted (.object root) → (∀ group ∈ groups, validateHookGroup eventKey group = .ok ()) →
        Accepted (withGroups root hooks groups)) := by
  -- The members of the edited hooks object, before it goes where it is empty.
  obtain ⟨hooks', hhooks', hevents, hgroups, hmem⟩ : ∃ hooks',
      (hooks' = if groups.isEmpty then removeMember hooks eventKey
        else setMember hooks eventKey (.array groups))
      ∧ removeMember hooks' eventKey = removeMember hooks eventKey
      ∧ ((hooks'.lookup eventKey).bind asArray?).getD [] = groups
      ∧ ∀ member ∈ hooks', member = (eventKey, .array groups) ∨ member ∈ hooks := by
    refine ⟨_, rfl, ?_, ?_, ?_⟩
    · split_ifs
      · exact removeMember_removeMember
      · exact removeMember_setMember
    · rw [lookup_edit]
      split_ifs with hempty
      · rw [List.isEmpty_iff.mp hempty]
        rfl
      · rfl
    · split_ifs
      · exact fun member hmember => .inr (List.mem_of_mem_filter hmember)
      · exact fun member hmember => mem_setMember hmember
  have hwith : withGroups root hooks groups = .object (if hooks'.isEmpty then
      removeMember root hooksKey else setMember root hooksKey (.object hooks')) := by
    rw [hhooks']
    rfl
  have hmembers' : hookMembers (withGroups root hooks groups) = hooks' := by
    rw [hookMembers_withGroups, hhooks']
  refine ⟨?_, ?_, ?_, ?_⟩
  · rw [hwith]
    show removeMember (if hooks'.isEmpty then _ else _) hooksKey = removeMember root hooksKey
    split_ifs
    · exact removeMember_removeMember
    · exact removeMember_setMember
  · show removeMember (hookMembers _) eventKey = removeMember (hookMembers _) eventKey
    rw [hmembers', hmembers, hevents]
  · show (((hookMembers _).lookup eventKey).bind asArray?).getD [] = groups
    rw [hmembers', hgroups]
  · intro haccepted hvalid
    rw [hwith] at hmembers' ⊢
    refine accepted_iff.mpr ⟨?_, ?_⟩
    · intro value hvalue
      rw [hmembers']
      split_ifs at hvalue with hempty
      · rw [lookup_removeMember, if_pos rfl] at hvalue
        cases hvalue
      · rw [lookup_setMember, if_pos rfl] at hvalue
        cases hvalue
        rfl
    · intro member hmember
      rw [hmembers'] at hmember
      rcases hmem member hmember with rfl | hmember
      · exact validateHookEvent_array.mpr hvalid
      · exact (accepted_iff.mp haccepted).2 member (by rw [hmembers]; exact hmember)

/-- With groups left, the event and the hooks object are there to hold them. -/
theorem withGroups_of_ne_nil {root hooks : List (Str × Value)} {groups : List Value}
    (h : groups ≠ []) : withGroups root hooks groups
      = .object (setMember root hooksKey (.object (setMember hooks eventKey (.array groups)))) := by
  have hgroups : groups.isEmpty = false := by simpa using h
  have hmembers : (setMember hooks eventKey (.array groups)).isEmpty = false := by
    rw [List.isEmpty_eq_false_iff]
    intro hnil
    have hlookup : (setMember hooks eventKey (.array groups)).lookup eventKey = _ :=
      lookup_setMember
    rw [hnil] at hlookup
    cases hlookup
  unfold withGroups
  simp only [hgroups, hmembers, Bool.false_eq_true, if_false]

/-- Adding an entry finds a place for it in every accepted configuration. -/
theorem addHook_eq {owned : OwnedHook} {groups : List Value} (haccepted : Accepted (.object root))
    (hadd : addToGroups owned (eventGroups (.object root)) = .ok groups) :
    addHook (.object root) owned = .ok (.object (setMember root hooksKey
      (.object (setMember (hookMembers (.object root)) eventKey (.array groups))))) := by
  obtain ⟨hobject, hevents⟩ := accepted_iff.mp haccepted
  have hhooks : objectEntry root hooksKey = .ok (hookMembers (.object root)) := by
    unfold objectEntry
    cases hlookup : root.lookup hooksKey with
    | none =>
      rw [hookMembers_object, hlookup]
      rfl
    | some value =>
      dsimp only
      rw [hobject value hlookup]
  have hgroups : arrayEntry (hookMembers (.object root)) eventKey
      = .ok (eventGroups (.object root)) := by
    unfold arrayEntry eventGroups
    cases hlookup : (hookMembers (.object root)).lookup eventKey with
    | none => rfl
    | some value =>
      have hevent := hevents (eventKey, value) (mem_of_lookup hlookup)
      cases value with
      | array groups => rfl
      | _ => cases hevent
  show (objectEntry root hooksKey >>= fun hooks => arrayEntry hooks eventKey >>= fun groups =>
    addToGroups owned groups >>= fun _ => _) = _
  rw [hhooks]
  show (arrayEntry (hookMembers (.object root)) eventKey >>= fun _ => _) = _
  rw [hgroups]
  show (addToGroups owned (eventGroups (.object root)) >>= fun _ => _) = _
  rw [hadd]
  rfl

theorem addHook_spec {owned : OwnedHook}
    (haccepted : Accepted (.object root)) (hobject : isObject owned.entry = true) :
    ∃ groups published, addToGroups owned (eventGroups (.object root)) = .ok groups
      ∧ addHook (.object root) owned = .ok published
      ∧ published = withGroups root (hookMembers (.object root)) groups
      ∧ Accepted published ∧ eventGroups published = groups := by
  obtain ⟨groups, hadd, hne, hvalid⟩ := addToGroups_ok hobject haccepted.groups
  obtain ⟨-, -, hgroups, haccepted'⟩ :=
    withGroups_spec (rfl : hookMembers (.object root) = _) .codex groups
  refine ⟨groups, _, hadd, ?_, rfl, haccepted' haccepted hvalid, hgroups⟩
  rw [addHook_eq haccepted hadd, withGroups_of_ne_nil hne]

/-- Taking entries out edits the groups of the event. -/
theorem removeOwnedHooks_eq {groups : List Value} (owned : List OwnedHook)
    (hgroups : (hookMembers (.object root)).lookup eventKey = some (.array groups)) :
    removeOwnedHooks (.object root) owned
      = withGroups root (hookMembers (.object root)) (retained owned groups) := by
  rw [hookMembers_object] at hgroups ⊢
  cases hlookup : root.lookup hooksKey with
  | none =>
    rw [hlookup] at hgroups
    cases hgroups
  | some value =>
    rw [hlookup] at hgroups
    cases value with
    | object hooks =>
      have hevent : hooks.lookup eventKey = some (.array groups) := hgroups
      simp only [removeOwnedHooks, hlookup, hevent]
      rfl
    | _ => cases hgroups

theorem removeOwnedHooks_of_no_event {owned : List OwnedHook}
    (h : ¬ ∃ groups, (hookMembers (.object root)).lookup eventKey = some (.array groups)) :
    removeOwnedHooks (.object root) owned = .object root := by
  unfold removeOwnedHooks
  dsimp only
  split
  · next hooks hlookup =>
    split
    · next groups hgroups =>
      refine absurd ⟨groups, ?_⟩ h
      rw [hookMembers_object, hlookup]
      exact hgroups
    · rfl
  · rfl

end Opcore.Hooks
