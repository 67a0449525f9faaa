/-
  Opcore.Hooks.Reversal

  Removing the hook after installing it.  The removal takes out the entry, and
  with it every group, event and hooks object that is empty then; whether the
  configuration comes back depends on what it had that was empty before.
-/
import Opcore.Hooks.Entries

namespace Opcore.Hooks

open Text Json Asp

/-! ## Groups -/

/-- No handler of the event is the entry, under its matcher. -/
def Free (owned : OwnedHook) (groups : List Value) : Prop :=
  ∀ group ∈ groups, groupMatcher group = some owned.matcher → owned.entry ∉ groupHandlers group

variable {event : Str}

/-- Of a well-formed group without owned handlers everything is retained. -/
theorem retainEntries_eq_self {owned : List OwnedHook} {group : Value}
    (hvalid : validateHookGroup event group = .ok ()) (hfree : ∀ handler ∈ groupHandlers group,
      isOwned owned (groupMatcher group) handler = false) :
    retainEntries owned group = group := by
  obtain ⟨members, handlers, rfl, hlookup, -⟩ := validateHookGroup_ok_iff.mp hvalid
  rw [groupHandlers_object hlookup] at hfree
  have hfilter : handlers.filter (fun entry =>
      !isOwned owned (groupMatcher (.object members)) entry) = handlers :=
    List.filter_eq_self.mpr fun handler hmem => by rw [hfree handler hmem]; rfl
  simp only [retainEntries, hlookup, hfilter]
  rw [setMember_eq_self hlookup]

variable {owned : OwnedHook}

theorem isOwned_singleton_eq_false {matcher : Option Str} {handler : Value}
    (h : matcher = some owned.matcher → handler ≠ owned.entry) :
    isOwned [owned] matcher handler = false := by
  unfold isOwned
  by_cases hmatcher : matcher = some owned.matcher
  · simp [h hmatcher]
  · simp [hmatcher]

/-- Taking the entry out of the group it was added to gives the group back. -/
theorem retainEntries_addToGroup {group group' : Value}
    (hvalid : validateHookGroup event group = .ok ())
    (hmatcher : groupMatcher group = some owned.matcher)
    (hfree : owned.entry ∉ groupHandlers group) (hadd : addToGroup group owned.entry = .ok group') :
    retainEntries [owned] group' = group := by
  obtain ⟨members, handlers, rfl, hlookup, -⟩ := validateHookGroup_ok_iff.mp hvalid
  rw [addToGroup_object hlookup] at hadd
  cases hadd
  rw [groupHandlers_object hlookup] at hfree
  have hkept : (handlers ++ [owned.entry]).filter
      (fun entry => !isOwned [owned] (some owned.matcher) entry) = handlers := by
    have hbefore : handlers.filter
        (fun entry => !isOwned [owned] (some owned.matcher) entry) = handlers := by
      refine List.filter_eq_self.mpr fun handler hmem => ?_
      rw [isOwned_singleton_eq_false fun _ heq => hfree (heq ▸ hmem)]
      rfl
    rw [List.filter_append, hbefore]
    simp [isOwned]
  have hlookup' : (setMember members hooksKey (.array (handlers ++ [owned.entry]))).lookup hooksKey
      = some (.array (handlers ++ [owned.entry])) := by
    rw [lookup_setMember, if_pos rfl]
  simp only [retainEntries, hlookup', groupMatcher_setMember, hmatcher, hkept]
  rw [setMember_setMember, setMember_eq_self hlookup]

/-- What a removal leaves of the groups an entry was added to: the groups from
    before, without those that have nothing in them. -/
theorem retained_addToGroups {groups groups' : List Value}
    (hvalid : ∀ group ∈ groups, validateHookGroup event group = .ok ())
    (hfree : Free owned groups) (hadd : addToGroups owned groups = .ok groups') :
    retained [owned] groups' = groups.filter retainGroup := by
  induction groups generalizing groups' with
  | nil =>
    cases hadd
    -- A new group had nothing but the entry and its matcher.
    have hgroup : retainEntries [owned] (.object [(hooksKey, .array [owned.entry]),
        (ascii "matcher", .string owned.matcher)])
        = .object [(hooksKey, .array []), (ascii "matcher", .string owned.matcher)] := by
      have hmatcher : groupMatcher (.object [(hooksKey, .array [owned.entry]),
          (ascii "matcher", .string owned.matcher)]) = some owned.matcher := rfl
      have hlookup : ([(hooksKey, .array [owned.entry]), (ascii "matcher", .string owned.matcher)]
          : List (Str × Value)).lookup hooksKey = some (.array [owned.entry]) := rfl
      simp only [retainEntries, hlookup, hmatcher]
      simp [isOwned, setMember, replaceMember]
    show ([retainEntries [owned] _]).filter retainGroup = []
    rw [hgroup]
    rfl
  | cons group groups ih =>
    obtain ⟨hgroup, hvalid⟩ := List.forall_mem_cons.mp hvalid
    obtain ⟨hfirst, hrest⟩ := List.forall_mem_cons.mp hfree
    have hkept : ∀ group ∈ groups, retainEntries [owned] group = group := by
      intro group hmem
      refine retainEntries_eq_self (hvalid group hmem) fun handler hhandler => ?_
      exact isOwned_singleton_eq_false fun hmatcher heq =>
        hrest group hmem hmatcher (heq ▸ hhandler)
    unfold addToGroups at hadd
    by_cases hmatcher : groupMatcher group = some owned.matcher
    · rw [if_pos hmatcher] at hadd
      cases hgroup' : addToGroup group owned.entry with
      | error error =>
        rw [hgroup'] at hadd
        cases hadd
      | ok group' =>
        rw [hgroup'] at hadd
        cases hadd
        unfold retained
        rw [List.map_cons, retainEntries_addToGroup hgroup hmatcher (hfirst hmatcher) hgroup',
          List.map_congr_left hkept, List.map_id']
    · rw [if_neg hmatcher] at hadd
      cases hgroups' : addToGroups owned groups with
      | error error =>
        rw [hgroups'] at hadd
        cases hadd
      | ok groups'' =>
        rw [hgroups'] at hadd
        cases hadd
        have hsame : retainEntries [owned] group = group :=
          retainEntries_eq_self hgroup fun handler _ =>
            isOwned_singleton_eq_false fun h => absurd h hmatcher
        have htail := ih hvalid hrest hgroups'
        unfold retained at htail ⊢
        rw [List.map_cons, hsame, List.filter_cons, List.filter_cons, htail]

/-! ## Configurations -/

/-- A configuration without empty containers that a removal would take out: a
    hooks object, an event or a group with nothing in it. -/
def Tidy (config : Value) : Prop :=
  config.get? hooksKey ≠ some (.object [])
    ∧ (hookMembers config).lookup eventKey ≠ some (.array [])
    ∧ ∀ group ∈ eventGroups config, retainGroup group = true

instance (config : Value) : Decidable (Tidy config) := by
  unfold Tidy
  infer_instance

variable {groups : List Value}

theorem withGroups_setMember {root hooks : List (Str × Value)} {v w : Value} :
    withGroups (setMember root hooksKey v) (setMember hooks eventKey w) groups
      = withGroups root hooks groups := by
  unfold withGroups
  simp only [removeMember_setMember, setMember_setMember]

variable {root : List (Str × Value)}

/-- Removing the entry that was just added. -/
theorem removeOwnedHooks_addHook {published : Value} (haccepted : Accepted (.object root))
    (hfree : Free owned (eventGroups (.object root))) (hobject : isObject owned.entry = true)
    (hadd : addHook (.object root) owned = .ok published) :
    removeOwnedHooks published [owned] = withGroups root (hookMembers (.object root))
      ((eventGroups (.object root)).filter retainGroup) := by
  obtain ⟨groups, hgroups, -⟩ := addToGroups_ok hobject haccepted.groups
  have hpublished := addHook_eq haccepted hgroups
  rw [hadd, Except.ok.injEq] at hpublished
  have hmembers : hookMembers published
      = setMember (hookMembers (.object root)) eventKey (.array groups) := by
    rw [hpublished, hookMembers_object, lookup_setMember, if_pos rfl]
    rfl
  subst hpublished
  rw [removeOwnedHooks_eq [owned] (by rw [hmembers, lookup_setMember, if_pos rfl]), hmembers,
    withGroups_setMember, retained_addToGroups haccepted.groups hfree hgroups]

/-- A configuration comes back from a removal exactly when it is tidy. -/
theorem withGroups_filter_eq_iff (haccepted : Accepted (.object root)) :
    withGroups root (hookMembers (.object root))
        ((eventGroups (.object root)).filter retainGroup) = .object root
      ↔ Tidy (.object root) := by
  obtain ⟨hobject, hevents⟩ := accepted_iff.mp haccepted
  have hget : (Value.object root).get? hooksKey = root.lookup hooksKey := rfl
  unfold Tidy
  rw [hget]
  cases hlookup : root.lookup hooksKey with
  | none =>
    have hmembers : hookMembers (.object root) = [] := by
      rw [hookMembers_object, hlookup]
      rfl
    have hgroups : eventGroups (.object root) = [] := by
      unfold eventGroups
      rw [hmembers]
      rfl
    rw [hgroups, hmembers]
    -- Without hooks there is nothing to take out.
    have hroot : withGroups root [] [] = .object root := by
      show Value.object (removeMember root hooksKey) = _
      rw [removeMember_eq_self hlookup]
    exact iff_of_true hroot ⟨nofun, nofun, nofun⟩
  | some value =>
    obtain ⟨hooks, rfl⟩ : ∃ hooks, value = .object hooks := by
      have h := hobject value hlookup
      cases value with
      | object hooks => exact ⟨hooks, rfl⟩
      | _ => cases h
    have hmembers : hookMembers (.object root) = hooks := by
      rw [hookMembers_object, hlookup]
      rfl
    rw [hmembers] at hevents ⊢
    unfold withGroups
    dsimp only
    -- An edit at a key gives the object back iff it gives its member back.
    rw [Value.object.injEq, edit_eq_self_iff hlookup, Value.object.injEq]
    cases hevent : hooks.lookup eventKey with
    | none =>
      have hgroups : eventGroups (.object root) = [] := by
        unfold eventGroups
        rw [hmembers, hevent]
        rfl
      have hedit : (if (List.filter retainGroup []).isEmpty then removeMember hooks eventKey
          else setMember hooks eventKey (.array (List.filter retainGroup []))) = hooks :=
        removeMember_eq_self hevent
      rw [hgroups, hedit]
      simp
    | some value =>
      have harray := hevents (eventKey, value) (mem_of_lookup hevent)
      cases value with
      | array groups =>
        have hgroups : eventGroups (.object root) = groups :=
          eventGroups_of_array (hmembers ▸ hevent)
        have hne : hooks ≠ [] := by
          rintro rfl
          cases hevent
        rw [hgroups, edit_eq_self_iff hevent, Value.array.injEq, List.filter_eq_self]
        constructor
        · rintro ⟨-, hempty, hall⟩
          rw [List.filter_eq_self.mpr hall] at hempty
          refine ⟨by simpa using hne, ?_, hall⟩
          rintro heq
          cases heq
          cases hempty
        · rintro ⟨-, hgroups, hall⟩
          have hempty : groups.isEmpty = false := by
            rw [List.isEmpty_eq_false_iff]
            rintro rfl
            exact hgroups rfl
          rw [List.filter_eq_self.mpr hall, hempty, if_neg Bool.false_ne_true,
            setMember_eq_self hevent]
          exact ⟨by simpa using hne, rfl, hall⟩
      | _ => cases harray

/-- What is edited without anything empty in it is tidy. -/
theorem tidy_withGroups {root hooks : List (Str × Value)}
    (hgroups : ∀ group ∈ groups, retainGroup group = true) :
    Tidy (withGroups root hooks groups) := by
  have hmembers := hookMembers_withGroups root hooks groups
  refine ⟨?_, ?_, ?_⟩
  · unfold withGroups
    dsimp only
    generalize (if groups.isEmpty = true then removeMember hooks eventKey
      else setMember hooks eventKey (.array groups)) = hooks'
    show (if hooks'.isEmpty = true then removeMember root hooksKey
      else setMember root hooksKey (.object hooks')).lookup hooksKey ≠ _
    rw [lookup_edit]
    split_ifs with hempty
    · exact nofun
    · rintro heq
      cases heq
      exact hempty rfl
  · rw [hmembers, lookup_edit]
    split_ifs with hempty
    · exact nofun
    · rintro heq
      cases heq
      exact hempty rfl
  · have heq : eventGroups (withGroups root hooks groups) = groups := by
      unfold eventGroups
      rw [hmembers, lookup_edit]
      split_ifs with hempty
      · rw [List.isEmpty_iff.mp hempty]
        rfl
      · rfl
    rw [heq]
    exact hgroups

theorem retained_nil (hvalid : ∀ group ∈ groups, validateHookGroup event group = .ok ()) :
    retained [] groups = groups.filter retainGroup := by
  unfold retained
  rw [List.map_congr_left fun group hmem => retainEntries_eq_self (hvalid group hmem) fun _ _ => rfl,
    List.map_id']

/-- An installation first takes out what it owns, and every empty container with
    it: a tidy configuration stays, another one becomes tidy or has no event. -/
theorem removeOwnedHooks_nil (haccepted : Accepted (.object root)) :
    ∃ root', removeOwnedHooks (.object root) [] = .object root' ∧ Accepted (.object root')
      ∧ (∀ group ∈ eventGroups (.object root'), group ∈ eventGroups (.object root))
      ∧ (root' = root ∨ Tidy (.object root'))
      ∧ (Tidy (.object root) → root' = root) := by
  by_cases hevent : ∃ groups, (hookMembers (.object root)).lookup eventKey = some (.array groups)
  · obtain ⟨groups, hevent⟩ := hevent
    have hgroups : eventGroups (.object root) = groups := eventGroups_of_array hevent
    have hvalid := haccepted.groups
    rw [hgroups] at hvalid
    have hremove := removeOwnedHooks_eq [] hevent
    rw [retained_nil hvalid] at hremove
    obtain ⟨-, -, hgroups', haccepted'⟩ :=
      withGroups_spec (rfl : hookMembers (.object root) = _) .codex (groups.filter retainGroup)
    have hkept : ∀ group ∈ groups.filter retainGroup, group ∈ groups :=
      fun group hmem => List.mem_of_mem_filter hmem
    obtain ⟨root', hroot'⟩ : ∃ root', withGroups root (hookMembers (.object root))
        (groups.filter retainGroup) = .object root' := ⟨_, rfl⟩
    rw [hroot'] at hremove hgroups' haccepted'
    refine ⟨root', hremove, haccepted' haccepted fun group hmem => hvalid group (hkept group hmem),
      ?_, .inr ?_, ?_⟩
    · rw [hgroups', hgroups]
      exact hkept
    · rw [← hroot']
      exact tidy_withGroups fun group hmem => List.of_mem_filter hmem
    · intro htidy
      have hsame := (withGroups_filter_eq_iff haccepted).mpr htidy
      rw [hgroups, hroot'] at hsame
      exact Value.object.inj hsame
  · have hremove : removeOwnedHooks (.object root) [] = .object root :=
      removeOwnedHooks_of_no_event hevent
    exact ⟨root, hremove, haccepted, fun _ hmem => hmem, .inl rfl, fun _ => rfl⟩

/-- The removal of an entry that was installed in an accepted configuration gives
    the configuration back exactly when it was tidy. -/
theorem removeOwnedHooks_published {config published : Value}
    (haccepted : Accepted config) (hfree : Free owned (eventGroups config))
    (hobject : isObject owned.entry = true)
    (hadd : addHook (removeOwnedHooks config []) owned = .ok published) :
    removeOwnedHooks published [owned] = config ↔ Tidy config := by
  cases config with
  | object root =>
    obtain ⟨root', hremove, haccepted', hgroups, hor, hsame⟩ := removeOwnedHooks_nil haccepted
    rw [hremove] at hadd
    have hfree' : Free owned (eventGroups (.object root')) :=
      fun group hmem => hfree group (hgroups group hmem)
    rw [removeOwnedHooks_addHook haccepted' hfree' hobject hadd]
    rcases hor with rfl | htidy
    · exact withGroups_filter_eq_iff haccepted
    · rw [(withGroups_filter_eq_iff haccepted').mpr htidy]
      constructor
      · intro heq
        rw [← heq]
        exact htidy
      · intro htidy'
        rw [hsame htidy']
  | _ => exact absurd haccepted.1 Bool.false_ne_true

/-! ## Runs -/

/-- What the configuration file holds, if there is one. -/
def contents (files : HookFiles) : Option (Option Value) := files.config.map JsonFile.content

def afterInstall (args : ConfigureHookArgs) (files : HookFiles) : HookFiles :=
  files.after (install args files).writes

def afterUninstall (args : ConfigureHookArgs) (files : HookFiles) : HookFiles :=
  files.after (uninstall args files).writes

/-- A removal after an installation gives the configuration back, and a second
    installation leaves what the first one published. -/
def Reverses (args : ConfigureHookArgs) (files : HookFiles) : Prop :=
  contents (afterUninstall args (afterInstall args files)) = contents files
    ∧ contents (afterInstall args (afterInstall args files)) = contents (afterInstall args files)

/-- The entry of an installation that can be written. -/
def installable (args : ConfigureHookArgs) : Option OwnedHook :=
  if utf8Valid args.config then (installedHook args).toOption else none

theorem afterInstall_of_not_installable {args : ConfigureHookArgs} {files : HookFiles}
    (h : installable args = none) : afterInstall args files = files := by
  have hwrites : (install args files).writes = [] := by
    unfold install
    cases hstate : installState args files with
    | error error => rfl
    | ok state =>
      dsimp only
      unfold installable at h
      split_ifs at h with hutf8
      · -- An entry was computed before the first write.
        unfold installState at hstate
        obtain ⟨_, -, hstate⟩ := Except.bind_eq_ok_iff.mp hstate
        obtain ⟨_, -, hstate⟩ := Except.bind_eq_ok_iff.mp hstate
        obtain ⟨_, -, hstate⟩ := Except.bind_eq_ok_iff.mp hstate
        obtain ⟨owned, howned, -⟩ := Except.bind_eq_ok_iff.mp hstate
        rw [howned] at h
        cases h
      · rw [if_pos hutf8]
        rfl
  unfold afterInstall
  rw [hwrites]
  rfl

/-- A first installation publishes the entry added to the configuration. -/
theorem afterInstall_first {args : ConfigureHookArgs} {files : HookFiles} {config published : Value}
    {existed : Bool} {owned : OwnedHook} (hreceipt : files.receipt = none)
    (hconfig : readConfig files.config = .ok (config, existed))
    (hutf8 : utf8Valid args.config = true) (howned : installedHook args = .ok owned)
    (hadd : addHook (removeOwnedHooks config []) owned = .ok published) :
    afterInstall args files = ⟨some (writtenFile published),
      some (writtenFile (receiptValue args existed [owned]))⟩ := by
  have hstate : installState args files = .ok ⟨config, existed, [], owned⟩ := by
    unfold installState
    rw [hconfig, hreceipt]
    show (installedHook args >>= fun _ => _) = _
    rw [howned]
    rfl
  have hpublished : (InstallState.mk config existed [] owned).published = .ok published := hadd
  have hwrites : (install args files).writes
      = [.receipt (receiptValue args existed [owned]), .config published,
        .receipt (receiptValue args existed [owned])] := by
    simp only [install, hstate, hutf8, hpublished, not_true, if_false]
    rfl
  unfold afterInstall
  rw [hwrites]
  rfl

/-- An installation publishes an accepted configuration that is not the one from
    before. -/
theorem exists_published {config : Value} (haccepted : Accepted config)
    (hfree : Free owned (eventGroups config)) (hobject : isObject owned.entry = true) :
    ∃ published, addHook (removeOwnedHooks config []) owned = .ok published
      ∧ Accepted published ∧ published ≠ config := by
  cases config with
  | object root =>
    obtain ⟨root', hremove, haccepted', -⟩ := removeOwnedHooks_nil haccepted
    obtain ⟨groups, published, hgroups, hadd, -, hpublished, heq⟩ := addHook_spec haccepted' hobject
    refine ⟨published, by rw [hremove, hadd], hpublished, ?_⟩
    rintro rfl
    obtain ⟨group, hmem, hmatcher, hentry⟩ :=
      exists_entry_addToGroups hobject haccepted'.groups hgroups
    rw [← heq] at hmem
    exact hfree group hmem hmatcher hentry
  | _ => exact absurd haccepted.1 Bool.false_ne_true

section Installed

variable {args : ConfigureHookArgs} {files : HookFiles} {config published : Value}
  {existed : Bool} {owned : OwnedHook}

/-- The files after a first installation. -/
def installedFiles (args : ConfigureHookArgs) (published : Value) (existed : Bool)
    (owned : OwnedHook) : HookFiles :=
  ⟨some (writtenFile published), some (writtenFile (receiptValue args existed [owned]))⟩

/-- The entries a removal or a second installation finds in the receipt. -/
theorem receiptEntries_installed (hobject : isObject owned.entry = true) :
    receiptEntries ⟨receiptSchema, args.agent, args.config, existed, [owned]⟩ args = .ok [owned] :=
  receiptEntries_written (List.cons_ne_nil _ _) (Nat.le_succ 1) (by simpa using hobject)

/-- Files that cannot be read again are left as they are. -/
theorem uninstall_unfit
    (h : ¬ (Fits published ∧ Fits (receiptValue args existed [owned])))
    (hobject : isObject owned.entry = true) :
    uninstall args (installedFiles args published existed owned)
      = .refused (ascii "agent hook config exceeds 1048576 bytes") := by
  have herror : uninstallWrite args (installedFiles args published existed owned)
      = .error (ascii "agent hook config exceeds 1048576 bytes") := by
    unfold uninstallWrite installedFiles
    dsimp only
    by_cases hreceipt : Fits (receiptValue args existed [owned])
    · have hconfig : ¬ Fits published := fun hfits => h ⟨hfits, hreceipt⟩
      rw [readReceipt_written hreceipt]
      show (validateReceipt _ args >>= fun _ => receiptEntries _ args >>= fun _ => _) = _
      rw [validateReceipt_written]
      show (receiptEntries _ args >>= fun _ => _) = _
      rw [receiptEntries_installed hobject, readConfig_unfit hconfig]
      rfl
    · rw [readReceipt_unfit hreceipt]
      rfl
  unfold uninstall
  rw [herror]

theorem afterUninstall_installed (haccepted : Accepted published) (hfits : Fits published)
    (hreceipt : Fits (receiptValue args existed [owned])) (hobject : isObject owned.entry = true) :
    (uninstall args (installedFiles args published existed owned)).result = .ok ()
      ∧ afterUninstall args (installedFiles args published existed owned)
      = ⟨if !existed && removeOwnedHooks published [owned] = .object [] then none
          else some (writtenFile (removeOwnedHooks published [owned])), none⟩ := by
  have hwrite : uninstallWrite args (installedFiles args published existed owned)
      = .ok (uninstalledWrite (removeOwnedHooks published [owned]) true existed) := by
    unfold uninstallWrite installedFiles
    dsimp only
    rw [readReceipt_written hreceipt]
    show (validateReceipt _ args >>= fun _ => receiptEntries _ args >>= fun _ => _) = _
    rw [validateReceipt_written]
    show (receiptEntries _ args >>= fun _ => _) = _
    rw [receiptEntries_installed hobject, readConfig_written haccepted hfits]
    rfl
  have hrun : uninstall args (installedFiles args published existed owned)
      = ⟨[uninstalledWrite (removeOwnedHooks published [owned]) true existed, .removeReceipt],
        .ok ()⟩ := by
    unfold uninstall
    rw [hwrite]
  refine ⟨by rw [hrun], ?_⟩
  unfold afterUninstall
  rw [hrun]
  unfold uninstalledWrite
  rw [Bool.not_true, Bool.false_or]
  split_ifs <;> rfl

/-- A second installation publishes the entry again, after taking it out. -/
theorem contents_afterInstall_installed (haccepted : Accepted published) (hfits : Fits published)
    (hreceipt : Fits (receiptValue args existed [owned])) (hutf8 : utf8Valid args.config = true)
    (howned : installedHook args = .ok owned)
    (hadd : addHook (removeOwnedHooks published [owned]) owned = .ok published) :
    contents (afterInstall args (installedFiles args published existed owned))
      = contents (installedFiles args published existed owned) := by
  have hstate : installState args (installedFiles args published existed owned)
      = .ok ⟨published, existed, [owned], owned⟩ := by
    have hprior : priorInstallState (some ⟨receiptSchema, args.agent, args.config, existed, [owned]⟩)
        args true = .ok (existed, [owned]) := by
      show (validateReceipt _ args >>= fun _ => receiptEntries _ args >>= fun _ => _) = _
      rw [validateReceipt_written]
      show (receiptEntries _ args >>= fun _ => _) = _
      rw [receiptEntries_installed (installedHook_spec howned).2]
      rfl
    unfold installState installedFiles
    rw [readConfig_written haccepted hfits, readReceipt_written hreceipt]
    show (priorInstallState _ args true >>= fun _ => _) = _
    rw [hprior]
    show (installedHook args >>= fun _ => _) = _
    rw [howned]
    rfl
  have hpublished : (InstallState.mk published existed [owned] owned).published = .ok published :=
    hadd
  unfold afterInstall
  simp only [install, hstate, hutf8, hpublished, not_true, if_false]
  rfl

end Installed

/-- The inputs for which removing undoes installing: no empty container that a
    removal would take out, and texts short enough to be read again. -/
def Restorable (args : ConfigureHookArgs) (config : Value) (existed : Bool) : Prop :=
  ∀ owned, installable args = some owned → Tidy config
    ∧ (∀ published, addHook config owned = .ok published → Fits published)
    ∧ Fits (receiptValue args existed [owned])

/-- Removing the hook undoes installing it, and installing it twice is installing
    it once, exactly for the restorable inputs. -/
theorem reverses_iff {args : ConfigureHookArgs} {files : HookFiles} {config : Value}
    {existed : Bool} (hreceipt : files.receipt = none)
    (hconfig : readConfig files.config = .ok (config, existed))
    (hfree : ∀ owned, installedHook args = .ok owned → Free owned (eventGroups config)) :
    Reverses args files ↔ Restorable args config existed := by
  obtain ⟨haccepted, hfile⟩ := readConfig_eq_ok hconfig
  cases hinstallable : installable args with
  | none =>
    have hsame : afterInstall args files = files := afterInstall_of_not_installable hinstallable
    have hremove : afterUninstall args files = files := by
      unfold afterUninstall uninstall uninstallWrite
      rw [hreceipt]
      rfl
    unfold Reverses Restorable
    rw [hsame, hremove, hsame]
    exact iff_of_true ⟨rfl, rfl⟩ fun owned h => by rw [hinstallable] at h; cases h
  | some owned =>
    obtain ⟨hutf8, howned⟩ : utf8Valid args.config = true ∧ installedHook args = .ok owned := by
      unfold installable at hinstallable
      split_ifs at hinstallable with hutf8
      exact ⟨hutf8, Except.toOption_eq_some_iff.mp hinstallable⟩
    have hobject := (installedHook_spec howned).2
    obtain ⟨published, hadd, hpublished, hne⟩ := exists_published haccepted (hfree owned howned)
      hobject
    have htidy := removeOwnedHooks_published haccepted (hfree owned howned) hobject hadd
    have hinstalled : afterInstall args files = installedFiles args published existed owned :=
      afterInstall_first hreceipt hconfig hutf8 howned hadd
    -- Where the files cannot be read again, the entry stays.
    have hcontents : contents (installedFiles args published existed owned) ≠ contents files := by
      obtain ⟨hnone, -, -⟩ | ⟨written, hsome, hcontent, -⟩ := hfile
      · unfold contents installedFiles
        rw [hnone]
        exact nofun
      · unfold contents installedFiles
        rw [hsome]
        intro heq
        have hvalue : some published = written.content := Option.some.inj heq
        rw [hcontent] at hvalue
        exact hne (Option.some.inj hvalue)
    have hprune : Tidy config → removeOwnedHooks config [] = config := by
      intro h
      cases config with
      | object root =>
        obtain ⟨root', hremove, -, -, -, hsame⟩ := removeOwnedHooks_nil haccepted
        rw [hremove, hsame h]
      | _ => exact absurd haccepted.1 Bool.false_ne_true
    unfold Reverses
    rw [hinstalled]
    constructor
    · rintro ⟨hreversed, -⟩ owned' howned'
      cases hinstallable.symm.trans howned'
      have hfits : Fits published ∧ Fits (receiptValue args existed [owned]) := by
        by_contra hunfit
        unfold afterUninstall at hreversed
        rw [uninstall_unfit hunfit hobject] at hreversed
        exact hcontents hreversed
      obtain ⟨-, hafter⟩ := afterUninstall_installed hpublished hfits.1 hfits.2 hobject
      rw [hafter] at hreversed
      have htidy' : Tidy config := by
        obtain ⟨-, rfl, -⟩ | ⟨written, hsome, hcontent, rfl⟩ := hfile
        · decide
        · apply htidy.mp
          unfold contents at hreversed
          rw [hsome] at hreversed
          have hvalue : some (removeOwnedHooks published [owned]) = written.content :=
            Option.some.inj hreversed
          rw [hcontent] at hvalue
          exact Option.some.inj hvalue
      refine ⟨htidy', ?_, hfits.2⟩
      intro published' hadd'
      rw [hprune htidy'] at hadd
      cases hadd.symm.trans hadd'
      exact hfits.1
    · intro hrestorable
      obtain ⟨htidy', hfits, hfits'⟩ := hrestorable owned hinstallable
      have hremove := htidy.mpr htidy'
      rw [hprune htidy'] at hadd
      obtain ⟨-, hafter⟩ := afterUninstall_installed hpublished (hfits published hadd) hfits'
        hobject
      refine ⟨?_, ?_⟩
      · rw [hafter, hremove]
        obtain ⟨hnone, rfl, rfl⟩ | ⟨written, hsome, hcontent, rfl⟩ := hfile
        · unfold contents
          rw [hnone]
          rfl
        · unfold contents
          rw [hsome, Option.map_some, hcontent]
          rfl
      · exact contents_afterInstall_installed hpublished (hfits published hadd) hfits' hutf8 howned
          (by rw [hremove, hadd])

/-- An installation in a home directory. -/
def homeArgs : ConfigureHookArgs where
  agent := .codex
  config := ascii "/home/.codex/hooks.json"
  binary := ascii "/usr/bin/opcore"
  receipt := ascii "/home/.opcore/hook.json"

/-- The entry of that installation. -/
def homeHook : OwnedHook where
  matcher := ascii "apply_patch|Edit|Write|Bash|mcp__.*"
  entry := hookEntry (ascii "'/usr/bin/opcore' agent-gate # opcore agent-gate") installedStatus

theorem installable_homeArgs : installable homeArgs = some homeHook := by decide +kernel

/-- A configuration with a setting of its own comes back. -/
theorem reverses_settings : Reverses homeArgs
    ⟨some ⟨some (.object [(ascii "model", .null)]), 14⟩, none⟩ := by
  refine (reverses_iff rfl rfl ?_).mpr ?_
  · intro owned _ group hmem
    exact absurd hmem (List.not_mem_nil)
  · intro owned howned
    rw [installable_homeArgs] at howned
    cases howned
    refine ⟨by decide +kernel, fun published hadd => ?_, by decide +kernel⟩
    cases hadd
    decide +kernel

/-- The files of an agent whose configuration has an empty hooks object. -/
def emptyHooksFiles : HookFiles := ⟨some ⟨some (.object [(hooksKey, .object [])]), 13⟩, none⟩

/-- An empty hooks object does not come back. -/
theorem not_forall_reverses : ¬ ∀ (args : ConfigureHookArgs) (files : HookFiles) (config : Value)
    (existed : Bool), files.receipt = none → readConfig files.config = .ok (config, existed) →
    (∀ owned, installedHook args = .ok owned → Free owned (eventGroups config)) →
    Reverses args files := by
  intro h
  have hreverses := h homeArgs emptyHooksFiles (.object [(hooksKey, .object [])]) true rfl rfl
    fun owned _ group hmem => absurd hmem (List.not_mem_nil)
  have hdiffer : contents (afterUninstall homeArgs (afterInstall homeArgs emptyHooksFiles))
      ≠ contents emptyHooksFiles := by decide +kernel
  exact hdiffer hreverses.1

end Opcore.Hooks
