/-
  Opcore.Hooks.Recovery

  Runs of the installer that may stop after any of their writes.  The receipt
  always lists every entry the configuration may hold, so that whatever run comes
  next knows which entries to take out; the handlers of others stay throughout.
-/
import Opcore.Hooks.Reversal

namespace Opcore.Hooks

open Text Json Asp

/-! ## Edits of a configuration -/

theorem validateHookGroup_retainEntries {event : Str} {owned : List OwnedHook} {group : Value}
    (h : validateHookGroup event group = .ok ()) :
    validateHookGroup event (retainEntries owned group) = .ok () := by
  obtain ⟨members, handlers, rfl, hlookup, hall⟩ := validateHookGroup_ok_iff.mp h
  simp only [retainEntries, hlookup]
  refine validateHookGroup_ok_iff.mpr ⟨_, handlers.filter fun entry =>
    !isOwned owned (groupMatcher (.object members)) entry, rfl, ?_, ?_⟩
  · rw [lookup_setMember, if_pos rfl]
  · exact List.all_eq_true.mpr fun handler hmem =>
      List.all_eq_true.mp hall handler (List.mem_of_mem_filter hmem)

variable {agent : Agent}

/-- A removal takes out the entries of the installer, where all of them are owned,
    and nothing else. -/
theorem removeOwnedHooks_spec {owned : List OwnedHook} {config : Value}
    (haccepted : Accepted config) (howned : ∀ o ∈ owned, Installs agent o)
    (hcovered : ∀ entry ∈ installerEntries agent config, ⟨agent.matcher, entry⟩ ∈ owned) :
    Accepted (removeOwnedHooks config owned)
      ∧ foreignView agent (removeOwnedHooks config owned) = foreignView agent config
      ∧ installerEntries agent (removeOwnedHooks config owned) = [] := by
  cases config with
  | object root =>
    by_cases hevent : ∃ groups, (hookMembers (.object root)).lookup eventKey = some (.array groups)
    · obtain ⟨groups, hevent⟩ := hevent
      have hgroups : eventGroups (.object root) = groups := eventGroups_of_array hevent
      have hvalid := haccepted.groups
      unfold installerEntries at hcovered ⊢
      rw [hgroups] at hvalid hcovered
      obtain ⟨hsettings, hevents, hgroups', haccepted'⟩ :=
        withGroups_spec (rfl : hookMembers (.object root) = _) agent (retained owned groups)
      rw [removeOwnedHooks_eq owned hevent]
      refine ⟨haccepted' haccepted ?_, ?_, ?_⟩
      · intro group hmem
        obtain ⟨original, horiginal, rfl⟩ := List.mem_map.mp (List.mem_of_mem_filter hmem)
        exact validateHookGroup_retainEntries (hvalid original horiginal)
      · have hhandlers : (foreignView agent (withGroups root (hookMembers (.object root))
            (retained owned groups))).handlers = (foreignView agent (.object root)).handlers := by
          show foreignIn agent _ = foreignIn agent _
          rw [hgroups', hgroups, foreignIn_retained howned]
        exact ForeignView.ext hsettings hevents hhandlers
      · rw [hgroups', entriesIn_retained hcovered]
    · have hremove : removeOwnedHooks (.object root) owned = .object root :=
        removeOwnedHooks_of_no_event hevent
      have hgroups : eventGroups (.object root) = [] := by
        unfold eventGroups
        cases hlookup : (hookMembers (.object root)).lookup eventKey with
        | none => rfl
        | some value =>
          cases value with
          | array groups => exact absurd ⟨groups, hlookup⟩ hevent
          | _ => rfl
      rw [hremove]
      refine ⟨haccepted, rfl, ?_⟩
      unfold installerEntries
      rw [hgroups]
      rfl
  | _ => exact absurd haccepted.1 Bool.false_ne_true

/-- Adding an entry to a configuration without one makes it the only one. -/
theorem addHook_installs {owned : OwnedHook} {config : Value}
    (haccepted : Accepted config) (howned : Installs agent owned)
    (hnone : installerEntries agent config = []) :
    ∃ published, addHook config owned = .ok published ∧ Accepted published
      ∧ foreignView agent published = foreignView agent config
      ∧ installerEntries agent published = [owned.entry] := by
  cases config with
  | object root =>
    obtain ⟨groups, published, hgroups, hadd, rfl, hpublished, heq⟩ :=
      addHook_spec haccepted howned.isObject
    obtain ⟨hforeign, hentries⟩ := addToGroups_spec howned haccepted.groups hgroups
    obtain ⟨hsettings, hevents, -, -⟩ :=
      withGroups_spec (rfl : hookMembers (.object root) = _) agent groups
    refine ⟨_, hadd, hpublished, ?_, ?_⟩
    · have hhandlers : (foreignView agent (withGroups root (hookMembers (.object root))
          groups)).handlers = (foreignView agent (.object root)).handlers := by
        show foreignIn agent _ = foreignIn agent _
        rw [heq, hforeign]
      exact ForeignView.ext hsettings hevents hhandlers
    · show entriesIn agent _ = _
      rw [heq]
      exact hentries hnone
  | _ => exact absurd haccepted.1 Bool.false_ne_true

/-! ## States -/

/-- The configuration the files hold; no file is an empty one. -/
def HookFiles.value (files : HookFiles) : Value := (files.config.bind JsonFile.content).getD (.object [])

/-- The receipt lists every entry of the installer in the configuration. -/
def Covers (agent : Agent) (config : Value) (entries : List OwnedHook) : Prop :=
  ∀ entry ∈ installerEntries agent config, ⟨agent.matcher, entry⟩ ∈ entries

/-- What the receipt says of the configuration at every moment. -/
inductive Journaled (agent : Agent) (path : Str) (config : Value) : Option JsonFile → Prop
  | clean (h : installerEntries agent config = []) : Journaled agent path config none
  | recorded (existed : Bool) (entries : List OwnedHook) (hne : entries ≠ [])
      (hinstalls : ∀ owned ∈ entries, Installs agent owned) (hcovers : Covers agent config entries) :
      Journaled agent path config (some (writtenFile
        (HookReceipt.toValue ⟨receiptSchema, agent, path, existed, entries⟩)))

/-- A run of the installer for the agent and its configuration, with any binary. -/
def IsRun (agent : Agent) (path : Str) (files : HookFiles) (run : HookRun) : Prop :=
  ∃ args : ConfigureHookArgs, args.agent = agent ∧ args.config = path
    ∧ isAbsolute args.binary = true ∧ (run = install args files ∨ run = uninstall args files)

/-- The states of the files, each with what the configuration holds of others:
    runs stop after any number of their writes, and others edit the configuration
    but write no entry of the installer. -/
inductive Reach (agent : Agent) (path : Str) : HookFiles → ForeignView → Prop
  | start {files : HookFiles} {config : Value} {existed : Bool} (hreceipt : files.receipt = none)
      (hconfig : readConfig files.config = .ok (config, existed))
      (hnone : installerEntries agent config = []) :
      Reach agent path files (foreignView agent config)
  | run {files : HookFiles} {view : ForeignView} {run : HookRun} (h : Reach agent path files view)
      (hrun : IsRun agent path files run) (count : Nat) :
      Reach agent path (files.after (run.writes.take count)) view
  | edit {files : HookFiles} {view : ForeignView} (h : Reach agent path files view)
      (config : Option JsonFile)
      (hentries : ∀ entry ∈ installerEntries agent (HookFiles.value ⟨config, none⟩),
        entry ∈ installerEntries agent files.value) :
      Reach agent path { files with config } (foreignView agent (HookFiles.value ⟨config, none⟩))

section Steps

variable {agent : Agent} {path : Str} {files : HookFiles} {args : ConfigureHookArgs}

theorem readConfig_value {config : Value} {existed : Bool}
    (h : readConfig files.config = .ok (config, existed)) :
    Accepted config ∧ files.value = config ∧ (existed = false → config = .object []) := by
  obtain ⟨haccepted, ⟨hnone, hconfig, hexisted⟩ | ⟨written, hsome, hcontent, rfl⟩⟩ :=
    readConfig_eq_ok h
  · refine ⟨haccepted, ?_, fun _ => hconfig⟩
    unfold HookFiles.value
    rw [hnone, hconfig]
    rfl
  · refine ⟨haccepted, ?_, nofun⟩
    unfold HookFiles.value
    rw [hsome, Option.bind_some, hcontent]
    rfl

theorem mem_journalEntries {prior : List OwnedHook} {installed owned : OwnedHook} :
    owned ∈ journalEntries prior installed ↔ owned ∈ prior ∨ owned = installed := by
  unfold journalEntries
  split_ifs with h
  · have hmem : installed ∈ prior := by simpa using h
    constructor
    · exact .inl
    · rintro (h | rfl)
      · exact h
      · exact hmem
  · simp

theorem covers_singleton {config : Value} {owned : OwnedHook} {entries : List OwnedHook}
    (howned : Installs agent owned) (hentries : installerEntries agent config = [owned.entry])
    (hmem : owned ∈ entries) : Covers agent config entries := by
  intro entry hentry
  rw [hentries, List.mem_singleton] at hentry
  rw [hentry, ← howned.matcher]
  exact hmem

theorem HookRun.take_refused (error : Str) (count : Nat) :
    files.after ((HookRun.refused error).writes.take count) = files := by
  show files.after (List.take count []) = files
  rw [List.take_nil]
  rfl

variable (h : Journaled agent path files.value files.receipt)

include h

/-- What a run finds in the receipt: entries of the installer, all those of the
    configuration among them. -/
theorem Journaled.readReceipt {receipt : HookReceipt} {entries : List OwnedHook}
    (hread : readReceipt files.receipt = .ok (some receipt))
    (hentries : receiptEntries receipt args = .ok entries) :
    receipt.ownedEntries = entries ∧ (∀ owned ∈ entries, Installs agent owned)
      ∧ Covers agent files.value entries := by
  generalize files.receipt = file at h hread
  cases h with
  | clean h => cases hread
  | recorded existed recorded hne hinstalls hcovers =>
    obtain rfl := Option.some.inj (readReceipt_eq_ok_of_written hread)
    have hempty : recorded.isEmpty = false := by simpa using hne
    have heq : recorded = entries := by
      unfold receiptEntries recordedEntries at hentries
      dsimp only at hentries
      rw [hempty, if_neg Bool.false_ne_true] at hentries
      change (if 2 < recorded.length then _ else _) = _ at hentries
      split_ifs at hentries
      cases hentries
      rfl
    subst heq
    exact ⟨rfl, hinstalls, hcovers⟩

section

variable (hagent : args.agent = agent) (habsolute : isAbsolute args.binary = true)

include hagent habsolute

/-- What an installation finds before its first write. -/
theorem Journaled.installState {state : InstallState}
    (hstate : installState args files = .ok state) :
    Accepted state.config ∧ files.value = state.config
      ∧ (∀ owned ∈ state.prior, Installs agent owned) ∧ Covers agent files.value state.prior
      ∧ installedHook args = .ok state.installed ∧ Installs agent state.installed := by
  unfold Hooks.installState at hstate
  obtain ⟨⟨config, exists'⟩, hconfig, hstate⟩ := Except.bind_eq_ok_iff.mp hstate
  obtain ⟨prior, hprior, hstate⟩ := Except.bind_eq_ok_iff.mp hstate
  obtain ⟨⟨existed, entries⟩, hentries, hstate⟩ := Except.bind_eq_ok_iff.mp hstate
  obtain ⟨owned, howned, hstate⟩ := Except.bind_eq_ok_iff.mp hstate
  cases hstate
  obtain ⟨haccepted, hvalue, -⟩ := readConfig_value hconfig
  have hknown : (∀ owned ∈ entries, Installs agent owned) ∧ Covers agent files.value entries := by
    cases prior with
    | none =>
      cases hentries
      generalize files.receipt = file at h hprior
      cases h with
      | clean h =>
        refine ⟨List.forall_mem_nil _, fun entry hmem => ?_⟩
        rw [h] at hmem
        cases hmem
      | recorded existed recorded hne hinstalls hcovers =>
        cases readReceipt_eq_ok_of_written hprior
    | some receipt =>
      obtain ⟨-, -, hentries⟩ := Except.bind_eq_ok_iff.mp hentries
      obtain ⟨entries', hentries', hentries⟩ := Except.bind_eq_ok_iff.mp hentries
      cases hentries
      exact (h.readReceipt hprior hentries').2
  exact ⟨haccepted, hvalue, hknown.1, hknown.2, howned, args, hagent, habsolute, howned⟩

/-- The configuration an installation publishes: the entry and no other one of
    the installer, and the handlers of others as they were. -/
theorem Journaled.published {state : InstallState}
    (hstate : Hooks.installState args files = .ok state) :
    ∃ published, state.published = .ok published ∧ Accepted published
      ∧ foreignView agent published = foreignView agent files.value
      ∧ installerEntries agent published = [state.installed.entry] := by
  obtain ⟨haccepted, hvalue, hprior, hcovers, -, hinstalls⟩ :=
    h.installState hagent habsolute hstate
  rw [hvalue] at hcovers ⊢
  obtain ⟨haccepted', hforeign, hnone⟩ := removeOwnedHooks_spec haccepted hprior hcovers
  obtain ⟨published, hadd, hpublished, hforeign', hentries⟩ :=
    addHook_installs haccepted' hinstalls hnone
  exact ⟨published, hadd, hpublished, hforeign'.trans hforeign, hentries⟩

/-- An installation is refused before its first write, or does all of them. -/
theorem Journaled.install_cases :
    (∃ error, install args files = .refused error)
      ∨ ∃ state published, Hooks.installState args files = .ok state
        ∧ state.published = .ok published
        ∧ install args files = ⟨[.receipt (receiptValue args state.configExisted
            (journalEntries state.prior state.installed)), .config published,
          .receipt (receiptValue args state.configExisted [state.installed])], .ok ()⟩ := by
  unfold install
  cases hstate : Hooks.installState args files with
  | error error => exact .inl ⟨error, rfl⟩
  | ok state =>
    obtain ⟨published, hpublished, -⟩ := h.published hagent habsolute hstate
    by_cases hutf8 : utf8Valid args.config = true
    · refine .inr ⟨state, published, rfl, hpublished, ?_⟩
      dsimp only
      rw [if_neg (not_not.mpr hutf8), hpublished]
    · exact .inl ⟨_, if_pos hutf8⟩

/-- An installation that stops after any of its writes. -/
theorem Journaled.install_take (hpath : args.config = path) (count : Nat) :
    Journaled agent path (files.after ((install args files).writes.take count)).value
        (files.after ((install args files).writes.take count)).receipt
      ∧ foreignView agent (files.after ((install args files).writes.take count)).value
        = foreignView agent files.value := by
  obtain ⟨error, hrun⟩ | ⟨state, published, hstate, hpublished, hrun⟩ :=
    h.install_cases hagent habsolute
  · rw [hrun, HookRun.take_refused]
    exact ⟨h, rfl⟩
  obtain ⟨-, -, hprior, hcovers, -, hinstalls⟩ := h.installState hagent habsolute hstate
  obtain ⟨published', hpublished', -, hforeign, hentries⟩ := h.published hagent habsolute hstate
  cases hpublished.symm.trans hpublished'
  subst hagent hpath
  have hjournal : ∀ owned ∈ journalEntries state.prior state.installed,
      Installs args.agent owned := by
    intro owned hmem
    rcases mem_journalEntries.mp hmem with hmem | rfl
    · exact hprior owned hmem
    · exact hinstalls
  have hself : state.installed ∈ journalEntries state.prior state.installed :=
    mem_journalEntries.mpr (.inr rfl)
  rw [hrun]
  rcases count with _ | _ | _ | count
  · exact ⟨h, rfl⟩
  · -- The receipt lists the new entry before the configuration has it.
    refine ⟨.recorded state.configExisted _ (List.ne_nil_of_mem hself) hjournal ?_, rfl⟩
    exact fun entry hmem => mem_journalEntries.mpr (.inl (hcovers entry hmem))
  · exact ⟨.recorded state.configExisted _ (List.ne_nil_of_mem hself) hjournal
      (covers_singleton hinstalls hentries hself), hforeign⟩
  · rw [List.take_of_length_le (Nat.le_add_left 3 count)]
    exact ⟨.recorded state.configExisted [state.installed] (List.cons_ne_nil _ _)
      (by simpa using hinstalls)
      (covers_singleton hinstalls hentries (List.mem_singleton_self _)), hforeign⟩

end

/-- A removal is refused, or publishes a configuration without entries of the
    installer and then removes the receipt. -/
theorem Journaled.uninstall_cases :
    (∃ error, uninstall args files = .refused error)
      ∨ ∃ write, uninstall args files = ⟨[write, .removeReceipt], .ok ()⟩
        ∧ (write.apply files).receipt = files.receipt
        ∧ foreignView agent (write.apply files).value = foreignView agent files.value
        ∧ installerEntries agent (write.apply files).value = [] := by
  unfold uninstall
  cases hwrite : uninstallWrite args files with
  | error error => exact .inl ⟨error, rfl⟩
  | ok write =>
    refine .inr ⟨write, rfl, ?_⟩
    unfold uninstallWrite at hwrite
    obtain ⟨receipt, hreceipt, hwrite⟩ := Except.bind_eq_ok_iff.mp hwrite
    cases receipt with
    | none => cases hwrite
    | some receipt =>
      obtain ⟨-, -, hwrite⟩ := Except.bind_eq_ok_iff.mp hwrite
      obtain ⟨entries, hentries, hwrite⟩ := Except.bind_eq_ok_iff.mp hwrite
      obtain ⟨⟨config, currently⟩, hconfig, hwrite⟩ := Except.bind_eq_ok_iff.mp hwrite
      cases hwrite
      obtain ⟨haccepted, hvalue, hmissing⟩ := readConfig_value hconfig
      obtain ⟨-, hinstalls, hcovers⟩ := h.readReceipt hreceipt hentries
      rw [hvalue] at hcovers ⊢
      obtain ⟨-, hforeign, hnone⟩ := removeOwnedHooks_spec haccepted hinstalls hcovers
      unfold uninstalledWrite
      split_ifs with hcase
      · -- The file goes where it was missing or nothing is left in it.
        have hempty : removeOwnedHooks config entries = .object [] := by
          rw [Bool.or_eq_true, Bool.not_eq_true', Bool.and_eq_true, decide_eq_true_eq] at hcase
          obtain hcurrent | ⟨-, hempty⟩ := hcase
          · rw [hmissing hcurrent]
            rfl
          · exact hempty
        rw [hempty] at hforeign hnone
        exact ⟨rfl, hforeign, hnone⟩
      · exact ⟨rfl, hforeign, hnone⟩

theorem Journaled.uninstall_take (count : Nat) :
    Journaled agent path (files.after ((uninstall args files).writes.take count)).value
        (files.after ((uninstall args files).writes.take count)).receipt
      ∧ foreignView agent (files.after ((uninstall args files).writes.take count)).value
        = foreignView agent files.value := by
  obtain ⟨error, hrun⟩ | ⟨write, hrun, hreceipt, hforeign, hnone⟩ :=
    @Journaled.uninstall_cases agent path files args h
  · rw [hrun, HookRun.take_refused]
    exact ⟨h, rfl⟩
  rw [hrun]
  rcases count with _ | _ | count
  · exact ⟨h, rfl⟩
  · refine ⟨?_, hforeign⟩
    show Journaled agent path (write.apply files).value (write.apply files).receipt
    rw [hreceipt]
    generalize files.receipt = file at h
    cases h with
    | clean _ => exact .clean hnone
    | recorded existed entries hne hinstalls _ =>
      refine .recorded existed entries hne hinstalls fun entry hmem => ?_
      rw [hnone] at hmem
      cases hmem
  · rw [List.take_of_length_le (Nat.le_add_left 2 count)]
    exact ⟨.clean hnone, hforeign⟩

end Steps

/-! ## Whole histories -/

/-- In every state the receipt lists the entries of the configuration, and what
    the configuration holds of others is what they left there. -/
theorem Reach.journaled {path : Str} {files : HookFiles} {view : ForeignView}
    (h : Reach agent path files view) :
    Journaled agent path files.value files.receipt ∧ foreignView agent files.value = view := by
  induction h with
  | start hreceipt hconfig hnone =>
    obtain ⟨-, hvalue, -⟩ := readConfig_value hconfig
    rw [hreceipt, hvalue]
    exact ⟨.clean hnone, rfl⟩
  | run h hrun count ih =>
    obtain ⟨hjournaled, hview⟩ := ih
    obtain ⟨args, hagent, hpath, habsolute, rfl | rfl⟩ := hrun
    · obtain ⟨hjournaled', hforeign⟩ := hjournaled.install_take hagent habsolute hpath count
      exact ⟨hjournaled', hforeign.trans hview⟩
    · obtain ⟨hjournaled', hforeign⟩ := hjournaled.uninstall_take count
      exact ⟨hjournaled', hforeign.trans hview⟩
  | @edit files view h config hentries ih =>
    obtain ⟨hjournaled, -⟩ := ih
    refine ⟨?_, rfl⟩
    show Journaled agent path (HookFiles.value ⟨config, none⟩) files.receipt
    generalize files.receipt = file at hjournaled
    cases hjournaled with
    | clean hnone =>
      refine .clean (List.eq_nil_iff_forall_not_mem.mpr fun entry hmem => ?_)
      have hold := hentries entry hmem
      rw [hnone] at hold
      cases hold
    | recorded existed entries hne hinstalls hcovers =>
      exact .recorded existed entries hne hinstalls fun entry hmem =>
        hcovers entry (hentries entry hmem)

/-- The texts an installation writes last can be read again. -/
def InstallFits (args : ConfigureHookArgs) (files : HookFiles) : Prop :=
  ∀ state, installState args files = .ok state →
    (∀ published, state.published = .ok published → Fits published)
      ∧ Fits (receiptValue args state.configExisted [state.installed])

/-- Over every history of interrupted runs that starts without an entry of the
    installer, the handlers of others stay as they are; an installation that
    completes leaves exactly its entry, and where its texts can be read again, a
    removal then succeeds and leaves none. -/
theorem installation_recovers {agent : Agent} {path : Str} {files : HookFiles} {view : ForeignView}
    (h : Reach agent path files view) :
    foreignView agent files.value = view
      ∧ ∀ args : ConfigureHookArgs, args.agent = agent → args.config = path →
        isAbsolute args.binary = true → (install args files).result = .ok () →
        ∃ owned, installedHook args = .ok owned
          ∧ installerEntries agent (afterInstall args files).value = [owned.entry]
          ∧ (InstallFits args files →
            ∀ removal : ConfigureHookArgs, removal.agent = agent → removal.config = path →
              (uninstall removal (afterInstall args files)).result = .ok ()
                ∧ installerEntries agent
                    (afterUninstall removal (afterInstall args files)).value = []) := by
  obtain ⟨hjournaled, hview⟩ := h.journaled
  refine ⟨hview, ?_⟩
  intro args hagent hpath habsolute hresult
  obtain ⟨error, hrun⟩ | ⟨state, published, hstate, hpublished, hrun⟩ :=
    hjournaled.install_cases hagent habsolute
  · rw [hrun] at hresult
    cases hresult
  obtain ⟨-, -, -, -, howned, hinstalls⟩ := hjournaled.installState hagent habsolute hstate
  obtain ⟨published', hpublished', haccepted, -, hentries⟩ :=
    hjournaled.published hagent habsolute hstate
  cases hpublished.symm.trans hpublished'
  have hafter : afterInstall args files
      = installedFiles args published state.configExisted state.installed := by
    unfold afterInstall
    rw [hrun]
    rfl
  refine ⟨state.installed, howned, ?_, ?_⟩
  · rw [hafter]
    exact hentries
  intro hfits removal hremoval hremovalPath
  obtain ⟨hconfig, hreceipt⟩ := hfits state hstate
  rw [hafter]
  -- The removal names the same agent and configuration; its binary is not read.
  have hsame : installedFiles args published state.configExisted state.installed
      = installedFiles removal published state.configExisted state.installed := by
    unfold installedFiles receiptValue
    rw [hagent, hpath, hremoval, hremovalPath]
  have hreceipt' : Fits (receiptValue removal state.configExisted [state.installed]) := by
    unfold receiptValue at hreceipt ⊢
    rw [hremoval, hremovalPath, ← hagent, ← hpath]
    exact hreceipt
  rw [hsame]
  obtain ⟨hremoved, hfiles⟩ := afterUninstall_installed haccepted (hconfig published hpublished)
    hreceipt' hinstalls.isObject
  refine ⟨hremoved, ?_⟩
  obtain ⟨-, -, hnone⟩ := removeOwnedHooks_spec haccepted (by simpa using hinstalls)
    (covers_singleton hinstalls hentries (List.mem_singleton_self _))
  rw [hfiles]
  unfold HookFiles.value
  dsimp only
  split_ifs with hcase
  · rw [Bool.and_eq_true, decide_eq_true_eq] at hcase
    rw [hcase.2] at hnone
    exact hnone
  · exact hnone

/-- The files of an agent with one setting. -/
def settingFiles : HookFiles := ⟨some ⟨some (.object [(ascii "model", .null)]), 14⟩, none⟩

/-- A first installation and its removal. -/
theorem installation_recovers_setting : ∃ owned, installedHook homeArgs = .ok owned
    ∧ installerEntries .codex (afterInstall homeArgs settingFiles).value = [owned.entry]
    ∧ (uninstall homeArgs (afterInstall homeArgs settingFiles)).result = .ok () := by
  have hstart : Reach .codex homeArgs.config settingFiles
      (foreignView .codex (.object [(ascii "model", .null)])) :=
    @Reach.start _ _ _ _ true rfl rfl rfl
  obtain ⟨owned, howned, hentries, hremoval⟩ :=
    (installation_recovers hstart).2 homeArgs rfl rfl (by decide) rfl
  refine ⟨owned, howned, hentries, (hremoval ?_ homeArgs rfl rfl).1⟩
  intro state hstate
  cases hstate
  refine ⟨fun published hpublished => ?_, by decide +kernel⟩
  cases hpublished
  decide +kernel

/-- The files of an agent whose configuration is a note. -/
def noteFiles (text : Str) (size : Nat) : HookFiles :=
  ⟨some ⟨some (.object [(ascii "note", .string text)]), size⟩, none⟩

/-- An installation beside a note that is as long as it may be completes, but what
    it published is too long to be read again. -/
theorem uninstall_noteFiles {text : Str} (h : text.length = 1048565) :
    (uninstall homeArgs (afterInstall homeArgs (noteFiles text 1048576))).result
      = .error (ascii "agent hook config exceeds 1048576 bytes") := by
  obtain ⟨hooks, hadd⟩ : ∃ hooks, addHook (removeOwnedHooks
      (.object [(ascii "note", .string text)]) []) homeHook
      = .ok (.object ([(hooksKey, hooks)] ++ [(ascii "note", .string text)])) := ⟨_, rfl⟩
  have hinstalled := @afterInstall_first homeArgs (noteFiles text 1048576) _ _ true homeHook rfl rfl
    rfl rfl hadd
  have hunfit : ¬ Fits (.object ([(hooksKey, hooks)] ++ [(ascii "note", .string text)])) := by
    have hlength := length_le_pretty_of_last [(hooksKey, hooks)] (ascii "note") text
    show ¬ (Value.pretty 0 _).length + 1 ≤ 1048576
    omega
  rw [hinstalled]
  show (uninstall homeArgs (installedFiles homeArgs _ true homeHook)).result = _
  rw [uninstall_unfit (fun hfits => hunfit hfits.1) rfl]
  rfl

/-- An installation that completes cannot always be removed. -/
theorem not_forall_recovers : ¬ ∀ (args : ConfigureHookArgs) (files : HookFiles) (config : Value)
    (existed : Bool), files.receipt = none → readConfig files.config = .ok (config, existed) →
    isAbsolute args.binary = true → (install args files).result = .ok () →
    (uninstall args (afterInstall args files)).result = .ok () := by
  intro h
  obtain ⟨text, htext⟩ : ∃ text : Str, text.length = 1048565 :=
    ⟨List.replicate 1048565 (byte 'a'), List.length_replicate⟩
  have hremoved := h homeArgs (noteFiles text 1048576) (.object [(ascii "note", .string text)]) true
    rfl rfl (by decide) rfl
  rw [uninstall_noteFiles htext] at hremoved
  cases hremoved

end Opcore.Hooks
