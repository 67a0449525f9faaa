/-
  Opcore.Hooks.Install

  The installer of the agent hook: one entry in the agent's configuration and a
  receipt that says which entries it owns.  An installation journals the entry in
  the receipt, publishes the configuration and then writes the final receipt; a
  removal publishes the configuration and then removes the receipt.
-/
import Opcore.Library.JsonEdit
import Opcore.Protocol.Wire

namespace Opcore.Hooks

open Text Json Asp

/-! ## Entries -/

inductive Agent where
  | codex
  | claude
  deriving DecidableEq

def Agent.matcher : Agent → Str
  | .codex => ascii "apply_patch|Edit|Write|Bash|mcp__.*"
  | .claude => ascii "Edit|MultiEdit|Write|Bash|mcp__.*"

/-- The arguments of the installer, except its mode. -/
structure ConfigureHookArgs where
  agent : Agent
  config : Str
  binary : Str
  receipt : Str

structure OwnedHook where
  matcher : Str
  entry : Value
  deriving DecidableEq

def commandMarker : Str := ascii "opcore agent-gate"

def shellQuote (value : Str) : Str :=
  byte '\'' :: value.flatMap (fun b => if b = byte '\'' then ascii "'\"'\"'" else [b]) ++ [byte '\'']

def hookCommand (binary : Str) : Except Str Str :=
  if utf8Valid binary then .ok (shellQuote binary ++ ascii " agent-gate # " ++ commandMarker)
  else .error (ascii "binary path is not valid UTF-8")

def hookEntry (command statusMessage : Str) : Value :=
  .object [(ascii "command", .string command), (ascii "statusMessage", .string statusMessage),
    (ascii "timeout", .number (.int 30)), (ascii "type", .string (ascii "command"))]

def hookWithStatus (args : ConfigureHookArgs) (statusMessage : Str) : Except Str OwnedHook :=
  (hookCommand args.binary).map fun command => ⟨args.agent.matcher, hookEntry command statusMessage⟩

def installedStatus : Str := ascii "Running Opcore Verify and Project Sense"

def installedHook (args : ConfigureHookArgs) : Except Str OwnedHook :=
  hookWithStatus args installedStatus

def legacyInstalledHook (args : ConfigureHookArgs) : Except Str OwnedHook :=
  (hookWithStatus args (ascii "Running Opcore Verify")).map fun owned =>
    { owned with matcher := match args.agent with
      | .codex => ascii "apply_patch|Edit|Write"
      | .claude => ascii "Edit|MultiEdit|Write" }

/-! ## Receipts -/

/-- What an installation leaves behind: the entries it owns. -/
structure HookReceipt where
  schema : Str
  agent : Agent
  config : Str
  configExisted : Bool
  ownedEntries : List OwnedHook
  deriving DecidableEq

def receiptSchema : Str := ascii "opcore.hook-install.v1"

def Agent.name : Agent → Str
  | .codex => ascii "codex"
  | .claude => ascii "claude"

def agentOfValue? (value : Value) : Option Agent := do
  let name ← unitVariant value
  if name = ascii "codex" then some .codex
  else if name = ascii "claude" then some .claude
  else none

def OwnedHook.toValue (owned : OwnedHook) : Value :=
  .object [(ascii "entry", owned.entry), (ascii "matcher", .string owned.matcher)]

def OwnedHook.ofValue? (value : Value) : Option OwnedHook := do
  let fields ← structFields [ascii "matcher", ascii "entry"] value
  let matcher ← requiredField Value.asStr? fields (ascii "matcher")
  let entry ← requiredField some fields (ascii "entry")
  return ⟨matcher, entry⟩

def HookReceipt.toValue (receipt : HookReceipt) : Value :=
  .object [(ascii "agent", .string receipt.agent.name), (ascii "config", .string receipt.config),
    (ascii "configExisted", .bool receipt.configExisted),
    (ascii "ownedEntries", .array (receipt.ownedEntries.map OwnedHook.toValue)),
    (ascii "schema", .string receipt.schema)]

def HookReceipt.ofValue? (value : Value) : Option HookReceipt := do
  let fields ← structFields [ascii "schema", ascii "agent", ascii "config", ascii "configExisted",
    ascii "ownedEntries"] value
  let schema ← requiredField Value.asStr? fields (ascii "schema")
  let agent ← requiredField agentOfValue? fields (ascii "agent")
  let config ← requiredField Value.asStr? fields (ascii "config")
  let configExisted ← requiredField Value.asBool? fields (ascii "configExisted")
  let ownedEntries ← optionalField (readArray OwnedHook.ofValue?) fields (ascii "ownedEntries")
  return ⟨schema, agent, config, configExisted, ownedEntries.getD []⟩

/-! ## Files -/

def maxAgentConfigBytes : Nat := 1024 * 1024

/-- A file with the JSON value its bytes stand for, if they do. -/
structure JsonFile where
  content : Option Value
  size : Nat

/-- What `write_json` leaves: the indented text and a line break. -/
def writtenFile (value : Value) : JsonFile := ⟨some value, (value.pretty 0).length + 1⟩

/-- The two files of an installation. -/
structure HookFiles where
  config : Option JsonFile
  receipt : Option JsonFile

def readOptionalJson : Option JsonFile → Except Str (Option Value)
  | none => .ok none
  | some file =>
    if maxAgentConfigBytes < file.size then
      .error (ascii "agent hook config exceeds 1048576 bytes")
    else
      match file.content with
      | none => .error (ascii "parse unique agent hook JSON")
      | some value => .ok (some value)

def asArray? : Value → Option (List Value)
  | .array items => some items
  | _ => none

def isObject (value : Value) : Bool := value.asObject?.isSome

def validateHookGroup (event : Str) (group : Value) : Except Str Unit :=
  match (group.get? (ascii "hooks")).bind asArray? with
  | none => .error (ascii "agent hook event " ++ event
      ++ ascii " requires a hooks array in each group")
  | some handlers =>
    if handlers.all isObject then .ok () else .error (ascii "agent hook handlers must be objects")

def validateHookEvent (event : Str) (groups : Value) : Except Str Unit :=
  match asArray? groups with
  | none => .error (ascii "agent hook event " ++ event ++ ascii " must be an array")
  | some groups => groups.forM (validateHookGroup event)

def validateHookGroups (config : Value) : Except Str Unit :=
  match config.get? (ascii "hooks") with
  | none => .ok ()
  | some hooks =>
    match hooks.asObject? with
    | none => .error (ascii "agent config hooks must be an object")
    | some hooks => hooks.forM fun member => validateHookEvent member.1 member.2

/-- The configuration and whether there is one. -/
def readConfig (file : Option JsonFile) : Except Str (Value × Bool) := do
  match ← readOptionalJson file with
  | none => .ok (.object [], false)
  | some value =>
    if isObject value then (validateHookGroups value).map fun _ => (value, true)
    else .error (ascii "agent hook config must be a JSON object")

def readReceipt (file : Option JsonFile) : Except Str (Option HookReceipt) := do
  match ← readOptionalJson file with
  | none => .ok none
  | some value =>
    match HookReceipt.ofValue? value with
    | none => .error (ascii "validate hook install receipt")
    | some receipt => .ok (some receipt)

def validateReceipt (receipt : HookReceipt) (args : ConfigureHookArgs) : Except Str Unit :=
  if receipt.schema ≠ receiptSchema then .error (ascii "unsupported hook receipt schema")
  else if receipt.agent ≠ args.agent then .error (ascii "hook receipt agent does not match")
  else if receipt.config ≠ args.config then .error (ascii "hook receipt config path does not match")
  else .ok ()

/-- The entries of a receipt; one of an older installer lists none and owns the
    entry that installer wrote. -/
def recordedEntries (receipt : HookReceipt) (args : ConfigureHookArgs) :
    Except Str (List OwnedHook) :=
  if receipt.ownedEntries.isEmpty then (legacyInstalledHook args).map fun owned => [owned]
  else .ok receipt.ownedEntries

def receiptEntries (receipt : HookReceipt) (args : ConfigureHookArgs) :
    Except Str (List OwnedHook) := do
  let entries ← recordedEntries receipt args
  if 2 < entries.length then .error (ascii "hook receipt owns too many entries")
  else if entries.all fun owned => isObject owned.entry then .ok entries
  else .error (ascii "hook receipt entry must be an object")

/-! ## Editing the configuration -/

def hooksKey : Str := ascii "hooks"

def eventKey : Str := ascii "PostToolUse"

def groupMatcher (group : Value) : Option Str := (group.get? (ascii "matcher")).bind Value.asStr?

def objectEntry (object : List (Str × Value)) (key : Str) : Except Str (List (Str × Value)) :=
  match object.lookup key with
  | none => .ok []
  | some value =>
    match value.asObject? with
    | none => .error (ascii "agent config " ++ key ++ ascii " must be an object")
    | some members => .ok members

def arrayEntry (object : List (Str × Value)) (key : Str) : Except Str (List Value) :=
  match object.lookup key with
  | none => .ok []
  | some value =>
    match asArray? value with
    | none => .error (ascii "agent config " ++ key ++ ascii " must be an array")
    | some items => .ok items

def addToGroup (group : Value) (entry : Value) : Except Str Value :=
  match group.asObject? with
  | none => .error (ascii "matching PostToolUse group must be an object")
  | some members => do
    let handlers ← arrayEntry members hooksKey
    return .object (setMember members hooksKey (.array (handlers ++ [entry])))

/-- The entry at the end of the first group with its matcher, or in a new group. -/
def addToGroups (owned : OwnedHook) : List Value → Except Str (List Value)
  | [] => .ok [.object [(hooksKey, .array [owned.entry]),
      (ascii "matcher", .string owned.matcher)]]
  | group :: groups =>
    if groupMatcher group = some owned.matcher then
      (addToGroup group owned.entry).map fun group => group :: groups
    else (addToGroups owned groups).map fun groups => group :: groups

def addHook (config : Value) (owned : OwnedHook) : Except Str Value :=
  match config.asObject? with
  | none => .error (ascii "agent config is not an object")
  | some root => do
    let hooks ← objectEntry root hooksKey
    let groups ← arrayEntry hooks eventKey
    let groups ← addToGroups owned groups
    return .object (setMember root hooksKey (.object (setMember hooks eventKey (.array groups))))

def isOwned (owned : List OwnedHook) (matcher : Option Str) (entry : Value) : Bool :=
  owned.any fun owned => matcher = some owned.matcher && entry = owned.entry

def retainEntries (owned : List OwnedHook) (group : Value) : Value :=
  match group with
  | .object members =>
    match members.lookup hooksKey with
    | some (.array entries) =>
      .object (setMember members hooksKey (.array
        (entries.filter fun entry => !isOwned owned (groupMatcher group) entry)))
    | _ => group
  | _ => group

/-- A group goes when it has no handlers and nothing beside them and a matcher. -/
def retainGroup (group : Value) : Bool :=
  ((group.get? hooksKey).bind asArray?).all fun entries =>
    !entries.isEmpty || group.asObject?.any fun members => 2 < members.length

/-- The configuration with other groups for the event; what is left empty goes. -/
def withGroups (root hooks : List (Str × Value)) (groups : List Value) : Value :=
  let hooks := if groups.isEmpty then removeMember hooks eventKey
    else setMember hooks eventKey (.array groups)
  .object (if hooks.isEmpty then removeMember root hooksKey
    else setMember root hooksKey (.object hooks))

/-- The configuration without the owned entries, and without what they leave empty. -/
def removeOwnedHooks (config : Value) (owned : List OwnedHook) : Value :=
  match config with
  | .object root =>
    match root.lookup hooksKey with
    | some (.object hooks) =>
      match hooks.lookup eventKey with
      | some (.array groups) =>
        withGroups root hooks ((groups.map (retainEntries owned)).filter retainGroup)
      | _ => config
    | _ => config
  | _ => config

/-! ## Runs -/

inductive HookWrite where
  | config (value : Value)
  | receipt (value : Value)
  | removeConfig
  | removeReceipt

def HookWrite.apply (files : HookFiles) : HookWrite → HookFiles
  | .config value => { files with config := some (writtenFile value) }
  | .receipt value => { files with receipt := some (writtenFile value) }
  | .removeConfig => { files with config := none }
  | .removeReceipt => { files with receipt := none }

def HookFiles.after (files : HookFiles) (writes : List HookWrite) : HookFiles :=
  writes.foldl HookWrite.apply files

/-- The writes of a run in order, and how it ends. -/
structure HookRun where
  writes : List HookWrite
  result : Except Str Unit

def HookRun.refused (error : Str) : HookRun := ⟨[], .error error⟩

def priorInstallState (prior : Option HookReceipt) (args : ConfigureHookArgs)
    (currentlyExists : Bool) : Except Str (Bool × List OwnedHook) :=
  match prior with
  | none => .ok (currentlyExists, [])
  | some receipt => do
    validateReceipt receipt args
    let entries ← receiptEntries receipt args
    return (receipt.configExisted, entries)

def journalEntries (prior : List OwnedHook) (installed : OwnedHook) : List OwnedHook :=
  if prior.contains installed then prior else prior ++ [installed]

/-- The value `write_receipt` writes; a path is text in it. -/
def receiptValue (args : ConfigureHookArgs) (configExisted : Bool) (ownedEntries : List OwnedHook) :
    Value :=
  HookReceipt.toValue ⟨receiptSchema, args.agent, args.config, configExisted, ownedEntries⟩

/-- What an installation reads before its first write: the configuration, whether
    there was one, the entries owned so far and the entry to install. -/
structure InstallState where
  config : Value
  configExisted : Bool
  prior : List OwnedHook
  installed : OwnedHook

def installState (args : ConfigureHookArgs) (files : HookFiles) : Except Str InstallState := do
  let (config, currentlyExists) ← readConfig files.config
  let prior ← readReceipt files.receipt
  let (configExisted, prior) ← priorInstallState prior args currentlyExists
  let installed ← installedHook args
  return ⟨config, configExisted, prior, installed⟩

/-- The configuration an installation publishes. -/
def InstallState.published (state : InstallState) : Except Str Value :=
  addHook (removeOwnedHooks state.config state.prior) state.installed

/-- The receipt with old and new entries, the configuration, the receipt with the new one. -/
def install (args : ConfigureHookArgs) (files : HookFiles) : HookRun :=
  match installState args files with
  | .error error => .refused error
  | .ok state =>
    if ¬ utf8Valid args.config then .refused (ascii "path contains invalid UTF-8 characters")
    else
      let journal := receiptValue args state.configExisted
        (journalEntries state.prior state.installed)
      match state.published with
      | .error error => ⟨[.receipt journal], .error error⟩
      | .ok config =>
        ⟨[.receipt journal, .config config,
          .receipt (receiptValue args state.configExisted [state.installed])], .ok ()⟩

/-- `publish_uninstalled_config`. -/
def uninstalledWrite (config : Value) (currentlyExists configExisted : Bool) : HookWrite :=
  if !currentlyExists || (!configExisted && config = .object []) then .removeConfig
  else .config config

/-- What a removal reads before its first write: the write of the configuration. -/
def uninstallWrite (args : ConfigureHookArgs) (files : HookFiles) : Except Str HookWrite := do
  match ← readReceipt files.receipt with
  | none => .error (ascii "hook install receipt is missing")
  | some receipt => do
    validateReceipt receipt args
    let entries ← receiptEntries receipt args
    let (config, currentlyExists) ← readConfig files.config
    return uninstalledWrite (removeOwnedHooks config entries) currentlyExists receipt.configExisted

def uninstall (args : ConfigureHookArgs) (files : HookFiles) : HookRun :=
  match uninstallWrite args files with
  | .error error => .refused error
  | .ok write => ⟨[write, .removeReceipt], .ok ()⟩

def isAbsolute (path : Str) : Bool := path.head? = some (byte '/')

/-! ## Reading back -/

theorem OwnedHook.ofValue?_toValue (owned : OwnedHook) :
    OwnedHook.ofValue? owned.toValue = some owned := rfl

theorem readArray_map {α : Type} {read : Value → Option α} {write : α → Value}
    (h : ∀ a, read (write a) = some a) (l : List α) :
    readArray read (.array (l.map write)) = some l := by
  show (l.map write).mapM read = some l
  induction l with
  | nil => rfl
  | cons a l ih =>
    rw [List.map_cons, List.mapM_cons, h, ih]
    rfl

/-- A receipt reads back as it was written. -/
theorem HookReceipt.ofValue?_toValue (receipt : HookReceipt) :
    HookReceipt.ofValue? receipt.toValue = some receipt := by
  obtain ⟨schema, agent, config, configExisted, ownedEntries⟩ := receipt
  have hentries := readArray_map OwnedHook.ofValue?_toValue ownedEntries
  have hagent : agentOfValue? (.string agent.name) = some agent := by
    cases agent <;> rfl
  show (agentOfValue? (.string agent.name)).bind (fun _ => ((readArray OwnedHook.ofValue?
    (.array (ownedEntries.map OwnedHook.toValue))).map some).bind fun _ => _) = _
  rw [hagent, hentries]
  rfl

/-- The text of a value is short enough to be read again. -/
def Fits (value : Value) : Prop := (writtenFile value).size ≤ maxAgentConfigBytes

instance (value : Value) : Decidable (Fits value) := inferInstanceAs (Decidable (_ ≤ _))

/-- What a file that can be read holds. -/
theorem content_of_readOptionalJson {file : JsonFile} {result : Option Value}
    (h : readOptionalJson (some file) = .ok result) : file.content = result ∧ result.isSome := by
  unfold readOptionalJson at h
  dsimp only at h
  split at h
  · cases h
  · cases hcontent : file.content with
    | none =>
      rw [hcontent] at h
      cases h
    | some value =>
      rw [hcontent] at h
      cases h
      exact ⟨rfl, rfl⟩

theorem readOptionalJson_written (value : Value) :
    readOptionalJson (some (writtenFile value)) = if Fits value then .ok (some value)
      else .error (ascii "agent hook config exceeds 1048576 bytes") := by
  unfold readOptionalJson
  by_cases h : Fits value
  · rw [if_pos h]
    exact if_neg (not_lt.mpr h)
  · rw [if_neg h]
    exact if_pos (not_le.mp h)

/-- A receipt that is read is the one that was written. -/
theorem readReceipt_eq_ok_of_written {receipt : HookReceipt} {found : Option HookReceipt}
    (h : readReceipt (some (writtenFile receipt.toValue)) = .ok found) : found = some receipt := by
  unfold readReceipt at h
  obtain ⟨value, hvalue, h⟩ := Except.bind_eq_ok_iff.mp h
  rw [readOptionalJson_written] at hvalue
  split_ifs at hvalue
  cases hvalue
  dsimp only at h
  rw [HookReceipt.ofValue?_toValue] at h
  cases h
  rfl

theorem readReceipt_written {args : ConfigureHookArgs} {existed : Bool} {entries : List OwnedHook}
    (h : Fits (receiptValue args existed entries)) :
    readReceipt (some (writtenFile (receiptValue args existed entries)))
      = .ok (some ⟨receiptSchema, args.agent, args.config, existed, entries⟩) := by
  unfold readReceipt
  rw [readOptionalJson_written, if_pos h]
  show (match HookReceipt.ofValue? (receiptValue args existed entries) with
    | none => Except.error (ascii "validate hook install receipt")
    | some receipt => Except.ok (some receipt)) = _
  unfold receiptValue
  rw [HookReceipt.ofValue?_toValue]

theorem readReceipt_unfit {value : Value} (h : ¬ Fits value) :
    readReceipt (some (writtenFile value))
      = .error (ascii "agent hook config exceeds 1048576 bytes") := by
  unfold readReceipt
  rw [readOptionalJson_written, if_neg h]
  rfl

theorem readConfig_unfit {value : Value} (h : ¬ Fits value) :
    readConfig (some (writtenFile value))
      = .error (ascii "agent hook config exceeds 1048576 bytes") := by
  unfold readConfig
  rw [readOptionalJson_written, if_neg h]
  rfl

/-- A receipt of the same installation names the entries it lists. -/
theorem receiptEntries_written {args : ConfigureHookArgs} {receipt : HookReceipt}
    (hne : receipt.ownedEntries ≠ []) (hlength : receipt.ownedEntries.length ≤ 2)
    (hobject : ∀ owned ∈ receipt.ownedEntries, isObject owned.entry = true) :
    receiptEntries receipt args = .ok receipt.ownedEntries := by
  have hempty : receipt.ownedEntries.isEmpty = false := by simpa using hne
  have hall : (receipt.ownedEntries.all fun owned => isObject owned.entry) = true :=
    List.all_eq_true.mpr hobject
  unfold receiptEntries recordedEntries
  rw [hempty, if_neg Bool.false_ne_true]
  show (if 2 < receipt.ownedEntries.length then _ else _) = _
  rw [if_neg (not_lt.mpr hlength), if_pos hall]

theorem validateReceipt_written (args : ConfigureHookArgs) (existed : Bool)
    (entries : List OwnedHook) :
    validateReceipt ⟨receiptSchema, args.agent, args.config, existed, entries⟩ args = .ok () := by
  simp [validateReceipt]

end Opcore.Hooks
