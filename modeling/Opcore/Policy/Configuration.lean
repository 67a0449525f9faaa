/-
  Opcore.Policy.Configuration

  A configuration file as it is read, checked and resolved for a workflow, and the snapshot
  that a command works with.
-/
import Opcore.Policy.Shape

namespace Opcore

open Text Collections Json Documentation Asp

/-! ## Checks of the settings -/

def maxDependencyFactsPerFile : Nat := 4096
def maxInterfaceFactsPerFile : Nat := 4096

instance : LinearOrder NativeProvider :=
  LinearOrder.lift' NativeProvider.ctorIdx
    (Function.LeftInverse.injective NativeProvider.ofNat_ctorIdx)

def validateVerify (limits : RuleLimits) : Except Failure Unit := do
  ensure (limits.maxFileLines ≤ maxSourceBytes)
    (ascii "verify.maxFileLines exceeds the hard safety bound")
  ensure (limits.maxLineBytes ≤ maxLineBytes)
    (ascii "verify.maxLineBytes exceeds the hard safety bound")
  ensure (limits.maxFunctionLines ≤ limits.maxFileLines)
    (ascii "verify.maxFunctionLines must not exceed maxFileLines")
  ensure (limits.maxParameters ≤ maxDependencyFactsPerFile)
    (ascii "verify.maxParameters exceeds the hard safety bound")
  ensure (limits.maxNesting ≤ maxStructuralDepth)
    (ascii "verify.maxNesting exceeds the parser safety bound")
  ensure (limits.maxCyclomaticComplexity ≤ maxSourceBytes)
    (ascii "verify.maxCyclomaticComplexity exceeds the hard safety bound")

def TargetPolicy.validate (self : TargetPolicy) : Except Failure Unit := do
  ensure (self.exclude.length ≤ maxTargetPaths) (ascii "targets.exclude exceeds 256 paths")
  ensure ((BTreeSet.ofList self.exclude).size = self.exclude.length)
    (ascii "targets.exclude contains a duplicate path")

def ProviderSettings.validate (self : ProviderSettings) : Except Failure Unit :=
  [NativeProvider.rustNative, .nodeNative, .pythonNative].forM fun provider =>
    ((self.options provider).validate provider.asStr).mapError fun error => [error]

/-- The checks of a policy apart from its workflows; no setting of the coverage is checked. -/
def Policy.validateEffective (self : Policy) : Except Failure Unit := do
  ensure (self.schemaVersion = policySchemaVersion) (ascii "schemaVersion must be 1")
  validateVerify self.verify
  ensure (1 ≤ self.sense.minimumIdenticalBytes && self.sense.minimumIdenticalBytes ≤ maxSourceBytes)
    (ascii "sense.minimumIdenticalBytes must be within 1..=4194304")
  ensure (1 ≤ self.sense.importantFanIn && self.sense.importantFanIn ≤ maxFiles)
    (ascii "sense.importantFanIn must be within 1..=10000")
  ensure (self.sense.maxDependencyTargets ≤ maxGraphEdges)
    (ascii "sense.maxDependencyTargets exceeds the graph safety bound")
  [(ascii "maxEdgeSelectors", self.sense.maxEdgeSelectors),
    (ascii "maxModuleExports", self.sense.maxModuleExports),
    (ascii "maxShapeMembers", self.sense.maxShapeMembers)].forM fun (name, value) =>
      ensure (value ≤ maxInterfaceFactsPerFile)
        (ascii "sense." ++ name ++ ascii " exceeds the per-file fact bound")
  self.targets.validate
  self.providers.validate
  (validateBindings self.documentation.bindings).mapError fun error => [error.message]
  ensure ((BTreeSet.ofList self.native).size = self.native.length)
    (ascii "native contains a duplicate provider")
  self.native.forM fun provider =>
    ensure (!(self.providers.options provider).roots.isEmpty)
      (ascii "providers." ++ provider.asStr
        ++ ascii ".roots cannot be empty while that native provider is required")

/-! ## Resolution -/

/-- The policy with the settings of a workflow; after an edit no native provider runs. -/
def Policy.select (self : Policy) (workflow : Workflow) : Except Failure Policy :=
  let settings := self.workflows.selected workflow
  let resolved := settings.apply self
  if workflow = .postEdit then do
    ensure (settings.native.all List.isEmpty)
      (ascii "workflows.post-edit.native must be empty: "
        ++ ascii "automatic hooks use Fast Verify and Sense")
    pure { resolved with native := [] }
  else pure resolved

def Policy.resolve (self : Policy) (workflow : Option Workflow) : Except Failure Policy := do
  let resolved ← match workflow with
    | none => pure self
    | some workflow => self.select workflow
  let resolved := { resolved with workflows := {} }
  resolved.validateEffective
  pure resolved

def Policy.validate (self : Policy) : Except Failure Unit := do
  self.validateEffective
  [Workflow.postEdit, .preCommit, .ci].forM fun workflow =>
    withContext (ascii "workflows." ++ workflow.asStr)
      ((self.resolve (some workflow)).map fun _ => ())

/-! ## Files -/

def maxPolicyBytes : Nat := 256 * 1024

/-- A JSON text that was read: its strings are UTF-8 and no key is repeated. -/
structure Document where
  value : Value
  wellFormed : value.wellFormed = true

/-- The bytes of a configuration file: how many they are, and what `parse_unique_json` makes of
    them. -/
structure ConfigFile where
  size : Nat
  json : Except Failure Document

/-- The members without the name of the schema, which has to be a text. -/
def withoutSchema : Value → Except Failure Value
  | .object members =>
    match members.lookup (ascii "$schema") with
    | none => .ok (.object members)
    | some schema => do
      ensure schema.asStr?.isSome (ascii "$schema must be a schema URL string")
      pure (.object (removeMember members (ascii "$schema")))
  | value => .ok value

/-- `serde_json::from_value`; the text of its error is left out. -/
def Policy.fromValue (value : Value) : Except Failure Policy :=
  match Policy.ofValue? value with
  | some policy => .ok policy
  | none => .error []

def Policy.sortBindings (self : Policy) : Policy :=
  { self with documentation := ⟨self.documentation.bindings.insertionSort (· ≤ ·)⟩ }

def parsePolicy (file : ConfigFile) : Except Failure Policy := do
  ensure (file.size ≤ maxPolicyBytes) (ascii ".opcore.json exceeds 262144 bytes")
  let document ← withContext (ascii "parse unique .opcore.json JSON") file.json
  Shape.validateValue document.value Shape.expected []
  let value ← withoutSchema document.value
  let policy ← withContext (ascii "validate .opcore.json schema") (Policy.fromValue value)
  let policy := policy.sortBindings
  withContext (ascii "validate .opcore.json settings") policy.validate
  pure policy

/-! ## Origins -/

mutual

/-- Each leaf of the value gets the origin, at its pointer. -/
def markOrigins : Value → Str → Str → BTreeMap Str Str → BTreeMap Str Str
  | .object members, pointer, origin, origins => markMembers members pointer origin origins
  | _, pointer, origin, origins => origins.insert pointer origin

def markMembers : List (Str × Value) → Str → Str → BTreeMap Str Str → BTreeMap Str Str
  | [], _, _, origins => origins
  | (key, value) :: members, pointer, origin, origins =>
    markMembers members pointer origin
      (markOrigins value (pointer ++ byte '/' :: key) origin origins)

end

/-- The settings of a workflow in a file. -/
def workflowSettings (value : Value) (workflow : Option Workflow) : Option Value :=
  workflow.bind fun workflow =>
    (value.get? (ascii "workflows")).bind fun workflows => workflows.get? workflow.asStr

def workflowOrigin (workflow : Workflow) : Str := ascii "workflow:" ++ workflow.asStr

def markFile (origins : BTreeMap Str Str) (raw : Value) (workflow : Option Workflow) :
    BTreeMap Str Str :=
  let origins := markOrigins raw [] (ascii "repository") origins
  match workflow, workflowSettings raw workflow with
  | some workflow, some settings => markOrigins settings [] (workflowOrigin workflow) origins
  | _, _ => origins

/-- The pointers that stay; those of the workflows and of the schema do not. -/
def isEffective (path : Str) : Bool :=
  !(ascii "/workflows").isPrefixOf path && path ≠ ascii "/$schema"

def configurationOrigins (policy : Policy) (file : Option ConfigFile)
    (workflow : Option Workflow) : Except Failure (BTreeMap Str Str) := do
  let origins := markOrigins policy.toValue [] (ascii "default") ∅
  let origins ← match file with
    | none => pure origins
    | some file => do
      let raw ← file.json
      pure (markFile origins raw.value workflow)
  pure (origins.filter fun path _ => isEffective path)

/-! ## Snapshots -/

inductive PolicyState where
  | default
  | configured
  deriving DecidableEq

structure PolicySnapshot where
  policy : Policy
  state : PolicyState
  workflow : Option Workflow
  origins : BTreeMap Str Str

/-- The file sets `coverage.allowPartial` for every workflow. -/
def setsAllowPartial (value : Value) : Bool :=
  ((value.get? (ascii "coverage")).bind fun coverage =>
    coverage.get? (ascii "allowPartial")).isSome

def Policy.allowPartial (self : Policy) : Policy :=
  { self with coverage := { self.coverage with allowPartial := true } }

/-- After an edit partial coverage is allowed, unless the file says otherwise. -/
def adjust (configuration : Policy) (file : Option ConfigFile) (workflow : Option Workflow) :
    Except Failure Policy :=
  if workflow = some .postEdit then do
    let explicit ← file.mapM fun file => file.json
    if explicit.any fun document => setsAllowPartial document.value then pure configuration
    else pure configuration.allowPartial
  else pure configuration

def PolicySnapshot.fromBytes (file : Option ConfigFile) (workflow : Option Workflow) :
    Except Failure PolicySnapshot := do
  let configured ← file.mapM parsePolicy
  let state := if configured.isSome then PolicyState.configured else .default
  let configuration ← adjust (configured.getD {}) file workflow
  let policy ← configuration.resolve workflow
  let origins ← configurationOrigins policy file workflow
  pure { policy, state, workflow, origins }

/-! ## Accepted files -/

variable {raw value : Value}

theorem withoutSchema_eq_ok (h : withoutSchema raw = .ok value) :
    value = raw ∨ ∃ members, raw = .object members
      ∧ value = .object (removeMember members (ascii "$schema")) := by
  match raw, h with
  | .object members, h =>
    rw [withoutSchema] at h
    cases hschema : members.lookup (ascii "$schema") with
    | none =>
      rw [hschema] at h
      cases h
      exact .inl rfl
    | some schema =>
      rw [hschema] at h
      obtain ⟨_, -, h⟩ := Except.bind_eq_ok_iff.mp h
      cases h
      exact .inr ⟨members, rfl, rfl⟩
  | .null, h => cases h; exact .inl rfl
  | .bool _, h => cases h; exact .inl rfl
  | .number _, h => cases h; exact .inl rfl
  | .string _, h => cases h; exact .inl rfl
  | .array _, h => cases h; exact .inl rfl

theorem wellFormed_withoutSchema (h : withoutSchema raw = .ok value)
    (hwell : raw.wellFormed = true) : value.wellFormed = true := by
  obtain rfl | ⟨members, rfl, rfl⟩ := withoutSchema_eq_ok h
  · exact hwell
  · exact wellFormed_removeMember hwell

theorem get?_withoutSchema (h : withoutSchema raw = .ok value) {key : Str}
    (hkey : key ≠ ascii "$schema") : value.get? key = raw.get? key := by
  obtain rfl | ⟨members, rfl, rfl⟩ := withoutSchema_eq_ok h
  · rfl
  · show (removeMember members (ascii "$schema")).lookup key = members.lookup key
    rw [lookup_removeMember, if_neg hkey]

/-- What is known of a file that is accepted. -/
structure Accepts (raw : Value) (policy : Policy) : Prop where
  wellFormed : raw.wellFormed = true
  plain : raw.plain = true
  shape : Shape.validateValue raw Shape.expected [] = .ok ()
  read : ∃ value unsorted, withoutSchema raw = .ok value ∧ Policy.ofValue? value = some unsorted
    ∧ policy = unsorted.sortBindings
  valid : policy.validate = .ok ()

theorem accepts_of_parsePolicy {file : ConfigFile} {policy : Policy}
    (h : parsePolicy file = .ok policy) :
    ∃ document, file.json = .ok document ∧ Accepts document.value policy := by
  rw [parsePolicy] at h
  obtain ⟨_, -, h⟩ := Except.bind_eq_ok_iff.mp h
  obtain ⟨document, hdocument, h⟩ := Except.bind_eq_ok_iff.mp h
  obtain ⟨_, hshape, h⟩ := Except.bind_eq_ok_iff.mp h
  obtain ⟨value, hvalue, h⟩ := Except.bind_eq_ok_iff.mp h
  obtain ⟨unsorted, hunsorted, h⟩ := Except.bind_eq_ok_iff.mp h
  obtain ⟨_, hvalid, h⟩ := Except.bind_eq_ok_iff.mp h
  cases h
  have hread : Policy.ofValue? value = some unsorted := by
    have hfrom := withContext_eq_ok.mp hunsorted
    rw [Policy.fromValue] at hfrom
    split at hfrom
    next heq => rw [heq, Except.ok.inj hfrom]
    next => cases hfrom
  refine ⟨document, withContext_eq_ok.mp hdocument, document.wellFormed, ?_, hshape,
    ⟨value, unsorted, hvalue, hread, rfl⟩, withContext_eq_ok.mp hvalid⟩
  exact Shape.plain_of_validateValue _ _ _ hshape Shape.plain_expected

/-! ## Resolved policies -/

/-- The policy that a workflow selects, before its checks. -/
def Policy.selected (self : Policy) : Option Workflow → Policy
  | none => self
  | some workflow =>
    let resolved := (self.workflows.selected workflow).apply self
    if workflow = .postEdit then { resolved with native := [] } else resolved

/-- After an edit no native provider is asked for. -/
def ForbidsNative (self : Policy) (workflow : Option Workflow) : Prop :=
  workflow = some .postEdit → self.workflows.postEdit.native.all List.isEmpty = true

variable {self resolved : Policy}

theorem Policy.select_eq_ok {workflow : Workflow} :
    self.select workflow = .ok resolved
      ↔ ForbidsNative self (some workflow) ∧ resolved = self.selected (some workflow) := by
  rw [Policy.select, Policy.selected]
  by_cases hpost : workflow = .postEdit
  · subst hpost
    rw [if_pos rfl, if_pos rfl]
    constructor
    · intro h
      obtain ⟨_, hnative, h⟩ := Except.bind_eq_ok_iff.mp h
      cases h
      exact ⟨fun _ => ensure_eq_ok.mp hnative, rfl⟩
    · rintro ⟨hnative, rfl⟩
      exact Except.bind_eq_ok_iff.mpr ⟨(), ensure_eq_ok.mpr (hnative rfl), rfl⟩
  · rw [if_neg hpost, if_neg hpost]
    constructor
    · intro h
      cases h
      exact ⟨fun heq => absurd (Option.some.inj heq) hpost, rfl⟩
    · rintro ⟨-, rfl⟩
      rfl

theorem Policy.resolve_eq_ok {workflow : Option Workflow} :
    self.resolve workflow = .ok resolved ↔ ForbidsNative self workflow
      ∧ resolved = { self.selected workflow with workflows := {} }
      ∧ (self.selected workflow).validateEffective = .ok () := by
  unfold Policy.resolve
  cases workflow with
  | none =>
    constructor
    · intro h
      obtain ⟨_, hself, h⟩ := Except.bind_eq_ok_iff.mp h
      cases hself
      obtain ⟨_, hvalid, h⟩ := Except.bind_eq_ok_iff.mp h
      cases h
      exact ⟨nofun, rfl, hvalid⟩
    · rintro ⟨-, rfl, hvalid⟩
      refine Except.bind_eq_ok_iff.mpr ⟨self, rfl, ?_⟩
      exact Except.bind_eq_ok_iff.mpr ⟨(), hvalid, rfl⟩
  | some workflow =>
    constructor
    · intro h
      obtain ⟨selected, hselected, h⟩ := Except.bind_eq_ok_iff.mp h
      obtain ⟨_, hvalid, h⟩ := Except.bind_eq_ok_iff.mp h
      cases h
      obtain ⟨hnative, rfl⟩ := Policy.select_eq_ok.mp hselected
      exact ⟨hnative, rfl, hvalid⟩
    · rintro ⟨hnative, rfl, hvalid⟩
      refine Except.bind_eq_ok_iff.mpr ⟨_, Policy.select_eq_ok.mpr ⟨hnative, rfl⟩, ?_⟩
      exact Except.bind_eq_ok_iff.mpr ⟨(), hvalid, rfl⟩

/-- The coverage is not checked. -/
theorem resolve_allowPartial {workflow : Option Workflow}
    (h : self.resolve workflow = .ok resolved) :
    ∃ resolved, self.allowPartial.resolve workflow = .ok resolved := by
  obtain ⟨hnative, -, hvalid⟩ := Policy.resolve_eq_ok.mp h
  refine ⟨_, Policy.resolve_eq_ok.mpr ⟨hnative, rfl, ?_⟩⟩
  cases workflow with
  | none => exact hvalid
  | some workflow => cases workflow <;> exact hvalid

theorem exists_resolve {self : Policy} (h : self.validate = .ok ())
    (workflow : Option Workflow) : ∃ resolved, self.resolve workflow = .ok resolved := by
  obtain ⟨_, hvalid, h⟩ := Except.bind_eq_ok_iff.mp h
  cases workflow with
  | none => exact ⟨_, Policy.resolve_eq_ok.mpr ⟨nofun, rfl, hvalid⟩⟩
  | some workflow =>
    have hresolve := Except.forM_eq_ok_iff.mp h workflow (by cases workflow <;> decide)
    cases hr : self.resolve (some workflow) with
    | ok resolved => exact ⟨resolved, rfl⟩
    | error failure =>
      rw [hr] at hresolve
      cases hresolve

end Opcore
