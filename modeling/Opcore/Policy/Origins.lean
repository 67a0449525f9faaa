/-
  Opcore.Policy.Origins

  Where the settings of a snapshot come from: the origin of each leaf against the value it
  has in the file, in the settings of the workflow or without a file.
-/
import Opcore.Policy.Configuration

namespace Opcore

open Text Collections Json Documentation Asp

/-! ## Marks -/

/-- The pointer is that of a leaf of the value. -/
def Marks (value : Value) (start q : Str) : Prop :=
  ∃ path, HasLeaf value path ∧ q = start ++ pointer path

variable {value : Value}

theorem marks_of_leaf (h : value.isObject = false) {start q : Str} :
    Marks value start q ↔ q = start := by
  constructor
  · rintro ⟨path, hleaf, rfl⟩
    cases hleaf with
    | here _ => exact List.append_nil start
    | member _ _ => cases h
  · rintro rfl
    exact ⟨[], .here h, (List.append_nil q).symm⟩

theorem marks_object {members : List (Str × Value)} {start q : Str} :
    Marks (.object members) start q
      ↔ ∃ member ∈ members, Marks member.2 (start ++ byte '/' :: member.1) q := by
  constructor
  · rintro ⟨path, hleaf, rfl⟩
    cases hleaf with
    | here h => cases h
    | @member _ key value path hmem hleaf =>
      exact ⟨(key, value), hmem, path, hleaf, by simp [pointer]⟩
  · rintro ⟨⟨key, value⟩, hmem, path, hleaf, rfl⟩
    exact ⟨key :: path, .member hmem hleaf, by simp [pointer]⟩

theorem get?_insert_of_leaf (hvalue : value.isObject = false)
    (start origin : Str) (origins : BTreeMap Str Str) (q : Str) :
    (Marks value start q → (origins.insert start origin).get? q = some origin)
      ∧ (¬ Marks value start q → (origins.insert start origin).get? q = origins.get? q) := by
  rw [marks_of_leaf hvalue, BTreeMap.get?_insert]
  exact ⟨fun h => if_pos h, fun h => if_neg h⟩

mutual

/-- A pointer has the new origin exactly where it is marked. -/
theorem get?_markOrigins (value : Value) (start origin : Str) (origins : BTreeMap Str Str)
    (q : Str) :
    (Marks value start q → (markOrigins value start origin origins).get? q = some origin)
      ∧ (¬ Marks value start q →
        (markOrigins value start origin origins).get? q = origins.get? q) := by
  match value with
  | .object members =>
    rw [marks_object, markOrigins]
    exact get?_markMembers members start origin origins q
  | .null => exact get?_insert_of_leaf rfl start origin origins q
  | .bool _ => exact get?_insert_of_leaf rfl start origin origins q
  | .number _ => exact get?_insert_of_leaf rfl start origin origins q
  | .string _ => exact get?_insert_of_leaf rfl start origin origins q
  | .array _ => exact get?_insert_of_leaf rfl start origin origins q

theorem get?_markMembers (members : List (Str × Value)) (start origin : Str)
    (origins : BTreeMap Str Str) (q : Str) :
    ((∃ member ∈ members, Marks member.2 (start ++ byte '/' :: member.1) q) →
        (markMembers members start origin origins).get? q = some origin)
      ∧ ((¬ ∃ member ∈ members, Marks member.2 (start ++ byte '/' :: member.1) q) →
        (markMembers members start origin origins).get? q = origins.get? q) := by
  match members with
  | [] => exact ⟨fun ⟨_, hmem, _⟩ => absurd hmem List.not_mem_nil, fun _ => rfl⟩
  | (key, value) :: members =>
    rw [markMembers]
    obtain ⟨hfirst, hnotFirst⟩ :=
      get?_markOrigins value (start ++ byte '/' :: key) origin origins q
    obtain ⟨hrest, hnotRest⟩ := get?_markMembers members start origin
      (markOrigins value (start ++ byte '/' :: key) origin origins) q
    by_cases h : ∃ member ∈ members, Marks member.2 (start ++ byte '/' :: member.1) q
    · refine ⟨fun _ => hrest h, fun hnot => absurd ?_ hnot⟩
      obtain ⟨member, hmem, hmarks⟩ := h
      exact ⟨member, List.mem_cons_of_mem _ hmem, hmarks⟩
    · -- the later members leave the pointer alone
      rw [hnotRest h]
      constructor
      · rintro ⟨member, hmem, hmarks⟩
        rcases List.mem_cons.mp hmem with rfl | hmem
        · exact hfirst hmarks
        · exact absurd ⟨member, hmem, hmarks⟩ h
      · intro hnot
        exact hnotFirst fun hmarks => hnot ⟨_, List.mem_cons_self, hmarks⟩

end

variable {path : List Str}

/-- In plain values a pointer is marked exactly where its path has a leaf. -/
theorem marks_pointer_iff (hwell : value.wellFormed = true)
    (hplain : value.plain = true) (hpath : ∀ key ∈ path, byte '/' ∉ key) :
    Marks value [] (pointer path) ↔ ∃ leaf, value.leafAt path = some leaf := by
  constructor
  · rintro ⟨path', hleaf, heq⟩
    have hsame : path = path' := pointer_injective hpath (hleaf.plain hplain) heq
    subst hsame
    exact exists_leafAt_of_hasLeaf hleaf hwell
  · rintro ⟨leaf, hleaf⟩
    exact ⟨path, hasLeaf_of_leafAt hleaf, rfl⟩

/-! ## Leaves of a policy -/

def nativePath : List Str := [ascii "native"]
def bindingsPath : List Str := [ascii "documentation", ascii "bindings"]
def allowPartialPath : List Str := [ascii "coverage", ascii "allowPartial"]

variable (self : Policy)

/-- The providers are at one leaf. -/
theorem leafAt_with_native (native : List NativeProvider) (h : path ≠ nativePath) :
    ({ self with native } : Policy).toValue.leafAt path = self.toValue.leafAt path := by
  cases path with
  | nil => rfl
  | cons key rest =>
    simp only [Policy.toValue, leafAt_object_cons]
    split_ifs with _ _ hkey
    · rfl
    · rfl
    · cases rest with
      | nil => exact absurd (congrArg (· :: []) hkey) h
      | cons _ _ => rfl
    all_goals rfl

theorem leafAt_sortBindings (h : path ≠ bindingsPath) :
    self.sortBindings.toValue.leafAt path = self.toValue.leafAt path := by
  cases path with
  | nil => rfl
  | cons key rest =>
    simp only [Policy.toValue, Policy.sortBindings, leafAt_object_cons]
    split_ifs with _ hkey
    · rfl
    · cases rest with
      | nil => rfl
      | cons key' rest =>
        simp only [DocumentationSettings.toValue, leafAt_object_cons]
        split_ifs with hkey'
        · cases rest with
          | nil => exact absurd (by rw [hkey, hkey']; rfl) h
          | cons _ _ => rfl
        · rfl
    all_goals rfl

theorem leafAt_allowPartial (h : path ≠ allowPartialPath) :
    self.allowPartial.toValue.leafAt path = self.toValue.leafAt path := by
  cases path with
  | nil => rfl
  | cons key rest =>
    simp only [Policy.toValue, Policy.allowPartial, leafAt_object_cons]
    split_ifs with hkey
    · cases rest with
      | nil => rfl
      | cons key' rest =>
        simp only [CoveragePolicy.toValue, leafAt_object_cons]
        split_ifs with _ hkey'
        · rfl
        · cases rest with
          | nil => exact absurd (by rw [hkey, hkey']; rfl) h
          | cons _ _ => rfl
        · rfl
    all_goals rfl

/-- The leaves of a policy are not filtered out. -/
theorem isEffective_of_leafAt {self : Policy} {leaf : Value}
    (h : self.toValue.leafAt path = some leaf) : isEffective (pointer path) = true := by
  cases path with
  | nil => cases h
  | cons key rest =>
    simp only [Policy.toValue, leafAt_object_cons] at h
    split_ifs at h with hcoverage hdocumentation hnative hproviders hschema hsense htargets hverify
    all_goals first | (subst key; rfl) | cases h

/-! ## The leaves of a resolved policy -/

theorem plain_toValue : self.toValue.plain = true := rfl

/-- The policy without a file. -/
def baseline (workflow : Option Workflow) : Policy :=
  if workflow = some .postEdit then ({} : Policy).allowPartial else {}

theorem resolve_baseline (workflow : Option Workflow) :
    (baseline workflow).resolve workflow = .ok (baseline workflow) := by
  rcases workflow with _ | _ | _ | _ <;> rfl

/-- The steps of `fromBytes`. -/
theorem exists_fromBytes {file : Option ConfigFile} {workflow : Option Workflow}
    {configured : Option Policy} {configuration policy : Policy} {origins : BTreeMap Str Str}
    (hparse : file.mapM parsePolicy = .ok configured)
    (hadjust : adjust (configured.getD {}) file workflow = .ok configuration)
    (hresolve : configuration.resolve workflow = .ok policy)
    (horigins : configurationOrigins policy file workflow = .ok origins) :
    ∃ snapshot, PolicySnapshot.fromBytes file workflow = .ok snapshot
      ∧ snapshot.workflow = workflow ∧ snapshot.policy = policy
      ∧ snapshot.origins = origins := by
  let state := if configured.isSome then PolicyState.configured else .default
  refine ⟨⟨policy, state, workflow, origins⟩, ?_, rfl, rfl, rfl⟩
  refine Except.bind_eq_ok_iff.mpr ⟨configured, hparse, ?_⟩
  refine Except.bind_eq_ok_iff.mpr ⟨configuration, hadjust, ?_⟩
  refine Except.bind_eq_ok_iff.mpr ⟨policy, hresolve, ?_⟩
  exact Except.bind_eq_ok_iff.mpr ⟨origins, horigins, rfl⟩

theorem exists_fromBytes_none (workflow : Option Workflow) :
    ∃ snapshot, PolicySnapshot.fromBytes none workflow = .ok snapshot
      ∧ snapshot.workflow = workflow ∧ snapshot.policy = baseline workflow
      ∧ snapshot.origins = (markOrigins snapshot.policy.toValue [] (ascii "default") ∅).filter
          fun path _ => isEffective path := by
  have hadjust : adjust {} none workflow = .ok (baseline workflow) := by
    rcases workflow with _ | _ | _ | _ <;> rfl
  have hparse : (none : Option ConfigFile).mapM parsePolicy = .ok none := rfl
  obtain ⟨snapshot, h, hworkflow, hpolicy, horigins⟩ :=
    exists_fromBytes hparse hadjust (resolve_baseline workflow) rfl
  exact ⟨snapshot, h, hworkflow, hpolicy, by rw [hpolicy]; exact horigins⟩

theorem ne_schema_of_leafAt {self : Policy} {key : Str} {leaf : Value}
    (h : self.toValue.leafAt (key :: path) = some leaf) : key ≠ ascii "$schema" := by
  rintro rfl
  cases h

/-- The name of the schema is no setting. -/
theorem over_withoutSchema {raw value out : Value} (h : withoutSchema raw = .ok value)
    (hover : Over ({} : Policy).toValue (some value) out) :
    Over ({} : Policy).toValue (some raw) out := by
  intro path
  rw [hover path]
  cases hdefault : ({} : Policy).toValue.leafAt path with
  | none => rfl
  | some leaf =>
    cases path with
    | nil => cases hdefault
    | cons key path =>
      have hget := get?_withoutSchema h (ne_schema_of_leafAt hdefault)
      rw [Option.map_some, Option.map_some, Option.bind_some, Option.bind_some, Value.leafAt,
        Value.leafAt, hget]

namespace Accepts

variable {raw : Value} {policy : Policy}

/-- The default of a leaf, unless the file has one. -/
theorem leafAt (h : Accepts raw policy) {path : List Str} (hpath : path ≠ bindingsPath) :
    policy.toValue.leafAt path
      = (({} : Policy).toValue.leafAt path).map fun leaf => (raw.leafAt path).getD leaf := by
  obtain ⟨value, unsorted, hvalue, hread, rfl⟩ := h.read
  rw [leafAt_sortBindings unsorted hpath]
  exact over_withoutSchema hvalue
    (Policy.over_ofValue? (wellFormed_withoutSchema hvalue h.wellFormed) hread) path

theorem leafAt_bindings (h : Accepts raw policy) :
    ∃ bindings,
      (raw.leafAt bindingsPath).getD (.array []) = documentationBinding.list.encode bindings
      ∧ policy.toValue.leafAt bindingsPath
        = some (documentationBinding.list.encode (bindings.insertionSort (· ≤ ·))) := by
  obtain ⟨value, unsorted, hvalue, hread, rfl⟩ := h.read
  refine ⟨unsorted.documentation.bindings, ?_, rfl⟩
  have hover := over_withoutSchema hvalue
    (Policy.over_ofValue? (wellFormed_withoutSchema hvalue h.wellFormed) hread) bindingsPath
  exact (Option.some.inj hover).symm

/-- The overrides of a workflow are those that the file has for it. -/
theorem settings (h : Accepts raw policy) (workflow : Workflow) :
    (workflowSettings raw (some workflow) = none ∧ policy.workflows.selected workflow = {})
      ∨ ∃ settings, workflowSettings raw (some workflow) = some settings
        ∧ WorkflowOverride.ofValue? settings = some (policy.workflows.selected workflow) := by
  obtain ⟨value, unsorted, hvalue, hread, rfl⟩ := h.read
  obtain ⟨members, rfl, hworkflows⟩ := Policy.workflows_of_ofValue? hread
  have hget : raw.get? (ascii "workflows") = members.lookup (ascii "workflows") :=
    (get?_withoutSchema hvalue (by decide)).symm
  show (raw.get? (ascii "workflows")).bind _ = none ∧ unsorted.workflows.selected workflow = {} ∨ _
  rw [workflowSettings, Option.bind_some, hget]
  rw [field] at hworkflows
  cases hlookup : members.lookup (ascii "workflows") with
  | none =>
    rw [hlookup] at hworkflows
    refine .inl ⟨rfl, ?_⟩
    rw [← Option.some.inj hworkflows]
    cases workflow <;> rfl
  | some workflows =>
    rw [hlookup] at hworkflows
    obtain ⟨members', rfl, hselected⟩ := Workflows.selected_of_ofValue? hworkflows workflow
    show members'.lookup workflow.asStr = none ∧ _ ∨ _
    rw [field] at hselected
    cases hsettings : members'.lookup workflow.asStr with
    | none =>
      rw [hsettings] at hselected
      exact .inl ⟨rfl, (Option.some.inj hselected).symm⟩
    | some settings =>
      rw [hsettings] at hselected
      exact .inr ⟨settings, hsettings, hselected⟩

theorem of_settings (h : Accepts raw policy) {workflow : Workflow} {settings : Value}
    (hsettings : workflowSettings raw (some workflow) = some settings) :
    settings.wellFormed = true ∧ settings.plain = true := by
  rw [workflowSettings, Option.bind_some] at hsettings
  obtain ⟨workflows, hworkflows, hget⟩ := Option.bind_eq_some_iff.mp hsettings
  exact ⟨Value.wellFormed_get? (Value.wellFormed_get? h.wellFormed hworkflows) hget,
    Value.plain_get? (Value.plain_get? h.plain hworkflows) hget⟩

/-- The leaves of the selected policy: those of the workflow's settings over the others. -/
theorem leafAt_selected (h : Accepts raw policy) {configuration : Policy}
    (hworkflows : configuration.workflows = policy.workflows) {workflow : Option Workflow}
    {path : List Str} (hpath : ¬ (workflow = some .postEdit ∧ path = nativePath)) :
    (configuration.selected workflow).toValue.leafAt path
      = (configuration.toValue.leafAt path).map fun leaf =>
          ((workflowSettings raw workflow).bind fun settings => settings.leafAt path).getD leaf := by
  cases workflow with
  | none => exact Over.refl _ path
  | some workflow =>
    have hforced : (configuration.selected (some workflow)).toValue.leafAt path
        = ((policy.workflows.selected workflow).apply configuration).toValue.leafAt path := by
      rw [← hworkflows, Policy.selected]
      split_ifs with hpost
      · exact leafAt_with_native _ [] fun heq => hpath ⟨by rw [hpost], heq⟩
      · rfl
    rw [hforced]
    obtain ⟨hnone, hinherit⟩ | ⟨settings, hsettings, hread⟩ := h.settings workflow
    · rw [hnone, hinherit]
      exact Over.refl _ path
    · rw [hsettings]
      obtain ⟨hwell, hplain⟩ := h.of_settings hsettings
      exact WorkflowOverride.over_apply hwell hplain hread configuration path

/-- After an edit the settings have no providers. -/
theorem leafAt_settings_native (h : Accepts raw policy)
    (hforbids : ForbidsNative policy (some .postEdit)) {settings leaf : Value}
    (hsettings : workflowSettings raw (some .postEdit) = some settings)
    (hleaf : settings.leafAt nativePath = some leaf) : leaf = .array [] := by
  obtain ⟨hnone, -⟩ | ⟨settings', hsettings', hread⟩ := h.settings .postEdit
  · rw [hnone] at hsettings
    cases hsettings
  · rw [hsettings'] at hsettings
    cases hsettings
    obtain ⟨hwell, hplain⟩ := h.of_settings hsettings'
    have hover := WorkflowOverride.over_apply hwell hplain hread {} nativePath
    rw [Option.bind_some, hleaf] at hover
    have hnative : policy.workflows.postEdit.native.getD [] = [] := by
      have hempty := hforbids rfl
      cases hoverride : policy.workflows.postEdit.native with
      | none => rfl
      | some native =>
        rw [hoverride] at hempty
        exact List.isEmpty_iff.mp hempty
    have hvalue : Value.array ((policy.workflows.postEdit.native.getD []).map nativeProvider.encode)
        = leaf := Option.some.inj hover
    rw [← hvalue, hnative]
    rfl

/-- Partial coverage is set in the file exactly where the file has that leaf. -/
theorem setsAllowPartial_iff (h : Accepts raw policy) :
    setsAllowPartial raw = true ↔ ∃ leaf, raw.leafAt allowPartialPath = some leaf := by
  rw [setsAllowPartial, Option.isSome_iff_exists]
  constructor
  · rintro ⟨leaf, hleaf⟩
    obtain ⟨coverage, hcoverage, hget⟩ := Option.bind_eq_some_iff.mp hleaf
    -- the shape asks for a truth value there
    obtain ⟨s, start, hs, hvalid⟩ := Shape.validateValue_get? h.shape (by decide +kernel) hcoverage
    obtain ⟨s', start', hs', hvalid'⟩ := Shape.validateValue_get? hvalid (by rintro rfl; cases hs) hget
    have hshape : (Shape.expected.get? (ascii "coverage")).bind
        (fun coverage => coverage.get? (ascii "allowPartial")) = some (.bool false) := by
      decide +kernel
    rw [hs, Option.bind_some, hs'] at hshape
    cases hshape
    refine ⟨leaf, ?_⟩
    cases leaf with
    | bool b =>
      show (raw.get? _).bind _ = _
      rw [hcoverage, Option.bind_some, Value.leafAt, hget]
      rfl
    | _ => cases hvalid'
  · rintro ⟨leaf, hleaf⟩
    obtain ⟨coverage, hcoverage, hrest⟩ := Option.bind_eq_some_iff.mp hleaf
    obtain ⟨value, hvalue, -⟩ := Option.bind_eq_some_iff.mp hrest
    exact ⟨value, by rw [hcoverage, Option.bind_some, hvalue]⟩

end Accepts

/-! ## Truthful origins -/

section Truth

variable {raw : Value} {policy : Policy} {workflow : Option Workflow} {path : List Str}
  {leaf v : Value}

/-- The policy that is resolved. -/
def adjusted (raw : Value) (policy : Policy) (workflow : Option Workflow) : Policy :=
  if workflow = some .postEdit ∧ setsAllowPartial raw = false then policy.allowPartial else policy

theorem workflows_adjusted : (adjusted raw policy workflow).workflows = policy.workflows := by
  rw [adjusted]
  split_ifs <;> rfl

theorem leafAt_adjusted (h : Accepts raw policy) (hleaf : raw.leafAt path = some leaf) :
    (adjusted raw policy workflow).toValue.leafAt path = policy.toValue.leafAt path := by
  rw [adjusted]
  split_ifs with hadjusted
  · apply leafAt_allowPartial
    rintro rfl
    rw [h.setsAllowPartial_iff.mpr ⟨leaf, hleaf⟩] at hadjusted
    cases hadjusted.2
  · rfl

/-- Where the file has no leaf, the default stands. -/
theorem leafAt_default (h : Accepts raw policy) (hleaf : raw.leafAt path = none) :
    policy.toValue.leafAt path = ({} : Policy).toValue.leafAt path := by
  by_cases hpath : path = bindingsPath
  · subst hpath
    obtain ⟨bindings, hbindings, hsorted⟩ := h.leafAt_bindings
    rw [hleaf] at hbindings
    have hempty : bindings = [] := by
      cases bindings with
      | nil => rfl
      | cons _ _ => cases hbindings
    rw [hsorted, hempty]
    rfl
  · rw [h.leafAt hpath, hleaf]
    cases ({} : Policy).toValue.leafAt path <;> rfl

theorem leafAt_adjusted_default (h : Accepts raw policy) (hleaf : raw.leafAt path = none) :
    (adjusted raw policy workflow).toValue.leafAt path
      = (baseline workflow).toValue.leafAt path := by
  rw [adjusted, baseline]
  by_cases hpost : workflow = some .postEdit
  · rw [if_pos hpost]
    by_cases hpath : path = allowPartialPath
    · subst hpath
      have hsets : setsAllowPartial raw = false := by
        refine Bool.eq_false_iff.mpr fun hsets => ?_
        obtain ⟨_, hsome⟩ := h.setsAllowPartial_iff.mp hsets
        rw [hleaf] at hsome
        cases hsome
      rw [if_pos ⟨hpost, hsets⟩]
      rfl
    · rw [leafAt_allowPartial _ hpath, ← leafAt_default h hleaf]
      split_ifs
      · exact leafAt_allowPartial _ hpath
      · rfl
  · rw [if_neg hpost, if_neg fun hboth => hpost hboth.1]
    exact leafAt_default h hleaf

/-- The value of a leaf is that of the file, where bindings are sorted; of providers that the
    file names after an edit nothing is said. -/
def AgreesWith (workflow : Option Workflow) (path : List Str) (leaf v : Value) : Prop :=
  if path = bindingsPath then
    ∃ bindings, leaf = documentationBinding.list.encode bindings
      ∧ v = documentationBinding.list.encode (bindings.insertionSort (· ≤ ·))
  else (workflow = some .postEdit → path = nativePath → leaf = .array []) → v = leaf

theorem eq_of_settings (h : Accepts raw policy) (hforbids : ForbidsNative policy workflow)
    {settings : Value} (hsettings : workflowSettings raw workflow = some settings)
    (hleaf : settings.leafAt path = some leaf)
    (hv : ((adjusted raw policy workflow).selected workflow).toValue.leafAt path = some v) :
    v = leaf := by
  by_cases hforced : workflow = some .postEdit ∧ path = nativePath
  · obtain ⟨rfl, rfl⟩ := hforced
    rw [h.leafAt_settings_native hforbids hsettings hleaf]
    exact (Option.some.inj hv).symm
  · rw [h.leafAt_selected workflows_adjusted hforced, hsettings, Option.bind_some, hleaf] at hv
    obtain ⟨_, -, hv⟩ := Option.map_eq_some_iff.mp hv
    exact hv.symm

theorem leafAt_of_no_settings (h : Accepts raw policy)
    (hforced : ¬ (workflow = some .postEdit ∧ path = nativePath))
    (hsettings : ((workflowSettings raw workflow).bind fun s => s.leafAt path) = none)
    (hv : ((adjusted raw policy workflow).selected workflow).toValue.leafAt path = some v) :
    (adjusted raw policy workflow).toValue.leafAt path = some v := by
  rw [h.leafAt_selected workflows_adjusted hforced, hsettings] at hv
  obtain ⟨_, hleaf, hv⟩ := Option.map_eq_some_iff.mp hv
  rw [hleaf, ← hv]
  rfl

theorem agreesWith_of_file (h : Accepts raw policy)
    (hsettings : ((workflowSettings raw workflow).bind fun s => s.leafAt path) = none)
    (hleaf : raw.leafAt path = some leaf)
    (hv : ((adjusted raw policy workflow).selected workflow).toValue.leafAt path = some v) :
    AgreesWith workflow path leaf v := by
  by_cases hforced : workflow = some .postEdit ∧ path = nativePath
  · obtain ⟨rfl, rfl⟩ := hforced
    rw [AgreesWith, if_neg (by decide)]
    intro hempty
    rw [hempty rfl rfl]
    exact (Option.some.inj hv).symm
  · have hpolicy := leafAt_of_no_settings h hforced hsettings hv
    rw [leafAt_adjusted h hleaf] at hpolicy
    rw [AgreesWith]
    split_ifs with hpath
    · subst hpath
      obtain ⟨bindings, hbindings, hsorted⟩ := h.leafAt_bindings
      rw [hleaf, Option.getD_some] at hbindings
      rw [hsorted] at hpolicy
      exact ⟨bindings, hbindings, (Option.some.inj hpolicy).symm⟩
    · intro _
      rw [h.leafAt hpath, hleaf] at hpolicy
      obtain ⟨_, -, hvalue⟩ := Option.map_eq_some_iff.mp hpolicy
      exact hvalue.symm

theorem leafAt_baseline (h : Accepts raw policy)
    (hsettings : ((workflowSettings raw workflow).bind fun s => s.leafAt path) = none)
    (hleaf : raw.leafAt path = none)
    (hv : ((adjusted raw policy workflow).selected workflow).toValue.leafAt path = some v) :
    (baseline workflow).toValue.leafAt path = some v := by
  by_cases hforced : workflow = some .postEdit ∧ path = nativePath
  · obtain ⟨rfl, rfl⟩ := hforced
    exact hv
  · rw [← leafAt_adjusted_default h hleaf]
    exact leafAt_of_no_settings h hforced hsettings hv

end Truth

/-- What the origin of a leaf says of its value: that it is the one without a file, agrees with
    that of the file, or is the one of the workflow's settings. -/
structure OriginHolds (agrees : Value → Value → Prop) (file : Option ConfigFile)
    (workflow : Option Workflow) (path : List Str) (v : Value) (origin : Str) : Prop where
  default : origin = ascii "default" →
    ∃ snapshot, PolicySnapshot.fromBytes none workflow = .ok snapshot
      ∧ snapshot.policy.toValue.leafAt path = some v
  repository : origin = ascii "repository" →
    ∃ f ∈ file, ∃ document leaf, f.json = .ok document ∧ document.value.leafAt path = some leaf
      ∧ agrees leaf v
  workflow : ∀ w, origin = workflowOrigin w → workflow = some w
    ∧ ∃ f ∈ file, ∃ document settings, f.json = .ok document
      ∧ workflowSettings document.value (some w) = some settings ∧ settings.leafAt path = some v

/-- Every leaf of the effective policy has an origin, which holds. -/
def TruthfulOrigins (agrees : List Str → Value → Value → Prop) (file : Option ConfigFile)
    (snapshot : PolicySnapshot) : Prop :=
  ∀ path v, snapshot.policy.toValue.leafAt path = some v →
    ∃ origin, snapshot.origins.get? (pointer path) = some origin
      ∧ OriginHolds (agrees path) file snapshot.workflow path v origin

/-! ## Origins of leaves -/

section Origins

variable {raw : Value} {origins : BTreeMap Str Str} {q : Str}

theorem get?_markFile_of_settings {workflow : Workflow} {settings : Value}
    (hsettings : workflowSettings raw (some workflow) = some settings)
    (hmarks : Marks settings [] q) :
    (markFile origins raw (some workflow)).get? q = some (workflowOrigin workflow) := by
  unfold markFile
  dsimp only
  rw [hsettings]
  exact (get?_markOrigins settings [] (workflowOrigin workflow) _ q).1 hmarks

theorem get?_markFile_of_no_settings {workflow : Option Workflow}
    (hnot : ∀ settings, workflowSettings raw workflow = some settings → ¬ Marks settings [] q) :
    (markFile origins raw workflow).get? q
      = (markOrigins raw [] (ascii "repository") origins).get? q := by
  cases workflow with
  | none => rfl
  | some workflow =>
    unfold markFile
    dsimp only
    cases hsettings : workflowSettings raw (some workflow) with
    | none => rfl
    | some settings =>
      exact (get?_markOrigins settings [] (workflowOrigin workflow) _ q).2 (hnot settings hsettings)

end Origins

theorem workflowOrigin_injective {w w' : Workflow} (h : workflowOrigin w = workflowOrigin w') :
    w = w' := by
  cases w <;> cases w' <;> first | rfl | (revert h; decide)

variable {policy : Policy}

theorem get?_origins {v : Value}
    (hv : policy.toValue.leafAt path = some v) (origins : BTreeMap Str Str) :
    (origins.filter fun path _ => isEffective path).get? (pointer path)
      = origins.get? (pointer path) := by
  rw [BTreeMap.get?_filter, isEffective_of_leafAt hv]
  cases origins.get? (pointer path) <;> rfl

/-- The first marks are those of the policy itself. -/
theorem get?_default {v : Value} (hv : policy.toValue.leafAt path = some v) :
    (markOrigins policy.toValue [] (ascii "default") ∅).get? (pointer path)
      = some (ascii "default") :=
  (get?_markOrigins policy.toValue [] (ascii "default") ∅ (pointer path)).1
    ⟨path, hasLeaf_of_leafAt hv, rfl⟩

theorem exists_snapshot {file : ConfigFile} {document : Document}
    (hparse : parsePolicy file = .ok policy) (hdocument : file.json = .ok document)
    (workflow : Option Workflow) :
    ∃ snapshot, PolicySnapshot.fromBytes (some file) workflow = .ok snapshot
      ∧ snapshot.workflow = workflow ∧ ForbidsNative policy workflow
      ∧ snapshot.policy.toValue
        = ((adjusted document.value policy workflow).selected workflow).toValue
      ∧ snapshot.origins = (markFile (markOrigins snapshot.policy.toValue [] (ascii "default") ∅)
          document.value workflow).filter fun path _ => isEffective path := by
  obtain ⟨document', hdocument', haccepts⟩ := accepts_of_parsePolicy hparse
  obtain ⟨resolved, hresolved⟩ := exists_resolve haccepts.valid workflow
  -- After an edit, a file that is silent on gaps lets them pass.
  have hadjust : adjust ((some policy).getD {}) (some file) workflow
      = .ok (adjusted document.value policy workflow) := by
    rw [adjust, adjusted, Option.mapM_some, hdocument]
    by_cases hpost : workflow = some .postEdit
    · rw [if_pos hpost]
      cases hsets : setsAllowPartial document.value with
      | false =>
        rw [if_pos ⟨hpost, rfl⟩]
        show (if setsAllowPartial document.value = true then _ else _) = _
        rw [hsets]
        rfl
      | true =>
        rw [if_neg fun hboth => by cases hboth.2]
        show (if setsAllowPartial document.value = true then _ else _) = _
        rw [hsets]
        rfl
    · rw [if_neg hpost, if_neg fun hboth => hpost hboth.1]
      rfl
  have hconfiguration : ∃ r, (adjusted document.value policy workflow).resolve workflow = .ok r := by
    rw [adjusted]
    split_ifs
    · exact resolve_allowPartial hresolved
    · exact ⟨resolved, hresolved⟩
  obtain ⟨effective, heffective⟩ := hconfiguration
  obtain ⟨_, hselected, -⟩ := Policy.resolve_eq_ok.mp heffective
  have horigins : configurationOrigins effective (some file) workflow
      = .ok ((markFile (markOrigins effective.toValue [] (ascii "default") ∅)
          document.value workflow).filter fun path _ => isEffective path) := by
    unfold configurationOrigins
    exact Except.bind_eq_ok_iff.mpr ⟨document, hdocument, rfl⟩
  have hparsed : (some file).mapM parsePolicy = .ok (some policy) := by
    rw [Option.mapM_some, hparse]
    rfl
  obtain ⟨snapshot, hfrom, hworkflow, hpolicy, horigins⟩ :=
    exists_fromBytes hparsed hadjust heffective horigins
  refine ⟨snapshot, hfrom, hworkflow, (Policy.resolve_eq_ok.mp hresolved).1, ?_, ?_⟩
  · rw [hpolicy, hselected]
    rfl
  · rw [horigins, hpolicy]

/-- The origins of the effective settings are true for every accepted file and without one:
    the bindings of the documentation are those of the file in their order. -/
theorem PolicySnapshot.origins_truthful (file : Option ConfigFile) (workflow : Option Workflow)
    (haccepted : ∀ f ∈ file, ∃ policy, parsePolicy f = .ok policy) :
    ∃ snapshot, PolicySnapshot.fromBytes file workflow = .ok snapshot
      ∧ snapshot.workflow = workflow
      ∧ TruthfulOrigins (AgreesWith workflow) file snapshot := by
  cases file with
  | none =>
    obtain ⟨snapshot, hfrom, hworkflow, hpolicy, horigins⟩ := exists_fromBytes_none workflow
    refine ⟨snapshot, hfrom, hworkflow, fun path v hv => ⟨ascii "default", ?_, ?_⟩⟩
    · rw [horigins, get?_origins hv]
      exact get?_default hv
    · refine ⟨fun _ => ⟨snapshot, hworkflow ▸ hfrom, hv⟩, ?_, ?_⟩
      · intro heq
        cases heq
      · intro w heq
        cases w <;> cases heq
  | some file =>
    obtain ⟨policy, hparse⟩ := haccepted file rfl
    obtain ⟨document, hdocument, h⟩ := accepts_of_parsePolicy hparse
    obtain ⟨snapshot, hfrom, hworkflow, hforbids, heffective, horigins⟩ :=
      exists_snapshot hparse hdocument workflow
    refine ⟨snapshot, hfrom, hworkflow, fun path v hv => ?_⟩
    have hslash : ∀ key ∈ path, byte '/' ∉ key :=
      (hasLeaf_of_leafAt hv).plain (plain_toValue snapshot.policy)
    rw [horigins, get?_origins hv, hworkflow]
    have hvalue := hv
    rw [heffective] at hvalue
    cases hsettings : (workflowSettings document.value workflow).bind fun s => s.leafAt path with
    | some leaf =>
      -- the workflow's settings have the leaf
      obtain ⟨settings, hsome, hleaf⟩ := Option.bind_eq_some_iff.mp hsettings
      cases workflow with
      | none => cases hsome
      | some workflow =>
        have hmarks : Marks settings [] (pointer path) := ⟨path, hasLeaf_of_leafAt hleaf, rfl⟩
        have heq : v = leaf := eq_of_settings h hforbids hsome hleaf hvalue
        refine ⟨_, get?_markFile_of_settings hsome hmarks, ?_, ?_, ?_⟩
        · intro heq
          cases workflow <;> cases heq
        · intro heq
          cases workflow <;> cases heq
        · intro w hw
          obtain rfl := workflowOrigin_injective hw
          exact ⟨rfl, file, rfl, document, settings, hdocument, hsome, heq ▸ hleaf⟩
    | none =>
      have hnot : ∀ settings, workflowSettings document.value workflow = some settings →
          ¬ Marks settings [] (pointer path) := by
        intro settings hsome hmarks
        obtain ⟨w, rfl⟩ : ∃ w, workflow = some w := by
          cases workflow with
          | none => cases hsome
          | some w => exact ⟨w, rfl⟩
        obtain ⟨hwell, hplain⟩ := h.of_settings hsome
        obtain ⟨leaf, hleaf⟩ := (marks_pointer_iff hwell hplain hslash).mp hmarks
        rw [hsome, Option.bind_some, hleaf] at hsettings
        cases hsettings
      rw [get?_markFile_of_no_settings hnot]
      cases hleaf : document.value.leafAt path with
      | some leaf =>
        -- the file has it
        have hmarks : Marks document.value [] (pointer path) :=
          ⟨path, hasLeaf_of_leafAt hleaf, rfl⟩
        refine ⟨_, (get?_markOrigins _ [] _ _ _).1 hmarks, ?_, ?_, ?_⟩
        · intro heq
          cases heq
        · intro _
          exact ⟨file, rfl, document, leaf, hdocument, hleaf,
            agreesWith_of_file h hsettings hleaf hvalue⟩
        · intro w heq
          cases w <;> cases heq
      | none =>
        have hunmarked : ¬ Marks document.value [] (pointer path) := by
          intro hmarks
          obtain ⟨leaf, hsome⟩ := (marks_pointer_iff h.wellFormed h.plain hslash).mp hmarks
          rw [hleaf] at hsome
          cases hsome
        refine ⟨ascii "default", ?_, ?_, ?_, ?_⟩
        · rw [(get?_markOrigins _ [] _ _ _).2 hunmarked]
          exact get?_default hv
        · intro _
          obtain ⟨bare, hbare, -, hpolicy, -⟩ := exists_fromBytes_none workflow
          exact ⟨bare, hbare, hpolicy ▸ leafAt_baseline h hsettings hleaf hvalue⟩
        · intro heq
          cases heq
        · intro w heq
          cases w <;> cases heq

/-! ## Where the value of the file differs -/

section Files

def bindingValue (source document : Str) : Value :=
  .object [(ascii "document", .string document), (ascii "source", .string source)]

/-- Two bindings, the one of the lesser source last. -/
def unsortedFile : ConfigFile where
  size := 200
  json := .ok ⟨.object [(ascii "documentation", .object [(ascii "bindings", .array
      [bindingValue (ascii "src/b.rs") (ascii "docs/b.md"),
        bindingValue (ascii "src/a.rs") (ascii "docs/a.md")])]),
    (ascii "schemaVersion", .number (.int 1))], by decide +kernel⟩

/-- A native provider for every workflow. -/
def nativeFile : ConfigFile where
  size := 50
  json := .ok ⟨.object [(ascii "native", .array [.string (ascii "rust-native")]),
    (ascii "schemaVersion", .number (.int 1))], by decide +kernel⟩

/-- The origin and the value of a leaf, in the snapshot of a file. -/
def reportedLeaf (file : ConfigFile) (workflow : Option Workflow) (path : List Str) :
    Option (Option Str × Option Value) :=
  (PolicySnapshot.fromBytes (some file) workflow).toOption.map fun snapshot =>
    (snapshot.origins.get? (pointer path), snapshot.policy.toValue.leafAt path)

theorem not_truthful_of_reportedLeaf {file : ConfigFile} {workflow : Option Workflow}
    {path : List Str} {leaf v : Value} {document : Document} (hdocument : file.json = .ok document)
    (hleaf : document.value.leafAt path = some leaf) (hne : v ≠ leaf)
    (h : reportedLeaf file workflow path = some (some (ascii "repository"), some v)) :
    ∃ snapshot, PolicySnapshot.fromBytes (some file) workflow = .ok snapshot
      ∧ ¬ TruthfulOrigins (fun _ leaf v => v = leaf) (some file) snapshot := by
  obtain ⟨snapshot, hsnapshot, hreported⟩ := Option.map_eq_some_iff.mp h
  obtain ⟨horigin, hv⟩ := Prod.mk.inj hreported
  refine ⟨snapshot, Except.toOption_eq_some_iff.mp hsnapshot, fun htruthful => ?_⟩
  obtain ⟨origin, hget, holds⟩ := htruthful path v hv
  rw [horigin] at hget
  obtain ⟨_, ⟨⟩, document', leaf', hdocument', hleaf', hsame⟩ :=
    holds.repository (Option.some.inj hget).symm
  rw [hdocument] at hdocument'
  cases hdocument'
  rw [hleaf] at hleaf'
  exact hne (hsame.trans (Option.some.inj hleaf').symm)

end Files

theorem PolicySnapshot.origins_not_verbatim :
    (∃ snapshot, PolicySnapshot.fromBytes (some unsortedFile) none = .ok snapshot
      ∧ ¬ TruthfulOrigins (fun _ leaf v => v = leaf) (some unsortedFile) snapshot)
    ∧ ∃ snapshot, PolicySnapshot.fromBytes (some nativeFile) (some .postEdit) = .ok snapshot
      ∧ ¬ TruthfulOrigins (fun _ leaf v => v = leaf) (some nativeFile) snapshot := by
  refine ⟨@not_truthful_of_reportedLeaf _ _ bindingsPath
      (.array [bindingValue (ascii "src/b.rs") (ascii "docs/b.md"),
        bindingValue (ascii "src/a.rs") (ascii "docs/a.md")])
      (.array [bindingValue (ascii "src/a.rs") (ascii "docs/a.md"),
        bindingValue (ascii "src/b.rs") (ascii "docs/b.md")]) _ rfl (by decide +kernel)
      (by decide +kernel) (by decide +kernel), ?_⟩
  exact @not_truthful_of_reportedLeaf _ _ nativePath (.array [.string (ascii "rust-native")])
    (.array []) _ rfl (by decide +kernel) (by decide +kernel) (by decide +kernel)

theorem PolicySnapshot.origins_truthful_unsorted :
    ∃ snapshot, PolicySnapshot.fromBytes (some unsortedFile) (some .postEdit) = .ok snapshot
      ∧ snapshot.workflow = some .postEdit
      ∧ TruthfulOrigins (AgreesWith (some .postEdit)) (some unsortedFile) snapshot := by
  refine PolicySnapshot.origins_truthful (some unsortedFile) (some .postEdit) ?_
  rintro _ ⟨⟩
  have hparse : (parsePolicy unsortedFile).toOption.isSome = true := by decide +kernel
  obtain ⟨policy, hpolicy⟩ := Option.isSome_iff_exists.mp hparse
  exact ⟨policy, Except.toOption_eq_some_iff.mp hpolicy⟩

end Opcore
