/-
  Opcore.Policy.Settings

  The settings of a repository and the overrides of its workflows: how they are read from
  a JSON value, written as one, and applied.
-/
import Opcore.Library.JsonDecode
import Opcore.Policy.ProjectRoots
import Opcore.Protocol.Wire
import Opcore.Sense.Engine
import Opcore.Sense.Obligations

namespace Opcore

open Text Collections Json Documentation Asp

/-! ## Workflows and providers -/

inductive Workflow where
  | postEdit
  | preCommit
  | ci
  deriving DecidableEq

def Workflow.asStr : Workflow → Str
  | .postEdit => ascii "post-edit"
  | .preCommit => ascii "pre-commit"
  | .ci => ascii "ci"

inductive NativeProvider where
  | rustNative
  | nodeNative
  | pythonNative
  deriving DecidableEq

def NativeProvider.asStr : NativeProvider → Str
  | .rustNative => ascii "rust-native"
  | .nodeNative => ascii "node-native"
  | .pythonNative => ascii "python-native"

def NativeProvider.ofValue? (v : Value) : Option NativeProvider :=
  v.asStr?.bind fun name =>
    [NativeProvider.rustNative, .nodeNative, .pythonNative].find? fun provider =>
      provider.asStr = name

/-! ## Leaves -/

def u32 : LeafCodec Nat := natural (2 ^ 32)

def usize : LeafCodec Nat := natural (2 ^ 64)

def nativeProvider : ItemCodec NativeProvider where
  encode provider := .string provider.asStr
  decode := NativeProvider.ofValue?
  exact := by
    intro v provider hwell h
    obtain ⟨name, hname, hfind⟩ := Option.bind_eq_some_iff.mp h
    have hprovider : provider.asStr = name := by simpa using List.find?_some hfind
    rw [hprovider]
    exact text.exact hwell hname

variable {v : Value}

theorem bytes_of_pathOfValue? {path : RepoPath} (h : pathOfValue? v = some path) :
    v = .string path.bytes := by
  match v, h with
  | .string text, h =>
    have hpath : RepoPath.fromProtocol text = .ok path := Except.toOption_eq_some_iff.mp h
    rw [fromProtocol_eq_ok hpath]

def repoPath : ItemCodec RepoPath where
  encode path := .string (pathText path)
  decode := pathOfValue?
  exact := by
    intro v path hwell h
    have hv := bytes_of_pathOfValue? h
    subst hv
    rw [Value.wellFormed] at hwell
    rw [pathText, RepoPath.asUtf8, if_pos hwell]
    rfl

def bindingOfValue? (v : Value) : Option DocumentationBinding := do
  let members ← knownMembers [ascii "source", ascii "document"] v
  let source ← required members (ascii "source") pathOfValue?
  let document ← required members (ascii "document") pathOfValue?
  pure ⟨source, document⟩

/-- The members of a binding, which stand in the order of their keys. -/
theorem members_eq {members : List (Str × Value)} {source document : Value}
    (hwell : (Value.object members).wellFormed = true)
    (hknown : ∀ member ∈ members, member.1 ∈ [ascii "source", ascii "document"])
    (hsource : members.lookup (ascii "source") = some source)
    (hdocument : members.lookup (ascii "document") = some document) :
    members = [(ascii "document", document), (ascii "source", source)] := by
  rw [Value.wellFormed, Bool.and_eq_true, decide_eq_true_eq] at hwell
  have hsorted := hwell.1
  have hkey : ∀ member ∈ members, member.1 = ascii "document" ∨ member.1 = ascii "source" := by
    intro member hmember
    simpa [or_comm] using hknown member hmember
  have hlt : ascii "document" < ascii "source" := by decide
  have hne : (ascii "source" == ascii "document") = false := by decide
  have hne' : (ascii "document" == ascii "source") = false := by decide
  match members with
  | [] => cases hsource
  | [(key, v)] =>
    rcases hkey _ (List.mem_singleton_self _) with rfl | rfl
    · rw [List.lookup_cons, hne] at hsource
      cases hsource
    · rw [List.lookup_cons, hne'] at hdocument
      cases hdocument
  | (key, v) :: (key', v') :: members =>
    have hfirst := hkey (key, v) (List.mem_cons_self ..)
    have hsecond := hkey (key', v') (List.mem_cons_of_mem _ (List.mem_cons_self ..))
    rw [List.map_cons, List.map_cons, List.pairwise_cons, List.pairwise_cons] at hsorted
    have hless : key < key' := hsorted.1 key' (List.mem_cons_self ..)
    -- of two keys in order the first is the lesser and the second the greater
    obtain ⟨rfl, rfl⟩ : key = ascii "document" ∧ key' = ascii "source" := by
      rcases hfirst with rfl | rfl <;> rcases hsecond with rfl | rfl
      · exact absurd hless (lt_irrefl _)
      · exact ⟨rfl, rfl⟩
      · exact absurd hless (not_lt_of_gt hlt)
      · exact absurd hless (lt_irrefl _)
    cases members with
    | nil =>
      rw [List.lookup_cons_self] at hdocument
      rw [List.lookup_cons, hne, List.lookup_cons_self] at hsource
      rw [Option.some.inj hdocument, Option.some.inj hsource]
    | cons third members =>
      have hlast : ascii "source" < third.1 := hsorted.2.1 third.1 (List.mem_cons_self ..)
      rcases hkey third (List.mem_cons_of_mem _ (List.mem_cons_of_mem _ (List.mem_cons_self ..)))
        with hthird | hthird
      · exact absurd (hthird ▸ hlast) (not_lt_of_gt hlt)
      · exact absurd (hthird ▸ hlast) (lt_irrefl _)

def documentationBinding : ItemCodec DocumentationBinding where
  encode binding := .object [(ascii "document", repoPath.encode binding.document),
    (ascii "source", repoPath.encode binding.source)]
  decode := bindingOfValue?
  exact := by
    intro v binding hwell h
    simp only [bindingOfValue?, bind_eq_some, knownMembers_eq_some] at h
    obtain ⟨members, ⟨rfl, hknown⟩, source, hsource, document, hdocument, ⟨⟩⟩ := h
    obtain ⟨s, hs, hsource⟩ := bind_eq_some.mp hsource
    obtain ⟨d, hd, hdocument⟩ := bind_eq_some.mp hdocument
    have hs' := repoPath.exact (Value.wellFormed_get? hwell hs) hsource
    have hd' := repoPath.exact (Value.wellFormed_get? hwell hd) hdocument
    rw [members_eq hwell hknown hs hd, hs', hd']

/-! ## Sections -/

def paths : LeafCodec (List RepoPath) := repoPath.list

def texts : LeafCodec (List Str) := text.list

def RuleLimits.fields : List Str :=
    [ascii "maxFileLines", ascii "maxLineBytes", ascii "maxFunctionLines", ascii "maxParameters",
      ascii "maxNesting", ascii "maxCyclomaticComplexity"]

def RuleLimits.toValue (self : RuleLimits) : Value :=
  .object [(ascii "maxCyclomaticComplexity", u32.encode self.maxCyclomaticComplexity),
    (ascii "maxFileLines", u32.encode self.maxFileLines),
    (ascii "maxFunctionLines", u32.encode self.maxFunctionLines),
    (ascii "maxLineBytes", u32.encode self.maxLineBytes),
    (ascii "maxNesting", u32.encode self.maxNesting),
    (ascii "maxParameters", u32.encode self.maxParameters)]

def RuleLimits.ofValue? (v : Value) : Option RuleLimits := do
  let members ← knownMembers RuleLimits.fields v
  let maxFileLines ← field members (ascii "maxFileLines") u32.decode ({} : RuleLimits).maxFileLines
  let maxLineBytes ← field members (ascii "maxLineBytes") u32.decode ({} : RuleLimits).maxLineBytes
  let maxFunctionLines ←
    field members (ascii "maxFunctionLines") u32.decode ({} : RuleLimits).maxFunctionLines
  let maxParameters ←
    field members (ascii "maxParameters") u32.decode ({} : RuleLimits).maxParameters
  let maxNesting ← field members (ascii "maxNesting") u32.decode ({} : RuleLimits).maxNesting
  let maxCyclomaticComplexity ←
    field members (ascii "maxCyclomaticComplexity") u32.decode
      ({} : RuleLimits).maxCyclomaticComplexity
  pure { maxFileLines, maxLineBytes, maxFunctionLines,
         maxParameters, maxNesting, maxCyclomaticComplexity }

theorem RuleLimits.over_ofValue? {self : RuleLimits} (hwell : v.wellFormed = true)
    (h : RuleLimits.ofValue? v = some self) :
    Over ({} : RuleLimits).toValue (some v) self.toValue := by
  simp only [RuleLimits.ofValue?, bind_eq_some, knownMembers_eq_some] at h
  obtain ⟨_, ⟨rfl, -⟩, _, hmaxFileLines, _, hmaxLineBytes, _, hmaxFunctionLines, _, hmaxParameters, _,
    hmaxNesting, _, hmaxCyclomaticComplexity, ⟨⟩⟩ := h
  apply OverMembers.over
  apply OverMembers.cons (u32.over_field hwell hmaxCyclomaticComplexity)
  apply OverMembers.cons (u32.over_field hwell hmaxFileLines)
  apply OverMembers.cons (u32.over_field hwell hmaxFunctionLines)
  apply OverMembers.cons (u32.over_field hwell hmaxLineBytes)
  apply OverMembers.cons (u32.over_field hwell hmaxNesting)
  apply OverMembers.cons (u32.over_field hwell hmaxParameters)
  exact OverMembers.nil

structure VerifyOverride where
  maxFileLines : Option Nat := none
  maxLineBytes : Option Nat := none
  maxFunctionLines : Option Nat := none
  maxParameters : Option Nat := none
  maxNesting : Option Nat := none
  maxCyclomaticComplexity : Option Nat := none
  deriving DecidableEq

def VerifyOverride.ofValue? (v : Value) : Option VerifyOverride := do
  let members ← knownMembers RuleLimits.fields v
  let maxFileLines ← field members (ascii "maxFileLines") (nullable u32.decode) none
  let maxLineBytes ← field members (ascii "maxLineBytes") (nullable u32.decode) none
  let maxFunctionLines ← field members (ascii "maxFunctionLines") (nullable u32.decode) none
  let maxParameters ← field members (ascii "maxParameters") (nullable u32.decode) none
  let maxNesting ← field members (ascii "maxNesting") (nullable u32.decode) none
  let maxCyclomaticComplexity ←
    field members (ascii "maxCyclomaticComplexity") (nullable u32.decode) none
  pure { maxFileLines, maxLineBytes, maxFunctionLines,
         maxParameters, maxNesting, maxCyclomaticComplexity }

def VerifyOverride.apply (self : VerifyOverride) (target : RuleLimits) : RuleLimits where
  maxFileLines := self.maxFileLines.getD target.maxFileLines
  maxLineBytes := self.maxLineBytes.getD target.maxLineBytes
  maxFunctionLines := self.maxFunctionLines.getD target.maxFunctionLines
  maxParameters := self.maxParameters.getD target.maxParameters
  maxNesting := self.maxNesting.getD target.maxNesting
  maxCyclomaticComplexity := self.maxCyclomaticComplexity.getD target.maxCyclomaticComplexity

theorem VerifyOverride.over_apply {self : VerifyOverride} (hwell : v.wellFormed = true)
    (hplain : v.plain = true) (h : VerifyOverride.ofValue? v = some self) (target : RuleLimits) :
    Over target.toValue (some v) (self.apply target).toValue := by
  simp only [VerifyOverride.ofValue?, bind_eq_some, knownMembers_eq_some] at h
  obtain ⟨_, ⟨rfl, -⟩, _, hmaxFileLines, _, hmaxLineBytes, _, hmaxFunctionLines, _, hmaxParameters, _,
    hmaxNesting, _, hmaxCyclomaticComplexity, ⟨⟩⟩ := h
  apply OverMembers.over
  apply OverMembers.cons (u32.over_override _ hwell hplain hmaxCyclomaticComplexity)
  apply OverMembers.cons (u32.over_override _ hwell hplain hmaxFileLines)
  apply OverMembers.cons (u32.over_override _ hwell hplain hmaxFunctionLines)
  apply OverMembers.cons (u32.over_override _ hwell hplain hmaxLineBytes)
  apply OverMembers.cons (u32.over_override _ hwell hplain hmaxNesting)
  apply OverMembers.cons (u32.over_override _ hwell hplain hmaxParameters)
  exact OverMembers.nil

structure SensePolicy where
  importantFanIn : Nat := ({} : Sense.SenseOptions).highImpactThreshold
  minimumIdenticalBytes : Nat := ({} : Sense.SenseOptions).minimumIdenticalBytes
  maxDependencyTargets : Nat := ({} : Sense.SenseOptions).maxDependencyTargets
  maxEdgeSelectors : Nat := ({} : Sense.SenseOptions).maxEdgeSelectors
  maxModuleExports : Nat := ({} : Sense.SenseOptions).maxModuleExports
  maxShapeMembers : Nat := ({} : Sense.SenseOptions).maxShapeMembers
  deriving DecidableEq

def SensePolicy.fields : List Str :=
    [ascii "importantFanIn", ascii "minimumIdenticalBytes", ascii "maxDependencyTargets",
      ascii "maxEdgeSelectors", ascii "maxModuleExports", ascii "maxShapeMembers"]

def SensePolicy.toValue (self : SensePolicy) : Value :=
  .object [(ascii "importantFanIn", usize.encode self.importantFanIn),
    (ascii "maxDependencyTargets", usize.encode self.maxDependencyTargets),
    (ascii "maxEdgeSelectors", usize.encode self.maxEdgeSelectors),
    (ascii "maxModuleExports", usize.encode self.maxModuleExports),
    (ascii "maxShapeMembers", usize.encode self.maxShapeMembers),
    (ascii "minimumIdenticalBytes", usize.encode self.minimumIdenticalBytes)]

def SensePolicy.ofValue? (v : Value) : Option SensePolicy := do
  let members ← knownMembers SensePolicy.fields v
  let importantFanIn ←
    field members (ascii "importantFanIn") usize.decode ({} : SensePolicy).importantFanIn
  let minimumIdenticalBytes ←
    field members (ascii "minimumIdenticalBytes") usize.decode
      ({} : SensePolicy).minimumIdenticalBytes
  let maxDependencyTargets ←
    field members (ascii "maxDependencyTargets") usize.decode
      ({} : SensePolicy).maxDependencyTargets
  let maxEdgeSelectors ←
    field members (ascii "maxEdgeSelectors") usize.decode ({} : SensePolicy).maxEdgeSelectors
  let maxModuleExports ←
    field members (ascii "maxModuleExports") usize.decode ({} : SensePolicy).maxModuleExports
  let maxShapeMembers ←
    field members (ascii "maxShapeMembers") usize.decode ({} : SensePolicy).maxShapeMembers
  pure { importantFanIn, minimumIdenticalBytes, maxDependencyTargets,
         maxEdgeSelectors, maxModuleExports, maxShapeMembers }

theorem SensePolicy.over_ofValue? {self : SensePolicy} (hwell : v.wellFormed = true)
    (h : SensePolicy.ofValue? v = some self) :
    Over ({} : SensePolicy).toValue (some v) self.toValue := by
  simp only [SensePolicy.ofValue?, bind_eq_some, knownMembers_eq_some] at h
  obtain ⟨_, ⟨rfl, -⟩, _, himportantFanIn, _, hminimumIdenticalBytes, _, hmaxDependencyTargets, _,
    hmaxEdgeSelectors, _, hmaxModuleExports, _, hmaxShapeMembers, ⟨⟩⟩ := h
  apply OverMembers.over
  apply OverMembers.cons (usize.over_field hwell himportantFanIn)
  apply OverMembers.cons (usize.over_field hwell hmaxDependencyTargets)
  apply OverMembers.cons (usize.over_field hwell hmaxEdgeSelectors)
  apply OverMembers.cons (usize.over_field hwell hmaxModuleExports)
  apply OverMembers.cons (usize.over_field hwell hmaxShapeMembers)
  apply OverMembers.cons (usize.over_field hwell hminimumIdenticalBytes)
  exact OverMembers.nil

structure SenseOverride where
  importantFanIn : Option Nat := none
  minimumIdenticalBytes : Option Nat := none
  maxDependencyTargets : Option Nat := none
  maxEdgeSelectors : Option Nat := none
  maxModuleExports : Option Nat := none
  maxShapeMembers : Option Nat := none
  deriving DecidableEq

def SenseOverride.ofValue? (v : Value) : Option SenseOverride := do
  let members ← knownMembers SensePolicy.fields v
  let importantFanIn ← field members (ascii "importantFanIn") (nullable usize.decode) none
  let minimumIdenticalBytes ←
    field members (ascii "minimumIdenticalBytes") (nullable usize.decode) none
  let maxDependencyTargets ←
    field members (ascii "maxDependencyTargets") (nullable usize.decode) none
  let maxEdgeSelectors ← field members (ascii "maxEdgeSelectors") (nullable usize.decode) none
  let maxModuleExports ← field members (ascii "maxModuleExports") (nullable usize.decode) none
  let maxShapeMembers ← field members (ascii "maxShapeMembers") (nullable usize.decode) none
  pure { importantFanIn, minimumIdenticalBytes, maxDependencyTargets,
         maxEdgeSelectors, maxModuleExports, maxShapeMembers }

def SenseOverride.apply (self : SenseOverride) (target : SensePolicy) : SensePolicy where
  importantFanIn := self.importantFanIn.getD target.importantFanIn
  minimumIdenticalBytes := self.minimumIdenticalBytes.getD target.minimumIdenticalBytes
  maxDependencyTargets := self.maxDependencyTargets.getD target.maxDependencyTargets
  maxEdgeSelectors := self.maxEdgeSelectors.getD target.maxEdgeSelectors
  maxModuleExports := self.maxModuleExports.getD target.maxModuleExports
  maxShapeMembers := self.maxShapeMembers.getD target.maxShapeMembers

theorem SenseOverride.over_apply {self : SenseOverride} (hwell : v.wellFormed = true)
    (hplain : v.plain = true) (h : SenseOverride.ofValue? v = some self) (target : SensePolicy) :
    Over target.toValue (some v) (self.apply target).toValue := by
  simp only [SenseOverride.ofValue?, bind_eq_some, knownMembers_eq_some] at h
  obtain ⟨_, ⟨rfl, -⟩, _, himportantFanIn, _, hminimumIdenticalBytes, _, hmaxDependencyTargets, _,
    hmaxEdgeSelectors, _, hmaxModuleExports, _, hmaxShapeMembers, ⟨⟩⟩ := h
  apply OverMembers.over
  apply OverMembers.cons (usize.over_override _ hwell hplain himportantFanIn)
  apply OverMembers.cons (usize.over_override _ hwell hplain hmaxDependencyTargets)
  apply OverMembers.cons (usize.over_override _ hwell hplain hmaxEdgeSelectors)
  apply OverMembers.cons (usize.over_override _ hwell hplain hmaxModuleExports)
  apply OverMembers.cons (usize.over_override _ hwell hplain hmaxShapeMembers)
  apply OverMembers.cons (usize.over_override _ hwell hplain hminimumIdenticalBytes)
  exact OverMembers.nil

structure CoveragePolicy where
  allowPartial : Bool := false
  allowNodeBuiltins : Bool := false
  deriving DecidableEq

def CoveragePolicy.fields : List Str :=
    [ascii "allowPartial", ascii "allowNodeBuiltins"]

def CoveragePolicy.toValue (self : CoveragePolicy) : Value :=
  .object [(ascii "allowNodeBuiltins", boolean.encode self.allowNodeBuiltins),
    (ascii "allowPartial", boolean.encode self.allowPartial)]

def CoveragePolicy.ofValue? (v : Value) : Option CoveragePolicy := do
  let members ← knownMembers CoveragePolicy.fields v
  let allowPartial ←
    field members (ascii "allowPartial") boolean.decode ({} : CoveragePolicy).allowPartial
  let allowNodeBuiltins ←
    field members (ascii "allowNodeBuiltins") boolean.decode ({} : CoveragePolicy).allowNodeBuiltins
  pure { allowPartial, allowNodeBuiltins }

theorem CoveragePolicy.over_ofValue? {self : CoveragePolicy} (hwell : v.wellFormed = true)
    (h : CoveragePolicy.ofValue? v = some self) :
    Over ({} : CoveragePolicy).toValue (some v) self.toValue := by
  simp only [CoveragePolicy.ofValue?, bind_eq_some, knownMembers_eq_some] at h
  obtain ⟨_, ⟨rfl, -⟩, _, hallowPartial, _, hallowNodeBuiltins, ⟨⟩⟩ := h
  apply OverMembers.over
  apply OverMembers.cons (boolean.over_field hwell hallowNodeBuiltins)
  apply OverMembers.cons (boolean.over_field hwell hallowPartial)
  exact OverMembers.nil

structure CoverageOverride where
  allowPartial : Option Bool := none
  allowNodeBuiltins : Option Bool := none
  deriving DecidableEq

def CoverageOverride.ofValue? (v : Value) : Option CoverageOverride := do
  let members ← knownMembers CoveragePolicy.fields v
  let allowPartial ← field members (ascii "allowPartial") (nullable boolean.decode) none
  let allowNodeBuiltins ← field members (ascii "allowNodeBuiltins") (nullable boolean.decode) none
  pure { allowPartial, allowNodeBuiltins }

def CoverageOverride.apply (self : CoverageOverride) (target : CoveragePolicy) :
    CoveragePolicy where
  allowPartial := self.allowPartial.getD target.allowPartial
  allowNodeBuiltins := self.allowNodeBuiltins.getD target.allowNodeBuiltins

theorem CoverageOverride.over_apply {self : CoverageOverride} (hwell : v.wellFormed = true)
    (hplain : v.plain = true) (h : CoverageOverride.ofValue? v = some self)
    (target : CoveragePolicy) :
    Over target.toValue (some v) (self.apply target).toValue := by
  simp only [CoverageOverride.ofValue?, bind_eq_some, knownMembers_eq_some] at h
  obtain ⟨_, ⟨rfl, -⟩, _, hallowPartial, _, hallowNodeBuiltins, ⟨⟩⟩ := h
  apply OverMembers.over
  apply OverMembers.cons (boolean.over_override _ hwell hplain hallowNodeBuiltins)
  apply OverMembers.cons (boolean.over_override _ hwell hplain hallowPartial)
  exact OverMembers.nil

def ProviderOptions.fields : List Str :=
    [ascii "roots"]

def ProviderOptions.toValue (self : ProviderOptions) : Value :=
  .object [(ascii "roots", texts.encode self.roots)]

def ProviderOptions.ofValue? (v : Value) : Option ProviderOptions := do
  let members ← knownMembers ProviderOptions.fields v
  let roots ← field members (ascii "roots") texts.decode ({} : ProviderOptions).roots
  pure { roots }

theorem ProviderOptions.over_ofValue? {self : ProviderOptions} (hwell : v.wellFormed = true)
    (h : ProviderOptions.ofValue? v = some self) :
    Over ({} : ProviderOptions).toValue (some v) self.toValue := by
  simp only [ProviderOptions.ofValue?, bind_eq_some, knownMembers_eq_some] at h
  obtain ⟨_, ⟨rfl, -⟩, _, hroots, ⟨⟩⟩ := h
  apply OverMembers.over
  apply OverMembers.cons (texts.over_field hwell hroots)
  exact OverMembers.nil

structure ProviderOverride where
  roots : Option (List Str) := none
  deriving DecidableEq

def ProviderOverride.ofValue? (v : Value) : Option ProviderOverride := do
  let members ← knownMembers ProviderOptions.fields v
  let roots ← field members (ascii "roots") (nullable texts.decode) none
  pure { roots }

def ProviderOverride.apply (self : ProviderOverride) (target : ProviderOptions) :
    ProviderOptions where
  roots := self.roots.getD target.roots

theorem ProviderOverride.over_apply {self : ProviderOverride} (hwell : v.wellFormed = true)
    (hplain : v.plain = true) (h : ProviderOverride.ofValue? v = some self)
    (target : ProviderOptions) :
    Over target.toValue (some v) (self.apply target).toValue := by
  simp only [ProviderOverride.ofValue?, bind_eq_some, knownMembers_eq_some] at h
  obtain ⟨_, ⟨rfl, -⟩, _, hroots, ⟨⟩⟩ := h
  apply OverMembers.over
  apply OverMembers.cons (texts.over_override _ hwell hplain hroots)
  exact OverMembers.nil

/-- No target is excluded. -/
def TargetPolicy.empty : TargetPolicy := ⟨[]⟩

def TargetPolicy.fields : List Str :=
    [ascii "exclude"]

def TargetPolicy.toValue (self : TargetPolicy) : Value :=
  .object [(ascii "exclude", paths.encode self.exclude)]

def TargetPolicy.ofValue? (v : Value) : Option TargetPolicy := do
  let members ← knownMembers TargetPolicy.fields v
  let exclude ← field members (ascii "exclude") paths.decode TargetPolicy.empty.exclude
  pure { exclude }

theorem TargetPolicy.over_ofValue? {self : TargetPolicy} (hwell : v.wellFormed = true)
    (h : TargetPolicy.ofValue? v = some self) :
    Over TargetPolicy.empty.toValue (some v) self.toValue := by
  simp only [TargetPolicy.ofValue?, bind_eq_some, knownMembers_eq_some] at h
  obtain ⟨_, ⟨rfl, -⟩, _, hexclude, ⟨⟩⟩ := h
  apply OverMembers.over
  apply OverMembers.cons (paths.over_field hwell hexclude)
  exact OverMembers.nil

structure TargetOverride where
  exclude : Option (List RepoPath) := none
  deriving DecidableEq

def TargetOverride.ofValue? (v : Value) : Option TargetOverride := do
  let members ← knownMembers TargetPolicy.fields v
  let exclude ← field members (ascii "exclude") (nullable paths.decode) none
  pure { exclude }

def TargetOverride.apply (self : TargetOverride) (target : TargetPolicy) : TargetPolicy where
  exclude := self.exclude.getD target.exclude

theorem TargetOverride.over_apply {self : TargetOverride} (hwell : v.wellFormed = true)
    (hplain : v.plain = true) (h : TargetOverride.ofValue? v = some self) (target : TargetPolicy) :
    Over target.toValue (some v) (self.apply target).toValue := by
  simp only [TargetOverride.ofValue?, bind_eq_some, knownMembers_eq_some] at h
  obtain ⟨_, ⟨rfl, -⟩, _, hexclude, ⟨⟩⟩ := h
  apply OverMembers.over
  apply OverMembers.cons (paths.over_override _ hwell hplain hexclude)
  exact OverMembers.nil

/-! ## Sections of sections -/

structure ProviderSettings where
  rustNative : ProviderOptions := {}
  nodeNative : ProviderOptions := {}
  pythonNative : ProviderOptions := {}

def ProviderSettings.fields : List Str :=
  [ascii "rust-native", ascii "node-native", ascii "python-native"]

def ProviderSettings.options (self : ProviderSettings) : NativeProvider → ProviderOptions
  | .rustNative => self.rustNative
  | .nodeNative => self.nodeNative
  | .pythonNative => self.pythonNative

def ProviderSettings.toValue (self : ProviderSettings) : Value :=
  .object [(ascii "node-native", self.nodeNative.toValue),
    (ascii "python-native", self.pythonNative.toValue),
    (ascii "rust-native", self.rustNative.toValue)]

def ProviderSettings.ofValue? (v : Value) : Option ProviderSettings := do
  let members ← knownMembers ProviderSettings.fields v
  let rustNative ← field members (ascii "rust-native") ProviderOptions.ofValue? {}
  let nodeNative ← field members (ascii "node-native") ProviderOptions.ofValue? {}
  let pythonNative ← field members (ascii "python-native") ProviderOptions.ofValue? {}
  pure { rustNative, nodeNative, pythonNative }

theorem ProviderSettings.over_ofValue? {self : ProviderSettings}
    (hwell : v.wellFormed = true) (h : ProviderSettings.ofValue? v = some self) :
    Over ({} : ProviderSettings).toValue (some v) self.toValue := by
  simp only [ProviderSettings.ofValue?, bind_eq_some, knownMembers_eq_some] at h
  obtain ⟨_, ⟨rfl, -⟩, _, hrust, _, hnode, _, hpython, ⟨⟩⟩ := h
  apply OverMembers.over
  apply OverMembers.cons (over_section ProviderOptions.over_ofValue? hwell hnode)
  apply OverMembers.cons (over_section ProviderOptions.over_ofValue? hwell hpython)
  apply OverMembers.cons (over_section ProviderOptions.over_ofValue? hwell hrust)
  exact OverMembers.nil

structure ProvidersOverride where
  rustNative : ProviderOverride := {}
  nodeNative : ProviderOverride := {}
  pythonNative : ProviderOverride := {}
  deriving DecidableEq

def ProvidersOverride.ofValue? (v : Value) : Option ProvidersOverride := do
  let members ← knownMembers ProviderSettings.fields v
  let rustNative ← field members (ascii "rust-native") ProviderOverride.ofValue? {}
  let nodeNative ← field members (ascii "node-native") ProviderOverride.ofValue? {}
  let pythonNative ← field members (ascii "python-native") ProviderOverride.ofValue? {}
  pure { rustNative, nodeNative, pythonNative }

def ProvidersOverride.apply (self : ProvidersOverride) (target : ProviderSettings) :
    ProviderSettings where
  rustNative := self.rustNative.apply target.rustNative
  nodeNative := self.nodeNative.apply target.nodeNative
  pythonNative := self.pythonNative.apply target.pythonNative

theorem ProvidersOverride.over_apply {self : ProvidersOverride}
    (hwell : v.wellFormed = true) (hplain : v.plain = true)
    (h : ProvidersOverride.ofValue? v = some self) (target : ProviderSettings) :
    Over target.toValue (some v) (self.apply target).toValue := by
  have hinherit : ∀ options : ProviderOptions, ({} : ProviderOverride).apply options = options :=
    fun _ => rfl
  simp only [ProvidersOverride.ofValue?, bind_eq_some, knownMembers_eq_some] at h
  obtain ⟨members, ⟨rfl, -⟩, _, hrust, _, hnode, _, hpython, ⟨⟩⟩ := h
  have hsection {key : Str} {o : ProviderOverride} := @over_apply_section ProviderOptions
    ProviderOverride members key ProviderOptions.toValue ProviderOverride.apply _ _ o hinherit
    ProviderOverride.over_apply hwell hplain
  apply OverMembers.over
  apply OverMembers.cons (hsection hnode _)
  apply OverMembers.cons (hsection hpython _)
  apply OverMembers.cons (hsection hrust _)
  exact OverMembers.nil

structure DocumentationSettings where
  bindings : List DocumentationBinding := []

def DocumentationSettings.toValue (self : DocumentationSettings) : Value :=
  .object [(ascii "bindings", documentationBinding.list.encode self.bindings)]

def DocumentationSettings.ofValue? (v : Value) : Option DocumentationSettings := do
  let members ← knownMembers [ascii "bindings"] v
  let bindings ← field members (ascii "bindings") documentationBinding.list.decode []
  pure { bindings }

theorem DocumentationSettings.over_ofValue? {self : DocumentationSettings}
    (hwell : v.wellFormed = true) (h : DocumentationSettings.ofValue? v = some self) :
    Over ({} : DocumentationSettings).toValue (some v) self.toValue := by
  simp only [DocumentationSettings.ofValue?, bind_eq_some, knownMembers_eq_some] at h
  obtain ⟨_, ⟨rfl, -⟩, _, hbindings, ⟨⟩⟩ := h
  apply OverMembers.over
  apply OverMembers.cons (documentationBinding.list.over_field hwell hbindings)
  exact OverMembers.nil

/-! ## Workflows -/

def nativeProviders : LeafCodec (List NativeProvider) := nativeProvider.list

structure WorkflowOverride where
  verify : VerifyOverride := {}
  sense : SenseOverride := {}
  targets : TargetOverride := {}
  providers : ProvidersOverride := {}
  coverage : CoverageOverride := {}
  native : Option (List NativeProvider) := none
  deriving DecidableEq

def WorkflowOverride.fields : List Str :=
  [ascii "verify", ascii "sense", ascii "targets", ascii "providers", ascii "coverage",
    ascii "native"]

def WorkflowOverride.ofValue? (v : Value) : Option WorkflowOverride := do
  let members ← knownMembers WorkflowOverride.fields v
  let verify ← field members (ascii "verify") VerifyOverride.ofValue? {}
  let sense ← field members (ascii "sense") SenseOverride.ofValue? {}
  let targets ← field members (ascii "targets") TargetOverride.ofValue? {}
  let providers ← field members (ascii "providers") ProvidersOverride.ofValue? {}
  let coverage ← field members (ascii "coverage") CoverageOverride.ofValue? {}
  let native ← field members (ascii "native") (nullable nativeProviders.decode) none
  pure { verify, sense, targets, providers, coverage, native }

structure Workflows where
  postEdit : WorkflowOverride := {}
  preCommit : WorkflowOverride := {}
  ci : WorkflowOverride := {}
  deriving DecidableEq

def Workflows.selected (self : Workflows) : Workflow → WorkflowOverride
  | .postEdit => self.postEdit
  | .preCommit => self.preCommit
  | .ci => self.ci

def Workflows.ofValue? (v : Value) : Option Workflows := do
  let members ← knownMembers [ascii "post-edit", ascii "pre-commit", ascii "ci"] v
  let postEdit ← field members (ascii "post-edit") WorkflowOverride.ofValue? {}
  let preCommit ← field members (ascii "pre-commit") WorkflowOverride.ofValue? {}
  let ci ← field members (ascii "ci") WorkflowOverride.ofValue? {}
  pure { postEdit, preCommit, ci }

theorem Workflows.selected_of_ofValue? {self : Workflows}
    (h : Workflows.ofValue? v = some self) (workflow : Workflow) :
    ∃ members, v = .object members
      ∧ field members workflow.asStr WorkflowOverride.ofValue? {}
        = some (self.selected workflow) := by
  simp only [Workflows.ofValue?, bind_eq_some, knownMembers_eq_some] at h
  obtain ⟨members, ⟨rfl, -⟩, _, hpost, _, hpre, _, hci, ⟨⟩⟩ := h
  refine ⟨members, rfl, ?_⟩
  cases workflow with
  | postEdit => exact hpost
  | preCommit => exact hpre
  | ci => exact hci

/-! ## The configuration -/

def policySchemaVersion : Nat := 1

structure Policy where
  schemaVersion : Nat := policySchemaVersion
  verify : RuleLimits := {}
  sense : SensePolicy := {}
  documentation : DocumentationSettings := {}
  targets : TargetPolicy := .empty
  providers : ProviderSettings := {}
  native : List NativeProvider := []
  coverage : CoveragePolicy := {}
  workflows : Workflows := {}

def Policy.fields : List Str :=
  [ascii "schemaVersion", ascii "verify", ascii "sense", ascii "documentation", ascii "targets",
    ascii "providers", ascii "native", ascii "coverage", ascii "workflows"]

/-- A policy without workflows, which are left out then; no other policy is written. -/
def Policy.toValue (self : Policy) : Value :=
  .object [(ascii "coverage", self.coverage.toValue),
    (ascii "documentation", self.documentation.toValue),
    (ascii "native", nativeProviders.encode self.native),
    (ascii "providers", self.providers.toValue),
    (ascii "schemaVersion", u32.encode self.schemaVersion),
    (ascii "sense", self.sense.toValue),
    (ascii "targets", self.targets.toValue),
    (ascii "verify", self.verify.toValue)]

def Policy.ofValue? (v : Value) : Option Policy := do
  let members ← knownMembers Policy.fields v
  let schemaVersion ← required members (ascii "schemaVersion") u32.decode
  let verify ← field members (ascii "verify") RuleLimits.ofValue? {}
  let sense ← field members (ascii "sense") SensePolicy.ofValue? {}
  let documentation ← field members (ascii "documentation") DocumentationSettings.ofValue? {}
  let targets ← field members (ascii "targets") TargetPolicy.ofValue? .empty
  let providers ← field members (ascii "providers") ProviderSettings.ofValue? {}
  let native ← field members (ascii "native") nativeProviders.decode []
  let coverage ← field members (ascii "coverage") CoveragePolicy.ofValue? {}
  let workflows ← field members (ascii "workflows") Workflows.ofValue? {}
  pure { schemaVersion, verify, sense, documentation, targets, providers, native, coverage,
         workflows }

theorem Policy.over_ofValue? {self : Policy} (hwell : v.wellFormed = true)
    (h : Policy.ofValue? v = some self) : Over ({} : Policy).toValue (some v) self.toValue := by
  simp only [Policy.ofValue?, bind_eq_some, knownMembers_eq_some] at h
  obtain ⟨_, ⟨rfl, -⟩, _, hschema, _, hverify, _, hsense, _, hdocumentation, _, htargets, _,
    hproviders, _, hnative, _, hcoverage, _, hworkflows, ⟨⟩⟩ := h
  apply OverMembers.over
  apply OverMembers.cons (over_section CoveragePolicy.over_ofValue? hwell hcoverage)
  apply OverMembers.cons (over_section DocumentationSettings.over_ofValue? hwell hdocumentation)
  apply OverMembers.cons (nativeProviders.over_field hwell hnative)
  apply OverMembers.cons (over_section ProviderSettings.over_ofValue? hwell hproviders)
  apply OverMembers.cons (u32.over_field hwell (field_of_required hschema))
  apply OverMembers.cons (over_section SensePolicy.over_ofValue? hwell hsense)
  apply OverMembers.cons (over_section TargetPolicy.over_ofValue? hwell htargets)
  apply OverMembers.cons (over_section RuleLimits.over_ofValue? hwell hverify)
  exact OverMembers.nil

theorem Policy.workflows_of_ofValue? {self : Policy} (h : Policy.ofValue? v = some self) :
    ∃ members, v = .object members
      ∧ field members (ascii "workflows") Workflows.ofValue? {} = some self.workflows := by
  simp only [Policy.ofValue?, bind_eq_some, knownMembers_eq_some] at h
  obtain ⟨members, ⟨rfl, -⟩, _, -, _, -, _, -, _, -, _, -, _, -, _, -, _, -, _, hworkflows, ⟨⟩⟩ := h
  exact ⟨members, rfl, hworkflows⟩

/-- The settings of a workflow in place of those they override. -/
def WorkflowOverride.apply (self : WorkflowOverride) (target : Policy) : Policy :=
  { target with
    verify := self.verify.apply target.verify
    sense := self.sense.apply target.sense
    targets := self.targets.apply target.targets
    providers := self.providers.apply target.providers
    coverage := self.coverage.apply target.coverage
    native := self.native.getD target.native }

theorem WorkflowOverride.over_apply {self : WorkflowOverride}
    (hwell : v.wellFormed = true) (hplain : v.plain = true)
    (h : WorkflowOverride.ofValue? v = some self) (target : Policy) :
    Over target.toValue (some v) (self.apply target).toValue := by
  simp only [WorkflowOverride.ofValue?, bind_eq_some, knownMembers_eq_some] at h
  obtain ⟨_, ⟨rfl, hknown⟩, _, hverify, _, hsense, _, htargets, _, hproviders, _, hcoverage, _,
    hnative, ⟨⟩⟩ := h
  have hunknown := fun key => @lookup_eq_none_of_unknown _ _ key hknown
  apply OverMembers.over
  apply OverMembers.cons (over_apply_section (fun _ => rfl) CoverageOverride.over_apply hwell hplain
    hcoverage _)
  apply OverMembers.cons (hunknown (ascii "documentation") (by decide) ▸ Over.refl _)
  apply OverMembers.cons (nativeProviders.over_override _ hwell hplain hnative)
  apply OverMembers.cons (over_apply_section (fun _ => rfl) ProvidersOverride.over_apply hwell
    hplain hproviders _)
  apply OverMembers.cons (hunknown (ascii "schemaVersion") (by decide) ▸ Over.refl _)
  apply OverMembers.cons (over_apply_section (fun _ => rfl) SenseOverride.over_apply hwell hplain
    hsense _)
  apply OverMembers.cons (over_apply_section (fun _ => rfl) TargetOverride.over_apply hwell hplain
    htargets _)
  apply OverMembers.cons (over_apply_section (fun _ => rfl) VerifyOverride.over_apply hwell hplain
    hverify _)
  exact OverMembers.nil

end Opcore
