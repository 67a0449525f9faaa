/-
  Opcore.Sense.Obligations

  The registry that binds sources to their documents, and what a change of
  important modules obliges: bindings that are missing or stale, documents that
  are missing or were not updated, and Python modules of which the public surface
  was not known well enough to say.
-/
import Opcore.Library.Json
import Opcore.Sense.Report
import Opcore.Source.Languages

namespace Opcore.Documentation

open Text Collections Metrics Smallest

/-! ## The registry -/

def documentationRegistrySchemaVersion : Nat := 1
def maxDocumentationRegistryBytes : Nat := 256 * 1024
def maxDocumentationBindings : Nat := 4096

structure DocumentationBinding where
  source : RepoPath
  document : RepoPath
  deriving DecidableEq

instance : LinearOrder DocumentationBinding :=
  LinearOrder.lift' (fun b : DocumentationBinding => toLex (b.source, b.document)) (by
    rintro ⟨s₁, d₁⟩ ⟨s₂, d₂⟩ h
    have h' : s₁ = s₂ ∧ d₁ = d₂ := by simpa using h
    simp [h'])

/-- The bindings stand in the order of their sources, which are distinct. -/
structure DocumentationRegistry where
  schemaVersion : Nat
  bindings : List DocumentationBinding
  deriving DecidableEq

/-- The binary search for the binding of a source. -/
def DocumentationRegistry.documentFor (self : DocumentationRegistry) (source : RepoPath) :
    Option RepoPath :=
  (self.bindings.find? fun binding => binding.source = source).map DocumentationBinding.document

inductive DocumentationRegistryError where
  | tooLarge
  | malformed (reason : Str)
  | tooManyBindings
  | duplicateSource (path : RepoPath)
  | selfBinding (path : RepoPath)
  | registryAsDocument
  deriving DecidableEq

def DocumentationRegistryError.message : DocumentationRegistryError → Str
  | .tooLarge =>
    ascii ("documentation registry exceeds " ++ toString maxDocumentationRegistryBytes ++ " bytes")
  | .malformed reason => ascii "documentation registry is malformed: " ++ reason
  | .tooManyBindings =>
    ascii ("documentation registry has more than " ++ toString maxDocumentationBindings
      ++ " bindings")
  | .duplicateSource path =>
    ascii "documentation registry contains duplicate source path " ++ path.displayLossless
  | .selfBinding path =>
    ascii "documentation binding source and document must differ: " ++ path.displayLossless
  | .registryAsDocument => ascii "documentation binding cannot use the registry as its document"

/-- No source twice, none its own document, and the registry is no document. -/
def validateEachBinding (seen : BTreeSet RepoPath) :
    List DocumentationBinding → Except DocumentationRegistryError Unit
  | [] => .ok ()
  | binding :: bindings =>
    if binding.source ∈ seen then .error (.duplicateSource binding.source)
    else if binding.source = binding.document then .error (.selfBinding binding.source)
    else if binding.document.asUtf8 = some documentationRegistryPath then
      .error .registryAsDocument
    else validateEachBinding (seen.insert binding.source) bindings

def validateBindings (bindings : List DocumentationBinding) :
    Except DocumentationRegistryError Unit :=
  if maxDocumentationBindings < bindings.length then .error .tooManyBindings
  else validateEachBinding ∅ bindings

/-- How the text of a registry is read: the JSON parser, which refuses a repeated key, and the
    decoding of the `documentation` member. -/
structure RegistryReader where
  parseUniqueJson : Str → Except Str Json.Value
  documentationSettings : Json.Value → Except Str (List DocumentationBinding)

/-- The registry of a view that has one. -/
def parseOptionalDocumentationRegistry (reader : RegistryReader) (bytes : Option Str) :
    Except DocumentationRegistryError (Option DocumentationRegistry) :=
  match bytes with
  | none => .ok none
  | some bytes =>
    if maxDocumentationRegistryBytes < bytes.length then .error .tooLarge
    else
      match reader.parseUniqueJson bytes with
      | .error reason => .error (.malformed reason)
      | .ok value =>
        if (value.get? (ascii "schemaVersion")).bind Json.Value.asU64?
            ≠ some documentationRegistrySchemaVersion then
          .error (.malformed (ascii ("schemaVersion must be "
            ++ toString documentationRegistrySchemaVersion)))
        else
          match value.get? (ascii "documentation") with
          | none => .ok none
          | some documentation =>
            match reader.documentationSettings documentation with
            | .error reason => .error (.malformed (ascii "documentation: " ++ reason))
            | .ok bindings =>
              match validateBindings bindings with
              | .error error => .error error
              | .ok () =>
                .ok (some ⟨documentationRegistrySchemaVersion,
                  bindings.insertionSort (· ≤ ·)⟩)

/-! ## Captured documents -/

/-- The contents of a path in both views. -/
structure AuxiliaryPathState where
  before : Option Str
  after : Option Str
  deriving DecidableEq

def AuxiliaryPathState.contentChanged [Sha256] (self : AuxiliaryPathState) : Bool :=
  self.before.map ContentId.of ≠ self.after.map ContentId.of

/-! ## Requirements -/

structure DocumentationInputs where
  nodes : List ImportantNodeObservation
  afterRegistry : Option DocumentationRegistry
  documents : BTreeMap RepoPath AuxiliaryPathState
  policy : DocumentationPolicy
  findingLimit : Nat

/-- What the policy requires, and what it could not see. -/
structure DocumentationResult where
  requirements : List DocumentationRequirement
  coverageIssues : List SenseIssue
  findingsTruncated : Bool
  documentsRequested : Nat
  beforeDocuments : Nat
  afterDocuments : Nat
  changedDocuments : Nat
  publicSurfaceCandidates : Nat
  authoritativePublicSurfaces : Nat
  unavailablePublicSurfaces : Nat

def DocumentationInputs.documentFor (inputs : DocumentationInputs) (source : RepoPath) :
    Option RepoPath :=
  inputs.afterRegistry.bind fun registry => registry.documentFor source

def referencedDocuments (nodes : List ImportantNodeObservation)
    (afterRegistry : Option DocumentationRegistry) (policy : DocumentationPolicy) :
    BTreeSet RepoPath :=
  BTreeSet.ofList (nodes.filterMap fun node =>
    (trigger node policy).bind fun trigger =>
      if trigger.deleted then none
      else afterRegistry.bind fun registry => registry.documentFor node.path)

/-- The requirement of a binding that still names a renamed or deleted source. -/
def staleBindings (inputs : DocumentationInputs) (node : ImportantNodeObservation)
    (trigger : Trigger) : List DocumentationRequirement :=
  if trigger.renamed || trigger.deleted then
    ((inputs.documentFor (node.beforePath.getD node.path)).map fun document =>
      ⟨ascii "sense.documentation.stale_binding", node.path, node.beforePath, some document,
        trigger.reasons⟩).toList
  else []

section

variable [Sha256]

/-- What the current path of a module is obliged to. -/
def currentRequirements (inputs : DocumentationInputs) (node : ImportantNodeObservation)
    (trigger : Trigger) : List DocumentationRequirement :=
  match inputs.documentFor node.path with
  | none =>
    [⟨ascii "sense.documentation.missing_binding", node.path, node.beforePath, none,
      trigger.reasons⟩]
  | some document =>
    match inputs.documents.get? document with
    | none =>
      [⟨ascii "sense.documentation.missing_document", node.path, node.beforePath,
        some document, trigger.reasons⟩]
    | some state =>
      if state.after.isNone then
        [⟨ascii "sense.documentation.missing_document", node.path, node.beforePath,
          some document, trigger.reasons⟩]
      else if trigger.surfaceChanged && !state.contentChanged then
        [⟨ascii "sense.documentation.document_not_updated", node.path, node.beforePath,
          some document, trigger.reasons⟩]
      else []

def evaluateNode (inputs : DocumentationInputs) (node : ImportantNodeObservation)
    (trigger : Trigger) : List DocumentationRequirement :=
  staleBindings inputs node trigger
    ++ if trigger.deleted then [] else currentRequirements inputs node trigger

end

/-! ## Public surfaces -/

section

variable [Platform]

def pythonPublicSurfaceCandidate (node : ImportantNodeObservation) (policy : DocumentationPolicy) :
    Bool :=
  !node.deleted
    && (detectLanguage node.path).any (fun detected => detected.1 = .python)
    && (important node.beforeConfirmedDependencyFanIn node.beforePublicSurfaceAuthoritative
          node.beforeExplicitExports policy
        || important node.afterConfirmedDependencyFanIn node.afterPublicSurfaceAuthoritative
          node.afterExplicitExports policy)

def pythonPublicSurfaceDocument (inputs : DocumentationInputs) (node : ImportantNodeObservation) :
    Option RepoPath :=
  if pythonPublicSurfaceCandidate node inputs.policy then inputs.documentFor node.path else none

def needsEvaluation (nodes : List ImportantNodeObservation) (policy : DocumentationPolicy) : Bool :=
  nodes.any fun node => (trigger node policy).isSome || pythonPublicSurfaceCandidate node policy

end

def publicSurfaceUnavailableCode : Str := ascii "sense.documentation.public_surface_unavailable"

def publicSurfaceUnavailable (path document : RepoPath) : SenseIssue :=
  { code := publicSurfaceUnavailableCode
    message := ascii "could not evaluate sense.documentation.document_not_updated for "
      ++ path.displayLossless ++ ascii " and its registered document " ++ document.displayLossless
      ++ ascii (" because the Python public surface was not authoritative in both views")
    paths := [path] }

/-! ## Evaluation -/

/-- What the loop over important modules collects. -/
structure DocumentationState where
  requirements : List DocumentationRequirement := []
  coverageIssues : List SenseIssue := []
  publicSurfaceCandidates : Nat := 0
  authoritativePublicSurfaces : Nat := 0
  unavailablePublicSurfaces : Nat := 0

section

variable [Sha256] [Platform]

/-- The public surface of one module. -/
def DocumentationState.observeSurface (inputs : DocumentationInputs) (s : DocumentationState)
    (node : ImportantNodeObservation) : DocumentationState :=
  match pythonPublicSurfaceDocument inputs node with
  | none => s
  | some document =>
    let s := { s with publicSurfaceCandidates := s.publicSurfaceCandidates + 1 }
    if node.beforePublicSurfaceAuthoritative && node.afterPublicSurfaceAuthoritative then
      { s with authoritativePublicSurfaces := s.authoritativePublicSurfaces + 1 }
    else
      { s with
        unavailablePublicSurfaces := s.unavailablePublicSurfaces + 1
        coverageIssues := s.coverageIssues ++ [publicSurfaceUnavailable node.path document] }

def DocumentationState.step (inputs : DocumentationInputs) (s : DocumentationState)
    (node : ImportantNodeObservation) : DocumentationState :=
  let s :=
    match trigger node inputs.policy with
    | some trigger => { s with requirements := s.requirements ++ evaluateNode inputs node trigger }
    | none => s
  s.observeSurface inputs node

def gathered (inputs : DocumentationInputs) : DocumentationState :=
  inputs.nodes.foldl (DocumentationState.step inputs) {}

/-- Every requirement, before any bound. -/
def allRequirements (inputs : DocumentationInputs) : List DocumentationRequirement :=
  (gathered inputs).requirements.insertionSort (· ≤ ·)

/-- Every coverage issue, before any bound. -/
def allCoverageIssues (inputs : DocumentationInputs) : List SenseIssue :=
  sortByKey SenseIssue.paths (gathered inputs).coverageIssues

/-- The requirements first, then the coverage issues, within one limit. -/
def evaluate (inputs : DocumentationInputs) : DocumentationResult :=
  let state := gathered inputs
  let requirements := allRequirements inputs
  let coverageIssues := allCoverageIssues inputs
  { requirements :=
      if inputs.findingLimit ≤ requirements.length then requirements.take inputs.findingLimit
      else requirements
    coverageIssues :=
      if inputs.findingLimit ≤ requirements.length then []
      else coverageIssues.take (inputs.findingLimit - requirements.length)
    findingsTruncated := inputs.findingLimit < requirements.length + coverageIssues.length
    documentsRequested := inputs.documents.size
    beforeDocuments := inputs.documents.values.countP fun state => state.before.isSome
    afterDocuments := inputs.documents.values.countP fun state => state.after.isSome
    changedDocuments := inputs.documents.values.countP AuxiliaryPathState.contentChanged
    publicSurfaceCandidates := state.publicSurfaceCandidates
    authoritativePublicSurfaces := state.authoritativePublicSurfaces
    unavailablePublicSurfaces := state.unavailablePublicSurfaces }

/-! ## What an evaluation keeps -/

variable (inputs : DocumentationInputs)

theorem requirements_evaluate :
    (evaluate inputs).requirements = (allRequirements inputs).take inputs.findingLimit := by
  rw [evaluate]
  dsimp only
  split_ifs with h
  · rfl
  · rw [List.take_of_length_le (by omega)]

theorem coverageIssues_evaluate :
    (evaluate inputs).coverageIssues
      = (allCoverageIssues inputs).take (inputs.findingLimit - (allRequirements inputs).length) := by
  rw [evaluate]
  dsimp only
  split_ifs with h
  · rw [Nat.sub_eq_zero_of_le h, List.take_zero]
  · rfl

/-- The issues are counted, and all about public surfaces. -/
structure DocumentationState.Counted (s : DocumentationState) : Prop where
  length : s.coverageIssues.length = s.unavailablePublicSurfaces
  code : ∀ issue ∈ s.coverageIssues, issue.code = publicSurfaceUnavailableCode

omit [Sha256] in
theorem DocumentationState.Counted.observeSurface {s : DocumentationState} (hs : s.Counted)
    (node : ImportantNodeObservation) : (s.observeSurface inputs node).Counted := by
  rw [DocumentationState.observeSurface]
  cases pythonPublicSurfaceDocument inputs node with
  | none => exact hs
  | some document =>
    dsimp only
    split_ifs
    · exact ⟨hs.length, hs.code⟩
    · refine ⟨by simp [hs.length], fun issue hissue => ?_⟩
      obtain hissue | hissue := List.mem_append.mp hissue
      · exact hs.code issue hissue
      · rw [List.mem_singleton.mp hissue]
        rfl

/-- Each module of which the public surface is unavailable leaves one issue. -/
theorem counted_gathered : (gathered inputs).Counted := by
  refine List.foldlRecOn inputs.nodes (DocumentationState.step inputs)
    (motive := DocumentationState.Counted) ⟨rfl, nofun⟩ ?_
  intro s hs node _
  rw [DocumentationState.step]
  cases trigger node inputs.policy with
  | none => exact hs.observeSurface inputs node
  | some trigger =>
    have hrequired : DocumentationState.Counted
        { s with requirements := s.requirements ++ evaluateNode inputs node trigger } :=
      ⟨hs.length, hs.code⟩
    exact hrequired.observeSurface inputs node

theorem length_allCoverageIssues :
    (allCoverageIssues inputs).length = (evaluate inputs).unavailablePublicSurfaces := by
  rw [allCoverageIssues, (sortByKey_perm _ _).length_eq, (counted_gathered inputs).length]
  rfl

theorem code_of_mem_coverageIssues {issue : SenseIssue}
    (h : issue ∈ (evaluate inputs).coverageIssues) : issue.code = publicSurfaceUnavailableCode := by
  rw [coverageIssues_evaluate] at h
  exact (counted_gathered inputs).code issue
    ((sortByKey_perm _ _).mem_iff.mp (List.mem_of_mem_take h))

theorem findingsTruncated_evaluate_iff :
    (evaluate inputs).findingsTruncated = true
      ↔ inputs.findingLimit < (allRequirements inputs).length + (allCoverageIssues inputs).length :=
  decide_eq_true_iff

variable {inputs}

/-- When nothing was dropped, an issue is reported exactly when a surface was unavailable. -/
theorem coverageIssues_eq_nil_iff (h : (evaluate inputs).findingsTruncated = false) :
    (evaluate inputs).coverageIssues = [] ↔ (evaluate inputs).unavailablePublicSurfaces = 0 := by
  rw [← Bool.not_eq_true, findingsTruncated_evaluate_iff] at h
  rw [coverageIssues_evaluate, List.take_of_length_le (by omega), ← length_allCoverageIssues,
    List.length_eq_zero_iff]

end

end Opcore.Documentation
