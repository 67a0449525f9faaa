/-
  Opcore.Sense.Model

  The dependency projection of one view of the repository and the findings
  computed from a pair of projections.
-/
import Opcore.Model

namespace Opcore

open Text Collections

/-! ## Ordered keys

The derived `Ord` of a struct compares its fields in declaration order. -/

inductive EdgeKind where
  | runtime
  | typeOnly
  | structural
  deriving DecidableEq

instance : LinearOrder EdgeKind :=
  LinearOrder.lift' EdgeKind.ctorIdx
    (Function.LeftInverse.injective EdgeKind.ofNat_ctorIdx)

structure DependencyEdge where
  «from» : RepoPath
  «to» : RepoPath
  kind : EdgeKind
  deriving DecidableEq

instance : LinearOrder DependencyEdge :=
  LinearOrder.lift' (fun e : DependencyEdge => toLex (e.from, toLex (e.«to», e.kind))) (by
    rintro ⟨f₁, t₁, k₁⟩ ⟨f₂, t₂, k₂⟩ h
    have h' : f₁ = f₂ ∧ t₁ = t₂ ∧ k₁ = k₂ := by simpa using h
    simp [h'])

inductive ResolutionGapKind where
  | nodeBuiltin
  | external
  | ambiguous
  | unresolved
  | unsupportedDynamic
  deriving DecidableEq

instance : LinearOrder ResolutionGapKind :=
  LinearOrder.lift' ResolutionGapKind.ctorIdx
    (Function.LeftInverse.injective ResolutionGapKind.ofNat_ctorIdx)

structure ResolutionGapEvidence where
  path : RepoPath
  specifier : Str
  kind : ResolutionGapKind
  deriving DecidableEq

instance : LinearOrder ResolutionGapEvidence :=
  LinearOrder.lift'
    (fun g : ResolutionGapEvidence => toLex (g.path, toLex (g.specifier, g.kind))) (by
    rintro ⟨p₁, s₁, k₁⟩ ⟨p₂, s₂, k₂⟩ h
    have h' : p₁ = p₂ ∧ s₁ = s₂ ∧ k₁ = k₂ := by simpa using h
    simp [h'])

instance : LinearOrder InterfaceExportNamespace :=
  LinearOrder.lift' InterfaceExportNamespace.ctorIdx
    (Function.LeftInverse.injective InterfaceExportNamespace.ofNat_ctorIdx)

instance : LinearOrder InterfaceShapeKind :=
  LinearOrder.lift' InterfaceShapeKind.ctorIdx
    (Function.LeftInverse.injective InterfaceShapeKind.ofNat_ctorIdx)

instance : LinearOrder InterfaceNamespace :=
  LinearOrder.lift' InterfaceNamespace.ctorIdx
    (Function.LeftInverse.injective InterfaceNamespace.ofNat_ctorIdx)

instance : LinearOrder InterfaceSelectorKind :=
  LinearOrder.lift' InterfaceSelectorKind.ctorIdx
    (Function.LeftInverse.injective InterfaceSelectorKind.ofNat_ctorIdx)

instance : LinearOrder InterfaceSelector :=
  LinearOrder.lift' (fun s : InterfaceSelector => toLex (s.kind, s.name)) (by
    rintro ⟨k₁, n₁⟩ ⟨k₂, n₂⟩ h
    have h' : k₁ = k₂ ∧ n₁ = n₂ := by simpa using h
    simp [h'])

structure InterfaceExportKey where
  «namespace» : InterfaceExportNamespace
  name : Str
  deriving DecidableEq

instance : LinearOrder InterfaceExportKey :=
  LinearOrder.lift' (fun k : InterfaceExportKey => toLex (k.namespace, k.name)) (by
    rintro ⟨k₁, n₁⟩ ⟨k₂, n₂⟩ h
    have h' : k₁ = k₂ ∧ n₁ = n₂ := by simpa using h
    simp [h'])

structure InterfaceShapeKey where
  kind : InterfaceShapeKind
  name : Str
  deriving DecidableEq

instance : LinearOrder InterfaceShapeKey :=
  LinearOrder.lift' (fun k : InterfaceShapeKey => toLex (k.kind, k.name)) (by
    rintro ⟨k₁, n₁⟩ ⟨k₂, n₂⟩ h
    have h' : k₁ = k₂ ∧ n₁ = n₂ := by simpa using h
    simp [h'])

structure InterfaceEdgeKey where
  «from» : RepoPath
  «to» : RepoPath
  «namespace» : InterfaceNamespace
  deriving DecidableEq

instance : LinearOrder InterfaceEdgeKey :=
  LinearOrder.lift' (fun k : InterfaceEdgeKey => toLex (k.from, toLex (k.«to», k.namespace))) (by
    rintro ⟨f₁, t₁, n₁⟩ ⟨f₂, t₂, n₂⟩ h
    have h' : f₁ = f₂ ∧ t₁ = t₂ ∧ n₁ = n₂ := by simpa using h
    simp [h'])

/-! ## Projections -/

structure ResolutionCoverage where
  files : Nat := 0
  completeFiles : Nat := 0
  unsupportedFiles : Nat := 0
  parserFailedFiles : Nat := 0
  truncatedFiles : Nat := 0
  runtimeReferences : Nat := 0
  typeReferences : Nat := 0
  structuralReferences : Nat := 0
  resolvedReferences : Nat := 0
  nodeBuiltinReferences : Nat := 0
  externalReferences : Nat := 0
  ambiguousReferences : Nat := 0
  unresolvedReferences : Nat := 0
  unsupportedDynamicReferences : Nat := 0
  configurationErrors : Nat := 0
  edgesTruncated : Bool := false
  deriving DecidableEq

structure InterfaceCoverage where
  files : Nat := 0
  completeFiles : Nat := 0
  partialFiles : Nat := 0
  unsupportedFiles : Nat := 0
  parserFailedFiles : Nat := 0
  truncatedFiles : Nat := 0
  completePublicSurfaces : Nat := 0
  partialPublicSurfaces : Nat := 0
  unsupportedPublicSurfaces : Nat := 0
  truncatedPublicSurfaces : Nat := 0
  resolvedSelectors : Nat := 0
  selectorsTruncated : Bool := false
  gaps : InterfaceGapCounts := {}
  deriving DecidableEq

structure ModuleInterface where
  exports : BTreeSet InterfaceExportKey := ∅
  shapes : BTreeMap InterfaceShapeKey Nat := ∅
  shapeFingerprints : BTreeMap InterfaceShapeKey Str := ∅
  hasLocalExports : Bool := false
  hasReexports : Bool := false
  declarationFile : Bool := false
  publicSurfaceComplete : Bool := false
  deriving DecidableEq

def ModuleInterface.pureBarrel (module : ModuleInterface) : Bool :=
  module.hasReexports && !module.hasLocalExports

structure InterfaceEdge where
  selectors : BTreeSet InterfaceSelector := ∅
  unknownWidth : Bool := false
  deriving DecidableEq

structure Projection where
  nodes : BTreeSet RepoPath := ∅
  edges : BTreeSet DependencyEdge := ∅
  coverage : ResolutionCoverage := {}
  resolutionGaps : BTreeSet ResolutionGapEvidence := ∅
  resolutionGapsTruncated : Bool := false
  interfaces : BTreeMap RepoPath ModuleInterface := ∅
  interfaceEdges : BTreeMap InterfaceEdgeKey InterfaceEdge := ∅
  interfaceCoverage : InterfaceCoverage := {}
  deriving DecidableEq

def Projection.runtimeEdges (projection : Projection) : List DependencyEdge :=
  projection.edges.elems.filter fun edge => edge.kind = .runtime

def Projection.dependencyEdges (projection : Projection) : List DependencyEdge :=
  projection.edges.elems.filter fun edge => edge.kind ≠ .typeOnly

theorem Projection.mem_runtimeEdges {projection : Projection} {edge : DependencyEdge} :
    edge ∈ projection.runtimeEdges ↔ edge ∈ projection.edges ∧ edge.kind = .runtime := by
  simp [runtimeEdges, BTreeSet.mem_def]

/-! ## Findings -/

structure IntroducedCycle where
  memberCount : Nat
  members : List RepoPath
  membersTruncated : Bool
  trigger : DependencyEdge
  witness : List RepoPath
  witnessTruncated : Bool
  deriving DecidableEq

inductive DuplicateKind where
  | identicalFile
  | callableBody
  | tokenRegion
  deriving DecidableEq

structure DuplicateOccurrence where
  path : RepoPath
  range : Option SourceRange
  callableKind : Option CallableKind
  changed : Bool
  deriving DecidableEq

structure IntroducedDuplicate where
  classId : Str
  kind : DuplicateKind
  languageFamily : Option Str
  beforeCount : Nat
  afterCount : Nat
  introducedCount : Nat
  bytes : Option Nat
  tokenCount : Option Nat
  occurrences : List DuplicateOccurrence
  occurrencesTruncated : Bool
  deriving DecidableEq

/-- What duplicate analysis saw of one view. -/
structure FingerprintCoverage where
  files : Nat := 0
  completeFiles : Nat := 0
  unsupportedFiles : Nat := 0
  parserFailedFiles : Nat := 0
  truncatedFiles : Nat := 0
  callableOccurrences : Nat := 0
  regionAnchors : Nat := 0
  regionTokens : Nat := 0
  requestTruncated : Bool := false
  malformedEvidence : Bool := false
  deriving DecidableEq

structure DedupCoverage where
  before : FingerprintCoverage := {}
  after : FingerprintCoverage := {}
  deriving DecidableEq

/-! ## Issues -/

inductive DedupLimitStage where
  | callableFileExtraction
  | tokenRegionFileExtraction
  | callableRequestCollection
  | tokenRegionRequestCollection
  | exactTokenComparison
  deriving DecidableEq

inductive SenseView where
  | before
  | after
  deriving DecidableEq

instance : LinearOrder SenseView :=
  LinearOrder.lift' SenseView.ctorIdx
    (Function.LeftInverse.injective SenseView.ofNat_ctorIdx)

structure SenseIssue where
  code : Str
  message : Str
  stage : Option DedupLimitStage := none
  views : List SenseView := []
  limit : Option Nat := none
  processed : Option Nat := none
  processedIsLowerBound : Bool := false
  paths : List RepoPath := []
  pathsTruncated : Bool := false
  nextStep : Option Str := none
  deriving DecidableEq

end Opcore
