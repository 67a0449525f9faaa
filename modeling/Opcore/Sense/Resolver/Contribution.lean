/-
  Opcore.Sense.Resolver.Contribution

  What files contribute to a projection, as data.  Observing a file is
  absorbing its contribution (`observeFile_eq`), whatever was observed before
  and whether or not a bound is reached, and contributions concatenate; so the
  projection of a view is determined by the concatenation of the contributions
  of its files (`projectWithIndex_eq`).
-/
import Opcore.Library.Bounded
import Opcore.Sense.Resolver.Projection

namespace Opcore.Resolver

open Text Collections

/-! ## Counters -/

theorem addCoverage_assoc (a b c : ResolutionCoverage) :
    addCoverage (addCoverage a b) c = addCoverage a (addCoverage b c) := by
  simp [addCoverage, Nat.add_assoc, Bool.or_assoc]

theorem addCoverage_comm (a b : ResolutionCoverage) : addCoverage a b = addCoverage b a := by
  simp [addCoverage, Nat.add_comm, Bool.or_comm]

@[simp] theorem addCoverage_empty (a : ResolutionCoverage) : addCoverage a {} = a := by
  simp [addCoverage]

theorem addInterfaceCoverage_assoc (a b c : InterfaceCoverage) :
    addInterfaceCoverage (addInterfaceCoverage a b) c
      = addInterfaceCoverage a (addInterfaceCoverage b c) := by
  simp [addInterfaceCoverage, addInterfaceGaps, Nat.add_assoc, Bool.or_assoc]

theorem addInterfaceCoverage_comm (a b : InterfaceCoverage) :
    addInterfaceCoverage a b = addInterfaceCoverage b a := by
  simp [addInterfaceCoverage, addInterfaceGaps, Nat.add_comm, Bool.or_comm]

@[simp] theorem addInterfaceCoverage_empty (a : InterfaceCoverage) :
    addInterfaceCoverage a {} = a := by
  simp [addInterfaceCoverage, addInterfaceGaps]

/-! ## Contributions -/

/-- What is to be recorded, in order.  The selectors are those of all kinds. -/
@[ext]
structure Contribution where
  coverage : ResolutionCoverage := {}
  edges : List DependencyEdge := []
  gaps : List ResolutionGapEvidence := []
  modules : List (RepoPath × ModuleInterface) := []
  selectors : List (InterfaceEdgeKey × InterfaceSelector) := []
  interfaceCoverage : InterfaceCoverage := {}

namespace Contribution

def append (c d : Contribution) : Contribution where
  coverage := addCoverage c.coverage d.coverage
  edges := c.edges ++ d.edges
  gaps := c.gaps ++ d.gaps
  modules := c.modules ++ d.modules
  selectors := c.selectors ++ d.selectors
  interfaceCoverage := addInterfaceCoverage c.interfaceCoverage d.interfaceCoverage

instance : Append Contribution := ⟨append⟩

@[simp] theorem coverage_append (c d : Contribution) :
    (c ++ d).coverage = addCoverage c.coverage d.coverage := rfl

@[simp] theorem edges_append (c d : Contribution) : (c ++ d).edges = c.edges ++ d.edges := rfl

@[simp] theorem gaps_append (c d : Contribution) : (c ++ d).gaps = c.gaps ++ d.gaps := rfl

@[simp] theorem modules_append (c d : Contribution) : (c ++ d).modules = c.modules ++ d.modules :=
  rfl

@[simp] theorem selectors_append (c d : Contribution) :
    (c ++ d).selectors = c.selectors ++ d.selectors := rfl

@[simp] theorem interfaceCoverage_append (c d : Contribution) :
    (c ++ d).interfaceCoverage
      = addInterfaceCoverage c.interfaceCoverage d.interfaceCoverage := rfl

def concat (l : List Contribution) : Contribution := l.foldr (· ++ ·) {}

@[simp] theorem concat_nil : concat [] = {} := rfl

@[simp] theorem concat_cons (c : Contribution) (l : List Contribution) :
    concat (c :: l) = c ++ concat l := rfl

end Contribution

/-! ## Absorbing a contribution -/

/-- The part of a projection that recording a selector reads and writes. -/
structure SelectorState where
  edges : BTreeMap InterfaceEdgeKey InterfaceEdge
  resolved : Nat
  truncated : Bool

namespace SelectorState

/-- A named selector of an edge, as long as there is room for it. -/
def recordNamed (s : SelectorState) (key : InterfaceEdgeKey) (selector : InterfaceSelector) :
    SelectorState :=
  let edge := (s.edges.get? key).getD {}
  if selector ∈ edge.selectors then { s with edges := s.edges.insert key edge }
  else if maxInterfaceSelectors ≤ s.resolved then
    { s with edges := s.edges.insert key edge, truncated := true }
  else
    { s with
      edges := (s.edges.insert key edge).insert key
        { edge with selectors := edge.selectors.insert selector }
      resolved := s.resolved + 1 }

def record (s : SelectorState) (entry : InterfaceEdgeKey × InterfaceSelector) : SelectorState :=
  match entry.2.kind with
  | .named | .default => s.recordNamed entry.1 entry.2
  | .namespace =>
    { s with edges := s.edges.upsert entry.1 {} fun edge => { edge with unknownWidth := true } }
  | .sideEffect => s

end SelectorState

def selectorState (P : Projection) : SelectorState :=
  ⟨P.interfaceEdges, P.interfaceCoverage.resolvedSelectors, P.interfaceCoverage.selectorsTruncated⟩

/-- Add a module to those of its logical path. -/
def recordModule (interfaces : BTreeMap RepoPath ModuleInterface)
    (entry : RepoPath × ModuleInterface) : BTreeMap RepoPath ModuleInterface :=
  interfaces.insert entry.1
    (match interfaces.get? entry.1 with
      | some destination => mergeModuleInterface destination entry.2
      | none => entry.2)

/-- Record a contribution, each part under its own bound. -/
def absorb (P : Projection) (c : Contribution) : Projection :=
  let edges := c.edges.foldl (insertBounded maxGraphEdges) (P.edges, P.coverage.edgesTruncated)
  let gaps := c.gaps.foldl (keepSmallest maxObservationPaths)
    (P.resolutionGaps, P.resolutionGapsTruncated)
  let selectors := c.selectors.foldl SelectorState.record (selectorState P)
  { nodes := P.nodes
    edges := edges.1
    coverage := { addCoverage P.coverage c.coverage with edgesTruncated := edges.2 }
    resolutionGaps := gaps.1
    resolutionGapsTruncated := gaps.2
    interfaces := c.modules.foldl recordModule P.interfaces
    interfaceEdges := selectors.edges
    interfaceCoverage :=
      { addInterfaceCoverage P.interfaceCoverage c.interfaceCoverage with
        resolvedSelectors := selectors.resolved
        selectorsTruncated := selectors.truncated } }

variable (P : Projection)

theorem absorb_empty : absorb P {} = P := by
  simp [absorb, selectorState]

/-- Contributions are absorbed one after the other. -/
theorem absorb_append (c d : Contribution) :
    absorb P (c ++ d) = absorb (absorb P c) d := by
  simp [absorb, selectorState, addCoverage, addInterfaceCoverage, addInterfaceGaps,
    List.foldl_append, Nat.add_assoc]

theorem foldl_absorb {α : Type*} (f : α → Contribution) (P : Projection) (l : List α) :
    l.foldl (fun P a => absorb P (f a)) P = absorb P (.concat (l.map f)) := by
  induction l generalizing P with
  | nil => exact (absorb_empty P).symm
  | cons a l ih => rw [List.foldl_cons, ih, List.map_cons, Contribution.concat_cons, absorb_append]

/-! ## Observing is absorbing -/

theorem absorb_coverage {coverage : ResolutionCoverage} (h : coverage.edgesTruncated = false) :
    absorb P { coverage := coverage }
      = { P with coverage := addCoverage P.coverage coverage } := by
  simp [absorb, selectorState, addCoverage, h]

theorem recordEdge_eq (edge : DependencyEdge) :
    recordEdge P edge = absorb P { edges := [edge] } := by
  rw [recordEdge]
  split_ifs with h
  · simp [absorb, selectorState, insertBounded, h]
  · simp [absorb, selectorState, insertBounded, h]

theorem recordResolutionGap_eq (gap : ResolutionGapEvidence) :
    recordResolutionGap P gap = absorb P { gaps := [gap] } := by
  rw [recordResolutionGap]
  by_cases hmem : gap ∈ P.resolutionGaps
  · simp [absorb, selectorState, keepSmallest, hmem]
  · rw [if_neg hmem]
    dsimp only
    split_ifs with hover
    · simp [absorb, selectorState, keepSmallest, hmem, hover]
    · simp [absorb, selectorState, keepSmallest, hmem, hover]

theorem recordSelector_eq (key : InterfaceEdgeKey) (selector : InterfaceSelector) :
    recordSelector P key selector = absorb P { selectors := [(key, selector)] } := by
  rw [recordSelector]
  cases hkind : selector.kind with
  | «namespace» => simp [absorb, selectorState, SelectorState.record, hkind]
  | sideEffect => simp [absorb, selectorState, SelectorState.record, hkind]
  | named | default =>
    simp only [recordNamedSelector]
    split_ifs with hmem hfull
    · simp [absorb, selectorState, SelectorState.record, SelectorState.recordNamed, hkind, hmem]
    · simp [absorb, selectorState, SelectorState.record, SelectorState.recordNamed, hkind, hmem,
        hfull]
    · simp [absorb, selectorState, SelectorState.record, SelectorState.recordNamed, hkind, hmem,
        hfull]

/-- What resolving a reference to an import target counts. -/
def Resolution.coverage : Resolution → ResolutionCoverage
  | .resolved _ | .sameFile => { resolvedReferences := 1 }
  | .nodeBuiltin => { nodeBuiltinReferences := 1, externalReferences := 1 }
  | .external => { externalReferences := 1 }
  | .ambiguous => { ambiguousReferences := 1 }
  | .unresolved => { unresolvedReferences := 1 }

def Resolution.gapKind : Resolution → Option ResolutionGapKind
  | .resolved _ | .sameFile => none
  | .nodeBuiltin => some .nodeBuiltin
  | .external => some .external
  | .ambiguous => some .ambiguous
  | .unresolved => some .unresolved

def Resolution.target? : Resolution → Option RepoPath
  | .resolved target => some target
  | _ => none

/-- The contribution of a reference that is an edge of its kind once resolved. -/
def resolutionContribution (record : ResolutionRecord) : Contribution where
  coverage := record.resolution.coverage
  edges := record.resolution.target?.toList.map fun target => ⟨record.from, target, record.kind⟩
  gaps := record.resolution.gapKind.toList.map fun kind =>
    ⟨record.from, record.reference.specifier, kind⟩
  selectors := record.resolution.target?.toList.flatMap fun target =>
    record.interfaces.toList.flatMap fun interfaces =>
      (referencedImports record.reference interfaces).map fun fact =>
        (⟨record.from, target, fact.namespace⟩, fact.selector)

theorem recordInterfaceEdge_eq («from» target : RepoPath)
    (reference : DependencyReference) (facts : InterfaceFacts) :
    recordInterfaceEdge P «from» target reference facts
      = absorb P
        { selectors := (referencedImports reference facts).map fun fact =>
            (⟨«from», target, fact.namespace⟩, fact.selector) } := by
  rw [recordInterfaceEdge]
  induction referencedImports reference facts generalizing P with
  | nil => exact (absorb_empty P).symm
  | cons fact facts ih =>
    rw [List.foldl_cons, ih, recordSelector_eq, ← absorb_append]
    rfl

theorem recordResolution_eq (record : ResolutionRecord) :
    recordResolution P record = absorb P (resolutionContribution record) := by
  obtain ⟨«from», kind, reference, interfaces, resolution⟩ := record
  have hcount : { P with coverage := countResolved P.coverage }
      = absorb P { coverage := { resolvedReferences := 1 } } := by
    simp [absorb_coverage, countResolved, addCoverage]
  cases resolution with
  | sameFile => exact hcount
  | resolved target =>
    cases interfaces with
    | none =>
      simp only [recordResolution]
      rw [hcount, recordEdge_eq, ← absorb_append]
      rfl
    | some interfaces =>
      simp only [recordResolution]
      rw [hcount, recordEdge_eq, recordInterfaceEdge_eq, ← absorb_append, ← absorb_append]
      congr 1
      simp [Contribution.ext_iff, resolutionContribution, Resolution.target?,
        Resolution.gapKind, Resolution.coverage]
  | nodeBuiltin | external | ambiguous | unresolved =>
    simp only [recordResolution, recordReferenceGap]
    rw [recordResolutionGap_eq]
    simp [absorb, selectorState, addCoverage, resolutionContribution, Resolution.coverage,
      Resolution.gapKind, Resolution.target?]

def ReferenceClass.coverage : ReferenceClass → ResolutionCoverage
  | .edge .runtime => { runtimeReferences := 1 }
  | .edge .typeOnly => { typeReferences := 1 }
  | .edge .structural => { structuralReferences := 1 }
  | .unsupported => { unsupportedDynamicReferences := 1 }
  | .unresolved => { unresolvedReferences := 1 }

/-- What one reference adds to a view. -/
def referenceContribution (index : ResolutionIndex) (file : SourceFile)
    (interfaces : Option InterfaceFacts) (reference : DependencyReference) : Contribution :=
  let cls := referenceClass reference.kind
  { coverage := cls.coverage } ++
    match cls with
    | .edge kind =>
      resolutionContribution
        { «from» := index.go.logicalPath file
          kind := kind
          reference := reference
          interfaces := interfaces
          resolution := resolveEdgeReference index file reference }
    | .unsupported => { gaps := [⟨file.path, reference.specifier, .unsupportedDynamic⟩] }
    | .unresolved => { gaps := [⟨file.path, reference.specifier, .unresolved⟩] }

theorem resolveReference_eq (index : ResolutionIndex) (file : SourceFile)
    (interfaces : Option InterfaceFacts) (P : Projection) (reference : DependencyReference) :
    resolveReference index file interfaces P reference
      = absorb P (referenceContribution index file interfaces reference) := by
  -- The class is counted first, in every case.
  have hclass (cls : ReferenceClass) :
      { P with coverage := (observeReferenceClass P.coverage cls).1 }
        = absorb P { coverage := cls.coverage } := by
    rw [absorb_coverage P (by cases cls with | edge kind => cases kind <;> rfl | _ => rfl)]
    cases cls with
    | edge kind => cases kind <;> simp [observeReferenceClass, ReferenceClass.coverage, addCoverage]
    | unsupported | unresolved =>
      simp [observeReferenceClass, ReferenceClass.coverage, addCoverage]
  simp only [resolveReference, referenceContribution]
  rw [absorb_append, ← hclass]
  cases referenceClass reference.kind with
  | edge kind =>
    cases kind <;> exact recordResolution_eq _ _
  | unsupported | unresolved => exact recordResolutionGap_eq _ _

/-! ## Files and views -/

theorem observeInterfaceCoverage_eq (coverage : InterfaceCoverage) (facts : InterfaceFacts) :
    observeInterfaceCoverage coverage facts
      = { addInterfaceCoverage coverage (observeInterfaceCoverage {} facts) with
          resolvedSelectors := coverage.resolvedSelectors
          selectorsTruncated := coverage.selectorsTruncated } := by
  simp only [observeInterfaceCoverage]
  cases facts.status <;> cases facts.publicSurfaceStatus <;>
    simp [updateExtractionCoverage, updateSurfaceCoverage, addInterfaceCoverage, addInterfaceGaps]

section

variable [Sha256]

/-- The interfaces of a file are projected where its logical path changed. -/
def fileContribution (context : ResolutionContext) (file : SourceFile) : Contribution :=
  match context.fileFacts.get? (factKey file context.parserOptions) with
  | none => { coverage := { parserFailedFiles := 1 } }
  | some facts =>
    let logicalPath := context.index.go.logicalPath file
    let interfaces := if logicalPath ∈ context.interfacePaths then some facts.interfaces else none
    { coverage := observeExtractionStatus {} facts
      modules := interfaces.toList.map fun interfaces =>
        (logicalPath, moduleInterface file interfaces)
      interfaceCoverage := (interfaces.map (observeInterfaceCoverage {})).getD {} }
    ++ .concat (facts.dependencies.references.map
      (referenceContribution context.index file interfaces))

theorem observeFile_eq (context : ResolutionContext) (P : Projection) (file : SourceFile) :
    observeFile context P file = absorb P (fileContribution context file) := by
  rw [observeFile, fileContribution]
  cases context.fileFacts.get? (factKey file context.parserOptions) with
  | none => simp [absorb_coverage, addCoverage]
  | some facts =>
    have hreferences (interfaces : Option InterfaceFacts) :
        resolveReference context.index file interfaces
          = fun P reference =>
            absorb P (referenceContribution context.index file interfaces reference) :=
      funext₂ (resolveReference_eq context.index file interfaces)
    have hstatus : observeExtractionStatus P.coverage facts
        = addCoverage P.coverage (observeExtractionStatus {} facts) := by
      rw [observeExtractionStatus, observeExtractionStatus]
      cases facts.dependencies.status <;> simp [addCoverage]
    have hflag : (observeExtractionStatus {} facts).edgesTruncated = false := by
      rw [observeExtractionStatus]
      cases facts.dependencies.status <;> rfl
    simp only [decide_eq_true_eq]
    rw [hreferences, foldl_absorb, absorb_append]
    congr 1
    split_ifs with h
    · have hinterface := observeInterfaceCoverage_eq P.interfaceCoverage facts.interfaces
      -- the module may be there already, from another file of its path
      cases hmodule : P.interfaces.get? (context.index.go.logicalPath file) with
      | none =>
        simp [absorb, selectorState, observeInterfaceFacts, recordModule, hstatus, addCoverage,
          hflag, hinterface, hmodule]
      | some destination =>
        simp [absorb, selectorState, observeInterfaceFacts, recordModule, hstatus, addCoverage,
          hflag, hinterface, hmodule]
    · simp [absorb, selectorState, hstatus, addCoverage, hflag]

/-- The contributions of files, one after the other. -/
def viewContribution (context : ResolutionContext) (files : List SourceFile) : Contribution :=
  .concat (files.map (fileContribution context))

/-- The projection of a view before its first file. -/
def startProjection (nodes : BTreeSet RepoPath) (files configurationErrors : Nat) : Projection :=
  { nodes := nodes, coverage := { files := files, configurationErrors := configurationErrors } }

theorem projectWithIndex_eq (snapshot : SourceSnapshot) (context : ResolutionContext) :
    projectWithIndex snapshot context
      = absorb
        (startProjection context.index.languages.keySet snapshot.len
          context.index.go.configurationErrors)
        (viewContribution context snapshot.fileList) := by
  rw [projectWithIndex, show observeFile context = fun P file => absorb P
    (fileContribution context file) from funext₂ (observeFile_eq context)]
  exact foldl_absorb _ _ _

theorem projectFile_eq (file : SourceFile) (context : ResolutionContext) :
    projectFile file context
      = absorb (startProjection ((∅ : BTreeSet RepoPath).insert file.path) 1 0)
        (fileContribution context file) :=
  observeFile_eq _ _ _

end

end Opcore.Resolver
