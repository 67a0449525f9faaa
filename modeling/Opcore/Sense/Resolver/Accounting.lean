/-
  Opcore.Sense.Resolver.Accounting

  The books of a projection.  Every reference whose facts were found is counted
  once by what becomes of it, and leads to an edge, a gap or neither
  (`resolvedEdge?`, `gap?`); every file is counted once by how its facts were
  extracted.  The entries of two lists of references add up (`Accounts.append`),
  so the counters of a view balance (`project_balanced`), and what its bounded
  collections hold is known from the references alone.
-/
import Opcore.Sense.Resolver.Targets
import Opcore.Sense.Resolver.Contribution

namespace Opcore.Resolver

open Text Collections

/-! ## What becomes of a reference -/

/-- The edge a reference is resolved to. -/
def resolvedEdge? (index : ResolutionIndex) (entry : SourceFile × DependencyReference) :
    Option DependencyEdge :=
  match referenceClass entry.2.kind with
  | .edge kind =>
    (resolveEdgeReference index entry.1 entry.2).target?.map fun target =>
      ⟨index.go.logicalPath entry.1, target, kind⟩
  | .unsupported | .unresolved => none

/-- The gap a reference leaves. -/
def gap? (index : ResolutionIndex) (entry : SourceFile × DependencyReference) :
    Option ResolutionGapEvidence :=
  match referenceClass entry.2.kind with
  | .edge _ =>
    (resolveEdgeReference index entry.1 entry.2).gapKind.map fun kind =>
      ⟨index.go.logicalPath entry.1, entry.2.specifier, kind⟩
  | .unsupported => some ⟨entry.1.path, entry.2.specifier, .unsupportedDynamic⟩
  | .unresolved => some ⟨entry.1.path, entry.2.specifier, .unresolved⟩

/-- A reference that is unresolved for its kind, without an attempt to resolve it. -/
def unresolvedKind (entry : SourceFile × DependencyReference) : Bool :=
  referenceClass entry.2.kind = .unresolved

section

variable [Sha256]

/-- The references of the facts that are found for a file. -/
def fileReferences (context : ResolutionContext) (file : SourceFile) :
    List (SourceFile × DependencyReference) :=
  match context.fileFacts.get? (factKey file context.parserOptions) with
  | none => []
  | some facts => facts.dependencies.references.map fun reference => (file, reference)

def viewReferences (context : ResolutionContext) (files : List SourceFile) :
    List (SourceFile × DependencyReference) :=
  files.flatMap (fileReferences context)

/-! ## Balanced projections -/

/-- The projection of a view accounts for its files and for its references. -/
structure Balanced (snapshot : SourceSnapshot) (context : ResolutionContext) (P : Projection) :
    Prop where
  nodes : ∀ path, path ∈ P.nodes ↔ path ∈ snapshot.paths
  endpoints : ∀ edge ∈ P.edges, edge.from ∈ P.nodes ∧ edge.to ∈ P.nodes
  files : P.coverage.files = snapshot.len
  statuses : P.coverage.completeFiles + P.coverage.unsupportedFiles + P.coverage.parserFailedFiles
    + P.coverage.truncatedFiles = P.coverage.files
  /-- Unresolved references are counted by kind or after an attempt; only the latter are of
      one of the three kinds of edges. -/
  kinds : P.coverage.runtimeReferences + P.coverage.typeReferences
      + P.coverage.structuralReferences
      + (viewReferences context snapshot.fileList).countP unresolvedKind
    = P.coverage.resolvedReferences + P.coverage.externalReferences
      + P.coverage.ambiguousReferences + P.coverage.unresolvedReferences
  outcomes : P.coverage.resolvedReferences + P.coverage.externalReferences
      + P.coverage.ambiguousReferences + P.coverage.unresolvedReferences
      + P.coverage.unsupportedDynamicReferences
    = (viewReferences context snapshot.fileList).length
  builtins : P.coverage.nodeBuiltinReferences ≤ P.coverage.externalReferences
  gaps : P.resolutionGaps = (BTreeSet.ofList
      ((viewReferences context snapshot.fileList).filterMap (gap? context.index))).initial
        maxObservationPaths
  gapsTruncated : P.resolutionGapsTruncated = true ↔ maxObservationPaths < (BTreeSet.ofList
      ((viewReferences context snapshot.fileList).filterMap (gap? context.index))).size
  edges : ∀ edge ∈ P.edges,
    edge ∈ (viewReferences context snapshot.fileList).filterMap (resolvedEdge? context.index)
  edgesTruncated : P.coverage.edgesTruncated = true ↔
    ∃ edge ∈ (viewReferences context snapshot.fileList).filterMap (resolvedEdge? context.index),
      edge ∉ P.edges

end

/-! ## Contributions -/

/-- A contribution that accounts for a number of files and for references. -/
structure Accounts (index : ResolutionIndex) (c : Contribution) (files : Nat)
    (references : List (SourceFile × DependencyReference)) : Prop where
  uncounted : c.coverage.files = 0
  statuses : c.coverage.completeFiles + c.coverage.unsupportedFiles + c.coverage.parserFailedFiles
    + c.coverage.truncatedFiles = files
  kinds : c.coverage.runtimeReferences + c.coverage.typeReferences
      + c.coverage.structuralReferences + references.countP unresolvedKind
    = c.coverage.resolvedReferences + c.coverage.externalReferences
      + c.coverage.ambiguousReferences + c.coverage.unresolvedReferences
  outcomes : c.coverage.resolvedReferences + c.coverage.externalReferences
      + c.coverage.ambiguousReferences + c.coverage.unresolvedReferences
      + c.coverage.unsupportedDynamicReferences = references.length
  builtins : c.coverage.nodeBuiltinReferences ≤ c.coverage.externalReferences
  edges : c.edges = references.filterMap (resolvedEdge? index)
  gaps : c.gaps = references.filterMap (gap? index)

namespace Accounts

variable {index : ResolutionIndex} {c d : Contribution} {files files' : Nat}
  {references references' : List (SourceFile × DependencyReference)}

theorem empty (index : ResolutionIndex) : Accounts index {} 0 [] := by
  constructor <;> rfl

theorem append (hc : Accounts index c files references)
    (hd : Accounts index d files' references') :
    Accounts index (c ++ d) (files + files') (references ++ references') where
  uncounted := by
    simp only [Contribution.coverage_append, addCoverage, hc.uncounted, hd.uncounted]
  statuses := by
    have hc := hc.statuses
    have hd := hd.statuses
    simp only [Contribution.coverage_append, addCoverage]
    omega
  kinds := by
    have hc := hc.kinds
    have hd := hd.kinds
    simp only [Contribution.coverage_append, addCoverage, List.countP_append]
    omega
  outcomes := by
    have hc := hc.outcomes
    have hd := hd.outcomes
    simp only [Contribution.coverage_append, addCoverage, List.length_append]
    omega
  builtins := by
    have hc := hc.builtins
    have hd := hd.builtins
    simp only [Contribution.coverage_append, addCoverage]
    omega
  edges := by
    rw [Contribution.edges_append, hc.edges, hd.edges, List.filterMap_append]
  gaps := by
    rw [Contribution.gaps_append, hc.gaps, hd.gaps, List.filterMap_append]

/-- What items account for one by one, they account for together. -/
theorem concat {α : Type*} {f : α → Contribution} {files : Nat}
    {references : α → List (SourceFile × DependencyReference)} {l : List α}
    (h : ∀ a ∈ l, Accounts index (f a) files (references a)) :
    Accounts index (.concat (l.map f)) (files * l.length) (l.flatMap references) := by
  induction l with
  | nil => exact empty index
  | cons a l ih =>
    have hrest := ih fun a ha => h a (List.mem_cons_of_mem _ ha)
    have hboth := (h a (List.mem_cons_self ..)).append hrest
    rw [List.map_cons, Contribution.concat_cons, List.flatMap_cons, List.length_cons,
      Nat.mul_succ, Nat.add_comm]
    exact hboth

/-- A reference is counted by its kind and by what becomes of it. -/
theorem referenceContribution (index : ResolutionIndex) (file : SourceFile)
    (interfaces : Option InterfaceFacts) (reference : DependencyReference) :
    Accounts index (referenceContribution index file interfaces reference) 0 [(file, reference)] := by
  rw [Resolver.referenceContribution]
  cases hclass : referenceClass reference.kind with
  | unsupported | unresolved =>
    constructor <;> simp [ReferenceClass.coverage, addCoverage, resolvedEdge?, gap?,
      unresolvedKind, hclass]
  | edge kind =>
    have hresolution : ∀ resolution, resolveEdgeReference index file reference = resolution →
        Accounts index
          ({ coverage := (ReferenceClass.edge kind).coverage } ++ resolutionContribution
            { «from» := index.go.logicalPath file, kind := kind, reference := reference,
              interfaces := interfaces, resolution := resolution }) 0 [(file, reference)] := by
      intro resolution hresolution
      cases kind <;> cases resolution <;> constructor <;>
        simp [ReferenceClass.coverage, addCoverage, resolutionContribution, Resolution.coverage,
          Resolution.target?, Resolution.gapKind, resolvedEdge?, gap?, unresolvedKind, hclass,
          hresolution]
    exact hresolution _ rfl

end Accounts

/-! ## Views -/

/-- An edge joins files of the view, when the index knows these files. -/
theorem mem_of_resolvedEdge? {files : List SourceFile} {index : ResolutionIndex}
    (h : index.Describes files) {file : SourceFile} (hfile : ∃ f ∈ files, f.path = file.path)
    {reference : DependencyReference} {edge : DependencyEdge}
    (hedge : resolvedEdge? index (file, reference) = some edge) :
    (∃ f ∈ files, f.path = edge.from) ∧ ∃ f ∈ files, f.path = edge.to := by
  rw [resolvedEdge?] at hedge
  split at hedge
  · obtain ⟨target, htarget, rfl⟩ := Option.map_eq_some_iff.mp hedge
    cases hresolution : resolveEdgeReference index file reference with
    | resolved path =>
      simp only [hresolution, Resolution.target?, Option.some.injEq] at htarget
      subst htarget
      obtain ⟨f, hf, hpath⟩ := hfile
      obtain ⟨f', hf', hlogical⟩ := h.mem_of_logicalPath hf
      refine ⟨⟨f', hf', ?_⟩, h.mem_of_resolveEdgeReference hresolution⟩
      rw [hlogical, Go.Index.logicalPath, Go.Index.logicalPath, hpath]
    | sameFile | nodeBuiltin | external | ambiguous | unresolved =>
      simp [hresolution, Resolution.target?] at htarget
  · cases hedge
  · cases hedge

section

variable [Sha256]

theorem mem_of_mem_viewReferences {context : ResolutionContext} {files : List SourceFile}
    {entry : SourceFile × DependencyReference} (h : entry ∈ viewReferences context files) :
    entry.1 ∈ files := by
  obtain ⟨file, hfile, hentry⟩ := List.mem_flatMap.mp h
  rw [fileReferences] at hentry
  split at hentry
  · cases hentry
  · obtain ⟨reference, -, rfl⟩ := List.mem_map.mp hentry
    exact hfile

theorem accounts_fileContribution (context : ResolutionContext) (file : SourceFile) :
    Accounts context.index (fileContribution context file) 1 (fileReferences context file) := by
  rw [fileContribution, fileReferences]
  cases context.fileFacts.get? (factKey file context.parserOptions) with
  | none => constructor <;> rfl
  | some facts =>
    dsimp only
    generalize (if context.index.go.logicalPath file ∈ context.interfacePaths then
      some facts.interfaces else none) = interfaces
    have hstatus : Accounts context.index
        { coverage := observeExtractionStatus {} facts
          modules := interfaces.toList.map fun interfaces =>
            (context.index.go.logicalPath file, moduleInterface file interfaces)
          interfaceCoverage := (interfaces.map (observeInterfaceCoverage {})).getD {} } 1 [] := by
      rw [observeExtractionStatus]
      cases facts.dependencies.status <;> constructor <;> rfl
    have hreferences := @Accounts.concat context.index _ _ _ _ _ fun reference
      (_ : reference ∈ facts.dependencies.references) =>
        Accounts.referenceContribution context.index file interfaces reference
    rw [← List.map_eq_flatMap, Nat.zero_mul] at hreferences
    exact hstatus.append hreferences

theorem accounts_viewContribution (context : ResolutionContext) (files : List SourceFile) :
    Accounts context.index (viewContribution context files) files.length
      (viewReferences context files) := by
  have hfiles := Accounts.concat fun file (_ : file ∈ files) =>
    accounts_fileContribution context file
  rwa [Nat.one_mul] at hfiles

/-- Every edge is the one of some reference. -/
theorem exists_reference_of_mem_edges {snapshot : SourceSnapshot} {context : ResolutionContext}
    {edge : DependencyEdge} (h : edge ∈ (projectWithIndex snapshot context).edges) :
    edge ∈ (viewReferences context snapshot.fileList).filterMap (resolvedEdge? context.index) := by
  rw [projectWithIndex_eq] at h
  rw [← (accounts_viewContribution context snapshot.fileList).edges]
  exact (mem_of_mem_foldl_insertBounded h).resolve_right BTreeSet.not_mem_empty

/-- The projection of a view is balanced.  The index is the one of the view itself or, as in
    `projectChanged`, of a view with the same paths. -/
theorem project_balanced (snapshot indexed : SourceSnapshot) (fileFacts : FactMap) (parserOptions : Str)
    (goModules : BTreeMap RepoPath Str) (interfacePaths : BTreeSet RepoPath)
    (hpaths : indexed.paths = snapshot.paths) :
    let index := ResolutionIndex.new indexed fileFacts parserOptions goModules
    let context : ResolutionContext := ⟨fileFacts, parserOptions, index, interfacePaths⟩
    Balanced snapshot context (projectWithIndex snapshot context) := by
  intro index context
  have hindex : index.Describes indexed.fileList :=
    ResolutionIndex.describes_new indexed fileFacts parserOptions goModules
  have hbooks := accounts_viewContribution context snapshot.fileList
  have hnode : ∀ path, path ∈ index.languages.keySet ↔ ∃ file ∈ indexed.fileList, file.path = path :=
    fun path => by
      rw [BTreeMap.mem_keySet_iff, ← Option.isSome_iff_exists, hindex.languages]
  have hpath : ∀ path, (∃ file ∈ indexed.fileList, file.path = path) ↔ path ∈ snapshot.paths :=
    fun path => by
      rw [← hpaths, ← indexed.map_path_fileList, List.mem_map]
  have hedges := fun edge => @exists_reference_of_mem_edges _ snapshot context edge
  rw [projectWithIndex_eq] at hedges ⊢
  have hedge : ∀ edge ∈ (viewReferences context snapshot.fileList).filterMap (resolvedEdge? index),
      edge.from ∈ index.languages.keySet ∧ edge.to ∈ index.languages.keySet := by
    intro edge hedge
    obtain ⟨⟨file, reference⟩, hentry, hsome⟩ := List.mem_filterMap.mp hedge
    have hfile : ∃ f ∈ indexed.fileList, f.path = file.path := by
      rw [hpath, ← snapshot.map_path_fileList]
      exact List.mem_map_of_mem (mem_of_mem_viewReferences hentry)
    rw [hnode, hnode]
    exact mem_of_resolvedEdge? hindex hfile hsome
  have hgaps : ((viewContribution context snapshot.fileList).gaps.foldl
        (keepSmallest maxObservationPaths) (∅, false))
      = ((BTreeSet.ofList ((viewReferences context snapshot.fileList).filterMap
          (gap? index))).initial maxObservationPaths,
        decide (maxObservationPaths < (BTreeSet.ofList
          ((viewReferences context snapshot.fileList).filterMap (gap? index))).size) || false) := by
    rw [hbooks.gaps]
    exact foldl_keepSmallest maxObservationPaths ∅ false _
  constructor
  · intro path
    rw [← hpath, ← hnode]
    rfl
  · exact fun edge hmem => hedge edge (hedges edge hmem)
  · simp [absorb, startProjection, addCoverage, hbooks.uncounted]
  · have hstatuses := hbooks.statuses
    rw [snapshot.length_fileList] at hstatuses
    simpa [absorb, startProjection, addCoverage, hbooks.uncounted] using hstatuses
  · simpa [absorb, startProjection, addCoverage] using hbooks.kinds
  · simpa [absorb, startProjection, addCoverage] using hbooks.outcomes
  · simpa [absorb, startProjection, addCoverage] using hbooks.builtins
  · exact congrArg Prod.fst hgaps
  · have hflag := congrArg Prod.snd hgaps
    rw [Bool.or_false] at hflag
    exact (Bool.eq_iff_iff.mp hflag).trans decide_eq_true_iff
  · exact hedges
  · rw [← hbooks.edges]
    exact foldl_insertBounded_marked_iff

end

/-! ## A view of two files -/

namespace Sample

def importer : SourceFile :=
  ⟨samplePath "a.ts", ascii "import './b';import 'node:fs';import 'left-pad'", .typeScript,
    ascii "typescript"⟩

def imported : SourceFile := ⟨samplePath "b.ts", [], .typeScript, ascii "typescript"⟩

def view : SourceSnapshot := .new [importer, imported]

def importerFacts : FileFacts where
  dependencies :=
    { status := .complete
      references := [⟨.nodeRuntime, ascii "./b", 0⟩, ⟨.nodeRuntime, ascii "node:fs", 0⟩,
        ⟨.nodeRuntime, ascii "left-pad", 0⟩] }

def fileFacts : FactMap :=
  (∅ : FactMap).insert (@factKey identityDigest importer []) importerFacts

def context : ResolutionContext :=
  ⟨fileFacts, [], @ResolutionIndex.new identityDigest view fileFacts [] ∅, ∅⟩

end Sample

/-- Three references: one resolved, two external, of which one is a built-in; one file has no
    facts. -/
theorem project_balanced_sample :
    @Balanced identityDigest Sample.view Sample.context
        (@projectWithIndex identityDigest Sample.view Sample.context)
      ∧ (@projectWithIndex identityDigest Sample.view Sample.context).coverage
        = { files := 2, completeFiles := 1, parserFailedFiles := 1, runtimeReferences := 3,
            resolvedReferences := 1, nodeBuiltinReferences := 1, externalReferences := 2 } :=
  ⟨@project_balanced identityDigest Sample.view Sample.view Sample.fileFacts [] ∅ ∅ rfl,
    by decide +kernel⟩

end Opcore.Resolver
