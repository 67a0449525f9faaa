/-
  Opcore.Sense.Resolver.Projection

  The projection of a view: every file's facts resolved against the index of
  the view.  `projectPair` projects two views and, where the universe of import
  targets did not change, edits the first projection instead of computing the
  second one.
-/
import Opcore.Sense.Resolver.Index

namespace Opcore.Resolver

open Text Collections

/-! ## Classes of references -/

inductive ReferenceClass where
  | edge (kind : EdgeKind)
  | unsupported
  | unresolved
  deriving DecidableEq

def ReferenceClass.gapKind : ReferenceClass → Option ResolutionGapKind
  | .edge _ => none
  | .unsupported => some .unsupportedDynamic
  | .unresolved => some .unresolved

/-- The edges a kind of reference makes, or the gap it leaves. -/
def referenceClass : DependencyReferenceKind → ReferenceClass
  | .nodeRuntime | .pythonRelative | .pythonAbsolute | .goImport => .edge .runtime
  | .nodeType => .edge .typeOnly
  | .rustModule | .rustUse => .edge .structural
  | .nodeUnsupportedDynamic | .rustUnsupported | .goUnsupportedImport
  | .goUnsupportedConditional => .unsupported
  | .pythonUnsupportedRelative => .unresolved

/-! ## Gaps -/

def recordResolutionGap (projection : Projection) (gap : ResolutionGapEvidence) : Projection :=
  if gap ∈ projection.resolutionGaps then projection
  else
    let gaps := projection.resolutionGaps.insert gap
    if maxObservationPaths < gaps.size then
      { projection with resolutionGaps := gaps.popLast, resolutionGapsTruncated := true }
    else { projection with resolutionGaps := gaps }

def recordReferenceGap (projection : Projection) (path : RepoPath)
    (reference : DependencyReference) (kind : ResolutionGapKind) : Projection :=
  recordResolutionGap projection ⟨path, reference.specifier, kind⟩

/-! ## Edges and selectors -/

/-- An edge is added as long as there is room for it. -/
def recordEdge (projection : Projection) (edge : DependencyEdge) : Projection :=
  if edge ∉ projection.edges ∧ maxGraphEdges ≤ projection.edges.size then
    { projection with coverage := { projection.coverage with edgesTruncated := true } }
  else { projection with edges := projection.edges.insert edge }

/-- Add a selector to the edge under a key, which exists from then on. -/
def recordNamedSelector (projection : Projection) (key : InterfaceEdgeKey)
    (selector : InterfaceSelector) : Projection :=
  let edge := (projection.interfaceEdges.get? key).getD {}
  let projection := { projection with interfaceEdges := projection.interfaceEdges.insert key edge }
  if selector ∈ edge.selectors then projection
  else if maxInterfaceSelectors ≤ projection.interfaceCoverage.resolvedSelectors then
    { projection with
      interfaceCoverage := { projection.interfaceCoverage with selectorsTruncated := true } }
  else
    { projection with
      interfaceEdges := projection.interfaceEdges.insert key
        { edge with selectors := edge.selectors.insert selector }
      interfaceCoverage :=
        { projection.interfaceCoverage with
          resolvedSelectors := projection.interfaceCoverage.resolvedSelectors + 1 } }

/-- A name is counted under its edge; a whole namespace leaves the width unknown. -/
def recordSelector (projection : Projection) (key : InterfaceEdgeKey)
    (selector : InterfaceSelector) : Projection :=
  match selector.kind with
  | .named | .default => recordNamedSelector projection key selector
  | .namespace =>
    { projection with
      interfaceEdges := projection.interfaceEdges.upsert key {} fun edge =>
        { edge with unknownWidth := true } }
  | .sideEffect => projection

/-- The imports of a file that a reference stands for.  A Python or Rust
    reference stands for runtime imports only. -/
def referencedImports (reference : DependencyReference) (facts : InterfaceFacts) :
    List InterfaceImportFact :=
  let anyNamespace : Option Bool :=
    match reference.kind with
    | .nodeType | .nodeRuntime | .goImport => some true
    | .pythonRelative | .pythonAbsolute | .rustModule | .rustUse => some false
    | _ => none
  match anyNamespace with
  | none => []
  | some anyNamespace =>
    facts.imports.filter fun fact =>
      fact.specifier = reference.specifier ∧ fact.level = reference.level
        ∧ (anyNamespace ∨ fact.namespace = .runtime)

/-- The selectors of the imports that a reference stands for. -/
def recordInterfaceEdge (projection : Projection) («from» target : RepoPath)
    (reference : DependencyReference) (facts : InterfaceFacts) : Projection :=
  (referencedImports reference facts).foldl
    (fun projection fact => recordSelector projection ⟨«from», target, fact.namespace⟩ fact.selector)
    projection

/-! ## References -/

def observeReferenceClass (coverage : ResolutionCoverage) :
    ReferenceClass → ResolutionCoverage × Option EdgeKind
  | .edge .runtime =>
    ({ coverage with runtimeReferences := coverage.runtimeReferences + 1 }, some .runtime)
  | .edge .typeOnly =>
    ({ coverage with typeReferences := coverage.typeReferences + 1 }, some .typeOnly)
  | .edge .structural =>
    ({ coverage with structuralReferences := coverage.structuralReferences + 1 },
      some .structural)
  | .unsupported =>
    ({ coverage with
        unsupportedDynamicReferences := coverage.unsupportedDynamicReferences + 1 }, none)
  | .unresolved =>
    ({ coverage with unresolvedReferences := coverage.unresolvedReferences + 1 }, none)

structure ResolutionRecord where
  «from» : RepoPath
  kind : EdgeKind
  reference : DependencyReference
  interfaces : Option InterfaceFacts
  resolution : Resolution

def countResolved (coverage : ResolutionCoverage) : ResolutionCoverage :=
  { coverage with resolvedReferences := coverage.resolvedReferences + 1 }

/-- What becomes of a resolved reference: an edge, a count, or a gap. -/
def recordResolution (projection : Projection) (record : ResolutionRecord) : Projection :=
  let coverage := projection.coverage
  match record.resolution with
  | .resolved target =>
    let projection := recordEdge { projection with coverage := countResolved coverage }
      ⟨record.from, target, record.kind⟩
    match record.interfaces with
    | some interfaces =>
      recordInterfaceEdge projection record.from target record.reference interfaces
    | none => projection
  | .sameFile => { projection with coverage := countResolved coverage }
  | .nodeBuiltin =>
    recordReferenceGap
      { projection with
        coverage :=
          { coverage with
            nodeBuiltinReferences := coverage.nodeBuiltinReferences + 1
            externalReferences := coverage.externalReferences + 1 } }
      record.from record.reference .nodeBuiltin
  | .external =>
    recordReferenceGap
      { projection with
        coverage := { coverage with externalReferences := coverage.externalReferences + 1 } }
      record.from record.reference .external
  | .ambiguous =>
    recordReferenceGap
      { projection with
        coverage := { coverage with ambiguousReferences := coverage.ambiguousReferences + 1 } }
      record.from record.reference .ambiguous
  | .unresolved =>
    recordReferenceGap
      { projection with
        coverage := { coverage with unresolvedReferences := coverage.unresolvedReferences + 1 } }
      record.from record.reference .unresolved

/-- Count a reference by its class, and resolve it where it makes an edge. -/
def resolveReference (index : ResolutionIndex) (file : SourceFile)
    (interfaces : Option InterfaceFacts) (projection : Projection)
    (reference : DependencyReference) : Projection :=
  let cls := referenceClass reference.kind
  let (coverage, kind) := observeReferenceClass projection.coverage cls
  let projection := { projection with coverage := coverage }
  match kind with
  | some kind =>
    recordResolution projection
      { «from» := index.go.logicalPath file
        kind := kind
        reference := reference
        interfaces := interfaces
        resolution := resolveEdgeReference index file reference }
  | none =>
    match cls.gapKind with
    | some gapKind => recordReferenceGap projection file.path reference gapKind
    | none => projection

/-! ## Interfaces -/

def observeExtractionStatus (coverage : ResolutionCoverage) (facts : FileFacts) :
    ResolutionCoverage :=
  match facts.dependencies.status with
  | .complete => { coverage with completeFiles := coverage.completeFiles + 1 }
  | .unsupported => { coverage with unsupportedFiles := coverage.unsupportedFiles + 1 }
  | .parserFailed => { coverage with parserFailedFiles := coverage.parserFailedFiles + 1 }
  | .truncated => { coverage with truncatedFiles := coverage.truncatedFiles + 1 }

def updateExtractionCoverage (coverage : InterfaceCoverage) :
    InterfaceExtractionStatus → InterfaceCoverage
  | .complete => { coverage with completeFiles := coverage.completeFiles + 1 }
  | .partial_ => { coverage with partialFiles := coverage.partialFiles + 1 }
  | .unsupported => { coverage with unsupportedFiles := coverage.unsupportedFiles + 1 }
  | .parserFailed => { coverage with parserFailedFiles := coverage.parserFailedFiles + 1 }
  | .truncated => { coverage with truncatedFiles := coverage.truncatedFiles + 1 }

def updateSurfaceCoverage (coverage : InterfaceCoverage) :
    InterfaceSurfaceStatus → InterfaceCoverage
  | .complete => { coverage with completePublicSurfaces := coverage.completePublicSurfaces + 1 }
  | .partial_ => { coverage with partialPublicSurfaces := coverage.partialPublicSurfaces + 1 }
  | .unsupported =>
    { coverage with unsupportedPublicSurfaces := coverage.unsupportedPublicSurfaces + 1 }
  | .truncated => { coverage with truncatedPublicSurfaces := coverage.truncatedPublicSurfaces + 1 }

def addInterfaceGaps (total item : InterfaceGapCounts) : InterfaceGapCounts where
  wildcardExports := total.wildcardExports + item.wildcardExports
  namespaceImports := total.namespaceImports + item.namespaceImports
  commonJsExports := total.commonJsExports + item.commonJsExports
  dynamicLoaders := total.dynamicLoaders + item.dynamicLoaders
  unsupportedPatterns := total.unsupportedPatterns + item.unsupportedPatterns

def subtractInterfaceGaps (total item : InterfaceGapCounts) : InterfaceGapCounts where
  wildcardExports := total.wildcardExports - item.wildcardExports
  namespaceImports := total.namespaceImports - item.namespaceImports
  commonJsExports := total.commonJsExports - item.commonJsExports
  dynamicLoaders := total.dynamicLoaders - item.dynamicLoaders
  unsupportedPatterns := total.unsupportedPatterns - item.unsupportedPatterns

/-- What a file offers: its exports and shapes, and where they come from. -/
def moduleInterface (file : SourceFile) (facts : InterfaceFacts) : ModuleInterface where
  exports := BTreeSet.ofList
    (facts.exports.map fun export_ => ⟨export_.namespace, export_.exportedName⟩)
  shapes := BTreeMap.ofList
    (facts.shapes.map fun shape => (⟨shape.kind, shape.exportedName⟩, shape.memberCount))
  shapeFingerprints := BTreeMap.ofList
    (facts.shapes.map fun shape => (⟨shape.kind, shape.exportedName⟩, shape.fingerprint))
  hasLocalExports := facts.exports.any fun export_ => export_.origin = .local
  hasReexports := (facts.exports.any fun export_ => export_.origin = .reExport)
    || facts.imports.any fun fact => fact.role = .reExport
  declarationFile := containsText (ascii "declaration") file.languageMode
  publicSurfaceComplete := facts.publicSurfaceStatus = .complete

def mergeModuleInterface (destination source : ModuleInterface) : ModuleInterface where
  exports := destination.exports.union source.exports
  shapes := destination.shapes.extend source.shapes.entries
  shapeFingerprints := destination.shapeFingerprints.extend source.shapeFingerprints.entries
  hasLocalExports := destination.hasLocalExports || source.hasLocalExports
  hasReexports := destination.hasReexports || source.hasReexports
  declarationFile := destination.declarationFile || source.declarationFile
  publicSurfaceComplete := destination.publicSurfaceComplete && source.publicSurfaceComplete

def observeInterfaceCoverage (coverage : InterfaceCoverage) (facts : InterfaceFacts) :
    InterfaceCoverage :=
  let coverage := updateExtractionCoverage { coverage with files := coverage.files + 1 } facts.status
  updateSurfaceCoverage { coverage with gaps := addInterfaceGaps coverage.gaps facts.gaps }
    facts.publicSurfaceStatus

/-- The interface of a file, merged with the others of its logical path. -/
def observeInterfaceFacts (projection : Projection) (file : SourceFile) (facts : FileFacts)
    (logicalPath : RepoPath) : Projection :=
  let module := moduleInterface file facts.interfaces
  { projection with
    interfaceCoverage := observeInterfaceCoverage projection.interfaceCoverage facts.interfaces
    interfaces := projection.interfaces.insert logicalPath
      (match projection.interfaces.get? logicalPath with
        | some destination => mergeModuleInterface destination module
        | none => module) }

/-! ## Views -/

structure ResolutionContext where
  fileFacts : FactMap
  parserOptions : Str
  index : ResolutionIndex
  interfacePaths : BTreeSet RepoPath

section

variable [Sha256]

/-- One file of a view: its status, its interface, and its references in order. -/
def observeFile (context : ResolutionContext) (projection : Projection) (file : SourceFile) :
    Projection :=
  match context.fileFacts.get? (factKey file context.parserOptions) with
  | none =>
    { projection with
      coverage :=
        { projection.coverage with
          parserFailedFiles := projection.coverage.parserFailedFiles + 1 } }
  | some facts =>
    let logicalPath := context.index.go.logicalPath file
    let projectInterfaces : Bool := logicalPath ∈ context.interfacePaths
    let projection :=
      { projection with coverage := observeExtractionStatus projection.coverage facts }
    let projection :=
      if projectInterfaces then observeInterfaceFacts projection file facts logicalPath
      else projection
    facts.dependencies.references.foldl
      (resolveReference context.index file
        (if projectInterfaces then some facts.interfaces else none))
      projection

def projectWithIndex (snapshot : SourceSnapshot) (context : ResolutionContext) : Projection :=
  snapshot.fileList.foldl (observeFile context)
    { nodes := context.index.languages.keySet
      coverage :=
        { files := snapshot.len
          configurationErrors := context.index.go.configurationErrors } }

def projectFile (file : SourceFile) (context : ResolutionContext) : Projection :=
  observeFile context
    { nodes := (∅ : BTreeSet RepoPath).insert file.path, coverage := { files := 1 } } file

end

/-! ## Contributions of single files -/

/-- The counters of two parts of a view, added up. -/
def addCoverage (total item : ResolutionCoverage) : ResolutionCoverage where
  files := total.files + item.files
  completeFiles := total.completeFiles + item.completeFiles
  unsupportedFiles := total.unsupportedFiles + item.unsupportedFiles
  parserFailedFiles := total.parserFailedFiles + item.parserFailedFiles
  truncatedFiles := total.truncatedFiles + item.truncatedFiles
  runtimeReferences := total.runtimeReferences + item.runtimeReferences
  typeReferences := total.typeReferences + item.typeReferences
  structuralReferences := total.structuralReferences + item.structuralReferences
  resolvedReferences := total.resolvedReferences + item.resolvedReferences
  nodeBuiltinReferences := total.nodeBuiltinReferences + item.nodeBuiltinReferences
  externalReferences := total.externalReferences + item.externalReferences
  ambiguousReferences := total.ambiguousReferences + item.ambiguousReferences
  unresolvedReferences := total.unresolvedReferences + item.unresolvedReferences
  unsupportedDynamicReferences :=
    total.unsupportedDynamicReferences + item.unsupportedDynamicReferences
  configurationErrors := total.configurationErrors + item.configurationErrors
  edgesTruncated := total.edgesTruncated || item.edgesTruncated

/-- The mark that edges were dropped stays. -/
def subtractCoverage (total item : ResolutionCoverage) : ResolutionCoverage where
  files := total.files - item.files
  completeFiles := total.completeFiles - item.completeFiles
  unsupportedFiles := total.unsupportedFiles - item.unsupportedFiles
  parserFailedFiles := total.parserFailedFiles - item.parserFailedFiles
  truncatedFiles := total.truncatedFiles - item.truncatedFiles
  runtimeReferences := total.runtimeReferences - item.runtimeReferences
  typeReferences := total.typeReferences - item.typeReferences
  structuralReferences := total.structuralReferences - item.structuralReferences
  resolvedReferences := total.resolvedReferences - item.resolvedReferences
  nodeBuiltinReferences := total.nodeBuiltinReferences - item.nodeBuiltinReferences
  externalReferences := total.externalReferences - item.externalReferences
  ambiguousReferences := total.ambiguousReferences - item.ambiguousReferences
  unresolvedReferences := total.unresolvedReferences - item.unresolvedReferences
  unsupportedDynamicReferences :=
    total.unsupportedDynamicReferences - item.unsupportedDynamicReferences
  configurationErrors := total.configurationErrors - item.configurationErrors
  edgesTruncated := total.edgesTruncated

/-- The counters of interfaces, added up; a cut in one part is a cut in all. -/
def addInterfaceCoverage (total item : InterfaceCoverage) : InterfaceCoverage where
  files := total.files + item.files
  completeFiles := total.completeFiles + item.completeFiles
  partialFiles := total.partialFiles + item.partialFiles
  unsupportedFiles := total.unsupportedFiles + item.unsupportedFiles
  parserFailedFiles := total.parserFailedFiles + item.parserFailedFiles
  truncatedFiles := total.truncatedFiles + item.truncatedFiles
  completePublicSurfaces := total.completePublicSurfaces + item.completePublicSurfaces
  partialPublicSurfaces := total.partialPublicSurfaces + item.partialPublicSurfaces
  unsupportedPublicSurfaces := total.unsupportedPublicSurfaces + item.unsupportedPublicSurfaces
  truncatedPublicSurfaces := total.truncatedPublicSurfaces + item.truncatedPublicSurfaces
  resolvedSelectors := total.resolvedSelectors + item.resolvedSelectors
  selectorsTruncated := total.selectorsTruncated || item.selectorsTruncated
  gaps := addInterfaceGaps total.gaps item.gaps

/-- The mark that selectors were dropped stays. -/
def subtractInterfaceCoverage (total item : InterfaceCoverage) : InterfaceCoverage where
  files := total.files - item.files
  completeFiles := total.completeFiles - item.completeFiles
  partialFiles := total.partialFiles - item.partialFiles
  unsupportedFiles := total.unsupportedFiles - item.unsupportedFiles
  parserFailedFiles := total.parserFailedFiles - item.parserFailedFiles
  truncatedFiles := total.truncatedFiles - item.truncatedFiles
  completePublicSurfaces := total.completePublicSurfaces - item.completePublicSurfaces
  partialPublicSurfaces := total.partialPublicSurfaces - item.partialPublicSurfaces
  unsupportedPublicSurfaces := total.unsupportedPublicSurfaces - item.unsupportedPublicSurfaces
  truncatedPublicSurfaces := total.truncatedPublicSurfaces - item.truncatedPublicSurfaces
  resolvedSelectors := total.resolvedSelectors - item.resolvedSelectors
  selectorsTruncated := total.selectorsTruncated
  gaps := subtractInterfaceGaps total.gaps item.gaps

/-- Fold one interface edge of a contribution in, selector by selector. -/
def addInterfaceEdge (projection : Projection) (entry : InterfaceEdgeKey × InterfaceEdge) :
    Projection :=
  entry.2.selectors.elems.foldl (fun projection => recordNamedSelector projection entry.1)
    { projection with
      interfaceEdges := projection.interfaceEdges.upsert entry.1 {} fun edge =>
        { edge with unknownWidth := edge.unknownWidth || entry.2.unknownWidth } }

/-- A view with the part of one file added. -/
def addContribution (projection contribution : Projection) : Projection :=
  let selectorCount := projection.interfaceCoverage.resolvedSelectors
  let projection :=
    { projection with
      coverage := addCoverage projection.coverage contribution.coverage
      interfaceCoverage :=
        addInterfaceCoverage projection.interfaceCoverage contribution.interfaceCoverage
      resolutionGapsTruncated :=
        projection.resolutionGapsTruncated || contribution.resolutionGapsTruncated }
  let projection := contribution.resolutionGaps.elems.foldl recordResolutionGap projection
  -- The selectors are counted again as they are inserted.
  let projection :=
    { projection with
      interfaceCoverage :=
        { projection.interfaceCoverage with resolvedSelectors := selectorCount } }
  let projection := contribution.edges.elems.foldl recordEdge projection
  let projection :=
    { projection with
      interfaces := projection.interfaces.extend contribution.interfaces.entries }
  contribution.interfaceEdges.entries.foldl addInterfaceEdge projection

/-- A view with the part of one file taken out. -/
def subtractContribution (projection contribution : Projection) : Projection :=
  { projection with
    coverage := subtractCoverage projection.coverage contribution.coverage
    resolutionGaps := contribution.resolutionGaps.elems.foldl BTreeSet.erase
      projection.resolutionGaps
    edges := contribution.edges.elems.foldl BTreeSet.erase projection.edges
    interfaceCoverage :=
      subtractInterfaceCoverage projection.interfaceCoverage contribution.interfaceCoverage
    interfaces := contribution.interfaces.keys.foldl BTreeMap.erase projection.interfaces
    interfaceEdges := contribution.interfaceEdges.keys.foldl BTreeMap.erase
      projection.interfaceEdges }

section

variable [Sha256]

/-- Replace what one changed path contributed. -/
def updateChangedImporter (before after : SourceSnapshot) (context : ResolutionContext)
    (projection : Projection) (path : RepoPath) : Projection :=
  match after.read path, before.read path with
  | some afterFile, some beforeFile =>
    if factKey beforeFile context.parserOptions = factKey afterFile context.parserOptions then
      projection
    else
      addContribution (subtractContribution projection (projectFile beforeFile context))
        (projectFile afterFile context)
  | _, _ => projection

def updateChangedImporters (before after : SourceSnapshot) (projection : Projection)
    (context : ResolutionContext) (changedPaths : BTreeSet RepoPath) : Projection :=
  changedPaths.elems.foldl (updateChangedImporter before after context) projection

/-! ## Pairs of views -/

structure GoModuleViews where
  before : BTreeMap RepoPath Str := ∅
  after : BTreeMap RepoPath Str := ∅

structure PairInput where
  before : SourceSnapshot
  after : SourceSnapshot
  fileFacts : FactMap
  parserOptions : Str
  interfacePaths : BTreeSet RepoPath
  goModules : GoModuleViews

/-- The logical paths of changed files; every Go package when the modules changed. -/
def interfacePaths (index : ResolutionIndex) (paths : BTreeSet RepoPath) (metadataChanged : Bool) :
    BTreeSet RepoPath :=
  let logical := paths.map index.go.logicalPathFor
  if metadataChanged then logical.extend index.go.logicalPaths else logical

def canIncrementallyProject (before after : SourceSnapshot) (changedPaths : BTreeSet RepoPath) :
    Bool :=
  before.len = after.len
    && (before.fileList.zip after.fileList).all fun (beforeFile, afterFile) =>
      beforeFile.path = afterFile.path && beforeFile.language = afterFile.language
        && (beforeFile.contentId = afterFile.contentId || beforeFile.path ∈ changedPaths)

namespace PairInput

def metadataChanged (input : PairInput) : Bool := input.goModules.before ≠ input.goModules.after

def beforeIndex (input : PairInput) : ResolutionIndex :=
  .new input.before input.fileFacts input.parserOptions input.goModules.before

def afterIndex (input : PairInput) : ResolutionIndex :=
  .new input.after input.fileFacts input.parserOptions input.goModules.after

def context (input : PairInput) (index : ResolutionIndex) (interfacePaths : BTreeSet RepoPath) :
    ResolutionContext :=
  ⟨input.fileFacts, input.parserOptions, index, interfacePaths⟩

def goSensitive (input : PairInput) : Bool :=
  input.beforeIndex.go.hasGo || input.after.fileList.any (·.language = .go)
    || !input.goModules.before.isEmpty || !input.goModules.after.isEmpty

def incrementalSafe (input : PairInput) : Bool :=
  canIncrementallyProject input.before input.after input.interfacePaths
    && Rust.indexIsStable input.before input.after input.interfacePaths
    && !input.goSensitive

def viewsMatch (input : PairInput) : Bool :=
  input.before.id = input.after.id && !input.metadataChanged

def beforeInterfacePaths (input : PairInput) : BTreeSet RepoPath :=
  Resolver.interfacePaths input.beforeIndex input.interfacePaths input.metadataChanged

def beforeProjection (input : PairInput) : Projection :=
  projectWithIndex input.before (input.context input.beforeIndex input.beforeInterfacePaths)

def fullProjectionRequired (input : PairInput) : Bool :=
  !input.incrementalSafe || input.beforeProjection.coverage.edgesTruncated
    || !input.beforeProjection.resolutionGaps.isEmpty
    || input.beforeProjection.resolutionGapsTruncated
    || input.beforeProjection.interfaceCoverage.selectorsTruncated

end PairInput

/-- Both projections, and the logical paths of the change. -/
def projectChanged (input : PairInput) : Projection × Projection × BTreeSet RepoPath :=
  let comparisonIndex := if input.incrementalSafe then input.beforeIndex else input.afterIndex
  let afterInterfacePaths :=
    interfacePaths comparisonIndex input.interfacePaths input.metadataChanged
  let context := input.context comparisonIndex afterInterfacePaths
  let afterProjection :=
    if input.fullProjectionRequired then projectWithIndex input.after context
    else
      updateChangedImporters input.before input.after input.beforeProjection context
        afterInterfacePaths
  (input.beforeProjection, afterProjection, input.beforeInterfacePaths.union afterInterfacePaths)

/-- Both views, the second from the first, and whose interfaces changed. -/
def projectPair (input : PairInput) : Projection × Projection × BTreeSet RepoPath :=
  if input.viewsMatch then
    (input.beforeProjection, input.beforeProjection, input.beforeInterfacePaths)
  else projectChanged input

end

end Opcore.Resolver
