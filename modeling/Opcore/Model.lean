/-
  Opcore.Model

  The shared data model: source files, the facts one analysis of a file
  yields, and the fixed resource limits.  Counters and indices are natural
  numbers; where the code clamps a number to its machine type the model says so
  with `min`.
-/
import Opcore.Path
import Opcore.Identity
import Opcore.Library.BTreeMap

namespace Opcore

open Text Collections

/-! ## Limits -/

def maxDiagnostics : Nat := 10000
def maxFiles : Nat := 10000
def maxSourceBytes : Nat := 4 * 1024 * 1024
def maxLineBytes : Nat := 1024 * 1024
def maxTotalSourceBytes : Nat := 256 * 1024 * 1024
def maxCallableFingerprintsPerFile : Nat := 4096
def maxCallableFingerprintsPerRequest : Nat := 200000
def maxRegionFingerprintsPerFile : Nat := 4096
def maxRegionFingerprintsPerRequest : Nat := 200000
def maxDedupTokenComparisons : Nat := 4000000
def dedupRegionKgramTokens : Nat := 32
def dedupRegionWinnowSpan : Nat := 17
def minDedupRegionTokens : Nat := dedupRegionKgramTokens + dedupRegionWinnowSpan - 1
def maxInterfaceSelectors : Nat := 400000
def maxGraphEdges : Nat := 200000
def maxCycleMemberPaths : Nat := 10
def maxCycleWitnessPaths : Nat := 10
def maxObservationPaths : Nat := 5
def maxImpactEdgeVisits : Nat := 200000
def maxSenseSamplePaths : Nat := 1024
def maxSenseFindings : Nat := 32
def maxStructuralDepth : Nat := 256

/-- `u32::MAX`, the value `u32::try_from(..).unwrap_or(u32::MAX)` clamps to. -/
def u32Max : Nat := 2 ^ 32 - 1

structure RuleLimits where
  maxFileLines : Nat := 1500
  maxLineBytes : Nat := 512
  maxFunctionLines : Nat := 100
  maxParameters : Nat := 5
  maxNesting : Nat := 4
  maxCyclomaticComplexity : Nat := 10
  deriving DecidableEq

/-! ## Source files -/

inductive Language where
  | javaScript
  | typeScript
  | rust
  | python
  | go
  | hcl
  | shell
  | protobuf
  deriving DecidableEq

def Language.family : Language → Str
  | .javaScript | .typeScript => ascii "node"
  | .rust => ascii "rust"
  | .python => ascii "python"
  | .go => ascii "go"
  | .hcl => ascii "hcl"
  | .shell => ascii "shell"
  | .protobuf => ascii "protobuf"

instance : LinearOrder Language :=
  LinearOrder.lift' Language.ctorIdx
    (Function.LeftInverse.injective Language.ofNat_ctorIdx)

/-- A source file.  `SourceFile::new` is the only constructor in the code and
    sets the content identity from the bytes, so the identity is a function. -/
structure SourceFile where
  path : RepoPath
  bytes : Str
  language : Language
  languageMode : Str
  deriving DecidableEq

def SourceFile.contentId [Sha256] (file : SourceFile) : ContentId := ContentId.of file.bytes

structure Position where
  line : Nat
  column : Nat
  byte : Nat
  deriving DecidableEq

structure SourceRange where
  start : Position
  stop : Position
  deriving DecidableEq

/-! ## Diagnostics -/

inductive Severity where
  | error
  | warning
  | info
  deriving DecidableEq

/-- The scalar JSON values analysers attach as evidence. -/
inductive EvidenceValue where
  | number (value : Nat)
  | text (value : Str)
  | boolean (value : Bool)
  deriving DecidableEq

structure RawDiagnostic where
  ruleId : Str
  severity : Severity
  message : Str
  range : Option SourceRange
  entityKey : Str
  causeKey : Str
  evidence : BTreeMap Str EvidenceValue
  deriving DecidableEq

structure Diagnostic where
  ruleId : Str
  severity : Severity
  message : Str
  path : RepoPath
  range : Option SourceRange
  fingerprint : Str
  language : Language
  evidence : BTreeMap Str EvidenceValue
  deriving DecidableEq

/-! ## Facts -/

inductive FingerprintExtractionStatus where
  | complete
  | truncated
  | parserFailed
  | unsupported
  deriving DecidableEq

/-- In the order of severity that `max` takes. -/
instance : LinearOrder FingerprintExtractionStatus :=
  LinearOrder.lift' FingerprintExtractionStatus.ctorIdx
    (Function.LeftInverse.injective FingerprintExtractionStatus.ofNat_ctorIdx)

inductive CallableKind where
  | function
  | method
  | arrow
  | closure
  | lambda
  deriving DecidableEq

instance : LinearOrder CallableKind :=
  LinearOrder.lift' CallableKind.ctorIdx
    (Function.LeftInverse.injective CallableKind.ofNat_ctorIdx)

structure CallableFingerprint where
  kind : CallableKind
  range : SourceRange
  tokenCount : Nat
  tokenLineCount : Nat
  digest : Str
  deriving DecidableEq

structure CallableFingerprintFacts where
  status : FingerprintExtractionStatus := .unsupported
  callables : List CallableFingerprint := []
  deriving DecidableEq

structure RegionFingerprint where
  hashOne : UInt64
  hashTwo : UInt64
  tokenIndex : Nat
  deriving DecidableEq

structure RegionFingerprintFacts where
  status : FingerprintExtractionStatus := .unsupported
  tokenCount : Nat := 0
  encodedTokens : Str := []
  anchors : List RegionFingerprint := []
  deriving DecidableEq

inductive InterfaceNamespace where
  | runtime
  | typeOnly
  deriving DecidableEq

inductive InterfaceImportRole where
  | «import»
  | reExport
  deriving DecidableEq

inductive InterfaceSelectorKind where
  | named
  | default
  | namespace
  | sideEffect
  deriving DecidableEq

structure InterfaceSelector where
  kind : InterfaceSelectorKind
  name : Str
  deriving DecidableEq

structure InterfaceImportFact where
  specifier : Str
  level : Nat
  role : InterfaceImportRole
  «namespace» : InterfaceNamespace
  selector : InterfaceSelector
  deriving DecidableEq

inductive InterfaceExportNamespace where
  | value
  | typeOnly
  | namespace
  deriving DecidableEq

inductive InterfaceExportOrigin where
  | «local»
  | reExport
  deriving DecidableEq

inductive InterfaceDeclarationKind where
  | function
  | method
  | class_
  | variable_
  | constant_
  | struct
  | interface
  | typeAlias
  | enum
  | defaultExpression
  | unknown
  deriving DecidableEq

structure InterfaceExportFact where
  exportedName : Str
  «namespace» : InterfaceExportNamespace
  origin : InterfaceExportOrigin
  declarationKind : InterfaceDeclarationKind
  deriving DecidableEq

inductive InterfaceShapeKind where
  | interface
  | struct
  | typeLiteralAlias
  deriving DecidableEq

structure InterfaceShapeFact where
  exportedName : Str
  kind : InterfaceShapeKind
  memberCount : Nat
  fingerprint : Str
  deriving DecidableEq

structure InterfaceGapCounts where
  wildcardExports : Nat := 0
  namespaceImports : Nat := 0
  commonJsExports : Nat := 0
  dynamicLoaders : Nat := 0
  unsupportedPatterns : Nat := 0
  deriving DecidableEq

inductive InterfaceExtractionStatus where
  | complete
  | partial_
  | truncated
  | parserFailed
  | unsupported
  deriving DecidableEq

inductive InterfaceSurfaceStatus where
  | complete
  | partial_
  | truncated
  | unsupported
  deriving DecidableEq

structure InterfaceFacts where
  status : InterfaceExtractionStatus := .unsupported
  publicSurfaceStatus : InterfaceSurfaceStatus := .unsupported
  imports : List InterfaceImportFact := []
  exports : List InterfaceExportFact := []
  shapes : List InterfaceShapeFact := []
  gaps : InterfaceGapCounts := {}
  deriving DecidableEq

inductive DependencyReferenceKind where
  | nodeRuntime
  | nodeType
  | nodeUnsupportedDynamic
  | pythonRelative
  | pythonUnsupportedRelative
  | pythonAbsolute
  | rustModule
  | rustUse
  | rustUnsupported
  | goImport
  | goUnsupportedImport
  | goUnsupportedConditional
  deriving DecidableEq

structure DependencyReference where
  kind : DependencyReferenceKind
  specifier : Str
  level : Nat
  deriving DecidableEq

inductive DependencyExtractionStatus where
  | complete
  | truncated
  | parserFailed
  | unsupported
  deriving DecidableEq

structure DependencyFacts where
  status : DependencyExtractionStatus := .unsupported
  references : List DependencyReference := []
  deriving DecidableEq

structure FileFacts where
  diagnostics : List RawDiagnostic := []
  parser : Str := []
  parserVersion : Str := []
  dependencies : DependencyFacts := {}
  callableFingerprints : CallableFingerprintFacts := {}
  regionFingerprints : RegionFingerprintFacts := {}
  interfaces : InterfaceFacts := {}
  deriving DecidableEq

inductive AnalysisError where
  | cancelled
  | unsupported (reason : Str)
  | parser (reason : Str)
  deriving DecidableEq

/-- `facts::FactMap`. -/
abbrev FactMap := BTreeMap FileFactKey FileFacts

/-- The key of each content under each mode. -/
abbrev FactKeyLookup := BTreeMap ContentId (BTreeMap Str FileFactKey)

def factAbi : Str := ascii "opcore.file-facts.v20"

/-- `facts::key`. -/
def factKey [Sha256] (file : SourceFile) (parserOptions : Str) : FileFactKey :=
  FileFactKey.new file.contentId file.languageMode parserOptions factAbi

end Opcore
