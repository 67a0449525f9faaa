/-
  Opcore.Analysis.Analyze

  Analysing one source file.  The parsers come from outside the repository, and
  what they are handed is the text of the file, so they and the passes over
  their trees are parameters that take text, mode and limits.  What the
  repository itself takes from a file's path is modelled in full: the build
  constraint in the name of a Go file, and of a Node file its source type and
  whether its name is one of CommonJS.
-/
import Opcore.Analysis.Hygiene
import Opcore.Analysis.Go.Input

namespace Opcore

open Text Collections

/-! ## Go -/

namespace Go

structure GoToken where
  start : Nat
  stop : Nat
  tag : UInt8
  counted : Bool
  syntheticNewline : Bool
  deriving DecidableEq

structure MetricFacts where
  diagnostics : List RawDiagnostic
  callables : CallableFingerprintFacts
  regions : RegionFingerprintFacts

/-- The Go grammar, and the passes over the trees it yields. -/
structure Frontend where
  Tree : Type
  scanTokens : Str → Except AnalysisError (List GoToken)
  parse : Str → Except AnalysisError Tree
  syntaxDiagnostics : Tree → Str → LineIndex → GoTarget → Except AnalysisError (List RawDiagnostic)
  metrics : Tree → Str → List GoToken → LineIndex → RuleLimits → Except AnalysisError MetricFacts
  extract : Tree → Str → List GoToken → Except AnalysisError (DependencyFacts × InterfaceFacts)

def parserName : Str := ascii "tree-sitter-go"
def goGrammarVersion : Str := ascii "0.25.0"
def goRuntimeVersion : Str := ascii "0.26.12"

def validateLanguageMode (file : SourceFile) : Except AnalysisError GoTarget :=
  if file.language ≠ .go then
    .error (.unsupported (file.language.family ++ ascii " is not Go source"))
  else
    match modeTarget file.languageMode with
    | some target => .ok target
    | none =>
      .error (.unsupported (ascii "unsupported Go language mode '" ++ file.languageMode
        ++ ascii "'; expected go:source:<goos>:<goarch> or go:test:<goos>:<goarch>"))

def invalidUtf8Facts [Sha256] (source : Str) (lines : LineIndex) (target : GoTarget) : FileFacts :=
  parserFailureFacts parserName goGrammarVersion
    [invalidUtf8Diagnostic (ascii "Go") (ascii "go.syntax") source lines
      ((parserEvidence parserName goGrammarVersion).extend
        [(ascii "parserRuntimeVersion", .text goRuntimeVersion),
          (ascii "errorKind", .text (ascii "invalid_utf8")),
          (ascii "goos", .text target.os), (ascii "goarch", .text target.arch)])]

def completeDependencies (references : List DependencyReference) : DependencyFacts :=
  { status := .complete, references := references }

def completeInterfaces : InterfaceFacts :=
  { status := .complete, publicSurfaceStatus := .complete }

def conditionalFacts : DependencyFacts × InterfaceFacts :=
  (completeDependencies [⟨.goUnsupportedConditional, ascii "build_constraint", 0⟩],
    { status := .partial_, publicSurfaceStatus := .partial_, gaps := { unsupportedPatterns := 1 } })

variable (frontend : Frontend)

def moduleFacts (status : BuildStatus) (tree : frontend.Tree) (source : Str)
    (tokens : List GoToken) : Except AnalysisError (DependencyFacts × InterfaceFacts) :=
  match status with
  | .active => frontend.extract tree source tokens
  | .inactive => .ok (completeDependencies [], completeInterfaces)
  | .conditional => .ok conditionalFacts

/-- A test file exports nothing. -/
def withoutTestExports (target : GoTarget) (interfaces : InterfaceFacts) : InterfaceFacts :=
  if target.test then { interfaces with exports := [], shapes := [] } else interfaces

def treeFacts (metrics : MetricFacts) (target : GoTarget)
    (facts : DependencyFacts × InterfaceFacts) : FileFacts where
  diagnostics := metrics.diagnostics
  parser := parserName
  parserVersion := goGrammarVersion
  dependencies := facts.1
  callableFingerprints := metrics.callables
  regionFingerprints := metrics.regions
  interfaces := withoutTestExports target facts.2

def analyzeTree (path : RepoPath) (source : Str) (lines : LineIndex) (target : GoTarget)
    (limits : RuleLimits) (tree : frontend.Tree) (tokens : List GoToken) :
    Except AnalysisError FileFacts := do
  let metrics ← frontend.metrics tree source tokens lines limits
  let facts ← moduleFacts frontend (buildStatus path source target) tree source tokens
  pure (treeFacts metrics target facts)

def analyzeText (path : RepoPath) (source : Str) (lines : LineIndex) (target : GoTarget)
    (limits : RuleLimits) : Except AnalysisError FileFacts := do
  let tokens ← frontend.scanTokens source
  let tree ← frontend.parse source
  let syntaxErrors ← frontend.syntaxDiagnostics tree source lines target
  if syntaxErrors ≠ [] then pure (parserFailureFacts parserName goGrammarVersion syntaxErrors)
  else analyzeTree frontend path source lines target limits tree tokens

def analyze [Sha256] (file : SourceFile) (limits : RuleLimits) :
    Except AnalysisError FileFacts := do
  let target ← validateLanguageMode file
  let source := (sourceWithoutUtf8Bom file.bytes).1
  let lines := LineIndex.new source (sourceWithoutUtf8Bom file.bytes).2
  if utf8Valid source then analyzeText frontend file.path source lines target limits
  else pure (invalidUtf8Facts source lines target)

end Go

/-! ## Node -/

namespace Node

inductive SourceLanguage where
  | javaScript
  | typeScript
  | typeScriptDefinition
  deriving DecidableEq

inductive ModuleKind where
  | script
  | module
  | unambiguous
  | commonJs
  deriving DecidableEq

/-- The parser's `SourceType`. -/
structure SourceType where
  language : SourceLanguage
  moduleKind : ModuleKind
  jsx : Bool
  deriving DecidableEq

/-- The Node parser: the source type it derives from a path, and the analysis of
    a source of a given mode and type, in a CommonJS file or not. -/
structure Frontend where
  fromPath : Str → Except Str SourceType
  analyze : Str → Str → SourceType → Bool → RuleLimits → Except AnalysisError FileFacts

def SourceType.isJavaScript (type : SourceType) : Bool := type.language = .javaScript

def SourceType.isTypeScript (type : SourceType) : Bool :=
  type.language = .typeScript || type.language = .typeScriptDefinition

def languageMismatch (language : Str) (path : RepoPath) : AnalysisError :=
  .unsupported (language ++ ascii " language does not match " ++ path.displayLossless)

def validateSourceLanguage (file : SourceFile) (type : SourceType) : Except AnalysisError Unit :=
  match file.language with
  | .javaScript =>
    if type.isJavaScript then .ok () else .error (languageMismatch (ascii "JavaScript") file.path)
  | .typeScript =>
    if type.isTypeScript then .ok () else .error (languageMismatch (ascii "TypeScript") file.path)
  | language =>
    .error (.unsupported (language.family ++ ascii " is not a Node-family language"))

def resolveAmbiguousMode (type : SourceType) (mode : Str) : SourceType :=
  let hasComponent (candidate : String) : Bool :=
    (mode.splitOn (byte ':')).any (eqIgnoreAsciiCase · (ascii candidate))
  if type.moduleKind ≠ .unambiguous then type
  else if hasComponent "commonjs" || hasComponent "cjs" then { type with moduleKind := .commonJs }
  else if hasComponent "module" || hasComponent "esm" then { type with moduleKind := .module }
  else if hasComponent "script" then { type with moduleKind := .script }
  else type

/-- `common_js_file` of `RequireVisitor::new`: both the name and the mode say so. -/
def commonJsFile (file : SourceFile) : Bool :=
  file.path.asUtf8.any ((ascii ".cjs").isSuffixOf ·)
    && ascii "commonjs" ∈ file.languageMode.splitOn (byte ':')

variable (frontend : Frontend)

def sourceType (file : SourceFile) : Except AnalysisError SourceType := do
  let type ← (frontend.fromPath file.path.bytes).mapError .unsupported
  validateSourceLanguage file type
  pure (resolveAmbiguousMode type file.languageMode)

def analyze (file : SourceFile) (limits : RuleLimits) : Except AnalysisError FileFacts := do
  let type ← sourceType frontend file
  frontend.analyze file.bytes file.languageMode type (commonJsFile file) limits

end Node

/-! ## Every language -/

/-- The language front ends.  Those of Rust, Python, HCL, shell and Protocol
    Buffers are given the bytes and the mode of a file and nothing else of it. -/
structure Frontends where
  go : Go.Frontend
  node : Node.Frontend
  rust : Str → Str → RuleLimits → Except AnalysisError FileFacts
  python : Str → RuleLimits → Except AnalysisError FileFacts
  hcl : Str → Str → Except AnalysisError FileFacts
  shell : Str → Str → Except AnalysisError FileFacts
  protobuf : Str → Str → Except AnalysisError FileFacts

section

variable [Sha256] (frontends : Frontends)

def analyzeLanguage (file : SourceFile) (limits : RuleLimits) : Except AnalysisError FileFacts :=
  match file.language with
  | .javaScript | .typeScript => Node.analyze frontends.node file limits
  | .rust => frontends.rust file.bytes file.languageMode limits
  | .python => frontends.python file.bytes limits
  | .go => Go.analyze frontends.go file limits
  | .hcl => frontends.hcl file.bytes file.languageMode
  | .shell => frontends.shell file.bytes file.languageMode
  | .protobuf => frontends.protobuf file.bytes file.languageMode

/-- The analysis of one file, of a request that is not cancelled. -/
def analyze (file : SourceFile) (limits : RuleLimits) : Except AnalysisError FileFacts := do
  let facts ← Hygiene.analyze file.bytes limits
  let languageFacts ← analyzeLanguage frontends file limits
  pure { languageFacts with diagnostics := facts.diagnostics ++ languageFacts.diagnostics }

end

end Opcore
