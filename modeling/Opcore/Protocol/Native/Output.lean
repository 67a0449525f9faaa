/-
  Opcore.Protocol.Native.Output

  Compiler messages turned into diagnostics, the fingerprint that identifies a
  diagnostic across two runs, and the subtraction of the diagnostics of a
  baseline run.  The JSON of a message is read elsewhere: a message is what its
  checks and text normalization leave of it.
-/
import Opcore.Engine.Evaluation
import Opcore.Protocol.Native.Scopes

namespace Opcore.Native

open Text Collections

def source : Str := ascii "opcore-rust-native"
def rule : Str := ascii "cargo-check"

/-! ## Diagnostics -/

inductive NativeSeverity where
  | error
  | warning
  deriving DecidableEq

structure NativePosition where
  line : Nat
  char : Nat
  deriving DecidableEq

structure NativeRange where
  start : NativePosition
  stop : NativePosition
  deriving DecidableEq

structure NativeLocation where
  path : Str
  range : Option NativeRange
  deriving DecidableEq

structure NativeDiagnostic where
  code : Str
  severity : NativeSeverity
  message : Str
  help : Option Str
  location : NativeLocation
  fingerprint : Str
  deriving DecidableEq

def severityText : NativeSeverity → Str
  | .error => ascii "error"
  | .warning => ascii "warning"

/-- The bytes that are digested: every part behind its length. -/
def fingerprintEncoding (severity : NativeSeverity) (rustcCode : Option Str)
    (message context semanticKey : Str) : Str :=
  [source, rule, severityText severity, rustcCode.getD (ascii "rustc"), message, context,
    semanticKey].flatMap fun part => be64 part.length ++ part

def fingerprint [Sha256] (severity : NativeSeverity) (rustcCode : Option Str)
    (message context semanticKey : Str) : Str :=
  ascii "sha256:"
    ++ hexEncode (Sha256.digest (fingerprintEncoding severity rustcCode message context semanticKey))

/-! ## Messages -/

/-- A compiler message; a note, help or failure note has no severity. -/
structure CompilerMessage where
  severity : Option NativeSeverity
  rustcCode : Option Str
  normalized : Str
  path : Str
  range : Option NativeRange
  context : Str
  byteStart : Option Nat
  help : Option Str

/-- `diagnostic_message`. -/
def CompilerMessage.text (message : CompilerMessage) : Str :=
  message.rustcCode.elim message.normalized fun code => code ++ ascii ": " ++ message.normalized

section Parse

variable [Sha256] (lexer : RustLexer) (sourceFiles : SourceFiles)

def compilerDiagnostic (semanticScopes : SemanticScopes) (message : CompilerMessage) :
    Except Unit (Option NativeDiagnostic × SemanticScopes) :=
  match message.severity with
  | none => .ok (none, semanticScopes)
  | some severity => do
    let (semanticKey, semanticScopes) ←
      semanticScopes.key lexer sourceFiles message.path message.byteStart
    .ok (some {
      code := source ++ ascii "/" ++ rule
      severity := severity
      message := message.text
      help := message.help
      location := ⟨message.path, message.range⟩
      fingerprint := fingerprint severity message.rustcCode message.text message.context
        semanticKey }, semanticScopes)

end Parse

/-! ## The baseline -/

inductive NativeStatus where
  | notApplicable
  | clean
  | findings
  | unavailable
  | incomplete
  | cancelled
  deriving DecidableEq

structure NativeCheckResult where
  status : NativeStatus
  diagnostics : List NativeDiagnostic
  comparisonSafe : Bool

/-- Can the diagnostics of a baseline stand for all there were? -/
def NativeCheckResult.exhaustive (baseline : NativeCheckResult) : Bool :=
  (baseline.status = .clean || baseline.status = .findings) && baseline.comparisonSafe

/-- `subtract_baseline`: the remaining candidate, and whether the comparison is complete. -/
def subtractBaseline (candidate : NativeCheckResult) (baseline : Option NativeCheckResult)
    (comparison : Comparison) : NativeCheckResult × Bool :=
  if comparison ≠ .introduced ∨ candidate.status ≠ .findings then (candidate, true)
  else
    match baseline with
    | none => (candidate, false)
    | some baseline =>
      if baseline.status = .notApplicable then (candidate, true)
      else if baseline.exhaustive then
        let prior := baseline.diagnostics.map NativeDiagnostic.fingerprint
        ({ candidate with
          diagnostics := candidate.diagnostics.filter fun diagnostic =>
            diagnostic.fingerprint ∉ prior }, true)
      else (candidate, false)

end Opcore.Native
