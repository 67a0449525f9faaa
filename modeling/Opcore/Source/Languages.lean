/-
  Opcore.Source.Languages

  The names and suffixes that give a file its language and mode, and those that
  only make it a source candidate.  The first rule whose suffix matches, whatever
  the case of its letters, decides; the mode of a shell script depends on its
  first line.
-/
import Opcore.Model

namespace Opcore

open Text

def hasExtension (path extension : Str) : Bool :=
  extension.length ≤ path.length
    && eqIgnoreAsciiCase (path.drop (path.length - extension.length)) extension

def languageRules : List (Str × Language) :=
  [(ascii ".d.mts", .typeScript), (ascii ".d.cts", .typeScript), (ascii ".d.ts", .typeScript),
    (ascii ".tsx", .typeScript), (ascii ".mts", .typeScript), (ascii ".cts", .typeScript),
    (ascii ".ts", .typeScript), (ascii ".jsx", .javaScript), (ascii ".mjs", .javaScript),
    (ascii ".cjs", .javaScript), (ascii ".js", .javaScript), (ascii ".rs", .rust),
    (ascii "_test.go", .go), (ascii ".go", .go), (ascii ".pyi", .python), (ascii ".py", .python),
    (ascii ".tftest.json", .hcl), (ascii ".tofutest.json", .hcl), (ascii ".tftest.hcl", .hcl),
    (ascii ".tofutest.hcl", .hcl), (ascii ".tf.json", .hcl), (ascii ".tofu.json", .hcl),
    (ascii ".tf", .hcl), (ascii ".tofu", .hcl), (ascii ".hcl", .hcl), (ascii ".bash", .shell),
    (ascii ".sh", .shell), (ascii ".proto", .protobuf)]

def stripLanguageSuffix (path : Str) (language : Language) : Option Str :=
  (languageRules.find? fun rule => rule.2 = language ∧ hasExtension path rule.1).map fun rule =>
    path.take (path.length - rule.1.length)

/-! ## Languages and modes -/

/-- `std::env::consts` of the machine the program runs on. -/
class Platform where
  os : Str
  arch : Str

/-- The suffixes of code no parser is available for. -/
def unsupportedSourceExtensions : List Str :=
  [ascii ".adb", ascii ".ads", ascii ".asm", ascii ".bat", ascii ".bzl", ascii ".c", ascii ".cc",
    ascii ".cbl", ascii ".clj", ascii ".cljc", ascii ".cljs", ascii ".cmd", ascii ".cob",
    ascii ".cpp", ascii ".cr", ascii ".cs", ascii ".cxx", ascii ".d", ascii ".dart", ascii ".erl",
    ascii ".ex", ascii ".exs", ascii ".f", ascii ".f90", ascii ".f95", ascii ".fish", ascii ".fs",
    ascii ".fsx", ascii ".gradle", ascii ".graphql", ascii ".groovy", ascii ".h", ascii ".hpp",
    ascii ".hrl", ascii ".hs", ascii ".java", ascii ".jl", ascii ".kt", ascii ".kts",
    ascii ".lua", ascii ".m", ascii ".ml", ascii ".mli", ascii ".mm", ascii ".move", ascii ".nim",
    ascii ".pas", ascii ".php", ascii ".pl", ascii ".pm", ascii ".ps1", ascii ".psm1",
    ascii ".pxd", ascii ".pxi", ascii ".pyx", ascii ".qml", ascii ".r", ascii ".raku",
    ascii ".rb", ascii ".s", ascii ".scala", ascii ".sol", ascii ".sql", ascii ".svelte",
    ascii ".swift", ascii ".tcl", ascii ".thrift", ascii ".vb", ascii ".vue", ascii ".wat",
    ascii ".zig", ascii ".zsh"]

/-- `languageRules` with the modes. -/
def languageModeRules : List (Str × Language × Str) :=
  [(ascii ".d.mts", .typeScript, ascii "typescript:declaration:module"),
    (ascii ".d.cts", .typeScript, ascii "typescript:declaration:commonjs"),
    (ascii ".d.ts", .typeScript, ascii "typescript:declaration"),
    (ascii ".tsx", .typeScript, ascii "typescript:tsx"),
    (ascii ".mts", .typeScript, ascii "typescript:module"),
    (ascii ".cts", .typeScript, ascii "typescript:commonjs"),
    (ascii ".ts", .typeScript, ascii "typescript"),
    (ascii ".jsx", .javaScript, ascii "javascript:jsx"),
    (ascii ".mjs", .javaScript, ascii "javascript:module"),
    (ascii ".cjs", .javaScript, ascii "javascript:commonjs"),
    (ascii ".js", .javaScript, ascii "javascript:unambiguous"),
    (ascii ".rs", .rust, ascii "rust:stable"), (ascii "_test.go", .go, ascii "go:test"),
    (ascii ".go", .go, ascii "go:source"),
    (ascii ".pyi", .python, ascii "python:stub:bundled-grammar"),
    (ascii ".py", .python, ascii "python:bundled-grammar"),
    (ascii ".tftest.json", .hcl, ascii "hcl:terraform-test:json"),
    (ascii ".tofutest.json", .hcl, ascii "hcl:opentofu-test:json"),
    (ascii ".tftest.hcl", .hcl, ascii "hcl:terraform-test:native"),
    (ascii ".tofutest.hcl", .hcl, ascii "hcl:opentofu-test:native"),
    (ascii ".tf.json", .hcl, ascii "hcl:terraform:json"),
    (ascii ".tofu.json", .hcl, ascii "hcl:opentofu:json"),
    (ascii ".tf", .hcl, ascii "hcl:terraform:native"),
    (ascii ".tofu", .hcl, ascii "hcl:opentofu:native"),
    (ascii ".hcl", .hcl, ascii "hcl:generic:native"), (ascii ".bash", .shell, ascii "shell:bash"),
    (ascii ".sh", .shell, ascii "shell:sh"), (ascii ".proto", .protobuf, ascii "protobuf:proto")]

example : languageModeRules.map (fun rule => (rule.1, rule.2.1)) = languageRules := rfl

def filename (path : Str) : Str := ((rsplitOnce (byte '/') path).map Prod.snd).getD path

/-- What follows the first `.tfvars`, in any case. -/
def afterTfvars : Str → Option Str
  | [] => none
  | b :: s =>
    if ((b :: s).take 7).map toAsciiLower = ascii ".tfvars" then some ((b :: s).drop 7)
    else afterTfvars s

def hasTfvarsSuffix (filename : Str) : Bool :=
  (afterTfvars filename).any fun remainder => remainder.isEmpty || (ascii ".").isPrefixOf remainder

def terragruntModes : List (Str × Str) :=
  [(ascii "terragrunt.hcl", ascii "hcl:terragrunt:native"),
    (ascii "terragrunt.hcl.json", ascii "hcl:terragrunt:json"),
    (ascii "terragrunt.stack.hcl", ascii "hcl:terragrunt-stack:native"),
    (ascii "terragrunt.values.hcl", ascii "hcl:terragrunt-values:native")]

/-- The first rule that fits a path: by name, then by extension. -/
def languageRule (path : Str) : Option (Language × Str) :=
  let name := filename path
  if eqIgnoreAsciiCase name (ascii ".terraform.lock.hcl") then
    some (.hcl, ascii "hcl:terraform-lock:native")
  else
    match terragruntModes.find? fun rule => eqIgnoreAsciiCase name rule.1 with
    | some rule => some (.hcl, rule.2)
    | none =>
      if hasTfvarsSuffix name then
        if hasExtension name (ascii ".json") || hasExtension name (ascii ".tfvars.json.example") then
          some (.hcl, ascii "hcl:terraform-vars:json")
        else some (.hcl, ascii "hcl:terraform-vars:native")
      else (languageModeRules.find? fun rule => hasExtension path rule.1).map Prod.snd

def goTargetOs (os : Str) : Str := if os = ascii "macos" then ascii "darwin" else os

def goTargetArch (arch : Str) : Str :=
  if arch = ascii "x86_64" then ascii "amd64"
  else if arch = ascii "aarch64" then ascii "arm64"
  else if arch = ascii "x86" then ascii "386"
  else arch

def isSourceCandidate (path : RepoPath) : Bool :=
  (languageRule path.bytes).isSome
    || unsupportedSourceExtensions.any fun extension => hasExtension path.bytes extension

section

variable [platform : Platform]

/-- The language and mode of a path, with the platform where the mode depends on it. -/
def detectLanguage (path : RepoPath) : Option (Language × Str) := do
  let _ ← path.asUtf8
  let (language, mode) ← languageRule path.bytes
  match language with
  | .shell => some (language, mode ++ ascii ":" ++ platform.os)
  | .go =>
    some (language,
      mode ++ ascii ":" ++ goTargetOs platform.os ++ ascii ":" ++ goTargetArch platform.arch)
  | _ => some (language, mode)

/-! ## Shell scripts -/

def knownShellDialect (interpreter : Str) : Option Str :=
  if interpreter = ascii "bash" then some (ascii "bash")
  else if interpreter = ascii "sh" ∨ interpreter = ascii "dash" then some (ascii "sh")
  else none

def shellCommandName (word : Str) : Option Str :=
  let name := (word.reverse.takeWhile fun b => b ≠ byte '/' ∧ b ≠ byte '\\').reverse
  if name = [] then none else some name

def envOptionTakesValue (word : Str) : Bool := word = ascii "-u" ∨ word = ascii "--unset"

def envOptionWithoutValue (word : Str) : Bool :=
  word ∈ [ascii "-S", ascii "--split-string", ascii "-i", ascii "--ignore-environment", ascii "--"]
    || (ascii "--unset=").isPrefixOf word

def envAssignment (word : Str) : Bool := word.contains (byte '=')

/-- The shell behind `env`, past its options and assignments. -/
def envShellDialect : List Str → Option Str
  | [] => none
  | word :: words =>
    if envOptionTakesValue word then
      match words with
      | [] => none
      | _ :: words => envShellDialect words
    else if envOptionWithoutValue word || envAssignment word then envShellDialect words
    else if (ascii "-").isPrefixOf word then none
    else (shellCommandName word).bind knownShellDialect

def shellShebangDialect (bytes : Str) : Option Str := do
  let line := bytes.takeWhile fun b => b ≠ 13 ∧ b ≠ 10
  let command ← stripPrefix (ascii "#!") line
  match splitAsciiWhitespace command with
  | [] => none
  | word :: words =>
    let interpreter ← shellCommandName word
    if interpreter = ascii "env" then envShellDialect words else knownShellDialect interpreter

/-- The mode of a file, where a shell script has its dialect from its first line. -/
def resolveLanguage (path : RepoPath) (bytes : Str) : Option (Language × Str) := do
  let (language, mode) ← detectLanguage path
  if language ≠ .shell then some (language, mode)
  else
    let dialect := (shellShebangDialect bytes).getD
      (if hasExtension path.bytes (ascii ".bash") then ascii "bash" else ascii "sh")
    some (language, ascii "shell:" ++ dialect ++ ascii ":" ++ platform.os)

end

end Opcore
