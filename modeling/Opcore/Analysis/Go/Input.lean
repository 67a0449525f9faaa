/-
  Opcore.Analysis.Go.Input

  Which Go files belong to a build: the target named by the language mode, the
  constraint in a file name, and the build directives before the package
  clause.  A constraint is three-valued, since tags other than operating
  systems and architectures are set by whoever runs the build.
-/
import Opcore.Model

namespace Opcore.Go

open Text Collections

/-! ## Targets -/

structure GoTarget where
  os : Str
  arch : Str
  test : Bool
  deriving DecidableEq

inductive BuildStatus where
  | active
  | inactive
  | conditional
  deriving DecidableEq

def knownGoOs (value : Str) : Bool :=
  ["aix", "android", "darwin", "dragonfly", "freebsd", "hurd", "illumos", "ios", "js", "linux",
    "netbsd", "openbsd", "plan9", "solaris", "wasip1", "windows"].any (ascii · = value)

def unixGoOs (value : Str) : Bool :=
  ["aix", "android", "darwin", "dragonfly", "freebsd", "hurd", "illumos", "ios", "linux",
    "netbsd", "openbsd", "solaris"].any (ascii · = value)

def knownGoArch (value : Str) : Bool :=
  ["386", "amd64", "arm", "arm64", "loong64", "mips", "mips64", "mips64le", "mipsle", "ppc64",
    "ppc64le", "riscv64", "s390x", "wasm"].any (ascii · = value)

/-- The target of a mode `go:source:<goos>:<goarch>` or `go:test:<goos>:<goarch>`. -/
def modeTarget (mode : Str) : Option GoTarget :=
  match mode.splitOn (byte ':') with
  | [go, kind, os, arch] =>
    if go = ascii "go" ∧ (kind = ascii "source" ∨ kind = ascii "test") ∧ os ≠ [] ∧ arch ≠ [] then
      some { os := os, arch := arch, test := kind = ascii "test" }
    else none
  | _ => none

/-! ## Three-valued constraints -/

inductive Truth where
  | false
  | true
  | unknown
  deriving DecidableEq

namespace Truth

def not : Truth → Truth
  | .false => .true
  | .true => .false
  | .unknown => .unknown

def and : Truth → Truth → Truth
  | .false, _ => .false
  | _, .false => .false
  | .true, .true => .true
  | _, _ => .unknown

def or : Truth → Truth → Truth
  | .true, _ => .true
  | _, .true => .true
  | .false, .false => .false
  | _, _ => .unknown

def fromBool (value : Bool) : Truth := if value then .true else .false

end Truth

def evaluateTag (tag : Str) (target : GoTarget) : Truth :=
  if ¬ utf8Valid tag then .unknown
  else if tag = target.os ∨ tag = target.arch then .true
  else if knownGoOs tag || knownGoArch tag then .false
  else if tag = ascii "unix" then Truth.fromBool (unixGoOs target.os)
  else .unknown

/-! ## Modern directives

The recursive descent of `BuildExpression` over what is left of the expression.
The source recurses on a byte offset; here the first argument counts down the
calls, and `parse` starts it above any number of calls the text allows: every
call but the three between two parentheses consumes a byte. -/

namespace BuildExpression

def skipSpace (s : Str) : Str := s.dropWhile isAsciiWhitespace

def isTagByte (b : UInt8) : Bool := isAsciiAlphanumeric b || b = byte '_' || b = byte '.'

def parseTag (target : GoTarget) (s : Str) : Option (Truth × Str) :=
  let s := skipSpace s
  let tag := s.takeWhile isTagByte
  if tag = [] then none else some (evaluateTag tag target, s.dropWhile isTagByte)

mutual

def parseOr (target : GoTarget) : Nat → Nat → Str → Option (Truth × Str)
  | 0, _, _ => none
  | fuel + 1, depth, s => do
    let (value, s) ← parseAnd target fuel depth s
    parseOrRest target fuel depth value s

/-- The loop of `parse_or`. -/
def parseOrRest (target : GoTarget) : Nat → Nat → Truth → Str → Option (Truth × Str)
  | 0, _, _, _ => none
  | fuel + 1, depth, value, s =>
    let s := skipSpace s
    match stripPrefix (ascii "||") s with
    | none => some (value, s)
    | some s => do
      let (other, s) ← parseAnd target fuel depth s
      parseOrRest target fuel depth (value.or other) s

def parseAnd (target : GoTarget) : Nat → Nat → Str → Option (Truth × Str)
  | 0, _, _ => none
  | fuel + 1, depth, s => do
    let (value, s) ← parseUnary target fuel depth s
    parseAndRest target fuel depth value s

/-- The loop of `parse_and`. -/
def parseAndRest (target : GoTarget) : Nat → Nat → Truth → Str → Option (Truth × Str)
  | 0, _, _, _ => none
  | fuel + 1, depth, value, s =>
    let s := skipSpace s
    match stripPrefix (ascii "&&") s with
    | none => some (value, s)
    | some s => do
      let (other, s) ← parseUnary target fuel depth s
      parseAndRest target fuel depth (value.and other) s

def parseUnary (target : GoTarget) : Nat → Nat → Str → Option (Truth × Str)
  | 0, _, _ => none
  | fuel + 1, depth, s =>
    let s := skipSpace s
    match stripPrefix (ascii "!") s with
    | some s => do
      let (value, s) ← parseUnary target fuel depth s
      pure (value.not, s)
    | none =>
      match stripPrefix (ascii "(") s with
      | some s =>
        -- The bound is on parentheses only; `!` recurses without one.
        if maxStructuralDepth ≤ depth then none
        else do
          let (value, s) ← parseOr target fuel (depth + 1) s
          let s ← stripPrefix (ascii ")") (skipSpace s)
          pure (value, s)
      | none => parseTag target s

end

/-- `BuildExpression::parse`. -/
def parse (source : Str) (target : GoTarget) : Truth :=
  match parseOr target (4 * source.length + 8) 0 source with
  | some (value, rest) => if skipSpace rest = [] then value else .unknown
  | none => .unknown

end BuildExpression

/-! ## Legacy directives -/

def evaluateTerm (target : GoTarget) (term : Str) : Truth :=
  match stripPrefix (ascii "!") term with
  | some tag => (evaluateTag tag target).not
  | none => evaluateTag term target

def evaluateOption (target : GoTarget) (option : Str) : Truth :=
  (option.splitOn (byte ',')).foldl (fun all term => all.and (evaluateTerm target term)) .true

def evaluateLegacy (lines : List Str) (target : GoTarget) : Truth :=
  lines.foldl
    (fun allLines line =>
      allLines.and
        ((splitAsciiWhitespace line).foldl
          (fun any option => any.or (evaluateOption target option)) .false))
    .true

/-! ## Directives before the package clause -/

structure BuildDirectives where
  modern : List Str := []
  legacy : List Str := []
  deriving DecidableEq

/-- The text after a directive's marker, which a blank has to separate from it. -/
def directiveText (marker line : Str) : Option Str :=
  (stripPrefix marker line).bind fun expression =>
    if expression.head? = some (byte ' ') ∨ expression.head? = some 9 then some (trim expression)
    else none

def startsPackageClause (line : Str) : Bool :=
  (ascii "package ").isPrefixOf line || (ascii "package" ++ [9]).isPrefixOf line

def collectBuildDirectives (source : Str) : BuildDirectives :=
  ((lines source).map trimStart |>.takeWhile fun line => !startsPackageClause line).foldl
    (fun directives line =>
      if (ascii "//go:build").isPrefixOf line then
        { directives with
          modern := directives.modern ++ (directiveText (ascii "//go:build") line).toList }
      else
        { directives with
          legacy := directives.legacy ++ (directiveText (ascii "// +build") line).toList })
    {}

def evaluateBuildDirectives (source : Str) (target : GoTarget) : BuildStatus :=
  let directives := collectBuildDirectives source
  let result :=
    match directives.modern with
    | [] => evaluateLegacy directives.legacy target
    | [expression] => BuildExpression.parse expression target
    | _ => .unknown
  match result with
  | .true => .active
  | .false => .inactive
  | .unknown => .conditional

/-! ## File names -/

def architectureConstraint (parts : List Str) (target : GoTarget) (arch : Str) : Bool :=
  match parts[1]?.filter knownGoOs with
  | some os => os = target.os ∧ arch = target.arch
  | none => arch = target.arch

/-- What the last components of a file name say about the target, if anything.
    The components are read from the right, at most three of them. -/
def filenameConstraint (path : RepoPath) (target : GoTarget) : Option Bool := do
  let text ← path.asUtf8
  let filename ← (text.splitOn (byte '/')).getLast?
  let stem ← stripSuffix (ascii ".go") filename
  let stem ← if target.test then stripSuffix (ascii "_test") stem else some stem
  let parts := (stem.splitOn (byte '_')).reverse.take 3
  let first ← parts.head?
  if knownGoArch first then some (architectureConstraint parts target first)
  else if knownGoOs first then some (first = target.os)
  else none

/-- Does the file's name keep it out of the build? -/
def excludedByName (path : RepoPath) (target : GoTarget) : Bool :=
  filenameConstraint path target = some false

def buildStatus (path : RepoPath) (source : Str) (target : GoTarget) : BuildStatus :=
  if excludedByName path target then .inactive else evaluateBuildDirectives source target

end Opcore.Go
