/-
  Opcore.Analysis.Hygiene

  The checks every source file gets before its language's analysis, and the
  line bookkeeping the analysers share.  All of it reads the bytes alone.
-/
import Opcore.Model

namespace Opcore

open Text Collections

/-! ## Lines -/

def isLineBreak (b : UInt8) : Bool := b = 10 || b = 13

def utf8Bom : Str := [0xEF, 0xBB, 0xBF]

/-- The source after a byte-order mark, and the number of bytes skipped. -/
def sourceWithoutUtf8Bom (bytes : Str) : Str × Nat :=
  match stripPrefix utf8Bom bytes with
  | some body => (body, utf8Bom.length)
  | none => (bytes, 0)

structure LineIndex where
  starts : List Nat
  byteBase : Nat
  deriving DecidableEq

/-- The starts of the lines after the one `index` is on. -/
def lineStarts : Nat → Str → List Nat
  | _, [] => []
  | index, 13 :: 10 :: source => (index + 2) :: lineStarts (index + 2) source
  | index, b :: source =>
    if isLineBreak b then (index + 1) :: lineStarts (index + 1) source
    else lineStarts (index + 1) source

namespace LineIndex

def new (source : Str) (byteBase : Nat) : LineIndex := ⟨0 :: lineStarts 0 source, byteBase⟩

def position (lines : LineIndex) (offset : Nat) : Position :=
  let lineIndex := (lines.starts.countP (· ≤ offset)) - 1
  let lineStart := lines.starts[lineIndex]?.getD 0
  { line := min (lineIndex + 1) u32Max
    column := min (offset - lineStart + 1) u32Max
    byte := min (offset + lines.byteBase) u32Max }

def byteRange (lines : LineIndex) (start stop : Nat) : SourceRange :=
  ⟨lines.position start, lines.position stop⟩

end LineIndex

def trimAsciiWhitespace (bytes : Str) : Str :=
  ((bytes.dropWhile isAsciiWhitespace).reverse.dropWhile isAsciiWhitespace).reverse

/-- The last line with something on it before a line break, looking back
    through the reversed text.  Every round drops the break it starts at, so
    the length of the text is enough rounds. -/
def previousLine : Nat → Str → Str
  | 0, _ => []
  | n + 1, reversed =>
    let reversed := reversed.dropWhile isLineBreak
    let line := trimAsciiWhitespace (reversed.takeWhile fun b => !isLineBreak b).reverse
    let rest := reversed.dropWhile fun b => !isLineBreak b
    if line = [] ∧ rest ≠ [] then previousLine n rest else line

def anchoredLine (bytes : Str) (offset : Nat) : Str :=
  let offset := min offset bytes.length
  let reversed := (bytes.take offset).reverse
  let whole := (reversed.takeWhile fun b => !isLineBreak b).reverse
    ++ (bytes.drop offset).takeWhile fun b => !isLineBreak b
  let line := trimAsciiWhitespace ((stripPrefix utf8Bom whole).getD whole)
  let rest := reversed.dropWhile fun b => !isLineBreak b
  if line = [] ∧ rest ≠ [] then previousLine rest.length rest else line

/-- The identity of the line at an offset, or of the last line before it that
    is not blank. -/
def lineAnchor [Sha256] (bytes : Str) (offset : Nat) : Str :=
  hexEncode ((hashDomain (ascii "source-line-anchor/v1") [anchoredLine bytes offset]).take 12)

/-! ## Facts of sources that do not parse -/

def parserEvidence (parser parserVersion : Str) : BTreeMap Str EvidenceValue :=
  BTreeMap.ofList
    [(ascii "parser", .text parser), (ascii "parserVersion", .text parserVersion)]

def parserFailureFacts (parser parserVersion : Str) (diagnostics : List RawDiagnostic) :
    FileFacts where
  diagnostics := diagnostics
  parser := parser
  parserVersion := parserVersion
  dependencies := { status := .parserFailed }
  callableFingerprints := { status := .parserFailed }
  regionFingerprints := { status := .parserFailed }
  interfaces := { status := .parserFailed }

def invalidUtf8Diagnostic [Sha256] (language ruleId source : Str) (lines : LineIndex)
    (evidence : BTreeMap Str EvidenceValue) : RawDiagnostic :=
  let error := utf8Error source
  let start := error.validUpTo
  let stop := min (start + error.errorLen.getD 1) source.length
  { ruleId := ruleId
    severity := .error
    message := language ++ ascii " source is not valid UTF-8"
    range := some (lines.byteRange start stop)
    entityKey := ascii "syntax:invalid-utf8:" ++ lineAnchor source start
    causeKey := ascii "invalid_utf8"
    evidence := evidence }

/-! ## Hygiene -/

namespace Hygiene

structure MetricInput where
  ruleId : Str
  message : Str
  line : Nat
  start : Nat
  stop : Nat
  entity : Str
  actual : Nat
  limit : Nat

/-- The diagnostic of a number beyond its limit. -/
def metric (input : MetricInput) : RawDiagnostic where
  ruleId := input.ruleId
  severity := .warning
  message := input.message
  range := some
    ⟨⟨input.line, 1, min input.start u32Max⟩,
      ⟨input.line, min (input.stop - input.start + 1) u32Max, min input.stop u32Max⟩⟩
  entityKey := input.entity
  causeKey := ascii ("limit:" ++ toString input.limit)
  evidence := BTreeMap.ofList
    [(ascii "actual", .number input.actual), (ascii "limit", .number input.limit)]

structure ScanState where
  diagnostics : List RawDiagnostic := []
  lineCount : Nat := 0
  lineStart : Nat := 0

variable [Sha256]

/-- Check the line from `lineStart` to `stop`.  The byte-order mark of the first
    line does not count. -/
def checkLine (bytes : Str) (limits : RuleLimits) (stop : Nat) (s : ScanState) :
    Except AnalysisError ScanState :=
  let number := min (s.lineCount + 1) u32Max
  let line := (bytes.take stop).drop s.lineStart
  let contentStart := if number = 1 ∧ utf8Bom.isPrefixOf line then s.lineStart + 3 else s.lineStart
  let contentLen := stop - contentStart
  if maxLineBytes < contentLen then
    .error (.unsupported (ascii
      s!"line {number} is {contentLen} bytes; hard limit is {maxLineBytes}"))
  else if limits.maxLineBytes < contentLen then
    .ok { s with
      diagnostics := s.diagnostics ++ [metric
        { ruleId := ascii "hygiene.max-line-bytes"
          message := ascii
            s!"line has {contentLen} bytes; configured maximum is {limits.maxLineBytes}"
          line := number
          start := contentStart
          stop := stop
          entity := ascii "line:" ++ lineAnchor bytes s.lineStart
          actual := contentLen
          limit := limits.maxLineBytes }] }
  else .ok s

/-- Check the line that ends at `cursor` and start the next one at `next`. -/
def endLine (bytes : Str) (limits : RuleLimits) (cursor next : Nat) (s : ScanState) :
    Except AnalysisError ScanState := do
  let s ← checkLine bytes limits cursor s
  pure { s with lineCount := min (s.lineCount + 1) u32Max, lineStart := next }

/-- The loop of `analyze` over what is left of the bytes. -/
def scanLines (bytes : Str) (limits : RuleLimits) :
    Str → Nat → ScanState → Except AnalysisError ScanState
  | [], cursor, s => if s.lineStart < cursor then endLine bytes limits cursor s.lineStart s else .ok s
  | 13 :: 10 :: rest, cursor, s => do
    let s ← endLine bytes limits cursor (cursor + 2) s
    scanLines bytes limits rest (cursor + 2) s
  | b :: rest, cursor, s =>
    if isLineBreak b then do
      let s ← endLine bytes limits cursor (cursor + 1) s
      scanLines bytes limits rest (cursor + 1) s
    else scanLines bytes limits rest (cursor + 1) s

/-- The checks on lines that every file goes through. -/
def analyze (bytes : Str) (limits : RuleLimits) : Except AnalysisError FileFacts :=
  if maxSourceBytes < bytes.length then
    .error (.unsupported (ascii
      s!"file is {bytes.length} bytes; limit is {maxSourceBytes}"))
  else do
    let s ← scanLines bytes limits bytes 0 {}
    let tooLong : List RawDiagnostic :=
      if limits.maxFileLines < s.lineCount then
        [metric
          { ruleId := ascii "hygiene.max-file-lines"
            message := ascii
              s!"file has {s.lineCount} lines; configured maximum is {limits.maxFileLines}"
            line := 1
            start := 0
            stop := bytes.length
            entity := ascii "file"
            actual := s.lineCount
            limit := limits.maxFileLines }]
      else []
    pure { diagnostics := s.diagnostics ++ tooLong }

end Hygiene

end Opcore
