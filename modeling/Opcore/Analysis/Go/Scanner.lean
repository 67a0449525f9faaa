/-
  Opcore.Analysis.Go.Scanner

  The hand-written scanner of Go sources: where tokens begin and end, where a
  line break ends a statement, and how deeply the source is nested.

  The source's functions walk an index over the bytes and return a new one.
  Here they take what is left from the index on and return how many bytes they
  pass.
-/
import Opcore.Analysis.Analyze

namespace Opcore.Go

open Text

/-- The letters and digits of Unicode beyond ASCII; a character is given by its
    encoding. -/
class UnicodeClasses where
  isAlphabetic : Str → Bool
  isNumeric : Str → Bool

/-! ## Nesting -/

structure Structure where
  delimiters : Nat := 0
  unary : Nat := 0
  expressionNodes : Nat := 0
  braceExpressions : List Nat := []
  deriving DecidableEq

namespace Structure

def openExpression (s : Structure) : Structure :=
  { s with delimiters := s.delimiters + 1, expressionNodes := s.expressionNodes + 1, unary := 0 }

def openBrace (s : Structure) : Structure :=
  { s with
    delimiters := s.delimiters + 1
    braceExpressions := s.expressionNodes :: s.braceExpressions
    expressionNodes := 0
    unary := 0 }

def closeExpression (s : Structure) : Structure :=
  { s with delimiters := s.delimiters - 1, unary := 0 }

def closeBrace (s : Structure) : Structure :=
  { s with
    delimiters := s.delimiters - 1
    expressionNodes := s.braceExpressions.head?.getD 0
    braceExpressions := s.braceExpressions.tail
    unary := 0 }

def unaryOperator (s : Structure) : Structure :=
  { s with expressionNodes := s.expressionNodes + 1, unary := s.unary + 1 }

def expressionOperator (s : Structure) : Structure :=
  { s with expressionNodes := s.expressionNodes + 1, unary := 0 }

def statementBoundary (s : Structure) : Structure :=
  { s with unary := 0, expressionNodes := 0 }

def validate (s : Structure) : Except AnalysisError Structure :=
  if s.delimiters > maxStructuralDepth ∨ s.unary > maxStructuralDepth
      ∨ s.expressionNodes > maxStructuralDepth then
    .error (.unsupported
      (ascii "Go source structural depth exceeds the 256-level safety limit"))
  else .ok s

def isUnaryOperator (token : Str) : Bool :=
  ["!", "^", "+", "-", "*", "&", "<-"].any (ascii · = token)

def isExpressionOperator (token : Str) : Bool :=
  [".", "&&", "||", "==", "!=", "<", ">", "<=", ">=", "/", "%", "|", "<<", ">>", "&^"].any
    (ascii · = token)

/-- The counters after a token, before they are checked. -/
def observe (s : Structure) (token : Str) : Structure :=
  if token = ascii "(" ∨ token = ascii "[" then s.openExpression
  else if token = ascii "\x7b" then s.openBrace
  else if token = ascii ")" ∨ token = ascii "]" then s.closeExpression
  else if token = ascii "\x7d" then s.closeBrace
  else if token = ascii ";" ∨ token = ascii "," then s.statementBoundary
  else if isUnaryOperator token then s.unaryOperator
  else if isExpressionOperator token then s.expressionOperator
  else { s with unary := 0 }

def token (s : Structure) (token : Str) : Except AnalysisError Structure :=
  (s.observe token).validate

end Structure

/-! ## How far a piece of the source reaches -/

/-- The two bytes that break lines. -/
def isBreak (b : UInt8) : Bool := b = 13 || b = 10

def consumeNewline (s : Str) : Nat := if s.take 2 = [13, 10] then 2 else 1

def lineEnd (s : Str) : Nat := (s.takeWhile fun b => !isBreak b).length

/-- What is passed of a block comment behind its first two bytes, and the first line
    break in it; `index` bytes have been passed already. -/
def consumeBlockComment (newline : Option Nat) (index : Nat) : Str → Nat × Option Nat
  | [] => (index, newline)
  | b :: s =>
    if (ascii "*/").isPrefixOf (b :: s) then (index + 2, newline)
    else
      consumeBlockComment (if newline.isNone && isBreak b then some index else newline)
        (index + 1) s

/-- The rest of a quoted literal behind its first quote.  A backslash passes the byte
    after it, whatever it is. -/
def consumeQuotedRest (quote : UInt8) : Str → Nat
  | [] => 0
  | [b] => if b = byte '\\' ∨ b = quote then 1 else if isBreak b then 0 else 1
  | b :: c :: s =>
    if b = byte '\\' then 2 + consumeQuotedRest quote s
    else if b = quote then 1
    else if isBreak b then 0
    else 1 + consumeQuotedRest quote (c :: s)

def consumeQuoted : Str → Nat
  | [] => 0
  | quote :: s => 1 + consumeQuotedRest quote s

def consumeRawRest : Str → Nat
  | [] => 0
  | b :: s => if b = byte '\x60' then 1 else 1 + consumeRawRest s

def consumeRaw : Str → Nat
  | [] => 0
  | _ :: s => 1 + consumeRawRest s

def consumeNumber (s : Str) : Nat :=
  (s.takeWhile fun b => isAsciiAlphanumeric b || b = byte '_' || b = byte '.').length

def isMultiOperator (token : Str) : Bool :=
  ["...", "<<=", ">>=", "&^=", "++", "--", "==", "!=", "<=", ">=", "&&", "||", "<-", ":=", "<<",
    ">>", "&^", "+=", "-=", "*=", "/=", "%=", "&=", "|=", "^="].any (ascii · = token)

def consumeOperator (s : Str) : Nat :=
  if 3 ≤ s.length ∧ isMultiOperator (s.take 3) then 3
  else if 2 ≤ s.length ∧ isMultiOperator (s.take 2) then 2
  else 1

def identifierStart (b : UInt8) : Bool := b = byte '_' || isAsciiAlphabetic b || 0x80 ≤ b

def isKeyword (token : Str) : Bool :=
  ["break", "default", "func", "interface", "select", "case", "defer", "go", "map", "struct",
    "chan", "else", "goto", "package", "switch", "const", "fallthrough", "if", "range", "type",
    "continue", "for", "import", "return", "var"].any (ascii · = token)

section

variable [classes : UnicodeClasses]

/-- `char::is_alphabetic`. -/
def isAlphabetic (character : Str) : Bool :=
  match character with
  | [b] => isAsciiAlphabetic b
  | _ => classes.isAlphabetic character

/-- `char::is_numeric`. -/
def isNumeric (character : Str) : Bool :=
  match character with
  | [b] => byte '0' ≤ b ∧ b ≤ byte '9'
  | _ => classes.isNumeric character

def identifierCharacter (character : Str) (first : Bool) : Bool :=
  character = ascii "_" || isAlphabetic character || (!first && isNumeric character)

/-- The characters of an identifier; one round a byte is enough.  A text that starts
    inside a character has none. -/
def identifierLength : Nat → Bool → Str → Nat
  | 0, _, _ => 0
  | n + 1, first, s =>
    match utf8Step s with
    | .error _ => 0
    | .ok width =>
      if identifierCharacter (s.take width) first then
        width + identifierLength n false (s.drop width)
      else 0

def consumeIdentifier (s : Str) : Nat := max (identifierLength s.length true s) 1

/-! ## The scanner -/

/-- The source's field `structure` is `nesting` here. -/
structure Scanner where
  rest : Str
  index : Nat := 0
  tokens : List GoToken := []
  nesting : Structure := {}
  canInsertSemicolon : Bool := false

namespace Scanner

/-- Pass some bytes. -/
def skip (s : Scanner) (width : Nat) : Scanner :=
  { s with rest := s.rest.drop width, index := s.index + width }

def recordNewline (s : Scanner) (position : Nat) : Scanner :=
  if ¬ s.canInsertSemicolon then s
  else
    { s with
      tokens := s.tokens ++ [⟨position, position, 4, false, true⟩]
      nesting := s.nesting.statementBoundary
      canInsertSemicolon := false }

/-- White space and comments; nothing if a token starts here. -/
def advanceTrivia (s : Scanner) : Option Scanner :=
  match s.rest with
  | [] => none
  | b :: rest =>
    if b = byte ' ' ∨ b = 9 ∨ b = 12 then some (s.skip 1)
    else if isBreak b then
      some ((s.skip (consumeNewline s.rest)).recordNewline s.index)
    else if b = byte '/' ∧ rest.head? = some (byte '/') then some (s.skip (lineEnd s.rest))
    else if b = byte '/' ∧ rest.head? = some (byte '*') then
      let (width, newline) := consumeBlockComment none 2 (s.rest.drop 2)
      match newline with
      | some newline => some ((s.skip width).recordNewline (s.index + newline))
      | none => some (s.skip width)
    else none

def identifier (s : Scanner) : Nat × UInt8 × Bool :=
  let width := consumeIdentifier s.rest
  let text := s.rest.take width
  let keyword := isKeyword text
  (width, if keyword then 3 else 1,
    !keyword || ["break", "continue", "fallthrough", "return"].any (ascii · = text))

def operator (s : Scanner) : Nat × UInt8 × Bool :=
  let width := consumeOperator s.rest
  let text := s.rest.take width
  (width, 4, [")", "]", "\x7d", "++", "--"].any (ascii · = text))

def push (s : Scanner) (width : Nat) (tag : UInt8) : Except AnalysisError Scanner := do
  let nesting ← s.nesting.token (s.rest.take width)
  .ok { s with
    nesting := nesting
    tokens := s.tokens ++ [⟨s.index, s.index + width, tag, true, false⟩] }

def significant (s : Scanner) : Nat × UInt8 × Bool :=
  match s.rest.head? with
  | none => s.operator
  | some b =>
    if b = byte '\x22' ∨ b = byte '\x27' then (consumeQuoted s.rest, 2, true)
    else if b = byte '\x60' then (consumeRaw s.rest, 2, true)
    else if identifierStart b then s.identifier
    else if byte '0' ≤ b ∧ b ≤ byte '9' then (consumeNumber s.rest, 2, true)
    else s.operator

def advanceSignificant (s : Scanner) : Except AnalysisError Scanner := do
  let (width, tag, semicolon) := s.significant
  let next ← s.push width tag
  .ok { next.skip width with canInsertSemicolon := semicolon }

/-- The loop of `scan`, with a bound on its rounds; nothing when they do not suffice. -/
def scan : Nat → Scanner → Option (Except AnalysisError (List GoToken))
  | 0, _ => none
  | rounds + 1, s =>
    if s.rest = [] then some (.ok s.tokens)
    else
      match s.advanceTrivia with
      | some next => scan rounds next
      | none =>
        match s.advanceSignificant with
        | .error error => some (.error error)
        | .ok next => scan rounds next

end Scanner

/-- Every round passes a byte, so one round more than there are bytes is enough
    (`scan_isSome`). -/
def scanTokens (source : Str) : Option (Except AnalysisError (List GoToken)) :=
  Scanner.scan (source.length + 1) { rest := source }

end

end Opcore.Go
