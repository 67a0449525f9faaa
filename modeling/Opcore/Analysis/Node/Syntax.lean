/-
  Opcore.Analysis.Node.Syntax

  Syntax trees of JavaScript sources over their lexical elements, with the bytes each
  is written as and its depth.  No precedence and no statement grammar is asked for,
  so that there are at least the trees a parser makes.
-/
import Opcore.Analysis.Node.Preflight
import Opcore.Library.Depth

namespace Opcore.Node

open Text

/-! ## What stands between the elements -/

inductive LineTerminator where
  | lineFeed
  | carriageReturn
  | lineSeparator
  | paragraphSeparator
  deriving DecidableEq

def LineTerminator.text : LineTerminator → Str
  | .lineFeed => [10]
  | .carriageReturn => [13]
  | .lineSeparator => [226, 128, 168]
  | .paragraphSeparator => [226, 128, 169]

/-- White space and comments.  The white space outside of ASCII, and the vertical
    tab, are `wide`. -/
inductive Trivia where
  | space (b : UInt8) (space : isAsciiWhitespace b = true)
  | wide (text : Str) (wide : ∀ b ∈ text, b = 11 ∨ 128 ≤ b)
  | line (text : Str) (terminator : LineTerminator) (inside : ∀ b ∈ text, isLineEnd b = false)
  | block (text : Str) (inside : closesComment text = false)

def Trivia.text : Trivia → Str
  | .space b _ => [b]
  | .wide text _ => text
  | .line text terminator _ => byte '/' :: byte '/' :: text ++ terminator.text
  | .block text _ => byte '/' :: byte '*' :: text ++ [byte '*', byte '/']

/-- What may stand between the parts of a construct: white space, comments, and the
    bytes of names, keywords and separators. -/
inductive Filler where
  | trivia (trivia : Trivia)
  | mark (b : UInt8) (ordinary : isOrdinary b = true)

def Filler.text : Filler → Str
  | .trivia t => t.text
  | .mark b _ => [b]

def gapText (gap : List Trivia) : Str := gap.flatMap Trivia.text

def fillersText (fillers : List Filler) : Str := fillers.flatMap Filler.text

/-! ## Trees -/

inductive UnaryOp where
  | not
  | invert
  | plus
  | minus
  deriving DecidableEq

def UnaryOp.byte : UnaryOp → UInt8
  | .not => Text.byte '!'
  | .invert => Text.byte '~'
  | .plus => Text.byte '+'
  | .minus => Text.byte '-'

inductive BinaryOp where
  | add
  | sub
  | mul
  | div
  | rem
  | exp
  | shiftLeft
  | shiftRight
  | shiftRightZeroFill
  | less
  | lessEq
  | greater
  | greaterEq
  | eq
  | notEq
  | strictEq
  | strictNotEq
  | bitAnd
  | bitXor
  | bitOr
  | and
  | or
  | coalesce
  | in_
  | instanceof
  | assign
  deriving DecidableEq

def BinaryOp.text : BinaryOp → Str
  | .add => ascii "+"
  | .sub => ascii "-"
  | .mul => ascii "*"
  | .div => ascii "/"
  | .rem => ascii "%"
  | .exp => ascii "**"
  | .shiftLeft => ascii "<<"
  | .shiftRight => ascii ">>"
  | .shiftRightZeroFill => ascii ">>>"
  | .less => ascii "<"
  | .lessEq => ascii "<="
  | .greater => ascii ">"
  | .greaterEq => ascii ">="
  | .eq => ascii "=="
  | .notEq => ascii "!="
  | .strictEq => ascii "==="
  | .strictNotEq => ascii "!=="
  | .bitAnd => ascii "&"
  | .bitXor => ascii "^"
  | .bitOr => ascii "|"
  | .and => ascii "&&"
  | .or => ascii "||"
  | .coalesce => ascii "??"
  | .in_ => ascii "in"
  | .instanceof => ascii "instanceof"
  | .assign => ascii "="

inductive Bracket where
  | paren
  | square
  | brace
  deriving DecidableEq

def Bracket.opening : Bracket → UInt8
  | .paren => byte '('
  | .square => byte '['
  | .brace => 123

def Bracket.closing : Bracket → UInt8
  | .paren => byte ')'
  | .square => byte ']'
  | .brace => 125

/-- A name, a number or a keyword. -/
structure Word where
  text : Str
  nonempty : text ≠ []
  ordinary : ∀ b ∈ text, isOrdinary b = true

/-- The text of a template between two expressions. -/
structure TemplateText where
  units : List (TextUnit 96)
  inside : opensExpression units = false

mutual

inductive Expr where
  | word (word : Word)
  | string (quote : Quote) (units : List (TextUnit quote.byte))
  | template (text : TemplateText) (expressions : Expressions)
  | regex (body flags : Str)
  | unary (op : UnaryOp) (gap : List Trivia) (operand : Expr)
  /-- A keyword in front of an operand, a label in front of a statement, a parameter
      in front of the body of an arrow function. -/
  | keyword (fillers : List Filler) (operand : Expr)
  | binary (op : BinaryOp) (left : Expr) (before after : List Trivia) (right : Expr)
  | member (value : Expr) (fillers : List Filler)
  | call (function : Expr) (gap : List Trivia) (bracket : Bracket) (arguments : Items)
  | conditional (test : Expr) (before after : List Trivia) (consequent : Expr)
      (before' after' : List Trivia) (alternate : Expr)
  /-- A parenthesized list in front of a body: an arrow function, a loop or a branch
      with a body that has no braces of its own. -/
  | headed (fillers : List Filler) (header : Items) (fillers' : List Filler) (body : Expr)
  /-- `if (test) body else rest`, where the rest may be the next `if`. -/
  | branch (fillers : List Filler) (test : Items) (gap : List Trivia) (body : Expr)
      (fillers' : List Filler) (rest : Expr)
  | group (bracket : Bracket) (items : Items)

inductive Items where
  | last (fillers : List Filler)
  | item (fillers : List Filler) (expr : Expr) (rest : Items)

/-- The expressions of a template, each with the text after it. -/
inductive Expressions where
  | done
  | expression (items : Items) (text : TemplateText) (rest : Expressions)

end

mutual

def Expr.text : Expr → Str
  | .word w => w.text
  | .string quote units => quote.byte :: unitsText units ++ [quote.byte]
  | .template text expressions => 96 :: unitsText text.units ++ expressions.text
  | .regex body flags => byte '/' :: body ++ byte '/' :: flags
  | .unary op gap operand => op.byte :: gapText gap ++ operand.text
  | .keyword fillers operand => fillersText fillers ++ operand.text
  | .binary op left before after right =>
    left.text ++ gapText before ++ op.text ++ gapText after ++ right.text
  | .member value fillers => value.text ++ byte '.' :: fillersText fillers
  | .call function gap bracket arguments =>
    function.text ++ gapText gap ++ bracket.opening :: arguments.text ++ [bracket.closing]
  | .conditional test before after consequent before' after' alternate =>
    test.text ++ gapText before ++ byte '?' :: gapText after ++ consequent.text
      ++ gapText before' ++ byte ':' :: gapText after' ++ alternate.text
  | .headed fillers header fillers' body =>
    fillersText fillers ++ byte '(' :: header.text ++ byte ')' :: fillersText fillers'
      ++ body.text
  | .branch fillers test gap body fillers' rest =>
    ascii "if" ++ fillersText fillers ++ byte '(' :: test.text ++ byte ')' :: gapText gap
      ++ body.text ++ ascii "else" ++ fillersText fillers' ++ rest.text
  | .group bracket items => bracket.opening :: items.text ++ [bracket.closing]

def Items.text : Items → Str
  | .last fillers => fillersText fillers
  | .item fillers expr rest => fillersText fillers ++ expr.text ++ rest.text

/-- What follows the first text of a template, up to its end. -/
def Expressions.text : Expressions → Str
  | .done => [96]
  | .expression items text rest =>
    byte '$' :: 123 :: items.text ++ 125 :: unitsText text.units ++ rest.text

end

mutual

def Expr.depth : Expr → Nat
  | .word _ | .string _ _ | .regex _ _ => 0
  | .template _ expressions => expressions.depth
  | .unary _ _ operand => operand.depth + 1
  | .keyword _ operand => operand.depth + 1
  | .binary _ left _ _ right => max left.depth right.depth + 1
  | .member value _ => value.depth + 1
  | .call function _ _ arguments => max function.depth arguments.depth + 1
  | .conditional test _ _ consequent _ _ alternate =>
    max test.depth (max consequent.depth alternate.depth) + 1
  | .headed _ header _ body => max header.depth body.depth + 1
  | .branch _ test _ body _ rest => max test.depth (max body.depth rest.depth) + 1
  | .group _ items => items.depth + 1

def Items.depth : Items → Nat
  | .last _ => 0
  | .item _ expr rest => max expr.depth rest.depth

def Expressions.depth : Expressions → Nat
  | .done => 0
  | .expression items _ rest => max (items.depth + 1) rest.depth

end

end Opcore.Node
