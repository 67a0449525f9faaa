/-
  Opcore.Analysis.Node.Metrics

  The nesting metric of the Node analyzer.  The analyzer has a flat list of tokens and
  the token ranges of the functions; it pairs delimiters, gives every token to the
  innermost function, turns control bodies into intervals of tokens, and counts how
  many intervals of a function lie around one point.
-/
import Mathlib.Data.List.Sort
import Mathlib.Data.Prod.Lex
import Mathlib.Algebra.Group.Nat.Defs

namespace Opcore.NodeMetrics

/-! ## Tokens and delimiters -/

/-- Token kinds.  Those that the metric does not tell apart are `other`. -/
inductive Kind where
  | lParen | rParen | lCurly | rCurly | lBrack | rBrack | semicolon
  | if_ | else_ | for_ | while_ | switch_ | catch_ | try_ | finally_ | do_ | with_
  | other (code : Nat)
  deriving DecidableEq

/-- One stack of open delimiters with the pairs found so far. -/
structure Pairing where
  stack : List Nat := []
  openToClose : List (Option Nat)
  closeToOpen : List (Option Nat)

def Pairing.push (pairing : Pairing) (index : Nat) : Pairing :=
  { pairing with stack := index :: pairing.stack }

/-- `pair`. -/
def Pairing.pair (pairing : Pairing) (close : Nat) : Pairing :=
  match pairing.stack with
  | [] => pairing
  | opened :: stack =>
    { stack
      openToClose := pairing.openToClose.set opened (some close)
      closeToOpen := pairing.closeToOpen.set close (some opened) }

structure Delimiters where
  parens : Pairing
  braces : Pairing
  brackets : Pairing

namespace Delimiters

def step (delimiters : Delimiters) (token : Kind × Nat) : Delimiters :=
  match token.1 with
  | .lParen => { delimiters with parens := delimiters.parens.push token.2 }
  | .rParen => { delimiters with parens := delimiters.parens.pair token.2 }
  | .lCurly => { delimiters with braces := delimiters.braces.push token.2 }
  | .rCurly => { delimiters with braces := delimiters.braces.pair token.2 }
  | .lBrack => { delimiters with brackets := delimiters.brackets.push token.2 }
  | .rBrack => { delimiters with brackets := delimiters.brackets.pair token.2 }
  | _ => delimiters

/-- Nothing is paired yet. -/
def unpaired (length : Nat) : Delimiters :=
  let none : Pairing :=
    { openToClose := List.replicate length none, closeToOpen := List.replicate length none }
  ⟨none, none, none⟩

/-- `Delimiters::new`. -/
def new (tokens : List Kind) : Delimiters :=
  tokens.zipIdx.foldl step (unpaired tokens.length)

/-- What a pairing has for an opening delimiter. -/
def parenOpen (delimiters : Delimiters) (index : Nat) : Option Nat :=
  (delimiters.parens.openToClose[index]?).join

@[inherit_doc parenOpen]
def braceOpen (delimiters : Delimiters) (index : Nat) : Option Nat :=
  (delimiters.braces.openToClose[index]?).join

@[inherit_doc parenOpen]
def bracketOpen (delimiters : Delimiters) (index : Nat) : Option Nat :=
  (delimiters.brackets.openToClose[index]?).join

end Delimiters

/-! ## Functions and the tokens they own -/

/-- The token range of a function, and that of its body without the delimiters. -/
structure FunctionFact where
  start : Nat
  finish : Nat
  body : Option (Nat × Nat)

section Owners

variable (functions : List FunctionFact)

def finishOf (index : Nat) : Nat := (functions[index]?.map FunctionFact.finish).getD 0

/-- The functions that start at a token, the longest first. -/
def startsAt (token : Nat) : List Nat :=
  ((List.range functions.length).filter fun index =>
    functions[index]?.any fun function => function.start = token).insertionSort
    fun left right => finishOf functions right ≤ finishOf functions left

/-- The stack of functions around a token, innermost first, from the one before it. -/
def enterToken (stack : List Nat) (token : Nat) : List Nat :=
  (startsAt functions token).reverse ++ stack.dropWhile fun index => finishOf functions index < token

def ownerStack : Nat → List Nat
  | 0 => enterToken functions [] 0
  | token + 1 => enterToken functions (ownerStack token) (token + 1)

/-- `function_owners`. -/
def functionOwners (tokenCount : Nat) : List (Option Nat) :=
  (List.range tokenCount).map fun token => (ownerStack functions token).head?

end Owners

/-! ## Intervals -/

def inFunctionBody (body : Option (Nat × Nat)) (token : Nat) : Bool :=
  body.any fun range => range.1 < token && token < range.2

def isNestingKeyword : Kind → Bool
  | .if_ | .else_ | .for_ | .while_ | .switch_ | .catch_ | .try_ | .finally_ | .do_ | .with_ => true
  | _ => false

/-- Whether a keyword may have a header in parentheses. -/
def hasHeader : Kind → Bool
  | .if_ | .for_ | .while_ | .switch_ | .catch_ | .with_ => true
  | _ => false

section Intervals

variable (tokens : List Kind) (delimiters : Delimiters)

def controlStatementStart (keyword functionEnd : Nat) : Option Nat := do
  let index := keyword + 1
  let index ← if tokens[keyword]?.any hasHeader ∧ tokens[index]? = some .lParen then
      (delimiters.parenOpen index).map (· + 1)
    else some index
  if index < functionEnd then some index else none

/-- `unbraced_statement_end`.  Every round moves to a later token, so `functionEnd - start`
    rounds are enough. -/
def unbracedStatementEnd (functionEnd : Nat) : Nat → Nat → Nat
  | 0, _ => functionEnd
  | fuel + 1, index =>
    if index < functionEnd then
      match tokens[index]? with
      | some .lParen =>
        unbracedStatementEnd functionEnd fuel ((delimiters.parenOpen index).getD index + 1)
      | some .lBrack =>
        unbracedStatementEnd functionEnd fuel ((delimiters.bracketOpen index).getD index + 1)
      | some .lCurly =>
        unbracedStatementEnd functionEnd fuel ((delimiters.braceOpen index).getD index + 1)
      | some .semicolon => index
      | _ => unbracedStatementEnd functionEnd fuel (index + 1)
    else functionEnd

def nestingInterval (keyword start functionEnd : Nat) : Option (Nat × Nat) :=
  if tokens[start]? = some .lCurly then
    (delimiters.braceOpen start).map fun close => (start, close)
  else
    some (keyword, unbracedStatementEnd tokens delimiters functionEnd (functionEnd - start) start)

variable (functions : List FunctionFact) (owners : List (Option Nat))

/-- Whether a token is a control keyword in the body of its function, and not the `else`
    of an `else if`. -/
def opensInterval (function : FunctionFact) (index : Nat) (token : Kind) : Bool :=
  inFunctionBody function.body index && isNestingKeyword token
    && !(token = .else_ && tokens[index + 1]? = some .if_)

/-- The interval a token opens, with the function it counts for. -/
def intervalAt (index : Nat) : Option (Nat × Nat × Nat) := do
  let token ← tokens[index]?
  let owner ← owners[index]?.join
  let function ← functions[owner]?
  if opensInterval tokens function index token then
    let functionEnd := (function.body.map Prod.snd).getD index
    let start ← controlStatementStart tokens delimiters index functionEnd
    if owners[start]?.join = some owner then
      let interval ← nestingInterval tokens delimiters index start functionEnd
      some (owner, interval)
    else none
  else none

def addInterval (intervals : List (List (Nat × Nat))) (index : Nat) : List (List (Nat × Nat)) :=
  match intervalAt tokens delimiters functions owners index with
  | some (owner, interval) => intervals.modify owner (· ++ [interval])
  | none => intervals

/-- `nesting_intervals`. -/
def nestingIntervals : List (List (Nat × Nat)) :=
  (List.range tokens.length).foldl (addInterval tokens delimiters functions owners)
    (List.replicate functions.length [])

end Intervals

/-! ## The metric -/

def u32Max : Nat := 2 ^ 32 - 1

/-- One interval: leave those that are closed where it opens, then enter it. -/
def enterInterval (state : List Nat × Nat) (interval : Nat × Nat) : List Nat × Nat :=
  let active := interval.2 :: state.1.dropWhile (· ≤ interval.1)
  (active, max state.2 (min active.length u32Max))

def maximumNesting (intervals : List (Nat × Nat)) : Nat :=
  ((intervals.insertionSort fun left right => toLex left ≤ toLex right).foldl
    enterInterval ([], 0)).2

/-- `function_nestings`. -/
def functionNestings (tokens : List Kind) (delimiters : Delimiters)
    (functions : List FunctionFact) (owners : List (Option Nat)) : List Nat :=
  (nestingIntervals tokens delimiters functions owners).map maximumNesting

end Opcore.NodeMetrics
