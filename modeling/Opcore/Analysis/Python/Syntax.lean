/-
  Opcore.Analysis.Python.Syntax

  Syntax trees of Python modules, with the tokens each is written as and its depth.
  No precedence is asked for, so that there are at least the trees a parser makes.
-/
import Opcore.Analysis.Python.Preflight
import Opcore.Library.Depth

namespace Opcore.Python

/-! ## Expressions -/

inductive UnaryOp where
  | not_
  | plus
  | minus
  | invert
  | await_
  deriving DecidableEq

def UnaryOp.token : UnaryOp → TokenKind
  | .not_ => .not_
  | .plus => .plus
  | .minus => .minus
  | .invert => .tilde
  | .await_ => .await_

inductive BinaryOp where
  | add
  | sub
  | mul
  | matMul
  | div
  | floorDiv
  | mod
  | pow
  | leftShift
  | rightShift
  | bitOr
  | bitXor
  | bitAnd
  | eq
  | notEq
  | less
  | lessEq
  | greater
  | greaterEq
  | is
  | isNot
  | in_
  | notIn
  | and_
  | or_
  deriving DecidableEq

def BinaryOp.tokens : BinaryOp → List TokenKind
  | .add => [.plus]
  | .sub => [.minus]
  | .mul => [.star]
  | .matMul => [.at_]
  | .div => [.slash]
  | .floorDiv => [.doubleSlash]
  | .mod => [.percent]
  | .pow => [.doubleStar]
  | .leftShift => [.leftShift]
  | .rightShift => [.rightShift]
  | .bitOr => [.vbar]
  | .bitXor => [.circumFlex]
  | .bitAnd => [.amper]
  | .eq => [.eqEqual]
  | .notEq => [.notEqual]
  | .less => [.less]
  | .lessEq => [.lessEqual]
  | .greater => [.greater]
  | .greaterEq => [.greaterEqual]
  | .is => [.is_]
  | .isNot => [.is_, .not_]
  | .in_ => [.in_]
  | .notIn => [.not_, .in_]
  | .and_ => [.and_]
  | .or_ => [.or_]

inductive Bracket where
  | paren
  | square
  | brace
  deriving DecidableEq

def Bracket.opening : Bracket → TokenKind
  | .paren => .lpar
  | .square => .lsqb
  | .brace => .lbrace

def Bracket.closing : Bracket → TokenKind
  | .paren => .rpar
  | .square => .rsqb
  | .brace => .rbrace

/-- The tokens that may stand between the expressions of a list: separators, names
    of arguments, stars, the words of a comprehension. -/
def TokenKind.isFiller (token : TokenKind) : Bool :=
  token.isWord && token ≠ .semi && delimitersAfter 1 token = 1

structure Filler where
  token : TokenKind
  filler : token.isFiller = true

mutual

inductive Expr where
  | leaf
  | unary (op : UnaryOp) (operand : Expr)
  | binary (op : BinaryOp) (left right : Expr)
  | attribute (value : Expr)
  | call (function : Expr) (arguments : Items)
  | subscript (value : Expr) (items : Items)
  | conditional (body test orelse : Expr)
  | lambda (parameters : Items) (body : Expr)
  | display (bracket : Bracket) (items : Items)

/-- The expressions of a list, with what stands before each and at the end. -/
inductive Items where
  | last (fillers : List Filler)
  | item (fillers : List Filler) (expr : Expr) (rest : Items)

end

def fillerTokens (fillers : List Filler) : List TokenKind := fillers.map Filler.token

mutual

def Expr.tokens : Expr → List TokenKind
  | .leaf => [.other]
  | .unary op operand => op.token :: operand.tokens
  | .binary op left right => left.tokens ++ op.tokens ++ right.tokens
  | .attribute value => value.tokens ++ [.dot, .other]
  | .call function arguments => function.tokens ++ .lpar :: arguments.tokens ++ [.rpar]
  | .subscript value items => value.tokens ++ .lsqb :: items.tokens ++ [.rsqb]
  | .conditional body test orelse =>
    body.tokens ++ .if_ :: test.tokens ++ .else_ :: orelse.tokens
  | .lambda parameters body => .lambda_ :: parameters.tokens ++ .colon :: body.tokens
  | .display bracket items => bracket.opening :: items.tokens ++ [bracket.closing]

def Items.tokens : Items → List TokenKind
  | .last fillers => fillerTokens fillers
  | .item fillers expr rest => fillerTokens fillers ++ expr.tokens ++ rest.tokens

end

mutual

def Expr.depth : Expr → Nat
  | .leaf => 0
  | .unary _ operand => operand.depth + 1
  | .binary _ left right => max left.depth right.depth + 1
  | .attribute value => value.depth + 1
  | .call function arguments => max function.depth arguments.depth + 1
  | .subscript value items => max value.depth items.depth + 1
  | .conditional body test orelse => max body.depth (max test.depth orelse.depth) + 1
  | .lambda parameters body => max parameters.depth body.depth + 1
  | .display _ items => items.depth + 1

def Items.depth : Items → Nat
  | .last _ => 0
  | .item _ expr rest => max expr.depth rest.depth

end

/-! ## What the counters follow -/

mutual

/-- The brackets that are open at once. -/
def Expr.brackets : Expr → Nat
  | .leaf => 0
  | .unary _ operand => operand.brackets
  | .binary _ left right => max left.brackets right.brackets
  | .attribute value => value.brackets
  | .call function arguments => max function.brackets (arguments.brackets + 1)
  | .subscript value items => max value.brackets (items.brackets + 1)
  | .conditional body test orelse => max body.brackets (max test.brackets orelse.brackets)
  | .lambda parameters body => max parameters.brackets body.brackets
  | .display _ items => items.brackets + 1

def Items.brackets : Items → Nat
  | .last _ => 0
  | .item _ expr rest => max expr.brackets rest.brackets

end

/-- The unary operators an expression starts with. -/
def Expr.lead : Expr → Nat
  | .unary _ operand => operand.lead + 1
  | _ => 0

mutual

/-- The most unary operators in a row. -/
def Expr.runs : Expr → Nat
  | .leaf => 0
  | .unary op operand => max (Expr.unary op operand).lead operand.runs
  | .binary _ left right => max left.runs right.runs
  | .attribute value => value.runs
  | .call function arguments => max function.runs arguments.runs
  | .subscript value items => max value.runs items.runs
  | .conditional body test orelse => max body.runs (max test.runs orelse.runs)
  | .lambda parameters body => max parameters.runs body.runs
  | .display _ items => items.runs

def Items.runs : Items → Nat
  | .last _ => 0
  | .item _ expr rest => max expr.runs rest.runs

end

/-- The tokens of an expression that are counted as its nodes. -/
def nodes (tokens : List TokenKind) : Nat := tokens.countP PythonStructure.countsNode

theorem lead_le_runs (expr : Expr) : expr.lead ≤ expr.runs := by
  cases expr with
  | unary op operand => exact le_max_left _ _
  | _ => exact Nat.zero_le _

theorem nodes_append (first second : List TokenKind) :
    nodes (first ++ second) = nodes first + nodes second := List.countP_append

theorem nodes_cons (token : TokenKind) (tokens : List TokenKind) :
    nodes (token :: tokens)
      = (if PythonStructure.countsNode token then 1 else 0) + nodes tokens := by
  unfold nodes
  rw [List.countP_cons, Nat.add_comm]

theorem nodes_nil : nodes [] = 0 := rfl

/-- An operator with its nodes counted. -/
theorem one_le_nodes_tokens {op : BinaryOp} (h : op ≠ .matMul) : 1 ≤ nodes op.tokens := by
  revert h
  cases op <;> decide

/-! ## Depth by counts

A node that is not unary has a token that is counted or a bracket around its parts,
so every other step down is paid for; what is left is runs of unary operators. -/

/-- The counts an expression is paid for with. -/
def Expr.counts (expr : Expr) : Nat := nodes expr.tokens + expr.brackets

def Items.counts (items : Items) : Nat := nodes items.tokens + items.brackets

/-- An expression as a part of one that has more counts. -/
theorem Expr.part_depth_lt (part : Expr) {run counts : Nat} (hruns : part.runs ≤ run)
    (h : part.depth ≤ depthBound part.counts run + part.lead) (hlt : part.counts < counts) :
    part.depth + 1 ≤ depthBound counts run :=
  depthBound_step h ((lead_le_runs part).trans hruns) hlt

theorem Items.part_depth_lt (items : Items) {run counts : Nat}
    (h : items.depth ≤ depthBound items.counts run + run) (hlt : items.counts < counts) :
    items.depth + 1 ≤ depthBound counts run :=
  depthBound_step h le_rfl hlt

mutual

theorem Expr.depth_le {run : Nat} : ∀ expr : Expr, .at_ ∉ expr.tokens → expr.runs ≤ run →
    expr.depth ≤ depthBound expr.counts run + expr.lead
  | .leaf, _, _ => Nat.zero_le _
  | .unary op operand, hat, hruns => by
    have hoperand := operand.depth_le (fun h => hat (by simp [Expr.tokens, h]))
      ((le_max_right _ _).trans hruns)
    have hcounts : operand.counts ≤ (Expr.unary op operand).counts := by
      unfold Expr.counts
      rw [show (Expr.unary op operand).tokens = [op.token] ++ operand.tokens from rfl, nodes_append]
      simp only [Expr.brackets]
      omega
    -- A prefix operator is no counted node: the lead pays for its level.
    have hmono := @depthBound_mono _ _ run hcounts
    simp only [Expr.depth, Expr.lead]
    omega
  | .binary op left right, hat, hruns => by
    -- `@` is the one operator that is not counted.
    have hop : op ≠ .matMul := by
      rintro rfl
      exact hat (by simp [Expr.tokens, BinaryOp.tokens])
    have hnode := one_le_nodes_tokens hop
    have hcounts : (Expr.binary op left right).counts = nodes left.tokens + nodes op.tokens
        + nodes right.tokens + max left.brackets right.brackets := by
      simp only [Expr.counts, Expr.tokens, Expr.brackets, nodes_append]
    have hleft := left.part_depth_lt ((le_max_left _ _).trans hruns)
      (left.depth_le (fun h => hat (by simp [Expr.tokens, h])) ((le_max_left _ _).trans hruns))
      (show _ < (Expr.binary op left right).counts by rw [hcounts, Expr.counts]; omega)
    have hright := right.part_depth_lt ((le_max_right _ _).trans hruns)
      (right.depth_le (fun h => hat (by simp [Expr.tokens, h])) ((le_max_right _ _).trans hruns))
      (show _ < (Expr.binary op left right).counts by rw [hcounts, Expr.counts]; omega)
    simp only [Expr.depth]
    omega
  | .attribute value, hat, hruns => by
    have hcounts : (Expr.attribute value).counts = value.counts + 1 := by
      simp only [Expr.counts, Expr.tokens, Expr.brackets, nodes_append]
      rw [show nodes [TokenKind.dot, .other] = 1 from rfl]
      omega
    have hvalue := value.part_depth_lt hruns
      (value.depth_le (fun h => hat (by simp [Expr.tokens, h])) hruns)
      (show _ < (Expr.attribute value).counts by omega)
    simp only [Expr.depth]
    omega
  | .call function arguments, hat, hruns => by
    have hcounts : (Expr.call function arguments).counts = nodes function.tokens + 1
        + nodes arguments.tokens + max function.brackets (arguments.brackets + 1) := by
      simp only [Expr.counts, Expr.tokens, Expr.brackets, nodes_append, nodes_cons, nodes_nil,
        PythonStructure.countsNode, if_true, Bool.false_eq_true, if_false]
      omega
    have hfunction := function.part_depth_lt ((le_max_left _ _).trans hruns)
      (function.depth_le (fun h => hat (by simp [Expr.tokens, h])) ((le_max_left _ _).trans hruns))
      (show _ < (Expr.call function arguments).counts by rw [hcounts, Expr.counts]; omega)
    have harguments := arguments.part_depth_lt
      (arguments.depth_le (fun h => hat (by simp [Expr.tokens, h]))
        ((le_max_right _ _).trans hruns))
      (show _ < (Expr.call function arguments).counts by rw [hcounts, Items.counts]; omega)
    simp only [Expr.depth]
    omega
  | .subscript value items, hat, hruns => by
    have hcounts : (Expr.subscript value items).counts = nodes value.tokens + 1
        + nodes items.tokens + max value.brackets (items.brackets + 1) := by
      simp only [Expr.counts, Expr.tokens, Expr.brackets, nodes_append, nodes_cons, nodes_nil,
        PythonStructure.countsNode, if_true, Bool.false_eq_true, if_false]
      omega
    have hvalue := value.part_depth_lt ((le_max_left _ _).trans hruns)
      (value.depth_le (fun h => hat (by simp [Expr.tokens, h])) ((le_max_left _ _).trans hruns))
      (show _ < (Expr.subscript value items).counts by rw [hcounts, Expr.counts]; omega)
    have hitems := items.part_depth_lt
      (items.depth_le (fun h => hat (by simp [Expr.tokens, h])) ((le_max_right _ _).trans hruns))
      (show _ < (Expr.subscript value items).counts by rw [hcounts, Items.counts]; omega)
    simp only [Expr.depth]
    omega
  | .conditional body test orelse, hat, hruns => by
    have hcounts : (Expr.conditional body test orelse).counts = nodes body.tokens + 1
        + nodes test.tokens + 1 + nodes orelse.tokens
        + max body.brackets (max test.brackets orelse.brackets) := by
      simp only [Expr.counts, Expr.tokens, Expr.brackets, nodes_append, nodes_cons,
        PythonStructure.countsNode, if_true]
      omega
    have hrest : max test.runs orelse.runs ≤ run := (le_max_right _ _).trans hruns
    have hbody := body.part_depth_lt ((le_max_left _ _).trans hruns)
      (body.depth_le (fun h => hat (by simp [Expr.tokens, h])) ((le_max_left _ _).trans hruns))
      (show _ < (Expr.conditional body test orelse).counts by rw [hcounts, Expr.counts]; omega)
    have htest := test.part_depth_lt ((le_max_left _ _).trans hrest)
      (test.depth_le (fun h => hat (by simp [Expr.tokens, h])) ((le_max_left _ _).trans hrest))
      (show _ < (Expr.conditional body test orelse).counts by rw [hcounts, Expr.counts]; omega)
    have horelse := orelse.part_depth_lt ((le_max_right _ _).trans hrest)
      (orelse.depth_le (fun h => hat (by simp [Expr.tokens, h])) ((le_max_right _ _).trans hrest))
      (show _ < (Expr.conditional body test orelse).counts by rw [hcounts, Expr.counts]; omega)
    simp only [Expr.depth]
    omega
  | .lambda parameters body, hat, hruns => by
    have hcounts : (Expr.lambda parameters body).counts = 1 + nodes parameters.tokens
        + nodes body.tokens + max parameters.brackets body.brackets := by
      simp only [Expr.counts, Expr.tokens, Expr.brackets, nodes_append, nodes_cons,
        PythonStructure.countsNode, List.cons_append, if_true, Bool.false_eq_true, if_false]
      omega
    have hparameters := parameters.part_depth_lt
      (parameters.depth_le (fun h => hat (by simp [Expr.tokens, h]))
        ((le_max_left _ _).trans hruns))
      (show _ < (Expr.lambda parameters body).counts by rw [hcounts, Items.counts]; omega)
    have hbody := body.part_depth_lt ((le_max_right _ _).trans hruns)
      (body.depth_le (fun h => hat (by simp [Expr.tokens, h])) ((le_max_right _ _).trans hruns))
      (show _ < (Expr.lambda parameters body).counts by rw [hcounts, Expr.counts]; omega)
    simp only [Expr.depth]
    omega
  | .display bracket items, hat, hruns => by
    have hcounts : items.counts < (Expr.display bracket items).counts := by
      simp only [Expr.counts, Items.counts, Expr.brackets]
      rw [show (Expr.display bracket items).tokens
          = [bracket.opening] ++ items.tokens ++ [bracket.closing] from rfl, nodes_append,
        nodes_append]
      omega
    have hitems := items.part_depth_lt
      (items.depth_le (fun h => hat (by simp [Expr.tokens, h])) hruns) hcounts
    simp only [Expr.depth]
    omega

theorem Items.depth_le {run : Nat} : ∀ items : Items, .at_ ∉ items.tokens → items.runs ≤ run →
    items.depth ≤ depthBound items.counts run + run
  | .last _, _, _ => Nat.zero_le _
  | .item fillers expr rest, hat, hruns => by
    have hexpr := expr.depth_le (fun h => hat (by simp [Items.tokens, h]))
      ((le_max_left _ _).trans hruns)
    have hrest := rest.depth_le (fun h => hat (by simp [Items.tokens, h]))
      ((le_max_right _ _).trans hruns)
    have hlead : expr.lead ≤ run := (lead_le_runs expr).trans ((le_max_left _ _).trans hruns)
    have hcounts : (Items.item fillers expr rest).counts = nodes (fillerTokens fillers)
        + nodes expr.tokens + nodes rest.tokens + max expr.brackets rest.brackets := by
      simp only [Items.counts, Items.tokens, Items.brackets, nodes_append]
    have hexpr' := @depthBound_mono expr.counts (Items.item fillers expr rest).counts run
      (by rw [hcounts, Expr.counts]; omega)
    have hrest' := @depthBound_mono rest.counts (Items.item fillers expr rest).counts run
      (by rw [hcounts, Items.counts]; omega)
    simp only [Items.depth]
    omega

end

/-! ## Statements -/

/-- A token of a line that is not part of an expression. -/
structure Word where
  token : TokenKind
  word : token.isWord = true

inductive Part where
  | word (word : Word)
  | expr (expr : Expr)

def Part.tokens : Part → List TokenKind
  | .word w => [w.token]
  | .expr e => e.tokens

def Part.depth : Part → Nat
  | .word _ => 0
  | .expr e => e.depth

def partsTokens (parts : List Part) : List TokenKind := parts.flatMap Part.tokens

def partsDepth : List Part → Nat
  | [] => 0
  | part :: parts => max part.depth (partsDepth parts)

mutual

/-- A statement starts a line; the branches of an `if` follow it at the same
    indentation. -/
inductive Stmt where
  | statement (first : Part) (rest : List Part) (suite : Suite)
  | branch (test : List Part) (suite : Suite) (rest : Branches)

/-- What a header leads: the rest of its line, or an indented block. -/
inductive Suite where
  | inline
  | indented (body : Block)

inductive Block where
  | nil
  | cons (stmt : Stmt) (rest : Block)

inductive Branches where
  | done
  | otherwise (header : List Part) (suite : Suite)
  | elif (test : List Part) (suite : Suite) (rest : Branches)

end

mutual

def Stmt.tokens : Stmt → List TokenKind
  | .statement first rest suite => partsTokens (first :: rest) ++ suite.tokens
  | .branch test suite rest => .if_ :: partsTokens test ++ suite.tokens ++ rest.tokens

def Suite.tokens : Suite → List TokenKind
  | .inline => [.newline]
  | .indented body => .newline :: .indent :: body.tokens ++ [.dedent]

def Block.tokens : Block → List TokenKind
  | .nil => []
  | .cons stmt rest => stmt.tokens ++ rest.tokens

def Branches.tokens : Branches → List TokenKind
  | .done => []
  | .otherwise header suite => .else_ :: partsTokens header ++ suite.tokens
  | .elif test suite rest => .elif_ :: partsTokens test ++ suite.tokens ++ rest.tokens

end

mutual

/-- The depth of a statement; a further branch is below the one before it. -/
def Stmt.depth : Stmt → Nat
  | .statement first rest suite => max (partsDepth (first :: rest)) suite.depth + 1
  | .branch test suite rest => max (partsDepth test) (max suite.depth rest.depth) + 1

def Suite.depth : Suite → Nat
  | .inline => 0
  | .indented body => body.depth

def Block.depth : Block → Nat
  | .nil => 0
  | .cons stmt rest => max stmt.depth rest.depth

def Branches.depth : Branches → Nat
  | .done => 0
  | .otherwise header suite => max (partsDepth header) suite.depth + 1
  | .elif test suite rest => max (partsDepth test) (max suite.depth rest.depth) + 1

end

end Opcore.Python
