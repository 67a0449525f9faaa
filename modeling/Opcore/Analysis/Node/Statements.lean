/-
  Opcore.Analysis.Node.Statements

  The statements of a function body, as the tokens they are written with.  A token
  belongs to the function itself or to a function nested in it; the depth of a token
  is the number of control bodies around it.
-/
import Opcore.Analysis.Node.Metrics

namespace Opcore.NodeMetrics

/-! ## Balanced tokens -/

inductive Bracket where
  | paren | brack | curly
  deriving DecidableEq

def Bracket.opening : Bracket → Kind
  | .paren => .lParen
  | .brack => .lBrack
  | .curly => .lCurly

def Bracket.closing : Bracket → Kind
  | .paren => .rParen
  | .brack => .rBrack
  | .curly => .rCurly

def Kind.isDelimiter : Kind → Bool
  | .lParen | .rParen | .lBrack | .rBrack | .lCurly | .rCurly => true
  | _ => false

/-- Tokens in which every delimiter has its partner. -/
inductive Balanced : List Kind → Prop where
  | nil : Balanced []
  | token {kind : Kind} {rest : List Kind} (h : kind.isDelimiter = false) (hrest : Balanced rest) :
      Balanced (kind :: rest)
  | group (bracket : Bracket) {inner rest : List Kind} (hinner : Balanced inner)
      (hrest : Balanced rest) :
      Balanced (bracket.opening :: (inner ++ bracket.closing :: rest))

/-- Balanced tokens without a semicolon outside brackets. -/
inductive SemicolonFree : List Kind → Prop where
  | nil : SemicolonFree []
  | token {kind : Kind} {rest : List Kind} (h : kind.isDelimiter = false)
      (hsemicolon : kind ≠ .semicolon) (hrest : SemicolonFree rest) : SemicolonFree (kind :: rest)
  | group (bracket : Bracket) {inner rest : List Kind} (hinner : Balanced inner)
      (hrest : SemicolonFree rest) :
      SemicolonFree (bracket.opening :: (inner ++ bracket.closing :: rest))

/-- Tokens that a search for a semicolon passes over. -/
inductive Passed : List Kind → Prop where
  | nil : Passed []
  | token {kind : Kind} {rest : List Kind} (hopening : ∀ bracket : Bracket, kind ≠ bracket.opening)
      (hsemicolon : kind ≠ .semicolon) (hrest : Passed rest) : Passed (kind :: rest)
  | group (bracket : Bracket) {inner rest : List Kind} (hinner : Balanced inner)
      (hrest : Passed rest) : Passed (bracket.opening :: (inner ++ bracket.closing :: rest))

/-- The last token is a semicolon, and no other semicolon is outside brackets. -/
def EndsAtFirstSemicolon (kinds : List Kind) : Prop :=
  ∃ front, kinds = front ++ [.semicolon] ∧ Passed front

/-! ## Statements -/

/-- A token, with whether it belongs to the function itself. -/
structure Token where
  kind : Kind
  own : Bool
  deriving DecidableEq

def kindsOf (tokens : List Token) : List Kind := tokens.map Token.kind

/-- No control keyword of the function itself. -/
def NoKeyword (tokens : List Token) : Prop :=
  ∀ token ∈ tokens, token.own = true → isNestingKeyword token.kind = false

/-- The tokens of an expression that stands as a statement, or of a label. -/
structure Expression where
  tokens : List Token
  semicolonFree : SemicolonFree (kindsOf tokens)
  noKeyword : NoKeyword tokens
  noBrace : (kindsOf tokens).head? ≠ some .lCurly

/-- What stands between the parentheses of a control statement. -/
structure Header where
  tokens : List Token
  balanced : Balanced (kindsOf tokens)
  noKeyword : NoKeyword tokens

inductive Loop where
  | for_ | while_ | with_
  deriving DecidableEq

def Loop.kind : Loop → Kind
  | .for_ => .for_
  | .while_ => .while_
  | .with_ => .with_

mutual

/-- Statements.  An expression without a semicolon is one that ends at a line break or
    at the end of its block.  Which `if` an `else` belongs to is part of the tree. -/
inductive Stmt where
  | expression (expression : Expression) (nonempty : expression.tokens ≠ [])
  | terminated (expression : Expression)
  | block (body : Stmts)
  | ifThen (condition : Header) (consequent : Stmt)
  | ifElse (condition : Header) (consequent alternate : Stmt)
  | loop (keyword : Loop) (header : Header) (body : Stmt)
  | forAwait (header : Header) (body : Stmt)
  | doWhile (body : Stmt) (condition : Header) (semicolon : Bool)
  | switch (discriminant : Header) (cases : Stmts)
  | tryCatch (body : Stmts) (parameter : Option Header) (handler : Stmts)
  | tryFinally (body finalizer : Stmts)
  | tryCatchFinally (body : Stmts) (parameter : Option Header) (handler finalizer : Stmts)

/-- Statements in sequence; `label` is the label of a case or of the next statement. -/
inductive Stmts where
  | nil
  | cons (stmt : Stmt) (rest : Stmts)
  | label (expression : Expression) (rest : Stmts)

end

def Stmt.isBlock : Stmt → Bool
  | .block _ => true
  | _ => false

def Stmt.isIf : Stmt → Bool
  | .ifThen _ _ | .ifElse _ _ _ => true
  | _ => false

def Stmts.append : Stmts → Stmts → Stmts
  | .nil, other => other
  | .cons stmt rest, other => .cons stmt (rest.append other)
  | .label expression rest, other => .label expression (rest.append other)

/-! ## Tokens and their depth -/

/-- A token of the function itself. -/
def own (kind : Kind) : Token := ⟨kind, true⟩

/-- The token of the word `await`. -/
def awaitKind : Kind := .other 0

def Header.text (header : Header) : List Token :=
  own .lParen :: (header.tokens ++ [own .rParen])

def parameterText (parameter : Option Header) : List Token :=
  (parameter.map Header.text).getD []

def inBraces (tokens : List Token) : List Token := own .lCurly :: (tokens ++ [own .rCurly])

/-- What ends a do-while. -/
def terminator (semicolon : Bool) : List Token := if semicolon then [own .semicolon] else []

/-- A clause: a keyword, what stands before the body, and the body. -/
def clause (keyword : Kind) (gap body : List Token) : List Token := own keyword :: (gap ++ body)

mutual

def Stmt.tokens : Stmt → List Token
  | .expression expression _ => expression.tokens
  | .terminated expression => expression.tokens ++ [own .semicolon]
  | .block body => inBraces body.tokens
  | .ifThen condition consequent => clause .if_ condition.text consequent.tokens
  | .ifElse condition consequent alternate =>
    clause .if_ condition.text consequent.tokens ++ clause .else_ [] alternate.tokens
  | .loop keyword header body => clause keyword.kind header.text body.tokens
  | .forAwait header body => clause .for_ (own awaitKind :: header.text) body.tokens
  | .doWhile body condition semicolon =>
    clause .do_ [] body.tokens
      ++ clause .while_ condition.text (terminator semicolon)
  | .switch discriminant cases => clause .switch_ discriminant.text (inBraces cases.tokens)
  | .tryCatch body parameter handler =>
    clause .try_ [] (inBraces body.tokens)
      ++ clause .catch_ (parameterText parameter) (inBraces handler.tokens)
  | .tryFinally body finalizer =>
    clause .try_ [] (inBraces body.tokens) ++ clause .finally_ [] (inBraces finalizer.tokens)
  | .tryCatchFinally body parameter handler finalizer =>
    clause .try_ [] (inBraces body.tokens)
      ++ clause .catch_ (parameterText parameter) (inBraces handler.tokens)
      ++ clause .finally_ [] (inBraces finalizer.tokens)

def Stmts.tokens : Stmts → List Token
  | .nil => []
  | .cons stmt rest => stmt.tokens ++ rest.tokens
  | .label expression rest => expression.tokens ++ rest.tokens

end

/-- Tokens with the number of control bodies around each. -/
abbrev Marked := List (Token × Nat)

def mark (depth : Nat) (tokens : List Token) : Marked := tokens.map fun token => (token, depth)

/-- A clause whose body is marked already. -/
def markClause (depth : Nat) (keyword : Kind) (gap : List Token) (body : Marked) : Marked :=
  mark depth (own keyword :: gap) ++ body

def markBraces (depth : Nat) (body : Marked) : Marked :=
  mark depth [own .lCurly] ++ body ++ mark depth [own .rCurly]

mutual

/-- The tokens of a statement inside a number of control bodies.  An `if` right after an
    `else` belongs to the chain, and is not a body of it. -/
def Stmt.marked (depth : Nat) : Stmt → Marked
  | .expression expression _ => mark depth expression.tokens
  | .terminated expression => mark depth (expression.tokens ++ [own .semicolon])
  | .block body => markBraces depth (body.marked depth)
  | .ifThen condition consequent =>
    markClause depth .if_ condition.text (consequent.marked (depth + 1))
  | .ifElse condition consequent alternate =>
    markClause depth .if_ condition.text (consequent.marked (depth + 1))
      ++ markClause depth .else_ [] (alternate.marked (if alternate.isIf then depth else depth + 1))
  | .loop keyword header body =>
    markClause depth keyword.kind header.text (body.marked (depth + 1))
  | .forAwait header body =>
    markClause depth .for_ (own awaitKind :: header.text) (body.marked (depth + 1))
  | .doWhile body condition semicolon =>
    markClause depth .do_ [] (body.marked (depth + 1))
      ++ markClause depth .while_ condition.text (mark depth (terminator semicolon))
  | .switch discriminant cases =>
    markClause depth .switch_ discriminant.text
      (markBraces (depth + 1) (cases.marked (depth + 1)))
  | .tryCatch body parameter handler =>
    markClause depth .try_ [] (markBraces (depth + 1) (body.marked (depth + 1)))
      ++ markClause depth .catch_ (parameterText parameter)
        (markBraces (depth + 1) (handler.marked (depth + 1)))
  | .tryFinally body finalizer =>
    markClause depth .try_ [] (markBraces (depth + 1) (body.marked (depth + 1)))
      ++ markClause depth .finally_ [] (markBraces (depth + 1) (finalizer.marked (depth + 1)))
  | .tryCatchFinally body parameter handler finalizer =>
    markClause depth .try_ [] (markBraces (depth + 1) (body.marked (depth + 1)))
      ++ markClause depth .catch_ (parameterText parameter)
        (markBraces (depth + 1) (handler.marked (depth + 1)))
      ++ markClause depth .finally_ [] (markBraces (depth + 1) (finalizer.marked (depth + 1)))

def Stmts.marked (depth : Nat) : Stmts → Marked
  | .nil => []
  | .cons stmt rest => stmt.marked depth ++ rest.marked depth
  | .label expression rest => mark depth expression.tokens ++ rest.marked depth

end

/-- The greatest number of control bodies around a token of the function itself. -/
def Stmts.depth (stmts : Stmts) : Nat :=
  ((stmts.marked 0).filter fun marked => marked.1.own).foldr (fun marked => max marked.2) 0

/-! ## Bodies that the metric finds -/

/-- The statement has a token of the function itself. -/
def Stmt.hasOwn (stmt : Stmt) : Bool := stmt.tokens.any Token.own

/-- From here to the next semicolon outside brackets, or to the end, there is no control
    keyword of the function itself. -/
def NoKeywordAhead (rest : List Token) : Prop :=
  ∃ ahead stop, rest = ahead ++ stop ∧ Passed (kindsOf ahead) ∧ NoKeyword ahead
    ∧ ∀ token ∈ stop.head?, token.kind = .semicolon

/-- A search for the semicolon that ends the tokens finds it, or finds none in them and
    meets no control keyword before it stops in the rest. -/
def Ends (rest tokens : List Token) : Prop :=
  EndsAtFirstSemicolon (kindsOf tokens) ∨ (Passed (kindsOf tokens) ∧ NoKeywordAhead rest)

/-- A body, before the rest of the function, is found when it is a block, when it starts
    with a token of the function itself and a search for its semicolon does no harm, and
    when it has no token of the function itself. -/
def Stmt.Found (rest : List Token) (body : Stmt) : Prop :=
  body.isBlock = true
    ∨ (body.tokens.head?.any Token.own = true ∧ Ends rest body.tokens) ∨ body.hasOwn = false

/-- The `while` of a do-while takes what follows for its body: nothing but its semicolon,
    or nothing of the function itself, or what a search for a semicolon passes over. -/
def Stmt.Left (body : Stmt) (rest : List Token) : Bool → Prop
  | true => body.hasOwn = true
  | false => rest.head?.any Token.own = false
    ∨ (body.hasOwn = true ∧ (kindsOf rest).head? ≠ some .lCurly ∧ NoKeywordAhead rest)

mutual

/-- Every body in a statement is found, before the rest of the function. -/
def Stmt.Sound (rest : List Token) : Stmt → Prop
  | .expression _ _ | .terminated _ => True
  | .block body => body.Sound (own .rCurly :: rest)
  | .ifThen _ consequent => consequent.Found rest ∧ consequent.Sound rest
  | .ifElse _ consequent alternate =>
    consequent.Found (clause .else_ [] alternate.tokens ++ rest)
      ∧ consequent.Sound (clause .else_ [] alternate.tokens ++ rest)
      ∧ (alternate.isIf = true ∨ alternate.Found rest) ∧ alternate.Sound rest
  | .loop _ _ body => body.Found rest ∧ body.Sound rest
  | .forAwait _ body => (body.hasOwn = true ∧ Ends rest body.tokens) ∧ body.Sound rest
  | .doWhile body condition semicolon =>
    body.Found (clause .while_ condition.text (terminator semicolon) ++ rest)
      ∧ body.Sound (clause .while_ condition.text (terminator semicolon) ++ rest)
      ∧ body.Left rest semicolon
  | .switch _ cases => cases.Sound (own .rCurly :: rest)
  | .tryCatch body parameter handler =>
    body.Sound (own .rCurly
        :: (clause .catch_ (parameterText parameter) (inBraces handler.tokens) ++ rest))
      ∧ handler.Sound (own .rCurly :: rest)
  | .tryFinally body finalizer =>
    body.Sound (own .rCurly :: (clause .finally_ [] (inBraces finalizer.tokens) ++ rest))
      ∧ finalizer.Sound (own .rCurly :: rest)
  | .tryCatchFinally body parameter handler finalizer =>
    body.Sound (own .rCurly
        :: (clause .catch_ (parameterText parameter) (inBraces handler.tokens)
          ++ (clause .finally_ [] (inBraces finalizer.tokens) ++ rest)))
      ∧ handler.Sound (own .rCurly :: (clause .finally_ [] (inBraces finalizer.tokens) ++ rest))
      ∧ finalizer.Sound (own .rCurly :: rest)

def Stmts.Sound (rest : List Token) : Stmts → Prop
  | .nil => True
  | .cons stmt more => stmt.Sound (more.tokens ++ rest) ∧ more.Sound rest
  | .label _ more => more.Sound rest

end

/-! ## The depth of a statement -/

/-- A body counts when it has a token of the function itself. -/
def bodyNest (hasOwn : Bool) (nest : Nat) : Nat := if hasOwn then nest + 1 else 0

mutual

/-- How deep the control bodies of a statement lie in one another. -/
def Stmt.nest : Stmt → Nat
  | .expression _ _ | .terminated _ => 0
  | .block body => body.nest
  | .ifThen _ consequent => bodyNest consequent.hasOwn consequent.nest
  | .ifElse _ consequent alternate =>
    max (bodyNest consequent.hasOwn consequent.nest)
      (if alternate.isIf then alternate.nest else bodyNest alternate.hasOwn alternate.nest)
  | .loop _ _ body | .forAwait _ body | .doWhile body _ _ => bodyNest body.hasOwn body.nest
  | .switch _ cases => cases.nest + 1
  | .tryCatch body _ handler => max (body.nest + 1) (handler.nest + 1)
  | .tryFinally body finalizer => max (body.nest + 1) (finalizer.nest + 1)
  | .tryCatchFinally body _ handler finalizer =>
    max (max (body.nest + 1) (handler.nest + 1)) (finalizer.nest + 1)

def Stmts.nest : Stmts → Nat
  | .nil => 0
  | .cons stmt rest => max stmt.nest rest.nest
  | .label _ rest => rest.nest

end

/-- A token of the function itself inside a number of control bodies. -/
def HasOwn (marked : Marked) (depth : Nat) : Prop :=
  ∃ token, (token, depth) ∈ marked ∧ token.own = true

/-- The greatest number of control bodies around a token of the function itself, inside a
    number of bodies. -/
structure Deepest (marked : Marked) (depth nest : Nat) : Prop where
  ge : ∀ found ∈ marked, depth ≤ found.2
  le : ∀ found ∈ marked, found.1.own = true → found.2 ≤ depth + nest
  attained : 0 < nest → HasOwn marked (depth + nest)

section Deepest

variable {first second body : Marked} {depth m n : Nat} {keyword : Kind} {gap tokens : List Token}
  {hasOwn : Bool}

theorem HasOwn.mono (h : HasOwn first depth) (hsubset : first ⊆ second) : HasOwn second depth := by
  obtain ⟨token, hmem, hown⟩ := h
  exact ⟨token, hsubset hmem, hown⟩

theorem Deepest.mark : Deepest (mark depth tokens) depth 0 := by
  refine ⟨fun found hmem => ?_, fun found hmem _ => ?_, fun h => absurd h (Nat.lt_irrefl 0)⟩ <;>
    · obtain ⟨token, -, rfl⟩ := List.mem_map.mp hmem
      exact le_rfl

theorem Deepest.append (hfirst : Deepest first depth m) (hsecond : Deepest second depth n) :
    Deepest (first ++ second) depth (max m n) := by
  refine ⟨fun found hmem => ?_, fun found hmem hown => ?_, fun hpos => ?_⟩
  · exact (List.mem_append.mp hmem).elim (hfirst.ge found) (hsecond.ge found)
  · obtain hmem | hmem := List.mem_append.mp hmem
    · exact (hfirst.le found hmem hown).trans (Nat.add_le_add_left (le_max_left m n) depth)
    · exact (hsecond.le found hmem hown).trans (Nat.add_le_add_left (le_max_right m n) depth)
  · obtain hle | hle := le_total n m
    · rw [max_eq_left hle] at hpos ⊢
      exact (hfirst.attained hpos).mono (List.subset_append_left _ _)
    · rw [max_eq_right hle] at hpos ⊢
      exact (hsecond.attained hpos).mono (List.subset_append_right _ _)

theorem Deepest.markBraces (h : Deepest body depth n) : Deepest (markBraces depth body) depth n := by
  have hbraces := ((@Deepest.mark depth [own .lCurly]).append h).append
    (@Deepest.mark depth [own .rCurly])
  rwa [Nat.zero_max, Nat.max_zero] at hbraces

/-- A body counts once more, when it has a token of the function itself. -/
theorem Deepest.markClause (h : Deepest body (depth + 1) n)
    (hown : (body.map Prod.fst).any Token.own = hasOwn) :
    Deepest (markClause depth keyword gap body) depth (bodyNest hasOwn n) := by
  refine ⟨fun found hmem => ?_, fun found hmem howned => ?_, fun hpos => ?_⟩
  · obtain hmem | hmem := List.mem_append.mp hmem
    · exact Deepest.mark.ge found hmem
    · exact (Nat.le_succ depth).trans (h.ge found hmem)
  · obtain hmem | hmem := List.mem_append.mp hmem
    · exact (Deepest.mark.le found hmem howned).trans (Nat.le_add_right _ _)
    · have hle := h.le found hmem howned
      rw [List.any_eq_true.mpr ⟨found.1, List.mem_map_of_mem hmem, howned⟩] at hown
      rw [← hown, bodyNest, if_pos rfl]
      omega
  · refine HasOwn.mono ?_ (List.subset_append_right _ _)
    cases hasOwn with
    | false => exact absurd hpos (Nat.lt_irrefl 0)
    | true =>
      rw [bodyNest, if_pos rfl, Nat.add_comm n 1, ← Nat.add_assoc]
      cases n with
      | zero =>
        -- any token of the function itself is as deep as the body
        obtain ⟨token, hmem, howned⟩ := List.any_eq_true.mp hown
        obtain ⟨⟨token, found⟩, hmarked, rfl⟩ := List.mem_map.mp hmem
        have hge := h.ge _ hmarked
        have hle := h.le _ hmarked howned
        obtain rfl : found = depth + 1 := Nat.le_antisymm hle hge
        exact ⟨token, hmarked, howned⟩
      | succ n => exact h.attained (Nat.succ_pos n)

/-- An `else` before an `if` adds nothing. -/
theorem Deepest.chain (h : Deepest body depth n) :
    Deepest (NodeMetrics.markClause depth keyword gap body) depth n := by
  have hchain := (@Deepest.mark depth (own keyword :: gap)).append h
  rwa [Nat.zero_max] at hchain

theorem map_fst_mark (depth : Nat) (tokens : List Token) :
    (mark depth tokens).map Prod.fst = tokens := by
  rw [NodeMetrics.mark, List.map_map]
  exact List.map_id tokens

theorem map_fst_markClause (h : body.map Prod.fst = tokens) :
    (markClause depth keyword gap body).map Prod.fst = clause keyword gap tokens := by
  rw [NodeMetrics.markClause, List.map_append, map_fst_mark, h]
  rfl

theorem map_fst_markBraces (h : body.map Prod.fst = tokens) :
    (markBraces depth body).map Prod.fst = inBraces tokens := by
  rw [NodeMetrics.markBraces, List.map_append, List.map_append, map_fst_mark, map_fst_mark, h]
  rfl

theorem any_own_markBraces : ((markBraces depth body).map Prod.fst).any Token.own = true := rfl

end Deepest

mutual

/-- The tokens that are marked are those of the statement. -/
theorem Stmt.map_fst_marked : ∀ (stmt : Stmt) (depth : Nat),
    (stmt.marked depth).map Prod.fst = stmt.tokens
  | .expression _ _, _ | .terminated _, _ => map_fst_mark _ _
  | .block body, depth => map_fst_markBraces (body.map_fst_marked depth)
  | .ifThen _ body, _ | .loop _ _ body, _ | .forAwait _ body, _ =>
    map_fst_markClause (body.map_fst_marked _)
  | .ifElse _ consequent alternate, _ => by
    rw [Stmt.marked, List.map_append, map_fst_markClause (consequent.map_fst_marked _),
      map_fst_markClause (alternate.map_fst_marked _), Stmt.tokens]
  | .doWhile body _ _, _ => by
    rw [Stmt.marked, List.map_append, map_fst_markClause (body.map_fst_marked _),
      map_fst_markClause (map_fst_mark _ _), Stmt.tokens]
  | .switch _ cases, _ => map_fst_markClause (map_fst_markBraces (cases.map_fst_marked _))
  | .tryCatch body _ handler, _ => by
    rw [Stmt.marked, List.map_append,
      map_fst_markClause (map_fst_markBraces (body.map_fst_marked _)),
      map_fst_markClause (map_fst_markBraces (handler.map_fst_marked _)), Stmt.tokens]
  | .tryFinally body finalizer, _ => by
    rw [Stmt.marked, List.map_append,
      map_fst_markClause (map_fst_markBraces (body.map_fst_marked _)),
      map_fst_markClause (map_fst_markBraces (finalizer.map_fst_marked _)), Stmt.tokens]
  | .tryCatchFinally body _ handler finalizer, _ => by
    rw [Stmt.marked, List.map_append, List.map_append,
      map_fst_markClause (map_fst_markBraces (body.map_fst_marked _)),
      map_fst_markClause (map_fst_markBraces (handler.map_fst_marked _)),
      map_fst_markClause (map_fst_markBraces (finalizer.map_fst_marked _)), Stmt.tokens]

theorem Stmts.map_fst_marked : ∀ (stmts : Stmts) (depth : Nat),
    (stmts.marked depth).map Prod.fst = stmts.tokens
  | .nil, _ => rfl
  | .cons stmt rest, depth => by
    rw [Stmts.marked, List.map_append, stmt.map_fst_marked, rest.map_fst_marked, Stmts.tokens]
  | .label _ rest, depth => by
    rw [Stmts.marked, List.map_append, map_fst_mark, rest.map_fst_marked, Stmts.tokens]

end

theorem Stmt.any_own_marked (stmt : Stmt) (depth : Nat) :
    ((stmt.marked depth).map Prod.fst).any Token.own = stmt.hasOwn := by
  rw [stmt.map_fst_marked, hasOwn]

mutual

theorem Stmt.deepest : ∀ (stmt : Stmt) (depth : Nat), Deepest (stmt.marked depth) depth stmt.nest
  | .expression _ _, _ | .terminated _, _ => Deepest.mark
  | .block body, depth => (body.deepest depth).markBraces
  | .ifThen _ body, depth | .loop _ _ body, depth | .forAwait _ body, depth =>
    (body.deepest (depth + 1)).markClause (body.any_own_marked _)
  | .ifElse _ consequent alternate, depth => by
    refine Deepest.append
      ((consequent.deepest (depth + 1)).markClause (consequent.any_own_marked _)) ?_
    cases hif : alternate.isIf with
    | true => exact (alternate.deepest depth).chain
    | false => exact (alternate.deepest (depth + 1)).markClause (alternate.any_own_marked _)
  | .doWhile body _ _, depth => by
    rw [Stmt.nest, ← Nat.max_zero (bodyNest _ _)]
    refine Deepest.append ((body.deepest (depth + 1)).markClause (body.any_own_marked _)) ?_
    exact Deepest.mark.chain
  | .switch _ cases, depth => (cases.deepest (depth + 1)).markBraces.markClause any_own_markBraces
  | .tryCatch body _ handler, depth =>
    ((body.deepest (depth + 1)).markBraces.markClause any_own_markBraces).append
      ((handler.deepest (depth + 1)).markBraces.markClause any_own_markBraces)
  | .tryFinally body finalizer, depth =>
    ((body.deepest (depth + 1)).markBraces.markClause any_own_markBraces).append
      ((finalizer.deepest (depth + 1)).markBraces.markClause any_own_markBraces)
  | .tryCatchFinally body _ handler finalizer, depth =>
    (((body.deepest (depth + 1)).markBraces.markClause any_own_markBraces).append
      ((handler.deepest (depth + 1)).markBraces.markClause any_own_markBraces)).append
      ((finalizer.deepest (depth + 1)).markBraces.markClause any_own_markBraces)

theorem Stmts.deepest : ∀ (stmts : Stmts) (depth : Nat),
    Deepest (stmts.marked depth) depth stmts.nest
  | .nil, depth => @Deepest.mark depth []
  | .cons stmt rest, depth => (stmt.deepest depth).append (rest.deepest depth)
  | .label _ rest, depth => by
    rw [Stmts.nest, ← Nat.zero_max rest.nest]
    exact Deepest.mark.append (rest.deepest depth)

end

theorem Deepest.foldr_max {marked : Marked} {nest : Nat} (h : Deepest marked 0 nest) :
    (marked.filter fun found => found.1.own).foldr (fun found => max found.2) 0 = nest := by
  have hle : ∀ (l : Marked) (found : Token × Nat), found ∈ l →
      found.2 ≤ l.foldr (fun found => max found.2) 0 := by
    intro l found hmem
    induction l with
    | nil => cases hmem
    | cons first l ih =>
      obtain rfl | hmem := List.mem_cons.mp hmem
      · exact le_max_left _ _
      · exact (ih hmem).trans (le_max_right _ _)
  have hge : ∀ l : Marked, (∀ found ∈ l, found.2 ≤ nest) →
      l.foldr (fun found => max found.2) 0 ≤ nest := by
    intro l hall
    induction l with
    | nil => exact Nat.zero_le _
    | cons first l ih =>
      obtain ⟨hfirst, hrest⟩ := List.forall_mem_cons.mp hall
      exact max_le hfirst (ih hrest)
  refine le_antisymm (hge _ fun found hmem => ?_) ?_
  · obtain ⟨hmem, hown⟩ := List.mem_filter.mp hmem
    have hfound := h.le found hmem hown
    rwa [Nat.zero_add] at hfound
  · cases nest with
    | zero => exact Nat.zero_le _
    | succ nest =>
      obtain ⟨token, hmem, hown⟩ := h.attained (Nat.succ_pos nest)
      rw [Nat.zero_add] at hmem
      exact hle _ (token, nest + 1) (List.mem_filter.mpr ⟨hmem, hown⟩)

theorem Stmts.depth_eq_nest (stmts : Stmts) : stmts.depth = stmts.nest :=
  (stmts.deepest 0).foldr_max

theorem Stmts.marked_append (depth : Nat) : ∀ first second : Stmts,
    (first.append second).marked depth = first.marked depth ++ second.marked depth
  | .nil, _ => rfl
  | .cons stmt rest, second => by
    rw [Stmts.append, Stmts.marked, Stmts.marked, rest.marked_append, List.append_assoc]
  | .label _ rest, second => by
    rw [Stmts.append, Stmts.marked, Stmts.marked, rest.marked_append, List.append_assoc]

theorem Stmts.depth_append (first second : Stmts) :
    (first.append second).depth = max first.depth second.depth := by
  have hfold : ∀ l l' : Marked, (l ++ l').foldr (fun found => max found.2) 0
      = max (l.foldr (fun found => max found.2) 0) (l'.foldr (fun found => max found.2) 0) := by
    intro l l'
    induction l with
    | nil => exact (Nat.zero_max _).symm
    | cons found l ih => rw [List.cons_append, List.foldr_cons, List.foldr_cons, ih, Nat.max_assoc]
  rw [depth, marked_append, List.filter_append, hfold]
  rfl

theorem bodyNest_le (hasOwn : Bool) (nest : Nat) : bodyNest hasOwn nest ≤ nest + 1 := by
  cases hasOwn
  · exact Nat.zero_le _
  · exact Nat.le_refl _

mutual

theorem Stmt.nest_le : ∀ stmt : Stmt, stmt.nest ≤ stmt.tokens.length
  | .expression _ _ | .terminated _ => Nat.zero_le _
  | .block body | .switch _ body => by
    have hbody := body.nest_le
    simp only [Stmt.nest, Stmt.tokens, clause, inBraces, List.length_cons, List.length_append]
    omega
  | .ifThen _ body | .loop _ _ body | .forAwait _ body | .doWhile body _ _ => by
    have hbody := (bodyNest_le body.hasOwn body.nest).trans (Nat.succ_le_succ body.nest_le)
    simp only [Stmt.nest, Stmt.tokens, clause, List.length_cons, List.length_append]
    omega
  | .ifElse _ consequent alternate => by
    have hconsequent := consequent.nest_le
    have halternate := alternate.nest_le
    have hfirst := bodyNest_le consequent.hasOwn consequent.nest
    have hsecond := bodyNest_le alternate.hasOwn alternate.nest
    simp only [Stmt.nest, Stmt.tokens, clause, List.length_cons, List.length_append]
    split <;> omega
  | .tryCatch body _ handler | .tryFinally body handler => by
    have hbody := body.nest_le
    have hhandler := handler.nest_le
    simp only [Stmt.nest, Stmt.tokens, clause, inBraces, List.length_cons, List.length_append]
    omega
  | .tryCatchFinally body _ handler finalizer => by
    have hbody := body.nest_le
    have hhandler := handler.nest_le
    have hfinalizer := finalizer.nest_le
    simp only [Stmt.nest, Stmt.tokens, clause, inBraces, List.length_cons, List.length_append]
    omega

theorem Stmts.nest_le : ∀ stmts : Stmts, stmts.nest ≤ stmts.tokens.length
  | .nil => le_rfl
  | .cons stmt rest => by
    have hstmt := stmt.nest_le
    have hrest := rest.nest_le
    simp only [Stmts.nest, Stmts.tokens, List.length_append]
    omega
  | .label _ rest => by
    have hrest := rest.nest_le
    simp only [Stmts.nest, Stmts.tokens, List.length_append]
    omega

end

/-! ## Balance -/

section Balance

variable {first second : List Kind} {tokens : List Token} {keyword : Kind}

@[simp] theorem kindsOf_append (first second : List Token) :
    kindsOf (first ++ second) = kindsOf first ++ kindsOf second := List.map_append

@[simp] theorem kindsOf_cons (token : Token) (tokens : List Token) :
    kindsOf (token :: tokens) = token.kind :: kindsOf tokens := rfl

@[simp] theorem length_kindsOf (tokens : List Token) : (kindsOf tokens).length = tokens.length :=
  List.length_map _

theorem SemicolonFree.balanced (h : SemicolonFree first) : Balanced first := by
  induction h with
  | nil => exact .nil
  | token hkind _ _ ih => exact .token hkind ih
  | group bracket hinner _ ih => exact .group bracket hinner ih

theorem SemicolonFree.passed (h : SemicolonFree first) : Passed first := by
  induction h with
  | nil => exact .nil
  | token hkind hsemicolon _ ih =>
    refine .token (fun bracket heq => ?_) hsemicolon ih
    subst heq
    cases bracket <;> cases hkind
  | group bracket hinner _ ih => exact .group bracket hinner ih

theorem Passed.append (hfirst : Passed first) (hsecond : Passed second) :
    Passed (first ++ second) := by
  induction hfirst with
  | nil => exact hsecond
  | token hopening hsemicolon _ ih => exact .token hopening hsemicolon ih
  | group bracket hinner _ ih =>
    rw [List.cons_append, List.append_assoc, List.cons_append]
    exact .group bracket hinner ih

theorem Balanced.append (hfirst : Balanced first) (hsecond : Balanced second) :
    Balanced (first ++ second) := by
  induction hfirst with
  | nil => exact hsecond
  | token hkind _ ih => exact .token hkind ih
  | group bracket hinner _ _ ih =>
    rw [List.cons_append, List.append_assoc, List.cons_append]
    exact .group bracket hinner ih

theorem balanced_inBraces (h : Balanced (kindsOf tokens)) : Balanced (kindsOf (inBraces tokens)) := by
  rw [inBraces, kindsOf_cons, kindsOf_append]
  exact .group .curly h .nil

theorem Header.balanced_text (header : Header) : Balanced (kindsOf header.text) := by
  rw [Header.text, kindsOf_cons, kindsOf_append]
  exact .group .paren header.balanced .nil

theorem balanced_clause {gap body : List Token} (hkeyword : keyword.isDelimiter = false)
    (hgap : Balanced (kindsOf gap)) (hbody : Balanced (kindsOf body)) :
    Balanced (kindsOf (clause keyword gap body)) := by
  rw [clause, kindsOf_cons, kindsOf_append]
  exact .token hkeyword (hgap.append hbody)

theorem balanced_bareClause {body : List Token} (hkeyword : keyword.isDelimiter = false)
    (hbody : Balanced (kindsOf body)) : Balanced (kindsOf (clause keyword [] body)) :=
  balanced_clause hkeyword .nil hbody

theorem balanced_parameterText (parameter : Option Header) :
    Balanced (kindsOf (parameterText parameter)) := by
  cases parameter with
  | none => exact .nil
  | some header => exact header.balanced_text

end Balance

/-! ## First tokens -/

theorem head?_ne_keyword {tokens : List Token} {keyword : Kind} (h : NoKeyword tokens)
    (hown : tokens.head?.any Token.own = true) (hkeyword : isNestingKeyword keyword = true) :
    (kindsOf tokens).head? ≠ some keyword := by
  obtain ⟨token, htoken, hown⟩ := (Option.any_eq_true _ _).mp hown
  rw [kindsOf, List.head?_map, htoken]
  rintro heq
  obtain rfl := Option.some.inj heq
  rw [h token (List.mem_of_head? htoken) hown] at hkeyword
  cases hkeyword

/-- Only a block starts with a brace. -/
theorem Stmt.head?_ne_lCurly {stmt : Stmt} (h : stmt.isBlock = false) :
    (kindsOf stmt.tokens).head? ≠ some .lCurly := by
  cases stmt with
  | expression expression _ => exact expression.noBrace
  | terminated expression =>
    rw [Stmt.tokens, kindsOf_append]
    cases htokens : kindsOf expression.tokens with
    | nil => decide
    | cons kind kinds =>
      have hbrace := expression.noBrace
      rw [htokens] at hbrace
      exact hbrace
  | block body => cases h
  | loop keyword header body =>
    intro hhead
    cases keyword <;> cases hhead
  | _ =>
    intro hhead
    cases hhead

/-- A body that starts with a token of the function itself and is no `if` does not start
    with one. -/
theorem Stmt.head?_ne_if {stmt : Stmt} (hown : stmt.tokens.head?.any Token.own = true)
    (h : stmt.isIf = false) : (kindsOf stmt.tokens).head? ≠ some .if_ := by
  cases stmt with
  | expression expression _ => exact head?_ne_keyword expression.noKeyword hown rfl
  | terminated expression =>
    refine head?_ne_keyword (fun token hmem => ?_) hown rfl
    obtain hmem | hmem := List.mem_append.mp hmem
    · exact expression.noKeyword token hmem
    · rw [List.mem_singleton.mp hmem]
      exact fun _ => rfl
  | ifThen _ _ => cases h
  | ifElse _ _ _ => cases h
  | loop keyword header body =>
    intro hhead
    cases keyword <;> cases hhead
  | _ =>
    intro hhead
    cases hhead

theorem Stmt.tokens_ne_nil (stmt : Stmt) : stmt.tokens ≠ [] := by
  cases stmt with
  | expression _ hnonempty => exact hnonempty
  | terminated expression => exact List.append_ne_nil_of_right_ne_nil _ (List.cons_ne_nil _ _)
  | _ => exact List.cons_ne_nil _ _

mutual

theorem Stmt.balanced : ∀ stmt : Stmt, Balanced (kindsOf stmt.tokens)
  | .expression expression _ => expression.semicolonFree.balanced
  | .terminated expression => by
    rw [Stmt.tokens, kindsOf_append]
    exact expression.semicolonFree.balanced.append (.token rfl .nil)
  | .block body => balanced_inBraces body.balanced
  | .ifThen condition consequent => balanced_clause rfl condition.balanced_text consequent.balanced
  | .ifElse condition consequent alternate => by
    rw [Stmt.tokens, kindsOf_append]
    exact (balanced_clause rfl condition.balanced_text consequent.balanced).append
      (balanced_bareClause rfl alternate.balanced)
  | .loop keyword header body =>
    balanced_clause (by cases keyword <;> rfl) header.balanced_text body.balanced
  | .forAwait header body => balanced_clause rfl (.token rfl header.balanced_text) body.balanced
  | .doWhile body condition semicolon => by
    rw [Stmt.tokens, kindsOf_append]
    refine (balanced_bareClause rfl body.balanced).append
      (balanced_clause rfl condition.balanced_text ?_)
    cases semicolon
    · exact .nil
    · exact .token rfl .nil
  | .switch discriminant cases =>
    balanced_clause rfl discriminant.balanced_text (balanced_inBraces cases.balanced)
  | .tryCatch body parameter handler => by
    rw [Stmt.tokens, kindsOf_append]
    exact (balanced_bareClause rfl (balanced_inBraces body.balanced)).append
      (balanced_clause rfl (balanced_parameterText parameter) (balanced_inBraces handler.balanced))
  | .tryFinally body finalizer => by
    rw [Stmt.tokens, kindsOf_append]
    exact (balanced_bareClause rfl (balanced_inBraces body.balanced)).append
      (balanced_bareClause rfl (balanced_inBraces finalizer.balanced))
  | .tryCatchFinally body parameter handler finalizer => by
    rw [Stmt.tokens, kindsOf_append, kindsOf_append]
    exact ((balanced_bareClause rfl (balanced_inBraces body.balanced)).append
      (balanced_clause rfl (balanced_parameterText parameter)
        (balanced_inBraces handler.balanced))).append
      (balanced_bareClause rfl (balanced_inBraces finalizer.balanced))

theorem Stmts.balanced : ∀ stmts : Stmts, Balanced (kindsOf stmts.tokens)
  | .nil => .nil
  | .cons stmt rest => by
    rw [Stmts.tokens, kindsOf_append]
    exact stmt.balanced.append rest.balanced
  | .label expression rest => by
    rw [Stmts.tokens, kindsOf_append]
    exact expression.semicolonFree.balanced.append rest.balanced

end

end Opcore.NodeMetrics
