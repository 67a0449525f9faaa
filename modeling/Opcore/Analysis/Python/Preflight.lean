/-
  Opcore.Analysis.Python.Preflight

  The structural guard in front of the Python parser: one pass over the tokens
  with a handful of counters.  The counters for chains of branches are kept by
  indentation and are never read outside their range.
-/
import Opcore.Library.Fallible
import Opcore.Model

namespace Opcore.Python

open Text

/-! ## Tokens -/

/-- The kinds of tokens the guard tells apart; every other kind is `other`. -/
inductive TokenKind where
  | comment
  | nonLogicalNewline
  | newline
  | indent
  | dedent
  | lpar
  | rpar
  | lsqb
  | rsqb
  | lbrace
  | rbrace
  | plus
  | minus
  | star
  | slash
  | vbar
  | amper
  | less
  | greater
  | dot
  | percent
  | eqEqual
  | notEqual
  | lessEqual
  | greaterEqual
  | circumFlex
  | leftShift
  | rightShift
  | doubleStar
  | doubleSlash
  | at_
  | and_
  | or_
  | not_
  | in_
  | is_
  | if_
  | elif_
  | else_
  | lambda_
  | await_
  | tilde
  | comma
  | semi
  | colon
  | other
  deriving DecidableEq

/-! ## The guard -/

/-- `Vec::resize` with zeros. -/
def resize (values : List Nat) (size : Nat) : List Nat :=
  values.take size ++ List.replicate (size - values.length) 0

structure PythonStructure where
  delimiters : Nat := 0
  indents : Nat := 0
  unary : Nat := 0
  expressionNodes : Nat := 0
  logicalLineStart : Bool := true
  elifChainByIndent : List Nat := [0]

/-- How the pass can stop: an index that is out of range, or an error. -/
inductive Fault where
  | outOfRange
  | analysis (error : AnalysisError)

namespace PythonStructure

/-- The new state, and whether the token is done with. -/
def ignoreOrReset (self : PythonStructure) (token : TokenKind) : Bool × PythonStructure :=
  match token with
  | .comment | .nonLogicalNewline => (true, self)
  | .newline => (true, { self with unary := 0, expressionNodes := 0, logicalLineStart := true })
  | _ => (false, self)

def observeLayout (self : PythonStructure) (token : TokenKind) : Bool × PythonStructure :=
  match token with
  | .lpar | .lsqb | .lbrace => (false, { self with delimiters := self.delimiters + 1 })
  | .rpar | .rsqb | .rbrace => (false, { self with delimiters := self.delimiters - 1 })
  | .indent =>
    (true, { self with
      indents := self.indents + 1
      elifChainByIndent := resize self.elifChainByIndent (self.indents + 1 + 1) })
  | .dedent => (true, { self with indents := self.indents - 1 })
  | _ => (false, self)

def observeLineStart (self : PythonStructure) (token : TokenKind) : Option PythonStructure :=
  if self.logicalLineStart then
    match self.elifChainByIndent[self.indents]? with
    | none => none
    | some chain =>
      let chain := match token with
        | .if_ => 1
        | .elif_ => chain + 1
        | .else_ => chain
        | _ => 0
      some { self with
        elifChainByIndent := self.elifChainByIndent.set self.indents chain
        logicalLineStart := false }
  else some self

/-- The tokens that count as a node of an expression. -/
def countsNode : TokenKind → Bool
  | .plus | .minus | .star | .slash | .vbar | .amper | .less | .greater | .dot | .percent
  | .eqEqual | .notEqual | .lessEqual | .greaterEqual | .circumFlex | .leftShift | .rightShift
  | .doubleStar | .doubleSlash | .and_ | .or_ | .in_ | .is_ | .if_ | .else_ | .lambda_
  | .lpar | .lsqb => true
  | _ => false

def observeExpression (self : PythonStructure) (token : TokenKind) : PythonStructure :=
  if countsNode token then { self with expressionNodes := self.expressionNodes + 1 }
  else
    match token with
    | .comma | .semi => { self with expressionNodes := 0 }
    | _ => self

def isUnary : TokenKind → Bool
  | .not_ | .plus | .minus | .tilde | .await_ => true
  | _ => false

def observeUnary (self : PythonStructure) (token : TokenKind) : PythonStructure :=
  { self with unary := if isUnary token then self.unary + 1 else 0 }

def excessive (limit : Nat) : AnalysisError :=
  .unsupported (ascii "source structural depth exceeds the " ++ ascii (toString limit)
    ++ ascii "-level safety limit")

def validate (limit : Nat) (self : PythonStructure) : Except Fault PythonStructure :=
  match self.elifChainByIndent[self.indents]? with
  | none => .error .outOfRange
  | some chain =>
    if limit < self.delimiters ∨ limit < self.indents ∨ limit < self.unary
        ∨ limit < self.expressionNodes ∨ limit < chain then
      .error (.analysis (excessive limit))
    else .ok self

/-- What the pass does with one token. -/
def observe (limit : Nat) (self : PythonStructure) (token : TokenKind) :
    Except Fault PythonStructure :=
  let (ignored, self) := self.ignoreOrReset token
  if ignored then .ok self
  else
    let (layout, self) := self.observeLayout token
    if layout then .ok self
    else
      match self.observeLineStart token with
      | none => .error .outOfRange
      | some self => ((self.observeExpression token).observeUnary token).validate limit

end PythonStructure

/-- The pass over all tokens before the end of the file, with a limit for the
    counters. -/
def observeTokens (limit : Nat) (self : PythonStructure) (tokens : List TokenKind) :
    Except Fault PythonStructure :=
  tokens.foldlM (PythonStructure.observe limit) self

def preflightStructure (tokens : List TokenKind) : Except Fault Unit :=
  (observeTokens maxStructuralDepth {} tokens).map fun _ => ()

/-! ## Indices -/

namespace PythonStructure

/-- The chain of the current indentation is there. -/
def InRange (self : PythonStructure) : Prop := self.indents < self.elifChainByIndent.length

theorem length_resize (values : List Nat) (size : Nat) : (resize values size).length = size := by
  unfold resize
  rw [List.length_append, List.length_take, List.length_replicate]
  omega

variable {limit : Nat} {self self' : PythonStructure} {token : TokenKind}

theorem InRange.ignoreOrReset (h : self.InRange) : (self.ignoreOrReset token).2.InRange := by
  unfold PythonStructure.ignoreOrReset
  split <;> exact h

theorem InRange.observeLayout (h : self.InRange) : (self.observeLayout token).2.InRange := by
  unfold PythonStructure.observeLayout
  split
  case h_7 =>
    show self.indents + 1 < (resize _ _).length
    rw [length_resize]
    omega
  case h_8 => exact (Nat.sub_le _ _).trans_lt h
  all_goals exact h

theorem InRange.observeLineStart (h : self.InRange) :
    ∃ next, self.observeLineStart token = some next ∧ next.InRange := by
  unfold PythonStructure.observeLineStart
  split
  · rw [List.getElem?_eq_getElem h]
    refine ⟨_, rfl, ?_⟩
    show self.indents < (self.elifChainByIndent.set _ _).length
    rw [List.length_set]
    exact h
  · exact ⟨self, rfl, h⟩

theorem InRange.observeExpression (h : self.InRange) : (self.observeExpression token).InRange := by
  unfold PythonStructure.observeExpression
  split
  · exact h
  · split <;> exact h

/-- One token leaves the indices in range. -/
theorem InRange.observe (h : self.InRange) :
    (∃ next, self.observe limit token = .ok next ∧ next.InRange)
      ∨ self.observe limit token = .error (.analysis (excessive limit)) := by
  unfold PythonStructure.observe
  dsimp only
  split
  · exact .inl ⟨_, rfl, h.ignoreOrReset⟩
  split
  · exact .inl ⟨_, rfl, h.ignoreOrReset.observeLayout⟩
  have hbefore : ((self.ignoreOrReset token).2.observeLayout token).2.InRange :=
    h.ignoreOrReset.observeLayout
  obtain ⟨next, hnext, hrange⟩ := @InRange.observeLineStart _ token hbefore
  rw [hnext]
  dsimp only
  have hlast : ((next.observeExpression token).observeUnary token).InRange :=
    hrange.observeExpression
  unfold validate
  rw [List.getElem?_eq_getElem hlast]
  dsimp only
  split
  · exact .inr rfl
  · exact .inl ⟨_, rfl, hlast⟩

end PythonStructure

/-- No sequence of tokens takes the pass out of the range of its counters. -/
theorem observeTokens_inRange {limit : Nat} {self : PythonStructure} (h : self.InRange)
    (tokens : List TokenKind) :
    (∃ next, observeTokens limit self tokens = .ok next ∧ next.InRange)
      ∨ observeTokens limit self tokens
        = .error (.analysis (PythonStructure.excessive limit)) := by
  induction tokens generalizing self with
  | nil => exact .inl ⟨self, rfl, h⟩
  | cons token tokens ih =>
    unfold observeTokens at ih ⊢
    rw [List.foldlM_cons]
    obtain ⟨next, hnext, hrange⟩ | herror := @PythonStructure.InRange.observe limit self token h
    · rw [hnext]
      exact ih hrange
    · rw [herror]
      exact .inr rfl

/-! ## Tokens of a line -/

/-- The tokens that stand in a logical line. -/
def TokenKind.isWord : TokenKind → Bool
  | .comment | .nonLogicalNewline | .newline | .indent | .dedent => false
  | _ => true

def delimitersAfter (delimiters : Nat) : TokenKind → Nat
  | .lpar | .lsqb | .lbrace => delimiters + 1
  | .rpar | .rsqb | .rbrace => delimiters - 1
  | _ => delimiters

def nodesAfter (nodes : Nat) (token : TokenKind) : Nat :=
  if PythonStructure.countsNode token then nodes + 1
  else if token = .comma ∨ token = .semi then 0
  else nodes

/-- The chain of an indentation after a line starts with a token. -/
def chainAfter (chain : Nat) : TokenKind → Nat
  | .if_ => 1
  | .elif_ => chain + 1
  | .else_ => chain
  | _ => 0

/-- What a token of a line does to the counters; all of them are within the limit
    then. -/
structure Observed (limit : Nat) (before : PythonStructure) (token : TokenKind)
    (next : PythonStructure) : Prop where
  delimiters : next.delimiters = delimitersAfter before.delimiters token
  indents : next.indents = before.indents
  unary : next.unary = if PythonStructure.isUnary token then before.unary + 1 else 0
  expressionNodes : next.expressionNodes = nodesAfter before.expressionNodes token
  logicalLineStart : next.logicalLineStart = false
  lineStart : before.logicalLineStart = true →
    ∃ chain, before.elifChainByIndent[before.indents]? = some chain
    ∧ next.elifChainByIndent = before.elifChainByIndent.set before.indents (chainAfter chain token)
    ∧ chainAfter chain token ≤ limit
  inLine : before.logicalLineStart = false → next.elifChainByIndent = before.elifChainByIndent
  delimiters_le : next.delimiters ≤ limit
  indents_le : next.indents ≤ limit
  unary_le : next.unary ≤ limit
  expressionNodes_le : next.expressionNodes ≤ limit

variable {token : TokenKind}

theorem observeLayout_of_isWord {self : PythonStructure}
    (h : token.isWord = true) : self.observeLayout token
      = (false, { self with delimiters := delimitersAfter self.delimiters token }) := by
  cases token <;> first | rfl | cases h

theorem observeExpression_eq (self : PythonStructure) (token : TokenKind) :
    self.observeExpression token
      = { self with expressionNodes := nodesAfter self.expressionNodes token } := by
  unfold PythonStructure.observeExpression nodesAfter
  split
  · rfl
  · cases token <;> rfl

variable {self next : PythonStructure}

theorem observeLineStart_eq_some (h : self.observeLineStart token = some next) :
    next = { self with
      elifChainByIndent := next.elifChainByIndent
      logicalLineStart := false }
    ∧ (self.logicalLineStart = true → ∃ chain, self.elifChainByIndent[self.indents]? = some chain
      ∧ next.elifChainByIndent = self.elifChainByIndent.set self.indents (chainAfter chain token))
    ∧ (self.logicalLineStart = false → next.elifChainByIndent = self.elifChainByIndent) := by
  unfold PythonStructure.observeLineStart at h
  split at h
  · next hstart =>
    split at h
    · cases h
    · next chain hchain =>
      cases h
      refine ⟨rfl, fun _ => ⟨chain, hchain, ?_⟩, fun hline => ?_⟩
      · cases token <;> rfl
      · rw [hstart] at hline
        cases hline
  · next hstart =>
    cases h
    have hline : self.logicalLineStart = false := by simpa using hstart
    refine ⟨?_, fun h => absurd h hstart, fun _ => rfl⟩
    obtain ⟨delimiters, indents, unary, nodes, lineStart, chains⟩ := self
    cases hline
    rfl

variable {limit : Nat}

theorem observed_of_observe (hword : token.isWord = true) (h : self.observe limit token = .ok next) :
    Observed limit self token next := by
  have hignore : self.ignoreOrReset token = (false, self) := by
    cases token <;> first | rfl | cases hword
  unfold PythonStructure.observe at h
  rw [hignore] at h
  simp only [observeLayout_of_isWord hword, Bool.false_eq_true, if_false] at h
  split at h
  · cases h
  · next started hstarted =>
    obtain ⟨hself, hstart, hline⟩ := observeLineStart_eq_some hstarted
    rw [observeExpression_eq] at h
    unfold PythonStructure.validate at h
    split at h
    · cases h
    · next chain hchain =>
      split at h
      · cases h
      · next hvalid =>
        cases h
        simp only [not_or, not_lt] at hvalid
        obtain ⟨hdelimiters, hindents, hunary, hnodes, hlimit⟩ := hvalid
        rw [hself] at hdelimiters hindents hunary hnodes ⊢
        refine ⟨rfl, rfl, rfl, rfl, rfl, ?_, hline, hdelimiters, hindents, hunary, hnodes⟩
        intro hline'
        obtain ⟨before, hbefore, hset⟩ := hstart hline'
        refine ⟨before, hbefore, hset, ?_⟩
        have hsame : started.indents = self.indents := by rw [hself]
        have hlength : self.indents < self.elifChainByIndent.length :=
          (List.getElem?_eq_some_iff.mp hbefore).1
        change started.elifChainByIndent[started.indents]? = some chain at hchain
        rw [hset, hsame, List.getElem?_set_self hlength] at hchain
        cases hchain
        exact hlimit

/-- A pass over two sequences. -/
theorem observeTokens_append {first second : List TokenKind} :
    observeTokens limit self (first ++ second) = .ok next
      ↔ ∃ mid, observeTokens limit self first = .ok mid
        ∧ observeTokens limit mid second = .ok next := by
  unfold observeTokens
  rw [List.foldlM_append]
  exact Except.bind_eq_ok_iff

theorem observeTokens_cons {tokens : List TokenKind} :
    observeTokens limit self (token :: tokens) = .ok next
      ↔ ∃ mid, self.observe limit token = .ok mid ∧ observeTokens limit mid tokens = .ok next := by
  unfold observeTokens
  rw [List.foldlM_cons]
  exact Except.bind_eq_ok_iff

/-- Words that do not reset the count of nodes are all counted. -/
theorem expressionNodes_observeTokens
    {tokens : List TokenKind} (hwords : ∀ token ∈ tokens, token.isWord = true)
    (hcomma : .comma ∉ tokens) (hsemi : .semi ∉ tokens)
    (h : observeTokens limit self tokens = .ok next) :
    next.expressionNodes
      = self.expressionNodes + tokens.countP PythonStructure.countsNode := by
  induction tokens generalizing self with
  | nil =>
    cases h
    rfl
  | cons token tokens ih =>
    obtain ⟨mid, hmid, hrest⟩ := observeTokens_cons.mp h
    obtain ⟨hword, hwords⟩ := List.forall_mem_cons.mp hwords
    obtain ⟨hcomma', hcomma⟩ := not_or.mp (mt List.mem_cons.mpr hcomma)
    obtain ⟨hsemi', hsemi⟩ := not_or.mp (mt List.mem_cons.mpr hsemi)
    have hobserved := observed_of_observe hword hmid
    rw [ih hwords hcomma hsemi hrest, hobserved.expressionNodes, List.countP_cons]
    unfold nodesAfter
    split
    · omega
    · rw [if_neg (by rintro (rfl | rfl) <;> contradiction)]
      omega

end Opcore.Python
