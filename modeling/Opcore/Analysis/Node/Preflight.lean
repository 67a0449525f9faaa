/-
  Opcore.Analysis.Node.Preflight

  The structural guard in front of the JavaScript parser: a scanner over the bytes
  of the source that knows strings, templates and comments, and counts brackets and
  runs of unary operators.
-/
import Opcore.Library.Fallible
import Opcore.Model

namespace Opcore.Node

open Text

/-! ## The scanner -/

inductive ScanState where
  | code
  | singleQuote
  | doubleQuote
  | template
  | lineComment
  | blockComment
  deriving DecidableEq

structure StructuralScanner where
  state : ScanState := .code
  escaped : Bool := false
  depth : Nat := 0
  unary : Nat := 0
  /-- The depths of the open template expressions, the innermost first. -/
  templateExpressionDepths : List Nat := []

def commentStart (b : UInt8) (next : Option UInt8) : Option ScanState :=
  if b = byte '/' ∧ next = some (byte '/') then some .lineComment
  else if b = byte '/' ∧ next = some (byte '*') then some .blockComment
  else none

def literalStart (b : UInt8) : Option ScanState :=
  if b = byte '\'' then some .singleQuote
  else if b = byte '"' then some .doubleQuote
  else if b = 96 then some .template
  else none

def rejectExcessiveStructure (limit depth unary : Nat) : Except AnalysisError Unit :=
  if limit < depth ∨ limit < unary then
    .error (.unsupported (ascii "source structural depth exceeds the " ++ ascii (toString limit)
      ++ ascii "-level safety limit"))
  else .ok ()

def isOpening (b : UInt8) : Bool := b = byte '(' || b = byte '[' || b = 123

def isClosing (b : UInt8) : Bool := b = byte ')' || b = byte ']'

def isUnaryByte (b : UInt8) : Bool := b = byte '!' || b = byte '~' || b = byte '+' || b = byte '-'

namespace StructuralScanner

/-- The new state, and whether the byte is part of an escape. -/
def takeEscape (self : StructuralScanner) (b : UInt8) : Bool × StructuralScanner :=
  if self.escaped then (true, { self with escaped := false })
  else if b = 92 then (true, { self with escaped := true })
  else (false, self)

def leaveLiteral (self : StructuralScanner) : StructuralScanner :=
  { self with state := .code, unary := 0 }

def consumeQuote (self : StructuralScanner) (b : UInt8) : Nat × StructuralScanner :=
  let (escape, self) := self.takeEscape b
  if escape then (0, self)
  else if (self.state = .singleQuote ∧ b = byte '\'')
      ∨ (self.state = .doubleQuote ∧ b = byte '"') then
    (0, self.leaveLiteral)
  else (0, self)

def consumeTemplate (limit : Nat) (self : StructuralScanner) (b : UInt8) (next : Option UInt8) :
    Except AnalysisError (Nat × StructuralScanner) :=
  let (escape, self) := self.takeEscape b
  if escape then .ok (0, self)
  else if b = 96 then .ok (0, self.leaveLiteral)
  else if b ≠ byte '$' ∨ next ≠ some 123 then .ok (0, self)
  else do
    let self := { self with
      depth := self.depth + 1
      templateExpressionDepths := (self.depth + 1) :: self.templateExpressionDepths }
    rejectExcessiveStructure limit self.depth self.unary
    return (1, { self with state := .code })

def consumeLineComment (self : StructuralScanner) (b : UInt8) : Nat × StructuralScanner :=
  if b = 10 ∨ b = 13 then (0, { self with state := .code }) else (0, self)

def consumeBlockComment (self : StructuralScanner) (b : UInt8) (next : Option UInt8) :
    Nat × StructuralScanner :=
  if b = byte '*' ∧ next = some (byte '/') then (1, { self with state := .code }) else (0, self)

def closeBrace (self : StructuralScanner) : StructuralScanner :=
  let self :=
    if self.templateExpressionDepths.head? = some self.depth then
      { self with
        templateExpressionDepths := self.templateExpressionDepths.tail
        state := .template }
    else self
  { self with depth := self.depth - 1, unary := 0 }

def consumeCodeOperator (self : StructuralScanner) (b : UInt8) : StructuralScanner :=
  if isOpening b then { self with depth := self.depth + 1, unary := 0 }
  else if isClosing b then { self with depth := self.depth - 1, unary := 0 }
  else if b = 125 then self.closeBrace
  else if isUnaryByte b then { self with unary := self.unary + 1 }
  else if !isAsciiWhitespace b then { self with unary := 0 }
  else self

def consumeCode (self : StructuralScanner) (b : UInt8) (next : Option UInt8) :
    Nat × StructuralScanner :=
  match commentStart b next with
  | some state => (1, { self with state })
  | none =>
    match literalStart b with
    | some state => (0, { self with state })
    | none => (0, self.consumeCodeOperator b)

/-- The match on the state. -/
def consumeByState (limit : Nat) (self : StructuralScanner) (b : UInt8) (next : Option UInt8) :
    Except AnalysisError (Nat × StructuralScanner) :=
  match self.state with
  | .singleQuote | .doubleQuote => .ok (self.consumeQuote b)
  | .template => self.consumeTemplate limit b next
  | .lineComment => .ok (self.consumeLineComment b)
  | .blockComment => .ok (self.consumeBlockComment b next)
  | .code => .ok (self.consumeCode b next)

/-- What the scanner does with one byte; the number says how many of the next it has
    taken with it. -/
def consume (limit : Nat) (self : StructuralScanner) (b : UInt8) (next : Option UInt8) :
    Except AnalysisError (Nat × StructuralScanner) := do
  let (skipped, self) ← self.consumeByState limit b next
  rejectExcessiveStructure limit self.depth self.unary
  return (skipped, self)

end StructuralScanner

/-- The loop over the bytes; the first `skip` of them are taken already. -/
def scan (limit : Nat) : Nat → StructuralScanner → Str → Except AnalysisError StructuralScanner
  | _, self, [] => .ok self
  | skip + 1, self, _ :: rest => scan limit skip self rest
  | 0, self, b :: rest => do
    let (skipped, self) ← self.consume limit b rest.head?
    scan limit skipped self rest

def preflightStructure (source : Str) : Except AnalysisError Unit :=
  (scan maxStructuralDepth 0 {} source).map fun _ => ()

/-! ## Steps of the scanner

Each lemma says where a scan that succeeds goes on after the next byte. -/

section Steps

variable {limit depth unary : Nat} {templates : List Nat} {b : UInt8} {rest : Str}
  {final : StructuralScanner}

/-- In code, at some depth. -/
def inCode (depth unary : Nat) (templates : List Nat) : StructuralScanner :=
  { depth := depth, unary := unary, templateExpressionDepths := templates }

/-- In a literal or a comment. -/
def inside (state : ScanState) (depth unary : Nat) (templates : List Nat) : StructuralScanner :=
  { state := state, depth := depth, unary := unary, templateExpressionDepths := templates }

theorem rejectExcessiveStructure_eq_ok {value : Unit}
    (h : rejectExcessiveStructure limit depth unary = .ok value) :
    depth ≤ limit ∧ unary ≤ limit := by
  unfold rejectExcessiveStructure at h
  split at h
  · cases h
  · next hlimit =>
    simp only [not_or, not_lt] at hlimit
    exact hlimit

/-- A scan goes on from what the state makes of the next byte. -/
theorem scan_cons {self : StructuralScanner} {result : Nat × StructuralScanner}
    (hresult : self.consumeByState limit b rest.head? = .ok result)
    (h : scan limit 0 self (b :: rest) = .ok final) :
    scan limit result.1 result.2 rest = .ok final
      ∧ result.2.depth ≤ limit ∧ result.2.unary ≤ limit := by
  obtain ⟨value, hvalue, hrest⟩ := Except.bind_eq_ok_iff.mp h
  obtain ⟨result', hresult', hreject⟩ := Except.bind_eq_ok_iff.mp hvalue
  cases hresult.symm.trans hresult'
  obtain ⟨done, hdone, hvalue⟩ := Except.bind_eq_ok_iff.mp hreject
  cases hvalue
  exact ⟨hrest, rejectExcessiveStructure_eq_ok hdone⟩

theorem scan_code (h : scan limit 0 (inCode depth unary templates) (b :: rest) = .ok final) :
    scan limit ((inCode depth unary templates).consumeCode b rest.head?).1
        ((inCode depth unary templates).consumeCode b rest.head?).2 rest = .ok final
      ∧ ((inCode depth unary templates).consumeCode b rest.head?).2.depth ≤ limit
      ∧ ((inCode depth unary templates).consumeCode b rest.head?).2.unary ≤ limit :=
  scan_cons rfl h

/-- Bytes that open or close nothing. -/
def isOrdinary (b : UInt8) : Bool :=
  !(isOpening b || isClosing b || b = 125 || b = byte '\'' || b = byte '"' || b = 96
    || b = byte '/')

theorem consumeCode_of_isOrdinary (h : isOrdinary b = true) (self : StructuralScanner)
    (next : Option UInt8) : self.consumeCode b next
      = (0, { self with unary :=
          if isUnaryByte b then self.unary + 1
          else if !isAsciiWhitespace b then 0
          else self.unary }) := by
  unfold isOrdinary at h
  simp only [Bool.not_eq_true', Bool.or_eq_false_iff, decide_eq_false_iff_not] at h
  obtain ⟨⟨⟨⟨⟨⟨hopening, hclosing⟩, hbrace⟩, hsingle⟩, hdouble⟩, htick⟩, hslash⟩ := h
  have hcomment : commentStart b next = none := by
    unfold commentStart
    rw [if_neg (fun hc => hslash hc.1), if_neg (fun hc => hslash hc.1)]
  have hliteral : literalStart b = none := by
    unfold literalStart
    rw [if_neg hsingle, if_neg hdouble, if_neg htick]
  unfold StructuralScanner.consumeCode
  rw [hcomment]
  dsimp only
  rw [hliteral]
  dsimp only
  unfold StructuralScanner.consumeCodeOperator
  rw [hopening, hclosing, if_neg Bool.false_ne_true, if_neg Bool.false_ne_true, if_neg hbrace]
  split
  · rfl
  · split <;> rfl

theorem scan_ordinary (hb : isOrdinary b = true)
    (h : scan limit 0 (inCode depth unary templates) (b :: rest) = .ok final) :
    ∃ unary', scan limit 0 (inCode depth unary' templates) rest = .ok final := by
  obtain ⟨hscan, -⟩ := scan_code h
  rw [consumeCode_of_isOrdinary hb] at hscan
  exact ⟨_, hscan⟩

theorem scan_space (hb : isAsciiWhitespace b = true)
    (h : scan limit 0 (inCode depth unary templates) (b :: rest) = .ok final) :
    scan limit 0 (inCode depth unary templates) rest = .ok final := by
  have hcases : b = 32 ∨ b = 9 ∨ b = 10 ∨ b = 12 ∨ b = 13 := by
    simpa [isAsciiWhitespace, or_assoc] using hb
  obtain ⟨hscan, -⟩ := scan_code h
  rcases hcases with rfl | rfl | rfl | rfl | rfl <;> exact hscan

theorem scan_unary (hb : isUnaryByte b = true)
    (h : scan limit 0 (inCode depth unary templates) (b :: rest) = .ok final) :
    scan limit 0 (inCode depth (unary + 1) templates) rest = .ok final ∧ unary + 1 ≤ limit := by
  have hcases : b = byte '!' ∨ b = byte '~' ∨ b = byte '+' ∨ b = byte '-' := by
    simpa [isUnaryByte, or_assoc] using hb
  obtain ⟨hscan, -, hunary⟩ := scan_code h
  rcases hcases with rfl | rfl | rfl | rfl <;> exact ⟨hscan, hunary⟩

theorem scan_opening (hb : isOpening b = true)
    (h : scan limit 0 (inCode depth unary templates) (b :: rest) = .ok final) :
    scan limit 0 (inCode (depth + 1) 0 templates) rest = .ok final ∧ depth + 1 ≤ limit := by
  have hcases : b = byte '(' ∨ b = byte '[' ∨ b = 123 := by
    simpa [isOpening, or_assoc] using hb
  obtain ⟨hscan, hdepth, -⟩ := scan_code h
  rcases hcases with rfl | rfl | rfl <;> exact ⟨hscan, hdepth⟩

theorem scan_closing (hb : isClosing b = true)
    (h : scan limit 0 (inCode (depth + 1) unary templates) (b :: rest) = .ok final) :
    scan limit 0 (inCode depth 0 templates) rest = .ok final := by
  have hcases : b = byte ')' ∨ b = byte ']' := by simpa [isClosing] using hb
  obtain ⟨hscan, -⟩ := scan_code h
  rcases hcases with rfl | rfl <;> exact hscan

theorem consumeCode_brace (self : StructuralScanner) (next : Option UInt8) :
    self.consumeCode 125 next = (0, self.closeBrace) := rfl

variable {self : StructuralScanner}

theorem closeBrace_of_ne (h : self.templateExpressionDepths.head? ≠ some self.depth) :
    self.closeBrace = { self with depth := self.depth - 1, unary := 0 } := by
  unfold StructuralScanner.closeBrace
  rw [if_neg h]

theorem closeBrace_of_eq (h : self.templateExpressionDepths.head? = some self.depth) :
    self.closeBrace = { self with
      templateExpressionDepths := self.templateExpressionDepths.tail
      state := .template
      depth := self.depth - 1
      unary := 0 } := by
  unfold StructuralScanner.closeBrace
  rw [if_pos h]

/-- A brace that closes a block: no open template expression is as deep. -/
theorem scan_closing_brace (htemplates : ∀ opened ∈ templates, opened ≤ depth)
    (h : scan limit 0 (inCode (depth + 1) unary templates) (125 :: rest) = .ok final) :
    scan limit 0 (inCode depth 0 templates) rest = .ok final := by
  obtain ⟨hscan, -⟩ := scan_code h
  have hhead : (inCode (depth + 1) unary templates).templateExpressionDepths.head?
      ≠ some (inCode (depth + 1) unary templates).depth := by
    intro hhead
    have hle := htemplates (depth + 1) (List.mem_of_mem_head? hhead)
    omega
  rw [consumeCode_brace, closeBrace_of_ne hhead] at hscan
  exact hscan

/-- A brace that closes a template expression. -/
theorem scan_closing_template
    (h : scan limit 0 (inCode (depth + 1) unary ((depth + 1) :: templates)) (125 :: rest)
      = .ok final) :
    scan limit 0 (inside .template depth 0 templates) rest = .ok final := by
  obtain ⟨hscan, -⟩ := scan_code h
  rw [consumeCode_brace, closeBrace_of_eq rfl] at hscan
  exact hscan

/-! ## Literals and comments -/

def isLineEnd (b : UInt8) : Bool := b = 10 || b = 13

theorem consumeLineComment_eq (self : StructuralScanner) (b : UInt8) :
    self.consumeLineComment b
      = (0, if isLineEnd b then { self with state := .code } else self) := by
  unfold StructuralScanner.consumeLineComment isLineEnd
  by_cases hb : b = 10 ∨ b = 13
  · rw [if_pos hb, if_pos (by simpa using hb)]
  · rw [if_neg hb, if_neg (by simpa using hb)]

theorem scan_lineComment {text : Str} (htext : ∀ c ∈ text, isLineEnd c = false)
    (hb : isLineEnd b = true)
    (h : scan limit 0 (inside .lineComment depth unary templates) (text ++ b :: rest)
      = .ok final) :
    scan limit 0 (inCode depth unary templates) rest = .ok final := by
  induction text with
  | nil =>
    obtain ⟨hscan, -⟩ := scan_cons rfl h
    rw [consumeLineComment_eq, hb, if_pos rfl] at hscan
    exact hscan
  | cons c text ih =>
    obtain ⟨hc, htext⟩ := List.forall_mem_cons.mp htext
    obtain ⟨hscan, -⟩ := scan_cons rfl h
    rw [consumeLineComment_eq, hc, if_neg Bool.false_ne_true] at hscan
    exact ih htext hscan

/-- The text of a block comment: no end of the comment stands in it. -/
def closesComment : Str → Bool
  | c :: d :: rest => (c = byte '*' && d = byte '/') || closesComment (d :: rest)
  | _ => false

theorem consumeBlockComment_of_not {next : Option UInt8}
    (h : ¬ (b = byte '*' ∧ next = some (byte '/'))) :
    self.consumeBlockComment b next = (0, self) := if_neg h

theorem scan_blockComment {text : Str} (htext : closesComment text = false)
    (h : scan limit 0 (inside .blockComment depth unary templates)
      (text ++ byte '*' :: byte '/' :: rest) = .ok final) :
    scan limit 0 (inCode depth unary templates) rest = .ok final := by
  induction text with
  | nil => exact (scan_cons rfl h).1
  | cons c text ih =>
    -- After the last byte of the text comes the star of the end.
    have hopen : ¬ (c = byte '*'
        ∧ (text ++ byte '*' :: byte '/' :: rest).head? = some (byte '/')) := by
      rintro ⟨rfl, hnext⟩
      cases text with
      | nil => cases hnext
      | cons d text =>
        cases hnext
        cases htext
    have htext' : closesComment text = false := by
      cases text with
      | nil => rfl
      | cons d text => exact (Bool.or_eq_false_iff.mp htext).2
    have hstate : (inside .blockComment depth unary templates).consumeByState limit c
        (text ++ byte '*' :: byte '/' :: rest).head?
        = .ok (0, inside .blockComment depth unary templates) :=
      congrArg Except.ok (consumeBlockComment_of_not hopen)
    exact ih htext' (scan_cons hstate h).1

/-- A unit of the text of a literal: a byte, or an escape of one. -/
inductive TextUnit (quote : UInt8) where
  | plain (b : UInt8) (inside : b ≠ quote ∧ b ≠ 92)
  | escape (b : UInt8)

def TextUnit.text {quote : UInt8} : TextUnit quote → Str
  | .plain b _ => [b]
  | .escape b => [92, b]

def unitsText {quote : UInt8} (units : List (TextUnit quote)) : Str := units.flatMap TextUnit.text

inductive Quote where
  | single
  | double

def Quote.byte : Quote → UInt8
  | .single => 39
  | .double => 34

def Quote.state : Quote → ScanState
  | .single => .singleQuote
  | .double => .doubleQuote

variable {quote : Quote}

theorem scan_quote_open
    (h : scan limit 0 (inCode depth unary templates) (quote.byte :: rest) = .ok final) :
    scan limit 0 (inside quote.state depth unary templates) rest = .ok final := by
  cases quote with
  | single => exact (scan_code h).1
  | double => exact (scan_code h).1

theorem takeEscape_plain (hescaped : self.escaped = false)
    (hb : b ≠ 92) : self.takeEscape b = (false, self) := by
  unfold StructuralScanner.takeEscape
  rw [hescaped, if_neg Bool.false_ne_true, if_neg hb]

theorem consumeByState_quote (quote : Quote) (next : Option UInt8) :
    (inside quote.state depth unary templates).consumeByState limit b next
      = .ok ((inside quote.state depth unary templates).consumeQuote b) := by
  cases quote <;> rfl

theorem consumeQuote_plain {quote : Quote} (hb : b ≠ quote.byte ∧ b ≠ 92) :
    (inside quote.state depth unary templates).consumeQuote b
      = (0, inside quote.state depth unary templates) := by
  unfold StructuralScanner.consumeQuote
  rw [takeEscape_plain rfl hb.2]
  dsimp only
  rw [if_neg Bool.false_ne_true, if_neg]
  rintro (⟨hstate, rfl⟩ | ⟨hstate, rfl⟩)
  · cases quote with
    | single => exact hb.1 rfl
    | double => cases hstate
  · cases quote with
    | single => cases hstate
    | double => exact hb.1 rfl

theorem scan_quote_plain (hb : b ≠ quote.byte ∧ b ≠ 92)
    (h : scan limit 0 (inside quote.state depth unary templates) (b :: rest) = .ok final) :
    scan limit 0 (inside quote.state depth unary templates) rest = .ok final := by
  refine (@scan_cons _ _ _ _ _ (0, _) ?_ h).1
  rw [consumeByState_quote, consumeQuote_plain hb]
  rfl

/-- The byte after a backslash is part of the escape, whatever it is. -/
theorem scan_quote_escape
    (h : scan limit 0 (inside quote.state depth unary templates) (92 :: b :: rest) = .ok final) :
    scan limit 0 (inside quote.state depth unary templates) rest = .ok final := by
  have hescape := (scan_cons (consumeByState_quote quote (b :: rest).head?) h).1
  cases quote with
  | single => exact (scan_cons rfl hescape).1
  | double => exact (scan_cons rfl hescape).1

theorem scan_quote_close
    (h : scan limit 0 (inside quote.state depth unary templates) (quote.byte :: rest) = .ok final) :
    scan limit 0 (inCode depth 0 templates) rest = .ok final := by
  cases quote with
  | single => exact (scan_cons rfl h).1
  | double => exact (scan_cons rfl h).1

/-- A string, from its first quote to its last. -/
theorem scan_string {units : List (TextUnit quote.byte)}
    (h : scan limit 0 (inCode depth unary templates)
      (quote.byte :: unitsText units ++ quote.byte :: rest) = .ok final) :
    scan limit 0 (inCode depth 0 templates) rest = .ok final := by
  have hinside := scan_quote_open h
  clear h
  induction units with
  | nil => exact scan_quote_close hinside
  | cons unit units ih =>
    cases unit with
    | plain c hc => exact ih (scan_quote_plain hc hinside)
    | escape c => exact ih (scan_quote_escape hinside)

/-! ## Templates -/

theorem scan_template_open
    (h : scan limit 0 (inCode depth unary templates) (96 :: rest) = .ok final) :
    scan limit 0 (inside .template depth unary templates) rest = .ok final := (scan_code h).1

theorem scan_template_close
    (h : scan limit 0 (inside .template depth unary templates) (96 :: rest) = .ok final) :
    scan limit 0 (inCode depth 0 templates) rest = .ok final := (scan_cons rfl h).1

/-- Text of a template in which no expression starts. -/
def opensExpression : List (TextUnit 96) → Bool
  | .plain b _ :: .plain c h :: rest =>
    (b = byte '$' && c = 123) || opensExpression (.plain c h :: rest)
  | _ :: rest => opensExpression rest
  | [] => false

theorem scan_template_plain (hb : b ≠ 96 ∧ b ≠ 92)
    (hopen : ¬ (b = byte '$' ∧ rest.head? = some 123))
    (h : scan limit 0 (inside .template depth unary templates) (b :: rest) = .ok final) :
    scan limit 0 (inside .template depth unary templates) rest = .ok final := by
  have hstate : (inside .template depth unary templates).consumeByState limit b rest.head?
      = .ok (0, inside .template depth unary templates) := by
    show (inside .template depth unary templates).consumeTemplate limit b rest.head? = _
    unfold StructuralScanner.consumeTemplate
    rw [takeEscape_plain rfl hb.2]
    dsimp only
    rw [if_neg Bool.false_ne_true, if_neg hb.1, if_pos]
    by_cases hdollar : b = byte '$'
    · exact .inr fun hnext => hopen ⟨hdollar, hnext⟩
    · exact .inl hdollar
  exact (scan_cons hstate h).1

theorem scan_template_escape
    (h : scan limit 0 (inside .template depth unary templates) (92 :: b :: rest) = .ok final) :
    scan limit 0 (inside .template depth unary templates) rest = .ok final := by
  have hescape := (scan_cons rfl h).1
  exact (scan_cons rfl hescape).1

theorem scan_template_expression
    (h : scan limit 0 (inside .template depth unary templates) (byte '$' :: 123 :: rest)
      = .ok final) :
    scan limit 0 (inCode (depth + 1) unary ((depth + 1) :: templates)) rest = .ok final
      ∧ depth + 1 ≤ limit := by
  obtain ⟨value, hvalue, hrest⟩ := Except.bind_eq_ok_iff.mp h
  obtain ⟨result, hresult, hreject⟩ := Except.bind_eq_ok_iff.mp hvalue
  obtain ⟨opened, hopened, hresult⟩ := Except.bind_eq_ok_iff.mp hresult
  cases hresult
  obtain ⟨done, -, hvalue⟩ := Except.bind_eq_ok_iff.mp hreject
  cases hvalue
  exact ⟨hrest, (rejectExcessiveStructure_eq_ok hopened).1⟩

/-- The text of a template, up to a byte that is no brace. -/
theorem scan_template_text {units : List (TextUnit 96)} (hunits : opensExpression units = false)
    (hrest : rest.head? ≠ some 123)
    (h : scan limit 0 (inside .template depth unary templates) (unitsText units ++ rest)
      = .ok final) :
    scan limit 0 (inside .template depth unary templates) rest = .ok final := by
  induction units with
  | nil => exact h
  | cons unit units ih =>
    cases unit with
    | escape c => exact ih hunits (scan_template_escape h)
    | plain c hc =>
      have hunits' : opensExpression units = false := by
        cases units with
        | nil => rfl
        | cons unit units =>
          cases unit with
          | plain d hd => exact (Bool.or_eq_false_iff.mp hunits).2
          | escape d => exact hunits
      refine ih hunits' (scan_template_plain hc ?_ h)
      rintro ⟨rfl, hnext⟩
      cases units with
      | nil => exact hrest hnext
      | cons unit units =>
        cases unit with
        | plain d hd =>
          cases hnext
          cases hunits
        | escape d => cases hnext

end Steps

end Opcore.Node
