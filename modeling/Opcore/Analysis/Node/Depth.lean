/-
  Opcore.Analysis.Node.Depth

  What the guard says about the depth of the tree it lets through.  Brackets,
  template expressions and runs of unary operators are counted; every other node of
  the tree is not, and bounds the depth only by its own number.
-/
import Opcore.Analysis.Node.Syntax

namespace Opcore.Node

open Text

/-! ## What the counters follow -/

mutual

/-- The brackets and template expressions that are open at once. -/
def Expr.brackets : Expr → Nat
  | .word _ | .string _ _ | .regex _ _ => 0
  | .template _ expressions => expressions.brackets
  | .unary _ _ operand => operand.brackets
  | .keyword _ operand => operand.brackets
  | .binary _ left _ _ right => max left.brackets right.brackets
  | .member value _ => value.brackets
  | .call function _ _ arguments => max function.brackets (arguments.brackets + 1)
  | .conditional test _ _ consequent _ _ alternate =>
    max test.brackets (max consequent.brackets alternate.brackets)
  | .headed _ header _ body => max (header.brackets + 1) body.brackets
  | .branch _ test _ body _ rest =>
    max (test.brackets + 1) (max body.brackets rest.brackets)
  | .group _ items => items.brackets + 1

def Items.brackets : Items → Nat
  | .last _ => 0
  | .item _ expr rest => max expr.brackets rest.brackets

def Expressions.brackets : Expressions → Nat
  | .done => 0
  | .expression items _ rest => max (items.brackets + 1) rest.brackets

end

/-- The unary operators an expression starts with. -/
def Expr.lead : Expr → Nat
  | .unary _ _ operand => operand.lead + 1
  | _ => 0

mutual

/-- The most unary operators in a row. -/
def Expr.runs : Expr → Nat
  | .word _ | .string _ _ | .regex _ _ => 0
  | .template _ expressions => expressions.runs
  | .unary op gap operand => max (Expr.unary op gap operand).lead operand.runs
  | .keyword _ operand => operand.runs
  | .binary _ left _ _ right => max left.runs right.runs
  | .member value _ => value.runs
  | .call function _ _ arguments => max function.runs arguments.runs
  | .conditional test _ _ consequent _ _ alternate =>
    max test.runs (max consequent.runs alternate.runs)
  | .headed _ header _ body => max header.runs body.runs
  | .branch _ test _ body _ rest => max test.runs (max body.runs rest.runs)
  | .group _ items => items.runs

def Items.runs : Items → Nat
  | .last _ => 0
  | .item _ expr rest => max expr.runs rest.runs

def Expressions.runs : Expressions → Nat
  | .done => 0
  | .expression items _ rest => max items.runs rest.runs

end

mutual

/-- The most nodes one below the other that are not counted. -/
def Expr.links : Expr → Nat
  | .word _ | .string _ _ | .regex _ _ => 0
  | .template _ expressions => expressions.links
  | .unary _ _ operand => operand.links
  | .keyword _ operand => operand.links + 1
  | .binary _ left _ _ right => max left.links right.links + 1
  | .member value _ => value.links + 1
  | .call function _ _ arguments => max function.links arguments.links + 1
  | .conditional test _ _ consequent _ _ alternate =>
    max test.links (max consequent.links alternate.links) + 1
  | .headed _ header _ body => max header.links body.links + 1
  | .branch _ test _ body _ rest => max test.links (max body.links rest.links) + 1
  | .group _ items => items.links

def Items.links : Items → Nat
  | .last _ => 0
  | .item _ expr rest => max expr.links rest.links

def Expressions.links : Expressions → Nat
  | .done => 0
  | .expression items _ rest => max items.links rest.links

end

mutual

theorem Expr.links_le_depth : ∀ expr : Expr, expr.links ≤ expr.depth
  | .word _ | .string _ _ | .regex _ _ => le_rfl
  | .template _ expressions => expressions.links_le_depth
  | .unary _ _ operand => Nat.le_succ_of_le operand.links_le_depth
  | .keyword _ operand => Nat.succ_le_succ operand.links_le_depth
  | .binary _ left _ _ right =>
    Nat.succ_le_succ (max_le_max left.links_le_depth right.links_le_depth)
  | .member value _ => Nat.succ_le_succ value.links_le_depth
  | .call function _ _ arguments =>
    Nat.succ_le_succ (max_le_max function.links_le_depth arguments.links_le_depth)
  | .conditional test _ _ consequent _ _ alternate =>
    Nat.succ_le_succ (max_le_max test.links_le_depth
      (max_le_max consequent.links_le_depth alternate.links_le_depth))
  | .headed _ header _ body =>
    Nat.succ_le_succ (max_le_max header.links_le_depth body.links_le_depth)
  | .branch _ test _ body _ rest =>
    Nat.succ_le_succ (max_le_max test.links_le_depth
      (max_le_max body.links_le_depth rest.links_le_depth))
  | .group _ items => Nat.le_succ_of_le items.links_le_depth

theorem Items.links_le_depth : ∀ items : Items, items.links ≤ items.depth
  | .last _ => le_rfl
  | .item _ expr rest => max_le_max expr.links_le_depth rest.links_le_depth

theorem Expressions.links_le_depth : ∀ expressions : Expressions,
    expressions.links ≤ expressions.depth
  | .done => le_rfl
  | .expression items _ rest =>
    max_le_max (Nat.le_succ_of_le items.links_le_depth) rest.links_le_depth

end

theorem lead_le_runs (expr : Expr) : expr.lead ≤ expr.runs := by
  cases expr with
  | unary op gap operand => exact le_max_left _ _
  | _ => exact Nat.zero_le _

/-! ## Depth by counts -/

/-- The counts an expression is paid for with. -/
def Expr.counts (expr : Expr) : Nat := expr.brackets + expr.links

def Items.counts (items : Items) : Nat := items.brackets + items.links

def Expressions.counts (expressions : Expressions) : Nat :=
  expressions.brackets + expressions.links

/-- An expression as a part of one that has more counts. -/
theorem Expr.part_depth_lt (part : Expr) {run counts : Nat} (hruns : part.runs ≤ run)
    (h : part.depth ≤ depthBound part.counts run + part.lead) (hlt : part.counts < counts) :
    part.depth + 1 ≤ depthBound counts run :=
  depthBound_step h ((lead_le_runs part).trans hruns) hlt

theorem Items.part_depth_lt (items : Items) {run counts : Nat}
    (h : items.depth ≤ depthBound items.counts run + run) (hlt : items.counts < counts) :
    items.depth + 1 ≤ depthBound counts run :=
  depthBound_step h le_rfl hlt

mutual

theorem Expr.depth_le {run : Nat} : ∀ expr : Expr, expr.runs ≤ run →
    expr.depth ≤ depthBound expr.counts run + expr.lead
  | .word _, _ | .string _ _, _ | .regex _ _, _ => Nat.zero_le _
  | .template _ expressions, hruns => expressions.depth_le hruns
  | .unary _ _ operand, hruns => by
    -- Only here the level is paid by the lead instead of a count.
    have hoperand := operand.depth_le ((le_max_right _ _).trans hruns)
    exact Nat.succ_le_succ hoperand
  | .keyword fillers operand, hruns =>
    operand.part_depth_lt hruns (operand.depth_le hruns)
      (by simp only [Expr.counts, Expr.brackets, Expr.links]; omega)
  | .binary op left before after right, hruns => by
    have hleft : left.runs ≤ run := (le_max_left _ _).trans hruns
    have hright : right.runs ≤ run := (le_max_right _ _).trans hruns
    have hleft' := left.part_depth_lt hleft (left.depth_le hleft)
      (show _ < (Expr.binary op left before after right).counts by
        simp only [Expr.counts, Expr.brackets, Expr.links]; omega)
    have hright' := right.part_depth_lt hright (right.depth_le hright)
      (show _ < (Expr.binary op left before after right).counts by
        simp only [Expr.counts, Expr.brackets, Expr.links]; omega)
    simp only [Expr.depth]
    omega
  | .member value fillers, hruns =>
    value.part_depth_lt hruns (value.depth_le hruns)
      (by simp only [Expr.counts, Expr.brackets, Expr.links]; omega)
  | .call function gap bracket arguments, hruns => by
    have hfunction : function.runs ≤ run := (le_max_left _ _).trans hruns
    have hfunction' := function.part_depth_lt hfunction (function.depth_le hfunction)
      (show _ < (Expr.call function gap bracket arguments).counts by
        simp only [Expr.counts, Expr.brackets, Expr.links]; omega)
    have harguments := arguments.part_depth_lt (arguments.depth_le ((le_max_right _ _).trans hruns))
      (show _ < (Expr.call function gap bracket arguments).counts by
        simp only [Expr.counts, Items.counts, Expr.brackets, Expr.links]; omega)
    simp only [Expr.depth]
    omega
  | .conditional test before after consequent before' after' alternate, hruns => by
    have htest : test.runs ≤ run := (le_max_left _ _).trans hruns
    have hrest : max consequent.runs alternate.runs ≤ run := (le_max_right _ _).trans hruns
    have hconsequent : consequent.runs ≤ run := (le_max_left _ _).trans hrest
    have halternate : alternate.runs ≤ run := (le_max_right _ _).trans hrest
    have htest' := test.part_depth_lt htest (test.depth_le htest)
      (show _ < (Expr.conditional test before after consequent before' after' alternate).counts by
        simp only [Expr.counts, Expr.brackets, Expr.links]; omega)
    have hconsequent' := consequent.part_depth_lt hconsequent (consequent.depth_le hconsequent)
      (show _ < (Expr.conditional test before after consequent before' after' alternate).counts by
        simp only [Expr.counts, Expr.brackets, Expr.links]; omega)
    have halternate' := alternate.part_depth_lt halternate (alternate.depth_le halternate)
      (show _ < (Expr.conditional test before after consequent before' after' alternate).counts by
        simp only [Expr.counts, Expr.brackets, Expr.links]; omega)
    simp only [Expr.depth]
    omega
  | .headed fillers header fillers' body, hruns => by
    have hbody : body.runs ≤ run := (le_max_right _ _).trans hruns
    have hheader := header.part_depth_lt (header.depth_le ((le_max_left _ _).trans hruns))
      (show _ < (Expr.headed fillers header fillers' body).counts by
        simp only [Expr.counts, Items.counts, Expr.brackets, Expr.links]; omega)
    have hbody' := body.part_depth_lt hbody (body.depth_le hbody)
      (show _ < (Expr.headed fillers header fillers' body).counts by
        simp only [Expr.counts, Expr.brackets, Expr.links]; omega)
    simp only [Expr.depth]
    omega
  | .branch fillers test gap body fillers' rest, hruns => by
    have hrest : max body.runs rest.runs ≤ run := (le_max_right _ _).trans hruns
    have hbody : body.runs ≤ run := (le_max_left _ _).trans hrest
    have hrest : rest.runs ≤ run := (le_max_right _ _).trans hrest
    have htest := test.part_depth_lt (test.depth_le ((le_max_left _ _).trans hruns))
      (show _ < (Expr.branch fillers test gap body fillers' rest).counts by
        simp only [Expr.counts, Items.counts, Expr.brackets, Expr.links]; omega)
    have hbody' := body.part_depth_lt hbody (body.depth_le hbody)
      (show _ < (Expr.branch fillers test gap body fillers' rest).counts by
        simp only [Expr.counts, Expr.brackets, Expr.links]; omega)
    have hrest' := rest.part_depth_lt hrest (rest.depth_le hrest)
      (show _ < (Expr.branch fillers test gap body fillers' rest).counts by
        simp only [Expr.counts, Expr.brackets, Expr.links]; omega)
    simp only [Expr.depth]
    omega
  | .group bracket items, hruns =>
    items.part_depth_lt (items.depth_le hruns)
      (by simp only [Expr.counts, Items.counts, Expr.brackets, Expr.links]; omega)

theorem Items.depth_le {run : Nat} : ∀ items : Items, items.runs ≤ run →
    items.depth ≤ depthBound items.counts run + run
  | .last _, _ => Nat.zero_le _
  | .item fillers expr rest, hruns => by
    have hexpr : expr.runs ≤ run := (le_max_left _ _).trans hruns
    have hrest := rest.depth_le ((le_max_right _ _).trans hruns)
    have hlead := (lead_le_runs expr).trans hexpr
    have hexpr := expr.depth_le hexpr
    have hmono := @depthBound_mono expr.counts (Items.item fillers expr rest).counts run
      (by simp only [Expr.counts, Items.counts, Items.brackets, Items.links]; omega)
    have hmono' := @depthBound_mono rest.counts (Items.item fillers expr rest).counts run
      (by simp only [Items.counts, Items.brackets, Items.links]; omega)
    simp only [Items.depth]
    omega

theorem Expressions.depth_le {run : Nat} : ∀ expressions : Expressions, expressions.runs ≤ run →
    expressions.depth ≤ depthBound expressions.counts run
  | .done, _ => Nat.zero_le _
  | .expression items text rest, hruns => by
    have hitems := items.part_depth_lt (items.depth_le ((le_max_left _ _).trans hruns))
      (show _ < (Expressions.expression items text rest).counts by
        simp only [Expressions.counts, Items.counts, Expressions.brackets, Expressions.links]
        omega)
    have hrest := rest.depth_le ((le_max_right _ _).trans hruns)
    have hmono := @depthBound_mono rest.counts (Expressions.expression items text rest).counts run
      (by simp only [Expressions.counts, Expressions.brackets, Expressions.links]; omega)
    simp only [Expressions.depth]
    omega

end

/-! ## Sources the scanner reads right -/

/-- A line comment ends where the scanner ends it. -/
def Trivia.ends : Trivia → Bool
  | .line _ terminator _ => terminator = .lineFeed || terminator = .carriageReturn
  | _ => true

/-- White space and comments that do not end a run of unary operators. -/
def Trivia.counted : Trivia → Bool
  | .wide _ _ => false
  | trivia => trivia.ends

def gapEnds (gap : List Trivia) : Prop := ∀ trivia ∈ gap, trivia.ends = true

def gapCounted (gap : List Trivia) : Prop := ∀ trivia ∈ gap, trivia.counted = true

def Filler.ends : Filler → Bool
  | .trivia t => t.ends
  | .mark _ _ => true

def fillersEnd (fillers : List Filler) : Prop := ∀ filler ∈ fillers, filler.ends = true

/-- What follows the operator of a division is no comment with it. -/
def startsNoComment (text : Str) : Prop :=
  text.head? ≠ some (byte '/') ∧ text.head? ≠ some (byte '*')

mutual

/-- No regular expression, no comment that ends at a separator outside of ASCII, and
    no run of unary operators with white space in it that the scanner does not know. -/
def Expr.Clear : Expr → Prop
  | .word _ | .string _ _ => True
  | .template _ expressions => expressions.Clear
  | .regex _ _ => False
  | .unary _ gap operand => gapCounted gap ∧ operand.Clear
  | .keyword fillers operand => fillersEnd fillers ∧ operand.Clear
  | .binary op left before after right =>
    left.Clear ∧ gapEnds before ∧ gapEnds after ∧ right.Clear
      ∧ (op = .div → startsNoComment (gapText after ++ right.text))
  | .member value fillers => value.Clear ∧ fillersEnd fillers
  | .call function gap _ arguments => function.Clear ∧ gapEnds gap ∧ arguments.Clear
  | .conditional test before after consequent before' after' alternate =>
    test.Clear ∧ gapEnds before ∧ gapEnds after ∧ consequent.Clear ∧ gapEnds before'
      ∧ gapEnds after' ∧ alternate.Clear
  | .headed fillers header fillers' body =>
    fillersEnd fillers ∧ header.Clear ∧ fillersEnd fillers' ∧ body.Clear
  | .branch fillers test gap body fillers' rest =>
    fillersEnd fillers ∧ test.Clear ∧ gapEnds gap ∧ body.Clear ∧ fillersEnd fillers'
      ∧ rest.Clear
  | .group _ items => items.Clear

def Items.Clear : Items → Prop
  | .last fillers => fillersEnd fillers
  | .item fillers expr rest => fillersEnd fillers ∧ expr.Clear ∧ rest.Clear

def Expressions.Clear : Expressions → Prop
  | .done => True
  | .expression items _ rest => items.Clear ∧ rest.Clear

end

section Scans

variable {limit depth unary : Nat} {templates : List Nat} {rest : Str} {final : StructuralScanner}

/-- Bytes that open and close nothing. -/
theorem scan_marks {text : Str} (htext : ∀ b ∈ text, isOrdinary b = true)
    (h : scan limit 0 (inCode depth unary templates) (text ++ rest) = .ok final) :
    ∃ unary', scan limit 0 (inCode depth unary' templates) rest = .ok final := by
  induction text generalizing unary with
  | nil => exact ⟨unary, h⟩
  | cons b text ih =>
    obtain ⟨hb, htext⟩ := List.forall_mem_cons.mp htext
    obtain ⟨unary', hscan⟩ := scan_ordinary hb h
    exact ih htext hscan

theorem isOrdinary_of_wide {b : UInt8} (h : b = 11 ∨ 128 ≤ b) : isOrdinary b = true := by
  obtain rfl | h := h
  · rfl
  · have hne : ∀ c : UInt8, c < 128 → b ≠ c := by
      rintro c hc rfl
      exact absurd hc (UInt8.not_lt.mpr h)
    simp only [isOrdinary, isOpening, isClosing, Bool.not_eq_true', Bool.or_eq_false_iff,
      decide_eq_false_iff_not]
    repeat' apply And.intro
    all_goals exact hne _ (by decide)

theorem scan_trivia_counted {trivia : Trivia} (hcounted : trivia.counted = true)
    (h : scan limit 0 (inCode depth unary templates) (trivia.text ++ rest) = .ok final) :
    scan limit 0 (inCode depth unary templates) rest = .ok final := by
  cases trivia with
  | space b hb => exact scan_space hb h
  | wide text _ => cases hcounted
  | line text terminator htext =>
    obtain ⟨hscan, -⟩ := scan_code h
    change scan limit 0 (inside .lineComment depth unary templates)
      ((text ++ terminator.text) ++ rest) = .ok final at hscan
    rw [List.append_assoc] at hscan
    cases terminator with
    | lineFeed => exact scan_lineComment htext rfl hscan
    | carriageReturn => exact scan_lineComment htext rfl hscan
    | lineSeparator => cases hcounted
    | paragraphSeparator => cases hcounted
  | block text htext =>
    obtain ⟨hscan, -⟩ := scan_code h
    change scan limit 0 (inside .blockComment depth unary templates)
      ((text ++ [byte '*', byte '/']) ++ rest) = .ok final at hscan
    rw [List.append_assoc] at hscan
    exact scan_blockComment htext hscan

theorem scan_trivia {trivia : Trivia} (hends : trivia.ends = true)
    (h : scan limit 0 (inCode depth unary templates) (trivia.text ++ rest) = .ok final) :
    ∃ unary', scan limit 0 (inCode depth unary' templates) rest = .ok final := by
  cases trivia with
  | wide text htext => exact scan_marks (fun b hb => isOrdinary_of_wide (htext b hb)) h
  | space b hb => exact ⟨unary, @scan_trivia_counted _ _ _ _ _ _ (.space b hb) rfl h⟩
  | line text terminator htext =>
    exact ⟨unary, @scan_trivia_counted _ _ _ _ _ _ (.line text terminator htext) hends h⟩
  | block text htext => exact ⟨unary, @scan_trivia_counted _ _ _ _ _ _ (.block text htext) rfl h⟩

theorem scan_gap_counted {gap : List Trivia} (hgap : gapCounted gap)
    (h : scan limit 0 (inCode depth unary templates) (gapText gap ++ rest) = .ok final) :
    scan limit 0 (inCode depth unary templates) rest = .ok final := by
  induction gap with
  | nil => exact h
  | cons trivia gap ih =>
    obtain ⟨htrivia, hgap⟩ := List.forall_mem_cons.mp hgap
    rw [show gapText (trivia :: gap) = trivia.text ++ gapText gap from rfl, List.append_assoc] at h
    exact ih hgap (scan_trivia_counted htrivia h)

theorem scan_fillers {fillers : List Filler} (hfillers : fillersEnd fillers)
    (h : scan limit 0 (inCode depth unary templates) (fillersText fillers ++ rest) = .ok final) :
    ∃ unary', scan limit 0 (inCode depth unary' templates) rest = .ok final := by
  induction fillers generalizing unary with
  | nil => exact ⟨unary, h⟩
  | cons filler fillers ih =>
    obtain ⟨hfiller, hothers⟩ := List.forall_mem_cons.mp hfillers
    rw [show fillersText (filler :: fillers) = filler.text ++ fillersText fillers from rfl,
      List.append_assoc] at h
    cases filler with
    | trivia t =>
      obtain ⟨unary', hscan⟩ := scan_trivia hfiller h
      exact ih hothers hscan
    | mark b hb =>
      obtain ⟨unary', hscan⟩ := scan_ordinary hb h
      exact ih hothers hscan

theorem scan_gap {gap : List Trivia} (hgap : gapEnds gap)
    (h : scan limit 0 (inCode depth unary templates) (gapText gap ++ rest) = .ok final) :
    ∃ unary', scan limit 0 (inCode depth unary' templates) rest = .ok final := by
  have htext : gapText gap = fillersText (gap.map .trivia) := by
    unfold gapText fillersText
    rw [List.flatMap_map]
    rfl
  rw [htext] at h
  refine scan_fillers (fun filler hmem => ?_) h
  obtain ⟨trivia, htrivia, rfl⟩ := List.mem_map.mp hmem
  exact hgap trivia htrivia

theorem scan_slash (hrest : startsNoComment rest)
    (h : scan limit 0 (inCode depth unary templates) (byte '/' :: rest) = .ok final) :
    scan limit 0 (inCode depth 0 templates) rest = .ok final := by
  obtain ⟨hscan, -⟩ := scan_code h
  have hcode : (inCode depth unary templates).consumeCode (byte '/') rest.head?
      = (0, inCode depth 0 templates) := by
    unfold StructuralScanner.consumeCode commentStart
    rw [if_neg (fun hc => hrest.1 hc.2), if_neg (fun hc => hrest.2 hc.2)]
    rfl
  rw [hcode] at hscan
  exact hscan

theorem BinaryOp.isOrdinary_of_mem_text {op : BinaryOp} (h : op ≠ .div) :
    ∀ b ∈ op.text, isOrdinary b = true := by
  cases op with
  | div => exact absurd rfl h
  | _ => exact forall_mem_of_all (by decide)

end Scans

/-! ## Scans of trees -/

/-- What a scan of a part has checked: brackets and runs of unary operators are within
    the limit, and the scan goes on at the same depth. -/
def Scanned (limit depth : Nat) (templates : List Nat) (rest : Str) (final : StructuralScanner)
    (brackets runs : Nat) : Prop :=
  (∃ unary, scan limit 0 (inCode depth unary templates) rest = .ok final)
    ∧ depth + brackets ≤ limit ∧ runs ≤ limit

section

variable {limit depth unary : Nat} {templates : List Nat} {rest : Str} {final : StructuralScanner}

/-- A closing bracket ends at the depth of its opening one. -/
theorem scan_bracket_closing {bracket : Bracket} (htemplates : ∀ opened ∈ templates, opened ≤ depth)
    (h : scan limit 0 (inCode (depth + 1) unary templates) (bracket.closing :: rest)
      = .ok final) :
    scan limit 0 (inCode depth 0 templates) rest = .ok final := by
  cases bracket with
  | paren => exact scan_closing rfl h
  | square => exact scan_closing rfl h
  | brace => exact scan_closing_brace htemplates h

theorem scan_bracket_opening {bracket : Bracket}
    (h : scan limit 0 (inCode depth unary templates) (bracket.opening :: rest) = .ok final) :
    scan limit 0 (inCode (depth + 1) 0 templates) rest = .ok final ∧ depth + 1 ≤ limit :=
  scan_opening (by cases bracket <;> rfl) h

theorem Expr.text_ne_nil : ∀ expr : Expr, expr.text ≠ []
  | .word w => w.nonempty
  | .string _ _ => List.cons_ne_nil _ _
  | .template _ _ => List.cons_ne_nil _ _
  | .regex _ _ => List.cons_ne_nil _ _
  | .unary _ _ _ => List.cons_ne_nil _ _
  | .keyword _ operand => List.append_ne_nil_of_right_ne_nil _ operand.text_ne_nil
  | .binary _ _ _ _ right => List.append_ne_nil_of_right_ne_nil _ right.text_ne_nil
  | .member _ _ => List.append_ne_nil_of_right_ne_nil _ (List.cons_ne_nil _ _)
  | .call _ _ _ _ => List.append_ne_nil_of_right_ne_nil _ (List.cons_ne_nil _ _)
  | .conditional _ _ _ _ _ _ alternate =>
    List.append_ne_nil_of_right_ne_nil _ alternate.text_ne_nil
  | .headed _ _ _ body => List.append_ne_nil_of_right_ne_nil _ body.text_ne_nil
  | .branch _ _ _ _ _ rest => List.append_ne_nil_of_right_ne_nil _ rest.text_ne_nil
  | .group _ _ => List.cons_ne_nil _ _

/-- The operator of a binary expression, and the gap after it. -/
theorem scan_operator {op : BinaryOp} {after : List Trivia} {right : Expr}
    (hafter : gapEnds after)
    (hdiv : op = .div → startsNoComment (gapText after ++ right.text))
    (h : scan limit 0 (inCode depth unary templates)
      (op.text ++ (gapText after ++ (right.text ++ rest))) = .ok final) :
    ∃ unary', scan limit 0 (inCode depth unary' templates) (right.text ++ rest) = .ok final := by
  by_cases hop : op = .div
  · subst hop
    have hne : gapText after ++ right.text ≠ [] :=
      List.append_ne_nil_of_right_ne_nil _ right.text_ne_nil
    have hstart : startsNoComment (gapText after ++ (right.text ++ rest)) := by
      unfold startsNoComment
      rw [← List.append_assoc, List.head?_append_of_ne_nil _ hne]
      exact hdiv rfl
    exact scan_gap hafter (scan_slash hstart h)
  · obtain ⟨unary', hscan⟩ := scan_marks (BinaryOp.isOrdinary_of_mem_text hop) h
    exact scan_gap hafter hscan

/-- Items between two brackets, when the scan of the items is known. -/
theorem Items.bracketed {items : Items} {bracket : Bracket}
    (htemplates : ∀ opened ∈ templates, opened ≤ depth)
    (hitems : (∀ opened ∈ templates, opened ≤ depth + 1) → depth + 1 ≤ limit →
      scan limit 0 (inCode (depth + 1) 0 templates) (items.text ++ bracket.closing :: rest)
        = .ok final →
      Scanned limit (depth + 1) templates (bracket.closing :: rest) final items.brackets items.runs)
    (h : scan limit 0 (inCode depth unary templates)
      (bracket.opening :: (items.text ++ bracket.closing :: rest)) = .ok final) :
    Scanned limit depth templates rest final (items.brackets + 1) items.runs := by
  obtain ⟨hopen, hdepth⟩ := scan_bracket_opening h
  obtain ⟨⟨unary', hclose⟩, hbrackets, hruns⟩ :=
    hitems (fun opened hopened => Nat.le_succ_of_le (htemplates opened hopened)) hdepth hopen
  exact ⟨⟨0, scan_bracket_closing htemplates hclose⟩, by omega, hruns⟩

end

-- The induction follows the tree; the depth at a part is the depth of the brackets
-- around it, and the open template expressions are no deeper.
mutual

theorem Expr.scanned {limit : Nat} : ∀ (expr : Expr) (depth unary : Nat) (templates : List Nat)
    (rest : Str) (final : StructuralScanner), expr.Clear →
    (∀ opened ∈ templates, opened ≤ depth) → depth ≤ limit →
    scan limit 0 (inCode depth unary templates) (expr.text ++ rest) = .ok final →
    Scanned limit depth templates rest final expr.brackets expr.runs
      ∧ (expr.lead = 0 ∨ unary + expr.lead ≤ limit)
  | .word w, depth, unary, templates, rest, final, _, _, hdepth, h =>
    ⟨⟨scan_marks w.ordinary h, hdepth, Nat.zero_le _⟩, .inl rfl⟩
  | .string quote units, depth, unary, templates, rest, final, _, _, hdepth, h => by
    simp only [Expr.text, List.cons_append, List.append_assoc, List.nil_append] at h
    exact ⟨⟨⟨0, scan_string h⟩, hdepth, Nat.zero_le _⟩, .inl rfl⟩
  | .template text expressions, depth, unary, templates, rest, final, hclear, htemplates, hdepth,
      h => by
    simp only [Expr.text, List.cons_append, List.append_assoc] at h
    have hopen := scan_template_open h
    exact ⟨expressions.scanned text depth unary templates rest final hclear htemplates hdepth
      hopen, .inl rfl⟩
  | .unary op gap operand, depth, unary, templates, rest, final, hclear, htemplates, hdepth, h => by
    simp only [Expr.text, List.cons_append, List.append_assoc] at h
    obtain ⟨hscan, hunary⟩ := scan_unary (by cases op <;> rfl) h
    obtain ⟨⟨hrest, hbrackets, hruns⟩, hlead⟩ := operand.scanned depth (unary + 1) templates rest
      final hclear.2 htemplates hdepth (scan_gap_counted hclear.1 hscan)
    -- A prefix operator goes on with the run; all other nodes may start a new one.
    have hrun : unary + (operand.lead + 1) ≤ limit := by omega
    refine ⟨⟨hrest, hbrackets, ?_⟩, .inr hrun⟩
    simp only [Expr.runs, Expr.lead]
    omega
  | .keyword fillers operand, depth, unary, templates, rest, final, hclear, htemplates, hdepth,
      h => by
    simp only [Expr.text, List.append_assoc] at h
    obtain ⟨unary', hscan⟩ := scan_fillers hclear.1 h
    exact ⟨(operand.scanned depth unary' templates rest final hclear.2 htemplates hdepth hscan).1,
      .inl rfl⟩
  | .binary op left before after right, depth, unary, templates, rest, final, hclear, htemplates,
      hdepth, h => by
    obtain ⟨hleft, hbefore, hafter, hright, hdiv⟩ := hclear
    simp only [Expr.text, List.append_assoc] at h
    obtain ⟨⟨⟨unary₁, hscan⟩, hbrackets, hruns⟩, -⟩ :=
      left.scanned depth unary templates _ final hleft htemplates hdepth h
    obtain ⟨unary₂, hscan⟩ := scan_gap hbefore hscan
    obtain ⟨unary₃, hscan⟩ := scan_operator hafter hdiv hscan
    obtain ⟨⟨hrest, hbrackets', hruns'⟩, -⟩ :=
      right.scanned depth unary₃ templates rest final hright htemplates hdepth hscan
    refine ⟨⟨hrest, ?_, max_le hruns hruns'⟩, .inl rfl⟩
    simp only [Expr.brackets]
    omega
  | .member value fillers, depth, unary, templates, rest, final, hclear, htemplates, hdepth, h => by
    simp only [Expr.text, List.cons_append, List.append_assoc] at h
    obtain ⟨⟨⟨unary₁, hscan⟩, hbrackets, hruns⟩, -⟩ :=
      value.scanned depth unary templates _ final hclear.1 htemplates hdepth h
    obtain ⟨unary₂, hscan⟩ := scan_ordinary rfl hscan
    exact ⟨⟨scan_fillers hclear.2 hscan, hbrackets, hruns⟩, .inl rfl⟩
  | .call function gap bracket arguments, depth, unary, templates, rest, final, hclear, htemplates,
      hdepth, h => by
    obtain ⟨hfunction, hgap, harguments⟩ := hclear
    simp only [Expr.text, List.cons_append, List.append_assoc, List.nil_append] at h
    obtain ⟨⟨⟨unary₁, hscan⟩, hbrackets, hruns⟩, -⟩ :=
      function.scanned depth unary templates _ final hfunction htemplates hdepth h
    obtain ⟨unary₂, hscan⟩ := scan_gap hgap hscan
    obtain ⟨hrest, hbrackets', hruns'⟩ := Items.bracketed htemplates
      (arguments.scanned (depth + 1) 0 templates _ final harguments) hscan
    refine ⟨⟨hrest, ?_, max_le hruns hruns'⟩, .inl rfl⟩
    simp only [Expr.brackets]
    omega
  | .conditional test before after consequent before' after' alternate, depth, unary, templates,
      rest, final, hclear, htemplates, hdepth, h => by
    obtain ⟨htest, hbefore, hafter, hconsequent, hbefore', hafter', halternate⟩ := hclear
    simp only [Expr.text, List.cons_append, List.append_assoc] at h
    obtain ⟨⟨⟨unary₁, hscan⟩, hbrackets, hruns⟩, -⟩ :=
      test.scanned depth unary templates _ final htest htemplates hdepth h
    obtain ⟨unary₂, hscan⟩ := scan_gap hbefore hscan
    obtain ⟨unary₃, hscan⟩ := scan_ordinary rfl hscan
    obtain ⟨unary₄, hscan⟩ := scan_gap hafter hscan
    obtain ⟨⟨⟨unary₅, hscan⟩, hbrackets', hruns'⟩, -⟩ :=
      consequent.scanned depth unary₄ templates _ final hconsequent htemplates hdepth hscan
    obtain ⟨unary₆, hscan⟩ := scan_gap hbefore' hscan
    obtain ⟨unary₇, hscan⟩ := scan_ordinary rfl hscan
    obtain ⟨unary₈, hscan⟩ := scan_gap hafter' hscan
    obtain ⟨⟨hrest, hbrackets'', hruns''⟩, -⟩ :=
      alternate.scanned depth unary₈ templates rest final halternate htemplates hdepth hscan
    refine ⟨⟨hrest, ?_, max_le hruns (max_le hruns' hruns'')⟩, .inl rfl⟩
    simp only [Expr.brackets]
    omega
  | .headed fillers header fillers' body, depth, unary, templates, rest, final, hclear, htemplates,
      hdepth, h => by
    obtain ⟨hfillers, hheader, hfillers', hbody⟩ := hclear
    simp only [Expr.text, List.cons_append, List.append_assoc] at h
    obtain ⟨unary₁, hscan⟩ := scan_fillers hfillers h
    obtain ⟨⟨unary₂, hscan⟩, hbrackets, hruns⟩ := @Items.bracketed _ _ _ _ _ _ _ .paren htemplates
      (header.scanned (depth + 1) 0 templates _ final hheader) hscan
    obtain ⟨unary₃, hscan⟩ := scan_fillers hfillers' hscan
    obtain ⟨⟨hrest, hbrackets', hruns'⟩, -⟩ :=
      body.scanned depth unary₃ templates rest final hbody htemplates hdepth hscan
    refine ⟨⟨hrest, ?_, max_le hruns hruns'⟩, .inl rfl⟩
    simp only [Expr.brackets]
    omega
  | .branch fillers test gap body fillers' orelse, depth, unary, templates, rest, final, hclear,
      htemplates, hdepth, h => by
    obtain ⟨hfillers, htest, hgap, hbody, hfillers', horelse⟩ := hclear
    simp only [Expr.text, List.cons_append, List.append_assoc] at h
    obtain ⟨unary₁, hscan⟩ := @scan_marks _ _ _ _ _ _ (ascii "if")
      (forall_mem_of_all (by decide)) h
    obtain ⟨unary₂, hscan⟩ := scan_fillers hfillers hscan
    obtain ⟨⟨unary₃, hscan⟩, hbrackets, hruns⟩ := @Items.bracketed _ _ _ _ _ _ _ .paren htemplates
      (test.scanned (depth + 1) 0 templates _ final htest) hscan
    obtain ⟨unary₄, hscan⟩ := scan_gap hgap hscan
    obtain ⟨⟨⟨unary₅, hscan⟩, hbrackets', hruns'⟩, -⟩ :=
      body.scanned depth unary₄ templates _ final hbody htemplates hdepth hscan
    obtain ⟨unary₆, hscan⟩ := @scan_marks _ _ _ _ _ _ (ascii "else")
      (forall_mem_of_all (by decide)) hscan
    obtain ⟨unary₇, hscan⟩ := scan_fillers hfillers' hscan
    obtain ⟨⟨hrest, hbrackets'', hruns''⟩, -⟩ :=
      orelse.scanned depth unary₇ templates rest final horelse htemplates hdepth hscan
    refine ⟨⟨hrest, ?_, max_le hruns (max_le hruns' hruns'')⟩, .inl rfl⟩
    simp only [Expr.brackets]
    omega
  | .group bracket items, depth, unary, templates, rest, final, hclear, htemplates, _, h => by
    simp only [Expr.text, List.cons_append, List.append_assoc, List.nil_append] at h
    exact ⟨Items.bracketed htemplates (items.scanned (depth + 1) 0 templates _ final hclear) h,
      .inl rfl⟩

theorem Items.scanned {limit : Nat} : ∀ (items : Items) (depth unary : Nat) (templates : List Nat)
    (rest : Str) (final : StructuralScanner), items.Clear →
    (∀ opened ∈ templates, opened ≤ depth) → depth ≤ limit →
    scan limit 0 (inCode depth unary templates) (items.text ++ rest) = .ok final →
    Scanned limit depth templates rest final items.brackets items.runs
  | .last fillers, depth, unary, templates, rest, final, hclear, _, hdepth, h =>
    ⟨scan_fillers hclear h, hdepth, Nat.zero_le _⟩
  | .item fillers expr others, depth, unary, templates, rest, final, hclear, htemplates, hdepth,
      h => by
    obtain ⟨hfillers, hexpr, hothers⟩ := hclear
    simp only [Items.text, List.append_assoc] at h
    obtain ⟨unary₁, hscan⟩ := scan_fillers hfillers h
    obtain ⟨⟨⟨unary₂, hscan⟩, hbrackets, hruns⟩, -⟩ :=
      expr.scanned depth unary₁ templates _ final hexpr htemplates hdepth hscan
    obtain ⟨hrest, hbrackets', hruns'⟩ :=
      others.scanned depth unary₂ templates rest final hothers htemplates hdepth hscan
    refine ⟨hrest, ?_, max_le hruns hruns'⟩
    simp only [Items.brackets]
    omega

/-- The rest of a template, from its text on. -/
theorem Expressions.scanned {limit : Nat} : ∀ (expressions : Expressions) (text : TemplateText)
    (depth unary : Nat) (templates : List Nat) (rest : Str) (final : StructuralScanner),
    expressions.Clear → (∀ opened ∈ templates, opened ≤ depth) → depth ≤ limit →
    scan limit 0 (inside .template depth unary templates)
      (unitsText text.units ++ (expressions.text ++ rest)) = .ok final →
    Scanned limit depth templates rest final expressions.brackets expressions.runs
  | .done, text, depth, unary, templates, rest, final, _, _, hdepth, h => by
    have hclose := scan_template_text text.inside (by rintro ⟨⟩) h
    exact ⟨⟨0, scan_template_close hclose⟩, hdepth, Nat.zero_le _⟩
  | .expression items text' others, text, depth, unary, templates, rest, final, hclear, htemplates,
      hdepth, h => by
    simp only [Expressions.text, List.cons_append, List.append_assoc] at h
    have hstart := scan_template_text text.inside (by rintro ⟨⟩) h
    obtain ⟨hopen, hdepth'⟩ := scan_template_expression hstart
    have htemplates' : ∀ opened ∈ (depth + 1) :: templates, opened ≤ depth + 1 :=
      List.forall_mem_cons.mpr
        ⟨le_rfl, fun opened hopened => Nat.le_succ_of_le (htemplates opened hopened)⟩
    obtain ⟨⟨unary', hscan⟩, hbrackets, hruns⟩ :=
      items.scanned (depth + 1) unary _ _ final hclear.1 htemplates' hdepth' hopen
    obtain ⟨hrest, hbrackets', hruns'⟩ := others.scanned text' depth 0 templates rest final
      hclear.2 htemplates hdepth (scan_closing_template hscan)
    refine ⟨hrest, ?_, max_le hruns hruns'⟩
    simp only [Expressions.brackets]
    omega

end

/-! ## Sources -/

/-- The depth of a source the guard lets through, by the nodes it does not count. -/
def sourceBound (limit links : Nat) : Nat := depthBound (limit + links) limit + limit

theorem sourceBound_mono {limit links links' : Nat} (h : links ≤ links') :
    sourceBound limit links ≤ sourceBound limit links' :=
  Nat.add_le_add_right (depthBound_mono (Nat.add_le_add_left h limit)) limit

theorem preflightStructure_eq_ok {source : Str} (h : preflightStructure source = .ok ()) :
    ∃ final, scan maxStructuralDepth 0 (inCode 0 0 []) source = .ok final := by
  unfold preflightStructure at h
  cases hscan : scan maxStructuralDepth 0 {} source with
  | error fault =>
    rw [hscan] at h
    cases h
  | ok final => exact ⟨final, hscan⟩

/-- Only the nodes that are not counted are left to make an accepted source deep. -/
theorem Items.depth_le_sourceBound {source : Items} (hclear : source.Clear)
    (h : preflightStructure source.text = .ok ()) :
    source.depth ≤ sourceBound maxStructuralDepth source.links := by
  obtain ⟨final, hscan⟩ := preflightStructure_eq_ok h
  rw [← List.append_nil source.text] at hscan
  have htemplates : ∀ opened ∈ ([] : List Nat), opened ≤ 0 := fun _ hopened => nomatch hopened
  obtain ⟨-, hbrackets, hruns⟩ :=
    source.scanned 0 0 [] [] final hclear htemplates (Nat.zero_le _) hscan
  have hdepth := source.depth_le hruns
  have hmono := @depthBound_mono source.counts (maxStructuralDepth + source.links)
    maxStructuralDepth (by unfold Items.counts; omega)
  unfold sourceBound
  omega

def nameA : Word := ⟨ascii "a", by decide, forall_mem_of_all (by decide)⟩

/-- `a+a+…`. -/
def sumChain : Nat → Expr
  | 0 => .word nameA
  | n + 1 => .binary .add (sumChain n) [] [] (.word nameA)

def single (expr : Expr) : Items := .item [] expr (.last [])

theorem text_single (expr : Expr) : (single expr).text = expr.text := by
  simp [single, Items.text, fillersText]

theorem depth_single (expr : Expr) : (single expr).depth = expr.depth := Nat.max_zero _

variable (n : Nat)

theorem depth_sumChain : (sumChain n).depth = n := by
  induction n with
  | zero => rfl
  | succ n ih =>
    show max (sumChain n).depth 0 + 1 = n + 1
    omega

theorem scan_sumChain (rest : Str) :
    scan maxStructuralDepth 0 (inCode 0 0 []) ((sumChain n).text ++ rest)
      = scan maxStructuralDepth 0 (inCode 0 0 []) rest := by
  induction n generalizing rest with
  | zero => rfl
  | succ n ih =>
    have htext : (sumChain (n + 1)).text ++ rest
        = (sumChain n).text ++ (byte '+' :: byte 'a' :: rest) := by
      simp [sumChain, Expr.text, gapText, BinaryOp.text, nameA, ascii, byte]
    rw [htext, ih]
    rfl

theorem preflightStructure_sumChain :
    preflightStructure (single (sumChain n)).text = .ok () := by
  have hscan := scan_sumChain n []
  rw [List.append_nil] at hscan
  unfold preflightStructure
  rw [text_single]
  exact congrArg (Except.map fun _ => ()) hscan

/-- `(((…a…)))`. -/
def nested : Nat → Expr
  | 0 => .word nameA
  | n + 1 => .group .paren (single (nested n))

/-- `/'/;(((…a…)))`: the scanner takes the quote in the regular expression for the
    start of a string. -/
def hidden (n : Nat) : Items :=
  .item [] (.regex (ascii "'") []) (.item [.mark (byte ';') rfl] (nested n) (.last []))

theorem depth_nested : (nested n).depth = n := by
  induction n with
  | zero => rfl
  | succ n ih =>
    show (single (nested n)).depth + 1 = n + 1
    rw [depth_single, ih]

theorem links_nested : (nested n).links = 0 := by
  induction n with
  | zero => rfl
  | succ n ih =>
    show max (nested n).links 0 = 0
    rw [ih]
    rfl

theorem nested_text_plain : ∀ b ∈ (nested n).text, b ≠ 39 ∧ b ≠ 92 := by
  induction n with
  | zero => exact forall_mem_of_all (by decide)
  | succ n ih =>
    have htext : (nested (n + 1)).text = byte '(' :: (nested n).text ++ [byte ')'] := by
      simp [nested, Expr.text, text_single, Bracket.opening, Bracket.closing]
    rw [htext]
    exact List.forall_mem_append.mpr
      ⟨List.forall_mem_cons.mpr ⟨by decide, ih⟩, forall_mem_of_all (by decide)⟩

/-- In a string nothing is counted. -/
theorem scan_string_plain {text : Str} (h : ∀ b ∈ text, b ≠ 39 ∧ b ≠ 92) :
    scan maxStructuralDepth 0 (inside .singleQuote 0 0 []) text
      = .ok (inside .singleQuote 0 0 []) := by
  induction text with
  | nil => rfl
  | cons b text ih =>
    obtain ⟨hb, htext⟩ := List.forall_mem_cons.mp h
    have hconsume : (inside .singleQuote 0 0 []).consume maxStructuralDepth b text.head?
        = .ok (0, inside .singleQuote 0 0 []) := by
      have hstate := @consumeByState_quote maxStructuralDepth 0 0 [] b .single text.head?
      rw [@consumeQuote_plain 0 0 [] b .single hb] at hstate
      unfold StructuralScanner.consume
      rw [show (inside .singleQuote 0 0 []).consumeByState maxStructuralDepth b text.head? = _
        from hstate]
      rfl
    unfold scan
    rw [hconsume]
    exact ih htext

theorem preflightStructure_hidden : preflightStructure (hidden n).text = .ok () := by
  have htext : (hidden n).text = byte '/' :: 39 :: byte '/' :: byte ';' :: (nested n).text := by
    simp [hidden, Items.text, Expr.text, fillersText, Filler.text, ascii, byte]
  have hplain : ∀ b ∈ byte '/' :: byte ';' :: (nested n).text, b ≠ 39 ∧ b ≠ 92 :=
    List.forall_mem_cons.mpr ⟨by decide, List.forall_mem_cons.mpr ⟨by decide, nested_text_plain n⟩⟩
  have hscan : scan maxStructuralDepth 0 {} (hidden n).text
      = .ok (inside .singleQuote 0 0 []) := by
    rw [htext]
    exact scan_string_plain hplain
  unfold preflightStructure
  rw [hscan]
  rfl

/-- A source the scanner reads right and lets through is no deeper than a bound that
    depends on the limit and on the nodes it does not count; so a collection of such
    sources has a common bound when these nodes have one, and not otherwise.  A regular
    expression alone takes the bound away. -/
theorem source_depth_bounded (sources : Items → Prop) :
    (∀ source : Items, source.Clear → preflightStructure source.text = .ok () →
      source.depth ≤ sourceBound maxStructuralDepth source.links)
    ∧ ((∀ source, sources source → source.Clear ∧ preflightStructure source.text = .ok ()) →
      ((∃ bound, ∀ source, sources source → source.depth ≤ bound)
        ↔ ∃ links, ∀ source, sources source → source.links ≤ links))
    ∧ (∀ bound, ∃ source : Items, source.links = 0 ∧ preflightStructure source.text = .ok ()
      ∧ bound < source.depth) := by
  refine ⟨fun source hclear h => Items.depth_le_sourceBound hclear h,
    fun hsources => ⟨?_, ?_⟩, fun bound => ?_⟩
  · rintro ⟨bound, hbound⟩
    exact ⟨bound, fun source hsource => source.links_le_depth.trans (hbound source hsource)⟩
  · rintro ⟨links, hlinks⟩
    refine ⟨sourceBound maxStructuralDepth links, fun source hsource => ?_⟩
    obtain ⟨hclear, hok⟩ := hsources source hsource
    exact (Items.depth_le_sourceBound hclear hok).trans (sourceBound_mono (hlinks source hsource))
  · refine ⟨hidden (bound + 1), ?_, preflightStructure_hidden (bound + 1), ?_⟩
    · show max 0 (max (nested (bound + 1)).links 0) = 0
      rw [links_nested]
      rfl
    · show bound < max 0 (max (nested (bound + 1)).depth 0)
      rw [depth_nested]
      omega

/-- `a(-a)`, with a template after it. -/
def sampleSource : Items :=
  .item [] (.call (.word nameA) [] .paren (single (.unary .minus [] (.word nameA))))
    (.item [.mark (byte ';') rfl]
      (.template ⟨[], rfl⟩ (.expression (single (.word nameA)) ⟨[], rfl⟩ .done)) (.last []))

theorem source_depth_bounded_sample :
    sampleSource.Clear ∧ preflightStructure sampleSource.text = .ok ()
      ∧ sampleSource.depth ≤ sourceBound maxStructuralDepth 1 := by
  have hclear : sampleSource.Clear := by
    simp [sampleSource, single, Items.Clear, Expr.Clear, Expressions.Clear, fillersEnd, gapEnds,
      gapCounted, Filler.ends]
  exact ⟨hclear, rfl, (source_depth_bounded (· = sampleSource)).1 sampleSource hclear rfl⟩

/-- No bound holds for all sources the guard lets through: sums are not counted. -/
theorem not_exists_source_bound : ¬ ∃ bound, ∀ source : Items,
    preflightStructure source.text = .ok () → source.depth ≤ bound := by
  rintro ⟨bound, hbound⟩
  have hdepth := hbound (single (sumChain (bound + 1))) (preflightStructure_sumChain (bound + 1))
  rw [depth_single, depth_sumChain] at hdepth
  omega

end Opcore.Node
