/-
  Opcore.Analysis.Go.Emission

  The tokens that a sequence of pieces stands for: one for every piece that is a
  token, and a newline where a line break ends the statement.
-/
import Opcore.Analysis.Go.Pieces

namespace Opcore.Go

open Text

/-! ## The tokens of pieces -/

namespace Piece

/-- The token of a piece at an offset: its own, or a newline where a line break ends
    the statement. -/
def tokens (piece : Piece) (offset : Nat) (canInsertSemicolon : Bool) : List GoToken :=
  match piece.kind with
  | .token tag => [⟨offset, offset + piece.text.length, tag, true, false⟩]
  | _ =>
    match piece.newlineAt.filter fun _ => canInsertSemicolon with
    | some line => [⟨offset + line, offset + line, 4, false, true⟩]
    | none => []

/-- Does a line break behind the piece end the statement? -/
def flag (piece : Piece) (canInsertSemicolon : Bool) : Bool :=
  match piece.kind with
  | .token tag => decide (EndsStatement tag piece.text)
  | _ => canInsertSemicolon && piece.newlineAt.isNone

/-- What the piece does to the counters. -/
def observe (piece : Piece) (nesting : Structure) (canInsertSemicolon : Bool) :
    Except AnalysisError Structure :=
  match piece.kind with
  | .token _ => nesting.token piece.text
  | _ =>
    if canInsertSemicolon && piece.newlineAt.isSome then .ok nesting.statementBoundary
    else .ok nesting

end Piece

/-- The counters after a sequence of pieces. -/
def observePieces (nesting : Structure) (canInsertSemicolon : Bool) :
    List Piece → Except AnalysisError Structure
  | [] => .ok nesting
  | piece :: rest => do
    let nesting ← piece.observe nesting canInsertSemicolon
    observePieces nesting (piece.flag canInsertSemicolon) rest

/-- The tokens of a sequence of pieces from an offset on. -/
def emit (offset : Nat) (canInsertSemicolon : Bool) : List Piece → List GoToken
  | [] => []
  | piece :: rest =>
    piece.tokens offset canInsertSemicolon
      ++ emit (offset + piece.text.length) (piece.flag canInsertSemicolon) rest

def flagAfter (canInsertSemicolon : Bool) (pieces : List Piece) : Bool :=
  pieces.foldl (fun flag piece => piece.flag flag) canInsertSemicolon

theorem emit_append (offset : Nat) (flag : Bool) (before after : List Piece) :
    emit offset flag (before ++ after)
      = emit offset flag before
        ++ emit (offset + (textOf before).length) (flagAfter flag before) after := by
  induction before generalizing offset flag with
  | nil => rfl
  | cons piece before ih =>
    rw [List.cons_append, emit, emit, ih, textOf_cons, List.length_append, List.append_assoc,
      Nat.add_assoc]
    rfl

theorem flagAfter_append (flag : Bool) (before after : List Piece) :
    flagAfter flag (before ++ after) = flagAfter (flagAfter flag before) after :=
  List.foldl_append

/-! ## Positions -/

variable {piece : Piece}

/-- A piece with a byte that is what its kind says; the line break of a piece is in it. -/
theorem newlineAt_lt (hne : piece.text ≠ []) {line : Nat}
    (h : piece.newlineAt = some line) : line < piece.text.length := by
  unfold Piece.newlineAt at h
  split at h
  · rw [← Option.some.inj h]
    exact List.length_pos_iff.mpr hne
  · exact (List.findIdx?_eq_some_iff_findIdx_eq.mp h).1
  · cases h

variable {offset : Nat} {token : GoToken}

/-- A token of a piece lies in it; one that counts has a byte. -/
theorem mem_tokens_bounds (hne : piece.text ≠ []) {flag : Bool}
    (h : token ∈ piece.tokens offset flag) :
    offset ≤ token.start ∧ token.start < offset + piece.text.length
      ∧ token.start ≤ token.stop ∧ token.stop ≤ offset + piece.text.length
      ∧ (token.counted = true → token.start < token.stop) := by
  have hpos := List.length_pos_iff.mpr hne
  unfold Piece.tokens at h
  split at h
  · obtain rfl := List.mem_singleton.mp h
    dsimp only
    omega
  · split at h
    · rename_i line hline
      obtain rfl := List.mem_singleton.mp h
      have := newlineAt_lt hne (Option.filter_eq_some_iff.mp hline).1
      dsimp only
      refine ⟨by omega, by omega, Nat.le_refl _, by omega, fun hcounted => ?_⟩
      cases hcounted
    · exact absurd h List.not_mem_nil

/-- A piece that breaks a line has a newline of the scanner's own, or nothing. -/
theorem mem_tokens_iff {line : Nat} (h : piece.newlineAt = some line) {flag : Bool} :
    token ∈ piece.tokens offset flag
      ↔ flag = true ∧ token = ⟨offset + line, offset + line, 4, false, true⟩ := by
  unfold Piece.tokens
  cases hkind : piece.kind with
  | token tag =>
    rw [Piece.newlineAt, hkind] at h
    cases h
  | _ =>
    dsimp only
    rw [h, Option.filter_some]
    cases flag <;> simp

/-- A token that does not count is a newline at a line break. -/
theorem newlineAt_of_mem_tokens {flag : Bool}
    (h : token ∈ piece.tokens offset flag) (hcounted : token.counted = false) :
    ∃ line, piece.newlineAt = some line := by
  unfold Piece.tokens at h
  split at h
  · obtain rfl := List.mem_singleton.mp h
    cases hcounted
  · split at h
    · rename_i line hline
      exact ⟨line, (Option.filter_eq_some_iff.mp hline).1⟩
    · exact absurd h List.not_mem_nil

/-- A token that counts is the whole piece. -/
theorem mem_tokens_counted_iff {piece : Piece} {offset : Nat} {flag : Bool} {token : GoToken} :
    token ∈ piece.tokens offset flag ∧ token.counted = true
      ↔ ∃ tag, piece.kind = .token tag
        ∧ token = ⟨offset, offset + piece.text.length, tag, true, false⟩ := by
  constructor
  · rintro ⟨h, hcounted⟩
    unfold Piece.tokens at h
    split at h
    · rename_i tag hkind
      exact ⟨tag, hkind, List.mem_singleton.mp h⟩
    · split at h
      · obtain rfl := List.mem_singleton.mp h
        cases hcounted
      · exact absurd h List.not_mem_nil
  · rintro ⟨tag, hkind, rfl⟩
    rw [Piece.tokens, hkind]
    exact ⟨List.mem_singleton_self _, rfl⟩

variable {pieces : List Piece}

theorem mem_emit {flag : Bool} :
    token ∈ emit offset flag pieces ↔ ∃ before piece after, pieces = before ++ piece :: after
      ∧ token ∈ piece.tokens (offset + (textOf before).length) (flagAfter flag before) := by
  constructor
  · induction pieces generalizing offset flag with
    | nil => exact fun h => absurd h List.not_mem_nil
    | cons piece rest ih =>
      intro h
      rcases List.mem_append.mp h with h | h
      · exact ⟨[], piece, rest, rfl, h⟩
      · obtain ⟨before, found, after, rfl, htoken⟩ := ih h
        refine ⟨piece :: before, found, after, rfl, ?_⟩
        rw [textOf_cons, List.length_append, ← Nat.add_assoc]
        exact htoken
  · rintro ⟨before, piece, after, rfl, h⟩
    rw [emit_append, emit]
    exact List.mem_append_right _ (List.mem_append_left _ h)

/-- The tokens of some pieces lie in their text. -/
theorem mem_emit_bounds (hne : ∀ piece ∈ pieces, piece.text ≠ [])
    {flag : Bool} (h : token ∈ emit offset flag pieces) :
    offset ≤ token.start ∧ token.start < offset + (textOf pieces).length
      ∧ token.stop ≤ offset + (textOf pieces).length
      ∧ (token.counted = true → token.start < token.stop) := by
  obtain ⟨before, piece, after, rfl, htoken⟩ := mem_emit.mp h
  have := mem_tokens_bounds (hne piece (List.mem_append_right _ (List.mem_cons_self ..))) htoken
  rw [textOf_append, textOf_cons, List.length_append, List.length_append]
  exact ⟨by omega, by omega, by omega, this.2.2.2.2⟩

theorem emit_pairwise (hne : ∀ piece ∈ pieces, piece.text ≠ []) (offset : Nat) (flag : Bool) :
    (emit offset flag pieces).Pairwise fun a b => a.stop ≤ b.start ∧ a.start < b.start := by
  induction pieces generalizing offset flag with
  | nil => exact List.Pairwise.nil
  | cons piece rest ih =>
    have hpiece := hne piece (List.mem_cons_self ..)
    have hrest := fun p hp => hne p (List.mem_cons_of_mem _ hp)
    rw [emit, List.pairwise_append]
    refine ⟨?_, ih hrest _ _, ?_⟩
    · -- A piece has one token at most.
      unfold Piece.tokens
      split
      · exact List.pairwise_singleton _ _
      · split
        · exact List.pairwise_singleton _ _
        · exact List.Pairwise.nil
    · intro a ha b hb
      have hbefore := mem_tokens_bounds hpiece ha
      have hafter := mem_emit_bounds hrest hb
      omega

/-- The part of a text that a token covers. -/
def GoToken.text (source : Str) (token : GoToken) : Str :=
  (source.drop token.start).take (token.stop - token.start)

/-- The last of the tokens counts and ends a statement. -/
def LastEndsStatement (source : Str) (tokens : List GoToken) : Prop :=
  ∃ last, tokens.getLast? = some last ∧ last.counted = true
    ∧ Piece.EndsStatement last.tag (last.text source)

variable (before : List Piece)

theorem take_drop_textOf (text : Str) (after : Str) :
    ((textOf before ++ (text ++ after)).drop (textOf before).length).take
      ((textOf before).length + text.length - (textOf before).length) = text := by
  rw [List.drop_left, Nat.add_sub_cancel_left, List.take_left]

/-- A line break ends the statement when the last token before it, with no newline of
    the scanner's own behind it, does. -/
theorem flagAfter_iff (after : Str) :
    flagAfter false before = true
      ↔ LastEndsStatement (textOf before ++ after) (emit 0 false before) := by
  induction before using List.reverseRecOn generalizing after with
  | nil =>
    refine iff_of_false Bool.false_ne_true ?_
    rintro ⟨last, h, -⟩
    cases h
  | append_singleton before piece ih =>
    rw [flagAfter_append, emit_append, Nat.zero_add]
    show piece.flag (flagAfter false before) = true ↔ _
    have htext : textOf (before ++ [piece]) ++ after = textOf before ++ (piece.text ++ after) := by
      rw [textOf_append, List.append_assoc]
      simp [textOf]
    rw [htext]
    have hlast : emit (textOf before).length (flagAfter false before) [piece]
        = piece.tokens (textOf before).length (flagAfter false before) := by
      rw [emit, emit, List.append_nil]
    rw [hlast]
    unfold Piece.flag Piece.tokens
    split
    · -- A token: it is the last one.
      rename_i tag hkind
      rw [decide_eq_true_eq]
      constructor
      · intro hends
        refine ⟨_, List.getLast?_concat, rfl, ?_⟩
        rw [GoToken.text, take_drop_textOf]
        exact hends
      · rintro ⟨last, hgot, -, hends⟩
        obtain rfl := Option.some.inj (List.getLast?_concat.symm.trans hgot)
        rw [GoToken.text, take_drop_textOf] at hends
        exact hends
    · have hbefore := ih (piece.text ++ after)
      cases hline : piece.newlineAt with
      | none =>
        -- Nothing changes.
        rw [Option.filter_none, Option.isNone_none, Bool.and_true, List.append_nil]
        exact hbefore
      | some line =>
        cases hflag : flagAfter false before with
        | false =>
          rw [hflag] at hbefore
          rw [Option.filter_some, if_neg Bool.false_ne_true, List.append_nil, Bool.false_and]
          exact hbefore
        | true =>
          -- The newline of the scanner's own is the last token now.
          rw [Option.filter_some, if_pos rfl, Option.isNone_some, Bool.and_false]
          refine iff_of_false Bool.false_ne_true ?_
          rintro ⟨last, hgot, hcounted, -⟩
          obtain rfl := Option.some.inj (List.getLast?_concat.symm.trans hgot)
          cases hcounted

theorem filter_emit (piece : Piece) (after : List Piece) {line : Nat}
    (hne : ∀ p ∈ before ++ piece :: after, p.text ≠ []) (hline : piece.newlineAt = some line) :
    (emit 0 false (before ++ piece :: after)).filter
        (fun token => token.start < (textOf before).length + line)
      = emit 0 false before := by
  have hpiece := hne piece (List.mem_append_right _ (List.mem_cons_self ..))
  have hlt := newlineAt_lt hpiece hline
  rw [emit_append, List.filter_append, Nat.zero_add, emit, List.filter_append]
  have hbefore : (emit 0 false before).filter
      (fun token => token.start < (textOf before).length + line) = emit 0 false before := by
    rw [List.filter_eq_self]
    intro token htoken
    have := mem_emit_bounds (fun p hp => hne p (List.mem_append_left _ hp)) htoken
    rw [decide_eq_true_eq]
    omega
  have hself : (piece.tokens (textOf before).length (flagAfter false before)).filter
      (fun token => token.start < (textOf before).length + line) = [] := by
    rw [List.filter_eq_nil_iff]
    intro token htoken
    obtain ⟨-, rfl⟩ := (mem_tokens_iff hline).mp htoken
    rw [decide_eq_true_eq]
    exact Nat.lt_irrefl _
  have hafter : (emit ((textOf before).length + piece.text.length)
      (piece.flag (flagAfter false before)) after).filter
        (fun token => token.start < (textOf before).length + line) = [] := by
    rw [List.filter_eq_nil_iff]
    intro token htoken
    have := mem_emit_bounds
      (fun p hp => hne p (List.mem_append_right _ (List.mem_cons_of_mem _ hp))) htoken
    rw [decide_eq_true_eq]
    omega
  rw [hbefore, hself, hafter, List.append_nil, List.append_nil]

end Opcore.Go
