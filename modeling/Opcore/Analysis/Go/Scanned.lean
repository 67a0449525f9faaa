/-
  Opcore.Analysis.Go.Scanned

  What the scanner makes of a source: it passes the pieces one after the other,
  its tokens are the tokens of the pieces, and brackets nested too deeply are
  refused.
-/
import Opcore.Analysis.Go.Emission
import Opcore.Library.Fallible

namespace Opcore.Go

open Text

/-! ## The rounds of the scanner -/

/-- The scanner behind a piece. -/
def Scanner.behind (s : Scanner) (piece : Piece) (nesting : Structure) : Scanner :=
  { rest := s.rest.drop piece.text.length
    index := s.index + piece.text.length
    tokens := s.tokens ++ piece.tokens s.index s.canInsertSemicolon
    nesting := nesting
    canInsertSemicolon := piece.flag s.canInsertSemicolon }

/-- The rounds of the scanner pass white space and comments, and record a line break
    in them. -/
def Scanner.pass (s : Scanner) (piece : Piece) : Scanner :=
  match piece.newlineAt with
  | some line => (s.skip piece.text.length).recordNewline (s.index + line)
  | none => s.skip piece.text.length

theorem Scanner.pass_eq (s : Scanner) {piece : Piece} (h : piece.IsTrivia) :
    ∃ nesting, piece.observe s.nesting s.canInsertSemicolon = .ok nesting
      ∧ s.pass piece = s.behind piece nesting := by
  unfold Scanner.pass Scanner.recordNewline Scanner.behind Piece.observe Piece.tokens Piece.flag
  cases hkind : piece.kind with
  | token tag => exact absurd hkind (h tag)
  | _ =>
    cases piece.newlineAt <;> cases hflag : s.canInsertSemicolon <;>
      simp [Scanner.skip, Option.filter, hflag]

section

variable [UnicodeClasses] {s : Scanner}

/-- A round of the scanner passes the next piece, if it is no token. -/
theorem advanceTrivia_cases (h : s.rest ≠ []) :
    s.advanceTrivia = match (nextPiece s.rest).kind with
      | .token _ => none
      | _ => some (s.pass (nextPiece s.rest)) := by
  obtain ⟨b, rest, hrest⟩ := List.exists_cons_of_ne_nil h
  unfold Scanner.advanceTrivia
  rw [hrest]
  unfold nextPiece
  dsimp only
  split_ifs with hblank hbreak hline hblock
  · rfl
  · have hlength : ((b :: rest).take (consumeNewline (b :: rest))).length
        = consumeNewline (b :: rest) := by
      refine length_take_of_le ?_
      rcases consumeNewline_cases (b :: rest) with ⟨htwo, hwidth⟩ | ⟨-, hwidth⟩
      · rw [hwidth]
        have := congrArg List.length htwo
        rw [List.length_take] at this
        have htwo' : ([13, 10] : Str).length = 2 := rfl
        omega
      · rw [hwidth, List.length_cons]
        omega
    simp only [Scanner.pass, Piece.newlineAt, hlength, Nat.add_zero]
  · have hlength : ((b :: rest).take (lineEnd (b :: rest))).length = lineEnd (b :: rest) :=
      length_take_of_le (List.takeWhile_sublist _).length_le
    simp only [Scanner.pass, Piece.newlineAt, hlength]
  · obtain ⟨rfl, hstar⟩ := hblock
    obtain ⟨tail, rfl⟩ : ∃ tail, rest = byte '*' :: tail := by
      cases rest with
      | nil => cases hstar
      | cons c tail => exact ⟨tail, by rw [Option.some.inj hstar]⟩
    obtain ⟨-, -, -, hle, -⟩ := blockComment_text tail
    have hlength : ((byte '/' :: byte '*' :: tail).take (consumeBlockComment none 2 tail).1).length
        = (consumeBlockComment none 2 tail).1 :=
      length_take_of_le hle
    have hnewline := findIdx?_blockComment tail
    show (match (consumeBlockComment none 2 tail).2 with
      | some newline => some ((s.skip _).recordNewline (s.index + newline))
      | none => some (s.skip _)) = some (s.pass ⟨.blockComment, _⟩)
    simp only [Scanner.pass, Piece.newlineAt, List.drop_succ_cons, List.drop_zero, hlength, hnewline]
    cases (consumeBlockComment none 2 tail).2 <;> rfl
  · rfl

theorem advanceTrivia_token (h : s.rest ≠ []) {tag : UInt8}
    (hkind : (nextPiece s.rest).kind = .token tag) : s.advanceTrivia = none := by
  rw [advanceTrivia_cases h, hkind]

theorem advanceTrivia_trivia (h : s.rest ≠ []) (hkind : (nextPiece s.rest).IsTrivia) :
    s.advanceTrivia = some (s.pass (nextPiece s.rest)) := by
  rw [advanceTrivia_cases h]
  cases hpiece : (nextPiece s.rest).kind with
  | token tag => exact absurd hpiece (hkind tag)
  | _ => rfl

/-- A round of the scanner with a token. -/
theorem advanceSignificant_eq (h : s.rest ≠ []) {tag : UInt8}
    (hkind : (nextPiece s.rest).kind = .token tag) :
    s.advanceSignificant = ((nextPiece s.rest).observe s.nesting s.canInsertSemicolon).map
      (s.behind (nextPiece s.rest)) := by
  obtain ⟨htext, htag⟩ := nextPiece_token h hkind
  have hsame : s.significant = Scanner.significant { rest := s.rest } := rfl
  have hbounds := significant_bounds h
  have hsemicolon := (significant_eq h).2
  rw [← hsame] at htext htag
  have hlength : (s.rest.take s.significant.1).length = s.significant.1 :=
    length_take_of_le hbounds.2
  have hbehind : s.behind (nextPiece s.rest) = fun nesting =>
      { rest := s.rest.drop s.significant.1
        index := s.index + s.significant.1
        tokens := s.tokens ++ [⟨s.index, s.index + s.significant.1, s.significant.2.1, true, false⟩]
        nesting := nesting
        canInsertSemicolon := s.significant.2.2 } := by
    funext nesting
    rw [Scanner.behind, Piece.tokens, Piece.flag, hkind]
    dsimp only
    rw [htext, hlength, htag, ← hsemicolon]
  rw [hbehind, Piece.observe, hkind]
  dsimp only
  rw [htext]
  unfold Scanner.advanceSignificant Scanner.push
  dsimp only
  cases s.nesting.token (s.rest.take s.significant.1) <;> rfl

/-- A round of the scanner passes the next piece. -/
theorem scan_succ (rounds : Nat) (h : s.rest ≠ []) :
    s.scan (rounds + 1) = match (nextPiece s.rest).observe s.nesting s.canInsertSemicolon with
      | .error error => some (.error error)
      | .ok nesting => (s.behind (nextPiece s.rest) nesting).scan rounds := by
  rw [Scanner.scan, if_neg h]
  by_cases htrivia : (nextPiece s.rest).IsTrivia
  · obtain ⟨nesting, hobserve, hpass⟩ := s.pass_eq htrivia
    rw [advanceTrivia_trivia h htrivia, hobserve, hpass]
  · obtain ⟨tag, hkind⟩ := Classical.not_forall_not.mp htrivia
    rw [advanceTrivia_token h hkind, advanceSignificant_eq h hkind]
    cases (nextPiece s.rest).observe s.nesting s.canInsertSemicolon <;> rfl

/-- The loop of the scanner in terms of the pieces of what is left. -/
theorem scan_eq (rounds : Nat) (s : Scanner) (h : s.rest.length < rounds) :
    s.scan rounds
      = some ((observePieces s.nesting s.canInsertSemicolon (pieces s.rest)).map fun _ =>
          s.tokens ++ emit s.index s.canInsertSemicolon (pieces s.rest)) := by
  induction rounds generalizing s with
  | zero => exact absurd h (Nat.not_lt_zero _)
  | succ rounds ih =>
    by_cases hrest : s.rest = []
    · rw [Scanner.scan, if_pos hrest, hrest, pieces_nil, emit, List.append_nil]
      rfl
    · rw [scan_succ rounds hrest, pieces_eq_cons hrest, observePieces, emit]
      have hshorter := (drop_text hrest).2
      cases (nextPiece s.rest).observe s.nesting s.canInsertSemicolon with
      | error error => rfl
      | ok nesting =>
        dsimp only
        rw [ih _ (by show (s.rest.drop _).length < rounds; omega)]
        simp only [Scanner.behind, List.append_assoc]
        rfl

theorem scanTokens_eq (source : Str) :
    scanTokens source
      = some ((observePieces {} false (pieces source)).map fun _ => emit 0 false (pieces source)) :=
  scan_eq (source.length + 1) { rest := source } (Nat.lt_succ_self _)

/-! ## The tokens of a source -/

/-- A piece of the source at an offset. -/
def PieceAt (source : Str) (offset : Nat) (piece : Piece) : Prop :=
  ∃ before after, pieces source = before ++ piece :: after ∧ offset = (textOf before).length

/-- What the scanner's tokens are. -/
structure WellScanned (source : Str) (tokens : List GoToken) : Prop where
  text : textOf (pieces source) = source
  fits : ∀ before piece after, pieces source = before ++ piece :: after →
    piece.text ≠ [] ∧ piece.Fits (textOf after)
  ordered : tokens.Pairwise fun a b => a.stop ≤ b.start ∧ a.start < b.start
  inside : ∀ token ∈ tokens, token.counted = true →
    token.start < token.stop ∧ token.stop ≤ source.length
  counted : ∀ token, token ∈ tokens ∧ token.counted = true ↔ ∃ offset piece tag,
    PieceAt source offset piece ∧ piece.kind = .token tag
      ∧ token = ⟨offset, offset + piece.text.length, tag, true, false⟩
  outside : ∀ index < source.length,
    (∀ token ∈ tokens, ¬ (token.start ≤ index ∧ index < token.stop)) →
    ∃ offset piece, PieceAt source offset piece ∧ piece.IsTrivia
      ∧ offset ≤ index ∧ index < offset + piece.text.length
  newlines : ∀ token, token ∈ tokens ∧ token.counted = false ↔ ∃ offset piece line,
    PieceAt source offset piece ∧ piece.newlineAt = some line
      ∧ token = ⟨offset + line, offset + line, 4, false, true⟩
      ∧ LastEndsStatement source (tokens.filter fun earlier => earlier.start < offset + line)

theorem wellScanned_emit (source : Str) :
    WellScanned source (emit 0 false (pieces source)) := by
  obtain ⟨htext, hfits⟩ := pieces_spec source
  have hne : ∀ piece ∈ pieces source, piece.text ≠ [] := by
    intro piece hpiece
    obtain ⟨before, after, hsplit⟩ := List.append_of_mem hpiece
    exact (hfits before piece after hsplit).1
  refine ⟨htext, hfits, emit_pairwise hne 0 false, ?_, ?_, ?_, ?_⟩
  · intro token htoken hcounted
    have := mem_emit_bounds hne htoken
    rw [Nat.zero_add, htext] at this
    exact ⟨this.2.2.2 hcounted, this.2.2.1⟩
  · intro token
    constructor
    · rintro ⟨htoken, hcounted⟩
      obtain ⟨before, piece, after, hsplit, htoken⟩ := mem_emit.mp htoken
      rw [Nat.zero_add] at htoken
      obtain ⟨tag, hkind, htoken⟩ := mem_tokens_counted_iff.mp ⟨htoken, hcounted⟩
      exact ⟨_, piece, tag, ⟨before, after, hsplit, rfl⟩, hkind, htoken⟩
    · rintro ⟨_, piece, tag, ⟨before, after, hsplit, rfl⟩, hkind, htoken⟩
      obtain ⟨hmem, hcounted⟩ :=
        (@mem_tokens_counted_iff _ _ (flagAfter false before) _).mpr ⟨tag, hkind, htoken⟩
      refine ⟨mem_emit.mpr ⟨before, piece, after, hsplit, ?_⟩, hcounted⟩
      rw [Nat.zero_add]
      exact hmem
  · intro index hindex houtside
    rw [← htext] at hindex
    obtain ⟨before, piece, after, hsplit, hle, hlt⟩ := exists_pieceAt hindex
    refine ⟨_, piece, ⟨before, after, hsplit, rfl⟩, fun tag hkind => ?_, hle, hlt⟩
    -- A token would cover the byte.
    have hmem : (⟨(textOf before).length, (textOf before).length + piece.text.length, tag, true,
        false⟩ : GoToken) ∈ emit 0 false (pieces source) := by
      refine mem_emit.mpr ⟨before, piece, after, hsplit, ?_⟩
      rw [Nat.zero_add]
      exact (mem_tokens_counted_iff.mpr ⟨tag, hkind, rfl⟩).1
    exact houtside _ hmem ⟨hle, hlt⟩
  · intro token
    have hends : ∀ before piece after line, pieces source = before ++ piece :: after →
        piece.newlineAt = some line →
        (flagAfter false before = true ↔ LastEndsStatement source
          ((emit 0 false (pieces source)).filter
            fun earlier => earlier.start < (textOf before).length + line)) := by
      intro before piece after line hsplit hline
      have hsource : textOf before ++ textOf (piece :: after) = source := by
        rw [← textOf_append, ← hsplit, htext]
      rw [hsplit] at hne
      rw [hsplit, filter_emit before piece after hne hline, flagAfter_iff before _, hsource]
    constructor
    · rintro ⟨htoken, hcounted⟩
      obtain ⟨before, piece, after, hsplit, htoken⟩ := mem_emit.mp htoken
      rw [Nat.zero_add] at htoken
      obtain ⟨line, hline⟩ := newlineAt_of_mem_tokens htoken hcounted
      obtain ⟨hflag, htoken⟩ := (mem_tokens_iff hline).mp htoken
      exact ⟨_, piece, line, ⟨before, after, hsplit, rfl⟩, hline, htoken,
        (hends before piece after line hsplit hline).mp hflag⟩
    · rintro ⟨_, piece, line, ⟨before, after, hsplit, rfl⟩, hline, rfl, hlast⟩
      have hflag := (hends before piece after line hsplit hline).mpr hlast
      refine ⟨mem_emit.mpr ⟨before, piece, after, hsplit, ?_⟩, rfl⟩
      rw [Nat.zero_add]
      exact (mem_tokens_iff hline).mpr ⟨hflag, rfl⟩

end

/-! ## Nesting -/

/-- The brackets that match. -/
def brackets : List (Str × Str) :=
  [(ascii "(", ascii ")"), (ascii "[", ascii "]"), (ascii "\x7b", ascii "\x7d")]

/-- A balanced sequence of tokens whose brackets are nested to a depth. -/
inductive Nested : Nat → List Str → Prop
  | nil : Nested 0 []
  | other {depth : Nat} {token : Str} {rest : List Str}
      (htoken : ∀ pair ∈ brackets, token ≠ pair.1 ∧ token ≠ pair.2) (h : Nested depth rest) :
      Nested depth (token :: rest)
  | group {inner outer : Nat} {pair : Str × Str} {body rest : List Str} (hpair : pair ∈ brackets)
      (hbody : Nested inner body) (hrest : Nested outer rest) :
      Nested (max (inner + 1) outer) (pair.1 :: (body ++ pair.2 :: rest))

def tokenTexts (pieces : List Piece) : List Str :=
  pieces.filterMap fun piece => match piece.kind with
    | .token _ => some piece.text
    | _ => none

/-- What a token does to the count of open brackets. -/
def delimitersStep (delimiters : Nat) (token : Str) : Nat :=
  if token ∈ brackets.map Prod.fst then delimiters + 1
  else if token ∈ brackets.map Prod.snd then delimiters - 1
  else delimiters

/-- The count after some tokens, unless it gets too large. -/
def delimitersAfter (delimiters : Nat) : List Str → Option Nat
  | [] => some delimiters
  | token :: rest =>
    if maxStructuralDepth < delimitersStep delimiters token then none
    else delimitersAfter (delimitersStep delimiters token) rest

theorem delimitersStep_other {token : Str}
    (h : ∀ pair ∈ brackets, token ≠ pair.1 ∧ token ≠ pair.2) (delimiters : Nat) :
    delimitersStep delimiters token = delimiters := by
  rw [delimitersStep, if_neg, if_neg]
  · rintro hmem
    obtain ⟨pair, hpair, rfl⟩ := List.mem_map.mp hmem
    exact (h pair hpair).2 rfl
  · rintro hmem
    obtain ⟨pair, hpair, rfl⟩ := List.mem_map.mp hmem
    exact (h pair hpair).1 rfl

/-- An opening bracket counts, and the one that closes it takes it back. -/
theorem delimitersStep_brackets {pair : Str × Str} (h : pair ∈ brackets) {delimiters : Nat} :
    delimitersStep delimiters pair.1 = delimiters + 1
      ∧ delimitersStep (delimiters + 1) pair.2 = delimiters := by
  have hsides : ∀ pair ∈ brackets, pair.1 ∈ brackets.map Prod.fst
      ∧ pair.2 ∉ brackets.map Prod.fst ∧ pair.2 ∈ brackets.map Prod.snd := by decide
  obtain ⟨hopen, hnot, hclose⟩ := hsides pair h
  rw [delimitersStep, if_pos hopen, delimitersStep, if_neg hnot, if_pos hclose]
  exact ⟨rfl, rfl⟩

theorem delimiters_observe (nesting : Structure) (token : Str) :
    (nesting.observe token).delimiters = delimitersStep nesting.delimiters token := by
  unfold Structure.observe delimitersStep
  by_cases hopen : token = ascii "(" ∨ token = ascii "["
  · rw [if_pos hopen, if_pos (by rcases hopen with rfl | rfl <;> decide)]
    rfl
  by_cases hbrace : token = ascii "\x7b"
  · rw [if_neg hopen, if_pos hbrace, if_pos (by rw [hbrace]; decide)]
    rfl
  have hfirst : token ∉ brackets.map Prod.fst := by
    intro hmem
    rcases List.mem_cons.mp hmem with h | hmem
    · exact hopen (.inl h)
    rcases List.mem_cons.mp hmem with h | hmem
    · exact hopen (.inr h)
    · exact hbrace (List.mem_singleton.mp hmem)
  rw [if_neg hopen, if_neg hbrace, if_neg hfirst]
  by_cases hclose : token = ascii ")" ∨ token = ascii "]"
  · rw [if_pos hclose, if_pos (by rcases hclose with rfl | rfl <;> decide)]
    rfl
  by_cases hbrace' : token = ascii "\x7d"
  · rw [if_neg hclose, if_pos hbrace', if_pos (by rw [hbrace']; decide)]
    rfl
  have hsecond : token ∉ brackets.map Prod.snd := by
    intro hmem
    rcases List.mem_cons.mp hmem with h | hmem
    · exact hclose (.inl h)
    rcases List.mem_cons.mp hmem with h | hmem
    · exact hclose (.inr h)
    · exact hbrace' (List.mem_singleton.mp hmem)
  -- No other token touches the count.
  rw [if_neg hclose, if_neg hbrace', if_neg hsecond]
  split_ifs <;> rfl

theorem delimitersAfter_of_observePieces {pieces : List Piece} {nesting final : Structure}
    {flag : Bool} (h : observePieces nesting flag pieces = .ok final) :
    delimitersAfter nesting.delimiters (tokenTexts pieces) = some final.delimiters := by
  induction pieces generalizing nesting flag with
  | nil =>
    rw [Except.ok.inj h]
    rfl
  | cons piece rest ih =>
    obtain ⟨next, hobserve, hrest⟩ := Except.bind_eq_ok_iff.mp h
    have hafter := ih hrest
    unfold Piece.observe at hobserve
    unfold tokenTexts
    cases hkind : piece.kind with
    | token tag =>
      rw [hkind] at hobserve
      dsimp only at hobserve
      unfold Structure.token Structure.validate at hobserve
      split_ifs at hobserve with hbounds
      obtain rfl := Except.ok.inj hobserve
      rw [List.filterMap_cons_some (by rw [hkind]), delimitersAfter, ← delimiters_observe,
        if_neg (by omega)]
      exact hafter
    | _ =>
      rw [hkind] at hobserve
      dsimp only at hobserve
      have hsame : next.delimiters = nesting.delimiters := by
        split_ifs at hobserve
        · rw [← Except.ok.inj hobserve]
          rfl
        · rw [← Except.ok.inj hobserve]
      rw [List.filterMap_cons_none (by rw [hkind]), ← hsame]
      exact hafter

/-- Balanced tokens pass as deeply nested as there is room, and leave the count as it was. -/
theorem delimitersAfter_nested {depth : Nat} {tokens : List Str} (h : Nested depth tokens)
    {delimiters : Nat} (hroom : delimiters ≤ maxStructuralDepth) (rest : List Str) :
    delimitersAfter delimiters (tokens ++ rest)
      = if delimiters + depth ≤ maxStructuralDepth then delimitersAfter delimiters rest
        else none := by
  induction h generalizing delimiters rest with
  | nil =>
    rw [List.nil_append, Nat.add_zero, if_pos hroom]
  | other htoken _ ih =>
    rw [List.cons_append, delimitersAfter, delimitersStep_other htoken,
      if_neg (Nat.not_lt.mpr hroom), ih hroom]
  | @group inner outer pair body rest' hpair _ _ ihbody ihrest =>
    obtain ⟨hopen, hclose⟩ := delimitersStep_brackets hpair
    rw [List.cons_append, delimitersAfter, hopen, List.append_assoc]
    by_cases hfull : maxStructuralDepth < delimiters + 1
    · rw [if_pos hfull, if_neg (by omega)]
    · rw [if_neg hfull, ihbody (by omega)]
      by_cases hbody : delimiters + 1 + inner ≤ maxStructuralDepth
      · rw [if_pos hbody, List.cons_append, delimitersAfter, hclose,
          if_neg (Nat.not_lt.mpr hroom), ihrest hroom]
        by_cases hrest : delimiters + outer ≤ maxStructuralDepth
        · rw [if_pos hrest, if_pos (by omega)]
        · rw [if_neg hrest, if_neg (by omega)]
      · rw [if_neg hbody, if_neg (by omega)]

section

variable [UnicodeClasses]

/-- The scanner ends on every source; what it accepts it takes apart exactly, and a
    balanced source nested too deeply it refuses. -/
theorem scan_tokens_exact (source : Str) :
    (scanTokens source).isSome = true
    ∧ (∀ tokens, scanTokens source = some (.ok tokens) → WellScanned source tokens)
    ∧ (∀ depth, Nested depth (tokenTexts (pieces source)) → maxStructuralDepth < depth →
        ∃ error, scanTokens source = some (.error error)) := by
  rw [scanTokens_eq]
  refine ⟨rfl, fun tokens h => ?_, fun depth hnested hdeep => ?_⟩
  · cases hobserve : observePieces {} false (pieces source) with
    | error error =>
      rw [hobserve] at h
      cases h
    | ok final =>
      rw [hobserve] at h
      obtain rfl := Except.ok.inj (Option.some.inj h)
      exact wellScanned_emit source
  · cases hobserve : observePieces {} false (pieces source) with
    | error error => exact ⟨error, rfl⟩
    | ok final =>
      have hafter := delimitersAfter_of_observePieces hobserve
      have hnone := delimitersAfter_nested hnested (Nat.zero_le _) []
      rw [Nat.zero_add, if_neg (Nat.not_le.mpr hdeep), List.append_nil] at hnone
      exact absurd (hnone.symm.trans hafter) (by simp)

end

/-- A comment does not hide the line break behind it. -/
example : @scanTokens ⟨fun _ => false, fun _ => false⟩ (ascii "f(x) // y\n\n\x7d")
    = some (.ok [⟨0, 1, 1, true, false⟩, ⟨1, 2, 4, true, false⟩, ⟨2, 3, 1, true, false⟩,
        ⟨3, 4, 4, true, false⟩, ⟨9, 9, 4, false, true⟩, ⟨11, 12, 4, true, false⟩]) := by
  rfl

end Opcore.Go
