/-
  Opcore.Analysis.Go.Pieces

  A Go source as a sequence of pieces: tokens, white space and comments, each as
  far as the scanner reads it.
-/
import Opcore.Analysis.Go.Scanner

namespace Opcore.Go

open Text

/-! ## Pieces of a source -/

inductive PieceKind where
  | blank
  | newline
  | lineComment
  | blockComment
  | token (tag : UInt8)
  deriving DecidableEq

structure Piece where
  kind : PieceKind
  text : Str
  deriving DecidableEq

namespace Piece

/-- Where the piece breaks the line, if it is no token and does. -/
def newlineAt (piece : Piece) : Option Nat :=
  match piece.kind with
  | .newline => some 0
  | .blockComment => piece.text.findIdx? isBreak
  | _ => none

/-- The tag of a token with this text. -/
def tokenTag (text : Str) : UInt8 :=
  match text.head? with
  | none => 4
  | some b =>
    if b = byte '\x22' ∨ b = byte '\x27' ∨ b = byte '\x60' then 2
    else if identifierStart b then (if isKeyword text then 3 else 1)
    else if byte '0' ≤ b ∧ b ≤ byte '9' then 2
    else 4

/-- A line break after such a token ends the statement: an identifier, a literal, one
    of four keywords, a closing bracket, an increment or a decrement. -/
def EndsStatement (tag : UInt8) (text : Str) : Prop :=
  tag = 1 ∨ tag = 2
    ∨ tag = 3 ∧ text ∈ ["break", "continue", "fallthrough", "return"].map ascii
    ∨ tag = 4 ∧ text ∈ [")", "]", "\x7d", "++", "--"].map ascii

instance (tag : UInt8) (text : Str) : Decidable (EndsStatement tag text) :=
  inferInstanceAs (Decidable (_ ∨ _))

/-- White space or a comment. -/
def IsTrivia (piece : Piece) : Prop := ∀ tag, piece.kind ≠ .token tag

/-- The piece is what its kind says, in front of what follows it. -/
def Fits (piece : Piece) (after : Str) : Prop :=
  match piece.kind with
  | .blank => piece.text ∈ [ascii " ", [9], [12]]
  | .newline => piece.text = [13, 10] ∨ piece.text = [10]
      ∨ piece.text = [13] ∧ after.head? ≠ some 10
  | .lineComment => ∃ body, piece.text = ascii "//" ++ body ∧ body.any isBreak = false
      ∧ after.head?.all isBreak = true
  | .blockComment => ∃ body, containsText (ascii "*/") body = false
      ∧ (piece.text = ascii "/*" ++ (body ++ ascii "*/")
        ∨ piece.text = ascii "/*" ++ body ∧ after = [])
  | .token tag => piece.text ≠ [] ∧ tag = tokenTag piece.text
      ∧ piece.text.head?.any isAsciiWhitespace = false
      ∧ ¬ ascii "//" <+: piece.text ++ after ∧ ¬ ascii "/*" <+: piece.text ++ after

end Piece

def textOf (pieces : List Piece) : Str := pieces.flatMap Piece.text

theorem textOf_cons (piece : Piece) (rest : List Piece) :
    textOf (piece :: rest) = piece.text ++ textOf rest :=
  List.flatMap_cons

theorem textOf_append (before after : List Piece) :
    textOf (before ++ after) = textOf before ++ textOf after :=
  List.flatMap_append

/-- Every byte of a text lies in one of its pieces. -/
theorem exists_pieceAt {pieces : List Piece} {index : Nat} (h : index < (textOf pieces).length) :
    ∃ before piece after, pieces = before ++ piece :: after ∧ (textOf before).length ≤ index
      ∧ index < (textOf before).length + piece.text.length := by
  induction pieces generalizing index with
  | nil => exact absurd h (Nat.not_lt_zero _)
  | cons piece rest ih =>
    rw [textOf_cons, List.length_append] at h
    by_cases hpiece : index < piece.text.length
    · exact ⟨[], piece, rest, rfl, Nat.zero_le _, by simpa [textOf] using hpiece⟩
    · obtain ⟨before, found, after, rfl, hle, hlt⟩ := @ih (index - piece.text.length) (by omega)
      refine ⟨piece :: before, found, after, rfl, ?_, ?_⟩
      · rw [textOf_cons, List.length_append]
        omega
      · rw [textOf_cons, List.length_append]
        omega

/-! ## Widths -/

theorem length_take_of_le {s : Str} {width : Nat} (h : width ≤ s.length) :
    (s.take width).length = width :=
  List.length_take_of_le h

theorem utf8Step_le {s : Str} {width : Nat} (h : utf8Step s = .ok width) :
    width ≤ s.length := by
  unfold utf8Step at h
  split at h
  · cases h
  · split_ifs at h
    · cases h
      simp
    all_goals repeat' split at h
    all_goals first | (cases h; simp) | cases h

theorem consumeQuotedRest_le (quote : UInt8) (s : Str) : consumeQuotedRest quote s ≤ s.length := by
  fun_induction consumeQuotedRest quote s <;> simp_all <;> omega

theorem consumeRawRest_le (s : Str) : consumeRawRest s ≤ s.length := by
  induction s with
  | nil => exact Nat.le_refl _
  | cons b s ih =>
    rw [consumeRawRest, List.length_cons]
    split_ifs <;> omega

theorem consumeNewline_cases (s : Str) :
    s.take 2 = [13, 10] ∧ consumeNewline s = 2 ∨ s.take 2 ≠ [13, 10] ∧ consumeNewline s = 1 := by
  unfold consumeNewline
  split_ifs with htwo
  · exact .inl ⟨htwo, rfl⟩
  · exact .inr ⟨htwo, rfl⟩

/-- A block comment ends behind the first `*/` after its opening, or with the source;
    its line break is the first one in it. -/
theorem consumeBlockComment_eq (newline : Option Nat) (index : Nat) (s : Str) :
    ∃ body, containsText (ascii "*/") body = false
      ∧ ((∃ after, s = body ++ (ascii "*/" ++ after)
            ∧ (consumeBlockComment newline index s).1 = index + body.length + 2)
        ∨ s = body ∧ (consumeBlockComment newline index s).1 = index + body.length)
      ∧ (consumeBlockComment newline index s).2
          = newline.or ((body.findIdx? isBreak).map (· + index)) := by
  induction s generalizing newline index with
  | nil =>
    refine ⟨[], by decide, .inr ⟨rfl, rfl⟩, ?_⟩
    simp [consumeBlockComment]
  | cons b s ih =>
    rw [consumeBlockComment]
    by_cases hend : (ascii "*/").isPrefixOf (b :: s) = true
    · rw [if_pos hend]
      obtain ⟨after, hafter⟩ := List.isPrefixOf_iff_prefix.mp hend
      refine ⟨[], by decide, .inl ⟨after, hafter.symm, rfl⟩, ?_⟩
      simp
    · rw [if_neg hend]
      obtain ⟨body, hbody, hwhere, hnewline⟩ :=
        ih (if newline.isNone && isBreak b then some index else newline) (index + 1)
      have hinside : ∃ after, s = body ++ after := by
        rcases hwhere with ⟨after, hs, -⟩ | ⟨hs, -⟩
        · exact ⟨_, hs⟩
        · exact ⟨[], by rw [hs, List.append_nil]⟩
      refine ⟨b :: body, ?_, ?_, ?_⟩
      · obtain ⟨after, hs⟩ := hinside
        rw [containsText, hbody, Bool.or_false, Bool.eq_false_iff]
        intro hstart
        obtain ⟨rest, hrest⟩ := List.isPrefixOf_iff_prefix.mp hstart
        refine hend (List.isPrefixOf_iff_prefix.mpr ⟨rest ++ after, ?_⟩)
        rw [← List.append_assoc, hrest, hs, List.cons_append]
      · rcases hwhere with ⟨after, hs, hwidth⟩ | ⟨hs, hwidth⟩
        · refine .inl ⟨after, by rw [hs, List.cons_append], ?_⟩
          rw [hwidth, List.length_cons]
          omega
        · refine .inr ⟨by rw [hs], ?_⟩
          rw [hwidth, List.length_cons]
          omega
      · have hshift : (fun offset => offset + (index + 1)) = fun offset => offset + 1 + index := by
          funext offset
          omega
        rw [hnewline, List.findIdx?_cons, hshift]
        cases newline <;> cases isBreak b <;> simp [Function.comp_def]

theorem consumeOperator_bounds {s : Str} (h : s ≠ []) :
    1 ≤ consumeOperator s ∧ consumeOperator s ≤ s.length := by
  have hpos := List.length_pos_iff.mpr h
  unfold consumeOperator
  split_ifs with hthree htwo
  · exact ⟨by omega, hthree.1⟩
  · exact ⟨by omega, htwo.1⟩
  · exact ⟨Nat.le_refl _, hpos⟩

theorem any_ascii_eq (names : List String) (text : Str) :
    names.any (fun name => ascii name = text) = decide (text ∈ names.map ascii) := by
  rw [Bool.eq_iff_iff, List.any_eq_true, decide_eq_true_eq, List.mem_map]
  simp only [decide_eq_true_eq]

variable (tail : Str)

theorem lineComment_spec :
    ∃ after, byte '/' :: byte '/' :: tail
        = (byte '/' :: byte '/' :: tail).take (lineEnd (byte '/' :: byte '/' :: tail)) ++ after
      ∧ (byte '/' :: byte '/' :: tail).take (lineEnd (byte '/' :: byte '/' :: tail)) ≠ []
      ∧ Piece.Fits ⟨.lineComment,
          (byte '/' :: byte '/' :: tail).take (lineEnd (byte '/' :: byte '/' :: tail))⟩ after := by
  have htake : (byte '/' :: byte '/' :: tail).take (lineEnd (byte '/' :: byte '/' :: tail))
      = byte '/' :: byte '/' :: tail.takeWhile fun b => !isBreak b :=
    (List.prefix_iff_eq_take.mp (List.takeWhile_prefix fun b => !isBreak b)).symm
  rw [htake]
  refine ⟨tail.dropWhile fun b => !isBreak b, ?_, List.cons_ne_nil _ _, _, rfl, ?_, ?_⟩
  · rw [List.cons_append, List.cons_append, List.takeWhile_append_dropWhile]
  · rw [List.any_eq_false]
    intro b hb
    have hno := List.mem_takeWhile_imp hb
    rw [Bool.not_eq_true'] at hno
    rw [hno]
    exact Bool.false_ne_true
  · have hhead := List.head?_dropWhile_not (fun b => !isBreak b) tail
    cases hdrop : (tail.dropWhile fun b => !isBreak b).head? with
    | none => rfl
    | some b =>
      rw [hdrop] at hhead
      simpa using hhead

/-- The text of a block comment, and the line break in it. -/
theorem blockComment_text :
    ∃ body, containsText (ascii "*/") body = false
      ∧ ((∃ after, tail = body ++ (ascii "*/" ++ after)
            ∧ (byte '/' :: byte '*' :: tail).take (consumeBlockComment none 2 tail).1
              = ascii "/*" ++ (body ++ ascii "*/"))
        ∨ tail = body ∧ (byte '/' :: byte '*' :: tail).take (consumeBlockComment none 2 tail).1
              = ascii "/*" ++ body)
      ∧ (consumeBlockComment none 2 tail).1 ≤ tail.length + 2
      ∧ (consumeBlockComment none 2 tail).2 = (body.findIdx? isBreak).map (· + 2) := by
  obtain ⟨body, hbody, hwhere, hnewline⟩ := consumeBlockComment_eq none 2 tail
  rw [Option.none_or] at hnewline
  refine ⟨body, hbody, ?_, ?_, hnewline⟩
  · rcases hwhere with ⟨after, rfl, hwidth⟩ | ⟨rfl, hwidth⟩
    · refine .inl ⟨after, rfl, ?_⟩
      have hlength : (ascii "/*" ++ (body ++ ascii "*/")).length = 2 + body.length + 2 := by
        simp only [List.length_append]
        rfl
      have happend : byte '/' :: byte '*' :: (body ++ (ascii "*/" ++ after))
          = (ascii "/*" ++ (body ++ ascii "*/")) ++ after := by
        simp only [List.append_assoc]
        rfl
      rw [hwidth, ← hlength, happend, List.take_left']
      rfl
    · refine .inr ⟨rfl, ?_⟩
      rw [hwidth, List.take_of_length_le]
      · rfl
      · simp only [List.length_cons]
        omega
  · rcases hwhere with ⟨after, rfl, hwidth⟩ | ⟨rfl, hwidth⟩
    · have hclose : (ascii "*/").length = 2 := rfl
      simp only [List.length_append] at hwidth ⊢
      omega
    · omega

theorem blockComment_spec :
    ∃ after, byte '/' :: byte '*' :: tail
        = (byte '/' :: byte '*' :: tail).take (consumeBlockComment none 2 tail).1 ++ after
      ∧ (byte '/' :: byte '*' :: tail).take (consumeBlockComment none 2 tail).1 ≠ []
      ∧ Piece.Fits ⟨.blockComment,
          (byte '/' :: byte '*' :: tail).take (consumeBlockComment none 2 tail).1⟩ after := by
  obtain ⟨body, hbody, ⟨after, htail, htext⟩ | ⟨htail, htext⟩, -⟩ := blockComment_text tail
  · rw [htext]
    refine ⟨after, ?_, List.cons_ne_nil _ _, body, hbody, .inl rfl⟩
    rw [htail]
    simp only [List.append_assoc]
    rfl
  · rw [htext]
    refine ⟨[], ?_, List.cons_ne_nil _ _, body, hbody, .inr ⟨rfl, rfl⟩⟩
    rw [htail, List.append_nil]
    rfl

/-- The line break that the scanner records for a block comment is the first one in it. -/
theorem findIdx?_blockComment :
    ((byte '/' :: byte '*' :: tail).take (consumeBlockComment none 2 tail).1).findIdx? isBreak
      = (consumeBlockComment none 2 tail).2 := by
  obtain ⟨body, -, htext, -, hnewline⟩ := blockComment_text tail
  have hmarkers : (ascii "/*").findIdx? isBreak = none ∧ (ascii "*/").findIdx? isBreak = none
      ∧ (ascii "/*").length = 2 := by decide
  rw [hnewline]
  rcases htext with ⟨after, -, htext⟩ | ⟨-, htext⟩
  · rw [htext, List.findIdx?_append, List.findIdx?_append, hmarkers.1, hmarkers.2.1, hmarkers.2.2]
    simp
  · rw [htext, List.findIdx?_append, hmarkers.1, hmarkers.2.2]
    simp

/-! ## The pieces the scanner sees -/

section

variable [UnicodeClasses]

/-- The piece a source starts with. -/
def nextPiece : Str → Piece
  | [] => ⟨.blank, []⟩
  | b :: rest =>
    let s := b :: rest
    if b = byte ' ' ∨ b = 9 ∨ b = 12 then ⟨.blank, s.take 1⟩
    else if isBreak b then ⟨.newline, s.take (consumeNewline s)⟩
    else if b = byte '/' ∧ rest.head? = some (byte '/') then ⟨.lineComment, s.take (lineEnd s)⟩
    else if b = byte '/' ∧ rest.head? = some (byte '*') then
      ⟨.blockComment, s.take (consumeBlockComment none 2 (s.drop 2)).1⟩
    else
      let (width, tag, _) := Scanner.significant { rest := s }
      ⟨.token tag, s.take width⟩

/-- All pieces; every piece has a byte, so one round a byte is enough. -/
def piecesFrom : Nat → Str → List Piece
  | 0, _ => []
  | rounds + 1, s =>
    if s = [] then []
    else nextPiece s :: piecesFrom rounds (s.drop (nextPiece s).text.length)

def pieces (source : Str) : List Piece := piecesFrom source.length source

/-! ## Tokens -/

theorem identifierLength_le (rounds : Nat) (first : Bool) (s : Str) :
    identifierLength rounds first s ≤ s.length := by
  induction rounds generalizing first s with
  | zero => exact Nat.zero_le _
  | succ rounds ih =>
    rw [identifierLength]
    cases hstep : utf8Step s with
    | error _ => exact Nat.zero_le _
    | ok width =>
      dsimp only
      split_ifs
      · have hrest := ih false (s.drop width)
        rw [List.length_drop] at hrest
        have hwidth := utf8Step_le hstep
        omega
      · exact Nat.zero_le _

/-- A token has a byte and lies in the source. -/
theorem significant_bounds {s : Scanner} (h : s.rest ≠ []) :
    1 ≤ s.significant.1 ∧ s.significant.1 ≤ s.rest.length := by
  obtain ⟨b, rest, hrest⟩ := List.exists_cons_of_ne_nil h
  have hquoted := consumeQuotedRest_le b rest
  have hraw := consumeRawRest_le rest
  have hidentifier := identifierLength_le s.rest.length true s.rest
  have hoperator := consumeOperator_bounds h
  unfold Scanner.significant
  rw [hrest, List.head?_cons]
  dsimp only
  split_ifs with hquote hbacktick hstart hdigit
  · rw [consumeQuoted, List.length_cons]
    omega
  · rw [consumeRaw, List.length_cons]
    omega
  · rw [Scanner.identifier, hrest, consumeIdentifier]
    rw [hrest, List.length_cons] at hidentifier
    rw [List.length_cons]
    dsimp only
    omega
  · have htag : (isAsciiAlphanumeric b || decide (b = byte '_') || decide (b = byte '.')) = true := by
      rw [isAsciiAlphanumeric, decide_eq_true hdigit]
      simp
    rw [consumeNumber, List.takeWhile_cons, htag, if_pos rfl, List.length_cons, List.length_cons]
    have := (List.takeWhile_sublist
      (fun b => isAsciiAlphanumeric b || b = byte '_' || b = byte '.') (l := rest)).length_le
    dsimp only
    omega
  · rw [Scanner.operator, hrest]
    rw [hrest] at hoperator
    exact hoperator

/-- The tag of a token, and whether a line break after it ends the statement. -/
theorem significant_eq {s : Scanner} (h : s.rest ≠ []) :
    s.significant.2.1 = Piece.tokenTag (s.rest.take s.significant.1)
      ∧ s.significant.2.2
        = decide (Piece.EndsStatement s.significant.2.1 (s.rest.take s.significant.1)) := by
  obtain ⟨b, rest, hrest⟩ := List.exists_cons_of_ne_nil h
  have hbounds := significant_bounds h
  have hhead : (s.rest.take s.significant.1).head? = some b := by
    rw [List.head?_take, if_neg (by omega), hrest, List.head?_cons]
  have htag : Piece.tokenTag (s.rest.take s.significant.1)
      = if b = byte '\x22' ∨ b = byte '\x27' ∨ b = byte '\x60' then 2
        else if identifierStart b then
          (if isKeyword (s.rest.take s.significant.1) then 3 else 1)
        else if byte '0' ≤ b ∧ b ≤ byte '9' then 2
        else 4 := by
    rw [Piece.tokenTag, hhead]
  have hsignificant : s.significant
      = if b = byte '\x22' ∨ b = byte '\x27' then (consumeQuoted s.rest, 2, true)
        else if b = byte '\x60' then (consumeRaw s.rest, 2, true)
        else if identifierStart b then s.identifier
        else if byte '0' ≤ b ∧ b ≤ byte '9' then (consumeNumber s.rest, 2, true)
        else s.operator := by
    rw [Scanner.significant, hrest, List.head?_cons]
  -- The branches of the scanner, in its own order.
  by_cases hquote : b = byte '\x22' ∨ b = byte '\x27'
  · rw [if_pos hquote] at hsignificant
    rw [if_pos (or_assoc.mp (.inl hquote))] at htag
    rw [htag, hsignificant]
    exact ⟨rfl, (decide_eq_true (.inr (.inl rfl))).symm⟩
  rw [if_neg hquote] at hsignificant
  by_cases hbacktick : b = byte '\x60'
  · rw [if_pos hbacktick] at hsignificant
    rw [if_pos (.inr (.inr hbacktick))] at htag
    rw [htag, hsignificant]
    exact ⟨rfl, (decide_eq_true (.inr (.inl rfl))).symm⟩
  have hliteral : ¬ (b = byte '\x22' ∨ b = byte '\x27' ∨ b = byte '\x60') := by
    rintro (h | h | h)
    · exact hquote (.inl h)
    · exact hquote (.inr h)
    · exact hbacktick h
  rw [if_neg hbacktick] at hsignificant
  rw [if_neg hliteral] at htag
  by_cases hstart : identifierStart b = true
  · rw [if_pos hstart] at hsignificant htag
    rw [htag, hsignificant]
    unfold Scanner.identifier
    dsimp only
    rw [any_ascii_eq]
    by_cases hkeyword : isKeyword (s.rest.take (consumeIdentifier s.rest)) = true <;>
      simp [Piece.EndsStatement, hkeyword]
  rw [if_neg hstart] at hsignificant htag
  by_cases hdigit : byte '0' ≤ b ∧ b ≤ byte '9'
  · rw [if_pos hdigit] at hsignificant htag
    rw [htag, hsignificant]
    exact ⟨rfl, (decide_eq_true (.inr (.inl rfl))).symm⟩
  rw [if_neg hdigit] at hsignificant htag
  rw [htag, hsignificant]
  unfold Scanner.operator
  dsimp only
  rw [any_ascii_eq]
  refine ⟨rfl, ?_⟩
  simp [Piece.EndsStatement]

variable {s : Str}

/-- A source is its first piece and what follows it. -/
theorem nextPiece_spec (h : s ≠ []) :
    ∃ after, s = (nextPiece s).text ++ after ∧ (nextPiece s).text ≠ []
      ∧ (nextPiece s).Fits after := by
  obtain ⟨b, rest, rfl⟩ := List.exists_cons_of_ne_nil h
  unfold nextPiece
  dsimp only
  split_ifs with hblank hbreak hline hblock
  · refine ⟨rest, rfl, List.cons_ne_nil _ _, ?_⟩
    show [b] ∈ _
    rcases hblank with rfl | rfl | rfl <;> decide
  · rcases consumeNewline_cases (b :: rest) with ⟨htwo, hwidth⟩ | ⟨htwo, hwidth⟩
    · rw [hwidth, htwo]
      refine ⟨(b :: rest).drop 2, ?_, by decide, .inl rfl⟩
      rw [← htwo, List.take_append_drop]
    · rw [hwidth]
      refine ⟨rest, rfl, List.cons_ne_nil _ _, .inr ?_⟩
      show [b] = [10] ∨ [b] = [13] ∧ rest.head? ≠ some 10
      unfold isBreak at hbreak
      rw [Bool.or_eq_true, decide_eq_true_eq, decide_eq_true_eq] at hbreak
      rcases hbreak with rfl | rfl
      · refine .inr ⟨rfl, fun hhead => htwo ?_⟩
        cases rest with
        | nil => cases hhead
        | cons c rest =>
          obtain rfl := Option.some.inj hhead
          rfl
      · exact .inl rfl
  · obtain ⟨rfl, hrest⟩ := hline
    obtain ⟨tail, rfl⟩ : ∃ tail, rest = byte '/' :: tail := by
      cases rest with
      | nil => cases hrest
      | cons c tail => exact ⟨tail, by rw [Option.some.inj hrest]⟩
    exact lineComment_spec tail
  · obtain ⟨rfl, hrest⟩ := hblock
    obtain ⟨tail, rfl⟩ : ∃ tail, rest = byte '*' :: tail := by
      cases rest with
      | nil => cases hrest
      | cons c tail => exact ⟨tail, by rw [Option.some.inj hrest]⟩
    exact blockComment_spec tail
  · have hbounds := significant_bounds (s := { rest := b :: rest }) (List.cons_ne_nil _ _)
    -- Not blank, no break, no comment: a token, whose bounds are the scanner's.
    have htag := (significant_eq (s := { rest := b :: rest }) (List.cons_ne_nil _ _)).1
    generalize hsignificant : Scanner.significant { rest := b :: rest } = read at hbounds htag ⊢
    obtain ⟨width, tag, semicolon⟩ := read
    dsimp only at hbounds htag ⊢
    have htext : (b :: rest).take width ++ (b :: rest).drop width = b :: rest :=
      List.take_append_drop _ _
    have hhead : ((b :: rest).take width).head? = some b := by
      rw [List.head?_take, if_neg (by omega), List.head?_cons]
    have hne : (b :: rest).take width ≠ [] := by
      intro hnil
      rw [hnil] at hhead
      cases hhead
    refine ⟨(b :: rest).drop width, htext.symm, hne, hne, htag, ?_, ?_, ?_⟩
    · rw [hhead, Option.any_some]
      unfold isBreak at hbreak
      unfold isAsciiWhitespace
      simp only [Bool.or_eq_true, decide_eq_true_eq, not_or] at hbreak hblank
      have hspace : b ≠ 32 := hblank.1
      simp [hspace, hblank.2.1, hblank.2.2, hbreak.1, hbreak.2]
    · rw [htext]
      rintro ⟨tail, htail⟩
      obtain ⟨hslash, hrest⟩ := List.cons.inj htail
      exact hline ⟨hslash.symm, by rw [← hrest]; rfl⟩
    · rw [htext]
      rintro ⟨tail, htail⟩
      obtain ⟨hslash, hrest⟩ := List.cons.inj htail
      exact hblock ⟨hslash.symm, by rw [← hrest]; rfl⟩

/-- A piece that is a token reaches as far as the scanner reads. -/
theorem nextPiece_token (h : s ≠ []) {tag : UInt8} (hkind : (nextPiece s).kind = .token tag) :
    (nextPiece s).text = s.take (Scanner.significant { rest := s }).1
      ∧ tag = (Scanner.significant { rest := s }).2.1 := by
  obtain ⟨b, rest, rfl⟩ := List.exists_cons_of_ne_nil h
  unfold nextPiece at hkind ⊢
  dsimp only at hkind ⊢
  split_ifs at hkind ⊢
  exact ⟨rfl, (PieceKind.token.inj hkind).symm⟩

/-! ## The whole source -/

theorem piecesFrom_nil (rounds : Nat) : piecesFrom rounds [] = [] := by
  cases rounds <;> rfl

theorem drop_text (h : s ≠ []) : s = (nextPiece s).text ++ s.drop (nextPiece s).text.length
    ∧ (s.drop (nextPiece s).text.length).length < s.length := by
  obtain ⟨after, hs, hne, -⟩ := nextPiece_spec h
  have hdrop : s.drop (nextPiece s).text.length = after :=
    (congrArg (List.drop _) hs).trans List.drop_left
  have hpos := List.length_pos_iff.mpr hne
  have hlength := congrArg List.length hs
  rw [List.length_append] at hlength
  rw [hdrop]
  exact ⟨hs, by omega⟩

/-- Any number of rounds that is enough gives the same pieces. -/
theorem piecesFrom_congr : ∀ {n m : Nat} {s : Str}, s.length ≤ n → s.length ≤ m →
    piecesFrom n s = piecesFrom m s := by
  intro n
  induction n with
  | zero =>
    intro m s hn hm
    rw [List.length_eq_zero_iff.mp (Nat.le_zero.mp hn), piecesFrom_nil, piecesFrom_nil]
  | succ n ih =>
    intro m s hn hm
    by_cases hs : s = []
    · rw [hs, piecesFrom_nil, piecesFrom_nil]
    · have hpos := List.length_pos_iff.mpr hs
      obtain ⟨m, rfl⟩ := Nat.exists_eq_add_of_le' (Nat.le_trans hpos hm)
      have hrest := (drop_text hs).2
      rw [piecesFrom, piecesFrom, if_neg hs, if_neg hs, ih (m := m) (by omega) (by omega)]

theorem pieces_nil : pieces [] = [] := rfl

theorem pieces_eq_cons (h : s ≠ []) :
    pieces s = nextPiece s :: pieces (s.drop (nextPiece s).text.length) := by
  have hpos := List.length_pos_iff.mpr h
  have hrest := (drop_text h).2
  obtain ⟨n, hn⟩ := Nat.exists_eq_add_of_le' hpos
  rw [pieces, hn, piecesFrom, if_neg h, pieces, piecesFrom_congr (by omega) (Nat.le_refl _)]

/-- The pieces are the source, each what its kind says. -/
theorem pieces_spec (source : Str) :
    textOf (pieces source) = source ∧ ∀ before piece after,
      pieces source = before ++ piece :: after →
        piece.text ≠ [] ∧ piece.Fits (textOf after) := by
  induction hlength : source.length using Nat.strong_induction_on generalizing source with
  | h length ih =>
    by_cases hs : source = []
    · subst hs
      refine ⟨rfl, fun before piece after h => ?_⟩
      exact absurd h.symm (by simp [pieces_nil])
    · obtain ⟨hsplit, hshorter⟩ := drop_text hs
      obtain ⟨htext, hrest⟩ := ih _ (hlength ▸ hshorter) _ rfl
      rw [pieces_eq_cons hs]
      constructor
      · rw [textOf_cons, htext, ← hsplit]
      · intro before piece after h
        cases before with
        | nil =>
          obtain ⟨rfl, rfl⟩ := List.cons.inj h
          obtain ⟨after, hafter, hne, hfits⟩ := nextPiece_spec hs
          rw [htext]
          have hdrop : source.drop (nextPiece source).text.length = after :=
            (congrArg (List.drop _) hafter).trans List.drop_left
          rw [hdrop]
          exact ⟨hne, hfits⟩
        | cons first before => exact hrest before piece after (List.cons.inj h).2

end

end Opcore.Go
