/-
  Opcore.Sense.Resolver.ModuleFile

  The module path that a `go.mod` file declares, by a reading of its lines in which
  comments are told from strings, and the reading of the analyzer beside it: on which lines
  the two find the same directive, and what follows for files whose lines are such.
-/
import Opcore.Library.Words
import Opcore.Sense.Resolver.Index

namespace Opcore.Resolver.Go

open Text Collections

/-! ## Lines without comments -/

/-- Where a place of a line is: in plain text, in a string with or without escapes,
    behind a backslash of one, or in a block comment. -/
inductive Mode where
  | plain
  | quoted
  | escaped
  | raw
  | comment
  deriving DecidableEq

/-- The mode behind a byte that is kept. -/
def Mode.next : Mode → UInt8 → Mode
  | .plain, b => if b = 34 then .quoted else if b = 96 then .raw else .plain
  | .quoted, b => if b = 34 then .plain else if b = 92 then .escaped else .quoted
  | .escaped, _ => .quoted
  | .raw, b => if b = 96 then .plain else .raw
  | .comment, _ => .comment

def Mode.after (mode : Mode) (s : Str) : Mode := s.foldl Mode.next mode

/-- A line from such a place on without its comments, and the mode at its end. -/
def uncomment : Mode → Str → Str × Mode
  | .plain, 47 :: 47 :: _ => ([], .plain)
  | .plain, 47 :: 42 :: s => uncomment .comment s
  | .comment, 42 :: 47 :: s => uncomment .plain s
  | .comment, _ :: s => uncomment .comment s
  | mode, b :: s => (b :: (uncomment (mode.next b) s).1, (uncomment (mode.next b) s).2)
  | mode, [] => ([], mode)

/-- A line without its comments, and whether it leaves one open; no string goes beyond its
    line. -/
def withoutComments (line : Str) (inComment : Bool) : Str × Bool :=
  let (text, mode) := uncomment (if inComment then .comment else .plain) line
  (text, mode = .comment)

/-! ## What a file declares -/

/-- The words of the lines, for a way to take comments from a line, and whether a comment is
    open behind them. -/
def readLines (strip : Str → Bool → Str × Bool) : Bool → List Str → List (List Str) × Bool
  | inComment, [] => ([], inComment)
  | inComment, line :: lines =>
    let (text, inComment) := strip line inComment
    let (words, inComment) := readLines strip inComment lines
    (splitAsciiWhitespace text :: words, inComment)

/-- The line starts with the word `module`. -/
def isDirective (words : List Str) : Bool := words.head? = some (ascii "module")

def directives (lines : List (List Str)) : List (List Str) := lines.filter isDirective

/-- The text between the quotes of a string. -/
inductive Escapes : Str → Str → Prop
  | nil : Escapes [] []
  | plain {b : UInt8} {s t : Str} : b ≠ 34 → b ≠ 92 → Escapes s t → Escapes (b :: s) (b :: t)
  | escaped {c : UInt8} {s t : Str} : c = 92 ∨ c = 34 → Escapes s t →
      Escapes (92 :: c :: s) (c :: t)

/-- The argument of a directive stands for the path: by itself, unless it opens a list of
    directives, or as a string. -/
inductive Spelled : Str → Str → Prop
  | bare {path : Str} : 34 ∉ path → 96 ∉ path → path ≠ ascii "(" → Spelled path path
  | raw {path : Str} : 96 ∉ path → Spelled (96 :: (path ++ [96])) path
  | quoted {body path : Str} : Escapes body path → Spelled (34 :: (body ++ [34])) path

/-- The file has one module directive with one argument, which stands for a valid path. -/
def DeclaresModule (bytes path : Str) : Prop :=
  utf8Valid bytes = true ∧ (readLines withoutComments false (lines bytes)).2 = false
    ∧ ∃ argument,
      directives (readLines withoutComments false (lines bytes)).1 = [[ascii "module", argument]]
        ∧ Spelled argument path ∧ validModulePath path = true

/-! ## Plain lines -/

/-- The line up to its first `//`. -/
def upToLineComment (line : Str) : Str :=
  ((splitOnceText (ascii "//") line).map Prod.fst).getD line

/-- The first marker of a comment is in no string; and behind a block comment no text
    follows, and a `*/` in front of the first `//` tells whether all of them end. -/
def plainOutside (line : Str) : Bool :=
  let head := upToLineComment line
  match splitOnceText (ascii "/*") head with
  | none => head = line || Mode.plain.after head = .plain
  | some (before, _) =>
    let (text, mode) := uncomment .comment (line.drop (before.length + 2))
    Mode.plain.after before = .plain && text.all isAsciiWhitespace
      && containsText (ascii "*/") head == !decide (mode = .comment)

def plainLine (line : Str) (inComment : Bool) : Bool :=
  if inComment then
    match splitOnceText (ascii "*/") line with
    | none => true
    | some (_, rest) => plainOutside rest
  else plainOutside line

/-! ## Lines without a directive -/

/-- A line up to its first marker of a comment. -/
def upToComment (line : Str) : Str :=
  ((splitOnceText (ascii "/*") (upToLineComment line)).map Prod.fst).getD (upToLineComment line)

/-- Neither the line up to its first marker of a comment nor the line without its comments
    is a directive, and a `*/` in front of the first `//` tells whether all comments end. -/
def quietOutside (line : Str) : Bool :=
  let (text, mode) := uncomment .plain line
  !isDirective (splitAsciiWhitespace (upToComment line))
    && !isDirective (splitAsciiWhitespace text)
    && ((splitOnceText (ascii "/*") (upToLineComment line)).isSome
      && !containsText (ascii "*/") (upToLineComment line)) == decide (mode = .comment)

def followedOutside (line : Str) : Bool := plainOutside line || quietOutside line

/-- The line is plain, or no directive and no comment depends on what makes it none. -/
def followedLine (line : Str) (inComment : Bool) : Bool :=
  if inComment then
    match splitOnceText (ascii "*/") line with
    | none => true
    | some (_, rest) => followedOutside rest
  else followedOutside line

/-- A valid path that the analyzer takes for the argument itself: the parenthesis of a list of
    directives, or a text with a quote that is no string. -/
def Loose (argument : Str) : Prop :=
  validModulePath argument = true
    ∧ (argument = ascii "(" ∨ 96 ∈ argument ∧ ∀ path, argument ≠ 96 :: (path ++ [96]))

/-- A directive behind which nothing counts: a second one, or one without an argument that
    stands for a valid path or is taken for one. -/
def Refused (found : Bool) (words : List Str) : Prop :=
  found = true ∨ ∀ argument, words = [ascii "module", argument] →
    (∀ path, Spelled argument path → validModulePath path = false) ∧ ¬ Loose argument

/-- Up to the first directive that is refused, each line is followed where it stands. -/
def FollowedLines : Bool → Bool → List Str → Prop
  | _, _, [] => True
  | found, inComment, line :: lines =>
    let (text, stillOpen) := withoutComments line inComment
    let words := splitAsciiWhitespace text
    followedLine line inComment = true
      ∧ (isDirective words = false → FollowedLines found stillOpen lines)
      ∧ (isDirective words = true → ¬ Refused found words → FollowedLines true stillOpen lines)

/-! ## Scanning a line -/

theorem uncomment_nil (mode : Mode) : uncomment mode [] = ([], mode) := by
  cases mode <;> rfl

variable {mode : Mode}

theorem uncomment_kept {b : UInt8} {s : Str} (hmode : mode ≠ .comment)
    (hplain : mode = .plain → ¬ ascii "//" <+: b :: s ∧ ¬ ascii "/*" <+: b :: s) :
    uncomment mode (b :: s)
      = (b :: (uncomment (mode.next b) s).1, (uncomment (mode.next b) s).2) := by
  rw [uncomment.eq_def]
  split
  · next heq =>
    cases heq
    exact absurd ⟨_, rfl⟩ (hplain rfl).1
  · next heq =>
    cases heq
    exact absurd ⟨_, rfl⟩ (hplain rfl).2
  · exact absurd rfl hmode
  · exact absurd rfl hmode
  · next heq => cases heq; rfl
  · next heq => cases heq

theorem Mode.next_ne_comment (hmode : mode ≠ .comment) (b : UInt8) :
    mode.next b ≠ .comment := by
  cases mode with
  | comment => exact absurd rfl hmode
  | escaped => simp [Mode.next]
  | plain => rw [Mode.next]; split_ifs <;> simp
  | quoted => rw [Mode.next]; split_ifs <;> simp
  | raw => rw [Mode.next]; split_ifs <;> simp

/-- Text in which no comment starts is kept. -/
theorem uncomment_append {before rest : Str} (hmode : mode ≠ .comment)
    (hbefore : ∀ a b, before = a ++ b → b ≠ [] →
      ¬ ascii "//" <+: b ++ rest ∧ ¬ ascii "/*" <+: b ++ rest) :
    uncomment mode (before ++ rest) = (before ++ (uncomment (mode.after before) rest).1,
      (uncomment (mode.after before) rest).2) := by
  induction before generalizing mode with
  | nil => rfl
  | cons b before ih =>
    have hnext := Mode.next_ne_comment hmode b
    have htail := ih hnext fun a b' heq hne => hbefore (b :: a) b' (by rw [heq]; rfl) hne
    have hkept : uncomment mode (b :: (before ++ rest)) = _ := uncomment_kept hmode fun _ =>
      hbefore [] (b :: before) rfl (List.cons_ne_nil _ _)
    rw [List.cons_append, hkept, htail]
    rfl

theorem uncomment_skip {b : UInt8} {s : Str} (h : ¬ ascii "*/" <+: b :: s) :
    uncomment .comment (b :: s) = uncomment .comment s := by
  rw [uncomment.eq_def]
  split
  · next heq _ => cases heq
  · next heq _ => cases heq
  · next heq =>
    cases heq
    exact absurd ⟨_, rfl⟩ h
  · next heq =>
    cases heq
    rfl
  · next hother => exact absurd rfl hother
  · next heq => cases heq

theorem uncomment_open {s : Str} (h : splitOnceText (ascii "*/") s = none) :
    uncomment .comment s = ([], .comment) := by
  induction s with
  | nil => rfl
  | cons b s ih =>
    rw [uncomment_skip (splitOnceText_eq_none h [] (b :: s) rfl)]
    rw [splitOnceText] at h
    split_ifs at h
    exact ih (Option.map_eq_none_iff.mp h)

/-- A block comment ends at the first `*/`. -/
theorem uncomment_closed {s inside after : Str}
    (h : splitOnceText (ascii "*/") s = some (inside, after)) :
    uncomment .comment s = uncomment .plain after := by
  obtain ⟨rfl, hfirst⟩ := splitOnceText_eq_some h
  clear h
  induction inside with
  | nil => rfl
  | cons b inside ih =>
    have hskip : uncomment .comment (b :: (inside ++ (ascii "*/" ++ after))) = _ :=
      uncomment_skip (hfirst [] (b :: inside) rfl (List.cons_ne_nil _ _))
    rw [List.cons_append, hskip]
    exact ih fun a b' heq hne => hfirst (b :: a) b' (by rw [heq]; rfl) hne

/-! ## Where the two readings agree -/

/-- The two ways to read a line have the same words, and leave the same comment open. -/
def Agrees (line : Str) (inComment : Bool) : Prop :=
  splitAsciiWhitespace (stripComments line inComment).1
      = splitAsciiWhitespace (withoutComments line inComment).1
    ∧ (stripComments line inComment).2 = (withoutComments line inComment).2

/-- The places before a first marker, in the line that goes on behind it. -/
theorem not_prefix_append {sep a b : Str} (h : ¬ sep <+: a) (hlength : sep.length ≤ a.length) :
    ¬ sep <+: a ++ b :=
  fun hprefix => h (List.prefix_of_prefix_length_le hprefix (List.prefix_append a b) hlength)

/-- A line outside comments: what the reading keeps and where it ends, by the first `//` and
    the first `/*` before it. -/
inductive Cut (line : Str) : Prop
  /-- no comment -/
  | text (hhead : upToLineComment line = line)
      (hblock : splitOnceText (ascii "/*") line = none)
      (hscan : uncomment .plain line = (line, Mode.plain.after line))
  | lineComment (before after : Str) (hhead : upToLineComment line = before)
      (hline : line = before ++ (ascii "//" ++ after))
      (hblock : splitOnceText (ascii "/*") before = none)
      (hscan : uncomment .plain line = (before
          ++ (uncomment (Mode.plain.after before) (ascii "//" ++ after)).1,
        (uncomment (Mode.plain.after before) (ascii "//" ++ after)).2))
  | block (before inside : Str) (hblock : splitOnceText (ascii "/*") (upToLineComment line)
        = some (before, inside)) (rest : Str)
      (hline : line = before ++ (ascii "/*" ++ rest))
      (hscan : uncomment .plain line = (before
          ++ (uncomment (Mode.plain.after before) (ascii "/*" ++ rest)).1,
        (uncomment (Mode.plain.after before) (ascii "/*" ++ rest)).2))

variable (line : Str)

theorem cut : Cut line := by
  have hplain : Mode.plain ≠ .comment := by decide
  cases hline : splitOnceText (ascii "//") line with
  | none =>
    have hhead : upToLineComment line = line := by rw [upToLineComment, hline]; rfl
    have hnone := splitOnceText_eq_none hline
    cases hblock : splitOnceText (ascii "/*") line with
    | none =>
      have hbefore : ∀ a b, line = a ++ b → b ≠ [] →
          ¬ ascii "//" <+: b ++ [] ∧ ¬ ascii "/*" <+: b ++ [] := by
        intro a b heq _
        rw [List.append_nil]
        exact ⟨hnone a b heq, splitOnceText_eq_none hblock a b heq⟩
      have hscan := uncomment_append hplain hbefore
      rw [List.append_nil, uncomment_nil, List.append_nil] at hscan
      exact .text hhead hblock hscan
    | some parts =>
      obtain ⟨before, inside⟩ := parts
      obtain ⟨heq, hfirst⟩ := splitOnceText_eq_some hblock
      have hbefore : ∀ a b, before = a ++ b → b ≠ [] →
          ¬ ascii "//" <+: b ++ (ascii "/*" ++ inside)
            ∧ ¬ ascii "/*" <+: b ++ (ascii "/*" ++ inside) := fun a b h hne =>
        ⟨hnone a _ (by rw [heq, h, List.append_assoc]), hfirst a b h hne⟩
      have hscan := uncomment_append hplain hbefore
      rw [← heq] at hscan
      exact .block before inside (by rw [hhead]; exact hblock) inside heq hscan
  | some parts =>
    obtain ⟨head, after⟩ := parts
    have hhead : upToLineComment line = head := by rw [upToLineComment, hline]; rfl
    obtain ⟨heq, hslash⟩ := splitOnceText_eq_some hline
    cases hblock : splitOnceText (ascii "/*") head with
    | none =>
      have hbefore : ∀ a b, head = a ++ b → b ≠ [] →
          ¬ ascii "//" <+: b ++ (ascii "//" ++ after)
            ∧ ¬ ascii "/*" <+: b ++ (ascii "//" ++ after) := by
        intro a b h hne
        refine ⟨hslash a b h hne, ?_⟩
        have hno := splitOnceText_eq_none hblock a b h
        match b, hne, hno with
        | [c], _, _ =>
          -- the last byte before the marker, which goes on with a slash
          rintro ⟨rest, hrest⟩
          cases (List.cons.inj hrest).2
        | c :: d :: b, _, hno => exact not_prefix_append hno (Nat.le_add_left 2 _)
      have hscan := uncomment_append hplain hbefore
      rw [← heq] at hscan
      exact .lineComment head after hhead heq hblock hscan
    | some parts =>
      obtain ⟨before, inside⟩ := parts
      obtain ⟨hinside, hfirst⟩ := splitOnceText_eq_some hblock
      have hrest : line = before ++ (ascii "/*" ++ (inside ++ (ascii "//" ++ after))) := by
        rw [heq, hinside]
        simp only [List.append_assoc]
      have hbefore : ∀ a b, before = a ++ b → b ≠ [] →
          ¬ ascii "//" <+: b ++ (ascii "/*" ++ (inside ++ (ascii "//" ++ after)))
            ∧ ¬ ascii "/*" <+: b ++ (ascii "/*" ++ (inside ++ (ascii "//" ++ after))) := by
        intro a b h hne
        constructor
        · have hno := hslash a (b ++ (ascii "/*" ++ inside))
            (by rw [hinside, h, List.append_assoc]) (List.append_ne_nil_of_left_ne_nil hne _)
          simpa only [List.append_assoc] using hno
        · have hlength : (ascii "/*").length ≤ (b ++ (ascii "/*" ++ inside)).length := by
            rw [List.length_append, List.length_append]
            omega
          have hno := @not_prefix_append _ _ (ascii "//" ++ after) (hfirst a b h hne) hlength
          simpa only [List.append_assoc] using hno
      have hscan := uncomment_append hplain hbefore
      rw [← hrest] at hscan
      exact .block before inside (by rw [hhead]; exact hblock) _ hrest hscan

theorem Mode.after_ne_comment (hmode : mode ≠ .comment) (s : Str) :
    mode.after s ≠ .comment := by
  induction s generalizing mode with
  | nil => exact hmode
  | cons b s ih => exact ih (Mode.next_ne_comment hmode b)

theorem filter_append_eq_self {s t : Str}
    (h : splitAsciiWhitespace s = splitAsciiWhitespace (s ++ t)) :
    ∀ b ∈ t, isAsciiWhitespace b = true := by
  have hflatten := congrArg List.flatten h
  rw [flatten_splitAsciiWhitespace, flatten_splitAsciiWhitespace, List.filter_append] at hflatten
  have hnil := List.self_eq_append_right.mp hflatten
  intro b hb
  simpa using List.filter_eq_nil_iff.mp hnil b hb

/-- A marker in a string is text. -/
theorem not_blank_in_string (hmode : mode ≠ .comment) (hplain : mode ≠ .plain)
    (s : Str) : ¬ ∀ b ∈ (uncomment mode (47 :: s)).1, isAsciiWhitespace b = true := by
  rw [uncomment_kept hmode fun h => absurd h hplain]
  intro hall
  cases hall 47 (List.mem_cons_self ..)

theorem stripLineComments_eq : stripLineComments line
    = match splitOnceText (ascii "/*") (upToLineComment line) with
      | some (before, _) => (before, !containsText (ascii "*/") (upToLineComment line))
      | none => (upToLineComment line, false) := rfl

theorem agrees_false_iff : Agrees line false ↔ plainOutside line = true := by
  have hwithout : withoutComments line false
      = ((uncomment .plain line).1, decide ((uncomment .plain line).2 = .comment)) := rfl
  have hmode := fun before => Mode.after_ne_comment (show Mode.plain ≠ .comment by decide) before
  rw [Agrees, show stripComments line false = stripLineComments line from rfl, hwithout,
    stripLineComments_eq, plainOutside]
  cases cut line with
  | text hhead hblock hscan =>
    rw [hhead, hblock, hscan]
    simp [hmode line]
  | lineComment before after hhead hline hblock hscan =>
    rw [hhead, hblock, hscan]
    dsimp only
    by_cases hplain : Mode.plain.after before = .plain
    · rw [hplain, show uncomment .plain (ascii "//" ++ after) = ([], .plain) from rfl,
        List.append_nil]
      simp
    · have hne : before ≠ line := by
        intro heq
        have hlength := congrArg List.length hline
        rw [← heq, List.length_append, List.length_append] at hlength
        have hmarker : (ascii "//").length = 2 := rfl
        omega
      simp only [hplain, hne, decide_false, Bool.or_false, Bool.false_eq_true, iff_false]
      rintro ⟨hwords, -⟩
      exact not_blank_in_string (hmode before) hplain _ (filter_append_eq_self hwords)
  | block before inside hblock rest hline hscan =>
    rw [hblock, hscan]
    dsimp only
    have hrest : line.drop (before.length + 2) = rest := by
      rw [hline, ← List.append_assoc]
      exact List.drop_left' (by rw [List.length_append]; rfl)
    rw [hrest]
    by_cases hplain : Mode.plain.after before = .plain
    · rw [hplain, show uncomment .plain (ascii "/*" ++ rest) = uncomment .comment rest from rfl]
      simp only [decide_true, Bool.true_and, Bool.and_eq_true, List.all_eq_true, beq_iff_eq]
      constructor
      · rintro ⟨hwords, hopen⟩
        refine ⟨filter_append_eq_self hwords, ?_⟩
        rw [← hopen, Bool.not_not]
      · rintro ⟨hblank, hclosed⟩
        refine ⟨(splitAsciiWhitespace_append_blank before hblank).symm, ?_⟩
        rw [hclosed, Bool.not_not]
    · simp only [hplain, decide_false, Bool.false_and, Bool.false_eq_true, iff_false]
      rintro ⟨hwords, -⟩
      exact not_blank_in_string (hmode before) hplain _ (filter_append_eq_self hwords)

/-- The plain lines are those that both ways to read a line read alike. -/
theorem agrees_iff (inComment : Bool) :
    Agrees line inComment ↔ plainLine line inComment = true := by
  cases inComment with
  | false => exact agrees_false_iff line
  | true =>
    rw [Agrees, plainLine, if_pos rfl, withoutComments, if_pos rfl, stripComments, if_pos rfl]
    cases hclose : splitOnceText (ascii "*/") line with
    | none =>
      rw [uncomment_open hclose]
      simp
    | some parts =>
      obtain ⟨inside, rest⟩ := parts
      rw [uncomment_closed hclose]
      exact agrees_false_iff rest

/-! ## Where the two readings find the same directive -/

/-- The two ways to read a line find the same directive or none, and leave the same comment
    open. -/
def SameDirective (line : Str) (inComment : Bool) : Prop :=
  directives [splitAsciiWhitespace (stripComments line inComment).1]
      = directives [splitAsciiWhitespace (withoutComments line inComment).1]
    ∧ (stripComments line inComment).2 = (withoutComments line inComment).2

theorem directives_singleton (words : List Str) :
    directives [words] = if isDirective words then [words] else [] := by
  rw [directives, List.filter_cons, List.filter_nil]

theorem directives_singleton_eq_iff {words words' : List Str} :
    directives [words] = directives [words']
      ↔ words = words' ∨ isDirective words = false ∧ isDirective words' = false := by
  rw [directives_singleton, directives_singleton]
  by_cases h : isDirective words = true
  · by_cases h' : isDirective words' = true
    · simp [h, h']
    · have hne : words ≠ words' := fun heq => h' (heq ▸ h)
      simp [h, h', hne]
  · by_cases h' : isDirective words' = true
    · have hne : words ≠ words' := fun heq => h (heq ▸ h')
      simp [h, h', hne]
    · simp [h, h']

theorem stripLineComments_fst : (stripLineComments line).1 = upToComment line := by
  rw [stripLineComments_eq, upToComment]
  cases splitOnceText (ascii "/*") (upToLineComment line) <;> rfl

theorem stripLineComments_snd : (stripLineComments line).2
    = ((splitOnceText (ascii "/*") (upToLineComment line)).isSome
      && !containsText (ascii "*/") (upToLineComment line)) := by
  rw [stripLineComments_eq]
  cases splitOnceText (ascii "/*") (upToLineComment line) <;> rfl

theorem sameDirective_false_iff :
    SameDirective line false ↔ followedOutside line = true := by
  have hquiet : quietOutside line = true
      ↔ (isDirective (splitAsciiWhitespace (stripComments line false).1) = false
          ∧ isDirective (splitAsciiWhitespace (withoutComments line false).1) = false)
        ∧ (stripComments line false).2 = (withoutComments line false).2 := by
    rw [show stripComments line false = stripLineComments line from rfl, stripLineComments_fst,
      stripLineComments_snd, quietOutside, withoutComments]
    simp
  rw [SameDirective, directives_singleton_eq_iff, or_and_right, followedOutside, Bool.or_eq_true,
    ← agrees_false_iff, hquiet, Agrees]

/-- The followed lines are those in which both readings find the same directive. -/
theorem sameDirective_iff (inComment : Bool) :
    SameDirective line inComment ↔ followedLine line inComment = true := by
  cases inComment with
  | false => exact sameDirective_false_iff line
  | true =>
    rw [SameDirective, followedLine, if_pos rfl, withoutComments, if_pos rfl, stripComments,
      if_pos rfl]
    cases hclose : splitOnceText (ascii "*/") line with
    | none =>
      rw [uncomment_open hclose]
      simp
    | some parts =>
      obtain ⟨inside, rest⟩ := parts
      rw [uncomment_closed hclose]
      exact sameDirective_false_iff rest

/-! ## The directives of a file -/

/-- One directive, and what the analyzer makes of its argument. -/
def pathOf (words : List Str) : Option Str :=
  match words with
  | [_, argument] => (unquoteModulePath argument).filter validModulePath
  | _ => none

/-- The path found so far and another directive. -/
def addPath (path : Option Str) (words : List Str) : Option (Option Str) :=
  (pathOf words).bind fun path' => if path.isSome then none else some (some path')

/-- One line: a directive is added, every other line only moves comments on. -/
theorem step_eq (s : ModuleScan) (line : Str) :
    s.step line = if isDirective (splitAsciiWhitespace (stripComments line s.blockComment).1)
      then (addPath s.modulePath
        (splitAsciiWhitespace (stripComments line s.blockComment).1)).map fun path =>
          ⟨path, (stripComments line s.blockComment).2⟩
      else some ⟨s.modulePath, (stripComments line s.blockComment).2⟩ := by
  rw [ModuleScan.step]
  dsimp only
  cases splitAsciiWhitespace (stripComments line s.blockComment).1 with
  | nil => rfl
  | cons field fields =>
    have hdirective : isDirective (field :: fields) = decide (field = ascii "module") := by
      simp [isDirective]
    rw [hdirective]
    by_cases hfield : field = ascii "module"
    · dsimp only
      rw [if_neg (not_not.mpr hfield), if_pos (decide_eq_true hfield), addPath]
      match fields with
      | [] => rfl
      | _ :: _ :: _ => rfl
      | [argument] =>
        rw [pathOf]
        dsimp only
        cases unquoteModulePath argument with
        | none => rfl
        | some path =>
          rw [Option.bind_some, Option.filter_some]
          cases validModulePath path <;> cases s.modulePath <;> rfl
    · dsimp only
      rw [if_pos hfield, if_neg (by simpa using hfield)]

/-- The scan of a file goes through its directives in order. -/
theorem foldlM_step (lines : List Str) (s : ModuleScan) :
    lines.foldlM ModuleScan.step s
      = ((directives (readLines stripComments s.blockComment lines).1).foldlM addPath
          s.modulePath).map
        fun path => ⟨path, (readLines stripComments s.blockComment lines).2⟩ := by
  induction lines generalizing s with
  | nil => rfl
  | cons line lines ih =>
    rw [List.foldlM_cons, step_eq, readLines]
    dsimp only
    by_cases hdirective : isDirective (splitAsciiWhitespace (stripComments line s.blockComment).1)
        = true
    · rw [if_pos hdirective, directives, List.filter_cons_of_pos hdirective, List.foldlM_cons]
      cases addPath s.modulePath (splitAsciiWhitespace (stripComments line s.blockComment).1) with
      | none => rfl
      | some path => exact ih ⟨path, (stripComments line s.blockComment).2⟩
    · rw [if_neg hdirective, directives, List.filter_cons_of_neg hdirective]
      exact ih ⟨s.modulePath, (stripComments line s.blockComment).2⟩

/-- A path comes from the only directive. -/
theorem foldlM_addPath_eq_some {found : List (List Str)} {path : Str} :
    found.foldlM addPath none = some (some path)
      ↔ ∃ words, found = [words] ∧ pathOf words = some path := by
  match found with
  | [] => simp
  | [words] =>
    rw [List.foldlM_cons, addPath]
    cases hpath : pathOf words <;> simp [hpath]
  | words :: words' :: others =>
    rw [List.foldlM_cons, addPath]
    cases pathOf words with
    | none => simp
    | some path' =>
      have hfull : addPath (some path') words' = none := by
        rw [addPath]
        cases pathOf words' <;> rfl
      simp [hfull]

theorem parseModulePath_eq_some_iff {bytes path : Str} : parseModulePath bytes = some path
    ↔ utf8Valid bytes = true ∧ (readLines stripComments false (lines bytes)).2 = false
      ∧ ∃ argument, directives (readLines stripComments false (lines bytes)).1
          = [[ascii "module", argument]]
        ∧ unquoteModulePath argument = some path ∧ validModulePath path = true := by
  have hhead : ∀ words, words ∈ directives (readLines stripComments false (lines bytes)).1 →
      words.head? = some (ascii "module") := fun words hwords =>
    of_decide_eq_true (List.mem_filter.mp hwords).2
  rw [parseModulePath]
  by_cases hutf8 : utf8Valid bytes = true
  · rw [if_pos hutf8, foldlM_step, and_iff_right hutf8]
    dsimp only
    rw [Option.bind_map]
    simp only [Function.comp]
    cases hclosed : (readLines stripComments false (lines bytes)).2 with
    | true => simp
    | false =>
      rw [and_iff_right rfl, Option.bind_eq_some_iff]
      constructor
      · rintro ⟨found, hfound, hpath⟩
        obtain rfl : found = some path := hpath
        obtain ⟨words, hwords, hpath⟩ := foldlM_addPath_eq_some.mp hfound
        have hmodule := hhead words (by rw [hwords]; exact List.mem_singleton_self words)
        match words, hmodule with
        | [_, argument], rfl =>
          exact ⟨argument, hwords, Option.filter_eq_some_iff.mp hpath⟩
      · rintro ⟨argument, hwords, hpath⟩
        exact ⟨some path, foldlM_addPath_eq_some.mpr ⟨_, hwords,
          Option.filter_eq_some_iff.mpr hpath⟩, rfl⟩
  · simp [hutf8]

/-! ## Arguments -/

theorem Escapes.unescape_eq {body path : Str} (h : Escapes body path) :
    unescape body = some path := by
  induction h with
  | nil => rfl
  | @plain b s t hquote hslash _ ih =>
    have hbyte : unescape (b :: s) = (unescape s).map (b :: ·) := by
      rw [unescape.eq_def]
      split <;> simp_all
    rw [hbyte, ih]
    rfl
  | escaped hc _ ih =>
    rw [unescape, if_pos hc, ih]
    rfl

theorem escapes_of_unescape {body path : Str} (h : unescape body = some path)
    (hquote : 34 ∉ path) : Escapes body path := by
  induction body using unescape.induct generalizing path with
  | case1 =>
    cases h
    exact .nil
  | case2 => cases h
  | case3 c s hc ih =>
    rw [unescape, if_pos hc] at h
    obtain ⟨rest, hrest, rfl⟩ := Option.map_eq_some_iff.mp h
    exact .escaped hc (ih hrest fun hmem => hquote (List.mem_cons_of_mem _ hmem))
  | case4 c s hc =>
    rw [unescape, if_neg hc] at h
    cases h
  | case5 b s hone htwo ih =>
    have hbyte : unescape (b :: s) = (unescape s).map (b :: ·) := by
      rw [unescape.eq_def]
      split <;> simp_all
    rw [hbyte] at h
    obtain ⟨rest, hrest, rfl⟩ := Option.map_eq_some_iff.mp h
    rw [List.mem_cons, not_or] at hquote
    refine .plain (Ne.symm hquote.1) (fun hslash => ?_) (ih hrest hquote.2)
    cases s with
    | nil => exact hone hslash rfl
    | cons c s => exact htwo c s hslash rfl

theorem graphic_of_validModulePath {path : Str} (h : validModulePath path = true) :
    ∀ b ∈ path, isAsciiGraphic b = true ∧ b ≠ 92 ∧ b ≠ 34 := by
  simp only [validModulePath, Bool.and_eq_true, List.all_eq_true, decide_eq_true_eq] at h
  exact fun b hb => ⟨(h.1.2 b hb).1.1.1, (h.1.2 b hb).1.1.2, (h.1.2 b hb).1.2⟩

theorem between_eq_some_iff {quote : UInt8} {value body : Str} :
    (stripPrefix [quote] value).bind (stripSuffix [quote]) = some body
      ↔ value = quote :: (body ++ [quote]) := by
  rw [Option.bind_eq_some_iff]
  constructor
  · rintro ⟨rest, hrest, hbody⟩
    rw [stripPrefix_eq_some_iff.mp hrest, eq_append_of_stripSuffix hbody]
    rfl
  · rintro rfl
    exact ⟨body ++ [quote], stripPrefix_eq_some_iff.mpr rfl, stripSuffix_append body [quote]⟩

/-- A string is read as such, and so is a text without quotes. -/
theorem Spelled.unquote_eq {argument path : Str} (h : Spelled argument path)
    (hvalid : validModulePath path = true) : unquoteModulePath argument = some path := by
  have hgraphic := graphic_of_validModulePath hvalid
  have hnot : ∀ {quote : UInt8}, quote ∉ argument →
      (stripPrefix [quote] argument).bind (stripSuffix [quote]) = none := by
    intro quote hquote
    refine Option.eq_none_iff_forall_ne_some.mpr fun body hbody => hquote ?_
    rw [between_eq_some_iff.mp hbody]
    exact List.mem_cons_self ..
  rw [unquoteModulePath]
  cases h with
  | bare hdouble hback hopen => rw [hnot hback, hnot hdouble]
  | raw hback =>
    rw [between_eq_some_iff.mpr rfl]
    dsimp only
    refine if_neg ?_
    intro hany
    obtain ⟨b, hb, hbad⟩ := List.any_eq_true.mp hany
    simp only [Bool.or_eq_true, decide_eq_true_eq] at hbad
    obtain (rfl | rfl) | rfl := hbad
    · exact absurd (hgraphic _ hb).1 (by decide)
    · exact absurd (hgraphic _ hb).1 (by decide)
    · exact hback hb
  | @quoted body _ hescapes =>
    have hback : (stripPrefix [96] (34 :: (body ++ [34]))).bind (stripSuffix [96]) = none := by
      refine Option.eq_none_iff_forall_ne_some.mpr fun rest hrest => ?_
      have hhead := (List.cons.inj (between_eq_some_iff.mp hrest)).1
      exact absurd hhead (by decide)
    rw [hback, between_eq_some_iff.mpr rfl]
    exact hescapes.unescape_eq

theorem spelled_or_loose {argument path : Str} (h : unquoteModulePath argument = some path)
    (hvalid : validModulePath path = true) :
    Spelled argument path ∨ path = argument ∧ Loose argument := by
  have hgraphic := graphic_of_validModulePath hvalid
  have hdouble : 34 ∉ path := fun hmem => (hgraphic 34 hmem).2.2 rfl
  rw [unquoteModulePath] at h
  cases hraw : (stripPrefix [96] argument).bind (stripSuffix [96]) with
  | some raw =>
    rw [hraw] at h
    dsimp only at h
    split_ifs at h with hany
    cases h
    rw [between_eq_some_iff.mp hraw]
    refine .inl (.raw fun hmem => hany (List.any_eq_true.mpr ⟨96, hmem, by decide⟩))
  | none =>
    rw [hraw] at h
    dsimp only at h
    cases hquoted : (stripPrefix [34] argument).bind (stripSuffix [34]) with
    | some quoted =>
      rw [hquoted] at h
      rw [between_eq_some_iff.mp hquoted]
      exact .inl (.quoted (escapes_of_unescape h hdouble))
    | none =>
      rw [hquoted] at h
      cases h
      by_cases hloose : argument = ascii "(" ∨ 96 ∈ argument
      · refine .inr ⟨rfl, hvalid, hloose.imp_right fun hmem => ⟨hmem, fun body heq => ?_⟩⟩
        rw [between_eq_some_iff.mpr heq] at hraw
        cases hraw
      · rw [not_or] at hloose
        exact .inl (.bare hdouble hloose.2 hloose.1)

theorem Loose.unquote_eq {argument : Str} (h : Loose argument) :
    unquoteModulePath argument = some argument ∧ ∀ path, ¬ Spelled argument path := by
  obtain ⟨hvalid, hloose⟩ := h
  have hdouble : 34 ∉ argument := fun hmem => (graphic_of_validModulePath hvalid 34 hmem).2.2 rfl
  have hraw : ∀ body, argument ≠ 96 :: (body ++ [96]) := by
    rcases hloose with rfl | ⟨-, hraw⟩
    · exact fun body heq => absurd (List.cons.inj heq).1 (by decide)
    · exact hraw
  constructor
  · have hnone : (stripPrefix [96] argument).bind (stripSuffix [96]) = none :=
      Option.eq_none_iff_forall_ne_some.mpr fun body hbody =>
        hraw body (between_eq_some_iff.mp hbody)
    have hnone' : (stripPrefix [34] argument).bind (stripSuffix [34]) = none := by
      refine Option.eq_none_iff_forall_ne_some.mpr fun body hbody => hdouble ?_
      rw [between_eq_some_iff.mp hbody]
      exact List.mem_cons_self ..
    rw [unquoteModulePath, hnone, hnone']
  · intro path hspelled
    cases hspelled with
    | bare _ hback hopen => exact hloose.elim hopen fun h => hback h.1
    | raw _ => exact hraw path rfl
    | quoted _ => exact hdouble (List.mem_cons_self ..)

/-! ## Files of followed lines -/

/-- What is refused gives the analyzer no path. -/
theorem addPath_eq_none_of_refused {path : Option Str} {words : List Str}
    (hdirective : isDirective words = true) (h : Refused path.isSome words) :
    addPath path words = none := by
  rw [addPath, Option.bind_eq_none_iff]
  intro path' hpath'
  refine if_pos (h.resolve_right fun hargument => ?_)
  have hmodule : words.head? = some (ascii "module") := of_decide_eq_true hdirective
  match words, hmodule, hpath' with
  | [_, argument], rfl, hpath' =>
    obtain ⟨hunquote, hvalid⟩ := Option.filter_eq_some_iff.mp hpath'
    obtain ⟨hspelled, hloose⟩ := hargument argument rfl
    rcases spelled_or_loose hunquote hvalid with h | ⟨-, h⟩
    · rw [hspelled _ h] at hvalid
      cases hvalid
    · exact hloose h

/-- What is not refused is a path for the analyzer. -/
theorem addPath_of_not_refused {path : Option Str} {words : List Str}
    (h : ¬ Refused path.isSome words) : ∃ path', addPath path words = some (some path') := by
  rw [Refused, not_or, Bool.not_eq_true, Option.isSome_eq_false_iff, Option.isNone_iff_eq_none,
    not_forall] at h
  obtain ⟨rfl, argument, h⟩ := h
  rw [Classical.not_imp, Classical.not_and_iff_not_or_not, not_not] at h
  obtain ⟨rfl, hpath⟩ := h
  have hread : ∃ path, unquoteModulePath argument = some path ∧ validModulePath path = true := by
    rcases hpath with hspelled | hloose
    · simp only [not_forall, Bool.not_eq_false] at hspelled
      obtain ⟨path, hspelled, hvalid⟩ := hspelled
      exact ⟨path, hspelled.unquote_eq hvalid, hvalid⟩
    · exact ⟨argument, hloose.unquote_eq.1, hloose.1⟩
  obtain ⟨path, hunquote, hvalid⟩ := hread
  refine ⟨path, ?_⟩
  rw [addPath, pathOf, hunquote, Option.filter_some, if_pos hvalid]
  rfl

/-- The directives that both readings find in followed lines are the same, or the analyzer
    refuses both lists. -/
theorem directives_of_followed {inComment : Bool} {lines : List Str} {path : Option Str}
    (h : FollowedLines path.isSome inComment lines) :
    (directives (readLines stripComments inComment lines).1
        = directives (readLines withoutComments inComment lines).1
      ∧ (readLines stripComments inComment lines).2
        = (readLines withoutComments inComment lines).2)
      ∨ (directives (readLines stripComments inComment lines).1).foldlM addPath path = none
        ∧ (directives (readLines withoutComments inComment lines).1).foldlM addPath path = none := by
  induction lines generalizing inComment path with
  | nil => exact .inl ⟨rfl, rfl⟩
  | cons line lines ih =>
    obtain ⟨hline, hquiet, hdirective⟩ := h
    obtain ⟨hwords, hopen⟩ := (sameDirective_iff line inComment).mpr hline
    have hcons (strip : Str → Bool → Str × Bool) :
        directives (readLines strip inComment (line :: lines)).1
          = directives [splitAsciiWhitespace (strip line inComment).1]
            ++ directives (readLines strip (strip line inComment).2 lines).1 :=
      List.filter_append [splitAsciiWhitespace (strip line inComment).1] _
    rw [hcons, hcons, hwords, hopen]
    rw [readLines, readLines]
    dsimp only at hquiet hdirective ⊢
    rw [hopen]
    cases hmodule : isDirective (splitAsciiWhitespace (withoutComments line inComment).1) with
    | false =>
      rw [directives_singleton, if_neg (by rw [hmodule]; exact Bool.false_ne_true)]
      exact ih (hquiet hmodule)
    | true =>
      rw [directives_singleton, if_pos hmodule, List.singleton_append, List.singleton_append,
        List.foldlM_cons, List.foldlM_cons]
      by_cases hrefused : Refused path.isSome
          (splitAsciiWhitespace (withoutComments line inComment).1)
      · right
        rw [addPath_eq_none_of_refused hmodule hrefused]
        exact ⟨rfl, rfl⟩
      · obtain ⟨path', hpath'⟩ := addPath_of_not_refused hrefused
        rw [hpath']
        have hrest : FollowedLines true (withoutComments line inComment).2 lines :=
          hdirective hmodule hrefused
        rcases @ih _ (some path') hrest with ⟨hsame, hclosed⟩ | hnone
        · exact .inl ⟨by rw [hsame], hclosed⟩
        · exact .inr hnone

/-! ## Which files are read exactly -/

/-- A line is read as one with its comments removed exactly when it is plain, and a line gives
    the same directive exactly when it is followed; and a file whose lines are followed up to
    the first directive that is refused is read exactly unless the argument of its directive
    is loose. -/
theorem parseModulePath_exact_iff (bytes : Str) :
    (∀ line inComment, Agrees line inComment ↔ plainLine line inComment = true)
      ∧ (∀ line inComment, SameDirective line inComment ↔ followedLine line inComment = true)
      ∧ ((utf8Valid bytes = true → FollowedLines false false (lines bytes)) →
        (∀ path, DeclaresModule bytes path → parseModulePath bytes = some path)
          ∧ ((∀ path, parseModulePath bytes = some path → DeclaresModule bytes path)
            ↔ ¬ ∃ argument, utf8Valid bytes = true
              ∧ (readLines withoutComments false (lines bytes)).2 = false
              ∧ directives (readLines withoutComments false (lines bytes)).1
                = [[ascii "module", argument]]
              ∧ Loose argument)) := by
  refine ⟨agrees_iff, sameDirective_iff, fun hfollowed => ?_⟩
  -- a list that the analyzer refuses is no directive with a path, or a loose one
  have hrefused {found : List (List Str)} (h : found.foldlM addPath none = none) (argument path : Str)
      (hfound : found = [[ascii "module", argument]])
      (hunquote : unquoteModulePath argument = some path) (hvalid : validModulePath path = true) :
      False := by
    have hsome := foldlM_addPath_eq_some.mpr
      ⟨_, hfound, Option.filter_eq_some_iff.mpr ⟨hunquote, hvalid⟩⟩
    rw [h] at hsome
    cases hsome
  have hparse (path : Str) : parseModulePath bytes = some path
      ↔ utf8Valid bytes = true ∧ (readLines withoutComments false (lines bytes)).2 = false
        ∧ ∃ argument, directives (readLines withoutComments false (lines bytes)).1
            = [[ascii "module", argument]]
          ∧ unquoteModulePath argument = some path ∧ validModulePath path = true := by
    rw [parseModulePath_eq_some_iff]
    refine and_congr_right fun hutf8 => ?_
    rcases @directives_of_followed false (lines bytes) none (hfollowed hutf8) with
      ⟨hsame, hclosed⟩ | ⟨hstripped, hwithout⟩
    · rw [hsame, hclosed]
    · refine iff_of_false ?_ ?_
      · rintro ⟨-, argument, hfound, hunquote, hvalid⟩
        exact hrefused hstripped argument path hfound hunquote hvalid
      · rintro ⟨-, argument, hfound, hunquote, hvalid⟩
        exact hrefused hwithout argument path hfound hunquote hvalid
  refine ⟨?_, ?_, ?_⟩
  · rintro path ⟨hutf8, hclosed, argument, hdirectives, hspelled, hvalid⟩
    exact (hparse path).mpr
      ⟨hutf8, hclosed, argument, hdirectives, hspelled.unquote_eq hvalid, hvalid⟩
  · rintro hexact ⟨argument, hutf8, hclosed, hdirectives, hloose⟩
    obtain ⟨hunquote, hnot⟩ := hloose.unquote_eq
    obtain ⟨-, -, argument', hdirectives', hspelled, -⟩ := hexact argument
      ((hparse argument).mpr ⟨hutf8, hclosed, argument, hdirectives, hunquote, hloose.1⟩)
    rw [hdirectives] at hdirectives'
    cases hdirectives'
    exact hnot _ hspelled
  · intro hloose path hpath
    obtain ⟨hutf8, hclosed, argument, hdirectives, hunquote, hvalid⟩ := (hparse path).mp hpath
    refine ⟨hutf8, hclosed, argument, hdirectives, ?_, hvalid⟩
    refine (spelled_or_loose hunquote hvalid).resolve_right ?_
    rintro ⟨-, hbad⟩
    exact hloose ⟨argument, hutf8, hclosed, hdirectives, hbad⟩

/-- A list of directives is taken for a path, the text behind a comment that ends on its line
    is passed over, and a comment that stays open behind one that ends is taken for text. -/
theorem parseModulePath_inexact :
    parseModulePath (ascii "module (\n\texample.com/one\n)\n") = some (ascii "(")
      ∧ (∀ path, ¬ DeclaresModule (ascii "module (\n\texample.com/one\n)\n") path)
      ∧ parseModulePath (ascii "/* a */ module one\nmodule two\n") = some (ascii "two")
      ∧ (∀ path, ¬ DeclaresModule (ascii "/* a */ module one\nmodule two\n") path)
      ∧ parseModulePath (ascii "/* a */ /* b\nmodule c\n*/\n") = some (ascii "c")
      ∧ ∀ path, ¬ DeclaresModule (ascii "/* a */ /* b\nmodule c\n*/\n") path := by
  have hread : ∀ {bytes path : Str} {found : List (List Str)}, DeclaresModule bytes path →
      directives (readLines withoutComments false (lines bytes)).1 = found →
      ∃ argument, found = [[ascii "module", argument]] ∧ Spelled argument path := by
    rintro bytes path _ ⟨-, -, argument, hdirectives, hspelled, -⟩ rfl
    exact ⟨argument, hdirectives, hspelled⟩
  refine ⟨by decide +kernel, fun path h => ?_, by decide +kernel, fun path h => ?_,
    by decide +kernel, fun path h => ?_⟩
  · obtain ⟨argument, heq, hspelled⟩ := hread h
      (show _ = [[ascii "module", ascii "("]] by decide +kernel)
    cases heq
    cases hspelled with
    | bare _ _ hopen => exact hopen rfl
  · obtain ⟨argument, heq, -⟩ := hread h
      (show _ = [[ascii "module", ascii "one"], [ascii "module", ascii "two"]] by decide +kernel)
    cases heq
  · obtain ⟨argument, heq, -⟩ := hread h (show _ = [] by decide +kernel)
    cases heq

end Opcore.Resolver.Go
