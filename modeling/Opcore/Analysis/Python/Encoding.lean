/-
  Opcore.Analysis.Python.Encoding

  The encoding that a Python source declares in a comment on one of its first two lines.
  The declaration is found by a search of the comment for the word, a separator and a
  name; it is compared with the expression of PEP 263, which the search reads more freely.
-/
import Opcore.Library.Leftmost
import Opcore.Library.Words
import Opcore.Analysis.Hygiene

namespace Opcore.Python

open Text

/-! ## Decoding -/

/-- The white space that may stand before a comment. -/
def isIndentation (b : UInt8) : Bool := b = 32 || b = 9 || b = 12

def isNameByte (b : UInt8) : Bool :=
  isAsciiAlphanumeric b || b = byte '-' || b = byte '_' || b = byte '.'

def commentOrBlank (line : Str) : Bool :=
  match line.find? fun b => !isIndentation b with
  | none => true
  | some b => b = byte '#'

/-- One round of the loop over the windows: what a `coding` at the head declares. -/
def cookieAt (comment : Str) : Option Str :=
  match stripPrefix (ascii "coding") (comment.map toAsciiLower) with
  | none => none
  | some lower =>
    match lower.dropWhile isAsciiWhitespace with
    | [] => none
    | separator :: lower =>
      if separator = byte ':' ∨ separator = byte '=' then
        let lower := lower.dropWhile isAsciiWhitespace
        let start := comment.length - lower.length
        let width := (lower.takeWhile isNameByte).length
        if 0 < width then some (utf8Lossy ((comment.drop start).take width)) else none
      else none

def encodingCookie (line : Str) : Option Str :=
  match line.dropWhile isIndentation with
  | [] => none
  | b :: comment => if b ≠ byte '#' then none else List.leftmost cookieAt comment

/-- A line without the carriage return at its end. -/
def withoutReturn (line : Str) : Str := (stripSuffix [13] line).getD line

/-- Of the pieces of `splitn` only the first two are read, which no later line feed changes. -/
def declaredEncoding (bytes : Str) : Option Str :=
  let lines := bytes.splitOn 10
  let first := withoutReturn (lines.head?.getD [])
  match encodingCookie first with
  | some encoding => some encoding
  | none =>
    if ¬ commentOrBlank first then none
    else lines[1]?.bind fun line => encodingCookie (withoutReturn line)

def isUtf8Encoding (encoding : Str) : Bool :=
  ((encoding.filter fun b => !(b = byte '-' || b = byte '_' || b = byte '.')).map toAsciiLower)
    ∈ [ascii "utf", ascii "u8", ascii "utf8", ascii "utf8sig", ascii "cp65001"]

structure DecodedSource where
  text : Str
  byteBase : Nat
  deriving DecidableEq

/-- The error about a declared encoding that is not UTF-8. -/
def unsupportedEncoding (encoding : Str) : AnalysisError :=
  .unsupported (ascii "declared Python source encoding '" ++ encoding
    ++ ascii "' is unsupported; UTF-8 is required")

def decodeSource (bytes : Str) : Except AnalysisError DecodedSource := do
  let (body, byteBase) := match stripPrefix utf8Bom bytes with
    | some body => (body, utf8Bom.length)
    | none => (bytes, 0)
  match declaredEncoding body with
  | some encoding =>
    if isUtf8Encoding encoding then pure () else throw (unsupportedEncoding encoding)
  | none => pure ()
  if utf8Valid body then pure ⟨body, byteBase⟩
  else throw (.unsupported (ascii "Python source is not valid UTF-8"))

/-! ## Declarations -/

/-- What a declaration looks like: how the letters of the word are compared, and which
    bytes may stand on either side of the separator. -/
structure Pattern where
  fold : UInt8 → UInt8
  before : UInt8 → Bool
  after : UInt8 → Bool
  separator_stops : ∀ b, b = byte ':' ∨ b = byte '=' → before b = false
  name_stops : ∀ b, isNameByte b = true → after b = false

namespace Pattern

/-- What stands at the head of a comment declares the name: the word, a separator with
    the bytes the pattern allows around it, and the whole of the name. -/
def Reads (p : Pattern) (comment name : Str) : Prop :=
  ∃ word before separator after rest,
    comment = word ++ (before ++ separator :: (after ++ (name ++ rest)))
      ∧ word.map p.fold = ascii "coding" ∧ (∀ b ∈ before, p.before b = true)
      ∧ (separator = byte ':' ∨ separator = byte '=') ∧ (∀ b ∈ after, p.after b = true)
      ∧ name ≠ [] ∧ (∀ b ∈ name, isNameByte b = true)
      ∧ ∀ b, rest.head? = some b → isNameByte b = false

/-- The line is a comment and the name is that of the first declaration in it. -/
def Matches (p : Pattern) (line name : Str) : Prop :=
  ∃ indentation before tail,
    line = indentation ++ byte '#' :: (before ++ tail)
      ∧ (∀ b ∈ indentation, isIndentation b = true) ∧ p.Reads tail name
      ∧ ∀ before' tail', before ++ tail = before' ++ tail' → before'.length < before.length →
        ∀ name', ¬ p.Reads tail' name'

end Pattern

/-- The lines that `declaredEncoding` reads: what line feeds part, without a carriage
    return at its end. -/
def sourceLines (bytes : Str) : List Str := (bytes.splitOn 10).map withoutReturn

/-- The lines of a source as Python reads them: they end at a line feed, at a carriage
    return or at the two in this order, so that one left inside a line ends it too. -/
def pythonLines (bytes : Str) : List Str := (sourceLines bytes).flatMap (·.splitOn 13)

/-- The line is blank or a comment. -/
def CommentOrBlank (line : Str) : Prop :=
  ∃ indentation rest, line = indentation ++ rest
    ∧ (∀ b ∈ indentation, isIndentation b = true) ∧ (rest = [] ∨ rest.head? = some (byte '#'))

/-- The first of the lines declares the name, or the second one does behind a line that is
    blank or a comment and declares nothing. -/
def Pattern.DeclaresIn (p : Pattern) (lines : List Str) (name : Str) : Prop :=
  (∃ first, lines[0]? = some first ∧ p.Matches first name)
    ∨ ∃ first second, lines[0]? = some first ∧ lines[1]? = some second
      ∧ (∀ name', ¬ p.Matches first name') ∧ CommentOrBlank first ∧ p.Matches second name

/-- The source declares the name, on the lines that Python reads. -/
def Pattern.Declares (p : Pattern) (bytes name : Str) : Prop :=
  p.DeclaresIn (pythonLines bytes) name

/-- No carriage return stands inside the first line, nor inside the second one where the
    first is blank or a comment. -/
structure NoLoneReturn (bytes : Str) : Prop where
  first : ∀ line, (sourceLines bytes)[0]? = some line → 13 ∉ line
  second : ∀ first line, (sourceLines bytes)[0]? = some first → CommentOrBlank first →
    (sourceLines bytes)[1]? = some line → 13 ∉ line

/-! ## The search for a pattern -/

namespace Pattern

def nameAt (p : Pattern) (comment : Str) : Option Str :=
  if (comment.take 6).map p.fold = ascii "coding" then
    match (comment.drop 6).dropWhile p.before with
    | [] => none
    | separator :: rest =>
      if separator = byte ':' ∨ separator = byte '=' then
        let name := (rest.dropWhile p.after).takeWhile isNameByte
        if name = [] then none else some name
      else none
  else none

def find (p : Pattern) (line : Str) : Option Str :=
  match line.dropWhile isIndentation with
  | [] => none
  | b :: comment => if b = byte '#' then List.leftmost p.nameAt comment else none

def declared (p : Pattern) (bytes : Str) : Option Str :=
  match sourceLines bytes with
  | [] => none
  | first :: others =>
    match p.find first with
    | some name => some name
    | none => if commentOrBlank first then others.head?.bind p.find else none

end Pattern

/-- Where the bytes of a class end, none of them follows. -/
theorem head?_dropWhile_eq_false {q : UInt8 → Bool} {s : Str} {b : UInt8}
    (h : (s.dropWhile q).head? = some b) : q b = false := by
  have hnot := List.head?_dropWhile_not q s
  rw [h] at hnot
  simpa using hnot

theorem commentOrBlank_iff {line : Str} : commentOrBlank line = true ↔ CommentOrBlank line := by
  rw [commentOrBlank]
  constructor
  · intro h
    cases hfound : line.find? fun b => !isIndentation b with
    | none =>
      refine ⟨line, [], (List.append_nil line).symm, fun b hb => ?_, .inl rfl⟩
      simpa using List.find?_eq_none.mp hfound b hb
    | some b =>
      rw [hfound] at h
      obtain ⟨-, indentation, rest, hline, hindentation⟩ := List.find?_eq_some_iff_append.mp hfound
      refine ⟨indentation, b :: rest, hline, fun b hb => by simpa using hindentation b hb, .inr ?_⟩
      rw [of_decide_eq_true h, List.head?_cons]
  · rintro ⟨indentation, rest, rfl, hindentation, hrest⟩
    have hskip : ∀ b ∈ indentation, ¬ (!isIndentation b) = true := by
      intro b hb
      simp [hindentation b hb]
    rw [List.find?_append, List.find?_eq_none.mpr hskip, Option.none_or]
    rcases hrest with rfl | hhash
    · rfl
    · obtain ⟨rest, rfl⟩ := List.head?_eq_some_iff.mp hhash
      rw [List.find?_cons_of_pos rfl]
      exact decide_eq_true rfl

namespace Pattern

variable {p : Pattern}

theorem nameAt_eq_some_iff {comment name : Str} :
    p.nameAt comment = some name ↔ p.Reads comment name := by
  constructor
  · intro h
    rw [nameAt] at h
    split_ifs at h with hword
    cases hgap : (comment.drop 6).dropWhile p.before with
    | nil =>
      rw [hgap] at h
      cases h
    | cons separator rest =>
      rw [hgap] at h
      dsimp only at h
      split_ifs at h with hseparator hname
      cases h
      refine ⟨comment.take 6, (comment.drop 6).takeWhile p.before, separator,
        rest.takeWhile p.after, (rest.dropWhile p.after).dropWhile isNameByte, ?_, hword,
        fun b hb => List.mem_takeWhile_imp hb, hseparator, fun b hb => List.mem_takeWhile_imp hb,
        hname, fun b hb => List.mem_takeWhile_imp hb, fun b hb => head?_dropWhile_eq_false hb⟩
      rw [List.takeWhile_append_dropWhile, List.takeWhile_append_dropWhile, ← hgap,
        List.takeWhile_append_dropWhile, List.take_append_drop]
  · rintro ⟨word, before, separator, after, rest, rfl, hword, hbefore, hseparator, hafter, hname,
      hbytes, hrest⟩
    have hlength : word.length = 6 := by
      rw [← List.length_map (f := p.fold), hword]
      rfl
    have htake : (word ++ (before ++ separator :: (after ++ (name ++ rest)))).take 6 = word := by
      rw [← hlength, List.take_left]
    have hdrop : (word ++ (before ++ separator :: (after ++ (name ++ rest)))).drop 6
        = before ++ separator :: (after ++ (name ++ rest)) := by
      rw [← hlength, List.drop_left]
    have hgap := (@span_append _ _ (separator :: (after ++ (name ++ rest))) hbefore (by
      rintro b ⟨⟩
      exact p.separator_stops _ hseparator)).2
    have hspace := (@span_append _ _ (name ++ rest) hafter (by
      intro b hb
      rw [List.head?_append_of_ne_nil _ hname] at hb
      exact p.name_stops b (hbytes b (List.mem_of_head? hb)))).2
    rw [nameAt, htake, hdrop, if_pos hword, hgap]
    dsimp only
    rw [if_pos hseparator, hspace, (span_append hbytes hrest).1, if_neg hname]

theorem nameAt_eq_none_iff {comment : Str} :
    p.nameAt comment = none ↔ ∀ name, ¬ p.Reads comment name := by
  rw [Option.eq_none_iff_forall_ne_some]
  exact forall_congr' fun name => not_congr nameAt_eq_some_iff

theorem find_eq_some_iff {line name : Str} :
    p.find line = some name ↔ p.Matches line name := by
  constructor
  · intro h
    rw [find] at h
    cases hline : line.dropWhile isIndentation with
    | nil =>
      rw [hline] at h
      cases h
    | cons b comment =>
      rw [hline] at h
      dsimp only at h
      split_ifs at h with hhash
      obtain ⟨before, tail, rfl, hread, hearlier⟩ := List.leftmost_eq_some_iff.mp h
      refine ⟨line.takeWhile isIndentation, before, tail, ?_, fun b hb => List.mem_takeWhile_imp hb,
        nameAt_eq_some_iff.mp hread, fun before' tail' heq hlt => ?_⟩
      · rw [← hhash, ← hline, List.takeWhile_append_dropWhile]
      · exact nameAt_eq_none_iff.mp (hearlier before' tail' heq hlt)
  · rintro ⟨indentation, before, tail, rfl, hindentation, hreads, hearlier⟩
    have hline := (@span_append _ _ (byte '#' :: (before ++ tail)) hindentation (by
      rintro b ⟨⟩
      rfl)).2
    rw [find, hline]
    dsimp only
    rw [if_pos rfl, List.leftmost_eq_some_iff]
    refine ⟨before, tail, rfl, nameAt_eq_some_iff.mpr hreads, fun before' tail' heq hlt => ?_⟩
    exact nameAt_eq_none_iff.mpr (hearlier before' tail' heq hlt)

theorem find_eq_none_iff {line : Str} :
    p.find line = none ↔ ∀ name, ¬ p.Matches line name := by
  rw [Option.eq_none_iff_forall_ne_some]
  exact forall_congr' fun name => not_congr find_eq_some_iff

theorem declared_eq_some_iff {bytes name : Str} :
    p.declared bytes = some name ↔ p.DeclaresIn (sourceLines bytes) name := by
  rw [declared, DeclaresIn]
  cases hlines : sourceLines bytes with
  | nil => simp
  | cons first others =>
    rw [List.getElem?_cons_zero, List.getElem?_cons_succ, ← List.head?_eq_getElem?]
    dsimp only
    cases hfirst : p.find first with
    | some name' =>
      have hmatches := find_eq_some_iff.mp hfirst
      dsimp only
      constructor
      · intro h
        cases h
        exact .inl ⟨first, rfl, hmatches⟩
      · rintro (⟨_, ⟨⟩, h⟩ | ⟨_, second, ⟨⟩, -, hnone, -⟩)
        · rw [← hfirst]
          exact find_eq_some_iff.mpr h
        · exact absurd hmatches (hnone name')
    | none =>
      have hnone := find_eq_none_iff.mp hfirst
      dsimp only
      constructor
      · intro h
        split_ifs at h with hblank
        obtain ⟨second, hsecond, hname⟩ := Option.bind_eq_some_iff.mp h
        exact .inr ⟨first, second, rfl, hsecond, hnone, commentOrBlank_iff.mp hblank,
          find_eq_some_iff.mp hname⟩
      · rintro (⟨_, ⟨⟩, h⟩ | ⟨_, second, ⟨⟩, hsecond, -, hblank, hname⟩)
        · exact absurd h (hnone name)
        · rw [if_pos (commentOrBlank_iff.mpr hblank), hsecond]
          exact find_eq_some_iff.mpr hname

end Pattern

/-! ## The lines of Python -/

theorem noLoneReturn_of_lines {bytes : Str} (h : ∀ line ∈ sourceLines bytes, 13 ∉ line) :
    NoLoneReturn bytes :=
  ⟨fun _ hline => h _ (List.mem_of_getElem? hline),
    fun _ _ _ _ hline => h _ (List.mem_of_getElem? hline)⟩

/-- Without a lone return the lines looked at are those of Python. -/
theorem NoLoneReturn.declares_iff {bytes name : Str} (h : NoLoneReturn bytes) (p : Pattern) :
    p.Declares bytes name ↔ p.DeclaresIn (sourceLines bytes) name := by
  rw [Pattern.Declares, pythonLines]
  obtain ⟨hfirst, hsecond⟩ := h
  cases hlines : sourceLines bytes with
  | nil => rfl
  | cons first others =>
    rw [hlines] at hfirst hsecond
    rw [List.flatMap_cons, List.splitOn_eq_singleton (hfirst first rfl), List.singleton_append]
    by_cases hblank : CommentOrBlank first
    · cases others with
      | nil => rfl
      | cons second others =>
        rw [List.flatMap_cons, List.splitOn_eq_singleton (hsecond first second rfl hblank rfl)]
        rfl
    · -- only the first line is looked at
      refine or_congr_right (iff_of_false ?_ ?_) <;>
        · rintro ⟨_, second, ⟨⟩, -, -, hcomment, -⟩
          exact hblank hcomment

/-! ## The search of the source -/

/-- `coding` in any case, with any white space on either side of the separator. -/
def lenient : Pattern where
  fold := toAsciiLower
  before := isAsciiWhitespace
  after := isAsciiWhitespace
  separator_stops := by
    rintro b (rfl | rfl) <;> rfl
  name_stops := by
    have hall : ∀ n < 256, isNameByte (UInt8.ofNat n) = true →
        isAsciiWhitespace (UInt8.ofNat n) = false := by decide +kernel
    intro b hb
    have hbyte := hall b.toNat b.toNat_lt
    rw [UInt8.ofNat_toNat] at hbyte
    exact hbyte hb

theorem lenient_fold : lenient.fold = toAsciiLower := rfl

theorem lenient_before : lenient.before = isAsciiWhitespace := rfl

theorem lenient_after : lenient.after = isAsciiWhitespace := rfl

/-- Of the classes that the search tells apart, none depends on the case. -/
theorem toAsciiLower_spec (b : UInt8) :
    isAsciiWhitespace (toAsciiLower b) = isAsciiWhitespace b
      ∧ isNameByte (toAsciiLower b) = isNameByte b
      ∧ (toAsciiLower b = byte ':' ↔ b = byte ':')
      ∧ (toAsciiLower b = byte '=' ↔ b = byte '=') := by
  have hall : ∀ n < 256, isAsciiWhitespace (toAsciiLower (UInt8.ofNat n))
        = isAsciiWhitespace (UInt8.ofNat n)
      ∧ isNameByte (toAsciiLower (UInt8.ofNat n)) = isNameByte (UInt8.ofNat n)
      ∧ (toAsciiLower (UInt8.ofNat n) = byte ':' ↔ UInt8.ofNat n = byte ':')
      ∧ (toAsciiLower (UInt8.ofNat n) = byte '=' ↔ UInt8.ofNat n = byte '=') := by decide +kernel
  have hbyte := hall b.toNat b.toNat_lt
  rwa [UInt8.ofNat_toNat] at hbyte

theorem dropWhile_whitespace_lower (s : Str) :
    (s.map toAsciiLower).dropWhile isAsciiWhitespace
      = (s.dropWhile isAsciiWhitespace).map toAsciiLower := by
  rw [List.dropWhile_map]
  congr 2
  funext b
  exact (toAsciiLower_spec b).1

theorem takeWhile_name_lower (s : Str) :
    (s.map toAsciiLower).takeWhile isNameByte = (s.takeWhile isNameByte).map toAsciiLower := by
  rw [List.takeWhile_map]
  congr 2
  funext b
  exact (toAsciiLower_spec b).2.1

/-- The name is ASCII text. -/
theorem utf8Lossy_of_name {name : Str} (h : ∀ b ∈ name, isNameByte b = true) :
    utf8Lossy name = name := by
  have hall : ∀ n < 256, isNameByte (UInt8.ofNat n) = true → UInt8.ofNat n < 0x80 := by
    decide +kernel
  refine utf8Lossy_of_ascii fun b hb => ?_
  have hbyte := hall b.toNat b.toNat_lt
  rw [UInt8.ofNat_toNat] at hbyte
  exact hbyte (h b hb)

theorem stripPrefix_coding_lower (comment : Str) :
    stripPrefix (ascii "coding") (comment.map toAsciiLower)
      = if (comment.take 6).map toAsciiLower = ascii "coding"
        then some ((comment.drop 6).map toAsciiLower) else none := by
  split_ifs with hword
  · rw [stripPrefix_eq_some_iff, ← hword, ← List.map_append, List.take_append_drop]
  · rw [Option.eq_none_iff_forall_ne_some]
    intro rest hrest
    refine hword ?_
    rw [List.map_take, stripPrefix_eq_some_iff.mp hrest]
    exact List.take_left' rfl

/-- What the search reads at one place of a comment is what the pattern declares there. -/
theorem cookieAt_eq (comment : Str) : cookieAt comment = lenient.nameAt comment := by
  rw [cookieAt, Pattern.nameAt, stripPrefix_coding_lower, lenient_fold, lenient_before,
    lenient_after]
  by_cases hword : (comment.take 6).map toAsciiLower = ascii "coding"
  · rw [if_pos hword, if_pos hword]
    dsimp only
    rw [dropWhile_whitespace_lower]
    cases hgap : (comment.drop 6).dropWhile isAsciiWhitespace with
    | nil => rfl
    | cons separator rest =>
      obtain ⟨-, -, hcolon, hequals⟩ := toAsciiLower_spec separator
      rw [List.map_cons]
      dsimp only
      simp only [hcolon, hequals]
      rw [dropWhile_whitespace_lower, takeWhile_name_lower, List.length_map,
        List.length_map]
      -- the text is taken from the comment, where its case has been kept
      have hsuffix : rest.dropWhile isAsciiWhitespace <:+ comment :=
        (List.dropWhile_suffix _).trans <| (List.suffix_cons separator rest).trans <|
          hgap ▸ (List.dropWhile_suffix _).trans (List.drop_suffix 6 comment)
      rw [← List.suffix_iff_eq_drop.mp hsuffix, 
        ← List.prefix_iff_eq_take.mp (List.takeWhile_prefix isNameByte),
        utf8Lossy_of_name fun b hb => List.mem_takeWhile_imp hb]
      split_ifs with _ hpos hnil hnil
      · rw [hnil] at hpos
        cases hpos
      · rfl
      · rfl
      · exact absurd (List.length_pos_of_ne_nil hnil) hpos
      · rfl
  · rw [if_neg hword, if_neg hword]

theorem encodingCookie_eq (line : Str) : encodingCookie line = lenient.find line := by
  rw [encodingCookie, Pattern.find, show cookieAt = lenient.nameAt from funext cookieAt_eq]
  cases line.dropWhile isIndentation with
  | nil => rfl
  | cons b comment =>
    dsimp only
    rw [ite_not]

theorem declaredEncoding_eq (bytes : Str) : declaredEncoding bytes = lenient.declared bytes := by
  rw [declaredEncoding, Pattern.declared, sourceLines]
  simp only [encodingCookie_eq]
  cases hlines : bytes.splitOn 10 with
  | nil => exact absurd hlines (List.splitOn_ne_nil 10 bytes)
  | cons first others =>
    rw [List.head?_cons, Option.getD_some, List.map_cons, List.getElem?_cons_succ]
    dsimp only
    rw [List.head?_map, List.head?_eq_getElem?]
    cases hfirst : lenient.find (withoutReturn first) with
    | some name => rfl
    | none =>
      dsimp only
      rw [ite_not, Option.bind_map]
      rfl

/-! ## What is decoded -/

/-- The source behind a byte-order mark. -/
def sourceBody (bytes : Str) : Str := (sourceWithoutUtf8Bom bytes).1

theorem decodeSource_eq (bytes : Str) : decodeSource bytes
    = match (declaredEncoding (sourceBody bytes)).filter fun name => !isUtf8Encoding name with
      | some name => .error (unsupportedEncoding name)
      | none =>
        if utf8Valid (sourceBody bytes) then
          .ok ⟨sourceBody bytes, (sourceWithoutUtf8Bom bytes).2⟩
        else .error (.unsupported (ascii "Python source is not valid UTF-8")) := by
  rw [decodeSource, sourceBody, sourceWithoutUtf8Bom]
  cases stripPrefix utf8Bom bytes with
  | none =>
    dsimp only
    cases declaredEncoding bytes with
    | none => rfl
    | some name =>
      rw [Option.filter_some]
      cases hutf8 : isUtf8Encoding name <;> simp only [hutf8] <;> rfl
  | some body =>
    dsimp only
    cases declaredEncoding body with
    | none => rfl
    | some name =>
      rw [Option.filter_some]
      cases hutf8 : isUtf8Encoding name <;> simp only [hutf8] <;> rfl

/-- The error names the encoding. -/
theorem unsupportedEncoding_injective {name name' : Str}
    (h : unsupportedEncoding name = unsupportedEncoding name') : name = name' := by
  rw [unsupportedEncoding, unsupportedEncoding, AnalysisError.unsupported.injEq] at h
  exact List.append_cancel_left (List.append_cancel_right h)

theorem unsupportedEncoding_ne (name : Str) :
    AnalysisError.unsupported (ascii "Python source is not valid UTF-8")
      ≠ unsupportedEncoding name := by
  intro h
  rw [unsupportedEncoding, AnalysisError.unsupported.injEq, List.append_assoc] at h
  have hhead := congrArg List.head? h
  rw [List.head?_append_of_ne_nil _ (by decide)] at hhead
  revert hhead
  decide

theorem decodeSource_eq_error_iff {bytes name : Str} :
    decodeSource bytes = .error (unsupportedEncoding name)
      ↔ declaredEncoding (sourceBody bytes) = some name ∧ isUtf8Encoding name = false := by
  have htext : (if utf8Valid (sourceBody bytes) = true
        then Except.ok ⟨sourceBody bytes, (sourceWithoutUtf8Bom bytes).2⟩
        else .error (.unsupported (ascii "Python source is not valid UTF-8")))
      ≠ (.error (unsupportedEncoding name) : Except AnalysisError DecodedSource) := by
    split_ifs
    · rintro ⟨⟩
    · exact fun h => unsupportedEncoding_ne name (Except.error.inj h)
  rw [decodeSource_eq]
  cases declaredEncoding (sourceBody bytes) with
  | none => exact ⟨fun h => absurd h htext, fun h => by cases h.1⟩
  | some name' =>
    rw [Option.filter_some]
    cases hutf8 : isUtf8Encoding name' with
    | true =>
      refine ⟨fun h => absurd h htext, ?_⟩
      rintro ⟨⟨⟩, hnot⟩
      rw [hutf8] at hnot
      cases hnot
    | false =>
      constructor
      · intro h
        obtain rfl := unsupportedEncoding_injective (Except.error.inj h)
        exact ⟨rfl, hutf8⟩
      · rintro ⟨⟨⟩, -⟩
        rfl

theorem decodeSource_eq_ok_iff {bytes : Str} {source : DecodedSource} :
    decodeSource bytes = .ok source
      ↔ (∀ name, declaredEncoding (sourceBody bytes) = some name → isUtf8Encoding name = true)
        ∧ utf8Valid (sourceBody bytes) = true
        ∧ source = ⟨sourceBody bytes, (sourceWithoutUtf8Bom bytes).2⟩ := by
  have htext : (if utf8Valid (sourceBody bytes) = true
        then Except.ok ⟨sourceBody bytes, (sourceWithoutUtf8Bom bytes).2⟩
        else .error (.unsupported (ascii "Python source is not valid UTF-8")))
      = (.ok source : Except AnalysisError DecodedSource)
        ↔ utf8Valid (sourceBody bytes) = true
          ∧ source = ⟨sourceBody bytes, (sourceWithoutUtf8Bom bytes).2⟩ := by
    split_ifs with hvalid
    · rw [Except.ok.injEq, and_iff_right hvalid, eq_comm]
    · exact ⟨fun h => (by cases h), fun h => absurd h.1 hvalid⟩
  rw [decodeSource_eq]
  cases declaredEncoding (sourceBody bytes) with
  | none => exact htext.trans (by simp)
  | some name =>
    rw [Option.filter_some]
    cases hutf8 : isUtf8Encoding name with
    | true => exact htext.trans (by simp [hutf8])
    | false =>
      refine ⟨fun h => (by cases h), fun h => ?_⟩
      rw [h.1 name rfl] at hutf8
      cases hutf8

/-! ## PEP 263 -/

/-- The expression of PEP 263. -/
def pep263 : Pattern where
  fold := id
  before := fun _ => false
  after := fun b => b = 32 || b = 9
  separator_stops := fun _ _ => rfl
  name_stops := by
    intro b hb
    have hstop := lenient.name_stops b hb
    rw [lenient_after, isAsciiWhitespace] at hstop
    simp_all

theorem reads_lenient_of_pep263 {comment name : Str} (h : pep263.Reads comment name) :
    lenient.Reads comment name := by
  obtain ⟨word, before, separator, after, rest, hcomment, hword, hbefore, hseparator, hafter,
    hname⟩ := h
  have hcoding : word = ascii "coding" := by rw [← hword]; exact (List.map_id word).symm
  refine ⟨word, before, separator, after, rest, hcomment, ?_, ?_, hseparator, ?_, hname⟩
  · rw [hcoding]
    decide
  · intro b hb
    cases hbefore b hb
  · intro b hb
    have hspace := hafter b hb
    change (b = 32 || b = 9) = true at hspace
    rw [lenient_after, isAsciiWhitespace, hspace]
    rfl

namespace Pattern

/-- A pattern that reads no more than another one finds nothing where that one does not. -/
theorem find_eq_none {p q : Pattern} (hreads : ∀ comment name, q.Reads comment name →
    p.Reads comment name) {line : Str} (h : p.find line = none) : q.find line = none := by
  rw [find] at h ⊢
  cases hline : line.dropWhile isIndentation with
  | nil => rfl
  | cons b comment =>
    rw [hline] at h
    dsimp only at h ⊢
    split_ifs at h ⊢
    · refine List.leftmost_eq_none_of_imp ?_ h
      intro s hnone
      rw [nameAt_eq_none_iff] at hnone ⊢
      exact fun name hq => hnone name (hreads s name hq)
    · rfl

theorem declared_eq_none {p q : Pattern} (hreads : ∀ comment name, q.Reads comment name →
    p.Reads comment name) {bytes : Str} (h : p.declared bytes = none) :
    q.declared bytes = none := by
  rw [declared] at h ⊢
  cases hlines : sourceLines bytes with
  | nil => rfl
  | cons first others =>
    rw [hlines] at h
    dsimp only at h ⊢
    cases hfirst : p.find first with
    | some name =>
      rw [hfirst] at h
      cases h
    | none =>
      rw [hfirst] at h
      rw [find_eq_none hreads hfirst]
      dsimp only at h ⊢
      split_ifs at h ⊢
      · cases others with
        | nil => rfl
        | cons second others => exact find_eq_none hreads h
      · rfl

end Pattern

/-! ## The declaration that is read -/

/-- Of a source without a lone carriage return on the lines looked at, what is read as a
    declaration is the first one of the lenient pattern, the source is rejected exactly for
    one that does not name UTF-8, and no source that has a declaration of PEP 263 is taken
    for one without. -/
theorem declaredEncoding_lenient :
    (∀ bytes, NoLoneReturn bytes →
      (∀ name, declaredEncoding bytes = some name ↔ lenient.Declares bytes name)
        ∧ ∀ name, pep263.Declares bytes name → ∃ name', declaredEncoding bytes = some name')
      ∧ ∀ bytes, NoLoneReturn (sourceBody bytes) →
        (∀ name, decodeSource bytes = .error (unsupportedEncoding name)
          ↔ lenient.Declares (sourceBody bytes) name ∧ isUtf8Encoding name = false)
        ∧ ∀ source, decodeSource bytes = .ok source
          ↔ (∀ name, lenient.Declares (sourceBody bytes) name → isUtf8Encoding name = true)
            ∧ utf8Valid (sourceBody bytes) = true
            ∧ source = ⟨sourceBody bytes, (sourceWithoutUtf8Bom bytes).2⟩ := by
  have hdeclared {bytes : Str} (h : NoLoneReturn bytes) (name : Str) :
      declaredEncoding bytes = some name ↔ lenient.Declares bytes name := by
    rw [declaredEncoding_eq, Pattern.declared_eq_some_iff, h.declares_iff]
  refine ⟨fun bytes h => ⟨hdeclared h, ?_⟩, fun bytes h => ⟨?_, ?_⟩⟩
  · intro name hdeclares
    refine Option.ne_none_iff_exists'.mp fun hnone => ?_
    rw [declaredEncoding_eq] at hnone
    have hpep := Pattern.declared_eq_none (fun _ _ => reads_lenient_of_pep263)
      hnone
    rw [Pattern.declared_eq_some_iff.mpr ((h.declares_iff pep263).mp hdeclares)] at hpep
    cases hpep
  · intro name
    rw [decodeSource_eq_error_iff, hdeclared h]
  · intro source
    simp only [← hdeclared h]
    exact decodeSource_eq_ok_iff

/-- A source in two lines, with the declaration of another encoding on the second. -/
theorem declaredEncoding_lenient_second :
    lenient.Declares (ascii "#!/usr/bin/python\r\n# coding: latin-1") (ascii "latin-1") :=
  ((declaredEncoding_lenient.1 _ (noLoneReturn_of_lines (by decide +kernel))).1 _).mp
    (by decide +kernel)

/-- A comment with a capital letter is no declaration of PEP 263 and is read as one, which may
    hide the declaration behind it. -/
theorem declaredEncoding_not_pep263 :
    declaredEncoding (ascii "# Coding: latin-1") = some (ascii "latin-1")
      ∧ (∀ name, ¬ pep263.Declares (ascii "# Coding: latin-1") name)
      ∧ decodeSource (ascii "# Coding: latin-1") = .error (unsupportedEncoding (ascii "latin-1"))
      ∧ pep263.Declares (ascii "# Coding: utf-8 coding: latin-1") (ascii "latin-1")
      ∧ decodeSource (ascii "# Coding: utf-8 coding: latin-1")
        = .ok ⟨ascii "# Coding: utf-8 coding: latin-1", 0⟩ := by
  have hlone (bytes : Str) (h : ∀ line ∈ sourceLines bytes, 13 ∉ line) (name : Str) :
      pep263.Declares bytes name ↔ pep263.declared bytes = some name := by
    rw [(noLoneReturn_of_lines h).declares_iff, Pattern.declared_eq_some_iff]
  refine ⟨by decide +kernel, ?_, by decide +kernel, ?_, by decide +kernel⟩
  · intro name hdeclares
    rw [hlone _ (by decide +kernel),
      show pep263.declared (ascii "# Coding: latin-1") = none by decide +kernel] at hdeclares
    cases hdeclares
  · exact (hlone _ (by decide +kernel) _).mpr (by decide +kernel)

end Opcore.Python
