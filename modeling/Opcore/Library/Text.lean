/-
  Opcore.Library.Text

  Text as its UTF-8 bytes.  Every pattern the verified code searches for is
  ASCII, so splitting, stripping and comparing work byte by byte and agree with
  the character-wise operations; `utf8Valid` is the test that separates text
  from arbitrary bytes.  The lexicographic order of byte lists is the order of
  both byte strings and text.
-/
import Mathlib.Data.List.Lex
import Mathlib.Data.List.TakeWhile
import Mathlib.Order.Lex
import Mathlib.Data.Prod.Lex
import Mathlib.Data.UInt

namespace Text

instance instLinearOrderUInt8 : LinearOrder UInt8 where
  le_refl := UInt8.le_refl
  le_trans _ _ _ := UInt8.le_trans
  le_antisymm _ _ := UInt8.le_antisymm
  le_total := UInt8.le_total
  lt_iff_le_not_ge _ _ := by
    rw [UInt8.lt_iff_toNat_lt, UInt8.le_iff_toNat_le, UInt8.le_iff_toNat_le]
    omega
  toDecidableLE := inferInstance

instance instLinearOrderUInt64 : LinearOrder UInt64 where
  le_refl := UInt64.le_refl
  le_trans _ _ _ := UInt64.le_trans
  le_antisymm _ _ := UInt64.le_antisymm
  le_total := UInt64.le_total
  lt_iff_le_not_ge _ _ := by
    rw [UInt64.lt_iff_toNat_lt, UInt64.le_iff_toNat_le, UInt64.le_iff_toNat_le]
    omega
  toDecidableLE := inferInstance

/-- Bytes, or text as its UTF-8 bytes. -/
abbrev Str := List UInt8

instance instLawfulBEqStr : LawfulBEq Str := List.instLawfulBEq

/-- What holds of every byte of a closed text, by running through the text. -/
theorem forall_mem_of_all {p : UInt8 → Prop} [DecidablePred p] {s : Str}
    (h : s.all (fun b => decide (p b)) = true) : ∀ b ∈ s, p b := by
  intro b hb
  exact of_decide_eq_true (List.all_eq_true.mp h b hb)

/-- The bytes of an ASCII literal. -/
def ascii (s : String) : Str := s.toList.map fun c => UInt8.ofNat c.toNat

/-- The byte of an ASCII character. -/
def byte (c : Char) : UInt8 := UInt8.ofNat c.toNat

def stripPrefix (p s : Str) : Option Str :=
  if p.isPrefixOf s then some (s.drop p.length) else none

def stripSuffix (p s : Str) : Option Str :=
  if p.isSuffixOf s then some (s.take (s.length - p.length)) else none

/-- Does `s` contain `p` as a contiguous part? -/
def containsText (p : Str) : Str → Bool
  | [] => p.isEmpty
  | b :: s => p.isPrefixOf (b :: s) || containsText p s

/-- Split at the last occurrence of a byte. -/
def rsplitOnce (c : UInt8) (s : Str) : Option (Str × Str) :=
  match s.reverse.span (· ≠ c) with
  | (suffix, _ :: rest) => some (rest.reverse, suffix.reverse)
  | (_, []) => none

/-- Split at the first occurrence of a byte. -/
def splitOnce (c : UInt8) (s : Str) : Option (Str × Str) :=
  match s.span (· ≠ c) with
  | (before, _ :: rest) => some (before, rest)
  | (_, []) => none

/-- Split at every occurrence of a text, from left to right.  `skip` counts the
    bytes of an occurrence still to pass, `piece` is the current piece reversed. -/
def splitTextFrom (sep : Str) : Nat → Str → Str → List Str
  | _, piece, [] => [piece.reverse]
  | skip + 1, piece, _ :: s => splitTextFrom sep skip piece s
  | 0, piece, b :: s =>
    if sep.isPrefixOf (b :: s) then piece.reverse :: splitTextFrom sep (sep.length - 1) [] s
    else splitTextFrom sep 0 (b :: piece) s

def splitText (sep s : Str) : List Str := splitTextFrom sep 0 [] s

/-- Split at the first occurrence of a text. -/
def splitOnceText (sep : Str) : Str → Option (Str × Str)
  | [] => if sep = [] then some ([], []) else none
  | b :: s =>
    if sep.isPrefixOf (b :: s) then some ([], (b :: s).drop sep.length)
    else (splitOnceText sep s).map fun (before, after) => (b :: before, after)

/-- Join texts with a byte between them. -/
def joinBytes (c : UInt8) (parts : List Str) : Str := List.intercalate [c] parts

def isAsciiGraphic (b : UInt8) : Bool := 33 ≤ b ∧ b ≤ 126

def isAsciiUpper (b : UInt8) : Bool := byte 'A' ≤ b ∧ b ≤ byte 'Z'

def toAsciiLower (b : UInt8) : UInt8 := if isAsciiUpper b then b + 32 else b

def isAsciiAlphabetic (b : UInt8) : Bool :=
  isAsciiUpper b || (byte 'a' ≤ b ∧ b ≤ byte 'z' : Bool)

def isAsciiAlphanumeric (b : UInt8) : Bool :=
  isAsciiAlphabetic b || (byte '0' ≤ b ∧ b ≤ byte '9' : Bool)

/-- `u8::is_ascii_whitespace`: space, tab, line feed, form feed, carriage return. -/
def isAsciiWhitespace (b : UInt8) : Bool := b = 32 || b = 9 || b = 10 || b = 12 || b = 13

def eqIgnoreAsciiCase (s t : Str) : Bool := s.map toAsciiLower = t.map toAsciiLower

/-- Continuation byte of a multi-byte character. -/
def utf8Continues (b : UInt8) : Bool := 0x80 ≤ b ∧ b ≤ 0xBF

/-- Well-formed UTF-8: shortest form, no surrogates, at most U+10FFFF. -/
def utf8Valid : Str → Bool
  | [] => true
  | a :: b :: c :: d :: s =>
    if a < 0x80 then utf8Valid (b :: c :: d :: s)
    else if 0xC2 ≤ a ∧ a ≤ 0xDF then utf8Continues b && utf8Valid (c :: d :: s)
    else if 0xE0 ≤ a ∧ a ≤ 0xEF then
      utf8Continues b && utf8Continues c && (a ≠ 0xE0 || 0xA0 ≤ b) && (a ≠ 0xED || b ≤ 0x9F)
        && utf8Valid (d :: s)
    else
      (0xF0 ≤ a ∧ a ≤ 0xF4 : Bool) && utf8Continues b && utf8Continues c && utf8Continues d
        && (a ≠ 0xF0 || 0x90 ≤ b) && (a ≠ 0xF4 || b ≤ 0x8F) && utf8Valid s
  | [a, b, c] =>
    if a < 0x80 then utf8Valid [b, c]
    else if 0xC2 ≤ a ∧ a ≤ 0xDF then utf8Continues b && utf8Valid [c]
    else
      (0xE0 ≤ a ∧ a ≤ 0xEF : Bool) && utf8Continues b && utf8Continues c
        && (a ≠ 0xE0 || 0xA0 ≤ b) && (a ≠ 0xED || b ≤ 0x9F)
  | [a, b] =>
    if a < 0x80 then utf8Valid [b]
    else (0xC2 ≤ a ∧ a ≤ 0xDF : Bool) && utf8Continues b
  | [a] => a < 0x80

/-- The width of the character a byte string starts with, or where its first
    byte sequence goes wrong: after how many bytes, or at the end of the string. -/
def utf8Step : Str → Except (Option Nat) Nat
  | [] => .error none
  | a :: s =>
    if a < 0x80 then .ok 1
    else if 0xC2 ≤ a ∧ a ≤ 0xDF then
      match s with
      | [] => .error none
      | b :: _ => if utf8Continues b then .ok 2 else .error (some 1)
    else if 0xE0 ≤ a ∧ a ≤ 0xEF then
      match s with
      | [] => .error none
      | b :: s =>
        if utf8Continues b ∧ (a = 0xE0 → 0xA0 ≤ b) ∧ (a = 0xED → b ≤ 0x9F) then
          match s with
          | [] => .error none
          | c :: _ => if utf8Continues c then .ok 3 else .error (some 2)
        else .error (some 1)
    else if 0xF0 ≤ a ∧ a ≤ 0xF4 then
      match s with
      | [] => .error none
      | b :: s =>
        if utf8Continues b ∧ (a = 0xF0 → 0x90 ≤ b) ∧ (a = 0xF4 → b ≤ 0x8F) then
          match s with
          | [] => .error none
          | c :: s =>
            if utf8Continues c then
              match s with
              | [] => .error none
              | d :: _ => if utf8Continues d then .ok 4 else .error (some 3)
            else .error (some 2)
        else .error (some 1)
    else .error (some 1)

/-- `Utf8Error`: how far a byte string is valid, and the length of the sequence
    that is not, unless the string ends inside it. -/
structure Utf8Error where
  validUpTo : Nat
  errorLen : Option Nat
  deriving DecidableEq

/-- The error of a string that is not UTF-8, `offset` bytes into the whole;
    each round passes a character, so one round a byte is enough. -/
def utf8ErrorFrom : Nat → Nat → Str → Utf8Error
  | 0, offset, _ => ⟨offset, none⟩
  | n + 1, offset, s =>
    match utf8Step s with
    | .ok width => utf8ErrorFrom n (offset + width) (s.drop width)
    | .error errorLen => ⟨offset, errorLen⟩

def utf8Error (s : Str) : Utf8Error := utf8ErrorFrom s.length 0 s

/-- The text with U+FFFD in place of each sequence that is not UTF-8; one round a
    byte is enough. -/
def utf8LossyFrom : Nat → Str → Str
  | 0, _ => []
  | n + 1, s =>
    if s = [] then []
    else
      match utf8Step s with
      | .ok width => s.take width ++ utf8LossyFrom n (s.drop width)
      | .error (some width) => [0xEF, 0xBF, 0xBD] ++ utf8LossyFrom n (s.drop width)
      | .error none => [0xEF, 0xBF, 0xBD]

/-- `String::from_utf8_lossy`. -/
def utf8Lossy (s : Str) : Str := utf8LossyFrom s.length s

/-! ## Lines and white space -/

/-- The lines of a text: a line ends at a line feed, together with the carriage
    return before it, and an empty last piece is no line. -/
def lines (s : Str) : List Str :=
  let pieces := s.splitOn 10
  pieces.dropLast.map (fun line => (stripSuffix [13] line).getD line)
    ++ (pieces.getLast?.filter (· ≠ [])).toList

/-- The words between runs of ASCII white space. -/
def splitAsciiWhitespace (s : Str) : List Str :=
  (s.splitOnP isAsciiWhitespace).filter (· ≠ [])

/-- One-byte characters with the Unicode property White_Space. -/
def isWhitespace₁ (a : UInt8) : Bool := a = 32 || (9 ≤ a ∧ a ≤ 13 : Bool)

/-- Two-byte white space: U+0085 and U+00A0. -/
def isWhitespace₂ (a b : UInt8) : Bool := a = 0xC2 && (b = 0x85 || b = 0xA0)

/-- Three-byte white space: U+1680, U+2000 to U+200A, U+2028, U+2029, U+202F,
    U+205F and U+3000. -/
def isWhitespace₃ (a b c : UInt8) : Bool :=
  (a = 0xE1 && b = 0x9A && c = 0x80)
    || (a = 0xE2 && b = 0x80
      && ((0x80 ≤ c ∧ c ≤ 0x8A : Bool) || c = 0xA8 || c = 0xA9 || c = 0xAF))
    || (a = 0xE2 && b = 0x81 && c = 0x9F)
    || (a = 0xE3 && b = 0x80 && c = 0x80)

/-- The number of bytes of the white-space character a text starts with. -/
def leadingWhitespace : Str → Nat
  | [] => 0
  | [a] => if isWhitespace₁ a then 1 else 0
  | [a, b] => if isWhitespace₁ a then 1 else if isWhitespace₂ a b then 2 else 0
  | a :: b :: c :: _ =>
    if isWhitespace₁ a then 1 else if isWhitespace₂ a b then 2
    else if isWhitespace₃ a b c then 3 else 0

/-- The same for the end of a text, which is given reversed. -/
def trailingWhitespace : Str → Nat
  | [] => 0
  | [a] => if isWhitespace₁ a then 1 else 0
  | [a, b] => if isWhitespace₁ a then 1 else if isWhitespace₂ b a then 2 else 0
  | a :: b :: c :: _ =>
    if isWhitespace₁ a then 1 else if isWhitespace₂ b a then 2
    else if isWhitespace₃ c b a then 3 else 0

/-- Drop what `width` measures at the front until it measures nothing.  Each
    round drops a byte, so as many rounds as there are bytes are enough. -/
def dropMeasured (width : Str → Nat) : Nat → Str → Str
  | 0, s => s
  | n + 1, s => if width s = 0 then s else dropMeasured width n (s.drop (width s))

def trimStart (s : Str) : Str := dropMeasured leadingWhitespace s.length s

def trimEnd (s : Str) : Str := (dropMeasured trailingWhitespace s.length s.reverse).reverse

def trim (s : Str) : Str := trimEnd (trimStart s)

/-! ## Numbers as bytes -/

/-- `to_be_bytes` of a 64-bit length. -/
def be64 (n : Nat) : Str :=
  [n / 2 ^ 56, n / 2 ^ 48, n / 2 ^ 40, n / 2 ^ 32, n / 2 ^ 24, n / 2 ^ 16, n / 2 ^ 8, n].map
    UInt8.ofNat

/-- `from_be_bytes` of a 64-bit number. -/
def fromBe64 (s : Str) : Nat := s.foldl (fun n b => n * 256 + b.toNat) 0

theorem fromBe64_be64 {n : Nat} (h : n < 2 ^ 64) : fromBe64 (be64 n) = n := by
  simp only [be64, List.map_cons, List.map_nil, fromBe64, List.foldl_cons, List.foldl_nil,
    UInt8.toNat_ofNat']
  omega

/-- Eight bytes are those of the number they stand for. -/
theorem be64_fromBe64 {s : Str} (h : s.length = 8) : be64 (fromBe64 s) = s := by
  match s, h with
  | [a, b, c, d, e, f, g, i], _ =>
    have ha := a.toNat_lt
    have hb := b.toNat_lt
    have hc := c.toNat_lt
    have hd := d.toNat_lt
    have he := e.toNat_lt
    have hf := f.toNat_lt
    have hg := g.toNat_lt
    have hi := i.toNat_lt
    simp only [fromBe64, List.foldl_cons, List.foldl_nil, be64, List.map_cons, List.map_nil,
      List.cons.injEq, and_true, ← UInt8.toNat_inj, UInt8.toNat_ofNat']
    omega

/-- `to_be_bytes` of a 32-bit number. -/
def be32 (n : Nat) : Str := [n / 2 ^ 24, n / 2 ^ 16, n / 2 ^ 8, n].map UInt8.ofNat

/-- `to_be_bytes` of a 16-bit number. -/
def be16 (n : Nat) : Str := [n / 2 ^ 8, n].map UInt8.ofNat

def hexDigit (n : Nat) : UInt8 := UInt8.ofNat (if n < 10 then 48 + n else 87 + n)

/-- Lower-case hexadecimal text of bytes. -/
def hexEncode (s : Str) : Str :=
  s.flatMap fun b => [hexDigit (b.toNat / 16), hexDigit (b.toNat % 16)]

/-! ## Splitting -/

theorem stripPrefix_eq_some_iff {p s t : Str} : stripPrefix p s = some t ↔ s = p ++ t := by
  unfold stripPrefix
  split_ifs with h
  · obtain ⟨t', rfl⟩ := List.isPrefixOf_iff_prefix.mp h
    simp
  · constructor
    · intro h'
      cases h'
    · rintro rfl
      exact absurd (List.isPrefixOf_iff_prefix.mpr (List.prefix_append p t)) h

theorem stripSuffix_append (s suffix : Str) : stripSuffix suffix (s ++ suffix) = some s := by
  rw [stripSuffix, if_pos (List.isSuffixOf_iff_suffix.mpr (List.suffix_append s suffix))]
  simp

theorem eq_append_of_stripSuffix {suffix s rest : Str} (h : stripSuffix suffix s = some rest) :
    s = rest ++ suffix := by
  unfold stripSuffix at h
  split_ifs at h with hsuffix
  obtain ⟨rest', rfl⟩ := List.isSuffixOf_iff_suffix.mp hsuffix
  simp only [List.length_append, Nat.add_sub_cancel, List.take_left', Option.some.injEq] at h
  rw [← h]

variable {c : UInt8}

/-- The last piece of a text is where the text ends. -/
theorem suffix_of_getLast?_splitOn {s last : Str}
    (h : (s.splitOn c).getLast? = some last) : last <:+ s := by
  have hjoin : ∀ parts : List Str, parts.getLast? = some last → last <:+ List.intercalate [c] parts := by
    intro parts hlast
    induction parts with
    | nil => cases hlast
    | cons part parts ih =>
      cases parts with
      | nil =>
        simp only [List.getLast?_singleton, Option.some.injEq] at hlast
        rw [List.intercalate_singleton, hlast]
      | cons next parts =>
        rw [List.intercalate_cons_cons]
        rw [List.getLast?_cons_cons] at hlast
        exact (ih hlast).trans (List.suffix_append _ _)
  have hsplit := hjoin _ h
  rwa [List.intercalate_splitOn] at hsplit
theorem rsplitOnce_append {a b : Str} (h : c ∉ b) :
    rsplitOnce c (a ++ c :: b) = some (a, b) := by
  have hspan : (a ++ c :: b).reverse.span (· ≠ c) = (b.reverse, c :: a.reverse) := by
    rw [List.span_eq_takeWhile_dropWhile, List.reverse_append, List.reverse_cons,
      List.append_assoc]
    have hall : ∀ x ∈ b.reverse, decide (x ≠ c) = true := by
      intro x hx
      refine decide_eq_true ?_
      rintro rfl
      exact h (List.mem_reverse.mp hx)
    rw [List.takeWhile_append_of_pos hall, List.dropWhile_append_of_pos hall]
    simp
  simp only [rsplitOnce, hspan, List.reverse_reverse]

theorem rsplitOnce_eq_none {s : Str} (h : c ∉ s) : rsplitOnce c s = none := by
  have hspan : s.reverse.span (· ≠ c) = (s.reverse, []) := by
    have hall : ∀ x ∈ s.reverse, decide (x ≠ c) = true := by
      intro x hx
      refine decide_eq_true ?_
      rintro rfl
      exact h (List.mem_reverse.mp hx)
    rw [List.span_eq_takeWhile_dropWhile, List.takeWhile_eq_self_iff.mpr hall,
      List.dropWhile_eq_nil_iff.mpr hall]
  simp only [rsplitOnce, hspan]

theorem rsplitOnce_eq_some_iff {s a b : Str} :
    rsplitOnce c s = some (a, b) ↔ s = a ++ c :: b ∧ c ∉ b := by
  constructor
  · intro h
    by_cases hc : c ∈ s
    · obtain ⟨a', b', rfl, hb⟩ : ∃ a' b', s = a' ++ c :: b' ∧ c ∉ b' := by
        obtain ⟨l, r, hs, hl⟩ := List.eq_append_cons_of_mem (List.mem_reverse.mpr hc)
        refine ⟨r.reverse, l.reverse, ?_, fun hmem => hl (List.mem_reverse.mp hmem)⟩
        rw [← List.reverse_reverse s, hs, List.reverse_append, List.reverse_cons,
          List.append_assoc, List.singleton_append]
      rw [rsplitOnce_append hb] at h
      cases h
      exact ⟨rfl, hb⟩
    · rw [rsplitOnce_eq_none hc] at h
      cases h
  · rintro ⟨rfl, hb⟩
    exact rsplitOnce_append hb
end Text
