/-
  Opcore.Protocol.PathText

  The text of a path in JSON.  A UTF-8 path is written as it is, any other with its
  unprintable bytes spelled out; only the second way escapes a backslash, so a path can
  have the text that spells another one.
-/
import Opcore.Library.Framing
import Opcore.Protocol.Wire

namespace Opcore.Asp

open Text

/-! ## Spelled-out bytes -/

abbrev isPrintable (b : UInt8) : Prop := byte ' ' ≤ b ∧ b ≤ byte '~'

/-- A text that spells bytes: printable ASCII as it is, a backslash doubled, any other
    byte as a backslash, an `x` and two hexadecimal digits. -/
inductive Spells : Str → Str → Prop where
  | nil : Spells [] []
  | printable {b : UInt8} {text bytes : Str} (hne : b ≠ byte '\\') (hprintable : isPrintable b)
      (h : Spells text bytes) : Spells (b :: text) (b :: bytes)
  | backslash {text bytes : Str} (h : Spells text bytes) :
      Spells (byte '\\' :: byte '\\' :: text) (byte '\\' :: bytes)
  | hexadecimal {b : UInt8} {text bytes : Str} (hne : b ≠ byte '\\')
      (hprintable : ¬ isPrintable b) (h : Spells text bytes) :
      Spells (byte '\\' :: byte 'x' :: hexDigit (b.toNat / 16) :: hexDigit (b.toNat % 16) :: text)
        (b :: bytes)

section Spells

variable {text bytes bytes' : Str}

/-- A text spells at most one byte string. -/
theorem Spells.unique (h : Spells text bytes) (h' : Spells text bytes') : bytes = bytes' := by
  induction h generalizing bytes' with
  | nil =>
    cases h'
    rfl
  | printable hne _ _ ih =>
    cases h' with
    | printable _ _ hrest => rw [ih hrest]
    | backslash _ => exact absurd rfl hne
    | hexadecimal _ _ _ => exact absurd rfl hne
  | backslash _ ih =>
    cases h' with
    | printable hne _ _ => exact absurd rfl hne
    | backslash hrest => rw [ih hrest]
  | @hexadecimal b _ _ _ _ _ ih =>
    generalize htext : byte '\\' :: byte 'x' :: hexDigit (b.toNat / 16) :: hexDigit (b.toNat % 16)
      :: _ = text at h'
    cases h' with
    | nil => cases htext
    | printable hne _ _ =>
      cases htext
      exact absurd rfl hne
    | backslash _ =>
      injection htext with _ htext
      injection htext with hx _
      exact absurd hx (by decide)
    | @hexadecimal b' _ _ _ _ hrest =>
      injection htext with _ htext
      injection htext with _ htext
      injection htext with hhigh htext
      injection htext with hlow htext
      subst htext
      have hb := b.toNat_lt
      have hb' := b'.toNat_lt
      have hhigh := hexDigit_injective (by omega) (by omega) hhigh
      have hlow := hexDigit_injective (by omega) (by omega) hlow
      have hsame : b = b' := UInt8.toNat_inj.mp (by omega)
      rw [hsame, ih hrest]

/-- The printable form of a path spells its bytes. -/
theorem spells_displayLossless (path : RepoPath) : Spells path.displayLossless path.bytes := by
  unfold RepoPath.displayLossless
  induction path.bytes with
  | nil => exact .nil
  | cons b bytes ih =>
    rw [List.flatMap_cons]
    split_ifs with hslash hprintable
    · subst hslash
      exact .backslash ih
    · exact .printable hslash hprintable ih
    · exact .hexadecimal hslash hprintable ih

theorem Spells.eq_displayLossless {path : RepoPath} (h : Spells text path.bytes) :
    text = path.displayLossless := by
  unfold RepoPath.displayLossless
  generalize path.bytes = bytes at h
  induction h with
  | nil => rfl
  | printable hne hprintable _ ih =>
    rw [List.flatMap_cons, if_neg hne, if_pos hprintable, ← ih]
    rfl
  | backslash _ ih =>
    rw [List.flatMap_cons, if_pos rfl, ← ih]
    rfl
  | hexadecimal hne hprintable _ ih =>
    rw [List.flatMap_cons, if_neg hne, if_neg hprintable, ← ih]
    rfl

/-- A text that spells bytes is ASCII. -/
theorem Spells.utf8Valid (h : Spells text bytes) : utf8Valid text = true := by
  refine utf8Valid_of_ascii ?_
  have hdigit : ∀ n < 16, hexDigit n < 0x80 := by decide
  induction h with
  | nil => exact fun b hb => absurd hb List.not_mem_nil
  | printable _ hprintable _ ih =>
    exact List.forall_mem_cons.mpr ⟨lt_of_le_of_lt hprintable.2 (by decide), ih⟩
  | backslash _ ih =>
    exact List.forall_mem_cons.mpr ⟨by decide, List.forall_mem_cons.mpr ⟨by decide, ih⟩⟩
  | @hexadecimal b _ _ _ _ _ ih =>
    have hb := b.toNat_lt
    refine List.forall_mem_cons.mpr ⟨by decide, List.forall_mem_cons.mpr ⟨by decide, ?_⟩⟩
    exact List.forall_mem_cons.mpr ⟨hdigit _ (by omega),
      List.forall_mem_cons.mpr ⟨hdigit _ (by omega), ih⟩⟩

end Spells

/-! ## Which paths share their text -/

/-- A path whose own text spells another path, one that is not UTF-8. -/
def SpellsPath (path other : RepoPath) : Prop :=
  utf8Valid other.bytes = false ∧ Spells path.bytes other.bytes

section PathText

variable {path other : RepoPath}

theorem pathText_of_utf8 (h : utf8Valid path.bytes = true) : pathText path = path.bytes := by
  rw [pathText, RepoPath.asUtf8, if_pos h]
  rfl

theorem pathText_of_not_utf8 (h : utf8Valid path.bytes = false) :
    pathText path = path.displayLossless := by
  rw [pathText, RepoPath.asUtf8, if_neg (by rw [h]; exact Bool.false_ne_true)]
  rfl

theorem SpellsPath.pathText_eq (h : SpellsPath path other) : pathText path = pathText other := by
  rw [pathText_of_utf8 h.2.utf8Valid, pathText_of_not_utf8 h.1, h.2.eq_displayLossless]

end PathText

/-- Two paths have one text exactly when they are the same, or one of them spells the
    other. -/
theorem pathText_eq_iff (p q : RepoPath) :
    pathText p = pathText q ↔ p = q ∨ SpellsPath p q ∨ SpellsPath q p := by
  constructor
  · intro h
    cases hp : utf8Valid p.bytes with
    | true =>
      cases hq : utf8Valid q.bytes with
      | true =>
        rw [pathText_of_utf8 hp, pathText_of_utf8 hq] at h
        exact .inl (RepoPath.bytes_injective h)
      | false =>
        rw [pathText_of_utf8 hp, pathText_of_not_utf8 hq] at h
        exact .inr (.inl ⟨hq, h ▸ spells_displayLossless q⟩)
    | false =>
      cases hq : utf8Valid q.bytes with
      | true =>
        rw [pathText_of_not_utf8 hp, pathText_of_utf8 hq] at h
        exact .inr (.inr ⟨hp, h ▸ spells_displayLossless p⟩)
      | false =>
        rw [pathText_of_not_utf8 hp, pathText_of_not_utf8 hq] at h
        have hspells := spells_displayLossless p
        rw [h] at hspells
        exact .inl (RepoPath.bytes_injective (hspells.unique (spells_displayLossless q)))
  · rintro (rfl | hspells | hspells)
    · rfl
    · exact hspells.pathText_eq
    · exact hspells.pathText_eq.symm

theorem not_forall_pathText_ne : ¬ ∀ p q : RepoPath, p ≠ q → pathText p ≠ pathText q := by
  intro hall
  refine hall ⟨ascii "a\\xff", by decide⟩ ⟨byte 'a' :: [0xff], by decide⟩ ?_ (by decide)
  intro heq
  cases heq

end Opcore.Asp
