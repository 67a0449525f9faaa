/-
  Opcore.Library.Utf8

  UTF-8 texts as sequences of characters: a text is empty or starts with the bytes of
  one character, and what follows is a text again.
-/
import Opcore.Library.Text

namespace Text

/-- The bytes of one character. -/
inductive Utf8Char : Str → Prop
  | one {a : UInt8} : a < 0x80 → Utf8Char [a]
  | two {a b : UInt8} : 0xC2 ≤ a → a ≤ 0xDF → utf8Continues b = true → Utf8Char [a, b]
  | three {a b c : UInt8} : 0xE0 ≤ a → a ≤ 0xEF → utf8Continues b = true →
      utf8Continues c = true → a ≠ 0xE0 ∨ 0xA0 ≤ b → a ≠ 0xED ∨ b ≤ 0x9F → Utf8Char [a, b, c]
  | four {a b c d : UInt8} : 0xF0 ≤ a → a ≤ 0xF4 → utf8Continues b = true →
      utf8Continues c = true → utf8Continues d = true →
      a ≠ 0xF0 ∨ 0x90 ≤ b → a ≠ 0xF4 ∨ b ≤ 0x8F →
      Utf8Char [a, b, c, d]

theorem not_lt_of_lead {a low : UInt8} (hlow : 0x80 ≤ low) (h : low ≤ a) : ¬ a < 0x80 :=
  not_lt.mpr (hlow.trans h)

theorem not_two_of_lead {a low : UInt8} (hlow : 0xE0 ≤ low) (h : low ≤ a) :
    ¬ (0xC2 ≤ a ∧ a ≤ 0xDF) := by
  rintro ⟨-, hle⟩
  have hlt : (0xDF : UInt8) < 0xE0 := by decide
  exact absurd (hlow.trans h) (not_le.mpr (hle.trans_lt hlt))

/-- A character before a text is a text exactly when the text is one. -/
theorem utf8Valid_char_append {c : Str} (hc : Utf8Char c) (s : Str) :
    utf8Valid (c ++ s) = utf8Valid s := by
  cases hc with
  | one ha =>
    match s with
    | [] => simp [utf8Valid, ha]
    | [_] | [_, _] => simp [utf8Valid, ha]
    | _ :: _ :: _ :: _ => simp [utf8Valid, ha]
  | @two a b hlow hhigh hb =>
    have ha : ¬ a < 0x80 := not_lt_of_lead (by decide) hlow
    match s with
    | [] => simp [utf8Valid, ha, hlow, hhigh, hb]
    | [_] => simp [utf8Valid, ha, hlow, hhigh, hb]
    | _ :: _ :: _ => simp [utf8Valid, ha, hlow, hhigh, hb]
  | @three a b c hlow hhigh hb hc hshort hsurrogate =>
    have ha : ¬ a < 0x80 := not_lt_of_lead (by decide) hlow
    have htwo : ¬ (0xC2 ≤ a ∧ a ≤ 0xDF) := not_two_of_lead (le_refl _) hlow
    match s with
    | [] => simp [utf8Valid, ha, htwo, hlow, hhigh, hb, hc, hshort, hsurrogate]
    | _ :: _ => simp [utf8Valid, ha, htwo, hlow, hhigh, hb, hc, hshort, hsurrogate]
  | @four a b c d hlow hhigh hb hc hd hshort hlast =>
    have ha : ¬ a < 0x80 := not_lt_of_lead (by decide) hlow
    have htwo : ¬ (0xC2 ≤ a ∧ a ≤ 0xDF) := not_two_of_lead (by decide) hlow
    have hthree : ¬ (0xE0 ≤ a ∧ a ≤ 0xEF) := by
      rintro ⟨-, hle⟩
      exact absurd hlow (not_le.mpr (hle.trans_lt (by decide)))
    simp [utf8Valid, ha, htwo, hthree, hlow, hhigh, hb, hc, hd, hshort, hlast]

/-- A text that is not empty starts with a character. -/
theorem exists_utf8Char {s : Str} (h : utf8Valid s = true) (hne : s ≠ []) :
    ∃ c rest, s = c ++ rest ∧ Utf8Char c ∧ utf8Valid rest = true := by
  match s with
  | [] => exact absurd rfl hne
  | [a] => exact ⟨[a], [], rfl, .one (by simpa [utf8Valid] using h), rfl⟩
  | [a, b] =>
    rw [utf8Valid] at h
    split_ifs at h with ha
    · exact ⟨[a], [b], rfl, .one ha, h⟩
    · simp only [Bool.and_eq_true, decide_eq_true_eq] at h
      exact ⟨[a, b], [], rfl, .two h.1.1 h.1.2 h.2, rfl⟩
  | [a, b, c] =>
    rw [utf8Valid] at h
    split_ifs at h with ha htwo
    · exact ⟨[a], [b, c], rfl, .one ha, h⟩
    · rw [Bool.and_eq_true] at h
      exact ⟨[a, b], [c], rfl, .two htwo.1 htwo.2 h.1, h.2⟩
    · simp only [Bool.and_eq_true, Bool.or_eq_true, decide_eq_true_eq] at h
      obtain ⟨⟨⟨⟨⟨hlow, hhigh⟩, hb⟩, hc⟩, hshort⟩, hsurrogate⟩ := h
      exact ⟨[a, b, c], [], rfl, .three hlow hhigh hb hc hshort hsurrogate, rfl⟩
  | a :: b :: c :: d :: s =>
    rw [utf8Valid] at h
    split_ifs at h with ha htwo hthree
    · exact ⟨[a], b :: c :: d :: s, rfl, .one ha, h⟩
    · rw [Bool.and_eq_true] at h
      exact ⟨[a, b], c :: d :: s, rfl, .two htwo.1 htwo.2 h.1, h.2⟩
    · simp only [Bool.and_eq_true, Bool.or_eq_true, decide_eq_true_eq] at h
      obtain ⟨⟨⟨⟨hb, hc⟩, hshort⟩, hsurrogate⟩, hrest⟩ := h
      exact ⟨[a, b, c], d :: s, rfl,
        .three hthree.1 hthree.2 hb hc hshort hsurrogate, hrest⟩
    · simp only [Bool.and_eq_true, Bool.or_eq_true, decide_eq_true_eq] at h
      obtain ⟨⟨⟨⟨⟨⟨⟨hlow, hhigh⟩, hb⟩, hc⟩, hd⟩, hshort⟩, hlast⟩, hrest⟩ := h
      exact ⟨[a, b, c, d], s, rfl, .four hlow hhigh hb hc hd hshort hlast, hrest⟩

theorem Utf8Char.length_pos {c : Str} (h : Utf8Char c) : 0 < c.length := by
  cases h <;> exact Nat.succ_pos _

/-- Two texts, one after the other, are a text. -/
theorem utf8Valid_append {s t : Str} (hs : utf8Valid s = true) (ht : utf8Valid t = true) :
    utf8Valid (s ++ t) = true := by
  induction hn : s.length using Nat.strong_induction_on generalizing s with
  | _ n ih =>
    by_cases hnil : s = []
    · rw [hnil]
      exact ht
    · obtain ⟨c, rest, rfl, hc, hrest⟩ := exists_utf8Char hs hnil
      have hless : rest.length < n := by
        rw [← hn, List.length_append]
        exact Nat.lt_add_of_pos_left hc.length_pos
      rw [List.append_assoc, utf8Valid_char_append hc]
      exact ih _ hless hrest rfl

theorem utf8Valid_of_ascii {s : Str} (h : ∀ b ∈ s, b < 0x80) : utf8Valid s = true := by
  induction s with
  | nil => rfl
  | cons b s ih =>
    obtain ⟨hb, hs⟩ := List.forall_mem_cons.mp h
    exact utf8Valid_append (show utf8Valid [b] = true from decide_eq_true hb) (ih hs)

theorem utf8Lossy_of_ascii {s : Str} (h : ∀ b ∈ s, b < 0x80) : utf8Lossy s = s := by
  rw [utf8Lossy]
  induction s with
  | nil => rfl
  | cons b s ih =>
    obtain ⟨hb, hs⟩ := List.forall_mem_cons.mp h
    have hstep : utf8Step (b :: s) = .ok 1 := if_pos hb
    rw [List.length_cons, utf8LossyFrom, if_neg (List.cons_ne_nil b s), hstep]
    dsimp only
    rw [List.take_succ_cons, List.take_zero, List.drop_succ_cons, List.drop_zero, ih hs,
      List.singleton_append]

end Text
