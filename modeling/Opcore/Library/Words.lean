/-
  Opcore.Library.Words

  Texts cut at white space and at the first occurrence of another text.  A line is
  empty, a word, or two lines with white space between them.
-/
import Opcore.Library.Utf8

namespace Text

/-! ## Words -/

variable {s t word : Str} {w : UInt8}

/-- White space ends a word. -/
theorem splitAsciiWhitespace_append (s t : Str) (hw : isAsciiWhitespace w = true) :
    splitAsciiWhitespace (s ++ w :: t) = splitAsciiWhitespace s ++ splitAsciiWhitespace t := by
  rw [splitAsciiWhitespace, List.splitOnP_append_cons s t hw, List.filter_append]
  rfl

theorem splitAsciiWhitespace_of_notMem (h : ∀ b ∈ s, isAsciiWhitespace b = false) (hne : s ≠ []) :
    splitAsciiWhitespace s = [s] := by
  rw [splitAsciiWhitespace, List.splitOnP_eq_singleton h]
  exact List.filter_cons_of_pos (decide_eq_true hne)

/-- A line is empty, a word, or two lines with white space between them. -/
theorem words_induction {motive : Str → Prop} (nil : motive [])
    (word : ∀ s, s ≠ [] → (∀ b ∈ s, isAsciiWhitespace b = false) → motive s)
    (split : ∀ s w t, isAsciiWhitespace w = true → motive s → motive t → motive (s ++ w :: t))
    (s : Str) : motive s := by
  induction hn : s.length using Nat.strong_induction_on generalizing s with
  | _ n ih =>
    by_cases hwhite : ∃ b ∈ s, isAsciiWhitespace b = true
    · obtain ⟨w, hmem, hw⟩ := hwhite
      obtain ⟨front, back, rfl⟩ := List.append_of_mem hmem
      rw [List.length_append, List.length_cons] at hn
      apply split front w back hw
      · exact ih front.length (by omega) front rfl
      · exact ih back.length (by omega) back rfl
    · push Not at hwhite
      by_cases hnil : s = []
      · rw [hnil]
        exact nil
      · exact word s hnil fun b hb => Bool.not_eq_true _ ▸ hwhite b hb

/-- A word is not empty and has no white space in it. -/
theorem of_mem_words (h : word ∈ splitAsciiWhitespace s) :
    word ≠ [] ∧ ∀ b ∈ word, isAsciiWhitespace b = false := by
  induction s using words_induction with
  | nil => cases h
  | word s hne hfree =>
    rw [splitAsciiWhitespace_of_notMem hfree hne] at h
    obtain rfl := List.mem_singleton.mp h
    exact ⟨hne, hfree⟩
  | split s w t hw ihs iht =>
    rw [splitAsciiWhitespace_append s t hw] at h
    exact (List.mem_append.mp h).elim ihs iht

/-- A line whose words are texts is a text: what stands between them is ASCII. -/
theorem utf8Valid_of_words (h : ∀ word ∈ splitAsciiWhitespace s, utf8Valid word = true) :
    utf8Valid s = true := by
  induction s using words_induction with
  | nil => rfl
  | word s hne hfree =>
    apply h s
    rw [splitAsciiWhitespace_of_notMem hfree hne]
    exact List.mem_singleton_self s
  | split s w t hw ihs iht =>
    rw [splitAsciiWhitespace_append s t hw] at h
    have hsingle : utf8Valid [w] = true := by
      simp only [isAsciiWhitespace, Bool.or_eq_true, decide_eq_true_eq] at hw
      obtain (((rfl | rfl) | rfl) | rfl) | rfl := hw <;> rfl
    have hs := ihs fun word hword => h word (List.mem_append_left _ hword)
    have ht := iht fun word hword => h word (List.mem_append_right _ hword)
    exact utf8Valid_append hs (utf8Valid_append hsingle ht)

/-- White space at the end of a line adds no word. -/
theorem splitAsciiWhitespace_append_blank (s : Str) {blank : Str}
    (h : ∀ b ∈ blank, isAsciiWhitespace b = true) :
    splitAsciiWhitespace (s ++ blank) = splitAsciiWhitespace s := by
  induction blank generalizing s with
  | nil => rw [List.append_nil]
  | cons b blank ih =>
    obtain ⟨hb, hblank⟩ := List.forall_mem_cons.mp h
    have hempty := ih [] hblank
    rw [List.nil_append] at hempty
    rw [splitAsciiWhitespace_append s blank hb, hempty]
    exact List.append_nil _

/-- The words are the line without its white space. -/
theorem flatten_splitAsciiWhitespace (s : Str) :
    (splitAsciiWhitespace s).flatten = s.filter fun b => !isAsciiWhitespace b := by
  induction s using words_induction with
  | nil => rfl
  | word s hne hfree =>
    rw [splitAsciiWhitespace_of_notMem hfree hne, List.flatten_singleton]
    refine (List.filter_eq_self.mpr fun b hb => ?_).symm
    rw [hfree b hb]
    rfl
  | split s w t hw ihs iht =>
    rw [splitAsciiWhitespace_append s t hw, List.flatten_append, ihs, iht, List.filter_append,
      List.filter_cons_of_neg (by rw [hw]; decide)]

/-! ## First occurrences -/

/-- What stands before the first occurrence of a text, and what stands behind it. -/
theorem splitOnceText_eq_some {sep before after : Str}
    (h : splitOnceText sep s = some (before, after)) :
    s = before ++ (sep ++ after)
      ∧ ∀ a b, before = a ++ b → b ≠ [] → ¬ sep <+: b ++ (sep ++ after) := by
  induction s generalizing before with
  | nil =>
    rw [splitOnceText] at h
    split_ifs at h with hnil
    cases h
    refine ⟨by rw [hnil]; rfl, fun a b heq hne => ?_⟩
    exact absurd (List.append_eq_nil_iff.mp heq.symm).2 hne
  | cons c s ih =>
    rw [splitOnceText] at h
    split_ifs at h with hhere
    · cases h
      have hcut := List.prefix_append_drop (List.isPrefixOf_iff_prefix.mp hhere)
      refine ⟨hcut, fun a b heq hne => ?_⟩
      exact absurd (List.append_eq_nil_iff.mp heq.symm).2 hne
    · obtain ⟨⟨before', after'⟩, hrest, heq⟩ := Option.map_eq_some_iff.mp h
      cases heq
      obtain ⟨hs, hfirst⟩ := ih hrest
      refine ⟨by rw [hs]; rfl, fun a b heq hne => ?_⟩
      cases a with
      | nil =>
        rw [List.nil_append] at heq
        rw [← heq, List.cons_append, ← hs]
        exact fun hprefix => hhere (List.isPrefixOf_iff_prefix.mpr hprefix)
      | cons a' a =>
        rw [List.cons_append, List.cons.injEq] at heq
        exact hfirst a b heq.2 hne

theorem splitOnceText_eq_none {sep : Str} (h : splitOnceText sep s = none) (a b : Str)
    (heq : s = a ++ b) : ¬ sep <+: b := by
  induction s generalizing a with
  | nil =>
    rw [splitOnceText] at h
    split_ifs at h with hnil
    obtain ⟨-, rfl⟩ := List.append_eq_nil_iff.mp heq.symm
    exact fun hprefix => hnil (List.prefix_nil.mp hprefix)
  | cons c s ih =>
    rw [splitOnceText] at h
    split_ifs at h with hhere
    cases a with
    | nil =>
      rw [List.nil_append] at heq
      rw [← heq]
      exact fun hprefix => hhere (List.isPrefixOf_iff_prefix.mpr hprefix)
    | cons a' a =>
      rw [List.cons_append, List.cons.injEq] at heq
      exact ih (Option.map_eq_none_iff.mp h) a heq.2

/-! ## Runs of a class -/

/-- A run of bytes of a class, and what follows it. -/
theorem span_append {q : UInt8 → Bool} {a rest : Str} (ha : ∀ b ∈ a, q b = true)
    (hrest : ∀ b, rest.head? = some b → q b = false) :
    (a ++ rest).takeWhile q = a ∧ (a ++ rest).dropWhile q = rest := by
  rw [List.takeWhile_append_of_pos ha, List.dropWhile_append_of_pos ha]
  cases rest with
  | nil => simp
  | cons b rest => simp [hrest b rfl]

end Text
