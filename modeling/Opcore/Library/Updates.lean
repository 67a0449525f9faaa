/-
  Opcore.Library.Updates

  Sequences of updates seen one key at a time.  An update says what it leaves
  at a key, or nothing if it does not touch it.  When no two updates touch one
  key, the order of the sequence does not matter.
-/
import Mathlib.Data.List.Pairwise
import Mathlib.Data.List.Perm.Basic

namespace Updates

variable {α κ β : Type*} {touch : α → κ → Option β} {base v : β} {k : κ} {l l' : List α} {a : α}

/-- What a sequence of updates leaves at a key. -/
def settle (touch : α → κ → Option β) (k : κ) (base : β) (l : List α) : β :=
  l.foldl (fun v a => (touch a k).getD v) base

@[simp] theorem settle_nil : settle touch k base [] = base := rfl

@[simp] theorem settle_cons :
    settle touch k base (a :: l) = settle touch k ((touch a k).getD base) l := rfl

theorem settle_of_untouched (h : ∀ a ∈ l, touch a k = none) : settle touch k base l = base := by
  induction l generalizing base with
  | nil => rfl
  | cons a l ih =>
    rw [settle_cons, h a List.mem_cons_self]
    exact ih fun b hb => h b (List.mem_cons_of_mem a hb)

/-- Updates that do not touch a key may be dropped. -/
theorem settle_filter {keep : α → Bool} (h : ∀ a ∈ l, keep a = false → touch a k = none) :
    settle touch k base (l.filter keep) = settle touch k base l := by
  induction l generalizing base with
  | nil => rfl
  | cons a l ih =>
    have hrest : ∀ b ∈ l, keep b = false → touch b k = none :=
      fun b hb => h b (List.mem_cons_of_mem a hb)
    rw [settle_cons]
    cases hkeep : keep a with
    | true => rw [List.filter_cons_of_pos hkeep, settle_cons, ih hrest]
    | false =>
      rw [List.filter_cons_of_neg (by simp [hkeep]), h a List.mem_cons_self hkeep]
      exact ih hrest

/-- No two updates of the sequence touch one key. -/
def Disjoint (touch : α → κ → Option β) (l : List α) : Prop :=
  l.Pairwise fun a b => ∀ k, touch a k = none ∨ touch b k = none

/-- Only one update of the sequence touches a key. -/
theorem Disjoint.eq_of_touch {b : α} (hl : Disjoint touch l) (ha : a ∈ l) (hb : b ∈ l)
    (hka : touch a k ≠ none) (hkb : touch b k ≠ none) : a = b := by
  have hsymm : Std.Symm fun a b : α => ∀ k, touch a k = none ∨ touch b k = none :=
    ⟨fun _ _ h k => (h k).symm⟩
  by_contra hne
  rcases hl.forall ha hb hne k with h | h
  · exact hka h
  · exact hkb h

/-- The one update that touches a key decides what is left there. -/
theorem settle_of_mem (hl : Disjoint touch l) (ha : a ∈ l) (hv : touch a k = some v) :
    settle touch k base l = v := by
  induction l generalizing base with
  | nil => cases ha
  | cons b l ih =>
    obtain ⟨hb, hrest⟩ := List.pairwise_cons.mp hl
    rcases List.mem_cons.mp ha with rfl | ha
    · rw [settle_cons, hv]
      apply settle_of_untouched
      intro c hc
      rcases hb c hc k with h | h
      · rw [hv] at h
        cases h
      · exact h
    · exact ih hrest ha

theorem Disjoint.perm (hl : Disjoint touch l) (h : l.Perm l') : Disjoint touch l' :=
  (h.pairwise_iff fun {_ _} hab k => (hab k).symm).mp hl

/-- Disjoint updates may be applied in any order. -/
theorem settle_perm (hl : Disjoint touch l) (h : l.Perm l') :
    settle touch k base l' = settle touch k base l := by
  by_cases htouched : ∃ a ∈ l, touch a k ≠ none
  · obtain ⟨a, ha, hne⟩ := htouched
    obtain ⟨v, hv⟩ := Option.ne_none_iff_exists'.mp hne
    rw [settle_of_mem hl ha hv, settle_of_mem (hl.perm h) (h.mem_iff.mp ha) hv]
  · have hnone : ∀ a ∈ l, touch a k = none := by
      intro a ha
      by_contra hne
      exact htouched ⟨a, ha, hne⟩
    rw [settle_of_untouched hnone, settle_of_untouched fun a ha => hnone a (h.mem_iff.mpr ha)]

end Updates
