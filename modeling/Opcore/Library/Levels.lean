/-
  Opcore.Library.Levels

  Lengths that are cut down by taking one from a longest at a time stay level: none that was
  cut is shorter than another by more than one.
-/
import Mathlib.Data.List.GetD
import Mathlib.Data.List.MinMax
import Mathlib.Algebra.BigOperators.Group.List.Basic
import Mathlib.Algebra.GroupWithZero.Nat

namespace Levels

variable {original lengths : List Nat} {i j k : Nat}

/-! ## The longest -/

theorem le_foldr_max {n : Nat} (h : n ∈ lengths) : n ≤ lengths.foldr max 0 :=
  List.le_max_of_le' 0 h le_rfl

theorem foldr_max_mem (h : lengths ≠ []) : lengths.foldr max 0 ∈ lengths := by
  induction lengths with
  | nil => exact absurd rfl h
  | cons n lengths ih =>
    rw [List.foldr_cons]
    rcases le_total n (lengths.foldr max 0) with hle | hle
    · rw [max_eq_right hle]
      cases lengths with
      | nil => simp [Nat.le_zero.mp hle]
      | cons m lengths => exact List.mem_cons_of_mem n (ih (by simp))
    · rw [max_eq_left hle]
      exact List.mem_cons_self

/-- The sum of lengths is positive as soon as the longest is. -/
theorem foldr_max_pos (h : 0 < lengths.sum) : 0 < lengths.foldr max 0 := by
  obtain ⟨n, hn, hpos⟩ : ∃ n ∈ lengths, n ≠ 0 := by
    by_contra hall
    push Not at hall
    exact h.ne' (List.sum_eq_zero hall)
  exact lt_of_lt_of_le (Nat.pos_of_ne_zero hpos) (le_foldr_max hn)

theorem sum_modify_pred (hlt : k < lengths.length) (hpos : 0 < lengths[k]) :
    (lengths.modify k (· - 1)).sum + 1 = lengths.sum := by
  induction lengths generalizing k with
  | nil => simp at hlt
  | cons n lengths ih =>
    cases k with
    | zero =>
      simp only [List.getElem_cons_zero] at hpos
      simp only [List.modify_zero_cons, List.sum_cons]
      omega
    | succ k =>
      simp only [List.getElem_cons_succ] at hpos
      have hrest := ih (by simpa using hlt) hpos
      simp only [List.modify_succ_cons, List.sum_cons]
      omega

/-! ## Staying level -/

/-- Lengths cut down from the original ones, and level where they were cut. -/
structure Levelled (original lengths : List Nat) : Prop where
  length_eq : lengths.length = original.length
  le : ∀ i, lengths.getD i 0 ≤ original.getD i 0
  level : ∀ i j, lengths.getD i 0 < original.getD i 0 →
    lengths.getD j 0 ≤ lengths.getD i 0 + 1

theorem Levelled.refl (original : List Nat) : Levelled original original where
  length_eq := rfl
  le _ := le_rfl
  level _ _ h := absurd h (Nat.lt_irrefl _)

theorem getD_modify_pred :
    (lengths.modify k (· - 1)).getD i 0
      = if i = k then lengths.getD i 0 - 1 else lengths.getD i 0 := by
  rw [List.getD_eq_getElem?_getD, List.getD_eq_getElem?_getD, List.getElem?_modify]
  by_cases hik : i = k
  · cases lengths[i]? <;> simp [hik]
  · cases lengths[i]? <;> simp [hik, Ne.symm hik]

/-- A longest length gives up one. -/
theorem Levelled.shorten (h : Levelled original lengths)
    (hlongest : ∀ j, lengths.getD j 0 ≤ lengths.getD k 0) :
    Levelled original (lengths.modify k (· - 1)) where
  length_eq := by rw [List.length_modify, h.length_eq]
  le i := by
    rw [getD_modify_pred]
    have hle := h.le i
    split_ifs <;> omega
  level i j hcut := by
    rw [getD_modify_pred] at hcut
    rw [getD_modify_pred, getD_modify_pred]
    have hj := hlongest j
    by_cases hik : i = k
    · -- the length that was longest until now
      rw [if_pos hik, hik]
      split_ifs <;> omega
    · rw [if_neg hik] at hcut ⊢
      have hlevel := h.level i j hcut
      split_ifs <;> omega

end Levels
