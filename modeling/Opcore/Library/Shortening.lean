/-
  Opcore.Library.Shortening

  Lists that were cut short.  What is left of a list is a beginning of it, and each
  entry left may itself have been cut down; a flag beside a list says whether
  anything of it is missing.  Both compose, and cutting lowers the weight of a list.
-/
import Mathlib.Algebra.Order.BigOperators.Group.List
import Mathlib.Algebra.Order.Group.Nat
import Mathlib.Data.List.Forall2
import Mathlib.Algebra.GroupWithZero.Nat

namespace Shortening

variable {α : Type*} {R : α → α → Prop} {l kept middle original : List α} {n : Nat}

/-! ## A list and its flag -/

/-- What is left of a list, with a flag that is raised when anything is missing. -/
def CutOff (kept original : List α × Bool) : Prop :=
  kept.1 <+: original.1 ∧ kept.2 = (original.2 || decide (kept.1.length < original.1.length))

theorem CutOff.refl (s : List α × Bool) : CutOff s s :=
  ⟨List.prefix_refl s.1, by simp⟩

theorem CutOff.trans {s t u : List α × Bool} (h₁ : CutOff s t) (h₂ : CutOff t u) : CutOff s u := by
  refine ⟨h₁.1.trans h₂.1, ?_⟩
  have hle₁ := h₁.1.length_le
  have hle₂ := h₂.1.length_le
  rw [h₁.2, h₂.2, Bool.or_assoc, ← Bool.decide_or]
  congr 1
  exact decide_eq_decide.mpr (by omega)

/-- Cutting a list at a length, with the flag raised when that is shorter. -/
theorem cutOff_take (l : List α) (flag : Bool) (n : Nat) :
    CutOff (l.take n, flag || decide (n < l.length)) (l, flag) := by
  refine ⟨List.take_prefix n l, ?_⟩
  dsimp only
  rw [List.length_take]
  congr 1
  exact decide_eq_decide.mpr (by omega)

/-! ## A list of entries cut down -/

/-- A beginning of a list, each entry of which is related to what it was. -/
def Shortened (R : α → α → Prop) (kept original : List α) : Prop :=
  List.Forall₂ R kept (original.take kept.length)

theorem shortened_nil (original : List α) : Shortened R [] original := by
  rw [Shortened, List.length_nil, List.take_zero]
  exact .nil

theorem shortened_take (hR : ∀ a, R a a) (l : List α) (n : Nat) : Shortened R (l.take n) l := by
  have htake : l.take (l.take n).length = l.take n := by
    rw [List.length_take, ← List.take_take, List.take_length]
  rw [Shortened, htake]
  exact List.forall₂_same.mpr fun a _ => hR a

theorem shortened_refl (hR : ∀ a, R a a) (l : List α) : Shortened R l l := by
  have htake := shortened_take hR l l.length
  rwa [List.take_length] at htake

variable {f : α → α}

theorem shortened_map (hf : ∀ a, R (f a) a) (l : List α) :
    Shortened R (l.map f) l := by
  rw [Shortened, List.length_map, List.take_length, List.forall₂_map_left_iff]
  exact List.forall₂_same.mpr fun a _ => hf a

theorem Shortened.length_le (h : Shortened R kept original) : kept.length ≤ original.length := by
  have hlength := List.Forall₂.length_eq h
  rw [List.length_take] at hlength
  omega

theorem forall₂_trans {l₁ l₂ l₃ : List α} (hR : ∀ a b c, R a b → R b c → R a c)
    (h₁ : List.Forall₂ R l₁ l₂) (h₂ : List.Forall₂ R l₂ l₃) : List.Forall₂ R l₁ l₃ := by
  induction h₁ generalizing l₃ with
  | nil => exact h₂
  | cons hab _ ih =>
    cases h₂ with
    | cons hbc hrest => exact .cons (hR _ _ _ hab hbc) (ih hrest)

theorem Shortened.trans (hR : ∀ a b c, R a b → R b c → R a c) (h₁ : Shortened R kept middle)
    (h₂ : Shortened R middle original) : Shortened R kept original := by
  have hle := h₁.length_le
  have hbeginning : List.Forall₂ R (middle.take kept.length) (original.take kept.length) := by
    have htaken := List.forall₂_take kept.length h₂
    rwa [List.take_take, min_eq_left hle] at htaken
  exact forall₂_trans hR h₁ hbeginning

/-! ## Weight -/

/-- The size of a list whose entries have a size of their own. -/
def weight (size : α → Nat) (l : List α) : Nat := (l.map fun a => size a + 1).sum

variable {size : α → Nat}

@[simp] theorem weight_nil : weight size [] = 0 := rfl

theorem weight_append (l₁ l₂ : List α) :
    weight size (l₁ ++ l₂) = weight size l₁ + weight size l₂ := by
  rw [weight, List.map_append, List.sum_append, ← weight, ← weight]

theorem length_le_weight (l : List α) : l.length ≤ weight size l := by
  induction l with
  | nil => exact Nat.zero_le _
  | cons a l ih =>
    rw [weight, List.map_cons, List.sum_cons, ← weight, List.length_cons]
    omega

/-- A list that loses an entry loses weight. -/
theorem weight_take_lt (h : n < l.length) : weight size (l.take n) < weight size l := by
  have hsplit : weight size l = weight size (l.take n) + weight size (l.drop n) := by
    rw [← weight_append, List.take_append_drop]
  have hdrop := @length_le_weight α size (l.drop n)
  rw [List.length_drop] at hdrop
  omega

theorem weight_map_le (hf : ∀ a, size (f a) ≤ size a) (l : List α) :
    weight size (l.map f) ≤ weight size l := by
  rw [weight, List.map_map]
  exact List.sum_le_sum fun a _ => Nat.succ_le_succ (hf a)

/-- An entry that becomes smaller makes the list lighter. -/
theorem weight_map_lt (hf : ∀ a, size (f a) ≤ size a) {a : α} (ha : a ∈ l)
    (hlt : size (f a) < size a) : weight size (l.map f) < weight size l := by
  rw [weight, List.map_map]
  exact List.sum_lt_sum _ _ (fun a _ => Nat.succ_le_succ (hf a)) ⟨a, ha, Nat.succ_lt_succ hlt⟩

end Shortening
