/-
  Opcore.Library.Leftmost

  The first place of a list where something is read: a reader that looks at what is
  left of the list is tried at each place in turn.
-/
import Mathlib.Data.List.Basic

namespace List

variable {α β : Type*} {read : List α → Option β} {s : List α} {b : β}

/-- What is read at the first place where anything is. -/
def leftmost (read : List α → Option β) : List α → Option β
  | [] => read []
  | a :: s => (read (a :: s)).or (leftmost read s)

/-- The reader gives the value behind `before` and nothing at an earlier place. -/
def ReadAfter (read : List α → Option β) (before tail : List α) (b : β) : Prop :=
  read tail = some b ∧ ∀ before' tail', before ++ tail = before' ++ tail' →
    before'.length < before.length → read tail' = none

theorem leftmost_eq_some_iff :
    leftmost read s = some b
      ↔ ∃ before tail, s = before ++ tail ∧ ReadAfter read before tail b := by
  induction s with
  | nil =>
    constructor
    · intro h
      exact ⟨[], [], rfl, h, fun _ _ _ hlt => absurd hlt (Nat.not_lt_zero _)⟩
    · rintro ⟨before, tail, heq, hread, -⟩
      obtain ⟨rfl, rfl⟩ := List.append_eq_nil_iff.mp heq.symm
      exact hread
  | cons a s ih =>
    cases hhere : read (a :: s) with
    | some b' =>
      rw [leftmost, hhere, Option.some_or]
      constructor
      · intro h
        exact ⟨[], a :: s, rfl, hhere.trans h, fun _ _ _ hlt => absurd hlt (Nat.not_lt_zero _)⟩
      · rintro ⟨before, tail, heq, hread, hearlier⟩
        cases before with
        | nil => rw [← hhere, heq, ← hread, List.nil_append]
        | cons a' before =>
          -- something is read at the head already
          have hnone := hearlier [] (a :: s) heq.symm (Nat.succ_pos _)
          rw [hhere] at hnone
          cases hnone
    | none =>
      rw [leftmost, hhere, Option.none_or, ih]
      constructor
      · rintro ⟨before, tail, rfl, hread, hearlier⟩
        refine ⟨a :: before, tail, rfl, hread, fun before' tail' heq hlt => ?_⟩
        cases before' with
        | nil =>
          rw [List.nil_append] at heq
          rw [← heq]
          exact hhere
        | cons a' before' =>
          rw [List.cons_append, List.cons_append, List.cons.injEq] at heq
          exact hearlier before' tail' heq.2 (Nat.lt_of_succ_lt_succ hlt)
      · rintro ⟨before, tail, heq, hread, hearlier⟩
        cases before with
        | nil =>
          rw [List.nil_append] at heq
          rw [← heq, hhere] at hread
          cases hread
        | cons a' before =>
          rw [List.cons_append, List.cons.injEq] at heq
          refine ⟨before, tail, heq.2, hread, fun before' tail' heq' hlt => ?_⟩
          refine hearlier (a' :: before') tail' ?_ (Nat.succ_lt_succ hlt)
          rw [List.cons_append, List.cons_append, heq']

theorem leftmost_eq_none_iff :
    leftmost read s = none ↔ ∀ before tail, s = before ++ tail → read tail = none := by
  induction s with
  | nil =>
    constructor
    · intro h before tail heq
      obtain ⟨-, rfl⟩ := List.append_eq_nil_iff.mp heq.symm
      exact h
    · exact fun h => h [] [] rfl
  | cons a s ih =>
    rw [leftmost, Option.or_eq_none_iff, ih]
    constructor
    · rintro ⟨hhere, hlater⟩ before tail heq
      cases before with
      | nil =>
        rw [List.nil_append] at heq
        rw [← heq]
        exact hhere
      | cons a' before =>
        rw [List.cons_append, List.cons.injEq] at heq
        exact hlater before tail heq.2
    · intro h
      exact ⟨h [] (a :: s) rfl, fun before tail heq => h (a :: before) tail (by rw [heq]; rfl)⟩

/-- A reader that reads wherever another one does finds something when that one does. -/
theorem leftmost_eq_none_of_imp {β' : Type*} {read' : List α → Option β'}
    (himp : ∀ s, read s = none → read' s = none) (h : leftmost read s = none) :
    leftmost read' s = none := by
  rw [leftmost_eq_none_iff] at h ⊢
  exact fun before tail heq => himp tail (h before tail heq)

end List
