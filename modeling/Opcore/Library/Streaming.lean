/-
  Opcore.Library.Streaming

  A single pass over a list that is ordered by a key.  The entries of one key stand next to
  each other, so whether a key is new shows in the last entry passed.  What the pass carries
  along is related to the part of the list that it has passed, and the values met under each
  key are the part's own, in whatever order they came.
-/
import Mathlib.Data.Finset.Image
import Mathlib.Data.List.Pairwise
import Mathlib.Order.Basic

namespace Streaming

variable {ε κ β σ : Type*}

/-! ## The rule of a pass -/

/-- What holds of the state before the first entry and is kept by each, with the entries
passed before it, holds of the whole list at the end. -/
theorem foldl_passed {l : List ε} {f : σ → ε → σ} {s : σ} {I : List ε → σ → Prop}
    (hstart : I [] s)
    (hstep : ∀ done e s, (done ++ [e]) <+: l → I done s → I (done ++ [e]) (f s e)) :
    I l (l.foldl f s) := by
  have hprefix : ∀ todo done s, l = done ++ todo → I done s → I l (todo.foldl f s) := by
    intro todo
    induction todo with
    | nil =>
      intro done s hl h
      rw [hl, List.append_nil]
      exact h
    | cons e todo ih =>
      intro done s hl h
      have hl' : l = (done ++ [e]) ++ todo := by simpa using hl
      exact ih (done ++ [e]) (f s e) hl' (hstep done e s ⟨todo, hl'.symm⟩ h)
  exact hprefix l [] s rfl hstart

/-- In a list ordered by a key, a key that the last entry does not have is new. -/
theorem ne_of_getLast? [PartialOrder κ] {key : ε → κ} {done : List ε} {e : ε}
    (hsorted : (done ++ [e]).Pairwise fun a b => key a ≤ key b)
    (hlast : done.getLast?.map key ≠ some (key e)) : ∀ d ∈ done, key d ≠ key e := by
  intro d hd heq
  obtain ⟨init, last, rfl⟩ : ∃ init last, done = init ++ [last] :=
    ⟨_, _, (List.dropLast_append_getLast (List.ne_nil_of_mem hd)).symm⟩
  have hne : key last ≠ key e := by simpa using hlast
  have hle : key last ≤ key e := (List.pairwise_append.mp hsorted).2.2 last (by simp) e (by simp)
  have hdle : key d ≤ key last := by
    rcases List.mem_append.mp hd with hinit | hlast
    · have hdone := (List.pairwise_append.mp hsorted).1
      exact (List.pairwise_append.mp hdone).2.2 d hinit last (by simp)
    · rw [List.mem_singleton.mp hlast]
  exact hne (le_antisymm hle (heq ▸ hdle))

/-! ## The values of a key -/

section Values

variable [DecidableEq κ] [DecidableEq β] {key : ε → κ} {value : ε → β} {l : List ε} {e : ε} {k : κ}

/-- The values that the entries of a key have, each once. -/
def valuesOf (key : ε → κ) (value : ε → β) (l : List ε) (k : κ) : Finset β :=
  ((l.filter fun e => key e = k).map value).toFinset

theorem mem_valuesOf {v : β} : v ∈ valuesOf key value l k ↔ ∃ e ∈ l, key e = k ∧ value e = v := by
  simp [valuesOf, and_assoc]

@[simp] theorem valuesOf_nil : valuesOf key value [] k = ∅ := rfl

theorem valuesOf_snoc_self :
    valuesOf key value (l ++ [e]) (key e) = insert (value e) (valuesOf key value l (key e)) := by
  ext v
  simp only [mem_valuesOf, Finset.mem_insert, List.mem_append, List.mem_singleton]
  constructor
  · rintro ⟨d, hd | rfl, hkey, hvalue⟩
    · exact .inr ⟨d, hd, hkey, hvalue⟩
    · exact .inl hvalue.symm
  · rintro (rfl | ⟨d, hd, hkey, hvalue⟩)
    · exact ⟨e, .inr rfl, rfl, rfl⟩
    · exact ⟨d, .inl hd, hkey, hvalue⟩

theorem valuesOf_snoc_of_ne (h : k ≠ key e) :
    valuesOf key value (l ++ [e]) k = valuesOf key value l k := by
  simp [valuesOf, Ne.symm h]

/-- A key that no entry has has no values. -/
theorem valuesOf_eq_empty (h : ∀ d ∈ l, key d ≠ k) : valuesOf key value l k = ∅ := by
  rw [Finset.eq_empty_iff_forall_notMem]
  intro v hv
  obtain ⟨d, hd, hkey, -⟩ := mem_valuesOf.mp hv
  exact h d hd hkey

end Values

end Streaming
