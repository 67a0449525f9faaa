/-
  Opcore.Library.Loop

  A `while` loop as the bounded iteration of a partial step, with the two
  rules every loop below is verified by: an invariant kept by each step holds
  at the end, and a measure that drops with each step shows that the bound was
  large enough for the loop to have stopped by itself.  A loop that is left with a
  result has one rule for both.
-/
import Mathlib.Init

namespace Loop

variable {σ : Type*} {step : σ → Option σ} {I : σ → Prop} {s s' : σ} {n : Nat}

/-- Run `step` until it returns `none`, at most `n` times. -/
def iterate (step : σ → Option σ) : Nat → σ → σ
  | 0, s => s
  | n + 1, s =>
    match step s with
    | none => s
    | some s' => iterate step n s'

theorem iterate_of_none (h : step s = none) : iterate step n s = s := by
  cases n with
  | zero => rfl
  | succ n => simp [iterate, h]

theorem iterate_succ_of_some (h : step s = some s') :
    iterate step (n + 1) s = iterate step n s' := by
  simp [iterate, h]

/-- Invariant rule. -/
theorem iterate_inv (hstep : ∀ s s', I s → step s = some s' → I s') (hs : I s) :
    I (iterate step n s) := by
  induction n generalizing s with
  | zero => exact hs
  | succ n ih =>
    cases h : step s with
    | none => rwa [iterate_of_none h]
    | some s' =>
      rw [iterate_succ_of_some h]
      exact ih (hstep s s' hs h)

/-- Termination rule: a loop given at least `μ s` iterations runs to its own end. -/
theorem iterate_stops (μ : σ → Nat)
    (hstep : ∀ s s', I s → step s = some s' → I s')
    (hμ : ∀ s s', I s → step s = some s' → μ s' < μ s)
    (hs : I s) (hn : μ s ≤ n) : step (iterate step n s) = none := by
  induction n generalizing s with
  | zero =>
    cases h : step s with
    | none => exact h
    | some s' => exact absurd (hμ s s' hs h) (by omega)
  | succ n ih =>
    cases h : step s with
    | none => rw [iterate_of_none h, h]
    | some s' =>
      rw [iterate_succ_of_some h]
      have hlt := hμ s s' hs h
      exact ih (hstep s s' hs h) (by omega)

/-- A loop that has stopped does nothing in further iterations. -/
theorem iterate_eq_of_stops {m : Nat} (h : step (iterate step n s) = none) (hn : n ≤ m) :
    iterate step m s = iterate step n s := by
  induction n generalizing s m with
  | zero => exact iterate_of_none h
  | succ n ih =>
    obtain ⟨m, rfl⟩ := Nat.exists_eq_add_of_le' (Nat.lt_of_lt_of_le n.succ_pos hn)
    cases hs : step s with
    | none => rw [iterate_of_none hs, iterate_of_none hs]
    | some s' =>
      rw [iterate_succ_of_some hs] at h
      rw [Nat.succ_eq_add_one, Nat.zero_add, iterate_succ_of_some hs, iterate_succ_of_some hs]
      exact ih h (by omega)

/-! ## Loops left with a result -/

variable {ρ : Type*} {body : σ → σ ⊕ ρ} {Q : ρ → Prop}

/-- Run `body` until it yields a result, at most `n` times. -/
def runUntil (body : σ → σ ⊕ ρ) : Nat → σ → Option ρ
  | 0, _ => none
  | n + 1, s =>
    match body s with
    | .inl s' => runUntil body n s'
    | .inr r => some r

theorem runUntil_succ_of_inl (h : body s = .inl s') :
    runUntil body (n + 1) s = runUntil body n s' := by
  simp [runUntil, h]

theorem runUntil_succ_of_inr {r : ρ} (h : body s = .inr r) : runUntil body (n + 1) s = some r := by
  simp [runUntil, h]

/-- Total correctness: a loop whose measure drops is left with a result, the same under every
    sufficient bound, and that result is what the invariant gives. -/
theorem exists_runUntil (μ : σ → Nat) (hbody : ∀ s s', I s → body s = .inl s' → I s' ∧ μ s' < μ s)
    (hresult : ∀ s r, I s → body s = .inr r → Q r) (hs : I s) :
    ∃ r, Q r ∧ ∀ n, μ s < n → runUntil body n s = some r := by
  induction hm : μ s using Nat.strongRecOn generalizing s with
  | ind m ih =>
    subst hm
    cases h : body s with
    | inr r =>
      refine ⟨r, hresult s r hs h, fun n hn => ?_⟩
      obtain ⟨n, rfl⟩ := Nat.exists_eq_add_of_lt hn
      exact runUntil_succ_of_inr h
    | inl s' =>
      obtain ⟨hs', hlt⟩ := hbody s s' hs h
      obtain ⟨r, hr, hrun⟩ := ih (μ s') hlt hs' rfl
      refine ⟨r, hr, fun n hn => ?_⟩
      obtain ⟨k, rfl⟩ := Nat.exists_eq_add_of_lt hn
      rw [runUntil_succ_of_inl h]
      exact hrun (μ s + k) (by omega)

end Loop
