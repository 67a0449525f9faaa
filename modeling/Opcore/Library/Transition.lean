/-
  Opcore.Library.Transition

  Deterministic steps driven by actions, and the runs they make up.  An action
  that a state does not allow has no successor, so a run is a list of actions
  each of which the state before it allows.
-/
import Mathlib.Init

namespace Transition

variable {σ α : Type*} {step : σ → α → Option σ} {s t u : σ} {a : α} {as bs : List α}

/-- The state after a list of actions, when all of them are allowed. -/
def run (step : σ → α → Option σ) : σ → List α → Option σ
  | s, [] => some s
  | s, a :: as => (step s a).bind fun s' => run step s' as

theorem run_cons_eq_some_iff :
    run step s (a :: as) = some u ↔ ∃ t, step s a = some t ∧ run step t as = some u := by
  simp [run, Option.bind_eq_some_iff]

theorem run_append (hs : run step s as = some t) (ht : run step t bs = some u) :
    run step s (as ++ bs) = some u := by
  induction as generalizing s with
  | nil =>
    cases hs
    exact ht
  | cons a as ih =>
    obtain ⟨s', hstep, hrun⟩ := run_cons_eq_some_iff.mp hs
    exact run_cons_eq_some_iff.mpr ⟨s', hstep, ih hrun⟩

/-- Every action of a run meets a condition in the state it is taken in. -/
def Throughout (step : σ → α → Option σ) (P : σ → α → Prop) : σ → List α → Prop
  | _, [] => True
  | s, a :: as => P s a ∧ ∀ t, step s a = some t → Throughout step P t as

theorem throughout_of_forall {P : σ → α → Prop} (h : ∀ s, ∀ a ∈ as, P s a) :
    Throughout step P s as := by
  induction as generalizing s with
  | nil => trivial
  | cons a as ih =>
    refine ⟨h s a List.mem_cons_self, fun t _ => ih fun s b hb => ?_⟩
    exact h s b (List.mem_cons_of_mem a hb)

/-- Invariant rule: what every step that meets a condition preserves, a run whose steps
    all meet it preserves. -/
theorem run_preserves_throughout {I : σ → Prop} {P : σ → α → Prop}
    (hstep : ∀ s a t, I s → P s a → step s a = some t → I t)
    (hrun : run step s as = some t) (hP : Throughout step P s as) (hs : I s) : I t := by
  induction as generalizing s with
  | nil =>
    cases hrun
    exact hs
  | cons a as ih =>
    obtain ⟨s', hfirst, hrest⟩ := run_cons_eq_some_iff.mp hrun
    exact ih hrest (hP.2 s' hfirst) (hstep s a s' hs hP.1 hfirst)

/-- Invariant rule: what every step by an admissible action preserves, a run of
    admissible actions preserves. -/
theorem run_preserves {I : σ → Prop} {P : α → Prop}
    (hstep : ∀ s a t, I s → P a → step s a = some t → I t)
    (hrun : run step s as = some t) (hP : ∀ a ∈ as, P a) (hs : I s) : I t :=
  @run_preserves_throughout _ _ _ _ _ _ I (fun _ a => P a) hstep hrun
    (throughout_of_forall fun _ => hP) hs

/-- A state some run from the initial state ends in. -/
def Reachable (step : σ → α → Option σ) (init s : σ) : Prop := ∃ as, run step init as = some s

theorem Reachable.trans {init : σ} (hs : Reachable step init s) (hrun : run step s as = some t) :
    Reachable step init t := by
  obtain ⟨bs, hbs⟩ := hs
  exact ⟨bs ++ as, run_append hbs hrun⟩

theorem Reachable.next {init : σ} (hs : Reachable step init s) (h : step s a = some t) :
    Reachable step init t :=
  @Reachable.trans _ _ _ _ _ [a] _ hs (by simp [run, h])

/-- What holds initially and is preserved by every step holds of every reachable state. -/
theorem Reachable.invariant {init : σ} {I : σ → Prop} (hinit : I init)
    (hstep : ∀ s a t, I s → step s a = some t → I t) (hs : Reachable step init s) : I s := by
  obtain ⟨as, hrun⟩ := hs
  exact run_preserves (P := fun _ => True) (fun s a t hI _ h => hstep s a t hI h) hrun
    (fun _ _ => trivial) hinit

end Transition
