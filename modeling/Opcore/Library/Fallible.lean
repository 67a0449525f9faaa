/-
  Opcore.Library.Fallible

  Computations that update a state and may stop without a result, and what can
  be said about every result they do return.
-/
import Mathlib.Logic.Basic
import Mathlib.Data.List.Basic

/-- A function of a mutable state with an optional result. -/
def Fallible (σ α : Type) : Type := σ → Option α × σ

namespace Fallible

variable {σ α β : Type} {m : Fallible σ α} {f : α → Fallible σ β} {P Q : α → Prop} {R : β → Prop}

instance : Monad (Fallible σ) where
  pure a s := (some a, s)
  bind m f s :=
    match m s with
    | (some a, s') => f a s'
    | (none, s') => (none, s')

/-- Stop without a result. -/
def stop : Fallible σ α := fun s => (none, s)

def get : Fallible σ σ := fun s => (some s, s)

def modify (f : σ → σ) : Fallible σ Unit := fun s => (some (), f s)

/-- Every result satisfies the postcondition, whatever the state. -/
def Returns (m : Fallible σ α) (Q : α → Prop) : Prop := ∀ s a s', m s = (some a, s') → Q a

theorem returns_pure {a : α} (h : Q a) : Returns (pure a : Fallible σ α) Q := by
  intro s b s' hb
  cases hb
  exact h

theorem returns_stop : Returns (stop : Fallible σ α) Q := by
  intro s a s' h
  cases h

theorem returns_true (m : Fallible σ α) : Returns m fun _ => True := fun _ _ _ _ => trivial

theorem Returns.mono (h : Returns m P) (hPQ : ∀ a, P a → Q a) : Returns m Q :=
  fun s a s' hm => hPQ a (h s a s' hm)

theorem Returns.bind (h : Returns m P) (hf : ∀ a, P a → Returns (f a) R) :
    Returns (m >>= f) R := by
  intro s b s' hb
  change (match m s with
    | (some a, s') => f a s'
    | (none, s') => (none, s')) = (some b, s') at hb
  split at hb
  · rename_i a s₁ hm
    exact hf a (h s a s₁ hm) s₁ b s' hb
  · cases hb

/-- Where nothing is known of the first result. -/
theorem Returns.then (hf : ∀ a, Returns (f a) R) : Returns (m >>= f) R :=
  (returns_true m).bind fun a _ => hf a

variable {m' : Fallible σ α}

theorem Returns.ite {c : Prop} [Decidable c] (ht : c → Returns m Q)
    (he : ¬ c → Returns m' Q) : Returns (if c then m else m') Q := by
  by_cases hc : c
  · rw [if_pos hc]
    exact ht hc
  · rw [if_neg hc]
    exact he hc

/-! What a computation keeps of the state, whether it returns or stops. -/

def Keeps (m : Fallible σ α) (I : σ → Prop) : Prop := ∀ s, I s → I (m s).2

variable {I : σ → Prop}

theorem keeps_pure (a : α) : Keeps (pure a : Fallible σ α) I := fun _ h => h

theorem keeps_stop : Keeps (stop : Fallible σ α) I := fun _ h => h

theorem keeps_get : Keeps (get : Fallible σ σ) I := fun _ h => h

/-- In a sequence, the second part may use what is known of the first result. -/
theorem Keeps.bind (h : Keeps m I) (hr : Returns m P) (hf : ∀ a, P a → Keeps (f a) I) :
    Keeps (m >>= f) I := by
  intro s hs
  change I (match m s with
    | (some a, s') => f a s'
    | (none, s') => (none, s')).2
  have hkeeps := h s hs
  split
  · rename_i a s' hm
    rw [hm] at hkeeps
    exact hf a (hr s a s' hm) s' hkeeps
  · rename_i s' hm
    rwa [hm] at hkeeps

theorem Keeps.then (h : Keeps m I) (hf : ∀ a, Keeps (f a) I) : Keeps (m >>= f) I :=
  h.bind (returns_true m) fun a _ => hf a

theorem Keeps.ite {c : Prop} [Decidable c] (ht : c → Keeps m I)
    (he : ¬ c → Keeps m' I) : Keeps (if c then m else m') I := by
  by_cases hc : c
  · rw [if_pos hc]
    exact ht hc
  · rw [if_neg hc]
    exact he hc

/-! What a computation neither looks at nor touches. -/

/-- The computation commutes with a change `g` of the state. -/
def Blind (m : Fallible σ α) (g : σ → σ) : Prop := ∀ s, m (g s) = ((m s).1, g (m s).2)

variable {g : σ → σ}

theorem blind_pure (a : α) : Blind (pure a : Fallible σ α) g := fun _ => rfl

theorem blind_stop : Blind (stop : Fallible σ α) g := fun _ => rfl

theorem blind_modify {f : σ → σ} (h : ∀ s, f (g s) = g (f s)) : Blind (modify f) g := by
  intro s
  rw [modify, modify, h]

theorem Blind.bind (h : Blind m g) (hf : ∀ a, Blind (f a) g) : Blind (m >>= f) g := by
  intro s
  change (match m (g s) with
    | (some a, s') => f a s'
    | (none, s') => (none, s')) = _
  rw [h s]
  change _ = ((match m s with
    | (some a, s') => f a s'
    | (none, s') => (none, s')).1, g (match m s with
    | (some a, s') => f a s'
    | (none, s') => (none, s')).2)
  rcases m s with ⟨_ | a, s'⟩
  · rfl
  · exact hf a s'

/-- A look at a part of the state that `g` leaves alone. -/
theorem blind_get_bind {γ : Type} (part : σ → γ) {k : γ → Fallible σ β}
    (hpart : ∀ s, part (g s) = part s) (hk : ∀ c, Blind (k c) g) :
    Blind (get >>= fun s => k (part s)) g := by
  intro s
  change k (part (g s)) (g s) = _
  rw [hpart]
  exact hk (part s) s

theorem Blind.ite {c : Prop} [Decidable c] (ht : Blind m g)
    (he : Blind m' g) : Blind (if c then m else m') g := by
  by_cases hc : c
  · rw [if_pos hc]
    exact ht
  · rw [if_neg hc]
    exact he

end Fallible

variable {ε α β : Type}

/-- Mapping a function that may fail over a list fails with one of its errors, or
    gives the results of all the elements in order. -/
theorem Except.mapM_cases (f : α → Except ε β) (l : List α) :
    (∃ results, l.mapM f = .ok results ∧ l.map f = results.map .ok)
      ∨ ∃ e, l.mapM f = .error e ∧ ∃ a ∈ l, f a = .error e := by
  induction l with
  | nil => exact Or.inl ⟨[], rfl, rfl⟩
  | cons a l ih =>
    rw [List.mapM_cons]
    rcases ha : f a with e | b
    · exact Or.inr ⟨e, rfl, a, List.mem_cons_self, ha⟩
    · obtain ⟨results, hresults, hall⟩ | ⟨e, herror, c, hc, hfail⟩ := ih
      · exact Or.inl ⟨b :: results, by rw [hresults]; rfl, by rw [List.map_cons, ha, hall]; rfl⟩
      · exact Or.inr ⟨e, by rw [herror]; rfl, c, List.mem_cons_of_mem a hc, hfail⟩

/-- Where a partial function maps a whole list, it maps each element into the result. -/
theorem Option.exists_of_mapM_eq_some {α β : Type} {f : α → Option β} {l : List α} {r : List β}
    (h : l.mapM f = some r) : ∀ a ∈ l, ∃ b ∈ r, f a = some b := by
  induction l generalizing r with
  | nil => exact nofun
  | cons a l ih =>
    rw [List.mapM_cons] at h
    obtain ⟨b, hb, h⟩ := Option.bind_eq_some_iff.mp h
    obtain ⟨bs, hbs, h⟩ := Option.bind_eq_some_iff.mp h
    cases h
    intro c hc
    obtain rfl | hc := List.mem_cons.mp hc
    · exact ⟨b, List.mem_cons_self, hb⟩
    · obtain ⟨d, hd, hcd⟩ := ih hbs c hc
      exact ⟨d, List.mem_cons_of_mem b hd, hcd⟩

/-- A partial function that is defined where a test holds maps a list when the
    test holds of all its elements. -/
theorem Option.mapM_of_map_eq_ite {α β γ : Type} {f : α → Option β} {p : γ → Bool} {g : γ → β}
    {l : List α} {l' : List γ}
    (h : l.map f = l'.map fun c => if p c then some (g c) else none) :
    l.mapM f = if l'.all p then some (l'.map g) else none := by
  induction l generalizing l' with
  | nil =>
    obtain rfl : l' = [] := List.map_eq_nil_iff.mp h.symm
    rfl
  | cons a l ih =>
    obtain ⟨c, l', rfl⟩ : ∃ c cs, l' = c :: cs := by
      cases l' with
      | nil => cases h
      | cons c cs => exact ⟨c, cs, rfl⟩
    rw [List.map_cons, List.map_cons, List.cons.injEq] at h
    rw [List.mapM_cons, h.1, ih h.2, List.all_cons, List.map_cons]
    cases p c with
    | false => rfl
    | true => cases l'.all p <;> rfl

/-- A sequence of two computations succeeds exactly when both do. -/
theorem Except.bind_eq_ok_iff {x : Except ε α} {f : α → Except ε β} {b : β} :
    (x >>= f) = .ok b ↔ ∃ a, x = .ok a ∧ f a = .ok b := by
  rcases x with e | a
  · simp [bind, Except.bind]
  · simp [bind, Except.bind]

/-- It fails where the first does, or the second after it. -/
theorem Except.bind_eq_error_iff {x : Except ε α} {f : α → Except ε β} {e : ε} :
    (x >>= f) = .error e ↔ x = .error e ∨ ∃ a, x = .ok a ∧ f a = .error e := by
  rcases x with e' | a
  · simp [bind, Except.bind]
  · simp [bind, Except.bind]

theorem Except.mapError_eq_ok_iff {ε ε' α : Type} {x : Except ε α} {f : ε → ε'} {a : α} :
    x.mapError f = .ok a ↔ x = .ok a := by
  rcases x with e | b
  · simp [Except.mapError]
  · simp [Except.mapError]

theorem Except.map_eq_error_iff {x : Except ε α} {f : α → β} {e : ε} :
    x.map f = .error e ↔ x = .error e := by
  rcases x with e' | a
  · simp [Except.map]
  · simp [Except.map]

variable {ε α : Type}

theorem Except.toOption_eq_some_iff {x : Except ε α} {a : α} :
    x.toOption = some a ↔ x = .ok a := by
  rcases x with e | b
  · simp [Except.toOption]
  · simp [Except.toOption]

theorem Except.forM_cons {f : α → Except ε Unit} {a : α} {l : List α} :
    (a :: l).forM f = f a >>= fun _ => l.forM f := rfl

/-- A loop of checks succeeds exactly when every check does. -/
theorem Except.forM_eq_ok_iff {f : α → Except ε Unit} {l : List α} :
    l.forM f = .ok () ↔ ∀ a ∈ l, f a = .ok () := by
  induction l with
  | nil => exact ⟨fun _ => nofun, fun _ => rfl⟩
  | cons a l ih =>
    rw [forM_cons, List.forall_mem_cons, ← ih]
    rcases f a with e | u
    · simp [bind, Except.bind]
    · simp [bind, Except.bind]

/-- What every step of a loop keeps, the loop keeps. -/
theorem Except.foldlM_keeps {ε σ α : Type} {f : σ → α → Except ε σ} {P : σ → Prop} {l : List α}
    {s s' : σ} (hstep : ∀ a ∈ l, ∀ s s', f s a = .ok s' → P s → P s')
    (h : l.foldlM f s = .ok s') (hs : P s) : P s' := by
  induction l generalizing s with
  | nil =>
    cases h
    exact hs
  | cons a l ih =>
    rw [List.foldlM_cons] at h
    obtain ⟨next, hnext, hrest⟩ := bind_eq_ok_iff.mp h
    obtain ⟨ha, hl⟩ := List.forall_mem_cons.mp hstep
    exact ih hl hrest (ha s next hnext hs)

/-- A loop that fails has a round that fails with its error. -/
theorem Except.exists_of_foldlM_eq_error {ε σ α : Type} {f : σ → α → Except ε σ} {l : List α}
    {s : σ} {e : ε} (h : l.foldlM f s = .error e) : ∃ a ∈ l, ∃ s', f s' a = .error e := by
  induction l generalizing s with
  | nil => cases h
  | cons a l ih =>
    rw [List.foldlM_cons] at h
    cases ha : f s a with
    | error e' =>
      rw [ha] at h
      cases h
      exact ⟨a, List.mem_cons_self, s, ha⟩
    | ok next =>
      rw [ha] at h
      obtain ⟨b, hb, s', hs'⟩ := ih h
      exact ⟨b, List.mem_cons_of_mem a hb, s', hs'⟩

/-- Checks that are skipped may be dropped from the loop. -/
theorem Except.forM_filter {keep : α → Bool} {f : α → Except ε Unit} {l : List α}
    (h : ∀ a ∈ l, keep a = false → f a = .ok ()) : (l.filter keep).forM f = l.forM f := by
  induction l with
  | nil => rfl
  | cons a l ih =>
    have hrest := ih fun b hb => h b (List.mem_cons_of_mem a hb)
    cases hkeep : keep a with
    | true =>
      rw [List.filter_cons_of_pos hkeep, forM_cons, forM_cons, hrest]
    | false =>
      rw [List.filter_cons_of_neg (by simp [hkeep]), forM_cons,
        h a List.mem_cons_self hkeep, hrest]
      rfl

/-- Where the results carry the keys of the elements, they line up with them. -/
theorem Except.keys_of_map_ok {ε κ α β : Type} {f : κ × α → Except ε β} {l : List (κ × α)}
    {results : List (κ × β)}
    (h : (l.map fun e => (f e).map fun b => (e.1, b)) = results.map .ok) :
    results.map Prod.fst = l.map Prod.fst
      ∧ ∀ e ∈ l, ∃ b, f e = .ok b ∧ (e.1, b) ∈ results := by
  induction l generalizing results with
  | nil =>
    obtain rfl : results = [] := by simpa using h.symm
    exact ⟨rfl, nofun⟩
  | cons e l ih =>
    obtain ⟨r, results, rfl⟩ : ∃ r rs, results = r :: rs := by
      cases results with
      | nil => simp at h
      | cons r rs => exact ⟨r, rs, rfl⟩
    rw [List.map_cons, List.map_cons, List.cons.injEq] at h
    obtain ⟨b, hb, rfl⟩ : ∃ b, f e = .ok b ∧ (e.1, b) = r := by
      rcases hf : f e with error | b
      · rw [hf] at h
        cases h.1
      · rw [hf] at h
        exact ⟨b, rfl, Except.ok.inj h.1⟩
    obtain ⟨hkeys, hmem⟩ := ih h.2
    refine ⟨by rw [List.map_cons, List.map_cons, hkeys], ?_⟩
    intro e' he'
    obtain rfl | he' := List.mem_cons.mp he'
    · exact ⟨b, hb, List.mem_cons_self⟩
    · obtain ⟨b', hb', hresult⟩ := hmem e' he'
      exact ⟨b', hb', List.mem_cons_of_mem _ hresult⟩
