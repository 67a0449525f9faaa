/-
  Opcore.Library.Bounded

  Collections filled under a bound.  A set that refuses elements once it is
  full marks that it did (`insertBounded`); a set that keeps its `n` smallest
  elements is, whatever the order of insertion, the `n` smallest of all that
  were inserted (`foldl_keepSmallest`), and nothing is lost by keeping the `n`
  smallest of a part first (`initial_extend_initial`).  A list that refuses elements
  is the beginning of all that were offered to it (`pushBounded_keptOf`).
-/
import Opcore.Library.BTreeMap

namespace Collections

variable {α : Type*} [LinearOrder α]

/-! ## Lists that refuse -/

/-- Append unless the list is full, and mark a refusal. -/
def pushBounded {β : Type*} (bound : Nat) (s : List β × Bool) (b : β) : List β × Bool :=
  if bound ≤ s.1.length then (s.1, true) else (s.1 ++ [b], s.2)

/-- What a list under a bound is after all of `offered`: the beginning of it, marked when
    that is not all. -/
def keptOf {β : Type*} (offered : List β) (bound : Nat) : List β × Bool :=
  (offered.take bound, decide (bound < offered.length))

theorem pushBounded_keptOf {β : Type*} (offered : List β) (bound : Nat) (b : β) :
    pushBounded bound (keptOf offered bound) b = keptOf (offered ++ [b]) bound := by
  rw [pushBounded, keptOf, keptOf]
  dsimp only
  rw [List.length_take, List.length_append, List.length_singleton]
  by_cases hfull : bound ≤ offered.length
  · have hlt : bound < offered.length + 1 := by omega
    rw [if_pos (by omega), List.take_append_of_le_length hfull, decide_eq_true hlt]
  · have hfits : ¬ bound < offered.length := by omega
    have hroom : ¬ bound < offered.length + 1 := by omega
    have hall : (offered ++ [b]).length ≤ bound := by
      rw [List.length_append, List.length_singleton]
      omega
    rw [if_neg (by omega), List.take_of_length_le (by omega), List.take_of_length_le hall,
      decide_eq_false hfits, decide_eq_false hroom]

/-- Two lists under one bound, the second with what the first leaves of it. -/
theorem keptOf_append {β : Type*} (l₁ l₂ : List β) (bound : Nat) :
    keptOf (l₁ ++ l₂) bound
      = ((keptOf l₁ bound).1 ++ (keptOf l₂ (bound - (keptOf l₁ bound).1.length)).1,
          (keptOf l₁ bound).2 || (keptOf l₂ (bound - (keptOf l₁ bound).1.length)).2) := by
  have hleft : bound - (keptOf l₁ bound).1.length = bound - l₁.length := by
    rw [keptOf, List.length_take]
    omega
  rw [hleft]
  simp only [keptOf, List.take_append, List.length_append, Prod.mk.injEq, true_and,
    ← Bool.decide_or, decide_eq_decide]
  omega

/-- A loop that goes the same way whatever a parameter is: what each step does to the common
    part of the states, the whole loop does. -/
theorem foldl_uniform {ι σ γ β : Type*} {step : ι → σ → β → σ} {state : γ → ι → σ}
    (h : ∀ c b, ∃ c', ∀ i, step i (state c i) b = state c' i) (l : List β) (c : γ) :
    ∃ c', ∀ i, l.foldl (step i) (state c i) = state c' i := by
  induction l generalizing c with
  | nil => exact ⟨c, fun _ => rfl⟩
  | cons b l ih =>
    obtain ⟨c₁, hstep⟩ := h c b
    obtain ⟨c₂, hrest⟩ := ih c₁
    exact ⟨c₂, fun i => by rw [List.foldl_cons, hstep i, hrest i]⟩

/-! ## Sets that refuse -/

/-- Insert unless that would exceed the bound, and mark a refusal. -/
def insertBounded (bound : Nat) (s : BTreeSet α × Bool) (a : α) : BTreeSet α × Bool :=
  if a ∉ s.1 ∧ bound ≤ s.1.size then (s.1, true) else (s.1.insert a, s.2)

theorem size_extend_mono (s : BTreeSet α) (l : List α) : s.size ≤ (s.extend l).size :=
  BTreeSet.size_le_of_subset fun _ ha => BTreeSet.mem_extend.mpr (Or.inr ha)

variable {bound : Nat} {s : BTreeSet α} {l : List α} {flag : Bool}

/-- Nothing is refused while everything fits. -/
theorem foldl_insertBounded_of_le (h : (s.extend l).size ≤ bound) :
    l.foldl (insertBounded bound) (s, flag) = (s.extend l, flag) := by
  induction l generalizing s with
  | nil => rfl
  | cons a l ih =>
    have hcons : s.extend (a :: l) = (s.insert a).extend l := rfl
    rw [hcons] at h
    have hroom : ¬ (a ∉ s ∧ bound ≤ s.size) := by
      rintro ⟨ha, hfull⟩
      have hmono := size_extend_mono (s.insert a) l
      rw [BTreeSet.size_insert_of_not_mem ha] at hmono
      omega
    rw [List.foldl_cons, insertBounded, if_neg hroom, ih h, hcons]

/-- A mark stays. -/
theorem foldl_insertBounded_true :
    (l.foldl (insertBounded bound) (s, true)).2 = true := by
  induction l generalizing s with
  | nil => rfl
  | cons a l ih =>
    rw [List.foldl_cons, insertBounded]
    split_ifs
    · exact ih
    · exact ih

/-- If not everything fits, something is refused. -/
theorem foldl_insertBounded_of_lt (hs : s.size ≤ bound) (h : bound < (s.extend l).size) :
    (l.foldl (insertBounded bound) (s, flag)).2 = true := by
  induction l generalizing s with
  | nil => exact absurd hs (not_le.mpr h)
  | cons a l ih =>
    rw [List.foldl_cons, insertBounded]
    split_ifs with hfull
    · exact foldl_insertBounded_true
    · apply ih
      · by_cases ha : a ∈ s
        · rw [BTreeSet.insert_of_mem ha]
          exact hs
        · rw [BTreeSet.size_insert_of_not_mem ha]
          have hroom : s.size < bound := not_le.mp fun hle => hfull ⟨ha, hle⟩
          exact hroom
      · exact h

/-- A bound is kept. -/
theorem size_foldl_insertBounded
    (h : s.size ≤ bound) : (l.foldl (insertBounded bound) (s, flag)).1.size ≤ bound := by
  induction l generalizing s flag with
  | nil => exact h
  | cons a l ih =>
    rw [List.foldl_cons, insertBounded]
    split_ifs with hfull
    · exact ih h
    · apply ih
      by_cases ha : a ∈ s
      · rw [BTreeSet.insert_of_mem ha]
        exact h
      · rw [BTreeSet.size_insert_of_not_mem ha]
        exact not_le.mp fun hle => hfull ⟨ha, hle⟩

/-- Nothing is in the set that was not inserted. -/
theorem mem_of_mem_foldl_insertBounded
    {a : α} (h : a ∈ (l.foldl (insertBounded bound) (s, flag)).1) : a ∈ l ∨ a ∈ s := by
  induction l generalizing s flag with
  | nil => exact Or.inr h
  | cons b l ih =>
    rw [List.foldl_cons, insertBounded] at h
    split_ifs at h with hfull
    · exact (ih h).imp_left (List.mem_cons_of_mem b)
    · rcases ih h with hmem | hmem
      · exact Or.inl (List.mem_cons_of_mem b hmem)
      · rcases BTreeSet.mem_insert.mp hmem with rfl | hmem
        · exact Or.inl (List.mem_cons_self ..)
        · exact Or.inr hmem

/-- The mark says exactly that something is missing. -/
theorem foldl_insertBounded_marked_iff :
    (l.foldl (insertBounded bound) (∅, false)).2 = true
      ↔ ∃ a ∈ l, a ∉ (l.foldl (insertBounded bound) (∅, false)).1 := by
  rcases Nat.lt_or_ge bound ((∅ : BTreeSet α).extend l).size with hlt | hle
  · refine ⟨fun _ => ?_, fun _ => foldl_insertBounded_of_lt (Nat.zero_le _) hlt⟩
    by_contra hall
    push Not at hall
    have hsize : (l.foldl (insertBounded bound) ((∅ : BTreeSet α), false)).1.size ≤ bound :=
      size_foldl_insertBounded (Nat.zero_le _)
    have hsubset : ((∅ : BTreeSet α).extend l).size
        ≤ (l.foldl (insertBounded bound) (∅, false)).1.size :=
      BTreeSet.size_le_of_subset fun a ha =>
        (BTreeSet.mem_extend.mp ha).elim (hall a) fun h => absurd h BTreeSet.not_mem_empty
    omega
  · rw [foldl_insertBounded_of_le hle]
    simp
/-! ## Sets that keep the smallest -/

/-- The `n` smallest elements. -/
def BTreeSet.initial (n : Nat) (s : BTreeSet α) : BTreeSet α :=
  ⟨s.elems.take n, s.sorted.sublist (List.take_sublist n _)⟩

/-- Insert, drop the greatest element if there are more than `n`, and mark that. -/
def keepSmallest (n : Nat) (s : BTreeSet α × Bool) (a : α) : BTreeSet α × Bool :=
  if a ∈ s.1 then s
  else
    let inserted := s.1.insert a
    if n < inserted.size then (inserted.popLast, true) else (inserted, s.2)

/-- Inserting below or above a cut does not look past the cut. -/
theorem take_insertSorted_take (a : α) (n : Nat) (l : List α) :
    (insertSorted a (l.take n)).take n = (insertSorted a l).take n := by
  induction n generalizing l with
  | zero => simp
  | succ n ih =>
    cases l with
    | nil => rfl
    | cons b l =>
      rw [List.take_succ_cons, insertSorted, insertSorted]
      split_ifs
      · rw [List.take_succ_cons, List.take_succ_cons]
        cases n with
        | zero => rfl
        | succ n => simp [List.take_take]
      · rw [List.take_succ_cons, List.take_succ_cons, ih]
      · simp [List.take_take]

theorem BTreeSet.initial_of_size_le {n : Nat} (h : s.size ≤ n) :
    s.initial n = s := by
  obtain ⟨l, hl⟩ := s
  simp only [initial, BTreeSet.mk.injEq]
  exact List.take_of_length_le h

variable (n : Nat)

theorem BTreeSet.size_initial (s : BTreeSet α) : (s.initial n).size = min n s.size := by
  simp [initial, size]

theorem BTreeSet.mem_of_mem_initial {n : Nat} {a : α} (h : a ∈ s.initial n) :
    a ∈ s :=
  List.mem_of_mem_take h

/-- One insertion keeps the `n` smallest, and the mark tells whether there are more. -/
theorem keepSmallest_initial (s : BTreeSet α) (extra : Bool) (a : α) :
    keepSmallest n (s.initial n, decide (n < s.size) || extra) a
      = ((s.insert a).initial n, decide (n < (s.insert a).size) || extra) := by
  -- The set: either the insertion fits, or exactly the greatest element goes.
  have hset : ((s.initial n).insert a).initial n = (s.insert a).initial n := by
    simp only [BTreeSet.initial, BTreeSet.insert, BTreeSet.mk.injEq]
    exact take_insertSorted_take a n s.elems
  have hsize := s.size_initial n
  rw [keepSmallest]
  by_cases ha : a ∈ s.initial n
  · rw [if_pos ha, BTreeSet.insert_of_mem (BTreeSet.mem_of_mem_initial ha)]
  · rw [if_neg ha]
    have hinserted := BTreeSet.size_insert_of_not_mem ha
    dsimp only
    split_ifs with hover
    · have hpop : ((s.initial n).insert a).popLast = ((s.initial n).insert a).initial n := by
        have hlen : ((s.initial n).insert a).elems.length = n + 1 := by
          change ((s.initial n).insert a).size = n + 1
          omega
        simp only [BTreeSet.popLast, BTreeSet.initial, BTreeSet.mk.injEq]
        rw [List.dropLast_eq_take]
        congr 1
        change ((s.initial n).insert a).elems.length - 1 = n
        omega
      have hlarge : n < (s.insert a).size := by
        by_cases has : a ∈ s
        · rw [BTreeSet.insert_of_mem has]
          -- `a` lies past the cut, so the set is larger than it.
          by_contra hsmall
          rw [BTreeSet.initial_of_size_le (not_lt.mp hsmall)] at ha
          exact ha has
        · rw [BTreeSet.size_insert_of_not_mem has]
          omega
      rw [hpop, hset, decide_eq_true hlarge, Bool.true_or]
    · have hsmall : s.size ≤ n := by omega
      rw [BTreeSet.initial_of_size_le hsmall] at hover ⊢
      rw [BTreeSet.initial_of_size_le (not_lt.mp hover), decide_eq_false (not_lt.mpr hsmall),
        decide_eq_false hover]

/-- Any insertions keep the `n` smallest. -/
theorem foldl_keepSmallest (s : BTreeSet α) (extra : Bool) (l : List α) :
    l.foldl (keepSmallest n) (s.initial n, decide (n < s.size) || extra)
      = ((s.extend l).initial n, decide (n < (s.extend l).size) || extra) := by
  induction l generalizing s with
  | nil => rfl
  | cons a l ih =>
    rw [List.foldl_cons, keepSmallest_initial, ih]
    rfl

/-- An element with `n` smaller ones in the set is not among the `n` smallest. -/
theorem take_insertSorted_of_le {a : α} {n : Nat} (hl : l.Pairwise (· < ·))
    (h : n ≤ (l.filter (· < a)).length) : (insertSorted a l).take n = l.take n := by
  induction l generalizing n with
  | nil =>
    have hn : n = 0 := by simpa using h
    simp [hn]
  | cons b l ih =>
    rw [List.pairwise_cons] at hl
    rw [insertSorted]
    split_ifs with hab heq
    · -- Nothing in the list is below `a`.
      have hnone : (b :: l).filter (· < a) = [] := by
        rw [List.filter_eq_nil_iff]
        intro c hc
        have hbc : b ≤ c := by
          rcases List.mem_cons.mp hc with rfl | hc
          · exact le_refl _
          · exact (hl.1 c hc).le
        simpa using (hab.trans_le hbc).le
      have hn : n = 0 := by simpa [hnone] using h
      simp [hn]
    · cases n with
      | zero => rfl
      | succ n =>
        rw [List.take_succ_cons, List.take_succ_cons, ih hl.2]
        by_cases hba : b < a
        · simpa [List.filter_cons, hba] using h
        · rw [List.filter_cons_of_neg (by simpa using hba)] at h
          omega
    · rfl

/-- Nothing is lost by keeping the `n` smallest of a part first. -/
theorem BTreeSet.initial_extend_initial (s t : BTreeSet α) :
    (s.extend (t.initial n).elems).initial n = (s.extend t.elems).initial n := by
  -- Insert what the part dropped, one element after the other.
  have hdropped : ∀ (l : List α) (u : BTreeSet α), (∀ a ∈ l, n ≤ (u.elems.filter (· < a)).length) →
      (u.extend l).initial n = u.initial n := by
    intro l
    induction l with
    | nil => exact fun u _ => rfl
    | cons a l ih =>
      intro u hu
      have hstep : (u.insert a).initial n = u.initial n := by
        simp only [initial, insert, BTreeSet.mk.injEq]
        exact take_insertSorted_of_le u.sorted (hu a (List.mem_cons_self ..))
      have hrest : ((u.insert a).extend l).initial n = (u.insert a).initial n := by
        apply ih
        intro b hb
        refine (hu b (List.mem_cons_of_mem _ hb)).trans ?_
        apply List.Subperm.length_le
        apply (u.nodup_elems.filter _).subperm
        intro c hc
        rw [List.mem_filter] at hc ⊢
        exact ⟨mem_insert.mpr (Or.inr hc.1), hc.2⟩
      calc (u.extend (a :: l)).initial n = ((u.insert a).extend l).initial n := rfl
        _ = u.initial n := hrest.trans hstep
  have hsplit : s.extend t.elems = (s.extend (t.elems.take n)).extend (t.elems.drop n) := by
    rw [extend, extend, extend, ← List.foldl_append, List.take_append_drop]
  have hsorted : (t.elems.take n ++ t.elems.drop n).Pairwise (· < ·) := by
    rw [List.take_append_drop]
    exact t.sorted
  rw [hsplit]
  refine (hdropped (t.elems.drop n) (s.extend (t.elems.take n)) fun a ha => ?_).symm
  -- A dropped element has all the kept ones below it.
  have hfull : (t.elems.take n).length = n := by
    rw [List.length_take, Nat.min_eq_left]
    by_contra hshort
    rw [List.drop_of_length_le (not_le.mp hshort).le] at ha
    exact List.not_mem_nil ha
  refine hfull.symm.le.trans ?_
  apply List.Subperm.length_le
  apply (t.nodup_elems.sublist (List.take_sublist n _)).subperm
  intro b hb
  rw [List.mem_filter]
  exact ⟨mem_extend.mpr (Or.inl hb), by
    simpa using (List.pairwise_append.mp hsorted).2.2 b hb a ha⟩

/-- A part larger than `n` makes the whole larger than `n`. -/
theorem BTreeSet.lt_size_extend_iff (s t : BTreeSet α) :
    n < (s.extend t.elems).size
      ↔ n < s.size ∨ n < t.size ∨ n < (s.extend (t.initial n).elems).size := by
  have ht : t.size ≤ (s.extend t.elems).size :=
    size_le_of_subset fun a ha => mem_extend.mpr (Or.inl ha)
  have hinitial : (s.extend (t.initial n).elems).size ≤ (s.extend t.elems).size := by
    apply size_le_of_subset
    intro a ha
    rw [mem_extend] at ha ⊢
    exact ha.imp_left fun h => mem_of_mem_initial h
  have hs := size_extend_mono s t.elems
  by_cases hle : t.size ≤ n
  · rw [initial_of_size_le hle]
    omega
  · omega

end Collections
