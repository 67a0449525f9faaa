/-
  Opcore.Library.Smallest

  Keeping the `k` smallest items of a stream under a key.  Items with equal
  keys may replace each other, so the notion is a split: what is retained, and
  what was dropped because `k` items at most as large were there
  (`Smallest`).  It is kept by adding an item, by trading the greatest retained
  item for a smaller one, and by adding the retained items of another stream.
-/
import Mathlib.Data.List.Sort
import Mathlib.Data.List.Perm.Subperm

namespace Smallest

variable {α κ : Type*} [LinearOrder κ] {key : α → κ} {k : Nat}
  {retained all all' other : List α} {x : α}

/-! ## Sorting by a key -/

/-- The stable sort by a key. -/
def sortByKey (key : α → κ) (l : List α) : List α := l.insertionSort fun a b => key a ≤ key b

theorem sortByKey_perm (key : α → κ) (l : List α) : (sortByKey key l).Perm l :=
  List.perm_insertionSort _ l

theorem pairwise_sortByKey (key : α → κ) (l : List α) :
    (sortByKey key l).Pairwise fun a b => key a ≤ key b := by
  have : Std.Total fun a b : α => key a ≤ key b := ⟨fun a b => le_total (key a) (key b)⟩
  have : IsTrans α fun a b : α => key a ≤ key b := ⟨fun _ _ _ => le_trans⟩
  exact List.pairwise_insertionSort _ l

/-- No two members share a key. -/
def KeysDistinct (key : α → κ) (l : List α) : Prop := ∀ a ∈ l, ∀ b ∈ l, key a = key b → a = b

variable {l₁ l₂ : List α}

theorem eq_of_perm_of_sorted (key : α → κ) (hkeys : KeysDistinct key l₁) (h : l₁.Perm l₂)
    (h₁ : l₁.Pairwise fun a b => key a ≤ key b) (h₂ : l₂.Pairwise fun a b => key a ≤ key b) :
    l₁ = l₂ :=
  h.eq_of_pairwise (fun a b ha hb hab hba => hkeys a ha b (h.mem_iff.mpr hb) (le_antisymm hab hba))
    h₁ h₂

/-- Sorting forgets the order items came in, when their keys tell them apart. -/
theorem sortByKey_eq_of_perm (hkeys : KeysDistinct key l₁) (h : l₁.Perm l₂) :
    sortByKey key l₁ = sortByKey key l₂ := by
  refine eq_of_perm_of_sorted key ?_
    ((sortByKey_perm key l₁).trans (h.trans (sortByKey_perm key l₂).symm))
    (pairwise_sortByKey key l₁) (pairwise_sortByKey key l₂)
  intro a ha b hb
  exact hkeys a ((sortByKey_perm key l₁).mem_iff.mp ha) b ((sortByKey_perm key l₁).mem_iff.mp hb)

/-- A sorted list is determined by the items it holds under each key, in order. -/
theorem eq_of_filter_of_sorted (h₁ : l₁.Pairwise fun a b => key a ≤ key b)
    (h₂ : l₂.Pairwise fun a b => key a ≤ key b)
    (hfilter : ∀ c, l₁.filter (fun a => key a = c) = l₂.filter (fun a => key a = c)) :
    l₁ = l₂ := by
  have hmem : ∀ {l l' : List α}, (∀ c, l.filter (fun a => key a = c)
      = l'.filter (fun a => key a = c)) → ∀ a ∈ l, a ∈ l' := by
    intro l l' h a ha
    have ha' : a ∈ l'.filter fun b => key b = key a := by
      rw [← h]
      exact List.mem_filter.mpr ⟨ha, by simp⟩
    exact (List.mem_filter.mp ha').1
  induction l₁ generalizing l₂ with
  | nil =>
    cases l₂ with
    | nil => rfl
    | cons b l₂ => exact absurd (hmem (fun c => (hfilter c).symm) b (List.mem_cons_self ..)) (by simp)
  | cons a l₁ ih =>
    cases l₂ with
    | nil => exact absurd (hmem hfilter a (List.mem_cons_self ..)) (by simp)
    | cons b l₂ =>
      obtain ⟨ha, hl₁⟩ := List.pairwise_cons.mp h₁
      obtain ⟨hb, hl₂⟩ := List.pairwise_cons.mp h₂
      have hab : key a ≤ key b := by
        rcases List.mem_cons.mp (hmem (fun c => (hfilter c).symm) b (List.mem_cons_self ..))
          with rfl | h
        · exact le_rfl
        · exact ha b h
      have hba : key b ≤ key a := by
        rcases List.mem_cons.mp (hmem hfilter a (List.mem_cons_self ..)) with rfl | h
        · exact le_rfl
        · exact hb a h
      have hkey : key a = key b := le_antisymm hab hba
      have hhead := hfilter (key a)
      simp only [List.filter_cons, hkey, decide_true, if_true, List.cons.injEq] at hhead
      obtain ⟨rfl, -⟩ := hhead
      congr 1
      refine ih hl₁ hl₂ fun c => ?_
      have hc := hfilter c
      simp only [List.filter_cons] at hc
      split_ifs at hc
      · exact (List.cons.injEq .. ▸ hc).2
      · exact hc

/-- The sort is stable: under each key the order of the items is kept. -/
theorem filter_sortByKey (l : List α) (c : κ) :
    (sortByKey key l).filter (fun a => key a = c) = l.filter fun a => key a = c := by
  have : Std.Total fun a b : α => key a ≤ key b := ⟨fun a b => le_total (key a) (key b)⟩
  have : IsTrans α fun a b : α => key a ≤ key b := ⟨fun _ _ _ => le_trans⟩
  have hsorted : (l.filter fun a => key a = c).Pairwise fun a b => key a ≤ key b := by
    refine List.pairwise_of_forall_mem_list fun a ha b hb => ?_
    simp only [List.mem_filter, decide_eq_true_eq] at ha hb
    rw [ha.2, hb.2]
  have hsub := (List.sublist_insertionSort hsorted List.filter_sublist).filter
    fun a => decide (key a = c)
  rw [List.filter_filter] at hsub
  simp only [Bool.and_self] at hsub
  exact (hsub.eq_of_length (((sortByKey_perm key l).filter _).length_eq.symm)).symm

theorem sortByKey_eq_of_filter
    (h : ∀ c, l₁.filter (fun a => key a = c) = l₂.filter (fun a => key a = c)) :
    sortByKey key l₁ = sortByKey key l₂ := by
  refine eq_of_filter_of_sorted (pairwise_sortByKey key l₁) (pairwise_sortByKey key l₂) fun c => ?_
  rw [filter_sortByKey, filter_sortByKey, h]

/-! ## The greatest item -/

/-- The greatest item of a list and the others. -/
def popGreatest (key : α → κ) : List α → Option (α × List α)
  | [] => none
  | a :: l =>
    match popGreatest key l with
    | none => some (a, [])
    | some (x, rest) => if key a < key x then some (x, a :: rest) else some (a, l)

theorem popGreatest_eq_none {l : List α} : popGreatest key l = none ↔ l = [] := by
  cases l with
  | nil => simp [popGreatest]
  | cons a l =>
    rw [popGreatest]
    split
    · simp
    · split_ifs <;> simp

theorem popGreatest_spec {l rest : List α} (h : popGreatest key l = some (x, rest)) :
    (x :: rest).Perm l ∧ ∀ y ∈ l, key y ≤ key x := by
  induction l generalizing x rest with
  | nil => cases h
  | cons a l ih =>
    rw [popGreatest] at h
    split at h
    · rename_i hnone
      cases h
      rw [popGreatest_eq_none.mp hnone]
      simp
    · rename_i y others hsome
      obtain ⟨hperm, hmax⟩ := ih hsome
      split_ifs at h with hlt
      · cases h
        refine ⟨(List.Perm.swap a x others).trans (hperm.cons a), fun z hz => ?_⟩
        rcases List.mem_cons.mp hz with rfl | hz
        · exact hlt.le
        · exact hmax z hz
      · cases h
        refine ⟨List.Perm.refl _, fun z hz => ?_⟩
        rcases List.mem_cons.mp hz with rfl | hz
        · exact le_rfl
        · exact (hmax z hz).trans (not_lt.mp hlt)

/-- Trade the greatest item for a smaller candidate. -/
def retainBounded (key : α → κ) (retained : List α) (candidate : α) : List α :=
  match popGreatest key retained with
  | some (largest, rest) => if key candidate < key largest then candidate :: rest else retained
  | none => retained

/-! ## The k smallest -/

/-- `retained` are `k` smallest items of `all`, or all of them if they are fewer. -/
def IsSmallest (key : α → κ) (k : Nat) (retained all : List α) : Prop :=
  ∃ dropped, (retained ++ dropped).Perm all ∧ retained.length = min k all.length
    ∧ ∀ r ∈ retained, ∀ d ∈ dropped, key r ≤ key d

theorem isSmallest_nil : IsSmallest key k [] [] := ⟨[], by simp⟩

theorem IsSmallest.perm (h : IsSmallest key k retained all) (hp : all.Perm all') :
    IsSmallest key k retained all' := by
  obtain ⟨dropped, hperm, hlen, hle⟩ := h
  exact ⟨dropped, hperm.trans hp, by rw [hlen, hp.length_eq], hle⟩

theorem IsSmallest.perm_left {retained' : List α} (h : IsSmallest key k retained all)
    (hp : retained.Perm retained') : IsSmallest key k retained' all := by
  obtain ⟨dropped, hperm, hlen, hle⟩ := h
  exact ⟨dropped, (hp.symm.append_right dropped).trans hperm, by rw [← hp.length_eq, hlen],
    fun r hr => hle r (hp.mem_iff.mpr hr)⟩

/-- Below the bound nothing was dropped. -/
theorem IsSmallest.perm_of_lt (h : IsSmallest key k retained all) (hlt : all.length ≤ k) :
    retained.Perm all := by
  obtain ⟨dropped, hperm, hlen, -⟩ := h
  have hnil : dropped = [] := by
    have := hperm.length_eq
    rw [List.length_append] at this
    exact List.length_eq_zero_iff.mp (by omega)
  simpa [hnil] using hperm

theorem IsSmallest.push_room (h : IsSmallest key k retained all) (hroom : retained.length < k) :
    IsSmallest key k (retained ++ [x]) (all ++ [x]) := by
  have hlen : retained.length = min k all.length := by
    obtain ⟨-, -, hlen, -⟩ := h
    exact hlen
  have hperm := h.perm_of_lt (by omega)
  refine ⟨[], by simpa using hperm.append_right [x], ?_, by simp⟩
  rw [List.length_append, List.length_append, List.length_singleton]
  omega

theorem IsSmallest.push_full (h : IsSmallest key k retained all) (hfull : retained.length = k)
    (hk : 0 < k) : IsSmallest key k (retainBounded key retained x) (all ++ [x]) := by
  obtain ⟨dropped, hperm, hlen, hle⟩ := h
  rw [retainBounded]
  split
  · rename_i largest rest hpop
    obtain ⟨hrest, hmax⟩ := popGreatest_spec hpop
    split_ifs with hlt
    · -- the greatest retained item is dropped for the candidate
      refine ⟨largest :: dropped, ?_, ?_, ?_⟩
      · have h₁ : ((x :: rest) ++ largest :: dropped).Perm ((largest :: rest) ++ dropped ++ [x]) := by
          have h₂ : ((x :: rest) ++ largest :: dropped).Perm (x :: (largest :: (rest ++ dropped))) := by
            exact (List.perm_middle).cons x
          refine h₂.trans ?_
          rw [List.cons_append]
          exact (List.perm_append_singleton x _).symm
        exact h₁.trans ((hrest.append_right dropped |>.trans hperm).append_right [x])
      · have hlen' := hrest.length_eq
        rw [List.length_cons] at hlen' ⊢
        rw [List.length_append, List.length_singleton]
        omega
      · intro r hr d hd
        have hr' : key r ≤ key largest := by
          rcases List.mem_cons.mp hr with rfl | hr
          · exact hlt.le
          · exact hmax r (hrest.mem_iff.mp (List.mem_cons_of_mem _ hr))
        rcases List.mem_cons.mp hd with rfl | hd
        · exact hr'
        · exact hr'.trans (hle largest (hrest.mem_iff.mp (List.mem_cons_self ..)) d hd)
    · refine ⟨dropped ++ [x], ?_, ?_, ?_⟩
      · rw [← List.append_assoc]
        exact hperm.append_right [x]
      · rw [List.length_append, List.length_singleton]
        omega
      · intro r hr d hd
        rcases List.mem_append.mp hd with hd | hd
        · exact hle r hr d hd
        · obtain rfl : d = x := by simpa using hd
          exact (hmax r hr).trans (not_lt.mp hlt)
  · rename_i hnone
    rw [popGreatest_eq_none.mp hnone] at hfull
    exact absurd hfull (by simp; omega)

/-- Adding what another stream retained is adding the whole other stream. -/
theorem IsSmallest.absorb {retained' : List α} (h : IsSmallest key k retained' (all ++ retained))
    (h₂ : IsSmallest key k retained other) : IsSmallest key k retained' (all ++ other) := by
  obtain ⟨dropped, hperm, hlen, hle⟩ := h
  obtain ⟨dropped₂, hperm₂, hlen₂, hle₂⟩ := h₂
  refine ⟨dropped ++ dropped₂, ?_, ?_, ?_⟩
  · rw [← List.append_assoc]
    refine (hperm.append_right dropped₂).trans ?_
    rw [List.append_assoc]
    exact hperm₂.append_left all
  · have hlen' := hperm₂.length_eq
    rw [List.length_append] at hlen' hlen ⊢
    omega
  · intro r hr d hd
    rcases List.mem_append.mp hd with hd | hd
    · exact hle r hr d hd
    · -- the other stream dropped an item, so it retained `k` items at most as large
      have hk : retained.length = k := by
        have hlen' := hperm₂.length_eq
        have hpos : 0 < dropped₂.length := List.length_pos_of_mem hd
        rw [List.length_append] at hlen'
        omega
      by_contra hlt
      have hlt : key d < key r := not_le.mp hlt
      have hsmall : ∀ y ∈ retained, key y < key r := fun y hy => (hle₂ y hy d hd).trans_lt hlt
      -- count the items below `r`: at least `k` came in, fewer than `k` were retained
      have hcount := hperm.countP_eq fun y => decide (key y < key r)
      have hdropped : dropped.countP (fun y => decide (key y < key r)) = 0 :=
        List.countP_eq_zero.mpr fun y hy => by simpa using hle r hr y hy
      have hin : retained.countP (fun y => decide (key y < key r)) = retained.length :=
        List.countP_eq_length.mpr fun y hy => by simpa using hsmall y hy
      have hout : retained'.countP (fun y => decide (key y < key r)) < retained'.length := by
        refine lt_of_le_of_ne List.countP_le_length fun hEq => ?_
        have := List.countP_eq_length.mp hEq r hr
        simp at this
      rw [List.countP_append, List.countP_append] at hcount
      omega

/-- Sorted, the retained items are the first `k` of all, when keys are distinct. -/
theorem IsSmallest.sorted (h : IsSmallest key k retained all) (hkeys : KeysDistinct key all) :
    sortByKey key retained = (sortByKey key all).take k := by
  obtain ⟨dropped, hperm, hlen, hle⟩ := h
  have hr := sortByKey_perm key retained
  have hd := sortByKey_perm key dropped
  have hsorted : sortByKey key all = sortByKey key retained ++ sortByKey key dropped := by
    refine eq_of_perm_of_sorted key ?_ ?_ (pairwise_sortByKey key all) ?_
    · intro a ha b hb
      exact hkeys a ((sortByKey_perm key all).mem_iff.mp ha) b
        ((sortByKey_perm key all).mem_iff.mp hb)
    · exact (sortByKey_perm key all).trans (hperm.symm.trans (hr.symm.append hd.symm))
    · refine List.pairwise_append.mpr ⟨pairwise_sortByKey key _, pairwise_sortByKey key _, ?_⟩
      exact fun a ha b hb => hle a (hr.mem_iff.mp ha) b (hd.mem_iff.mp hb)
  have hlenr : (sortByKey key retained).length = min k all.length := by rw [hr.length_eq, hlen]
  have hlend := hperm.length_eq
  rw [List.length_append] at hlend
  rw [hsorted]
  rcases Nat.lt_or_ge k all.length with hlt | hge
  · rw [List.take_left' (by omega)]
  · have hnil : dropped = [] := List.length_eq_zero_iff.mp (by omega)
    rw [hnil, show sortByKey key ([] : List α) = [] from rfl, List.append_nil,
      List.take_of_length_le (by omega)]

end Smallest
