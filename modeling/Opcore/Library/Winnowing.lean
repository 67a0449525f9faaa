/-
  Opcore.Library.Winnowing

  Winnowing over an arbitrary linear order of hash values.  A sliding window
  over a sequence selects the rightmost position of the window's least value;
  a deque of candidate minima computes that position in one pass
  (`MinimaInv.head`).  The second part is the polynomial rolling hash that
  supplies such values, over an arbitrary commutative ring.
-/
import Mathlib.Data.List.Basic
import Mathlib.Data.List.DropRight
import Mathlib.Order.Defs.LinearOrder
import Mathlib.Algebra.Ring.Defs
import Mathlib.Tactic.Ring

namespace Winnowing

/-! ## Rightmost minima -/

/-- What is dropped from the back satisfies the test. -/
theorem mem_rdropWhile_or {α : Type*} {p : α → Bool} {l : List α} {e : α} (he : e ∈ l) :
    e ∈ l.rdropWhile p ∨ p e = true := by
  induction l using List.reverseRecOn with
  | nil => simp at he
  | append_singleton l a ih =>
    rw [List.rdropWhile_concat]
    split_ifs with ha
    · rcases List.mem_append.mp he with he | he
      · exact ih he
      · obtain rfl : e = a := by simpa using he
        exact Or.inr ha
    · exact Or.inl he

/-- Dropping from the front is filtering when the test, once false, stays false. -/
theorem mem_dropWhile_iff {α : Type*} {p : α → Bool} {l : List α} {e : α}
    (hl : l.Pairwise fun a b => p b = true → p a = true) :
    e ∈ l.dropWhile p ↔ e ∈ l ∧ p e = false := by
  induction l with
  | nil => simp
  | cons a l ih =>
    obtain ⟨ha, hl⟩ := List.pairwise_cons.mp hl
    rw [List.dropWhile_cons]
    split_ifs with hp
    · rw [ih hl, List.mem_cons]
      constructor
      · exact fun h => ⟨Or.inr h.1, h.2⟩
      · rintro ⟨rfl | he, hpe⟩
        · simp [hp] at hpe
        · exact ⟨he, hpe⟩
    · refine ⟨fun he => ⟨he, ?_⟩, fun h => h.1⟩
      rcases List.mem_cons.mp he with rfl | he
      · simpa using hp
      · by_contra hpe
        exact hp (ha e he (by simpa using hpe))

section Minima

variable {H : Type*} [LinearOrder H] {h : Nat → H} {span n lo hi i j : Nat}
  {minima : List (Nat × H)}

/-- `i` is the rightmost position of the least value of `h` on `[lo, hi)`. -/
structure RightmostMin (h : Nat → H) (lo hi i : Nat) : Prop where
  lo_le : lo ≤ i
  lt_hi : i < hi
  le : ∀ j, lo ≤ j → j < hi → h i ≤ h j
  lt_right : ∀ j, i < j → j < hi → h i < h j

theorem RightmostMin.unique (hi₁ : RightmostMin h lo hi i) (hj : RightmostMin h lo hi j) :
    i = j := by
  rcases Nat.lt_trichotomy i j with hlt | rfl | hlt
  · exact absurd (hi₁.lt_right j hlt hj.lt_hi) (not_lt.mpr (hj.le i hi₁.lo_le hi₁.lt_hi))
  · rfl
  · exact absurd (hj.lt_right i hlt hi₁.lt_hi) (not_lt.mpr (hi₁.le j hj.lo_le hj.lt_hi))

theorem exists_rightmostMin (h : Nat → H) (hlt : lo < hi) : ∃ i, RightmostMin h lo hi i := by
  obtain ⟨d, rfl⟩ := Nat.exists_eq_add_of_lt hlt
  induction d with
  | zero =>
    refine ⟨lo, le_rfl, by omega, fun j h₁ h₂ => ?_, fun j h₁ h₂ => by omega⟩
    obtain rfl : j = lo := by omega
    exact le_rfl
  | succ d ih =>
    obtain ⟨i, hi₁⟩ := ih (by omega)
    have hlo := hi₁.lo_le
    have hbound := hi₁.lt_hi
    rcases le_or_gt (h (lo + d + 1)) (h i) with hle | hgt
    · refine ⟨lo + d + 1, by omega, by omega, fun j h₁ h₂ => ?_, fun j h₁ h₂ => by omega⟩
      rcases Nat.lt_or_ge j (lo + d + 1) with hj | hj
      · exact hle.trans (hi₁.le j h₁ hj)
      · obtain rfl : j = lo + d + 1 := by omega
        exact le_rfl
    · refine ⟨i, hi₁.lo_le, by omega, fun j h₁ h₂ => ?_, fun j h₁ h₂ => ?_⟩
      · rcases Nat.lt_or_ge j (lo + d + 1) with hj | hj
        · exact hi₁.le j h₁ hj
        · obtain rfl : j = lo + d + 1 := by omega
          exact hgt.le
      · rcases Nat.lt_or_ge j (lo + d + 1) with hj | hj
        · exact hi₁.lt_right j h₁ hj
        · obtain rfl : j = lo + d + 1 := by omega
          exact hgt

/-- Moving both ends of a window to the right never moves its selection to the left. -/
theorem RightmostMin.mono {lo' hi' : Nat} (hi₁ : RightmostMin h lo hi i)
    (hj : RightmostMin h lo' hi' j) (hlo : lo ≤ lo') (hhi : hi ≤ hi') : i ≤ j := by
  by_contra hlt
  have hlt : j < i := not_le.mp hlt
  have h₁ : h i ≤ h j := hi₁.le j (hlo.trans hj.lo_le) (hlt.trans hi₁.lt_hi)
  have h₂ : h j < h i := hj.lt_right i hlt (hi₁.lt_hi.trans_le hhi)
  exact absurd h₂ (not_lt.mpr h₁)

/-- The same values select the same position, wherever the window lies. -/
theorem RightmostMin.shift {h' : Nat → H} {d : Nat} (hi₁ : RightmostMin h lo hi (lo + i))
    (hEq : ∀ j, lo + j < hi → h (lo + j) = h' (d + j)) :
    RightmostMin h' d (d + (hi - lo)) (d + i) := by
  have hlt := hi₁.lt_hi
  refine ⟨by omega, by omega, fun j hj hj' => ?_, fun j hj hj' => ?_⟩
  · obtain ⟨k, rfl⟩ := Nat.exists_eq_add_of_le hj
    rw [← hEq i hlt, ← hEq k (by omega)]
    exact hi₁.le (lo + k) (by omega) (by omega)
  · obtain ⟨k, rfl⟩ := Nat.exists_eq_add_of_le (show d ≤ j by omega)
    rw [← hEq i hlt, ← hEq k (by omega)]
    exact hi₁.lt_right (lo + k) (by omega) (by omega)

/-- Take in the value at `index`: drop the candidates it undercuts from the back,
    and those that left the window from the front. -/
def observe (span : Nat) (minima : List (Nat × H)) (index : Nat) (hash : H) : List (Nat × H) :=
  ((minima.rdropWhile fun e => hash ≤ e.2) ++ [(index, hash)]).dropWhile
    fun e => e.1 + span ≤ index

/-- The candidates after the first `n` values: positions of the current window
    with their values, increasing in both, such that every position of the
    window is undercut by a candidate at or after it. -/
structure MinimaInv (h : Nat → H) (span n : Nat) (minima : List (Nat × H)) : Prop where
  increasing : minima.Pairwise fun a b => a.1 < b.1 ∧ a.2 < b.2
  mem : ∀ e ∈ minima, e.1 < n ∧ n ≤ e.1 + span ∧ e.2 = h e.1
  cover : ∀ j < n, n ≤ j + span → ∃ e ∈ minima, j ≤ e.1 ∧ e.2 ≤ h j

theorem minimaInv_nil (h : Nat → H) (span : Nat) : MinimaInv h span 0 [] :=
  ⟨List.Pairwise.nil, by simp, by simp⟩

/-- The kept candidates are smaller than the new value. -/
theorem lt_of_mem_rdropWhile {hash : H} {e : Nat × H}
    (hinc : minima.Pairwise fun a b => a.1 < b.1 ∧ a.2 < b.2)
    (he : e ∈ minima.rdropWhile fun e => hash ≤ e.2) : e.2 < hash := by
  induction minima using List.reverseRecOn with
  | nil => simp at he
  | append_singleton l a ih =>
    obtain ⟨hl, -, hla⟩ := List.pairwise_append.mp hinc
    rw [List.rdropWhile_concat] at he
    split_ifs at he with ha
    · exact ih hl he
    · have hlt : a.2 < hash := by simpa using ha
      rcases List.mem_append.mp he with he | he
      · exact (hla e he a (by simp)).2.trans hlt
      · obtain rfl : e = a := by simpa using he
        exact hlt

theorem minimaInv_observe (hspan : 0 < span) (hI : MinimaInv h span n minima) :
    MinimaInv h span (n + 1) (observe span minima n (h n)) := by
  have hkept := (List.rdropWhile_prefix (fun e => decide (h n ≤ e.2)) minima).sublist
  -- the candidates before the front is trimmed
  have hinc : ((minima.rdropWhile fun e => h n ≤ e.2) ++ [(n, h n)]).Pairwise
      fun a b => a.1 < b.1 ∧ a.2 < b.2 := by
    refine List.pairwise_append.mpr ⟨hI.increasing.sublist hkept, List.pairwise_singleton _ _, ?_⟩
    intro a ha b hb
    obtain rfl : b = (n, h n) := by simpa using hb
    exact ⟨(hI.mem a (hkept.mem ha)).1, lt_of_mem_rdropWhile hI.increasing ha⟩
  have hvalue : ∀ e ∈ (minima.rdropWhile fun e => h n ≤ e.2) ++ [(n, h n)],
      e.1 < n + 1 ∧ e.2 = h e.1 := by
    intro e he
    rcases List.mem_append.mp he with he | he
    · obtain ⟨hlt, -, hval⟩ := hI.mem e (hkept.mem he)
      exact ⟨by omega, hval⟩
    · obtain rfl : e = (n, h n) := by simpa using he
      exact ⟨by simp, rfl⟩
  have hsub := List.dropWhile_sublist (l := (minima.rdropWhile fun e => h n ≤ e.2) ++ [(n, h n)])
    fun e => decide (e.1 + span ≤ n)
  have hmem : ∀ e, e ∈ observe span minima n (h n) ↔
      e ∈ (minima.rdropWhile fun e => h n ≤ e.2) ++ [(n, h n)] ∧ n < e.1 + span := by
    intro e
    rw [observe, mem_dropWhile_iff]
    · simp
    · refine hinc.imp fun {a b} hab => ?_
      simp only [decide_eq_true_eq]
      omega
  refine ⟨hinc.sublist hsub, fun e he => ?_, fun j hj hjn => ?_⟩
  · obtain ⟨he, hspan⟩ := (hmem e).mp he
    obtain ⟨hlt, hval⟩ := hvalue e he
    exact ⟨hlt, hspan, hval⟩
  · by_cases hjn' : j = n
    · subst hjn'
      exact ⟨(j, h j), (hmem _).mpr ⟨by simp, by omega⟩, le_rfl, le_rfl⟩
    · obtain ⟨e, he, hje, hle⟩ := hI.cover j (by omega) (by omega)
      rcases mem_rdropWhile_or (p := fun e : Nat × H => decide (h n ≤ e.2)) he with hkeep | hdrop
      · exact ⟨e, (hmem e).mpr ⟨by simp [hkeep], by omega⟩, hje, hle⟩
      · refine ⟨(n, h n), (hmem _).mpr ⟨by simp, by omega⟩, by omega, ?_⟩
        exact (of_decide_eq_true hdrop).trans hle

/-- The front candidate is the selection of the window. -/
theorem MinimaInv.head (hspan : 0 < span) (hn : span ≤ n) (hI : MinimaInv h span n minima) :
    ∃ i rest, minima = (i, h i) :: rest ∧ RightmostMin h (n - span) n i := by
  cases minima with
  | nil =>
    obtain ⟨e, he, -⟩ := hI.cover (n - 1) (by omega) (by omega)
    simp at he
  | cons front rest =>
    obtain ⟨i, v⟩ := front
    obtain ⟨hlt, hwin, hval⟩ := hI.mem (i, v) (List.mem_cons_self ..)
    simp only at hlt hwin hval
    subst hval
    obtain ⟨hfront, -⟩ := List.pairwise_cons.mp hI.increasing
    refine ⟨i, rest, rfl, by omega, hlt, fun j hj hjn => ?_, fun j hij hjn => ?_⟩
    · obtain ⟨e, he, -, hle⟩ := hI.cover j hjn (by omega)
      rcases List.mem_cons.mp he with rfl | he
      · exact hle
      · exact (hfront e he).2.le.trans hle
    · obtain ⟨e, he, hje, hle⟩ := hI.cover j hjn (by omega)
      rcases List.mem_cons.mp he with rfl | he
      · exact absurd hje (by omega)
      · exact (hfront e he).2.trans_le hle

/-! ## Selections of all windows -/

/-- `selected` lists the selections of the windows that end at or before `count`:
    each once, from left to right. -/
structure Selections (h : Nat → H) (span count : Nat) (selected : List Nat) : Prop where
  increasing : selected.Pairwise (· < ·)
  mem_iff : ∀ i, i ∈ selected ↔
    ∃ hi, span ≤ hi ∧ hi ≤ count ∧ RightmostMin h (hi - span) hi i
  last : span ≤ count → ∃ i, selected.getLast? = some i ∧ RightmostMin h (count - span) count i
  bound : ∀ i ∈ selected, i < span * selected.length

variable {count : Nat} {selected : List Nat}

theorem selections_nil (hcount : count < span) : Selections h span count [] := by
  refine ⟨List.Pairwise.nil, fun i => ?_, fun hle => absurd hle (by omega), by simp⟩
  simp only [List.not_mem_nil, false_iff]
  rintro ⟨hi, h₁, h₂, -⟩
  omega

theorem Selections.succ_of_lt (hS : Selections h span count selected) (hcount : count + 1 < span) :
    Selections h span (count + 1) selected := by
  have hnil : selected = [] := by
    refine List.eq_nil_iff_forall_not_mem.mpr fun i hi => ?_
    obtain ⟨hi, h₁, h₂, -⟩ := (hS.mem_iff i).mp hi
    omega
  rw [hnil]
  exact selections_nil hcount

/-- The windows that end at or before `count + 1` are those before and one more. -/
theorem Selections.mem_succ (hS : Selections h span count selected) (hcount : span ≤ count + 1)
    (hi₁ : RightmostMin h (count + 1 - span) (count + 1) i) :
    (∃ hi, span ≤ hi ∧ hi ≤ count + 1 ∧ RightmostMin h (hi - span) hi j) ↔
      j ∈ selected ∨ j = i := by
  rw [hS.mem_iff]
  constructor
  · rintro ⟨hi, h₁, h₂, hj⟩
    rcases Nat.lt_or_ge count hi with hlt | hle
    · obtain rfl : hi = count + 1 := by omega
      exact Or.inr (hj.unique hi₁)
    · exact Or.inl ⟨hi, h₁, hle, hj⟩
  · rintro (⟨hi, h₁, h₂, hj⟩ | rfl)
    · exact ⟨hi, h₁, by omega, hj⟩
    · exact ⟨count + 1, hcount, le_rfl, hi₁⟩

/-- A window with the selection of the window before it adds nothing. -/
theorem Selections.same (hS : Selections h span count selected) (hcount : span ≤ count + 1)
    (hi₁ : RightmostMin h (count + 1 - span) (count + 1) i)
    (hlast : selected.getLast? = some i) : Selections h span (count + 1) selected := by
  have hmem : i ∈ selected := List.mem_of_getLast? hlast
  refine ⟨hS.increasing, fun j => ?_, fun _ => ⟨i, hlast, hi₁⟩, hS.bound⟩
  rw [hS.mem_succ hcount hi₁]
  exact ⟨Or.inl, fun hj => hj.elim id fun hEq => hEq ▸ hmem⟩

/-- A window with a new selection adds it at the end, at most a span further on. -/
theorem Selections.new (hS : Selections h span count selected)
    (hcount : span ≤ count + 1) (hi₁ : RightmostMin h (count + 1 - span) (count + 1) i)
    (hlast : selected.getLast? ≠ some i) :
    Selections h span (count + 1) (selected ++ [i]) := by
  -- the earlier selections lie before the new one
  have hlt : ∀ j ∈ selected, j < i := by
    intro j hj
    obtain ⟨hi, h₁, h₂, hjmin⟩ := (hS.mem_iff j).mp hj
    have hji : j ≤ i := hjmin.mono hi₁ (by omega) (by omega)
    refine lt_of_le_of_ne hji fun hEq => hlast ?_
    subst hEq
    obtain ⟨k, hk, hkmin⟩ := hS.last (h₁.trans h₂)
    have hjk : j ≤ k := hjmin.mono hkmin (by omega) h₂
    have hkj : k ≤ j := hkmin.mono hi₁ (by omega) (by omega)
    rw [hk, Nat.le_antisymm hkj hjk]
  have hbound : i < span * (selected.length + 1) := by
    have hi_lt := hi₁.lt_hi
    rcases Nat.lt_or_ge count span with hsmall | hlarge
    · have hpos : span * 1 ≤ span * (selected.length + 1) := Nat.mul_le_mul_left _ (by omega)
      omega
    · obtain ⟨k, hk, hkmin⟩ := hS.last hlarge
      have hkb := hS.bound k (List.mem_of_getLast? hk)
      have hklo := hkmin.lo_le
      rw [Nat.mul_succ]
      omega
  refine ⟨?_, fun j => ?_, fun _ => ⟨i, by simp, hi₁⟩, fun j hj => ?_⟩
  · refine List.pairwise_append.mpr ⟨hS.increasing, List.pairwise_singleton _ _, ?_⟩
    intro j hj k hk
    obtain rfl : k = i := by simpa using hk
    exact hlt j hj
  · rw [hS.mem_succ hcount hi₁, List.mem_append, List.mem_singleton]
  · rw [List.length_append, List.length_singleton]
    rcases List.mem_append.mp hj with hj | hj
    · exact (hlt j hj).trans hbound
    · obtain rfl : j = i := by simpa using hj
      exact hbound

end Minima

/-! ## Rolling hash -/

section RollingHash

variable {R : Type*} [CommRing R]

/-- The polynomial hash of a window, first element first. -/
def polyHash (base : R) (window : List R) : R := window.foldl (fun acc t => acc * base + t) 0

theorem polyHash_concat (base t : R) (window : List R) :
    polyHash base (window ++ [t]) = polyHash base window * base + t := by
  simp [polyHash]

theorem polyHash_cons (base p : R) (window : List R) :
    polyHash base (p :: window) = p * base ^ window.length + polyHash base window := by
  induction window using List.reverseRecOn with
  | nil => simp [polyHash]
  | append_singleton window t ih =>
    rw [← List.cons_append, polyHash_concat, ih, polyHash_concat, List.length_append]
    simp only [List.length_singleton, pow_succ]
    ring

/-- Sliding the window by one: shift, add the new element, take off the old one. -/
theorem polyHash_slide (base p t : R) (window : List R) :
    polyHash base (p :: window) * base + t - p * base ^ (window.length + 1)
      = polyHash base (window ++ [t]) := by
  rw [polyHash_cons, polyHash_concat, pow_succ]
  ring

end RollingHash

end Winnowing
