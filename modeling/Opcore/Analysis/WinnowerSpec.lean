/-
  Opcore.Analysis.WinnowerSpec

  What the winnower computes, in closed form: the hash pair of a k-gram is a
  pair of polynomials, and the anchors are the positions that some window of
  k-grams selects.
-/
import Opcore.Analysis.Dedup
import Mathlib.Algebra.BigOperators.Fin

namespace Opcore

open Text Collections Winnowing
open scoped UInt64.CommRing

/-! ## Specification -/

/-- `t[i] B^31 + t[i+1] B^30 + … + t[i+31]`, modulo `2^64`. -/
noncomputable def kgramPolynomial (base : UInt64) (t : Nat → UInt64) (i : Nat) : UInt64 :=
  ∑ m ∈ Finset.range dedupRegionKgramTokens,
    t (i + m) * base ^ (dedupRegionKgramTokens - 1 - m)

/-- The pair of polynomials of the k-gram at a position. -/
noncomputable def kgramPair (ts : List (UInt64 × UInt64)) (i : Nat) : UInt64 ×ₗ UInt64 :=
  toLex (kgramPolynomial rollingBaseOne (fun j => (ts.getD j (0, 0)).1) i,
    kgramPolynomial rollingBaseTwo (fun j => (ts.getD j (0, 0)).2) i)

/-- The number of k-grams of a stream. -/
def kgramTotal (ts : List (UInt64 × UInt64)) : Nat := ts.length - (dedupRegionKgramTokens - 1)

/-- Some window of consecutive k-grams has its rightmost least pair here. -/
def IsSelected (ts : List (UInt64 × UInt64)) (i : Nat) : Prop :=
  ∃ lo, lo + dedupRegionWinnowSpan ≤ kgramTotal ts
    ∧ RightmostMin (kgramPair ts) lo (lo + dedupRegionWinnowSpan) i

noncomputable instance (ts : List (UInt64 × UInt64)) (i : Nat) : Decidable (IsSelected ts i) :=
  Classical.propDecidable _

/-- The selected positions in increasing order. -/
noncomputable def selectedPositions (ts : List (UInt64 × UInt64)) : List Nat :=
  (List.range (kgramTotal ts)).filter fun i => IsSelected ts i

noncomputable def fingerprintAt (ts : List (UInt64 × UInt64)) (i : Nat) : RegionFingerprint :=
  ⟨(ofLex (kgramPair ts i)).1, (ofLex (kgramPair ts i)).2, i⟩

/-! ## The rolling hash is the polynomial -/

theorem polyHash_eq_sum {R : Type*} [CommRing R] (base : R) (window : List R) :
    polyHash base window
      = ∑ m ∈ Finset.range window.length, window.getD m 0 * base ^ (window.length - 1 - m) := by
  induction window with
  | nil => rfl
  | cons p window ih =>
    rw [polyHash_cons, List.length_cons, Finset.sum_range_succ', ih, add_comm]
    congr 1
    refine Finset.sum_congr rfl ?_
    intro m hm
    have hlt := Finset.mem_range.mp hm
    rw [List.getD_cons_succ, show window.length + 1 - 1 - (m + 1) = window.length - 1 - m by omega]

/-- Inside the stream the window's hash is the pair of polynomials. -/
theorem kgramHash_eq_pair {ts : List (UInt64 × UInt64)} {i : Nat} (hi : i < kgramTotal ts) :
    kgramHash ts i = kgramPair ts i := by
  have hpos : 0 < dedupRegionKgramTokens := by decide
  have hfit : i + dedupRegionKgramTokens ≤ ts.length := by
    unfold kgramTotal at hi
    omega
  have hlen : (kgram ts i).length = dedupRegionKgramTokens := by
    rw [kgram, List.length_take, List.length_drop]
    omega
  have hget : ∀ m < dedupRegionKgramTokens, ∀ f : UInt64 × UInt64 → UInt64, f (0, 0) = 0 →
      ((kgram ts i).map f).getD m 0 = f (ts.getD (i + m) (0, 0)) := by
    intro m hm f hf
    rw [List.getD_eq_getElem?_getD, List.getElem?_map, kgram, List.getElem?_take, if_pos hm,
      List.getElem?_drop, List.getD_eq_getElem?_getD]
    cases ts[i + m]? with
    | none => exact hf.symm
    | some token => rfl
  have hpoly : ∀ (base : UInt64) (f : UInt64 × UInt64 → UInt64), f (0, 0) = 0 →
      polyHash base ((kgram ts i).map f)
        = kgramPolynomial base (fun j => f (ts.getD j (0, 0))) i := by
    intro base f hf
    rw [polyHash_eq_sum, List.length_map, hlen]
    refine Finset.sum_congr rfl ?_
    intro m hm
    rw [hget m (Finset.mem_range.mp hm) f hf]
  unfold kgramHash windowHash kgramPair
  rw [hpoly rollingBaseOne Prod.fst rfl, hpoly rollingBaseTwo Prod.snd rfl]

theorem RightmostMin.congr {H : Type*} [LinearOrder H] {h h' : Nat → H} {lo hi i : Nat}
    (heq : ∀ j < hi, h j = h' j) : RightmostMin h lo hi i ↔ RightmostMin h' lo hi i := by
  have hone : ∀ {h h' : Nat → H}, (∀ j < hi, h j = h' j) → RightmostMin h lo hi i →
      RightmostMin h' lo hi i := by
    intro h h' heq hmin
    refine ⟨hmin.lo_le, hmin.lt_hi, ?_, ?_⟩
    · intro j hlo hj
      rw [← heq i hmin.lt_hi, ← heq j hj]
      exact hmin.le j hlo hj
    · intro j hij hj
      rw [← heq i hmin.lt_hi, ← heq j hj]
      exact hmin.lt_right j hij hj
  exact ⟨hone heq, hone fun j hj => (heq j hj).symm⟩

/-- The selections the deque makes over the whole stream are the specified ones. -/
theorem selected_eq_positions {ts : List (UInt64 × UInt64)} {selected : List Nat}
    (hS : Selections (kgramHash ts) dedupRegionWinnowSpan (kgramTotal ts) selected) :
    selected = selectedPositions ts := by
  refine eq_of_pairwise_lt_of_mem hS.increasing (List.Pairwise.filter _ List.pairwise_lt_range) ?_
  intro i
  rw [hS.mem_iff, selectedPositions, List.mem_filter, List.mem_range, decide_eq_true_eq]
  constructor
  · rintro ⟨hi, hspan, hle, hmin⟩
    refine ⟨hmin.lt_hi.trans_le hle, hi - dedupRegionWinnowSpan, by omega, ?_⟩
    rw [Nat.sub_add_cancel hspan]
    exact (RightmostMin.congr fun j hj => kgramHash_eq_pair (hj.trans_le hle)).mp hmin
  · rintro ⟨-, lo, hle, hmin⟩
    refine ⟨lo + dedupRegionWinnowSpan, Nat.le_add_left _ _, hle, ?_⟩
    rw [Nat.add_sub_cancel]
    exact (RightmostMin.congr fun j hj => kgramHash_eq_pair (hj.trans_le hle)).mpr hmin

/-! ## Refinement -/

/-- The winnower refines its specification: the anchors of a stream whose pushes
    are all kept are the fingerprints of the selected positions in order, and a
    push is refused only when there are more of them than the limit. -/
theorem winnower_refines (ts : List (UInt64 × UInt64)) :
    (∀ w, ts.foldlM Winnower.push {} = some w →
        w.anchors = (selectedPositions ts).map (fingerprintAt ts))
      ∧ ∀ w token, ts.foldlM Winnower.push {} = some w → w.push token = none →
        maxRegionFingerprintsPerFile < (selectedPositions (ts ++ [token])).length := by
  refine ⟨?_, ?_⟩
  · intro w hw
    have hI := pushedInv_foldlM ts hw
    obtain ⟨selected, hS, -, hanchors, hlen⟩ := hI.observed.selections
    rw [hI.count] at hS
    have hselected : selected = selectedPositions ts := selected_eq_positions hS
    rw [hanchors, ← hselected]
    apply List.map_congr_left
    intro i hi
    have hlt : i < kgramTotal ts := by
      rw [hselected, selectedPositions, List.mem_filter, List.mem_range] at hi
      exact hi.1
    unfold anchorAt fingerprintAt
    rw [min_selected hS hlen hi, kgramHash_eq_pair hlt]
  · intro w token hw hrefused
    have hn : ts.length < (ts ++ [token]).length := by simp
    have hI : PushedInv (ts ++ [token]) ts.length w := by
      refine pushedInv_take _ hn.le ?_
      rw [List.take_left']
      · exact hw
      · rfl
    obtain ⟨w₁, hwindow, hhash, hcount, hO, hpush⟩ := push_cases hn hI
    have htoken : (ts ++ [token])[ts.length] = token := by simp
    rw [htoken, hrefused] at hpush
    split_ifs at hpush with hsmall
    obtain ⟨selected, hS, hmany, -⟩ :=
      hO.observeKgram (hash_of_full (by omega) hwindow hhash hcount)
    have htotal : w₁.kgramCount + 1 = kgramTotal (ts ++ [token]) := by
      have hpos : 0 < dedupRegionKgramTokens := by decide
      rw [hcount, kgramTotal, List.length_append, List.length_singleton]
      omega
    rw [htotal] at hS
    rw [← selected_eq_positions hS]
    exact hmany hpush.symm

/-- Forty-eight equal tokens make one window, which selects its last k-gram. -/
theorem winnower_refines_equal :
    ∃ w, (List.replicate 48 ((1, 1) : UInt64 × UInt64)).foldlM Winnower.push {} = some w
      ∧ w.anchors.map RegionFingerprint.tokenIndex = [16]
      ∧ w.anchors = (selectedPositions (List.replicate 48 (1, 1))).map
        (fingerprintAt (List.replicate 48 (1, 1))) := by
  have hrun : ((List.replicate 48 ((1, 1) : UInt64 × UInt64)).foldlM Winnower.push {}).any
      (fun w => w.anchors.map RegionFingerprint.tokenIndex = [16]) = true := by decide +kernel
  obtain ⟨w, hw, hanchors⟩ := (Option.any_eq_true _ _).mp hrun
  exact ⟨w, hw, of_decide_eq_true hanchors, (winnower_refines _).1 w hw⟩

end Opcore
