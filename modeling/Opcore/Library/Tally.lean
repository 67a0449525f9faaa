/-
  Opcore.Library.Tally

  Multiset difference by counting: a tally of keys, and the pass that drops
  each item whose key still has credit in the tally.
-/
import Opcore.Library.BTreeMap
import Mathlib.Data.List.Count

namespace Collections

variable {α κ : Type*} [LinearOrder κ] {key : α → κ} {k k' : κ} {counts : BTreeMap κ Nat}

/-- Count the keys of a list: `*counts.entry(k).or_default() += 1` for each. -/
def tally (keys : List κ) : BTreeMap κ Nat :=
  keys.foldl (fun counts k => counts.upsert k 0 (· + 1)) ∅

theorem getD_get?_tally {p : κ → Bool} (hp : ∀ k', p k' = true ↔ k' = k) (keys : List κ) :
    ((tally keys).get? k).getD 0 = keys.countP p := by
  have hfold : ∀ m : BTreeMap κ Nat,
      ((keys.foldl (fun counts k => counts.upsert k 0 (· + 1)) m).get? k).getD 0
        = (m.get? k).getD 0 + keys.countP p := by
    induction keys with
    | nil => simp
    | cons k₀ keys ih =>
      intro m
      rw [List.foldl_cons, ih, BTreeMap.get?_upsert, List.countP_cons]
      by_cases hk : k₀ = k
      · subst hk
        simp [(hp k₀).mpr rfl]
        omega
      · have hk' : k ≠ k₀ := fun h => hk h.symm
        simp [hk', mt (hp k₀).mp hk]
  simpa [tally] using hfold ∅

/-- Spend one unit of credit, if there is one. -/
def decrement (counts : BTreeMap κ Nat) (k : κ) : Option (BTreeMap κ Nat) :=
  match counts.get? k with
  | some (n + 1) => some (counts.insert k n)
  | _ => none

/-- The items that find no credit under their key. -/
def uncredited (key : α → κ) (counts : BTreeMap κ Nat) : List α → List α
  | [] => []
  | item :: rest =>
    match decrement counts (key item) with
    | some counts' => uncredited key counts' rest
    | none => item :: uncredited key counts rest

theorem uncredited_sublist (counts : BTreeMap κ Nat) (l : List α) :
    (uncredited key counts l).Sublist l := by
  induction l generalizing counts with
  | nil => exact .slnil
  | cons item rest ih =>
    rw [uncredited]
    split
    · exact (ih _).cons _
    · exact (ih _).cons_cons _

/-- Under each key as many items are dropped as there is credit. -/
theorem countP_uncredited {p : α → Bool} (hp : ∀ item, p item = true ↔ key item = k)
    (counts : BTreeMap κ Nat) (l : List α) :
    (uncredited key counts l).countP p = l.countP p - (counts.get? k).getD 0 := by
  induction l generalizing counts with
  | nil => simp [uncredited]
  | cons item rest ih =>
    rw [uncredited, decrement]
    by_cases hk : key item = k
    · have hpos : p item = true := (hp item).mpr hk
      subst hk
      cases hget : counts.get? (key item) with
      | none => simp [ih, hget, hpos]
      | some n =>
        cases n with
        | zero => simp [ih, hget, hpos]
        | succ n => simp [ih, hpos]
    · have hneg : p item = false := by simpa using mt (hp item).mp hk
      have hk' : k ≠ key item := fun h => hk h.symm
      cases hget : counts.get? (key item) with
      | none => simp [ih, hneg]
      | some n =>
        cases n with
        | zero => simp [ih, hneg]
        | succ n => simp [ih, hneg, hk', BTreeMap.get?_insert]

end Collections
