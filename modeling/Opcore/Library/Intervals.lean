/-
  Opcore.Library.Intervals

  Selecting non-overlapping intervals from left to right, on each of several
  lanes: an interval is kept when it starts behind the one kept last on its
  lane.
-/
import Mathlib.Order.Defs.LinearOrder
import Mathlib.Data.List.Sort

namespace Intervals

variable {α β κ : Type*} [LinearOrder κ] {lane : α → κ} {start stop : α → Nat}

/-- `prior` is the interval kept last. -/
def leftmost (lane : α → κ) (start stop : α → Nat) : (prior : Option α) → List α → List α
  | _, [] => []
  | prior, x :: rest =>
    if prior.all fun p => lane p ≠ lane x ∨ stop p ≤ start x then
      x :: leftmost lane start stop (some x) rest
    else leftmost lane start stop prior rest

theorem leftmost_sublist (prior : Option α) (l : List α) :
    (leftmost lane start stop prior l).Sublist l := by
  induction l generalizing prior with
  | nil => exact .slnil
  | cons x rest ih =>
    rw [leftmost]
    split_ifs
    · exact (ih _).cons_cons x
    · exact (ih _).cons x

/-- On lists sorted by lane and start, nothing kept later on the lane of `p`
    starts before `p` stops. -/
theorem leftmost_after {p : α} {l : List α} (hlen : ∀ x ∈ l, start x ≤ stop x)
    (hlane : l.Pairwise fun x y => lane x ≤ lane y) (hp : ∀ x ∈ l, lane p ≤ lane x) :
    ∀ y ∈ leftmost lane start stop (some p) l, lane p = lane y → stop p ≤ start y := by
  induction l generalizing p with
  | nil => simp [leftmost]
  | cons x rest ih =>
    rw [List.pairwise_cons] at hlane
    have hlen' : ∀ y ∈ rest, start y ≤ stop y := fun y hy => hlen y (List.mem_cons_of_mem x hy)
    intro y hy hEq
    rw [leftmost] at hy
    split_ifs at hy with hkeep
    · have hkeep : lane p ≠ lane x ∨ stop p ≤ start x := by simpa using hkeep
      rcases List.mem_cons.mp hy with rfl | hy
      · exact hkeep.resolve_left (not_not.mpr hEq)
      · -- `x` lies between `p` and `y`, so it is on their lane
        have hyl : y ∈ rest := (leftmost_sublist (some x) rest).subset hy
        have hpx : lane p = lane x :=
          le_antisymm (hp x (List.mem_cons_self ..)) (hEq ▸ hlane.1 y hyl)
        have hxy := ih hlen' hlane.2 hlane.1 y hy (hpx ▸ hEq)
        have hx := hlen x (List.mem_cons_self ..)
        have := hkeep.resolve_left (not_not.mpr hpx)
        omega
    · exact ih hlen' hlane.2 (fun z hz => hp z (List.mem_cons_of_mem x hz)) y hy hEq

/-- What is kept is pairwise disjoint on each lane, in order. -/
theorem pairwise_leftmost {l : List α} (hlen : ∀ x ∈ l, start x ≤ stop x)
    (hlane : l.Pairwise fun x y => lane x ≤ lane y) (prior : Option α) :
    (leftmost lane start stop prior l).Pairwise fun x y => lane x = lane y → stop x ≤ start y := by
  induction l generalizing prior with
  | nil => exact .nil
  | cons x rest ih =>
    rw [List.pairwise_cons] at hlane
    have hlen' : ∀ y ∈ rest, start y ≤ stop y := fun y hy => hlen y (List.mem_cons_of_mem x hy)
    rw [leftmost]
    split_ifs
    · exact List.pairwise_cons.mpr ⟨leftmost_after hlen' hlane.2 hlane.1, ih hlen' hlane.2 _⟩
    · exact ih hlen' hlane.2 prior

/-- The selection looks at lanes and bounds only. -/
theorem map_leftmost {lane' : β → κ} {start' stop' : β → Nat} (f : α → β) {l : List α}
    {prior : Option α} (hlane : ∀ x, lane' (f x) = lane x) (hstart : ∀ x, start' (f x) = start x)
    (hl : ∀ x ∈ l, stop' (f x) = stop x) (hp : ∀ x ∈ prior, stop' (f x) = stop x) :
    (leftmost lane start stop prior l).map f
      = leftmost lane' start' stop' (prior.map f) (l.map f) := by
  induction l generalizing prior with
  | nil => rfl
  | cons x rest ih =>
    have hrest : ∀ y ∈ rest, stop' (f y) = stop y := fun y hy => hl y (List.mem_cons_of_mem x hy)
    have hx : stop' (f x) = stop x := hl x (List.mem_cons_self ..)
    have htest : ((prior.map f).all fun p => lane' p ≠ lane' (f x) ∨ stop' p ≤ start' (f x))
        = prior.all fun p => lane p ≠ lane x ∨ stop p ≤ start x := by
      cases prior with
      | none => rfl
      | some p => simp [hlane, hstart, hp p rfl]
    rw [List.map_cons, leftmost, leftmost, htest]
    split_ifs
    · rw [List.map_cons, ih hrest (fun y hy => by cases hy; exact hx), Option.map_some]
    · exact ih hrest hp

end Intervals
