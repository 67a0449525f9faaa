/-
  Opcore.Library.Digraph

  Strongly connected components of a directed graph given by its edge
  relation, over an arbitrary type of vertices.

  The algorithmic content is the notion of a *finishing order*: the order in
  which a depth-first search leaves the vertices.  Read backwards, such an
  order makes backward closure compute components: when every later vertex is
  already in a set `V` closed under predecessors, the vertices outside `V` that
  reach the next vertex are exactly its component
  (`FinishingOrder.component_eq`).
-/
import Mathlib.Logic.Relation
import Mathlib.Data.Set.Basic

namespace Digraph

variable {α : Type*} {E : α → α → Prop} {S T V : Set α} {a b c v w : α}

/-- Reachability along edges. -/
abbrev Reach (E : α → α → Prop) : α → α → Prop := Relation.ReflTransGen E

/-- Two vertices that reach each other. -/
def Mutual (E : α → α → Prop) (a b : α) : Prop := Reach E a b ∧ Reach E b a

/-- The strongly connected component of a vertex. -/
def component (E : α → α → Prop) (a : α) : Set α := {b | Mutual E a b}

theorem Mutual.refl (a : α) : Mutual E a a := ⟨.refl, .refl⟩

theorem Mutual.symm (h : Mutual E a b) : Mutual E b a := ⟨h.2, h.1⟩

theorem Mutual.trans (h₁ : Mutual E a b) (h₂ : Mutual E b c) : Mutual E a c :=
  ⟨h₁.1.trans h₂.1, h₂.2.trans h₁.2⟩

theorem mem_component_self (a : α) : a ∈ component E a := Mutual.refl a

theorem component_eq_of_mutual (h : Mutual E a b) : component E a = component E b := by
  ext x
  exact ⟨fun hx => h.symm.trans hx, fun hx => h.trans hx⟩

theorem component_eq_of_mem (h : b ∈ component E a) : component E b = component E a :=
  (component_eq_of_mutual h).symm

/-- A vertex between two mutually reachable vertices lies in their component. -/
theorem Mutual.of_between (h : Mutual E a b) (h₁ : Reach E a v) (h₂ : Reach E v b) :
    Mutual E a v :=
  ⟨h₁, h₂.trans h.2⟩

/-- Inside a component, paths can be taken without leaving it. -/
theorem reach_within_component (h : Mutual E a b) :
    Reach (fun x y => Mutual E a x ∧ Mutual E a y ∧ E x y) a b := by
  have key : ∀ x, Reach E a x → Reach E x b →
      Reach (fun x y => Mutual E a x ∧ Mutual E a y ∧ E x y) a x := by
    intro x hx
    induction hx with
    | refl => exact fun _ => .refl
    | tail hy hyz ih =>
      intro hzb
      refine (ih (.head hyz hzb)).tail ⟨?_, ?_, hyz⟩
      · exact h.of_between hy (.head hyz hzb)
      · exact h.of_between (hy.tail hyz) hzb
  exact key b h.1 .refl

/-- Edges leaving a set of vertices. -/
def EdgeFrom (E : α → α → Prop) (S : Set α) (a b : α) : Prop := a ∈ S ∧ E a b

theorem EdgeFrom.reach (h : Reach (EdgeFrom E S) a b) : Reach E a b := by
  induction h with
  | refl => exact .refl
  | tail _ hyz ih => exact ih.tail hyz.2

theorem EdgeFrom.reach_mono (hST : S ⊆ T) (h : Reach (EdgeFrom E S) a b) :
    Reach (EdgeFrom E T) a b := by
  induction h with
  | refl => exact .refl
  | tail _ hyz ih => exact ih.tail ⟨hST hyz.1, hyz.2⟩

/-- A path out of `insert w S` avoids `w` as a source or splits at `w`. -/
theorem EdgeFrom.reach_insert (h : Reach (EdgeFrom E (insert w S)) a b) :
    Reach (EdgeFrom E S) a b ∨ Reach (EdgeFrom E S) a w := by
  induction h with
  | refl => exact Or.inl .refl
  | tail hy hyz ih =>
    rcases ih with ih | ih
    · rcases hyz.1 with rfl | hS
      · exact Or.inr ih
      · exact Or.inl (ih.tail ⟨hS, hyz.2⟩)
    · exact Or.inr ih

/-- Paths that stay outside `V` until their end `w`: cut at the first visit of
    `w`, the sources lie in any set that, with `w` and `V`, covers the graph. -/
theorem EdgeFrom.reach_of_avoiding (hcover : ∀ x, Reach E x w → x ∉ V → x ∈ S ∨ x = w)
    (hV : ∀ x y, E x y → y ∈ V → x ∈ V) (h : Reach E a w) (ha : a ∉ V) :
    Reach (EdgeFrom E S) a w := by
  induction h using Relation.ReflTransGen.head_induction_on with
  | refl => exact .refl
  | head hab hbw ih =>
    rename_i x y
    rcases hcover x (.head hab hbw) ha with hx | rfl
    · exact .head ⟨hx, hab⟩ (ih fun hy => ha (hV x y hab hy))
    · exact .refl

/-- The order in which a depth-first search finishes the vertices: no vertex
    twice, every vertex once, and a vertex reaches every vertex that reaches it
    through vertices finished earlier. -/
structure FinishingOrder (E : α → α → Prop) (vertices : Set α) (order : List α) : Prop where
  nodup : order.Nodup
  mem_iff : ∀ v, v ∈ order ↔ v ∈ vertices
  returns : ∀ earlier v later, order = earlier ++ v :: later →
    ∀ w, Reach (EdgeFrom E {x | x ∈ earlier}) w v → Reach E v w

/-- A set of vertices closed under predecessors contains the component of each
    of its members. -/
theorem component_subset_of_closed (hV : ∀ x y, E x y → y ∈ V → x ∈ V) (ha : a ∈ V) :
    component E a ⊆ V := by
  intro b hb
  have key : ∀ x, Reach E x a → x ∈ V := by
    intro x hx
    induction hx using Relation.ReflTransGen.head_induction_on with
    | refl => exact ha
    | head hxy _ ih => exact hV _ _ hxy ih
  exact key b hb.2

theorem FinishingOrder.component_eq {vertices : Set α} {earlier later : List α}
    (hO : FinishingOrder E vertices (earlier ++ v :: later))
    (hclosed : ∀ x y, E x y → y ∈ vertices → x ∈ vertices)
    (hV : ∀ x y, E x y → y ∈ V → x ∈ V) (hlater : ∀ x ∈ later, x ∈ V) (hv : v ∉ V) :
    component E v = {w | Reach E w v ∧ w ∉ V} := by
  have hvmem : v ∈ vertices := (hO.mem_iff v).mp (by simp)
  have hreach : ∀ x, Reach E x v → x ∈ vertices := by
    intro x hx
    induction hx using Relation.ReflTransGen.head_induction_on with
    | refl => exact hvmem
    | head hxy _ ih => exact hclosed _ _ hxy ih
  ext w
  constructor
  · intro hw
    refine ⟨hw.2, fun hwV => hv ?_⟩
    exact component_subset_of_closed hV hwV (Mutual.symm hw)
  · rintro ⟨hwv, hwV⟩
    -- every vertex outside `V` that reaches `v` was finished before `v`
    have hcover : ∀ x, Reach E x v → x ∉ V → x ∈ {x | x ∈ earlier} ∨ x = v := by
      intro x hx hxV
      have hxO := (hO.mem_iff x).mpr (hreach x hx)
      rcases List.mem_append.mp hxO with hx | hx
      · exact Or.inl hx
      · rcases List.mem_cons.mp hx with rfl | hx
        · exact Or.inr rfl
        · exact absurd (hlater x hx) hxV
    have hpath := EdgeFrom.reach_of_avoiding hcover hV hwv hwV
    exact ⟨hO.returns earlier v later rfl w hpath, hwv⟩

end Digraph
