/-
  Opcore.Library.BTreeSet

  Ordered sets over an arbitrary linear order, kept as strictly increasing
  lists.  The order of the list is the iteration order of the set, so code
  that walks a set walks `elems`; two sets with the same members are equal
  (`BTreeSet.ext_mem`), which is what every equality between sets below is
  reduced to.
-/
import Mathlib.Data.List.Sort
import Mathlib.Data.Finset.Basic
import Mathlib.Data.Finset.Card

namespace Collections

variable {α β : Type*} [LinearOrder α] [LinearOrder β]

/-- Insertion into a strictly increasing list; a present element stays once. -/
def insertSorted (a : α) : List α → List α
  | [] => [a]
  | b :: l =>
    if a < b then a :: b :: l
    else if b < a then b :: insertSorted a l
    else b :: l

theorem mem_insertSorted {a x : α} {l : List α} :
    x ∈ insertSorted a l ↔ x = a ∨ x ∈ l := by
  induction l with
  | nil => simp [insertSorted]
  | cons b l ih =>
    rw [insertSorted]
    split_ifs with hab hba
    · simp
    · simp only [List.mem_cons, ih]
      tauto
    · have hEq : a = b := le_antisymm (not_lt.mp hba) (not_lt.mp hab)
      simp [hEq]

theorem pairwise_insertSorted {a : α} {l : List α} (h : l.Pairwise (· < ·)) :
    (insertSorted a l).Pairwise (· < ·) := by
  induction l with
  | nil => simp [insertSorted]
  | cons b l ih =>
    obtain ⟨hb, hl⟩ := List.pairwise_cons.mp h
    rw [insertSorted]
    split_ifs with hab hba
    · refine List.pairwise_cons.mpr ⟨?_, h⟩
      intro x hx
      rcases List.mem_cons.mp hx with rfl | hx
      · exact hab
      · exact hab.trans (hb x hx)
    · refine List.pairwise_cons.mpr ⟨?_, ih hl⟩
      intro x hx
      rcases mem_insertSorted.mp hx with rfl | hx
      · exact hba
      · exact hb x hx
    · exact h

/-- Two strictly increasing lists with the same members are the same list. -/
theorem eq_of_pairwise_lt_of_mem {l₁ l₂ : List α} (h₁ : l₁.Pairwise (· < ·))
    (h₂ : l₂.Pairwise (· < ·)) (hmem : ∀ x, x ∈ l₁ ↔ x ∈ l₂) : l₁ = l₂ := by
  have hn₁ : l₁.Nodup := h₁.imp ne_of_lt
  have hn₂ : l₂.Nodup := h₂.imp ne_of_lt
  have hperm : l₁.Perm l₂ := (List.perm_ext_iff_of_nodup hn₁ hn₂).mpr hmem
  exact hperm.eq_of_pairwise (fun a b _ _ hab hba => absurd hab (not_lt.mpr hba.le)) h₁ h₂

/-- An ordered set. -/
structure BTreeSet (α : Type*) [LinearOrder α] where
  elems : List α
  sorted : elems.Pairwise (· < ·)

namespace BTreeSet

variable {s t : BTreeSet α} {a b x : α}

instance : Membership α (BTreeSet α) := ⟨fun s a => a ∈ s.elems⟩

instance : DecidableEq (BTreeSet α) := fun s t =>
  decidable_of_iff (s.elems = t.elems) (by cases s; cases t; simp)

instance (s : BTreeSet α) (a : α) : Decidable (a ∈ s) :=
  inferInstanceAs (Decidable (a ∈ s.elems))

theorem mem_def : a ∈ s ↔ a ∈ s.elems := Iff.rfl

theorem ext_mem (h : ∀ a, a ∈ s ↔ a ∈ t) : s = t := by
  obtain ⟨l₁, h₁⟩ := s
  obtain ⟨l₂, h₂⟩ := t
  have hl : l₁ = l₂ := eq_of_pairwise_lt_of_mem h₁ h₂ h
  subst hl
  rfl

theorem nodup_elems (s : BTreeSet α) : s.elems.Nodup := s.sorted.imp ne_of_lt

def empty : BTreeSet α := ⟨[], List.Pairwise.nil⟩

instance : EmptyCollection (BTreeSet α) := ⟨empty⟩

instance : Inhabited (BTreeSet α) := ⟨empty⟩

@[simp] theorem elems_empty : (∅ : BTreeSet α).elems = [] := rfl

@[simp] theorem not_mem_empty : a ∉ (∅ : BTreeSet α) := List.not_mem_nil

def insert (s : BTreeSet α) (a : α) : BTreeSet α :=
  ⟨insertSorted a s.elems, pairwise_insertSorted s.sorted⟩

@[simp] theorem mem_insert : x ∈ s.insert a ↔ x = a ∨ x ∈ s := mem_insertSorted

def erase (s : BTreeSet α) (a : α) : BTreeSet α :=
  ⟨s.elems.filter (· ≠ a), s.sorted.filter _⟩

@[simp] theorem mem_erase : x ∈ s.erase a ↔ x ∈ s ∧ x ≠ a := by
  simp [mem_def, erase]

def filter (s : BTreeSet α) (p : α → Bool) : BTreeSet α :=
  ⟨s.elems.filter p, s.sorted.filter _⟩

@[simp] theorem mem_filter {p : α → Bool} : x ∈ s.filter p ↔ x ∈ s ∧ p x = true := by
  simp [mem_def, filter]

/-- Insert every element of a list, as `extend` does. -/
def extend (s : BTreeSet α) (l : List α) : BTreeSet α := l.foldl insert s

@[simp] theorem mem_extend {l : List α} : x ∈ s.extend l ↔ x ∈ l ∨ x ∈ s := by
  induction l generalizing s with
  | nil => simp [extend]
  | cons b l ih =>
    have hcons : s.extend (b :: l) = (s.insert b).extend l := rfl
    rw [hcons, ih, mem_insert, List.mem_cons]
    tauto

/-- Collect a list, as `collect` into a set does. -/
def ofList (l : List α) : BTreeSet α := (∅ : BTreeSet α).extend l

@[simp] theorem mem_ofList {l : List α} : x ∈ ofList l ↔ x ∈ l := by
  simp [ofList]

def union (s t : BTreeSet α) : BTreeSet α := s.extend t.elems

@[simp] theorem mem_union : x ∈ s.union t ↔ x ∈ s ∨ x ∈ t := by
  rw [union, mem_extend, mem_def, mem_def]
  tauto

/-- Map every element and collect the results. -/
def map (s : BTreeSet α) (f : α → β) : BTreeSet β := ofList (s.elems.map f)

@[simp] theorem mem_map {f : α → β} {y : β} : y ∈ s.map f ↔ ∃ a ∈ s, f a = y := by
  rw [map, mem_ofList, List.mem_map]
  exact Iff.rfl

def size (s : BTreeSet α) : Nat := s.elems.length

def isEmpty (s : BTreeSet α) : Bool := s.elems.isEmpty

theorem isEmpty_iff : s.isEmpty = true ↔ s = ∅ := by
  constructor
  · intro h
    have hnil : s.elems = [] := List.isEmpty_iff.mp h
    exact ext_mem fun a => by rw [mem_def, hnil]; exact Iff.rfl
  · rintro rfl
    rfl

/-- The least element. -/
def first? (s : BTreeSet α) : Option α := s.elems.head?

/-- Drop the greatest element. -/
def popLast (s : BTreeSet α) : BTreeSet α :=
  ⟨s.elems.dropLast, s.sorted.sublist (List.dropLast_sublist _)⟩

def isSubset (s t : BTreeSet α) : Bool := s.elems.all fun a => decide (a ∈ t)

theorem isSubset_iff : s.isSubset t = true ↔ ∀ a ∈ s, a ∈ t := by
  simp [isSubset, mem_def]

def isDisjoint (s t : BTreeSet α) : Bool := s.elems.all fun a => decide (a ∉ t)

theorem isDisjoint_iff : s.isDisjoint t = true ↔ ∀ a ∈ s, a ∉ t := by
  simp [isDisjoint, mem_def]

def toFinset (s : BTreeSet α) : Finset α := ⟨s.elems, s.nodup_elems⟩

@[simp] theorem mem_toFinset : a ∈ s.toFinset ↔ a ∈ s := Iff.rfl

theorem card_toFinset (s : BTreeSet α) : s.toFinset.card = s.size := rfl

theorem toFinset_injective : Function.Injective (toFinset (α := α)) := by
  intro s t h
  exact ext_mem fun a => by rw [← mem_toFinset, ← mem_toFinset, h]

theorem size_eq_of_toFinset {F : Finset α} (h : s.toFinset = F) : s.size = F.card := by
  rw [← h, card_toFinset]

theorem size_ofList [DecidableEq α] (l : List α) : (ofList l).size = l.toFinset.card :=
  size_eq_of_toFinset (Finset.ext fun a => by simp)

theorem size_le_of_subset (h : ∀ a ∈ s, a ∈ t) : s.size ≤ t.size := by
  rw [← card_toFinset, ← card_toFinset]
  exact Finset.card_le_card fun a ha => mem_toFinset.mpr (h a (mem_toFinset.mp ha))

theorem size_insert_of_not_mem (h : a ∉ s) : (s.insert a).size = s.size + 1 := by
  have hF : (s.insert a).toFinset = Insert.insert a s.toFinset := by
    ext x
    simp
  rw [size_eq_of_toFinset hF, Finset.card_insert_of_notMem (by simpa using h), card_toFinset]

theorem insert_of_mem (h : a ∈ s) : s.insert a = s := by
  apply ext_mem
  intro x
  rw [mem_insert]
  constructor
  · rintro (rfl | hx)
    · exact h
    · exact hx
  · exact Or.inr

/-- `first?` is the least member. -/
theorem first?_eq_some_iff : s.first? = some a ↔ a ∈ s ∧ ∀ b ∈ s, a ≤ b := by
  obtain ⟨l, hl⟩ := s
  cases l with
  | nil => simp [first?, mem_def]
  | cons b l =>
    obtain ⟨hb, -⟩ := List.pairwise_cons.mp hl
    simp only [first?, List.head?_cons, Option.some.injEq, mem_def, List.mem_cons]
    constructor
    · rintro rfl
      refine ⟨Or.inl rfl, ?_⟩
      rintro x (rfl | hx)
      · exact le_rfl
      · exact (hb x hx).le
    · rintro ⟨ha, hmin⟩
      rcases ha with rfl | ha
      · rfl
      · exact absurd (hb a ha) (not_lt.mpr (hmin b (Or.inl rfl)))

theorem first?_eq_none_iff : s.first? = none ↔ s = ∅ := by
  rw [← isEmpty_iff, first?, isEmpty, List.head?_eq_none_iff, List.isEmpty_iff]

/-- An injective map keeps the elements apart. -/
theorem elems_map_perm {f : α → β} (hinj : ∀ a ∈ s, ∀ b ∈ s, f a = f b → a = b) :
    (s.map f).elems.Perm (s.elems.map f) := by
  have hnd : (s.elems.map f).Nodup := s.nodup_elems.map_on hinj
  refine (List.perm_ext_iff_of_nodup (s.map f).nodup_elems hnd).mpr fun y => ?_
  rw [List.mem_map]
  exact mem_map

end BTreeSet

end Collections
