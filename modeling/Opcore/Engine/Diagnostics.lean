/-
  Opcore.Engine.Diagnostics

  Materialised diagnostics and the bounded container they are collected in.
  The container starts as a plain vector and turns into a max-heap once it is
  full; whatever pushes and merges built it, it holds the `maxDiagnostics`
  smallest diagnostics it was given.
-/
import Opcore.Model
import Opcore.Library.Smallest

namespace Opcore

open Text Collections Smallest

structure EvaluatedDiagnostic where
  diagnostic : Diagnostic
  comparisonKey : Str
  materializationOrder : Nat
  deriving DecidableEq

/-- The key behind `diagnostic_order`: path, rule, fingerprint, position in the file. -/
def EvaluatedDiagnostic.orderKey (item : EvaluatedDiagnostic) : RepoPath ×ₗ Str ×ₗ Str ×ₗ Nat :=
  toLex (item.diagnostic.path, toLex (item.diagnostic.ruleId,
    toLex (item.diagnostic.fingerprint, item.materializationOrder)))

/-- `BinaryHeap` hands out its items in no specified order; this is one such order. -/
structure HeapOrder where
  visit : List EvaluatedDiagnostic → List EvaluatedDiagnostic
  perm : ∀ items, (visit items).Perm items

inductive DiagnosticStorage where
  | exact (items : List EvaluatedDiagnostic)
  | truncated (items : List EvaluatedDiagnostic)

structure BoundedDiagnostics where
  storage : DiagnosticStorage := .exact []
  overflowed : Bool := false

namespace BoundedDiagnostics

def push (self : BoundedDiagnostics) (diagnostic : EvaluatedDiagnostic) : BoundedDiagnostics :=
  match self.storage with
  | .exact items =>
    if items.length < maxDiagnostics then
      { self with storage := .exact (items ++ [diagnostic]) }
    else
      { storage := .truncated (retainBounded EvaluatedDiagnostic.orderKey items diagnostic)
        overflowed := true }
  | .truncated items =>
    { storage := .truncated (retainBounded EvaluatedDiagnostic.orderKey items diagnostic)
      overflowed := true }

/-- The stored items, in storage order. -/
def items (self : BoundedDiagnostics) : List EvaluatedDiagnostic :=
  match self.storage with
  | .exact items => items
  | .truncated items => items

/-- The items in the order a consuming loop meets them. -/
def intoIter (order : HeapOrder) (self : BoundedDiagnostics) : List EvaluatedDiagnostic :=
  match self.storage with
  | .exact items => items
  | .truncated items => order.visit items

def merge (order : HeapOrder) (self other : BoundedDiagnostics) : BoundedDiagnostics :=
  (other.intoIter order).foldl push
    { self with overflowed := self.overflowed || other.overflowed }

/-- Ascending under `diagnostic_order`; both storages sort the same way. -/
def intoSorted (self : BoundedDiagnostics) : List EvaluatedDiagnostic :=
  sortByKey EvaluatedDiagnostic.orderKey self.items

/-! ## Trees of pushes and merges -/

/-- A container built by any tree of pushes and merges, with the diagnostics
    pushed anywhere in the tree. -/
inductive Built : BoundedDiagnostics → List EvaluatedDiagnostic → Prop
  | empty : Built {} []
  | push {b all} (d : EvaluatedDiagnostic) : Built b all → Built (b.push d) (all ++ [d])
  | merge {b b' all all'} (order : HeapOrder) : Built b all → Built b' all' →
      Built (b.merge order b') (all ++ all')

/-- What holds of a container that was given `all`, `flagged` being the overflow
    already known from merged containers. -/
structure Holds (b : BoundedDiagnostics) (all : List EvaluatedDiagnostic) (flagged : Prop) :
    Prop where
  smallest : IsSmallest EvaluatedDiagnostic.orderKey maxDiagnostics b.items all
  full : (∃ items, b.storage = .truncated items) → b.items.length = maxDiagnostics
  overflow : b.overflowed = true ↔ flagged ∨ maxDiagnostics < all.length

variable {b : BoundedDiagnostics} {all : List EvaluatedDiagnostic}

theorem Holds.push {flagged : Prop} (h : Holds b all flagged) (d : EvaluatedDiagnostic) :
    Holds (b.push d) (all ++ [d]) flagged := by
  have hlen : b.items.length = min maxDiagnostics all.length := by
    obtain ⟨-, -, hlen, -⟩ := h.smallest
    exact hlen
  -- a full container trades its greatest item and is marked
  have hfull : b.items.length = maxDiagnostics →
      Holds { storage := .truncated (retainBounded EvaluatedDiagnostic.orderKey b.items d)
              overflowed := true } (all ++ [d]) flagged := by
    intro hmax
    have hsmall := h.smallest.push_full (x := d) hmax (by decide)
    have hlen' : (retainBounded EvaluatedDiagnostic.orderKey b.items d).length = maxDiagnostics := by
      obtain ⟨-, -, hlen', -⟩ := hsmall
      rw [hlen', List.length_append, List.length_singleton]
      omega
    refine ⟨hsmall, fun _ => hlen', ?_⟩
    simp only [List.length_append, List.length_singleton, true_iff]
    exact Or.inr (by omega)
  obtain ⟨storage, overflowed⟩ := b
  cases storage with
  | exact items =>
    simp only [BoundedDiagnostics.push]
    split_ifs with hroom
    · refine ⟨h.smallest.push_room hroom, by simp, ?_⟩
      have hlen' : items.length = min maxDiagnostics all.length := hlen
      have hover := h.overflow
      simp only at hover ⊢
      rw [hover, List.length_append, List.length_singleton]
      refine or_congr_right ?_
      omega
    · have hlen' : items.length = min maxDiagnostics all.length := hlen
      exact hfull (show items.length = maxDiagnostics by omega)
  | truncated items => exact hfull (h.full ⟨items, rfl⟩)

theorem Holds.foldl_push {flagged : Prop} (l : List EvaluatedDiagnostic) (h : Holds b all flagged) :
    Holds (l.foldl BoundedDiagnostics.push b) (all ++ l) flagged := by
  induction l generalizing b all with
  | nil => simpa using h
  | cons d l ih => simpa using ih (h.push d)

theorem intoIter_perm (order : HeapOrder) (b : BoundedDiagnostics) :
    (b.intoIter order).Perm b.items := by
  rw [intoIter, items]
  split
  · rfl
  · exact order.perm _

/-- Whatever built it, a container holds the smallest diagnostics it was given
    and knows whether it was given more than it can hold. -/
theorem holds_of_built (h : Built b all) : Holds b all False := by
  induction h with
  | empty => exact ⟨isSmallest_nil, by simp, by simp⟩
  | push d _ ih => exact ih.push d
  | @merge b b' all all' order _ _ ih ih' =>
    have hflag : Holds { b with overflowed := b.overflowed || b'.overflowed } all
        (maxDiagnostics < all'.length) := by
      refine ⟨ih.smallest, ih.full, ?_⟩
      simp only [Bool.or_eq_true, ih.overflow, ih'.overflow, false_or]
      exact or_comm
    have hmerged := hflag.foldl_push (b'.intoIter order)
    have hperm := intoIter_perm order b'
    refine ⟨?_, hmerged.full, ?_⟩
    · exact IsSmallest.absorb hmerged.smallest (ih'.smallest.perm_left hperm.symm)
    · rw [BoundedDiagnostics.merge, hmerged.overflow, List.length_append, List.length_append,
        hperm.length_eq, false_or]
      have hlen' : b'.items.length = min maxDiagnostics all'.length := by
        obtain ⟨-, -, hlen', -⟩ := ih'.smallest
        exact hlen'
      omega

/-- With distinct keys the sorted result is the beginning of all, sorted. -/
theorem intoSorted_of_built
    (h : Built b all) (hkeys : KeysDistinct EvaluatedDiagnostic.orderKey all) :
    b.intoSorted = (sortByKey EvaluatedDiagnostic.orderKey all).take maxDiagnostics :=
  (holds_of_built h).smallest.sorted hkeys

theorem overflowed_of_built
    (h : Built b all) : b.overflowed = decide (maxDiagnostics < all.length) := by
  have hover := (holds_of_built h).overflow
  rw [false_or] at hover
  by_cases hlt : maxDiagnostics < all.length
  · rw [decide_eq_true hlt, hover.mpr hlt]
  · rw [decide_eq_false hlt, ← Bool.not_eq_true]
    exact fun hb => hlt (hover.mp hb)

theorem built_foldl_push
    (l : List EvaluatedDiagnostic) (h : Built b all) : Built (l.foldl push b) (all ++ l) := by
  induction l generalizing b all with
  | nil => simpa using h
  | cons d l ih => simpa using ih (h.push d)

end BoundedDiagnostics

end Opcore
