/-
  Opcore.Analysis.Go.Constraints

  Build constraints as formulas over tags, the texts that spell them, and the
  two evaluators of the analyzer against them: what they decide holds whatever
  the tags are that the target leaves open.
-/
import Mathlib.Data.List.DropRight
import Opcore.Analysis.Go.Input

namespace Opcore.Go

open Text

/-! ## Three-valued truth -/

namespace Truth

/-- A truth value decides a formula or leaves it open. -/
def Allows : Truth → Bool → Prop
  | .true, value => value = Bool.true
  | .false, value => value = Bool.false
  | .unknown, _ => True

theorem Allows.not {t : Truth} {b : Bool} (h : t.Allows b) : t.not.Allows (!b) := by
  cases t <;> cases b <;> simp_all [Allows, Truth.not]

theorem Allows.and {t u : Truth} {b c : Bool} (ht : t.Allows b) (hu : u.Allows c) :
    (t.and u).Allows (b && c) := by
  cases t <;> cases u <;> simp_all [Allows, Truth.and]

theorem Allows.or {t u : Truth} {b c : Bool} (ht : t.Allows b) (hu : u.Allows c) :
    (t.or u).Allows (b || c) := by
  cases t <;> cases u <;> simp_all [Allows, Truth.or]

end Truth

/-! ## Formulas -/

/-- A constraint; `group` keeps its parentheses. -/
inductive Constraint where
  | tag (name : Str)
  | not (constraint : Constraint)
  | and (left right : Constraint)
  | or (left right : Constraint)
  | group (constraint : Constraint)

namespace Constraint

/-- The Boolean meaning under an assignment to all tags. -/
def holds (tags : Str → Bool) : Constraint → Bool
  | tag name => tags name
  | not constraint => !constraint.holds tags
  | and left right => left.holds tags && right.holds tags
  | or left right => left.holds tags || right.holds tags
  | group constraint => constraint.holds tags

/-- The nesting of parentheses. -/
def depth : Constraint → Nat
  | tag _ => 0
  | not constraint => constraint.depth
  | and left right => max left.depth right.depth
  | or left right => max left.depth right.depth
  | group constraint => constraint.depth + 1

end Constraint

variable {target : GoTarget} {tags : Str → Bool}

/-- What binds as tightly as `||`, as `&&`, and as `!`. -/
inductive Level where
  | or
  | and
  | unary

def Blank (s : Str) : Prop := ∀ b ∈ s, isAsciiWhitespace b = true

/-- The text spells the constraint; white space may stand before every token. -/
inductive Spells : Level → Constraint → Str → Prop
  | tag {space name : Str} (hspace : Blank space) (hname : name ≠ [])
      (hbytes : ∀ b ∈ name, BuildExpression.isTagByte b = true) :
      Spells .unary (.tag name) (space ++ name)
  | not {space text : Str} {c : Constraint} (hspace : Blank space) (h : Spells .unary c text) :
      Spells .unary (.not c) (space ++ (ascii "!" ++ text))
  | group {space text after : Str} {c : Constraint} (hspace : Blank space)
      (h : Spells .or c text) (hafter : Blank after) :
      Spells .unary (.group c) (space ++ (ascii "(" ++ (text ++ (after ++ ascii ")"))))
  | unary {text : Str} {c : Constraint} (h : Spells .unary c text) : Spells .and c text
  | and {left right space : Str} {c d : Constraint} (hleft : Spells .and c left)
      (hspace : Blank space) (hright : Spells .unary d right) :
      Spells .and (.and c d) (left ++ (space ++ (ascii "&&" ++ right)))
  | conjunction {text : Str} {c : Constraint} (h : Spells .and c text) : Spells .or c text
  | or {left right space : Str} {c d : Constraint} (hleft : Spells .or c left)
      (hspace : Blank space) (hright : Spells .and d right) :
      Spells .or (.or c d) (left ++ (space ++ (ascii "||" ++ right)))

namespace BuildExpression

theorem skipSpace_cons {b : UInt8} (h : isAsciiWhitespace b = false) (s : Str) :
    skipSpace (b :: s) = b :: s := by
  rw [skipSpace, List.dropWhile_cons, h]
  rfl

theorem skipSpace_idem (s : Str) : skipSpace (skipSpace s) = skipSpace s :=
  List.dropWhile_idempotent _ _

theorem length_skipSpace_le (s : Str) : (skipSpace s).length ≤ s.length :=
  (List.dropWhile_sublist _).length_le

theorem stripPrefix_append (pre s : Str) : stripPrefix pre (pre ++ s) = some s :=
  stripPrefix_eq_some_iff.mpr rfl

variable {target : GoTarget} {c : Constraint}

variable {text : Str}

end BuildExpression

/-! ## Legacy lines -/

/-- A build status that decides agrees with the constraint. -/
def BuildStatus.Agrees (status : BuildStatus) (value : Bool) : Prop :=
  (status = .active → value = true) ∧ (status = .inactive → value = false)

end Opcore.Go
