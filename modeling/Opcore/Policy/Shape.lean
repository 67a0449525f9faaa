/-
  Opcore.Policy.Shape

  The check of a configuration against the shape of the defaults, which names the exact
  field of an error.  A value that passes has no unknown key and no null.
-/
import Opcore.Policy.Settings

namespace Opcore

open Text Collections Json Documentation Asp

/-! ## Failures -/

/-- An error with its contexts, the outermost first. -/
abbrev Failure := List Str

def ensure (condition : Bool) (message : Str) : Except Failure Unit :=
  if condition then .ok () else .error [message]

def withContext {α : Type} (context : Str) : Except Failure α → Except Failure α
  | .ok a => .ok a
  | .error failure => .error (context :: failure)

theorem ensure_eq_ok {condition : Bool} {message : Str} {u : Unit} :
    ensure condition message = .ok u ↔ condition = true := by
  cases condition <;> simp [ensure]

theorem withContext_eq_ok {α : Type} {context : Str} {result : Except Failure α} {a : α} :
    withContext context result = .ok a ↔ result = .ok a := by
  cases result <;> simp [withContext]

/-! ## The expected shape -/

namespace Shape

def set (key : Str) (new : Value) : Value → Value
  | .object members => .object (setMember members key new)
  | v => v

/-- The member of a member. -/
def setIn (outer inner : Str) (new : Value) : Value → Value
  | .object members =>
    match members.lookup outer with
    | some v => .object (setMember members outer (set inner new v))
    | none => .object members
  | v => v

def remove (key : Str) : Value → Value
  | .object members => .object (removeMember members key)
  | v => v

/-- The defaults, with an item in each array that may have some. -/
def defaults : Value :=
  let defaults := ({} : Policy).toValue
  let defaults := set (ascii "$schema") (.string []) defaults
  let defaults := setIn (ascii "targets") (ascii "exclude") (.array [.string (ascii "path")])
    defaults
  let defaults := set (ascii "native") (.array [.string (ascii "rust-native")]) defaults
  let binding := Value.object [(ascii "document", .string (ascii "path")),
    (ascii "source", .string (ascii "path"))]
  setIn (ascii "documentation") (ascii "bindings") (.array [binding]) defaults

def workflow : Value :=
  remove (ascii "documentation")
    (remove (ascii "schemaVersion") (remove (ascii "$schema") defaults))

def expected : Value :=
  set (ascii "workflows") (.object [(ascii "ci", workflow), (ascii "post-edit", workflow),
    (ascii "pre-commit", workflow)]) defaults

/-! ## The check -/

def policyPath : Str := ascii ".opcore.json"

def requireType (valid : Bool) (pointer expected : Str) : Except Failure Unit :=
  ensure valid (policyPath ++ pointer ++ ascii ": expected " ++ expected
    ++ ascii "; omit the field to inherit")

def isLiteralPath (pointer : Str) : Bool :=
  containsText (ascii "/targets/exclude/") pointer
    || (ascii "/documentation/bindings/").isPrefixOf pointer
      && ((ascii "/source").isSuffixOf pointer || (ascii "/document").isSuffixOf pointer)

def validateString (value : Value) (pointer : Str) : Except Failure Unit := do
  requireType value.asStr?.isSome pointer (ascii "a string")
  let text := value.asStr?.getD []
  let root := containsText (ascii "/providers/") pointer && containsText (ascii "/roots/") pointer
  if isLiteralPath pointer || (root && text ≠ ascii ".") then
    match RepoPath.fromProtocol text with
    | .ok _ => pure ()
    | .error error => throw [policyPath ++ pointer ++ ascii ": " ++ error.text
        ++ ascii "; use a literal repository-relative path"]
  -- the text of the error of a provider's name is that of the decoder
  if containsText (ascii "/native/") pointer && (NativeProvider.ofValue? value).isNone then
    throw [policyPath ++ pointer ++ ascii ": "]

mutual

def validateValue : Value → Value → Str → Except Failure Unit
  | .object members, .object fields, pointer => validateObject members fields pointer
  | _, .object _, pointer => .error [policyPath ++ pointer ++ ascii ": expected an object"]
  | .array items, .array (item :: _), pointer => validateArray 0 items item pointer
  | .array _, .array [], _ => .ok ()
  | _, .array _, pointer =>
    .error [policyPath ++ pointer ++ ascii ": expected an array; use [] to clear it"]
  | value, .number _, pointer =>
    requireType value.asU64?.isSome pointer (ascii "a non-negative integer")
  | value, .bool _, pointer => requireType value.asBool?.isSome pointer (ascii "true or false")
  | value, .string _, pointer => validateString value pointer
  | _, .null, _ => .ok ()

/-- The members of an object from one on. -/
def validateObject : List (Str × Value) → List (Str × Value) → Str → Except Failure Unit
  | [], _, _ => .ok ()
  | (name, value) :: members, fields, pointer =>
    match fields.lookup name with
    | none => .error [policyPath ++ pointer ++ ascii "/" ++ name
        ++ ascii ": unknown field; expected "
        ++ List.intercalate (ascii ", ") (fields.map Prod.fst)]
    | some shape => do
      validateValue value shape (pointer ++ ascii "/" ++ name)
      validateObject members fields pointer

/-- The items of an array from one on. -/
def validateArray : Nat → List Value → Value → Str → Except Failure Unit
  | _, [], _, _ => .ok ()
  | index, value :: items, item, pointer => do
    validateValue value item (pointer ++ ascii "/" ++ ascii (toString index))
    validateArray (index + 1) items item pointer

end

/-! ## What passes -/

theorem plain_expected : expected.plain = true := by
  decide +kernel

mutual

/-- A passing value is plain, as the shape is. -/
theorem plain_of_validateValue (value shape : Value) (pointer : Str)
    (h : validateValue value shape pointer = .ok ()) (hshape : shape.plain = true) :
    value.plain = true := by
  match value, h with
  | .null, h =>
    cases shape with
    | null => exact hshape
    | _ => cases h
  | .object members, h =>
    cases shape with
    | object fields => exact plain_of_validateObject members fields pointer h hshape
    | null => cases hshape
    | _ => cases h
  | .bool _, _ => rfl
  | .number _, _ => rfl
  | .string _, _ => rfl
  | .array _, _ => rfl

theorem plain_of_validateObject (members fields : List (Str × Value)) (pointer : Str)
    (h : validateObject members fields pointer = .ok ()) (hfields : plainMembers fields = true) :
    plainMembers members = true := by
  match members, h with
  | [], _ => rfl
  | (name, value) :: members, h =>
    rw [validateObject] at h
    cases hlookup : fields.lookup name with
    | none =>
      rw [hlookup] at h
      cases h
    | some shape =>
      rw [hlookup] at h
      obtain ⟨u, hvalue, h⟩ := Except.bind_eq_ok_iff.mp h
      obtain ⟨hname, hshape⟩ := plain_of_mem hfields (mem_of_lookup hlookup)
      have hplain := plain_of_validateValue value shape _ hvalue hshape
      have hrest := plain_of_validateObject members fields pointer h hfields
      rw [plainMembers, hplain, hrest]
      simpa using hname

end

/-! ## Members of what passes -/

theorem validateObject_lookup {members fields : List (Str × Value)} {start key : Str}
    {member : Value} (h : validateObject members fields start = .ok ())
    (hlookup : members.lookup key = some member) :
    ∃ s start', fields.lookup key = some s ∧ validateValue member s start' = .ok () := by
  induction members with
  | nil => cases hlookup
  | cons first members ih =>
    obtain ⟨name, value⟩ := first
    rw [validateObject] at h
    cases hshape : fields.lookup name with
    | none =>
      rw [hshape] at h
      cases h
    | some s =>
      rw [hshape] at h
      obtain ⟨_, hvalue, h⟩ := Except.bind_eq_ok_iff.mp h
      rw [List.lookup_cons] at hlookup
      by_cases hkey : key = name
      · subst hkey
        rw [beq_self_eq_true] at hlookup
        exact ⟨s, _, hshape, Option.some.inj hlookup ▸ hvalue⟩
      · rw [beq_false_of_ne hkey] at hlookup
        exact ih h hlookup

theorem validateValue_get? {value member shape : Value} {start key : Str}
    (h : validateValue value shape start = .ok ()) (hshape : shape ≠ .null)
    (hget : value.get? key = some member) :
    ∃ s start', shape.get? key = some s ∧ validateValue member s start' = .ok () := by
  obtain ⟨members, rfl, hlookup⟩ := exists_members_of_get? hget
  cases shape with
  | object fields => exact validateObject_lookup h hlookup
  | null => exact absurd rfl hshape
  | _ => cases h

end Shape

end Opcore
