/-
  Opcore.Library.JsonDecode

  Decoding a record from the members of an object: a missing member has a default, an
  unknown one is refused, and a value is written back as it was read.  The members that
  are there are then laid over those of the default.
-/
import Opcore.Library.JsonTree

open Text

namespace Json

/-! ## Members -/

/-- The members of an object that has no unknown ones. -/
def knownMembers (known : List Str) : Value → Option (List (Str × Value))
  | .object members => if members.all fun member => member.1 ∈ known then some members else none
  | _ => none

/-- A member that may be missing. -/
def field {α : Type} (members : List (Str × Value)) (key : Str) (decode : Value → Option α)
    (default : α) : Option α :=
  match members.lookup key with
  | none => some default
  | some v => decode v

/-- A member that has to be there. -/
def required {α : Type} (members : List (Str × Value)) (key : Str) (decode : Value → Option α) :
    Option α :=
  (members.lookup key).bind decode

/-- A value that may be null. -/
def nullable {α : Type} (decode : Value → Option α) (v : Value) : Option (Option α) :=
  if v = .null then some none else (decode v).map some

theorem field_of_required {α : Type} {members : List (Str × Value)} {key : Str}
    {decode : Value → Option α} {default a : α} (h : required members key decode = some a) :
    field members key decode default = some a := by
  obtain ⟨v, hv, ha⟩ := Option.bind_eq_some_iff.mp h
  rw [field, hv]
  exact ha

theorem bind_eq_some {α β : Type} {o : Option α} {read : α → Option β} {b : β} :
    (o >>= read) = some b ↔ ∃ a, o = some a ∧ read a = some b :=
  Option.bind_eq_some_iff

/-- A record is read from an object without unknown members. -/
theorem knownMembers_eq_some {known : List Str} {v : Value}
    {members : List (Str × Value)} :
    knownMembers known v = some members
      ↔ v = .object members ∧ ∀ member ∈ members, member.1 ∈ known := by
  cases v with
  | object members' =>
    simp only [knownMembers, List.all_eq_true, decide_eq_true_eq, Option.ite_none_right_eq_some,
      Option.some.injEq, Value.object.injEq]
    exact ⟨fun ⟨hknown, heq⟩ => ⟨heq, heq ▸ hknown⟩, fun ⟨heq, hknown⟩ => ⟨heq ▸ hknown, heq⟩⟩
  | _ => simp [knownMembers]

/-- A key that is not known has no member. -/
theorem lookup_eq_none_of_unknown {known : List Str} {members : List (Str × Value)} {key : Str}
    (h : ∀ member ∈ members, member.1 ∈ known) (hkey : key ∉ known) :
    members.lookup key = none := by
  refine lookup_eq_none_iff_forall_ne.mpr fun member hmember heq => hkey ?_
  rw [heq]
  exact h member hmember

/-! ## Leaves -/

/-- How a leaf is read and written: what was read is written as it stood. -/
structure LeafCodec (α : Type) where
  encode : α → Value
  decode : Value → Option α
  isLeaf : ∀ a, (encode a).isObject = false
  exact : ∀ {v : Value} {a : α}, v.wellFormed = true → decode v = some a → encode a = v

namespace LeafCodec

variable {α : Type} (c : LeafCodec α) {members : List (Str × Value)} {key : Str}

theorem over_field {default a : α} (hwell : (Value.object members).wellFormed = true)
    (h : field members key c.decode default = some a) :
    Over (c.encode default) (members.lookup key) (c.encode a) := by
  rw [field] at h
  cases hlookup : members.lookup key with
  | none =>
    rw [hlookup] at h
    cases h
    exact Over.refl _
  | some v =>
    rw [hlookup] at h
    have hv := c.exact (Value.wellFormed_get? hwell hlookup) h
    rw [← hv]
    exact over_leaf (c.isLeaf default) (c.isLeaf a)

/-- An override that is there and not null replaces the value it is for. -/
theorem over_override {o : Option α} (old : α) (hwell : (Value.object members).wellFormed = true)
    (hplain : (Value.object members).plain = true)
    (h : field members key (nullable c.decode) none = some o) :
    Over (c.encode old) (members.lookup key) (c.encode (o.getD old)) := by
  rw [field] at h
  cases hlookup : members.lookup key with
  | none =>
    rw [hlookup] at h
    cases h
    exact Over.refl _
  | some v =>
    have hv : v ≠ .null := by
      rintro rfl
      cases (plain_of_mem hplain (mem_of_lookup hlookup)).2
    rw [hlookup] at h
    dsimp only at h
    rw [nullable, if_neg hv] at h
    obtain ⟨a, ha, rfl⟩ := Option.map_eq_some_iff.mp h
    have heq := c.exact (Value.wellFormed_get? hwell hlookup) ha
    rw [← heq]
    exact over_leaf (c.isLeaf old) (c.isLeaf a)

end LeafCodec

/-! ## Sections -/

section Sections

variable {α β : Type} {members : List (Str × Value)} {key : Str} {encode : α → Value}

/-- A record inside a record, which may be missing as a whole. -/
theorem over_section {decode : Value → Option α} {default a : α}
    (hover : ∀ {v : Value} {a : α}, v.wellFormed = true → decode v = some a →
      Over (encode default) (some v) (encode a))
    (hwell : (Value.object members).wellFormed = true)
    (h : field members key decode default = some a) :
    Over (encode default) (members.lookup key) (encode a) := by
  rw [field] at h
  cases hlookup : members.lookup key with
  | none =>
    rw [hlookup] at h
    cases h
    exact Over.refl _
  | some v =>
    rw [hlookup] at h
    exact hover (Value.wellFormed_get? hwell hlookup) h

/-- The overrides of a record inside a record. -/
theorem over_apply_section {apply : β → α → α} {decode : Value → Option β} {inherit b : β}
    (hinherit : ∀ a, apply inherit a = a)
    (hover : ∀ {v : Value} {b : β}, v.wellFormed = true → v.plain = true → decode v = some b →
      ∀ a, Over (encode a) (some v) (encode (apply b a)))
    (hwell : (Value.object members).wellFormed = true)
    (hplain : (Value.object members).plain = true)
    (h : field members key decode inherit = some b) (a : α) :
    Over (encode a) (members.lookup key) (encode (apply b a)) := by
  rw [field] at h
  cases hlookup : members.lookup key with
  | none =>
    rw [hlookup] at h
    cases h
    rw [hinherit]
    exact Over.refl _
  | some v =>
    rw [hlookup] at h
    exact hover (Value.wellFormed_get? hwell hlookup)
      (plain_of_mem hplain (mem_of_lookup hlookup)).2 h a

end Sections

/-! ## Kinds of leaves -/

/-- Natural numbers below a bound. -/
def natural (bound : Nat) : LeafCodec Nat where
  encode n := .number (.int n)
  decode v := v.asU64?.filter fun n => n < bound
  isLeaf _ := rfl
  exact := by
    intro v n _ h
    obtain ⟨h, -⟩ := Option.filter_eq_some_iff.mp h
    match v, h with
    | .number (.int m), h =>
      simp only [Value.asU64?] at h
      split_ifs at h with hrange
      cases h
      rw [Int.toNat_of_nonneg hrange.1]

def boolean : LeafCodec Bool where
  encode := .bool
  decode := Value.asBool?
  isLeaf _ := rfl
  exact := by
    intro v b _ h
    match v, h with
    | .bool _, rfl => rfl

/-- How an element of an array is read and written. -/
structure ItemCodec (α : Type) where
  encode : α → Value
  decode : Value → Option α
  exact : ∀ {v : Value} {a : α}, v.wellFormed = true → decode v = some a → encode a = v

def decodeItems {α : Type} (decode : Value → Option α) : Value → Option (List α)
  | .array items => items.mapM decode
  | _ => none

theorem map_encode_of_mapM {α : Type} (c : ItemCodec α) {items : List Value} {as : List α}
    (hwell : wellFormedItems items = true) (h : items.mapM c.decode = some as) :
    as.map c.encode = items := by
  induction items generalizing as with
  | nil =>
    cases h
    rfl
  | cons item items ih =>
    rw [wellFormedItems, Bool.and_eq_true] at hwell
    rw [List.mapM_cons] at h
    obtain ⟨a, ha, h⟩ := Option.bind_eq_some_iff.mp h
    obtain ⟨as', has, h⟩ := Option.bind_eq_some_iff.mp h
    cases h
    rw [List.map_cons, c.exact hwell.1 ha, ih hwell.2 has]

/-- Arrays of such elements. -/
def ItemCodec.list {α : Type} (c : ItemCodec α) : LeafCodec (List α) where
  encode as := .array (as.map c.encode)
  decode := decodeItems c.decode
  isLeaf _ := rfl
  exact := by
    intro v as hwell h
    match v, h with
    | .array items, h => rw [map_encode_of_mapM c hwell h]

def text : ItemCodec Str where
  encode := .string
  decode := Value.asStr?
  exact := by
    intro v s _ h
    match v, h with
    | .string _, rfl => rfl

end Json
