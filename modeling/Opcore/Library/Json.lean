/-
  Opcore.Library.Json

  JSON values and their compact serialization.  Strings and numbers are kept as
  the bytes a serializer prints, so that the length of a message and the bytes
  it may contain can be reasoned about exactly.
-/
import Opcore.Library.Text

open Text

namespace Json

/-- A finite binary floating-point number, known by the shortest decimal text
    that reads back as it. -/
structure Float where
  text : Str
  graphic : text ≠ [] ∧ ∀ b ∈ text, isAsciiGraphic b
  deriving DecidableEq

inductive Number where
  | int (value : Int)
  | float (value : Float)
  deriving DecidableEq

/-- A JSON value.  The members of an object stand in the order of their keys. -/
inductive Value where
  | null
  | bool (value : Bool)
  | number (value : Number)
  | string (text : Str)
  | array (items : List Value)
  | object (members : List (Str × Value))

/-! ## Equality -/

mutual
def Value.decEq : (a b : Value) → Decidable (a = b)
  | .null, .null => isTrue rfl
  | .bool a, .bool b => decidable_of_iff (a = b) (by simp)
  | .number a, .number b => decidable_of_iff (a = b) (by simp)
  | .string a, .string b => decidable_of_iff (a = b) (by simp)
  | .array a, .array b => @decidable_of_iff _ (a = b) (by simp) (decEqItems a b)
  | .object a, .object b => @decidable_of_iff _ (a = b) (by simp) (decEqMembers a b)
  | .null, .bool _ | .null, .number _ | .null, .string _ | .null, .array _ | .null, .object _
  | .bool _, .null | .bool _, .number _ | .bool _, .string _ | .bool _, .array _ | .bool _, .object _
  | .number _, .null | .number _, .bool _ | .number _, .string _ | .number _, .array _
  | .number _, .object _ | .string _, .null | .string _, .bool _ | .string _, .number _
  | .string _, .array _ | .string _, .object _ | .array _, .null | .array _, .bool _
  | .array _, .number _ | .array _, .string _ | .array _, .object _ | .object _, .null
  | .object _, .bool _ | .object _, .number _ | .object _, .string _ | .object _, .array _ =>
    isFalse nofun

def decEqItems : (a b : List Value) → Decidable (a = b)
  | [], [] => isTrue rfl
  | [], _ :: _ => isFalse nofun
  | _ :: _, [] => isFalse nofun
  | x :: a, y :: b =>
    match Value.decEq x y, decEqItems a b with
    | isTrue h, isTrue h' => isTrue (by rw [h, h'])
    | isFalse h, _ => isFalse fun e => h (List.cons.inj e).1
    | _, isFalse h => isFalse fun e => h (List.cons.inj e).2

def decEqMembers : (a b : List (Str × Value)) → Decidable (a = b)
  | [], [] => isTrue rfl
  | [], _ :: _ => isFalse nofun
  | _ :: _, [] => isFalse nofun
  | (k, x) :: a, (l, y) :: b =>
    match decEq k l, Value.decEq x y, decEqMembers a b with
    | isTrue hk, isTrue h, isTrue h' => isTrue (by rw [hk, h, h'])
    | isFalse hk, _, _ => isFalse fun e => hk (congrArg Prod.fst (List.cons.inj e).1)
    | _, isFalse h, _ => isFalse fun e => h (congrArg Prod.snd (List.cons.inj e).1)
    | _, _, isFalse h => isFalse fun e => h (List.cons.inj e).2
end
instance : DecidableEq Value := Value.decEq

/-! ## Reading a value -/

namespace Value

/-- The value a key has in an object. -/
def get? (key : Str) : Value → Option Value
  | .object members => members.lookup key
  | _ => none

def asObject? : Value → Option (List (Str × Value))
  | .object members => some members
  | _ => none

def asStr? : Value → Option Str
  | .string text => some text
  | _ => none

def asBool? : Value → Option Bool
  | .bool value => some value
  | _ => none

/-- The number, when it is an integer between `-2^63` and `2^63 - 1`. -/
def asI64? : Value → Option Int
  | .number (.int n) => if -(2 : Int) ^ 63 ≤ n ∧ n < 2 ^ 63 then some n else none
  | _ => none

/-- The number, when it is an integer between `0` and `2^64 - 1`. -/
def asU64? : Value → Option Nat
  | .number (.int n) => if 0 ≤ n ∧ n < 2 ^ 64 then some n.toNat else none
  | _ => none

end Value

/-! ## Serialization -/

/-- The decimal digits of a natural number. -/
def decimal (n : Nat) : Str := (Nat.toDigits 10 n).map byte

def Number.serialize : Number → Str
  | .int n => if n < 0 then byte '-' :: decimal n.natAbs else decimal n.natAbs
  | .float x => x.text

/-- A hexadecimal digit in lower case. -/
def hexDigit (n : UInt8) : UInt8 := if n < 10 then 48 + n else 87 + n

/-- One byte of a string, escaped where JSON asks for it.  Bytes of multi-byte
    characters pass unchanged. -/
def escapeByte (b : UInt8) : Str :=
  if b = byte '"' then ascii "\\\""
  else if b = byte '\\' then ascii "\\\\"
  else if b = 8 then ascii "\\b"
  else if b = 9 then ascii "\\t"
  else if b = 10 then ascii "\\n"
  else if b = 12 then ascii "\\f"
  else if b = 13 then ascii "\\r"
  else if b < 32 then ascii "\\u00" ++ [hexDigit (b >>> 4), hexDigit (b &&& 15)]
  else [b]

def serializeString (text : Str) : Str :=
  byte '"' :: text.flatMap escapeByte ++ [byte '"']

mutual

/-- The compact text of a value. -/
def Value.serialize : Value → Str
  | .null => ascii "null"
  | .bool value => if value then ascii "true" else ascii "false"
  | .number value => value.serialize
  | .string text => serializeString text
  | .array items => byte '[' :: serializeItems items ++ [byte ']']
  | .object members => byte '\x7b' :: serializeMembers members ++ [byte '\x7d']

def serializeItems : List Value → Str
  | [] => []
  | [item] => item.serialize
  | item :: items => item.serialize ++ [byte ','] ++ serializeItems items

def serializeMembers : List (Str × Value) → Str
  | [] => []
  | [(key, value)] => serializeString key ++ [byte ':'] ++ value.serialize
  | (key, value) :: members =>
    serializeString key ++ [byte ':'] ++ value.serialize ++ [byte ','] ++ serializeMembers members

end

/-! ## The bytes of a serialized value

No control byte survives serialization: line feeds and carriage returns inside
strings are escaped, and nothing is printed between the tokens. -/

/-- Every byte of a text is a space or above. -/
def Printed (text : Str) : Prop := ∀ b ∈ text, 32 ≤ b

instance (text : Str) : Decidable (Printed text) := List.decidableBAll (32 ≤ ·) text

theorem Printed.nil : Printed [] := by simp [Printed]

theorem Printed.cons {b : UInt8} {text : Str} (hb : 32 ≤ b) (h : Printed text) :
    Printed (b :: text) := by
  intro c hc
  rcases List.mem_cons.mp hc with rfl | hc
  · exact hb
  · exact h c hc

theorem Printed.append {s t : Str} (hs : Printed s) (ht : Printed t) : Printed (s ++ t) := by
  intro b hb
  rcases List.mem_append.mp hb with hb | hb
  · exact hs b hb
  · exact ht b hb

theorem Printed.singleton {b : UInt8} (hb : 32 ≤ b) : Printed [b] := Printed.nil.cons hb

theorem printed_decimal (n : Nat) : Printed (decimal n) := by
  intro b hb
  obtain ⟨c, hc, rfl⟩ := List.mem_map.mp hb
  have hdigit : c.isDigit := Nat.isDigit_of_mem_toDigits (by decide) (by decide) hc
  simp only [Char.isDigit, Bool.and_eq_true, decide_eq_true_eq] at hdigit
  have hlow : 48 ≤ c.toNat := by
    have := UInt32.le_iff_toNat_le.mp hdigit.1
    simpa using this
  have hhigh : c.toNat ≤ 57 := by
    have := UInt32.le_iff_toNat_le.mp hdigit.2
    simpa using this
  rw [byte, UInt8.le_iff_toNat_le, UInt8.toNat_ofNat']
  simp only [UInt8.reduceToNat]
  omega

theorem printed_number (n : Number) : Printed n.serialize := by
  cases n with
  | int n =>
    simp only [Number.serialize]
    split
    · exact (printed_decimal _).cons (by decide)
    · exact printed_decimal _
  | float x =>
    intro b hb
    have := x.graphic.2 b hb
    simp only [isAsciiGraphic, decide_eq_true_eq] at this
    exact UInt8.le_trans (by decide) this.1

theorem le_hexDigit (n : UInt8) (h : n < 16) : 32 ≤ hexDigit n := by
  rw [UInt8.lt_iff_toNat_lt] at h
  rw [hexDigit, UInt8.le_iff_toNat_le]
  simp only [UInt8.reduceToNat] at h ⊢
  split
  · rw [UInt8.toNat_add]
    simp only [UInt8.reduceToNat]
    omega
  · rw [UInt8.toNat_add]
    simp only [UInt8.reduceToNat]
    omega

theorem printed_escapeByte (b : UInt8) : Printed (escapeByte b) := by
  unfold escapeByte
  split_ifs with _ _ _ _ _ _ _ hcontrol
  · decide
  · decide
  · decide
  · decide
  · decide
  · decide
  · decide
  -- The two digits of a control byte: its high half is at most one.
  · rw [UInt8.lt_iff_toNat_lt] at hcontrol
    simp only [UInt8.reduceToNat] at hcontrol
    have hhigh : b >>> 4 < 16 := by
      rw [UInt8.lt_iff_toNat_lt, UInt8.toNat_shiftRight, Nat.shiftRight_eq_div_pow]
      simp only [UInt8.reduceToNat, Nat.reduceMod, Nat.reducePow]
      omega
    have hlow : b &&& 15 < 16 := by
      rw [UInt8.lt_iff_toNat_lt, UInt8.toNat_and]
      exact Nat.lt_of_le_of_lt Nat.and_le_right (by decide)
    exact Printed.append (by decide)
      ((Printed.singleton (le_hexDigit _ hlow)).cons (le_hexDigit _ hhigh))
  · exact Printed.singleton (UInt8.not_lt.mp hcontrol)

theorem printed_serializeString (text : Str) : Printed (serializeString text) := by
  refine Printed.append (Printed.cons (by decide) ?_) (Printed.singleton (by decide))
  intro c hc
  obtain ⟨b, _, hb⟩ := List.mem_flatMap.mp hc
  exact printed_escapeByte b c hb

mutual

theorem printed_serialize : ∀ value : Value, Printed value.serialize
  | .null => by simp only [Value.serialize]; decide
  | .bool true => by simp only [Value.serialize]; decide
  | .bool false => by simp only [Value.serialize]; decide
  | .number n => by simpa only [Value.serialize] using printed_number n
  | .string text => by simpa only [Value.serialize] using printed_serializeString text
  | .array items => by
    simp only [Value.serialize]
    exact ((printed_serializeItems items).cons (by decide)).append (.singleton (by decide))
  | .object members => by
    simp only [Value.serialize]
    exact ((printed_serializeMembers members).cons (by decide)).append (.singleton (by decide))

theorem printed_serializeItems : ∀ items : List Value, Printed (serializeItems items)
  | [] => by simpa only [serializeItems] using Printed.nil
  | [item] => by simpa only [serializeItems] using printed_serialize item
  | item :: next :: items => by
    simp only [serializeItems]
    exact ((printed_serialize item).append (.singleton (by decide))).append
      (printed_serializeItems (next :: items))

theorem printed_serializeMembers : ∀ members : List (Str × Value),
    Printed (serializeMembers members)
  | [] => by simpa only [serializeMembers] using Printed.nil
  | [(key, value)] => by
    simp only [serializeMembers]
    exact ((printed_serializeString key).append (.singleton (by decide))).append
      (printed_serialize value)
  | (key, value) :: next :: members => by
    simp only [serializeMembers]
    exact ((((printed_serializeString key).append (.singleton (by decide))).append
      (printed_serialize value)).append (.singleton (by decide))).append
      (printed_serializeMembers (next :: members))

end

theorem serialize_ne_nil (value : Value) : value.serialize ≠ [] := by
  cases value with
  | null => simp only [Value.serialize]; decide
  | bool value => cases value <;> simp only [Value.serialize] <;> decide
  | number n =>
    cases n with
    | int n =>
      simp only [Value.serialize, Number.serialize]
      split
      · exact List.cons_ne_nil _ _
      · simp [decimal, Nat.toDigits_ne_nil]
    | float x => simpa only [Value.serialize, Number.serialize] using x.graphic.1
  | string text => simp [Value.serialize, serializeString]
  | array items => simp [Value.serialize]
  | object members => simp [Value.serialize]

end Json
