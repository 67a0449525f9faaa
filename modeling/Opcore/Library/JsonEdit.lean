/-
  Opcore.Library.JsonEdit

  Editing the members of a JSON object, and the indented text of a value.
-/
import Opcore.Library.Json

open Text

namespace Json

/-! ## Members -/

section Members

variable {members before after : List (Str × Value)} {key other : Str} {value old : Value}

/-- The first member with the key gets another value. -/
def replaceMember (key : Str) (value : Value) : List (Str × Value) → List (Str × Value)
  | [] => []
  | member :: members =>
    if key = member.1 then (key, value) :: members
    else member :: replaceMember key value members

/-- A new member stands before the first that has a greater key. -/
def insertMember (key : Str) (value : Value) : List (Str × Value) → List (Str × Value)
  | [] => [(key, value)]
  | member :: members =>
    if key < member.1 then (key, value) :: member :: members
    else member :: insertMember key value members

/-- The members with a key set; a new key stands in its place by order. -/
def setMember (members : List (Str × Value)) (key : Str) (value : Value) : List (Str × Value) :=
  if (members.lookup key).isSome then replaceMember key value members
  else insertMember key value members

def removeMember (members : List (Str × Value)) (key : Str) : List (Str × Value) :=
  members.filter fun member => member.1 ≠ key

/-- Members without a key are those no lookup finds at it. -/
theorem lookup_eq_none_iff_forall_ne :
    members.lookup key = none ↔ ∀ member ∈ members, key ≠ member.1 := by
  simp [List.lookup_eq_none_iff]

/-- A member a lookup finds, with what stands before and after it. -/
theorem exists_split_of_lookup (h : members.lookup key = some value) :
    ∃ before after, members = before ++ (key, value) :: after ∧ before.lookup key = none := by
  obtain ⟨before, after, heq, hbefore⟩ := List.lookup_eq_some_iff.mp h
  exact ⟨before, after, heq, lookup_eq_none_iff_forall_ne.mpr (by simpa using hbefore)⟩

theorem mem_of_lookup (h : members.lookup key = some value) : (key, value) ∈ members := by
  obtain ⟨before, after, rfl, -⟩ := exists_split_of_lookup h
  exact List.mem_append_cons_self

theorem lookup_append_cons (h : before.lookup key = none) :
    (before ++ (key, value) :: after).lookup key = some value := by
  rw [List.lookup_append, h]
  simp

/-- Setting a key that is there replaces its value in place. -/
theorem setMember_append_cons (h : before.lookup key = none) :
    setMember (before ++ (key, old) :: after) key value = before ++ (key, value) :: after := by
  unfold setMember
  rw [lookup_append_cons h, if_pos Option.isSome_some]
  induction before with
  | nil => simp [replaceMember]
  | cons member before ih =>
    have hne := lookup_eq_none_iff_forall_ne.mp h
    have hbefore : before.lookup key = none :=
      lookup_eq_none_iff_forall_ne.mpr fun m hm => hne m (List.mem_cons_of_mem _ hm)
    rw [List.cons_append, replaceMember, if_neg (hne member List.mem_cons_self), ih hbefore,
      List.cons_append]

/-- Setting a key that is not there puts it somewhere between the members, at a
    place its value does not matter for. -/
theorem exists_split_setMember_of_none (h : members.lookup key = none) :
    ∃ before after, members = before ++ after
      ∧ ∀ value, setMember members key value = before ++ (key, value) :: after := by
  unfold setMember
  rw [h]
  clear h
  induction members with
  | nil => exact ⟨[], [], rfl, fun _ => rfl⟩
  | cons member members ih =>
    by_cases hlt : key < member.1
    · exact ⟨[], member :: members, rfl, fun _ => by simp [insertMember, hlt]⟩
    · obtain ⟨before, after, heq, hset⟩ := ih
      refine ⟨member :: before, after, by rw [heq, List.cons_append], fun value => ?_⟩
      simpa [insertMember, hlt] using hset value

/-- The two ways a key is set. -/
theorem exists_split_setMember (members : List (Str × Value)) (key : Str) :
    ∃ before after, before.lookup key = none
      ∧ (∀ value, setMember members key value = before ++ (key, value) :: after)
      ∧ ((members = before ++ after ∧ after.lookup key = none)
        ∨ ∃ old, members = before ++ (key, old) :: after) := by
  cases h : members.lookup key with
  | none =>
    obtain ⟨before, after, heq, hset⟩ := exists_split_setMember_of_none h
    rw [heq, List.lookup_append, Option.or_eq_none_iff] at h
    exact ⟨before, after, h.1, hset, .inl ⟨heq, h.2⟩⟩
  | some old =>
    obtain ⟨before, after, heq, hbefore⟩ := exists_split_of_lookup h
    refine ⟨before, after, hbefore, fun value => ?_, .inr ⟨old, heq⟩⟩
    rw [heq, setMember_append_cons hbefore]

theorem lookup_setMember :
    (setMember members key value).lookup other
      = if other = key then some value else members.lookup other := by
  obtain ⟨before, after, hbefore, hset, hmembers⟩ := exists_split_setMember members key
  rw [hset]
  by_cases h : other = key
  · rw [h, lookup_append_cons hbefore, if_pos rfl]
  · have hskip : ∀ v, (before ++ (key, v) :: after).lookup other
        = (before ++ after).lookup other := by
      intro v
      have hne : (other == key) = false := by simpa using h
      simp [List.lookup_append, List.lookup_cons, hne]
    rw [hskip, if_neg h]
    obtain ⟨rfl, -⟩ | ⟨old, rfl⟩ := hmembers
    · rfl
    · exact (hskip old).symm

theorem removeMember_setMember :
    removeMember (setMember members key value) key = removeMember members key := by
  obtain ⟨before, after, -, hset, ⟨rfl, -⟩ | ⟨old, rfl⟩⟩ := exists_split_setMember members key
  · rw [hset]
    simp [removeMember]
  · rw [hset]
    simp [removeMember]

theorem mem_setMember {member : Str × Value} (h : member ∈ setMember members key value) :
    member = (key, value) ∨ member ∈ members := by
  obtain ⟨before, after, -, hset, hmembers⟩ := exists_split_setMember members key
  rw [hset, List.mem_append, List.mem_cons] at h
  obtain ⟨rfl, -⟩ | ⟨old, rfl⟩ := hmembers
  · grind
  · grind

theorem setMember_setMember {value' : Value} :
    setMember (setMember members key value) key value' = setMember members key value' := by
  obtain ⟨before, after, hbefore, hset, -⟩ := exists_split_setMember members key
  rw [hset, hset, setMember_append_cons hbefore]

/-- Setting a member to what it is changes nothing. -/
theorem setMember_eq_self (h : members.lookup key = some value) :
    setMember members key value = members := by
  obtain ⟨before, after, rfl, hbefore⟩ := exists_split_of_lookup h
  exact setMember_append_cons hbefore

/-- Removing a member that is not there changes nothing. -/
theorem removeMember_eq_self (h : members.lookup key = none) :
    removeMember members key = members := by
  refine List.filter_eq_self.mpr fun member hmember => ?_
  simpa using (lookup_eq_none_iff_forall_ne.mp h member hmember).symm

theorem lookup_removeMember :
    (removeMember members key).lookup other = if other = key then none else members.lookup other := by
  induction members with
  | nil => simp [removeMember]
  | cons member members ih =>
    obtain ⟨k, v⟩ := member
    unfold removeMember at ih ⊢
    rw [List.filter_cons, List.lookup_cons]
    by_cases hk : k = key
    · subst hk
      rw [if_neg (by simp), ih]
      by_cases h : other = k
      · simp [h]
      · have hne : (other == k) = false := by simpa using h
        simp [h, hne]
    · rw [if_pos (by simpa using hk), List.lookup_cons, ih]
      by_cases h : other = k
      · subst h
        simp [hk]
      · have hne : (other == k) = false := by simpa using h
        simp [hne]

theorem lookup_edit {empty : Bool} :
    (if empty then removeMember members key else setMember members key value).lookup key
      = if empty then none else some value := by
  cases empty with
  | true => exact lookup_removeMember.trans (if_pos rfl)
  | false => exact lookup_setMember.trans (if_pos rfl)

/-- Members come back from an edit that sets one or takes it out exactly when it
    is set to what it was. -/
theorem edit_eq_self_iff {empty : Bool} (h : members.lookup key = some old) :
    (if empty then removeMember members key else setMember members key value) = members
      ↔ empty = false ∧ value = old := by
  constructor
  · intro heq
    have hlookup : (if empty then removeMember members key
      else setMember members key value).lookup key = _ := lookup_edit
    rw [heq, h] at hlookup
    cases empty with
    | true => cases hlookup
    | false => exact ⟨rfl, (Option.some.inj hlookup).symm⟩
  · rintro ⟨rfl, rfl⟩
    exact setMember_eq_self h

theorem removeMember_removeMember :
    removeMember (removeMember members key) key = removeMember members key := by
  unfold removeMember
  rw [List.filter_filter]
  simp

end Members

/-! ## Indented text -/

/-- A line break and the spaces of a depth. -/
def indentation (depth : Nat) : Str := byte '\n' :: List.replicate (2 * depth) (byte ' ')

mutual

/-- The text of a value with two spaces a level, as a pretty printer writes it. -/
def Value.pretty (depth : Nat) : Value → Str
  | .null => ascii "null"
  | .bool value => if value then ascii "true" else ascii "false"
  | .number value => value.serialize
  | .string text => serializeString text
  | .array items =>
    byte '[' :: prettyItems (depth + 1) items
      ++ (if items.isEmpty then [] else indentation depth) ++ [byte ']']
  | .object members =>
    byte '\x7b' :: prettyMembers (depth + 1) members
      ++ (if members.isEmpty then [] else indentation depth) ++ [byte '\x7d']

def prettyItems (depth : Nat) : List Value → Str
  | [] => []
  | [item] => indentation depth ++ item.pretty depth
  | item :: items => indentation depth ++ item.pretty depth ++ [byte ','] ++ prettyItems depth items

def prettyMembers (depth : Nat) : List (Str × Value) → Str
  | [] => []
  | [(key, value)] =>
    indentation depth ++ serializeString key ++ ascii ": " ++ value.pretty depth
  | (key, value) :: members =>
    indentation depth ++ serializeString key ++ ascii ": " ++ value.pretty depth ++ [byte ',']
      ++ prettyMembers depth members

end

theorem length_le_serializeString (text : Str) : text.length + 2 ≤ (serializeString text).length := by
  have hescape : ∀ b, 1 ≤ (escapeByte b).length := by
    intro b
    unfold escapeByte
    split_ifs <;> simp [ascii]
  have hflat : text.length ≤ (text.flatMap escapeByte).length := by
    induction text with
    | nil => exact le_rfl
    | cons b text ih =>
      rw [List.flatMap_cons, List.length_append, List.length_cons]
      have := hescape b
      omega
  unfold serializeString
  rw [List.length_append, List.length_cons, List.length_singleton]
  omega

/-- The text of an object is longer than a text in its last member. -/
theorem length_le_pretty_of_last (members : List (Str × Value)) (key text : Str) :
    text.length + 12 ≤ (Value.pretty 0 (.object (members ++ [(key, .string text)]))).length := by
  have hmembers : text.length + 9
      ≤ (prettyMembers 1 (members ++ [(key, .string text)])).length := by
    induction members with
    | nil =>
      have hkey := length_le_serializeString key
      have htext := length_le_serializeString text
      have hcolon : (ascii ": ").length = 2 := by decide
      have hindent : (indentation 1).length = 3 := by decide
      rw [List.nil_append, prettyMembers, Value.pretty, List.length_append, List.length_append,
        List.length_append]
      omega
    | cons member members ih =>
      obtain ⟨next, rest, hnext⟩ : ∃ next rest, members ++ [(key, .string text)] = next :: rest :=
        List.exists_cons_of_ne_nil (by simp)
      rw [List.cons_append]
      rw [hnext] at ih ⊢
      obtain ⟨k, v⟩ := member
      rw [prettyMembers, List.length_append]
      · omega
      · simp
  have hnonempty : (members ++ [(key, Value.string text)]).isEmpty = false := by simp
  have hindent : (indentation 0).length = 1 := by decide
  rw [Value.pretty, hnonempty, if_neg Bool.false_ne_true]
  simp only [List.length_append, List.length_cons, List.length_nil, hindent, Nat.zero_add]
  omega

end Json
