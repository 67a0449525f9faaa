/-
  Opcore.Library.JsonTree

  JSON values as trees: objects are the inner nodes, and every other value, an array too,
  is a leaf at the path of keys that leads to it.  A value may be laid over another one,
  leaf by leaf.
-/
import Mathlib.Data.List.Nodup
import Opcore.Library.JsonEdit
import Opcore.Library.Words

open Text

namespace Json

/-! ## Leaves -/

def Value.isObject : Value → Bool
  | .object _ => true
  | _ => false

/-- The leaf at a path. -/
def Value.leafAt : Value → List Str → Option Value
  | v, [] => if v.isObject then none else some v
  | v, key :: path => (v.get? key).bind fun v => v.leafAt path

variable {v : Value}

theorem get?_of_leaf (h : v.isObject = false) (key : Str) : v.get? key = none := by
  cases v with
  | object members => cases h
  | _ => rfl

theorem leafAt_cons_of_leaf (h : v.isObject = false) (key : Str) (path : List Str) :
    v.leafAt (key :: path) = none := by
  rw [Value.leafAt, get?_of_leaf h]
  rfl

variable {members : List (Str × Value)} {path : List Str}

theorem leafAt_object_cons {key k : Str} :
    (Value.object ((k, v) :: members)).leafAt (key :: path)
      = if key = k then v.leafAt path else (Value.object members).leafAt (key :: path) := by
  rw [Value.leafAt, Value.get?, List.lookup_cons]
  by_cases h : key = k
  · rw [if_pos h, h, beq_self_eq_true]
    rfl
  · rw [if_neg h, beq_false_of_ne h]
    rfl

variable {key : Str} {v v' : Value}

theorem exists_members_of_get? (h : v.get? key = some v') :
    ∃ members, v = .object members ∧ members.lookup key = some v' := by
  match v, h with
  | .object members, h => exact ⟨members, rfl, h⟩

/-- The value has a leaf at the path, in whichever of the members of a key. -/
inductive HasLeaf : Value → List Str → Prop
  | here {v : Value} : v.isObject = false → HasLeaf v []
  | member {members : List (Str × Value)} {key : Str} {v : Value} {path : List Str} :
      (key, v) ∈ members → HasLeaf v path → HasLeaf (.object members) (key :: path)

theorem hasLeaf_of_leafAt {v leaf : Value} (h : v.leafAt path = some leaf) :
    HasLeaf v path := by
  induction path generalizing v with
  | nil =>
    rw [Value.leafAt] at h
    split_ifs at h with hobject
    exact .here (Bool.eq_false_iff.mpr hobject)
  | cons key path ih =>
    obtain ⟨v', hget, hleaf⟩ := Option.bind_eq_some_iff.mp h
    obtain ⟨members, rfl, hlookup⟩ := exists_members_of_get? hget
    exact .member (mem_of_lookup hlookup) (ih hleaf)

/-! ## Well-formed values -/

mutual

/-- Strings are UTF-8, and the members of an object stand in the order of their keys, which
    are distinct. -/
def Value.wellFormed : Value → Bool
  | .string text => utf8Valid text
  | .array items => wellFormedItems items
  | .object members => decide ((members.map Prod.fst).Pairwise (· < ·)) && wellFormedMembers members
  | _ => true

def wellFormedItems : List Value → Bool
  | [] => true
  | item :: items => item.wellFormed && wellFormedItems items

def wellFormedMembers : List (Str × Value) → Bool
  | [] => true
  | (_, v) :: members => v.wellFormed && wellFormedMembers members

end

theorem wellFormed_of_mem_items {items : List Value} {item : Value}
    (h : wellFormedItems items = true) (hmem : item ∈ items) : item.wellFormed = true := by
  induction items with
  | nil => cases hmem
  | cons first items ih =>
    rw [wellFormedItems, Bool.and_eq_true] at h
    rcases List.mem_cons.mp hmem with rfl | hmem
    · exact h.1
    · exact ih h.2 hmem

theorem wellFormedMembers_iff :
    wellFormedMembers members = true ↔ ∀ member ∈ members, member.2.wellFormed = true := by
  induction members with
  | nil => simp [wellFormedMembers]
  | cons member members ih => simp [wellFormedMembers, ih]

theorem wellFormed_of_mem
    (h : wellFormedMembers members = true) (hmem : (key, v) ∈ members) : v.wellFormed = true :=
  wellFormedMembers_iff.mp h (key, v) hmem

theorem wellFormed_removeMember (h : (Value.object members).wellFormed = true) :
    (Value.object (removeMember members key)).wellFormed = true := by
  rw [Value.wellFormed, Bool.and_eq_true, decide_eq_true_eq, wellFormedMembers_iff] at h ⊢
  refine ⟨h.1.sublist (List.filter_sublist.map _), fun member hmem => h.2 member ?_⟩
  exact List.mem_of_mem_filter hmem

theorem Value.wellFormed_get? (h : v.wellFormed = true)
    (hget : v.get? key = some v') : v'.wellFormed = true := by
  obtain ⟨members, rfl, hlookup⟩ := exists_members_of_get? hget
  rw [Value.wellFormed, Bool.and_eq_true] at h
  exact wellFormed_of_mem h.2 (mem_of_lookup hlookup)

theorem lookup_of_mem (hnodup : (members.map Prod.fst).Nodup) (hmem : (key, v) ∈ members) :
    members.lookup key = some v := by
  obtain ⟨before, after, rfl⟩ := List.append_of_mem hmem
  refine lookup_append_cons (lookup_eq_none_iff_forall_ne.mpr fun member hmember heq => ?_)
  rw [List.map_append, List.map_cons, List.nodup_append] at hnodup
  exact hnodup.2.2 member.1 (List.mem_map_of_mem hmember) key List.mem_cons_self heq.symm

/-- Where keys are unique, the leaves are those that lookups find. -/
theorem exists_leafAt_of_hasLeaf (h : HasLeaf v path)
    (hwell : v.wellFormed = true) : ∃ leaf, v.leafAt path = some leaf := by
  induction h with
  | here hobject => exact ⟨_, by rw [Value.leafAt, hobject]; rfl⟩
  | member hmem _ ih =>
    rw [Value.wellFormed, Bool.and_eq_true, decide_eq_true_eq] at hwell
    obtain ⟨leaf, hleaf⟩ := ih (wellFormed_of_mem hwell.2 hmem)
    refine ⟨leaf, ?_⟩
    rw [Value.leafAt, Value.get?, lookup_of_mem (hwell.1.imp ne_of_lt) hmem]
    exact hleaf

/-! ## Pointers -/

/-- The text of a path; the keys are not escaped. -/
def pointer (path : List Str) : Str := path.flatMap fun key => byte '/' :: key

mutual

/-- No leaf is null, and no key on the way to a leaf has a slash in it. -/
def Value.plain : Value → Bool
  | .null => false
  | .object members => plainMembers members
  | _ => true

def plainMembers : List (Str × Value) → Bool
  | [] => true
  | (key, v) :: members => !key.contains (byte '/') && v.plain && plainMembers members

end

theorem plain_of_mem (h : plainMembers members = true) (hmem : (key, v) ∈ members) :
    byte '/' ∉ key ∧ v.plain = true := by
  induction members with
  | nil => cases hmem
  | cons first members ih =>
    rw [plainMembers, Bool.and_eq_true, Bool.and_eq_true, Bool.not_eq_true'] at h
    rcases List.mem_cons.mp hmem with rfl | hmem
    · exact ⟨fun hslash => by simp [hslash] at h, h.1.2⟩
    · exact ih h.2 hmem

theorem Value.plain_get? (h : v.plain = true) (hget : v.get? key = some v') :
    v'.plain = true := by
  obtain ⟨members, rfl, hlookup⟩ := exists_members_of_get? hget
  exact (plain_of_mem h (mem_of_lookup hlookup)).2

theorem HasLeaf.plain {v : Value} {path : List Str} (h : HasLeaf v path) (hplain : v.plain = true) :
    ∀ key ∈ path, byte '/' ∉ key := by
  induction h with
  | here _ => exact fun _ h => absurd h List.not_mem_nil
  | member hmem _ ih =>
    obtain ⟨hkey, hvalue⟩ := plain_of_mem hplain hmem
    exact List.forall_mem_cons.mpr ⟨hkey, ih hvalue⟩

theorem span_pointer (hkey : byte '/' ∉ key) (path : List Str) :
    (key ++ pointer path).takeWhile (· ≠ byte '/') = key
      ∧ (key ++ pointer path).dropWhile (· ≠ byte '/') = pointer path := by
  refine span_append (fun b hb => decide_eq_true fun heq => hkey (heq ▸ hb)) ?_
  cases path with
  | nil => exact nofun
  | cons key' path' =>
    rintro b ⟨⟩
    rfl

/-- A path is known by its pointer. -/
theorem pointer_injective {path path' : List Str} (hpath : ∀ key ∈ path, byte '/' ∉ key)
    (hpath' : ∀ key ∈ path', byte '/' ∉ key) (h : pointer path = pointer path') :
    path = path' := by
  induction path generalizing path' with
  | nil =>
    cases path' with
    | nil => rfl
    | cons key' path' => cases h
  | cons key path ih =>
    cases path' with
    | nil => cases h
    | cons key' path' =>
      obtain ⟨hkey, hpath⟩ := List.forall_mem_cons.mp hpath
      obtain ⟨hkey', hpath'⟩ := List.forall_mem_cons.mp hpath'
      have htail : key ++ pointer path = key' ++ pointer path' := (List.cons.inj h).2
      -- a key ends at the first slash
      obtain ⟨htake, hdrop⟩ := span_pointer hkey path
      obtain ⟨htake', hdrop'⟩ := span_pointer hkey' path'
      rw [htail] at htake hdrop
      rw [ih hpath hpath' (hdrop.symm.trans hdrop'), htake.symm.trans htake']

/-! ## Values over values -/

/-- Where `v` has a leaf, `out` has that leaf; elsewhere the one of `base`. -/
def Over (base : Value) (v : Option Value) (out : Value) : Prop :=
  ∀ path, out.leafAt path
    = (base.leafAt path).map fun leaf => (v.bind fun v => v.leafAt path).getD leaf

theorem Over.refl (base : Value) : Over base none base := by
  intro path
  cases base.leafAt path <;> rfl

theorem over_leaf {base v : Value} (hbase : base.isObject = false) (hv : v.isObject = false) :
    Over base (some v) v := by
  intro path
  cases path with
  | nil => simp [Value.leafAt, hbase, hv]
  | cons key path => rw [leafAt_cons_of_leaf hv, leafAt_cons_of_leaf hbase]; rfl

/-- The members of an object, each laid over one of another object. -/
inductive OverMembers (members : List (Str × Value)) :
    List (Str × Value) → List (Str × Value) → Prop
  | nil : OverMembers members [] []
  | cons {key : Str} {b o : Value} {bs os : List (Str × Value)} :
      Over b (members.lookup key) o → OverMembers members bs os →
      OverMembers members ((key, b) :: bs) ((key, o) :: os)

theorem OverMembers.over {members bs os : List (Str × Value)} (h : OverMembers members bs os) :
    Over (.object bs) (some (.object members)) (.object os) := by
  intro path
  cases path with
  | nil => rfl
  | cons key path =>
    show (os.lookup key).bind _ = Option.map _ ((bs.lookup key).bind _)
    induction h with
    | nil => rfl
    | @cons key' b o bs os hmember _ ih =>
      by_cases hkey : key = key'
      · subst hkey
        rw [List.lookup_cons_self, List.lookup_cons_self, Option.bind_some, Option.bind_some]
        exact hmember path
      · have hne : (key == key') = false := by simpa using hkey
        rw [List.lookup_cons, List.lookup_cons, hne]
        exact ih

end Json
