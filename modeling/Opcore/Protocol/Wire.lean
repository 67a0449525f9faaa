/-
  Opcore.Protocol.Wire

  What the provider reads from JSON: paths, changesets and listings.  A path is
  sent as its text where it is UTF-8 and as its printable form where it is not,
  and is accepted only without a backslash, so some paths do not come through.
-/
import Opcore.Library.Utf8
import Opcore.Protocol.Workspace

namespace Opcore.Asp

open Text Collections Json

/-! ## Derived deserializers -/

/-- The fields of a struct that denies unknown ones: an object with known keys,
    or an array with the fields in order. -/
def structFields (names : List Str) : Value → Option (List (Str × Value))
  | .object members => if members.any fun member => member.1 ∉ names then none else some members
  | .array items => if names.length < items.length then none else some (names.zip items)
  | _ => none

/-- The name of a variant without data. -/
def unitVariant : Value → Option Str
  | .string name => some name
  | .object [(name, .null)] => some name
  | _ => none

/-- A field that may be missing; where it is there, it has to be read. -/
def optionalField {α : Type} (read : Value → Option α) (fields : List (Str × Value)) (key : Str) :
    Option (Option α) :=
  match fields.lookup key with
  | none => some none
  | some value => (read value).map some

def requiredField {α : Type} (read : Value → Option α) (fields : List (Str × Value)) (key : Str) :
    Option α :=
  (fields.lookup key).bind read

def readArray {α : Type} (read : Value → Option α) : Value → Option (List α)
  | .array items => items.mapM read
  | _ => none

/-! ## Paths -/

/-- The text a path is serialized as. -/
def pathText (path : RepoPath) : Str := path.asUtf8.getD path.displayLossless

def pathOfValue? (value : Value) : Option RepoPath :=
  value.asStr?.bind fun text => (RepoPath.fromProtocol text).toOption

/-- The paths that can be sent: UTF-8 without a backslash. -/
def isProtocolPath (path : RepoPath) : Bool :=
  utf8Valid path.bytes && !path.bytes.contains (byte '\\')

theorem toOption_new_bytes (path : RepoPath) :
    (RepoPath.new path.bytes).toOption = some path := by
  unfold RepoPath.new
  split
  · rfl
  · next error herror =>
    rw [path.valid] at herror
    cases herror

/-- The printable form of a path that is not UTF-8 has a backslash. -/
theorem backslash_mem_displayLossless {path : RepoPath} (h : utf8Valid path.bytes = false) :
    byte '\\' ∈ path.displayLossless := by
  obtain ⟨b, hb, hlarge⟩ : ∃ b ∈ path.bytes, ¬ b < 0x80 := by
    by_contra hall
    rw [utf8Valid_of_ascii fun b hb => by_contra fun hn => hall ⟨b, hb, hn⟩] at h
    cases h
  refine List.mem_flatMap.mpr ⟨b, hb, ?_⟩
  have hne : b ≠ byte '\\' := by
    rintro rfl
    exact hlarge (by decide)
  have hrange : ¬ (byte ' ' ≤ b ∧ b ≤ byte '~') := by
    rintro ⟨-, hle⟩
    exact hlarge (lt_of_le_of_lt hle (by decide))
  rw [if_neg hne, if_neg hrange]
  exact List.mem_append_left _ (by decide)

/-- A path comes through exactly when it is UTF-8 without a backslash. -/
theorem pathOfValue?_pathText (path : RepoPath) :
    pathOfValue? (.string (pathText path)) = if isProtocolPath path then some path else none := by
  have hread : pathOfValue? (.string (pathText path))
      = (RepoPath.fromProtocol (pathText path)).toOption := rfl
  rw [hread]
  unfold RepoPath.fromProtocol pathText RepoPath.asUtf8 isProtocolPath
  cases hutf8 : utf8Valid path.bytes with
  | false =>
    have hslash : path.displayLossless.contains (byte '\\') = true :=
      List.contains_iff_mem.mpr (backslash_mem_displayLossless hutf8)
    simp only [Bool.false_eq_true, if_false, Option.getD_none, hslash, if_true, Bool.false_and]
    rfl
  | true =>
    simp only [if_true, Option.getD_some, Bool.true_and]
    cases hslash : path.bytes.contains (byte '\\') with
    | true => rfl
    | false =>
      simp only [Bool.false_eq_true, if_false, Bool.not_false, if_true]
      exact toOption_new_bytes path

/-! ## Changesets -/

def changeKindOfValue? (value : Value) : Option ChangeKind := do
  let name ← unitVariant value
  if name = ascii "create" then some .create
  else if name = ascii "modify" then some .modify
  else if name = ascii "delete" then some .delete
  else if name = ascii "rename" then some .rename
  else none

def Change.ofValue? (value : Value) : Option Change := do
  let fields ← structFields
    [ascii "path", ascii "kind", ascii "from", ascii "before", ascii "after"] value
  let path ← requiredField pathOfValue? fields (ascii "path")
  let kind ← requiredField changeKindOfValue? fields (ascii "kind")
  let source ← optionalField pathOfValue? fields (ascii "from")
  let before ← optionalField Value.asStr? fields (ascii "before")
  let after ← optionalField Value.asStr? fields (ascii "after")
  return ⟨path, kind, source, before, after⟩

def ChangeKind.asStr : ChangeKind → Str
  | .create => ascii "create"
  | .modify => ascii "modify"
  | .delete => ascii "delete"
  | .rename => ascii "rename"

/-- A member that is left out where there is no value. -/
def optionalMember (key : Str) (value : Option Str) : List (Str × Value) :=
  (value.map fun text => (key, Value.string text)).toList

def Change.toValue (change : Change) : Value :=
  .object (optionalMember (ascii "after") change.after
    ++ optionalMember (ascii "before") change.before
    ++ optionalMember (ascii "from") (change.source.map pathText)
    ++ [(ascii "kind", .string change.kind.asStr), (ascii "path", .string (pathText change.path))])

/-- The paths of a change can be sent. -/
def Change.isSendable (change : Change) : Bool :=
  isProtocolPath change.path && change.source.all isProtocolPath

/-- A change is read back where its paths are. -/
theorem Change.ofValue?_toValue (change : Change) :
    Change.ofValue? change.toValue = if change.isSendable then some change else none := by
  obtain ⟨path, kind, source, before, after⟩ := change
  have hkind : changeKindOfValue? (.string kind.asStr) = some kind := by
    cases kind <;> decide
  have hsource : ∀ path, pathOfValue? (.string (pathText path))
      = if isProtocolPath path then some path else none := pathOfValue?_pathText
  have hread : Change.ofValue? (Change.toValue ⟨path, kind, source, before, after⟩)
      = (pathOfValue? (.string (pathText path))).bind fun path =>
          (changeKindOfValue? (.string kind.asStr)).bind fun kind =>
            (source.elim (some none) fun source =>
              (pathOfValue? (.string (pathText source))).map some).bind fun source =>
                some ⟨path, kind, source, before, after⟩ := by
    cases source <;> cases before <;> cases after <;> rfl
  rw [hread, hkind, hsource, Change.isSendable]
  cases isProtocolPath path with
  | false => rfl
  | true =>
    cases source with
    | none => rfl
    | some source =>
      rw [Option.elim_some, hsource, Option.all_some]
      cases isProtocolPath source <;> rfl

def ChangeSet.ofValue? (value : Value) : Option ChangeSet := do
  let fields ← structFields [ascii "baseline", ascii "changes"] value
  let baseline ← requiredField Baseline.ofValue? fields (ascii "baseline")
  let changes ← requiredField (readArray Change.ofValue?) fields (ascii "changes")
  return ⟨baseline, changes⟩

/-! ## Listings -/

def entryKindOfValue? (value : Value) : Option EntryKind := do
  let name ← unitVariant value
  if name = ascii "file" then some .file
  else if name = ascii "dir" then some .dir
  else if name = ascii "symlink" then some .symlink
  else none

def TreeEntry.ofValue? (value : Value) : Option TreeEntry := do
  let fields ← structFields [ascii "path", ascii "blobId", ascii "kind"] value
  let path ← requiredField pathOfValue? fields (ascii "path")
  let blobId ← requiredField Value.asStr? fields (ascii "blobId")
  let kind ← requiredField entryKindOfValue? fields (ascii "kind")
  return ⟨path, blobId, kind⟩

def ListTreeResult.ofValue? (value : Value) : Option ListTreeResult := do
  let fields ← structFields [ascii "entries", ascii "truncated"] value
  let entries ← requiredField (readArray TreeEntry.ofValue?) fields (ascii "entries")
  let truncated ← optionalField Value.asBool? fields (ascii "truncated")
  return ⟨entries, truncated.getD false⟩

end Opcore.Asp
