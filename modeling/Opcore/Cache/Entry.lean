/-
  Opcore.Cache.Entry

  The bytes of a fact file: what a store writes, and what a lookup accepts of an
  arbitrary file.
-/
import Opcore.Cache

namespace Opcore

open Text

/-! ## The file -/

def magic : Str := ascii "OPZFACT" ++ [0]

def headerBytes : Nat := 8 + 2 + 32 + 8 + 32

def schemaVersion : Nat := 1

/-- A fact key, which is a digest of 32 bytes. -/
structure FactKey where
  bytes : FileFactKey
  length_bytes : bytes.length = 32
  deriving DecidableEq

/-- The serialization of facts and its reading, which come from outside. -/
class Serde where
  toVec : FileFacts → Str
  fromSlice : Str → Option FileFacts

variable [Sha256]

/-- The bytes `write_temporary_fact` writes. -/
def factFile (key : FactKey) (payload : Str) : Str :=
  magic ++ be16 schemaVersion ++ key.bytes ++ be64 payload.length ++ Sha256.digest payload
    ++ payload

/-- The payload of a file that is a fact of the key. -/
def readPayload (key : FactKey) (content : Str) : Option Str :=
  if content.length < headerBytes ∨ headerBytes + maxCacheEntryBytes < content.length then none
  else
    let header := content.take headerBytes
    if header.take 8 ≠ magic then none
    else if (header.drop 8).take 2 ≠ be16 schemaVersion ∨ (header.drop 10).take 32 ≠ key.bytes then
      none
    else
      let length := fromBe64 ((header.drop 42).take 8)
      if maxCacheEntryBytes < length ∨ content.length ≠ headerBytes + length then none
      else
        let payload := (content.drop headerBytes).take length
        if Sha256.digest payload ≠ (header.drop 50).take 32 then none else some payload

inductive ExistingFact where
  | missing
  | matching
  | conflicting
  deriving DecidableEq

/-- What stands at the path of a key; a file that is no fact of the key counts as
    missing. -/
def existingFact (file : Option Str) (key : FactKey) (payload : Str) : ExistingFact :=
  match file.bind (readPayload key) with
  | some existing => if existing = payload then .matching else .conflicting
  | none => .missing

/-! ## A file that was written is read back -/

theorem readPayload_factFile {key : FactKey} {payload : Str}
    (hdigest : (Sha256.digest payload).length = 32) (hsize : payload.length ≤ maxCacheEntryBytes) :
    readPayload key (factFile key payload) = some payload := by
  have hmagic : magic.length = 8 := by decide
  have hversion : (be16 schemaVersion).length = 2 := rfl
  have hlength : (be64 payload.length).length = 8 := rfl
  have hkey := key.length_bytes
  obtain ⟨header, hheader⟩ : ∃ header, header = magic ++ be16 schemaVersion ++ key.bytes
    ++ be64 payload.length ++ Sha256.digest payload := ⟨_, rfl⟩
  have hsizes : header.length = headerBytes := by
    simp only [hheader, List.length_append, hmagic, hversion, hlength, hkey, hdigest, headerBytes]
  have hfile : factFile key payload = header ++ payload := by rw [hheader, factFile]
  have htake : (factFile key payload).take headerBytes = header := by
    rw [hfile, List.take_left' hsizes]
  have hdrop : (factFile key payload).drop headerBytes = payload := by
    rw [hfile, List.drop_left' hsizes]
  have htotal : (factFile key payload).length = headerBytes + payload.length := by
    rw [hfile, List.length_append, hsizes]
  have hfirst : header.take 8 = magic := by
    rw [hheader]
    simp only [List.append_assoc]
    rw [List.take_left' hmagic]
  have hsecond : (header.drop 8).take 2 = be16 schemaVersion := by
    rw [hheader]
    simp only [List.append_assoc]
    rw [List.drop_left' hmagic, List.take_left' hversion]
  have hthird : (header.drop 10).take 32 = key.bytes := by
    rw [hheader, List.append_assoc, List.append_assoc, List.drop_left', List.take_left' hkey]
    rw [List.length_append, hmagic, hversion]
  have hfourth : (header.drop 42).take 8 = be64 payload.length := by
    rw [hheader, List.append_assoc, List.drop_left', List.take_left' hlength]
    rw [List.length_append, List.length_append, hmagic, hversion, hkey]
  have hfifth : (header.drop 50).take 32 = Sha256.digest payload := by
    rw [hheader, List.drop_left', List.take_of_length_le hdigest.le]
    rw [List.length_append, List.length_append, List.length_append, hmagic, hversion, hkey, hlength]
  have hlen : fromBe64 (be64 payload.length) = payload.length := by
    refine fromBe64_be64 (hsize.trans_lt ?_)
    decide
  unfold readPayload
  rw [if_neg (by rw [htotal]; omega)]
  dsimp only
  rw [htake, if_neg (not_not.mpr hfirst),
    if_neg (not_or.mpr ⟨not_not.mpr hsecond, not_not.mpr hthird⟩), hfourth, hlen,
    if_neg (not_or.mpr ⟨not_lt.mpr hsize, not_not.mpr htotal⟩), hdrop, List.take_length,
    if_neg (not_not.mpr hfifth.symm)]

/-! ## What is read was written -/

/-- A file that is read as a fact of a key is byte for byte what is written for it. -/
theorem eq_factFile_of_readPayload {key : FactKey} {content payload : Str}
    (h : readPayload key content = some payload) :
    content = factFile key payload ∧ payload.length ≤ maxCacheEntryBytes := by
  unfold readPayload at h
  split_ifs at h with hsize
  dsimp only at h
  split_ifs at h with hmagic hversion hlength hchecksum
  obtain ⟨hversion, hkey⟩ := not_or.mp hversion
  obtain ⟨hmax, hcontent⟩ := not_or.mp hlength
  rw [not_not] at hmagic hversion hkey hcontent hchecksum
  obtain rfl := Option.some.inj h
  have hheader : (content.take headerBytes).length = 82 := by
    rw [List.length_take, hcontent, Nat.min_eq_left (Nat.le_add_right _ _)]
    rfl
  have hsplit := List.take_append_drop headerBytes content
  generalize hrest : content.drop headerBytes = rest at hsplit hchecksum ⊢
  have hlengthRest : rest.length = fromBe64 (((content.take headerBytes).drop 42).take 8) := by
    rw [← hrest, List.length_drop, hcontent, Nat.add_sub_cancel_left]
  generalize content.take headerBytes = header at *
  rw [← hlengthRest, List.take_length] at hchecksum ⊢
  -- The header is its five fields, one after the other.
  have hsum : (header.drop 50).take 32 = header.drop 50 :=
    List.take_of_length_le (by rw [List.length_drop, hheader])
  have hnumber : (header.drop 42).take 8 = be64 rest.length := by
    rw [hlengthRest, be64_fromBe64]
    rw [List.length_take, List.length_drop, hheader]
    rfl
  have hfields : header = header.take 8 ++ ((header.drop 8).take 2 ++ ((header.drop 10).take 32
      ++ ((header.drop 42).take 8 ++ header.drop 50))) := by
    have h₁ := List.take_append_drop 8 header
    have h₂ := List.take_append_drop 2 (header.drop 8)
    have h₃ := List.take_append_drop 32 (header.drop 10)
    have h₄ := List.take_append_drop 8 (header.drop 42)
    rw [List.drop_drop] at h₂ h₃ h₄
    rw [h₄, h₃, h₂, h₁]
  refine ⟨?_, ?_⟩
  · rw [← hsplit, hfields, hmagic, hversion, hkey, hnumber, ← hsum, ← hchecksum, factFile]
    simp only [List.append_assoc]
  · rw [hlengthRest]
    exact not_lt.mp hmax

/-- Fact files check themselves: what is written for a key is read back, and whatever is
    read for a key is, byte for byte, what is written for it. -/
theorem factFile_self_validating (hdigest : ∀ payload : Str, (Sha256.digest payload).length = 32)
    (key : FactKey) :
    (∀ payload : Str, payload.length ≤ maxCacheEntryBytes →
      readPayload key (factFile key payload) = some payload)
      ∧ ∀ content payload : Str, readPayload key content = some payload →
        content = factFile key payload ∧ payload.length ≤ maxCacheEntryBytes :=
  ⟨fun payload hsize => readPayload_factFile (hdigest payload) hsize,
    fun _ _ h => eq_factFile_of_readPayload h⟩

/-- A digest of 32 bytes that counts the bytes of its input. -/
abbrev countingDigest : Sha256 := ⟨fun payload => List.replicate 24 0 ++ be64 payload.length⟩

def zeroKey : FactKey := ⟨List.replicate 32 0, by decide⟩

omit [Sha256] in
theorem factFile_self_validating_counting :
    @readPayload countingDigest zeroKey (@factFile countingDigest zeroKey (ascii "facts"))
        = some (ascii "facts")
      ∧ ∀ content payload : Str, @readPayload countingDigest zeroKey content = some payload →
        content = @factFile countingDigest zeroKey payload :=
  have h := @factFile_self_validating countingDigest (fun _ => rfl) zeroKey
  ⟨h.1 _ (by decide), fun content payload hread => (h.2 content payload hread).1⟩

end Opcore
