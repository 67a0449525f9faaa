/-
  Opcore.Source.Staged

  Source files read from Git objects.  The after view of two trees is read only where
  its entries differ from those before and carries the other files over, and the paths
  on which two views differ are found by one merge of their files.
-/
import Mathlib.Algebra.Order.BigOperators.Group.List
import Mathlib.Algebra.Order.Group.Nat
import Opcore.Source.Objects
import Opcore.Source.Snapshot
import Opcore.Source.Worktree

namespace Opcore

open Text Collections

section

variable [Platform]

/-! ## Objects -/

/-- What a name says of a file, and its first line where that matters. -/
def sourceFile (path : RepoPath) (bytes : Str) : Option SourceFile :=
  (resolveLanguage path bytes).map fun (language, mode) => ⟨path, bytes, language, mode⟩

/-- Every path with a language is that of a source file, whatever its bytes. -/
theorem isSome_sourceFile {path : RepoPath} {bytes : Str} :
    (sourceFile path bytes).isSome = (detectLanguage path).isSome := by
  rw [sourceFile, Option.isSome_map, resolveLanguage]
  cases detectLanguage path with
  | none => rfl
  | some detected =>
    dsimp only [Option.bind_eq_bind, Option.bind_some]
    split_ifs <;> rfl

theorem path_of_sourceFile {path : RepoPath} {bytes : Str} {file : SourceFile}
    (h : sourceFile path bytes = some file) : file.path = path ∧ file.bytes = bytes := by
  obtain ⟨detected, -, rfl⟩ := Option.map_eq_some_iff.mp h
  exact ⟨rfl, rfl⟩

def validateGitObjectModes (entries : List (RepoPath × TreeEntry)) : Except SourceError Unit :=
  entries.forM fun entry =>
    if entry.2.mode = ascii "120000" then
      .error (.denied (ascii "tracked symlinks are not followed"))
    else if entry.2.mode = ascii "160000" then
      .error (.denied (ascii "submodule entries are not files"))
    else .ok ()

/-- `git cat-file --batch`: what it writes for a list of object ids. -/
abbrev CatFile := List Str → Str

def gitBlobsFromObjectsBounded (catFile : CatFile) (entries : List (RepoPath × TreeEntry))
    (totalLimit : Nat) : Except SourceError (List GitBlob) :=
  if entries = [] then .ok []
  else do
    validateGitObjectModes entries
    let (blobs, _) ← readCatBlobs (catFile (entries.map fun entry => entry.2.oid)) entries totalLimit
    return blobs

/-- The source files among the entries, read under a bound on their bytes together. -/
def filesFromGitObjectsBounded (catFile : CatFile) (entries : List (RepoPath × TreeEntry))
    (totalLimit : Nat) : Except SourceError (List SourceFile) := do
  let supported := entries.filter fun entry => (detectLanguage entry.1).isSome
  let blobs ← gitBlobsFromObjectsBounded catFile supported totalLimit
  return blobs.filterMap fun blob => sourceFile blob.path blob.bytes

def filesFromGitObjects (catFile : CatFile) (entries : List (RepoPath × TreeEntry)) :
    Except SourceError (List SourceFile) :=
  filesFromGitObjectsBounded catFile entries maxTotalSourceBytes

/-- A blob is written as a frame, and of a missing object that it is missing. -/
def catFileFrame (objects : Str → Option Str) (oid : Str) : Str :=
  match objects oid with
  | some bytes =>
    (oid ++ ascii " blob " ++ Json.decimal bytes.length) ++ 10 :: (bytes ++ [10])
  | none => (oid ++ ascii " missing") ++ [10]

/-- What is written for an id depends on the id alone: ids that are equal name equal bytes. -/
def CatFile.Serves (catFile : CatFile) (objects : Str → Option Str) : Prop :=
  ∀ oids, catFile oids = oids.flatMap (catFileFrame objects)

/-! ## Reading what Git serves -/

section Serves

variable {catFile : CatFile} {objects : Str → Option Str} {entry : TreeEntry} {bytes frame oid : Str}

/-- What can stand in a header: one word. -/
def IsWord (oid : Str) : Prop := oid ≠ [] ∧ ∀ b ∈ oid, isAsciiWhitespace b = false

omit [Platform]

theorem isWord_decimal (n : Nat) : IsWord (Json.decimal n) := by
  constructor
  · rw [Json.decimal, Ne, List.map_eq_nil_iff]
    exact Nat.toDigits_ne_nil
  · intro b hb
    have hdigit := isAsciiDigit_of_mem_decimal hb
    have hdigits : ∀ b : UInt8, Asp.isAsciiDigit b = true → isAsciiWhitespace b = false := by
      intro b hb
      rw [Asp.isAsciiDigit, decide_eq_true_eq] at hb
      have hlow := UInt8.le_iff_toNat_le.mp hb.1
      simp only [isAsciiWhitespace, Bool.or_eq_false_iff, decide_eq_false_iff_not]
      refine ⟨⟨⟨⟨?_, ?_⟩, ?_⟩, ?_⟩, ?_⟩ <;> rintro rfl <;> exact absurd hlow (by decide)
    exact hdigits b hdigit

theorem isWord_of_all (hne : oid ≠ [])
    (hall : (oid.all fun b => !isAsciiWhitespace b) = true) : IsWord oid :=
  ⟨hne, fun b hb => Bool.not_eq_true' _ ▸ List.all_eq_true.mp hall b hb⟩

theorem words_blob (h : IsWord oid) (n : Nat) :
    splitAsciiWhitespace (oid ++ ascii " blob " ++ Json.decimal n)
      = [oid, ascii "blob", Json.decimal n] := by
  have hdecimal := isWord_decimal n
  have hblob : IsWord (ascii "blob") := isWord_of_all (by decide) (by decide)
  have hspaces : ascii " blob " = 32 :: (ascii "blob" ++ [32]) := by decide
  have hheader : oid ++ ascii " blob " ++ Json.decimal n
      = oid ++ 32 :: (ascii "blob" ++ 32 :: Json.decimal n) := by
    rw [hspaces, List.append_assoc, List.cons_append, List.append_assoc, List.singleton_append]
  rw [hheader, splitAsciiWhitespace_append _ _ rfl, splitAsciiWhitespace_append _ _ rfl,
    splitAsciiWhitespace_of_notMem h.2 h.1, splitAsciiWhitespace_of_notMem hblob.2 hblob.1,
    splitAsciiWhitespace_of_notMem hdecimal.2 hdecimal.1]
  rfl

theorem words_missing (h : IsWord oid) :
    splitAsciiWhitespace (oid ++ ascii " missing") = [oid, ascii "missing"] := by
  have hmissing : IsWord (ascii "missing") := isWord_of_all (by decide) (by decide)
  have hheader : oid ++ ascii " missing" = oid ++ 32 :: ascii "missing" := by
    have hspace : ascii " missing" = 32 :: ascii "missing" := by decide
    rw [hspace]
  rw [hheader, splitAsciiWhitespace_append _ _ rfl, splitAsciiWhitespace_of_notMem h.2 h.1,
    splitAsciiWhitespace_of_notMem hmissing.2 hmissing.1]
  rfl

theorem IsWord.newline_notMem (h : IsWord oid) : (10 : UInt8) ∉ oid :=
  fun hmem => absurd (h.2 10 hmem) (by decide)

theorem split_unique {a b a' b' : Str} {c : UInt8} (ha : c ∉ a) (ha' : c ∉ a')
    (h : a ++ c :: b = a' ++ c :: b') : a = a' ∧ b = b' := by
  have hindex := congrArg (List.idxOf c) h
  rw [List.idxOf_append_of_notMem ha, List.idxOf_append_of_notMem ha', List.idxOf_cons_self,
    List.idxOf_cons_self, Nat.add_zero, Nat.add_zero] at hindex
  obtain ⟨hfront, hback⟩ := List.append_inj h hindex
  exact ⟨hfront, (List.cons.inj hback).2⟩

/-- The frame an entry is read from is the one that was written for it. -/
theorem bytes_of_catFrame {rest later : Str} (h : CatFrame entry bytes frame)
    (hserved : frame ++ rest = catFileFrame objects entry.oid ++ later) :
    objects entry.oid = some bytes ∧ IsWord entry.oid ∧ rest = later := by
  obtain ⟨header, size, hfree, hwords, hsize⟩ := h
  have hoid : IsWord entry.oid := by
    apply of_mem_words
    rw [hwords]
    exact List.mem_cons_self
  rw [List.append_assoc, List.cons_append] at hserved
  cases hobject : objects entry.oid with
  | none =>
    rw [catFileFrame, hobject] at hserved
    have hmissing : (10 : UInt8) ∉ entry.oid ++ ascii " missing" := by
      rw [List.mem_append, not_or]
      exact ⟨hoid.newline_notMem, by decide⟩
    obtain ⟨rfl, -⟩ := split_unique hfree hmissing
      (hserved.trans (List.append_assoc _ [10] later))
    rw [words_missing hoid] at hwords
    cases hwords
  | some served =>
    rw [catFileFrame, hobject] at hserved
    have hheadline : (10 : UInt8) ∉ entry.oid ++ ascii " blob " ++ Json.decimal served.length := by
      rw [List.mem_append, List.mem_append, not_or, not_or]
      exact ⟨⟨hoid.newline_notMem, by decide⟩, (isWord_decimal _).newline_notMem⟩
    obtain ⟨rfl, hbody⟩ := split_unique hfree hheadline
      (hserved.trans (List.append_assoc _ (10 :: (served ++ [10])) later))
    rw [words_blob hoid] at hwords
    obtain rfl : Json.decimal served.length = size := by
      simpa using hwords
    obtain ⟨hlength, -⟩ := parseUsize_decimal.mp hsize
    rw [List.append_assoc] at hbody
    obtain ⟨rfl, hrest⟩ := List.append_inj
      (hbody.trans (List.append_assoc served [10] later)) hlength.symm
    exact ⟨rfl, hoid, List.append_cancel_left hrest⟩

/-- What is written for a blob is a frame of its bytes. -/
theorem catFrame_catFileFrame (hobject : objects entry.oid = some bytes) (hoid : IsWord entry.oid)
    (hlength : bytes.length < 2 ^ 64) : CatFrame entry bytes (catFileFrame objects entry.oid) := by
  rw [catFileFrame, hobject]
  refine .intro _ (Json.decimal bytes.length) ?_ (words_blob hoid _)
    (parseUsize_decimal.mpr ⟨rfl, hlength⟩)
  rw [List.mem_append, List.mem_append, not_or, not_or]
  exact ⟨⟨hoid.newline_notMem, by decide⟩, (isWord_decimal _).newline_notMem⟩

end Serves

/-! ## Entries that can be read -/

/-- An entry whose object is a blob that the bound on one file admits. -/
structure Readable (objects : Str → Option Str) (entry : TreeEntry) : Prop where
  mode : entry.mode ≠ ascii "120000" ∧ entry.mode ≠ ascii "160000"
  oid : IsWord entry.oid
  blob : ∃ bytes, objects entry.oid = some bytes ∧ bytes.length ≤ maxSourceBytes

def entryBytes (objects : Str → Option Str) (entry : TreeEntry) : Str :=
  (objects entry.oid).getD []

/-- The source file an entry reads as. -/
def entryFile (objects : Str → Option Str) (path : RepoPath) (entry : TreeEntry) :
    Option SourceFile := sourceFile path (entryBytes objects entry)

section Batch

variable {catFile : CatFile} {objects : Str → Option Str} {entries : List (RepoPath × TreeEntry)}
  {totalLimit : Nat} {blobs : List GitBlob} {files : List SourceFile}

omit [Platform]

theorem validateGitObjectModes_eq_ok_iff : validateGitObjectModes entries = .ok ()
    ↔ ∀ entry ∈ entries, entry.2.mode ≠ ascii "120000" ∧ entry.2.mode ≠ ascii "160000" := by
  rw [validateGitObjectModes, Except.forM_eq_ok_iff]
  refine forall₂_congr fun entry _ => ?_
  split_ifs with hlink hmodule
  · simp [hlink]
  · simp [hmodule]
  · simp [hlink, hmodule]

theorem blobs_of_catFrames {consumed rest later : Str} (h : CatFrames entries blobs consumed)
    (hserved : consumed ++ rest
      = (entries.map fun entry => entry.2.oid).flatMap (catFileFrame objects) ++ later) :
    (∀ entry ∈ entries, IsWord entry.2.oid ∧ (objects entry.2.oid).isSome = true)
      ∧ blobs = entries.map (fun entry => ⟨entry.1, entryBytes objects entry.2⟩) := by
  induction h with
  | nil => exact ⟨nofun, rfl⟩
  | @cons path entry entries bytes frame remaining blobs hframe hframes ih =>
    rw [List.map_cons, List.flatMap_cons, List.append_assoc, List.append_assoc] at hserved
    obtain ⟨hobject, hoid, hrest⟩ := bytes_of_catFrame hframe hserved
    obtain ⟨hreadable, hblobs⟩ := ih hrest
    refine ⟨List.forall_mem_cons.mpr ⟨⟨hoid, by rw [hobject]; rfl⟩, hreadable⟩, ?_⟩
    rw [List.map_cons, hblobs, entryBytes, hobject]
    rfl

theorem catFrames_served (h : ∀ entry ∈ entries, Readable objects entry.2) :
    CatFrames entries (entries.map fun entry => ⟨entry.1, entryBytes objects entry.2⟩)
      ((entries.map fun entry => entry.2.oid).flatMap (catFileFrame objects)) := by
  induction entries with
  | nil => exact .nil
  | cons entry entries ih =>
    obtain ⟨hentry, hentries⟩ := List.forall_mem_cons.mp h
    obtain ⟨bytes, hobject, hlength⟩ := hentry.blob
    have hbytes : entryBytes objects entry.2 = bytes := by
      rw [entryBytes, hobject]
      rfl
    rw [List.map_cons, List.map_cons, List.flatMap_cons, hbytes]
    refine .cons (catFrame_catFileFrame hobject hentry.oid ?_) (ih hentries)
    exact hlength.trans_lt (by decide)

/-- A batch is read when each of its entries can be, and all of them fit. -/
theorem gitBlobsFromObjectsBounded_eq_ok_iff (hserves : catFile.Serves objects) :
    gitBlobsFromObjectsBounded catFile entries totalLimit = .ok blobs
      ↔ (∀ entry ∈ entries, Readable objects entry.2)
        ∧ (entries.map fun entry => (entryBytes objects entry.2).length).sum ≤ totalLimit
        ∧ blobs = entries.map fun entry => ⟨entry.1, entryBytes objects entry.2⟩ := by
  rw [gitBlobsFromObjectsBounded]
  split_ifs with hnil
  · subst hnil
    simp [eq_comm]
  · constructor
    · intro h
      obtain ⟨_, hmodes, h⟩ := Except.bind_eq_ok_iff.mp h
      obtain ⟨⟨read, rest⟩, hread, h⟩ := Except.bind_eq_ok_iff.mp h
      cases h
      obtain ⟨consumed, hstream, hframes, hbounded, hsum⟩ :=
        (readCatBlobsFrom_eq_ok_iff (Nat.zero_le _)).mp hread
      rw [hserves] at hstream
      obtain ⟨hwords, rfl⟩ := blobs_of_catFrames hframes
        (hstream.symm.trans (List.append_nil _).symm)
      have hmodes := validateGitObjectModes_eq_ok_iff.mp hmodes
      refine ⟨fun entry hentry => ⟨hmodes entry hentry, (hwords entry hentry).1, ?_⟩, ?_, rfl⟩
      · obtain ⟨bytes, hobject⟩ := Option.isSome_iff_exists.mp (hwords entry hentry).2
        refine ⟨bytes, hobject, ?_⟩
        have hlength := hbounded _ (List.mem_map_of_mem hentry)
        dsimp only at hlength
        rwa [entryBytes, hobject] at hlength
      · rw [Nat.zero_add, List.map_map] at hsum
        exact hsum
    · rintro ⟨hreadable, hsum, rfl⟩
      have hmodes : validateGitObjectModes entries = .ok () :=
        validateGitObjectModes_eq_ok_iff.mpr fun entry hentry => (hreadable entry hentry).mode
      have hread : readCatBlobs (catFile (entries.map fun entry => entry.2.oid)) entries totalLimit
          = .ok (entries.map fun entry => ⟨entry.1, entryBytes objects entry.2⟩, []) := by
        refine (readCatBlobsFrom_eq_ok_iff (Nat.zero_le _)).mpr
          ⟨_, (hserves _).trans (List.append_nil _).symm, catFrames_served hreadable, ?_, ?_⟩
        · intro blob hblob
          obtain ⟨entry, hentry, rfl⟩ := List.mem_map.mp hblob
          obtain ⟨bytes, hobject, hlength⟩ := (hreadable entry hentry).blob
          rw [entryBytes, hobject]
          exact hlength
        · rw [Nat.zero_add, List.map_map]
          exact hsum
      rw [hmodes]
      change (readCatBlobs _ entries totalLimit >>= _) = _
      rw [hread]
      rfl

end Batch

section Files

variable {catFile : CatFile} {objects : Str → Option Str} {entries : List (RepoPath × TreeEntry)}
  {totalLimit : Nat} {files : List SourceFile}

/-- The entries whose names give them a language. -/
def supportedEntries (entries : List (RepoPath × TreeEntry)) : List (RepoPath × TreeEntry) :=
  entries.filter fun entry => (detectLanguage entry.1).isSome

def totalBytes (objects : Str → Option Str) (entries : List (RepoPath × TreeEntry)) : Nat :=
  (entries.map fun entry => (entryBytes objects entry.2).length).sum

theorem entryFile_eq_none {path : RepoPath} {entry : TreeEntry}
    (h : (detectLanguage path).isSome = false) : entryFile objects path entry = none := by
  rw [← Option.not_isSome_iff_eq_none, entryFile, isSome_sourceFile, h]
  exact Bool.false_ne_true

/-- The source files of a list of entries, where those that have a language can be read. -/
theorem filesFromGitObjectsBounded_eq_ok_iff (hserves : catFile.Serves objects) :
    filesFromGitObjectsBounded catFile entries totalLimit = .ok files
      ↔ (∀ entry ∈ supportedEntries entries, Readable objects entry.2)
        ∧ totalBytes objects (supportedEntries entries) ≤ totalLimit
        ∧ files = entries.filterMap fun entry => entryFile objects entry.1 entry.2 := by
  have hfiles : ((supportedEntries entries).map fun entry =>
        (⟨entry.1, entryBytes objects entry.2⟩ : GitBlob)).filterMap
          (fun blob => sourceFile blob.path blob.bytes)
      = entries.filterMap fun entry => entryFile objects entry.1 entry.2 := by
    rw [List.filterMap_map, supportedEntries, List.filterMap_filter]
    refine List.filterMap_congr fun entry _ => ?_
    split_ifs with hsupported
    · rfl
    · exact (entryFile_eq_none (Bool.not_eq_true _ ▸ hsupported)).symm
  constructor
  · intro h
    obtain ⟨blobs, hblobs, h⟩ := Except.bind_eq_ok_iff.mp h
    cases h
    obtain ⟨hreadable, hsum, rfl⟩ := (gitBlobsFromObjectsBounded_eq_ok_iff hserves).mp hblobs
    exact ⟨hreadable, hsum, hfiles⟩
  · rintro ⟨hreadable, hsum, rfl⟩
    have hblobs := (gitBlobsFromObjectsBounded_eq_ok_iff hserves).mpr ⟨hreadable, hsum, rfl⟩
    rw [filesFromGitObjectsBounded]
    change (gitBlobsFromObjectsBounded catFile (supportedEntries entries) totalLimit >>= _) = _
    rw [hblobs, ← hfiles]
    rfl

end Files

/-! ## Staged views -/

/-- `staged_after_files`: the changed files over those of the before view that are still there. -/
def stagedAfterFiles (beforeFiles : List SourceFile) (afterPaths : BTreeSet RepoPath)
    (changedFiles : List SourceFile) : List SourceFile :=
  ((BTreeMap.ofList ((beforeFiles.filter fun file => file.path ∈ afterPaths).map
    fun file => (file.path, file))).extend (changedFiles.map fun file => (file.path, file))).values

/-- The paths of the entries that have a language. -/
def sourcePaths (entries : BTreeMap RepoPath TreeEntry) : BTreeSet RepoPath :=
  entries.keySet.filter fun path => (detectLanguage path).isSome

/-- The entries that have a language and are not the same before. -/
def changedAfterEntries (before after : BTreeMap RepoPath TreeEntry) : BTreeMap RepoPath TreeEntry :=
  after.filter fun path entry => (detectLanguage path).isSome && before.get? path ≠ some entry

section Staged

variable {objects : Str → Option Str} {before after : BTreeMap RepoPath TreeEntry}

theorem path_of_entryFile {path : RepoPath} {entry : TreeEntry} {file : SourceFile}
    (h : entryFile objects path entry = some file) : file.path = path := (path_of_sourceFile h).1

/-- The files of a map of entries, each under its path. -/
theorem map_path_entryFiles (entries : BTreeMap RepoPath TreeEntry) :
    (entries.entries.filterMap fun entry => entryFile objects entry.1 entry.2).map
        (fun file => (file.path, file))
      = (entries.filterMap (entryFile objects)).entries := by
  rw [List.map_filterMap, BTreeMap.filterMap]
  refine List.filterMap_congr fun entry _ => ?_
  cases hfile : entryFile objects entry.1 entry.2 with
  | none => rfl
  | some file =>
    show some (file.path, file) = some (entry.1, file)
    rw [path_of_entryFile hfile]

/-- What is carried over and what is read again are together what reading all gives. -/
theorem stagedAfterFiles_eq :
    stagedAfterFiles (before.entries.filterMap fun entry => entryFile objects entry.1 entry.2)
        (sourcePaths after)
        ((changedAfterEntries before after).entries.filterMap
          fun entry => entryFile objects entry.1 entry.2)
      = after.entries.filterMap fun entry => entryFile objects entry.1 entry.2 := by
  have hkept : ((before.entries.filterMap fun entry => entryFile objects entry.1 entry.2).filter
        fun file => file.path ∈ sourcePaths after).map (fun file => (file.path, file))
      = ((before.filterMap (entryFile objects)).filter
          fun path _ => path ∈ sourcePaths after).entries := by
    show _ = List.filter (fun entry => decide (entry.1 ∈ sourcePaths after))
      (before.filterMap (entryFile objects)).entries
    rw [← map_path_entryFiles, List.filter_map]
    rfl
  rw [stagedAfterFiles, hkept, map_path_entryFiles, BTreeMap.ofList_entries,
    ← BTreeMap.values_filterMap]
  refine congrArg BTreeMap.values (BTreeMap.ext_get? fun path => ?_)
  rw [BTreeMap.get?_extend_entries, BTreeMap.get?_filterMap, BTreeMap.get?_filter,
    BTreeMap.get?_filterMap, BTreeMap.get?_filterMap, changedAfterEntries, BTreeMap.get?_filter]
  have hmem : path ∈ sourcePaths after
      ↔ (∃ entry, after.get? path = some entry) ∧ (detectLanguage path).isSome = true := by
    rw [sourcePaths, BTreeSet.mem_filter, BTreeMap.mem_keySet_iff]
  cases hsupported : (detectLanguage path).isSome with
  | false =>
    have hnone : ∀ found : Option TreeEntry, found.bind (entryFile objects path) = none := by
      intro found
      cases found with
      | none => rfl
      | some entry => exact entryFile_eq_none hsupported
    rw [hnone, hnone, hnone]
    rfl
  | true =>
    simp only [hsupported, Bool.true_and, and_true] at hmem ⊢
    cases hafter : after.get? path with
    | none =>
      -- nothing is carried over to a path that the after view does not have
      have hout : path ∉ sourcePaths after := by
        rw [hmem, hafter]
        simp
      simp [hout]
    | some entry =>
      have hin : path ∈ sourcePaths after := hmem.mpr ⟨entry, hafter⟩
      obtain ⟨file, hfile⟩ : ∃ file, entryFile objects path entry = some file := by
        rw [← Option.isSome_iff_exists, entryFile, isSome_sourceFile, hsupported]
      by_cases hsame : before.get? path = some entry
      · simp [hsame, hin, hfile]
      · have hread : (some entry).filter (fun entry => before.get? path ≠ some entry)
            = some entry := Option.filter_eq_some_iff.mpr ⟨rfl, decide_eq_true hsame⟩
        simp only [decide_not] at hread
        simp [hread, hfile]

/-- A staged view has the files that reading all its entries gives. -/
theorem stagedAfterFiles_reread {catFile : CatFile} (hserves : catFile.Serves objects)
    {beforeFiles : List SourceFile}
    (hbefore : filesFromGitObjects catFile before.entries = .ok beforeFiles) :
    (∀ changedFiles,
      filesFromGitObjects catFile (changedAfterEntries before after).entries = .ok changedFiles →
      ∃ totalLimit, filesFromGitObjectsBounded catFile after.entries totalLimit
        = .ok (stagedAfterFiles beforeFiles (sourcePaths after) changedFiles))
    ∧ ∀ afterFiles, filesFromGitObjects catFile after.entries = .ok afterFiles →
      ∃ changedFiles,
        filesFromGitObjects catFile (changedAfterEntries before after).entries = .ok changedFiles
          ∧ stagedAfterFiles beforeFiles (sourcePaths after) changedFiles = afterFiles := by
  obtain ⟨hreadBefore, -, rfl⟩ := (filesFromGitObjectsBounded_eq_ok_iff hserves).mp hbefore
  constructor
  · intro changedFiles hchanged
    obtain ⟨hreadChanged, -, rfl⟩ := (filesFromGitObjectsBounded_eq_ok_iff hserves).mp hchanged
    refine ⟨totalBytes objects (supportedEntries after.entries),
      (filesFromGitObjectsBounded_eq_ok_iff hserves).mpr ⟨?_, le_rfl, stagedAfterFiles_eq⟩⟩
    -- an entry that is not read again is the one of the before view
    rintro ⟨path, entry⟩ hentry
    obtain ⟨hmem, hsupported⟩ := List.mem_filter.mp hentry
    by_cases hsame : before.get? path = some entry
    · exact hreadBefore (path, entry)
        (List.mem_filter.mpr ⟨BTreeMap.mem_entries_iff.mpr hsame, hsupported⟩)
    · refine hreadChanged (path, entry) (List.mem_filter.mpr ⟨?_, hsupported⟩)
      refine List.mem_filter.mpr ⟨hmem, ?_⟩
      simpa [hsame] using hsupported
  · intro afterFiles hafter
    obtain ⟨hreadAfter, htotal, rfl⟩ := (filesFromGitObjectsBounded_eq_ok_iff hserves).mp hafter
    refine ⟨_, (filesFromGitObjectsBounded_eq_ok_iff hserves).mpr ⟨?_, ?_, rfl⟩,
      stagedAfterFiles_eq⟩
    · rintro entry hentry
      obtain ⟨hmem, hsupported⟩ := List.mem_filter.mp hentry
      exact hreadAfter entry (List.mem_filter.mpr ⟨(List.mem_filter.mp hmem).1, hsupported⟩)
    · refine le_trans (List.Sublist.sum_le_sum ?_ fun _ _ => Nat.zero_le _) htotal
      apply List.Sublist.map
      exact List.filter_sublist.filter _

end Staged

/-! ## Changed paths -/

/-- The file that a list has at a path. -/
def listedAt (files : List SourceFile) (path : RepoPath) : Option SourceFile :=
  files.find? fun file => file.path = path

/-- The order in which snapshots and captures list their files. -/
abbrev ByPath (files : List SourceFile) : Prop := files.Pairwise fun f g => f.path < g.path

section Changed

omit [Platform]

variable {before after files : List SourceFile} {changed : BTreeSet RepoPath} {path : RepoPath}
  {f : SourceFile}

theorem listedAt_cons_self (h : f.path = path) : listedAt (f :: files) path = some f :=
  List.find?_cons_of_pos (decide_eq_true h)

theorem listedAt_cons_of_ne (h : f.path ≠ path) : listedAt (f :: files) path = listedAt files path :=
  List.find?_cons_of_neg (by simpa using h)

theorem listedAt_eq_none (h : ∀ g ∈ files, path < g.path) : listedAt files path = none := by
  rw [listedAt, List.find?_eq_none]
  intro g hg
  simpa using (h g hg).ne'

theorem isSome_listedAt : (listedAt files path).isSome = true ↔ path ∈ files.map SourceFile.path := by
  rw [listedAt, List.find?_isSome, List.mem_map]
  simp

variable [Sha256]

/-- The merge of two lists in the order of their paths, with the paths that changed so far. -/
def changedSourcePathsFrom (changed : BTreeSet RepoPath) :
    List SourceFile → List SourceFile → BTreeSet RepoPath
  | beforeFile :: before, afterFile :: after =>
    if beforeFile.path < afterFile.path then
      changedSourcePathsFrom (changed.insert beforeFile.path) before (afterFile :: after)
    else if afterFile.path < beforeFile.path then
      changedSourcePathsFrom (changed.insert afterFile.path) (beforeFile :: before) after
    else if beforeFile.contentId ≠ afterFile.contentId then
      changedSourcePathsFrom (changed.insert beforeFile.path) before after
    else changedSourcePathsFrom changed before after
  | before, after => (changed.extend (before.map SourceFile.path)).extend (after.map SourceFile.path)
termination_by before after => before.length + after.length

def changedSourcePaths (before after : List SourceFile) : BTreeSet RepoPath :=
  changedSourcePathsFrom ∅ before after

/-- Files of the two lists have one digest only where they have the same bytes. -/
def ToldApart (before after : List SourceFile) : Prop :=
  ∀ f ∈ before, ∀ g ∈ after, f.contentId = g.contentId → f.bytes = g.bytes

theorem ToldApart.mono {before' after' : List SourceFile} (h : ToldApart before after)
    (hbefore : ∀ f ∈ before', f ∈ before) (hafter : ∀ g ∈ after', g ∈ after) :
    ToldApart before' after' := fun f hf g hg => h f (hbefore f hf) g (hafter g hg)

/-- The merge adds the paths at which the lists do not have the same bytes. -/
theorem mem_changedSourcePathsFrom (hbefore : ByPath before) (hafter : ByPath after)
    (htold : ToldApart before after) :
    path ∈ changedSourcePathsFrom changed before after
      ↔ path ∈ changed ∨ (listedAt before path).map SourceFile.bytes
        ≠ (listedAt after path).map SourceFile.bytes := by
  fun_induction changedSourcePathsFrom changed before after with
  | case1 changed f before g after hlt ih =>
    obtain ⟨hfirst, hbefore⟩ := List.pairwise_cons.mp hbefore
    rw [ih hbefore hafter (htold.mono (fun _ => List.mem_cons_of_mem f) fun _ => id),
      BTreeSet.mem_insert]
    by_cases hpath : f.path = path
    · -- the second list starts behind the path
      subst hpath
      have hgreater : ∀ h ∈ g :: after, f.path < h.path :=
        List.forall_mem_cons.mpr ⟨hlt, fun h hh =>
          hlt.trans ((List.pairwise_cons.mp hafter).1 h hh)⟩
      rw [listedAt_cons_self rfl, listedAt_eq_none hgreater]
      simp
    · rw [listedAt_cons_of_ne hpath]
      simp [Ne.symm hpath]
  | case2 changed f before g after hnot hlt ih =>
    obtain ⟨hfirst, hafter⟩ := List.pairwise_cons.mp hafter
    rw [ih hbefore hafter (htold.mono (fun _ => id) fun _ => List.mem_cons_of_mem g),
      BTreeSet.mem_insert]
    by_cases hpath : g.path = path
    · subst hpath
      have hgreater : ∀ h ∈ f :: before, g.path < h.path :=
        List.forall_mem_cons.mpr ⟨hlt, fun h hh =>
          hlt.trans ((List.pairwise_cons.mp hbefore).1 h hh)⟩
      rw [listedAt_cons_self rfl, listedAt_eq_none hgreater]
      simp
    · rw [listedAt_cons_of_ne hpath]
      simp [Ne.symm hpath]
  | case3 changed f before g after hnot hnot' hne ih =>
    have hsame : g.path = f.path := le_antisymm (not_lt.mp hnot) (not_lt.mp hnot')
    rw [ih (List.pairwise_cons.mp hbefore).2 (List.pairwise_cons.mp hafter).2
      (htold.mono (fun _ => List.mem_cons_of_mem f) fun _ => List.mem_cons_of_mem g),
      BTreeSet.mem_insert]
    by_cases hpath : f.path = path
    · have hbytes : f.bytes ≠ g.bytes := by
        intro hbytes
        rw [SourceFile.contentId, SourceFile.contentId, hbytes] at hne
        exact hne rfl
      rw [listedAt_cons_self hpath, listedAt_cons_self (hsame.trans hpath)]
      simp [hpath.symm, hbytes]
    · rw [listedAt_cons_of_ne hpath, listedAt_cons_of_ne (hsame ▸ hpath)]
      simp [Ne.symm hpath]
  | case4 changed f before g after hnot hnot' heq ih =>
    have hsame : g.path = f.path := le_antisymm (not_lt.mp hnot) (not_lt.mp hnot')
    obtain ⟨hfirst, hbefore⟩ := List.pairwise_cons.mp hbefore
    obtain ⟨hfirst', hafter⟩ := List.pairwise_cons.mp hafter
    rw [ih hbefore hafter
      (htold.mono (fun _ => List.mem_cons_of_mem f) fun _ => List.mem_cons_of_mem g)]
    by_cases hpath : f.path = path
    · -- neither list has the path a second time
      subst hpath
      have hbytes : f.bytes = g.bytes :=
        htold f List.mem_cons_self g List.mem_cons_self (not_not.mp heq)
      rw [listedAt_cons_self rfl, listedAt_cons_self hsame, listedAt_eq_none hfirst,
        listedAt_eq_none (hsame ▸ hfirst')]
      simp [hbytes]
    · rw [listedAt_cons_of_ne hpath, listedAt_cons_of_ne (hsame ▸ hpath)]
  | case5 changed before after hend =>
    rw [BTreeSet.mem_extend, BTreeSet.mem_extend, ← isSome_listedAt, ← isSome_listedAt]
    cases before with
    | nil =>
      rw [show listedAt [] path = none from rfl]
      cases listedAt after path <;> simp
    | cons f before =>
      cases after with
      | nil =>
        rw [show listedAt [] path = none from rfl]
        cases listedAt (f :: before) path <;> simp
      | cons g after => exact absurd rfl (hend f before g after rfl)

/-- The changed paths are those at which the lists do not have the same bytes. -/
theorem mem_changedSourcePaths (hbefore : ByPath before) (hafter : ByPath after)
    (htold : ToldApart before after) :
    path ∈ changedSourcePaths before after ↔ (listedAt before path).map SourceFile.bytes
      ≠ (listedAt after path).map SourceFile.bytes := by
  rw [changedSourcePaths, mem_changedSourcePathsFrom hbefore hafter htold]
  simp

end Changed

/-! ## Result -/

section Result

variable [Sha256]

/-- A staged view has the files that reading all its entries gives, and the paths of its change
    are those at which the files differ. -/
theorem staged_capture_exact {catFile : CatFile} {objects : Str → Option Str}
    (hserves : catFile.Serves objects) (before after : BTreeMap RepoPath TreeEntry)
    {beforeFiles : List SourceFile}
    (hbefore : filesFromGitObjects catFile before.entries = .ok beforeFiles) :
    (∀ changedFiles,
      filesFromGitObjects catFile (changedAfterEntries before after).entries = .ok changedFiles →
      ∃ totalLimit, filesFromGitObjectsBounded catFile after.entries totalLimit
        = .ok (stagedAfterFiles beforeFiles (sourcePaths after) changedFiles))
    ∧ (∀ afterFiles, filesFromGitObjects catFile after.entries = .ok afterFiles →
      ∃ changedFiles,
        filesFromGitObjects catFile (changedAfterEntries before after).entries = .ok changedFiles
          ∧ stagedAfterFiles beforeFiles (sourcePaths after) changedFiles = afterFiles)
    ∧ ∀ files files' : List SourceFile, ByPath files → ByPath files' → ToldApart files files' →
      ∀ path, path ∈ changedSourcePaths files files'
        ↔ (listedAt files path).map SourceFile.bytes ≠ (listedAt files' path).map SourceFile.bytes := by
  obtain ⟨hchanged, hafter⟩ := @stagedAfterFiles_reread _ objects before after catFile hserves
    beforeFiles hbefore
  refine ⟨hchanged, hafter, ?_⟩
  intro files files' hfiles hfiles' htold path
  exact mem_changedSourcePaths hfiles hfiles' htold

end Result

end

/-! A script that is carried over, and a module that is read. -/

abbrev linuxPlatform : Platform := ⟨ascii "linux", ascii "x86_64"⟩

def runObjects (oid : Str) : Option Str :=
  if oid = ascii "1" then some (ascii "#!/bin/bash")
  else if oid = ascii "2" then some (ascii "x = 1")
  else none

def runScriptEntry : RepoPath × TreeEntry :=
  (⟨ascii "run.sh", by decide⟩, ⟨ascii "100755", ascii "1", utf8Valid_one⟩)

def runModuleEntry : RepoPath × TreeEntry :=
  (⟨ascii "run.py", by decide⟩, ⟨ascii "100644", ascii "2", utf8Valid_two⟩)

def runScriptFile : SourceFile :=
  ⟨runScriptEntry.1, ascii "#!/bin/bash", .shell, ascii "shell:bash:linux"⟩

def runModuleFile : SourceFile :=
  ⟨runModuleEntry.1, ascii "x = 1", .python, ascii "python:bundled-grammar"⟩

theorem staged_capture_exact_script :
    letI := linuxPlatform
    (∃ totalLimit, filesFromGitObjectsBounded
        (fun oids => oids.flatMap (catFileFrame runObjects))
        (BTreeMap.ofList [runScriptEntry, runModuleEntry]).entries totalLimit
      = .ok (stagedAfterFiles [runScriptFile] (sourcePaths (.ofList [runScriptEntry, runModuleEntry]))
          [runModuleFile]))
    ∧ runModuleEntry.1
      ∈ @changedSourcePaths identityDigest [runScriptFile] [runModuleFile, runScriptFile] := by
  have hexact := @staged_capture_exact linuxPlatform identityDigest
    (fun oids => oids.flatMap (catFileFrame runObjects)) runObjects (fun _ => rfl)
    (.ofList [runScriptEntry]) (.ofList [runScriptEntry, runModuleEntry]) [runScriptFile]
    (by decide +kernel)
  refine ⟨hexact.1 [runModuleFile] (by decide +kernel), ?_⟩
  refine (hexact.2.2 [runScriptFile] [runModuleFile, runScriptFile] (by decide) (by decide) ?_ _).mpr
    (by decide)
  intro f _ g _ hdigest
  exact @hashDomain_singleton_injective identityDigest Function.injective_id _ _ _ hdigest

end Opcore
