/-
  Opcore.Source.Snapshot

  Immutable views of the repository: a map from path to source file in which
  every file sits under its own path, with an identity that hashes the paths,
  languages, modes and contents.
-/
import Opcore.Model

namespace Opcore

open Text Collections

structure SourceSnapshot where
  files : BTreeMap RepoPath SourceFile
  keyed : ∀ path file, files.get? path = some file → file.path = path

namespace SourceSnapshot

/-- Collecting files keeps each under its own path. -/
theorem keyed_foldl (files : List SourceFile) (m : BTreeMap RepoPath SourceFile)
    (hm : ∀ path file, m.get? path = some file → file.path = path) :
    ∀ path file, (files.foldl (fun m file => m.insert file.path file) m).get? path = some file →
      file.path = path := by
  induction files generalizing m with
  | nil => exact hm
  | cons f files ih =>
    apply ih
    intro path file h
    rw [BTreeMap.get?_insert] at h
    split_ifs at h with hp
    · cases h
      exact hp.symm
    · exact hm path file h

/-- `SourceSnapshot::new`. -/
def new (files : List SourceFile) : SourceSnapshot :=
  ⟨files.foldl (fun m file => m.insert file.path file) ∅,
    keyed_foldl files ∅ fun _ _ h => by simp at h⟩

theorem files_new (files : List SourceFile) :
    (new files).files = BTreeMap.ofList (files.map fun file => (file.path, file)) := by
  rw [new, BTreeMap.ofList, BTreeMap.extend, List.foldl_map]

def paths (snapshot : SourceSnapshot) : List RepoPath := snapshot.files.keys

def fileList (snapshot : SourceSnapshot) : List SourceFile := snapshot.files.values

def len (snapshot : SourceSnapshot) : Nat := snapshot.files.size

def read (snapshot : SourceSnapshot) (path : RepoPath) : Option SourceFile :=
  snapshot.files.get? path

def languageName : Language → Str
  | .javaScript => ascii "javascript"
  | .typeScript => ascii "typescript"
  | .rust => ascii "rust"
  | .python => ascii "python"
  | .go => ascii "go"
  | .hcl => ascii "hcl"
  | .shell => ascii "shell"
  | .protobuf => ascii "protobuf"

/-- One file's part of the manifest that the identity hashes. -/
def manifestEntry [Sha256] (path : RepoPath) (file : SourceFile) : Str :=
  be64 path.bytes.length ++ path.bytes
    ++ be64 (languageName file.language).length ++ languageName file.language
    ++ be64 file.languageMode.length ++ file.languageMode
    ++ file.contentId

def manifest [Sha256] (snapshot : SourceSnapshot) : Str :=
  snapshot.files.entries.flatMap fun entry => manifestEntry entry.1 entry.2

def id [Sha256] (snapshot : SourceSnapshot) : ContentViewId :=
  hashDomain (ascii "source-snapshot/v2") [snapshot.manifest]

/-! ## Reading a snapshot -/

variable {snapshot : SourceSnapshot} {path : RepoPath} {file : SourceFile}

theorem path_of_read (h : snapshot.read path = some file) : file.path = path :=
  snapshot.keyed path file h

theorem mem_fileList : file ∈ snapshot.fileList ↔ snapshot.read file.path = some file := by
  rw [fileList, BTreeMap.mem_values_iff]
  constructor
  · rintro ⟨path, h⟩
    rw [snapshot.keyed path file h]
    exact h
  · exact fun h => ⟨file.path, h⟩

theorem mem_paths : path ∈ snapshot.paths ↔ ∃ file, snapshot.read path = some file :=
  BTreeMap.mem_keys_iff

theorem sorted_paths (snapshot : SourceSnapshot) : snapshot.paths.Pairwise (· < ·) :=
  snapshot.files.sorted_keys

/-- The files in iteration order, each under its own path. -/
theorem map_path_fileList (snapshot : SourceSnapshot) :
    snapshot.fileList.map SourceFile.path = snapshot.paths := by
  rw [fileList, paths, BTreeMap.values, BTreeMap.keys, List.map_map]
  apply List.map_congr_left
  rintro ⟨path, file⟩ h
  exact snapshot.keyed path file (BTreeMap.mem_entries_iff.mp h)

variable {files : List SourceFile}

/-- Files given in the order of their paths are listed as given. -/
theorem fileList_new
    (h : (files.map SourceFile.path).Pairwise (· < ·)) : (new files).fileList = files := by
  have hfiles := files_new files
  have hnodup : ((files.map fun file => (file.path, file)).map Prod.fst).Nodup := by
    rw [List.map_map]
    exact h.imp ne_of_lt
  have hperm : (new files).fileList.Perm files := by
    have := (BTreeMap.entries_ofList_perm hnodup).map Prod.snd
    rw [List.map_map, ← hfiles] at this
    simpa [fileList, BTreeMap.values, Function.comp_def] using this
  have hsorted : (new files).fileList.Pairwise fun a b => a.path < b.path := by
    rw [← List.pairwise_map (f := SourceFile.path), map_path_fileList]
    exact (new files).sorted_paths
  refine hperm.eq_of_pairwise (fun a b _ _ hab hba => ?_) hsorted (List.pairwise_map.mp h)
  exact absurd hba hab.asymm

/-- Collecting files leaves a path that none of them has as it was. -/
theorem get?_foldl_insert_of_ne {m : BTreeMap RepoPath SourceFile}
    (hne : ∀ f ∈ files, f.path ≠ path) :
    (files.foldl (fun m f => m.insert f.path f) m).get? path = m.get? path := by
  induction files generalizing m with
  | nil => rfl
  | cons f files ih =>
    rw [List.foldl_cons, ih fun g hg => hne g (List.mem_cons_of_mem f hg),
      BTreeMap.get?_insert, if_neg (hne f List.mem_cons_self).symm]

theorem get?_foldl_insert_of_mem {m : BTreeMap RepoPath SourceFile}
    (hmem : file ∈ files) (hpath : file.path = path)
    (hunique : ∀ f ∈ files, f.path = path → f = file) :
    (files.foldl (fun m f => m.insert f.path f) m).get? path = some file := by
  induction files generalizing m with
  | nil => cases hmem
  | cons f files ih =>
    rw [List.foldl_cons]
    have hunique' : ∀ g ∈ files, g.path = path → g = file :=
      fun g hg => hunique g (List.mem_cons_of_mem f hg)
    by_cases hlater : file ∈ files
    · exact ih hlater hunique'
    · have hrest : ∀ g ∈ files, g.path ≠ path := by
        intro g hg hgp
        exact hlater (hunique' g hg hgp ▸ hg)
      obtain rfl : file = f := (List.mem_cons.mp hmem).resolve_right hlater
      rw [get?_foldl_insert_of_ne hrest, BTreeMap.get?_insert, if_pos hpath.symm]

theorem read_new_eq_none (h : ∀ f ∈ files, f.path ≠ path) :
    (new files).read path = none :=
  get?_foldl_insert_of_ne h

theorem read_new_eq_some (hmem : file ∈ files) (hpath : file.path = path)
    (hunique : ∀ f ∈ files, f.path = path → f = file) : (new files).read path = some file :=
  get?_foldl_insert_of_mem hmem hpath hunique

theorem mem_of_read_new (h : (new files).read path = some file) : file ∈ files := by
  rw [read, files_new] at h
  rcases BTreeMap.mem_of_get?_extend h with hmem | hempty
  · obtain ⟨file', hfile, heq⟩ := List.mem_map.mp hmem
    cases heq
    exact hfile
  · rw [BTreeMap.get?_empty] at hempty
    cases hempty

theorem entries_eq (snapshot : SourceSnapshot) :
    snapshot.files.entries = snapshot.fileList.map fun file => (file.path, file) := by
  rw [fileList, BTreeMap.values, List.map_map]
  refine (List.map_id _).symm.trans (List.map_congr_left ?_)
  rintro ⟨path, file⟩ h
  rw [Function.comp_apply, snapshot.keyed path file (BTreeMap.mem_entries_iff.mp h)]
  rfl

theorem length_fileList (snapshot : SourceSnapshot) : snapshot.fileList.length = snapshot.len := by
  simp [fileList, BTreeMap.values, len, BTreeMap.size]

end SourceSnapshot

end Opcore
