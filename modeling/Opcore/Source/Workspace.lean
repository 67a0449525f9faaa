/-
  Opcore.Source.Workspace

  Captures of a whole workspace: the view before, the view after, the paths on which they
  differ and the files that no parser is available for.  A hypothetical capture lays given
  contents over the view after.
-/
import Opcore.Source.Staged

namespace Opcore

open Text Collections

section

variable [Platform]

/-! ## Captures -/

def isGoModuleFile (path : RepoPath) : Bool := filename path.bytes = ascii "go.mod"

def isDependencyCaptureCandidate (path : RepoPath) : Bool :=
  isSourceCandidate path || isGoModuleFile path

/-- A source candidate for which there is no parser. -/
def isUnsupported (path : RepoPath) : Bool := isSourceCandidate path && (detectLanguage path).isNone

def unsupportedCount (paths : BTreeSet RepoPath) : Nat := (paths.filter isUnsupported).size

/-- A capture; its sentinel and the text `valid_as_of` are left out. -/
structure GitWorkspaceCapture where
  before : SourceSnapshot
  after : SourceSnapshot
  paths : BTreeSet RepoPath
  changedPaths : BTreeSet RepoPath
  beforeUnsupportedFiles : Nat
  afterUnsupportedFiles : Nat
  unsupportedChangedFiles : Nat

namespace GitWorkspaceCapture

def requirePathBound (paths : BTreeSet RepoPath) : Except SourceError Unit :=
  if maxFiles < paths.size then
    .error (.incomplete (Json.decimal paths.size ++ ascii " paths exceed limit 10000"))
  else .ok ()

/-- `capture_staged_workspace_once`, of the entries of two trees, or of a tree and the index. -/
def captureStaged [Sha256] (catFile : CatFile)
    (beforeEntries afterEntries : BTreeMap RepoPath TreeEntry) :
    Except SourceError GitWorkspaceCapture := do
  let beforeEntries := beforeEntries.filter fun path _ => isDependencyCaptureCandidate path
  let afterEntries := afterEntries.filter fun path _ => isDependencyCaptureCandidate path
  let beforePaths := beforeEntries.keySet
  let afterPaths := afterEntries.keySet
  let paths := beforePaths.union afterPaths
  requirePathBound paths
  let unsupportedChanged := paths.filter fun path =>
    isUnsupported path && beforeEntries.get? path ≠ afterEntries.get? path
  let beforeFiles ← filesFromGitObjects catFile
    (beforeEntries.filter fun path _ => (detectLanguage path).isSome).entries
  let changedFiles ← filesFromGitObjects catFile (changedAfterEntries beforeEntries afterEntries).entries
  let afterFiles := stagedAfterFiles beforeFiles (sourcePaths afterEntries) changedFiles
  return {
    before := .new beforeFiles
    after := .new afterFiles
    paths
    changedPaths := changedSourcePaths beforeFiles afterFiles
    beforeUnsupportedFiles := unsupportedCount beforePaths
    afterUnsupportedFiles := unsupportedCount afterPaths
    unsupportedChangedFiles := unsupportedChanged.size }

end GitWorkspaceCapture

/-- A repository at rest, as a capture of its worktree sees it: the entries of `HEAD`; the paths
    that Git reports as changed or that the index marks, and of them those reported alone; what
    reading each path gives that the worktree has; the paths that are sparse; and the index. -/
structure GitWorktree where
  catFile : CatFile
  headEntries : BTreeMap RepoPath TreeEntry
  paths : BTreeSet RepoPath
  worktreePaths : BTreeSet RepoPath
  contents : BTreeMap RepoPath (Except SourceError Str)
  sparse : BTreeSet RepoPath
  index : BTreeMap RepoPath TreeEntry

namespace GitWorktree

/-- `workspace_after_paths`: what `HEAD` has outside the overlay, and what the worktree or, for a
    sparse path, the index has in it. -/
def afterPaths (worktree : GitWorktree) (before overlay : BTreeSet RepoPath) : BTreeSet RepoPath :=
  let after := overlay.elems.foldl (fun after path =>
    if (worktree.contents.get? path).isSome then (after.erase path).insert path
    else after.erase path) before
  let missing := overlay.filter fun path => (worktree.contents.get? path).isNone
  after.extend (missing.filter fun path => path ∈ worktree.sparse).elems

end GitWorktree

/-- The source files read so far, with their bytes together. -/
structure SourceBatch where
  files : List SourceFile := []
  total : Nat := 0

def SourceBatch.push (batch : SourceBatch) (file : SourceFile) : Except SourceError SourceBatch :=
  if maxTotalSourceBytes < batch.total + file.bytes.length then
    .error (.incomplete (ascii "source exceeds 268435456 bytes"))
  else .ok ⟨batch.files ++ [file], batch.total + file.bytes.length⟩

namespace GitWorktree

/-- A file of the worktree, where its language is known. -/
def readWorktreePath (worktree : GitWorktree) (batch : SourceBatch) (path : RepoPath) :
    Except SourceError SourceBatch :=
  match worktree.contents.get? path with
  | some (.error error) => .error error
  | some (.ok bytes) =>
    match sourceFile path bytes with
    | some file => batch.push file
    | none => .ok batch
  | none => .ok batch

end GitWorktree

/-- `append_sparse_files`, of the paths that have a language and no file. -/
def appendSparseFiles (worktree : GitWorktree) (paths : BTreeSet RepoPath) (batch : SourceBatch) :
    Except SourceError (List SourceFile) := do
  let missing := paths.filter fun path =>
    (worktree.contents.get? path).isNone && (detectLanguage path).isSome
  let entries := worktree.index.filter fun path _ => path ∈ missing ∧ path ∈ worktree.sparse
  let files ← filesFromGitObjects worktree.catFile entries.entries
  let batch ← files.foldlM SourceBatch.push batch
  return batch.files

/-- `read_worktree_files`: what the worktree has of the paths, and the index of the sparse ones. -/
def GitWorktree.readWorktreeFiles (worktree : GitWorktree) (paths : BTreeSet RepoPath) :
    Except SourceError (List SourceFile) :=
  paths.elems.foldlM worktree.readWorktreePath {} >>= appendSparseFiles worktree paths

/-- `apply_workspace_overlay`: the files of the after view. -/
def applyWorkspaceOverlay (beforeFiles : List SourceFile) (overlayPaths : BTreeSet RepoPath)
    (overlayFiles : List SourceFile) : List SourceFile :=
  let afterByPath := BTreeMap.ofList (beforeFiles.map fun file => (file.path, file))
  let afterByPath := overlayPaths.elems.foldl BTreeMap.erase afterByPath
  (afterByPath.extend (overlayFiles.map fun file => (file.path, file))).values

namespace GitWorkspaceCapture

/-- `capture_workspace_once`. -/
def captureWorktree [Sha256] (worktree : GitWorktree) : Except SourceError GitWorkspaceCapture := do
  let entries := worktree.headEntries.filter fun path _ => isDependencyCaptureCandidate path
  let beforePaths := entries.keySet
  let paths := beforePaths.union worktree.paths
  requirePathBound paths
  let afterPaths := worktree.afterPaths beforePaths worktree.paths
  let beforeFiles ← filesFromGitObjects worktree.catFile
    (entries.filter fun path _ => (detectLanguage path).isSome).entries
  let overlayFiles ← worktree.readWorktreeFiles worktree.paths
  let afterFiles := applyWorkspaceOverlay beforeFiles worktree.paths overlayFiles
  return {
    before := .new beforeFiles
    after := .new afterFiles
    paths
    changedPaths := changedSourcePaths beforeFiles afterFiles
    beforeUnsupportedFiles := unsupportedCount beforePaths
    afterUnsupportedFiles := unsupportedCount afterPaths
    unsupportedChangedFiles := (worktree.worktreePaths.filter isUnsupported).size }

/-! ## Hypothetical captures -/

/-- One round of the loop over the overlays: the files and the paths of the after view. -/
def overlay (view : BTreeMap RepoPath SourceFile × BTreeSet RepoPath)
    (overlaid : RepoPath × Option Str) :
    Except SourceError (BTreeMap RepoPath SourceFile × BTreeSet RepoPath) :=
  let (path, content) := overlaid
  if ¬ isDependencyCaptureCandidate path then .ok view
  else
    match content with
    | some content =>
      if ¬ (detectLanguage path).isSome then .ok (view.1, view.2.insert path)
      else if maxSourceBytes < content.length then
        .error (.incomplete (path.displayLossless ++ ascii " exceeds 4194304 bytes"))
      else
        match sourceFile path content with
        | some file => .ok (view.1.insert path file, view.2.insert path)
        | none => .ok (view.1, view.2.insert path)
    | none => .ok (view.1.erase path, view.2.erase path)

/-- The view after with overlays on top, within the bounds of a capture. -/
def applyHypothetical [Sha256] (capture : GitWorkspaceCapture)
    (overlays : BTreeMap RepoPath (Option Str)) : Except SourceError GitWorkspaceCapture := do
  let before := capture.after
  let files := BTreeMap.ofList (before.fileList.map fun file => (file.path, file))
  let (files, afterPaths) ← overlays.entries.foldlM overlay (files, capture.paths)
  requirePathBound afterPaths
  if maxTotalSourceBytes < (files.values.map fun file => file.bytes.length).sum then
    .error (.incomplete (ascii "hypothetical source view exceeds 268435456 total bytes"))
  else
    let after := SourceSnapshot.new files.values
    return {
      before
      after
      paths := capture.paths.union afterPaths
      changedPaths := changedSourcePaths before.fileList after.fileList
      beforeUnsupportedFiles := capture.afterUnsupportedFiles
      afterUnsupportedFiles := unsupportedCount afterPaths
      unsupportedChangedFiles := (overlays.keySet.filter isUnsupported).size }

end GitWorkspaceCapture

/-! ## Source files of a view -/

theorem isSourceCandidate_of_language {path : RepoPath} (h : (detectLanguage path).isSome = true) :
    isSourceCandidate path = true := by
  obtain ⟨detected, hdetected⟩ := Option.isSome_iff_exists.mp h
  simp only [detectLanguage, Option.bind_eq_bind, Option.bind_eq_some_iff] at hdetected
  obtain ⟨_, -, rule, hrule, -⟩ := hdetected
  rw [isSourceCandidate, hrule]
  rfl

/-- A file that has the language its path and its bytes give it. -/
def IsSource (file : SourceFile) : Prop := sourceFile file.path file.bytes = some file

/-- Every file of the map is what its path and its bytes make it. -/
def SourceMap (files : BTreeMap RepoPath SourceFile) : Prop :=
  ∀ path file, files.get? path = some file → sourceFile path file.bytes = some file

section Sources

variable {files : List SourceFile} {m : BTreeMap RepoPath SourceFile} {path : RepoPath}
  {file : SourceFile}

theorem isSource_of_sourceFile {bytes : Str} (h : sourceFile path bytes = some file) :
    IsSource file := by
  obtain ⟨rfl, rfl⟩ := path_of_sourceFile h
  exact h

theorem SourceMap.empty : SourceMap ∅ := by
  intro path file h
  cases h

theorem SourceMap.keyed (h : SourceMap m) (hget : m.get? path = some file) : file.path = path :=
  (path_of_sourceFile (h path file hget)).1

theorem SourceMap.get?_eq_none (h : SourceMap m) (hpath : (detectLanguage path).isSome = false) :
    m.get? path = none := by
  rw [Option.eq_none_iff_forall_not_mem]
  intro file hfile
  have hsource := @isSome_sourceFile _ path file.bytes
  rw [h path file hfile, hpath] at hsource
  cases hsource

theorem SourceMap.insert (h : SourceMap m) {bytes : Str} (hfile : sourceFile path bytes = some file) :
    SourceMap (m.insert path file) := by
  intro p f hf
  rw [BTreeMap.get?_insert] at hf
  split_ifs at hf with hp
  · cases hf
    rw [hp, (path_of_sourceFile hfile).2]
    exact hfile
  · exact h p f hf

theorem SourceMap.erase (h : SourceMap m) : SourceMap (m.erase path) := by
  intro p f hf
  rw [BTreeMap.get?_erase] at hf
  split_ifs at hf
  exact h p f hf

theorem SourceMap.extend (h : SourceMap m) (hfiles : ∀ f ∈ files, IsSource f) :
    SourceMap (m.extend (files.map fun f => (f.path, f))) := by
  intro p f hf
  obtain hmem | hold := BTreeMap.mem_of_get?_extend hf
  · obtain ⟨g, hg, heq⟩ := List.mem_map.mp hmem
    cases heq
    exact hfiles _ hg
  · exact h p f hold

theorem SourceMap.values (h : SourceMap m) : ∀ f ∈ m.values, IsSource f := by
  intro f hf
  obtain ⟨p, hp⟩ := BTreeMap.mem_values_iff.mp hf
  exact isSource_of_sourceFile (h p f hp)

/-- A snapshot of the files of a map is the map. -/
theorem files_new_values (h : SourceMap m) : (SourceSnapshot.new m.values).files = m := by
  have hentries : m.values.map (fun f => (f.path, f)) = m.entries := by
    rw [BTreeMap.values, List.map_map]
    refine (List.map_congr_left ?_).trans (List.map_id _)
    rintro ⟨p, f⟩ hmem
    show (f.path, f) = (p, f)
    rw [h.keyed (BTreeMap.mem_entries_iff.mp hmem)]
  rw [SourceSnapshot.files_new, hentries, BTreeMap.ofList_entries]

theorem sourceMap_new (h : ∀ f ∈ files, IsSource f) : SourceMap (SourceSnapshot.new files).files := by
  rw [SourceSnapshot.files_new]
  exact SourceMap.empty.extend h

omit [Platform] in
theorem listedAt_fileList (snapshot : SourceSnapshot) (path : RepoPath) :
    listedAt snapshot.fileList path = snapshot.read path := by
  cases hread : snapshot.read path with
  | none =>
    rw [listedAt, List.find?_eq_none]
    intro file hfile hpath
    have hmem := SourceSnapshot.mem_fileList.mp hfile
    rw [of_decide_eq_true hpath, hread] at hmem
    cases hmem
  | some file =>
    have hpath := SourceSnapshot.path_of_read hread
    have hmem : file ∈ snapshot.fileList := by
      rw [SourceSnapshot.mem_fileList, hpath]
      exact hread
    cases hfound : listedAt snapshot.fileList path with
    | none =>
      have hnone := List.find?_eq_none.mp hfound file hmem
      exact absurd hpath (by simpa using hnone)
    | some found =>
      have hfoundPath : found.path = path := by simpa using List.find?_some hfound
      have hread' := SourceSnapshot.mem_fileList.mp (List.mem_of_find?_eq_some hfound)
      rw [hfoundPath, hread] at hread'
      exact hread'.symm

omit [Platform] in
theorem byPath_fileList (snapshot : SourceSnapshot) : ByPath snapshot.fileList := by
  have hsorted := snapshot.sorted_paths
  rw [← snapshot.map_path_fileList] at hsorted
  exact List.pairwise_map.mp hsorted

/-- Views of source files differ at a path exactly where their bytes do. -/
theorem bytes_ne_iff {before after : SourceSnapshot} (hbefore : SourceMap before.files)
    (hafter : SourceMap after.files) :
    (before.read path).map SourceFile.bytes ≠ (after.read path).map SourceFile.bytes
      ↔ before.read path ≠ after.read path := by
  refine not_congr ⟨fun h => ?_, fun h => congrArg _ h⟩
  cases hf : before.read path with
  | none =>
    rw [hf] at h
    exact (Option.map_eq_none_iff.mp h.symm).symm
  | some f =>
    rw [hf] at h
    obtain ⟨g, hg, hbytes⟩ := Option.map_eq_some_iff.mp h.symm
    have hsame := hafter path g hg
    rw [hbytes, hbefore path f hf] at hsame
    rw [hg, hsame]

end Sources

/-! ## What a repository captures -/

section Captured

variable {catFile : CatFile} {entries : List (RepoPath × TreeEntry)} {files : List SourceFile}
  {worktree : GitWorktree} {path : RepoPath} {paths before overlay : BTreeSet RepoPath}

theorem isSource_of_filesFromGitObjects (h : filesFromGitObjects catFile entries = .ok files) :
    ∀ f ∈ files, IsSource f := by
  obtain ⟨blobs, -, h⟩ := Except.bind_eq_ok_iff.mp h
  cases h
  intro f hf
  obtain ⟨blob, -, hblob⟩ := List.mem_filterMap.mp hf
  exact isSource_of_sourceFile hblob

omit [Platform] in
theorem files_push {batch batch' : SourceBatch} {file : SourceFile}
    (h : batch.push file = .ok batch') : batch'.files = batch.files ++ [file] := by
  rw [SourceBatch.push] at h
  split_ifs at h
  cases h
  rfl

theorem isSource_of_readWorktreeFiles (h : worktree.readWorktreeFiles paths = .ok files) :
    ∀ f ∈ files, IsSource f := by
  obtain ⟨batch, hbatch, h⟩ := Except.bind_eq_ok_iff.mp h
  obtain ⟨sparse, hsparse, h⟩ := Except.bind_eq_ok_iff.mp h
  obtain ⟨batch', hbatch', h⟩ := Except.bind_eq_ok_iff.mp h
  cases h
  have hpresent : ∀ f ∈ batch.files, IsSource f := by
    refine Except.foldlM_keeps (P := fun b => ∀ f ∈ b.files, IsSource f) ?_ hbatch nofun
    intro path _ b b' hb hsources
    rw [GitWorktree.readWorktreePath] at hb
    split at hb
    · cases hb
    · split at hb
      · next bytes _ file hfile =>
          rw [files_push hb]
          intro f hf
          obtain hf | hf := List.mem_append.mp hf
          · exact hsources f hf
          · rw [List.mem_singleton.mp hf]
            exact isSource_of_sourceFile hfile
      · cases hb
        exact hsources
    · cases hb
      exact hsources
  refine Except.foldlM_keeps (P := fun b => ∀ f ∈ b.files, IsSource f) ?_ hbatch' hpresent
  intro file hfile b b' hb hsources
  rw [files_push hb]
  intro f hf
  obtain hf | hf := List.mem_append.mp hf
  · exact hsources f hf
  · rw [List.mem_singleton.mp hf]
    exact isSource_of_filesFromGitObjects hsparse file hfile

theorem isSource_of_stagedAfterFiles {changed : List SourceFile}
    (hfiles : ∀ f ∈ files, IsSource f) (hchanged : ∀ f ∈ changed, IsSource f) :
    ∀ f ∈ stagedAfterFiles files paths changed, IsSource f := by
  refine SourceMap.values (SourceMap.extend (SourceMap.empty.extend ?_) hchanged)
  exact fun f hf => hfiles f (List.mem_filter.mp hf).1

theorem isSource_of_applyWorkspaceOverlay {overlaid : List SourceFile}
    (hfiles : ∀ f ∈ files, IsSource f) (hoverlaid : ∀ f ∈ overlaid, IsSource f) :
    ∀ f ∈ applyWorkspaceOverlay files paths overlaid, IsSource f := by
  refine SourceMap.values (SourceMap.extend ?_ hoverlaid)
  have herase : ∀ (l : List RepoPath) (m : BTreeMap RepoPath SourceFile), SourceMap m →
      SourceMap (l.foldl BTreeMap.erase m) := by
    intro l
    induction l with
    | nil => exact fun _ hm => hm
    | cons p l ih => exact fun m hm => ih _ hm.erase
  exact herase _ _ (SourceMap.empty.extend hfiles)

omit [Platform] in
/-- The after view has what is left of `HEAD`, and of the overlay what exists or is sparse. -/
theorem mem_afterPaths : path ∈ worktree.afterPaths before overlay
    ↔ (path ∈ before ∧ path ∉ overlay)
      ∨ (path ∈ overlay ∧ ((worktree.contents.get? path).isSome = true ∨ path ∈ worktree.sparse)) := by
  have hloop : ∀ (l : List RepoPath) (s : BTreeSet RepoPath),
      path ∈ l.foldl (fun after p => if (worktree.contents.get? p).isSome then
          (after.erase p).insert p else after.erase p) s
        ↔ (path ∈ l ∧ (worktree.contents.get? path).isSome = true) ∨ (path ∉ l ∧ path ∈ s) := by
    intro l
    induction l with
    | nil => simp
    | cons p l ih =>
      intro s
      rw [List.foldl_cons, ih, List.mem_cons]
      by_cases hl : path ∈ l
      · simp [hl]
      · by_cases hp : path = p
        · subst hp
          split_ifs with hsome <;> simp [hl, hsome]
        · split_ifs with hsome <;> simp [hl, hp]
  rw [GitWorktree.afterPaths, BTreeSet.mem_extend, hloop]
  rw [show path ∈ overlay.elems ↔ path ∈ overlay from Iff.rfl, ← BTreeSet.mem_def,
    BTreeSet.mem_filter, BTreeSet.mem_filter, decide_eq_true_eq]
  cases hcontent : worktree.contents.get? path with
  | none =>
    simp only [Option.isNone_none, Option.isSome_none, and_true, Bool.false_eq_true, and_false,
      false_or]
    tauto
  | some content =>
    simp only [Option.isNone_some, Option.isSome_some, and_true, Bool.false_eq_true, and_false,
      false_and, false_or, true_or]
    tauto

end Captured

/-! ## What a repository gives -/

section Captures

variable [Sha256]

namespace GitWorkspaceCapture

/-- The captures of a repository, each with the paths that its after view has. -/
inductive Captures : BTreeSet RepoPath → GitWorkspaceCapture → Prop
  | worktree {worktree : GitWorktree} {capture : GitWorkspaceCapture} :
      captureWorktree worktree = .ok capture →
      Captures (worktree.afterPaths
        (worktree.headEntries.filter fun path _ => isDependencyCaptureCandidate path).keySet
        worktree.paths) capture
  | staged {catFile : CatFile} {before after : BTreeMap RepoPath TreeEntry}
      {capture : GitWorkspaceCapture} : captureStaged catFile before after = .ok capture →
      Captures (after.filter fun path _ => isDependencyCaptureCandidate path).keySet capture

/-- What a capture says of its after view: source files, paths among its own, and their count. -/
theorem Captures.spec {present : BTreeSet RepoPath} {capture : GitWorkspaceCapture}
    (h : Captures present capture) :
    SourceMap capture.after.files ∧ (∀ path ∈ present, path ∈ capture.paths)
      ∧ capture.afterUnsupportedFiles = unsupportedCount present := by
  cases h with
  | @worktree worktree capture h =>
    obtain ⟨_, -, h⟩ := Except.bind_eq_ok_iff.mp h
    obtain ⟨before, hbefore, h⟩ := Except.bind_eq_ok_iff.mp h
    obtain ⟨overlaid, hoverlaid, h⟩ := Except.bind_eq_ok_iff.mp h
    cases h
    refine ⟨sourceMap_new (isSource_of_applyWorkspaceOverlay
      (isSource_of_filesFromGitObjects hbefore) (isSource_of_readWorktreeFiles hoverlaid)), ?_, rfl⟩
    intro path hpath
    rw [BTreeSet.mem_union]
    exact (mem_afterPaths.mp hpath).imp And.left And.left
  | @staged catFile before after capture h =>
    obtain ⟨_, -, h⟩ := Except.bind_eq_ok_iff.mp h
    obtain ⟨before, hbefore, h⟩ := Except.bind_eq_ok_iff.mp h
    obtain ⟨changed, hchanged, h⟩ := Except.bind_eq_ok_iff.mp h
    cases h
    refine ⟨sourceMap_new (isSource_of_stagedAfterFiles
      (isSource_of_filesFromGitObjects hbefore) (isSource_of_filesFromGitObjects hchanged)), ?_, rfl⟩
    exact fun path hpath => BTreeSet.mem_union.mpr (.inr hpath)

end GitWorkspaceCapture

end Captures

/-! ## Overlays -/

/-- The file that a view has at a path under overlays. -/
def overlaidFile (overlays : BTreeMap RepoPath (Option Str)) (path : RepoPath)
    (file : Option SourceFile) : Option SourceFile :=
  match overlays.get? path with
  | some content => content.bind (sourceFile path)
  | none => file

/-- The paths that a view has under overlays. -/
def overlaidPaths (overlays : BTreeMap RepoPath (Option Str)) (present : BTreeSet RepoPath) :
    BTreeSet RepoPath :=
  (present.filter fun path => (overlays.get? path).isNone).union
    (overlays.filter fun _ content => content.isSome).keySet

section Overlay

variable {overlays : BTreeMap RepoPath (Option Str)} {path : RepoPath} {content : Option Str}
  {view view' : BTreeMap RepoPath SourceFile × BTreeSet RepoPath} {present : BTreeSet RepoPath}

omit [Platform] in
theorem mem_overlaidPaths : path ∈ overlaidPaths overlays present
    ↔ (path ∈ present ∧ overlays.get? path = none)
      ∨ ∃ bytes, overlays.get? path = some (some bytes) := by
  rw [overlaidPaths, BTreeSet.mem_union, BTreeSet.mem_filter, BTreeMap.mem_keySet_iff,
    Option.isNone_iff_eq_none]
  refine or_congr_right ⟨?_, ?_⟩
  · rintro ⟨content, hcontent⟩
    rw [BTreeMap.get?_filter] at hcontent
    obtain ⟨hget, hsome⟩ := Option.filter_eq_some_iff.mp hcontent
    obtain ⟨bytes, rfl⟩ := Option.isSome_iff_exists.mp hsome
    exact ⟨bytes, hget⟩
  · rintro ⟨bytes, hget⟩
    refine ⟨some bytes, ?_⟩
    rw [BTreeMap.get?_filter]
    exact Option.filter_eq_some_iff.mpr ⟨hget, rfl⟩

/-- One overlay replaces or removes the file of its path, and says whether the path is there. -/
theorem overlay_spec (h : GitWorkspaceCapture.overlay view (path, content) = .ok view')
    (hview : SourceMap view.1) :
    SourceMap view'.1
      ∧ (∀ p, view'.1.get? p
        = if p = path then content.bind (sourceFile path) else view.1.get? p)
      ∧ ∀ p, isUnsupported p = true →
        (p ∈ view'.2 ↔ if p = path then content.isSome = true else p ∈ view.2) := by
  have hnone : (detectLanguage path).isSome = false → ∀ bytes, sourceFile path bytes = none := by
    intro hlanguage bytes
    rw [← Option.not_isSome_iff_eq_none, isSome_sourceFile, hlanguage]
    exact Bool.false_ne_true
  -- a path without a language has no file, before or after
  have hkeep : (detectLanguage path).isSome = false →
      ∀ p, view.1.get? p = if p = path then content.bind (sourceFile path) else view.1.get? p := by
    intro hlanguage p
    split_ifs with hp
    · rw [hp, hview.get?_eq_none hlanguage]
      cases content with
      | none => rfl
      | some bytes => exact (hnone hlanguage bytes).symm
    · rfl
  unfold GitWorkspaceCapture.overlay at h
  dsimp only at h
  by_cases hcandidate : isDependencyCaptureCandidate path = true
  swap
  · rw [if_pos hcandidate] at h
    -- the path is no candidate at all, so it has no language and is not an unsupported one
    cases h
    have hsource : isSourceCandidate path = false := by
      rw [isDependencyCaptureCandidate, Bool.or_eq_true, not_or] at hcandidate
      exact Bool.not_eq_true _ ▸ hcandidate.1
    have hlanguage : (detectLanguage path).isSome = false := by
      by_contra hsome
      rw [Bool.not_eq_false] at hsome
      rw [isSourceCandidate_of_language hsome] at hsource
      cases hsource
    refine ⟨hview, hkeep hlanguage, ?_⟩
    intro p hp
    have hne : p ≠ path := by
      rintro rfl
      rw [isUnsupported, hsource] at hp
      cases hp
    rw [if_neg hne]
  · rw [if_neg (not_not.mpr hcandidate)] at h
    cases content with
    | none =>
      cases h
      refine ⟨hview.erase, fun p => BTreeMap.get?_erase, ?_⟩
      intro p _
      rw [BTreeSet.mem_erase]
      split_ifs with hp <;> simp [hp]
    | some bytes =>
      have hinsert : ∀ p, p ∈ view.2.insert path
          ↔ if p = path then (some bytes).isSome = true else p ∈ view.2 := by
        intro p
        rw [BTreeSet.mem_insert]
        split_ifs with hp <;> simp [hp]
      dsimp only at h
      split_ifs at h with hlanguage hlong
      · obtain ⟨file, hfile⟩ : ∃ file, sourceFile path bytes = some file := by
          rw [← Option.isSome_iff_exists, isSome_sourceFile, hlanguage]
        rw [hfile] at h
        cases h
        refine ⟨hview.insert hfile, ?_, fun p _ => hinsert p⟩
        intro p
        rw [BTreeMap.get?_insert]
        split_ifs with hp
        · exact hfile.symm
        · rfl
      · cases h
        exact ⟨hview, hkeep (Bool.not_eq_true _ ▸ hlanguage), fun p _ => hinsert p⟩

/-- The overlays in their order, each at its own path. -/
theorem overlays_spec {l : List (RepoPath × Option Str)} (hl : l.Pairwise fun a b => a.1 < b.1)
    (h : l.foldlM GitWorkspaceCapture.overlay view = .ok view') (hview : SourceMap view.1) :
    SourceMap view'.1
      ∧ (∀ p, view'.1.get? p = match lookupSorted p l with
        | some content => content.bind (sourceFile p)
        | none => view.1.get? p)
      ∧ ∀ p, isUnsupported p = true → (p ∈ view'.2 ↔ match lookupSorted p l with
        | some content => content.isSome = true
        | none => p ∈ view.2) := by
  induction l generalizing view with
  | nil =>
    cases h
    exact ⟨hview, fun _ => rfl, fun _ _ => Iff.rfl⟩
  | cons first l ih =>
    obtain ⟨path, content⟩ := first
    obtain ⟨hfirst, hl⟩ := List.pairwise_cons.mp hl
    rw [List.foldlM_cons] at h
    obtain ⟨next, hnext, hrest⟩ := Except.bind_eq_ok_iff.mp h
    obtain ⟨hsources, hfiles, hpaths⟩ := overlay_spec hnext hview
    obtain ⟨hsources', hfiles', hpaths'⟩ := ih hl hrest hsources
    refine ⟨hsources', fun p => ?_, fun p hp => ?_⟩
    · rw [hfiles' p, lookupSorted, hfiles p]
      split_ifs with hpath
      · subst hpath
        rw [lookupSorted_eq_none_of_lt hfirst]
      · rfl
    · rw [hpaths' p hp, lookupSorted, hpaths p hp]
      split_ifs with hpath
      · subst hpath
        rw [lookupSorted_eq_none_of_lt hfirst]
      · rfl

end Overlay

/-! ## Hypothetical captures are exact -/

section Result

variable [Sha256] {present : BTreeSet RepoPath} {capture result : GitWorkspaceCapture}
  {overlays : BTreeMap RepoPath (Option Str)}

/-- The result of overlays: the old after view, the same under the overlays, the paths at which
    they differ, and the numbers of unsupported files that either has. -/
structure HypotheticalExact (present : BTreeSet RepoPath) (capture : GitWorkspaceCapture)
    (overlays : BTreeMap RepoPath (Option Str)) (result : GitWorkspaceCapture) : Prop where
  before : result.before = capture.after
  after : ∀ path, result.after.read path = overlaidFile overlays path (capture.after.read path)
  changed : ∀ path, path ∈ result.changedPaths
    ↔ result.before.read path ≠ result.after.read path
  beforeUnsupported : result.beforeUnsupportedFiles = unsupportedCount present
  afterUnsupported : result.afterUnsupportedFiles
    = unsupportedCount (overlaidPaths overlays present)

omit [Sha256] in
/-- Among more paths there are as many unsupported ones only if there are no others. -/
theorem unsupportedCount_eq_iff {paths more : BTreeSet RepoPath}
    (h : ∀ path ∈ paths, isUnsupported path = true → path ∈ more) :
    unsupportedCount more = unsupportedCount paths
      ↔ ∀ path ∈ more, isUnsupported path = true → path ∈ paths := by
  have hsub : (paths.filter isUnsupported).toFinset ⊆ (more.filter isUnsupported).toFinset := by
    intro path hpath
    rw [BTreeSet.mem_toFinset, BTreeSet.mem_filter] at hpath ⊢
    exact ⟨h path hpath.1 hpath.2, hpath.2⟩
  constructor
  · intro hcount path hmem hunsupported
    have heq := Finset.eq_of_subset_of_card_le hsub (by
      rw [BTreeSet.card_toFinset, BTreeSet.card_toFinset]
      exact hcount.le)
    have hin : path ∈ (more.filter isUnsupported).toFinset := by
      rw [BTreeSet.mem_toFinset, BTreeSet.mem_filter]
      exact ⟨hmem, hunsupported⟩
    rw [← heq, BTreeSet.mem_toFinset, BTreeSet.mem_filter] at hin
    exact hin.1
  · intro hall
    apply congrArg BTreeSet.size
    apply BTreeSet.ext_mem
    intro path
    rw [BTreeSet.mem_filter, BTreeSet.mem_filter]
    exact ⟨fun hp => ⟨hall path hp.1 hp.2, hp.2⟩, fun hp => ⟨h path hp.1 hp.2, hp.2⟩⟩

/-- Overlays give what they say, and count what is there, exactly when they name every path of
    the capture that has an unsupported file before and none after. -/
theorem hypothetical_exact_iff (hcaptures : capture.Captures present)
    (h : capture.applyHypothetical overlays = .ok result)
    (htold : ToldApart capture.after.fileList result.after.fileList) :
    HypotheticalExact present capture overlays result
      ↔ ∀ path ∈ capture.paths, isUnsupported path = true → path ∉ present →
        (overlays.get? path).isSome = true := by
  obtain ⟨hsources, hpresent, hcount⟩ := hcaptures.spec
  obtain ⟨⟨files, afterPaths⟩, hloop, h⟩ := Except.bind_eq_ok_iff.mp h
  obtain ⟨_, -, h⟩ := Except.bind_eq_ok_iff.mp h
  dsimp only at h
  split_ifs at h with hbytes
  cases h
  have hstart : BTreeMap.ofList (capture.after.fileList.map fun file => (file.path, file))
      = capture.after.files := by
    rw [← SourceSnapshot.entries_eq, BTreeMap.ofList_entries]
  rw [hstart] at hloop
  obtain ⟨hsources', hfiles, hpaths⟩ := overlays_spec overlays.sorted hloop hsources
  have hread : ∀ path, (SourceSnapshot.new files.values).read path
      = overlaidFile overlays path (capture.after.read path) := by
    intro path
    rw [SourceSnapshot.read, files_new_values hsources']
    exact hfiles path
  have hchanged : ∀ path, path ∈ changedSourcePaths capture.after.fileList
        (SourceSnapshot.new files.values).fileList
      ↔ capture.after.read path ≠ (SourceSnapshot.new files.values).read path := by
    intro path
    rw [mem_changedSourcePaths (byPath_fileList _) (byPath_fileList _) htold, listedAt_fileList,
      listedAt_fileList]
    apply bytes_ne_iff hsources
    rw [files_new_values hsources']
    exact hsources'
  -- the paths that are counted start from all the paths of the capture
  have hafter : ∀ path, isUnsupported path = true → (path ∈ afterPaths
      ↔ (path ∈ capture.paths ∧ overlays.get? path = none)
        ∨ ∃ bytes, overlays.get? path = some (some bytes)) := by
    intro path hunsupported
    rw [hpaths path hunsupported]
    show (match overlays.get? path with
      | some content => content.isSome = true
      | none => path ∈ capture.paths) ↔ _
    cases overlays.get? path with
    | none => simp
    | some content => cases content <;> simp
  have hsub : ∀ path ∈ overlaidPaths overlays present, isUnsupported path = true →
      path ∈ afterPaths := by
    intro path hpath hunsupported
    rw [hafter path hunsupported]
    exact (mem_overlaidPaths.mp hpath).imp_left fun hold => ⟨hpresent path hold.1, hold.2⟩
  have hiff : unsupportedCount afterPaths = unsupportedCount (overlaidPaths overlays present)
      ↔ ∀ path ∈ capture.paths, isUnsupported path = true → path ∉ present →
        (overlays.get? path).isSome = true := by
    rw [unsupportedCount_eq_iff hsub]
    constructor
    · intro hall path hpath hunsupported hgone
      by_contra hunnamed
      rw [Option.not_isSome_iff_eq_none] at hunnamed
      have hin := hall path ((hafter path hunsupported).mpr (.inl ⟨hpath, hunnamed⟩)) hunsupported
      obtain hold | ⟨bytes, hnew⟩ := mem_overlaidPaths.mp hin
      · exact hgone hold.1
      · rw [hunnamed] at hnew
        cases hnew
    · intro hall path hpath hunsupported
      rw [mem_overlaidPaths]
      obtain ⟨hold, hunnamed⟩ | hnew := (hafter path hunsupported).mp hpath
      · left
        refine ⟨?_, hunnamed⟩
        by_contra hgone
        have hnamed := hall path hold hunsupported hgone
        rw [hunnamed] at hnamed
        cases hnamed
      · exact .inr hnew
  rw [← hiff]
  exact ⟨fun hexact => hexact.afterUnsupported, fun hafterCount =>
    ⟨rfl, hread, hchanged, hcount, hafterCount⟩⟩

end Result

end

/-! A file without a parser that `HEAD` has and the worktree no longer has. -/

def deletedPath : RepoPath := ⟨ascii "a.c", by decide⟩

def deletedWorktree : GitWorktree where
  catFile _ := []
  headEntries := .ofList [(deletedPath, ⟨ascii "100644", ascii "1", utf8Valid_one⟩)]
  paths := .ofList [deletedPath]
  worktreePaths := .ofList [deletedPath]
  contents := ∅
  sparse := ∅
  index := ∅

theorem toldApart_identityDigest (before after : List SourceFile) :
    @ToldApart identityDigest before after := by
  intro f _ g _ hdigest
  exact @hashDomain_singleton_injective identityDigest Function.injective_id _ _ _ hdigest

section Samples

attribute [local instance] linuxPlatform identityDigest

/-- Where the overlays name the file as well, nothing that is gone is counted. -/
theorem hypothetical_exact_deleted : ∃ present capture result,
    GitWorkspaceCapture.Captures present capture
      ∧ capture.applyHypothetical (.ofList [(deletedPath, none)]) = .ok result
      ∧ HypotheticalExact present capture (.ofList [(deletedPath, none)]) result := by
  have hrun : ((GitWorkspaceCapture.captureWorktree deletedWorktree).bind fun capture =>
      (capture.applyHypothetical (.ofList [(deletedPath, none)])).bind fun _ => .ok capture.paths)
      = .ok (.ofList [deletedPath]) := by decide +kernel
  obtain ⟨capture, hcapture, hrun⟩ := Except.bind_eq_ok_iff.mp hrun
  obtain ⟨result, hresult, hpaths⟩ := Except.bind_eq_ok_iff.mp hrun
  refine ⟨_, capture, result, .worktree hcapture, hresult, ?_⟩
  refine (hypothetical_exact_iff (.worktree hcapture) hresult (toldApart_identityDigest _ _)).mpr ?_
  intro path hpath _ _
  rw [Except.ok.inj hpaths, BTreeSet.mem_ofList, List.mem_singleton] at hpath
  rw [hpath]
  decide

/-- Without any overlay the file is counted among those of the after view, which has none. -/
theorem deleted_file_counted :
    ¬ ∀ (present : BTreeSet RepoPath) (capture result : GitWorkspaceCapture)
      (overlays : BTreeMap RepoPath (Option Str)), capture.Captures present →
      capture.applyHypothetical overlays = .ok result →
      ToldApart capture.after.fileList result.after.fileList →
      HypotheticalExact present capture overlays result := by
  intro hall
  have hrun : ((GitWorkspaceCapture.captureWorktree deletedWorktree).bind fun capture =>
      (capture.applyHypothetical ∅).bind fun result => .ok result.afterUnsupportedFiles)
      = .ok 1 := by decide +kernel
  obtain ⟨capture, hcapture, hrun⟩ := Except.bind_eq_ok_iff.mp hrun
  obtain ⟨result, hresult, hcount⟩ := Except.bind_eq_ok_iff.mp hrun
  have hexact := hall _ capture result ∅ (.worktree hcapture) hresult
    (toldApart_identityDigest _ _)
  have hone := Except.ok.inj hcount
  rw [hexact.afterUnsupported] at hone
  exact absurd hone (by decide +kernel)

end Samples

end Opcore
