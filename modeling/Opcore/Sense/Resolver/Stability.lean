/-
  Opcore.Sense.Resolver.Stability

  When the universe of import targets is the same before and after a change.
  The index of a view depends on the paths and languages of its files and on
  the module declarations of its Rust files; a pair of views that is safe to
  project incrementally agrees on all of these (`afterIndex_eq_beforeIndex`).
-/
import Opcore.Sense.Resolver.Projection

namespace Opcore.Resolver

open Text Collections

/-! ## Lists related item by item -/

theorem exists_of_forall₂_left {α β : Type*} {R : α → β → Prop} {l : List α} {l' : List β}
    (h : List.Forall₂ R l l') {a : α} (ha : a ∈ l) : ∃ b ∈ l', R a b := by
  induction h with
  | nil => exact absurd ha List.not_mem_nil
  | @cons x y _ _ hxy _ ih =>
    rcases List.mem_cons.mp ha with rfl | ha
    · exact ⟨y, List.mem_cons_self .., hxy⟩
    · obtain ⟨b, hb, hab⟩ := ih ha
      exact ⟨b, List.mem_cons_of_mem _ hb, hab⟩

theorem map_eq_of_forall₂ {α β : Type*} {f : α → β} {l l' : List α}
    (h : List.Forall₂ (fun a b => f a = f b) l l') : l.map f = l'.map f := by
  induction h with
  | nil => rfl
  | cons hab _ ih => rw [List.map_cons, List.map_cons, hab, ih]

/-! ## What indexing a file reads -/

theorem addFile_congr {a b : SourceFile} (hpath : a.path = b.path)
    (hlanguage : a.language = b.language) (index : ResolutionIndex) :
    index.addFile a = index.addFile b := by
  have haliases (aliases : BTreeMap Str Candidate) (path suffix : Str) :
      addSourceAliases aliases path a suffix = addSourceAliases aliases path b suffix := by
    simp only [addSourceAliases, hpath, hlanguage]
  have hrust (rust : Rust.Index) (path : Str) : rust.addFile a path = rust.addFile b path := by
    simp only [Rust.Index.addFile, hpath]
  simp only [ResolutionIndex.addFile, haliases, hrust, hpath, hlanguage]

theorem foldl_addFile_congr {l l' : List SourceFile}
    (h : List.Forall₂ (fun a b : SourceFile => a.path = b.path ∧ a.language = b.language) l l')
    (index : ResolutionIndex) :
    l.foldl ResolutionIndex.addFile index = l'.foldl ResolutionIndex.addFile index := by
  induction h generalizing index with
  | nil => rfl
  | cons hab _ ih => rw [List.foldl_cons, List.foldl_cons, addFile_congr hab.1 hab.2, ih]

theorem go_addFile (index : ResolutionIndex) (file : SourceFile) :
    (index.addFile file).go = index.go := by
  rw [ResolutionIndex.addFile]
  split
  · rfl
  · cases file.language <;> rfl

theorem go_foldl_addFile (l : List SourceFile) (index : ResolutionIndex) :
    (l.foldl ResolutionIndex.addFile index).go = index.go := by
  induction l generalizing index with
  | nil => rfl
  | cons file l ih => rw [List.foldl_cons, ih, go_addFile]

theorem go_new [Sha256] (snapshot : SourceSnapshot) (fileFacts : FactMap) (parserOptions : Str)
    (goModules : BTreeMap RepoPath Str) :
    (ResolutionIndex.new snapshot fileFacts parserOptions goModules).go
      = Go.Index.build snapshot goModules :=
  go_foldl_addFile _ _

/-- Only Rust files have Rust modules. -/
theorem fileModules_addFile {index : ResolutionIndex} {file : SourceFile} {path : RepoPath}
    (h : (index.addFile file).rust.fileModules.get? path ≠ index.rust.fileModules.get? path) :
    file.path = path ∧ file.language = .rust := by
  rw [ResolutionIndex.addFile] at h
  cases hutf8 : file.path.asUtf8 with
  | none => simp [hutf8] at h
  | some text =>
    rw [hutf8] at h
    cases hlanguage : file.language with
    | rust =>
      refine ⟨?_, rfl⟩
      by_contra hne
      apply h
      simp only [hlanguage, Rust.Index.addFile]
      split
      · rfl
      · split_ifs
        · rw [BTreeMap.get?_insert, if_neg (Ne.symm hne)]
        · rw [BTreeMap.get?_insert, if_neg (Ne.symm hne)]
    | javaScript | typeScript | python | go | hcl | shell | protobuf => simp [hlanguage] at h

theorem fileModules_foldl_addFile {l : List SourceFile} {index : ResolutionIndex} {path : RepoPath}
    (h : ∀ file ∈ l, file.path = path → file.language ≠ .rust) :
    (l.foldl ResolutionIndex.addFile index).rust.fileModules.get? path
      = index.rust.fileModules.get? path := by
  induction l generalizing index with
  | nil => rfl
  | cons file l ih =>
    rw [List.foldl_cons, ih fun f hf => h f (List.mem_cons_of_mem _ hf)]
    by_contra hne
    obtain ⟨hpath, hlanguage⟩ := fileModules_addFile hne
    exact h file (List.mem_cons_self ..) hpath hlanguage

/-! ## Views without Go -/

theorem goIndex_of_no_go {snapshot : SourceSnapshot}
    (h : ∀ file ∈ snapshot.fileList, file.language ≠ .go) : Go.Index.build snapshot ∅ = {} := by
  have hpackages : Go.packageFiles snapshot = ∅ := by
    have hnone : snapshot.fileList.filter (fun file => file.language = .go) = [] := by
      rw [List.filter_eq_nil_iff]
      simpa using h
    rw [Go.packageFiles, hnone]
    rfl
  rw [Go.Index.build, hpackages]
  rfl

/-! ## Module trees -/

section

variable [Sha256]

/-- A file without a module declares no modules. -/
theorem moduleTargets_of_no_module {index : Rust.Index} {snapshot : SourceSnapshot}
    {fileFacts : FactMap} {parserOptions : Str} {path : RepoPath}
    (h : index.fileModules.get? path = none) :
    Rust.moduleTargets index snapshot fileFacts parserOptions path = [] := by
  rw [Rust.moduleTargets]
  cases hread : snapshot.read path with
  | none => rfl
  | some file =>
    dsimp only
    cases fileFacts.get? (factKey file parserOptions) with
    | none => rfl
    | some facts =>
      dsimp only
      rw [List.filterMap_eq_nil_iff]
      intro reference _
      rw [Rust.resolveModuleUnchecked, SourceSnapshot.path_of_read hread, h]

/-- What the two views of a safe pair share at a path. -/
structure SameTarget (before after : SourceSnapshot) (parserOptions : Str) (path : RepoPath) :
    Prop where
  language : (before.read path).map SourceFile.language = (after.read path).map SourceFile.language
  key : (∃ b, before.read path = some b ∧ b.language = .rust) →
    (before.read path).map (factKey · parserOptions)
      = (after.read path).map (factKey · parserOptions)

theorem moduleTargets_congr {index : Rust.Index} {before after : SourceSnapshot}
    {fileFacts : FactMap} {parserOptions : Str} {path : RepoPath}
    (hsame : SameTarget before after parserOptions path)
    (hmodule : (∀ b, before.read path = some b → b.language ≠ .rust) →
      index.fileModules.get? path = none) :
    Rust.moduleTargets index before fileFacts parserOptions path
      = Rust.moduleTargets index after fileFacts parserOptions path := by
  by_cases hrust : ∃ b, before.read path = some b ∧ b.language = .rust
  · obtain ⟨b, hb, hlanguage⟩ := hrust
    have hkey := hsame.key ⟨b, hb, hlanguage⟩
    rw [hb, Option.map_some, eq_comm, Option.map_eq_some_iff] at hkey
    obtain ⟨a, ha, hkey⟩ := hkey
    simp only [Rust.moduleTargets, hb, ha, hkey, SourceSnapshot.path_of_read hb,
      SourceSnapshot.path_of_read ha]
  · have hnone := hmodule fun b hb hlanguage => hrust ⟨b, hb, hlanguage⟩
    rw [moduleTargets_of_no_module hnone, moduleTargets_of_no_module hnone]

/-! ## Safe pairs -/

/-- A file that keeps its content or its key keeps its mode. -/
def KeepsModes (before after : SourceSnapshot) (parserOptions : Str) : Prop :=
  ∀ path b a, before.read path = some b → after.read path = some a →
    b.contentId = a.contentId ∨ factKey b parserOptions = factKey a parserOptions →
    b.languageMode = a.languageMode

theorem forall₂_of_canIncrementallyProject {before after : SourceSnapshot}
    {changedPaths : BTreeSet RepoPath}
    (h : canIncrementallyProject before after changedPaths = true) :
    List.Forall₂
      (fun b a : SourceFile => b.path = a.path ∧ b.language = a.language
        ∧ (b.contentId = a.contentId ∨ b.path ∈ changedPaths))
      before.fileList after.fileList := by
  simp only [canIncrementallyProject, Bool.and_eq_true, decide_eq_true_eq, List.all_eq_true,
    Bool.or_eq_true] at h
  rw [List.forall₂_iff_zip]
  refine ⟨?_, fun {b a} hmem => ?_⟩
  · rw [before.length_fileList, after.length_fileList, h.1]
  · obtain ⟨⟨hpath, hlanguage⟩, hcontent⟩ := h.2 (b, a) hmem
    exact ⟨hpath, hlanguage, hcontent⟩

namespace PairInput

variable {input : PairInput}

theorem canIncrementallyProject_of_safe (h : input.incrementalSafe = true) :
    canIncrementallyProject input.before input.after input.interfacePaths = true := by
  simp only [incrementalSafe, Bool.and_eq_true] at h
  exact h.1.1

variable {path : RepoPath}

/-- A file of the before view has its counterpart. -/
theorem read_after_of_safe (h : input.incrementalSafe = true) {b : SourceFile}
    (hb : input.before.read path = some b) :
    ∃ a, input.after.read path = some a ∧ b.language = a.language
      ∧ (b.contentId = a.contentId ∨ path ∈ input.interfacePaths) := by
  have hpath := SourceSnapshot.path_of_read hb
  have hmem : b ∈ input.before.fileList := by
    rw [SourceSnapshot.mem_fileList, hpath]
    exact hb
  obtain ⟨a, ha, heq, hlanguage, hcontent⟩ := exists_of_forall₂_left
    (forall₂_of_canIncrementallyProject (canIncrementallyProject_of_safe h)) hmem
  rw [SourceSnapshot.mem_fileList, ← heq, hpath] at ha
  rw [hpath] at hcontent
  exact ⟨a, ha, hlanguage, hcontent⟩

theorem paths_of_safe (h : input.incrementalSafe = true) :
    input.before.paths = input.after.paths := by
  rw [← input.before.map_path_fileList, ← input.after.map_path_fileList]
  have hsame := forall₂_of_canIncrementallyProject (canIncrementallyProject_of_safe h)
  exact map_eq_of_forall₂ (hsame.imp fun _ _ hba => hba.1)

theorem read_after_none_of_safe (h : input.incrementalSafe = true)
    (hb : input.before.read path = none) : input.after.read path = none := by
  rw [Option.eq_none_iff_forall_ne_some]
  intro a ha
  have hpath : path ∈ input.before.paths := by
    rw [paths_of_safe h]
    exact SourceSnapshot.mem_paths.mpr ⟨a, ha⟩
  obtain ⟨b, hb'⟩ := SourceSnapshot.mem_paths.mp hpath
  simp [hb] at hb'

/-- Rust files keep their content. -/
theorem contentId_of_rust (h : input.incrementalSafe = true) {b a : SourceFile}
    (hb : input.before.read path = some b) (ha : input.after.read path = some a)
    (hrust : b.language = .rust) : b.contentId = a.contentId := by
  obtain ⟨a', ha', -, hcontent⟩ := read_after_of_safe h hb
  rw [ha, Option.some.injEq] at ha'
  subst ha'
  rcases hcontent with hcontent | hchanged
  · exact hcontent
  · simp only [incrementalSafe, Bool.and_eq_true] at h
    have hstable := h.1.2
    rw [Rust.indexIsStable, List.all_eq_true] at hstable
    have hpath := hstable path hchanged
    simpa [hb, ha, hrust] using hpath

theorem no_go_of_safe (h : input.incrementalSafe = true) :
    (∀ file ∈ input.before.fileList, file.language ≠ .go)
      ∧ (∀ file ∈ input.after.fileList, file.language ≠ .go)
      ∧ input.goModules.before = ∅ ∧ input.goModules.after = ∅ := by
  have hsafe := h
  simp only [incrementalSafe, goSensitive, Bool.and_eq_true, Bool.not_eq_true', Bool.or_eq_false_iff,
    List.any_eq_false, Bool.not_eq_false', decide_eq_true_eq, BTreeMap.isEmpty_iff] at h
  obtain ⟨-, ⟨⟨-, hafter⟩, hmodulesBefore⟩, hmodulesAfter⟩ := h
  refine ⟨fun file hfile => ?_, hafter, hmodulesBefore, hmodulesAfter⟩
  obtain ⟨a, ha, -, hlanguage, -⟩ := exists_of_forall₂_left
    (forall₂_of_canIncrementallyProject (canIncrementallyProject_of_safe hsafe)) hfile
  rw [hlanguage]
  exact hafter a ha

theorem sameTarget_of_safe (h : input.incrementalSafe = true)
    (hmodes : KeepsModes input.before input.after input.parserOptions) (path : RepoPath) :
    SameTarget input.before input.after input.parserOptions path := by
  cases hb : input.before.read path with
  | none =>
    have ha := read_after_none_of_safe h hb
    exact ⟨by rw [hb, ha], fun _ => by rw [hb, ha]⟩
  | some b =>
    obtain ⟨a, ha, hlanguage, -⟩ := read_after_of_safe h hb
    refine ⟨by rw [hb, ha, Option.map_some, Option.map_some, hlanguage], ?_⟩
    rintro ⟨b', hb', hrust⟩
    rw [hb, Option.some.injEq] at hb'
    subst hb'
    have hcontent := contentId_of_rust h hb ha hrust
    have hmode := hmodes path b a hb ha (Or.inl hcontent)
    rw [hb, ha, Option.map_some, Option.map_some, factKey, factKey, hcontent, hmode]

/-- The universe of import targets of a safe pair is the same in both views. -/
theorem afterIndex_eq_beforeIndex (h : input.incrementalSafe = true)
    (hmodes : KeepsModes input.before input.after input.parserOptions) :
    input.afterIndex = input.beforeIndex := by
  have hfiles := forall₂_of_canIncrementallyProject (canIncrementallyProject_of_safe h)
  have hpairs : List.Forall₂ (fun b a : SourceFile => b.path = a.path ∧ b.language = a.language)
      input.before.fileList input.after.fileList := hfiles.imp fun _ _ hba => ⟨hba.1, hba.2.1⟩
  have hlanguages : input.before.fileList.map (fun file => (file.path, file.language))
      = input.after.fileList.map fun file => (file.path, file.language) :=
    map_eq_of_forall₂ (hpairs.imp fun _ _ hba => Prod.ext hba.1 hba.2)
  obtain ⟨hgoBefore, hgoAfter, hmodulesBefore, hmodulesAfter⟩ := no_go_of_safe h
  rw [afterIndex, beforeIndex, ResolutionIndex.new, ResolutionIndex.new]
  rw [hmodulesBefore, hmodulesAfter, goIndex_of_no_go hgoBefore, goIndex_of_no_go hgoAfter,
    hlanguages, foldl_addFile_congr hpairs]
  -- What is left are the module trees, which follow the declarations of Rust files.
  have htargets : Rust.moduleTargets
        (input.after.fileList.foldl ResolutionIndex.addFile
          { languages := BTreeMap.ofList
              (input.after.fileList.map fun file => (file.path, file.language)) }).rust
        input.after input.fileFacts input.parserOptions
      = Rust.moduleTargets
        (input.after.fileList.foldl ResolutionIndex.addFile
          { languages := BTreeMap.ofList
              (input.after.fileList.map fun file => (file.path, file.language)) }).rust
        input.before input.fileFacts input.parserOptions := by
    funext path
    refine (moduleTargets_congr (sameTarget_of_safe h hmodes path) fun hnone => ?_).symm
    rw [← foldl_addFile_congr hpairs, fileModules_foldl_addFile]
    · rfl
    · intro file hfile hpath
      rw [SourceSnapshot.mem_fileList, hpath] at hfile
      exact hnone file hfile
  simp only [Rust.Index.confirmModuleTrees, htargets, paths_of_safe h]

end PairInput

end

end Opcore.Resolver
