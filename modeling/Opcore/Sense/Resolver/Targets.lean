/-
  Opcore.Sense.Resolver.Targets

  Where resolution leads.  Whatever the index of a view says about a name, a
  module or a package, it says about a file of that view
  (`ResolutionIndex.describes_new`); so every target of a resolved reference is
  a file of the view the index was built from (`mem_of_resolveEdgeReference`).
-/
import Opcore.Sense.Resolver.Stability

namespace Opcore.Resolver

open Text Collections

/-! ## Candidates -/

/-- Where names lead to a single file, it is one of these. -/
def LeadsInto (files : List SourceFile) (aliases : BTreeMap Str Candidate) : Prop :=
  ∀ name path, aliases.get? name = some (.unique path) → ∃ file ∈ files, file.path = path

theorem leadsInto_empty (files : List SourceFile) : LeadsInto files ∅ :=
  fun _ _ h => nomatch h

/-- A candidate adds no other target than its own. -/
theorem get?_addCandidate_cases {aliases : BTreeMap Str Candidate} {name name' : Str}
    {target path : RepoPath}
    (h : (addCandidate aliases name target).get? name' = some (.unique path)) :
    (name' = name ∧ path = target) ∨ aliases.get? name' = some (.unique path) := by
  rw [addCandidate] at h
  split at h
  · rw [BTreeMap.get?_insert] at h
    split_ifs at h with hname
    · cases h
      exact Or.inl ⟨hname, rfl⟩
    · exact Or.inr h
  · split_ifs at h with htarget
    · exact Or.inr h
    · rw [BTreeMap.get?_insert] at h
      split_ifs at h with hname
      · cases h
      · exact Or.inr h
  · exact Or.inr h

namespace LeadsInto

variable {files : List SourceFile} {aliases : BTreeMap Str Candidate} {file : SourceFile}

theorem append (h : LeadsInto files aliases) (others : List SourceFile) :
    LeadsInto (files ++ others) aliases := by
  intro name path hname
  obtain ⟨target, htarget, hpath⟩ := h name path hname
  exact ⟨target, List.mem_append_left _ htarget, hpath⟩

theorem addCandidate (h : LeadsInto files aliases) (hfile : file ∈ files) (name : Str) :
    LeadsInto files (addCandidate aliases name file.path) := by
  intro name' path hname
  rcases get?_addCandidate_cases hname with ⟨-, rfl⟩ | hold
  · exact ⟨file, hfile, rfl⟩
  · exact h name' path hold

theorem addSourceAliases (h : LeadsInto files aliases) (hfile : file ∈ files)
    (path packageSuffix : Str) :
    LeadsInto files (addSourceAliases aliases path file packageSuffix) := by
  rw [Resolver.addSourceAliases]
  split
  · exact h
  · dsimp only
    split
    · exact (h.addCandidate hfile _).addCandidate hfile _
    · exact h.addCandidate hfile _

/-- A name resolves to one of the files. -/
theorem mem_of_resolved (h : LeadsInto files aliases) {name : Str} {target : RepoPath}
    (hresolved : aliasResolution (aliases.get? name) = .resolved target) :
    ∃ file ∈ files, file.path = target := by
  cases hname : aliases.get? name with
  | none => simp [hname, aliasResolution] at hresolved
  | some candidate =>
    cases candidate with
    | ambiguous => simp [hname, aliasResolution] at hresolved
    | unique path =>
      simp only [hname, aliasResolution, Resolution.resolved.injEq] at hresolved
      exact hresolved ▸ h name path hname

end LeadsInto

/-! ## Rust modules -/

namespace Rust

/-- The module key of a path, where it is the path of a module. -/
def moduleKeyOf (path : RepoPath) : Option Str :=
  path.asUtf8.bind fun text => moduleKey text (isConventionalRoot text)

/-- A Rust file whose path makes it the root of a crate. -/
def IsRootFile (file : SourceFile) : Prop :=
  file.language = .rust ∧ ∃ text, file.path.asUtf8 = some text ∧ isConventionalRoot text = true

/-- What the index says about modules, it says about these files. -/
structure Index.Describes (files : List SourceFile) (index : Index) : Prop where
  key_of_file : ∀ {path key}, index.fileModules.get? path = some key → moduleKeyOf path = some key
  exists_file : ∀ {path key}, index.fileModules.get? path = some key →
    ∃ file ∈ files, file.path = path ∧ file.language = .rust
  module_of_key : ∀ {key path}, index.modules.get? key = some (.unique path) →
    index.fileModules.get? path = some key
  mem_rootFiles : ∀ {path}, path ∈ index.rootFiles ↔ ∃ file ∈ files, file.path = path ∧ IsRootFile file
  key_of_root : ∀ {path}, path ∈ index.rootFiles → ∃ key, index.fileModules.get? path = some key

theorem describes_empty : Index.Describes [] {} where
  key_of_file h := nomatch h
  exists_file h := nomatch h
  module_of_key h := nomatch h
  mem_rootFiles := by simp
  key_of_root h := absurd h BTreeSet.not_mem_empty

/-- A path with the name of a crate root ends in the suffix of Rust files. -/
theorem moduleKey_of_isConventionalRoot {path : Str} (h : isConventionalRoot path = true) :
    ∃ key, moduleKey path true = some key := by
  have hname : (path.splitOn (byte '/')).getLast? = some (ascii "lib.rs")
      ∨ (path.splitOn (byte '/')).getLast? = some (ascii "main.rs") := by
    simp only [isConventionalRoot, Bool.decide_or, Bool.decide_and, Bool.or_eq_true,
      Bool.and_eq_true, decide_eq_true_eq, ← List.head?_eq_getElem?, List.head?_reverse] at h
    rcases h with ⟨hname, -⟩ | ⟨hname, -⟩
    · exact hname
    · exact Or.inr hname
  have hsuffix : ascii ".rs" <:+ path := by
    rcases hname with hname | hname
    · exact (show ascii ".rs" <:+ ascii "lib.rs" from ⟨ascii "lib", by decide⟩).trans
        (suffix_of_getLast?_splitOn hname)
    · exact (show ascii ".rs" <:+ ascii "main.rs" from ⟨ascii "main", by decide⟩).trans
        (suffix_of_getLast?_splitOn hname)
  obtain ⟨stem, rfl⟩ := hsuffix
  exact ⟨_, by rw [moduleKey, stripSuffix_append, Option.map_some]⟩

theorem moduleKeyOf_eq {path : RepoPath} {text : Str} (htext : path.asUtf8 = some text) :
    moduleKeyOf path = moduleKey text (isConventionalRoot text) := by
  rw [moduleKeyOf, htext, Option.bind_some]

/-- A Rust file that is no module says nothing about modules. -/
theorem Index.Describes.append_of_not_module {files : List SourceFile} {index : Index}
    (h : index.Describes files) {file : SourceFile} (hroot : ¬ IsRootFile file) :
    index.Describes (files ++ [file]) where
  key_of_file := h.key_of_file
  exists_file hkey := by
    obtain ⟨target, htarget, hpath⟩ := h.exists_file hkey
    exact ⟨target, List.mem_append_left _ htarget, hpath⟩
  module_of_key := h.module_of_key
  mem_rootFiles := by
    intro path
    rw [h.mem_rootFiles]
    constructor
    · rintro ⟨target, htarget, hpath⟩
      exact ⟨target, List.mem_append_left _ htarget, hpath⟩
    · rintro ⟨target, htarget, hpath, hrootFile⟩
      rcases List.mem_append.mp htarget with htarget | htarget
      · exact ⟨target, htarget, hpath, hrootFile⟩
      · exact absurd (List.mem_singleton.mp htarget ▸ hrootFile) hroot
  key_of_root := h.key_of_root

theorem Index.Describes.addFile {files : List SourceFile} {index : Index}
    (h : index.Describes files) {file : SourceFile} {text : Str}
    (hlanguage : file.language = .rust) (htext : file.path.asUtf8 = some text) :
    (index.addFile file text).Describes (files ++ [file]) := by
  rw [Index.addFile]
  cases hkey : moduleKey text (isConventionalRoot text) with
  | none =>
    refine h.append_of_not_module ?_
    rintro ⟨-, text', htext', hconventional⟩
    obtain rfl : text = text' := Option.some.inj (htext.symm.trans htext')
    obtain ⟨key, hsome⟩ := moduleKey_of_isConventionalRoot hconventional
    rw [hconventional, hsome] at hkey
    cases hkey
  | some module =>
    have hmodule : moduleKeyOf file.path = some module := by rw [moduleKeyOf_eq htext, hkey]
    -- Apart from the root files, both branches say the same.
    have hbase : ∀ roots rootFiles,
        (∀ path, path ∈ rootFiles ↔ ∃ f ∈ files ++ [file], f.path = path ∧ IsRootFile f) →
        (∀ path, path ∈ rootFiles → path = file.path ∨ path ∈ index.rootFiles) →
        Index.Describes (files ++ [file])
          { modules := addCandidate index.modules module file.path
            fileModules := index.fileModules.insert file.path module
            roots := roots
            rootFiles := rootFiles
            confirmedFiles := index.confirmedFiles } := by
      intro roots rootFiles hmem hold
      refine ⟨?_, ?_, ?_, fun {path} => hmem path, ?_⟩
      · intro path key hget
        rw [BTreeMap.get?_insert] at hget
        split_ifs at hget with hpath
        · rw [hpath, hmodule, hget]
        · exact h.key_of_file hget
      · intro path key hget
        rw [BTreeMap.get?_insert] at hget
        split_ifs at hget with hpath
        · exact ⟨file, by simp, hpath.symm, hlanguage⟩
        · obtain ⟨target, htarget, htargetPath⟩ := h.exists_file hget
          exact ⟨target, List.mem_append_left _ htarget, htargetPath⟩
      · intro key path hget
        rw [BTreeMap.get?_insert]
        rcases get?_addCandidate_cases hget with ⟨rfl, rfl⟩ | hget
        · rw [if_pos rfl]
        · have hfile := h.module_of_key hget
          split_ifs with hpath
          · rw [← hmodule, ← hpath, h.key_of_file hfile]
          · exact hfile
      · intro path hpath
        rw [BTreeMap.get?_insert]
        rcases hold path hpath with rfl | hpath
        · exact ⟨module, if_pos rfl⟩
        · split_ifs
          · exact ⟨module, rfl⟩
          · exact h.key_of_root hpath
    dsimp only
    split_ifs with hroot
    · refine hbase _ _ (fun path => ?_) fun path hpath => BTreeSet.mem_insert.mp hpath
      rw [BTreeSet.mem_insert, h.mem_rootFiles]
      constructor
      · rintro (rfl | ⟨target, htarget, hpath⟩)
        · exact ⟨file, by simp, rfl, hlanguage, text, htext, hroot⟩
        · exact ⟨target, List.mem_append_left _ htarget, hpath⟩
      · rintro ⟨target, htarget, hpath, hrootFile⟩
        rcases List.mem_append.mp htarget with htarget | htarget
        · exact Or.inr ⟨target, htarget, hpath, hrootFile⟩
        · exact Or.inl (hpath.symm.trans (congrArg _ (List.mem_singleton.mp htarget)))
    · refine hbase _ _ (fun path => ?_) fun path hpath => Or.inr hpath
      refine (h.append_of_not_module ?_).mem_rootFiles
      rintro ⟨-, text', htext', hconventional⟩
      obtain rfl : text = text' := Option.some.inj (htext.symm.trans htext')
      exact hroot hconventional

end Rust

/-! ## Go packages -/

namespace Go

/-- Where a file of a package is represented, it is a Go file represented by one of these. -/
def RepresentedIn (files : List SourceFile) (representatives : BTreeMap RepoPath RepoPath) : Prop :=
  ∀ path target, representatives.get? path = some target →
    (∃ file ∈ files, file.path = path ∧ file.language = .go) ∧ ∃ file ∈ files, file.path = target

/-- What the index says about packages, it says about these files. -/
structure Index.Describes (files : List SourceFile) (index : Index) : Prop where
  aliases : LeadsInto files index.aliases
  representatives : RepresentedIn files index.representatives

variable {files : List SourceFile} {index : Index}

theorem RepresentedIn.insert {representatives : BTreeMap RepoPath RepoPath}
    (h : RepresentedIn files representatives) {file target : SourceFile} (hfile : file ∈ files)
    (hgo : file.language = .go) (htarget : target ∈ files) :
    RepresentedIn files (representatives.insert file.path target.path) := by
  intro path target' hget
  rw [BTreeMap.get?_insert] at hget
  split_ifs at hget with hpath
  · cases hget
    exact ⟨⟨file, hfile, hpath.symm, hgo⟩, target, htarget, rfl⟩
  · exact h path target' hget

theorem mem_of_production {package : List SourceFile} {target : RepoPath}
    (h : production package = some target) : ∃ file ∈ package, file.path = target := by
  obtain ⟨file, hfile, hpath⟩ := Option.map_eq_some_iff.mp h
  exact ⟨file, List.mem_of_find?_eq_some hfile, hpath⟩

theorem Index.Describes.addPackage (h : index.Describes files) {package : Str × List SourceFile}
    (hpackage : ∀ file ∈ package.2, file ∈ files ∧ file.language = .go)
    (records : List ModuleRecord) : (index.addPackage records package).Describes files := by
  have hproduction : ∀ {target}, production package.2 = some target →
      ∃ file ∈ files, file.path = target := fun htarget => by
    obtain ⟨file, hfile, hpath⟩ := mem_of_production htarget
    exact ⟨file, (hpackage file hfile).1, hpath⟩
  -- A file stands for itself or is represented by the production file of its package.
  have hrepresentatives : RepresentedIn files (package.2.foldl
      (fun representatives file => representatives.insert file.path
        (if isTestFile file then file.path else (production package.2).getD file.path))
      index.representatives) := by
    refine List.foldlRecOn _ _ h.representatives fun representatives hold file hfile => ?_
    obtain ⟨hmem, hgo⟩ := hpackage file hfile
    split_ifs with htest
    · exact hold.insert hmem hgo hmem
    · cases hproduces : production package.2 with
      | none => exact hold.insert hmem hgo hmem
      | some target =>
        obtain ⟨representative, hrepresentative, rfl⟩ := hproduction hproduces
        exact hold.insert hmem hgo hrepresentative
  rw [Index.addPackage]
  dsimp only
  split
  · rename_i target directory modulePath htarget _
    refine ⟨fun name path hname => ?_, hrepresentatives⟩
    rcases get?_addCandidate_cases hname with ⟨-, rfl⟩ | hold
    · exact hproduction htarget
    · exact h.aliases name path hold
  · exact ⟨h.aliases, hrepresentatives⟩

/-- The packages of a view hold its Go files. -/
theorem mem_packageFiles {snapshot : SourceSnapshot} {package : Str × List SourceFile}
    (h : package ∈ (packageFiles snapshot).entries) :
    ∀ file ∈ package.2, file ∈ snapshot.fileList ∧ file.language = .go := by
  intro file hfile
  have hget := BTreeMap.mem_entries_iff.mp h
  rw [packageFiles, BTreeMap.get?_group] at hget
  split_ifs at hget
  rw [← Option.some.inj hget, BTreeMap.mem_valuesAt, List.mem_filterMap] at hfile
  obtain ⟨source, hsource, hentry⟩ := hfile
  obtain ⟨text, -, hpair⟩ := Option.map_eq_some_iff.mp hentry
  obtain rfl : source = file := congrArg Prod.snd hpair
  rw [List.mem_filter, decide_eq_true_eq] at hsource
  exact hsource

theorem describes_build (snapshot : SourceSnapshot) (moduleFiles : BTreeMap RepoPath Str) :
    (Index.build snapshot moduleFiles).Describes snapshot.fileList := by
  rw [Index.build]
  refine List.foldlRecOn _ _ ?_ ?_
  · exact ⟨leadsInto_empty _, fun _ _ h => (Option.some_ne_none _ h.symm).elim⟩
  · intro index hindex package hpackage
    exact hindex.addPackage (mem_packageFiles hpackage) _

end Go

/-! ## The index of a view -/

namespace ResolutionIndex

/-- What the index says about names, modules and packages, it says about these files. -/
structure Describes (files : List SourceFile) (index : ResolutionIndex) : Prop where
  languages : ∀ {path}, (index.languages.get? path).isSome = true
    ↔ ∃ file ∈ files, file.path = path
  node : LeadsInto files index.nodeAliases
  python : LeadsInto files index.pythonAliases
  rust : index.rust.Describes files
  go : index.go.Describes files

/-- The aliases and modules that indexing files one after the other leads to. -/
theorem describes_foldl_addFile {languages : BTreeMap RepoPath Language} {go : Go.Index}
    (files : List SourceFile) :
    let index := files.foldl addFile { languages := languages, go := go }
    index.languages = languages ∧ LeadsInto files index.nodeAliases
      ∧ LeadsInto files index.pythonAliases ∧ index.rust.Describes files
      ∧ index.rust.confirmedFiles = ∅ := by
  induction files using List.reverseRecOn with
  | nil => exact ⟨rfl, leadsInto_empty _, leadsInto_empty _, Rust.describes_empty, rfl⟩
  | append_singleton files file ih =>
    dsimp only at ih ⊢
    rw [List.foldl_append, List.foldl_cons, List.foldl_nil]
    obtain ⟨hlanguages, hnode, hpython, hrust, hconfirmed⟩ := ih
    generalize files.foldl addFile { languages := languages, go := go } = index at *
    have hmem : file ∈ files ++ [file] := by simp
    have hnode' := hnode.append [file]
    have hpython' := hpython.append [file]
    have hrust' : (¬ Rust.IsRootFile file) → index.rust.Describes (files ++ [file]) :=
      fun hroot => hrust.append_of_not_module hroot
    rw [addFile]
    cases htext : file.path.asUtf8 with
    | none =>
      refine ⟨hlanguages, hnode', hpython', hrust' ?_, hconfirmed⟩
      rintro ⟨-, text, htext', -⟩
      simp [htext] at htext'
    | some text =>
      cases hlanguage : file.language with
      | javaScript | typeScript =>
        refine ⟨hlanguages, hnode'.addSourceAliases hmem _ _, hpython', hrust' ?_, hconfirmed⟩
        simp [Rust.IsRootFile, hlanguage]
      | python =>
        refine ⟨hlanguages, hnode', hpython'.addSourceAliases hmem _ _, hrust' ?_, hconfirmed⟩
        simp [Rust.IsRootFile, hlanguage]
      | rust =>
        refine ⟨hlanguages, hnode', hpython', hrust.addFile hlanguage htext, ?_⟩
        rw [← hconfirmed]
        dsimp only [Rust.Index.addFile]
        split
        · rfl
        · split_ifs <;> rfl
      | go | hcl | shell | protobuf =>
        refine ⟨hlanguages, hnode', hpython', hrust' ?_, hconfirmed⟩
        simp [Rust.IsRootFile, hlanguage]

section

variable [Sha256] (snapshot : SourceSnapshot) (fileFacts : FactMap) (parserOptions : Str)
  (goModules : BTreeMap RepoPath Str)

theorem describes_new :
    (new snapshot fileFacts parserOptions goModules).Describes snapshot.fileList := by
  obtain ⟨hlanguages, hnode, hpython, hrust, -⟩ := @describes_foldl_addFile
    (BTreeMap.ofList (snapshot.fileList.map fun file => (file.path, file.language)))
    (Go.Index.build snapshot goModules) snapshot.fileList
  refine ⟨fun {path} => ?_, hnode, hpython, ⟨hrust.key_of_file, hrust.exists_file,
    hrust.module_of_key, hrust.mem_rootFiles, hrust.key_of_root⟩, ?_⟩
  · rw [new]
    dsimp only
    rw [hlanguages, Option.isSome_iff_exists, BTreeMap.exists_get?_ofList_iff]
    simp
  · rw [go_new]
    exact Go.describes_build snapshot goModules

end

end ResolutionIndex

/-! ## Where references lead -/

namespace Rust

variable {files : List SourceFile} {index : Index} {importer target : RepoPath}

/-- The key of a module declared in the module of a key. -/
def childKey (key segment : Str) : Str := if key = [] then segment else key ++ [byte '/'] ++ segment

/-- A segment that names a module. -/
def IsName (segment : Str) : Prop := ¬ (segment = [] ∨ segment = ascii "." ∨ segment = ascii "..")

theorem followSegments_cons (index : Index) (key segment : Str) (best : Option Candidate)
    (segments : List Str) (hname : IsName segment) :
    followSegments index key best (segment :: segments)
      = followSegments index (childKey key segment)
        (index.modules.get? (childKey key segment) <|> best) segments := by
  rw [followSegments, if_neg hname]
  rfl

/-- The best candidate is one met on the way. -/
theorem followSegments_unique {key : Str} {best : Option Candidate} {segments : List Str}
    (h : followSegments index key best segments = some (some (.unique target))) :
    best = some (.unique target) ∨ ∃ key, index.modules.get? key = some (.unique target) := by
  induction segments generalizing key best with
  | nil => exact Or.inl (Option.some.inj h)
  | cons segment segments ih =>
    by_cases hname : IsName segment
    · rw [followSegments_cons _ _ _ _ _ hname] at h
      rcases ih h with hbest | hlater
      · cases hkey : index.modules.get? (childKey key segment) with
        | none =>
          rw [hkey] at hbest
          exact Or.inl hbest
        | some candidate =>
          rw [hkey] at hbest
          exact Or.inr ⟨_, hkey.trans hbest⟩
      · exact Or.inr hlater
    · rw [followSegments, if_pos (not_not.mp hname)] at h
      cases h

theorem exists_module_of_resolveSegments {base : Str} {segments : List Str} {allowBase : Bool}
    (h : resolveSegments importer base segments index allowBase = .resolved target) :
    ∃ key, index.modules.get? key = some (.unique target) := by
  rw [resolveSegments] at h
  split at h
  · cases h
  · rename_i best hfollow
    split_ifs at h
    cases best with
    | none => cases h
    | some candidate =>
      cases candidate with
      | ambiguous => cases h
      | unique path =>
        simp only [aliasResolution, Resolution.resolved.injEq] at h
        subst h
        rcases followSegments_unique hfollow with hbase | hkey
        · split_ifs at hbase
          exact ⟨base, hbase⟩
        · exact hkey

theorem of_requireConfirmedTarget {resolution : Resolution}
    (h : requireConfirmedTarget resolution index = .resolved target) :
    resolution = .resolved target ∧ target ∈ index.confirmedFiles := by
  cases resolution with
  | resolved path =>
    rw [requireConfirmedTarget] at h
    split_ifs at h with hconfirmed
    cases h
    exact ⟨rfl, hconfirmed⟩
  | sameFile | nodeBuiltin | external | ambiguous | unresolved => cases h

variable {specifier : Str}

theorem exists_module_of_resolveModuleUnchecked
    (h : resolveModuleUnchecked importer specifier index = .resolved target) :
    ∃ key, index.modules.get? key = some (.unique target) := by
  rw [resolveModuleUnchecked] at h
  split at h
  · cases h
  · exact exists_module_of_resolveSegments h

/-- A module declaration joins confirmed files. -/
theorem of_resolveModule (h : resolveModule importer specifier index = .resolved target) :
    importer ∈ index.confirmedFiles ∧ target ∈ index.confirmedFiles
      ∧ ∃ key, index.modules.get? key = some (.unique target) := by
  rw [resolveModule] at h
  split_ifs at h with himporter
  obtain ⟨hresolved, htarget⟩ := of_requireConfirmedTarget h
  exact ⟨himporter, htarget, exists_module_of_resolveModuleUnchecked hresolved⟩

/-- A use path joins confirmed files. -/
theorem of_resolveUse (h : resolveUse importer specifier index = .resolved target) :
    importer ∈ index.confirmedFiles ∧ target ∈ index.confirmedFiles
      ∧ ∃ key, index.modules.get? key = some (.unique target) := by
  rw [resolveUse] at h
  split_ifs at h with himporter
  split at h
  · cases h
  · split at h
    · cases h
    · rename_i base segments anchored _
      dsimp only at h
      split_ifs at h
      obtain ⟨hresolved, htarget⟩ := of_requireConfirmedTarget h
      exact ⟨himporter, htarget, exists_module_of_resolveSegments hresolved⟩

theorem Index.Describes.mem_of_module (h : index.Describes files)
    (htarget : ∃ key, index.modules.get? key = some (.unique target)) :
    ∃ file ∈ files, file.path = target := by
  obtain ⟨key, hkey⟩ := htarget
  obtain ⟨file, hfile, hpath, -⟩ := h.exists_file (h.module_of_key hkey)
  exact ⟨file, hfile, hpath⟩

end Rust

namespace ResolutionIndex.Describes

variable {files : List SourceFile} {index : ResolutionIndex} {file : SourceFile}
  {reference : DependencyReference} {target : RepoPath} {importer : RepoPath}

theorem mem_of_resolveNode (h : index.Describes files) {specifier : Str}
    (hresolved : resolveNode importer specifier index = .resolved target) :
    ∃ file ∈ files, file.path = target := by
  rw [resolveNode] at hresolved
  split_ifs at hresolved
  split at hresolved
  · cases hresolved
  · split_ifs at hresolved
    · rw [exactResolution] at hresolved
      split at hresolved
      · cases hresolved
      · split at hresolved
        · rename_i path _ language hlanguage
          split_ifs at hresolved
          cases hresolved
          exact h.languages.mp (Option.isSome_of_eq_some hlanguage)
        · cases hresolved
    · exact h.node.mem_of_resolved hresolved

theorem mem_of_resolvePython (h : index.Describes files)
    (hresolved : Python.resolve importer reference index = .resolved target) :
    ∃ file ∈ files, file.path = target := by
  rw [Python.resolve] at hresolved
  split at hresolved
  · split_ifs at hresolved
  · dsimp only at hresolved
    split_ifs at hresolved
    exact h.python.mem_of_resolved hresolved

theorem mem_of_resolveGo (h : index.Describes files) {specifier : Str}
    (hresolved : index.go.resolve importer specifier = .resolved target) :
    ∃ file ∈ files, file.path = target := by
  rw [Go.Index.resolve] at hresolved
  split at hresolved
  · split_ifs at hresolved
  · rename_i path halias
    split_ifs at hresolved
    cases hresolved
    exact h.go.aliases.mem_of_resolved halias
  · exact h.go.aliases.mem_of_resolved hresolved

/-- A reference resolves to a file of the view that was indexed. -/
theorem mem_of_resolveEdgeReference (h : index.Describes files)
    (hresolved : resolveEdgeReference index file reference = .resolved target) :
    ∃ file ∈ files, file.path = target := by
  rw [resolveEdgeReference] at hresolved
  split at hresolved
  · exact h.mem_of_resolveNode hresolved
  · exact h.mem_of_resolveNode hresolved
  · exact h.mem_of_resolvePython hresolved
  · exact h.mem_of_resolvePython hresolved
  · exact h.rust.mem_of_module (Rust.of_resolveModule hresolved).2.2
  · exact h.rust.mem_of_module (Rust.of_resolveUse hresolved).2.2
  · exact h.mem_of_resolveGo hresolved
  · cases hresolved

/-- The logical path of a file is the path of a file. -/
theorem mem_of_logicalPath (h : index.Describes files) (hfile : file ∈ files) :
    ∃ file' ∈ files, file'.path = index.go.logicalPath file := by
  rw [Go.Index.logicalPath, Go.Index.logicalPathFor]
  cases hrepresentative : index.go.representatives.get? file.path with
  | none => exact ⟨file, hfile, rfl⟩
  | some representative => exact (h.go.representatives _ _ hrepresentative).2

end ResolutionIndex.Describes

end Opcore.Resolver
