/-
  Opcore.Sense.Resolver.Packages

  What a projection says about a Go package.  The production files of a directory have one
  logical path, that of the first of them, and no other file has it; so what the projection
  has under it is what these files declare together.
-/
import Opcore.Sense.Resolver.Pair

namespace Opcore.Resolver

open Text Collections

namespace Go

/-! ## The files of a package -/

/-- The directory of a Go file whose path is a text. -/
def packageDirectory (file : SourceFile) : Option Str :=
  if file.language = .go then file.path.asUtf8.map parent else none

/-- The files of a package directory, in path order. -/
def packageAt (snapshot : SourceSnapshot) (directory : Str) : List SourceFile :=
  ((packageFiles snapshot).get? directory).getD []

def productionFiles (snapshot : SourceSnapshot) (directory : Str) : List SourceFile :=
  (packageAt snapshot directory).filter fun file => !isTestFile file

/-- The logical path of a package: the path of its first production file. -/
def packagePath (snapshot : SourceSnapshot) (directory : Str) : Option RepoPath :=
  production (packageAt snapshot directory)

section Files

variable {snapshot : SourceSnapshot} {directory : Str} {file : SourceFile} {path : RepoPath}

theorem packageAt_eq (snapshot : SourceSnapshot) (directory : Str) :
    packageAt snapshot directory
      = snapshot.fileList.filter fun file => packageDirectory file = some directory := by
  rw [packageAt, packageFiles, BTreeMap.getD_get?_group, BTreeMap.valuesAt]
  induction snapshot.fileList with
  | nil => rfl
  | cons file files ih =>
    by_cases hgo : file.language = .go
    · cases htext : file.path.asUtf8 with
      | none => simpa [packageDirectory, hgo, htext] using ih
      | some text =>
        by_cases hparent : parent text = directory
        · simpa [packageDirectory, hgo, htext, hparent] using ih
        · simpa [packageDirectory, hgo, htext, hparent] using ih
    · simpa [packageDirectory, hgo] using ih

theorem mem_packageAt :
    file ∈ packageAt snapshot directory
      ↔ file ∈ snapshot.fileList ∧ packageDirectory file = some directory := by
  rw [packageAt_eq, List.mem_filter, decide_eq_true_eq]

theorem mem_productionFiles :
    file ∈ productionFiles snapshot directory
      ↔ (file ∈ snapshot.fileList ∧ packageDirectory file = some directory)
        ∧ isTestFile file = false := by
  rw [productionFiles, List.mem_filter, mem_packageAt, Bool.not_eq_true']

theorem language_of_mem_productionFiles (h : file ∈ productionFiles snapshot directory) :
    file.language = .go := by
  have hdirectory := (mem_productionFiles.mp h).1.2
  by_contra hother
  simp [packageDirectory, hother] at hdirectory

/-- The file that a package is represented by is one of its production files. -/
theorem exists_of_packagePath (h : packagePath snapshot directory = some path) :
    ∃ file ∈ productionFiles snapshot directory, file.path = path := by
  obtain ⟨file, hfind, hpath⟩ := Option.map_eq_some_iff.mp h
  have htest : (!isTestFile file) = true := by simpa using List.find?_some hfind
  exact ⟨file, List.mem_filter.mpr ⟨List.mem_of_find?_eq_some hfind, htest⟩, hpath⟩

theorem exists_packagePath (h : file ∈ productionFiles snapshot directory) :
    ∃ path, packagePath snapshot directory = some path := by
  obtain ⟨hmem, htest⟩ := List.mem_filter.mp h
  cases hfind : (packageAt snapshot directory).find? fun file => !isTestFile file with
  | none => exact absurd htest (List.find?_eq_none.mp hfind file hmem)
  | some first => exact ⟨first.path, by simp [packagePath, production, hfind]⟩

theorem eq_of_path_eq {file' : SourceFile} (h : file ∈ snapshot.fileList)
    (h' : file' ∈ snapshot.fileList) (hpath : file.path = file'.path) : file = file' := by
  rw [SourceSnapshot.mem_fileList] at h h'
  rw [hpath, h'] at h
  exact (Option.some.inj h).symm

end Files

/-! ## Logical paths -/

section LogicalPaths

variable {snapshot : SourceSnapshot} {directory : Str} {file : SourceFile} {path : RepoPath}

/-- What stands for a file of a package. -/
def representativeIn (package : List SourceFile) (file : SourceFile) : RepoPath :=
  if isTestFile file then file.path else (production package).getD file.path

theorem representatives_addPackage (records : List ModuleRecord) (index : Index)
    (package : Str × List SourceFile) :
    (index.addPackage records package).representatives
      = index.representatives.extend
          (package.2.map fun file => (file.path, representativeIn package.2 file)) := by
  have hinner : package.2.foldl
      (fun representatives file => representatives.insert file.path
        (representativeIn package.2 file)) index.representatives
      = index.representatives.extend
          (package.2.map fun file => (file.path, representativeIn package.2 file)) := by
    rw [BTreeMap.extend, List.foldl_map]
  rw [Index.addPackage, ← hinner]
  dsimp only
  split <;> rfl

theorem representatives_build (snapshot : SourceSnapshot) (moduleFiles : BTreeMap RepoPath Str) :
    (Index.build snapshot moduleFiles).representatives
      = BTreeMap.ofList ((packageFiles snapshot).entries.flatMap fun package =>
          package.2.map fun file => (file.path, representativeIn package.2 file)) := by
  have hfold (records : List ModuleRecord) (packages : List (Str × List SourceFile))
      (index : Index) : (packages.foldl (Index.addPackage records) index).representatives
        = index.representatives.extend (packages.flatMap fun package =>
            package.2.map fun file => (file.path, representativeIn package.2 file)) := by
    induction packages generalizing index with
    | nil => rfl
    | cons package packages ih =>
      rw [List.foldl_cons, ih, representatives_addPackage, List.flatMap_cons,
        BTreeMap.extend_append]
  rw [Index.build, hfold]
  rfl

/-- An entry of the representatives is that of a Go file of the view. -/
theorem mem_representatives {entry : RepoPath × RepoPath} :
    (entry ∈ (packageFiles snapshot).entries.flatMap fun package =>
        package.2.map fun file => (file.path, representativeIn package.2 file))
      ↔ ∃ file ∈ snapshot.fileList, ∃ directory, packageDirectory file = some directory
        ∧ entry = (file.path, representativeIn (packageAt snapshot directory) file) := by
  rw [List.mem_flatMap]
  constructor
  · rintro ⟨⟨directory, files⟩, hpackage, hentry⟩
    obtain ⟨file, hfile, rfl⟩ := List.mem_map.mp hentry
    have hfiles : packageAt snapshot directory = files := by
      rw [packageAt, BTreeMap.mem_entries_iff.mp hpackage]
      rfl
    obtain ⟨hmem, hdirectory⟩ := mem_packageAt.mp (hfiles ▸ hfile)
    exact ⟨file, hmem, directory, hdirectory, by rw [hfiles]⟩
  · rintro ⟨file, hfile, directory, hdirectory, rfl⟩
    have hmem := mem_packageAt.mpr ⟨hfile, hdirectory⟩
    have hpackage : (directory, packageAt snapshot directory)
        ∈ (packageFiles snapshot).entries := by
      rw [BTreeMap.mem_entries_iff]
      cases hget : (packageFiles snapshot).get? directory with
      | none =>
        rw [packageAt, hget] at hmem
        exact absurd hmem List.not_mem_nil
      | some files => rw [packageAt, hget, Option.getD_some]
    exact ⟨_, hpackage, List.mem_map.mpr ⟨file, hmem, rfl⟩⟩

variable (moduleFiles : BTreeMap RepoPath Str)

/-- The logical path of a file of the view. -/
theorem logicalPath_build (hfile : file ∈ snapshot.fileList) :
    (Index.build snapshot moduleFiles).logicalPath file
      = match packageDirectory file with
        | none => file.path
        | some directory => representativeIn (packageAt snapshot directory) file := by
  rw [Index.logicalPath, Index.logicalPathFor, representatives_build]
  have hentry := fun entry => @mem_representatives snapshot entry
  generalize ((packageFiles snapshot).entries.flatMap fun package =>
    package.2.map fun file => (file.path, representativeIn package.2 file)) = entries at hentry
  -- The entries under the path of the file are those of the file itself.
  have hown : ∀ target, (BTreeMap.ofList entries).get? file.path = some target →
      ∃ directory, packageDirectory file = some directory
        ∧ target = representativeIn (packageAt snapshot directory) file := by
    intro target hget
    rcases BTreeMap.mem_of_get?_extend hget with hmem | hempty
    · obtain ⟨file', hfile', directory, hdirectory, hpair⟩ := (hentry _).mp hmem
      obtain rfl := eq_of_path_eq hfile hfile' (congrArg Prod.fst hpair)
      exact ⟨directory, hdirectory, congrArg Prod.snd hpair⟩
    · rw [BTreeMap.get?_empty] at hempty
      cases hempty
  cases hdirectory : packageDirectory file with
  | none =>
    cases hget : (BTreeMap.ofList entries).get? file.path with
    | none => rfl
    | some target =>
      obtain ⟨directory, hsome, -⟩ := hown target hget
      rw [hdirectory] at hsome
      cases hsome
  | some directory =>
    obtain ⟨target, hget⟩ := BTreeMap.exists_get?_ofList_iff.mpr
      ⟨_, (hentry _).mpr ⟨file, hfile, directory, hdirectory, rfl⟩⟩
    obtain ⟨directory', hsome, htarget⟩ := hown target hget
    rw [hdirectory, Option.some.injEq] at hsome
    rw [hget, htarget, hsome]
    rfl

/-- A path that no file of the view has stands for itself. -/
theorem logicalPathFor_build_of_not_mem (hpath : path ∉ snapshot.paths) :
    (Index.build snapshot moduleFiles).logicalPathFor path = path := by
  rw [Index.logicalPathFor, representatives_build]
  cases hget : (BTreeMap.ofList ((packageFiles snapshot).entries.flatMap fun package =>
      package.2.map fun file => (file.path, representativeIn package.2 file))).get? path with
  | none => rfl
  | some target =>
    rcases BTreeMap.mem_of_get?_extend hget with hmem | hempty
    · obtain ⟨file, hfile, directory, -, hpair⟩ := mem_representatives.mp hmem
      have hin : file.path ∈ snapshot.paths := by
        rw [← snapshot.map_path_fileList]
        exact List.mem_map_of_mem hfile
      have hsame : path = file.path := congrArg Prod.fst hpair
      exact absurd (hsame ▸ hin) hpath
    · rw [BTreeMap.get?_empty] at hempty
      cases hempty

/-- A file has the logical path of a package exactly if it is a production file of it. -/
theorem logicalPath_eq_iff
    (hpackage : packagePath snapshot directory = some path) (hfile : file ∈ snapshot.fileList) :
    (Index.build snapshot moduleFiles).logicalPath file = path
      ↔ file ∈ productionFiles snapshot directory := by
  obtain ⟨first, hfirst, rfl⟩ := exists_of_packagePath hpackage
  obtain ⟨⟨hfirstMem, hfirstDirectory⟩, hfirstTest⟩ := mem_productionFiles.mp hfirst
  rw [logicalPath_build moduleFiles hfile, mem_productionFiles]
  have hown : file.path = first.path →
      (file ∈ snapshot.fileList ∧ packageDirectory file = some directory)
        ∧ isTestFile file = false := fun hpath => by
    obtain rfl := eq_of_path_eq hfile hfirstMem hpath
    exact ⟨⟨hfile, hfirstDirectory⟩, hfirstTest⟩
  cases hdirectory : packageDirectory file with
  | none =>
    constructor
    · intro hpath
      rw [← hdirectory]
      exact hown hpath
    · rintro ⟨⟨-, hsome⟩, -⟩
      cases hsome
  | some directory' =>
    dsimp only
    rw [representativeIn]
    by_cases htest : isTestFile file = true
    · rw [if_pos htest]
      constructor
      · intro hpath
        rw [← hdirectory]
        exact hown hpath
      · rintro ⟨-, hfalse⟩
        rw [htest] at hfalse
        cases hfalse
    · have hproduction : file ∈ productionFiles snapshot directory' :=
        mem_productionFiles.mpr ⟨⟨hfile, hdirectory⟩, by simpa using htest⟩
      obtain ⟨target, htarget⟩ := exists_packagePath hproduction
      rw [if_neg htest, ← packagePath, htarget, Option.getD_some]
      constructor
      · rintro rfl
        -- the first file of the directory of this file is the first of the package
        obtain ⟨first', hfirst', hpath⟩ := exists_of_packagePath htarget
        obtain ⟨⟨hmem', hdirectory'⟩, -⟩ := mem_productionFiles.mp hfirst'
        obtain rfl := eq_of_path_eq hmem' hfirstMem hpath
        exact ⟨⟨hfile, hdirectory'.symm.trans hfirstDirectory⟩, by simpa using htest⟩
      · rintro ⟨⟨-, hsame⟩, -⟩
        rw [Option.some.inj hsame, hpackage] at htarget
        exact (Option.some.inj htarget).symm

/-- The files that have the logical path of a package. -/
theorem filter_logicalPath_eq (hpackage : packagePath snapshot directory = some path) :
    (snapshot.fileList.filter fun file =>
        (Index.build snapshot moduleFiles).logicalPath file = path)
      = productionFiles snapshot directory := by
  rw [productionFiles, packageAt_eq, List.filter_filter]
  apply List.filter_congr
  intro file hfile
  have hiff := logicalPath_eq_iff moduleFiles hpackage hfile
  rw [mem_productionFiles] at hiff
  rw [Bool.eq_iff_iff, decide_eq_true_eq, hiff]
  simp [hfile, and_comm]

end LogicalPaths

end Go

/-! ## What the files declare together -/

/-- The module of a logical path after one more of its files. -/
def mergeInto (merged : Option ModuleInterface) (module : ModuleInterface) :
    Option ModuleInterface :=
  some (match merged with
    | some destination => mergeModuleInterface destination module
    | none => module)

def mergedModule (modules : List ModuleInterface) : Option ModuleInterface :=
  modules.foldl mergeInto none

theorem get?_foldl_recordModule_eq (l : List (RepoPath × ModuleInterface))
    (interfaces : BTreeMap RepoPath ModuleInterface) (path : RepoPath) :
    (l.foldl recordModule interfaces).get? path
      = (BTreeMap.valuesAt path l).foldl mergeInto (interfaces.get? path) := by
  induction l generalizing interfaces with
  | nil => rfl
  | cons entry l ih =>
    rw [List.foldl_cons, ih, recordModule, BTreeMap.get?_insert]
    by_cases hpath : path = entry.1
    · rw [if_pos hpath, hpath, BTreeMap.valuesAt, BTreeMap.valuesAt,
        List.filter_cons_of_pos (by simp), List.map_cons, List.foldl_cons]
      rfl
    · rw [if_neg hpath, BTreeMap.valuesAt, BTreeMap.valuesAt,
        List.filter_cons_of_neg (by simpa using Ne.symm hpath)]

theorem mergedModule_snoc (modules : List ModuleInterface) (module : ModuleInterface) :
    mergedModule (modules ++ [module]) = mergeInto (mergedModule modules) module := by
  rw [mergedModule, List.foldl_append]
  rfl

theorem mergedModule_eq_none_iff {modules : List ModuleInterface} :
    mergedModule modules = none ↔ modules = [] := by
  induction modules using List.reverseRecOn with
  | nil => exact iff_of_true rfl rfl
  | append_singleton modules module _ =>
    simp [mergedModule_snoc, mergeInto]

section Projection

variable [Sha256] (fileFacts : FactMap) (parserOptions : Str)

def interfacesOf (files : List SourceFile) : List InterfaceFacts :=
  files.filterMap fun file =>
    (fileFacts.get? (factKey file parserOptions)).map FileFacts.interfaces

def exportKeys (facts : InterfaceFacts) : List InterfaceExportKey :=
  facts.exports.map fun export_ => ⟨export_.namespace, export_.exportedName⟩

def shapeCounts (facts : InterfaceFacts) : List (InterfaceShapeKey × Nat) :=
  facts.shapes.map fun shape => (⟨shape.kind, shape.exportedName⟩, shape.memberCount)

def reExports (facts : InterfaceFacts) : Bool :=
  (facts.exports.any fun export_ => export_.origin = .reExport)
    || facts.imports.any fun fact => fact.role = .reExport

/-- A module is what a list of interfaces declares together. -/
structure DeclaredBy (interfaces : List InterfaceFacts) (module : ModuleInterface) : Prop where
  exports : module.exports = BTreeSet.ofList (interfaces.flatMap exportKeys)
  shapes : module.shapes = BTreeMap.ofList (interfaces.flatMap shapeCounts)
  hasReexports : module.hasReexports = interfaces.any reExports
  publicSurfaceComplete : module.publicSurfaceComplete
    = interfaces.all fun facts => facts.publicSurfaceStatus = .complete

omit [Sha256] in
theorem declaredBy_moduleInterface (file : SourceFile) (facts : InterfaceFacts) :
    DeclaredBy [facts] (moduleInterface file facts) where
  exports := by
    rw [List.flatMap_singleton]
    rfl
  shapes := by
    rw [List.flatMap_singleton]
    rfl
  hasReexports := by
    rw [List.any_cons, List.any_nil, Bool.or_false]
    rfl
  publicSurfaceComplete := by
    rw [List.all_cons, List.all_nil, Bool.and_true]
    rfl

omit [Sha256] in
/-- Two modules that are merged declare what both lists declare. -/
theorem DeclaredBy.merge {interfaces interfaces' : List InterfaceFacts}
    {destination source : ModuleInterface} (h : DeclaredBy interfaces destination)
    (h' : DeclaredBy interfaces' source) :
    DeclaredBy (interfaces ++ interfaces') (mergeModuleInterface destination source) where
  exports := by
    apply BTreeSet.ext_mem
    intro key
    simp [mergeModuleInterface, h.exports, h'.exports]
  shapes := by
    rw [mergeModuleInterface, h.shapes, h'.shapes, BTreeMap.extend_entries_ofList,
      List.flatMap_append, BTreeMap.ofList, BTreeMap.ofList, BTreeMap.extend_append]
  hasReexports := by
    rw [mergeModuleInterface, List.any_append, h.hasReexports, h'.hasReexports]
  publicSurfaceComplete := by
    rw [mergeModuleInterface, List.all_append, h.publicSurfaceComplete, h'.publicSurfaceComplete]

theorem interfacesOf_eq_nil_iff {files : List SourceFile} :
    interfacesOf fileFacts parserOptions files = []
      ↔ mergedModule (files.filterMap (moduleOf fileFacts parserOptions)) = none := by
  rw [mergedModule_eq_none_iff, interfacesOf, List.filterMap_eq_nil_iff,
    List.filterMap_eq_nil_iff]
  simp only [moduleOf, Option.map_eq_none_iff]

/-- The merged module of files is what their interfaces declare together. -/
theorem declaredBy_mergedModule {files : List SourceFile} {merged : ModuleInterface}
    (h : mergedModule (files.filterMap (moduleOf fileFacts parserOptions)) = some merged) :
    DeclaredBy (interfacesOf fileFacts parserOptions files) merged := by
  induction files using List.reverseRecOn generalizing merged with
  | nil => cases h
  | append_singleton files file ih =>
    have hlast : moduleOf fileFacts parserOptions file
        = (fileFacts.get? (factKey file parserOptions)).map fun facts =>
          moduleInterface file facts.interfaces := rfl
    rw [interfacesOf, List.filterMap_append, ← interfacesOf]
    rw [List.filterMap_append] at h
    cases hfacts : fileFacts.get? (factKey file parserOptions) with
    | none =>
      rw [List.filterMap_cons_none (by rw [hlast, hfacts]; rfl), List.filterMap_nil,
        List.append_nil] at h
      rw [List.filterMap_cons_none (by rw [hfacts]; rfl), List.filterMap_nil, List.append_nil]
      exact ih h
    | some facts =>
      rw [List.filterMap_cons_some (by rw [hlast, hfacts]; rfl), List.filterMap_nil,
        mergedModule_snoc] at h
      rw [List.filterMap_cons_some (by rw [hfacts]; rfl), List.filterMap_nil]
      have hfile := declaredBy_moduleInterface file facts.interfaces
      cases hfiles : mergedModule (files.filterMap (moduleOf fileFacts parserOptions)) with
      | none =>
        rw [hfiles] at h
        obtain rfl := Option.some.inj h
        have hnone : interfacesOf fileFacts parserOptions files = [] :=
          (interfacesOf_eq_nil_iff fileFacts parserOptions).mpr hfiles
        rw [hnone, List.nil_append]
        exact hfile
      | some destination =>
        rw [hfiles] at h
        obtain rfl := Option.some.inj h
        exact (ih hfiles).merge hfile

omit [Sha256] in
/-- No declaration file, no module of one. -/
theorem declarationFile_mergedModule {modules : List ModuleInterface} {merged : ModuleInterface}
    (h : mergedModule modules = some merged)
    (hmodules : ∀ module ∈ modules, module.declarationFile = false) :
    merged.declarationFile = false := by
  induction modules using List.reverseRecOn generalizing merged with
  | nil => cases h
  | append_singleton modules module ih =>
    rw [mergedModule_snoc] at h
    have hlast := hmodules module (by simp)
    cases hbefore : mergedModule modules with
    | none =>
      rw [hbefore] at h
      obtain rfl : module = merged := Option.some.inj h
      exact hlast
    | some destination =>
      rw [hbefore] at h
      obtain rfl : mergeModuleInterface destination module = merged := Option.some.inj h
      have hdestination := ih hbefore fun module' hmem => hmodules module' (by simp [hmem])
      rw [mergeModuleInterface, hdestination, hlast]
      rfl

/-- Under a path that is looked at, a projection has what the files declare whose logical path
it is. -/
theorem get?_interfaces_projectWithIndex (snapshot : SourceSnapshot) (context : ResolutionContext)
    (path : RepoPath) :
    (projectWithIndex snapshot context).interfaces.get? path
      = if path ∈ context.interfacePaths then
          mergedModule ((snapshot.fileList.filter fun file =>
              context.index.go.logicalPath file = path).filterMap
            (moduleOf context.fileFacts context.parserOptions))
        else none := by
  have hinterfaces : (projectWithIndex snapshot context).interfaces
      = (viewContribution context snapshot.fileList).modules.foldl recordModule ∅ := by
    rw [projectWithIndex_eq]
    rfl
  have hvalues : BTreeMap.valuesAt path (viewContribution context snapshot.fileList).modules
      = if path ∈ context.interfacePaths then
          (snapshot.fileList.filter fun file =>
              context.index.go.logicalPath file = path).filterMap
            (moduleOf context.fileFacts context.parserOptions)
        else [] := by
    rw [viewContribution, modules_concat]
    induction snapshot.fileList with
    | nil => simp [BTreeMap.valuesAt]
    | cons file files ih =>
      rw [List.map_cons, List.flatMap_cons, BTreeMap.valuesAt, List.filter_append,
        List.map_append]
      rw [BTreeMap.valuesAt] at ih
      rw [ih, modules_fileContribution_eq]
      by_cases hpath : context.index.go.logicalPath file = path
      · rw [hpath]
        split_ifs
        · cases hmodule : moduleOf context.fileFacts context.parserOptions file <;>
            simp [hpath, hmodule]
        · rfl
      · split_ifs <;>
          cases moduleOf context.fileFacts context.parserOptions file <;> simp [hpath]
  rw [hinterfaces, get?_foldl_recordModule_eq, hvalues, BTreeMap.get?_empty]
  split_ifs <;> rfl

variable {context : ResolutionContext}

/-- Under the path of a package that is looked at, a projection has what the production files
declare. -/
theorem get?_interfaces_package {snapshot : SourceSnapshot}
    {moduleFiles : BTreeMap RepoPath Str} {directory : Str} {path : RepoPath}
    (hindex : context.index.go = Go.Index.build snapshot moduleFiles)
    (hpackage : Go.packagePath snapshot directory = some path) :
    (projectWithIndex snapshot context).interfaces.get? path
      = if path ∈ context.interfacePaths then
          mergedModule ((Go.productionFiles snapshot directory).filterMap
            (moduleOf context.fileFacts context.parserOptions))
        else none := by
  have hfiles : (snapshot.fileList.filter fun file => context.index.go.logicalPath file = path)
      = Go.productionFiles snapshot directory := by
    rw [hindex]
    exact Go.filter_logicalPath_eq moduleFiles hpackage
  rw [get?_interfaces_projectWithIndex, hfiles]

/-! ## Selectors of a package -/

variable {key : InterfaceEdgeKey}

omit [Sha256] in
theorem mem_selectors_record {s : SelectorState} {entry : InterfaceEdgeKey × InterfaceSelector}
    {selector : InterfaceSelector}
    (h : selector ∈ (((s.record entry).edges.get? key).getD {}).selectors) :
    selector ∈ ((s.edges.get? key).getD {}).selectors
      ∨ entry = (key, selector) ∧ isNamed selector = true := by
  obtain ⟨key', selector'⟩ := entry
  rw [SelectorState.record] at h
  have hnamed : isNamed selector' = true →
      selector ∈ (((s.recordNamed key' selector').edges.get? key).getD {}).selectors →
      selector ∈ ((s.edges.get? key).getD {}).selectors
        ∨ (key', selector') = (key, selector) ∧ isNamed selector = true := by
    intro hkind hmem
    simp only [SelectorState.recordNamed] at hmem
    split_ifs at hmem <;>
      · simp only [BTreeMap.get?_insert] at hmem
        by_cases hkey : key = key'
        · subst hkey
          simp at hmem
          grind
        · simp [hkey] at hmem
          exact .inl hmem
  cases hkind : selector'.kind with
  | named => exact hnamed (by simp [isNamed, hkind]) (by simpa [hkind] using h)
  | default => exact hnamed (by simp [isNamed, hkind]) (by simpa [hkind] using h)
  | sideEffect => exact .inl (by simpa [hkind] using h)
  | «namespace» =>
    left
    simp only [hkind, BTreeMap.get?_upsert] at h
    split_ifs at h with hkey
    · rw [hkey]
      exact h
    · exact h

omit [Sha256] in
/-- A selector that is recorded was recorded before, or is one of those to be recorded. -/
theorem mem_selectors_foldl_record {l : List (InterfaceEdgeKey × InterfaceSelector)}
    {s : SelectorState} {selector : InterfaceSelector}
    (h : selector ∈ (((l.foldl SelectorState.record s).edges.get? key).getD {}).selectors) :
    selector ∈ ((s.edges.get? key).getD {}).selectors
      ∨ (key, selector) ∈ l ∧ isNamed selector = true := by
  induction l generalizing s with
  | nil => exact .inl h
  | cons entry l ih =>
    rcases ih h with hhead | ⟨hmem, hnamed⟩
    · rcases mem_selectors_record hhead with hs | ⟨rfl, hnamed⟩
      · exact .inl hs
      · exact .inr ⟨List.mem_cons_self, hnamed⟩
    · exact .inr ⟨List.mem_cons_of_mem _ hmem, hnamed⟩

theorem mem_selectors_fileContribution {file : SourceFile}
    {entry : InterfaceEdgeKey × InterfaceSelector}
    (h : entry ∈ (fileContribution context file).selectors) :
    entry.1.from = context.index.go.logicalPath file
      ∧ ∃ facts, context.fileFacts.get? (factKey file context.parserOptions) = some facts
        ∧ ∃ fact ∈ facts.interfaces.imports, fact.selector = entry.2 := by
  refine ⟨(fileContribution_ownedBy context file).selectors entry h, ?_⟩
  rw [fileContribution] at h
  split at h
  · exact absurd h List.not_mem_nil
  · rename_i facts hfacts
    refine ⟨facts, hfacts, ?_⟩
    simp only [Contribution.selectors_append, List.nil_append, selectors_concat,
      List.mem_flatMap, List.mem_map] at h
    obtain ⟨c, ⟨reference, -, rfl⟩, hentry⟩ := h
    rw [referenceContribution] at hentry
    split at hentry
    · simp only [Contribution.selectors_append, List.nil_append, resolutionContribution,
        List.mem_flatMap, List.mem_map] at hentry
      obtain ⟨target, -, interfaces, hinterfaces, fact, hfact, rfl⟩ := hentry
      split_ifs at hinterfaces
      · obtain rfl : facts.interfaces = interfaces := by simpa [eq_comm] using hinterfaces
        refine ⟨fact, ?_, rfl⟩
        rw [referencedImports] at hfact
        split at hfact
        · exact absurd hfact List.not_mem_nil
        · exact List.mem_of_mem_filter hfact
      · exact absurd hinterfaces List.not_mem_nil
    · exact absurd hentry List.not_mem_nil
    · exact absurd hentry List.not_mem_nil

/-- A Go file imports packages whole. -/
def ImportsPackages (fileFacts : FactMap) (parserOptions : Str) (file : SourceFile) : Prop :=
  file.language = .go → ∀ facts, fileFacts.get? (factKey file parserOptions) = some facts →
    ∀ fact ∈ facts.interfaces.imports, isNamed fact.selector = false

/-- The edges of a package select nothing. -/
theorem selectors_package {snapshot : SourceSnapshot}
    {moduleFiles : BTreeMap RepoPath Str} {directory : Str}
    (hindex : context.index.go = Go.Index.build snapshot moduleFiles)
    (hpackage : Go.packagePath snapshot directory = some key.from)
    (himports : ∀ file ∈ snapshot.fileList,
      ImportsPackages context.fileFacts context.parserOptions file) :
    (((projectWithIndex snapshot context).interfaceEdges.get? key).getD {}).selectors = ∅ := by
  apply BTreeSet.ext_mem
  intro selector
  refine iff_of_false (fun hmem => ?_) BTreeSet.not_mem_empty
  rw [projectWithIndex_eq] at hmem
  rcases mem_selectors_foldl_record hmem with hstart | ⟨hlist, hnamed⟩
  · exact BTreeSet.not_mem_empty hstart
  · rw [viewContribution, selectors_concat, List.mem_flatMap] at hlist
    obtain ⟨c, hc, hentry⟩ := hlist
    obtain ⟨file, hfile, rfl⟩ := List.mem_map.mp hc
    obtain ⟨hfrom, facts, hfacts, fact, hfact, hselector⟩ := mem_selectors_fileContribution hentry
    have hproduction : file ∈ Go.productionFiles snapshot directory :=
      (Go.logicalPath_eq_iff moduleFiles hpackage hfile).mp (hindex ▸ hfrom.symm)
    have hwhole := himports file hfile (Go.language_of_mem_productionFiles hproduction) facts
      hfacts fact hfact
    rw [hselector, hnamed] at hwhole
    cases hwhole

end Projection

end Opcore.Resolver
