/-
  Opcore.Sense.Resolver.Pair

  The projections of a pair of views.  Where the second one is edited out of
  the first one, it equals the projection computed from scratch as long as
  every view on the way fits the bounds; if the second view fits and one on the
  way does not, it differs.
-/
import Opcore.Sense.Resolver.Incremental
import Opcore.Sense.Resolver.Stability

namespace Opcore.Resolver

open Text Collections

/-! ## Parts of concatenated contributions -/

variable (l : List Contribution)

theorem edges_concat :
    (Contribution.concat l).edges = l.flatMap Contribution.edges := by
  induction l with
  | nil => rfl
  | cons c l ih => rw [Contribution.concat_cons, Contribution.edges_append, ih, List.flatMap_cons]

theorem gaps_concat :
    (Contribution.concat l).gaps = l.flatMap Contribution.gaps := by
  induction l with
  | nil => rfl
  | cons c l ih => rw [Contribution.concat_cons, Contribution.gaps_append, ih, List.flatMap_cons]

theorem modules_concat :
    (Contribution.concat l).modules = l.flatMap Contribution.modules := by
  induction l with
  | nil => rfl
  | cons c l ih => rw [Contribution.concat_cons, Contribution.modules_append, ih, List.flatMap_cons]

theorem selectors_concat :
    (Contribution.concat l).selectors = l.flatMap Contribution.selectors := by
  induction l with
  | nil => rfl
  | cons c l ih =>
    rw [Contribution.concat_cons, Contribution.selectors_append, ih, List.flatMap_cons]

/-! ## Views on the way -/

/-- The before view with the files at some paths as they are after the change. -/
def mixedView (before after : SourceSnapshot) (updated : List RepoPath) : List SourceFile :=
  before.fileList.map fun file =>
    if file.path ∈ updated then (after.read file.path).getD file else file

theorem map_path_mixedView (before after : SourceSnapshot) (updated : List RepoPath) :
    (mixedView before after updated).map SourceFile.path = before.paths := by
  rw [← before.map_path_fileList, mixedView, List.map_map]
  apply List.map_congr_left
  intro file _
  rw [Function.comp_apply]
  split_ifs
  · cases hread : after.read file.path with
    | none => rfl
    | some a => exact SourceSnapshot.path_of_read hread
  · rfl

/-- A path of neither view, or of only one, changes nothing. -/
theorem mixedView_snoc_of_getD {before after : SourceSnapshot} {updated : List RepoPath}
    {path : RepoPath}
    (h : ∀ file ∈ before.fileList, file.path = path → (after.read path).getD file = file) :
    mixedView before after (updated ++ [path]) = mixedView before after updated := by
  apply List.map_congr_left
  intro file hfile
  by_cases hpath : file.path = path
  · have hsame := h file hfile hpath
    rw [← hpath] at hsame
    simp [hsame]
  · simp [hpath]

/-- A path of both views is replaced where it stands. -/
theorem mixedView_snoc_of_read {before after : SourceSnapshot} {updated : List RepoPath}
    {path : RepoPath} {b a : SourceFile} (hfresh : path ∉ updated)
    (hb : before.read path = some b) (ha : after.read path = some a) :
    ∃ l l', mixedView before after updated = l ++ b :: l'
      ∧ mixedView before after (updated ++ [path]) = l ++ a :: l' := by
  have hpath := SourceSnapshot.path_of_read hb
  have hmem : b ∈ before.fileList := by
    rw [SourceSnapshot.mem_fileList, hpath]
    exact hb
  obtain ⟨l, l', hsplit⟩ := List.append_of_mem hmem
  have hnodup : ((l ++ b :: l').map SourceFile.path).Nodup := by
    rw [← hsplit, before.map_path_fileList]
    exact before.sorted_paths.imp ne_of_lt
  have hothers : ∀ file ∈ l ++ l', file.path ≠ path := by
    intro file hfile heq
    rw [List.map_append, List.map_cons] at hnodup
    apply (List.nodup_middle.mp hnodup).notMem
    rw [← List.map_append, hpath, ← heq]
    exact List.mem_map_of_mem hfile
  let g := fun file : SourceFile =>
    if file.path ∈ updated then (after.read file.path).getD file else file
  let g' := fun file : SourceFile =>
    if file.path ∈ updated ++ [path] then (after.read file.path).getD file else file
  have hg : ∀ file, file.path ≠ path → g' file = g file := by
    intro file hne
    simp [g, g', hne]
  refine ⟨l.map g, l'.map g, ?_, ?_⟩
  · rw [mixedView, hsplit, List.map_append, List.map_cons, hpath, if_neg hfresh]
  · have hl : l.map g' = l.map g :=
      List.map_congr_left fun file hfile => hg file (hothers file (List.mem_append_left _ hfile))
    have hl' : l'.map g' = l'.map g :=
      List.map_congr_left fun file hfile => hg file (hothers file (List.mem_append_right _ hfile))
    rw [mixedView, hsplit, List.map_append, List.map_cons, ← hl, ← hl', hpath,
      if_pos (List.mem_append_right _ (List.mem_singleton.mpr rfl)), ha]
    rfl

theorem eq_nil_of_initial_eq_empty {α : Type*} [LinearOrder α] {n : Nat} {l : List α} (hn : 0 < n)
    (h : (BTreeSet.ofList l).initial n = ∅) : l = [] := by
  have hsize := BTreeSet.size_initial n (.ofList l)
  rw [h] at hsize
  have hzero : (BTreeSet.ofList l).size = 0 := by
    have hempty : (∅ : BTreeSet α).size = 0 := rfl
    omega
  rw [List.eq_nil_iff_forall_not_mem]
  intro a ha
  have hmem : a ∈ (BTreeSet.ofList l).elems := BTreeSet.mem_ofList.mpr ha
  rw [List.length_eq_zero_iff.mp hzero] at hmem
  exact List.not_mem_nil hmem

/-! ## The importer of a contribution -/

/-- Everything a reference contributes names the logical path of its file. -/
theorem referenceContribution_ownedBy (index : ResolutionIndex) (file : SourceFile)
    (interfaces : Option InterfaceFacts) (reference : DependencyReference) :
    (referenceContribution index file interfaces reference).OwnedBy (index.go.logicalPath file) := by
  rw [referenceContribution]
  cases referenceClass reference.kind with
  | unsupported | unresolved => exact ⟨by simp, by simp, by simp⟩
  | edge kind =>
    refine ⟨?_, ?_, ?_⟩
    · simp [resolutionContribution]
    · simp [resolutionContribution]
    · intro entry hentry
      simp only [resolutionContribution, Contribution.selectors_append, List.nil_append,
        List.mem_flatMap, List.mem_map] at hentry
      obtain ⟨target, -, interfaces, -, fact, -, rfl⟩ := hentry
      rfl

section

variable [Sha256] {context : ResolutionContext}

/-- What is known of the interface of a file. -/
def moduleOf (fileFacts : FactMap) (parserOptions : Str) (file : SourceFile) :
    Option ModuleInterface :=
  (fileFacts.get? (factKey file parserOptions)).map fun facts =>
    moduleInterface file facts.interfaces

theorem modules_fileContribution_eq (context : ResolutionContext) (file : SourceFile) :
    (fileContribution context file).modules
      = if context.index.go.logicalPath file ∈ context.interfacePaths then
          (moduleOf context.fileFacts context.parserOptions file).toList.map fun module =>
            (context.index.go.logicalPath file, module)
        else [] := by
  have hreferences (interfaces : Option InterfaceFacts) (references : List DependencyReference) :
      (Contribution.concat (references.map
        (referenceContribution context.index file interfaces))).modules = [] := by
    rw [modules_concat, List.flatMap_eq_nil_iff]
    intro c hc
    obtain ⟨reference, -, rfl⟩ := List.mem_map.mp hc
    rw [referenceContribution]
    cases referenceClass reference.kind <;> rfl
  rw [fileContribution, moduleOf]
  cases context.fileFacts.get? (factKey file context.parserOptions) with
  | none => simp
  | some facts =>
    dsimp only
    rw [Contribution.modules_append, hreferences, List.append_nil]
    split_ifs <;> rfl

theorem modules_fileContribution (context : ResolutionContext) (file : SourceFile) :
    (fileContribution context file).modules = []
      ∨ ∃ module, (fileContribution context file).modules
        = [(context.index.go.logicalPath file, module)] := by
  rw [modules_fileContribution_eq]
  split_ifs
  · cases moduleOf context.fileFacts context.parserOptions file with
    | none => exact Or.inl rfl
    | some module => exact Or.inr ⟨module, rfl⟩
  · exact Or.inl rfl

theorem fileContribution_ownedBy (context : ResolutionContext) (file : SourceFile) :
    (fileContribution context file).OwnedBy (context.index.go.logicalPath file) := by
  refine ⟨?_, ?_, ?_⟩
  · intro edge hedge
    rw [fileContribution] at hedge
    split at hedge
    · exact absurd hedge List.not_mem_nil
    · simp only [Contribution.edges_append, List.nil_append, edges_concat, List.mem_flatMap,
        List.mem_map] at hedge
      obtain ⟨c, ⟨reference, -, rfl⟩, hedge⟩ := hedge
      exact (referenceContribution_ownedBy _ _ _ _).edges edge hedge
  · intro entry hentry
    rcases modules_fileContribution context file with hnone | ⟨module, hone⟩
    · rw [hnone] at hentry
      exact absurd hentry List.not_mem_nil
    · rw [hone, List.mem_singleton] at hentry
      rw [hentry]
  · intro entry hentry
    rw [fileContribution] at hentry
    split at hentry
    · exact absurd hentry List.not_mem_nil
    · simp only [Contribution.selectors_append, List.nil_append, selectors_concat,
        List.mem_flatMap, List.mem_map] at hentry
      obtain ⟨c, ⟨reference, -, rfl⟩, hentry⟩ := hentry
      exact (referenceContribution_ownedBy _ _ _ _).selectors entry hentry

/-- Without Go packages every file is its own logical path. -/
def PlainPaths (context : ResolutionContext) : Prop :=
  ∀ path, context.index.go.logicalPathFor path = path

theorem PlainPaths.ownedBy (h : PlainPaths context) (file : SourceFile) :
    (fileContribution context file).OwnedBy file.path := by
  have := fileContribution_ownedBy context file
  rwa [Go.Index.logicalPath, h] at this

theorem PlainPaths.avoids (h : PlainPaths context) {files : List SourceFile} {path : RepoPath}
    (hpath : ∀ file ∈ files, file.path ≠ path) : (viewContribution context files).Avoids path := by
  refine ⟨?_, ?_, ?_⟩
  · intro edge hedge
    rw [viewContribution, edges_concat, List.mem_flatMap] at hedge
    obtain ⟨c, hc, hedge⟩ := hedge
    obtain ⟨file, hfile, rfl⟩ := List.mem_map.mp hc
    rw [(h.ownedBy file).edges edge hedge]
    exact hpath file hfile
  · intro entry hentry
    rw [viewContribution, modules_concat, List.mem_flatMap] at hentry
    obtain ⟨c, hc, hentry⟩ := hentry
    obtain ⟨file, hfile, rfl⟩ := List.mem_map.mp hc
    rw [(h.ownedBy file).modules entry hentry]
    exact hpath file hfile
  · intro entry hentry
    rw [viewContribution, selectors_concat, List.mem_flatMap] at hentry
    obtain ⟨c, hc, hentry⟩ := hentry
    obtain ⟨file, hfile, rfl⟩ := List.mem_map.mp hc
    rw [(h.ownedBy file).selectors entry hentry]
    exact hpath file hfile

/-- No two files of a view share a module. -/
theorem PlainPaths.nodup_modules (h : PlainPaths context) {files : List SourceFile}
    (hnodup : (files.map SourceFile.path).Nodup) :
    ((viewContribution context files).modules.map Prod.fst).Nodup := by
  refine List.Nodup.sublist ?_ hnodup
  rw [viewContribution, modules_concat]
  clear hnodup
  induction files with
  | nil => exact .refl _
  | cons file files ih =>
    rw [List.map_cons, List.flatMap_cons, List.map_append, List.map_cons]
    rcases modules_fileContribution context file with hnone | ⟨module, hone⟩
    · rw [hnone]
      exact ih.cons _
    · rw [hone, Go.Index.logicalPath, h]
      exact ih.cons_cons _

theorem totals_projectFile {file : SourceFile}
    (hfit : (fileContribution context file).Fits) :
    Totals (startProjection ((∅ : BTreeSet RepoPath).insert file.path) 1 0)
      (fileContribution context file) (projectFile file context) := by
  rw [projectFile_eq]
  apply totals_absorb _ _ _ hfit
  rcases modules_fileContribution context file with hnone | ⟨module, hone⟩
  · simp [hnone]
  · simp [hone]

/-! ## One changed file -/

/-- The views of a run of edits have distinct paths. -/
theorem PlainPaths.replace_file (h : PlainPaths context) {nodes : BTreeSet RepoPath}
    {files configurationErrors : Nat} {l l' : List SourceFile} {b a : SourceFile} {P : Projection}
    (hpath : a.path = b.path) (hnodup : ((l ++ b :: l').map SourceFile.path).Nodup)
    (hP : Totals (startProjection nodes (files + 1) configurationErrors)
      (viewContribution context (l ++ b :: l')) P)
    (hgaps : (fileContribution context b).gaps = [])
    (hfit : (viewContribution context (l ++ b :: l')).Fits) :
    ((viewContribution context (l ++ a :: l')).Fits →
      Totals (startProjection nodes (files + 1) configurationErrors)
        (viewContribution context (l ++ a :: l'))
        (addContribution (subtractContribution P (projectFile b context)) (projectFile a context)))
    ∧ (¬ (viewContribution context (l ++ a :: l')).Fits →
      Marked
        (addContribution (subtractContribution P (projectFile b context))
          (projectFile a context))) := by
  have hmiddle (file : SourceFile) : Contribution.Same (viewContribution context (l ++ file :: l'))
      (viewContribution context (l ++ l') ++ fileContribution context file) := by
    simp only [viewContribution, List.map_append, List.map_cons]
    exact concat_middle _ _ _
  have hothers : ∀ file ∈ l ++ l', file.path ≠ b.path := by
    intro file hfile heq
    rw [List.map_append, List.map_cons] at hnodup
    have hmem : b.path ∈ l.map SourceFile.path ++ l'.map SourceFile.path := by
      rw [← List.map_append, ← heq]
      exact List.mem_map_of_mem hfile
    exact (List.nodup_middle.mp hnodup).notMem hmem
  have hrest := h.avoids hothers
  have hfits := (hmiddle b).fits_iff.mp hfit
  have hsubtract := ((hmiddle b).totals hP).subtract (totals_projectFile hfits.right) hrest
    (h.ownedBy b) hgaps
  by_cases ha : (fileContribution context a).Fits
  · have hadd := totals_projectFile ha
    refine ⟨fun hroom => ?_, fun hover => ?_⟩
    · have howned := h.ownedBy a
      rw [hpath] at howned
      exact (hmiddle a).symm.totals
        (hsubtract.add hadd hrest howned ((hmiddle a).fits_iff.mp hroom))
    · exact hsubtract.marked_add hadd hfits.left fun hroom => hover ((hmiddle a).fits_iff.mpr hroom)
  · -- The new contribution alone does not fit.
    refine ⟨fun hroom => absurd ((hmiddle a).fits_iff.mp hroom).right ha, fun _ => ?_⟩
    apply marked_addContribution
    right
    rw [projectFile_eq]
    exact marked_absorb _ _ _ ha

/-- The contribution of a file depends on its path, its mode and its key. -/
theorem fileContribution_congr {a b : SourceFile} (hpath : a.path = b.path)
    (hmode : a.languageMode = b.languageMode)
    (hkey : factKey a context.parserOptions = factKey b context.parserOptions) :
    fileContribution context a = fileContribution context b := by
  have hmodule : moduleInterface a = moduleInterface b := by
    funext facts
    simp only [moduleInterface, hmode]
  have hreference : referenceContribution context.index a = referenceContribution context.index b := by
    funext interfaces reference
    have hresolve : resolveEdgeReference context.index a reference
        = resolveEdgeReference context.index b reference := by
      simp only [resolveEdgeReference, Python.resolve, hpath]
    simp only [referenceContribution, Go.Index.logicalPath, hpath, hresolve]
  rw [fileContribution, fileContribution, hkey]
  cases context.fileFacts.get? (factKey b context.parserOptions) with
  | none => rfl
  | some facts =>
    have hlogical : context.index.go.logicalPath a = context.index.go.logicalPath b := by
      rw [Go.Index.logicalPath, Go.Index.logicalPath, hpath]
    dsimp only
    rw [hmodule, hreference, hlogical]

/-- What updating one more path does to the projection and to the view. -/
theorem updateChangedImporter_cases {before after : SourceSnapshot} {updated : List RepoPath}
    {path : RepoPath} (hmodes : KeepsModes before after context.parserOptions)
    (hfresh : path ∉ updated) (P : Projection) :
    (updateChangedImporter before after context P path = P
      ∧ viewContribution context (mixedView before after (updated ++ [path]))
        = viewContribution context (mixedView before after updated))
    ∨ ∃ l l' b a, before.read path = some b ∧ after.read path = some a
      ∧ mixedView before after updated = l ++ b :: l'
      ∧ mixedView before after (updated ++ [path]) = l ++ a :: l'
      ∧ updateChangedImporter before after context P path
        = addContribution (subtractContribution P (projectFile b context))
          (projectFile a context) := by
  cases hb : before.read path with
  | none =>
    refine Or.inl ⟨by simp [updateChangedImporter, hb], ?_⟩
    rw [mixedView_snoc_of_getD]
    intro file hfile hpath
    rw [SourceSnapshot.mem_fileList, hpath, hb] at hfile
    exact absurd hfile (by simp)
  | some b =>
    cases ha : after.read path with
    | none =>
      refine Or.inl ⟨by simp [updateChangedImporter, ha], ?_⟩
      rw [mixedView_snoc_of_getD]
      intro file _ _
      rw [ha]
      rfl
    | some a =>
      obtain ⟨l, l', hold, hnew⟩ := mixedView_snoc_of_read hfresh hb ha
      by_cases hkey : factKey b context.parserOptions = factKey a context.parserOptions
      · left
        have hsame : fileContribution context a = fileContribution context b :=
          fileContribution_congr
            ((SourceSnapshot.path_of_read ha).trans (SourceSnapshot.path_of_read hb).symm)
            (hmodes path b a hb ha (Or.inr hkey)).symm hkey.symm
        refine ⟨by simp [updateChangedImporter, ha, hb, hkey], ?_⟩
        simp only [hold, hnew, viewContribution, List.map_append, List.map_cons, hsame]
      · refine Or.inr ⟨l, l', b, a, rfl, rfl, hold, hnew, ?_⟩
        simp [updateChangedImporter, ha, hb, hkey]

/-- A mark outlives every later update. -/
theorem marked_foldl_update {before after : SourceSnapshot} {P : Projection} (h : Marked P)
    (paths : List RepoPath) :
    Marked (paths.foldl (updateChangedImporter before after context) P) := by
  refine List.foldlRecOn _ _ (motive := Marked) h fun P hP path _ => ?_
  rw [updateChangedImporter]
  split
  · split_ifs
    · exact hP
    · exact marked_addContribution (Or.inl (marked_subtractContribution hP _))
  · exact hP

section

variable {before after : SourceSnapshot} {nodes : BTreeSet RepoPath} {configurationErrors : Nat}

/-- One more path: the totals move on to the next view, or there is a mark. -/
theorem PlainPaths.update (h : PlainPaths context)
    (hmodes : KeepsModes before after context.parserOptions)
    (hgaps : ∀ file ∈ before.fileList, (fileContribution context file).gaps = [])
    {updated : List RepoPath} {path : RepoPath} (hfresh : path ∉ updated) {P : Projection}
    (hP : Totals (startProjection nodes before.len configurationErrors)
      (viewContribution context (mixedView before after updated)) P)
    (hfit : (viewContribution context (mixedView before after updated)).Fits) :
    ((viewContribution context (mixedView before after (updated ++ [path]))).Fits →
      Totals (startProjection nodes before.len configurationErrors)
        (viewContribution context (mixedView before after (updated ++ [path])))
        (updateChangedImporter before after context P path))
    ∧ (¬ (viewContribution context (mixedView before after (updated ++ [path]))).Fits →
      Marked (updateChangedImporter before after context P path)) := by
  rcases updateChangedImporter_cases hmodes hfresh P with
    ⟨hupdate, hview⟩ | ⟨l, l', b, a, hb, ha, hold, hnew, hupdate⟩
  · rw [hupdate, hview]
    exact ⟨fun _ => hP, fun hover => absurd hfit hover⟩
  · have hmem : b ∈ before.fileList := by
      rw [SourceSnapshot.mem_fileList, SourceSnapshot.path_of_read hb]
      exact hb
    obtain ⟨files, hfiles⟩ : ∃ files, before.len = files + 1 := by
      apply Nat.exists_eq_succ_of_ne_zero
      rw [← before.length_fileList]
      exact fun hzero => List.not_mem_nil (List.length_eq_zero_iff.mp hzero ▸ hmem)
    have hnodup : ((l ++ b :: l').map SourceFile.path).Nodup := by
      rw [← hold, map_path_mixedView]
      exact before.sorted_paths.imp ne_of_lt
    have hpath : a.path = b.path :=
      (SourceSnapshot.path_of_read ha).trans (SourceSnapshot.path_of_read hb).symm
    rw [hold] at hP hfit
    rw [hfiles] at hP ⊢
    rw [hupdate, hnew]
    exact h.replace_file hpath hnodup hP (hgaps b hmem) hfit

/-- All paths: the totals of the last view if every view on the way fits, and a mark if not. -/
theorem PlainPaths.foldl_update (h : PlainPaths context)
    (hmodes : KeepsModes before after context.parserOptions)
    (hgaps : ∀ file ∈ before.fileList, (fileContribution context file).gaps = [])
    {paths updated : List RepoPath} (hnodup : (updated ++ paths).Nodup) {P : Projection}
    (hP : Totals (startProjection nodes before.len configurationErrors)
      (viewContribution context (mixedView before after updated)) P)
    (hfit : (viewContribution context (mixedView before after updated)).Fits) :
    ((∀ n, (viewContribution context (mixedView before after (updated ++ paths.take n))).Fits) →
      Totals (startProjection nodes before.len configurationErrors)
        (viewContribution context (mixedView before after (updated ++ paths)))
        (paths.foldl (updateChangedImporter before after context) P))
    ∧ ((∃ n, ¬ (viewContribution context (mixedView before after (updated ++ paths.take n))).Fits) →
      Marked (paths.foldl (updateChangedImporter before after context) P)) := by
  induction paths generalizing updated P with
  | nil =>
    simp only [List.append_nil, List.take_nil, List.foldl_nil]
    exact ⟨fun _ => hP, fun ⟨_, hover⟩ => absurd hfit hover⟩
  | cons path paths ih =>
    have hfresh : path ∉ updated := by
      intro hin
      exact (List.nodup_append.mp hnodup).2.2 path hin path (List.mem_cons_self ..) rfl
    have hstep := h.update hmodes hgaps hfresh hP hfit
    have hassoc (rest : List RepoPath) : updated ++ path :: rest = (updated ++ [path]) ++ rest := by
      simp
    rw [hassoc] at hnodup ⊢
    rw [List.foldl_cons]
    by_cases hnext : (viewContribution context (mixedView before after (updated ++ [path]))).Fits
    · have hrest := ih hnodup (hstep.1 hnext) hnext
      refine ⟨fun hall => hrest.1 fun n => ?_, fun ⟨n, hover⟩ => hrest.2 ?_⟩
      · have hn := hall (n + 1)
        rwa [List.take_succ_cons, hassoc] at hn
      · -- The first view fits, so the one that does not comes later.
        cases n with
        | zero =>
          rw [List.take_zero, List.append_nil] at hover
          exact absurd hfit hover
        | succ n =>
          rw [List.take_succ_cons, hassoc] at hover
          exact ⟨n, hover⟩
    · refine ⟨fun hall => ?_, fun _ => marked_foldl_update (hstep.2 hnext) paths⟩
      have hone := hall 1
      rw [List.take_succ_cons, List.take_zero] at hone
      exact absurd hone hnext

end

/-! ## Pairs of views -/

namespace PairInput

variable {input : PairInput}

/-- What the callers of `project_pair` see to: the identity tells the two views
    apart, and the mode of a file follows from its path and bytes. -/
structure Consistent (input : PairInput) : Prop where
  views : input.before.id = input.after.id → input.before = input.after
  modes : KeepsModes input.before input.after input.parserOptions

/-- The after view projected from scratch. -/
def fullProjection (input : PairInput) : Projection :=
  projectWithIndex input.after
    (input.context input.afterIndex
      (Resolver.interfacePaths input.afterIndex input.interfacePaths input.metadataChanged))

/-- The context in which a projection is edited. -/
def editContext (input : PairInput) : ResolutionContext :=
  input.context input.beforeIndex input.interfacePaths

/-- The contribution of the view in which the first `n` changed paths are updated. -/
def contributionAfter (input : PairInput) (n : Nat) : Contribution :=
  viewContribution input.editContext
    (mixedView input.before input.after (input.interfacePaths.elems.take n))

/-- Where a projection is edited, every view on the way fits. -/
def FitsOnTheWay (input : PairInput) : Prop :=
  input.viewsMatch = false → input.fullProjectionRequired = false →
    ∀ n, (input.contributionAfter n).Fits

theorem incrementalSafe_of_not_required (h : input.fullProjectionRequired = false) :
    input.incrementalSafe = true := by
  simp only [fullProjectionRequired, Bool.or_eq_false_iff, Bool.not_eq_false'] at h
  exact h.1.1.1.1

theorem go_beforeIndex (h : input.incrementalSafe = true) : input.beforeIndex.go = {} := by
  obtain ⟨hgo, -, hmodules, -⟩ := no_go_of_safe h
  rw [beforeIndex, go_new, hmodules, goIndex_of_no_go hgo]

theorem plainPaths_editContext (h : input.incrementalSafe = true) :
    PlainPaths input.editContext := by
  intro path
  change input.beforeIndex.go.logicalPathFor path = path
  rw [go_beforeIndex h]
  rfl

theorem metadataChanged_of_safe (h : input.incrementalSafe = true) :
    input.metadataChanged = false := by
  obtain ⟨-, -, hbefore, hafter⟩ := no_go_of_safe h
  simp [metadataChanged, hbefore, hafter]

theorem interfacePaths_of_safe (h : input.incrementalSafe = true) :
    Resolver.interfacePaths input.beforeIndex input.interfacePaths input.metadataChanged
      = input.interfacePaths := by
  rw [metadataChanged_of_safe h, Resolver.interfacePaths]
  apply BTreeSet.ext_mem
  intro path
  simp only [Bool.false_eq_true, if_false, BTreeSet.mem_map, go_beforeIndex h]
  constructor
  · rintro ⟨_, hmem, rfl⟩
    exact hmem
  · exact fun hmem => ⟨path, hmem, rfl⟩

/-- The projection that is edited. -/
theorem beforeProjection_eq (h : input.incrementalSafe = true) :
    input.beforeProjection
      = absorb
        (startProjection input.beforeIndex.languages.keySet input.before.len
          input.beforeIndex.go.configurationErrors)
        (viewContribution input.editContext input.before.fileList) := by
  rw [beforeProjection, beforeInterfacePaths, interfacePaths_of_safe h]
  exact projectWithIndex_eq _ _

theorem fullProjection_eq (h : input.incrementalSafe = true)
    (hmodes : KeepsModes input.before input.after input.parserOptions) :
    input.fullProjection
      = absorb
        (startProjection input.beforeIndex.languages.keySet input.before.len
          input.beforeIndex.go.configurationErrors)
        (viewContribution input.editContext input.after.fileList) := by
  have hlen : input.after.len = input.before.len := by
    have hcan := canIncrementallyProject_of_safe h
    rw [canIncrementallyProject, Bool.and_eq_true, decide_eq_true_eq] at hcan
    exact hcan.1.symm
  rw [fullProjection, afterIndex_eq_beforeIndex h hmodes, interfacePaths_of_safe h, ← hlen]
  exact projectWithIndex_eq _ _

/-- With all changed paths updated, every file contributes what it does after the change. -/
theorem contribution_all_updated (h : input.incrementalSafe = true)
    (hmodes : KeepsModes input.before input.after input.parserOptions) :
    viewContribution input.editContext
        (mixedView input.before input.after input.interfacePaths.elems)
      = viewContribution input.editContext input.after.fileList := by
  have hfiles := forall₂_of_canIncrementallyProject (canIncrementallyProject_of_safe h)
  -- The after view in terms of the before view.
  have hafter : input.after.fileList
      = input.before.fileList.map fun b => (input.after.read b.path).getD b := by
    have hread : ∀ a ∈ input.after.fileList, input.after.read a.path = some a := fun a ha =>
      SourceSnapshot.mem_fileList.mp ha
    generalize input.after.fileList = l' at hfiles hread
    generalize input.before.fileList = l at hfiles
    induction hfiles with
    | nil => rfl
    | @cons b a l l' hba _ ih =>
      rw [List.map_cons, hba.1, hread a (List.mem_cons_self ..),
        ← ih fun a' ha' => hread a' (List.mem_cons_of_mem _ ha')]
      rfl
  rw [hafter, viewContribution, viewContribution, mixedView, List.map_map, List.map_map]
  congr 1
  apply List.map_congr_left
  intro b hb
  rw [Function.comp_apply, Function.comp_apply]
  have hb := SourceSnapshot.mem_fileList.mp hb
  split_ifs with hchanged
  · rfl
  · obtain ⟨a, ha, -, hcontent⟩ := read_after_of_safe h hb
    have hcontent := hcontent.resolve_right hchanged
    have hmode := hmodes _ b a hb ha (Or.inl hcontent)
    have hkey : factKey b input.parserOptions = factKey a input.parserOptions := by
      rw [factKey, factKey, hcontent, hmode]
    rw [ha]
    exact fileContribution_congr (SourceSnapshot.path_of_read ha).symm hmode hkey

/-- A before view that fits and resolves is edited. -/
theorem fullProjectionRequired_of_fits (hsafe : input.incrementalSafe = true)
    (hfit : (viewContribution input.editContext input.before.fileList).Fits)
    (hgaps : (viewContribution input.editContext input.before.fileList).gaps = []) :
    input.fullProjectionRequired = false := by
  have hnodup : (input.before.fileList.map SourceFile.path).Nodup := by
    rw [input.before.map_path_fileList]
    exact input.before.sorted_paths.imp ne_of_lt
  have htotals := totals_absorb input.beforeIndex.languages.keySet input.before.len
    input.beforeIndex.go.configurationErrors hfit
    ((plainPaths_editContext hsafe).nodup_modules hnodup)
  rw [← beforeProjection_eq hsafe] at htotals
  have hempty : input.beforeProjection.resolutionGaps = ∅ := by
    rw [htotals.gaps, hgaps]
    rfl
  have hmore : input.beforeProjection.resolutionGapsTruncated = false := by
    rw [htotals.gapsTruncated, hgaps]
    rfl
  simp [fullProjectionRequired, hsafe, htotals.coverage, htotals.interfaceCoverage, hempty, hmore,
    BTreeSet.isEmpty]

/-- The after projection where it is edited out of the before projection. -/
theorem projectPair_of_edited (hviews : input.viewsMatch = false)
    (hrequired : input.fullProjectionRequired = false) :
    (projectPair input).2.1
      = input.interfacePaths.elems.foldl
        (updateChangedImporter input.before input.after input.editContext)
        input.beforeProjection := by
  have hsafe := incrementalSafe_of_not_required hrequired
  simp only [projectPair, hviews, projectChanged, hrequired, hsafe, Bool.false_eq_true, if_false,
    if_true, interfacePaths_of_safe hsafe]
  rfl

/-- The after projection where it is not edited is computed from scratch. -/
theorem projectPair_of_not_edited (hinput : input.Consistent)
    (h : input.viewsMatch = true ∨ input.fullProjectionRequired = true) :
    (projectPair input).2.1 = input.fullProjection := by
  by_cases hviews : input.viewsMatch = true
  · rw [projectPair, if_pos hviews]
    simp only [viewsMatch, Bool.and_eq_true, decide_eq_true_eq, Bool.not_eq_true'] at hviews
    have hview := hinput.views hviews.1
    have hmodules : input.goModules.before = input.goModules.after := by
      simpa [metadataChanged] using hviews.2
    simp only [beforeProjection, fullProjection, beforeInterfacePaths, beforeIndex, afterIndex,
      hview, hmodules]
  · have hrequired := h.resolve_left hviews
    rw [projectPair, if_neg hviews, projectChanged]
    simp only [hrequired, if_true]
    by_cases hsafe : input.incrementalSafe = true
    · simp only [hsafe, if_true, fullProjection, afterIndex_eq_beforeIndex hsafe hinput.modes]
    · simp only [hsafe, Bool.false_eq_true, if_false, fullProjection]

theorem contributionAfter_of_length_le (h : input.incrementalSafe = true)
    (hmodes : KeepsModes input.before input.after input.parserOptions) {n : Nat}
    (hn : input.interfacePaths.size ≤ n) :
    input.contributionAfter n = viewContribution input.editContext input.after.fileList := by
  rw [contributionAfter, List.take_of_length_le hn]
  exact contribution_all_updated h hmodes

/-- What editing gives: the totals of the after view, or a mark. -/
theorem edited_cases (hinput : input.Consistent) (hviews : input.viewsMatch = false)
    (hrequired : input.fullProjectionRequired = false) :
    ((∀ n, (input.contributionAfter n).Fits) →
      Totals
        (startProjection input.beforeIndex.languages.keySet input.before.len
          input.beforeIndex.go.configurationErrors)
        (viewContribution input.editContext input.after.fileList) (projectPair input).2.1)
    ∧ ((∃ n, ¬ (input.contributionAfter n).Fits) → Marked (projectPair input).2.1) := by
  rw [projectPair_of_edited hviews hrequired]
  have hsafe := incrementalSafe_of_not_required hrequired
  have hplain := plainPaths_editContext hsafe
  have hnodup : (input.before.fileList.map SourceFile.path).Nodup := by
    rw [input.before.map_path_fileList]
    exact input.before.sorted_paths.imp ne_of_lt
  have hstart : mixedView input.before input.after [] = input.before.fileList := by
    simp [mixedView]
  -- The before projection carries no mark and no gap.
  simp only [fullProjectionRequired, Bool.or_eq_false_iff, Bool.not_eq_false'] at hrequired
  obtain ⟨⟨⟨⟨-, hedges⟩, hgaps⟩, -⟩, hselectors⟩ := hrequired
  have hfit : (viewContribution input.editContext input.before.fileList).Fits := by
    by_contra hover
    have hmarked := marked_absorb input.beforeIndex.languages.keySet input.before.len
      input.beforeIndex.go.configurationErrors hover
    rw [← beforeProjection_eq hsafe] at hmarked
    rcases hmarked with hmarked | hmarked
    · simp [hedges] at hmarked
    · simp [hselectors] at hmarked
  have htotals := totals_absorb input.beforeIndex.languages.keySet input.before.len
    input.beforeIndex.go.configurationErrors hfit (hplain.nodup_modules hnodup)
  rw [← beforeProjection_eq hsafe] at htotals
  have hnoGaps : ∀ file ∈ input.before.fileList,
      (fileContribution input.editContext file).gaps = [] := by
    have hempty := htotals.gaps.symm.trans (BTreeSet.isEmpty_iff.mp hgaps)
    have hnone := eq_nil_of_initial_eq_empty (by decide) hempty
    rw [viewContribution, gaps_concat, List.flatMap_eq_nil_iff] at hnone
    exact fun file hfile => hnone _ (List.mem_map_of_mem hfile)
  rw [← hstart] at htotals hfit
  have hrun := hplain.foldl_update hinput.modes hnoGaps
    (show ([] ++ input.interfacePaths.elems).Nodup from input.interfacePaths.nodup_elems)
    htotals hfit
  simp only [List.nil_append, contribution_all_updated hsafe hinput.modes] at hrun
  exact hrun

theorem totals_fullProjection (hsafe : input.incrementalSafe = true)
    (hmodes : KeepsModes input.before input.after input.parserOptions)
    (hfit : (viewContribution input.editContext input.after.fileList).Fits) :
    Totals
      (startProjection input.beforeIndex.languages.keySet input.before.len
        input.beforeIndex.go.configurationErrors)
      (viewContribution input.editContext input.after.fileList) input.fullProjection := by
  have hnodup : (input.after.fileList.map SourceFile.path).Nodup := by
    rw [input.after.map_path_fileList]
    exact input.after.sorted_paths.imp ne_of_lt
  rw [fullProjection_eq hsafe hmodes]
  exact totals_absorb _ _ _ hfit ((plainPaths_editContext hsafe).nodup_modules hnodup)

/-- A mark made on the way is not there from scratch. -/
theorem edited_ne_full (hinput : input.Consistent) (hviews : input.viewsMatch = false)
    (hrequired : input.fullProjectionRequired = false)
    (hfit : (viewContribution input.editContext input.after.fileList).Fits)
    (hover : ∃ n, ¬ (input.contributionAfter n).Fits) :
    (projectPair input).2.1 ≠ input.fullProjection := by
  intro heq
  have hmarked := (edited_cases hinput hviews hrequired).2 hover
  rw [heq] at hmarked
  have hsafe := incrementalSafe_of_not_required hrequired
  exact (totals_fullProjection hsafe hinput.modes hfit).not_marked hmarked

end PairInput

/-- Editing the before projection computes the after projection as long as every
    view on the way fits the bounds, and where the after view fits, only then. -/
theorem projectPair_after_exact (input : PairInput) (hinput : input.Consistent) :
    (input.FitsOnTheWay → (projectPair input).2.1 = input.fullProjection)
      ∧ ((viewContribution input.editContext input.after.fileList).Fits →
        (projectPair input).2.1 = input.fullProjection → input.FitsOnTheWay) := by
  by_cases hedited : input.viewsMatch = false ∧ input.fullProjectionRequired = false
  · obtain ⟨hviews, hrequired⟩ := hedited
    have hsafe := PairInput.incrementalSafe_of_not_required hrequired
    refine ⟨fun hway => ?_, fun hfit heq _ _ => ?_⟩
    · have hall := hway hviews hrequired
      have hlast := hall input.interfacePaths.size
      rw [PairInput.contributionAfter_of_length_le hsafe hinput.modes le_rfl] at hlast
      exact ((PairInput.edited_cases hinput hviews hrequired).1 hall).unique
        (PairInput.totals_fullProjection hsafe hinput.modes hlast)
    · by_contra hover
      rw [not_forall] at hover
      exact PairInput.edited_ne_full hinput hviews hrequired hfit hover heq
  · have hnot : input.viewsMatch = true ∨ input.fullProjectionRequired = true := by
      rwa [not_and_or, Bool.not_eq_false, Bool.not_eq_false] at hedited
    refine ⟨fun _ => PairInput.projectPair_of_not_edited hinput hnot, fun _ _ hviews hrequired => ?_⟩
    exact absurd ⟨hviews, hrequired⟩ hedited

end

/-! ## A view on the way that does not fit

One file takes over the imports of another.  The first of them is updated
before the second one gives its imports up, and in between the selectors of
both are counted. -/

namespace Growth

/-- Names of three letters. -/
def name (i : Nat) : Str :=
  [UInt8.ofNat (97 + i / 676), UInt8.ofNat (97 + i / 26 % 26), UInt8.ofNat (97 + i % 26)]

/-- A file that imports `n` names from its neighbour `t`. -/
def text : Nat → Str
  | 0 => ascii "export \x7b\x7d;\n"
  | n + 1 =>
    ascii "import \x7b" ++ joinBytes (byte ',') ((List.range (n + 1)).map name)
      ++ ascii "\x7d from './t';\n"

def facts (n : Nat) : FileFacts where
  dependencies :=
    { status := .complete
      references := if n = 0 then [] else [⟨.nodeRuntime, ascii "./t", 0⟩] }
  interfaces :=
    { status := .complete
      publicSurfaceStatus := .complete
      imports := (List.range n).map fun i =>
        ⟨ascii "./t", 0, .import, .runtime, ⟨.named, name i⟩⟩ }

def repoPath (text : Str) : RepoPath := (RepoPath.new text).toOption.getD .requestMarker

def first : RepoPath := repoPath (ascii "a.ts")

def second : RepoPath := repoPath (ascii "b.ts")

def importer (i : Nat) : RepoPath :=
  repoPath ([byte 'f', UInt8.ofNat (48 + i / 10), UInt8.ofNat (48 + i % 10)] ++ ascii ".ts")

def target : RepoPath := repoPath (ascii "t.ts")

def file (entry : RepoPath × Nat) : SourceFile :=
  ⟨entry.1, text entry.2, .typeScript, ascii "typescript"⟩

/-- 97 files with as many imports as the facts of a file may have, and the target. -/
def others : List (RepoPath × Nat) :=
  (List.range 97).map (fun i => (importer i, 4096)) ++ [(target, 0)]

def entries (n m : Nat) : List (RepoPath × Nat) := (first, n) :: (second, m) :: others

def view (n m : Nat) : List SourceFile := (entries n m).map file

def paths : List RepoPath := first :: second :: others.map Prod.fst

theorem map_path_view (n m : Nat) : (view n m).map SourceFile.path = paths := by
  simp only [view, entries, List.map_cons, List.map_map, paths]
  rfl

theorem sorted_paths : paths.Pairwise (· < ·) := by
  rw [← List.isChain_iff_pairwise]
  decide +kernel

theorem name_injOn {i j : Nat} (hi : i < 4096) (hj : j < 4096) (h : name i = name j) : i = j := by
  have hvalue {k l : Nat} (hk : k < 256) (hl : l < 256) (hkl : UInt8.ofNat k = UInt8.ofNat l) :
      k = l := by
    have := congrArg UInt8.toNat hkl
    rwa [UInt8.toNat_ofNat_of_lt' hk, UInt8.toNat_ofNat_of_lt' hl] at this
  simp only [name, List.cons.injEq, and_true] at h
  have h₁ := hvalue (by omega) (by omega) h.1
  have h₂ := hvalue (by omega) (by omega) h.2.1
  have h₃ := hvalue (by omega) (by omega) h.2.2
  omega

theorem length_text_succ (n : Nat) : (text (n + 1)).length = 4 * n + 25 := by
  have hjoin (l : List Str) (hl : ∀ s ∈ l, s.length = 3) (hne : l ≠ []) :
      (joinBytes (byte ',') l).length + 1 = 4 * l.length := by
    induction l with
    | nil => exact absurd rfl hne
    | cons s l ih =>
      have hs := hl s (List.mem_cons_self ..)
      cases l with
      | nil => simp [joinBytes, hs]
      | cons s' l =>
        have := ih (fun x hx => hl x (List.mem_cons_of_mem _ hx)) (by simp)
        simp only [joinBytes, List.intercalate_cons_cons, List.length_append, List.length_cons,
          List.length_nil] at this ⊢
        omega
  have := hjoin ((List.range (n + 1)).map name) (by
    intro s hs
    obtain ⟨i, -, rfl⟩ := List.mem_map.mp hs
    rfl) (by simp)
  rw [text, List.length_append, List.length_append, show (ascii "import \x7b").length = 8 from rfl,
    show (ascii "\x7d from './t';\n").length = 14 from rfl]
  simp only [List.length_map, List.length_range] at this
  omega

/-- The key of a file with `n` imports. -/
def key (n : Nat) : FileFactKey :=
  letI := identityDigest
  FileFactKey.new (ContentId.of (text n)) (ascii "typescript") [] factAbi

theorem factKey_file (entry : RepoPath × Nat) :
    @factKey identityDigest (file entry) [] = key entry.2 := rfl

variable {n m : Nat}

theorem key_injective (h : key n = key m) : (text n).length = (text m).length := by
  have hlength := congrArg List.length h
  simp only [key, FileFactKey.new, hashDomain, domainEncoding,
    ContentId.of, Sha256.digest, id, List.flatMap_cons, List.flatMap_nil,
    List.length_append, List.length_nil, be64] at hlength
  simpa using hlength

def fileFacts : FactMap :=
  BTreeMap.ofList ([0, 2000, 2688, 4096].map fun n => (key n, facts n))

/-- The sizes of the texts differ, and so do their keys. -/
theorem get?_fileFacts {n : Nat} (hn : n ∈ [0, 2000, 2688, 4096]) :
    fileFacts.get? (key n) = some (facts n) := by
  have h₀ : (text 0).length = 11 := rfl
  have h₁ : (text 2000).length = 8021 := length_text_succ 1999
  have h₂ : (text 2688).length = 10773 := length_text_succ 2687
  have h₃ : (text 4096).length = 16405 := length_text_succ 4095
  have hkeys : (([0, 2000, 2688, 4096].map fun n => (key n, facts n)).map Prod.fst).Nodup := by
    have hlengths : ([0, 2000, 2688, 4096].map fun n => (text n).length).Nodup := by
      simp [h₀, h₁, h₂, h₃]
    rw [List.map_map]
    refine List.Nodup.map_on (fun n hn m hm heq => ?_) (by decide)
    exact List.inj_on_of_nodup_map hlengths hn hm (key_injective heq)
  rw [fileFacts, BTreeMap.get?_ofList_of_nodup hkeys]
  exact List.mem_map_of_mem hn

def input (size : Nat) : PairInput where
  before := SourceSnapshot.new (view 0 size)
  after := SourceSnapshot.new (view 2000 0)
  fileFacts := fileFacts
  parserOptions := []
  interfacePaths := ⟨paths, sorted_paths⟩
  goModules := {}

variable (size : Nat)

theorem fileList_view (n m : Nat) : (SourceSnapshot.new (view n m)).fileList = view n m :=
  SourceSnapshot.fileList_new (by
    rw [map_path_view]
    exact sorted_paths)

variable {path : RepoPath} {f : SourceFile}

theorem read_view (h : (SourceSnapshot.new (view n m)).read path = some f) :
    path ∈ paths ∧ ∃ k, (k = n ∨ k = m ∨ k = 4096 ∨ k = 0) ∧ f = file (path, k) := by
  have hpath := SourceSnapshot.path_of_read h
  have hmem : f ∈ view n m := by
    rw [← fileList_view, SourceSnapshot.mem_fileList, hpath]
    exact h
  refine ⟨?_, ?_⟩
  · rw [← map_path_view n m, ← hpath]
    exact List.mem_map_of_mem hmem
  · obtain ⟨⟨path', k⟩, hentry, rfl⟩ := List.mem_map.mp hmem
    refine ⟨k, ?_, ?_⟩
    · simp only [entries, others, List.mem_cons, List.mem_append, List.mem_map,
        List.not_mem_nil, or_false, Prod.mk.injEq] at hentry
      rcases hentry with ⟨-, rfl⟩ | ⟨-, rfl⟩ | ⟨_, -, -, rfl⟩ | ⟨-, rfl⟩ <;> simp
    · rw [← hpath]
      rfl

theorem keepsModes_input [Sha256] :
    KeepsModes (input size).before (input size).after (input size).parserOptions := by
  intro path b a hb ha _
  obtain ⟨-, k, -, rfl⟩ := read_view hb
  obtain ⟨-, l, -, rfl⟩ := read_view ha
  rfl

/-- The views differ in the first file, and so do their identities. -/
theorem id_ne (hsize : size = 0 ∨ size = 2688) : letI := identityDigest
    (input size).before.id ≠ (input size).after.id := by
  have h₁ : (text 2000).length = 8021 := length_text_succ 1999
  have h₂ : (text 2688).length = 10773 := length_text_succ 2687
  have hmanifest (n m : Nat) :
      @SourceSnapshot.manifest identityDigest (SourceSnapshot.new (view n m))
        = @SourceSnapshot.manifestEntry identityDigest first (file (first, n))
          ++ (@SourceSnapshot.manifestEntry identityDigest second (file (second, m))
            ++ (others.map file).flatMap fun f =>
              @SourceSnapshot.manifestEntry identityDigest f.path f) := by
    unfold SourceSnapshot.manifest
    rw [SourceSnapshot.entries_eq, fileList_view, List.flatMap_map]
    rfl
  have hentry (path : RepoPath) (n : Nat) :
      (@SourceSnapshot.manifestEntry identityDigest path (file (path, n))).length
        = path.bytes.length + 77 + (text n).length := by
    simp [SourceSnapshot.manifestEntry, file, SourceFile.contentId, ContentId.of, hashDomain,
      domainEncoding, be64, Sha256.digest, SourceSnapshot.languageName, ascii]
    omega
  have hid (snapshot : SourceSnapshot) : (@SourceSnapshot.id identityDigest snapshot).length
      = 41 + (@SourceSnapshot.manifest identityDigest snapshot).length := by
    simp [SourceSnapshot.id, hashDomain, domainEncoding, be64, Sha256.digest, ascii]
    omega
  intro h
  have hlength : (@SourceSnapshot.id identityDigest (SourceSnapshot.new (view 0 size))).length
      = (@SourceSnapshot.id identityDigest (SourceSnapshot.new (view 2000 0))).length :=
    congrArg List.length h
  rw [hid, hid, hmanifest, hmanifest] at hlength
  simp only [List.length_append, hentry] at hlength
  have h₀ : (text 0).length = 11 := rfl
  rcases hsize with rfl | rfl
  · omega
  · omega

theorem mem_zip_self {α : Type*} {l : List α} {p : α × α} (h : p ∈ l.zip l) :
    p.1 = p.2 ∧ p.1 ∈ l := by
  have hzip : l.zip l = l.map fun a => (a, a) := by
    simpa using @List.zip_map' α α α (fun a => a) (fun a => a) l
  rw [hzip] at h
  obtain ⟨a, ha, rfl⟩ := List.mem_map.mp h
  exact ⟨rfl, ha⟩

theorem canIncrementallyProject_input [Sha256] :
    canIncrementallyProject (input size).before (input size).after (input size).interfacePaths = true := by
  have hzip : ∀ p ∈ (entries 0 size).zip (entries 2000 0), p.1.1 = p.2.1 ∧ p.1.1 ∈ paths := by
    intro p hp
    simp only [entries, List.zip_cons_cons, List.mem_cons] at hp
    rcases hp with rfl | rfl | hp
    · exact ⟨rfl, List.mem_cons_self ..⟩
    · exact ⟨rfl, List.mem_cons_of_mem _ (List.mem_cons_self ..)⟩
    · obtain ⟨heq, hmem⟩ := mem_zip_self hp
      refine ⟨by rw [heq], ?_⟩
      exact List.mem_cons_of_mem _ (List.mem_cons_of_mem _ (List.mem_map_of_mem hmem))
  have hlen : (input size).before.len = (input size).after.len := by
    rw [← SourceSnapshot.length_fileList, ← SourceSnapshot.length_fileList]
    change (SourceSnapshot.new (view 0 size)).fileList.length
      = (SourceSnapshot.new (view 2000 0)).fileList.length
    rw [fileList_view, fileList_view, view, view, List.length_map, List.length_map]
    rfl
  simp only [canIncrementallyProject, hlen, decide_true, Bool.true_and, List.all_eq_true]
  intro p hp
  change p ∈ (SourceSnapshot.new (view 0 size)).fileList.zip
    (SourceSnapshot.new (view 2000 0)).fileList at hp
  rw [fileList_view, fileList_view, view, view, List.zip_map] at hp
  obtain ⟨⟨x, y⟩, hxy, rfl⟩ := List.mem_map.mp hp
  obtain ⟨hpath, hmem⟩ := hzip _ hxy
  simp only [Prod.map, file, Bool.and_eq_true, decide_eq_true_eq, Bool.or_eq_true]
  exact ⟨⟨decide_eq_true hpath, trivial⟩, Or.inr (decide_eq_true hmem)⟩

theorem language_view (h : f ∈ view n m) : f.language = .typeScript := by
  obtain ⟨entry, -, rfl⟩ := List.mem_map.mp h
  rfl

theorem incrementalSafe_input [Sha256] : (input size).incrementalSafe = true := by
  have hbefore : ∀ f ∈ (input size).before.fileList, f.language = .typeScript := fun f hf =>
    language_view (fileList_view 0 size ▸ hf)
  have hafter : ∀ f ∈ (input size).after.fileList, f.language = .typeScript := fun f hf =>
    language_view (fileList_view 2000 0 ▸ hf)
  have hgo : (input size).beforeIndex.go.hasGo = false := by
    have hbuild : Go.Index.build (input size).before ∅ = {} :=
      goIndex_of_no_go fun f hf => by simp [hbefore f hf]
    rw [PairInput.beforeIndex, go_new, show (input size).goModules.before = ∅ from rfl, hbuild]
  have hsensitive : (input size).goSensitive = false := by
    simp only [PairInput.goSensitive, hgo, Bool.false_or, Bool.or_eq_false_iff,
      List.any_eq_false, Bool.not_eq_false']
    refine ⟨⟨fun f hf => by simp [hafter f hf], rfl⟩, rfl⟩
  have hstable : Rust.indexIsStable (input size).before (input size).after
      (input size).interfacePaths = true := by
    rw [Rust.indexIsStable, List.all_eq_true]
    intro path _
    have hnone (snapshot : SourceSnapshot)
        (hfiles : ∀ f ∈ snapshot.fileList, f.language = .typeScript) :
        (snapshot.read path).any (·.language = .rust) = false := by
      cases hread : snapshot.read path with
      | none => rfl
      | some f =>
        have hmem : f ∈ snapshot.fileList := by
          rw [SourceSnapshot.mem_fileList, SourceSnapshot.path_of_read hread]
          exact hread
        simp [hfiles f hmem]
    simp [hnone _ hbefore, hnone _ hafter]
  simp [PairInput.incrementalSafe, canIncrementallyProject_input, hstable, hsensitive]

theorem get?_addCandidate_of_ne {aliases : BTreeMap Str Candidate} {key name : Str}
    (h : name ≠ key) : (addCandidate aliases key path).get? name = aliases.get? name := by
  rw [addCandidate]
  split
  · rw [BTreeMap.get?_insert, if_neg h]
  · split_ifs
    · rfl
    · rw [BTreeMap.get?_insert, if_neg h]
  · rfl

variable {index : ResolutionIndex}

/-- A TypeScript file is an alias under its stem. -/
theorem nodeAliases_addFile {path stem : Str}
    (hlanguage : f.language = .typeScript) (hpath : f.path.asUtf8 = some path)
    (hstem : stripLanguageSuffix path .typeScript = some stem)
    (hindex : stripSuffix (ascii "/index") stem = none) :
    (index.addFile f).nodeAliases = addCandidate index.nodeAliases stem f.path := by
  simp [ResolutionIndex.addFile, hpath, hlanguage, addSourceAliases, hstem, hindex]

/-- Every path is valid text and its stem names the target only for the target. -/
theorem stem_paths : ∀ path ∈ paths, ∃ text stem, path.asUtf8 = some text
    ∧ stripLanguageSuffix text .typeScript = some stem
    ∧ stripSuffix (ascii "/index") stem = none ∧ (stem = ascii "t" ↔ path = target) := by
  have hcheck : ∀ path ∈ paths, (path.asUtf8.bind fun text =>
      stripLanguageSuffix text .typeScript).any (fun stem =>
        (stripSuffix (ascii "/index") stem).isNone
          && (decide (stem = ascii "t") == decide (path = target))) = true := by
    decide +kernel
  intro path hpath
  have h := hcheck path hpath
  rw [Option.any_eq_true] at h
  obtain ⟨stem, hbind, hstem⟩ := h
  obtain ⟨text, htext, hsuffix⟩ := Option.bind_eq_some_iff.mp hbind
  rw [Bool.and_eq_true, Option.isNone_iff_eq_none, beq_iff_eq, decide_eq_decide] at hstem
  exact ⟨text, stem, htext, hsuffix, hstem.1, hstem.2⟩

theorem foldl_nodeAliases {l : List SourceFile}
    (h : ∀ f ∈ l, f.language = .typeScript ∧ f.path ∈ paths ∧ f.path ≠ target) :
    (l.foldl ResolutionIndex.addFile index).nodeAliases.get? (ascii "t")
      = index.nodeAliases.get? (ascii "t") := by
  induction l generalizing index with
  | nil => rfl
  | cons f l ih =>
    obtain ⟨hlanguage, hpaths, htarget⟩ := h f (List.mem_cons_self ..)
    obtain ⟨text, stem, htext, hstem, hindex, hiff⟩ := stem_paths f.path hpaths
    rw [List.foldl_cons, ih fun g hg => h g (List.mem_cons_of_mem _ hg),
      nodeAliases_addFile hlanguage htext hstem hindex, get?_addCandidate_of_ne]
    intro heq
    exact htarget (hiff.mp heq.symm)

theorem nodeAliases_new [Sha256] (snapshot : SourceSnapshot) (fileFacts : FactMap)
    (parserOptions : Str) (goModules : BTreeMap RepoPath Str) :
    ∃ start : ResolutionIndex, start.nodeAliases = ∅
      ∧ (ResolutionIndex.new snapshot fileFacts parserOptions goModules).nodeAliases
        = (snapshot.fileList.foldl ResolutionIndex.addFile start).nodeAliases :=
  ⟨{ languages := _, go := _ }, rfl, rfl⟩

/-- The import of every file resolves to the target. -/
theorem alias_target [Sha256] :
    (input size).beforeIndex.nodeAliases.get? (ascii "t") = some (.unique target) := by
  have hsplit : view 0 size
      = (((first, 0) :: (second, size) :: (List.range 97).map fun i => (importer i, 4096)).map file)
        ++ [file (target, 0)] := by
    simp [view, entries, others]
  have hrest : ∀ f ∈ (((first, 0) :: (second, size)
      :: (List.range 97).map fun i => (importer i, 4096)).map file),
      f.language = .typeScript ∧ f.path ∈ paths ∧ f.path ≠ target := by
    intro f hf
    have hview : f ∈ view 0 size := hsplit ▸ List.mem_append_left _ hf
    refine ⟨language_view hview, ?_, fun heq => ?_⟩
    · rw [← map_path_view 0 size]
      exact List.mem_map_of_mem hview
    · -- The target comes last and only once.
      have hnodup : ((view 0 size).map SourceFile.path).Nodup := by
        rw [map_path_view]
        exact sorted_paths.imp ne_of_lt
      rw [hsplit, List.map_append, List.nodup_append] at hnodup
      exact hnodup.2.2 f.path (List.mem_map_of_mem hf) target (List.mem_singleton.mpr rfl) heq
  have htarget : target ∈ paths := by
    have hmem : (target, 0) ∈ others := List.mem_append_right _ (List.mem_singleton.mpr rfl)
    exact List.mem_cons_of_mem _ (List.mem_cons_of_mem _ (List.mem_map_of_mem hmem))
  obtain ⟨text, stem, htext, hstem, hindex, hiff⟩ := stem_paths target htarget
  have hname : stem = ascii "t" := hiff.mpr rfl
  have hfiles : (input size).before.fileList = view 0 size := fileList_view 0 size
  obtain ⟨start, hstart, hnew⟩ := nodeAliases_new (input size).before (input size).fileFacts
    (input size).parserOptions (input size).goModules.before
  rw [PairInput.beforeIndex, hnew, hfiles, hsplit, List.foldl_append, List.foldl_cons,
    List.foldl_nil, nodeAliases_addFile rfl htext hstem hindex, hname, addCandidate,
    foldl_nodeAliases hrest, hstart]
  exact BTreeMap.get?_insert_self

theorem normalizedRelative_paths :
    ∀ path ∈ paths, normalizedRelative path (ascii "./t") 0 = some (ascii "t") := by
  decide +kernel

/-- A relative specifier without a suffix is looked up among the aliases. -/
theorem resolveNode_of_alias {specifier base : Str}
    (hbuiltin : isPinnedBuiltin specifier = false) (hrelative : isRelativeSpecifier specifier = true)
    (hplain : (specifier.any fun b => b = byte '?' || b = byte '#' || b = byte '\\') = false)
    (hbase : normalizedRelative path specifier 0 = some base)
    (hsuffix : ((stripLanguageSuffix base .typeScript).isSome
      || (stripLanguageSuffix base .javaScript).isSome) = false) :
    resolveNode path specifier index = aliasResolution (index.nodeAliases.get? base) := by
  simp only [resolveNode, hbuiltin, hrelative, hplain, hbase, hsuffix, Bool.false_eq_true, if_false,
    Bool.not_true]

theorem resolve_target [Sha256] {f : SourceFile} (hpath : f.path ∈ paths) :
    resolveEdgeReference (input size).beforeIndex f ⟨.nodeRuntime, ascii "./t", 0⟩
      = .resolved target := by
  have hresolve : resolveNode f.path (ascii "./t") (input size).beforeIndex
      = aliasResolution ((input size).beforeIndex.nodeAliases.get? (ascii "t")) :=
    resolveNode_of_alias (by decide +kernel) (by decide +kernel) (by decide +kernel)
      (normalizedRelative_paths f.path hpath) (by decide +kernel)
  rw [alias_target] at hresolve
  exact hresolve

/-- The contribution of a file whose only reference is a resolved Node import. -/
theorem fileContribution_import [Sha256] {context : ResolutionContext} {f : SourceFile}
    {fileFacts : FileFacts} {specifier : Str} {target : RepoPath}
    (hfacts : context.fileFacts.get? (factKey f context.parserOptions) = some fileFacts)
    (hlogical : context.index.go.logicalPath f = f.path) (hchanged : f.path ∈ context.interfacePaths)
    (hreferences : fileFacts.dependencies.references = [⟨.nodeRuntime, specifier, 0⟩])
    (hresolve : resolveEdgeReference context.index f ⟨.nodeRuntime, specifier, 0⟩
      = .resolved target)
    (himports : ∀ fact ∈ fileFacts.interfaces.imports, fact.specifier = specifier ∧ fact.level = 0) :
    (fileContribution context f).edges = [⟨f.path, target, .runtime⟩]
      ∧ (fileContribution context f).gaps = []
      ∧ (fileContribution context f).selectors = fileFacts.interfaces.imports.map fun fact =>
        (⟨f.path, target, fact.namespace⟩, fact.selector) := by
  have hall : referencedImports ⟨.nodeRuntime, specifier, 0⟩ fileFacts.interfaces
      = fileFacts.interfaces.imports := by
    rw [referencedImports]
    exact List.filter_eq_self.mpr fun fact hfact => by simp [himports fact hfact]
  rw [fileContribution, hfacts]
  simp [hlogical, hchanged, hreferences, referenceContribution, referenceClass,
    resolutionContribution, hresolve, Resolution.target?, Resolution.gapKind, hall]

theorem fileContribution_idle [Sha256] {context : ResolutionContext} {f : SourceFile}
    {fileFacts : FileFacts}
    (hfacts : context.fileFacts.get? (factKey f context.parserOptions) = some fileFacts)
    (hreferences : fileFacts.dependencies.references = []) :
    (fileContribution context f).edges = [] ∧ (fileContribution context f).gaps = []
      ∧ (fileContribution context f).selectors = [] := by
  rw [fileContribution, hfacts]
  simp [hreferences]

/-- A file contributes at most one edge, its names, and no gap. -/
theorem fileContribution_file {entry : RepoPath × Nat} (hpath : entry.1 ∈ paths)
    (hcount : entry.2 ∈ [0, 2000, 2688, 4096]) : letI := identityDigest
    (fileContribution (input size).editContext (file entry)).edges.length ≤ 1
      ∧ (fileContribution (input size).editContext (file entry)).gaps = []
      ∧ (fileContribution (input size).editContext (file entry)).selectors
        = (List.range entry.2).map fun i =>
          (⟨entry.1, target, .runtime⟩, ⟨.named, name i⟩) := by
  have hfacts : (input size).fileFacts.get? (@factKey identityDigest (file entry) (input size).parserOptions)
      = some (facts entry.2) := by
    rw [show (input size).fileFacts = fileFacts from rfl, show (input size).parserOptions = [] from rfl,
      factKey_file, get?_fileFacts hcount]
  by_cases hzero : entry.2 = 0
  · have hidle := @fileContribution_idle identityDigest
      (@PairInput.editContext identityDigest (input size)) (file entry) _ hfacts (by simp [facts, hzero])
    rw [hidle.1, hidle.2.1, hidle.2.2, hzero]
    exact ⟨Nat.zero_le _, rfl, rfl⟩
  · have himport := @fileContribution_import identityDigest
      (@PairInput.editContext identityDigest (input size)) (file entry) _ (ascii "./t") target hfacts
      (@PairInput.plainPaths_editContext identityDigest (input size)
        (@incrementalSafe_input size identityDigest) entry.1) hpath (by simp [facts, hzero])
      (@resolve_target size identityDigest (file entry) hpath) (by simp [facts])
    rw [himport.1, himport.2.1, himport.2.2]
    refine ⟨le_refl _, rfl, ?_⟩
    rw [facts, List.map_map]
    rfl

/-- The selectors of a list of files. -/
def selectorsOf (l : List (RepoPath × Nat)) : List (InterfaceEdgeKey × InterfaceSelector) :=
  l.flatMap fun entry => (List.range entry.2).map fun i =>
    (⟨entry.1, target, .runtime⟩, ⟨.named, name i⟩)

theorem viewContribution_files {l : List (RepoPath × Nat)}
    (h : ∀ entry ∈ l, entry.1 ∈ paths ∧ entry.2 ∈ [0, 2000, 2688, 4096]) : letI := identityDigest
    (viewContribution (input size).editContext (l.map file)).edges.length ≤ l.length
      ∧ (viewContribution (input size).editContext (l.map file)).gaps = []
      ∧ (viewContribution (input size).editContext (l.map file)).selectors = selectorsOf l := by
  induction l with
  | nil => exact ⟨le_refl _, rfl, rfl⟩
  | cons entry l ih =>
    have hentry := fileContribution_file size (h entry (List.mem_cons_self ..)).1
      (h entry (List.mem_cons_self ..)).2
    obtain ⟨hedges, hgaps, hselectors⟩ := ih fun e he => h e (List.mem_cons_of_mem _ he)
    simp only [viewContribution, List.map_cons, Contribution.concat_cons,
      Contribution.edges_append, Contribution.gaps_append, Contribution.selectors_append,
      List.length_append, List.length_cons] at hedges hgaps hselectors ⊢
    refine ⟨by omega, ?_, ?_⟩
    · rw [hentry.2.1, hgaps]
      rfl
    · rw [hentry.2.2, hselectors]
      rfl

theorem length_selectorsOf (n m : Nat) : (selectorsOf (entries n m)).length = n + m + 397312 := by
  have hothers : (selectorsOf others).length = 397312 := by
    simp [selectorsOf, others, List.length_flatMap, Function.comp_def]
  have hsplit : selectorsOf (entries n m)
      = selectorsOf [(first, n)] ++ (selectorsOf [(second, m)] ++ selectorsOf others) := by
    simp [selectorsOf, entries]
  rw [hsplit, List.length_append, List.length_append, hothers]
  simp [selectorsOf]
  omega

theorem mem_entries (hn : n ∈ [0, 2000, 2688, 4096]) (hm : m ∈ [0, 2000, 2688, 4096]) :
    ∀ entry ∈ entries n m, entry.1 ∈ paths ∧ entry.2 ∈ [0, 2000, 2688, 4096] := by
  intro entry hentry
  simp only [entries, List.mem_cons] at hentry
  rcases hentry with rfl | rfl | hentry
  · exact ⟨List.mem_cons_self .., hn⟩
  · exact ⟨List.mem_cons_of_mem _ (List.mem_cons_self ..), hm⟩
  · refine ⟨List.mem_cons_of_mem _ (List.mem_cons_of_mem _ (List.mem_map_of_mem hentry)), ?_⟩
    rcases List.mem_append.mp hentry with hentry | hentry
    · obtain ⟨i, -, rfl⟩ := List.mem_map.mp hentry
      simp
    · rw [List.mem_singleton.mp hentry]
      simp

theorem nodup_selectorsOf {l : List (RepoPath × Nat)} (hnodup : (l.map Prod.fst).Nodup)
    (hcount : ∀ entry ∈ l, entry.2 ≤ 4096) : (selectorsOf l).Nodup := by
  rw [selectorsOf, List.nodup_flatMap]
  refine ⟨fun entry hentry => ?_, ?_⟩
  · refine List.Nodup.map_on (fun i hi j hj heq => ?_) List.nodup_range
    rw [List.mem_range] at hi hj
    have hbound := hcount entry hentry
    simp only [Prod.mk.injEq, InterfaceSelector.mk.injEq, true_and] at heq
    exact name_injOn (by omega) (by omega) heq
  · refine (List.pairwise_map.mp hnodup).imp fun {a b} hne => ?_
    refine List.disjoint_left.mpr ?_
    intro entry ha hb
    obtain ⟨i, -, rfl⟩ := List.mem_map.mp ha
    obtain ⟨j, -, heq⟩ := List.mem_map.mp hb
    simp only [Prod.mk.injEq, InterfaceEdgeKey.mk.injEq] at heq
    exact hne heq.1.1.symm

theorem namedSelectors_selectorsOf (l : List (RepoPath × Nat)) :
    namedSelectors (selectorsOf l) = selectorsOf l := by
  refine List.filter_eq_self.mpr fun entry hentry => ?_
  simp only [selectorsOf, List.mem_flatMap, List.mem_map] at hentry
  obtain ⟨_, _, _, _, rfl⟩ := hentry
  rfl

/-- A view fits as long as it has no more selectors than the bound. -/
theorem fits_view_iff (hn : n ∈ [0, 2000, 2688, 4096])
    (hm : m ∈ [0, 2000, 2688, 4096]) : letI := identityDigest
    (viewContribution (input size).editContext (view n m)).Fits
      ↔ n + m + 397312 ≤ maxInterfaceSelectors := by
  obtain ⟨hedges, -, hselectors⟩ := viewContribution_files size (mem_entries hn hm)
  have hcount : ∀ entry ∈ entries n m, entry.2 ≤ 4096 := by
    intro entry hentry
    have := (mem_entries hn hm entry hentry).2
    simp only [List.mem_cons, List.not_mem_nil, or_false] at this
    omega
  have hnodup : ((entries n m).map Prod.fst).Nodup := sorted_paths.imp ne_of_lt
  have hlength : (entries n m).length ≤ maxGraphEdges := by
    simp [entries, others, maxGraphEdges]
  rw [Contribution.Fits, view, hselectors, namedSelectors_selectorsOf,
    List.toFinset_card_of_nodup (nodup_selectorsOf hnodup hcount), length_selectorsOf]
  exact and_iff_right ((List.toFinset_card_le _).trans (hedges.trans hlength))

/-- The first file has taken the imports over, the second one still has them. -/
theorem mixedView_first :
    mixedView (input size).before (input size).after ((input size).interfacePaths.elems.take 1)
      = view 2000 size := by
  have htake : (input size).interfacePaths.elems.take 1 = [first] := rfl
  have hbefore : (input size).before.fileList
      = file (first, 0) :: ((second, size) :: others).map file := fileList_view 0 size
  have hread : (input size).after.read first = some (file (first, 2000)) := by
    have hmem : file (first, 2000) ∈ (input size).after.fileList := by
      have hafter : (input size).after.fileList = view 2000 0 := fileList_view 2000 0
      rw [hafter]
      exact List.mem_cons_self ..
    exact SourceSnapshot.mem_fileList.mp hmem
  have hothers : ∀ f ∈ ((second, size) :: others).map file, f.path ∉ [first] := by
    intro f hf hin
    have hsorted := (List.pairwise_cons.mp sorted_paths).1
    obtain ⟨entry, hentry, rfl⟩ := List.mem_map.mp hf
    have hlt := hsorted entry.1 (List.mem_map_of_mem (f := Prod.fst) hentry)
    rw [List.mem_singleton] at hin
    exact absurd hin (ne_of_gt hlt)
  have hhead : (if (file (first, 0)).path ∈ [first] then
      ((input size).after.read (file (first, 0)).path).getD (file (first, 0))
      else file (first, 0)) = file (first, 2000) := by
    rw [if_pos (show (file (first, 0)).path ∈ [first] from List.mem_singleton.mpr rfl),
      show (file (first, 0)).path = first from rfl, hread]
    rfl
  have htail : (((second, size) :: others).map file).map (fun f =>
      if f.path ∈ [first] then ((input size).after.read f.path).getD f else f)
      = ((second, size) :: others).map file :=
    (List.map_congr_left fun f hf => if_neg (hothers f hf)).trans (List.map_id _)
  rw [mixedView, htake, hbefore, List.map_cons, hhead, htail]
  rfl

theorem consistent_input (hsize : size = 0 ∨ size = 2688) : letI := identityDigest
    (input size).Consistent :=
  @PairInput.Consistent.mk identityDigest (input size) (fun h => absurd h (id_ne size hsize))
    (@keepsModes_input size identityDigest)

theorem viewsMatch_input (hsize : size = 0 ∨ size = 2688) : letI := identityDigest
    (input size).viewsMatch = false := by
  have hid := id_ne size hsize
  simp [PairInput.viewsMatch, hid]

theorem fullProjectionRequired_input (hsize : size = 0 ∨ size = 2688) : letI := identityDigest
    (input size).fullProjectionRequired = false := by
  have hfiles : (input size).before.fileList = view 0 size := fileList_view 0 size
  have hmem : size ∈ [0, 2000, 2688, 4096] := by
    rcases hsize with rfl | rfl <;> simp
  have hbound : 0 + size + 397312 ≤ maxInterfaceSelectors := by
    rcases hsize with rfl | rfl <;> decide
  apply @PairInput.fullProjectionRequired_of_fits identityDigest _
    (@incrementalSafe_input size identityDigest)
  · rw [hfiles]
    exact (fits_view_iff size (by simp) hmem).mpr hbound
  · rw [hfiles]
    exact (viewContribution_files size (mem_entries (by simp) hmem)).2.1

theorem fits_after : letI := identityDigest
    (viewContribution (input size).editContext (input size).after.fileList).Fits := by
  have hfiles : (input size).after.fileList = view 2000 0 := fileList_view 2000 0
  rw [hfiles]
  exact (fits_view_iff size (by simp) (by simp)).mpr (by decide)

/-- Without imports to give up, every view on the way is the before or the after view. -/
theorem mixedView_growing (n : Nat) :
    mixedView (input 0).before (input 0).after ((input 0).interfacePaths.elems.take (n + 1))
      = view 2000 0 := by
  have htake : (input 0).interfacePaths.elems.take (n + 1)
      = first :: ((second :: others.map Prod.fst).take n) := rfl
  have hbefore : (input 0).before.fileList
      = file (first, 0) :: ((second, 0) :: others).map file := fileList_view 0 0
  have hafter : (input 0).after.fileList
      = file (first, 2000) :: ((second, 0) :: others).map file := fileList_view 2000 0
  have hread : ∀ f ∈ (input 0).after.fileList, (input 0).after.read f.path = some f := fun f hf =>
    SourceSnapshot.mem_fileList.mp hf
  rw [hafter] at hread
  rw [mixedView, htake, hbefore, List.map_cons]
  have hhead : (if (file (first, 0)).path ∈ first :: ((second :: others.map Prod.fst).take n) then
      ((input 0).after.read (file (first, 0)).path).getD (file (first, 0))
      else file (first, 0)) = file (first, 2000) := by
    have hfirst := hread (file (first, 2000)) (List.mem_cons_self ..)
    have hin : (file (first, 0)).path ∈ first :: ((second :: others.map Prod.fst).take n) :=
      List.mem_cons_self ..
    rw [if_pos hin, show (file (first, 0)).path = (file (first, 2000)).path from rfl, hfirst]
    rfl
  have htail : (((second, 0) :: others).map file).map (fun f =>
      if f.path ∈ first :: ((second :: others.map Prod.fst).take n) then
        ((input 0).after.read f.path).getD f
      else f) = ((second, 0) :: others).map file := by
    refine (List.map_congr_left fun f hf => ?_).trans (List.map_id _)
    rw [hread f (List.mem_cons_of_mem _ hf)]
    exact ite_self _
  rw [hhead, htail]
  rfl

theorem fitsOnTheWay_growing : letI := identityDigest
    (input 0).FitsOnTheWay := by
  intro _ _ n
  unfold PairInput.contributionAfter
  cases n with
  | zero =>
    have hstart : mixedView (input 0).before (input 0).after
        ((input 0).interfacePaths.elems.take 0) = view 0 0 := by
      have hfiles : (input 0).before.fileList = view 0 0 := fileList_view 0 0
      simp [mixedView, hfiles]
    rw [hstart]
    exact (fits_view_iff 0 (by simp) (by simp)).mpr (by decide)
  | succ n =>
    rw [mixedView_growing]
    exact (fits_view_iff 0 (by simp) (by simp)).mpr (by decide)

end Growth

/-- The edited projection says that selectors were dropped; from scratch none are. -/
theorem growth_marks_edited_projection : letI := identityDigest
    (projectPair (Growth.input 2688)).2.1 ≠ (Growth.input 2688).fullProjection := by
  apply @PairInput.edited_ne_full identityDigest _ (Growth.consistent_input 2688 (Or.inr rfl))
    (Growth.viewsMatch_input 2688 (Or.inr rfl))
    (Growth.fullProjectionRequired_input 2688 (Or.inr rfl)) (Growth.fits_after 2688)
  refine ⟨1, fun hfit => ?_⟩
  unfold PairInput.contributionAfter at hfit
  rw [Growth.mixedView_first] at hfit
  have hover := (Growth.fits_view_iff 2688 (by simp) (by simp)).mp hfit
  exact absurd hover (by decide)

/-- A file that only gains imports, within the bounds. -/
theorem growth_within_bounds_exact : letI := identityDigest
    (Growth.input 0).Consistent ∧ (Growth.input 0).FitsOnTheWay
      ∧ (projectPair (Growth.input 0)).2.1 = (Growth.input 0).fullProjection :=
  ⟨Growth.consistent_input 0 (Or.inl rfl), Growth.fitsOnTheWay_growing,
    (@projectPair_after_exact identityDigest (Growth.input 0)
      (Growth.consistent_input 0 (Or.inl rfl))).1 Growth.fitsOnTheWay_growing⟩

end Opcore.Resolver
