/-
  Opcore.Sense.Resolver.ModuleTrees

  The module trees of a view.  Confirming them is a work list whose paths are
  marked when they are taken from it; it comes to its end
  (`treeStep_confirmState`) with the least set of files that holds the root
  files and is closed under what module declarations resolve to
  (`module_trees_least`).  A declaration may resolve to a module above the
  declared one, and `declarations_exact_iff` says when it does.
-/
import Opcore.Sense.Resolver.Accounting
import Mathlib.Algebra.Order.BigOperators.Group.List
import Mathlib.Algebra.Order.Group.Nat

namespace Opcore.Resolver

open Text Collections

namespace Rust

/-! ## The work list -/

section

variable {targets : RepoPath → List RepoPath} {s s' : TreeState} {roots : List RepoPath}

/-- A set that holds what a confirmed file leads to. -/
def ClosedUnder (targets : RepoPath → List RepoPath) (S : Set RepoPath) : Prop :=
  ∀ path ∈ S, ∀ target ∈ targets path, target ∈ S

/-- Everything that belongs to the trees so far is confirmed or pending, and nothing else is. -/
structure TreeState.Sound (targets : RepoPath → List RepoPath) (roots : List RepoPath)
    (s : TreeState) : Prop where
  reaches_roots : ∀ path ∈ roots, path ∈ s.confirmed ∨ path ∈ s.pending
  reaches_targets : ∀ path ∈ s.confirmed, ∀ target ∈ targets path,
    target ∈ s.confirmed ∨ target ∈ s.pending
  least : ∀ S : Set RepoPath, (∀ path ∈ roots, path ∈ S) → ClosedUnder targets S →
    ∀ path, path ∈ s.confirmed ∨ path ∈ s.pending → path ∈ S

theorem treeStep_cases (h : treeStep targets s = some s') :
    ∃ path pending, s.pending = path :: pending
      ∧ (path ∈ s.confirmed ∧ s' = { s with pending := pending }
        ∨ path ∉ s.confirmed
          ∧ s' = { pending := pending ++ targets path, confirmed := s.confirmed.insert path }) := by
  rw [treeStep] at h
  split at h
  · cases h
  · rename_i path pending hpending
    refine ⟨path, pending, hpending, ?_⟩
    split_ifs at h with hconfirmed
    · exact Or.inl ⟨hconfirmed, (Option.some.inj h).symm⟩
    · exact Or.inr ⟨hconfirmed, (Option.some.inj h).symm⟩

theorem TreeState.Sound.step (hs : s.Sound targets roots) (h : treeStep targets s = some s') :
    s'.Sound targets roots := by
  obtain ⟨path, pending, hpending, ⟨hconfirmed, rfl⟩ | ⟨-, rfl⟩⟩ := treeStep_cases h
  · -- the path was confirmed before, so taking it from the list loses nothing
    have hmove : ∀ p, p ∈ s.confirmed ∨ p ∈ s.pending → p ∈ s.confirmed ∨ p ∈ pending := by
      rintro p (hp | hp)
      · exact Or.inl hp
      · rw [hpending] at hp
        rcases List.mem_cons.mp hp with rfl | hp
        · exact Or.inl hconfirmed
        · exact Or.inr hp
    refine ⟨fun p hp => hmove p (hs.reaches_roots p hp),
      fun p hp target htarget => hmove target (hs.reaches_targets p hp target htarget),
      fun S hroots hclosed p hp => hs.least S hroots hclosed p (hp.imp_right fun hp => ?_)⟩
    rw [hpending]
    exact List.mem_cons_of_mem _ hp
  · -- the path is confirmed now, and what it leads to is pending
    have hmove : ∀ p, p ∈ s.confirmed ∨ p ∈ s.pending →
        p ∈ s.confirmed.insert path ∨ p ∈ pending ++ targets path := by
      rintro p (hp | hp)
      · exact Or.inl (BTreeSet.mem_insert.mpr (Or.inr hp))
      · rw [hpending] at hp
        rcases List.mem_cons.mp hp with rfl | hp
        · exact Or.inl (BTreeSet.mem_insert.mpr (Or.inl rfl))
        · exact Or.inr (List.mem_append_left _ hp)
    refine ⟨fun p hp => hmove p (hs.reaches_roots p hp), fun p hp target htarget => ?_,
      fun S hroots hclosed p hp => ?_⟩
    · rcases BTreeSet.mem_insert.mp hp with rfl | hp
      · exact Or.inr (List.mem_append_right _ htarget)
      · exact hmove target (hs.reaches_targets p hp target htarget)
    · have hpath : path ∈ S := hs.least S hroots hclosed path (Or.inr (by simp [hpending]))
      rcases hp with hp | hp
      · rcases BTreeSet.mem_insert.mp hp with rfl | hp
        · exact hpath
        · exact hs.least S hroots hclosed p (Or.inl hp)
      · rcases List.mem_append.mp hp with hp | hp
        · exact hs.least S hroots hclosed p (Or.inr (by simp [hpending, hp]))
        · exact hclosed path hpath p hp

/-- At the end the confirmed files are the least closed set. -/
theorem TreeState.Sound.isLeast (hs : s.Sound targets roots) (hend : treeStep targets s = none) :
    IsLeast {S : Set RepoPath | (∀ path ∈ roots, path ∈ S) ∧ ClosedUnder targets S}
      {path | path ∈ s.confirmed} := by
  have hpending : s.pending = [] := by
    rw [treeStep] at hend
    split at hend
    · assumption
    · split_ifs at hend
  refine ⟨⟨fun path hpath => ?_, fun path hpath target htarget => ?_⟩, ?_⟩
  · have hroot := hs.reaches_roots path hpath
    simpa [hpending] using hroot
  · have hreached := hs.reaches_targets path hpath target htarget
    simpa [hpending] using hreached
  · rintro S ⟨hroots, hclosed⟩ path hpath
    exact hs.least S hroots hclosed path (Or.inl hpath)

/-- What is left to do: the pending paths, and what unconfirmed files may still add. -/
def TreeState.work (targets : RepoPath → List RepoPath) (paths : List RepoPath) (s : TreeState) :
    Nat :=
  s.pending.length
    + ((paths.filter fun path => path ∉ s.confirmed).map fun path => (targets path).length).sum

theorem sum_filter_insert {confirmed : BTreeSet RepoPath} {path : RepoPath} {paths : List RepoPath}
    (hnodup : paths.Nodup) (hpath : path ∉ confirmed) (f : RepoPath → Nat) :
    ((paths.filter fun p => p ∉ confirmed.insert path).map f).sum
        + (if path ∈ paths then f path else 0)
      = ((paths.filter fun p => p ∉ confirmed).map f).sum := by
  induction paths with
  | nil => rfl
  | cons p paths ih =>
    obtain ⟨hout, hnodup⟩ := List.nodup_cons.mp hnodup
    have ih := ih hnodup
    by_cases hp : p = path
    · subst hp
      simp only [hout, if_false, Nat.add_zero] at ih
      simp only [List.filter_cons, BTreeSet.mem_insert, true_or, not_true_eq_false, decide_false,
        Bool.false_eq_true, if_false, hpath, not_false_eq_true, decide_true, if_true,
        List.map_cons, List.sum_cons, List.mem_cons] at ih ⊢
      omega
    · have hne : path ≠ p := Ne.symm hp
      by_cases hmem : p ∈ confirmed
      · simpa [List.filter_cons, hmem, hp, hne] using ih
      · simp only [List.filter_cons, BTreeSet.mem_insert, hp, hmem, or_false, not_false_eq_true,
          decide_true, if_true, List.map_cons, List.sum_cons, List.mem_cons, hne, false_or]
          at ih ⊢
        omega

theorem work_step {paths : List RepoPath} (hnodup : paths.Nodup)
    (hout : ∀ path, path ∉ paths → targets path = []) (h : treeStep targets s = some s') :
    s'.work targets paths < s.work targets paths := by
  obtain ⟨path, pending, hpending, ⟨-, rfl⟩ | ⟨hpath, rfl⟩⟩ := treeStep_cases h
  · simp [TreeState.work, hpending]
  · have hsum := sum_filter_insert hnodup hpath fun p => (targets p).length
    simp only [TreeState.work, hpending, List.length_append, List.length_cons]
    split_ifs at hsum with hmem
    · omega
    · have hnone := hout path hmem
      simp only [hnone, List.length_nil]
      omega

end

/-! ## Declarations -/

theorem followSegments_congr {index index' : Index} (h : index.modules = index'.modules)
    (key : Str) (best : Option Candidate) (segments : List Str) :
    followSegments index key best segments = followSegments index' key best segments := by
  induction segments generalizing key best with
  | nil => rfl
  | cons segment segments ih => simp only [followSegments, h, ih]

/-- What a declaration resolves to does not depend on what is confirmed. -/
theorem resolveModuleUnchecked_confirmed (index : Index) (confirmed : BTreeSet RepoPath)
    (importer : RepoPath) (specifier : Str) :
    resolveModuleUnchecked importer specifier { index with confirmedFiles := confirmed }
      = resolveModuleUnchecked importer specifier index := by
  simp only [resolveModuleUnchecked, resolveSegments]
  simp only [followSegments_congr (show ({ index with confirmedFiles := confirmed } : Index).modules
    = index.modules from rfl)]

section

variable [Sha256]

/-- The facts of a file of the view hold a module declaration. -/
def Declares (snapshot : SourceSnapshot) (fileFacts : FactMap) (parserOptions : Str)
    (path : RepoPath) (specifier : Str) : Prop :=
  ∃ file facts reference, snapshot.read path = some file
    ∧ fileFacts.get? (factKey file parserOptions) = some facts
    ∧ reference ∈ facts.dependencies.references
    ∧ reference.kind = .rustModule ∧ reference.specifier = specifier

variable {index : Index} {snapshot : SourceSnapshot} {fileFacts : FactMap} {parserOptions : Str}

/-- Confirming follows what the declarations of a file resolve to. -/
theorem mem_moduleTargets {path target : RepoPath} :
    target ∈ moduleTargets index snapshot fileFacts parserOptions path
      ↔ ∃ specifier, Declares snapshot fileFacts parserOptions path specifier
        ∧ resolveModuleUnchecked path specifier index = .resolved target := by
  rw [moduleTargets]
  constructor
  · intro h
    split at h
    · cases h
    · rename_i file hread
      split at h
      · cases h
      · rename_i facts hfacts
        obtain ⟨reference, hreference, hresolved⟩ := List.mem_filterMap.mp h
        rw [List.mem_filter, decide_eq_true_eq] at hreference
        split at hresolved
        · rename_i target' htarget
          cases hresolved
          rw [SourceSnapshot.path_of_read hread] at htarget
          exact ⟨reference.specifier, ⟨file, facts, reference, hread, hfacts, hreference.1,
            hreference.2, rfl⟩, htarget⟩
        · cases hresolved
  · rintro ⟨specifier, ⟨file, facts, reference, hread, hfacts, hmem, hkind, rfl⟩, hresolved⟩
    simp only [hread, hfacts]
    refine List.mem_filterMap.mpr ⟨reference, List.mem_filter.mpr ⟨hmem, by simp [hkind]⟩, ?_⟩
    rw [SourceSnapshot.path_of_read hread, hresolved]

theorem moduleTargets_confirmed (index : Index) (confirmed : BTreeSet RepoPath) :
    moduleTargets { index with confirmedFiles := confirmed } snapshot fileFacts parserOptions
      = moduleTargets index snapshot fileFacts parserOptions := by
  funext path
  simp only [moduleTargets, resolveModuleUnchecked_confirmed]

theorem moduleTargets_eq_nil {path : RepoPath} (h : path ∉ snapshot.paths) :
    moduleTargets index snapshot fileFacts parserOptions path = [] := by
  rw [List.eq_nil_iff_forall_not_mem]
  intro target htarget
  obtain ⟨specifier, ⟨file, _, _, hread, -⟩, -⟩ := mem_moduleTargets.mp htarget
  exact h (SourceSnapshot.mem_paths.mpr ⟨file, hread⟩)

/-! ## Confirmed files -/

/-- The work list of `confirmModuleTrees` when it ends. -/
def confirmState (index : Index) (snapshot : SourceSnapshot) (fileFacts : FactMap)
    (parserOptions : Str) : TreeState :=
  let targets := moduleTargets index snapshot fileFacts parserOptions
  Loop.iterate (treeStep targets)
    (index.rootFiles.size + (snapshot.paths.map fun path => (targets path).length).sum)
    ⟨index.rootFiles.elems, index.confirmedFiles⟩

/-- The bound is no restriction: the loop has come to its own end. -/
theorem treeStep_confirmState (index : Index) (snapshot : SourceSnapshot) (fileFacts : FactMap)
    (parserOptions : Str) :
    treeStep (moduleTargets index snapshot fileFacts parserOptions)
      (confirmState index snapshot fileFacts parserOptions) = none := by
  refine Loop.iterate_stops (I := fun _ => True)
    (TreeState.work (moduleTargets index snapshot fileFacts parserOptions) snapshot.paths)
    (fun _ _ _ _ => trivial) (fun s s' _ hstep => ?_) trivial ?_
  · exact work_step (snapshot.sorted_paths.imp ne_of_lt) (fun path => moduleTargets_eq_nil) hstep
  · refine Nat.add_le_add_left ?_ _
    exact (List.Sublist.map _ List.filter_sublist).sum_le_sum fun _ _ => Nat.zero_le _

theorem sound_confirmState (hunconfirmed : index.confirmedFiles = ∅) :
    (confirmState index snapshot fileFacts parserOptions).Sound
      (moduleTargets index snapshot fileFacts parserOptions) index.rootFiles.elems := by
  refine Loop.iterate_inv (fun s s' hs hstep => hs.step hstep) ?_
  rw [hunconfirmed]
  refine ⟨fun path hpath => Or.inr hpath, fun path hpath => absurd hpath BTreeSet.not_mem_empty, ?_⟩
  rintro S hroots - path (hpath | hpath)
  · exact absurd hpath BTreeSet.not_mem_empty
  · exact hroots path hpath

end

end Rust

/-! ## The trees of a view -/

section

variable [Sha256] (snapshot : SourceSnapshot) (fileFacts : FactMap) (parserOptions : Str)
  (goModules : BTreeMap RepoPath Str)

/-- The Rust modules of a view before their trees are confirmed. -/
theorem exists_unconfirmed :
    ∃ index : Rust.Index, index.Describes snapshot.fileList ∧ index.confirmedFiles = ∅
      ∧ (ResolutionIndex.new snapshot fileFacts parserOptions goModules).rust
        = index.confirmModuleTrees snapshot fileFacts parserOptions := by
  obtain ⟨-, -, -, hrust, hconfirmed⟩ := @ResolutionIndex.describes_foldl_addFile
    (BTreeMap.ofList (snapshot.fileList.map fun file => (file.path, file.language)))
    (Go.Index.build snapshot goModules) snapshot.fileList
  exact ⟨_, hrust, hconfirmed, rfl⟩

/-- The confirmed files are the least set that holds the root files and what declarations in its
    files resolve to. -/
theorem isLeast_confirmedFiles :
    let index := (ResolutionIndex.new snapshot fileFacts parserOptions goModules).rust
    IsLeast
      {S : Set RepoPath |
        (∀ file ∈ snapshot.fileList, Rust.IsRootFile file → file.path ∈ S)
          ∧ ∀ path ∈ S, ∀ specifier target,
            Rust.Declares snapshot fileFacts parserOptions path specifier →
            Rust.resolveModuleUnchecked path specifier index = .resolved target → target ∈ S}
      {path | path ∈ index.confirmedFiles} := by
  intro index
  obtain ⟨base, hbase, hunconfirmed, hindex⟩ :=
    exists_unconfirmed snapshot fileFacts parserOptions goModules
  have hleast := (Rust.sound_confirmState hunconfirmed).isLeast
    (Rust.treeStep_confirmState base snapshot fileFacts parserOptions)
  have hsets : {S : Set RepoPath | (∀ path ∈ base.rootFiles.elems, path ∈ S)
        ∧ Rust.ClosedUnder (Rust.moduleTargets base snapshot fileFacts parserOptions) S}
      = {S : Set RepoPath |
        (∀ file ∈ snapshot.fileList, Rust.IsRootFile file → file.path ∈ S)
          ∧ ∀ path ∈ S, ∀ specifier target,
            Rust.Declares snapshot fileFacts parserOptions path specifier →
            Rust.resolveModuleUnchecked path specifier index = .resolved target → target ∈ S} := by
    ext S
    refine and_congr ?_ ?_
    · constructor
      · exact fun hroots file hfile hroot =>
          hroots file.path (hbase.mem_rootFiles.mpr ⟨file, hfile, rfl, hroot⟩)
      · intro hroots path hpath
        obtain ⟨file, hfile, rfl, hroot⟩ := hbase.mem_rootFiles.mp hpath
        exact hroots file hfile hroot
    · have hresolve : ∀ path specifier, Rust.resolveModuleUnchecked path specifier index
          = Rust.resolveModuleUnchecked path specifier base := fun path specifier => by
        rw [show index = base.confirmModuleTrees snapshot fileFacts parserOptions from hindex]
        exact Rust.resolveModuleUnchecked_confirmed base _ path specifier
      simp only [hresolve]
      constructor
      · exact fun hclosed path hpath specifier target hdeclares hresolved =>
          hclosed path hpath target (Rust.mem_moduleTargets.mpr ⟨specifier, hdeclares, hresolved⟩)
      · intro hclosed path hpath target htarget
        obtain ⟨specifier, hdeclares, hresolved⟩ := Rust.mem_moduleTargets.mp htarget
        exact hclosed path hpath specifier target hdeclares hresolved
  rw [← hsets, show index = base.confirmModuleTrees snapshot fileFacts parserOptions from hindex]
  exact hleast

/-- Confirmed files are Rust files that have a module. -/
theorem exists_module_of_confirmed {path : RepoPath}
    (h : path ∈ (ResolutionIndex.new snapshot fileFacts parserOptions goModules).rust.confirmedFiles) :
    ∃ key, (ResolutionIndex.new snapshot fileFacts parserOptions goModules).rust.fileModules.get? path
      = some key := by
  have hindex := (ResolutionIndex.describes_new snapshot fileFacts parserOptions goModules).rust
  have hleast := (isLeast_confirmedFiles snapshot fileFacts parserOptions goModules).2
  refine @hleast {path | ∃ key, (ResolutionIndex.new snapshot fileFacts
    parserOptions goModules).rust.fileModules.get? path = some key} ⟨?_, ?_⟩ path h
  · exact fun file hfile hroot => hindex.key_of_root (hindex.mem_rootFiles.mpr ⟨file, hfile, rfl, hroot⟩)
  · rintro path - specifier target - hresolved
    obtain ⟨key, hkey⟩ := Rust.exists_module_of_resolveModuleUnchecked hresolved
    exact ⟨key, hindex.module_of_key hkey⟩

/-- A confirmed file is no Go file, so it stands for itself. -/
theorem logicalPath_of_confirmed {file : SourceFile}
    (h : file.path ∈ (ResolutionIndex.new snapshot fileFacts parserOptions
      goModules).rust.confirmedFiles) :
    (ResolutionIndex.new snapshot fileFacts parserOptions goModules).go.logicalPath file
      = file.path := by
  have hindex := ResolutionIndex.describes_new snapshot fileFacts parserOptions goModules
  obtain ⟨key, hkey⟩ := exists_module_of_confirmed snapshot fileFacts parserOptions goModules h
  obtain ⟨rustFile, hrustFile, hrustPath, hrust⟩ := hindex.rust.exists_file hkey
  rw [Go.Index.logicalPath, Go.Index.logicalPathFor]
  cases hrepresentative : (ResolutionIndex.new snapshot fileFacts parserOptions
      goModules).go.representatives.get? file.path with
  | none => rfl
  | some representative =>
    obtain ⟨⟨goFile, hgoFile, hgoPath, hgo⟩, -⟩ :=
      hindex.go.representatives _ _ hrepresentative
    rw [SourceSnapshot.mem_fileList, hrustPath] at hrustFile
    rw [SourceSnapshot.mem_fileList, hgoPath, hrustFile, Option.some.injEq] at hgoFile
    rw [← hgoFile, hrust] at hgo
    cases hgo

/-- A structural edge joins confirmed files. -/
theorem confirmed_of_structural (projected : SourceSnapshot) (interfacePaths : BTreeSet RepoPath)
    {edge : DependencyEdge}
    (hedge : edge ∈ (projectWithIndex projected ⟨fileFacts, parserOptions,
      ResolutionIndex.new snapshot fileFacts parserOptions goModules, interfacePaths⟩).edges)
    (hkind : edge.kind = .structural) :
    edge.from ∈ (ResolutionIndex.new snapshot fileFacts parserOptions goModules).rust.confirmedFiles
      ∧ edge.to ∈ (ResolutionIndex.new snapshot fileFacts parserOptions
        goModules).rust.confirmedFiles := by
  obtain ⟨⟨file, reference⟩, -, hresolved⟩ :=
    List.mem_filterMap.mp (exists_reference_of_mem_edges hedge)
  rw [resolvedEdge?] at hresolved
  split at hresolved
  · rename_i kind hclass
    obtain ⟨target, htarget, rfl⟩ := Option.map_eq_some_iff.mp hresolved
    dsimp only at hkind htarget hclass ⊢
    subst hkind
    generalize hindex : ResolutionIndex.new snapshot fileFacts parserOptions goModules = index at *
    have hresolution : resolveEdgeReference index file reference = .resolved target := by
      cases hresolution : resolveEdgeReference index file reference <;>
        simp_all [Resolution.target?]
    have hboth : file.path ∈ index.rust.confirmedFiles ∧ target ∈ index.rust.confirmedFiles := by
      cases hreference : reference.kind with
      | rustModule =>
        simp only [resolveEdgeReference, hreference] at hresolution
        exact ⟨(Rust.of_resolveModule hresolution).1, (Rust.of_resolveModule hresolution).2.1⟩
      | rustUse =>
        simp only [resolveEdgeReference, hreference] at hresolution
        exact ⟨(Rust.of_resolveUse hresolution).1, (Rust.of_resolveUse hresolution).2.1⟩
      | _ => simp [referenceClass, hreference] at hclass
    subst hindex
    rw [logicalPath_of_confirmed _ _ _ _ hboth.1]
    exact hboth
  · cases hresolved
  · cases hresolved

/-- Confirming the module trees comes to an end with the least closed set of files, and
    structural edges join files of that set. -/
theorem module_trees_least :
    let index := ResolutionIndex.new snapshot fileFacts parserOptions goModules
    let step := Rust.treeStep (Rust.moduleTargets index.rust snapshot fileFacts parserOptions)
    (∃ n, step (Loop.iterate step n ⟨index.rust.rootFiles.elems, ∅⟩) = none
        ∧ (Loop.iterate step n ⟨index.rust.rootFiles.elems, ∅⟩).confirmed
          = index.rust.confirmedFiles)
      ∧ IsLeast
        {S : Set RepoPath |
          (∀ file ∈ snapshot.fileList, Rust.IsRootFile file → file.path ∈ S)
            ∧ ∀ path ∈ S, ∀ specifier target,
              Rust.Declares snapshot fileFacts parserOptions path specifier →
              Rust.resolveModuleUnchecked path specifier index.rust = .resolved target →
              target ∈ S}
        {path | path ∈ index.rust.confirmedFiles}
      ∧ ∀ (projected : SourceSnapshot) (interfacePaths : BTreeSet RepoPath),
        ∀ edge ∈ (projectWithIndex projected
            ⟨fileFacts, parserOptions, index, interfacePaths⟩).edges,
          edge.kind = .structural →
          edge.from ∈ index.rust.confirmedFiles ∧ edge.to ∈ index.rust.confirmedFiles := by
  intro index step
  refine ⟨?_, isLeast_confirmedFiles snapshot fileFacts parserOptions goModules,
    fun projected interfacePaths edge => confirmed_of_structural snapshot fileFacts parserOptions
      goModules projected interfacePaths⟩
  obtain ⟨base, -, hunconfirmed, hindex⟩ :=
    exists_unconfirmed snapshot fileFacts parserOptions goModules
  have hindex : index.rust = base.confirmModuleTrees snapshot fileFacts parserOptions := hindex
  have hstep : step = Rust.treeStep (Rust.moduleTargets base snapshot fileFacts parserOptions) := by
    have htargets := @Rust.moduleTargets_confirmed _ snapshot fileFacts parserOptions base
      (base.confirmModuleTrees snapshot fileFacts parserOptions).confirmedFiles
    exact congrArg Rust.treeStep ((congrArg (Rust.moduleTargets · snapshot fileFacts parserOptions)
      hindex).trans htargets)
  have hstart : (⟨index.rust.rootFiles.elems, ∅⟩ : Rust.TreeState)
      = ⟨base.rootFiles.elems, base.confirmedFiles⟩ := by
    rw [hindex, hunconfirmed]
    rfl
  refine ⟨base.rootFiles.size + (snapshot.paths.map fun path =>
    (Rust.moduleTargets base snapshot fileFacts parserOptions path).length).sum, ?_, ?_⟩
  · rw [hstep, hstart]
    exact Rust.treeStep_confirmState base snapshot fileFacts parserOptions
  · rw [hstep, hstart, hindex]
    rfl

end

/-! ## Declared modules -/

namespace Rust

/-- The key that a declaration asks for. -/
def declaredKey (base : Str) (segments : List Str) : Str := segments.foldl childKey base

theorem declaredKey_append (base : Str) (above below : List Str) :
    declaredKey base (above ++ below) = declaredKey (declaredKey base above) below :=
  List.foldl_append

theorem declaredKey_snoc (base : Str) (segments : List Str) (segment : Str) :
    declaredKey base (segments ++ [segment]) = childKey (declaredKey base segments) segment := by
  rw [declaredKey_append]
  rfl

theorem length_childKey {key segment : Str} (h : IsName segment) :
    key.length < (childKey key segment).length := by
  have hne : segment ≠ [] := fun hnil => h (Or.inl hnil)
  have hpos : 0 < segment.length := List.length_pos_of_ne_nil hne
  rw [childKey]
  split_ifs with hkey
  · rw [hkey]
    exact hpos
  · simp only [List.length_append, List.length_singleton]
    omega

/-- A longer path has a longer key. -/
theorem length_declaredKey_lt {base : Str} {segments : List Str} (h : ∀ s ∈ segments, IsName s)
    (hne : segments ≠ []) : base.length < (declaredKey base segments).length := by
  induction segments using List.reverseRecOn with
  | nil => exact absurd rfl hne
  | append_singleton segments segment ih =>
    rw [declaredKey_snoc]
    have hlast := @length_childKey (declaredKey base segments) segment (h segment (by simp))
    rcases eq_or_ne segments [] with rfl | hne'
    · exact hlast
    · have hinit := ih (fun s hs => h s (List.mem_append_left _ hs)) hne'
      omega

/-- A declaration whose module has no file in the view, and whose closest enclosing module
    below the declaring one that has any has this one. -/
def StraysTo (index : Index) (importer : RepoPath) (specifier : Str) (stray : RepoPath) : Prop :=
  ∃ base, index.fileModules.get? importer = some base
    ∧ (∀ segment ∈ splitText (ascii "::") specifier, IsName segment)
    ∧ ∃ above below, splitText (ascii "::") specifier = above ++ below ∧ above ≠ [] ∧ below ≠ []
      ∧ index.modules.get? (declaredKey base above) = some (.unique stray)
      ∧ ∀ inner, inner <+: below → inner ≠ [] →
        index.modules.get? (declaredKey base (above ++ inner)) = none

/-- Where it is resolved, the target is the file of the declared module. -/
def Exact (index : Index) (importer : RepoPath) (specifier : Str) (resolution : Resolution) :
    Prop :=
  ∀ target, resolution = .resolved target →
    ∃ base, index.fileModules.get? importer = some base
      ∧ index.fileModules.get? target
        = some (declaredKey base (splitText (ascii "::") specifier))

variable {files : List SourceFile} {index : Index} {importer target : RepoPath}

theorem followSegments_snoc (index : Index) (key segment : Str) (best : Option Candidate)
    (segments : List Str) :
    followSegments index key best (segments ++ [segment])
      = (followSegments index key best segments).bind fun best =>
        if segment = [] ∨ segment = ascii "." ∨ segment = ascii ".." then none
        else some (index.modules.get? (declaredKey key (segments ++ [segment])) <|> best) := by
  induction segments generalizing key best with
  | nil => rfl
  | cons first segments ih =>
    by_cases hfirst : IsName first
    · rw [List.cons_append, followSegments_cons _ _ _ _ _ hfirst,
        followSegments_cons _ _ _ _ _ hfirst, ih]
      rfl
    · rw [List.cons_append, followSegments, if_pos (not_not.mp hfirst), followSegments,
        if_pos (not_not.mp hfirst)]
      rfl

/-- A path that is followed to its end consists of names. -/
theorem names_of_followSegments {base : Str} {segments : List Str} {first best : Option Candidate}
    (h : followSegments index base first segments = some best) : ∀ s ∈ segments, IsName s := by
  induction segments generalizing base first with
  | nil => simp
  | cons segment segments ih =>
    by_cases hname : IsName segment
    · rw [followSegments_cons _ _ _ _ _ hname] at h
      intro s hs
      rcases List.mem_cons.mp hs with rfl | hs
      · exact hname
      · exact ih h s hs
    · rw [followSegments, if_pos (not_not.mp hname)] at h
      cases h

/-- The candidate is the one of the longest path that has any. -/
theorem followSegments_some {base : Str} {segments : List Str} {candidate : Candidate}
    (h : followSegments index base none segments = some (some candidate)) :
    (∀ s ∈ segments, IsName s) ∧ ∃ above below, segments = above ++ below ∧ above ≠ []
      ∧ index.modules.get? (declaredKey base above) = some candidate
      ∧ ∀ inner, inner <+: below → inner ≠ [] →
        index.modules.get? (declaredKey base (above ++ inner)) = none := by
  induction segments using List.reverseRecOn with
  | nil => cases h
  | append_singleton segments segment ih =>
    rw [followSegments_snoc, Option.bind_eq_some_iff] at h
    obtain ⟨best, hbest, h⟩ := h
    split_ifs at h with hname
    have hnames : (∀ s ∈ segments, IsName s) → ∀ s ∈ segments ++ [segment], IsName s := by
      intro hsegments s hs
      rcases List.mem_append.mp hs with hs | hs
      · exact hsegments s hs
      · exact List.mem_singleton.mp hs ▸ hname
    cases hlast : index.modules.get? (declaredKey base (segments ++ [segment])) with
    | some last =>
      rw [hlast] at h
      obtain rfl : last = candidate := Option.some.inj (Option.some.inj h)
      refine ⟨hnames (names_of_followSegments hbest), segments ++ [segment], [],
        (List.append_nil _).symm, by simp, hlast, fun inner hinner hne => ?_⟩
      exact absurd (List.prefix_nil.mp hinner) hne
    | none =>
      rw [hlast] at h
      obtain rfl : best = some candidate := Option.some.inj h
      obtain ⟨hsegments, above, below, rfl, hne, hcandidate, hinner⟩ := ih hbest
      refine ⟨hnames hsegments, above, below ++ [segment], List.append_assoc .., hne,
        hcandidate, fun inner hpre hinnerNe => ?_⟩
      rcases List.prefix_concat_iff.mp hpre with rfl | hpre
      · rw [← List.append_assoc]
        exact hlast
      · exact hinner inner hpre hinnerNe

theorem followSegments_of_names {base : Str} {segments : List Str} {best : Option Candidate}
    (h : ∀ s ∈ segments, IsName s) : ∃ best', followSegments index base best segments = some best' := by
  induction segments generalizing base best with
  | nil => exact ⟨best, rfl⟩
  | cons segment segments ih =>
    rw [followSegments_cons _ _ _ _ _ (h segment (List.mem_cons_self ..))]
    exact ih fun s hs => h s (List.mem_cons_of_mem _ hs)

theorem followSegments_eq_of_none {base : Str} {above below : List Str} {candidate : Candidate}
    (hnames : ∀ s ∈ above ++ below, IsName s) (hne : above ≠ [])
    (hcandidate : index.modules.get? (declaredKey base above) = some candidate)
    (hnone : ∀ inner, inner <+: below → inner ≠ [] →
      index.modules.get? (declaredKey base (above ++ inner)) = none) :
    followSegments index base none (above ++ below) = some (some candidate) := by
  induction below using List.reverseRecOn with
  | nil =>
    rw [List.append_nil] at hnames ⊢
    obtain ⟨init, last, rfl⟩ := List.eq_nil_or_concat' above |>.resolve_left hne
    obtain ⟨best, hbest⟩ := @followSegments_of_names index base init none
      fun s hs => hnames s (List.mem_append_left _ hs)
    rw [followSegments_snoc, hbest, Option.bind_some, if_neg (hnames last (by simp)), hcandidate]
    rfl
  | append_singleton below segment ih =>
    have hsegment : IsName segment := hnames segment (by simp)
    have hshorter := ih (fun s hs => hnames s (by simp at hs ⊢; tauto))
      fun inner hpre => hnone inner (hpre.trans (List.prefix_append _ _))
    have hlast := hnone (below ++ [segment]) (List.prefix_rfl) (by simp)
    rw [← List.append_assoc] at hlast ⊢
    rw [followSegments_snoc, hshorter, Option.bind_some, if_neg hsegment, hlast]
    rfl

variable {specifier : Str}

/-- Without a confirmed target to require, a declaration goes to the file of the longest path. -/
theorem resolveModuleUnchecked_eq_resolved (h : index.Describes files) :
    resolveModuleUnchecked importer specifier index = .resolved target
      ↔ ∃ base, index.fileModules.get? importer = some base
        ∧ followSegments index base none (splitText (ascii "::") specifier)
          = some (some (.unique target)) := by
  rw [resolveModuleUnchecked]
  cases hbase : index.fileModules.get? importer with
  | none => simp
  | some base =>
    simp only [resolveSegments, Bool.false_eq_true, if_false, Option.some.injEq, exists_eq_left']
    cases hfollow : followSegments index base none (splitText (ascii "::") specifier) with
    | none => simp
    | some best =>
      dsimp only
      -- a file is declared below its own module only by a longer key
      have hself : best ≠ some (.unique importer) := by
        rintro rfl
        obtain ⟨hnames, above, below, hsplit, hne, hcandidate, -⟩ := followSegments_some hfollow
        have hkey := h.module_of_key hcandidate
        rw [hbase, Option.some.injEq] at hkey
        have hlonger := @length_declaredKey_lt base above
          (fun s hs => hnames s (by rw [hsplit]; exact List.mem_append_left _ hs)) hne
        rw [← hkey] at hlonger
        exact absurd hlonger (lt_irrefl _)
      rw [if_neg hself]
      cases best with
      | none => simp [aliasResolution]
      | some candidate => cases candidate <;> simp [aliasResolution]

/-- A stray declaration goes to the stray file. -/
theorem StraysTo.resolved (h : index.Describes files) {stray : RepoPath}
    (hstrays : StraysTo index importer specifier stray) :
    resolveModuleUnchecked importer specifier index = .resolved stray := by
  obtain ⟨base, hbase, hnames, above, below, hsplit, hne, -, hstray, hnone⟩ := hstrays
  refine (resolveModuleUnchecked_eq_resolved h).mpr ⟨base, hbase, ?_⟩
  rw [hsplit] at hnames ⊢
  exact followSegments_eq_of_none hnames hne hstray hnone

/-- It is not the file of the declared module. -/
theorem StraysTo.not_exact (h : index.Describes files) {stray : RepoPath}
    (hstrays : StraysTo index importer specifier stray) :
    ¬ ∃ base, index.fileModules.get? importer = some base
      ∧ index.fileModules.get? stray
        = some (declaredKey base (splitText (ascii "::") specifier)) := by
  obtain ⟨base, hbase, hnames, above, below, hsplit, -, hbelow, hstray, -⟩ := hstrays
  rintro ⟨base', hbase', hkey⟩
  obtain rfl : base = base' := Option.some.inj (hbase.symm.trans hbase')
  rw [h.module_of_key hstray, Option.some.injEq, hsplit, declaredKey_append] at hkey
  have hlonger := @length_declaredKey_lt (declaredKey base above) below
    (fun s hs => hnames s (by rw [hsplit]; exact List.mem_append_right _ hs)) hbelow
  rw [← hkey] at hlonger
  exact absurd hlonger (lt_irrefl _)

/-- A declaration that is not stray goes nowhere else than to the declared module. -/
theorem exact_of_not_straysTo (h : index.Describes files)
    (hresolved : resolveModuleUnchecked importer specifier index = .resolved target)
    (hstrays : ¬ StraysTo index importer specifier target) :
    ∃ base, index.fileModules.get? importer = some base
      ∧ index.fileModules.get? target
        = some (declaredKey base (splitText (ascii "::") specifier)) := by
  obtain ⟨base, hbase, hfollow⟩ := (resolveModuleUnchecked_eq_resolved h).mp hresolved
  obtain ⟨hnames, above, below, hsplit, hne, hcandidate, hnone⟩ := followSegments_some hfollow
  rcases eq_or_ne below [] with rfl | hbelow
  · rw [List.append_nil] at hsplit
    exact ⟨base, hbase, by rw [hsplit]; exact h.module_of_key hcandidate⟩
  · exact absurd ⟨base, hbase, hnames, above, below, hsplit, hne, hbelow, hcandidate, hnone⟩ hstrays

theorem exact_resolveModuleUnchecked_iff (h : index.Describes files) (importer : RepoPath)
    (specifier : Str) :
    Exact index importer specifier (resolveModuleUnchecked importer specifier index)
      ↔ ∀ stray, ¬ StraysTo index importer specifier stray :=
  ⟨fun hexact stray hstrays => hstrays.not_exact h (hexact stray (hstrays.resolved h)),
    fun hnone target hresolved => exact_of_not_straysTo h hresolved (hnone target)⟩

theorem resolveModule_eq_resolved :
    resolveModule importer specifier index = .resolved target
      ↔ importer ∈ index.confirmedFiles ∧ target ∈ index.confirmedFiles
        ∧ resolveModuleUnchecked importer specifier index = .resolved target := by
  rw [resolveModule]
  split_ifs with himporter
  · constructor
    · intro hresolved
      obtain ⟨hunchecked, htarget⟩ := of_requireConfirmedTarget hresolved
      exact ⟨himporter, htarget, hunchecked⟩
    · rintro ⟨-, htarget, hunchecked⟩
      rw [hunchecked, requireConfirmedTarget, if_pos htarget]
  · simp [himporter]

theorem exact_resolveModule_iff (h : index.Describes files) (importer : RepoPath)
    (specifier : Str) :
    Exact index importer specifier (resolveModule importer specifier index)
      ↔ (importer ∈ index.confirmedFiles →
        ∀ stray ∈ index.confirmedFiles, ¬ StraysTo index importer specifier stray) := by
  constructor
  · intro hexact himporter stray hstray hstrays
    exact hstrays.not_exact h
      (hexact stray (resolveModule_eq_resolved.mpr ⟨himporter, hstray, hstrays.resolved h⟩))
  · intro hnone target hresolved
    obtain ⟨himporter, htarget, hunchecked⟩ := resolveModule_eq_resolved.mp hresolved
    exact exact_of_not_straysTo h hunchecked (hnone himporter target htarget)

end Rust

section

variable [Sha256] (snapshot : SourceSnapshot) (fileFacts : FactMap) (parserOptions : Str)
  (goModules : BTreeMap RepoPath Str)

/-- The files that conventional roots and declarations lead to, each declaration to the file of
    the declared module. -/
inductive Rust.Declared (index : Rust.Index) : RepoPath → Prop where
  | root (file : SourceFile) : file ∈ snapshot.fileList → Rust.IsRootFile file →
      Rust.Declared index file.path
  | module (path target : RepoPath) (base specifier : Str) : Rust.Declared index path →
      Rust.Declares snapshot fileFacts parserOptions path specifier →
      index.fileModules.get? path = some base →
      index.fileModules.get? target
        = some (Rust.declaredKey base (splitText (ascii "::") specifier)) →
      Rust.Declared index target

/-- A module declaration resolves to the declared module's own file, checked or while the trees
    are confirmed, exactly when it does not stray; where no declaration of a confirmed file
    strays, only declared files are confirmed. -/
theorem declarations_exact_iff :
    let index := (ResolutionIndex.new snapshot fileFacts parserOptions goModules).rust
    (∀ importer specifier,
      Rust.Exact index importer specifier (Rust.resolveModuleUnchecked importer specifier index)
        ↔ ∀ stray, ¬ Rust.StraysTo index importer specifier stray)
    ∧ (∀ importer specifier,
      Rust.Exact index importer specifier (Rust.resolveModule importer specifier index)
        ↔ (importer ∈ index.confirmedFiles →
          ∀ stray ∈ index.confirmedFiles, ¬ Rust.StraysTo index importer specifier stray))
    ∧ ((∀ importer ∈ index.confirmedFiles, ∀ specifier,
        Rust.Declares snapshot fileFacts parserOptions importer specifier →
        ∀ stray, ¬ Rust.StraysTo index importer specifier stray) →
      ∀ path ∈ index.confirmedFiles,
        Rust.Declared snapshot fileFacts parserOptions index path) := by
  intro index
  have hindex : index.Describes snapshot.fileList :=
    (ResolutionIndex.describes_new snapshot fileFacts parserOptions goModules).rust
  refine ⟨Rust.exact_resolveModuleUnchecked_iff hindex, Rust.exact_resolveModule_iff hindex, ?_⟩
  intro hnone path hpath
  have hleast := isLeast_confirmedFiles snapshot fileFacts parserOptions goModules
  -- the declared files among the confirmed ones are closed under what declarations resolve to
  refine (@hleast.2 {path | path ∈ index.confirmedFiles
    ∧ Rust.Declared snapshot fileFacts parserOptions index path} ⟨?_, ?_⟩ path hpath).2
  · exact fun file hfile hroot => ⟨hleast.1.1 file hfile hroot, .root file hfile hroot⟩
  · rintro importer ⟨himporter, hdeclared⟩ specifier target hdeclares hresolved
    refine ⟨hleast.1.2 importer himporter specifier target hdeclares hresolved, ?_⟩
    obtain ⟨base, hbase, hkey⟩ := Rust.exact_of_not_straysTo hindex hresolved
      (hnone importer himporter specifier hdeclares target)
    exact .module importer target base specifier hdeclared hdeclares hbase hkey

end

/-! ## A stray declaration -/

namespace Stray

/-- The root of a crate, with a module inside another one. -/
def root : SourceFile :=
  ⟨samplePath "src/lib.rs", ascii "mod a { mod b; }", .rust, ascii "rust"⟩

/-- A file that no module declaration asks for. -/
def stray : SourceFile := ⟨⟨ascii "src/a.rs", by decide⟩, [], .rust, ascii "rust"⟩

def view : SourceSnapshot := .new [root, stray]

def rootFacts : FileFacts where
  dependencies := { status := .complete, references := [⟨.rustModule, ascii "a::b", 0⟩] }

def fileFacts : FactMap := (∅ : FactMap).insert (@factKey identityDigest root []) rootFacts

def index : Rust.Index := (@ResolutionIndex.new identityDigest view fileFacts [] ∅).rust

end Stray

/-- The declaration of `a::b` leads to the file of `a`, which is confirmed. -/
theorem not_exact_stray :
    ¬ Rust.Exact Stray.index Stray.root.path (ascii "a::b")
        (Rust.resolveModule Stray.root.path (ascii "a::b") Stray.index)
      ∧ Stray.stray.path ∈ Stray.index.confirmedFiles := by
  have hresolved : Rust.resolveModule Stray.root.path (ascii "a::b") Stray.index
      = .resolved Stray.stray.path := by decide +kernel
  refine ⟨fun hexact => ?_, by decide +kernel⟩
  obtain ⟨base, hbase, hkey⟩ := hexact _ hresolved
  have hroot : Stray.index.fileModules.get? Stray.root.path = some (ascii "src") := by
    decide +kernel
  have hstray : Stray.index.fileModules.get? Stray.stray.path = some (ascii "src/a") := by
    decide +kernel
  obtain rfl : base = ascii "src" := Option.some.inj (hbase.symm.trans hroot)
  rw [hstray] at hkey
  exact absurd hkey (by decide +kernel)

end Opcore.Resolver
