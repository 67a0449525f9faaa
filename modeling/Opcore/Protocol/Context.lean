/-
  Opcore.Protocol.Context

  The project context of a planned capture and the one its evaluation uses.  The
  roots of a capture never hide a control file from the search, so the two
  contexts are the nearest projects of the paths the after view lists and of the
  paths that exist in either view; they differ where these do.
-/
import Mathlib.Data.List.Find
import Mathlib.Data.List.Pairwise
import Opcore.Protocol.Selection

namespace Opcore

open Text Collections Asp

/-! ## Directories -/

theorem liesUnder_iff {path dir : Str} :
    liesUnder path dir = true ↔ ∃ rest, path = dir ++ byte '/' :: rest := by
  unfold liesUnder
  rw [Option.any_eq_true]
  constructor
  · rintro ⟨suffix, hsuffix, hslash⟩
    obtain ⟨rest, rfl⟩ := List.isPrefixOf_iff_prefix.mp hslash
    exact ⟨rest, stripPrefix_eq_some_iff.mp hsuffix⟩
  · rintro ⟨rest, rfl⟩
    exact ⟨byte '/' :: rest, stripPrefix_eq_some_iff.mpr rfl,
      List.isPrefixOf_iff_prefix.mpr ⟨rest, rfl⟩⟩

theorem pathHasPrefix_iff {path dir : Str} :
    pathHasPrefix path dir = true ↔ path = dir ∨ ∃ rest, path = dir ++ byte '/' :: rest := by
  rw [pathHasPrefix, Bool.or_eq_true, decide_eq_true_eq, liesUnder_iff]

theorem pathHasPrefix_of_liesUnder {path dir : Str} (h : liesUnder path dir = true) :
    pathHasPrefix path dir = true :=
  pathHasPrefix_iff.mpr (.inr (liesUnder_iff.mp h))

theorem liesUnder_of_pathHasPrefix {path dir top : Str} (h : liesUnder path dir = true)
    (htop : pathHasPrefix dir top = true) : liesUnder path top = true := by
  obtain ⟨rest, rfl⟩ := liesUnder_iff.mp h
  rw [liesUnder_iff]
  rcases pathHasPrefix_iff.mp htop with rfl | ⟨between, rfl⟩
  · exact ⟨rest, rfl⟩
  · exact ⟨between ++ byte '/' :: rest, by simp⟩

theorem pathHasPrefix_trans {path dir top : Str} (h : pathHasPrefix path dir = true)
    (htop : pathHasPrefix dir top = true) : pathHasPrefix path top = true := by
  rcases pathHasPrefix_iff.mp h with rfl | hunder
  · exact htop
  · exact pathHasPrefix_of_liesUnder
      (liesUnder_of_pathHasPrefix (liesUnder_iff.mpr hunder) htop)

/-- Two directories at or above one path: one of them is at or above the other. -/
theorem pathHasPrefix_or_liesUnder {path a b : Str} (ha : pathHasPrefix path a = true)
    (hb : pathHasPrefix path b = true) :
    pathHasPrefix a b = true ∨ liesUnder b a = true := by
  have hrest : ∀ {dir : Str}, pathHasPrefix path dir = true →
      ∃ rest, path = dir ++ rest ∧ (rest = [] ∨ ∃ r, rest = byte '/' :: r) := by
    intro dir h
    rcases pathHasPrefix_iff.mp h with rfl | ⟨r, rfl⟩
    · exact ⟨[], (List.append_nil _).symm, .inl rfl⟩
    · exact ⟨_, rfl, .inr ⟨r, rfl⟩⟩
  obtain ⟨ra, hpa, hra⟩ := hrest ha
  obtain ⟨rb, hpb, hrb⟩ := hrest hb
  rcases List.append_eq_append_iff.mp (hpa.symm.trans hpb) with ⟨t, hbt, hat⟩ | ⟨t, hat, hbt⟩
  · -- `b` is longer by `t`, which starts where `ra` does.
    cases t with
    | nil => exact .inl (pathHasPrefix_iff.mpr (.inl (by simpa using hbt.symm)))
    | cons c t =>
      rcases hra with rfl | ⟨r, rfl⟩
      · cases hat
      · cases hat
        exact .inr (liesUnder_iff.mpr ⟨t, hbt⟩)
  · cases t with
    | nil => exact .inl (pathHasPrefix_iff.mpr (.inl (by simpa using hat)))
    | cons c t =>
      rcases hrb with rfl | ⟨r, rfl⟩
      · cases hbt
      · cases hbt
        exact .inl (pathHasPrefix_iff.mpr (.inr ⟨t, hat⟩))

/-- A directory above a valid path is a valid path. -/
theorem validate_of_liesUnder {path dir : Str} (h : liesUnder path dir = true)
    (hvalid : validate path = .ok ()) : validate dir = .ok () := by
  obtain ⟨rest, rfl⟩ := liesUnder_iff.mp h
  unfold validate at hvalid ⊢
  split_ifs at hvalid with hempty hlong hnul hroot hdrive hparts
  have hne : dir ≠ [] := by
    rintro rfl
    exact hroot (.inl rfl)
  obtain ⟨c, dir, rfl⟩ := List.exists_cons_of_ne_nil hne
  rw [if_neg (by simp), if_neg, if_neg, if_neg, if_neg, if_neg]
  · intro hpart
    apply hparts
    rw [List.splitOnP_append_cons _ _ (by decide), List.any_append, hpart, Bool.true_or]
  · intro hletter
    apply hdrive
    cases dir with
    | nil => cases hletter.1
    | cons d dir => exact hletter
  · exact hroot
  · intro hzero
    apply hnul
    rw [List.contains_iff_mem] at hzero ⊢
    exact List.mem_append_left _ hzero
  · rw [List.length_append] at hlong
    omega

/-! ## Control files -/

variable {root : WorkspaceRoot} {name : Str}

theorem contextFilename_eq_some_iff {path : RepoPath} :
    contextFilename path root = some name ↔ byte '/' ∉ name ∧ path.bytes = match root.dir with
      | some dir => dir.bytes ++ byte '/' :: name
      | none => name := by
  unfold contextFilename
  cases root.dir with
  | none =>
    dsimp only
    split_ifs with hslash
    · rw [List.contains_iff_mem] at hslash
      constructor
      · intro h
        cases h
      · rintro ⟨hname, hpath⟩
        exact absurd (hpath ▸ hslash) hname
    · rw [List.contains_iff_mem] at hslash
      constructor
      · intro h
        cases h
        exact ⟨hslash, rfl⟩
      · rintro ⟨-, hpath⟩
        rw [hpath]
  | some dir =>
    simp only [Option.filter_eq_some_iff, Option.bind_eq_some_iff, stripPrefix_eq_some_iff,
      Bool.not_eq_true', List.contains_eq_mem, decide_eq_false_iff_not]
    constructor
    · rintro ⟨⟨suffix, hpath, rfl⟩, hname⟩
      exact ⟨hname, hpath⟩
    · rintro ⟨hname, hpath⟩
      exact ⟨⟨ascii "/" ++ name, hpath, rfl⟩, hname⟩

theorem filename_of_contextFilename {path : RepoPath}
    (h : contextFilename path root = some name) : filename path.bytes = name := by
  obtain ⟨hname, hpath⟩ := contextFilename_eq_some_iff.mp h
  unfold filename
  rw [hpath]
  cases root.dir with
  | none =>
    rw [rsplitOnce_eq_none hname]
    rfl
  | some dir =>
    rw [rsplitOnce_append hname]
    rfl

theorem pathParent_of_contextFilename {path : RepoPath} (h : contextFilename path root = some name) :
    pathParent path.bytes = (root.dir.map RepoPath.bytes).getD [] := by
  obtain ⟨hname, hpath⟩ := contextFilename_eq_some_iff.mp h
  unfold pathParent
  rw [hpath]
  cases root.dir with
  | none =>
    rw [rsplitOnce_eq_none hname]
    rfl
  | some dir =>
    rw [rsplitOnce_append hname]
    rfl

/-! ## Ancestors -/

/-- A root's directory is at or above `dir`; the repository is above everything. -/
def AtOrAbove (root : WorkspaceRoot) (dir : RepoPath) : Prop :=
  ∀ top, root.dir = some top → pathHasPrefix dir.bytes top.bytes = true

theorem mem_ancestorDirs {n : Nat} {current dir : Str} (h : dir ∈ ancestorDirs n current) :
    pathHasPrefix current dir = true := by
  induction n generalizing current with
  | zero =>
    obtain rfl := List.mem_singleton.mp h
    exact pathHasPrefix_iff.mpr (.inl rfl)
  | succ n ih =>
    rcases List.mem_cons.mp h with rfl | habove
    · exact pathHasPrefix_iff.mpr (.inl rfl)
    · split at habove
      · next parent name hsplit =>
        obtain ⟨rfl, -⟩ := rsplitOnce_eq_some_iff.mp hsplit
        exact pathHasPrefix_trans (pathHasPrefix_iff.mpr (.inr ⟨name, rfl⟩)) (ih habove)
      · cases habove

/-- Farther ancestors are strictly above nearer ones. -/
theorem pairwise_ancestorDirs (n : Nat) (current : Str) :
    (ancestorDirs n current).Pairwise fun near far => liesUnder near far = true := by
  induction n generalizing current with
  | zero => exact List.pairwise_singleton _ _
  | succ n ih =>
    unfold ancestorDirs
    split
    · next parent name hsplit =>
      obtain ⟨rfl, -⟩ := rsplitOnce_eq_some_iff.mp hsplit
      refine List.pairwise_cons.mpr ⟨?_, ih parent⟩
      intro far hfar
      exact liesUnder_of_pathHasPrefix (liesUnder_iff.mpr ⟨name, rfl⟩) (mem_ancestorDirs hfar)
    · exact List.pairwise_singleton _ _

theorem toOption_new {bytes : Str} (h : validate bytes = .ok ()) :
    (RepoPath.new bytes).toOption = some ⟨bytes, h⟩ := by
  unfold RepoPath.new
  split
  · rfl
  · next error herror =>
    rw [h] at herror
    cases herror

theorem validate_of_mem_ancestorDirs {dir : RepoPath} {n : Nat} {bytes : Str}
    (h : bytes ∈ ancestorDirs n dir.bytes) : validate bytes = .ok () := by
  rcases pathHasPrefix_iff.mp (mem_ancestorDirs h) with heq | hunder
  · exact heq ▸ dir.valid
  · exact validate_of_liesUnder (liesUnder_iff.mpr hunder) dir.valid

theorem ancestorRoots_of_dir {dir : RepoPath} (hdir : root.dir = some dir) :
    ancestorRoots root = (ancestorDirs dir.bytes.length dir.bytes).map
      (fun current => ⟨utf8Lossy current, (RepoPath.new current).toOption⟩) ++ [repositoryRoot] := by
  unfold ancestorRoots
  rw [hdir]

theorem atOrAbove_of_mem_ancestorRoots {root ancestor : WorkspaceRoot} {dir : RepoPath}
    (hdir : root.dir = some dir) (h : ancestor ∈ ancestorRoots root) : AtOrAbove ancestor dir := by
  intro top htop
  rw [ancestorRoots_of_dir hdir, List.mem_append, List.mem_map, List.mem_singleton] at h
  rcases h with ⟨current, hcurrent, rfl⟩ | rfl
  · rw [toOption_new (validate_of_mem_ancestorDirs hcurrent)] at htop
    cases htop
    exact mem_ancestorDirs hcurrent
  · cases htop

/-- The first ancestor is the root's own directory. -/
theorem exists_cons_ancestorRoots (root : WorkspaceRoot) :
    ∃ first rest, ancestorRoots root = first :: rest ∧ first.dir = root.dir := by
  cases hdir : root.dir with
  | none => exact ⟨root, [], by unfold ancestorRoots; rw [hdir], hdir⟩
  | some dir =>
    rw [ancestorRoots_of_dir hdir]
    obtain ⟨above, habove⟩ : ∃ above, ancestorDirs dir.bytes.length dir.bytes
        = dir.bytes :: above := by
      cases dir.bytes.length with
      | zero => exact ⟨[], rfl⟩
      | succ n => exact ⟨_, rfl⟩
    refine ⟨_, _, by rw [habove]; rfl, ?_⟩
    exact toOption_new dir.valid

/-- No two ancestors have one directory. -/
theorem pairwise_ancestorRoots (root : WorkspaceRoot) :
    (ancestorRoots root).Pairwise fun near far => near.dir ≠ far.dir := by
  cases hdir : root.dir with
  | none =>
    unfold ancestorRoots
    rw [hdir]
    exact List.pairwise_singleton _ _
  | some dir =>
    rw [ancestorRoots_of_dir hdir, List.pairwise_append]
    refine ⟨?_, List.pairwise_singleton _ _, ?_⟩
    · rw [List.pairwise_map]
      refine (pairwise_ancestorDirs _ _).imp_of_mem ?_
      intro near far hnear hfar hunder heq
      rw [toOption_new (validate_of_mem_ancestorDirs hnear),
        toOption_new (validate_of_mem_ancestorDirs hfar)] at heq
      have hsame : near = far := congrArg RepoPath.bytes (Option.some.inj heq)
      obtain ⟨rest, hrest⟩ := liesUnder_iff.mp hunder
      have hlength := congrArg List.length (hsame.symm.trans hrest)
      rw [List.length_append, List.length_cons] at hlength
      omega
    · intro near hnear far hfar
      obtain ⟨current, hcurrent, rfl⟩ := List.mem_map.mp hnear
      obtain rfl := List.mem_singleton.mp hfar
      rw [toOption_new (validate_of_mem_ancestorDirs hcurrent)]
      exact Option.some_ne_none _

/-! ## Capture roots -/

/-- What `native_path_in_roots` asks of one root. -/
def inCaptureRoot (path : RepoPath) (filter : NativeCaptureFilter) (root : RepoPath) : Bool :=
  liesUnder path.bytes root.bytes
    || (filter.includesAsAncestorContext path
      && ((pathParent path.bytes).isEmpty || liesUnder root.bytes (pathParent path.bytes)))

variable {filter : NativeCaptureFilter}

theorem nativePathInRoots_iff {path : RepoPath} {roots : List RepoPath} :
    nativePathInRoots path roots filter = true
      ↔ roots = [] ∨ ∃ root ∈ roots, inCaptureRoot path filter root = true := by
  rw [nativePathInRoots, Bool.or_eq_true, List.isEmpty_iff, List.any_eq_true]
  rfl

theorem liesUnder_pathParent {path : Str} (h : (pathParent path).isEmpty = false) :
    liesUnder path (pathParent path) = true := by
  unfold pathParent at h ⊢
  cases hsplit : rsplitOnce (byte '/') path with
  | none =>
    rw [hsplit] at h
    cases h
  | some parts =>
    exact liesUnder_iff.mpr ⟨parts.2, (rsplitOnce_eq_some_iff.mp hsplit).1⟩

/-- A root captures what a root below it captures. -/
theorem inCaptureRoot_of_above {path dir top : RepoPath}
    (h : inCaptureRoot path filter dir = true) (htop : pathHasPrefix dir.bytes top.bytes = true) :
    inCaptureRoot path filter top = true := by
  simp only [inCaptureRoot, Bool.or_eq_true, Bool.and_eq_true] at h ⊢
  rcases h with hunder | ⟨hcontext, hempty | hparent⟩
  · exact .inl (liesUnder_of_pathHasPrefix hunder htop)
  · exact .inr ⟨hcontext, .inl hempty⟩
  · cases hempty : (pathParent path.bytes).isEmpty with
    | true => exact .inr ⟨hcontext, .inl rfl⟩
    | false =>
      have hpath := liesUnder_pathParent hempty
      -- The file's directory and the new root are both above the old root.
      rcases pathHasPrefix_or_liesUnder htop (pathHasPrefix_of_liesUnder hparent) with hle | hlt
      · rcases pathHasPrefix_iff.mp hle with heq | hbelow
        · exact .inl (heq ▸ hpath)
        · exact .inr ⟨hcontext, .inr (liesUnder_iff.mpr hbelow)⟩
      · exact .inl (liesUnder_of_pathHasPrefix hpath (pathHasPrefix_of_liesUnder hlt))

/-- A root captures the control files of every directory at or above it. -/
theorem inCaptureRoot_of_contextFilename {path dir : RepoPath}
    {ancestor : WorkspaceRoot} (hname : contextFilename path ancestor = some name)
    (hcontext : filter.includesAsAncestorContext path = true) (habove : AtOrAbove ancestor dir) :
    inCaptureRoot path filter dir = true := by
  simp only [inCaptureRoot, Bool.or_eq_true, Bool.and_eq_true]
  have hparent := pathParent_of_contextFilename hname
  have hbytes := (contextFilename_eq_some_iff.mp hname).2
  cases htop : ancestor.dir with
  | none =>
    rw [htop] at hparent
    exact .inr ⟨hcontext, .inl (by rw [hparent]; rfl)⟩
  | some top =>
    rw [htop] at hparent hbytes
    rcases pathHasPrefix_iff.mp (habove top htop) with heq | hbelow
    · exact .inl (liesUnder_iff.mpr ⟨name, by rw [hbytes, heq]⟩)
    · exact .inr ⟨hcontext, .inr (by rw [hparent]; exact liesUnder_iff.mpr hbelow)⟩

/-- Every directory lies in one of the minimal ones. -/
theorem exists_minimalRoot {roots : List RepoPath} {root : RepoPath} (h : root ∈ roots) :
    ∃ top ∈ minimalRoots roots, pathHasPrefix root.bytes top.bytes = true := by
  have hloop : ∀ (l minimal : List RepoPath),
      let result := l.foldl (fun minimal root =>
        if minimal.all fun parent => !pathHasPrefix root.bytes parent.bytes then minimal ++ [root]
        else minimal) minimal
      (∀ top ∈ minimal, top ∈ result)
        ∧ ∀ r ∈ l, ∃ top ∈ result, pathHasPrefix r.bytes top.bytes = true := by
    intro l
    induction l with
    | nil => exact fun _ => ⟨fun _ h => h, nofun⟩
    | cons a l ih =>
      intro minimal
      rw [List.foldl_cons]
      split_ifs with hnew
      · obtain ⟨hkept, hcovered⟩ := ih (minimal ++ [a])
        refine ⟨fun top ht => hkept top (List.mem_append_left _ ht), ?_⟩
        intro r hr
        rcases List.mem_cons.mp hr with rfl | hr
        · exact ⟨r, hkept r (List.mem_append_right _ (List.mem_singleton_self r)),
            pathHasPrefix_iff.mpr (.inl rfl)⟩
        · exact hcovered r hr
      · obtain ⟨hkept, hcovered⟩ := ih minimal
        refine ⟨hkept, ?_⟩
        intro r hr
        rcases List.mem_cons.mp hr with rfl | hr
        · obtain ⟨parent, hparent, hbelow⟩ : ∃ parent ∈ minimal,
              pathHasPrefix r.bytes parent.bytes = true := by simpa using hnew
          exact ⟨parent, hkept parent hparent, hbelow⟩
        · exact hcovered r hr
  exact (hloop _ _).2 root (BTreeSet.mem_ofList.mpr h)

variable {profile : ProviderProfile}

theorem projectContextFromPaths_cases (paths : BTreeSet RepoPath) (root : WorkspaceRoot)
    (hprofile : profile ≠ .rustNative) :
    projectContextFromPaths paths root profile = root
      ∨ projectContextFromPaths paths root profile ∈ ancestorRoots root := by
  have hfind : ∀ p : WorkspaceRoot → Bool, ((ancestorRoots root).find? p).getD root = root
      ∨ ((ancestorRoots root).find? p).getD root ∈ ancestorRoots root := by
    intro p
    cases hfound : (ancestorRoots root).find? p with
    | none => exact .inl rfl
    | some found => exact .inr (List.mem_of_find?_eq_some hfound)
  cases profile with
  | rustNative => exact absurd rfl hprofile
  | fast => exact .inl rfl
  | nodeNative => exact hfind _
  | pythonNative => exact hfind _

variable {selection : HostSelection}

/-- The planned roots cover every selected root, unless they are the repository. -/
theorem planRoots_cover {candidates : BTreeSet RepoPath} (hroot : root ∈ selection.roots)
    (hprofile : profile ∈ selection.profiles) :
    planRoots candidates selection = [] ∨ ∃ dir top, root.dir = some dir
      ∧ top ∈ planRoots candidates selection ∧ pathHasPrefix dir.bytes top.bytes = true := by
  unfold planRoots
  split_ifs with hrust
  · exact .inl rfl
  · unfold projectCaptureRoots
    cases hdirs : (plannedContexts candidates selection).mapM WorkspaceRoot.dir with
    | none => exact .inl rfl
    | some dirs =>
      right
      obtain ⟨context, hplanned, hcontext⟩ : ∃ context ∈ plannedContexts candidates selection,
          context = root ∨ context ∈ ancestorRoots root := by
        refine ⟨_, List.mem_flatMap.mpr ⟨profile, hprofile,
          List.mem_map.mpr ⟨root, hroot, rfl⟩⟩, ?_⟩
        split_ifs with hnative
        · exact .inl rfl
        · exact projectContextFromPaths_cases candidates root hnative
      obtain ⟨dir, hmem, hdir⟩ := Option.exists_of_mapM_eq_some hdirs context hplanned
      obtain ⟨top, htop, hbelow⟩ := exists_minimalRoot hmem
      cases hroot' : root.dir with
      | none =>
        exfalso
        have : context = root := by
          rcases hcontext with h | h
          · exact h
          · unfold ancestorRoots at h
            rw [hroot'] at h
            exact List.mem_singleton.mp h
        rw [this, hroot'] at hdir
        cases hdir
      | some focus =>
        refine ⟨focus, top, rfl, htop, pathHasPrefix_trans ?_ hbelow⟩
        rcases hcontext with rfl | h
        · rw [hdir] at hroot'
          cases hroot'
          exact pathHasPrefix_iff.mpr (.inl rfl)
        · exact atOrAbove_of_mem_ancestorRoots hroot' h dir hdir

/-! ## Selected control files -/

/-- The names that decide whether a directory is a project. -/
def isControlName : ProviderProfile → Str → Bool
  | .nodeNative, name =>
    name ∈ [ascii "package.json", ascii "package-lock.json", ascii "npm-shrinkwrap.json"]
      || isTsconfigName name
  | .pythonNative, name => name ∈ pythonContextNames
  | _, _ => false

/-- Is a directory a project of the profile, by these paths? -/
def isProject (profile : ProviderProfile) (paths : BTreeSet RepoPath) (root : WorkspaceRoot) :
    Bool :=
  match profile with
  | .nodeNative => nodeContext paths root
  | .pythonNative => pythonContext paths root
  | _ => false

theorem hasContextFile_iff {paths : BTreeSet RepoPath} :
    hasContextFile paths root name = true
      ↔ ∃ path ∈ paths, contextFilename path root = some name := by
  simp only [hasContextFile, List.any_eq_true, decide_eq_true_eq]
  rfl

/-- Paths with the same control files in a directory agree on whether it is a project. -/
theorem isProject_congr {paths paths' : BTreeSet RepoPath}
    (h : ∀ path name, contextFilename path root = some name → isControlName profile name = true →
      (path ∈ paths ↔ path ∈ paths')) :
    isProject profile paths root = isProject profile paths' root := by
  have hfile : ∀ name, isControlName profile name = true →
      hasContextFile paths root name = hasContextFile paths' root name := by
    intro name hname
    rw [Bool.eq_iff_iff, hasContextFile_iff, hasContextFile_iff]
    exact exists_congr fun path => and_congr_left fun hpath => h path name hpath hname
  cases profile with
  | fast => rfl
  | rustNative => rfl
  | pythonNative =>
    simp only [isProject, pythonContext]
    rw [Bool.eq_iff_iff, List.any_eq_true, List.any_eq_true]
    refine exists_congr fun name => and_congr_right fun hname => ?_
    rw [hfile name (decide_eq_true hname)]
  | nodeNative =>
    have htsconfig : (paths.elems.any fun path => (contextFilename path root).any isTsconfigName)
        = paths'.elems.any fun path => (contextFilename path root).any isTsconfigName := by
      rw [Bool.eq_iff_iff, List.any_eq_true, List.any_eq_true]
      refine exists_congr fun path => and_congr_left fun hpath => ?_
      obtain ⟨name, hname, hconfig⟩ := (Option.any_eq_true _ _).mp hpath
      exact h path name hname (by rw [isControlName, hconfig, Bool.or_true])
    simp only [isProject, nodeContext, htsconfig]
    rw [hfile _ (by decide), hfile _ (by decide), hfile _ (by decide)]

/-- A flag that the step of an element sets, and that no step clears, is set by a run
    over a list with the element. -/
theorem foldl_flag_of_mem {σ α : Type} {step : σ → α → σ} {l : List α} {a : α} (flag : σ → Bool)
    (hkeep : ∀ s b, flag s = true → flag (step s b) = true) (hset : ∀ s, flag (step s a) = true)
    (hmem : a ∈ l) (s : σ) : flag (l.foldl step s) = true := by
  obtain ⟨before, after, rfl⟩ := List.append_of_mem hmem
  rw [List.foldl_append, List.foldl_cons]
  exact List.foldlRecOn after step (hset _) fun s hs b _ => hkeep s b hs

/-- The filter of a selection admits what its profiles ask for. -/
theorem captureFilter_flags (selection : HostSelection) :
    (.nodeNative ∈ selection.profiles → (captureFilter selection).node = true)
      ∧ (.pythonNative ∈ selection.profiles → (captureFilter selection).python = true) := by
  constructor
  · refine fun h => foldl_flag_of_mem NativeCaptureFilter.node ?_ (fun _ => rfl) h _
    intro filter profile hset
    cases profile <;> first | rfl | exact hset
  · refine fun h => foldl_flag_of_mem NativeCaptureFilter.python ?_ (fun _ => rfl) h _
    intro filter profile hset
    cases profile <;> first | rfl | exact hset

theorem node_controlName (h : isControlName .nodeNative name = true) :
    (ascii ".json").isSuffixOf name = true
      ∧ (name ∈ nodeContextNames ∨ (ascii "tsconfig").isPrefixOf name = true) := by
  rcases (Bool.or_eq_true _ _).mp h with hlisted | htsconfig
  · have hall : ∀ n ∈ [ascii "package.json", ascii "package-lock.json",
        ascii "npm-shrinkwrap.json"],
        (ascii ".json").isSuffixOf n = true ∧ n ∈ nodeContextNames := by decide
    obtain ⟨hsuffix, hmem⟩ := hall name (of_decide_eq_true hlisted)
    exact ⟨hsuffix, .inl hmem⟩
  · rcases (Bool.or_eq_true _ _).mp htsconfig with hexact | hpattern
    · obtain rfl := of_decide_eq_true hexact
      exact ⟨by decide, .inr (by decide)⟩
    · obtain ⟨hleads, hsuffix⟩ := (Bool.and_eq_true _ _).mp hpattern
      refine ⟨hsuffix, .inr ?_⟩
      rw [List.isPrefixOf_iff_prefix] at hleads ⊢
      exact List.IsPrefix.trans (List.isPrefixOf_iff_prefix.mp (by decide)) hleads

/-- A control file of a selected profile passes the filter, at any directory. -/
theorem filter_of_controlName (hprofile : profile ∈ selection.profiles) {path : RepoPath}
    (hpath : contextFilename path root = some name) (hname : isControlName profile name = true) :
    (captureFilter selection).isFastOnly = false ∧ (captureFilter selection).includes path = true
      ∧ (captureFilter selection).includesAsAncestorContext path = true := by
  have hfilename := filename_of_contextFilename hpath
  cases profile with
  | fast => cases hname
  | rustNative => cases hname
  | pythonNative =>
    have hflag := (captureFilter_flags selection).2 hprofile
    have hcontext : pythonContextPath path = true := by
      rw [pythonContextPath, hfilename]
      exact hname
    refine ⟨?_, ?_, ?_⟩
    · simp only [NativeCaptureFilter.isFastOnly, decide_eq_false_iff_not]
      intro heq
      rw [heq] at hflag
      cases hflag
    · simp [NativeCaptureFilter.includes, hflag, pythonNativePath, hcontext]
    · simp [NativeCaptureFilter.includesAsAncestorContext, hflag, hcontext]
  | nodeNative =>
    have hflag := (captureFilter_flags selection).1 hprofile
    have hjson := node_controlName hname
    have hnative : nodeNativePath path = true := by
      have hsuffix : (ascii ".json").isSuffixOf path.bytes = true := by
        rw [List.isSuffixOf_iff_suffix] at hjson ⊢
        refine hjson.1.trans ?_
        rw [(contextFilename_eq_some_iff.mp hpath).2]
        cases root.dir with
        | none => exact List.suffix_refl _
        | some dir => exact ⟨dir.bytes ++ [byte '/'], by simp⟩
      simp [nodeNativePath, hsuffix]
    have hcontext : nodeContextPath path = true := by
      simp only [nodeContextPath, hfilename, Bool.or_eq_true, Bool.and_eq_true, decide_eq_true_eq]
      rcases hjson.2 with hlisted | hleads
      · exact .inl hlisted
      · exact .inr ⟨hleads, hjson.1⟩
    refine ⟨?_, ?_, ?_⟩
    · simp only [NativeCaptureFilter.isFastOnly, decide_eq_false_iff_not]
      intro heq
      rw [heq] at hflag
      cases hflag
    · simp [NativeCaptureFilter.includes, hflag, hnative]
    · simp [NativeCaptureFilter.includesAsAncestorContext, hflag, hcontext]

/-! ## The two searches -/

/-- The capture roots leave out nothing of a root. -/
def Covers (roots : List RepoPath) (root : WorkspaceRoot) : Prop :=
  roots = [] ∨ ∀ dir, root.dir = some dir → ∃ top ∈ roots, pathHasPrefix dir.bytes top.bytes = true

theorem captureRoots_cover
    (hroot : root ∈ selection.roots) : Covers (captureRoots selection) root := by
  right
  intro dir hdir
  exact ⟨dir, List.mem_filterMap.mpr ⟨root, hroot, hdir⟩, pathHasPrefix_iff.mpr (.inl rfl)⟩

section

variable {selection : HostSelection} {root ancestor : WorkspaceRoot} {profile : ProviderProfile}
  {targets : TargetPolicy}

/-- Control files at or above a covered root are selected. -/
theorem selects_controlFile {roots : List RepoPath} (hcovers : Covers roots root)
    (hprofile : profile ∈ selection.profiles) (hancestor : ancestor ∈ ancestorRoots root)
    {path : RepoPath} {name : Str} (hpath : contextFilename path ancestor = some name)
    (hname : isControlName profile name = true) :
    (NativeSelection.mk roots (captureFilter selection) targets).selects path = true := by
  obtain ⟨hfast, hincludes, hcontext⟩ := filter_of_controlName hprofile hpath hname
  have hroots : nativePathInRoots path roots (captureFilter selection) = true := by
    rw [nativePathInRoots_iff]
    rcases hcovers with hall | htops
    · exact .inl hall
    · cases hdir : root.dir with
      | none =>
        -- The only ancestor of the repository is itself, and its files are top-level.
        cases roots with
        | nil => exact .inl rfl
        | cons top roots =>
          refine .inr ⟨top, List.mem_cons_self, ?_⟩
          refine inCaptureRoot_of_contextFilename hpath hcontext ?_
          unfold ancestorRoots at hancestor
          rw [hdir] at hancestor
          obtain rfl := List.mem_singleton.mp hancestor
          intro dir hsome
          rw [hdir] at hsome
          cases hsome
      | some dir =>
        obtain ⟨top, htop, hbelow⟩ := htops dir hdir
        refine .inr ⟨top, htop, inCaptureRoot_of_above ?_ hbelow⟩
        exact inCaptureRoot_of_contextFilename hpath hcontext
          (atOrAbove_of_mem_ancestorRoots hdir hancestor)
  simp only [NativeSelection.selects, hfast, hincludes, hroots, Bool.not_false, Bool.true_or,
    Bool.true_and]

variable {repository : NativeRepository} {candidates : BTreeSet RepoPath}

theorem isProject_candidates (hroot : root ∈ selection.roots)
    (hprofile : profile ∈ selection.profiles)
    (h : repository.candidatePaths (captureRoots selection) (captureFilter selection)
      = .ok candidates) (hancestor : ancestor ∈ ancestorRoots root) :
    isProject profile candidates ancestor = isProject profile repository.listed ancestor := by
  refine isProject_congr ?_
  intro path name hpath hname
  rw [NativeSelection.mem_select h]
  exact and_iff_left
    (selects_controlFile (captureRoots_cover hroot) hprofile hancestor hpath hname)

theorem isProject_captured [Sha256] {roots : List RepoPath} {capture : GitNativeCapture}
    (hcovers : Covers roots root) (hprofile : profile ∈ selection.profiles)
    (h : repository.captureNative roots (captureFilter selection) = .ok capture)
    (hancestor : ancestor ∈ ancestorRoots root) :
    isProject profile capture.paths.keySet ancestor
      = isProject profile repository.present ancestor := by
  refine isProject_congr ?_
  intro path name hpath hname
  rw [NativeRepository.mem_captureNative h]
  exact and_iff_left (selects_controlFile hcovers hprofile hancestor hpath hname)

end

/-! ## Enclosing projects -/

/-- By these paths, the nearest project at or above the root is above it, at `project`. -/
def Encloses (profile : ProviderProfile) (paths : BTreeSet RepoPath) (root project : WorkspaceRoot) :
    Prop :=
  ∃ nearer farther, ancestorRoots root = nearer ++ project :: farther ∧ nearer ≠ []
    ∧ isProject profile paths project = true ∧ ∀ near ∈ nearer, isProject profile paths near = false

section

variable {profile : ProviderProfile} {paths paths' : BTreeSet RepoPath} {root project : WorkspaceRoot}

theorem encloses_iff : Encloses profile paths root project
    ↔ (ancestorRoots root).find? (isProject profile paths) = some project
      ∧ project.dir ≠ root.dir := by
  obtain ⟨first, rest, hancestors, hfirst⟩ := exists_cons_ancestorRoots root
  have hapart := pairwise_ancestorRoots root
  rw [List.find?_eq_some_iff_append]
  constructor
  · rintro ⟨nearer, farther, hsplit, hne, hproject, hnone⟩
    refine ⟨⟨hproject, nearer, farther, hsplit, ?_⟩, ?_⟩
    · intro near hnear
      rw [hnone near hnear]
      rfl
    · cases nearer with
      | nil => exact absurd rfl hne
      | cons near nearer =>
        rw [hsplit, List.cons_append, List.pairwise_cons] at hapart
        have hnear : near = first := by
          rw [hsplit, List.cons_append] at hancestors
          exact (List.cons.inj hancestors).1
        rw [← hfirst, ← hnear]
        exact (hapart.1 project (by simp)).symm
  · rintro ⟨⟨hproject, nearer, farther, hsplit, hnone⟩, hdir⟩
    refine ⟨nearer, farther, hsplit, ?_, hproject, ?_⟩
    · rintro rfl
      rw [hancestors] at hsplit
      exact hdir ((List.cons.inj hsplit).1 ▸ hfirst)
    · intro near hnear
      simpa using hnone near hnear

/-- Where the searches find their contexts. -/
def nearestProject (profile : ProviderProfile) (paths : BTreeSet RepoPath) (root : WorkspaceRoot) :
    WorkspaceRoot :=
  ((ancestorRoots root).find? (isProject profile paths)).getD root

theorem nearestProject_of_dir_ne (h : (nearestProject profile paths root).dir ≠ root.dir) :
    Encloses profile paths root (nearestProject profile paths root) := by
  rw [encloses_iff]
  refine ⟨?_, h⟩
  unfold nearestProject at h ⊢
  cases hfound : (ancestorRoots root).find? (isProject profile paths) with
  | none =>
    rw [hfound] at h
    exact absurd rfl h
  | some found => rfl

theorem nearestProject_of_encloses (h : Encloses profile paths root project) :
    nearestProject profile paths root = project := by
  unfold nearestProject
  rw [(encloses_iff.mp h).1]
  rfl

theorem mem_ancestorRoots_of_encloses (h : Encloses profile paths root project) :
    project ∈ ancestorRoots root :=
  List.mem_of_find?_eq_some (encloses_iff.mp h).1

/-- Ancestors are told apart by their directories. -/
theorem eq_of_dir_eq {a b : WorkspaceRoot} (ha : a ∈ ancestorRoots root)
    (hb : b ∈ ancestorRoots root) (h : a.dir = b.dir) : a = b := by
  have hsymm : Std.Symm fun near far : WorkspaceRoot => near.dir ≠ far.dir :=
    ⟨fun _ _ hne => hne.symm⟩
  by_contra hne
  exact (pairwise_ancestorRoots root).forall ha hb hne h

/-- Two searches agree exactly when the same projects enclose the root. -/
theorem nearestProject_dir_eq_iff :
    (nearestProject profile paths root).dir = (nearestProject profile paths' root).dir
      ↔ ∀ project, Encloses profile paths root project ↔ Encloses profile paths' root project := by
  constructor
  · intro heq project
    have hone : ∀ {p p' : BTreeSet RepoPath},
        (nearestProject profile p root).dir = (nearestProject profile p' root).dir →
        Encloses profile p root project → Encloses profile p' root project := by
      intro p p' hdir hencloses
      have hne : (nearestProject profile p' root).dir ≠ root.dir := by
        rw [← hdir, nearestProject_of_encloses hencloses]
        exact (encloses_iff.mp hencloses).2
      have hother := nearestProject_of_dir_ne hne
      have hsame : nearestProject profile p' root = project := by
        refine eq_of_dir_eq (mem_ancestorRoots_of_encloses hother)
          (mem_ancestorRoots_of_encloses hencloses) ?_
        rw [← hdir, nearestProject_of_encloses hencloses]
      rw [hsame] at hother
      exact hother
    exact ⟨hone heq, hone heq.symm⟩
  · intro hiff
    by_cases hdir : (nearestProject profile paths root).dir = root.dir
    · by_contra hne
      have hother := nearestProject_of_dir_ne fun h => hne (hdir.trans h.symm)
      have hsame := nearestProject_of_encloses ((hiff _).mpr hother)
      exact hne (congrArg WorkspaceRoot.dir hsame)
    · have hencloses := (hiff _).mp (nearestProject_of_dir_ne hdir)
      rw [nearestProject_of_encloses hencloses]

end

/-! ## Planned and evaluated context -/

section

variable [Sha256] {repository : NativeRepository} {selection : HostSelection}
  {candidates : BTreeSet RepoPath} {plan : NativeCapturePlan} {capture : GitNativeCapture}
  {root : WorkspaceRoot} {profile : ProviderProfile}

omit [Sha256] in
theorem nativeCapturePlan_ok (hplan : nativeCapturePlan repository selection = .ok plan)
    (hcandidates : repository.candidatePaths (captureRoots selection) (captureFilter selection)
      = .ok candidates) :
    plan = ⟨planRoots candidates selection, captureFilter selection⟩ := by
  obtain ⟨paths, hpaths, hplan⟩ := Except.bind_eq_ok_iff.mp hplan
  rw [hcandidates] at hpaths
  cases hpaths
  dsimp only at hplan
  split_ifs at hplan
  · obtain ⟨_, -, hplan⟩ := Except.bind_eq_ok_iff.mp hplan
    obtain ⟨_, -, hplan⟩ := Except.bind_eq_ok_iff.mp hplan
    exact (Except.ok.inj hplan).symm
  · obtain ⟨_, -, hplan⟩ := Except.bind_eq_ok_iff.mp hplan
    exact (Except.ok.inj hplan).symm

omit [Sha256] in
theorem planRoots_covers (hroot : root ∈ selection.roots) (hprofile : profile ∈ selection.profiles) :
    Covers (planRoots candidates selection) root := by
  rcases planRoots_cover hroot hprofile with hall | ⟨dir, top, hdir, htop, hbelow⟩
  · exact .inl hall
  · right
    intro dir' hdir'
    rw [hdir] at hdir'
    cases hdir'
    exact ⟨top, htop, hbelow⟩

omit [Sha256] in
/-- What the candidate roots select, the planned roots select. -/
theorem nativePathInRoots_planRoots {path : RepoPath} {filter : NativeCaptureFilter}
    (hroot : root ∈ selection.roots) (hprofile : profile ∈ selection.profiles)
    (h : nativePathInRoots path (captureRoots selection) filter = true) :
    nativePathInRoots path (planRoots candidates selection) filter = true := by
  rw [nativePathInRoots_iff] at h ⊢
  rcases h with hnone | ⟨dir, hdir, hin⟩
  · rcases planRoots_cover hroot hprofile with hall | ⟨dir, top, hdir, -⟩
    · exact .inl hall
    · have hmem : dir ∈ captureRoots selection := List.mem_filterMap.mpr ⟨root, hroot, hdir⟩
      rw [hnone] at hmem
      cases hmem
  · obtain ⟨other, hother, hdir⟩ := List.mem_filterMap.mp hdir
    have hcovers : Covers (planRoots candidates selection) other := planRoots_covers hother hprofile
    rcases hcovers with hall | htops
    · exact .inl hall
    · obtain ⟨top, htop, hbelow⟩ := htops dir hdir
      exact .inr ⟨top, htop, inCaptureRoot_of_above hin hbelow⟩

/-- The context of an evaluation is the planned one, and every candidate file
    below it is in the provider's workspace, exactly when the same project
    encloses the root by the paths the after view lists and by the paths that
    exist in the baseline or in the after view. -/
theorem plannedContext_iff (hplan : nativeCapturePlan repository selection = .ok plan)
    (hcandidates : repository.candidatePaths (captureRoots selection) (captureFilter selection)
      = .ok candidates)
    (hcapture : repository.captureNative plan.roots plan.filter = .ok capture)
    (hroot : root ∈ selection.roots) (hprofile : profile ∈ selection.profiles)
    (hnative : profile.isNative = true) :
    ((projectContext capture root profile).dir
          = (projectContextFromPaths candidates root profile).dir
        ∧ ∀ path ∈ candidates, path ∈ repository.present →
          pathInWorkspaceRoot path (projectContext capture root profile) = true →
          ∀ mapping, workspaceMapping capture root (projectContext capture root profile) profile
              = .ok mapping → ∃ destination, mapping.get? path = some destination)
      ↔ ∀ project, Encloses profile repository.listed root project
        ↔ Encloses profile repository.present root project := by
  obtain rfl := nativeCapturePlan_ok hplan hcandidates
  have hcovers : Covers (planRoots candidates selection) root := planRoots_covers hroot hprofile
  -- Every file of the context is captured: the second half always holds.
  have hcomplete : ∀ path ∈ candidates, path ∈ repository.present →
      pathInWorkspaceRoot path (projectContext capture root profile) = true →
      ∀ mapping, workspaceMapping capture root (projectContext capture root profile) profile
        = .ok mapping → ∃ destination, mapping.get? path = some destination := by
    intro path hpath hpresent hin mapping hmapping
    have hcaptured : path ∈ capture.paths.keySet := by
      rw [NativeRepository.mem_captureNative hcapture]
      refine ⟨hpresent, ?_⟩
      have hselected := ((NativeSelection.mem_select hcandidates).mp hpath).2
      simp only [NativeSelection.selects, Bool.and_eq_true] at hselected ⊢
      exact ⟨hselected.1, nativePathInRoots_planRoots hroot hprofile hselected.2⟩
    obtain ⟨hget, hdestination, -⟩ := mapPaths_ok capture.paths.nodup_keys hmapping
    have hworkspace : inWorkspace root (projectContext capture root profile) profile path = true := by
      simp [inWorkspace, hnative, hin]
    obtain ⟨destination, hrebase, -⟩ := hdestination path hcaptured hworkspace
    exact ⟨destination, by rw [hget path, if_pos ⟨hcaptured, hworkspace⟩, hrebase]⟩
  have hcandidate : ∀ ancestor ∈ ancestorRoots root, isProject profile candidates ancestor
      = isProject profile repository.listed ancestor :=
    fun _ => isProject_candidates hroot hprofile hcandidates
  have hcaptured : ∀ ancestor ∈ ancestorRoots root, isProject profile capture.paths.keySet ancestor
      = isProject profile repository.present ancestor :=
    fun _ => isProject_captured hcovers hprofile hcapture
  have hnearest : (nearestProject profile capture.paths.keySet root).dir
      = (nearestProject profile candidates root).dir
      ↔ ∀ project, Encloses profile repository.listed root project
        ↔ Encloses profile repository.present root project := by
    rw [nearestProject, nearestProject, List.find?_congr hcandidate, List.find?_congr hcaptured]
    exact eq_comm.trans nearestProject_dir_eq_iff
  have hnone : ∀ paths : BTreeSet RepoPath, profile = .rustNative →
      ∀ project, ¬ Encloses profile paths root project := by
    rintro paths rfl project ⟨_, _, _, _, hproject, _⟩
    cases hproject
  rw [and_iff_left hcomplete]
  cases profile with
  | fast => cases hnative
  | nodeNative => exact hnearest
  | pythonNative => exact hnearest
  | rustNative =>
    exact ⟨fun _ project => iff_of_false (hnone _ rfl project) (hnone _ rfl project), fun _ => rfl⟩

end

/-! ## Two repositories -/

def focusedRoot : WorkspaceRoot := ⟨ascii "app/x", some ⟨ascii "app/x", by decide⟩⟩

def focusedSelection : HostSelection := ⟨[.pythonNative], false, [focusedRoot]⟩

/-- A project `app`, with the edited file in the selected root `app/x`. -/
def keptProject : NativeRepository where
  baselineTree := ascii "4b825dc642cb6eb9a060e54bf8d69288fbee4904"
  before := BTreeMap.ofList [(⟨ascii "app/b.py", by decide⟩, []),
    (⟨ascii "app/pyproject.toml", by decide⟩, []), (⟨ascii "app/x/a.py", by decide⟩, [])]
  listed := BTreeSet.ofList [⟨ascii "app/b.py", by decide⟩,
    ⟨ascii "app/pyproject.toml", by decide⟩, ⟨ascii "app/x/a.py", by decide⟩]
  after := BTreeMap.ofList [(⟨ascii "app/b.py", by decide⟩, []),
    (⟨ascii "app/pyproject.toml", by decide⟩, []), (⟨ascii "app/x/a.py", by decide⟩, [120, 10])]
  targets := ⟨[]⟩

/-- The same with the project file deleted in the index. -/
def deletedProject : NativeRepository :=
  { keptProject with
    listed := BTreeSet.ofList [⟨ascii "app/b.py", by decide⟩, ⟨ascii "app/x/a.py", by decide⟩]
    after := BTreeMap.ofList [(⟨ascii "app/b.py", by decide⟩, []),
      (⟨ascii "app/x/a.py", by decide⟩, [120, 10])] }

/-- The candidate paths of a repository and its capture with the planned roots. -/
def plannedCapture (repository : NativeRepository) :
    Option (NativeCapturePlan × BTreeSet RepoPath × @GitNativeCapture identityDigest) := do
  let plan ← (nativeCapturePlan repository focusedSelection).toOption
  let candidates ← (repository.candidatePaths (captureRoots focusedSelection)
    (captureFilter focusedSelection)).toOption
  let capture ← (@NativeRepository.captureNative identityDigest repository plan.roots
    plan.filter).toOption
  return (plan, candidates, capture)

theorem plannedCapture_eq_some {repository : NativeRepository} {plan : NativeCapturePlan}
    {candidates : BTreeSet RepoPath} {capture : @GitNativeCapture identityDigest}
    (h : plannedCapture repository = some (plan, candidates, capture)) :
    nativeCapturePlan repository focusedSelection = .ok plan
      ∧ repository.candidatePaths (captureRoots focusedSelection) (captureFilter focusedSelection)
        = .ok candidates
      ∧ @NativeRepository.captureNative identityDigest repository plan.roots plan.filter
        = .ok capture := by
  obtain ⟨plan', hplan, h⟩ := Option.bind_eq_some_iff.mp h
  obtain ⟨candidates', hcandidates, h⟩ := Option.bind_eq_some_iff.mp h
  obtain ⟨capture', hcapture, h⟩ := Option.bind_eq_some_iff.mp h
  cases h
  exact ⟨Except.toOption_eq_some_iff.mp hplan, Except.toOption_eq_some_iff.mp hcandidates,
    Except.toOption_eq_some_iff.mp hcapture⟩

/-- With the project file kept, both searches find the project `app`. -/
theorem plannedContext_kept :
    ∃ plan candidates capture, plannedCapture keptProject = some (plan, candidates, capture)
      ∧ (projectContextFromPaths candidates focusedRoot .pythonNative).dir
        = some ⟨ascii "app", by decide⟩
      ∧ (@projectContext identityDigest capture focusedRoot .pythonNative).dir
        = (projectContextFromPaths candidates focusedRoot .pythonNative).dir := by
  have hrun : (plannedCapture keptProject).isSome = true := by decide +kernel
  have hfound : (plannedCapture keptProject).all (fun run =>
      (projectContextFromPaths run.2.1 focusedRoot .pythonNative).dir
        = some ⟨ascii "app", by decide⟩) = true := by decide +kernel
  obtain ⟨⟨plan, candidates, capture⟩, hsome⟩ := Option.isSome_iff_exists.mp hrun
  rw [hsome] at hfound
  obtain ⟨hplan, hcandidates, hcapture⟩ := plannedCapture_eq_some hsome
  have hpaths : keptProject.present = keptProject.listed := by decide +kernel
  refine ⟨plan, candidates, capture, hsome, of_decide_eq_true hfound, ?_⟩
  refine ((@plannedContext_iff identityDigest keptProject focusedSelection candidates plan capture
    focusedRoot .pythonNative hplan hcandidates hcapture (by decide) (by decide) rfl).mpr ?_).1
  rw [hpaths]
  exact fun _ => Iff.rfl

/-- With the project file deleted, the plan takes `app/x` for the context and
    captures it alone; the evaluation then finds `app`, with `app/b.py` missing. -/
theorem plannedContext_deleted :
    ∃ plan candidates capture, nativeCapturePlan deletedProject focusedSelection = .ok plan
      ∧ deletedProject.candidatePaths (captureRoots focusedSelection)
        (captureFilter focusedSelection) = .ok candidates
      ∧ @NativeRepository.captureNative identityDigest deletedProject plan.roots plan.filter
        = .ok capture
      ∧ (projectContextFromPaths candidates focusedRoot .pythonNative).dir
        = some ⟨ascii "app/x", by decide⟩
      ∧ (@projectContext identityDigest capture focusedRoot .pythonNative).dir
        = some ⟨ascii "app", by decide⟩
      ∧ (⟨ascii "app/b.py", by decide⟩ : RepoPath) ∈ deletedProject.listed
      ∧ (⟨ascii "app/b.py", by decide⟩ : RepoPath)
        ∉ (@GitNativeCapture.paths identityDigest capture).keySet := by
  have hrun : (plannedCapture deletedProject).isSome = true := by decide +kernel
  have hfound : (plannedCapture deletedProject).all (fun run =>
      (projectContextFromPaths run.2.1 focusedRoot .pythonNative).dir
          = some ⟨ascii "app/x", by decide⟩
        ∧ (@projectContext identityDigest run.2.2 focusedRoot .pythonNative).dir
          = some ⟨ascii "app", by decide⟩
        ∧ (⟨ascii "app/b.py", by decide⟩ : RepoPath)
          ∉ (@GitNativeCapture.paths identityDigest run.2.2).keySet) = true := by
    decide +kernel
  obtain ⟨⟨plan, candidates, capture⟩, hsome⟩ := Option.isSome_iff_exists.mp hrun
  rw [hsome] at hfound
  obtain ⟨hplan, hcandidates, hcapture⟩ := plannedCapture_eq_some hsome
  obtain ⟨hplanned, hevaluated, hmissing⟩ := of_decide_eq_true hfound
  exact ⟨plan, candidates, capture, hplan, hcandidates, hcapture, hplanned, hevaluated,
    by decide +kernel, hmissing⟩

end Opcore
