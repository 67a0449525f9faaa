/-
  Opcore.Policy.ProjectRoots

  The project roots of a provider.  They are checked twice, as texts when the
  configuration is read and as paths when a check selects them; what the first check
  accepts the second does too, and accepted roots have no path in common.
-/
import Opcore.Protocol.Context

namespace Opcore

open Text Collections Asp

def maxTargetPaths : Nat := 256

/-- The `Display` of a path error. -/
def PathError.text : PathError → Str
  | .empty => ascii "repository path is empty"
  | .absolute => ascii "repository path must be relative"
  | .invalidComponent =>
    ascii "repository path contains an empty, dot, or parent component"
  | .nul => ascii "repository path contains NUL"
  | .tooLong => ascii "repository path exceeds 4096 bytes"

/-! ## Roots in the configuration -/

structure ProviderOptions where
  roots : List Str := [ascii "."]
  deriving DecidableEq

/-- Two configured roots of which one holds the other. -/
def configuredRootsOverlap (left right : Str) : Bool :=
  left = ascii "." || right = ascii "." || left = right || liesUnder left right
    || liesUnder right left

def validateRoot (name root : Str) : Except Str Unit :=
  if root = ascii "." then .ok ()
  else
    match RepoPath.fromProtocol root with
    | .ok _ => .ok ()
    | .error error => .error (ascii "providers." ++ name ++ ascii ".roots: " ++ error.text)

/-- The loop of `validate`, with the roots before. -/
def validateRoots (name : Str) : List Str → List Str → Except Str Unit
  | _, [] => .ok ()
  | previous, root :: roots =>
    match validateRoot name root with
    | .error error => .error error
    | .ok () =>
      if previous.any fun other => configuredRootsOverlap root other then
        .error (ascii "providers." ++ name
          ++ ascii ".roots must contain distinct non-overlapping project paths")
      else validateRoots name (previous ++ [root]) roots

def ProviderOptions.validate (options : ProviderOptions) (name : Str) : Except Str Unit :=
  if maxTargetPaths < options.roots.length then
    .error (ascii "providers." ++ name ++ ascii ".roots exceeds 256 paths")
  else validateRoots name [] options.roots

/-! ## Selected roots -/

/-- Two selected roots of which one holds the other. -/
def rootsOverlap (left right : WorkspaceRoot) : Bool :=
  match left.dir, right.dir with
  | some left, some right =>
    pathHasPrefix left.bytes right.bytes || pathHasPrefix right.bytes left.bytes
  | _, _ => true

def trimEndSlashes (value : Str) : Str := (value.reverse.dropWhile (· = byte '/')).reverse

def selectedRoot (value : Str) : Except Str WorkspaceRoot :=
  let normalized := trimEndSlashes value
  if normalized = ascii "." then .ok repositoryRoot
  else
    match RepoPath.fromProtocol normalized with
    | .ok dir => .ok ⟨dir.displayLossless, some dir⟩
    | .error _ => .error (ascii "validate selected root " ++ value)

/-- The loop of `selected_roots`, with the roots so far. -/
def selectRoots : List WorkspaceRoot → List Str → Except Str (List WorkspaceRoot)
  | roots, [] => .ok roots
  | roots, value :: values =>
    match selectedRoot value with
    | .error error => .error error
    | .ok root =>
      if roots.any fun existing => rootsOverlap existing root then
        .error (ascii "selected roots overlap at " ++ root.label)
      else selectRoots (roots ++ [root]) values

def selectedRoots (values : List Str) : Except Str (List WorkspaceRoot) :=
  if values.isEmpty then .ok [repositoryRoot] else selectRoots [] values

/-! ## The two checks agree -/

theorem getLast?_ne_of_validate {bytes : Str} (h : Opcore.validate bytes = .ok ()) :
    bytes.getLast? ≠ some (byte '/') := by
  intro hlast
  obtain ⟨front, rfl⟩ := List.getLast?_eq_some_iff.mp hlast
  unfold Opcore.validate at h
  split_ifs at h with _ _ _ _ _ hparts
  apply hparts
  -- the last component is empty
  rw [List.splitOnP_append_cons _ _ (by decide), List.any_append]
  exact Bool.or_eq_true_iff.mpr (.inr rfl)

theorem trimEndSlashes_of_getLast? {value : Str} (h : value.getLast? ≠ some (byte '/')) :
    trimEndSlashes value = value := by
  rw [trimEndSlashes]
  cases hreverse : value.reverse with
  | nil => rw [List.dropWhile_nil, ← hreverse, List.reverse_reverse]
  | cons b rest =>
    have hb : b ≠ byte '/' := by
      rintro rfl
      apply h
      rw [← List.head?_reverse, hreverse]
      rfl
    rw [List.dropWhile_cons_of_neg (by simpa using hb), ← hreverse, List.reverse_reverse]

theorem fromProtocol_eq_ok {value : Str} {dir : RepoPath} (h : RepoPath.fromProtocol value = .ok dir) :
    dir.bytes = value := by
  unfold RepoPath.fromProtocol RepoPath.new at h
  split_ifs at h
  split at h
  · cases h
    rfl
  · cases h

/-- What a configured root is selected as. -/
def Selects (value : Str) (root : WorkspaceRoot) : Prop :=
  (value = ascii "." ∧ root.dir = none) ∨ ∃ dir, root.dir = some dir ∧ dir.bytes = value

theorem selectedRoot_of_dot : selectedRoot (ascii ".") = .ok repositoryRoot := by decide

theorem selectedRoot_of_path {value : Str} {dir : RepoPath}
    (h : RepoPath.fromProtocol value = .ok dir) (hdot : value ≠ ascii ".") :
    selectedRoot value = .ok ⟨dir.displayLossless, some dir⟩ := by
  have hbytes := fromProtocol_eq_ok h
  have htrim : trimEndSlashes value = value :=
    trimEndSlashes_of_getLast? (getLast?_ne_of_validate (hbytes ▸ dir.valid))
  rw [selectedRoot, htrim, if_neg hdot, h]

/-- Roots that overlap as paths overlap as texts. -/
theorem configuredRootsOverlap_of_rootsOverlap {left right : Str} {l r : WorkspaceRoot}
    (hl : Selects left l) (hr : Selects right r) (h : rootsOverlap l r = true) :
    configuredRootsOverlap right left = true := by
  rw [configuredRootsOverlap]
  obtain ⟨hdot, -⟩ | ⟨dl, hdl, hleft⟩ := hl
  · simp [hdot]
  obtain ⟨hdot, -⟩ | ⟨dr, hdr, hright⟩ := hr
  · simp [hdot]
  rw [rootsOverlap, hdl, hdr, Bool.or_eq_true, pathHasPrefix, pathHasPrefix, hleft, hright] at h
  simp only [Bool.or_eq_true, decide_eq_true_eq] at h ⊢
  obtain (heq | hunder) | (heq | hunder) := h
  · exact .inl (.inl (.inr heq.symm))
  · exact .inr hunder
  · exact .inl (.inl (.inr heq))
  · exact .inl (.inr hunder)

/-- A root that the configuration accepts is selected. -/
theorem exists_selectedRoot {name value : Str} (h : validateRoot name value = .ok ()) :
    ∃ root, selectedRoot value = .ok root ∧ Selects value root := by
  rw [validateRoot] at h
  split_ifs at h with hdot
  · subst hdot
    exact ⟨repositoryRoot, selectedRoot_of_dot, .inl ⟨rfl, rfl⟩⟩
  · cases hpath : RepoPath.fromProtocol value with
    | error error =>
      rw [hpath] at h
      cases h
    | ok dir =>
      exact ⟨_, selectedRoot_of_path hpath hdot, .inr ⟨dir, rfl, fromProtocol_eq_ok hpath⟩⟩

theorem exists_selectRoots {name : Str} {previous values : List Str} {roots : List WorkspaceRoot}
    (hroots : ∀ root ∈ roots, ∃ value ∈ previous, Selects value root)
    (h : validateRoots name previous values = .ok ()) :
    ∃ selected, selectRoots roots values = .ok selected := by
  induction values generalizing previous roots with
  | nil => exact ⟨roots, rfl⟩
  | cons value values ih =>
    rw [validateRoots] at h
    cases hvalue : validateRoot name value with
    | error error =>
      rw [hvalue] at h
      cases h
    | ok _ =>
      obtain ⟨root, hselected, hselects⟩ := exists_selectedRoot hvalue
      rw [hvalue] at h
      dsimp only at h
      split_ifs at h with hoverlap
      -- no root before overlaps as a text, so none does as a path
      have hapart : (roots.any fun existing => rootsOverlap existing root) = false := by
        rw [List.any_eq_false]
        intro existing hexisting hover
        obtain ⟨other, hother, hsame⟩ := hroots existing hexisting
        exact hoverlap (List.any_eq_true.mpr
          ⟨other, hother, configuredRootsOverlap_of_rootsOverlap hsame hselects hover⟩)
      rw [selectRoots, hselected]
      dsimp only
      rw [hapart, if_neg (by decide)]
      refine ih (fun new hnew => ?_) h
      obtain hold | hnew := List.mem_append.mp hnew
      · obtain ⟨other, hother, hsame⟩ := hroots new hold
        exact ⟨other, List.mem_append_left _ hother, hsame⟩
      · obtain rfl := List.mem_singleton.mp hnew
        exact ⟨value, List.mem_append_right _ (List.mem_singleton_self value), hselects⟩

/-- What the configuration accepts as roots can be selected. -/
theorem exists_selectedRoots {options : ProviderOptions} {name : Str}
    (h : options.validate name = .ok ()) : ∃ roots, selectedRoots options.roots = .ok roots := by
  rw [ProviderOptions.validate] at h
  split_ifs at h
  rw [selectedRoots]
  split_ifs
  · exact ⟨_, rfl⟩
  · exact exists_selectRoots nofun h

/-! ## Selected roots are disjoint -/

/-- No path lies under both roots. -/
def Apart (left right : WorkspaceRoot) : Prop :=
  ∀ path, ¬ (pathInWorkspaceRoot path left = true ∧ pathInWorkspaceRoot path right = true)

theorem apart_of_not_overlap {left right : WorkspaceRoot} (h : rootsOverlap left right = false) :
    Apart left right := by
  rintro path ⟨hleft, hright⟩
  rw [rootsOverlap] at h
  cases hl : left.dir with
  | none =>
    rw [hl] at h
    cases h
  | some l =>
    cases hr : right.dir with
    | none =>
      rw [hl, hr] at h
      cases h
    | some r =>
      rw [hl, hr, Bool.or_eq_false_iff] at h
      rw [pathInWorkspaceRoot, hl] at hleft
      rw [pathInWorkspaceRoot, hr] at hright
      -- of two directories above one path, one is above the other
      obtain habove | hbelow := pathHasPrefix_or_liesUnder hleft hright
      · rw [habove] at h
        cases h.1
      · rw [pathHasPrefix_of_liesUnder hbelow] at h
        cases h.2

theorem pairwise_selectRoots {roots selected : List WorkspaceRoot} {values : List Str}
    (hroots : roots.Pairwise Apart) (h : selectRoots roots values = .ok selected) :
    selected.Pairwise Apart := by
  induction values generalizing roots with
  | nil =>
    cases h
    exact hroots
  | cons value values ih =>
    rw [selectRoots] at h
    cases hvalue : selectedRoot value with
    | error error =>
      rw [hvalue] at h
      cases h
    | ok root =>
      rw [hvalue] at h
      dsimp only at h
      split_ifs at h with hoverlap
      refine ih (List.pairwise_append.mpr ⟨hroots, List.pairwise_singleton _ _, ?_⟩) h
      intro existing hexisting new hnew
      obtain rfl := List.mem_singleton.mp hnew
      apply apart_of_not_overlap
      rw [Bool.not_eq_true, List.any_eq_false] at hoverlap
      exact Bool.not_eq_true _ ▸ hoverlap existing hexisting

theorem pairwise_selectedRoots {values : List Str} {roots : List WorkspaceRoot}
    (h : selectedRoots values = .ok roots) : roots.Pairwise Apart := by
  rw [selectedRoots] at h
  split_ifs at h
  · cases h
    exact List.pairwise_singleton _ _
  · exact pairwise_selectRoots .nil h

/-! ## Capture roots are an exact cover -/

/-- A directory above another comes before it. -/
theorem le_of_pathHasPrefix {path dir : RepoPath}
    (h : pathHasPrefix path.bytes dir.bytes = true) : dir ≤ path := by
  have hle : dir.bytes ≤ path.bytes := by
    obtain heq | ⟨rest, hrest⟩ := pathHasPrefix_iff.mp h
    · rw [heq]
    · rw [hrest]
      exact not_lt.mp (@List.le_append_left _ _ _ dir.bytes (byte '/' :: rest))
  exact hle

/-- The loop of `minimalRoots`, over directories in order: what is kept is among what was given,
    and no two directories kept are one above the other. -/
theorem minimalRoots_loop {l minimal : List RepoPath} (hsorted : l.Pairwise (· < ·))
    (hlater : ∀ top ∈ minimal, ∀ root ∈ l, top < root)
    (hapart : minimal.Pairwise fun top root => pathHasPrefix root.bytes top.bytes = false
      ∧ pathHasPrefix top.bytes root.bytes = false) :
    let result := l.foldl (fun minimal root =>
      if minimal.all fun parent => !pathHasPrefix root.bytes parent.bytes then minimal ++ [root]
      else minimal) minimal
    (∀ top ∈ result, top ∈ minimal ∨ top ∈ l)
      ∧ result.Pairwise fun top root => pathHasPrefix root.bytes top.bytes = false
        ∧ pathHasPrefix top.bytes root.bytes = false := by
  induction l generalizing minimal with
  | nil => exact ⟨fun _ h => .inl h, hapart⟩
  | cons root l ih =>
    obtain ⟨hbefore, hsorted⟩ := List.pairwise_cons.mp hsorted
    rw [List.foldl_cons]
    split_ifs with hnew
    · obtain ⟨hmem, hpairwise⟩ := @ih (minimal ++ [root]) hsorted (by
          intro top htop r hr
          obtain hold | hroot := List.mem_append.mp htop
          · exact hlater top hold r (List.mem_cons_of_mem _ hr)
          · rw [List.mem_singleton.mp hroot]
            exact hbefore r hr) (by
          refine List.pairwise_append.mpr ⟨hapart, List.pairwise_singleton _ _, ?_⟩
          intro top htop r hr
          obtain rfl := List.mem_singleton.mp hr
          refine ⟨by simpa using List.all_eq_true.mp hnew top htop, ?_⟩
          -- the new directory comes later, so it is not above an old one
          rw [Bool.eq_false_iff]
          exact fun habove => absurd (hlater top htop r (List.mem_cons_self ..))
            (not_lt.mpr (le_of_pathHasPrefix habove)))
      refine ⟨fun top htop => ?_, hpairwise⟩
      obtain hold | hlist := hmem top htop
      · obtain hold | hroot := List.mem_append.mp hold
        · exact .inl hold
        · exact .inr (List.mem_cons.mpr (.inl (List.mem_singleton.mp hroot)))
      · exact .inr (List.mem_cons_of_mem _ hlist)
    · obtain ⟨hmem, hpairwise⟩ := @ih minimal hsorted
        (fun top htop r hr => hlater top htop r (List.mem_cons_of_mem _ hr)) hapart
      exact ⟨fun top htop => (hmem top htop).imp id (List.mem_cons_of_mem _), hpairwise⟩

/-- The minimal directories are among the directories, and none is above another. -/
theorem minimalRoots_spec (roots : List RepoPath) :
    (∀ top ∈ minimalRoots roots, top ∈ roots)
      ∧ (minimalRoots roots).Pairwise fun top root => pathHasPrefix root.bytes top.bytes = false
        ∧ pathHasPrefix top.bytes root.bytes = false := by
  obtain ⟨hmem, hpairwise⟩ := @minimalRoots_loop (BTreeSet.ofList roots).elems []
    (BTreeSet.ofList roots).sorted nofun .nil
  refine ⟨fun top htop => ?_, hpairwise⟩
  obtain hnone | hlist := hmem top htop
  · cases hnone
  · exact BTreeSet.mem_ofList.mp hlist

/-- A path lies under a minimal directory exactly when it lies under one of the directories. -/
theorem under_minimalRoots_iff {roots : List RepoPath} {path : RepoPath} :
    (∃ top ∈ minimalRoots roots, pathHasPrefix path.bytes top.bytes = true)
      ↔ ∃ root ∈ roots, pathHasPrefix path.bytes root.bytes = true := by
  constructor
  · rintro ⟨top, htop, hunder⟩
    exact ⟨top, (minimalRoots_spec roots).1 top htop, hunder⟩
  · rintro ⟨root, hroot, hunder⟩
    obtain ⟨top, htop, habove⟩ := exists_minimalRoot hroot
    exact ⟨top, htop, pathHasPrefix_trans hunder habove⟩

/-- The roots to capture for the contexts of a selection. -/
structure ExactCover (contexts : List WorkspaceRoot) (roots : List RepoPath) : Prop where
  antichain : roots.Pairwise fun top root => pathHasPrefix root.bytes top.bytes = false
    ∧ pathHasPrefix top.bytes root.bytes = false
  covers : ∀ path : RepoPath, (∃ root ∈ roots, pathHasPrefix path.bytes root.bytes = true)
    ↔ ∃ context ∈ contexts, pathInWorkspaceRoot path context = true

/-- Either every context has a directory, or one is the whole repository. -/
theorem mapM_dir_cases (contexts : List WorkspaceRoot) :
    (contexts.mapM WorkspaceRoot.dir = none ∧ ∃ context ∈ contexts, context.dir = none)
      ∨ ∃ dirs, contexts.mapM WorkspaceRoot.dir = some dirs
        ∧ (∀ context ∈ contexts, context.dir ≠ none)
        ∧ ∀ path : RepoPath, (∃ root ∈ dirs, pathHasPrefix path.bytes root.bytes = true)
          ↔ ∃ context ∈ contexts, pathInWorkspaceRoot path context = true := by
  induction contexts with
  | nil => exact .inr ⟨[], rfl, nofun, fun path => by simp⟩
  | cons context contexts ih =>
    rw [List.mapM_cons]
    cases hdir : context.dir with
    | none => exact .inl ⟨rfl, context, List.mem_cons_self .., hdir⟩
    | some dir =>
      have hhead : ∀ path, pathInWorkspaceRoot path context
          = pathHasPrefix path.bytes dir.bytes := by
        intro path
        rw [pathInWorkspaceRoot, hdir]
        rfl
      obtain ⟨hnone, other, hother, hwhole⟩ | ⟨dirs, hdirs, hall, hcovers⟩ := ih
      · exact .inl ⟨by rw [hnone]; rfl, other, List.mem_cons_of_mem _ hother, hwhole⟩
      · refine .inr ⟨dir :: dirs, by rw [hdirs]; rfl, ?_, fun path => ?_⟩
        · intro c hc
          obtain rfl | hc := List.mem_cons.mp hc
          · rw [hdir]
            exact Option.some_ne_none dir
          · exact hall c hc
        · have hrest := hcovers path
          simp only [List.mem_cons, exists_eq_or_imp, hhead, hrest]

/-- What is captured for a selection: nothing in particular, which is the whole repository, or
    directories of which none holds another and that together hold what the contexts do. -/
theorem project_roots_exact :
    (∀ (options : ProviderOptions) (name : Str), options.validate name = .ok () →
      ∃ roots, selectedRoots options.roots = .ok roots)
    ∧ (∀ values roots, selectedRoots values = .ok roots → roots.Pairwise Apart)
    ∧ ∀ (paths : BTreeSet RepoPath) (selection : HostSelection),
      let contexts := plannedContexts paths selection
      (projectCaptureRoots paths selection = []
        ↔ contexts = [] ∨ ∃ context ∈ contexts, context.dir = none)
      ∧ (projectCaptureRoots paths selection ≠ [] →
        ExactCover contexts (projectCaptureRoots paths selection)) := by
  refine ⟨fun _ _ h => exists_selectedRoots h, fun _ _ h => pairwise_selectedRoots h, ?_⟩
  intro paths selection contexts
  rw [projectCaptureRoots]
  obtain ⟨hnone, hwhole⟩ | ⟨dirs, hdirs, hall, hcovers⟩ := mapM_dir_cases contexts
  · rw [hnone]
    exact ⟨⟨fun _ => .inr hwhole, fun _ => rfl⟩, fun h => absurd rfl h⟩
  · rw [hdirs]
    dsimp only
    refine ⟨⟨fun hempty => .inl ?_, ?_⟩, fun _ => ?_⟩
    · -- a context would have a root above its directory
      rw [List.eq_nil_iff_forall_not_mem]
      intro context hcontext
      obtain ⟨dir, hdir⟩ := Option.ne_none_iff_exists'.mp (hall context hcontext)
      have hself : pathInWorkspaceRoot dir context = true := by
        rw [pathInWorkspaceRoot, hdir]
        exact pathHasPrefix_iff.mpr (.inl rfl)
      obtain ⟨root, hroot, -⟩ := (hcovers dir).mpr ⟨context, hcontext, hself⟩
      obtain ⟨top, htop, -⟩ := exists_minimalRoot hroot
      rw [hempty] at htop
      cases htop
    · rintro (hempty | ⟨context, hcontext, hwhole⟩)
      · have hnil : contexts.mapM WorkspaceRoot.dir = some [] := by rw [hempty]; rfl
        cases hdirs.symm.trans hnil
        rfl
      · exact absurd hwhole (hall context hcontext)
    · exact ⟨(minimalRoots_spec dirs).2, fun path => under_minimalRoots_iff.trans (hcovers path)⟩

end Opcore
