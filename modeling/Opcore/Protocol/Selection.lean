/-
  Opcore.Protocol.Selection

  Provider roots and project contexts of the ASP host.  The context of a root is
  looked for twice: among the candidate paths when the capture is planned, and
  among the captured paths when it is evaluated.
-/
import Opcore.Protocol.Session
import Opcore.Source.NativeCapture

namespace Opcore

open Text Collections Asp

/-! ## Roots -/

/-- A selected root; `dir` is the field `prefix`, absent for the whole repository. -/
structure WorkspaceRoot where
  label : Str
  dir : Option RepoPath
  deriving DecidableEq

/-- What was asked to be checked: the providers and the roots. -/
structure HostSelection where
  profiles : List ProviderProfile
  skipInapplicable : Bool
  roots : List WorkspaceRoot

def Asp.ProviderProfile.isNative : ProviderProfile → Bool
  | .fast => false
  | _ => true

def repositoryRoot : WorkspaceRoot := ⟨ascii ".", none⟩

def pathInWorkspaceRoot (path : RepoPath) (root : WorkspaceRoot) : Bool :=
  root.dir.all fun dir => pathHasPrefix path.bytes dir.bytes

/-- The name of a path directly in a root's directory. -/
def contextFilename (path : RepoPath) (root : WorkspaceRoot) : Option Str :=
  match root.dir with
  | some dir =>
    ((stripPrefix dir.bytes path.bytes).bind (stripPrefix (ascii "/"))).filter fun suffix =>
      !suffix.contains (byte '/')
  | none => if path.bytes.contains (byte '/') then none else some path.bytes

def hasContextFile (paths : BTreeSet RepoPath) (root : WorkspaceRoot) (name : Str) : Bool :=
  paths.elems.any fun path => contextFilename path root = some name

def isTsconfigName (name : Str) : Bool :=
  name = ascii "tsconfig.json"
    || ((ascii "tsconfig.").isPrefixOf name && (ascii ".json").isSuffixOf name)

def nodeContext (paths : BTreeSet RepoPath) (root : WorkspaceRoot) : Bool :=
  hasContextFile paths root (ascii "package.json")
    && (hasContextFile paths root (ascii "package-lock.json")
      || hasContextFile paths root (ascii "npm-shrinkwrap.json"))
    && paths.elems.any fun path => (contextFilename path root).any isTsconfigName

def pythonContext (paths : BTreeSet RepoPath) (root : WorkspaceRoot) : Bool :=
  pythonContextNames.any fun name => hasContextFile paths root name

/-- The directories from `current` up to its topmost component; each is shorter
    than the one before, so one round a byte is enough. -/
def ancestorDirs : Nat → Str → List Str
  | 0, current => [current]
  | n + 1, current =>
    current :: match rsplitOnce (byte '/') current with
      | some (parent, _) => ancestorDirs n parent
      | none => []

/-- A root and the directories above it, nearest first. -/
def ancestorRoots (root : WorkspaceRoot) : List WorkspaceRoot :=
  match root.dir with
  | none => [root]
  | some dir =>
    (ancestorDirs dir.bytes.length dir.bytes).map
      (fun current => ⟨utf8Lossy current, (RepoPath.new current).toOption⟩) ++ [repositoryRoot]

def projectContextFromPaths (paths : BTreeSet RepoPath) (root : WorkspaceRoot) :
    ProviderProfile → WorkspaceRoot
  | .nodeNative => ((ancestorRoots root).find? (nodeContext paths)).getD root
  | .pythonNative => ((ancestorRoots root).find? (pythonContext paths)).getD root
  | .rustNative => repositoryRoot
  | .fast => root

/-! ## The plan of a capture -/

def captureRoots (selection : HostSelection) : List RepoPath :=
  selection.roots.filterMap WorkspaceRoot.dir

def captureFilter (selection : HostSelection) : NativeCaptureFilter :=
  selection.profiles.foldl (fun filter profile =>
    match profile with
    | .fast => { filter with fast := true }
    | .rustNative => { filter with rust := true }
    | .nodeNative => { filter with node := true }
    | .pythonNative => { filter with python := true }) {}

def rustApplicableToAnyRoot (paths : BTreeSet RepoPath) (roots : List WorkspaceRoot) : Bool :=
  roots.any fun root => paths.elems.any fun path =>
    match root.dir with
    | some dir => path.bytes = dir.bytes ++ ascii "/Cargo.toml"
    | none => path.bytes = ascii "Cargo.toml"

/-- The directories that no other of them contains. -/
def minimalRoots (roots : List RepoPath) : List RepoPath :=
  (BTreeSet.ofList roots).elems.foldl (fun minimal root =>
    if minimal.all fun parent => !pathHasPrefix root.bytes parent.bytes then minimal ++ [root]
    else minimal) []

/-- The context of each provider and root as the candidate paths show it. -/
def plannedContexts (paths : BTreeSet RepoPath) (selection : HostSelection) : List WorkspaceRoot :=
  selection.profiles.flatMap fun profile => selection.roots.map fun root =>
    if profile = .rustNative then root else projectContextFromPaths paths root profile

/-- The roots to capture; none stand for the whole repository. -/
def projectCaptureRoots (paths : BTreeSet RepoPath) (selection : HostSelection) : List RepoPath :=
  match (plannedContexts paths selection).mapM WorkspaceRoot.dir with
  | none => []
  | some roots => minimalRoots roots

def validateSelectedRoots (candidatePaths : BTreeSet RepoPath) (selection : HostSelection) :
    Except Str Unit :=
  selection.roots.forM fun root =>
    match root.dir with
    | none => .ok ()
    | some dir =>
      if candidatePaths.elems.any fun path => pathHasPrefix path.bytes dir.bytes then .ok ()
      else .error (ascii "selected root " ++ root.label
        ++ ascii " contains no files supported by the selected providers")

/-- No input that a compiler reads may be excluded. -/
def validateNativeExclusions (paths : BTreeSet RepoPath) (selection : HostSelection)
    (targets : TargetPolicy) : Except Str Unit :=
  if selection.profiles.any ProviderProfile.isNative then
    targets.exclude.forM fun excluded =>
      match paths.elems.find? fun path => pathHasPrefix path.bytes excluded.bytes
          && selection.roots.any fun root => pathInWorkspaceRoot path root with
      | none => .ok ()
      | some path => .error (ascii "native project contains excluded input " ++ path.displayLossless
          ++ ascii "; the compiler requires its complete project context. "
          ++ ascii "Select separate projects with providers.<name>.roots or configure the "
          ++ ascii "compiler's own source selection")
  else .ok ()

structure NativeCapturePlan where
  roots : List RepoPath
  filter : NativeCaptureFilter

/-- The planned roots once the candidate paths are known. -/
def planRoots (candidatePaths : BTreeSet RepoPath) (selection : HostSelection) : List RepoPath :=
  if selection.profiles.contains .rustNative
      && rustApplicableToAnyRoot candidatePaths selection.roots then []
  else projectCaptureRoots candidatePaths selection

/-- What is captured: the roots with their contexts, and the filter. -/
def nativeCapturePlan (repository : NativeRepository) (selection : HostSelection) :
    Except Str NativeCapturePlan := do
  let filter := captureFilter selection
  let candidatePaths ← (repository.candidatePaths (captureRoots selection) filter).mapError
    fun _ => ascii "discover provider Git workspace paths"
  if !selection.skipInapplicable || selection.profiles.contains .fast then
    validateSelectedRoots candidatePaths selection
  validateNativeExclusions candidatePaths selection repository.targets
  return ⟨planRoots candidatePaths selection, filter⟩

/-! ## The context at evaluation -/

def projectContext [Sha256] (capture : GitNativeCapture) (root : WorkspaceRoot)
    (profile : ProviderProfile) : WorkspaceRoot :=
  projectContextFromPaths capture.paths.keySet root profile

def rebasePath (path : RepoPath) (root : WorkspaceRoot) : Option RepoPath :=
  match root.dir with
  | none => some path
  | some dir => do
    let suffix ← stripPrefix dir.bytes path.bytes
    let suffix ← stripPrefix (ascii "/") suffix
    (RepoPath.new suffix).toOption

def providerContextFile (profile : ProviderProfile) (name : Str) : Bool :=
  match profile with
  | .nodeNative => name ∈ nodeContextNames || isTsconfigName name
  | .pythonNative => name ∈ pythonContextNames
  | .fast | .rustNative => false

/-- Does the workspace of a context and a focus hold the path? -/
def inWorkspace (focus context : WorkspaceRoot) (profile : ProviderProfile) (path : RepoPath) :
    Bool :=
  (profile.isNative && pathInWorkspaceRoot path context) || pathInWorkspaceRoot path focus
    || (contextFilename path context).any (providerContextFile profile)

/-- The loop of `workspace_mapping`, with the destinations so far. -/
def mapPaths (focus context : WorkspaceRoot) (profile : ProviderProfile) :
    List RepoPath → BTreeSet RepoPath → BTreeMap RepoPath RepoPath →
    Except Str (BTreeMap RepoPath RepoPath)
  | [], _, mapping => .ok mapping
  | path :: paths, destinations, mapping =>
    if inWorkspace focus context profile path then
      match rebasePath path context with
      | none => .error (ascii "map " ++ path.displayLossless ++ ascii " into project context "
          ++ context.label)
      | some destination =>
        if destination ∈ destinations then
          .error (ascii "project context maps multiple files onto "
            ++ destination.displayLossless)
        else
          mapPaths focus context profile paths (destinations.insert destination)
            (mapping.insert path destination)
    else mapPaths focus context profile paths destinations mapping

def workspaceMapping [Sha256] (capture : GitNativeCapture) (focus context : WorkspaceRoot)
    (profile : ProviderProfile) : Except Str (BTreeMap RepoPath RepoPath) :=
  mapPaths focus context profile capture.paths.keys ∅ ∅

/-- A mapping has the rebased paths of the workspace, no two of them the same. -/
theorem mapPaths_ok {focus context : WorkspaceRoot} {profile : ProviderProfile}
    {paths : List RepoPath} {destinations : BTreeSet RepoPath}
    {mapping mapping' : BTreeMap RepoPath RepoPath} (hnodup : paths.Nodup)
    (h : mapPaths focus context profile paths destinations mapping = .ok mapping') :
    (∀ path, mapping'.get? path = if path ∈ paths ∧ inWorkspace focus context profile path then
        rebasePath path context else mapping.get? path)
      ∧ (∀ path ∈ paths, inWorkspace focus context profile path = true →
        ∃ destination, rebasePath path context = some destination ∧ destination ∉ destinations)
      ∧ ∀ path ∈ paths, ∀ path' ∈ paths, inWorkspace focus context profile path = true →
        inWorkspace focus context profile path' = true →
        rebasePath path context = rebasePath path' context → path = path' := by
  induction paths generalizing destinations mapping with
  | nil =>
    cases h
    simp
  | cons p paths ih =>
    obtain ⟨hfresh, hnodup⟩ := List.nodup_cons.mp hnodup
    unfold mapPaths at h
    split at h
    · next hp =>
      split at h
      · cases h
      · next destination hdestination =>
        split_ifs at h with hseen
        obtain ⟨hget, hnew, hinj⟩ := ih hnodup h
        -- A later path with this destination would have been refused.
        have hapart : ∀ q ∈ paths, inWorkspace focus context profile q = true →
            rebasePath q context ≠ some destination := by
          intro q hq hin heq
          obtain ⟨d, hd, hnot⟩ := hnew q hq hin
          rw [heq] at hd
          cases hd
          exact hnot (BTreeSet.mem_insert.mpr (.inl rfl))
        refine ⟨?_, ?_, ?_⟩
        · intro path
          rw [hget path, BTreeMap.get?_insert]
          by_cases heq : path = p
          · subst heq
            simp [hfresh, hp, hdestination]
          · simp [heq]
        · intro path hpath hin
          rcases List.mem_cons.mp hpath with rfl | hpath
          · exact ⟨destination, hdestination, hseen⟩
          · obtain ⟨d, hd, hnot⟩ := hnew path hpath hin
            exact ⟨d, hd, fun hmem => hnot (BTreeSet.mem_insert.mpr (.inr hmem))⟩
        · intro path hpath path' hpath' hin hin' heq
          rcases List.mem_cons.mp hpath with rfl | hrest
          · rcases List.mem_cons.mp hpath' with rfl | hrest'
            · rfl
            · exact absurd (heq.symm.trans hdestination) (hapart path' hrest' hin')
          · rcases List.mem_cons.mp hpath' with rfl | hrest'
            · exact absurd (heq.trans hdestination) (hapart path hrest hin)
            · exact hinj path hrest path' hrest' hin hin' heq
    · next hp =>
      obtain ⟨hget, hnew, hinj⟩ := ih hnodup h
      refine ⟨?_, ?_, ?_⟩
      · intro path
        rw [hget path]
        by_cases heq : path = p
        · subst heq
          simp [hfresh, hp]
        · simp [heq]
      · intro path hpath hin
        rcases List.mem_cons.mp hpath with rfl | hpath
        · exact absurd hin hp
        · exact hnew path hpath hin
      · intro path hpath path' hpath' hin hin' heq
        rcases List.mem_cons.mp hpath with rfl | hpath
        · exact absurd hin hp
        · rcases List.mem_cons.mp hpath' with rfl | hpath'
          · exact absurd hin' hp
          · exact hinj path hpath path' hpath' hin hin' heq

/-- A root as its context sees it, where it lies inside. -/
def relativeRoot (root context : WorkspaceRoot) : Option RepoPath :=
  match root.dir, context.dir with
  | some root, none => some root
  | some root, some context =>
    if root ≠ context then do
      let suffix ← stripPrefix context.bytes root.bytes
      let suffix ← stripPrefix (ascii "/") suffix
      (RepoPath.new suffix).toOption
    else none
  | none, _ => none

end Opcore
