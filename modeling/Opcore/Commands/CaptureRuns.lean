/-
  Opcore.Commands.CaptureRuns

  The capture of a workspace access by access: a sentinel, a look at each of its paths, a
  read of each, and a second sentinel.  Others edit the worktree all the while.
-/
import Opcore.Commands.Freshness
import Opcore.Source.Workspace

namespace Opcore.CaptureRuns

open Text Collections Workflows

section

variable [Platform]

/-! ## The repository -/

/-- What stays fixed during a capture: the objects and the targets, the entries of `HEAD`, the
    index with the paths it marks and the sparse ones, and what Git reports of a worktree. -/
structure Repository where
  catFile : CatFile
  targets : TargetPolicy
  headEntries : BTreeMap RepoPath TreeEntry
  special : BTreeSet RepoPath
  sparse : BTreeSet RepoPath
  index : BTreeMap RepoPath TreeEntry
  status : Worktree → BTreeSet RepoPath

namespace Repository

variable (repository : Repository)

def dependencyCandidate (path : RepoPath) : Bool :=
  isDependencyCaptureCandidate path && (isGoModuleFile path || repository.targets.includes path)

/-- The paths that Git reports of a worktree. -/
def worktreePaths (files : Worktree) : BTreeSet RepoPath :=
  (repository.status files).filter repository.dependencyCandidate

/-- The paths of a sentinel. -/
def paths (worktreePaths : BTreeSet RepoPath) : BTreeSet RepoPath :=
  (worktreePaths.filter repository.dependencyCandidate).union
    (repository.special.filter repository.dependencyCandidate)

end Repository

/-- `read_regular_no_follow` of a path that has a file. -/
def readRegular (path : RepoPath) (file : WorktreeFile) : Except SourceError Str :=
  if maxSourceBytes < file.content.length then
    .error (.incomplete (path.displayLossless ++ ascii " exceeds 4194304 bytes"))
  else .ok file.content

/-- The repository at rest, with the given files. -/
def Repository.atRest (repository : Repository) (files : Worktree) : GitWorktree where
  catFile := repository.catFile
  headEntries := repository.headEntries.filter fun path _ => repository.dependencyCandidate path
  paths := repository.paths (repository.worktreePaths files)
  worktreePaths := repository.worktreePaths files
  contents := files.filterMap fun path file => some (readRegular path file)
  sparse := repository.sparse
  index := repository.index

/-! ## Sentinels -/

/-- What `collect_worktree_manifest` gathers. -/
structure Manifest where
  contents : BTreeMap RepoPath ContentId := ∅
  generations : BTreeMap RepoPath Str := ∅
  missing : BTreeSet RepoPath := ∅
  totalBytes : Nat := 0

def scanManifestPath [Sha256] (manifest : Manifest) (path : RepoPath) :
    Option WorktreeFile → Except SourceError Manifest
  | some file => do
    let bytes ← readRegular path file
    let totalBytes ←
      addBoundedBlobLength manifest.totalBytes bytes.length path maxTotalSourceBytes
    return { manifest with
      totalBytes
      contents := manifest.contents.insert path (ContentId.of bytes)
      generations := manifest.generations.insert path file.state }
  | none => .ok { manifest with
      missing := manifest.missing.insert path
      generations := manifest.generations.insert path noMetadata }

/-- The contents with those that the index has of sparse paths. -/
def Repository.mergeSparseContents [Sha256] (repository : Repository) (manifest : Manifest) :
    Except SourceError (BTreeMap RepoPath ContentId) := do
  let sparse := manifest.missing.filter fun path => path ∈ repository.sparse
  let entries := repository.index.filter fun path _ => path ∈ sparse
  let blobs ← gitBlobsFromObjectsBounded repository.catFile entries.entries
    (maxTotalSourceBytes - manifest.totalBytes)
  return manifest.contents.extend (blobs.map fun blob => (blob.path, ContentId.of blob.bytes))

/-- The states of a scope: `scope_state`, and `worktree_state` which is that of its contents. -/
structure ScopeState where
  scopeState : Str
  worktreeState : Str
  deriving DecidableEq

def Repository.scopeState [Sha256] (repository : Repository) (worktreePaths : BTreeSet RepoPath)
    (manifest : Manifest) : Except SourceError ScopeState := do
  let contents ← repository.mergeSparseContents manifest
  let content := worktreeState worktreePaths contents fun path => (detectLanguage path).isSome
  let generation := generationState manifest.generations
  let state := hashDomain (ascii "git-worktree-state/v3") [content, generation]
  return ⟨Sha256.digest state, content⟩

/-- A sentinel as it was taken: when Git listed the paths, and a look at each. -/
structure Observed where
  instant : Nat
  worktreePaths : BTreeSet RepoPath
  scope : ScopeState
  looks : BTreeMap RepoPath Look

/-- What two sentinels are compared by; `HEAD` and the index are those of the repository. -/
structure WorkspaceSentinel where
  worktreePaths : BTreeSet RepoPath
  scope : ScopeState
  paths : BTreeSet RepoPath
  generations : Str
  deriving DecidableEq

def Observed.generations (observed : Observed) : BTreeMap RepoPath Str :=
  observed.looks.mapValues fun look => metadataState look.file

def Observed.sentinel [Sha256] (observed : Observed) (repository : Repository) :
    WorkspaceSentinel where
  worktreePaths := observed.worktreePaths
  scope := observed.scope
  paths := repository.paths observed.worktreePaths
  generations := generationState observed.generations

/-! ## One capture -/

/-- What reading gives at each look. -/
def lookedContents (looks : BTreeMap RepoPath Look) :
    BTreeMap RepoPath (Except SourceError Str) :=
  looks.filterMap fun path look => look.file.map (readRegular path)

/-- The repository as looks at its paths found it. -/
def Repository.looked (repository : Repository) (worktreePaths : BTreeSet RepoPath)
    (looks : BTreeMap RepoPath Look) : GitWorktree where
  catFile := repository.catFile
  headEntries := repository.headEntries.filter fun path _ => repository.dependencyCandidate path
  paths := repository.paths worktreePaths
  worktreePaths := worktreePaths
  contents := lookedContents looks
  sparse := repository.sparse
  index := repository.index

/-- The entries of `HEAD` that are captured. -/
def capturedEntries (worktree : GitWorktree) : BTreeMap RepoPath TreeEntry :=
  worktree.headEntries.filter fun path _ => isDependencyCaptureCandidate path

def capturedPaths (worktree : GitWorktree) : BTreeSet RepoPath :=
  (capturedEntries worktree).keySet.union worktree.paths

def filesBefore (worktree : GitWorktree) : Except SourceError (List SourceFile) :=
  filesFromGitObjects worktree.catFile
    ((capturedEntries worktree).filter fun path _ => (detectLanguage path).isSome).entries

/-- The end of `capture_workspace_once`: the looks of `workspace_after_paths`, those of the reads,
    and the files of `HEAD` and of the worktree. -/
def captureOnce [Sha256] (placed reads : GitWorktree) (beforeFiles : List SourceFile)
    (batch : SourceBatch) : Except SourceError GitWorkspaceCapture := do
  let beforePaths := (capturedEntries placed).keySet
  let afterPaths := placed.afterPaths beforePaths placed.paths
  let overlayFiles ← appendSparseFiles reads reads.paths batch
  let afterFiles := applyWorkspaceOverlay beforeFiles placed.paths overlayFiles
  return {
    before := .new beforeFiles
    after := .new afterFiles
    paths := capturedPaths placed
    changedPaths := changedSourcePaths beforeFiles afterFiles
    beforeUnsupportedFiles := unsupportedCount beforePaths
    afterUnsupportedFiles := unsupportedCount afterPaths
    unsupportedChangedFiles := (placed.worktreePaths.filter isUnsupported).size }

/-! ## The run -/

def captureAttempts : Nat := 2

/-- Which sentinel of an attempt is taken, and what the attempt has so far. -/
inductive Progress where
  | first (attempt : Nat)
  | second (attempt : Nat) (before : Observed) (capture : GitWorkspaceCapture)

/-- The start of a sentinel: what Git listed, and when. -/
structure Listed where
  instant : Nat
  worktreePaths : BTreeSet RepoPath

inductive Flow where
  | listing (progress : Progress)
  | scanning (progress : Progress) (listed : Listed) (manifest : Manifest) (todo : List RepoPath)
  | looking (progress : Progress) (listed : Listed) (scope : ScopeState)
      (looks : BTreeMap RepoPath Look) (todo : List RepoPath)
  | placing (attempt : Nat) (before : Observed) (placed : BTreeMap RepoPath Look)
      (todo : List RepoPath)
  | reading (attempt : Nat) (before : Observed) (placed reads : BTreeMap RepoPath Look)
      (beforeFiles : List SourceFile) (batch : SourceBatch) (todo : List RepoPath)
  | finished (before : Observed) (capture : GitWorkspaceCapture) (after : Observed)
  | failed

structure World extends History where
  flow : Flow := .listing (.first 1)

variable (repository : Repository)

/-- Another attempt, unless this was the last. -/
def retry (attempt : Nat) : Flow :=
  if attempt < captureAttempts then .listing (.first (attempt + 1)) else .failed

/-- A capture that fails because something changed is tried again. -/
def giveUp (attempt : Nat) : SourceError → Flow
  | .changed _ => retry attempt
  | _ => .failed

/-- What follows a sentinel: the looks of the capture, or the comparison with the first one. -/
def Progress.next [Sha256] (observed : Observed) : Progress → Flow
  | .first attempt =>
    let paths := capturedPaths (repository.looked observed.worktreePaths ∅)
    match GitWorkspaceCapture.requirePathBound paths with
    | .ok () => .placing attempt observed ∅ (repository.paths observed.worktreePaths).elems
    | .error error => giveUp attempt error
  | .second attempt before capture =>
    if before.sentinel repository = observed.sentinel repository then
      .finished before capture observed
    else retry attempt

/-- The next access of `capture_workspace` to the worktree. -/
def World.advance [Sha256] (w : World) : Flow :=
  match w.flow with
  | .listing progress =>
    let worktreePaths := repository.worktreePaths w.files
    .scanning progress ⟨w.now, worktreePaths⟩ {}
      (worktreePaths.filter fun path => (detectLanguage path).isSome).elems
  | .scanning progress listed manifest (path :: todo) =>
    match scanManifestPath manifest path (w.files.get? path) with
    | .ok manifest => .scanning progress listed manifest todo
    | .error _ => .failed
  | .scanning progress listed manifest [] =>
    match repository.scopeState listed.worktreePaths manifest with
    | .ok scope =>
      .looking progress listed scope ∅ (repository.paths listed.worktreePaths).elems
    | .error _ => .failed
  | .looking progress listed scope looks (path :: todo) =>
    .looking progress listed scope (looks.insert path (w.look path)) todo
  | .looking progress listed scope looks [] =>
    progress.next repository
      ⟨listed.instant, listed.worktreePaths, scope, looks⟩
  | .placing attempt before placed (path :: todo) =>
    .placing attempt before (placed.insert path (w.look path)) todo
  | .placing attempt before placed [] =>
    match filesBefore (repository.looked before.worktreePaths placed) with
    | .ok beforeFiles => .reading attempt before placed ∅ beforeFiles {}
        (repository.paths before.worktreePaths).elems
    | .error error => giveUp attempt error
  | .reading attempt before placed reads beforeFiles batch (path :: todo) =>
    let reads := reads.insert path (w.look path)
    match (repository.looked before.worktreePaths reads).readWorktreePath batch path with
    | .ok batch => .reading attempt before placed reads beforeFiles batch todo
    | .error error => giveUp attempt error
  | .reading attempt before placed reads beforeFiles batch [] =>
    match captureOnce (repository.looked before.worktreePaths placed)
        (repository.looked before.worktreePaths reads) beforeFiles batch with
    | .ok capture => .listing (.second attempt before capture)
    | .error error => giveUp attempt error
  | .finished before capture after => .finished before capture after
  | .failed => .failed

def step [Sha256] (w : World) : Action → Option World
  | .edit edit =>
    if edit.Fresh w.initial w.edits then some { w with edits := w.edits ++ [edit] } else none
  | .advance => some { w with flow := w.advance repository }

end

end Opcore.CaptureRuns
