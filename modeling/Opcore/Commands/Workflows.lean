/-
  Opcore.Commands.Workflows

  The freshness check around a workflow.  Configuration, Verify and Sense each see
  the worktree at an instant of their own; the workflow observes the metadata of the
  selected paths before and after, and returns a result only when both observations
  agree.  Others edit the worktree all the while.
-/
import Opcore.Source.Worktree
import Opcore.Library.BTreeSet
import Opcore.Library.Transition

namespace Opcore.Workflows

open Text Collections

/-! ## The workflow -/

/-- What the configuration selects: source paths and bound documents. -/
structure Selection where
  candidate : RepoPath → Bool
  documents : List RepoPath

/-- What stays fixed during a workflow: the paths of the index, the standard excludes,
    the path of the configuration and how its bytes are resolved. -/
structure Repository where
  tracked : List RepoPath
  ignored : RepoPath → Bool
  policyPath : RepoPath
  resolve : Option Str → Option Selection

/-- A look at one path.  The workflow keeps the state of the metadata only. -/
structure Look where
  instant : Nat
  file : Option WorktreeFile

/-- What `workspace_generation_state` goes through: the paths as they were listed, and
    a look at each. -/
structure Observation where
  instant : Nat
  paths : List RepoPath
  looks : BTreeMap RepoPath Look := ∅

structure Snapshot where
  instant : Nat
  files : Worktree

structure Configuration where
  retried : Bool
  policy : Look
  selection : Selection

/-- What an evaluation rests on. -/
structure Assessed where
  configuration : Configuration
  before : Observation
  verify : Snapshot
  sense : Snapshot

inductive Flow where
  | starting (retried : Bool)
  | configured (configuration : Configuration)
  | observing (configuration : Configuration) (before : Observation) (todo : List RepoPath)
  | verifying (configuration : Configuration) (before : Observation)
  | sensing (configuration : Configuration) (before : Observation) (verify : Snapshot)
  | evaluated (assessed : Assessed)
  | observingAgain (assessed : Assessed) (after : Observation) (todo : List RepoPath)
  | finished (assessed : Assessed) (after : Observation)
  | failed

/-- The worktree and all that was done to it. -/
structure History where
  initial : Worktree
  edits : List Edit := []

def History.now (history : History) : Nat := history.edits.length

def History.files (history : History) : Worktree :=
  worktreeAt history.initial history.edits history.now

structure World extends History where
  flow : Flow := .starting false

variable (repository : Repository)

def auxiliaryPaths (selection : Selection) : List RepoPath :=
  selection.documents ++ [repository.policyPath]

/-- The paths of an observation: the selected ones that are tracked or not ignored,
    and the auxiliary ones. -/
def observedPaths (selection : Selection) (files : Worktree) : BTreeSet RepoPath :=
  ((BTreeSet.ofList (repository.tracked.filter selection.candidate)).extend
    (files.keys.filter fun path =>
      path ∉ repository.tracked && !repository.ignored path && selection.candidate path)).extend
    (auxiliaryPaths repository selection)

def Observation.generations (observation : Observation) : BTreeMap RepoPath Str :=
  observation.looks.mapValues fun look => metadataState look.file

def History.look (history : History) (path : RepoPath) : Look :=
  ⟨history.now, history.files.get? path⟩

def History.list (history : History) (selection : Selection) : Observation :=
  { instant := history.now, paths := (observedPaths repository selection history.files).elems }

def Observation.add (observation : Observation) (path : RepoPath) (look : Look) : Observation :=
  { observation with looks := observation.looks.insert path look }

variable [Sha256]

/-- `is_current`: both observations agree, and so does the configuration. -/
def isCurrent (assessed : Assessed) (after : Observation) (policy : Look) : Bool :=
  generationState assessed.before.generations = generationState after.generations
    && metadataState assessed.configuration.policy.file = metadataState policy.file

/-- The next access of `evaluate_request` to the worktree. -/
def World.advance (w : World) : Flow :=
  match w.flow with
  | .starting retried =>
    let policy := w.look repository.policyPath
    match repository.resolve (policy.file.map WorktreeFile.content) with
    | none => .failed
    | some selection => .configured ⟨retried, policy, selection⟩
  | .configured configuration =>
    let before := w.list repository configuration.selection
    .observing configuration before before.paths
  | .observing configuration before [] => .verifying configuration before
  | .observing configuration before (path :: todo) =>
    .observing configuration (before.add path (w.look path)) todo
  | .verifying configuration before => .sensing configuration before ⟨w.now, w.files⟩
  | .sensing configuration before verify =>
    .evaluated ⟨configuration, before, verify, ⟨w.now, w.files⟩⟩
  | .evaluated assessed =>
    let after := w.list repository assessed.configuration.selection
    .observingAgain assessed after after.paths
  | .observingAgain assessed after (path :: todo) =>
    .observingAgain assessed (after.add path (w.look path)) todo
  | .observingAgain assessed after [] =>
    if isCurrent assessed after (w.look repository.policyPath) then .finished assessed after
    else if assessed.configuration.retried then .failed
    else .starting true
  | .finished assessed after => .finished assessed after
  | .failed => .failed

inductive Action where
  | edit (edit : Edit)
  | advance

def step (w : World) : Action → Option World
  | .edit edit =>
    if edit.Fresh w.initial w.edits then some { w with edits := w.edits ++ [edit] } else none
  | .advance => some { w with flow := w.advance repository }

end Opcore.Workflows
