/-
  Opcore.Protocol.Workspace

  The views an evaluation works on: what the provider asks the host for, the
  trees it builds from the answers, and the source files it reads from them.
  A scoped evaluation lists only part of the baseline and applies the whole
  changeset to it; its views are the restriction of the whole-workspace views.
-/
import Opcore.Protocol.Changeset
import Opcore.Source.Languages
import Opcore.Source.Snapshot

namespace Opcore.Asp

open Text Collections Json

/-! ## Requests to the host -/

inductive Scope where
  | changeset
  | paths (paths : List RepoPath)
  | workspace
  deriving DecidableEq

structure TreeEntry where
  path : RepoPath
  blobId : Str
  kind : EntryKind
  deriving DecidableEq

structure ListTreeResult where
  entries : List TreeEntry
  truncated : Bool

inductive BlobEncoding where
  | utf8
  | base64
  deriving DecidableEq

structure BlobResult where
  id : Str
  encoding : BlobEncoding
  bytes : Str
  deriving DecidableEq

structure ReadBlobResult where
  blobs : List BlobResult

/-- The workspace callbacks of a host, each with the deserialization of its
    result: `workspace/listTree` of a baseline, for some paths or for all of
    them, and `workspace/readBlob` of one blob. -/
structure AspHost where
  listTree : Value → Option (BTreeSet RepoPath) → Except RpcFailure ListTreeResult
  readBlob : Str → Except RpcFailure ReadBlobResult

/-- The standard base64 decoder; an error is its text. -/
class Base64 where
  decode : Str → Except Str Str

structure WorkspaceGap where
  status : Str
  detail : Str
  truncated : Bool
  deriving DecidableEq

inductive WorkspaceFailure where
  | rpc (failure : RpcFailure)
  | coverage (gap : WorkspaceGap)
  deriving DecidableEq

abbrev WorkspaceResult := Except WorkspaceFailure

/-- The `?` that turns an RPC failure into a workspace failure. -/
def liftRpc {α : Type} (result : Except RpcFailure α) : WorkspaceResult α :=
  result.mapError .rpc

/-! ## Scopes -/

section Scopes

variable (changeset : ChangeSet) (scope : Scope) (requested : BTreeSet RepoPath)

/-- The paths of one change: its destination and its source. -/
def Change.paths (change : Change) : List RepoPath := change.path :: change.source.toList

def allChangePaths : BTreeSet RepoPath := BTreeSet.ofList (changeset.changes.flatMap Change.paths)

def affectedSourcePaths : BTreeSet RepoPath := (allChangePaths changeset).filter isSourceCandidate

def requestedPaths : Scope → BTreeSet RepoPath → BTreeSet RepoPath
  | .changeset, affected => affected
  | .paths paths, _ => BTreeSet.ofList paths
  | .workspace, _ => ∅

def changeIsSourceRelevant (change : Change) : Bool :=
  isSourceCandidate change.path || change.source.any isSourceCandidate

def changeIsInScope (change : Change) : Bool :=
  match scope with
  | .paths _ => change.path ∈ requested || change.source.any fun path => path ∈ requested
  | .changeset | .workspace => changeIsSourceRelevant change

def scopedChangePreconditionPaths : BTreeSet RepoPath :=
  BTreeSet.ofList
    ((changeset.changes.filter fun change => changeIsInScope scope requested change).flatMap
      Change.paths)

def allowedListingPaths (preconditions requested : BTreeSet RepoPath) : Option (BTreeSet RepoPath) :=
  match scope with
  | .workspace => none
  | _ => some (requested.union preconditions)

def validateChangePreconditions (baseline : BTreeMap RepoPath Str) : Except RpcFailure Unit :=
  changeset.changes.forM fun change =>
    if changeIsInScope scope requested change then validateChangePrecondition baseline change
    else .ok ()

end Scopes

/-! ## Listings -/

def requireCompleteListing (listing : ListTreeResult) : WorkspaceResult Unit :=
  if listing.truncated then
    .error (.coverage ⟨ascii "incomplete", ascii "workspace/listTree truncated required coverage",
      true⟩)
  else .ok ()

def addListingEntry (allowed : Option (BTreeSet RepoPath)) (tree : TreeState) (entry : TreeEntry) :
    Except RpcFailure TreeState :=
  if allowed.any fun allowed => entry.path ∉ allowed then
    .error (.contract (ascii "workspace/listTree returned unrequested path "
      ++ entry.path.displayLossless))
  else
    match validateBlobRef entry.blobId with
    | .error failure =>
      .error (.contract (ascii "workspace/listTree returned an invalid blob ref: "
        ++ failure.detail))
    | .ok () =>
      if tree.entries.contains entry.path then
        .error (.contract (ascii "workspace/listTree returned duplicate path "
          ++ entry.path.displayLossless))
      else
        .ok ⟨tree.entries.insert entry.path entry.blobId, tree.kinds.insert entry.path entry.kind⟩

def treeFromListing (listing : ListTreeResult) (scope : Scope)
    (preconditions requested : BTreeSet RepoPath) : Except RpcFailure TreeState :=
  if maxFiles < listing.entries.length then
    .error (.unavailable (ascii "workspace listing exceeds 10000 entries"))
  else
    listing.entries.foldlM (addListingEntry (allowedListingPaths scope preconditions requested))
      ⟨∅, ∅⟩

def validateNativeTree (tree : TreeState) : Except RpcFailure Unit :=
  if maxFiles < tree.entries.size then
    .error (.unavailable (ascii "native workspace exceeds 10000 materialized files"))
  else .ok ()

/-- The trees of a native evaluation, which takes the whole workspace and checks
    every precondition. -/
def validatedNativeTrees (changeset : ChangeSet) (listing : ListTreeResult) :
    Except RpcFailure (TreeState × TreeState) := do
  let baseline ← treeFromListing listing .workspace ∅ ∅
  validateAllChangePreconditions baseline.entries changeset
  let after ← applyChanges baseline changeset
  validateNativeTree baseline
  validateNativeTree after
  return (baseline, after)

/-! ## Assessed paths -/

/-- Is the entry a file or a symbolic link? -/
def isFileOrSymlink (kind : Option EntryKind) : Bool :=
  kind = some .file ∨ kind = some .symlink

def assessmentPaths (scope : Scope) (requested : BTreeSet RepoPath) (baseline after : TreeState) :
    BTreeSet RepoPath :=
  match scope with
  | .workspace =>
    (baseline.entries.keySet.union after.entries.keySet).filter fun path =>
      isSourceCandidate path
        && (isFileOrSymlink (baseline.kinds.get? path) || isFileOrSymlink (after.kinds.get? path))
  | _ => requested

def rejectSourceSymlinks (paths : BTreeSet RepoPath) (before after : TreeState) :
    WorkspaceResult Unit :=
  match paths.elems.find? fun path =>
      before.kinds.get? path = some .symlink ∨ after.kinds.get? path = some .symlink with
  | some path =>
    .error (.coverage ⟨ascii "unsupported", ascii "source symlink " ++ path.displayLossless
      ++ ascii " is outside fast Check coverage", false⟩)
  | none => .ok ()

/-! ## Blobs -/

section Blobs

variable [Sha256] [Base64]

def decodeBlob (blob : BlobResult) : Except RpcFailure Str := do
  let bytes ←
    match blob.encoding with
    | .utf8 => .ok blob.bytes
    | .base64 => (Base64.decode blob.bytes).mapError fun error =>
        .contract (ascii "invalid base64 blob " ++ blob.id ++ ascii ": " ++ error)
  if maxSourceBytes < bytes.length then
    .error (.unavailable (ascii "blob " ++ blob.id ++ ascii " exceeds 4194304 bytes"))
  else .ok bytes

def verifyBlob (reference bytes : Str) : Except RpcFailure Unit :=
  match (stripPrefix (ascii "blob:") reference).bind (splitOnce (byte ':')) with
  | none => .error (invalidBlobRef reference)
  | some (algorithm, expected) =>
    if algorithm ≠ ascii "sha256" then
      .error (.unavailable (ascii "unsupported blob digest algorithm " ++ algorithm))
    else if hexEncode (Sha256.digest bytes) ≠ expected then
      .error (.unavailable (ascii "blob hash mismatch for " ++ reference))
    else .ok ()

namespace AspHost

/-- `read_blob`: the one blob the host answers for an id. -/
def blob (host : AspHost) (id : Str) : Except RpcFailure BlobResult := do
  let result ← host.readBlob id
  match result.blobs with
  | [blob] =>
    if blob.id ≠ id then
      .error (.contract (ascii "workspace/readBlob returned " ++ blob.id
        ++ ascii " while requesting " ++ id))
    else .ok blob
  | _ => .error (.contract (ascii "workspace/readBlob did not return exactly one result for " ++ id))

/-- The loop of `read_blobs`, with the bytes read so far and their total. -/
def readBlobs (host : AspHost) :
    List Str → Nat → BTreeMap Str Str → Except RpcFailure (BTreeMap Str Str)
  | [], _, blobs => .ok blobs
  | id :: ids, total, blobs => do
    let blob ← host.blob id
    let bytes ← decodeBlob blob
    let total := total + bytes.length
    if maxTotalSourceBytes < total then
      .error (.unavailable (ascii "read blobs exceed the total request byte bound"))
    else
      (verifyBlob blob.id bytes).mapError fun failure =>
        .contract (ascii "workspace/readBlob returned bytes inconsistent with their id: "
          ++ failure.detail)
      host.readBlobs ids total (blobs.insert blob.id bytes)

end AspHost

end Blobs

section Files

variable [Platform]

def insertBlobId (ids : BTreeSet Str) (path : RepoPath) (tree : TreeState) : BTreeSet Str :=
  if tree.kinds.get? path = some .file then
    match tree.entries.get? path with
    | some id => ids.insert id
    | none => ids
  else ids

def requiredBlobIds (paths : BTreeSet RepoPath) (baseline after : TreeState) : BTreeSet Str :=
  paths.elems.foldl (fun ids path =>
    if (detectLanguage path).isNone then ids
    else insertBlobId (insertBlobId ids path baseline) path after) ∅

/-- One round of the loop of `materialize_files`. -/
def materializeFile (tree : TreeState) (blobs : BTreeMap Str Str) (path : RepoPath) :
    Except RpcFailure (Option SourceFile) :=
  if (detectLanguage path).isNone then .ok none
  else
    match tree.entries.get? path with
    | none => .ok none
    | some id =>
      if tree.kinds.get? path ≠ some .file then .ok none
      else
        match blobs.get? id with
        | none => .error (.unavailable (ascii "missing materialized blob " ++ id))
        | some bytes =>
          .ok ((resolveLanguage path bytes).map fun (language, mode) =>
            ⟨path, bytes, language, mode⟩)

def materializeFiles (tree : TreeState) (blobs : BTreeMap Str Str) :
    List RepoPath → Except RpcFailure (List SourceFile)
  | [] => .ok []
  | path :: paths => do
    let file ← materializeFile tree blobs path
    let files ← materializeFiles tree blobs paths
    return file.toList ++ files

end Files

/-! ## Views -/

structure PreparedViews where
  before : SourceSnapshot
  after : SourceSnapshot
  paths : BTreeSet RepoPath
  readIds : List Str

section Views

variable [Sha256] [Base64] [Platform]

/-- The part of `prepare_views` after both trees are known. -/
def readViews (host : AspHost) (paths : BTreeSet RepoPath) (baseline after : TreeState) :
    WorkspaceResult PreparedViews := do
  rejectSourceSymlinks paths baseline after
  let readIds := requiredBlobIds paths baseline after
  let blobs ← liftRpc (host.readBlobs readIds.elems 0 ∅)
  let beforeFiles ← liftRpc (materializeFiles baseline blobs paths.elems)
  let afterFiles ← liftRpc (materializeFiles after blobs paths.elems)
  return ⟨.new beforeFiles, .new afterFiles, paths, readIds.elems⟩

/-- The part of `prepare_views` before the blobs are read. -/
def viewTrees (host : AspHost) (session : AspSession) (changeset : ChangeSet) (scope : Scope) :
    WorkspaceResult (BTreeSet RepoPath × TreeState × TreeState) := do
  let requested := requestedPaths scope (affectedSourcePaths changeset)
  let preconditions := scopedChangePreconditionPaths changeset scope requested
  let listing ← liftRpc
    (host.listTree session.baseline (allowedListingPaths scope preconditions requested))
  requireCompleteListing listing
  let baseline ← liftRpc (treeFromListing listing scope preconditions requested)
  liftRpc (validateChangePreconditions changeset scope requested baseline.entries)
  let after ← liftRpc (applyChanges baseline changeset)
  return (assessmentPaths scope requested baseline after, baseline, after)

def prepareViews (host : AspHost) (session : AspSession) (changeset : ChangeSet) (scope : Scope) :
    WorkspaceResult PreparedViews := do
  let (paths, baseline, after) ← viewTrees host session changeset scope
  readViews host paths baseline after

end Views

end Opcore.Asp
