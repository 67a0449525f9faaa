/-
  Opcore.Protocol.HostInput

  The host's side of an evaluation: a capture is sent as the listing of its
  baseline, with paths taken relative to the project context, and a changeset of
  creates, modifies and deletes.  The provider's trees are the capture's two
  views exactly when every path can be sent.
-/
import Opcore.Protocol.Restriction
import Opcore.Protocol.Selection
import Opcore.Protocol.Wire

namespace Opcore

open Text Collections Json Asp

/-! ## The host's workspace -/

/-- The baseline tree and the blobs a provider may read. -/
structure HostWorkspace where
  baseline : Value
  entries : BTreeMap RepoPath Str
  blobs : BTreeMap Str Str
  totalBlobBytes : Nat

namespace HostWorkspace

def new (baseline : Value) : Except Str HostWorkspace :=
  match (baseline.get? (ascii "rev")).bind Value.asStr? with
  | none => .error (ascii "ASP baseline requires a string rev")
  | some rev =>
    if rev = [] then .error (ascii "ASP baseline rev must not be empty")
    else .ok ⟨baseline, ∅, ∅, 0⟩

section

variable [Sha256]

/-- Store a blob under its reference, within the bounds. -/
def addBlob (workspace : HostWorkspace) (bytes : Str) : Except Str (Str × HostWorkspace) :=
  if maxSourceBytes < bytes.length then .error (ascii "ASP host blob exceeds 4194304 bytes")
  else
    match workspace.blobs.get? (blobRef bytes) with
    | some existing =>
      if existing ≠ bytes then
        .error (ascii "unequal content produced the same ASP blob reference")
      else .ok (blobRef bytes, workspace)
    | none =>
      if maxTotalSourceBytes < workspace.totalBlobBytes + bytes.length then
        .error (ascii "ASP host blobs exceed 268435456 total bytes")
      else
        .ok (blobRef bytes, { workspace with
          blobs := workspace.blobs.insert (blobRef bytes) bytes
          totalBlobBytes := workspace.totalBlobBytes + bytes.length })

def addBaselineFile (workspace : HostWorkspace) (path : RepoPath) (bytes : Str) :
    Except Str (Str × HostWorkspace) :=
  if maxFiles ≤ workspace.entries.size then
    .error (ascii "ASP host workspace exceeds 10000 baseline files")
  else if workspace.entries.contains path then
    .error (ascii "duplicate ASP host baseline path " ++ path.displayLossless)
  else do
    let (blob, workspace) ← workspace.addBlob bytes
    return (blob, { workspace with entries := workspace.entries.insert path blob })

def addCandidateBlob (workspace : HostWorkspace) (bytes : Str) : Except Str (Str × HostWorkspace) :=
  workspace.addBlob bytes

end

def exactObject (value : Value) (allowed : List Str) (method : Str) :
    Except Str (List (Str × Value)) :=
  match value.asObject? with
  | none => .error (method ++ ascii " params must be an object")
  | some object =>
    match object.find? fun member => member.1 ∉ allowed with
    | some (field, _) => .error (method ++ ascii " contains unsupported field " ++ field)
    | none => .ok object

def entryValue (path : RepoPath) (blob : Str) : Value :=
  .object [(ascii "blobId", .string blob), (ascii "kind", .string (ascii "file")),
    (ascii "path", .string (pathText path))]

/-- The paths a listing asks for, without a repetition. -/
def requestedListing (object : List (Str × Value)) : Except Str (Option (BTreeSet RepoPath)) :=
  match object.lookup (ascii "paths") with
  | none => .ok none
  | some value =>
    match readArray pathOfValue? value with
    | none => .error (ascii "workspace/listTree paths must be valid repository paths")
    | some paths =>
      if maxFiles < paths.length then
        .error (ascii "workspace/listTree exceeds 10000 requested paths")
      else if (BTreeSet.ofList paths).size ≠ paths.length then
        .error (ascii "workspace/listTree contains duplicate paths")
      else .ok (some (BTreeSet.ofList paths))

/-- `list_tree`, the callback `workspace/listTree`. -/
def listTree (workspace : HostWorkspace) (params : Value) : Except Str Value := do
  let object ← exactObject params [ascii "baseline", ascii "paths"] (ascii "workspace/listTree")
  if object.lookup (ascii "baseline") ≠ some workspace.baseline then
    .error (ascii "workspace/listTree requested a stale or unknown baseline")
  else
    let requested ← requestedListing object
    let entries := workspace.entries.entries.filter fun entry =>
      requested.all fun paths => entry.1 ∈ paths
    return .object [(ascii "entries", .array (entries.map fun entry => entryValue entry.1 entry.2)),
      (ascii "truncated", .bool false)]

end HostWorkspace

/-! ## The input of a root -/

section

variable [Sha256]

def missingState (path : RepoPath) : Str :=
  ascii "missing captured state for " ++ path.displayLossless

/-- The file a path had before, if any, as a file of the baseline. -/
def addBefore (workspace : HostWorkspace) (path : RepoPath) :
    Option NativeBlob → Except Str HostWorkspace
  | none => .ok workspace
  | some blob => do
    let (id, workspace) ← workspace.addBaselineFile path blob.bytes
    if id ≠ blob.blobId then .error (ascii "captured baseline blob identity changed")
    else .ok workspace

/-- The loop of `populate_workspace`, with the paths that exist afterwards. -/
def populateWorkspace (capture : GitNativeCapture) :
    List (RepoPath × RepoPath) → HostWorkspace → BTreeSet RepoPath →
    Except Str (HostWorkspace × BTreeSet RepoPath)
  | [], workspace, candidates => .ok (workspace, candidates)
  | (original, path) :: mapping, workspace, candidates =>
    match capture.paths.get? original with
    | none => .error (missingState original)
    | some state => do
      let workspace ← addBefore workspace path state.before
      populateWorkspace capture mapping workspace
        (if state.after.isSome then candidates.insert path else candidates)

/-- The change of a path, with the blob after stored. -/
def changeValue (path : RepoPath) (state : NativePathState) (workspace : HostWorkspace) :
    Except Str (Value × HostWorkspace) :=
  match state.before, state.after with
  | none, some after => do
    let (id, workspace) ← workspace.addCandidateBlob after.bytes
    return (.object [(ascii "after", .string id), (ascii "kind", .string (ascii "create")),
      (ascii "path", .string (pathText path))], workspace)
  | some before, none =>
    .ok (.object [(ascii "before", .string before.blobId),
      (ascii "kind", .string (ascii "delete")), (ascii "path", .string (pathText path))], workspace)
  | some before, some after => do
    let (id, workspace) ← workspace.addCandidateBlob after.bytes
    return (.object [(ascii "after", .string id), (ascii "before", .string before.blobId),
      (ascii "kind", .string (ascii "modify")), (ascii "path", .string (pathText path))], workspace)
  | none, none =>
    .error (ascii "changed path " ++ path.displayLossless
      ++ ascii " has neither before nor after content")

/-- The loop of `root_changes` over the changed paths. -/
def rootChanges (capture : GitNativeCapture) (mapping : BTreeMap RepoPath RepoPath) :
    List RepoPath → HostWorkspace → Except Str (List Value × HostWorkspace)
  | [], workspace => .ok ([], workspace)
  | path :: paths, workspace =>
    match mapping.get? path with
    | none => rootChanges capture mapping paths workspace
    | some rebased =>
      match capture.paths.get? path with
      | none => .error (missingState path)
      | some state => do
        let (change, workspace) ← changeValue rebased state workspace
        let (changes, workspace) ← rootChanges capture mapping paths workspace
        return (change :: changes, workspace)

structure PreparedRoot where
  label : Str
  context : Str
  workspace : HostWorkspace
  params : Value
  changesetDigest : Str
  candidatePaths : BTreeSet RepoPath
  contextRoot : Option RepoPath
  projectRoot : Option RepoPath

def jsonDigest (value : Value) : Str :=
  ascii "sha256:" ++ hexEncode (Sha256.digest value.serialize)

def baselineValue (capture : GitNativeCapture) : Value :=
  .object [(ascii "rev", .string capture.baselineRev)]

/-- `host_input`; `verify` is the policy's `verify` section as JSON. -/
def hostInput (capture : GitNativeCapture) (root : WorkspaceRoot) (profile : ProviderProfile)
    (comparison : Str) (verify : Value) : Except Str PreparedRoot := do
  let context := projectContext capture root profile
  let projectRoot := if profile = .rustNative then relativeRoot root context else none
  let workspace ← HostWorkspace.new (baselineValue capture)
  let mapping ← workspaceMapping capture root context profile
  let (workspace, candidatePaths) ← populateWorkspace capture mapping.entries workspace ∅
  let (changes, workspace) ← rootChanges capture mapping capture.changedPaths.elems workspace
  let changeset : Value :=
    .object [(ascii "baseline", baselineValue capture), (ascii "changes", .array changes)]
  let configuration : Value :=
    .object (if profile = .fast then [(ascii "verify", verify)] else [])
  return {
    label := root.label
    context := context.label
    workspace
    params := .object [(ascii "changeset", changeset), (ascii "comparison", .string comparison),
      (ascii "configuration", configuration), (ascii "scope", .string (ascii "workspace"))]
    changesetDigest := jsonDigest changeset
    candidatePaths
    contextRoot := context.dir
    projectRoot }

end

/-! ## The provider's reading of it -/

section

variable [Build]

def parseChangeset (params : Value) : Except RpcFailure ChangeSet :=
  match (params.get? (ascii "changeset")).bind ChangeSet.ofValue? with
  | none => .error (.input (ascii "invalid check/evaluate request: " ++ Build.deserializeError params))
  | some changeset => .ok changeset

def parseListing (listing : Value) : Except RpcFailure ListTreeResult :=
  match ListTreeResult.ofValue? listing with
  | none => .error (.contract (ascii "malformed workspace/listTree result: "
      ++ Build.deserializeError listing))
  | some listing => .ok listing

/-- The trees of the fast provider for the whole workspace, which checks the
    preconditions of the changes to source files. -/
def fastTrees (changeset : ChangeSet) (listing : ListTreeResult) :
    Except RpcFailure (TreeState × TreeState) := do
  let requested := requestedPaths .workspace (affectedSourcePaths changeset)
  let preconditions := scopedChangePreconditionPaths changeset .workspace requested
  let baseline ← treeFromListing listing .workspace preconditions requested
  validateChangePreconditions changeset .workspace requested baseline.entries
  let after ← applyChanges baseline changeset
  return (baseline, after)

def treesOfListing (profile : ProviderProfile) (changeset : ChangeSet) (listing : ListTreeResult) :
    Except RpcFailure (TreeState × TreeState) :=
  match profile with
  | .fast => fastTrees changeset listing
  | _ => validatedNativeTrees changeset listing

/-- The trees a provider builds from the host's input: it reads and validates the
    changeset, lists the whole workspace, and checks and applies the changes. -/
def providerTrees (profile : ProviderProfile) (prepared : PreparedRoot) :
    WorkspaceResult (TreeState × TreeState) := do
  let changeset ← liftRpc (parseChangeset prepared.params)
  liftRpc (validateChangeset changeset)
  let listing ← liftRpc ((prepared.workspace.listTree
    (.object [(ascii "baseline", prepared.workspace.baseline)])).mapError .unavailable)
  let listing ← liftRpc (parseListing listing)
  requireCompleteListing listing
  liftRpc (treesOfListing profile changeset listing)

end

/-! ## What the host sends -/

section

variable [Sha256]

namespace HostWorkspace

theorem addBlob_ok {workspace workspace' : HostWorkspace} {bytes id : Str}
    (h : workspace.addBlob bytes = .ok (id, workspace')) :
    id = blobRef bytes ∧ workspace'.baseline = workspace.baseline
      ∧ workspace'.entries = workspace.entries := by
  unfold addBlob at h
  split at h
  · cases h
  · split at h
    · split at h
      · cases h
      · cases h
        exact ⟨rfl, rfl, rfl⟩
    · split at h
      · cases h
      · cases h
        exact ⟨rfl, rfl, rfl⟩

theorem addBaselineFile_ok {workspace workspace' : HostWorkspace} {path : RepoPath}
    {bytes id : Str} (h : workspace.addBaselineFile path bytes = .ok (id, workspace')) :
    id = blobRef bytes ∧ workspace'.baseline = workspace.baseline
      ∧ workspace.entries.size < maxFiles ∧ workspace.entries.get? path = none
      ∧ workspace'.entries = workspace.entries.insert path (blobRef bytes) := by
  unfold addBaselineFile at h
  split at h
  · cases h
  · next hsize =>
    split at h
    · cases h
    · next hfresh =>
      obtain ⟨⟨id', added⟩, hadd, h⟩ := Except.bind_eq_ok_iff.mp h
      obtain ⟨hid, hbaseline, hentries⟩ := addBlob_ok hadd
      cases h
      refine ⟨hid, hbaseline, by omega, ?_, ?_⟩
      · simpa [BTreeMap.contains] using hfresh
      · dsimp only
        rw [hentries, hid]

end HostWorkspace

variable {workspace workspace' : HostWorkspace}

theorem addBefore_ok {path : RepoPath}
    {before : Option NativeBlob} (h : addBefore workspace path before = .ok workspace') :
    workspace'.baseline = workspace.baseline
      ∧ (workspace.entries.size ≤ maxFiles → workspace'.entries.size ≤ maxFiles)
      ∧ (workspace.entries.get? path = none →
        workspace'.entries.get? path = before.map NativeBlob.blobId)
      ∧ ∀ other, other ≠ path → workspace'.entries.get? other = workspace.entries.get? other := by
  cases before with
  | none =>
    cases h
    exact ⟨rfl, fun h => h, fun h => h, fun _ _ => rfl⟩
  | some blob =>
    obtain ⟨⟨id, added⟩, hadd, h⟩ := Except.bind_eq_ok_iff.mp h
    obtain ⟨-, hbaseline, hsize, hfresh, hentries⟩ := HostWorkspace.addBaselineFile_ok hadd
    dsimp only at h
    split_ifs at h with hid
    cases h
    refine ⟨hbaseline, ?_, ?_, ?_⟩
    · intro _
      rw [hentries, BTreeMap.size_insert_of_get?_eq_none hfresh]
      omega
    · intro _
      rw [hentries, BTreeMap.get?_insert_self, Option.map_some, blob.valid]
    · intro other hne
      rw [hentries, BTreeMap.get?_insert, if_neg hne]

/-- The listing has, at each mapped path, the blob the path had before. -/
theorem populateWorkspace_ok {capture : GitNativeCapture} {mapping : List (RepoPath × RepoPath)}
    {candidates candidates' : BTreeSet RepoPath} (hnodup : (mapping.map Prod.snd).Nodup)
    (hfresh : ∀ e ∈ mapping, workspace.entries.get? e.2 = none)
    (h : populateWorkspace capture mapping workspace candidates = .ok (workspace', candidates')) :
    workspace'.baseline = workspace.baseline
      ∧ (workspace.entries.size ≤ maxFiles → workspace'.entries.size ≤ maxFiles)
      ∧ (∀ e ∈ mapping, ∃ state, capture.paths.get? e.1 = some state
        ∧ workspace'.entries.get? e.2 = state.before.map NativeBlob.blobId)
      ∧ ∀ path, (∀ e ∈ mapping, e.2 ≠ path) →
        workspace'.entries.get? path = workspace.entries.get? path := by
  induction mapping generalizing workspace candidates with
  | nil =>
    cases h
    exact ⟨rfl, fun h => h, nofun, fun _ _ => rfl⟩
  | cons e mapping ih =>
    obtain ⟨original, path⟩ := e
    obtain ⟨hnew, hnodup⟩ := List.nodup_cons.mp hnodup
    obtain ⟨hfirst, hfresh⟩ := List.forall_mem_cons.mp hfresh
    have happart : ∀ e ∈ mapping, e.2 ≠ path :=
      fun e he heq => hnew (List.mem_map.mpr ⟨e, he, heq⟩)
    unfold populateWorkspace at h
    split at h
    · cases h
    · next state hstate =>
      obtain ⟨added, hadded, h⟩ := Except.bind_eq_ok_iff.mp h
      obtain ⟨hbaseline, hsize, hentry, hother⟩ := addBefore_ok hadded
      obtain ⟨hbaseline', hsize', hmapped, hkept⟩ := ih hnodup
        (fun e he => (hother e.2 (happart e he)).trans (hfresh e he)) h
      refine ⟨hbaseline'.trans hbaseline, fun hle => hsize' (hsize hle), ?_, ?_⟩
      · rw [List.forall_mem_cons]
        refine ⟨⟨state, hstate, ?_⟩, hmapped⟩
        rw [hkept path happart, hentry hfirst]
      · intro p hp
        obtain ⟨hne, hp⟩ := List.forall_mem_cons.mp hp
        rw [hkept p hp, hother p (Ne.symm hne)]

/-- The change that takes a path's state before to its state after. -/
def stateChange (path : RepoPath) (state : NativePathState) : Change where
  path
  kind := match state.before, state.after with
    | none, _ => .create
    | some _, none => .delete
    | some _, some _ => .modify
  source := none
  before := state.before.map NativeBlob.blobId
  after := state.after.map NativeBlob.blobId

theorem changeValue_ok {path : RepoPath} {state : NativePathState} {value : Value}
    (h : changeValue path state workspace = .ok (value, workspace')) :
    workspace'.baseline = workspace.baseline ∧ workspace'.entries = workspace.entries
      ∧ value = (stateChange path state).toValue := by
  obtain ⟨before, after⟩ := state
  cases after with
  | none =>
    cases before <;> cases h
    exact ⟨rfl, rfl, rfl⟩
  | some after =>
    -- The blob after is stored, whether or not there was one before.
    cases before
    all_goals
      obtain ⟨⟨id, added⟩, hadd, h⟩ := Except.bind_eq_ok_iff.mp h
      obtain ⟨rfl, hbaseline, hentries⟩ := HostWorkspace.addBlob_ok hadd
      cases h
      refine ⟨hbaseline, hentries, ?_⟩
      rw [← after.valid]
      rfl

/-- The changes of the mapped ones of some paths. -/
def capturedChanges (capture : GitNativeCapture) (mapping : BTreeMap RepoPath RepoPath)
    (paths : List RepoPath) : List Change :=
  paths.filterMap fun path =>
    (mapping.get? path).bind fun rebased => (capture.paths.get? path).map (stateChange rebased)

theorem rootChanges_ok {capture : GitNativeCapture} {mapping : BTreeMap RepoPath RepoPath}
    {paths : List RepoPath} {values : List Value}
    (h : rootChanges capture mapping paths workspace = .ok (values, workspace')) :
    workspace'.baseline = workspace.baseline ∧ workspace'.entries = workspace.entries
      ∧ values = (capturedChanges capture mapping paths).map Change.toValue := by
  induction paths generalizing workspace values with
  | nil =>
    cases h
    exact ⟨rfl, rfl, rfl⟩
  | cons path paths ih =>
    unfold rootChanges at h
    unfold capturedChanges
    rw [List.filterMap_cons]
    split at h
    · next hunmapped =>
      rw [hunmapped]
      exact ih h
    · next rebased hrebased =>
      split at h
      · cases h
      · next state hstate =>
        obtain ⟨⟨value, added⟩, hvalue, h⟩ := Except.bind_eq_ok_iff.mp h
        obtain ⟨⟨rest, last⟩, hrest, h⟩ := Except.bind_eq_ok_iff.mp h
        cases h
        obtain ⟨hbaseline, hentries, rfl⟩ := changeValue_ok hvalue
        obtain ⟨hbaseline', hentries', rfl⟩ := ih hrest
        refine ⟨hbaseline'.trans hbaseline, hentries'.trans hentries, ?_⟩
        rw [hrebased, hstate]
        rfl

/-- A change that renames nothing is read back where its path is. -/
theorem ofValue?_capturedChanges (capture : GitNativeCapture)
    (mapping : BTreeMap RepoPath RepoPath) (paths : List RepoPath) :
    ((capturedChanges capture mapping paths).map Change.toValue).map Change.ofValue?
      = (capturedChanges capture mapping paths).map fun change =>
        if isProtocolPath change.path then some change else none := by
  rw [List.map_map]
  refine List.map_congr_left fun change hchange => ?_
  obtain ⟨path, -, hpath⟩ := List.mem_filterMap.mp hchange
  obtain ⟨rebased, -, hstate⟩ := Option.bind_eq_some_iff.mp hpath
  obtain ⟨state, -, rfl⟩ := Option.map_eq_some_iff.mp hstate
  rw [Function.comp_apply, Change.ofValue?_toValue, Change.isSendable, stateChange,
    Option.all_none, Bool.and_true]

end

end Opcore
