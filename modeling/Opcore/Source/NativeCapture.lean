/-
  Opcore.Source.NativeCapture

  The full-file captures of a Git repository that the ASP host gives to
  providers: which of the listed paths belong to the capture, and the state of
  each of them before and after.  The capture is of a repository at rest; the
  contents Git reports are given.
-/
import Opcore.Library.Fallible
import Opcore.Source.Languages

namespace Opcore

open Text Collections

inductive SourceError where
  | notRepository
  | notFound (path : RepoPath)
  | denied (detail : Str)
  | changed (detail : Str)
  | incomplete (detail : Str)
  | invalid (detail : Str)
  | io (detail : Str)
  deriving DecidableEq

/-! ## Paths and their directories -/

/-- `path` lies below the directory `dir`. -/
def liesUnder (path dir : Str) : Bool := (stripPrefix dir path).any (ascii "/").isPrefixOf

def pathHasPrefix (path dir : Str) : Bool := path = dir || liesUnder path dir

/-- The bytes before the last `/`, empty at the top level. -/
def pathParent (path : Str) : Str := ((rsplitOnce (byte '/') path).map Prod.fst).getD []

structure TargetPolicy where
  exclude : List RepoPath

def TargetPolicy.includes (targets : TargetPolicy) (path : RepoPath) : Bool :=
  !targets.exclude.any fun excluded => pathHasPrefix path.bytes excluded.bytes

/-! ## Filters -/

/-- The providers a capture is for.  The mask of all bits, which admits every
    path, is only built by tests of the source. -/
structure NativeCaptureFilter where
  fast : Bool := false
  rust : Bool := false
  node : Bool := false
  python : Bool := false
  deriving DecidableEq

def rustControlPath (path : RepoPath) : Bool :=
  filename path.bytes ∈ [ascii "Cargo.toml", ascii "Cargo.lock", ascii "build.rs",
      ascii "rust-toolchain", ascii "rust-toolchain.toml"]
    || (ascii ".cargo/").isPrefixOf path.bytes || containsText (ascii "/.cargo/") path.bytes

def rustNativeExtensions : List Str :=
  [ascii ".rs", ascii ".c", ascii ".cc", ascii ".cpp", ascii ".cxx", ascii ".h", ascii ".hh",
    ascii ".hpp", ascii ".hxx", ascii ".m", ascii ".mm", ascii ".s", ascii ".asm", ascii ".ld",
    ascii ".proto", ascii ".capnp", ascii ".fbs", ascii ".wit", ascii ".wat", ascii ".json",
    ascii ".toml", ascii ".yaml", ascii ".yml", ascii ".txt", ascii ".md", ascii ".rst",
    ascii ".sql", ascii ".graphql", ascii ".gql", ascii ".html", ascii ".css", ascii ".xml",
    ascii ".ron", ascii ".snap", ascii ".stderr", ascii ".pem", ascii ".crt", ascii ".key",
    ascii ".svg"]

def rustNativePath (path : RepoPath) : Bool :=
  rustControlPath path || rustNativeExtensions.any (hasExtension path.bytes)
    || filename path.bytes ∈ [ascii "LICENSE", ascii "NOTICE"]

def nodeContextNames : List Str :=
  [ascii "package.json", ascii "package-lock.json", ascii "npm-shrinkwrap.json", ascii ".npmrc"]

def isNodeSource (path : RepoPath) : Bool :=
  [ascii ".js", ascii ".jsx", ascii ".mjs", ascii ".cjs", ascii ".ts", ascii ".tsx", ascii ".mts",
    ascii ".cts"].any (hasExtension path.bytes)

def nodeNativePath (path : RepoPath) : Bool :=
  isNodeSource path || (ascii ".json").isSuffixOf path.bytes
    || filename path.bytes ∈ nodeContextNames

def nodeContextPath (path : RepoPath) : Bool :=
  let name := filename path.bytes
  name ∈ nodeContextNames
    || ((ascii "tsconfig").isPrefixOf name && (ascii ".json").isSuffixOf name)

def pythonContextNames : List Str :=
  [ascii "pyproject.toml", ascii "pyrightconfig.json", ascii "mypy.ini", ascii "setup.cfg",
    ascii "tox.ini"]

def pythonContextPath (path : RepoPath) : Bool := filename path.bytes ∈ pythonContextNames

def pythonNativePath (path : RepoPath) : Bool :=
  hasExtension path.bytes (ascii ".py") || hasExtension path.bytes (ascii ".pyi")
    || pythonContextPath path

namespace NativeCaptureFilter

def isFastOnly (filter : NativeCaptureFilter) : Bool := filter = { fast := true }

def includes (filter : NativeCaptureFilter) (path : RepoPath) : Bool :=
  (filter.fast && isSourceCandidate path) || (filter.rust && rustNativePath path)
    || (filter.node && nodeNativePath path) || (filter.python && pythonNativePath path)

def includesAsAncestorContext (filter : NativeCaptureFilter) (path : RepoPath) : Bool :=
  (filter.rust && rustControlPath path) || (filter.node && nodeContextPath path)
    || (filter.python && pythonContextPath path)

end NativeCaptureFilter

/-! ## Selection of paths -/

def nativePathInRoots (path : RepoPath) (roots : List RepoPath) (filter : NativeCaptureFilter) :
    Bool :=
  roots.isEmpty || roots.any fun root =>
    liesUnder path.bytes root.bytes
      || (filter.includesAsAncestorContext path
        && ((pathParent path.bytes).isEmpty || liesUnder root.bytes (pathParent path.bytes)))

structure NativeSelection where
  roots : List RepoPath
  filter : NativeCaptureFilter
  targets : TargetPolicy

namespace NativeSelection

def selects (selection : NativeSelection) (path : RepoPath) : Bool :=
  (!selection.filter.isFastOnly || selection.targets.includes path)
    && selection.filter.includes path && nativePathInRoots path selection.roots selection.filter

def insert (selection : NativeSelection) (paths : BTreeSet RepoPath) (path : RepoPath) :
    Except SourceError (BTreeSet RepoPath) :=
  if selection.selects path then
    if maxFiles ≤ paths.size ∧ path ∉ paths then
      .error (.incomplete (ascii "native workspace exceed the 10000-file limit"))
    else .ok (paths.insert path)
  else .ok paths

/-- The selected ones of the paths that Git lists. -/
def select (selection : NativeSelection) (listed : List RepoPath) :
    Except SourceError (BTreeSet RepoPath) :=
  listed.foldlM selection.insert ∅

theorem mem_select {selection : NativeSelection} {listed : List RepoPath}
    {paths : BTreeSet RepoPath} (h : selection.select listed = .ok paths) {path : RepoPath} :
    path ∈ paths ↔ path ∈ listed ∧ selection.selects path = true := by
  have hloop : ∀ {l : List RepoPath} {start stop : BTreeSet RepoPath},
      l.foldlM selection.insert start = .ok stop →
      (path ∈ stop ↔ path ∈ start ∨ path ∈ l ∧ selection.selects path = true) := by
    intro l
    induction l with
    | nil =>
      intro start stop hl
      cases hl
      simp
    | cons a l ih =>
      intro start stop hl
      rw [List.foldlM_cons] at hl
      obtain ⟨next, hnext, hrest⟩ := Except.bind_eq_ok_iff.mp hl
      rw [ih hrest]
      unfold NativeSelection.insert at hnext
      split_ifs at hnext with hselects hfull
      · cases hnext
        rw [BTreeSet.mem_insert, List.mem_cons]
        constructor
        · rintro ((rfl | hp) | hp)
          · exact .inr ⟨.inl rfl, hselects⟩
          · exact .inl hp
          · exact .inr ⟨.inr hp.1, hp.2⟩
        · rintro (hp | ⟨rfl | hp, hs⟩)
          · exact .inl (.inr hp)
          · exact .inl (.inl rfl)
          · exact .inr ⟨hp, hs⟩
      · cases hnext
        rw [List.mem_cons]
        constructor
        · rintro (hp | hp)
          · exact .inl hp
          · exact .inr ⟨.inr hp.1, hp.2⟩
        · rintro (hp | ⟨rfl | hp, hs⟩)
          · exact .inl hp
          · exact absurd hs hselects
          · exact .inr ⟨hp, hs⟩
  simpa using hloop h

end NativeSelection

/-! ## Captures -/

section

variable [Sha256]

/-- The reference of a blob's bytes. -/
def blobRef (bytes : Str) : Str := ascii "blob:sha256:" ++ hexEncode (Sha256.digest bytes)

/-- A file's bytes with their reference. -/
structure NativeBlob where
  blobId : Str
  bytes : Str
  valid : blobId = blobRef bytes

/-- `NativeBlob::new`. -/
def NativeBlob.new (bytes : Str) : NativeBlob := ⟨blobRef bytes, bytes, rfl⟩

structure NativePathState where
  before : Option NativeBlob
  after : Option NativeBlob

/-- A capture; its sentinel and the text `valid_as_of` are left out. -/
structure GitNativeCapture where
  baselineRev : Str
  paths : BTreeMap RepoPath NativePathState
  changedPaths : BTreeSet RepoPath
  roots : List RepoPath
  filter : NativeCaptureFilter

/-- The after blob with the bytes of the before blob where both have one reference. -/
def shareBytes : Option NativeBlob → Option NativeBlob → Option NativeBlob
  | some left, some right =>
    if h : left.blobId = right.blobId then some ⟨right.blobId, left.bytes, h ▸ left.valid⟩
    else some right
  | _, after => after

def buildState (before after : BTreeMap RepoPath NativeBlob) (path : RepoPath) : NativePathState :=
  ⟨before.get? path, shareBytes (before.get? path) (after.get? path)⟩

/-- The paths of either view. -/
def allPaths (before after : BTreeMap RepoPath NativeBlob) : BTreeSet RepoPath :=
  before.keySet.union after.keySet

/-- Every path of either view with both its blobs; a path changed if they differ. -/
def buildCapture (before after : BTreeMap RepoPath NativeBlob) (baselineTree : Str)
    (roots : List RepoPath) (filter : NativeCaptureFilter) : GitNativeCapture where
  baselineRev := ascii "git:tree:" ++ baselineTree
  paths := BTreeMap.ofList
    ((allPaths before after).elems.map fun path => (path, buildState before after path))
  changedPaths := (allPaths before after).filter fun path =>
    (buildState before after path).before.map NativeBlob.blobId
      ≠ (buildState before after path).after.map NativeBlob.blobId
  roots
  filter

variable {path : RepoPath}

theorem get?_buildCapture {before after : BTreeMap RepoPath NativeBlob} {baselineTree : Str}
    {roots : List RepoPath} {filter : NativeCaptureFilter} :
    (buildCapture before after baselineTree roots filter).paths.get? path
      = if path ∈ allPaths before after then some (buildState before after path) else none := by
  have hnodup : (((allPaths before after).elems.map fun path =>
      (path, buildState before after path)).map Prod.fst).Nodup := by
    rw [List.map_map]
    simpa [Function.comp_def] using (allPaths before after).nodup_elems
  split_ifs with hpath
  · exact (BTreeMap.get?_ofList_of_nodup hnodup).mpr (List.mem_map_of_mem hpath)
  · cases hget : (buildCapture before after baselineTree roots filter).paths.get? path with
    | none => rfl
    | some state =>
      obtain ⟨p, hp, heq⟩ := List.mem_map.mp ((BTreeMap.get?_ofList_of_nodup hnodup).mp hget)
      obtain ⟨rfl, -⟩ := Prod.mk.inj heq
      exact absurd hp hpath

theorem mem_keySet_buildCapture {before after : BTreeMap RepoPath NativeBlob} {baselineTree : Str}
    {roots : List RepoPath} {filter : NativeCaptureFilter} :
    path ∈ (buildCapture before after baselineTree roots filter).paths.keySet
      ↔ path ∈ before.keySet ∨ path ∈ after.keySet := by
  rw [BTreeMap.mem_keySet_iff, get?_buildCapture, ← BTreeSet.mem_union]
  show (∃ state, (if path ∈ allPaths before after then _ else none) = some state)
    ↔ path ∈ allPaths before after
  split_ifs with hpath
  · exact ⟨fun _ => hpath, fun _ => ⟨_, rfl⟩⟩
  · exact ⟨fun ⟨_, h⟩ => (nomatch h), fun h => absurd h hpath⟩

/-! ## Capture of a repository -/

def requirePathBound (paths : BTreeSet RepoPath) : Except SourceError Unit :=
  if maxFiles < paths.size then
    .error (.incomplete (ascii "native workspace exceeds 10000 files"))
  else .ok ()

def validatePathSets (beforePaths afterPaths : BTreeSet RepoPath) : Except SourceError Unit := do
  requirePathBound beforePaths
  requirePathBound afterPaths
  requirePathBound (beforePaths.union afterPaths)

/-- The blobs of the selected paths, each and in total within the byte bounds. -/
def rawBlobs (contents : BTreeMap RepoPath Str) :
    List RepoPath → Nat → Except SourceError (List (RepoPath × NativeBlob))
  | [], _ => .ok []
  | path :: paths, total =>
    match contents.get? path with
    | none => rawBlobs contents paths total
    | some bytes =>
      if maxSourceBytes < bytes.length then
        .error (.incomplete (path.displayLossless ++ ascii " exceeds 4194304 bytes"))
      else if maxTotalSourceBytes < total + bytes.length then
        .error (.incomplete (ascii "Git blob read exceeds 268435456 total bytes"))
      else do
        let blobs ← rawBlobs contents paths (total + bytes.length)
        return (path, .new bytes) :: blobs

theorem mem_rawBlobs {contents : BTreeMap RepoPath Str} {paths : List RepoPath} {total : Nat}
    {blobs : List (RepoPath × NativeBlob)} (h : rawBlobs contents paths total = .ok blobs)
    {blob : NativeBlob} :
    (path, blob) ∈ blobs
      ↔ path ∈ paths ∧ ∃ bytes, contents.get? path = some bytes ∧ blob = .new bytes := by
  induction paths generalizing total blobs with
  | nil =>
    cases h
    simp
  | cons p paths ih =>
    unfold rawBlobs at h
    split at h
    · next hnone =>
      rw [ih h, List.mem_cons]
      constructor
      · rintro ⟨hmem, hbytes⟩
        exact ⟨.inr hmem, hbytes⟩
      · rintro ⟨rfl | hmem, bytes, hsome, hblob⟩
        · rw [hnone] at hsome
          cases hsome
        · exact ⟨hmem, bytes, hsome, hblob⟩
    · next bytes hsome =>
      split_ifs at h with hlong htotal
      obtain ⟨rest, hrest, h⟩ := Except.bind_eq_ok_iff.mp h
      cases h
      rw [List.mem_cons, ih hrest, List.mem_cons]
      constructor
      · rintro (heq | ⟨hmem, hbytes⟩)
        · cases heq
          exact ⟨.inl rfl, bytes, hsome, rfl⟩
        · exact ⟨.inr hmem, hbytes⟩
      · rintro ⟨rfl | hmem, bytes', hsome', hblob⟩
        · rw [hsome] at hsome'
          cases hsome'
          exact .inl (by rw [hblob])
        · exact .inr ⟨hmem, bytes', hsome', hblob⟩

/-- A repository at rest, as a capture sees it: the regular files of the baseline
    tree, the regular paths the after view lists, and the contents of those that
    exist.  A tracked path that is gone from the worktree is listed and has none. -/
structure NativeRepository where
  baselineTree : Str
  before : BTreeMap RepoPath Str
  listed : BTreeSet RepoPath
  after : BTreeMap RepoPath Str
  targets : TargetPolicy

namespace NativeRepository

/-- `native_candidate_paths_from`: the selected paths the after view lists. -/
def candidatePaths (repository : NativeRepository) (roots : List RepoPath)
    (filter : NativeCaptureFilter) : Except SourceError (BTreeSet RepoPath) :=
  (NativeSelection.mk roots filter repository.targets).select repository.listed.elems

/-- `capture_native_from`, with no change between its sentinels. -/
def captureNative (repository : NativeRepository) (roots : List RepoPath)
    (filter : NativeCaptureFilter) : Except SourceError GitNativeCapture := do
  let selection : NativeSelection := ⟨roots, filter, repository.targets⟩
  let beforePaths ← selection.select repository.before.keys
  let afterPaths ← selection.select repository.listed.elems
  validatePathSets beforePaths afterPaths
  let before ← rawBlobs repository.before beforePaths.elems 0
  let after ← rawBlobs repository.after afterPaths.elems 0
  return buildCapture (.ofList before) (.ofList after) repository.baselineTree roots filter

/-- The paths that exist in the baseline tree or in the after view. -/
def present (repository : NativeRepository) : BTreeSet RepoPath :=
  repository.before.keySet.union (repository.listed.filter repository.after.contains)

/-- A capture has the selected ones of the paths that exist in either view. -/
theorem mem_captureNative {repository : NativeRepository} {roots : List RepoPath}
    {filter : NativeCaptureFilter} {capture : GitNativeCapture}
    (h : repository.captureNative roots filter = .ok capture) {path : RepoPath} :
    path ∈ capture.paths.keySet ↔ path ∈ repository.present
      ∧ (NativeSelection.mk roots filter repository.targets).selects path = true := by
  obtain ⟨beforePaths, hbeforePaths, h⟩ := Except.bind_eq_ok_iff.mp h
  obtain ⟨afterPaths, hafterPaths, h⟩ := Except.bind_eq_ok_iff.mp h
  obtain ⟨_, -, h⟩ := Except.bind_eq_ok_iff.mp h
  obtain ⟨before, hbefore, h⟩ := Except.bind_eq_ok_iff.mp h
  obtain ⟨after, hafter, h⟩ := Except.bind_eq_ok_iff.mp h
  cases h
  have hkeys : ∀ {contents : BTreeMap RepoPath Str} {paths : BTreeSet RepoPath}
      {blobs : List (RepoPath × NativeBlob)}, rawBlobs contents paths.elems 0 = .ok blobs →
      (path ∈ (BTreeMap.ofList blobs).keySet ↔ path ∈ paths ∧ contents.contains path = true) := by
    intro contents paths blobs hblobs
    rw [BTreeMap.mem_keySet_iff, BTreeMap.exists_get?_ofList_iff]
    simp only [mem_rawBlobs hblobs, BTreeMap.contains, Option.isSome_iff_exists]
    constructor
    · rintro ⟨blob, hmem, bytes, hbytes, -⟩
      exact ⟨hmem, bytes, hbytes⟩
    · rintro ⟨hmem, bytes, hbytes⟩
      exact ⟨_, hmem, bytes, hbytes, rfl⟩
  rw [mem_keySet_buildCapture, hkeys hbefore, hkeys hafter,
    NativeSelection.mem_select hbeforePaths, NativeSelection.mem_select hafterPaths, present,
    BTreeSet.mem_union, BTreeSet.mem_filter]
  have hpresent : path ∈ repository.before.keys ↔ repository.before.contains path = true := by
    rw [BTreeMap.mem_keys_iff, BTreeMap.contains, Option.isSome_iff_exists]
  have hkeySet : path ∈ repository.before.keySet ↔ path ∈ repository.before.keys := Iff.rfl
  have hlisted : path ∈ repository.listed.elems ↔ path ∈ repository.listed := Iff.rfl
  rw [hkeySet, hpresent, hlisted]
  tauto

end NativeRepository

end

end Opcore
