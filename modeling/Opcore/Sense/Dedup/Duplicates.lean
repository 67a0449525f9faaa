/-
  Opcore.Sense.Dedup.Duplicates

  Introduced duplicates of all kinds, and what is said about their completeness.
  Identical files, callables with one digest and token regions are counted in both
  views; the coverage of the analysis and the issues it reports are computed by
  separate passes over the files.
-/
import Opcore.Sense.Dedup.Regions

namespace Opcore

open Text Collections Smallest

/-! ## Limits of a snapshot -/

structure AffectedPaths where
  count : Nat := 0
  paths : List RepoPath := []
  deriving DecidableEq

def AffectedPaths.push (self : AffectedPaths) (path : RepoPath) : AffectedPaths :=
  ⟨self.count + 1, self.paths ++ [path]⟩

structure SnapshotLimitState where
  callableFiles : AffectedPaths := {}
  regionFiles : AffectedPaths := {}
  callableRequest : AffectedPaths := {}
  regionRequest : AffectedPaths := {}
  callables : Nat := 0
  regions : Nat := 0
  deriving DecidableEq

/-- The bounds that the callables of a file reach. -/
def observeCallableLimits (state : SnapshotLimitState) (path : RepoPath) (fileFacts : FileFacts) :
    SnapshotLimitState :=
  let count := fileFacts.callableFingerprints.callables.length
  let bounded : Bool := count ≤ maxCallableFingerprintsPerFile
  let state :=
    if fileFacts.callableFingerprints.status = .truncated ∨ !bounded then
      { state with callableFiles := state.callableFiles.push path }
    else state
  if !bounded ∨ fileFacts.callableFingerprints.status ≠ .complete then state
  else
    let remaining := maxCallableFingerprintsPerRequest - state.callables
    let state :=
      if remaining < count then
        { state with callableRequest := state.callableRequest.push path }
      else state
    { state with callables := state.callables + min count remaining }

/-- `admit_region_anchors`: the retained anchors after a file, and whether it fits. -/
def admitRegionAnchors (retained count : Nat) : Nat × Bool :=
  match prospectiveRegionAnchorTotal retained count with
  | none => (retained, false)
  | some total => (total, true)

/-- The bounds that the anchors of a file reach. -/
def observeRegionLimits (state : SnapshotLimitState) (path : RepoPath) (fileFacts : FileFacts)
    (malformed : Bool) : SnapshotLimitState :=
  let count := fileFacts.regionFingerprints.anchors.length
  let bounded : Bool := count ≤ maxRegionFingerprintsPerFile
  let state :=
    if fileFacts.regionFingerprints.status = .truncated ∨ !bounded then
      { state with regionFiles := state.regionFiles.push path }
    else state
  if bounded ∧ !malformed ∧ fileFacts.regionFingerprints.status = .complete then
    let (regions, admitted) := admitRegionAnchors state.regions count
    let state := { state with regions }
    if admitted then state else { state with regionRequest := state.regionRequest.push path }
  else state

structure LimitIssueSpec where
  code : Str
  stage : DedupLimitStage
  views : List SenseView
  limit : Nat
  processed : Nat
  message : Str

def limitNextStep : Str :=
  ascii ("No runtime option raises this fixed safety limit. Split unusually dense source files "
    ++ "or, for generated/vendor trees, use literal targets.exclude entries such as "
    ++ "\x7b\"schemaVersion\":1,\"targets\":\x7b\"exclude\":[\"generated\",\"vendor\"]\x7d\x7d. See "
    ++ "https://the-open-engine.github.io/opcore/v0.3/docs/configuration.html#select-targets.")

/-- `push_limit_issue`: the issue of a limit, when files were affected by it. -/
def limitIssue (affected : AffectedPaths) (spec : LimitIssueSpec) : Option SenseIssue :=
  if affected.count = 0 then none
  else
    some
      { code := spec.code
        message := spec.message ++ ascii (": the fixed limit of " ++ toString spec.limit
          ++ " was reached; at least " ++ toString affected.count ++ " path(s) were affected")
        stage := some spec.stage
        views := spec.views
        limit := some spec.limit
        processed := some spec.processed
        paths := affected.paths
        pathsTruncated := affected.paths.length < affected.count
        nextStep := some limitNextStep }

def callableFileLimitCode : Str := ascii "dedup_callable_file_limit"
def regionFileLimitCode : Str := ascii "dedup_region_file_limit"
def callableRequestLimitCode : Str := ascii "dedup_callable_request_limit"
def regionRequestLimitCode : Str := ascii "dedup_region_request_limit"

/-- One issue for each bound that was reached, in this order. -/
def renderSnapshotLimitIssues (state : SnapshotLimitState) (views : List SenseView) :
    List SenseIssue :=
  (limitIssue state.callableFiles
    { code := callableFileLimitCode
      stage := .callableFileExtraction
      views
      limit := maxCallableFingerprintsPerFile
      processed := maxCallableFingerprintsPerFile
      message := ascii "callable-body duplicate extraction is incomplete" }).toList
  ++ (limitIssue state.regionFiles
    { code := regionFileLimitCode
      stage := .tokenRegionFileExtraction
      views
      limit := maxRegionFingerprintsPerFile
      processed := maxRegionFingerprintsPerFile
      message := ascii "token-region duplicate extraction is incomplete" }).toList
  ++ (limitIssue state.callableRequest
    { code := callableRequestLimitCode
      stage := .callableRequestCollection
      views
      limit := maxCallableFingerprintsPerRequest
      processed := state.callables
      message := ascii "request-wide callable duplicate collection is incomplete" }).toList
  ++ (limitIssue state.regionRequest
    { code := regionRequestLimitCode
      stage := .tokenRegionRequestCollection
      views
      limit := maxRegionFingerprintsPerRequest
      processed := state.regions
      message := ascii "request-wide token-region duplicate collection is incomplete" }).toList

/-! ## Identical files -/

structure FileGroup where
  bytes : Nat
  paths : BTreeSet RepoPath

structure IntroducedFiles where
  findings : List IntroducedDuplicate := []
  suppressedPaths : BTreeSet RepoPath := ∅
  truncated : Bool := false

/-- Changed occurrences first, then by path. -/
def DuplicateOccurrence.fileKey (self : DuplicateOccurrence) : Bool ×ₗ RepoPath :=
  toLex (!self.changed, self.path)

/-- `bound_occurrences`. -/
def boundOccurrences (occurrences : List DuplicateOccurrence) : List DuplicateOccurrence × Bool :=
  (occurrences.take maxObservationPaths, maxObservationPaths < occurrences.length)

def canonicalChangedPaths (changedPaths : BTreeSet RepoPath)
    (continuity : BTreeMap RepoPath RepoPath) : BTreeSet RepoPath :=
  changedPaths.map fun path => (continuity.get? path).getD path

/-- The finding of a content that several files have. -/
def identicalFileFinding (contentId : ContentId) (group : FileGroup) (beforeCount : Nat)
    (changedPaths : BTreeSet RepoPath) : IntroducedDuplicate :=
  let occurrences := sortByKey DuplicateOccurrence.fileKey
    (group.paths.elems.map fun path =>
      { path, range := none, callableKind := none, changed := path ∈ changedPaths })
  { classId := ascii "file-" ++ shortId (hexEncode contentId)
    kind := .identicalFile
    languageFamily := none
    beforeCount
    afterCount := group.paths.size
    introducedCount := group.paths.size - beforeCount
    bytes := some group.bytes
    tokenCount := none
    occurrences := (boundOccurrences occurrences).1
    occurrencesTruncated := (boundOccurrences occurrences).2 }

/-- One content of the second view. -/
def IntroducedFiles.step (beforeGroups : BTreeMap ContentId FileGroup)
    (changedPaths : BTreeSet RepoPath) (findingLimit : Nat) (s : IntroducedFiles)
    (entry : ContentId × FileGroup) : IntroducedFiles :=
  let beforePaths := ((beforeGroups.get? entry.1).map FileGroup.paths).getD ∅
  if entry.2.paths.size < 2 ∨ entry.2.paths.size ≤ beforePaths.size then s
  else
    let introducedPaths := entry.2.paths.filter fun path => path ∉ beforePaths
    if introducedPaths.isDisjoint changedPaths then s
    else
      let s := { s with suppressedPaths := s.suppressedPaths.union introducedPaths }
      if findingLimit ≤ s.findings.length then { s with truncated := true }
      else
        { s with
          findings := s.findings
            ++ [identicalFileFinding entry.1 entry.2 beforePaths.size changedPaths] }

section

variable [Sha256]

def fileGroups (snapshot : SourceSnapshot) (minimumBytes : Nat)
    (continuity : BTreeMap RepoPath RepoPath) : BTreeMap ContentId FileGroup :=
  (snapshot.fileList.filter fun file => minimumBytes ≤ file.bytes.length).foldl
    (fun groups file =>
      groups.upsert file.contentId ⟨file.bytes.length, ∅⟩ fun group =>
        { group with paths := group.paths.insert ((continuity.get? file.path).getD file.path) }) ∅

def identicalFileFindings (before after : SourceSnapshot) (changedPaths : BTreeSet RepoPath)
    (continuity : BTreeMap RepoPath RepoPath) (minimumBytes findingLimit : Nat) : IntroducedFiles :=
  (fileGroups after minimumBytes ∅).entries.foldl
    (IntroducedFiles.step (fileGroups before minimumBytes continuity) changedPaths findingLimit) {}

/-! ## Callables -/

structure CallableOccurrence where
  path : RepoPath
  range : SourceRange
  kind : CallableKind
  tokenCount : Nat
  deriving DecidableEq

abbrev CallableGroups := BTreeMap Str (BTreeMap Str (List CallableOccurrence))

structure CallableView where
  groups : CallableGroups := ∅
  coverage : FingerprintCoverage := {}

omit [Sha256] in
/-- One file counts by the worse of its two statuses. -/
def recordFingerprintStatus (coverage : FingerprintCoverage) (fileFacts : FileFacts) :
    FingerprintCoverage :=
  let status :=
    if maxCallableFingerprintsPerFile < fileFacts.callableFingerprints.callables.length
        ∨ maxRegionFingerprintsPerFile < fileFacts.regionFingerprints.anchors.length then
      .truncated
    else max fileFacts.callableFingerprints.status fileFacts.regionFingerprints.status
  match status with
  | .complete => { coverage with completeFiles := coverage.completeFiles + 1 }
  | .unsupported => { coverage with unsupportedFiles := coverage.unsupportedFiles + 1 }
  | .parserFailed => { coverage with parserFailedFiles := coverage.parserFailedFiles + 1 }
  | .truncated => { coverage with truncatedFiles := coverage.truncatedFiles + 1 }

omit [Sha256] in
/-- The counters of a file, without those of its regions. -/
def recordNonRegionCoverage (coverage : FingerprintCoverage) (fileFacts : FileFacts) :
    FingerprintCoverage :=
  let coverage := recordFingerprintStatus coverage fileFacts
  let count := fileFacts.callableFingerprints.callables.length
  if fileFacts.callableFingerprints.status ≠ .complete ∨ maxCallableFingerprintsPerFile < count then
    coverage
  else
    let remaining := maxCallableFingerprintsPerRequest - coverage.callableOccurrences
    { coverage with
      callableOccurrences := coverage.callableOccurrences + min count remaining
      requestTruncated := coverage.requestTruncated || decide (remaining < count) }

def FingerprintCoverage.step (fileFacts : FactMap) (factKeys : FactKeyLookup)
    (self : FingerprintCoverage) (file : SourceFile) : FingerprintCoverage :=
  let self := { self with files := self.files + 1 }
  match lookupFileFact file fileFacts factKeys with
  | none => { self with unsupportedFiles := self.unsupportedFiles + 1 }
  | some (_, facts) => recordNonRegionCoverage self facts

/-- The coverage of a view of which no duplicates are looked for. -/
def fingerprintCoverage (snapshot : SourceSnapshot) (fileFacts : FactMap) (factKeys : FactKeyLookup) :
    FingerprintCoverage :=
  snapshot.fileList.foldl (FingerprintCoverage.step fileFacts factKeys) {}

namespace CallableView

omit [Sha256] in
/-- One callable, while the request has room. -/
def push (family : Str) (path : RepoPath) (self : CallableView) (callable : CallableFingerprint) :
    CallableView :=
  if maxCallableFingerprintsPerRequest ≤ self.coverage.callableOccurrences then
    { self with coverage := { self.coverage with requestTruncated := true } }
  else
    { groups := self.groups.upsert family ∅ fun byDigest =>
        byDigest.upsert callable.digest []
          (· ++ [⟨path, callable.range, callable.kind, callable.tokenCount⟩])
      coverage :=
        { self.coverage with callableOccurrences := self.coverage.callableOccurrences + 1 } }

/-- One file of a view: its status, and its callables as long as there is room. -/
def step (fileFacts : FactMap) (factKeys : FactKeyLookup) (continuity : BTreeMap RepoPath RepoPath)
    (self : CallableView) (file : SourceFile) : CallableView :=
  let self := { self with coverage := { self.coverage with files := self.coverage.files + 1 } }
  match lookupFileFact file fileFacts factKeys with
  | none =>
    { self with
      coverage :=
        { self.coverage with unsupportedFiles := self.coverage.unsupportedFiles + 1 } }
  | some (_, facts) =>
    let self := { self with coverage := recordFingerprintStatus self.coverage facts }
    if facts.callableFingerprints.status ≠ .complete
        ∨ facts.callableFingerprints.callables.isEmpty
        ∨ maxCallableFingerprintsPerFile < facts.callableFingerprints.callables.length then self
    else
      facts.callableFingerprints.callables.foldl
        (push file.language.family ((continuity.get? file.path).getD file.path)) self

end CallableView

omit [Sha256] in
def CallableOccurrence.sortKey (self : CallableOccurrence) :
    RepoPath ×ₗ (Nat ×ₗ Nat ×ₗ Nat ×ₗ Nat ×ₗ Nat ×ₗ Nat) ×ₗ CallableKind :=
  toLex (self.path, toLex (DuplicateOccurrence.rangeKey self.range, self.kind))

/-- `callable_view`. -/
def callableView (snapshot : SourceSnapshot) (fileFacts : FactMap) (factKeys : FactKeyLookup)
    (continuity : BTreeMap RepoPath RepoPath) : CallableView :=
  let self := snapshot.fileList.foldl (CallableView.step fileFacts factKeys continuity) {}
  { self with
    groups := self.groups.mapValues fun byDigest =>
      byDigest.mapValues (sortByKey CallableOccurrence.sortKey) }

omit [Sha256] in
/-- Changed occurrences first, then by path, range and kind. -/
def CallableOccurrence.findingKey (changedPaths : BTreeSet RepoPath) (self : CallableOccurrence) :
    Bool ×ₗ RepoPath ×ₗ (Nat ×ₗ Nat ×ₗ Nat ×ₗ Nat ×ₗ Nat ×ₗ Nat) ×ₗ CallableKind :=
  toLex (decide (self.path ∉ changedPaths), self.sortKey)

omit [Sha256] in
/-- The finding of a digest that several callables have. -/
def callableFinding (family digest : Str) (beforeCount : Nat) (after : List CallableOccurrence)
    (changedPaths : BTreeSet RepoPath) : IntroducedDuplicate :=
  let occurrences := (sortByKey (CallableOccurrence.findingKey changedPaths) after).map
    fun occurrence =>
      { path := occurrence.path
        range := some occurrence.range
        callableKind := some occurrence.kind
        changed := occurrence.path ∈ changedPaths }
  { classId := ascii "dup-" ++ shortId digest
    kind := .callableBody
    languageFamily := some family
    beforeCount
    afterCount := after.length
    introducedCount := after.length - beforeCount
    bytes := none
    tokenCount := after.head?.map CallableOccurrence.tokenCount
    occurrences := (boundOccurrences occurrences).1
    occurrencesTruncated := (boundOccurrences occurrences).2 }

omit [Sha256] in
/-- One digest of the second view. -/
def callableStep (before : CallableGroups) (changedPaths suppressedPaths : BTreeSet RepoPath)
    (findingLimit : Nat) (s : List IntroducedDuplicate × Bool)
    (group : Str × Str × List CallableOccurrence) : List IntroducedDuplicate × Bool :=
  let (family, digest, after) := group
  let beforeOccurrences := ((before.get? family).bind fun byDigest => byDigest.get? digest).getD []
  if after.length < 2 ∨ after.length ≤ beforeOccurrences.length then s
  else
    let grewPaths := pathsWithGrowth (tally (beforeOccurrences.map CallableOccurrence.path))
      (tally (after.map CallableOccurrence.path))
    if grewPaths.isDisjoint changedPaths
        ∨ (¬ grewPaths.isEmpty ∧ grewPaths.isSubset suppressedPaths) then s
    else if findingLimit ≤ s.1.length then (s.1, true)
    else (s.1 ++ [callableFinding family digest beforeOccurrences.length after changedPaths], s.2)

omit [Sha256] in
def callableFindings (before after : CallableGroups)
    (changedPaths suppressedPaths : BTreeSet RepoPath) (findingLimit : Nat) :
    List IntroducedDuplicate × Bool :=
  (after.entries.flatMap fun (family, byDigest) =>
    byDigest.entries.map fun (digest, occurrences) => (family, digest, occurrences)).foldl
      (callableStep before changedPaths suppressedPaths findingLimit) ([], false)

/-! ## All duplicates -/

def SnapshotLimitState.step (fileFacts : FactMap) (factKeys : FactKeyLookup)
    (malformedFactKeys : BTreeSet FileFactKey) (self : SnapshotLimitState) (file : SourceFile) :
    SnapshotLimitState :=
  match lookupFileFact file fileFacts factKeys with
  | none => self
  | some (factKey, facts) =>
    observeRegionLimits (observeCallableLimits self file.path facts) file.path facts
      (factKey ∈ malformedFactKeys)

def snapshotLimitState (snapshot : SourceSnapshot) (fileFacts : FactMap) (factKeys : FactKeyLookup)
    (malformedFactKeys : BTreeSet FileFactKey) : SnapshotLimitState :=
  snapshot.fileList.foldl (SnapshotLimitState.step fileFacts factKeys malformedFactKeys) {}

def snapshotLimitIssues (snapshot : SourceSnapshot) (fileFacts : FactMap) (factKeys : FactKeyLookup)
    (views : List SenseView) (malformedFactKeys : BTreeSet FileFactKey) : List SenseIssue :=
  renderSnapshotLimitIssues (snapshotLimitState snapshot fileFacts factKeys malformedFactKeys) views

/-- Both views of a request, with the facts of their files. -/
structure DedupInputs where
  before : SourceSnapshot
  after : SourceSnapshot
  fileFacts : FactMap
  factKeys : FactKeyLookup
  changedPaths : BTreeSet RepoPath
  continuity : BTreeMap RepoPath RepoPath
  minimumIdenticalBytes : Nat
  findingLimit : Nat

structure DedupResult where
  findings : List IntroducedDuplicate
  findingsTruncated : Bool
  coverage : DedupCoverage
  issues : List SenseIssue

omit [Sha256] in
/-- `RegionCoverage::apply`. -/
def RegionCoverage.apply (self : RegionCoverage) (coverage : FingerprintCoverage) :
    FingerprintCoverage :=
  { coverage with
    regionAnchors := self.anchors
    regionTokens := self.tokens
    requestTruncated := coverage.requestTruncated || self.requestTruncated
    malformedEvidence := coverage.malformedEvidence || self.malformedEvidence }

variable [Base64]

/-- Two equal views have no findings; the limits of the one are those of both. -/
def identicalSnapshotResult (inputs : DedupInputs) : DedupResult :=
  let coverage := fingerprintCoverage inputs.before inputs.fileFacts inputs.factKeys
  let (regionCoverage, regionIssues, malformedFactKeys) :=
    validateIdenticalSnapshot inputs.before inputs.fileFacts inputs.factKeys
  let issues := snapshotLimitIssues inputs.before inputs.fileFacts inputs.factKeys
    [.before, .after] malformedFactKeys
  let coverage := regionCoverage.apply coverage
  { findings := []
    findingsTruncated := false
    coverage := { before := coverage, after := coverage }
    issues := issues ++ regionIssues }

/-- What the region comparison is asked after files and callables were compared. -/
def DedupInputs.regionInputs (inputs : DedupInputs) : RegionInputs × List IntroducedDuplicate × Bool :=
  let changedPaths := canonicalChangedPaths inputs.changedPaths inputs.continuity
  let files := identicalFileFindings inputs.before inputs.after changedPaths inputs.continuity
    inputs.minimumIdenticalBytes inputs.findingLimit
  let before := callableView inputs.before inputs.fileFacts inputs.factKeys inputs.continuity
  let after := callableView inputs.after inputs.fileFacts inputs.factKeys ∅
  let callables := callableFindings before.groups after.groups changedPaths files.suppressedPaths
    (inputs.findingLimit - files.findings.length)
  let findings := files.findings ++ callables.1
  ({ suppressedPaths := files.suppressedPaths
     callableFindings := findings
     findingLimit := inputs.findingLimit - findings.length
     changedPaths
     continuity := inputs.continuity
     before := inputs.before
     after := inputs.after
     fileFacts := inputs.fileFacts
     factKeys := inputs.factKeys },
    findings, files.truncated || callables.2)

/-- `introduced_duplicates`. -/
def introducedDuplicates (inputs : DedupInputs) : DedupResult :=
  if inputs.before.id = inputs.after.id then identicalSnapshotResult inputs
  else
    let before := callableView inputs.before inputs.fileFacts inputs.factKeys inputs.continuity
    let after := callableView inputs.after inputs.fileFacts inputs.factKeys ∅
    let (regionInputs, findings, findingsTruncated) := inputs.regionInputs
    let regionResult := regionFindings regionInputs
    { findings := findings ++ regionResult.findings
      findingsTruncated := findingsTruncated || regionResult.findingsTruncated
      coverage :=
        { before := regionResult.before.apply before.coverage
          after := regionResult.after.apply after.coverage }
      issues :=
        snapshotLimitIssues inputs.before inputs.fileFacts inputs.factKeys [.before]
            regionResult.malformedFactKeys
          ++ snapshotLimitIssues inputs.after inputs.fileFacts inputs.factKeys [.after]
            regionResult.malformedFactKeys
          ++ regionResult.comparisonIssues }

end

/-- `incomplete_dedup` of the sense engine. -/
def incompleteDedup (coverage : DedupCoverage) : Bool :=
  0 < coverage.before.truncatedFiles
    || 0 < coverage.after.truncatedFiles
    || coverage.before.requestTruncated
    || coverage.after.requestTruncated
    || coverage.before.malformedEvidence
    || coverage.after.malformedEvidence

end Opcore
