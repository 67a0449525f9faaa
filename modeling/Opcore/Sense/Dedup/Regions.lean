/-
  Opcore.Sense.Dedup.Regions

  Introduced duplicates of token regions.  Anchors group positions of the second
  view; a changed position is compared token by token with the other positions
  of its anchor, the common region is extended to both sides, and its exact
  occurrences are counted in both views, all inside one budget of token
  comparisons.
-/
import Opcore.Library.Fallible
import Opcore.Library.Intervals
import Opcore.Library.Smallest
import Opcore.Library.Tally
import Opcore.Sense.Dedup.Evidence
import Opcore.Sense.Model

namespace Opcore

open Text Collections Smallest

/-! ## Views -/

abbrev AnchorKey := UInt64 ×ₗ UInt64

structure AnchorOccurrence where
  file : Nat
  tokenIndex : Nat
  deriving DecidableEq

structure RegionFile where
  source : SourceFile
  path : RepoPath
  decoded : DecodedTokens

/-- The retained files of one view, and their anchors by language family. -/
structure RegionView where
  view : SenseView
  files : List RegionFile := []
  groups : BTreeMap Str (BTreeMap AnchorKey (List AnchorOccurrence)) := ∅
  retainedAnchors : Nat := 0
  retainedTokens : Nat := 0
  requestTruncated : Bool := false
  malformedPaths : BTreeSet RepoPath := ∅
  malformedPathsTruncated : Bool := false

/-- A token as it is compared: tag, uncounted text before it, source text. -/
structure ExactToken where
  tag : UInt8
  lead : Str
  text : Str
  deriving DecidableEq

def lookupFileFact [Sha256] (file : SourceFile) (fileFacts : FactMap) (factKeys : FactKeyLookup) :
    Option (FileFactKey × FileFacts) := do
  let byMode ← factKeys.get? file.contentId
  let key ← byMode.get? file.languageMode
  let facts ← fileFacts.get? key
  some (key, facts)

def prospectiveRegionAnchorTotal (retained count : Nat) : Option Nat :=
  if count ≤ maxRegionFingerprintsPerRequest - retained then some (retained + count) else none

def recordBoundedPath (paths : BTreeSet RepoPath) (pathsTruncated : Bool) (path : RepoPath) :
    BTreeSet RepoPath × Bool :=
  if path ∈ paths then (paths, pathsTruncated)
  else if maxObservationPaths ≤ paths.size then (paths, true)
  else (paths.insert path, pathsTruncated)

namespace RegionView

def pathOf (self : RegionView) (file : Nat) : Option RepoPath := self.files[file]?.map RegionFile.path

/-- The sort key of an occurrence inside its group. -/
def occurrenceKey (self : RegionView) (occurrence : AnchorOccurrence) : Str ×ₗ Nat :=
  toLex (((self.pathOf occurrence.file).map RepoPath.bytes).getD [], occurrence.tokenIndex)

/-- Group the anchors of the file pushed last. -/
def pushAnchor (family : Str) (file : Nat)
    (groups : BTreeMap Str (BTreeMap AnchorKey (List AnchorOccurrence)))
    (anchor : RegionFingerprint) : BTreeMap Str (BTreeMap AnchorKey (List AnchorOccurrence)) :=
  groups.upsert family ∅ fun byAnchor =>
    byAnchor.upsert (toLex (anchor.hashOne, anchor.hashTwo)) [] (· ++ [⟨file, anchor.tokenIndex⟩])

/-- Retain a file whose stream was decoded. -/
def pushFile (self : RegionView) (source : SourceFile) (path : RepoPath)
    (facts : RegionFingerprintFacts) (decoded : DecodedTokens) (retainedAnchors : Nat) :
    RegionView :=
  { self with
    retainedAnchors
    retainedTokens := self.retainedTokens + facts.tokenCount
    files := self.files ++ [⟨source, path, decoded⟩]
    groups := facts.anchors.foldl (pushAnchor source.language.family self.files.length)
      self.groups }

def recordMalformed (self : RegionView) (path : RepoPath) : RegionView :=
  let (paths, truncated) := recordBoundedPath self.malformedPaths self.malformedPathsTruncated path
  { self with malformedPaths := paths, malformedPathsTruncated := truncated }

/-- One file of the snapshot. -/
def step [Sha256] [Base64] (fileFacts : FactMap) (factKeys : FactKeyLookup)
    (continuity : BTreeMap RepoPath RepoPath) (s : RegionView × DecodedEvidence)
    (source : SourceFile) : RegionView × DecodedEvidence :=
  match lookupFileFact source fileFacts factKeys with
  | none => s
  | some (factKey, facts) =>
    if facts.regionFingerprints.status ≠ .complete then s
    else
      let path := (continuity.get? source.path).getD source.path
      let anchors := facts.regionFingerprints.anchors.length
      let fileBounded : Bool := anchors ≤ maxRegionFingerprintsPerFile
      let retainedAnchors :=
        if fileBounded then prospectiveRegionAnchorTotal s.1.retainedAnchors anchors else none
      let (state, evidence) := DecodedEvidence.state s.2 factKey source facts.regionFingerprints
        retainedAnchors.isSome
      match state, retainedAnchors with
      | .malformed, _ => (s.1.recordMalformed path, evidence)
      | .validated, _ =>
        (if fileBounded then { s.1 with requestTruncated := true } else s.1, evidence)
      | .decoded _, none => ({ s.1 with requestTruncated := true }, evidence)
      | .decoded decoded, some retainedAnchors =>
        (s.1.pushFile source path facts.regionFingerprints decoded retainedAnchors, evidence)

/-- Each group in path and position order. -/
def sortGroups (self : RegionView) : RegionView :=
  { self with
    groups := self.groups.mapValues fun byAnchor => byAnchor.mapValues (sortByKey self.occurrenceKey) }

def new [Sha256] [Base64] (view : SenseView) (snapshot : SourceSnapshot) (fileFacts : FactMap)
    (factKeys : FactKeyLookup) (continuity : BTreeMap RepoPath RepoPath)
    (evidence : DecodedEvidence) : RegionView × DecodedEvidence :=
  let s := snapshot.fileList.foldl (step fileFacts factKeys continuity) ({ view }, evidence)
  (s.1.sortGroups, s.2)

def exactToken (self : RegionView) (file token : Nat) : Option ExactToken := do
  let file ← self.files[file]?
  let token ← file.decoded.tokens[token]?
  let text ← slice file.source.bytes token.start token.stop
  some ⟨token.tag, token.lead, text⟩

/-- The bytes a digest is taken of, token after token. -/
def encodeToken (token : ExactToken) : Str :=
  be32 (min token.lead.length u32Max) ++ token.lead ++ [token.tag]
    ++ be32 (min token.text.length u32Max) ++ token.text

def regionDigest [Sha256] (self : RegionView) (file start stop : Nat) : Option Str := do
  let regionFile ← self.files[file]?
  let _ ← slice regionFile.decoded.tokens start stop
  let tokens ← (List.range' start (stop - start)).mapM (self.exactToken file)
  some (hexEncode (hashDomain (ascii "dedup-token-region/v1")
    [regionFile.source.language.family, tokens.flatMap encodeToken]))

end RegionView

def RegionFile.range (self : RegionFile) (start stop : Nat) : Option SourceRange := do
  let first ← self.decoded.tokens[start]?
  if stop = 0 then none
  else
    let last ← self.decoded.tokens[stop - 1]?
    some ⟨self.decoded.position first.start, self.decoded.position last.stop⟩

/-! ## The shared comparison state -/

/-- What is left of the budget, and what went wrong so far. -/
structure ComparisonState where
  remaining : Nat := maxDedupTokenComparisons
  incomplete : Bool := false
  findingsTruncated : Bool := false
  limitReached : Bool := false
  malformedEvidence : Bool := false
  views : BTreeSet SenseView := ∅
  limitPaths : BTreeSet RepoPath := ∅
  malformedPaths : BTreeSet RepoPath := ∅
  malformedPathsTruncated : Bool := false

structure TokenLocation where
  file : Nat
  token : Nat

/-- Two tokens to compare, each in its view. -/
structure TokenPair where
  leftView : RegionView
  left : TokenLocation
  rightView : RegionView
  right : TokenLocation

/-- Two token ranges to compare. -/
structure RegionPair where
  leftView : RegionView
  leftFile : Nat
  leftStart : Nat
  leftStop : Nat
  rightView : RegionView
  rightFile : Nat
  rightStart : Nat
  rightStop : Nat

namespace ComparisonState

def recordMalformedPath (self : ComparisonState) (path : RepoPath) : ComparisonState :=
  let (paths, truncated) := recordBoundedPath self.malformedPaths self.malformedPathsTruncated path
  { self with malformedPaths := paths, malformedPathsTruncated := truncated }

def observeMalformedView (self : ComparisonState) (view : RegionView) : ComparisonState :=
  if view.malformedPaths.isEmpty && !view.malformedPathsTruncated then self
  else
    let self := { self with
      incomplete := true, malformedEvidence := true, views := self.views.insert view.view }
    let self := view.malformedPaths.elems.foldl recordMalformedPath self
    { self with
      malformedPathsTruncated := self.malformedPathsTruncated || view.malformedPathsTruncated }

/-- The view that ran out of budget, and a path of it as long as there is room. -/
def recordLimitLocation (self : ComparisonState) (view : RegionView) (file : Nat) :
    ComparisonState :=
  let self := { self with views := self.views.insert view.view }
  match view.pathOf file with
  | none => self
  | some path =>
    if self.limitPaths.size < maxObservationPaths then
      { self with limitPaths := self.limitPaths.insert path }
    else self

def recordLimitPair (self : ComparisonState) (pair : TokenPair) : ComparisonState :=
  (self.recordLimitLocation pair.leftView pair.left.file).recordLimitLocation pair.rightView
    pair.right.file

def markMalformedLocation (view : RegionView) (file : Nat) (self : ComparisonState) :
    ComparisonState :=
  let self := { self with
    incomplete := true, malformedEvidence := true, views := self.views.insert view.view }
  match view.pathOf file with
  | none => self
  | some path => self.recordMalformedPath path

end ComparisonState

/-! ## Issues -/

namespace ComparisonState

/-- The issue of a budget that ran out. -/
def limitIssue (self : ComparisonState) : Option SenseIssue :=
  if !self.limitReached then none
  else
    some
      { code := ascii "dedup_exact_comparison_limit"
        message := ascii ("exact token comparison reached the fixed limit of "
          ++ toString maxDedupTokenComparisons ++ "; candidate duplicate regions remain unchecked")
        stage := some .exactTokenComparison
        views := self.views.elems
        limit := some maxDedupTokenComparisons
        processed := some maxDedupTokenComparisons
        paths := self.limitPaths.elems
        -- paths of unchecked candidates are unknown, so the sample is never complete
        pathsTruncated := true
        nextStep := some (ascii ("No runtime option raises this fixed safety limit. Split unusually "
          ++ "repetitive source or, for generated/vendor trees, use literal targets.exclude entries such "
          ++ "as \x7b\"schemaVersion\":1,\"targets\":\x7b\"exclude\":[\"generated\",\"vendor\"]\x7d\x7d. "
          ++ "See https://the-open-engine.github.io/opcore/v0.3/docs/configuration.html#select-targets.")) }

/-- The issue of evidence that could not be read. -/
def malformedIssue (self : ComparisonState) : Option SenseIssue :=
  if self.malformedEvidence then
    some
      { code := ascii "dedup_exact_evidence_malformed"
        message := ascii
          "exact token evidence was malformed; duplicate comparison could not complete"
        views := self.views.elems
        paths := self.malformedPaths.elems
        pathsTruncated := self.malformedPathsTruncated
        nextStep := some (ascii ("Rerun with a fresh local cache. If the error repeats, report the "
          ++ "affected files; --allow-partial cannot make malformed evidence complete.")) }
  else none

def issues (self : ComparisonState) : List SenseIssue :=
  self.limitIssue.toList ++ self.malformedIssue.toList

end ComparisonState

structure RegionCoverage where
  anchors : Nat := 0
  tokens : Nat := 0
  requestTruncated : Bool := false
  malformedEvidence : Bool := false
  deriving DecidableEq

def RegionView.coverage (self : RegionView) (comparison : ComparisonState) : RegionCoverage where
  anchors := self.retainedAnchors
  tokens := self.retainedTokens
  requestTruncated :=
    self.requestTruncated || (comparison.limitReached && self.view ∈ comparison.views)
  malformedEvidence := !self.malformedPaths.isEmpty || self.malformedPathsTruncated
    || (comparison.malformedEvidence && self.view ∈ comparison.views)

/-! ## Comparing tokens -/

/-- Functions on `&mut ComparisonState` that return an `Option`. -/
abbrev Compare (α : Type) := Fallible ComparisonState α

open ComparisonState

/-- Evidence that cannot be read stops the comparison. -/
def malformedAt {α : Type} (view : RegionView) (file : Nat) : Compare α := do
  Fallible.modify (markMalformedLocation view file)
  Fallible.stop

def tokenExists (view : RegionView) (file token : Nat) : Compare Bool :=
  match view.files[file]? with
  | none => do
    Fallible.modify (markMalformedLocation view file)
    pure false
  | some regionFile => pure (token < regionFile.decoded.tokens.length)

/-- Are both tokens there?  The right one is looked up only when the left one is. -/
def tokensExist (pair : TokenPair) : Compare Bool := do
  let leftExists ← tokenExists pair.leftView pair.left.file pair.left.token
  if leftExists then tokenExists pair.rightView pair.right.file pair.right.token else pure false

/-- One unit of the budget, or the end of the comparison. -/
def spendComparison (pair : TokenPair) : Compare Unit := fun s =>
  if s.remaining = 0 then
    (none, { s with incomplete := true, limitReached := true }.recordLimitPair pair)
  else (some (), { s with remaining := s.remaining - 1 })

def tokensEqual (pair : TokenPair) : Compare Bool := do
  spendComparison pair
  match pair.leftView.exactToken pair.left.file pair.left.token with
  | none => malformedAt pair.leftView pair.left.file
  | some left =>
    match pair.rightView.exactToken pair.right.file pair.right.token with
    | none => malformedAt pair.rightView pair.right.file
    | some right => pure (left = right)

/-- The tokens at `offset`, `offset + 1`, … of both ranges, `count` of them. -/
def offsetsEqual (pair : RegionPair) : (count offset : Nat) → Compare Bool
  | 0, _ => pure true
  | count + 1, offset => do
    let equal ← tokensEqual
      ⟨pair.leftView, ⟨pair.leftFile, pair.leftStart + offset⟩,
        pair.rightView, ⟨pair.rightFile, pair.rightStart + offset⟩⟩
    if equal then offsetsEqual pair count (offset + 1) else pure false

/-- Do two stretches of equal length have the same tokens? -/
def regionsEqual (pair : RegionPair) : Compare Bool :=
  if pair.leftStop - pair.leftStart ≠ pair.rightStop - pair.rightStart then pure false
  else do
    let bothExist ← tokensExist
      ⟨pair.leftView, ⟨pair.leftFile, pair.leftStop - 1⟩,
        pair.rightView, ⟨pair.rightFile, pair.rightStop - 1⟩⟩
    if bothExist then offsetsEqual pair (pair.leftStop - pair.leftStart) 0
    else do
      let s ← Fallible.get
      if s.incomplete then Fallible.stop else pure false

/-! ## Candidate regions -/

structure Candidate where
  file : Nat
  start : Nat
  stop : Nat
  anchor : AnchorKey
  anchorOffset : Nat
  deriving DecidableEq

def Candidate.len (self : Candidate) : Nat := self.stop - self.start

def distinctAnchor (left right : AnchorOccurrence) : Bool :=
  left.file ≠ right.file
    ∨ minDedupRegionTokens ≤ max left.tokenIndex right.tokenIndex - min left.tokenIndex right.tokenIndex

/-- The anchor's k-gram in two places, from `offset` on. -/
def anchorTokensMatch (view : RegionView) (left right : TokenLocation) :
    (count offset : Nat) → Compare Bool
  | 0, _ => pure true
  | count + 1, offset => do
    let equal ← tokensEqual
      ⟨view, ⟨left.file, left.token + offset⟩, view, ⟨right.file, right.token + offset⟩⟩
    if equal then anchorTokensMatch view left right count (offset + 1) else pure false

/-- Extend two equal runs to the left; the result is the start of the left one. -/
def extendLeft (view : RegionView) (leftFile rightFile : Nat) : (left right : Nat) → Compare Nat
  | left + 1, right + 1 => do
    let equal ← tokensEqual ⟨view, ⟨leftFile, left⟩, view, ⟨rightFile, right⟩⟩
    if equal then extendLeft view leftFile rightFile left right else pure (left + 1)
  | left, _ => pure left

/-- Extend two equal runs to the right; the result is the end of the left one.
    `fuel` bounds the loop by the tokens the left file has from `left` on. -/
def extendRight (view : RegionView) (leftFile rightFile : Nat) :
    (fuel left right : Nat) → Compare Nat
  | 0, left, _ => pure left
  | fuel + 1, left, right => do
    let bothExist ← tokensExist ⟨view, ⟨leftFile, left⟩, view, ⟨rightFile, right⟩⟩
    if bothExist then do
      let equal ← tokensEqual ⟨view, ⟨leftFile, left⟩, view, ⟨rightFile, right⟩⟩
      if equal then extendRight view leftFile rightFile fuel (left + 1) (right + 1)
      else pure left
    else pure left

/-- The number of tokens of a file, as a loop bound. -/
def RegionView.tokenTotal (self : RegionView) (file : Nat) : Nat :=
  (self.files[file]?.map fun regionFile => regionFile.decoded.tokens.length).getD 0

/-- The longest common block around two occurrences of an anchor. -/
def maximalExactRegion (view : RegionView) (left right : AnchorOccurrence) :
    Compare (Nat × Nat) := do
  let matching ← anchorTokensMatch view ⟨left.file, left.tokenIndex⟩ ⟨right.file, right.tokenIndex⟩
    dedupRegionKgramTokens 0
  if matching then do
    let start ← extendLeft view left.file right.file left.tokenIndex right.tokenIndex
    let stop ← extendRight view left.file right.file (view.tokenTotal left.file + 1)
      (left.tokenIndex + dedupRegionKgramTokens) (right.tokenIndex + dedupRegionKgramTokens)
    pure (start, stop)
  else Fallible.stop

/-- The state of the loop over the peers of a seed. -/
structure CandidateState where
  comparison : ComparisonState
  candidates : List Candidate := []
  ranges : BTreeSet (Nat ×ₗ Nat) := ∅

/-- Peers in order; the loop is left when the comparison became incomplete. -/
def collectCandidates (view : RegionView) (anchor : AnchorKey) (seed : AnchorOccurrence) :
    List AnchorOccurrence → CandidateState → CandidateState
  | [], s => s
  | peer :: peers, s =>
    match maximalExactRegion view seed peer s.comparison with
    | (none, comparison) =>
      if comparison.incomplete then { s with comparison }
      else collectCandidates view anchor seed peers { s with comparison }
    | (some (start, stop), comparison) =>
      if stop - start < minDedupRegionTokens ∨ toLex (start, stop) ∈ s.ranges then
        collectCandidates view anchor seed peers { s with comparison }
      else
        collectCandidates view anchor seed peers
          { comparison
            candidates := s.candidates ++
              [⟨seed.file, start, stop, anchor, seed.tokenIndex - start⟩]
            ranges := s.ranges.insert (toLex (start, stop)) }

/-- Longer candidates first, then by start. -/
def Candidate.sortKey (self : Candidate) : Natᵒᵈ ×ₗ Nat :=
  toLex (OrderDual.toDual self.len, self.start)

def candidateRegions (view : RegionView) (anchor : AnchorKey) (seed : AnchorOccurrence)
    (occurrences : List AnchorOccurrence) (comparison : ComparisonState) :
    List Candidate × ComparisonState :=
  let s := collectCandidates view anchor seed (occurrences.filter (distinctAnchor seed))
    { comparison }
  (sortByKey Candidate.sortKey s.candidates, s.comparison)

/-! ## Exact classes -/

structure ExactOccurrence where
  file : Nat
  path : RepoPath
  start : Nat
  stop : Nat
  range : SourceRange
  changed : Bool
  deriving DecidableEq

structure ExactClass where
  digest : Str
  family : Str
  beforeCount : Nat
  afterOccurrences : List ExactOccurrence
  introducedCount : Nat
  tokenCount : Nat
  deriving DecidableEq

/-- The positions of a group at which the candidate occurs, keyed by path and start. -/
def anchoredOccurrences (candidateView : RegionView) (candidate : Candidate) (target : RegionView)
    (changedPaths : BTreeSet RepoPath) :
    List AnchorOccurrence → BTreeMap (RepoPath ×ₗ Nat) ExactOccurrence →
      Compare (BTreeMap (RepoPath ×ₗ Nat) ExactOccurrence)
  | [], occurrences => pure occurrences
  | anchor :: anchors, occurrences =>
    -- `checked_sub`: the region would start before the file
    if anchor.tokenIndex < candidate.anchorOffset then
      anchoredOccurrences candidateView candidate target changedPaths anchors occurrences
    else
      let start := anchor.tokenIndex - candidate.anchorOffset
      let stop := start + candidate.len
      do
        let equal ← regionsEqual
          ⟨candidateView, candidate.file, candidate.start, candidate.stop,
            target, anchor.file, start, stop⟩
        if equal then
          match target.files[anchor.file]? with
          | none => malformedAt target anchor.file
          | some file =>
            match file.range start stop with
            | none => malformedAt target anchor.file
            | some range =>
              anchoredOccurrences candidateView candidate target changedPaths anchors
                (occurrences.upsert (toLex (file.path, start))
                  ⟨anchor.file, file.path, start, stop, range, file.path ∈ changedPaths⟩ id)
        else anchoredOccurrences candidateView candidate target changedPaths anchors occurrences

/-- Left to right, what overlaps the occurrence kept last on its path is dropped. -/
def nonOverlapping (occurrences : List ExactOccurrence) : List ExactOccurrence :=
  Intervals.leftmost ExactOccurrence.path ExactOccurrence.start ExactOccurrence.stop none occurrences

def ExactOccurrence.sortKey (self : ExactOccurrence) : RepoPath ×ₗ Nat ×ₗ Nat :=
  toLex (self.path, toLex (self.start, self.stop))

def exactOccurrences (candidateView : RegionView) (candidate : Candidate) (target : RegionView)
    (family : Str) (changedPaths : BTreeSet RepoPath) : Compare (List ExactOccurrence) :=
  match (target.groups.get? family).bind fun groups => groups.get? candidate.anchor with
  | none => pure []
  | some group => do
    let occurrences ← anchoredOccurrences candidateView candidate target changedPaths group ∅
    pure (nonOverlapping (sortByKey ExactOccurrence.sortKey occurrences.values))

def pathCounts (occurrences : List ExactOccurrence) : BTreeMap RepoPath Nat :=
  tally (occurrences.map ExactOccurrence.path)

def pathsWithGrowth (before after : BTreeMap RepoPath Nat) : BTreeSet RepoPath :=
  BTreeSet.ofList ((after.entries.filter fun entry =>
    (before.get? entry.1).getD 0 < entry.2).map Prod.fst)

/-- Every occurrence on every grown path overlaps a reported callable. -/
def shadowedByCallable (occurrences : List ExactOccurrence) (grewPaths : BTreeSet RepoPath)
    (callableFindings : List IntroducedDuplicate) : Bool :=
  !grewPaths.isEmpty && grewPaths.elems.all fun path =>
    (occurrences.filter fun occurrence => occurrence.path = path).all fun region =>
      callableFindings.any fun finding =>
        finding.kind = .callableBody && finding.occurrences.any fun callable =>
          callable.path = region.path && callable.range.any fun range =>
            range.start.byte < region.range.stop.byte && region.range.start.byte < range.stop.byte

/-- Both views of a request, and what was found before. -/
structure RegionInputs where
  suppressedPaths : BTreeSet RepoPath
  callableFindings : List IntroducedDuplicate
  findingLimit : Nat
  changedPaths : BTreeSet RepoPath
  continuity : BTreeMap RepoPath RepoPath
  before : SourceSnapshot
  after : SourceSnapshot
  fileFacts : FactMap
  factKeys : FactKeyLookup

structure EvaluationContext where
  inputs : RegionInputs
  before : RegionView
  after : RegionView

section Evaluation

variable [Sha256]

/-- The class of a candidate, where it grew and no callable finding stands for it. -/
def exactClass (context : EvaluationContext) (family : Str) (candidate : Candidate) :
    Compare ExactClass := do
  let changedPaths := context.inputs.changedPaths
  let beforeOccurrences ← exactOccurrences context.after candidate context.before family changedPaths
  let afterOccurrences ← exactOccurrences context.after candidate context.after family changedPaths
  if afterOccurrences.length < 2 ∨ afterOccurrences.length ≤ beforeOccurrences.length then
    Fallible.stop
  else
    let grewPaths := pathsWithGrowth (pathCounts beforeOccurrences) (pathCounts afterOccurrences)
    if grewPaths.isDisjoint changedPaths
        ∨ (¬ grewPaths.isEmpty ∧ grewPaths.isSubset context.inputs.suppressedPaths)
        ∨ shadowedByCallable afterOccurrences grewPaths context.inputs.callableFindings then
      Fallible.stop
    else
      match context.after.regionDigest candidate.file candidate.start candidate.stop with
      | none => malformedAt context.after candidate.file
      | some digest =>
        pure
          { digest
            family
            beforeCount := beforeOccurrences.length
            afterOccurrences
            introducedCount := afterOccurrences.length - beforeOccurrences.length
            tokenCount := candidate.len }

def classPrecedes (current : Option ExactClass) (candidate : ExactClass) : Bool :=
  current.all fun current =>
    toLex (current.afterOccurrences.length, current.tokenCount)
      < toLex (candidate.afterOccurrences.length, candidate.tokenCount)

/-- The best class among the candidates, left early when the comparison became incomplete. -/
def bestClass (context : EvaluationContext) (family : Str) :
    List Candidate → Option ExactClass → ComparisonState → Option ExactClass × ComparisonState
  | [], best, comparison => (best, comparison)
  | candidate :: candidates, best, comparison =>
    match exactClass context family candidate comparison with
    | (none, comparison) =>
      if comparison.incomplete then (best, comparison)
      else bestClass context family candidates best comparison
    | (some found, comparison) =>
      bestClass context family candidates
        (if classPrecedes best found then some found else best) comparison

/-! ## Findings -/

def shortId (digest : Str) : Str := (slice digest 0 24).getD digest

/-- Changed occurrences first, then by path and range. -/
def DuplicateOccurrence.rangeKey (range : SourceRange) : Nat ×ₗ Nat ×ₗ Nat ×ₗ Nat ×ₗ Nat ×ₗ Nat :=
  toLex (range.start.line, toLex (range.start.column, toLex (range.start.byte,
    toLex (range.stop.line, toLex (range.stop.column, range.stop.byte)))))

def ExactOccurrence.findingKey (self : ExactOccurrence) :
    Bool ×ₗ RepoPath ×ₗ Nat ×ₗ Nat ×ₗ Nat ×ₗ Nat ×ₗ Nat ×ₗ Nat :=
  toLex (!self.changed, toLex (self.path, DuplicateOccurrence.rangeKey self.range))

def ExactOccurrence.toDuplicate (self : ExactOccurrence) : DuplicateOccurrence :=
  ⟨self.path, some self.range, none, self.changed⟩

/-- The finding of a class, with a sample of its occurrences. -/
def ExactClass.intoFinding (self : ExactClass) : IntroducedDuplicate :=
  let occurrences := (sortByKey ExactOccurrence.findingKey self.afterOccurrences).map
    ExactOccurrence.toDuplicate
  { classId := ascii "region-" ++ shortId self.digest
    kind := .tokenRegion
    languageFamily := some self.family
    beforeCount := self.beforeCount
    afterCount := occurrences.length
    introducedCount := self.introducedCount
    bytes := none
    tokenCount := some self.tokenCount
    occurrences := occurrences.take maxObservationPaths
    occurrencesTruncated := maxObservationPaths < occurrences.length }

/-! ## Evaluation -/

structure EvaluationState where
  comparison : ComparisonState := {}
  findings : List IntroducedDuplicate := []
  reportedClasses : BTreeSet (Str ×ₗ Str) := ∅
  covered : BTreeMap Nat (List (Nat × Nat)) := ∅

def intervalContains (covered : BTreeMap Nat (List (Nat × Nat))) (file token : Nat) : Bool :=
  ((covered.get? file).getD []).any fun range => range.1 ≤ token ∧ token < range.2

def markCovered (covered : BTreeMap Nat (List (Nat × Nat))) (occurrences : List ExactOccurrence) :
    BTreeMap Nat (List (Nat × Nat)) :=
  (occurrences.filter fun occurrence => occurrence.changed).foldl
    (fun covered occurrence =>
      covered.upsert occurrence.file [] (· ++ [(occurrence.start, occurrence.stop)])) covered

def hasDistinctAnchors : List AnchorOccurrence → Bool
  | [] => false
  | first :: rest => rest.any (distinctAnchor first)

/-- Is the occurrence's path changed and not part of an identical-file finding? -/
def seedEligible (context : EvaluationContext) (file : Nat) : Bool :=
  (context.after.pathOf file).any fun path =>
    path ∈ context.inputs.changedPaths ∧ path ∉ context.inputs.suppressedPaths

def anchorClassMayBeIntroduced (context : EvaluationContext) (after : List AnchorOccurrence) :
    Bool :=
  2 ≤ after.length && hasDistinctAnchors after
    && after.any fun occurrence => seedEligible context occurrence.file

namespace EvaluationState

/-- A class goes into the report once per family and digest, while there is room. -/
def report (self : EvaluationState) (findingLimit : Nat) (family : Str) (found : ExactClass) :
    EvaluationState :=
  let self := { self with covered := markCovered self.covered found.afterOccurrences }
  let entry := toLex (family, found.digest)
  if entry ∈ self.reportedClasses then self
  else
    let self := { self with reportedClasses := self.reportedClasses.insert entry }
    if findingLimit ≤ self.findings.length then
      { self with comparison := { self.comparison with findingsTruncated := true } }
    else { self with findings := self.findings ++ [found.intoFinding] }

/-- A seed that no found region covers reports the best class around it. -/
def evaluateSeed (context : EvaluationContext) (family : Str) (anchor : AnchorKey)
    (occurrences : List AnchorOccurrence) (self : EvaluationState) (seed : AnchorOccurrence) :
    EvaluationState :=
  if !seedEligible context seed.file || intervalContains self.covered seed.file seed.tokenIndex then
    self
  else
    let (candidates, comparison) :=
      candidateRegions context.after anchor seed occurrences self.comparison
    let (best, comparison) := bestClass context family candidates none comparison
    let self := { self with comparison }
    match best with
    | none => self
    | some found => self.report context.inputs.findingLimit family found

/-- The seeds of a group, until the comparison is incomplete. -/
def evaluateSeeds (context : EvaluationContext) (family : Str) (anchor : AnchorKey)
    (occurrences : List AnchorOccurrence) :
    List AnchorOccurrence → EvaluationState → EvaluationState
  | [], self => self
  | seed :: seeds, self =>
    let self := evaluateSeed context family anchor occurrences self seed
    if self.comparison.incomplete then self
    else evaluateSeeds context family anchor occurrences seeds self

def evaluateGroup (context : EvaluationContext) (family : Str) (anchor : AnchorKey)
    (afterOccurrences : List AnchorOccurrence) (self : EvaluationState) : EvaluationState :=
  if anchorClassMayBeIntroduced context afterOccurrences then
    evaluateSeeds context family anchor afterOccurrences afterOccurrences self
  else self

/-- The groups of all families in order, until the comparison is incomplete. -/
def evaluateGroups (context : EvaluationContext) :
    List (Str × AnchorKey × List AnchorOccurrence) → EvaluationState → EvaluationState
  | [], self => self
  | (family, anchor, occurrences) :: groups, self =>
    let self := evaluateGroup context family anchor occurrences self
    if self.comparison.incomplete then self else evaluateGroups context groups self

end EvaluationState

/-- All groups of a view, family by family. -/
def RegionView.allGroups (self : RegionView) : List (Str × AnchorKey × List AnchorOccurrence) :=
  self.groups.entries.flatMap fun (family, groups) =>
    groups.entries.map fun (anchor, occurrences) => (family, anchor, occurrences)

structure RegionResult where
  findings : List IntroducedDuplicate
  findingsTruncated : Bool
  before : RegionCoverage
  after : RegionCoverage
  comparisonIssues : List SenseIssue
  malformedFactKeys : BTreeSet FileFactKey

variable [Base64]

/-- Both views; the first one under the paths its files continue at. -/
def regionViews (inputs : RegionInputs) : EvaluationContext × DecodedEvidence :=
  let (before, evidence) :=
    RegionView.new .before inputs.before inputs.fileFacts inputs.factKeys inputs.continuity ∅
  let (after, evidence) :=
    RegionView.new .after inputs.after inputs.fileFacts inputs.factKeys ∅ evidence
  (⟨inputs, before, after⟩, evidence)

/-- The state in which the evaluation of all groups ends. -/
def evaluateRegions (context : EvaluationContext) : EvaluationState :=
  let comparison := (({} : ComparisonState).observeMalformedView context.before).observeMalformedView
    context.after
  if comparison.incomplete then { comparison }
  else EvaluationState.evaluateGroups context context.after.allGroups { comparison }

/-- The regions that a request introduces, and what both views come to. -/
def regionFindings (inputs : RegionInputs) : RegionResult :=
  let (context, evidence) := regionViews inputs
  let state := evaluateRegions context
  { findings := state.findings
    findingsTruncated := state.comparison.findingsTruncated
    before := context.before.coverage state.comparison
    after := context.after.coverage state.comparison
    comparisonIssues := state.comparison.issues
    malformedFactKeys := DecodedEvidence.malformedFactKeys evidence }

/-- `validate_identical_snapshot`: two equal views are one view, whose malformed
    evidence is reported for both. -/
def validateIdenticalSnapshot (snapshot : SourceSnapshot) (fileFacts : FactMap)
    (factKeys : FactKeyLookup) : RegionCoverage × List SenseIssue × BTreeSet FileFactKey :=
  let (view, evidence) := RegionView.new .before snapshot fileFacts factKeys ∅ ∅
  let comparison := ({} : ComparisonState).observeMalformedView view
  let comparison :=
    if comparison.malformedEvidence then
      { comparison with views := comparison.views.insert .after }
    else comparison
  (view.coverage comparison, comparison.issues, DecodedEvidence.malformedFactKeys evidence)

end Evaluation

end Opcore
