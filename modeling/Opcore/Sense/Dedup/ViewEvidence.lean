/-
  Opcore.Sense.Dedup.ViewEvidence

  The evidence a view is built from.  Two views share one decoding for each fact key;
  where files with one key have the same bytes, the shared decoding is every file's
  own.  A view retains decoded files only, and it notices exactly the files whose
  evidence cannot be decoded.
-/
import Opcore.Sense.Dedup.Ranges
import Opcore.Sense.Dedup.RegionSafety

namespace Opcore

open Text Collections Smallest Fallible

/-! ## Decoded streams hold what they count -/

section Streams

variable {source other : SourceFile} {facts : RegionFingerprintFacts} {sourceLen : Nat}

theorem decodeTokenRecord_inside {bytes rest : Str} {token : DecodedToken}
    (h : decodeTokenRecord bytes sourceLen = some (token, rest)) :
    token.start < token.stop ∧ token.stop ≤ sourceLen := by
  rw [decodeTokenRecord] at h
  obtain ⟨⟨start, bytes⟩, -, h⟩ := Option.bind_eq_some_iff.mp h
  obtain ⟨⟨stop, bytes⟩, -, h⟩ := Option.bind_eq_some_iff.mp h
  obtain ⟨tag, -, h⟩ := Option.bind_eq_some_iff.mp h
  obtain ⟨⟨leadLen, bytes⟩, -, h⟩ := Option.bind_eq_some_iff.mp h
  obtain ⟨lead, -, h⟩ := Option.bind_eq_some_iff.mp h
  split_ifs at h with hinside
  cases h
  exact hinside

theorem decodeTokenRecords_inside {missing previousEnd : Nat} {bytes : Str}
    {tokens : List DecodedToken}
    (h : decodeTokenRecords sourceLen missing bytes previousEnd = some tokens) :
    tokens.length = missing
      ∧ ∀ token ∈ tokens, token.start < token.stop ∧ token.stop ≤ sourceLen := by
  induction missing generalizing bytes previousEnd tokens with
  | zero =>
    unfold decodeTokenRecords at h
    simp only [ite_true] at h
    split_ifs at h
    cases h
    exact ⟨rfl, List.forall_mem_nil _⟩
  | succ missing ih =>
    unfold decodeTokenRecords at h
    by_cases hempty : bytes.isEmpty = true
    · rw [if_pos hempty, if_neg (Nat.succ_ne_zero missing)] at h
      cases h
    rw [if_neg hempty] at h
    cases hrecord : decodeTokenRecord bytes sourceLen with
    | none =>
      rw [hrecord] at h
      cases h
    | some result =>
      obtain ⟨token, rest⟩ := result
      rw [hrecord] at h
      simp only at h
      split_ifs at h
      obtain ⟨later, hlater, rfl⟩ := Option.map_eq_some_iff.mp h
      obtain ⟨hlength, hinside⟩ := ih hlater
      exact ⟨by rw [List.length_cons, hlength],
        List.forall_mem_cons.mpr ⟨decodeTokenRecord_inside hrecord, hinside⟩⟩

variable [Base64]

/-- A decoded stream: tokens inside the source, and k-grams inside the tokens. -/
structure DecodedTokens.Valid (source : SourceFile) (facts : RegionFingerprintFacts)
    (decoded : DecodedTokens) : Prop where
  inside : ∀ token ∈ decoded.tokens, token.start < token.stop ∧ token.stop ≤ source.bytes.length
  anchored : ∀ anchor ∈ facts.anchors,
    anchor.tokenIndex + dedupRegionKgramTokens ≤ decoded.tokens.length

theorem valid_of_decode {decoded : DecodedTokens}
    (h : DecodedTokens.decode source facts = some decoded) : decoded.Valid source facts := by
  obtain ⟨bytes, hstream⟩ := exists_streamOf (tokens_of_decode h)
  obtain ⟨hlength, hinside⟩ := decodeTokenRecords_inside hstream.records
  exact ⟨hinside, fun anchor hanchor => by rw [hlength]; exact hstream.anchored anchor hanchor⟩

/-- Of the file, only the bytes are read. -/
theorem decode_congr (h : source.bytes = other.bytes) :
    DecodedTokens.decode source facts = DecodedTokens.decode other facts := by
  simp only [DecodedTokens.decode, DecodedTokens.read, h]

end Streams

/-! ## The shared decoding -/

section Evidence

variable [Sha256] (fileFacts : FactMap) (factKeys : FactKeyLookup)

/-- The fact key and the evidence of a file that a view looks at. -/
def completeEvidence (file : SourceFile) : Option (FileFactKey × RegionFingerprintFacts) :=
  match lookupFileFact file fileFacts factKeys with
  | none => none
  | some (factKey, facts) =>
    if facts.regionFingerprints.status = .complete then some (factKey, facts.regionFingerprints)
    else none

/-- Files that share a fact key have equal bytes. -/
def SharedKeysAgree (files : List SourceFile) : Prop :=
  ∀ file ∈ files, ∀ other ∈ files, ∀ factKey facts facts',
    lookupFileFact file fileFacts factKeys = some (factKey, facts) →
    lookupFileFact other fileFacts factKeys = some (factKey, facts') → file.bytes = other.bytes

variable [Base64]

/-- The evidence of a complete file cannot be decoded. -/
def DecodingFails (file : SourceFile) : Prop :=
  ∃ factKey facts, completeEvidence fileFacts factKeys file = some (factKey, facts)
    ∧ DecodedTokens.decode file facts = none

omit [Sha256] in
/-- A state says of a file what decoding its evidence gives.  Only files within the
    anchor limit are decoded. -/
def EvidenceFor (file : SourceFile) (facts : RegionFingerprintFacts) : EvidenceState → Prop
  | .decoded decoded => DecodedTokens.decode file facts = some decoded
      ∧ facts.anchors.length ≤ maxRegionFingerprintsPerFile
  | .validated => (DecodedTokens.decode file facts).isSome
  | .malformed => DecodedTokens.decode file facts = none

/-- Every shared state is that of one of the files with its key. -/
structure DecodedEvidence.Faithful (files : List SourceFile) (evidence : DecodedEvidence) :
    Prop where
  own : ∀ factKey state, evidence.get? factKey = some state →
    ∃ file ∈ files, ∃ facts, completeEvidence fileFacts factKeys file = some (factKey, facts)
      ∧ EvidenceFor file facts state

variable {fileFacts factKeys} {files : List SourceFile} {file other : SourceFile}
  {factKey : FileFactKey} {facts facts' : RegionFingerprintFacts} {evidence : DecodedEvidence}

omit [Base64] in
theorem lookup_of_completeEvidence
    (h : completeEvidence fileFacts factKeys file = some (factKey, facts)) :
    ∃ fileFact, lookupFileFact file fileFacts factKeys = some (factKey, fileFact)
      ∧ fileFact.regionFingerprints = facts := by
  rw [completeEvidence] at h
  split at h
  · cases h
  · rename_i key fileFact hlookup
    split_ifs at h
    cases h
    exact ⟨fileFact, hlookup, rfl⟩

omit [Base64] in
/-- The facts of a file are the ones under its key. -/
theorem get?_of_lookupFileFact {fileFact : FileFacts}
    (h : lookupFileFact file fileFacts factKeys = some (factKey, fileFact)) :
    fileFacts.get? factKey = some fileFact := by
  obtain ⟨byMode, -, h⟩ := Option.bind_eq_some_iff.mp h
  obtain ⟨key, -, h⟩ := Option.bind_eq_some_iff.mp h
  obtain ⟨found, hfound, h⟩ := Option.bind_eq_some_iff.mp h
  cases h
  exact hfound

omit [Base64] in
/-- One key, one set of facts. -/
theorem facts_eq_of_completeEvidence
    (h : completeEvidence fileFacts factKeys file = some (factKey, facts))
    (h' : completeEvidence fileFacts factKeys other = some (factKey, facts')) : facts = facts' := by
  obtain ⟨fileFact, hlookup, rfl⟩ := lookup_of_completeEvidence h
  obtain ⟨fileFact', hlookup', rfl⟩ := lookup_of_completeEvidence h'
  have hget := get?_of_lookupFileFact hlookup
  rw [get?_of_lookupFileFact hlookup'] at hget
  cases hget
  rfl

omit [Sha256] in
theorem evidenceFor_congr (h : file.bytes = other.bytes) {state : EvidenceState}
    (hstate : EvidenceFor file facts state) : EvidenceFor other facts state := by
  cases state <;> simpa only [EvidenceFor, decode_congr h] using hstate

omit [Sha256] in
theorem evidenceFor_decodeState (hbounded : facts.anchors.length ≤ maxRegionFingerprintsPerFile) :
    EvidenceFor file facts (DecodedEvidence.decodeState file facts) := by
  rw [DecodedEvidence.decodeState]
  split
  · rename_i tokens h
    exact ⟨h, hbounded⟩
  · rename_i h
    exact h

omit [Sha256] in
theorem decodeState_ne_validated : DecodedEvidence.decodeState file facts ≠ .validated := by
  rw [DecodedEvidence.decodeState]
  split
  · exact nofun
  · exact nofun

/-- What a view is told about a file. -/
structure StateSpec (fileFacts : FactMap) (factKeys : FactKeyLookup) (files : List SourceFile)
    (file : SourceFile) (facts : RegionFingerprintFacts) (retain : Bool)
    (result : EvidenceState × DecodedEvidence) : Prop where
  evidenceFor : EvidenceFor file facts result.1
  retained : retain = true → result.1 ≠ .validated
  faithful : result.2.Faithful fileFacts factKeys files

variable (hevidence : evidence.Faithful fileFacts factKeys files) (hfile : file ∈ files)
  (hcomplete : completeEvidence fileFacts factKeys file = some (factKey, facts))

include hevidence hfile hcomplete

/-- The state under the key of a file is that of the file itself. -/
theorem DecodedEvidence.Faithful.evidenceFor (hkeys : SharedKeysAgree fileFacts factKeys files)
    {state : EvidenceState} (hstate : evidence.get? factKey = some state) :
    EvidenceFor file facts state := by
  obtain ⟨other, hother, facts', hcomplete', hfor⟩ := hevidence.own factKey state hstate
  obtain rfl := facts_eq_of_completeEvidence hcomplete hcomplete'
  obtain ⟨fileFact, hlookup, -⟩ := lookup_of_completeEvidence hcomplete
  obtain ⟨fileFact', hlookup', -⟩ := lookup_of_completeEvidence hcomplete'
  exact evidenceFor_congr (hkeys other hother file hfile _ _ _ hlookup' hlookup) hfor

/-- A validated stream is decoded when its tokens are asked for. -/
theorem stateSpec_upgrade {retain : Bool}
    (hretained : retain = true → facts.anchors.length ≤ maxRegionFingerprintsPerFile)
    {first : EvidenceState} (hfirst : EvidenceFor file facts first) :
    StateSpec fileFacts factKeys files file facts retain
      (if retain ∧ first = .validated then DecodedEvidence.decodeState file facts else first,
        evidence.insert factKey (if retain ∧ first = .validated then
          DecodedEvidence.decodeState file facts else first)) := by
  have hlast : EvidenceFor file facts (if retain ∧ first = .validated then
      DecodedEvidence.decodeState file facts else first) := by
    split_ifs with hupgrade
    · exact evidenceFor_decodeState (hretained hupgrade.1)
    · exact hfirst
  refine ⟨hlast, ?_, ⟨?_⟩⟩
  · intro hretain
    simp only
    split_ifs with hupgrade
    · exact decodeState_ne_validated
    · exact fun hvalidated => hupgrade ⟨hretain, hvalidated⟩
  · intro key state hstate
    rw [BTreeMap.get?_insert] at hstate
    by_cases hkey : key = factKey
    · rw [if_pos hkey] at hstate
      cases hstate
      subst hkey
      exact ⟨file, hfile, facts, hcomplete, hlast⟩
    · rw [if_neg hkey] at hstate
      exact hevidence.own key state hstate

theorem stateSpec_state (hkeys : SharedKeysAgree fileFacts factKeys files) {retain : Bool}
    (hretained : retain = true → facts.anchors.length ≤ maxRegionFingerprintsPerFile) :
    StateSpec fileFacts factKeys files file facts retain
      (DecodedEvidence.state evidence factKey file facts retain) := by
  have hvalidates := @validates_eq_isSome_decode _ file facts
  rw [DecodedEvidence.state]
  cases hstate : evidence.get? factKey with
  | some state =>
    exact stateSpec_upgrade hevidence hfile hcomplete hretained
      (hevidence.evidenceFor hfile hcomplete hkeys hstate)
  | none =>
    refine stateSpec_upgrade hevidence hfile hcomplete hretained ?_
    split_ifs with hretain hvalid
    · exact evidenceFor_decodeState (hretained hretain)
    · rwa [hvalidates] at hvalid
    · rw [hvalidates, Bool.not_eq_true, Option.isSome_eq_false_iff,
        Option.isNone_iff_eq_none] at hvalid
      exact hvalid

end Evidence

/-! ## One file of a view -/

namespace RegionView

/-- Some evidence of the view could not be decoded. -/
def hasMalformed (self : RegionView) : Bool :=
  !self.malformedPaths.isEmpty || self.malformedPathsTruncated

/-- The anchors retained after a file, when the file and the request have room for its own. -/
def admitted (self : RegionView) (facts : RegionFingerprintFacts) : Option Nat :=
  if facts.anchors.length ≤ maxRegionFingerprintsPerFile then
    prospectiveRegionAnchorTotal self.retainedAnchors facts.anchors.length
  else none

/-- A file without room: the request is truncated unless the file is beyond its own limit. -/
def skipFile (self : RegionView) (facts : RegionFingerprintFacts) : RegionView :=
  { self with
    requestTruncated := self.requestTruncated
      || decide (facts.anchors.length ≤ maxRegionFingerprintsPerFile) }

theorem hasMalformed_recordMalformed (view : RegionView) (path : RepoPath) :
    (view.recordMalformed path).hasMalformed = true := by
  have hempty : ∀ paths : BTreeSet RepoPath, ∀ p ∈ paths, paths.isEmpty = false := by
    intro paths p hp
    by_contra hnot
    rw [Bool.not_eq_false, BTreeSet.isEmpty_iff] at hnot
    subst hnot
    exact BTreeSet.not_mem_empty hp
  simp only [hasMalformed, recordMalformed, recordBoundedPath]
  split_ifs with hmem hfull
  · rw [hempty _ _ hmem]
    rfl
  · exact Bool.or_true _
  · rw [hempty _ path (BTreeSet.mem_insert.mpr (Or.inl rfl))]
    rfl

section Step

variable [Sha256] [Base64] {fileFacts : FactMap} {factKeys : FactKeyLookup}
  {continuity : BTreeMap RepoPath RepoPath} {files : List SourceFile} {file : SourceFile}
  {factKey : FileFactKey} {facts : RegionFingerprintFacts} {s : RegionView × DecodedEvidence}

/-- A file without complete evidence is passed over. -/
theorem step_incomplete (h : completeEvidence fileFacts factKeys file = none) :
    step fileFacts factKeys continuity s file = s := by
  rw [step]
  rw [completeEvidence] at h
  split
  · rfl
  · rename_i key fileFact hlookup
    rw [hlookup] at h
    simp only at h
    split_ifs at h with hstatus
    rw [if_pos hstatus]

/-- What a step does to the view, by what decoding the file's evidence gives. -/
inductive Stepped (fileFacts : FactMap) (factKeys : FactKeyLookup) (view : RegionView)
    (file : SourceFile) (path : RepoPath) (facts : RegionFingerprintFacts) : RegionView → Prop where
  | malformed (hdecode : DecodedTokens.decode file facts = none) :
      Stepped fileFacts factKeys view file path facts (view.recordMalformed path)
  | skipped (hdecode : (DecodedTokens.decode file facts).isSome) (hadmitted : view.admitted facts = none) :
      Stepped fileFacts factKeys view file path facts (view.skipFile facts)
  | pushed {decoded : DecodedTokens} {retainedAnchors : Nat}
      (hdecode : DecodedTokens.decode file facts = some decoded)
      (hadmitted : view.admitted facts = some retainedAnchors) :
      Stepped fileFacts factKeys view file path facts
        (view.pushFile file path facts decoded retainedAnchors)

theorem step_complete (hevidence : s.2.Faithful fileFacts factKeys files)
    (hkeys : SharedKeysAgree fileFacts factKeys files) (hfile : file ∈ files)
    (hcomplete : completeEvidence fileFacts factKeys file = some (factKey, facts)) :
    Stepped fileFacts factKeys s.1 file ((continuity.get? file.path).getD file.path) facts
        (step fileFacts factKeys continuity s file).1
      ∧ (step fileFacts factKeys continuity s file).2.Faithful fileFacts factKeys files := by
  obtain ⟨fileFact, hlookup, rfl⟩ := lookup_of_completeEvidence hcomplete
  have hstatus : fileFact.regionFingerprints.status = .complete := by
    rw [completeEvidence, hlookup] at hcomplete
    simp only at hcomplete
    split_ifs at hcomplete with hstatus
    exact hstatus
  have hbounded : (s.1.admitted fileFact.regionFingerprints).isSome = true →
      fileFact.regionFingerprints.anchors.length ≤ maxRegionFingerprintsPerFile := by
    rw [admitted]
    split_ifs with hbounded
    · exact fun _ => hbounded
    · exact nofun
  have hspec := stateSpec_state hevidence hfile hcomplete hkeys hbounded
  -- The test of the source is the one of `admitted`.
  have hadmittedEq : (if decide (fileFact.regionFingerprints.anchors.length
        ≤ maxRegionFingerprintsPerFile) = true then
      prospectiveRegionAnchorTotal s.1.retainedAnchors fileFact.regionFingerprints.anchors.length
      else none) = s.1.admitted fileFact.regionFingerprints := by
    simp only [admitted, decide_eq_true_eq]
  rw [step, hlookup]
  simp only [hstatus, ne_eq, not_true_eq_false, if_false, hadmittedEq]
  generalize DecodedEvidence.state s.2 factKey file fileFact.regionFingerprints
    (s.1.admitted fileFact.regionFingerprints).isSome = r at hspec ⊢
  obtain ⟨state, evidence⟩ := r
  refine ⟨?_, ?_⟩
  · cases state with
    | malformed =>
      exact Stepped.malformed hspec.evidenceFor
    | validated =>
      have hadmitted : s.1.admitted fileFact.regionFingerprints = none := by
        by_contra hsome
        exact hspec.retained (Option.isSome_iff_ne_none.mpr hsome) rfl
      -- Decoded and not kept: the room is short, or the file has too many.
      have hskip : (if decide (fileFact.regionFingerprints.anchors.length
          ≤ maxRegionFingerprintsPerFile) = true then { s.1 with requestTruncated := true } else s.1)
            = s.1.skipFile fileFact.regionFingerprints := by
        rw [skipFile]
        by_cases hfits : fileFact.regionFingerprints.anchors.length ≤ maxRegionFingerprintsPerFile
        · simp [hfits]
        · simp [hfits]
      simp only [hskip]
      exact Stepped.skipped hspec.evidenceFor hadmitted
    | decoded tokens =>
      obtain ⟨hdecode, hfits⟩ := hspec.evidenceFor
      cases hadmitted : s.1.admitted fileFact.regionFingerprints with
      | none =>
        have hskip : { s.1 with requestTruncated := true }
            = s.1.skipFile fileFact.regionFingerprints := by
          simp [skipFile, hfits]
        simp only [hskip]
        exact Stepped.skipped (by rw [hdecode]; rfl) hadmitted
      | some retainedAnchors =>
        exact Stepped.pushed hdecode hadmitted
  · have hfaithful := hspec.faithful
    split <;> exact hfaithful

/-! ## All files of a view -/

/-- What is known of a view after the files `done`. -/
structure BuiltFrom (fileFacts : FactMap) (factKeys : FactKeyLookup) (done : List SourceFile)
    (view : RegionView) : Prop where
  retained : ∀ regionFile ∈ view.files, ∃ factKey facts,
    completeEvidence fileFacts factKeys regionFile.source = some (factKey, facts)
      ∧ DecodedTokens.decode regionFile.source facts = some regionFile.decoded
  anchored : ∀ family key, ∀ occurrence ∈ view.group family key,
    view.InRange occurrence.file (occurrence.tokenIndex + dedupRegionKgramTokens - 1)
  malformed : view.hasMalformed = true ↔ ∃ file ∈ done, DecodingFails fileFacts factKeys file

variable {done : List SourceFile} {view view' : RegionView}

/-- The retained tokens can be read. -/
theorem BuiltFrom.validated (h : BuiltFrom fileFacts factKeys done view) : view.Validated := by
  refine ⟨fun regionFile hfile token htoken => ?_, h.anchored⟩
  obtain ⟨factKey, facts, -, hdecode⟩ := h.retained regionFile hfile
  obtain ⟨hlt, hle⟩ := (valid_of_decode hdecode).inside token htoken
  exact ⟨hlt.le, hle⟩

theorem decodingFails_iff (hcomplete : completeEvidence fileFacts factKeys file = some (factKey, facts)) :
    DecodingFails fileFacts factKeys file ↔ DecodedTokens.decode file facts = none := by
  constructor
  · rintro ⟨key, facts', hcomplete', hdecode⟩
    rw [hcomplete] at hcomplete'
    cases hcomplete'
    exact hdecode
  · exact fun hdecode => ⟨factKey, facts, hcomplete, hdecode⟩

/-- One more file on which decoding does not fail. -/
theorem exists_fails_append (h : ¬ DecodingFails fileFacts factKeys file) :
    (∃ other ∈ done ++ [file], DecodingFails fileFacts factKeys other)
      ↔ ∃ other ∈ done, DecodingFails fileFacts factKeys other := by
  simp only [List.mem_append, List.mem_singleton]
  constructor
  · rintro ⟨other, hother | rfl, hfails⟩
    · exact ⟨other, hother, hfails⟩
    · exact absurd hfails h
  · rintro ⟨other, hother, hfails⟩
    exact ⟨other, Or.inl hother, hfails⟩

theorem BuiltFrom.incomplete (h : BuiltFrom fileFacts factKeys done view)
    (hincomplete : completeEvidence fileFacts factKeys file = none) :
    BuiltFrom fileFacts factKeys (done ++ [file]) view := by
  refine ⟨h.retained, h.anchored, h.malformed.trans (exists_fails_append ?_).symm⟩
  rintro ⟨factKey, facts, hcomplete, -⟩
  rw [hincomplete] at hcomplete
  cases hcomplete

omit [Sha256] [Base64] in
/-- What was in range stays so when files are added. -/
theorem inRange_pushFile {path : RepoPath} {decoded : DecodedTokens} {retainedAnchors i token : Nat}
    (h : view.InRange i token) :
    (view.pushFile file path facts decoded retainedAnchors).InRange i token := by
  obtain ⟨regionFile, hfile, hlt⟩ := h
  refine ⟨regionFile, ?_, hlt⟩
  show (view.files ++ _)[i]? = some regionFile
  rw [List.getElem?_append_left (List.getElem?_eq_some_iff.mp hfile).1, hfile]

theorem BuiltFrom.stepped (h : BuiltFrom fileFacts factKeys done view) {path : RepoPath}
    (hcomplete : completeEvidence fileFacts factKeys file = some (factKey, facts))
    (hstep : Stepped fileFacts factKeys view file path facts view') :
    BuiltFrom fileFacts factKeys (done ++ [file]) view' := by
  have hfails := decodingFails_iff hcomplete
  cases hstep with
  | malformed hdecode =>
    refine ⟨h.retained, h.anchored, iff_of_true (hasMalformed_recordMalformed ..) ?_⟩
    exact ⟨file, by simp, hfails.mpr hdecode⟩
  | skipped hdecode =>
    refine ⟨h.retained, h.anchored, h.malformed.trans (exists_fails_append ?_).symm⟩
    rw [hfails]
    exact Option.isSome_iff_ne_none.mp hdecode
  | @pushed decoded retainedAnchors hdecode hadmitted =>
    refine ⟨?_, ?_, h.malformed.trans (exists_fails_append ?_).symm⟩
    · intro regionFile hfile
      obtain hold | hnew := List.mem_append.mp hfile
      · exact h.retained regionFile hold
      · obtain rfl := List.mem_singleton.mp hnew
        exact ⟨factKey, facts, hcomplete, hdecode⟩
    · intro family key occurrence hoccurrence
      obtain hold | ⟨anchor, hanchor, -, -, rfl⟩ :=
        (mem_group_foldl view _ _ facts.anchors).mp hoccurrence
      · exact inRange_pushFile (h.anchored family key occurrence hold)
      · refine ⟨⟨file, path, decoded⟩, ?_, ?_⟩
        · show (view.files ++ _)[view.files.length]? = _
          rw [List.getElem?_append_right le_rfl, Nat.sub_self]
          rfl
        · have hinside := (valid_of_decode hdecode).anchored anchor hanchor
          have hpos : 0 < dedupRegionKgramTokens := by decide
          simp only
          omega
    · rw [hfails, hdecode]
      exact nofun

theorem builtFrom_foldl (hkeys : SharedKeysAgree fileFacts factKeys files) (rest : List SourceFile)
    (hrest : ∀ file ∈ rest, file ∈ files) (s : RegionView × DecodedEvidence)
    (hview : BuiltFrom fileFacts factKeys done s.1)
    (hevidence : s.2.Faithful fileFacts factKeys files) :
    BuiltFrom fileFacts factKeys (done ++ rest) (rest.foldl (step fileFacts factKeys continuity) s).1
      ∧ (rest.foldl (step fileFacts factKeys continuity) s).2.Faithful fileFacts factKeys files := by
  induction rest generalizing done s with
  | nil =>
    rw [List.append_nil]
    exact ⟨hview, hevidence⟩
  | cons file rest ih =>
    have happend : done ++ file :: rest = done ++ [file] ++ rest := by simp
    obtain ⟨hfile, hrest⟩ := List.forall_mem_cons.mp hrest
    rw [List.foldl_cons, happend]
    cases hcomplete : completeEvidence fileFacts factKeys file with
    | none =>
      rw [step_incomplete hcomplete]
      exact ih hrest s (hview.incomplete hcomplete) hevidence
    | some found =>
      obtain ⟨factKey, facts⟩ := found
      obtain ⟨hstepped, hevidence'⟩ :=
        @step_complete _ _ _ _ continuity _ _ _ _ _ hevidence hkeys hfile hcomplete
      exact ih hrest _ (hview.stepped hcomplete hstepped) hevidence'

/-- A view is built from the files of its snapshot, and leaves the shared decoding faithful. -/
theorem builtFrom_new (hkeys : SharedKeysAgree fileFacts factKeys files) (senseView : SenseView)
    (snapshot : SourceSnapshot) (hfiles : ∀ file ∈ snapshot.fileList, file ∈ files)
    {evidence : DecodedEvidence} (hevidence : evidence.Faithful fileFacts factKeys files) :
    BuiltFrom fileFacts factKeys snapshot.fileList
        (new senseView snapshot fileFacts factKeys continuity evidence).1
      ∧ (new senseView snapshot fileFacts factKeys continuity evidence).2.Faithful fileFacts
          factKeys files := by
  have hempty : BuiltFrom fileFacts factKeys [] ({ view := senseView } : RegionView) := by
    refine ⟨nofun, ?_, iff_of_false nofun ?_⟩
    · intro family key occurrence hoccurrence
      cases hoccurrence
    · rintro ⟨file, hfile, -⟩
      cases hfile
  obtain ⟨hbuilt, hfaithful⟩ := @builtFrom_foldl _ _ _ _ continuity _ _ hkeys snapshot.fileList
    hfiles ({ view := senseView }, evidence) hempty hevidence
  refine ⟨⟨hbuilt.retained, ?_, hbuilt.malformed⟩, hfaithful⟩
  exact fun family key occurrence hoccurrence =>
    hbuilt.anchored family key occurrence (mem_group_sortGroups.mp hoccurrence)

/-! ## The shared decoding after all files -/

omit [Sha256] in
theorem isSome_get?_state {evidence : DecodedEvidence} {key : FileFactKey} {retain : Bool}
    (h : key = factKey ∨ (evidence.get? key).isSome) :
    ((DecodedEvidence.state evidence factKey file facts retain).2.get? key).isSome := by
  simp only [DecodedEvidence.state, BTreeMap.get?_insert]
  by_cases hkey : key = factKey
  · rw [if_pos hkey]
    rfl
  · rw [if_neg hkey]
    exact h.resolve_left hkey

/-- The key of a file that was looked at has a state, and keeps it. -/
theorem isSome_get?_step {key : FileFactKey}
    (h : (∃ facts, completeEvidence fileFacts factKeys file = some (key, facts))
      ∨ (s.2.get? key).isSome) :
    ((step fileFacts factKeys continuity s file).2.get? key).isSome := by
  cases hcomplete : completeEvidence fileFacts factKeys file with
  | none =>
    rw [step_incomplete hcomplete]
    refine h.resolve_left ?_
    rintro ⟨facts, hsome⟩
    rw [hcomplete] at hsome
    cases hsome
  | some found =>
    obtain ⟨factKey, facts⟩ := found
    obtain ⟨fileFact, hlookup, rfl⟩ := lookup_of_completeEvidence hcomplete
    have hstatus : fileFact.regionFingerprints.status = .complete := by
      rw [completeEvidence, hlookup] at hcomplete
      simp only at hcomplete
      split_ifs at hcomplete with hstatus
      exact hstatus
    have hkey : key = factKey ∨ (s.2.get? key).isSome := by
      refine h.imp_left ?_
      rintro ⟨facts', hsome⟩
      rw [hcomplete] at hsome
      cases hsome
      rfl
    rw [step, hlookup]
    simp only [hstatus, ne_eq, not_true_eq_false, if_false]
    have hpresent := fun retain =>
      @isSome_get?_state _ file factKey fileFact.regionFingerprints s.2 key retain hkey
    split <;> exact hpresent _

theorem isSome_get?_foldl {key : FileFactKey} (rest : List SourceFile)
    (s : RegionView × DecodedEvidence)
    (h : (∃ file ∈ rest, ∃ facts, completeEvidence fileFacts factKeys file = some (key, facts))
      ∨ (s.2.get? key).isSome) :
    ((rest.foldl (step fileFacts factKeys continuity) s).2.get? key).isSome := by
  induction rest generalizing s with
  | nil => exact h.resolve_left nofun
  | cons file rest ih =>
    refine ih _ ?_
    obtain ⟨other, hother, hcomplete⟩ | hpresent := h
    · obtain rfl | hother := List.mem_cons.mp hother
      · exact Or.inr (isSome_get?_step (Or.inl hcomplete))
      · exact Or.inl ⟨other, hother, hcomplete⟩
    · exact Or.inr (isSome_get?_step (Or.inr hpresent))

/-- A key is among the malformed ones exactly when decoding its evidence fails. -/
theorem mem_malformedFactKeys_iff {evidence : DecodedEvidence}
    (hevidence : evidence.Faithful fileFacts factKeys files)
    (hkeys : SharedKeysAgree fileFacts factKeys files) (hfile : file ∈ files)
    (hcomplete : completeEvidence fileFacts factKeys file = some (factKey, facts))
    (hpresent : (evidence.get? factKey).isSome) :
    factKey ∈ evidence.malformedFactKeys ↔ DecodedTokens.decode file facts = none := by
  obtain ⟨state, hstate⟩ := Option.isSome_iff_exists.mp hpresent
  have hfor := hevidence.evidenceFor hfile hcomplete hkeys hstate
  have hmem : factKey ∈ evidence.malformedFactKeys ↔ state = .malformed := by
    simp only [DecodedEvidence.malformedFactKeys, BTreeSet.mem_ofList, List.mem_map,
      List.mem_filter, decide_eq_true_eq, Prod.exists, exists_and_right, exists_eq_right]
    rw [BTreeMap.mem_entries_iff, hstate, Option.some.injEq]
  rw [hmem]
  cases state with
  | malformed => exact iff_of_true rfl hfor
  | validated => exact iff_of_false (by simp) (Option.isSome_iff_ne_none.mp hfor)
  | decoded decoded =>
    refine iff_of_false (by simp) ?_
    rw [hfor.1]
    exact Option.some_ne_none _

end Step

end RegionView

end Opcore
