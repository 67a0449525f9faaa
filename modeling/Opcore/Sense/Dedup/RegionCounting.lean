/-
  Opcore.Sense.Dedup.RegionCounting

  How often a reported region occurs.  The evaluation counts the occurrences it
  reaches through one anchor, and winnowing selects anchors by the code around
  a block as well: the counts are those of a full scan when the anchor was
  selected wherever the block stands, and may fall short of it otherwise.
-/
import Opcore.Sense.Dedup.RegionSoundness

namespace Opcore

open Text Collections Smallest Fallible

/-! ## A full scan -/

namespace RegionView

/-- Does the token sequence stand at a position of a file? -/
def carriesAt (view : RegionView) (tokens : List ExactToken) (file start : Nat) : Bool :=
  (List.range tokens.length).all fun i => view.exactToken file (start + i) = tokens[i]?

/-- Every position of the retained files of a family at which the sequence stands. -/
def scan (view : RegionView) (family : Str) (tokens : List ExactToken) :
    BTreeSet (RepoPath ×ₗ Nat) :=
  BTreeSet.ofList (view.files.zipIdx.flatMap fun (file, index) =>
    if file.source.language.family = family then
      ((List.range file.decoded.tokens.length).filter (view.carriesAt tokens index)).map
        fun start => toLex (file.path, start)
    else [])

/-- The occurrences of a sequence, left to right without overlap on each path. -/
def exactCount (view : RegionView) (family : Str) (tokens : List ExactToken) : Nat :=
  (selectPositions tokens.length (view.scan family tokens)).length

variable {view : RegionView} {tokens : List ExactToken} {family : Str} {file start : Nat}

theorem carriesAt_iff : view.carriesAt tokens file start = true ↔
    ∀ i < tokens.length, view.exactToken file (start + i) = tokens[i]? := by
  simp [carriesAt]

theorem mem_scan (hpos : 0 < tokens.length) {position : RepoPath ×ₗ Nat} :
    position ∈ view.scan family tokens ↔ ∃ index regionFile, view.files[index]? = some regionFile
      ∧ regionFile.source.language.family = family ∧ regionFile.path = (ofLex position).1
      ∧ view.carriesAt tokens index (ofLex position).2 = true := by
  rw [scan, BTreeSet.mem_ofList, List.mem_flatMap]
  constructor
  · rintro ⟨⟨regionFile, index⟩, hfile, hmem⟩
    rw [List.mem_zipIdx_iff_getElem?] at hfile
    simp only at hmem
    split_ifs at hmem with hfamily
    · obtain ⟨s, hs, rfl⟩ := List.mem_map.mp hmem
      exact ⟨index, regionFile, hfile, hfamily, rfl, (List.mem_filter.mp hs).2⟩
    · cases hmem
  · rintro ⟨index, regionFile, hfile, hfamily, hpath, hcarries⟩
    refine ⟨(regionFile, index), List.mem_zipIdx_iff_getElem?.mpr hfile, ?_⟩
    simp only
    rw [if_pos hfamily, List.mem_map]
    refine ⟨(ofLex position).2, List.mem_filter.mpr ⟨List.mem_range.mpr ?_, hcarries⟩, ?_⟩
    · -- the first token of the sequence is there
      have hfirst := carriesAt_iff.mp hcarries 0 hpos
      rw [Nat.add_zero, List.getElem?_eq_getElem hpos] at hfirst
      obtain ⟨f, hf, hlt⟩ := exists_file_of_exactToken hfirst
      rw [hfile, Option.some.injEq] at hf
      subst hf
      exact hlt
    · rw [hpath]
      rfl

end RegionView

/-! ## Where the anchor is, the count is exact -/

/-- Wherever a block around an evaluated anchor stands that it shares with
    another occurrence of the anchor, in either view, the anchor was selected
    as well. -/
def AnchorsFollow [Sha256] (context : EvaluationContext) : Prop :=
  ∀ family key seed, (family, key, seed) ∈ evaluated context →
    ∀ peer ∈ context.after.group family key, distinctAnchor seed peer = true →
      ∀ start peerStart len, CommonRegion context.after seed peer start peerStart len →
        minDedupRegionTokens ≤ len →
        ∀ view, view = context.before ∨ view = context.after →
          ∀ index file position, view.files[index]? = some file →
            file.source.language.family = family →
            SameTokens context.after seed.file start view index position len →
            ⟨index, position + (seed.tokenIndex - start)⟩ ∈ view.group family key

section Counting

variable [Sha256] {context : EvaluationContext} {family : Str} {anchor : AnchorKey}
  {seed : AnchorOccurrence} {candidate : Candidate} {view : RegionView} {tokens : List ExactToken}

omit [Sha256] in
theorem sameTokens_iff_carriesAt (hlen : tokens.length = candidate.len)
    (htokens : ∀ i < tokens.length,
      context.after.exactToken candidate.file (candidate.start + i) = tokens[i]?)
    {file position : Nat} :
    SameTokens context.after candidate.file candidate.start view file position candidate.len ↔
      view.carriesAt tokens file position = true := by
  rw [RegionView.carriesAt_iff, ← hlen]
  constructor
  · intro h i hi
    obtain ⟨t, hleft, hright⟩ := h i hi
    rw [← htokens i hi, hleft]
    exact hright
  · intro h i hi
    refine ⟨tokens.get ⟨i, hi⟩, ?_, ?_⟩
    · rw [htokens i hi, List.getElem?_eq_getElem hi]
      rfl
    · rw [h i hi, List.getElem?_eq_getElem hi]
      rfl

/-- The anchored positions are those of the scan. -/
theorem mem_scan_iff_hitBy (hfollow : AnchorsFollow context) (hgrouped : view.Grouped)
    (hview : view = context.before ∨ view = context.after)
    (hevaluated : (family, anchor, seed) ∈ evaluated context)
    (hplaced : Placed context.after (context.after.group family anchor) anchor seed candidate)
    (hlen : tokens.length = candidate.len)
    (htokens : ∀ i < tokens.length,
      context.after.exactToken candidate.file (candidate.start + i) = tokens[i]?)
    (position : RepoPath ×ₗ Nat) :
    position ∈ view.scan family tokens ↔ ∃ a ∈ view.group family candidate.anchor,
      HitBy context.after candidate view a position := by
  rw [RegionView.mem_scan (by rw [hlen]; exact hplaced.pos)]
  constructor
  · rintro ⟨index, regionFile, hfile, hfamily, hpath, hcarries⟩
    have hsame := (sameTokens_iff_carriesAt hlen htokens).mpr hcarries
    obtain ⟨peer, hpeer, hdistinct, peerStart, hcommon⟩ := hplaced.common
    have hanchored := hfollow family anchor seed hevaluated peer hpeer hdistinct _ _ _ hcommon
      hplaced.long view hview index regionFile _ hfile hfamily (hplaced.file ▸ hsame)
    rw [hplaced.anchor]
    refine ⟨_, hanchored, ?_, ?_, hsame⟩
    · rw [hplaced.offset]
    · rw [RegionView.pathOf, hfile, Option.map_some, hpath]
  · rintro ⟨a, ha, hindex, hhits⟩
    obtain ⟨regionFile, hfile, hfamily⟩ := hgrouped family candidate.anchor a ha
    refine ⟨a.file, regionFile, hfile, hfamily, ?_, ?_⟩
    · have hpath := hhits.path
      rw [RegionView.pathOf, hfile, Option.map_some, Option.some.injEq] at hpath
      exact hpath
    · exact (sameTokens_iff_carriesAt hlen htokens).mp hhits.tokens

/-- The reported counts are those of a full scan. -/
structure CountsExact (context : EvaluationContext) (region : DuplicateRegion) : Prop where
  before : region.before.length = context.before.exactCount region.family region.tokens
  after : region.after.length = context.after.exactCount region.family region.tokens

theorem countsExact_of_foundFrom {region : DuplicateRegion} (hfollow : AnchorsFollow context)
    (hbefore : context.before.Grouped) (hafter : context.after.Grouped)
    (hevaluated : (family, anchor, seed) ∈ evaluated context)
    (hplaced : Placed context.after (context.after.group family anchor) anchor seed candidate)
    (hfrom : FoundFrom context family candidate region) : CountsExact context region := by
  have hcount : ∀ view selected, view.Grouped → (view = context.before ∨ view = context.after) →
      Selected context.after candidate view family context.inputs.changedPaths selected →
      selected.length = view.exactCount region.family region.tokens := by
    intro view selected hgrouped hview hselected
    have hmap := hselected.positions (view.scan family region.tokens)
      (mem_scan_iff_hitBy hfollow hgrouped hview hevaluated hplaced hfrom.length hfrom.tokens)
    rw [RegionView.exactCount, hfrom.sameFamily, hfrom.length, ← hmap, List.length_map]
  exact ⟨hcount _ _ hbefore (Or.inl rfl) hfrom.before, hcount _ _ hafter (Or.inr rfl) hfrom.after⟩

end Counting

/-- What is claimed of a request: each finding describes an introduced region,
    and counts its occurrences as a full scan would. -/
def FindingsExact [Sha256] [Base64] (inputs : RegionInputs) : Prop :=
  ∃ regions : List DuplicateRegion,
    List.Forall₂ Describes (regionFindings inputs).findings regions
      ∧ ∀ region ∈ regions, IsIntroducedRegion (regionViews inputs).1 region
        ∧ CountsExact (regionViews inputs).1 region

/-- Counts are exact for every request in which anchors follow their block. -/
theorem findingsExact_of_anchorsFollow [Sha256] [Base64] (inputs : RegionInputs)
    (h : AnchorsFollow (regionViews inputs).1) : FindingsExact inputs := by
  have hbefore : (regionViews inputs).1.before.Grouped := RegionView.grouped_new _ _ _ _ _ _
  have hafter : (regionViews inputs).1.after.Grouped := RegionView.grouped_new _ _ _ _ _ _
  obtain ⟨regions, hdescribes, hregions, -⟩ := regions_of_findings inputs
    (CountsExact (regionViews inputs).1)
    fun family anchor seed _ hevaluated candidate hplaced region hfrom =>
      countsExact_of_foundFrom h hbefore hafter hevaluated hplaced hfrom
  exact ⟨regions, hdescribes, hregions⟩

/-! ## A block whose anchor depends on the code behind it

Python sources of one expression, in which every byte is a token.  The block is
the same everywhere; the variable behind it decides whether the k-gram at token
10 is selected. -/

/-- The tokens of a one-line expression: its bytes, and the end of the line. -/
def expressionTokens (source : Str) : List FingerprintToken :=
  byteTokens source ++ [⟨3, [], 1, false, source.length, source.length⟩]

def expressionFile (entry : RepoPath × Str) : SourceFile := ⟨entry.1, entry.2, .python, []⟩

/-- A request over one-line expressions, with the facts the analysis writes for them. -/
def expressionInputs [Sha256] [Base64] (before after : List (RepoPath × Str))
    (changed : List RepoPath) : RegionInputs where
  suppressedPaths := ∅
  callableFindings := []
  findingLimit := maxSenseFindings
  changedPaths := BTreeSet.ofList changed
  continuity := ∅
  before := .new (before.map expressionFile)
  after := .new (after.map expressionFile)
  fileFacts := BTreeMap.ofList ((before ++ after).map fun entry =>
    (factKey (expressionFile entry) [],
      { regionFingerprints := regionFingerprints (ascii "python") (expressionTokens entry.2) }))
  factKeys := BTreeMap.ofList ((before ++ after).map fun entry =>
    ((expressionFile entry).contentId,
      BTreeMap.ofList [([], factKey (expressionFile entry) [])]))

def copiedBlock : Str := ascii "s+i*j+o*d+j+t+c/d+g-z/f+o-v-f+n/z*r*w/k+g*b+a*x*"

def pathP : RepoPath := samplePath "p.py"

def pathQ : RepoPath := samplePath "q.py"

/-- Both files have the block before and after; the last variable of `p.py` changes. -/
def renamedVariable [Sha256] [Base64] : RegionInputs :=
  expressionInputs [(pathP, copiedBlock ++ ascii "e"), (pathQ, copiedBlock ++ ascii "b")]
    [(pathP, copiedBlock ++ ascii "a"), (pathQ, copiedBlock ++ ascii "b")] [pathP]

/-- `q.py` holds a block of minimal length, which is copied to `p.py`. -/
def copiedFile [Sha256] [Base64] : RegionInputs :=
  let block := ascii "-s+i*j+o*d+j+t+c/d+g-z/f+o-v-f+n/z*r*w/k+g*b+a*x"
  expressionInputs [(pathQ, block)] [(pathP, block), (pathQ, block)] [pathP]

/-- In files of minimal length a block is the whole file. -/
theorem anchorsFollow_of_least [Sha256] {context : EvaluationContext}
    (hlength : ∀ view, view = context.before ∨ view = context.after → ∀ file ∈ view.files,
      file.decoded.tokens.length ≤ minDedupRegionTokens)
    (hgroups : ∀ view, view = context.before ∨ view = context.after →
      ∀ found ∈ evaluated context, ∀ index < view.files.length,
        ⟨index, found.2.2.tokenIndex⟩ ∈ view.group found.1 found.2.1) :
    AnchorsFollow context := by
  intro family key seed hevaluated peer _ _ start peerStart len hcommon hlen view hview index file
    position hfile _ hsame
  have hbound : ∀ view', view' = context.before ∨ view' = context.after → ∀ (i p : Nat) t,
      view'.exactToken i p = some t → p < minDedupRegionTokens := by
    intro view' hview' i p t ht
    obtain ⟨f, hf, hlt⟩ := exists_file_of_exactToken ht
    exact lt_of_lt_of_le hlt (hlength view' hview' f (List.mem_of_getElem? hf))
  have hpos : 0 < minDedupRegionTokens := by decide
  obtain ⟨t, hleft, hright⟩ := hsame (len - 1) (by omega)
  have h₁ := hbound _ (Or.inr rfl) _ _ _ hleft
  have h₂ := hbound view hview _ _ _ hright
  obtain rfl : position = 0 := by omega
  obtain rfl : start = 0 := by omega
  have hmem := hgroups view hview _ hevaluated index
    (List.getElem?_eq_some_iff.mp hfile).1
  rw [Nat.zero_add, Nat.sub_zero]
  exact hmem

theorem anchorsFollow_copiedFile :
    letI := identityDigest
    letI := plainBase64
    AnchorsFollow (regionViews copiedFile).1 := by
  have hdata : letI := identityDigest
      letI := plainBase64
      let context := (regionViews copiedFile).1
      ∀ view ∈ [context.before, context.after],
        (∀ file ∈ view.files, file.decoded.tokens.length ≤ minDedupRegionTokens)
          ∧ ∀ found ∈ evaluated context, ∀ index < view.files.length,
            ⟨index, found.2.2.tokenIndex⟩ ∈ view.group found.1 found.2.1 := by
    decide +kernel
  exact @anchorsFollow_of_least identityDigest _
    (fun view hview => (hdata view (by simpa using hview)).1)
    (fun view hview => (hdata view (by simpa using hview)).2)

theorem findingsExact_copiedFile :
    letI := identityDigest
    letI := plainBase64
    AnchorsFollow (regionViews copiedFile).1 ∧ FindingsExact copiedFile :=
  ⟨anchorsFollow_copiedFile,
    @findingsExact_of_anchorsFollow identityDigest plainBase64 _ anchorsFollow_copiedFile⟩

/-- The tokens of a file from a position on. -/
def RegionView.tokensFrom (view : RegionView) (file start n : Nat) : List ExactToken :=
  (List.range n).filterMap fun i => view.exactToken file (start + i)

theorem Carries.tokens_eq {view : RegionView} {tokens : List ExactToken}
    {occurrence : ExactOccurrence} (h : Carries view tokens occurrence) :
    tokens = view.tokensFrom occurrence.file occurrence.start tokens.length := by
  have hmap : (List.range tokens.length).map (fun i => view.exactToken occurrence.file
      (occurrence.start + i)) = tokens.map some := by
    refine List.ext_getElem (by simp) fun i h₁ h₂ => ?_
    have hi : i < tokens.length := by simpa using h₂
    simp [h.tokens i hi, hi]
  have hid : ((List.range tokens.length).map fun i => view.exactToken occurrence.file
      (occurrence.start + i)).filterMap id = tokens := by
    rw [hmap, List.filterMap_map]
    simp
  rw [RegionView.tokensFrom]
  rw [List.filterMap_map] at hid
  exact hid.symm

/-- One finding of 48 tokens over files of 49 tokens each, and no run of 48 tokens
    in them with the counts it reports. -/
theorem not_findingsExact [Sha256] [Base64] {inputs : RegionInputs} {family : Str}
    {beforeCount afterCount : Nat}
    (hfindings : (evaluateRegions (regionViews inputs).1).findings.map (fun finding =>
        (finding.languageFamily, finding.beforeCount, finding.afterCount, finding.tokenCount))
      = [(some family, beforeCount, afterCount, some 48)])
    (hlengths : (regionViews inputs).1.after.files.map (fun file => file.decoded.tokens.length)
      = [49, 49])
    (hcounts : ∀ file < 2, ∀ start < 2,
      ¬ ((regionViews inputs).1.before.exactCount family
            ((regionViews inputs).1.after.tokensFrom file start 48) = beforeCount
        ∧ (regionViews inputs).1.after.exactCount family
            ((regionViews inputs).1.after.tokensFrom file start 48) = afterCount)) :
    ¬ FindingsExact inputs := by
  rintro ⟨regions, hdescribes, hregions⟩
  -- one finding, so one region
  have hone := congrArg List.length hfindings
  rw [List.length_map, List.length_singleton] at hone
  obtain ⟨finding, hfinding⟩ := List.length_eq_one_iff.mp hone
  rw [hfinding, List.map_cons, List.map_nil, List.cons.injEq, Prod.mk.injEq, Prod.mk.injEq,
    Prod.mk.injEq] at hfindings
  obtain ⟨⟨hfamily, hbefore, hafter, htokens⟩, -⟩ := hfindings
  have hdescribes : List.Forall₂ Describes [finding] regions := hfinding ▸ hdescribes
  obtain ⟨region, rest, hregion, -, rfl⟩ := List.forall₂_cons_left_iff.mp hdescribes
  obtain ⟨hintro, hexact⟩ := hregions region (List.mem_cons_self ..)
  have hlen : region.tokens.length = 48 := by
    have := hregion.tokenCount
    rw [htokens, Option.some.injEq] at this
    exact this.symm
  have hsame : region.family = family := by
    have := hregion.family
    rw [hfamily, Option.some.injEq] at this
    exact this.symm
  -- its tokens stand in one of the two files, at one of two positions
  have hpos : 0 < region.after.length := by
    have := hintro.twice
    omega
  have hcarried := hintro.carried _ (List.getElem_mem hpos)
  have hlast := hcarried.tokens 47 (by omega)
  rw [List.getElem?_eq_getElem (by omega)] at hlast
  obtain ⟨file, hfile, hlt⟩ := exists_file_of_exactToken hlast
  have hlength := congrArg (fun l => l[(region.after[0]).file]?) hlengths
  simp only [List.getElem?_map, hfile, Option.map_some] at hlength
  obtain ⟨hindex, hvalue⟩ := List.getElem?_eq_some_iff.mp hlength.symm
  have hboth : ∀ i : Fin 2, [49, 49].get i = 49 := by decide
  have hsmall : file.decoded.tokens.length = 49 := hvalue.symm.trans (hboth ⟨_, hindex⟩)
  refine hcounts _ hindex (region.after[0]).start (by omega) ?_
  rw [← hlen, ← hcarried.tokens_eq, ← hsame, ← hexact.before, ← hexact.after,
    ← hregion.beforeCount, ← hregion.afterCount]
  exact ⟨hbefore, hafter⟩

theorem renamedVariable_counts :
    letI := identityDigest
    letI := plainBase64
    let context := (regionViews renamedVariable).1
    (evaluateRegions context).comparison.incomplete = false
      ∧ (evaluateRegions context).findings.map (fun finding => (finding.languageFamily,
          finding.beforeCount, finding.afterCount, finding.tokenCount))
        = [(some (ascii "python"), 1, 2, some 48)]
      ∧ context.after.files.map (fun file => file.decoded.tokens.length) = [49, 49]
      ∧ ∀ file < 2, ∀ start < 2,
        ¬ (context.before.exactCount (ascii "python") (context.after.tokensFrom file start 48) = 1
          ∧ context.after.exactCount (ascii "python") (context.after.tokensFrom file start 48)
            = 2) := by
  decide +kernel

/-- The block is reported as introduced although it occurs as often as before:
    the first view's occurrence in `p.py` is missed, its anchor being another one. -/
theorem renamedVariable_miscounted :
    letI := identityDigest
    letI := plainBase64
    ¬ ∀ inputs : RegionInputs,
      (evaluateRegions (regionViews inputs).1).comparison.incomplete = false →
        FindingsExact inputs := by
  intro hall
  have hcounts := renamedVariable_counts
  exact @not_findingsExact identityDigest plainBase64 _ _ _ _ hcounts.2.1 hcounts.2.2.1 hcounts.2.2.2
    (hall (@renamedVariable identityDigest plainBase64) hcounts.1)

end Opcore
