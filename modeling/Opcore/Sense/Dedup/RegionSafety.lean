/-
  Opcore.Sense.Dedup.RegionSafety

  Evidence that was decoded never fails in a comparison.  The facts may hold any
  numbers: once the stream of a file is decoded, its anchors lie inside the stream
  and its tokens inside the source, and every index the comparison computes from
  them stays in range.
-/
import Opcore.Sense.Dedup.RegionSoundness

namespace Opcore

open Text Collections Smallest Fallible

/-! ## Validated views -/

/-- A token of a retained file. -/
def RegionView.InRange (view : RegionView) (file token : Nat) : Prop :=
  ∃ regionFile, view.files[file]? = some regionFile ∧ token < regionFile.decoded.tokens.length

/-- Tokens lie in the source, and anchors in the tokens. -/
structure RegionView.Validated (view : RegionView) : Prop where
  readable : ∀ regionFile ∈ view.files, ∀ token ∈ regionFile.decoded.tokens,
    token.start ≤ token.stop ∧ token.stop ≤ regionFile.source.bytes.length
  anchored : ∀ family key, ∀ occurrence ∈ view.group family key,
    view.InRange occurrence.file (occurrence.tokenIndex + dedupRegionKgramTokens - 1)

section Reading

variable {view : RegionView} {file token token' : Nat}

theorem exists_file_of_inRange (h : view.InRange file token) :
    ∃ regionFile, view.files[file]? = some regionFile := by
  obtain ⟨regionFile, hfile, -⟩ := h
  exact ⟨regionFile, hfile⟩

theorem RegionView.InRange.mono (h : view.InRange file token) (hle : token' ≤ token) :
    view.InRange file token' := by
  obtain ⟨regionFile, hfile, hlt⟩ := h
  exact ⟨regionFile, hfile, hle.trans_lt hlt⟩

/-- A token in range can be read. -/
theorem RegionView.Validated.exactToken (hview : view.Validated) (h : view.InRange file token) :
    ∃ t, view.exactToken file token = some t := by
  obtain ⟨regionFile, hfile, hlt⟩ := h
  have hrange := hview.readable regionFile (List.mem_of_getElem? hfile) _
    (List.getElem_mem hlt)
  rw [← Option.isSome_iff_exists]
  simp only [RegionView.exactToken, hfile, List.getElem?_eq_getElem hlt, slice, if_pos hrange,
    Option.bind_eq_bind, Option.bind_some, Option.isSome_some]

theorem inRange_of_exactToken {t : ExactToken} (h : view.exactToken file token = some t) :
    view.InRange file token := exists_file_of_exactToken h

theorem SameTokens.inRange {leftView rightView : RegionView}
    {leftFile left rightFile right n o : Nat}
    (h : SameTokens leftView leftFile left rightView rightFile right n) (ho : o < n) :
    leftView.InRange leftFile (left + o) ∧ rightView.InRange rightFile (right + o) := by
  obtain ⟨t, hleft, hright⟩ := h o ho
  exact ⟨inRange_of_exactToken hleft, inRange_of_exactToken hright⟩

end Reading

/-! ## Comparisons that read tokens in range -/

/-- No evidence was found to be malformed. -/
def Unmarked (s : ComparisonState) : Prop := s.malformedEvidence = false

/-- `mark_malformed_location` is not reached: it is the only place that sets the flag. -/
abbrev NeverMarks {α : Type} (m : Compare α) : Prop := Keeps m Unmarked

/-- Kept when the budget is spent, and when the report drops a finding.  Over
    validated views, nothing else is done to the state. -/
structure Stable (I : ComparisonState → Prop) : Prop where
  spend : ∀ pair, Keeps (spendComparison pair) I
  truncate : ∀ s, I s → I { s with findingsTruncated := true }

section Comparisons

variable {view leftView rightView : RegionView} {file token : Nat} {I : ComparisonState → Prop}

theorem malformedEvidence_recordLimitLocation (s : ComparisonState) :
    (s.recordLimitLocation view file).malformedEvidence = s.malformedEvidence := by
  simp only [ComparisonState.recordLimitLocation]
  split
  · rfl
  · split_ifs <;> rfl

theorem neverMarks_spendComparison (pair : TokenPair) : NeverMarks (spendComparison pair) := by
  intro s hs
  rw [spendComparison]
  split_ifs
  · simp only [Unmarked, ComparisonState.recordLimitPair, malformedEvidence_recordLimitLocation]
    exact hs
  · exact hs

theorem stable_unmarked : Stable Unmarked := ⟨neverMarks_spendComparison, fun _ hs => hs⟩

theorem keeps_tokensEqual (hI : Stable I) {pair : TokenPair} (hleftView : pair.leftView.Validated)
    (hrightView : pair.rightView.Validated)
    (hleft : pair.leftView.InRange pair.left.file pair.left.token)
    (hright : pair.rightView.InRange pair.right.file pair.right.token) :
    Keeps (tokensEqual pair) I := by
  obtain ⟨t, ht⟩ := hleftView.exactToken hleft
  obtain ⟨u, hu⟩ := hrightView.exactToken hright
  refine (hI.spend pair).then fun _ => ?_
  rw [ht, hu]
  exact keeps_pure _

theorem keeps_tokenExists (hfile : ∃ regionFile, view.files[file]? = some regionFile) :
    Keeps (tokenExists view file token) I := by
  obtain ⟨regionFile, hfile⟩ := hfile
  rw [tokenExists, hfile]
  exact keeps_pure _

theorem returns_tokensExist_inRange (pair : TokenPair) : Returns (tokensExist pair) fun found =>
    found = true → pair.leftView.InRange pair.left.file pair.left.token
      ∧ pair.rightView.InRange pair.right.file pair.right.token := by
  refine (returns_tokenExists _ _ _).bind fun leftExists hleft => Returns.ite (fun htrue => ?_)
    (fun _ => returns_pure nofun)
  refine (returns_tokenExists _ _ _).mono fun found hright hfound => ?_
  exact ⟨hleft.mp htrue, hright.mp hfound⟩

theorem keeps_tokensExist {pair : TokenPair}
    (hleft : ∃ regionFile, pair.leftView.files[pair.left.file]? = some regionFile)
    (hright : ∃ regionFile, pair.rightView.files[pair.right.file]? = some regionFile) :
    Keeps (tokensExist pair) I := by
  refine (keeps_tokenExists hleft).then fun leftExists => Keeps.ite (fun _ => ?_)
    (fun _ => keeps_pure _)
  exact keeps_tokenExists hright

theorem keeps_offsetsEqual (hI : Stable I) {pair : RegionPair} (hleftView : pair.leftView.Validated)
    (hrightView : pair.rightView.Validated) (count offset : Nat)
    (hleft : ∀ o < offset + count, pair.leftView.InRange pair.leftFile (pair.leftStart + o))
    (hright : ∀ o < offset + count, pair.rightView.InRange pair.rightFile (pair.rightStart + o)) :
    Keeps (offsetsEqual pair count offset) I := by
  induction count generalizing offset with
  | zero => exact keeps_pure _
  | succ count ih =>
    refine (keeps_tokensEqual hI hleftView hrightView (hleft offset (by omega))
      (hright offset (by omega))).then fun equal => Keeps.ite (fun _ => ?_) (fun _ => keeps_pure _)
    exact ih (offset + 1) (fun o ho => hleft o (by omega)) (fun o ho => hright o (by omega))

/-- A region comparison looks at both last tokens before it reads any. -/
theorem keeps_regionsEqual (hI : Stable I) {pair : RegionPair} (hleftView : pair.leftView.Validated)
    (hrightView : pair.rightView.Validated)
    (hleft : ∃ regionFile, pair.leftView.files[pair.leftFile]? = some regionFile)
    (hright : ∃ regionFile, pair.rightView.files[pair.rightFile]? = some regionFile) :
    Keeps (regionsEqual pair) I := by
  rw [regionsEqual]
  refine Keeps.ite (fun _ => keeps_pure _) (fun hlen => ?_)
  refine (keeps_tokensExist hleft hright).bind (returns_tokensExist_inRange _)
    fun bothExist hexist => Keeps.ite (fun htrue => ?_) (fun _ => ?_)
  · obtain ⟨hlastLeft, hlastRight⟩ := hexist htrue
    refine keeps_offsetsEqual hI hleftView hrightView _ 0 (fun o ho => ?_) (fun o ho => ?_)
    · exact hlastLeft.mono (by simp only; omega)
    · exact hlastRight.mono (by simp only; omega)
  · exact keeps_get.then fun s => Keeps.ite (fun _ => keeps_stop) (fun _ => keeps_pure _)

theorem keeps_anchorTokensMatch (hI : Stable I) (hview : view.Validated)
    {left right : TokenLocation}
    (count offset : Nat)
    (hleft : ∀ o < offset + count, view.InRange left.file (left.token + o))
    (hright : ∀ o < offset + count, view.InRange right.file (right.token + o)) :
    Keeps (anchorTokensMatch view left right count offset) I := by
  induction count generalizing offset with
  | zero => exact keeps_pure _
  | succ count ih =>
    refine (keeps_tokensEqual hI hview hview (hleft offset (by omega))
      (hright offset (by omega))).then fun equal => Keeps.ite (fun _ => ?_) (fun _ => keeps_pure _)
    exact ih (offset + 1) (fun o ho => hleft o (by omega)) (fun o ho => hright o (by omega))

theorem keeps_extendLeft (hI : Stable I) (hview : view.Validated) {leftFile rightFile : Nat}
    (left right : Nat)
    (hleft : view.InRange leftFile left) (hright : view.InRange rightFile right) :
    Keeps (extendLeft view leftFile rightFile left right) I := by
  induction left generalizing right with
  | zero =>
    rw [extendLeft.eq_def]
    exact keeps_pure _
  | succ left ih =>
    cases right with
    | zero => exact keeps_pure _
    | succ right =>
      have hleft' := hleft.mono (Nat.le_succ left)
      have hright' := hright.mono (Nat.le_succ right)
      refine (keeps_tokensEqual hI hview hview hleft' hright').then fun equal =>
        Keeps.ite (fun _ => ih right hleft' hright') (fun _ => keeps_pure _)

theorem keeps_extendRight (hI : Stable I) (hview : view.Validated) {leftFile rightFile : Nat}
    (hleft : ∃ regionFile, view.files[leftFile]? = some regionFile)
    (hright : ∃ regionFile, view.files[rightFile]? = some regionFile) (fuel left right : Nat) :
    Keeps (extendRight view leftFile rightFile fuel left right) I := by
  induction fuel generalizing left right with
  | zero => exact keeps_pure _
  | succ fuel ih =>
    refine Keeps.bind (keeps_tokensExist hleft hright) (returns_tokensExist_inRange _)
      fun bothExist hexist => Keeps.ite (fun htrue => ?_) (fun _ => keeps_pure _)
    obtain ⟨hinLeft, hinRight⟩ := hexist htrue
    exact (keeps_tokensEqual hI hview hview hinLeft hinRight).then fun equal =>
      Keeps.ite (fun _ => ih (left + 1) (right + 1)) (fun _ => keeps_pure _)

/-- The whole k-gram of an anchor is in range. -/
theorem RegionView.Validated.kgram (hview : view.Validated) {family : Str} {key : AnchorKey}
    {occurrence : AnchorOccurrence} (h : occurrence ∈ view.group family key) {o : Nat}
    (ho : o < dedupRegionKgramTokens) :
    view.InRange occurrence.file (occurrence.tokenIndex + o) :=
  (hview.anchored family key occurrence h).mono (by omega)

theorem keeps_maximalExactRegion (hI : Stable I) (hview : view.Validated) {family : Str}
    {key : AnchorKey}
    {seed peer : AnchorOccurrence} (hseed : seed ∈ view.group family key)
    (hpeer : peer ∈ view.group family key) : Keeps (maximalExactRegion view seed peer) I := by
  have hpos : 0 < dedupRegionKgramTokens := by decide
  have hmatch := @keeps_anchorTokensMatch view I hI hview ⟨seed.file, seed.tokenIndex⟩
    ⟨peer.file, peer.tokenIndex⟩ dedupRegionKgramTokens 0
    (fun o ho => hview.kgram hseed (by omega)) (fun o ho => hview.kgram hpeer (by omega))
  refine hmatch.then fun matching => Keeps.ite (fun _ => ?_) (fun _ => keeps_stop)
  refine (keeps_extendLeft hI hview _ _ (hview.kgram hseed hpos)
    (hview.kgram hpeer hpos)).then fun start => ?_
  refine (keeps_extendRight hI hview (exists_file_of_inRange (hview.kgram hseed hpos))
    (exists_file_of_inRange (hview.kgram hpeer hpos)) _ _ _).then fun stop => keeps_pure _

end Comparisons

/-! ## Candidates -/

section Candidates

variable {view : RegionView} {family : Str} {anchor : AnchorKey} {seed : AnchorOccurrence}
  {candidate : Candidate} {I : ComparisonState → Prop}

theorem stable_collectCandidates (hI : Stable I) (hview : view.Validated)
    (hseed : seed ∈ view.group family anchor)
    (key : AnchorKey) (peers : List AnchorOccurrence)
    (hpeers : ∀ peer ∈ peers, peer ∈ view.group family anchor)
    (s : CandidateState) (hs : I s.comparison) :
    I (collectCandidates view key seed peers s).comparison := by
  induction peers generalizing s with
  | nil => exact hs
  | cons peer peers ih =>
    have hrest := ih fun p hp => hpeers p (List.mem_cons_of_mem _ hp)
    have hregion := keeps_maximalExactRegion hI hview hseed (hpeers peer (List.mem_cons_self ..))
      s.comparison hs
    rw [collectCandidates]
    split
    · rename_i comparison hEq
      rw [hEq] at hregion
      split_ifs
      · exact hregion
      · exact hrest _ hregion
    · rename_i start stop comparison hEq
      rw [hEq] at hregion
      split_ifs
      · exact hrest _ hregion
      · exact hrest _ hregion

theorem stable_candidateRegions (hI : Stable I) (hview : view.Validated)
    (hseed : seed ∈ view.group family anchor)
    {comparison : ComparisonState} (hs : I comparison) :
    I (candidateRegions view anchor seed (view.group family anchor) comparison).2 := by
  rw [candidateRegions]
  exact stable_collectCandidates hI hview hseed anchor _
    (fun peer hpeer => (List.mem_filter.mp hpeer).1) _ hs

/-- The tokens of a candidate are in range. -/
theorem Placed.inRange {occurrences : List AnchorOccurrence}
    (h : Placed view occurrences anchor seed candidate) {o : Nat} (ho : o < candidate.len) :
    view.InRange candidate.file (candidate.start + o) := by
  obtain ⟨peer, -, -, peerStart, hcommon⟩ := h.common
  rw [h.file]
  exact (hcommon.tokens.inRange ho).1

/-- The digest of a candidate can be taken. -/
theorem exists_regionDigest [Sha256] (hview : view.Validated) {file start stop : Nat}
    (hlt : start < stop) (h : ∀ o < stop - start, view.InRange file (start + o)) :
    ∃ digest, view.regionDigest file start stop = some digest := by
  obtain ⟨regionFile, hfile, hlast⟩ := h (stop - start - 1) (by omega)
  have hslice : slice regionFile.decoded.tokens start stop
      = some ((regionFile.decoded.tokens.drop start).take (stop - start)) := by
    rw [slice, if_pos ⟨hlt.le, by omega⟩]
  have hread : ∀ token ∈ List.range' start (stop - start), ∃ t, view.exactToken file token = some t := by
    intro token htoken
    obtain ⟨o, ho, rfl⟩ := List.mem_range'.mp htoken
    rw [Nat.one_mul]
    exact hview.exactToken (h o ho)
  obtain ⟨tokens, htokens⟩ : ∃ tokens, (List.range' start (stop - start)).mapM
      (view.exactToken file) = some tokens := by
    generalize List.range' start (stop - start) = l at hread
    induction l with
    | nil => exact ⟨[], rfl⟩
    | cons token l ih =>
      obtain ⟨t, ht⟩ := hread token (List.mem_cons_self ..)
      obtain ⟨ts, hts⟩ := ih fun u hu => hread u (List.mem_cons_of_mem _ hu)
      exact ⟨t :: ts, by rw [List.mapM_cons, ht, hts]; rfl⟩
  rw [← Option.isSome_iff_exists]
  simp only [RegionView.regionDigest, hfile, hslice, htokens, Option.bind_eq_bind, Option.bind_some,
    Option.isSome_some]

end Candidates

/-! ## Occurrences and classes -/

section Occurrences

variable {candidateView target : RegionView} {candidate : Candidate} {family : Str}
  {changedPaths : BTreeSet RepoPath} {I : ComparisonState → Prop}

/-- Where a run of tokens stands, its source range is known. -/
theorem exists_range {regionFile : RegionFile} {start n : Nat} (hn : 0 < n)
    (h : start + n ≤ regionFile.decoded.tokens.length) :
    ∃ range, regionFile.range start (start + n) = some range := by
  have hfirst : start < regionFile.decoded.tokens.length := by omega
  have hlast : start + n - 1 < regionFile.decoded.tokens.length := by omega
  rw [← Option.isSome_iff_exists]
  simp only [RegionFile.range, List.getElem?_eq_getElem hfirst, List.getElem?_eq_getElem hlast,
    if_neg (show start + n ≠ 0 by omega), Option.bind_eq_bind, Option.bind_some, Option.isSome_some]

theorem keeps_anchoredOccurrences (hI : Stable I) (hcandidateView : candidateView.Validated)
    (htarget : target.Validated) (hlen : 0 < candidate.len)
    (hstop : candidate.stop = candidate.start + candidate.len)
    (hfile : ∃ regionFile, candidateView.files[candidate.file]? = some regionFile)
    (anchors : List AnchorOccurrence)
    (hanchors : ∀ anchor ∈ anchors, ∃ regionFile, target.files[anchor.file]? = some regionFile)
    (occurrences : BTreeMap (RepoPath ×ₗ Nat) ExactOccurrence) :
    Keeps (anchoredOccurrences candidateView candidate target changedPaths anchors
      occurrences) I := by
  induction anchors generalizing occurrences with
  | nil => exact keeps_pure _
  | cons anchor anchors ih =>
    have hrest := ih fun a ha => hanchors a (List.mem_cons_of_mem _ ha)
    obtain ⟨regionFile, hanchorFile⟩ := hanchors anchor (List.mem_cons_self ..)
    rw [anchoredOccurrences]
    refine Keeps.ite (fun _ => hrest _) (fun _ => ?_)
    refine Keeps.bind (keeps_regionsEqual hI hcandidateView htarget hfile
        ⟨regionFile, hanchorFile⟩) (returns_regionsEqual hlen hstop rfl)
      fun equal hequal => Keeps.ite (fun htrue => ?_) (fun _ => hrest _)
    -- the compared run stands in the target, so its source range is there
    have hlast := ((hequal.mp htrue).inRange (Nat.sub_lt hlen Nat.one_pos)).2
    obtain ⟨regionFile', hfile', hlt⟩ := hlast
    have hsame : regionFile' = regionFile := Option.some.inj (hfile'.symm.trans hanchorFile)
    subst hsame
    obtain ⟨range, hrange⟩ := @exists_range regionFile'
      (anchor.tokenIndex - candidate.anchorOffset) candidate.len hlen (by simp only at hlt; omega)
    simp only [hanchorFile, hrange]
    exact hrest _

theorem keeps_exactOccurrences (hI : Stable I) (hcandidateView : candidateView.Validated)
    (htarget : target.Validated) (hlen : 0 < candidate.len)
    (hstop : candidate.stop = candidate.start + candidate.len)
    (hfile : ∃ regionFile, candidateView.files[candidate.file]? = some regionFile) :
    Keeps (exactOccurrences candidateView candidate target family changedPaths) I := by
  have hgroupEq : target.group family candidate.anchor = _ := RegionView.group_eq
  rw [exactOccurrences]
  cases hgroup : (target.groups.get? family).bind fun groups => groups.get? candidate.anchor with
  | none => exact keeps_pure _
  | some group =>
    rw [hgroup, Option.getD_some] at hgroupEq
    refine (keeps_anchoredOccurrences hI hcandidateView htarget hlen hstop hfile group
      (fun anchor hanchor => ?_) ∅).then fun occurrences => keeps_pure _
    exact exists_file_of_inRange
      (htarget.anchored family candidate.anchor anchor (hgroupEq ▸ hanchor))

end Occurrences

section Classes

variable [Sha256] {context : EvaluationContext} {family : Str} {anchor : AnchorKey}
  {seed : AnchorOccurrence} {candidate : Candidate} {I : ComparisonState → Prop}

theorem keeps_exactClass (hI : Stable I) (hbefore : context.before.Validated)
    (hafter : context.after.Validated)
    {occurrences : List AnchorOccurrence}
    (hplaced : Placed context.after occurrences anchor seed candidate) :
    Keeps (exactClass context family candidate) I := by
  have hfile := exists_file_of_inRange (hplaced.inRange hplaced.pos)
  have hstop := hplaced.stop
  refine (keeps_exactOccurrences hI hafter hbefore hplaced.pos hstop hfile).then fun before => ?_
  refine (keeps_exactOccurrences hI hafter hafter hplaced.pos hstop hfile).then fun after => ?_
  refine Keeps.ite (fun _ => keeps_stop) (fun _ => ?_)
  refine Keeps.ite (fun _ => keeps_stop) (fun _ => ?_)
  have hpos := hplaced.pos
  obtain ⟨digest, hdigest⟩ := exists_regionDigest hafter
    (show candidate.start < candidate.stop by omega) fun o ho =>
      hplaced.inRange (show o < candidate.len from ho)
  rw [hdigest]
  exact keeps_pure _

theorem stable_bestClass (candidates : List Candidate)
    (hcandidates : ∀ candidate ∈ candidates, Keeps (exactClass context family candidate) I)
    (best : Option ExactClass) (comparison : ComparisonState) (hs : I comparison) :
    I (bestClass context family candidates best comparison).2 := by
  induction candidates generalizing best comparison with
  | nil => exact hs
  | cons candidate candidates ih =>
    have hrest := ih fun c hc => hcandidates c (List.mem_cons_of_mem _ hc)
    have hclass := hcandidates candidate (List.mem_cons_self ..) comparison hs
    rw [bestClass]
    split
    · rename_i comparison' hEq
      rw [hEq] at hclass
      split_ifs
      · exact hclass
      · exact hrest _ _ hclass
    · rename_i found comparison' hEq
      rw [hEq] at hclass
      exact hrest _ _ hclass

/-! ## The run over all groups -/

omit [Sha256] in
theorem stable_report (hI : Stable I) (s : EvaluationState) (limit : Nat) (found : ExactClass)
    (hs : I s.comparison) : I (s.report limit family found).comparison := by
  simp only [EvaluationState.report]
  split_ifs
  · exact hs
  · exact hI.truncate _ hs
  · exact hs

theorem stable_evaluateSeed (hI : Stable I) (hbefore : context.before.Validated)
    (hafter : context.after.Validated) (hseed : seed ∈ context.after.group family anchor)
    (s : EvaluationState) (hs : I s.comparison) :
    I (EvaluationState.evaluateSeed context family anchor
      (context.after.group family anchor) s seed).comparison := by
  rw [EvaluationState.evaluateSeed]
  split_ifs
  · exact hs
  · have hbest := @stable_bestClass _ context family I
      (candidateRegions context.after anchor seed (context.after.group family anchor)
        s.comparison).1
      (fun candidate hc => keeps_exactClass hI hbefore hafter (placed_candidateRegions candidate hc))
      none _ (stable_candidateRegions hI hafter hseed hs)
    simp only
    split
    · exact hbest
    · exact stable_report hI _ _ _ hbest

theorem stable_evaluateSeeds (hI : Stable I) (hbefore : context.before.Validated)
    (hafter : context.after.Validated) (seeds : List AnchorOccurrence)
    (hseeds : ∀ seed ∈ seeds, seed ∈ context.after.group family anchor)
    (s : EvaluationState) (hs : I s.comparison) :
    I (EvaluationState.evaluateSeeds context family anchor
      (context.after.group family anchor) seeds s).comparison := by
  induction seeds generalizing s with
  | nil => exact hs
  | cons seed seeds ih =>
    have hseed := stable_evaluateSeed hI hbefore hafter (hseeds seed (List.mem_cons_self ..)) s hs
    simp only [EvaluationState.evaluateSeeds]
    split_ifs
    · exact hseed
    · exact ih (fun seed' h => hseeds seed' (List.mem_cons_of_mem _ h)) _ hseed

theorem stable_evaluateGroups (hI : Stable I) (hbefore : context.before.Validated)
    (hafter : context.after.Validated) (groups : List (Str × AnchorKey × List AnchorOccurrence))
    (hgroups : ∀ group ∈ groups, group.2.2 = context.after.group group.1 group.2.1)
    (s : EvaluationState) (hs : I s.comparison) :
    I (EvaluationState.evaluateGroups context groups s).comparison := by
  induction groups generalizing s with
  | nil => exact hs
  | cons group groups ih =>
    obtain ⟨family, anchor, occurrences⟩ := group
    have hmem : occurrences = context.after.group family anchor := hgroups _ (List.mem_cons_self ..)
    subst hmem
    have hgroup : I (EvaluationState.evaluateGroup context family anchor
        (context.after.group family anchor) s).comparison := by
      rw [EvaluationState.evaluateGroup]
      split_ifs
      · exact stable_evaluateSeeds hI hbefore hafter _ (fun _ h => h) s hs
      · exact hs
    simp only [EvaluationState.evaluateGroups]
    split_ifs
    · exact hgroup
    · exact ih (fun group h => hgroups group (List.mem_cons_of_mem _ h)) _ hgroup

end Classes

end Opcore
