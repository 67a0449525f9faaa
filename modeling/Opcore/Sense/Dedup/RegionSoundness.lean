/-
  Opcore.Sense.Dedup.RegionSoundness

  Every reported region is a real duplicate: its counted occurrences carry one
  token sequence of at least the minimal length without overlapping, they grew
  in number on a changed path, and no token sequence is reported twice in a
  language family.  Nothing is assumed of the anchors: their hashes select what
  is compared and never decide what is equal.
-/
import Opcore.Sense.Dedup.RegionMatching

namespace Opcore

open Text Collections Smallest Fallible

/-! ## Groups hold files of their family -/

namespace RegionView

variable {view : RegionView} {family : Str} {key : AnchorKey} {occurrence : AnchorOccurrence}

/-- One more occurrence in the groups. -/
theorem group_pushAnchor (view : RegionView) (family' : Str) (file : Nat)
    (anchor : RegionFingerprint) :
    { view with groups := pushAnchor family' file view.groups anchor }.group family key
      = view.group family key ++
        if family = family' ∧ key = toLex (anchor.hashOne, anchor.hashTwo) then
          [⟨file, anchor.tokenIndex⟩]
        else [] := by
  simp only [group, pushAnchor, BTreeMap.get?_upsert]
  by_cases hfamily : family = family'
  · subst hfamily
    by_cases hkey : key = toLex (anchor.hashOne, anchor.hashTwo)
    · subst hkey
      simp [BTreeMap.get?_upsert]
    · simp [BTreeMap.get?_upsert, hkey]
  · simp [hfamily]

/-- The groups after all anchors of a file. -/
theorem mem_group_foldl (view : RegionView) (family' : Str) (file : Nat)
    (anchors : List RegionFingerprint) :
    occurrence ∈
        { view with groups := anchors.foldl (pushAnchor family' file) view.groups }.group family key ↔
      occurrence ∈ view.group family key ∨ ∃ anchor ∈ anchors, family = family'
        ∧ key = toLex (anchor.hashOne, anchor.hashTwo) ∧ occurrence = ⟨file, anchor.tokenIndex⟩ := by
  induction anchors generalizing view with
  | nil => simp
  | cons anchor anchors ih =>
    rw [List.foldl_cons]
    refine (ih { view with groups := pushAnchor family' file view.groups anchor }).trans ?_
    rw [group_pushAnchor, List.mem_append]
    by_cases hnew : family = family' ∧ key = toLex (anchor.hashOne, anchor.hashTwo)
    · simp [hnew, or_assoc]
    · have : ¬ (family = family' ∧ key = toLex (anchor.hashOne, anchor.hashTwo)
          ∧ occurrence = ⟨file, anchor.tokenIndex⟩) := fun h => hnew ⟨h.1, h.2.1⟩
      simp only [if_neg hnew, List.not_mem_nil, or_false, List.mem_cons, exists_eq_or_imp, this,
        false_or]

theorem mem_group_sortGroups :
    occurrence ∈ view.sortGroups.group family key ↔ occurrence ∈ view.group family key := by
  have hEq : view.sortGroups.group family key
      = sortByKey view.occurrenceKey (view.group family key) := by
    simp only [group, sortGroups, BTreeMap.get?_mapValues]
    cases view.groups.get? family with
    | none => rfl
    | some byAnchor =>
      simp only [Option.map_some, Option.getD_some, BTreeMap.get?_mapValues]
      cases byAnchor.get? key <;> rfl
  rw [hEq]
  exact (sortByKey_perm _ _).mem_iff

/-- Every grouped occurrence lies in a retained file of the group's family. -/
def Grouped (view : RegionView) : Prop :=
  ∀ family key, ∀ occurrence ∈ view.group family key,
    ∃ file, view.files[occurrence.file]? = some file ∧ file.source.language.family = family

theorem Grouped.pushFile (h : view.Grouped) (source : SourceFile) (path : RepoPath)
    (facts : RegionFingerprintFacts) (decoded : DecodedTokens) (retainedAnchors : Nat) :
    (view.pushFile source path facts decoded retainedAnchors).Grouped := by
  intro family key occurrence hanchored
  rcases (mem_group_foldl view _ _ facts.anchors).mp hanchored with
    hold | ⟨anchor, -, rfl, -, rfl⟩
  · obtain ⟨file, hfile, hfamily⟩ := h family key occurrence hold
    refine ⟨file, ?_, hfamily⟩
    show (view.files ++ _)[occurrence.file]? = some file
    rw [List.getElem?_append_left (List.getElem?_eq_some_iff.mp hfile).1, hfile]
  · refine ⟨⟨source, path, decoded⟩, ?_, rfl⟩
    show (view.files ++ _)[view.files.length]? = _
    rw [List.getElem?_append_right le_rfl, Nat.sub_self]
    rfl

variable [Sha256] [Base64]

theorem grouped_step {fileFacts : FactMap} {factKeys : FactKeyLookup}
    {continuity : BTreeMap RepoPath RepoPath} {s : RegionView × DecodedEvidence}
    (h : s.1.Grouped) (source : SourceFile) :
    (step fileFacts factKeys continuity s source).1.Grouped := by
  rw [step]
  split
  · exact h
  · split_ifs
    · exact h
    · simp only
      split
      · exact h
      · split_ifs
        · exact h
        · exact h
      · exact h
      · exact Grouped.pushFile h _ _ _ _ _

theorem grouped_new (senseView : SenseView) (snapshot : SourceSnapshot) (fileFacts : FactMap)
    (factKeys : FactKeyLookup) (continuity : BTreeMap RepoPath RepoPath)
    (evidence : DecodedEvidence) :
    (new senseView snapshot fileFacts factKeys continuity evidence).1.Grouped := by
  have hfold : ∀ (files : List SourceFile) (s : RegionView × DecodedEvidence), s.1.Grouped →
      (files.foldl (step fileFacts factKeys continuity) s).1.Grouped := by
    intro files
    induction files with
    | nil => exact fun s h => h
    | cons source files ih => exact fun s h => ih _ (grouped_step h source)
  intro family key occurrence hanchored
  refine hfold snapshot.fileList _ ?_ family key occurrence (mem_group_sortGroups.mp hanchored)
  intro family key occurrence h
  cases h

end RegionView

/-! ## Candidates are maximal common regions -/

/-- The tokens of a view at two places are there and agree. -/
def AgreeAt (view : RegionView) (leftFile left rightFile right : Nat) : Prop :=
  ∃ t, view.exactToken leftFile left = some t ∧ view.exactToken rightFile right = some t

/-- The region around an anchor that two of its occurrences have in common, as
    wide as it goes to both sides. -/
structure CommonRegion (view : RegionView) (seed peer : AnchorOccurrence)
    (start peerStart len : Nat) : Prop where
  start_le : start ≤ seed.tokenIndex
  peer_offset : peer.tokenIndex = peerStart + (seed.tokenIndex - start)
  le_stop : seed.tokenIndex + dedupRegionKgramTokens ≤ start + len
  tokens : SameTokens view seed.file start view peer.file peerStart len
  leftMaximal : start = 0 ∨ peerStart = 0
    ∨ ¬ AgreeAt view seed.file (start - 1) peer.file (peerStart - 1)
  rightMaximal : ¬ AgreeAt view seed.file (start + len) peer.file (peerStart + len)

theorem returns_anchorTokensMatch (view : RegionView) (left right : TokenLocation)
    (count offset : Nat) :
    Returns (anchorTokensMatch view left right count offset) fun matching => matching = true →
      SameTokens view left.file (left.token + offset) view right.file (right.token + offset)
        count := by
  induction count generalizing offset with
  | zero =>
    refine returns_pure fun _ o ho => ?_
    omega
  | succ count ih =>
    refine (returns_tokensEqual _).bind fun equal hequal => Returns.ite (fun htrue => ?_)
      (fun _ => returns_pure nofun)
    refine (ih (offset + 1)).mono fun matching hrest hmatching => ?_
    have hfirst : SameTokens view left.file (left.token + offset) view right.file
        (right.token + offset) 1 := by
      intro o ho
      obtain rfl : o = 0 := by omega
      exact hequal.mp htrue
    rw [Nat.add_comm count 1]
    exact hfirst.append (hrest hmatching)

theorem returns_extendLeft (view : RegionView) (leftFile rightFile left right : Nat) :
    Returns (extendLeft view leftFile rightFile left right) fun start =>
      ∃ peerStart, start ≤ left ∧ right = peerStart + (left - start)
        ∧ SameTokens view leftFile start view rightFile peerStart (left - start)
        ∧ (start = 0 ∨ peerStart = 0
          ∨ ¬ AgreeAt view leftFile (start - 1) rightFile (peerStart - 1)) := by
  have hnone : ∀ l r, SameTokens view leftFile l view rightFile r (l - l) := by
    intro l r o ho
    omega
  induction left generalizing right with
  | zero =>
    rw [extendLeft.eq_def]
    exact returns_pure ⟨right, le_rfl, rfl, hnone 0 right, Or.inl rfl⟩
  | succ left ih =>
    cases right with
    | zero => exact returns_pure ⟨0, le_rfl, by omega, hnone _ 0, Or.inr (Or.inl rfl)⟩
    | succ right =>
      refine (returns_tokensEqual _).bind fun equal hequal => Returns.ite (fun htrue => ?_)
        (fun hfalse => ?_)
      · refine (ih right).mono ?_
        rintro start ⟨peerStart, hle, hright, hsame, hmax⟩
        refine ⟨peerStart, by omega, by omega, ?_, hmax⟩
        -- the run of the recursive call and the pair before it
        have hlast : SameTokens view leftFile (start + (left - start)) view rightFile
            (peerStart + (left - start)) 1 := by
          intro o ho
          obtain rfl : o = 0 := by omega
          rw [show start + (left - start) + 0 = left by omega,
            show peerStart + (left - start) + 0 = right by omega]
          exact hequal.mp htrue
        rw [show left + 1 - start = left - start + 1 by omega]
        exact hsame.append hlast
      · refine returns_pure ⟨right + 1, le_rfl, by omega, hnone _ _, Or.inr (Or.inr ?_)⟩
        exact fun hagree => hfalse (hequal.mpr hagree)

variable {view : RegionView}

theorem lt_tokenTotal {file token : Nat} {t : ExactToken}
    (h : view.exactToken file token = some t) : token < view.tokenTotal file := by
  obtain ⟨regionFile, hfile, hlt⟩ := exists_file_of_exactToken h
  rw [RegionView.tokenTotal, hfile]
  exact hlt

theorem returns_extendRight (view : RegionView) (leftFile rightFile fuel left right : Nat)
    (hfuel : view.tokenTotal leftFile < left + fuel) :
    Returns (extendRight view leftFile rightFile fuel left right) fun stop =>
      left ≤ stop ∧ SameTokens view leftFile left view rightFile right (stop - left)
        ∧ ¬ AgreeAt view leftFile stop rightFile (right + (stop - left)) := by
  have hnone : SameTokens view leftFile left view rightFile right (left - left) := by
    intro o ho
    omega
  induction fuel generalizing left right with
  | zero =>
    refine returns_pure ⟨le_rfl, hnone, ?_⟩
    rintro ⟨t, hleft, -⟩
    have := lt_tokenTotal hleft
    omega
  | succ fuel ih =>
    refine returns_tokensExist.bind fun found hfound => Returns.ite (fun _ => ?_) (fun hfalse => ?_)
    · refine (returns_tokensEqual _).bind fun equal hequal => Returns.ite (fun htrue => ?_)
        (fun hfalse => ?_)
      · have hzero : SameTokens view leftFile (left + 1) view rightFile (right + 1)
            (left + 1 - (left + 1)) := by
          intro o ho
          omega
        refine (ih (left + 1) (right + 1) (by omega) hzero).mono ?_
        rintro stop ⟨hle, hsame, hmax⟩
        have hfirst : SameTokens view leftFile left view rightFile right 1 := by
          intro o ho
          obtain rfl : o = 0 := by omega
          exact hequal.mp htrue
        refine ⟨by omega, ?_, ?_⟩
        · rw [show stop - left = 1 + (stop - (left + 1)) by omega]
          exact hfirst.append hsame
        · rw [show right + (stop - left) = right + 1 + (stop - (left + 1)) by omega]
          exact hmax
      · refine returns_pure ⟨le_rfl, hnone, ?_⟩
        rw [Nat.sub_self, Nat.add_zero]
        exact fun hagree => hfalse (hequal.mpr hagree)
    · refine returns_pure ⟨le_rfl, hnone, ?_⟩
      rw [Nat.sub_self, Nat.add_zero]
      exact hfound (by simpa using hfalse)

theorem returns_maximalExactRegion (view : RegionView) (left right : AnchorOccurrence) :
    Returns (maximalExactRegion view left right) fun region =>
      ∃ peerStart, CommonRegion view left right region.1 peerStart (region.2 - region.1) := by
  refine (returns_anchorTokensMatch view _ _ _ _).bind fun matching hmatching =>
    Returns.ite (fun htrue => ?_) (fun _ => returns_stop)
  have hkgram := hmatching htrue
  refine (returns_extendLeft view _ _ _ _).bind ?_
  rintro start ⟨peerStart, hle, hright, hsame, hleftMax⟩
  refine (returns_extendRight view _ _ _ _ _ (by omega)).bind ?_
  rintro stop ⟨hstop, hsame', hrightMax⟩
  refine returns_pure ⟨peerStart, hle, hright, ?_, ?_, hleftMax, ?_⟩
  · show left.tokenIndex + dedupRegionKgramTokens ≤ start + (stop - start)
    omega
  · -- left part, k-gram and right part in a row
    have hmiddle : SameTokens view left.file (start + (left.tokenIndex - start)) view right.file
        (peerStart + (left.tokenIndex - start)) dedupRegionKgramTokens := by
      rw [show start + (left.tokenIndex - start) = left.tokenIndex + 0 by omega,
        show peerStart + (left.tokenIndex - start) = right.tokenIndex + 0 by omega]
      exact hkgram
    have hlater : SameTokens view left.file
        (start + (left.tokenIndex - start + dedupRegionKgramTokens)) view right.file
        (peerStart + (left.tokenIndex - start + dedupRegionKgramTokens))
        (stop - (left.tokenIndex + dedupRegionKgramTokens)) := by
      rw [show start + (left.tokenIndex - start + dedupRegionKgramTokens)
          = left.tokenIndex + dedupRegionKgramTokens by omega,
        show peerStart + (left.tokenIndex - start + dedupRegionKgramTokens)
          = right.tokenIndex + dedupRegionKgramTokens by omega]
      exact hsame'
    show SameTokens view left.file start view right.file peerStart (stop - start)
    rw [show stop - start = left.tokenIndex - start + dedupRegionKgramTokens
      + (stop - (left.tokenIndex + dedupRegionKgramTokens)) by omega]
    exact (hsame.append hmiddle).append hlater
  · show ¬ AgreeAt view left.file (start + (stop - start)) right.file (peerStart + (stop - start))
    rw [show start + (stop - start) = stop by omega,
      show peerStart + (stop - start) = right.tokenIndex + dedupRegionKgramTokens
        + (stop - (left.tokenIndex + dedupRegionKgramTokens)) by omega]
    exact hrightMax

/-- A candidate region of a seed: what it has in common with another occurrence
    of the anchor, when that is long enough. -/
structure Placed (view : RegionView) (occurrences : List AnchorOccurrence) (anchor : AnchorKey)
    (seed : AnchorOccurrence) (candidate : Candidate) : Prop where
  file : candidate.file = seed.file
  anchor : candidate.anchor = anchor
  long : minDedupRegionTokens ≤ candidate.len
  offset : candidate.anchorOffset = seed.tokenIndex - candidate.start
  common : ∃ peer ∈ occurrences, distinctAnchor seed peer = true
    ∧ ∃ peerStart, CommonRegion view seed peer candidate.start peerStart candidate.len

section Candidates

variable {view : RegionView} {occurrences : List AnchorOccurrence} {anchor : AnchorKey}
  {seed : AnchorOccurrence} {candidate : Candidate}

theorem Placed.pos (h : Placed view occurrences anchor seed candidate) : 0 < candidate.len :=
  lt_of_lt_of_le (by decide) h.long

theorem Placed.stop (h : Placed view occurrences anchor seed candidate) :
    candidate.stop = candidate.start + candidate.len := by
  have := h.pos
  rw [Candidate.len] at this ⊢
  omega

theorem placed_collectCandidates (peers : List AnchorOccurrence)
    (hpeers : ∀ peer ∈ peers, peer ∈ occurrences ∧ distinctAnchor seed peer = true)
    (s : CandidateState)
    (hs : ∀ candidate ∈ s.candidates, Placed view occurrences anchor seed candidate) :
    ∀ candidate ∈ (collectCandidates view anchor seed peers s).candidates,
      Placed view occurrences anchor seed candidate := by
  induction peers generalizing s with
  | nil => exact hs
  | cons peer peers ih =>
    have hrest := ih fun p hp => hpeers p (List.mem_cons_of_mem _ hp)
    rw [collectCandidates]
    split
    · split_ifs
      · exact hs
      · exact hrest _ hs
    · rename_i start stop comparison hregion
      split_ifs with hshort
      · exact hrest _ hs
      · obtain ⟨peerStart, hcommon⟩ := returns_maximalExactRegion view seed peer _ _ _ hregion
        obtain ⟨hmem, hdistinct⟩ := hpeers peer (List.mem_cons_self ..)
        refine hrest _ fun candidate hmem' => ?_
        rcases List.mem_append.mp hmem' with hold | hnew
        · exact hs candidate hold
        · rw [List.mem_singleton.mp hnew]
          have hlong : ¬ stop - start < minDedupRegionTokens := fun h => hshort (Or.inl h)
          exact ⟨rfl, rfl, Nat.not_lt.mp hlong, rfl, peer, hmem, hdistinct, peerStart, hcommon⟩

theorem placed_candidateRegions {comparison : ComparisonState} :
    ∀ candidate ∈ (candidateRegions view anchor seed occurrences comparison).1,
      Placed view occurrences anchor seed candidate := by
  intro candidate hmem
  rw [candidateRegions] at hmem
  refine placed_collectCandidates _ (fun peer hpeer => ?_) _ (by simp) candidate
    ((sortByKey_perm _ _).mem_iff.mp hmem)
  exact List.mem_filter.mp hpeer

end Candidates

/-! ## The run over all groups -/

theorem group_of_mem_allGroups {group : Str × AnchorKey × List AnchorOccurrence}
    (h : group ∈ view.allGroups) : group.2.2 = view.group group.1 group.2.1 := by
  obtain ⟨⟨family, groups⟩, hfamily, hmem⟩ := List.mem_flatMap.mp h
  obtain ⟨⟨anchor, occurrences⟩, hanchor, rfl⟩ := List.mem_map.mp hmem
  rw [RegionView.group, BTreeMap.mem_entries_iff.mp hfamily, Option.getD_some,
    BTreeMap.mem_entries_iff.mp hanchor, Option.getD_some]

/-- The findings so far, as classes of which `P` holds, each pair of family and
    digest among them once. -/
structure Reported (P : Str → ExactClass → Prop) (s : EvaluationState)
    (classes : List (Str × ExactClass)) : Prop where
  findings : s.findings = classes.map fun c => c.2.intoFinding
  holds : ∀ c ∈ classes, P c.1 c.2
  listed : ∀ c ∈ classes, toLex (c.1, c.2.digest) ∈ s.reportedClasses
  distinct : classes.Pairwise fun c d => (c.1, c.2.digest) ≠ (d.1, d.2.digest)

theorem Reported.report {P : Str → ExactClass → Prop} {s : EvaluationState}
    {classes : List (Str × ExactClass)}
    (h : Reported P s classes) (limit : Nat) {family : Str} {found : ExactClass}
    (hP : P family found) : ∃ classes', Reported P (s.report limit family found) classes' := by
  rw [EvaluationState.report]
  simp only
  split_ifs with hlisted hlimit
  · exact ⟨classes, h.findings, h.holds, h.listed, h.distinct⟩
  · exact ⟨classes, h.findings, h.holds,
      fun c hc => BTreeSet.mem_insert.mpr (Or.inr (h.listed c hc)), h.distinct⟩
  · refine ⟨classes ++ [(family, found)], ?_, fun c hc => ?_, fun c hc => ?_, ?_⟩
    · simp [h.findings]
    · rcases List.mem_append.mp hc with hold | hnew
      · exact h.holds c hold
      · rw [List.mem_singleton.mp hnew]
        exact hP
    · rcases List.mem_append.mp hc with hold | hnew
      · exact BTreeSet.mem_insert.mpr (Or.inr (h.listed c hold))
      · rw [List.mem_singleton.mp hnew]
        exact BTreeSet.mem_insert.mpr (Or.inl rfl)
    · refine List.pairwise_append.mpr ⟨h.distinct, List.pairwise_singleton .., ?_⟩
      intro c hc d hd hEq
      rw [List.mem_singleton.mp hd] at hEq
      exact hlisted (hEq ▸ h.listed c hc)

section Run

variable [Sha256] {context : EvaluationContext} {P : Str → ExactClass → Prop} {family : Str}

theorem bestClass_spec (candidates : List Candidate) (best : Option ExactClass)
    (comparison : ComparisonState) (hbest : ∀ found, best = some found → P family found)
    (hP : ∀ candidate ∈ candidates, Returns (exactClass context family candidate) (P family)) :
    ∀ found, (bestClass context family candidates best comparison).1 = some found →
      P family found := by
  induction candidates generalizing best comparison with
  | nil => exact hbest
  | cons candidate candidates ih =>
    have hrest : ∀ c ∈ candidates, Returns (exactClass context family c) (P family) :=
      fun c hc => hP c (List.mem_cons_of_mem _ hc)
    rw [bestClass]
    split
    · split_ifs
      · exact hbest
      · exact ih best _ hbest hrest
    · rename_i found comparison' hclass
      refine ih _ _ ?_ hrest
      split_ifs
      · intro found' hEq
        cases hEq
        exact hP candidate (List.mem_cons_self ..) _ _ _ hclass
      · exact hbest

/-- Is the seed compared with the rest of its group, or passed over? -/
def Evaluates (context : EvaluationContext) (s : EvaluationState) (seed : AnchorOccurrence) : Bool :=
  seedEligible context seed.file && !intervalContains s.covered seed.file seed.tokenIndex

/-- The seeds of a group that a run evaluates. -/
def evaluatedSeeds (context : EvaluationContext) (family : Str) (anchor : AnchorKey)
    (occurrences : List AnchorOccurrence) :
    List AnchorOccurrence → EvaluationState → List AnchorOccurrence
  | [], _ => []
  | seed :: seeds, s =>
    let next := EvaluationState.evaluateSeed context family anchor occurrences s seed
    let rest := if next.comparison.incomplete then []
      else evaluatedSeeds context family anchor occurrences seeds next
    if Evaluates context s seed then seed :: rest else rest

def evaluatedGroups (context : EvaluationContext) :
    List (Str × AnchorKey × List AnchorOccurrence) → EvaluationState →
      List (Str × AnchorKey × AnchorOccurrence)
  | [], _ => []
  | (family, anchor, occurrences) :: groups, s =>
    let next := EvaluationState.evaluateGroup context family anchor occurrences s
    let rest := if next.comparison.incomplete then [] else evaluatedGroups context groups next
    if anchorClassMayBeIntroduced context occurrences then
      (evaluatedSeeds context family anchor occurrences occurrences s).map (family, anchor, ·) ++ rest
    else rest

/-- The seeds that the evaluation of a request compares with the rest of their group. -/
def evaluated (context : EvaluationContext) : List (Str × AnchorKey × AnchorOccurrence) :=
  let comparison := (({} : ComparisonState).observeMalformedView context.before).observeMalformedView
    context.after
  if comparison.incomplete then []
  else evaluatedGroups context context.after.allGroups { comparison }

variable {s : EvaluationState} {classes : List (Str × ExactClass)}

/-- The step and the runs over seeds and groups keep the report. -/
theorem Reported.evaluateSeed
    {anchor : AnchorKey} {seed : AnchorOccurrence} (h : Reported P s classes)
    (occurrences : List AnchorOccurrence) (hP : Evaluates context s seed = true → ∀ candidate,
      Placed context.after occurrences anchor seed candidate →
        Returns (exactClass context family candidate) (P family)) :
    ∃ classes',
      Reported P (EvaluationState.evaluateSeed context family anchor occurrences s seed) classes' := by
  rw [EvaluationState.evaluateSeed]
  split_ifs with hskip
  · exact ⟨classes, h⟩
  · simp only
    split
    · exact ⟨classes, h.findings, h.holds, h.listed, h.distinct⟩
    · rename_i found hfound
      have hs : Reported P { s with comparison := (bestClass context family
          (candidateRegions context.after anchor seed occurrences s.comparison).1 none
          (candidateRegions context.after anchor seed occurrences s.comparison).2).2 } classes :=
        ⟨h.findings, h.holds, h.listed, h.distinct⟩
      refine hs.report _ (bestClass_spec _ none _ (by simp) (fun candidate hc => ?_) found hfound)
      have hevaluates : Evaluates context s seed = true := by
        rw [Evaluates, ← Bool.not_eq_false', Bool.not_and, Bool.not_not]
        exact Bool.eq_false_of_not_eq_true hskip
      exact hP hevaluates candidate (placed_candidateRegions candidate hc)

theorem Reported.evaluateSeeds {anchor : AnchorKey}
    {occurrences : List AnchorOccurrence} (seeds : List AnchorOccurrence) (h : Reported P s classes)
    (hP : ∀ seed ∈ seeds, seed ∈ evaluatedSeeds context family anchor occurrences seeds s →
      ∀ candidate, Placed context.after occurrences anchor seed candidate →
        Returns (exactClass context family candidate) (P family)) :
    ∃ classes', Reported P
      (EvaluationState.evaluateSeeds context family anchor occurrences seeds s) classes' := by
  induction seeds generalizing s classes with
  | nil => exact ⟨classes, h⟩
  | cons seed seeds ih =>
    rw [evaluatedSeeds] at hP
    obtain ⟨classes', h'⟩ := h.evaluateSeed occurrences fun hevaluates =>
      hP seed (List.mem_cons_self ..) (by rw [if_pos hevaluates]; exact List.mem_cons_self ..)
    rw [EvaluationState.evaluateSeeds]
    split_ifs with hincomplete
    · exact ⟨classes', h'⟩
    · rw [if_neg hincomplete] at hP
      refine ih h' fun seed' hmem hevaluated => hP seed' (List.mem_cons_of_mem _ hmem) ?_
      split_ifs
      · exact List.mem_cons_of_mem _ hevaluated
      · exact hevaluated

theorem Reported.evaluateGroups (groups : List (Str × AnchorKey × List AnchorOccurrence))
    (h : Reported P s classes) (hP : ∀ group ∈ groups, ∀ seed ∈ group.2.2,
      (group.1, group.2.1, seed) ∈ evaluatedGroups context groups s →
      ∀ candidate, Placed context.after group.2.2 group.2.1 seed candidate →
        Returns (exactClass context group.1 candidate) (P group.1)) :
    ∃ classes', Reported P (EvaluationState.evaluateGroups context groups s) classes' := by
  induction groups generalizing s classes with
  | nil => exact ⟨classes, h⟩
  | cons group groups ih =>
    obtain ⟨family, anchor, occurrences⟩ := group
    rw [evaluatedGroups] at hP
    have hgroup : ∃ classes', Reported P
        (EvaluationState.evaluateGroup context family anchor occurrences s) classes' := by
      rw [EvaluationState.evaluateGroup]
      split_ifs with hintroduced
      · refine h.evaluateSeeds occurrences fun seed hseed hevaluated =>
          hP _ (List.mem_cons_self ..) seed hseed ?_
        rw [if_pos hintroduced]
        exact List.mem_append_left _ (List.mem_map_of_mem hevaluated)
      · exact ⟨classes, h⟩
    obtain ⟨classes', h'⟩ := hgroup
    rw [EvaluationState.evaluateGroups]
    split_ifs with hincomplete
    · exact ⟨classes', h'⟩
    · rw [if_neg hincomplete] at hP
      refine ih h' fun group hmem seed hseed hevaluated =>
        hP group (List.mem_cons_of_mem _ hmem) seed hseed ?_
      split_ifs
      · exact List.mem_append_right _ hevaluated
      · exact hevaluated

/-- Run rule: what every class of a placed candidate satisfies, every reported
    class satisfies, and family and digest are reported once. -/
theorem evaluateRegions_spec (context : EvaluationContext) (P : Str → ExactClass → Prop)
    (hP : ∀ family anchor, ∀ seed ∈ context.after.group family anchor,
      (family, anchor, seed) ∈ evaluated context → ∀ candidate,
        Placed context.after (context.after.group family anchor) anchor seed candidate →
          Returns (exactClass context family candidate) (P family)) :
    ∃ classes : List (Str × ExactClass),
      (evaluateRegions context).findings = classes.map (fun c => c.2.intoFinding)
        ∧ (∀ c ∈ classes, P c.1 c.2)
        ∧ classes.Pairwise fun c d => (c.1, c.2.digest) ≠ (d.1, d.2.digest) := by
  have hinit : ∀ comparison, Reported P ({ comparison } : EvaluationState) [] :=
    fun comparison => ⟨rfl, by simp, by simp, .nil⟩
  have hrun : ∃ classes, Reported P (evaluateRegions context) classes := by
    rw [evaluateRegions]
    split_ifs with hincomplete
    · exact ⟨[], hinit _⟩
    · refine (hinit _).evaluateGroups _ fun group hgroup seed hseed hevaluated => ?_
      rw [group_of_mem_allGroups hgroup] at hseed ⊢
      exact hP group.1 group.2.1 seed hseed (by rw [evaluated, if_neg hincomplete]; exact hevaluated)
  obtain ⟨classes, h⟩ := hrun
  exact ⟨classes, h.findings, h.holds, h.distinct⟩

end Run

/-! ## What a class promises -/

/-- An occurrence that carries a token sequence in a view. -/
structure Carries (view : RegionView) (tokens : List ExactToken) (occurrence : ExactOccurrence) :
    Prop where
  path : view.pathOf occurrence.file = some occurrence.path
  stop : occurrence.stop = occurrence.start + tokens.length
  tokens : ∀ i < tokens.length, view.exactToken occurrence.file (occurrence.start + i) = tokens[i]?

/-- A token sequence with its counted occurrences in both views. -/
structure DuplicateRegion where
  family : Str
  tokens : List ExactToken
  before : List ExactOccurrence
  after : List ExactOccurrence
  deriving Inhabited

/-- The occurrences on a path. -/
def onPath (occurrences : List ExactOccurrence) (path : RepoPath) : Nat :=
  occurrences.countP fun occurrence => occurrence.path = path

/-- The region is a duplicate that this change introduced. -/
structure IsIntroducedRegion (context : EvaluationContext) (region : DuplicateRegion) : Prop where
  long : minDedupRegionTokens ≤ region.tokens.length
  carried : ∀ o ∈ region.after, Carries context.after region.tokens o
  carriedBefore : ∀ o ∈ region.before, Carries context.before region.tokens o
  family : ∀ o ∈ region.after, ∃ file, context.after.files[o.file]? = some file
    ∧ file.source.language.family = region.family
  disjoint : region.after.Pairwise fun o o' => o.path = o'.path → o.stop ≤ o'.start
  twice : 2 ≤ region.after.length
  grew : region.before.length < region.after.length
  changed : ∃ path ∈ context.inputs.changedPaths, onPath region.before path < onPath region.after path
  unsuppressed : ∃ path, path ∉ context.inputs.suppressedPaths
    ∧ onPath region.before path < onPath region.after path

theorem forall₂_of_mapM {α β : Type} {f : α → Option β} {l : List α} {r : List β}
    (h : l.mapM f = some r) : List.Forall₂ (fun a b => f a = some b) l r := by
  induction l generalizing r with
  | nil =>
    cases h
    exact .nil
  | cons a l ih =>
    rw [List.mapM_cons] at h
    obtain ⟨b, hb, h⟩ := Option.bind_eq_some_iff.mp h
    obtain ⟨r', hr', h⟩ := Option.bind_eq_some_iff.mp h
    cases h
    exact .cons hb (ih hr')

/-- The digest of a token sequence in a family. -/
def tokensDigest [Sha256] (family : Str) (tokens : List ExactToken) : Str :=
  hexEncode (hashDomain (ascii "dedup-token-region/v1")
    [family, tokens.flatMap RegionView.encodeToken])

/-- A digest is that of the tokens in the range. -/
theorem regionDigest_spec [Sha256] {file start stop : Nat} {digest : Str}
    (h : view.regionDigest file start stop = some digest) :
    ∃ regionFile tokens, view.files[file]? = some regionFile ∧ tokens.length = stop - start
      ∧ (∀ i < tokens.length, view.exactToken file (start + i) = tokens[i]?)
      ∧ digest = tokensDigest regionFile.source.language.family tokens := by
  rw [RegionView.regionDigest] at h
  obtain ⟨regionFile, hfile, h⟩ := Option.bind_eq_some_iff.mp h
  obtain ⟨-, -, h⟩ := Option.bind_eq_some_iff.mp h
  obtain ⟨tokens, htokens, h⟩ := Option.bind_eq_some_iff.mp h
  cases h
  have hall := forall₂_of_mapM htokens
  have hlen : tokens.length = stop - start := by
    rw [← hall.length_eq, List.length_range']
  refine ⟨regionFile, tokens, hfile, hlen, fun i hi => ?_, rfl⟩
  have hget := (List.forall₂_iff_get.mp hall).2 i (by rw [List.length_range']; omega) hi
  rw [List.get_eq_getElem, List.getElem_range', Nat.one_mul, List.get_eq_getElem] at hget
  rw [hget, List.getElem?_eq_getElem hi]

/-- Occurrences of a candidate carry the candidate's tokens. -/
theorem Recorded.carries {candidateView target : RegionView} {candidate : Candidate}
    {changedPaths : BTreeSet RepoPath} {occurrence : ExactOccurrence} {tokens : List ExactToken}
    (h : Recorded candidateView candidate target changedPaths occurrence)
    (hlen : tokens.length = candidate.len)
    (htokens : ∀ i < tokens.length,
      candidateView.exactToken candidate.file (candidate.start + i) = tokens[i]?) :
    Carries target tokens occurrence := by
  refine ⟨h.hits.path, by rw [hlen]; exact h.stop, fun i hi => ?_⟩
  obtain ⟨t, hleft, hright⟩ := h.hits.tokens i (hlen ▸ hi)
  rw [← htokens i hi, hleft]
  exact hright

theorem getD_pathCounts (occurrences : List ExactOccurrence) (path : RepoPath) :
    ((pathCounts occurrences).get? path).getD 0 = onPath occurrences path := by
  rw [pathCounts, getD_get?_tally (p := fun x => x = path) (by simp), List.countP_map]
  rfl

theorem mem_pathsWithGrowth {before after : List ExactOccurrence} {path : RepoPath}
    (h : path ∈ pathsWithGrowth (pathCounts before) (pathCounts after)) :
    onPath before path < onPath after path := by
  rw [pathsWithGrowth, BTreeSet.mem_ofList, List.mem_map] at h
  obtain ⟨⟨path', count⟩, hmem, rfl⟩ := h
  obtain ⟨hentry, hgrew⟩ := List.mem_filter.mp hmem
  have hcount : ((pathCounts after).get? path').getD 0 = count := by
    rw [BTreeMap.mem_entries_iff.mp hentry, Option.getD_some]
  rw [getD_pathCounts] at hcount
  rw [← getD_pathCounts before, hcount]
  exact of_decide_eq_true hgrew

/-! ## Soundness -/

section Soundness

variable [Sha256] {context : EvaluationContext} {family : Str} {anchor : AnchorKey}
  {seed : AnchorOccurrence} {candidate : Candidate}

/-- The class that is reported for a region. -/
def DuplicateRegion.toClass (region : DuplicateRegion) : ExactClass where
  digest := tokensDigest region.family region.tokens
  family := region.family
  beforeCount := region.before.length
  afterOccurrences := region.after
  introducedCount := region.after.length - region.before.length
  tokenCount := region.tokens.length

/-- A region found from a candidate: its tokens are the candidate's, and its
    occurrences those selected in both views. -/
structure FoundFrom (context : EvaluationContext) (family : Str) (candidate : Candidate)
    (region : DuplicateRegion) : Prop where
  sameFamily : region.family = family
  length : region.tokens.length = candidate.len
  tokens : ∀ i < region.tokens.length,
    context.after.exactToken candidate.file (candidate.start + i) = region.tokens[i]?
  before : Selected context.after candidate context.before family context.inputs.changedPaths
    region.before
  after : Selected context.after candidate context.after family context.inputs.changedPaths
    region.after

theorem returns_exactClass (hgrouped : context.after.Grouped)
    (hseed : seed ∈ context.after.group family anchor)
    (hplaced : Placed context.after (context.after.group family anchor) anchor seed candidate) :
    Returns (exactClass context family candidate) fun found =>
      ∃ region, found = region.toClass ∧ IsIntroducedRegion context region
        ∧ FoundFrom context family candidate region := by
  refine (returns_exactOccurrences hplaced.pos hplaced.stop).bind fun before hbefore => ?_
  refine (returns_exactOccurrences hplaced.pos hplaced.stop).bind fun after hafter => ?_
  refine Returns.ite (fun _ => returns_stop) (fun hcount => ?_)
  refine Returns.ite (fun _ => returns_stop) (fun hgrowth => ?_)
  cases hdigest : context.after.regionDigest candidate.file candidate.start candidate.stop with
  | none => exact returns_malformedAt
  | some digest =>
    obtain ⟨regionFile, tokens, hfile, hlen, htokens, rfl⟩ := regionDigest_spec hdigest
    obtain ⟨file, hfile', hfamily⟩ := hgrouped family anchor seed hseed
    rw [← hplaced.file, hfile, Option.some.injEq] at hfile'
    subst hfile'
    -- the change is seen on a changed path and on one that is not suppressed
    have hchanged : ¬ (pathsWithGrowth (pathCounts before) (pathCounts after)).isDisjoint
        context.inputs.changedPaths = true := fun h => hgrowth (Or.inl h)
    rw [BTreeSet.isDisjoint_iff] at hchanged
    push Not at hchanged
    obtain ⟨path, hgrew, hpath⟩ := hchanged
    have hsub : ¬ (pathsWithGrowth (pathCounts before) (pathCounts after)).isSubset
        context.inputs.suppressedPaths = true := by
      refine fun h => hgrowth (Or.inr (Or.inl ⟨fun hempty => ?_, h⟩))
      rw [BTreeSet.isEmpty_iff.mp hempty] at hgrew
      exact BTreeSet.not_mem_empty hgrew
    rw [BTreeSet.isSubset_iff] at hsub
    push Not at hsub
    obtain ⟨path', hgrew', hpath'⟩ := hsub
    refine returns_pure ⟨⟨family, tokens, before, after⟩,
      by rw [DuplicateRegion.toClass, hfamily, hlen]; rfl, ?_, ⟨rfl, hlen, htokens, hbefore, hafter⟩⟩
    refine
      { long := by rw [hlen]; exact hplaced.long
        carried := fun o ho => (hafter.recorded o ho).1.carries hlen htokens
        carriedBefore := fun o ho => (hbefore.recorded o ho).1.carries hlen htokens
        family := fun o ho => ?_
        disjoint := hafter.disjoint
        twice := by simp only; omega
        grew := by simp only; omega
        changed := ⟨path, hpath, mem_pathsWithGrowth hgrew⟩
        unsuppressed := ⟨path', hpath', mem_pathsWithGrowth hgrew'⟩ }
    obtain ⟨-, a, ha, hEq⟩ := hafter.recorded o ho
    rw [← hEq]
    exact hgrouped family candidate.anchor a ha

/-- How a finding reads a region: the counts are those of all its occurrences, of
    which a sorted sample is shown. -/
structure Describes (finding : IntroducedDuplicate) (region : DuplicateRegion) : Prop where
  kind : finding.kind = .tokenRegion
  family : finding.languageFamily = some region.family
  tokenCount : finding.tokenCount = some region.tokens.length
  beforeCount : finding.beforeCount = region.before.length
  afterCount : finding.afterCount = region.after.length
  introducedCount : finding.introducedCount = finding.afterCount - finding.beforeCount
  occurrences : finding.occurrences.Subperm (region.after.map ExactOccurrence.toDuplicate)

theorem describes_toClass (region : DuplicateRegion) :
    Describes region.toClass.intoFinding region := by
  have hperm := sortByKey_perm ExactOccurrence.findingKey region.after
  have hlen : ((sortByKey ExactOccurrence.findingKey region.after).map
      ExactOccurrence.toDuplicate).length = region.after.length := by
    rw [List.length_map, hperm.length_eq]
  refine ⟨rfl, rfl, rfl, rfl, hlen, ?_, ?_⟩
  · show region.after.length - region.before.length = _ - region.before.length
    rw [← hlen]
    rfl
  · exact (List.take_sublist ..).subperm.trans (hperm.map _).subperm

/-- The findings as regions: what holds of every region found from a candidate
    holds of the reported ones, and no two of these have family and tokens in
    common. -/
theorem regions_of_findings [Base64] (inputs : RegionInputs) (Q : DuplicateRegion → Prop)
    (hQ : ∀ family anchor, ∀ seed ∈ (regionViews inputs).1.after.group family anchor,
      (family, anchor, seed) ∈ evaluated (regionViews inputs).1 → ∀ candidate,
        Placed (regionViews inputs).1.after ((regionViews inputs).1.after.group family anchor) anchor
          seed candidate →
        ∀ region, FoundFrom (regionViews inputs).1 family candidate region → Q region) :
    ∃ regions : List DuplicateRegion,
      List.Forall₂ Describes (regionFindings inputs).findings regions
        ∧ (∀ region ∈ regions, IsIntroducedRegion (regionViews inputs).1 region ∧ Q region)
        ∧ regions.Pairwise fun r r' => r.family = r'.family → r.tokens ≠ r'.tokens := by
  have hgrouped : (regionViews inputs).1.after.Grouped := RegionView.grouped_new _ _ _ _ _ _
  obtain ⟨classes, hfindings, hclasses, hdistinct⟩ := evaluateRegions_spec
    (regionViews inputs).1
    (fun family found => ∃ region : DuplicateRegion, found = region.toClass
      ∧ (IsIntroducedRegion (regionViews inputs).1 region ∧ Q region) ∧ region.family = family)
    fun family anchor seed hseed hevaluated candidate hplaced =>
      (returns_exactClass hgrouped hseed hplaced).mono
        fun found ⟨region, hEq, hintro, hfrom⟩ => ⟨region, hEq,
          ⟨hintro, hQ family anchor seed hseed hevaluated candidate hplaced region hfrom⟩,
          hfrom.sameFamily⟩
  choose! regionOf hregion using hclasses
  refine ⟨classes.map regionOf, ?_, ?_, ?_⟩
  · show List.Forall₂ Describes (evaluateRegions (regionViews inputs).1).findings _
    rw [hfindings, List.forall₂_map_left_iff, List.forall₂_map_right_iff, List.forall₂_same]
    intro c hc
    rw [(hregion c hc).1]
    exact describes_toClass _
  · intro region hmem
    obtain ⟨c, hc, rfl⟩ := List.mem_map.mp hmem
    exact (hregion c hc).2.1
  · refine List.pairwise_map.mpr (hdistinct.imp_of_mem fun {c d} hc hd hne hfamily htokens => hne ?_)
    obtain ⟨hEqc, -, hfc⟩ := hregion c hc
    obtain ⟨hEqd, -, hfd⟩ := hregion d hd
    rw [hEqc, hEqd, ← hfc, ← hfd, DuplicateRegion.toClass, DuplicateRegion.toClass, hfamily, htokens]

/-- Soundness of region findings, for every request and every content of the facts. -/
theorem regionFindings_sound [Base64] (inputs : RegionInputs) :
    ∃ regions : List DuplicateRegion,
      List.Forall₂ Describes (regionFindings inputs).findings regions
        ∧ (∀ region ∈ regions, IsIntroducedRegion (regionViews inputs).1 region)
        ∧ regions.Pairwise fun r r' => r.family = r'.family → r.tokens ≠ r'.tokens := by
  obtain ⟨regions, hdescribes, hregions, hdistinct⟩ := regions_of_findings inputs (fun _ => True)
    fun _ _ _ _ _ _ _ _ _ => trivial
  exact ⟨regions, hdescribes, fun region hmem => (hregions region hmem).1, hdistinct⟩

end Soundness

end Opcore
