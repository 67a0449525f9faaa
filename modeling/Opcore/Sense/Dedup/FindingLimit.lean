/-
  Opcore.Sense.Dedup.FindingLimit

  The limit on duplicate findings cuts the list of them and does nothing else.
  Files, callables and regions are found in the same order under every limit; what
  is reported is the beginning of one list, and a finding is marked as dropped
  exactly when that list is longer than the limit.
-/
import Opcore.Library.Bounded
import Opcore.Sense.Dedup.Duplicates

namespace Opcore

open Text Collections Smallest Fallible

/-! ## Comparisons that do not look at the mark -/

/-- The state with the mark of dropped findings given. -/
def ComparisonState.withTruncated (flag : Bool) (s : ComparisonState) : ComparisonState :=
  { s with findingsTruncated := flag }

theorem ComparisonState.incomplete_withTruncated (flag : Bool) (s : ComparisonState) :
    (s.withTruncated flag).incomplete = s.incomplete := rfl

/-- The comparison neither looks at nor sets the mark of dropped findings. -/
def Unaware {α : Type} (m : Compare α) : Prop := ∀ flag, Blind m (.withTruncated flag)

section Unaware

variable {view target : RegionView} {file token : Nat}

theorem Unaware.bind {α β : Type} {m : Compare α} {f : α → Compare β} (h : Unaware m)
    (hf : ∀ a, Unaware (f a)) : Unaware (m >>= f) := fun flag => (h flag).bind fun a => hf a flag

variable {α : Type}

theorem Unaware.ite {c : Prop} [Decidable c] {m m' : Compare α} (ht : Unaware m)
    (he : Unaware m') : Unaware (if c then m else m') := fun flag => (ht flag).ite (he flag)

theorem unaware_pure (a : α) : Unaware (pure a : Compare α) := fun _ => blind_pure a

theorem unaware_stop : Unaware (stop : Compare α) := fun _ => blind_stop

theorem markMalformedLocation_withTruncated (flag : Bool) (s : ComparisonState) :
    (s.withTruncated flag).markMalformedLocation view file
      = (s.markMalformedLocation view file).withTruncated flag := by
  rw [ComparisonState.markMalformedLocation, ComparisonState.markMalformedLocation]
  cases view.pathOf file with
  | none => rfl
  | some path => rfl

theorem recordLimitLocation_withTruncated (flag : Bool) (s : ComparisonState) :
    (s.withTruncated flag).recordLimitLocation view file
      = (s.recordLimitLocation view file).withTruncated flag := by
  rw [ComparisonState.recordLimitLocation, ComparisonState.recordLimitLocation]
  cases view.pathOf file with
  | none => rfl
  | some path =>
    by_cases hroom : s.limitPaths.size < maxObservationPaths
    · simp [ComparisonState.withTruncated, hroom]
    · simp [ComparisonState.withTruncated, hroom]

theorem unaware_malformedAt : Unaware (malformedAt view file : Compare α) :=
  Unaware.bind (fun flag => blind_modify (markMalformedLocation_withTruncated flag))
    fun _ => unaware_stop

theorem unaware_tokenExists : Unaware (tokenExists view file token) := by
  rw [tokenExists]
  cases view.files[file]? with
  | none =>
    exact Unaware.bind (fun flag => blind_modify (markMalformedLocation_withTruncated flag))
      fun _ => unaware_pure _
  | some regionFile => exact unaware_pure _

variable (pair : TokenPair)

theorem unaware_tokensExist : Unaware (tokensExist pair) :=
  unaware_tokenExists.bind fun _ => unaware_tokenExists.ite (unaware_pure _)

theorem unaware_spendComparison : Unaware (spendComparison pair) := by
  intro flag s
  rw [spendComparison, spendComparison]
  by_cases hspent : s.remaining = 0
  · rw [if_pos hspent, if_pos (show (s.withTruncated flag).remaining = 0 from hspent)]
    have hlimit : ({ s.withTruncated flag with incomplete := true, limitReached := true } :
        ComparisonState)
          = ({ s with incomplete := true, limitReached := true } : ComparisonState).withTruncated
            flag := rfl
    rw [hlimit, ComparisonState.recordLimitPair, recordLimitLocation_withTruncated,
      recordLimitLocation_withTruncated]
    rfl
  · rw [if_neg hspent, if_neg (show ¬ (s.withTruncated flag).remaining = 0 from hspent)]
    rfl

theorem unaware_tokensEqual : Unaware (tokensEqual pair) := by
  refine (unaware_spendComparison pair).bind fun _ => ?_
  cases pair.leftView.exactToken pair.left.file pair.left.token with
  | none => exact unaware_malformedAt
  | some left =>
    cases pair.rightView.exactToken pair.right.file pair.right.token with
    | none => exact unaware_malformedAt
    | some right => exact unaware_pure _

theorem unaware_offsetsEqual (pair : RegionPair) (count offset : Nat) :
    Unaware (offsetsEqual pair count offset) := by
  induction count generalizing offset with
  | zero => exact unaware_pure _
  | succ count ih =>
    exact (unaware_tokensEqual _).bind fun _ => (ih (offset + 1)).ite (unaware_pure _)

theorem unaware_regionsEqual (pair : RegionPair) : Unaware (regionsEqual pair) := by
  refine Unaware.ite (unaware_pure _) ((unaware_tokensExist _).bind fun _ => ?_)
  refine (unaware_offsetsEqual pair _ 0).ite fun flag => ?_
  refine blind_get_bind ComparisonState.incomplete (fun _ => rfl)
    (k := fun incomplete => if incomplete then stop else pure false) fun incomplete => ?_
  exact blind_stop.ite (blind_pure _)

theorem unaware_anchorTokensMatch (left right : TokenLocation) (count offset : Nat) :
    Unaware (anchorTokensMatch view left right count offset) := by
  induction count generalizing offset with
  | zero => exact unaware_pure _
  | succ count ih =>
    exact (unaware_tokensEqual _).bind fun _ => (ih (offset + 1)).ite (unaware_pure _)

theorem unaware_extendLeft (leftFile rightFile left right : Nat) :
    Unaware (extendLeft view leftFile rightFile left right) := by
  induction left generalizing right with
  | zero =>
    rw [extendLeft.eq_def]
    exact unaware_pure _
  | succ left ih =>
    cases right with
    | zero => exact unaware_pure _
    | succ right => exact (unaware_tokensEqual _).bind fun _ => (ih right).ite (unaware_pure _)

theorem unaware_extendRight (leftFile rightFile fuel left right : Nat) :
    Unaware (extendRight view leftFile rightFile fuel left right) := by
  induction fuel generalizing left right with
  | zero => exact unaware_pure _
  | succ fuel ih =>
    refine (unaware_tokensExist _).bind fun _ => Unaware.ite ?_ (unaware_pure _)
    exact (unaware_tokensEqual _).bind fun _ => (ih (left + 1) (right + 1)).ite (unaware_pure _)

theorem unaware_maximalExactRegion (left right : AnchorOccurrence) :
    Unaware (maximalExactRegion view left right) := by
  refine (unaware_anchorTokensMatch _ _ _ _).bind fun _ => Unaware.ite ?_ unaware_stop
  exact (unaware_extendLeft _ _ _ _).bind fun _ =>
    (unaware_extendRight _ _ _ _ _).bind fun _ => unaware_pure _

theorem unaware_anchoredOccurrences (candidate : Candidate) (changedPaths : BTreeSet RepoPath)
    (anchors : List AnchorOccurrence) (occurrences : BTreeMap (RepoPath ×ₗ Nat) ExactOccurrence) :
    Unaware (anchoredOccurrences view candidate target changedPaths anchors occurrences) := by
  induction anchors generalizing occurrences with
  | nil => exact unaware_pure _
  | cons anchor anchors ih =>
    rw [anchoredOccurrences]
    refine (ih occurrences).ite ((unaware_regionsEqual _).bind fun _ => Unaware.ite ?_ (ih _))
    cases target.files[anchor.file]? with
    | none => exact unaware_malformedAt
    | some regionFile =>
      dsimp only
      cases regionFile.range (anchor.tokenIndex - candidate.anchorOffset)
          (anchor.tokenIndex - candidate.anchorOffset + candidate.len) with
      | none => exact unaware_malformedAt
      | some range => exact ih _

theorem unaware_exactOccurrences (candidate : Candidate) (family : Str)
    (changedPaths : BTreeSet RepoPath) :
    Unaware (exactOccurrences view candidate target family changedPaths) := by
  rw [exactOccurrences]
  cases (target.groups.get? family).bind fun groups => groups.get? candidate.anchor with
  | none => exact unaware_pure _
  | some group => exact (unaware_anchoredOccurrences _ _ _ _).bind fun _ => unaware_pure _

theorem unaware_exactClass [Sha256] (context : EvaluationContext) (family : Str)
    (candidate : Candidate) : Unaware (exactClass context family candidate) := by
  refine (unaware_exactOccurrences _ _ _).bind fun before =>
    (unaware_exactOccurrences _ _ _).bind fun after => ?_
  refine unaware_stop.ite (unaware_stop.ite ?_)
  cases context.after.regionDigest candidate.file candidate.start candidate.stop with
  | none => exact unaware_malformedAt
  | some digest => exact unaware_pure _

end Unaware

/-! ## Loops over comparisons -/

section Loops

theorem collectCandidates_withTruncated (flag : Bool) (view : RegionView) (anchor : AnchorKey)
    (seed : AnchorOccurrence) (peers : List AnchorOccurrence) (s : CandidateState) :
    collectCandidates view anchor seed peers
        { s with comparison := s.comparison.withTruncated flag }
      = { collectCandidates view anchor seed peers s with
          comparison :=
            (collectCandidates view anchor seed peers s).comparison.withTruncated flag } := by
  induction peers generalizing s with
  | nil => rfl
  | cons peer peers ih =>
    have hblind := @unaware_maximalExactRegion view seed peer flag s.comparison
    rw [collectCandidates, collectCandidates, hblind]
    rcases maximalExactRegion view seed peer s.comparison with ⟨_ | ⟨start, stop⟩, comparison⟩
    · dsimp only
      rw [ComparisonState.incomplete_withTruncated]
      split_ifs
      · rfl
      · exact ih { s with comparison }
    · dsimp only
      split_ifs
      · exact ih { s with comparison }
      · exact ih ⟨comparison, _, _⟩

theorem candidateRegions_withTruncated (flag : Bool) (view : RegionView) (anchor : AnchorKey)
    (seed : AnchorOccurrence) (occurrences : List AnchorOccurrence) (s : ComparisonState) :
    candidateRegions view anchor seed occurrences (s.withTruncated flag)
      = ((candidateRegions view anchor seed occurrences s).1,
          (candidateRegions view anchor seed occurrences s).2.withTruncated flag) := by
  have hloop := collectCandidates_withTruncated flag view anchor seed
    (occurrences.filter (distinctAnchor seed)) { comparison := s }
  rw [candidateRegions, candidateRegions]
  dsimp only at hloop ⊢
  rw [hloop]

theorem bestClass_withTruncated [Sha256] (flag : Bool) (context : EvaluationContext) (family : Str)
    (candidates : List Candidate) (best : Option ExactClass) (s : ComparisonState) :
    bestClass context family candidates best (s.withTruncated flag)
      = ((bestClass context family candidates best s).1,
          (bestClass context family candidates best s).2.withTruncated flag) := by
  induction candidates generalizing best s with
  | nil => rfl
  | cons candidate candidates ih =>
    have hblind := unaware_exactClass context family candidate flag s
    rw [bestClass, bestClass, hblind]
    rcases exactClass context family candidate s with ⟨_ | found, comparison⟩
    · dsimp only
      rw [ComparisonState.incomplete_withTruncated]
      split_ifs
      · rfl
      · exact ih best comparison
    · exact ih _ comparison

end Loops

/-! ## Regions -/

def EvaluationContext.withLimit (context : EvaluationContext) (limit : Nat) : EvaluationContext :=
  { context with inputs := { context.inputs with findingLimit := limit } }

/-- The state of an evaluation under a limit, when `offered` is what went to the report. -/
def EvaluationState.underLimit (common : EvaluationState × List IntroducedDuplicate)
    (limit : Nat) : EvaluationState :=
  { common.1 with
    findings := (keptOf common.2 limit).1
    comparison := common.1.comparison.withTruncated (keptOf common.2 limit).2 }

section Regions

variable [Sha256] (context : EvaluationContext) (family : Str) (anchor : AnchorKey)
  (occurrences : List AnchorOccurrence) (common : EvaluationState × List IntroducedDuplicate)

omit [Sha256] in
theorem report_underLimit (found : ExactClass) :
    ∃ common', ∀ limit, (EvaluationState.underLimit common limit).report limit family found
      = EvaluationState.underLimit common' limit := by
  obtain ⟨core, offered⟩ := common
  by_cases hreported : toLex (family, found.digest) ∈ core.reportedClasses
  · refine ⟨({ core with covered := markCovered core.covered found.afterOccurrences }, offered), ?_⟩
    intro limit
    exact if_pos hreported
  · refine ⟨({ core with
      covered := markCovered core.covered found.afterOccurrences
      reportedClasses := core.reportedClasses.insert (toLex (family, found.digest)) },
      offered ++ [found.intoFinding]), ?_⟩
    intro limit
    have hpush := pushBounded_keptOf offered limit found.intoFinding
    rw [pushBounded] at hpush
    by_cases hfull : limit ≤ (keptOf offered limit).1.length
    · rw [if_pos hfull] at hpush
      refine (if_neg hreported).trans ((if_pos hfull).trans ?_)
      simp only [EvaluationState.underLimit, ← hpush, ComparisonState.withTruncated]
    · rw [if_neg hfull] at hpush
      refine (if_neg hreported).trans ((if_neg hfull).trans ?_)
      simp only [EvaluationState.underLimit, ← hpush]

theorem bestClass_withLimit (limit : Nat) (candidates : List Candidate) (best : Option ExactClass)
    (s : ComparisonState) :
    bestClass (context.withLimit limit) family candidates best s
      = bestClass context family candidates best s := by
  induction candidates generalizing best s with
  | nil => rfl
  | cons candidate candidates ih =>
    have hclass : exactClass (context.withLimit limit) family candidate
        = exactClass context family candidate := rfl
    rw [bestClass, bestClass, hclass]
    simp only [ih]

theorem evaluateSeed_underLimit (seed : AnchorOccurrence) :
    ∃ common', ∀ limit,
      (EvaluationState.underLimit common limit).evaluateSeed (context.withLimit limit) family anchor
          occurrences seed
        = EvaluationState.underLimit common' limit := by
  by_cases hskip : (!seedEligible context seed.file
      || intervalContains common.1.covered seed.file seed.tokenIndex) = true
  · exact ⟨common, fun limit => if_pos hskip⟩
  · -- the comparison of this seed does not look at the mark, so it goes one way
    rcases hregions : candidateRegions context.after anchor seed occurrences common.1.comparison
      with ⟨candidates, compared⟩
    rcases hbest : bestClass context family candidates none compared with ⟨best, classified⟩
    have hstep : ∀ limit,
        (EvaluationState.underLimit common limit).evaluateSeed (context.withLimit limit) family
            anchor occurrences seed
          = best.elim
              (EvaluationState.underLimit ({ common.1 with comparison := classified }, common.2) limit)
              ((EvaluationState.underLimit ({ common.1 with comparison := classified }, common.2)
                limit).report limit family) := by
      intro limit
      have hcandidates := candidateRegions_withTruncated (keptOf common.2 limit).2 context.after
        anchor seed occurrences common.1.comparison
      have hclass := bestClass_withTruncated (keptOf common.2 limit).2 context family candidates none
        compared
      rw [hregions] at hcandidates
      rw [hbest] at hclass
      refine (if_neg hskip).trans ?_
      dsimp only [EvaluationState.underLimit, EvaluationContext.withLimit]
      rw [hcandidates]
      dsimp only
      rw [show bestClass (⟨{ context.inputs with findingLimit := limit }, context.before,
        context.after⟩ : EvaluationContext) family candidates none _ = _ from
          bestClass_withLimit context family limit candidates none _, hclass]
      cases best with
      | none => rfl
      | some found => rfl
    cases best with
    | none => exact ⟨({ common.1 with comparison := classified }, common.2), hstep⟩
    | some found =>
      obtain ⟨common', hreport⟩ := report_underLimit family
        ({ common.1 with comparison := classified }, common.2) found
      exact ⟨common', fun limit => (hstep limit).trans (hreport limit)⟩

theorem evaluateSeeds_underLimit (seeds : List AnchorOccurrence)
    (common : EvaluationState × List IntroducedDuplicate) :
    ∃ common', ∀ limit,
      EvaluationState.evaluateSeeds (context.withLimit limit) family anchor occurrences seeds
          (EvaluationState.underLimit common limit)
        = EvaluationState.underLimit common' limit := by
  induction seeds generalizing common with
  | nil => exact ⟨common, fun _ => rfl⟩
  | cons seed seeds ih =>
    obtain ⟨next, hseed⟩ := evaluateSeed_underLimit context family anchor occurrences common seed
    by_cases hincomplete : next.1.comparison.incomplete = true
    · refine ⟨next, fun limit => ?_⟩
      rw [EvaluationState.evaluateSeeds, hseed]
      exact if_pos hincomplete
    · obtain ⟨last, hrest⟩ := ih next
      refine ⟨last, fun limit => ?_⟩
      rw [EvaluationState.evaluateSeeds, hseed]
      exact (if_neg hincomplete).trans (hrest limit)

theorem evaluateGroup_underLimit :
    ∃ common', ∀ limit,
      EvaluationState.evaluateGroup (context.withLimit limit) family anchor occurrences
          (EvaluationState.underLimit common limit)
        = EvaluationState.underLimit common' limit := by
  by_cases hmay : anchorClassMayBeIntroduced context occurrences = true
  · obtain ⟨common', hseeds⟩ :=
      evaluateSeeds_underLimit context family anchor occurrences occurrences common
    exact ⟨common', fun limit => (if_pos hmay).trans (hseeds limit)⟩
  · exact ⟨common, fun limit => if_neg hmay⟩

theorem evaluateGroups_underLimit (groups : List (Str × AnchorKey × List AnchorOccurrence))
    (common : EvaluationState × List IntroducedDuplicate) :
    ∃ common', ∀ limit,
      EvaluationState.evaluateGroups (context.withLimit limit) groups
          (EvaluationState.underLimit common limit)
        = EvaluationState.underLimit common' limit := by
  induction groups generalizing common with
  | nil => exact ⟨common, fun _ => rfl⟩
  | cons group groups ih =>
    obtain ⟨next, hgroup⟩ := evaluateGroup_underLimit context group.1 group.2.1 group.2.2 common
    by_cases hincomplete : next.1.comparison.incomplete = true
    · refine ⟨next, fun limit => ?_⟩
      rw [EvaluationState.evaluateGroups, hgroup]
      exact if_pos hincomplete
    · obtain ⟨last, hrest⟩ := ih next
      refine ⟨last, fun limit => ?_⟩
      rw [EvaluationState.evaluateGroups, hgroup]
      exact (if_neg hincomplete).trans (hrest limit)

omit [Sha256] in
theorem findingsTruncated_observeMalformedView (s : ComparisonState) (view : RegionView) :
    (s.observeMalformedView view).findingsTruncated = s.findingsTruncated := by
  have hloop : ∀ (paths : List RepoPath) (s : ComparisonState),
      (paths.foldl ComparisonState.recordMalformedPath s).findingsTruncated = s.findingsTruncated := by
    intro paths
    induction paths with
    | nil => exact fun _ => rfl
    | cons path paths ih =>
      intro s
      rw [List.foldl_cons, ih]
      rfl
  rw [ComparisonState.observeMalformedView]
  split_ifs
  · rfl
  · exact hloop _ _

/-- What is offered to the report of regions does not depend on the limit. -/
theorem evaluateRegions_underLimit : ∃ common, ∀ limit,
    evaluateRegions (context.withLimit limit) = EvaluationState.underLimit common limit := by
  set comparison := (({} : ComparisonState).observeMalformedView context.before).observeMalformedView
    context.after with hcomparison
  have hunmarked : comparison.findingsTruncated = false := by
    rw [hcomparison, findingsTruncated_observeMalformedView, findingsTruncated_observeMalformedView]
  have hstart : ∀ limit, ({ comparison } : EvaluationState)
      = EvaluationState.underLimit ({ comparison }, []) limit := by
    intro limit
    simp [EvaluationState.underLimit, keptOf, ComparisonState.withTruncated, ← hunmarked]
  by_cases hincomplete : comparison.incomplete = true
  · exact ⟨({ comparison }, []), fun limit => (if_pos hincomplete).trans (hstart limit)⟩
  · obtain ⟨common, hgroups⟩ := evaluateGroups_underLimit context context.after.allGroups
      ({ comparison }, [])
    refine ⟨common, fun limit => (if_neg hincomplete).trans ?_⟩
    show EvaluationState.evaluateGroups (context.withLimit limit) context.after.allGroups
      { comparison } = _
    rw [hstart limit]
    exact hgroups limit

theorem regionFindings_keptOf [Base64] (inputs : RegionInputs) :
    ∃ offered, ∀ limit,
      ((regionFindings { inputs with findingLimit := limit }).findings,
          (regionFindings { inputs with findingLimit := limit }).findingsTruncated)
        = keptOf offered limit := by
  obtain ⟨common, hregions⟩ := evaluateRegions_underLimit (regionViews inputs).1
  refine ⟨common.2, fun limit => ?_⟩
  have hstate : evaluateRegions (regionViews { inputs with findingLimit := limit }).1
      = EvaluationState.underLimit common limit := hregions limit
  show ((evaluateRegions (regionViews { inputs with findingLimit := limit }).1).findings,
    (evaluateRegions (regionViews { inputs with findingLimit := limit }).1).comparison.findingsTruncated)
      = _
  rw [hstate]
  rfl

end Regions

/-! ## Files and callables -/

/-- The identical files under a limit, when `offered` is what went to the report. -/
def IntroducedFiles.underLimit (common : BTreeSet RepoPath × List IntroducedDuplicate)
    (limit : Nat) : IntroducedFiles :=
  ⟨(keptOf common.2 limit).1, common.1, (keptOf common.2 limit).2⟩

section Files

variable [Sha256]

omit [Sha256] in
theorem step_underLimit (beforeGroups : BTreeMap ContentId FileGroup)
    (changedPaths : BTreeSet RepoPath) (common : BTreeSet RepoPath × List IntroducedDuplicate)
    (entry : ContentId × FileGroup) :
    ∃ common', ∀ limit, IntroducedFiles.step beforeGroups changedPaths limit
        (IntroducedFiles.underLimit common limit) entry
      = IntroducedFiles.underLimit common' limit := by
  obtain ⟨suppressed, offered⟩ := common
  set beforePaths := ((beforeGroups.get? entry.1).map FileGroup.paths).getD ∅ with hbefore
  set introduced := entry.2.paths.filter fun path => path ∉ beforePaths with hintroduced
  by_cases hfew : entry.2.paths.size < 2 ∨ entry.2.paths.size ≤ beforePaths.size
  · exact ⟨(suppressed, offered), fun limit => if_pos hfew⟩
  · by_cases hunchanged : introduced.isDisjoint changedPaths = true
    · exact ⟨(suppressed, offered), fun limit => (if_neg hfew).trans (if_pos hunchanged)⟩
    · refine ⟨(suppressed.union introduced, offered
        ++ [identicalFileFinding entry.1 entry.2 beforePaths.size changedPaths]), fun limit => ?_⟩
      have hpush := pushBounded_keptOf offered limit
        (identicalFileFinding entry.1 entry.2 beforePaths.size changedPaths)
      rw [pushBounded] at hpush
      refine (if_neg hfew).trans ((if_neg hunchanged).trans ?_)
      by_cases hfull : limit ≤ (keptOf offered limit).1.length
      · rw [if_pos hfull] at hpush
        refine (if_pos hfull).trans ?_
        simp only [IntroducedFiles.underLimit, ← hpush]
        rfl
      · rw [if_neg hfull] at hpush
        refine (if_neg hfull).trans ?_
        simp only [IntroducedFiles.underLimit, ← hpush]
        rfl

theorem identicalFileFindings_underLimit (before after : SourceSnapshot)
    (changedPaths : BTreeSet RepoPath) (continuity : BTreeMap RepoPath RepoPath)
    (minimumBytes : Nat) :
    ∃ common, ∀ limit,
      identicalFileFindings before after changedPaths continuity minimumBytes limit
        = IntroducedFiles.underLimit common limit := by
  obtain ⟨common, hfiles⟩ := foldl_uniform
    (step_underLimit (fileGroups before minimumBytes continuity) changedPaths)
    (fileGroups after minimumBytes ∅).entries (∅, [])
  refine ⟨common, fun limit => ?_⟩
  have hstart : IntroducedFiles.underLimit (∅, []) limit = {} := by
    simp [IntroducedFiles.underLimit, keptOf]
  rw [identicalFileFindings, ← hstart]
  exact hfiles limit

omit [Sha256] in
theorem callableStep_keptOf (before : CallableGroups) (changedPaths suppressedPaths : BTreeSet RepoPath)
    (offered : List IntroducedDuplicate) (group : Str × Str × List CallableOccurrence) :
    ∃ offered', ∀ limit, callableStep before changedPaths suppressedPaths limit
        (keptOf offered limit) group
      = keptOf offered' limit := by
  obtain ⟨family, digest, after⟩ := group
  set beforeOccurrences := ((before.get? family).bind fun byDigest => byDigest.get? digest).getD []
    with hbefore
  set grewPaths := pathsWithGrowth (tally (beforeOccurrences.map CallableOccurrence.path))
    (tally (after.map CallableOccurrence.path)) with hgrew
  by_cases hfew : after.length < 2 ∨ after.length ≤ beforeOccurrences.length
  · exact ⟨offered, fun limit => if_pos hfew⟩
  · by_cases hcovered : grewPaths.isDisjoint changedPaths
        ∨ (¬ grewPaths.isEmpty ∧ grewPaths.isSubset suppressedPaths)
    · exact ⟨offered, fun limit => (if_neg hfew).trans (if_pos hcovered)⟩
    · refine ⟨offered ++ [callableFinding family digest beforeOccurrences.length after changedPaths],
        fun limit => ?_⟩
      rw [← pushBounded_keptOf]
      exact (if_neg hfew).trans (if_neg hcovered)

omit [Sha256] in
theorem callableFindings_keptOf (before after : CallableGroups)
    (changedPaths suppressedPaths : BTreeSet RepoPath) :
    ∃ offered, ∀ limit, callableFindings before after changedPaths suppressedPaths limit
      = keptOf offered limit := by
  obtain ⟨offered, hcallables⟩ := foldl_uniform
    (callableStep_keptOf before changedPaths suppressedPaths)
    (after.entries.flatMap fun family =>
      family.2.entries.map fun digest => (family.1, digest.1, digest.2)) []
  refine ⟨offered, fun limit => ?_⟩
  have hstart : keptOf ([] : List IntroducedDuplicate) limit = ([], false) := by simp [keptOf]
  rw [callableFindings, ← hstart]
  exact hcallables limit

end Files

/-! ## All duplicates -/

section Duplicates

variable [Sha256] [Base64]

omit [Base64] in
/-- What files and callables leave to the regions: nothing when some of them were dropped. -/
theorem regionInputs_keptOf (inputs : DedupInputs) :
    ∃ (base : RegionInputs) (offered : List IntroducedDuplicate), ∀ limit,
      ({ inputs with findingLimit := limit } : DedupInputs).regionInputs
        = ({ base with
              callableFindings := (keptOf offered limit).1
              findingLimit := limit - (keptOf offered limit).1.length },
            keptOf offered limit) := by
  set changedPaths := canonicalChangedPaths inputs.changedPaths inputs.continuity with hchanged
  obtain ⟨⟨suppressed, files⟩, hfiles⟩ := identicalFileFindings_underLimit inputs.before inputs.after
    changedPaths inputs.continuity inputs.minimumIdenticalBytes
  obtain ⟨callables, hcallables⟩ := callableFindings_keptOf
    (callableView inputs.before inputs.fileFacts inputs.factKeys inputs.continuity).groups
    (callableView inputs.after inputs.fileFacts inputs.factKeys ∅).groups changedPaths suppressed
  refine ⟨⟨suppressed, [], 0, changedPaths, inputs.continuity, inputs.before, inputs.after,
    inputs.fileFacts, inputs.factKeys⟩, files ++ callables, fun limit => ?_⟩
  rw [keptOf_append, DedupInputs.regionInputs]
  dsimp only
  rw [← hchanged, hfiles limit]
  dsimp only [IntroducedFiles.underLimit]
  rw [hcallables]

/-- Under every limit the beginning of one list of duplicates is reported. -/
theorem introducedDuplicates_keptOf (inputs : DedupInputs) :
    ∃ offered, ∀ limit,
      ((introducedDuplicates { inputs with findingLimit := limit }).findings,
          (introducedDuplicates { inputs with findingLimit := limit }).findingsTruncated)
        = keptOf offered limit := by
  by_cases hviews : inputs.before.id = inputs.after.id
  · refine ⟨[], fun limit => ?_⟩
    rw [introducedDuplicates, if_pos hviews]
    simp [identicalSnapshotResult, keptOf]
  · obtain ⟨base, offered, hinputs⟩ := regionInputs_keptOf inputs
    obtain ⟨regions, hregions⟩ := regionFindings_keptOf { base with callableFindings := offered }
    refine ⟨offered ++ regions, fun limit => ?_⟩
    have hresult : ((introducedDuplicates { inputs with findingLimit := limit }).findings,
        (introducedDuplicates { inputs with findingLimit := limit }).findingsTruncated)
          = ((keptOf offered limit).1 ++ (regionFindings
                ({ inputs with findingLimit := limit } : DedupInputs).regionInputs.1).findings,
              (keptOf offered limit).2 || (regionFindings
                ({ inputs with findingLimit := limit } : DedupInputs).regionInputs.1).findingsTruncated) := by
      rw [introducedDuplicates, if_neg hviews]
      dsimp only
      rw [hinputs limit]
    rw [hresult, hinputs limit]
    dsimp only
    by_cases hdropped : limit < offered.length
    · -- no room is left, so it does not matter which callables the regions were told of
      obtain ⟨others, hothers⟩ :=
        regionFindings_keptOf { base with callableFindings := (keptOf offered limit).1 }
      have hnone : limit - (keptOf offered limit).1.length = 0 := by
        rw [keptOf, List.length_take]
        omega
      have hfull : (keptOf offered limit).2 = true := decide_eq_true hdropped
      have hempty := congrArg Prod.fst (hothers 0)
      dsimp only [keptOf, List.take_zero] at hempty
      rw [keptOf_append, hnone, hfull]
      simp only [keptOf, List.take_zero, Bool.true_or]
      exact congrArg (fun found => (_ ++ found, true)) hempty
    · have hall : (keptOf offered limit).1 = offered := List.take_of_length_le (by omega)
      have hregion := hregions (limit - offered.length)
      rw [keptOf_append, hall, ← hregion]

end Duplicates

end Opcore
