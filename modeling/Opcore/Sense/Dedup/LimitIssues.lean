/-
  Opcore.Sense.Dedup.LimitIssues

  What a request says about its duplicate analysis: the coverage of both views and
  the list of issues.  Every limit that the coverage shows is an issue about the same
  view with the same count, and every issue is in the coverage, but for truncations
  of files that the coverage counts as failed or unsupported.
-/
import Opcore.Sense.Dedup.LimitAgreement

namespace Opcore

open Text Collections Smallest Fallible

/-! ## Issues about a view -/

/-- An issue of a kind is about a view. -/
def IssuedAbout (issues : List SenseIssue) (code : Str) (view : SenseView) : Prop :=
  ∃ issue ∈ issues, issue.code = code ∧ view ∈ issue.views

def exactComparisonLimitCode : Str := ascii "dedup_exact_comparison_limit"

section Issues

variable {issues issues' : List SenseIssue} {code : Str} {view : SenseView} {views : List SenseView}
  {affected : AffectedPaths} {spec : LimitIssueSpec} {issue : SenseIssue}
  {state : SnapshotLimitState} {s : ComparisonState}

theorem issuedAbout_append :
    IssuedAbout (issues ++ issues') code view
      ↔ IssuedAbout issues code view ∨ IssuedAbout issues' code view := by
  simp only [IssuedAbout, List.mem_append, or_and_right, exists_or]

/-- The issue of a limit, field by field. -/
theorem fields_of_mem_limitIssue (h : issue ∈ (limitIssue affected spec).toList) :
    0 < affected.count ∧ issue.code = spec.code ∧ issue.views = spec.views
      ∧ issue.processed = some spec.processed := by
  rw [limitIssue] at h
  split_ifs at h with hzero
  · cases h
  · obtain rfl := List.mem_singleton.mp h
    exact ⟨Nat.pos_of_ne_zero hzero, rfl, rfl, rfl⟩

theorem exists_mem_limitIssue (h : 0 < affected.count) :
    ∃ issue, issue ∈ (limitIssue affected spec).toList := by
  rw [limitIssue, if_neg h.ne']
  exact ⟨_, List.mem_singleton_self _⟩

theorem issuedAbout_limitIssue : IssuedAbout (limitIssue affected spec).toList code view
    ↔ 0 < affected.count ∧ spec.code = code ∧ view ∈ spec.views := by
  constructor
  · rintro ⟨issue, hissue, rfl, hview⟩
    obtain ⟨hpos, hcode, hviews, -⟩ := fields_of_mem_limitIssue hissue
    exact ⟨hpos, hcode.symm, hviews ▸ hview⟩
  · rintro ⟨hpos, rfl, hview⟩
    obtain ⟨issue, hissue⟩ := exists_mem_limitIssue hpos
    obtain ⟨-, hcode, hviews, -⟩ := fields_of_mem_limitIssue hissue
    exact ⟨issue, hissue, hcode, hviews.symm ▸ hview⟩

theorem limitIssue_ne_nil : (limitIssue affected spec).toList ≠ [] ↔ 0 < affected.count := by
  constructor
  · intro h
    obtain ⟨issue, hissue⟩ := List.exists_mem_of_ne_nil _ h
    exact (fields_of_mem_limitIssue hissue).1
  · intro hpos
    obtain ⟨issue, hissue⟩ := exists_mem_limitIssue hpos
    exact List.ne_nil_of_mem hissue

/-! ## Issues about a snapshot -/

theorem append_ne_nil {α : Type} {l l' : List α} : l ++ l' ≠ [] ↔ l ≠ [] ∨ l' ≠ [] := by
  rw [ne_eq, List.append_eq_nil_iff, not_and_or]

theorem renderSnapshotLimitIssues_ne_nil : renderSnapshotLimitIssues state views ≠ []
    ↔ (0 < state.callableFiles.count ∨ 0 < state.regionFiles.count)
      ∨ 0 < state.callableRequest.count ∨ 0 < state.regionRequest.count := by
  rw [renderSnapshotLimitIssues, append_ne_nil, append_ne_nil, append_ne_nil, limitIssue_ne_nil,
    limitIssue_ne_nil, limitIssue_ne_nil, limitIssue_ne_nil, or_assoc]

theorem issuedAbout_regionRequest :
    IssuedAbout (renderSnapshotLimitIssues state views) regionRequestLimitCode view
      ↔ view ∈ views ∧ 0 < state.regionRequest.count := by
  have hcallableFile : callableFileLimitCode ≠ regionRequestLimitCode := by decide
  have hregionFile : regionFileLimitCode ≠ regionRequestLimitCode := by decide
  have hcallable : callableRequestLimitCode ≠ regionRequestLimitCode := by decide
  rw [renderSnapshotLimitIssues, issuedAbout_append, issuedAbout_append, issuedAbout_append,
    issuedAbout_limitIssue, issuedAbout_limitIssue, issuedAbout_limitIssue, issuedAbout_limitIssue]
  simp only [hcallableFile, hregionFile, hcallable, false_and, and_false, false_or, true_and]
  exact and_comm

theorem issuedAbout_callableRequest :
    IssuedAbout (renderSnapshotLimitIssues state views) callableRequestLimitCode view
      ↔ view ∈ views ∧ 0 < state.callableRequest.count := by
  have hcallableFile : callableFileLimitCode ≠ callableRequestLimitCode := by decide
  have hregionFile : regionFileLimitCode ≠ callableRequestLimitCode := by decide
  have hregion : regionRequestLimitCode ≠ callableRequestLimitCode := by decide
  rw [renderSnapshotLimitIssues, issuedAbout_append, issuedAbout_append, issuedAbout_append,
    issuedAbout_limitIssue, issuedAbout_limitIssue, issuedAbout_limitIssue, issuedAbout_limitIssue]
  simp only [hcallableFile, hregionFile, hregion, false_and, and_false, or_false, false_or, true_and]
  exact and_comm

/-- The codes a snapshot's limits are reported under. -/
theorem code_of_mem_render (h : issue ∈ renderSnapshotLimitIssues state views) :
    issue.code = callableFileLimitCode ∨ issue.code = regionFileLimitCode
      ∨ issue.code = callableRequestLimitCode ∧ issue.processed = some state.callables
      ∨ issue.code = regionRequestLimitCode ∧ issue.processed = some state.regions := by
  rw [renderSnapshotLimitIssues] at h
  simp only [List.mem_append] at h
  obtain ((h | h) | h) | h := h
  · exact Or.inl (fields_of_mem_limitIssue h).2.1
  · exact Or.inr (Or.inl (fields_of_mem_limitIssue h).2.1)
  · obtain ⟨-, hcode, -, hprocessed⟩ := fields_of_mem_limitIssue h
    exact Or.inr (Or.inr (Or.inl ⟨hcode, hprocessed⟩))
  · obtain ⟨-, hcode, -, hprocessed⟩ := fields_of_mem_limitIssue h
    exact Or.inr (Or.inr (Or.inr ⟨hcode, hprocessed⟩))

theorem not_issuedAbout_exactComparison :
    ¬ IssuedAbout (renderSnapshotLimitIssues state views) exactComparisonLimitCode view := by
  rintro ⟨issue, hissue, hcode, -⟩
  have hcallableFile : callableFileLimitCode ≠ exactComparisonLimitCode := by decide
  have hregionFile : regionFileLimitCode ≠ exactComparisonLimitCode := by decide
  have hcallable : callableRequestLimitCode ≠ exactComparisonLimitCode := by decide
  have hregion : regionRequestLimitCode ≠ exactComparisonLimitCode := by decide
  obtain h | h | ⟨h, -⟩ | ⟨h, -⟩ := code_of_mem_render hissue
  · exact hcallableFile (h.symm.trans hcode)
  · exact hregionFile (h.symm.trans hcode)
  · exact hcallable (h.symm.trans hcode)
  · exact hregion (h.symm.trans hcode)

/-! ## Issues of the comparison -/

theorem code_of_mem_issues (h : issue ∈ s.issues) :
    issue.code = exactComparisonLimitCode ∧ s.limitReached = true ∧ issue.views = s.views.elems
      ∨ issue.code = malformedEvidenceCode ∧ s.malformedEvidence = true := by
  rw [ComparisonState.issues] at h
  obtain h | h := List.mem_append.mp h
  · have h := Option.mem_toList.mp h
    rw [ComparisonState.limitIssue] at h
    split_ifs at h with hreached
    obtain rfl := Option.some.inj h
    exact Or.inl ⟨rfl, by simpa using hreached, rfl⟩
  · have h := Option.mem_toList.mp h
    rw [ComparisonState.malformedIssue] at h
    split_ifs at h with hmalformed
    obtain rfl := Option.some.inj h
    exact Or.inr ⟨rfl, hmalformed⟩

theorem exists_limit_of_limitReached (h : s.limitReached = true) :
    ∃ issue ∈ s.issues, issue.code = exactComparisonLimitCode ∧ issue.views = s.views.elems := by
  obtain ⟨issue, hissue, hcode, hviews⟩ : ∃ issue, s.limitIssue = some issue
      ∧ issue.code = exactComparisonLimitCode ∧ issue.views = s.views.elems := by
    rw [ComparisonState.limitIssue, h]
    exact ⟨_, rfl, rfl, rfl⟩
  refine ⟨issue, ?_, hcode, hviews⟩
  rw [ComparisonState.issues, hissue]
  exact List.mem_append_left _ (List.mem_singleton_self _)

theorem issuedAbout_exactComparison : IssuedAbout s.issues exactComparisonLimitCode view
    ↔ s.limitReached = true ∧ view ∈ s.views := by
  have hcodes : malformedEvidenceCode ≠ exactComparisonLimitCode := by decide
  constructor
  · rintro ⟨issue, hissue, hcode, hview⟩
    obtain ⟨-, hreached, hviews⟩ | ⟨hmalformed, -⟩ := code_of_mem_issues hissue
    · rw [hviews] at hview
      exact ⟨hreached, hview⟩
    · exact absurd (hmalformed.symm.trans hcode) hcodes
  · rintro ⟨hreached, hview⟩
    obtain ⟨issue, hissue, hcode, hviews⟩ := exists_limit_of_limitReached hreached
    exact ⟨issue, hissue, hcode, hviews ▸ hview⟩

/-- The comparison reports no limit of a snapshot. -/
theorem code_ne_of_mem_issues {issue : SenseIssue} (hissue : issue ∈ s.issues) :
    issue.code ≠ regionRequestLimitCode ∧ issue.code ≠ callableRequestLimitCode := by
  obtain ⟨h, -⟩ | ⟨h, -⟩ := code_of_mem_issues hissue
  all_goals
    rw [h]
    decide

theorem not_issuedAbout_request
    (hcode : code = regionRequestLimitCode ∨ code = callableRequestLimitCode) :
    ¬ IssuedAbout s.issues code view := by
  rintro ⟨issue, hissue, rfl, -⟩
  exact hcode.elim (code_ne_of_mem_issues hissue).1 (code_ne_of_mem_issues hissue).2

theorem issues_ne_nil : s.issues ≠ [] ↔ s.limitReached = true ∨ s.malformedEvidence = true := by
  constructor
  · intro h
    obtain ⟨issue, hissue⟩ := List.exists_mem_of_ne_nil _ h
    exact (code_of_mem_issues hissue).imp (fun h => h.2.1) (fun h => h.2)
  · rintro (h | h)
    · obtain ⟨issue, hissue, -⟩ := exists_limit_of_limitReached h
      exact List.ne_nil_of_mem hissue
    · obtain ⟨issue, hissue, -⟩ := (exists_malformedIssue_iff s).mpr h
      exact List.ne_nil_of_mem hissue

end Issues

/-! ## The comparison budget -/

/-- When the budget ran out, the comparison was about some view. -/
def LimitNoted (s : ComparisonState) : Prop := s.limitReached = true → ∃ view, view ∈ s.views

theorem mem_views_recordLimitLocation (s : ComparisonState) (view : RegionView) (file : Nat) :
    view.view ∈ (s.recordLimitLocation view file).views := by
  have hinsert : view.view ∈ s.views.insert view.view := BTreeSet.mem_insert.mpr (Or.inl rfl)
  simp only [ComparisonState.recordLimitLocation]
  split
  · exact hinsert
  · split_ifs
    · exact hinsert
    · exact hinsert

theorem stable_limitNoted : Stable LimitNoted := by
  refine ⟨?_, fun s hs => hs⟩
  intro pair s hs
  rw [spendComparison]
  split_ifs
  · intro _
    exact ⟨_, mem_views_recordLimitLocation _ _ _⟩
  · exact hs

theorem limitReached_foldl (paths : List RepoPath) (s : ComparisonState) :
    (paths.foldl ComparisonState.recordMalformedPath s).limitReached = s.limitReached := by
  induction paths generalizing s with
  | nil => rfl
  | cons path paths ih => exact ih _

theorem limitReached_observeMalformedView (s : ComparisonState) (view : RegionView) :
    (s.observeMalformedView view).limitReached = s.limitReached := by
  rw [ComparisonState.observeMalformedView]
  split_ifs
  · rfl
  · exact limitReached_foldl _ _

theorem limitNoted_evaluateRegions [Sha256] {context : EvaluationContext}
    (hbefore : context.before.Validated) (hafter : context.after.Validated) :
    LimitNoted (evaluateRegions context).comparison := by
  have hstart : LimitNoted ((({} : ComparisonState).observeMalformedView
      context.before).observeMalformedView context.after) := by
    intro hreached
    rw [limitReached_observeMalformedView, limitReached_observeMalformedView] at hreached
    cases hreached
  rw [evaluateRegions]
  split_ifs
  · exact hstart
  · exact stable_evaluateGroups stable_limitNoted hbefore hafter _
      (fun group h => group_of_mem_allGroups h) _ hstart

/-! ## One view -/

section Views

variable {issues : List SenseIssue} {view : SenseView} {regionView : RegionView}
  {callables : FingerprintCoverage} {limits : SnapshotLimitState} {comparison : ComparisonState}
  {masked : Prop}

/-- The coverage of a view, its regions, and the limits computed for its snapshot. -/
structure LimitsAgree (issues : List SenseIssue) (view : SenseView) (regionView : RegionView)
    (callables : FingerprintCoverage) (limits : SnapshotLimitState)
    (coverage : FingerprintCoverage) : Prop where
  regionAnchors : coverage.regionAnchors = regionView.retainedAnchors
    ∧ regionView.retainedAnchors = limits.regions
  regionRequest : regionView.requestTruncated = true
    ↔ IssuedAbout issues regionRequestLimitCode view
  regionProcessed : ∀ issue ∈ issues, issue.code = regionRequestLimitCode → view ∈ issue.views →
    issue.processed = some coverage.regionAnchors
  callableOccurrences : coverage.callableOccurrences = callables.callableOccurrences
    ∧ callables.callableOccurrences = limits.callables
  callableRequest : callables.requestTruncated = true
    ↔ IssuedAbout issues callableRequestLimitCode view
  callableProcessed : ∀ issue ∈ issues, issue.code = callableRequestLimitCode →
    view ∈ issue.views → issue.processed = some coverage.callableOccurrences
  requestTruncated : coverage.requestTruncated = true
    ↔ IssuedAbout issues regionRequestLimitCode view
      ∨ IssuedAbout issues callableRequestLimitCode view
      ∨ IssuedAbout issues exactComparisonLimitCode view

/-- The issues about a view are those of its limits and of the comparison. -/
structure IssuesOf (issues : List SenseIssue) (view : SenseView) (limits : SnapshotLimitState)
    (noted : Prop) : Prop where
  regionRequest : IssuedAbout issues regionRequestLimitCode view ↔ 0 < limits.regionRequest.count
  callableRequest :
    IssuedAbout issues callableRequestLimitCode view ↔ 0 < limits.callableRequest.count
  exactComparison : IssuedAbout issues exactComparisonLimitCode view ↔ noted
  processed : ∀ issue ∈ issues, view ∈ issue.views →
    (issue.code = regionRequestLimitCode → issue.processed = some limits.regions)
      ∧ (issue.code = callableRequestLimitCode → issue.processed = some limits.callables)

theorem views_of_mem_render {views : List SenseView} {issue : SenseIssue}
    (h : issue ∈ renderSnapshotLimitIssues limits views) : issue.views = views := by
  rw [renderSnapshotLimitIssues] at h
  simp only [List.mem_append] at h
  obtain ((h | h) | h) | h := h
  all_goals exact (fields_of_mem_limitIssue h).2.2.1

theorem issuesOf_render {views : List SenseView} (hview : view ∈ views) :
    IssuesOf (renderSnapshotLimitIssues limits views) view limits False := by
  have hcallableFile : callableFileLimitCode ≠ regionRequestLimitCode
      ∧ callableFileLimitCode ≠ callableRequestLimitCode := by decide
  have hregionFile : regionFileLimitCode ≠ regionRequestLimitCode
      ∧ regionFileLimitCode ≠ callableRequestLimitCode := by decide
  have hrequests : callableRequestLimitCode ≠ regionRequestLimitCode := by decide
  refine ⟨?_, ?_, iff_of_false not_issuedAbout_exactComparison id, ?_⟩
  · rw [issuedAbout_regionRequest, and_iff_right hview]
  · rw [issuedAbout_callableRequest, and_iff_right hview]
  · intro issue hissue _
    obtain h | h | ⟨h, hprocessed⟩ | ⟨h, hprocessed⟩ := code_of_mem_render hissue
    · rw [h]
      exact ⟨fun hcode => absurd hcode hcallableFile.1, fun hcode => absurd hcode hcallableFile.2⟩
    · rw [h]
      exact ⟨fun hcode => absurd hcode hregionFile.1, fun hcode => absurd hcode hregionFile.2⟩
    · rw [h]
      exact ⟨fun hcode => absurd hcode hrequests, fun _ => hprocessed⟩
    · rw [h]
      exact ⟨fun _ => hprocessed, fun hcode => absurd hcode.symm hrequests⟩

/-- Issues about the other view say nothing about this one. -/
theorem IssuesOf.append {other : List SenseIssue} {noted : Prop}
    (h : IssuesOf issues view limits noted) (hother : ∀ issue ∈ other, view ∉ issue.views) :
    IssuesOf (issues ++ other) view limits noted := by
  have hnone : ∀ code, ¬ IssuedAbout other code view := by
    rintro code ⟨issue, hissue, -, hview⟩
    exact hother issue hissue hview
  refine ⟨?_, ?_, ?_, ?_⟩
  · rw [issuedAbout_append, or_iff_left (hnone _)]
    exact h.regionRequest
  · rw [issuedAbout_append, or_iff_left (hnone _)]
    exact h.callableRequest
  · rw [issuedAbout_append, or_iff_left (hnone _)]
    exact h.exactComparison
  · intro issue hissue hview
    obtain hissue | hissue := List.mem_append.mp hissue
    · exact h.processed issue hissue hview
    · exact absurd hview (hother issue hissue)

theorem IssuesOf.swap {other : List SenseIssue} {noted : Prop}
    (h : IssuesOf (issues ++ other) view limits noted) :
    IssuesOf (other ++ issues) view limits noted := by
  have hswap : ∀ code, IssuedAbout (other ++ issues) code view
      ↔ IssuedAbout (issues ++ other) code view := by
    intro code
    rw [issuedAbout_append, issuedAbout_append, or_comm]
  refine ⟨(hswap _).trans h.regionRequest, (hswap _).trans h.callableRequest,
    (hswap _).trans h.exactComparison, fun issue hissue => h.processed issue ?_⟩
  exact List.mem_append.mpr (List.mem_append.mp hissue).symm

/-- The issues of the comparison say when its budget ran out, and no other limit. -/
theorem IssuesOf.compared (h : IssuesOf issues view limits False) :
    IssuesOf (issues ++ comparison.issues) view limits
      (comparison.limitReached = true ∧ view ∈ comparison.views) := by
  refine ⟨?_, ?_, ?_, ?_⟩
  · rw [issuedAbout_append, or_iff_left (not_issuedAbout_request (Or.inl rfl))]
    exact h.regionRequest
  · rw [issuedAbout_append, or_iff_left (not_issuedAbout_request (Or.inr rfl))]
    exact h.callableRequest
  · rw [issuedAbout_append, h.exactComparison, false_or]
    exact issuedAbout_exactComparison
  · intro issue hissue hview
    obtain hissue | hissue := List.mem_append.mp hissue
    · exact h.processed issue hissue hview
    · obtain ⟨hregion, hcallable⟩ := code_ne_of_mem_issues hissue
      exact ⟨fun h => absurd h hregion, fun h => absurd h hcallable⟩

theorem limitsAgree_of_issuesOf (hcoverage : CoverageAgrees masked callables limits)
    (hregions : RegionsAgree regionView limits)
    (hissues : IssuesOf issues view limits
      (comparison.limitReached = true ∧ regionView.view ∈ comparison.views)) :
    LimitsAgree issues view regionView callables limits
      ((regionView.coverage comparison).apply callables) := by
  have hregion : regionView.requestTruncated = true
      ↔ IssuedAbout issues regionRequestLimitCode view :=
    hregions.request.trans hissues.regionRequest.symm
  have hcallable : callables.requestTruncated = true
      ↔ IssuedAbout issues callableRequestLimitCode view :=
    hcoverage.request.trans hissues.callableRequest.symm
  refine ⟨⟨rfl, hregions.regions⟩, hregion, ?_, ⟨rfl, hcoverage.callables⟩, hcallable, ?_, ?_⟩
  · intro issue hissue hcode hview
    rw [(hissues.processed issue hissue hview).1 hcode, ← hregions.regions]
    rfl
  · intro issue hissue hcode hview
    rw [(hissues.processed issue hissue hview).2 hcode, ← hcoverage.callables]
    rfl
  · simp only [RegionCoverage.apply, RegionView.coverage, Bool.or_eq_true, Bool.and_eq_true,
      decide_eq_true_eq, hregion, hcallable, hissues.exactComparison]
    exact or_left_comm

/-- A view shows that its analysis is incomplete. -/
def FingerprintCoverage.Incomplete (coverage : FingerprintCoverage) : Prop :=
  0 < coverage.truncatedFiles ∨ coverage.requestTruncated = true ∨ coverage.malformedEvidence = true

theorem incompleteDedup_iff (coverage : DedupCoverage) :
    incompleteDedup coverage = true ↔ coverage.before.Incomplete ∨ coverage.after.Incomplete := by
  simp only [incompleteDedup, FingerprintCoverage.Incomplete, Bool.or_eq_true, decide_eq_true_eq]
  tauto

/-- What makes the coverage of a view incomplete. -/
theorem incomplete_iff (hcoverage : CoverageAgrees masked callables limits)
    (hregions : RegionsAgree regionView limits) (hclean : callables.malformedEvidence = false) :
    ((regionView.coverage comparison).apply callables).Incomplete ∨ masked
      ↔ renderSnapshotLimitIssues limits [view] ≠ []
        ∨ (comparison.limitReached = true ∧ regionView.view ∈ comparison.views)
        ∨ regionView.hasMalformed = true
        ∨ (comparison.malformedEvidence = true ∧ regionView.view ∈ comparison.views) := by
  rw [renderSnapshotLimitIssues_ne_nil, hcoverage.files, ← hcoverage.request, ← hregions.request]
  simp only [FingerprintCoverage.Incomplete, RegionCoverage.apply, RegionView.coverage,
    RegionView.hasMalformed, hclean, Bool.or_eq_true, Bool.and_eq_true, decide_eq_true_eq,
    Bool.false_eq_true, false_or]
  tauto

/-- One view in the place of both: nothing is compared. -/
theorem agrees_of_one (hcoverage : CoverageAgrees masked callables limits)
    (hregions : RegionsAgree regionView limits) (hclean : callables.malformedEvidence = false)
    (hreached : comparison.limitReached = false)
    (hflag : comparison.malformedEvidence = regionView.hasMalformed) :
    (renderSnapshotLimitIssues limits [.before, .after] ++ comparison.issues ≠ []
        ↔ ((regionView.coverage comparison).apply callables).Incomplete ∨ masked)
      ∧ ∀ view, LimitsAgree (renderSnapshotLimitIssues limits [.before, .after] ++ comparison.issues)
          view regionView callables limits ((regionView.coverage comparison).apply callables) := by
  refine ⟨?_, ?_⟩
  · rw [@incomplete_iff .before _ _ _ _ _ hcoverage hregions hclean, append_ne_nil, issues_ne_nil,
      renderSnapshotLimitIssues_ne_nil, renderSnapshotLimitIssues_ne_nil, hreached, hflag]
    simp only [Bool.false_eq_true, false_and, false_or]
    tauto
  · intro view
    have hview : view ∈ [SenseView.before, SenseView.after] := by
      cases view <;> decide
    have hissues := @IssuesOf.compared _ _ _ comparison (@issuesOf_render _ limits _ hview)
    refine limitsAgree_of_issuesOf hcoverage hregions ?_
    simpa only [hreached, Bool.false_eq_true, false_and] using hissues

theorem or_of_noted {r r' l b b' m m' : Prop} (h : l → b ∨ b') :
    (r ∨ r') ∨ l ∨ m ∨ m'
      ↔ (r ∨ (l ∧ b) ∨ m ∨ ((m ∨ m') ∧ b)) ∨ r' ∨ (l ∧ b') ∨ m' ∨ ((m ∨ m') ∧ b') := by
  constructor
  · rintro ((hr | hr) | hl | hm | hm)
    · exact Or.inl (Or.inl hr)
    · exact Or.inr (Or.inl hr)
    · exact (h hl).imp (fun hb => Or.inr (Or.inl ⟨hl, hb⟩)) (fun hb => Or.inr (Or.inl ⟨hl, hb⟩))
    · exact Or.inl (Or.inr (Or.inr (Or.inl hm)))
    · exact Or.inr (Or.inr (Or.inr (Or.inl hm)))
  · rintro ((hr | ⟨hl, -⟩ | hm | ⟨hm, -⟩) | hr | ⟨hl, -⟩ | hm | ⟨hm, -⟩)
    · exact Or.inl (Or.inl hr)
    · exact Or.inr (Or.inl hl)
    · exact Or.inr (Or.inr (Or.inl hm))
    · exact Or.inr (Or.inr hm)
    · exact Or.inl (Or.inr hr)
    · exact Or.inr (Or.inl hl)
    · exact Or.inr (Or.inr (Or.inr hm))
    · exact Or.inr (Or.inr hm)

/-- Two views that were compared. -/
theorem agrees_of_two {before after : RegionView} {callables' : FingerprintCoverage}
    {limits' : SnapshotLimitState} {masked' : Prop} (hbeforeView : before.view = .before)
    (hafterView : after.view = .after) (hcoverage : CoverageAgrees masked callables limits)
    (hregions : RegionsAgree before limits) (hclean : callables.malformedEvidence = false)
    (hcoverage' : CoverageAgrees masked' callables' limits') (hregions' : RegionsAgree after limits')
    (hclean' : callables'.malformedEvidence = false) (hnoted : LimitNoted comparison)
    (hflag : comparison.malformedEvidence = (before.hasMalformed || after.hasMalformed)) :
    let issues := renderSnapshotLimitIssues limits [.before]
      ++ renderSnapshotLimitIssues limits' [.after] ++ comparison.issues
    (issues ≠ []
        ↔ (((before.coverage comparison).apply callables).Incomplete
            ∨ ((after.coverage comparison).apply callables').Incomplete) ∨ masked ∨ masked')
      ∧ LimitsAgree issues .before before callables limits
          ((before.coverage comparison).apply callables)
      ∧ LimitsAgree issues .after after callables' limits'
          ((after.coverage comparison).apply callables') := by
  -- Issues of one view do not name the other.
  have hother : ∀ (l : SnapshotLimitState) (v v' : SenseView), v ≠ v' →
      ∀ issue ∈ renderSnapshotLimitIssues l [v], v' ∉ issue.views := by
    intro l v v' hne issue hissue
    rw [views_of_mem_render hissue, List.mem_singleton]
    exact hne.symm
  refine ⟨?_, ?_, ?_⟩
  · have hbefore := @incomplete_iff .before _ _ _ comparison _ hcoverage hregions
      hclean
    have hafter := @incomplete_iff .after _ _ _ comparison _ hcoverage' hregions'
      hclean'
    have hreached : comparison.limitReached = true →
        .before ∈ comparison.views ∨ .after ∈ comparison.views := by
      intro h
      obtain ⟨view, hview⟩ := hnoted h
      cases view with
      | before => exact Or.inl hview
      | after => exact Or.inr hview
    have hmalformed : comparison.malformedEvidence = true
        ↔ before.hasMalformed = true ∨ after.hasMalformed = true := by
      rw [hflag, Bool.or_eq_true]
    rw [hbeforeView] at hbefore
    rw [hafterView] at hafter
    refine Iff.trans ?_ or_or_or_comm
    rw [append_ne_nil, append_ne_nil, issues_ne_nil, hbefore, hafter, hmalformed]
    exact or_of_noted hreached
  · refine limitsAgree_of_issuesOf hcoverage hregions ?_
    rw [hbeforeView]
    exact ((issuesOf_render (List.mem_singleton_self _)).append
      (hother limits' .after .before (by decide))).compared
  · refine limitsAgree_of_issuesOf hcoverage' hregions' ?_
    rw [hafterView]
    exact ((issuesOf_render (List.mem_singleton_self _)).append
      (hother limits .before .after (by decide))).swap.compared

theorem malformedEvidence_fingerprintCoverage [Sha256] (snapshot : SourceSnapshot)
    (fileFacts : FactMap) (factKeys : FactKeyLookup) :
    (fingerprintCoverage snapshot fileFacts factKeys).malformedEvidence = false := by
  have hstep : ∀ (coverage : FingerprintCoverage) (file : SourceFile),
      (FingerprintCoverage.step fileFacts factKeys coverage file).malformedEvidence
        = coverage.malformedEvidence := by
    intro coverage file
    rw [FingerprintCoverage.step]
    cases lookupFileFact file fileFacts factKeys with
    | none => rfl
    | some found =>
      have hstatus : ∀ c : FingerprintCoverage,
          (recordFingerprintStatus c found.2).malformedEvidence = c.malformedEvidence := by
        intro c
        simp only [recordFingerprintStatus]
        split <;> rfl
      simp only [recordNonRegionCoverage]
      split_ifs
      · exact hstatus _
      · exact hstatus _
  have hfold : ∀ (files : List SourceFile) (coverage : FingerprintCoverage),
      (files.foldl (FingerprintCoverage.step fileFacts factKeys) coverage).malformedEvidence
        = coverage.malformedEvidence := by
    intro files
    induction files with
    | nil => exact fun coverage => rfl
    | cons file files ih => exact fun coverage => (ih _).trans (hstep coverage file)
  exact hfold snapshot.fileList {}

end Views

/-! ## The request -/

section Request

variable [Sha256] [Base64] (inputs : DedupInputs)

namespace DedupInputs

/-- The snapshot that the report about a view is computed from. -/
def reported (view : SenseView) : SourceSnapshot :=
  match view with
  | .before => inputs.before
  | .after => if inputs.before.id = inputs.after.id then inputs.before else inputs.after

/-- `RegionView::new`, as it is called for a view. -/
def regionViewOf (view : SenseView) : RegionView :=
  if inputs.before.id = inputs.after.id then
    (RegionView.new .before inputs.before inputs.fileFacts inputs.factKeys ∅ ∅).1
  else
    match view with
    | .before => (regionViews inputs.regionInputs.1).1.before
    | .after => (regionViews inputs.regionInputs.1).1.after

def malformedFactKeys : BTreeSet FileFactKey :=
  if inputs.before.id = inputs.after.id then
    (validateIdenticalSnapshot inputs.before inputs.fileFacts inputs.factKeys).2.2
  else (regionFindings inputs.regionInputs.1).malformedFactKeys

/-- The limits of a view's snapshot, computed by their own pass. -/
def limitsOf (view : SenseView) : SnapshotLimitState :=
  snapshotLimitState (inputs.reported view) inputs.fileFacts inputs.factKeys inputs.malformedFactKeys

/-- Some reported file has a truncation that the coverage counts as something worse. -/
def HasMasked : Prop :=
  ∃ view, ∃ file ∈ (inputs.reported view).fileList, MaskedFile inputs.fileFacts inputs.factKeys file

end DedupInputs

def DedupCoverage.ofView (coverage : DedupCoverage) (view : SenseView) : FingerprintCoverage :=
  match view with
  | .before => coverage.before
  | .after => coverage.after

/-- The coverage and the issues of a request agree. -/
structure RequestAgrees (inputs : DedupInputs) (result : DedupResult) : Prop where
  incomplete : result.issues ≠ [] ↔ incompleteDedup result.coverage = true ∨ inputs.HasMasked
  callables : ∀ view continuity, (callableView (inputs.reported view) inputs.fileFacts
      inputs.factKeys continuity).coverage
    = fingerprintCoverage (inputs.reported view) inputs.fileFacts inputs.factKeys
  views : ∀ view, LimitsAgree result.issues view (inputs.regionViewOf view)
    (fingerprintCoverage (inputs.reported view) inputs.fileFacts inputs.factKeys)
    (inputs.limitsOf view) (result.coverage.ofView view)

variable {inputs}

/-- The malformed keys of a shared decoding tell the malformed files. -/
theorem tellsMalformed_of_faithful {fileFacts : FactMap} {factKeys : FactKeyLookup}
    {files : List SourceFile} {evidence : DecodedEvidence}
    (hkeys : SharedKeysAgree fileFacts factKeys files)
    (hevidence : evidence.Faithful fileFacts factKeys files)
    (hpresent : ∀ file ∈ files, ∀ factKey facts,
      completeEvidence fileFacts factKeys file = some (factKey, facts) →
        (evidence.get? factKey).isSome) :
    TellsMalformed fileFacts factKeys evidence.malformedFactKeys files :=
  fun file hfile factKey facts hcomplete =>
    RegionView.mem_malformedFactKeys_iff hevidence hkeys hfile hcomplete
      (hpresent file hfile factKey facts hcomplete)

/-- A view keeps its name. -/
theorem view_new (senseView : SenseView) (snapshot : SourceSnapshot) (fileFacts : FactMap)
    (factKeys : FactKeyLookup) (continuity : BTreeMap RepoPath RepoPath)
    (evidence : DecodedEvidence) :
    (RegionView.new senseView snapshot fileFacts factKeys continuity evidence).1.view = senseView := by
  have hstep : ∀ (s : RegionView × DecodedEvidence) (file : SourceFile),
      (RegionView.step fileFacts factKeys continuity s file).1.view = s.1.view := by
    intro s file
    rw [RegionView.step]
    split
    · rfl
    · split_ifs
      · rfl
      · simp only
        split
        · rfl
        · split_ifs <;> rfl
        · rfl
        · rfl
  have hfold : ∀ (files : List SourceFile) (s : RegionView × DecodedEvidence),
      (files.foldl (RegionView.step fileFacts factKeys continuity) s).1.view = s.1.view := by
    intro files
    induction files with
    | nil => exact fun s => rfl
    | cons file files ih => exact fun s => (ih _).trans (hstep s file)
  exact hfold snapshot.fileList ({ view := senseView }, evidence)

omit [Sha256] [Base64] in
/-- The comparison state of two equal views: nothing but malformed evidence. -/
theorem identicalComparison_flags (view : RegionView) :
    let observed := ({} : ComparisonState).observeMalformedView view
    let comparison :=
      if observed.malformedEvidence then { observed with views := observed.views.insert .after }
      else observed
    comparison.limitReached = false ∧ comparison.malformedEvidence = view.hasMalformed := by
  have hreached := limitReached_observeMalformedView {} view
  have hflag := (observeMalformedView_flags {} view).1
  rw [Bool.false_or] at hflag
  simp only
  split_ifs
  · exact ⟨hreached, hflag⟩
  · exact ⟨hreached, hflag⟩

theorem requestAgrees_identical (hid : inputs.before.id = inputs.after.id)
    (hkeys : SharedKeysAgree inputs.fileFacts inputs.factKeys inputs.before.fileList) :
    RequestAgrees inputs (introducedDuplicates inputs) := by
  have hempty : DecodedEvidence.Faithful inputs.fileFacts inputs.factKeys inputs.before.fileList ∅ :=
    ⟨fun factKey state hstate => by cases hstate⟩
  obtain ⟨-, hevidence⟩ := @RegionView.builtFrom_new _ _ _ _ ∅ _ hkeys .before inputs.before
    (fun file hfile => hfile) _ hempty
  have hpresent : ∀ file ∈ inputs.before.fileList, ∀ factKey facts,
      completeEvidence inputs.fileFacts inputs.factKeys file = some (factKey, facts) →
      ((RegionView.new .before inputs.before inputs.fileFacts inputs.factKeys ∅ ∅).2.get?
        factKey).isSome := fun file hfile factKey facts hcomplete =>
    RegionView.isSome_get?_foldl _ _ (Or.inl ⟨file, hfile, facts, hcomplete⟩)
  have htells := tellsMalformed_of_faithful hkeys hevidence hpresent
  have hregions := @regionsAgree _ _ _ _ ∅ _ _ hkeys htells .before inputs.before
    (fun file hfile => hfile) _ hempty
  have hcoverage := @coverageAgrees _ inputs.fileFacts inputs.factKeys inputs.before
    (RegionView.new .before inputs.before inputs.fileFacts inputs.factKeys ∅ ∅).2.malformedFactKeys
  have hclean := malformedEvidence_fingerprintCoverage inputs.before inputs.fileFacts inputs.factKeys
  have hreported : ∀ view, inputs.reported view = inputs.before := by
    intro view
    cases view with
    | before => rfl
    | after => exact if_pos hid
  have hmasked : inputs.HasMasked ↔ ∃ file ∈ inputs.before.fileList,
      MaskedFile inputs.fileFacts inputs.factKeys file := by
    simp only [DedupInputs.HasMasked, hreported]
    exact ⟨fun ⟨_, h⟩ => h, fun h => ⟨.before, h⟩⟩
  have hlimits : ∀ view, inputs.limitsOf view = snapshotLimitState inputs.before inputs.fileFacts
      inputs.factKeys (RegionView.new .before inputs.before inputs.fileFacts inputs.factKeys ∅
        ∅).2.malformedFactKeys := by
    intro view
    rw [DedupInputs.limitsOf, hreported, DedupInputs.malformedFactKeys, if_pos hid]
    rfl
  have hregionView : ∀ view, inputs.regionViewOf view
      = (RegionView.new .before inputs.before inputs.fileFacts inputs.factKeys ∅ ∅).1 :=
    fun view => if_pos hid
  have hresult : introducedDuplicates inputs = identicalSnapshotResult inputs := if_pos hid
  obtain ⟨hreached, hflag⟩ := identicalComparison_flags
    (RegionView.new .before inputs.before inputs.fileFacts inputs.factKeys ∅ ∅).1
  obtain ⟨hincomplete, hviews⟩ := agrees_of_one hcoverage hregions hclean hreached hflag
  rw [hresult]
  refine ⟨?_, fun view continuity => coverage_callableView _ _, ?_⟩
  · rw [incompleteDedup_iff, hmasked]
    exact hincomplete.trans (or_congr_left (or_self_iff).symm)
  · intro view
    rw [hlimits, hregionView, hreported]
    cases view with
    | before => exact hviews .before
    | after => exact hviews .after

theorem requestAgrees_distinct (hid : inputs.before.id ≠ inputs.after.id)
    (hkeys : SharedKeysAgree inputs.fileFacts inputs.factKeys
      (inputs.before.fileList ++ inputs.after.fileList)) :
    RequestAgrees inputs (introducedDuplicates inputs) := by
  obtain ⟨hbefore, hafter, hevidence⟩ := @regionViews_built _ _ inputs.regionInputs.1 hkeys
  have hempty : DecodedEvidence.Faithful inputs.fileFacts inputs.factKeys
      (inputs.before.fileList ++ inputs.after.fileList) ∅ :=
    ⟨fun factKey state hstate => by cases hstate⟩
  have hfirst := (@RegionView.builtFrom_new _ _ _ _ inputs.continuity _ hkeys .before
    inputs.before (fun file hfile => List.mem_append_left _ hfile) _ hempty).2
  -- Both views were read before the limits are told.
  have hpresent : ∀ file ∈ inputs.before.fileList ++ inputs.after.fileList, ∀ factKey facts,
      completeEvidence inputs.fileFacts inputs.factKeys file = some (factKey, facts) →
      ((regionViews inputs.regionInputs.1).2.get? factKey).isSome := by
    intro file hfile factKey facts hcomplete
    refine RegionView.isSome_get?_foldl inputs.after.fileList _ ?_
    obtain hfile | hfile := List.mem_append.mp hfile
    · exact Or.inr (RegionView.isSome_get?_foldl inputs.before.fileList _
        (Or.inl ⟨file, hfile, facts, hcomplete⟩))
    · exact Or.inl ⟨file, hfile, facts, hcomplete⟩
  have htells := tellsMalformed_of_faithful hkeys hevidence hpresent
  have hbeforeRegions := @regionsAgree _ _ _ _ inputs.continuity _ _ hkeys htells .before
    inputs.before (fun file hfile => List.mem_append_left _ hfile) _ hempty
  have hafterRegions := @regionsAgree _ _ _ _ ∅ _ _ hkeys htells .after inputs.after
    (fun file hfile => List.mem_append_right _ hfile) _ hfirst
  have hbeforeCoverage := @coverageAgrees _ inputs.fileFacts inputs.factKeys inputs.before
    (regionViews inputs.regionInputs.1).2.malformedFactKeys
  have hafterCoverage := @coverageAgrees _ inputs.fileFacts inputs.factKeys inputs.after
    (regionViews inputs.regionInputs.1).2.malformedFactKeys
  obtain ⟨hincomplete, hviewBefore, hviewAfter⟩ :=
    agrees_of_two (view_new ..) (view_new ..) hbeforeCoverage hbeforeRegions
      (malformedEvidence_fingerprintCoverage ..) hafterCoverage hafterRegions
      (malformedEvidence_fingerprintCoverage ..)
      (limitNoted_evaluateRegions hbefore.validated hafter.validated)
      (malformedEvidence_evaluateRegions hbefore.validated hafter.validated)
  have hreportedAfter : inputs.reported .after = inputs.after := if_neg hid
  have hmasked : inputs.HasMasked
      ↔ (∃ file ∈ inputs.before.fileList, MaskedFile inputs.fileFacts inputs.factKeys file)
        ∨ ∃ file ∈ inputs.after.fileList, MaskedFile inputs.fileFacts inputs.factKeys file := by
    constructor
    · rintro ⟨view, hview⟩
      cases view with
      | before => exact Or.inl hview
      | after => exact Or.inr (hreportedAfter ▸ hview)
    · rintro (h | h)
      · exact ⟨.before, h⟩
      · exact ⟨.after, hreportedAfter.symm ▸ h⟩
  have hkeysEq : inputs.malformedFactKeys
      = (regionViews inputs.regionInputs.1).2.malformedFactKeys := if_neg hid
  have hregionView : ∀ view, inputs.regionViewOf view = match view with
      | .before => (regionViews inputs.regionInputs.1).1.before
      | .after => (regionViews inputs.regionInputs.1).1.after := fun view => if_neg hid
  rw [introducedDuplicates, if_neg hid]
  simp only [coverage_callableView]
  refine ⟨?_, fun view continuity => coverage_callableView _ _, ?_⟩
  · rw [incompleteDedup_iff, hmasked]
    exact hincomplete
  · intro view
    rw [DedupInputs.limitsOf, hkeysEq, hregionView]
    cases view with
    | before => exact hviewBefore
    | after =>
      rw [hreportedAfter]
      exact hviewAfter

/-- Duplicate analysis says the same in its coverage and in its issues: it is
    incomplete exactly when there is an issue, but for masked truncations; and the
    counts and truncations of both views are those of the limits. -/
theorem introducedDuplicates_agree (inputs : DedupInputs)
    (hkeys : SharedKeysAgree inputs.fileFacts inputs.factKeys
      (inputs.before.fileList ++ inputs.after.fileList)) :
    RequestAgrees inputs (introducedDuplicates inputs) := by
  by_cases hid : inputs.before.id = inputs.after.id
  · refine requestAgrees_identical hid fun file hfile other hother => ?_
    exact hkeys file (List.mem_append_left _ hfile) other (List.mem_append_left _ hother)
  · exact requestAgrees_distinct hid hkeys

/-- A file whose callables were truncated and whose regions are not supported. -/
def maskedFile : SourceFile := ⟨samplePath "a.ts", ascii "x", .typeScript, []⟩

def maskedInputs : DedupInputs where
  before := .new []
  after := .new [maskedFile]
  fileFacts := BTreeMap.ofList [(factKey maskedFile [],
    { callableFingerprints := { status := .truncated, callables := [] } })]
  factKeys := BTreeMap.ofList [(maskedFile.contentId, BTreeMap.ofList [([], factKey maskedFile [])])]
  changedPaths := ∅
  continuity := ∅
  minimumIdenticalBytes := 1
  findingLimit := maxSenseFindings

end Request

theorem sharedKeysAgree_maskedInputs :
    letI := identityDigest
    SharedKeysAgree maskedInputs.fileFacts maskedInputs.factKeys
      (maskedInputs.before.fileList ++ maskedInputs.after.fileList) := by
  let := identityDigest
  have hbytes : ∀ file ∈ maskedInputs.before.fileList ++ maskedInputs.after.fileList,
      file.bytes = ascii "x" := by decide +kernel
  intro file hfile other hother _ _ _ _ _
  rw [hbytes file hfile, hbytes other hother]

theorem introducedDuplicates_agree_masked :
    letI := identityDigest
    letI := plainBase64
    RequestAgrees maskedInputs (introducedDuplicates maskedInputs) :=
  @introducedDuplicates_agree identityDigest plainBase64 (@maskedInputs identityDigest)
    sharedKeysAgree_maskedInputs

/-- An issue is reported about the truncated callables, but the coverage counts the file as
    unsupported. -/
theorem not_forall_incomplete_iff_issues :
    letI := identityDigest
    letI := plainBase64
    ¬ ∀ inputs : DedupInputs,
      SharedKeysAgree inputs.fileFacts inputs.factKeys
        (inputs.before.fileList ++ inputs.after.fileList) →
      (incompleteDedup (introducedDuplicates inputs).coverage = true
        ↔ (introducedDuplicates inputs).issues ≠ []) := by
  intro hforall
  have hcomplete : letI := identityDigest
      letI := plainBase64
      incompleteDedup (introducedDuplicates maskedInputs).coverage = false := by decide +kernel
  have hissues : letI := identityDigest
      letI := plainBase64
      (introducedDuplicates maskedInputs).issues ≠ [] := by decide +kernel
  have hiff := hforall (@maskedInputs identityDigest) sharedKeysAgree_maskedInputs
  rw [hcomplete] at hiff
  exact Bool.false_ne_true (hiff.mpr hissues)

end Opcore
