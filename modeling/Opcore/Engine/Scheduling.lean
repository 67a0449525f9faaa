/-
  Opcore.Engine.Scheduling

  The assessment does not depend on the order in which workers finish.  What a
  batch has collected is a function of the inputs pushed so far up to their
  order (`Collected`), and finalisation forgets that order: diagnostics and gaps
  are sorted under keys that tell them apart, the rest are counts and flags.
-/
import Opcore.Engine.Evaluation

namespace Opcore

open Text Collections Smallest

/-! ## Pairs and sides -/

/-- Evaluating and then converting is converting what was evaluated. -/
theorem evaluatePair_map {β γ : Type} (f : SourceFile → Except AnalysisError β) (g : β → γ)
    (before after : Option SourceFile) :
    evaluatePair (fun file => (f file).map g) before after
      = (evaluatePair f before after).map fun sides => (sides.1.map g, sides.2.map g) := by
  cases before with
  | none =>
    cases after with
    | none => rfl
    | some a => cases ha : f a <;> simp [evaluatePair, ha, Except.map]
  | some b =>
    cases hb : f b with
    | error e => simp [evaluatePair, hb, Except.map]
    | ok vb =>
      cases after with
      | none => simp [evaluatePair, hb, Except.map]
      | some a => cases ha : f a <;> simp [evaluatePair, hb, ha, Except.map]

/-- A side of an evaluated pair is absent with its file or is the file's result. -/
def SideOf {β : Type} (f : SourceFile → Except AnalysisError β) (file : Option SourceFile)
    (side : Option β) : Prop :=
  (file = none ∧ side = none) ∨ ∃ x value, file = some x ∧ f x = .ok value ∧ side = some value

theorem sideOf_of_evaluatePair {β : Type} {f : SourceFile → Except AnalysisError β}
    {before after : Option SourceFile} {sides : Option β × Option β}
    (h : evaluatePair f before after = .ok sides) :
    SideOf f before sides.1 ∧ SideOf f after sides.2 := by
  cases before with
  | none =>
    cases after with
    | none =>
      cases h
      exact ⟨Or.inl ⟨rfl, rfl⟩, Or.inl ⟨rfl, rfl⟩⟩
    | some a =>
      cases ha : f a with
      | error e => simp [evaluatePair, ha] at h
      | ok va =>
        simp only [evaluatePair, ha, Option.map_some, Option.map_none] at h
        cases h
        exact ⟨Or.inl ⟨rfl, rfl⟩, Or.inr ⟨a, va, rfl, ha, rfl⟩⟩
  | some b =>
    cases hb : f b with
    | error e => simp [evaluatePair, hb] at h
    | ok vb =>
      cases after with
      | none =>
        simp only [evaluatePair, hb, Option.map_some, Option.map_none] at h
        cases h
        exact ⟨Or.inr ⟨b, vb, rfl, hb, rfl⟩, Or.inl ⟨rfl, rfl⟩⟩
      | some a =>
        cases ha : f a with
        | error e => simp [evaluatePair, hb, ha] at h
        | ok va =>
          simp only [evaluatePair, hb, ha, Option.map_some] at h
          cases h
          exact ⟨Or.inr ⟨b, vb, rfl, hb, rfl⟩, Or.inr ⟨a, va, rfl, ha, rfl⟩⟩

/-- Merging one side adds the diagnostics of that side. -/
theorem built_mergeSide {b : BoundedDiagnostics} {all : List EvaluatedDiagnostic}
    (order : HeapOrder) (h : b.Built all) (side : Option (List EvaluatedDiagnostic)) :
    (mergeSide order b (side.map (List.foldl BoundedDiagnostics.push {}))).Built
      (all ++ side.getD []) := by
  cases side with
  | none => simpa [mergeSide] using h
  | some l =>
    have hl := BoundedDiagnostics.built_foldl_push l BoundedDiagnostics.Built.empty
    rw [List.nil_append] at hl
    exact h.merge order hl

/-- Diagnostics of different inputs differ in their paths, those of one input in
    their positions. -/
theorem keysDistinct_flatMap {inputs : List EvaluationInput}
    {f : EvaluationInput → List EvaluatedDiagnostic}
    (hpath : ∀ input, ∀ item ∈ f input, item.diagnostic.path = input.path)
    (horder : ∀ input, ∀ item ∈ f input, ∀ item' ∈ f input,
      item.materializationOrder = item'.materializationOrder → item = item')
    (h : DistinctPaths inputs) :
    KeysDistinct EvaluatedDiagnostic.orderKey (inputs.flatMap f) := by
  intro a ha b hb hkey
  obtain ⟨input, hin, ha⟩ := List.mem_flatMap.mp ha
  obtain ⟨input', hin', hb⟩ := List.mem_flatMap.mp hb
  have hkey' : a.diagnostic.path = b.diagnostic.path ∧ a.diagnostic.ruleId = b.diagnostic.ruleId
      ∧ a.diagnostic.fingerprint = b.diagnostic.fingerprint
      ∧ a.materializationOrder = b.materializationOrder := by
    simpa [EvaluatedDiagnostic.orderKey] using hkey
  have hEq : input = input' :=
    h.eq hin hin' (by rw [← hpath input a ha, ← hpath input' b hb, hkey'.1])
  subst hEq
  exact horder input a ha b hb hkey'.2.2.2

section Scheduling

variable [Sha256] {order : HeapOrder} {load : SourceFile → Except AnalysisError FileFacts}
  {inputs inputs' : List EvaluationInput} {input : EvaluationInput} {batch : AnalysisBatch}

/-! ## What one input contributes -/

variable (load)

/-- The diagnostics of both sides of an input, if it was analysed. -/
def materializedPair (input : EvaluationInput) :
    Except AnalysisError (Option (List EvaluatedDiagnostic) × Option (List EvaluatedDiagnostic)) :=
  evaluatePair (fun file => (load file).map (materialized file)) input.before input.after

def materializedBefore (input : EvaluationInput) : List EvaluatedDiagnostic :=
  match materializedPair load input with
  | .ok (before, _) => before.getD []
  | .error _ => []

def materializedAfter (input : EvaluationInput) : List EvaluatedDiagnostic :=
  match materializedPair load input with
  | .ok (_, after) => after.getD []
  | .error _ => []

/-- The gap a result leaves when there was no analysis. -/
def AnalyzedInput.gap : AnalyzedInput → Option CoverageGap
  | .ready _ _ => none
  | .unsupported path language reason => some ⟨path, .unsupported, language, some reason⟩
  | .cancelled path language =>
    some ⟨path, .incomplete, language, some (ascii "evaluation cancelled")⟩

def AnalyzedInput.isReady : AnalyzedInput → Bool
  | .ready _ _ => true
  | _ => false

def AnalyzedInput.isCancelled : AnalyzedInput → Bool
  | .cancelled _ _ => true
  | _ => false

def gapOf (input : EvaluationInput) : Option CoverageGap :=
  (analyzeInput load input).toOption.bind AnalyzedInput.gap

def isReady (input : EvaluationInput) : Bool :=
  (analyzeInput load input).toOption.any AnalyzedInput.isReady

def isCancelled (input : EvaluationInput) : Bool :=
  (analyzeInput load input).toOption.any AnalyzedInput.isCancelled

/-- What a batch holds after the results of `inputs` were pushed. -/
structure Collected (inputs : List EvaluationInput) (batch : AnalysisBatch) : Prop where
  considered : batch.filesConsidered = inputs.length
  covered : batch.filesCovered = inputs.countP (isReady load)
  gaps : batch.coverageGaps = inputs.filterMap (gapOf load)
  cancelled : batch.cancelled = inputs.any (isCancelled load)
  before : batch.beforeDiagnostics.Built (inputs.flatMap (materializedBefore load))
  after : batch.afterDiagnostics.Built (inputs.flatMap (materializedAfter load))

/-- The analysed pair holds the materialised diagnostics, each side pushed in order. -/
theorem analyzedPair_eq (input : EvaluationInput) :
    evaluatePair (analyzeOne load) input.before input.after
      = (materializedPair load input).map fun sides =>
          (sides.1.map (List.foldl BoundedDiagnostics.push {}),
            sides.2.map (List.foldl BoundedDiagnostics.push {})) := by
  have hone : analyzeOne load = fun file => ((load file).map (materialized file)).map
      (List.foldl BoundedDiagnostics.push {}) := by
    funext file
    rw [analyzeOne]
    cases load file <;> rfl
  rw [hone, evaluatePair_map]
  rfl

theorem collected_empty : Collected load [] {} :=
  ⟨rfl, rfl, rfl, rfl, .empty, .empty⟩

variable {load}

/-- An input that leaves no diagnostics on either side adds none. -/
theorem materialized_of_error {e : AnalysisError} (h : materializedPair load input = .error e) :
    materializedBefore load input = [] ∧ materializedAfter load input = [] := by
  rw [materializedBefore, materializedAfter, h]
  exact ⟨rfl, rfl⟩

theorem Collected.push {result : AnalyzedInput} (order : HeapOrder)
    (hC : Collected load inputs batch) (h : analyzeInput load input = .ok result) :
    Collected load (inputs ++ [input]) (batch.push order result) := by
  have hready : isReady load input = result.isReady := by simp [isReady, h, Except.toOption]
  have hcancelled : isCancelled load input = result.isCancelled := by
    simp [isCancelled, h, Except.toOption]
  have hgap : gapOf load input = result.gap := by simp [gapOf, h, Except.toOption]
  -- the diagnostics of the input
  have hsides : (∃ sides, materializedPair load input = .ok sides ∧
        result = .ready (sides.1.map (List.foldl BoundedDiagnostics.push {}))
          (sides.2.map (List.foldl BoundedDiagnostics.push {})))
      ∨ ((∀ b a, result ≠ .ready b a)
          ∧ materializedBefore load input = [] ∧ materializedAfter load input = []) := by
    rw [analyzeInput, analyzedPair_eq] at h
    split_ifs at h with hnone
    · cases h
      refine Or.inr ⟨by simp, ?_⟩
      simp only [Bool.and_eq_true, Option.isNone_iff_eq_none] at hnone
      rw [materializedBefore, materializedAfter, materializedPair, hnone.1, hnone.2]
      exact ⟨rfl, rfl⟩
    · cases hpair : materializedPair load input with
      | ok sides =>
        rw [hpair] at h
        cases h
        exact Or.inl ⟨sides, rfl, rfl⟩
      | error e =>
        refine Or.inr ⟨fun b a hEq => ?_, materialized_of_error hpair⟩
        rw [hpair, hEq] at h
        cases e <;> simp [Except.map] at h
  rcases hsides with ⟨sides, hpair, rfl⟩ | ⟨hnot, hb, ha⟩
  · have hbefore : materializedBefore load input = sides.1.getD [] := by
      rw [materializedBefore, hpair]
    have hafter : materializedAfter load input = sides.2.getD [] := by
      rw [materializedAfter, hpair]
    refine ⟨?_, ?_, ?_, ?_, ?_, ?_⟩
    · simp [AnalysisBatch.push, hC.considered]
    · simp [AnalysisBatch.push, hC.covered, hready, AnalyzedInput.isReady]
    · simp [AnalysisBatch.push, hC.gaps, hgap, AnalyzedInput.gap]
    · simp [AnalysisBatch.push, hC.cancelled, hcancelled, AnalyzedInput.isCancelled]
    · simp only [List.flatMap_append, List.flatMap_cons, List.flatMap_nil, List.append_nil, hbefore]
      exact built_mergeSide order hC.before sides.1
    · simp only [List.flatMap_append, List.flatMap_cons, List.flatMap_nil, List.append_nil, hafter]
      exact built_mergeSide order hC.after sides.2
  · have hbefore : (batch.push order result).beforeDiagnostics = batch.beforeDiagnostics := by
      cases result with
      | ready b a => exact absurd rfl (hnot b a)
      | unsupported path language reason => rfl
      | cancelled path language => rfl
    have hafter : (batch.push order result).afterDiagnostics = batch.afterDiagnostics := by
      cases result with
      | ready b a => exact absurd rfl (hnot b a)
      | unsupported path language reason => rfl
      | cancelled path language => rfl
    refine ⟨?_, ?_, ?_, ?_, ?_, ?_⟩
    · cases result <;> simp [AnalysisBatch.push, hC.considered]
    · cases result <;> simp_all [AnalysisBatch.push, hC.covered, AnalyzedInput.isReady]
    · cases result <;> simp_all [AnalysisBatch.push, hC.gaps, AnalyzedInput.gap]
    · cases result <;> simp_all [AnalysisBatch.push, hC.cancelled, AnalyzedInput.isCancelled]
    · rw [hbefore]
      simpa [hb] using hC.before
    · rw [hafter]
      simpa [ha] using hC.after

/-! ## Whole runs -/

/-- The error of an input that ends the evaluation. -/
def errorOf (load : SourceFile → Except AnalysisError FileFacts) (input : EvaluationInput) :
    Option AnalysisError :=
  match analyzeInput load input with
  | .ok _ => none
  | .error e => some e

theorem sequentialAnalysis_spec (order : HeapOrder)
    (load : SourceFile → Except AnalysisError FileFacts) (inputs : List EvaluationInput) :
    (∃ e, (inputs.filterMap (errorOf load)).head? = some e
        ∧ sequentialAnalysis order load inputs = .error e)
      ∨ (inputs.filterMap (errorOf load) = []
        ∧ ∃ batch, sequentialAnalysis order load inputs = .ok batch
          ∧ Collected load inputs batch) := by
  have hrun : ∀ (rest done : List EvaluationInput) (batch : AnalysisBatch),
      Collected load done batch →
      (∃ e, (rest.filterMap (errorOf load)).head? = some e
          ∧ rest.foldlM (fun batch input => (analyzeInput load input).map (batch.push order)) batch
            = .error e)
        ∨ (rest.filterMap (errorOf load) = []
          ∧ ∃ batch', rest.foldlM
              (fun batch input => (analyzeInput load input).map (batch.push order)) batch
                = .ok batch' ∧ Collected load (done ++ rest) batch') := by
    intro rest
    induction rest with
    | nil => exact fun done batch hC => Or.inr ⟨rfl, batch, rfl, by simpa using hC⟩
    | cons input rest ih =>
      intro done batch hC
      cases h : analyzeInput load input with
      | error e =>
        refine Or.inl ⟨e, ?_, ?_⟩
        · rw [List.filterMap_cons_some (b := e) (by rw [errorOf, h])]
          rfl
        · rw [List.foldlM_cons, h]
          rfl
      | ok result =>
        rw [List.filterMap_cons_none (by rw [errorOf, h]), List.foldlM_cons, h]
        have hnext := ih (done ++ [input]) _ (hC.push order h)
        rw [List.append_assoc, List.singleton_append] at hnext
        exact hnext
  exact hrun inputs [] {} (collected_empty load)

/-- The shared state of the workers after the jobs finished so far. -/
theorem foldl_workerStep_spec (order : HeapOrder)
    (load : SourceFile → Except AnalysisError FileFacts) (jobs : List (EvaluationInput × Nat))
    (done : List EvaluationInput) (shared : AnalysisBatch × List (Nat × AnalysisError))
    (hC : Collected load done shared.1) :
    Collected load
        (done ++ (jobs.map Prod.fst).filter fun input => (errorOf load input).isNone)
        (jobs.foldl (workerStep order load) shared).1
      ∧ (jobs.foldl (workerStep order load) shared).2
        = shared.2 ++ jobs.filterMap fun job => (errorOf load job.1).map fun e => (job.2, e) := by
  induction jobs generalizing done shared with
  | nil => simpa using hC
  | cons job jobs ih =>
    rw [List.foldl_cons]
    cases h : analyzeInput load job.1 with
    | ok result =>
      have hstep : workerStep order load shared job = (shared.1.push order result, shared.2) := by
        rw [workerStep, h]
      have hnone : errorOf load job.1 = none := by rw [errorOf, h]
      obtain ⟨h₁, h₂⟩ := ih (done ++ [job.1]) (shared.1.push order result, shared.2)
        (hC.push order h)
      rw [hstep]
      refine ⟨by simpa [hnone] using h₁, by simpa [hnone] using h₂⟩
    | error e =>
      have hstep : workerStep order load shared job = (shared.1, shared.2 ++ [(job.2, e)]) := by
        rw [workerStep, h]
      have hsome : errorOf load job.1 = some e := by rw [errorOf, h]
      obtain ⟨h₁, h₂⟩ := ih done (shared.1, shared.2 ++ [(job.2, e)]) hC
      rw [hstep]
      refine ⟨by simpa [hsome] using h₁, by simpa [hsome] using h₂⟩

/-! ## Finalisation forgets the order -/

theorem materialized_path {file : SourceFile} {facts : FileFacts} {item : EvaluatedDiagnostic}
    (h : item ∈ materialized file facts) : item.diagnostic.path = file.path := by
  obtain ⟨⟨raw, n⟩, -, rfl⟩ := List.mem_map.mp h
  rfl

theorem materialized_order {file : SourceFile} {facts : FileFacts}
    {item item' : EvaluatedDiagnostic} (h : item ∈ materialized file facts)
    (h' : item' ∈ materialized file facts)
    (hEq : item.materializationOrder = item'.materializationOrder) : item = item' := by
  obtain ⟨⟨raw, n⟩, hn, rfl⟩ := List.mem_map.mp h
  obtain ⟨⟨raw', n'⟩, hn', rfl⟩ := List.mem_map.mp h'
  obtain rfl : n = n' := hEq
  rw [List.mem_zipIdx_iff_getElem?] at hn hn'
  rw [hn] at hn'
  cases hn'
  rfl

/-- What a side materialises comes from the file of that side. -/
theorem side_materialized {file : Option SourceFile} {side : Option (List EvaluatedDiagnostic)}
    (h : SideOf (fun file => (load file).map (materialized file)) file side) :
    side.getD [] = [] ∨ ∃ x facts, file = some x ∧ load x = .ok facts
      ∧ side.getD [] = materialized x facts := by
  rcases h with ⟨-, rfl⟩ | ⟨x, value, rfl, hx, rfl⟩
  · exact Or.inl rfl
  · simp only at hx
    cases hl : load x with
    | error e =>
      rw [hl] at hx
      cases hx
    | ok facts =>
      rw [hl] at hx
      cases hx
      exact Or.inr ⟨x, facts, rfl, hl, rfl⟩

section

variable (load)

theorem materializedBefore_cases (input : EvaluationInput) :
    materializedBefore load input = []
      ∨ ∃ file facts, input.before = some file ∧ load file = .ok facts
        ∧ materializedBefore load input = materialized file facts := by
  rw [materializedBefore]
  split
  · rename_i before after hpair
    exact side_materialized (sideOf_of_evaluatePair hpair).1
  · exact Or.inl rfl

theorem materializedAfter_cases (input : EvaluationInput) :
    materializedAfter load input = []
      ∨ ∃ file facts, input.after = some file ∧ load file = .ok facts
        ∧ materializedAfter load input = materialized file facts := by
  rw [materializedAfter]
  split
  · rename_i before after hpair
    exact side_materialized (sideOf_of_evaluatePair hpair).2
  · exact Or.inl rfl

theorem path_of_mem_before (input : EvaluationInput) (item : EvaluatedDiagnostic)
    (h : item ∈ materializedBefore load input) : item.diagnostic.path = input.path := by
  rcases materializedBefore_cases load input with hnil | ⟨file, facts, hfile, -, hEq⟩
  · simp [hnil] at h
  · rw [hEq] at h
    rw [materialized_path h, input.before_path file hfile]

theorem path_of_mem_after (input : EvaluationInput) (item : EvaluatedDiagnostic)
    (h : item ∈ materializedAfter load input) : item.diagnostic.path = input.path := by
  rcases materializedAfter_cases load input with hnil | ⟨file, facts, hfile, -, hEq⟩
  · simp [hnil] at h
  · rw [hEq] at h
    rw [materialized_path h, input.after_path file hfile]

end

theorem keysDistinct_before (h : DistinctPaths inputs) :
    KeysDistinct EvaluatedDiagnostic.orderKey (inputs.flatMap (materializedBefore load)) := by
  refine keysDistinct_flatMap (path_of_mem_before load) (fun input item hitem item' hitem' => ?_) h
  rcases materializedBefore_cases load input with hnil | ⟨file, facts, -, -, hEq⟩
  · simp [hnil] at hitem
  · rw [hEq] at hitem hitem'
    exact materialized_order hitem hitem'

theorem keysDistinct_after (h : DistinctPaths inputs) :
    KeysDistinct EvaluatedDiagnostic.orderKey (inputs.flatMap (materializedAfter load)) := by
  refine keysDistinct_flatMap (path_of_mem_after load) (fun input item hitem item' hitem' => ?_) h
  rcases materializedAfter_cases load input with hnil | ⟨file, facts, -, -, hEq⟩
  · simp [hnil] at hitem
  · rw [hEq] at hitem hitem'
    exact materialized_order hitem hitem'

/-- A gap names its input's path. -/
theorem gapOf_path {gap : CoverageGap} (h : gapOf load input = some gap) :
    gap.path = input.path := by
  cases hr : analyzeInput load input with
  | error e => simp [gapOf, hr, Except.toOption] at h
  | ok result =>
    have hgap : result.gap = some gap := by simpa [gapOf, hr, Except.toOption] using h
    rw [analyzeInput] at hr
    split_ifs at hr
    · cases hr
      cases hgap
      rfl
    · split at hr <;> cases hr <;> cases hgap <;> rfl

theorem nodup_gap_paths (h : DistinctPaths inputs) :
    ((inputs.filterMap (gapOf load)).map CoverageGap.path).Nodup := by
  have hsub : ((inputs.filterMap (gapOf load)).map CoverageGap.path).Sublist
      (inputs.map EvaluationInput.path) := by
    clear h
    induction inputs with
    | nil => exact .slnil
    | cons input inputs ih =>
      cases hg : gapOf load input with
      | none =>
        rw [List.filterMap_cons_none hg]
        exact ih.cons _
      | some gap =>
        rw [List.filterMap_cons_some hg, List.map_cons, List.map_cons, gapOf_path hg]
        exact ih.cons_cons _
  exact hsub.nodup h

/-- At most one gap per path, so sorting by path forgets the order of the gaps;
    a gap pushed last stays behind the gaps of its path. -/
theorem sortByKey_gaps_eq (load : SourceFile → Except AnalysisError FileFacts)
    (h : DistinctPaths inputs) (hperm : inputs.Perm inputs')
    (extra : List CoverageGap) :
    sortByKey CoverageGap.path (inputs.filterMap (gapOf load) ++ extra)
      = sortByKey CoverageGap.path (inputs'.filterMap (gapOf load) ++ extra) := by
  refine sortByKey_eq_of_filter fun path => ?_
  rw [List.filter_append, List.filter_append]
  congr 1
  have hp : ((inputs.filterMap (gapOf load)).filter fun gap => gap.path = path).Perm
      ((inputs'.filterMap (gapOf load)).filter fun gap => gap.path = path) :=
    (hperm.filterMap _).filter _
  have hnd : (((inputs.filterMap (gapOf load)).filter fun gap => gap.path = path).map
      CoverageGap.path).Nodup := (nodup_gap_paths h).sublist (List.filter_sublist.map _)
  have hpath : ∀ gap ∈ (inputs.filterMap (gapOf load)).filter (fun gap => gap.path = path),
      gap.path = path := fun gap hgap => by simpa using (List.mem_filter.mp hgap).2
  cases hl : (inputs.filterMap (gapOf load)).filter (fun gap => gap.path = path) with
  | nil =>
    rw [hl] at hp
    exact hp.symm.eq_nil.symm
  | cons a t =>
    cases t with
    | nil =>
      rw [hl] at hp
      exact (List.perm_singleton.mp hp.symm).symm
    | cons b t =>
      rw [hl] at hnd hpath
      have hab : a.path = b.path := by
        rw [hpath a (by simp), hpath b (by simp)]
      simp [hab] at hnd

/-- Two batches that collected the same inputs in different orders are assessed alike. -/
theorem finalizeAssessment_eq {batch' : AnalysisBatch} (request : EvaluationRequest)
    (prepared : PreparedEvaluation) (h : DistinctPaths inputs) (hperm : inputs.Perm inputs')
    (hC : Collected load inputs batch) (hC' : Collected load inputs' batch') :
    finalizeAssessment request prepared batch = finalizeAssessment request prepared batch' := by
  have hbperm : (inputs.flatMap (materializedBefore load)).Perm
      (inputs'.flatMap (materializedBefore load)) := hperm.flatMap_right _
  have haperm : (inputs.flatMap (materializedAfter load)).Perm
      (inputs'.flatMap (materializedAfter load)) := hperm.flatMap_right _
  have h' : DistinctPaths inputs' := (hperm.map _).nodup_iff.mp h
  have hbover : batch.beforeDiagnostics.overflowed = batch'.beforeDiagnostics.overflowed := by
    rw [BoundedDiagnostics.overflowed_of_built hC.before,
      BoundedDiagnostics.overflowed_of_built hC'.before, hbperm.length_eq]
  have haover : batch.afterDiagnostics.overflowed = batch'.afterDiagnostics.overflowed := by
    rw [BoundedDiagnostics.overflowed_of_built hC.after,
      BoundedDiagnostics.overflowed_of_built hC'.after, haperm.length_eq]
  have hbsort : batch.beforeDiagnostics.intoSorted = batch'.beforeDiagnostics.intoSorted := by
    rw [BoundedDiagnostics.intoSorted_of_built hC.before (keysDistinct_before h),
      BoundedDiagnostics.intoSorted_of_built hC'.before (keysDistinct_before h'),
      sortByKey_eq_of_perm (keysDistinct_before h) hbperm]
  have hasort : batch.afterDiagnostics.intoSorted = batch'.afterDiagnostics.intoSorted := by
    rw [BoundedDiagnostics.intoSorted_of_built hC.after (keysDistinct_after h),
      BoundedDiagnostics.intoSorted_of_built hC'.after (keysDistinct_after h'),
      sortByKey_eq_of_perm (keysDistinct_after h) haperm]
  have hconsidered : batch.filesConsidered = batch'.filesConsidered := by
    rw [hC.considered, hC'.considered, hperm.length_eq]
  have hcovered : batch.filesCovered = batch'.filesCovered := by
    rw [hC.covered, hC'.covered, hperm.countP_eq]
  have hcancelled : batch.cancelled = batch'.cancelled := by
    rw [hC.cancelled, hC'.cancelled, hperm.any_eq]
  have hgaps : ∀ (incomplete : Bool) (extra : CoverageGap),
      sortByKey CoverageGap.path
          (if incomplete then batch.coverageGaps ++ [extra] else batch.coverageGaps)
        = sortByKey CoverageGap.path
          (if incomplete then batch'.coverageGaps ++ [extra] else batch'.coverageGaps) := by
    intro incomplete extra
    rw [hC.gaps, hC'.gaps]
    cases incomplete with
    | true => exact sortByKey_gaps_eq load h hperm _
    | false => simpa using sortByKey_gaps_eq load h hperm []
  rw [finalizeAssessment, finalizeAssessment]
  simp only [hgaps, hbover, haover, hbsort, hasort, hconsidered, hcovered, hcancelled]

/-! ## Scheduling is invisible -/

/-- Distinct positions: the error reported is that of the first failing input. -/
theorem head_sortByKey_errors (load : SourceFile → Except AnalysisError FileFacts)
    (inputs : List EvaluationInput) (schedule : List (EvaluationInput × Nat))
    (hschedule : schedule.Perm inputs.zipIdx) :
    ((sortByKey Prod.fst (schedule.filterMap
        fun job => (errorOf load job.1).map fun e => (job.2, e))).head?).map Prod.snd
      = (inputs.filterMap (errorOf load)).head? := by
  have hpos : (inputs.zipIdx.filterMap
      fun job => (errorOf load job.1).map fun e => (job.2, e)).Pairwise
        fun a b : Nat × AnalysisError => a.1 < b.1 := by
    rw [List.pairwise_filterMap]
    have hsorted : inputs.zipIdx.Pairwise fun a b : EvaluationInput × Nat => a.2 < b.2 := by
      have hrange : (inputs.zipIdx.map Prod.snd).Pairwise (· < ·) := by
        rw [List.zipIdx_map_snd]
        exact List.pairwise_lt_range'
      exact List.pairwise_map.mp hrange
    refine hsorted.imp fun {a b} hab x hx y hy => ?_
    obtain ⟨e, -, rfl⟩ := Option.map_eq_some_iff.mp hx
    obtain ⟨e', -, rfl⟩ := Option.map_eq_some_iff.mp hy
    exact hab
  have hkeys : KeysDistinct Prod.fst (inputs.zipIdx.filterMap
      fun job => (errorOf load job.1).map fun e => (job.2, e)) := by
    intro a ha b hb hEq
    exact List.inj_on_of_nodup_map
      (List.pairwise_map.mpr (hpos.imp fun {a b} hab => ne_of_lt hab)) ha hb hEq
  have hsort : sortByKey Prod.fst (schedule.filterMap
      fun job => (errorOf load job.1).map fun e => (job.2, e))
      = inputs.zipIdx.filterMap fun job => (errorOf load job.1).map fun e => (job.2, e) := by
    rw [← sortByKey_eq_of_perm hkeys (hschedule.symm.filterMap _)]
    exact List.Pairwise.insertionSort_eq (hpos.imp fun {a b} hab => hab.le)
  rw [hsort]
  have hmap : (inputs.zipIdx.filterMap fun job => (errorOf load job.1).map fun e => (job.2, e)).map
      Prod.snd = inputs.filterMap (errorOf load) := by
    rw [List.map_filterMap, ← List.zipIdx_map_fst 0 inputs, List.filterMap_map]
    simp [Function.comp_def]
  rw [← hmap, List.head?_map]

/-- The worker pool and the sequential loop lead to the same assessment, or fail
    with the same error, whatever order the workers finish in. -/
theorem parallelAnalysis_eq_sequential {order order' : HeapOrder} (request : EvaluationRequest)
    (prepared : PreparedEvaluation) (h : DistinctPaths inputs)
    (schedule : List (EvaluationInput × Nat)) (hschedule : schedule.Perm inputs.zipIdx) :
    (parallelAnalysis order load schedule).map (finalizeAssessment request prepared)
      = (sequentialAnalysis order' load inputs).map (finalizeAssessment request prepared) := by
  obtain ⟨hC, herrors⟩ := foldl_workerStep_spec order load schedule [] ({}, [])
    (collected_empty load)
  rw [List.nil_append] at hC herrors
  have hhead := head_sortByKey_errors load inputs schedule hschedule
  have hinputs : (schedule.map Prod.fst).Perm inputs := by
    have hmap := hschedule.map Prod.fst
    rwa [List.zipIdx_map_fst] at hmap
  rw [parallelAnalysis]
  simp only [herrors]
  rcases sequentialAnalysis_spec order' load inputs with ⟨e, he, hseq⟩ | ⟨hnone, batch, hseq, hC'⟩
  · rw [he] at hhead
    obtain ⟨⟨n, e'⟩, hfirst, rfl⟩ := Option.map_eq_some_iff.mp hhead
    rw [hfirst, hseq]
  · rw [hnone] at hhead
    have hfirst := Option.map_eq_none_iff.mp hhead
    rw [hfirst, hseq]
    have hall : (schedule.map Prod.fst).filter (fun input => (errorOf load input).isNone)
        = schedule.map Prod.fst := by
      refine List.filter_eq_self.mpr fun input hin => ?_
      have hin' : input ∈ inputs := hinputs.mem_iff.mp hin
      have hnot := List.filterMap_eq_nil_iff.mp hnone input hin'
      rw [hnot, Option.isNone_none]
    rw [hall] at hC
    exact congrArg Except.ok (finalizeAssessment_eq request prepared
      ((hinputs.map _).nodup_iff.mpr h) hinputs hC hC')

end Scheduling

/-- The assessment does not depend on worker scheduling, and a bounded container
    holds the smallest diagnostics it was given however it was built. -/
theorem scheduling_invisible [Sha256] :
    (∀ (order order' : HeapOrder) (load : SourceFile → Except AnalysisError FileFacts)
        (request : EvaluationRequest) (prepared : PreparedEvaluation)
        (inputs : List EvaluationInput) (schedule : List (EvaluationInput × Nat)),
        DistinctPaths inputs → schedule.Perm inputs.zipIdx →
          (parallelAnalysis order load schedule).map (finalizeAssessment request prepared)
            = (sequentialAnalysis order' load inputs).map (finalizeAssessment request prepared))
      ∧ ∀ (b : BoundedDiagnostics) (all : List EvaluatedDiagnostic), b.Built all →
          IsSmallest EvaluatedDiagnostic.orderKey maxDiagnostics b.items all
            ∧ (b.overflowed = true ↔ maxDiagnostics < all.length) := by
  refine ⟨fun order order' load request prepared inputs schedule h hschedule => ?_,
    fun b all hb => ⟨(BoundedDiagnostics.holds_of_built hb).smallest, ?_⟩⟩
  · exact parallelAnalysis_eq_sequential request prepared h schedule hschedule
  · rw [BoundedDiagnostics.overflowed_of_built hb, decide_eq_true_eq]

/-! Two files with a diagnostic each, finished in reverse order. -/

def pathA : RepoPath := samplePath "a.py"

def pathB : RepoPath := samplePath "b.py"

/-- An empty file that only the second view has. -/
def addedInput (path : RepoPath) : EvaluationInput where
  path := path
  before := none
  after := some ⟨path, [], .python, []⟩
  before_path _ h := by cases h
  after_path _ h := by cases h; rfl

def sampleRaw : RawDiagnostic := ⟨ascii "rule", .error, ascii "found", none, ascii "e", ascii "c", ∅⟩

/-- Facts that flag every file. -/
def flagAll (_ : SourceFile) : Except AnalysisError FileFacts := .ok { diagnostics := [sampleRaw] }

def identityHeapOrder : HeapOrder := ⟨id, fun _ => .refl _⟩

def emptyRequest : EvaluationRequest :=
  ⟨none, .new [], .workspace, .introduced, ∅, [], false⟩

theorem scheduling_invisible_reversed :
    letI := identityDigest
    let a := addedInput pathA
    let b := addedInput pathB
    let first := materializeOne ⟨pathA, [], .python, []⟩ sampleRaw 0
    let second := materializeOne ⟨pathB, [], .python, []⟩ sampleRaw 0
    let merged := (({} : BoundedDiagnostics).push second).merge identityHeapOrder
      (({} : BoundedDiagnostics).push first)
    ((sequentialAnalysis identityHeapOrder flagAll [a, b]).map fun batch =>
        (finalizeAssessment emptyRequest {} batch).diagnostics)
      = .ok [first.diagnostic, second.diagnostic]
    ∧ (parallelAnalysis identityHeapOrder flagAll [(b, 1), (a, 0)]).map
        (finalizeAssessment emptyRequest {})
      = (sequentialAnalysis identityHeapOrder flagAll [a, b]).map
        (finalizeAssessment emptyRequest {})
    ∧ IsSmallest EvaluatedDiagnostic.orderKey maxDiagnostics merged.items [second, first]
    ∧ (merged.overflowed = true ↔ maxDiagnostics < 2) := by
  let _ := identityDigest
  intro a b first second merged
  refine ⟨by decide +kernel, ?_,
    scheduling_invisible.2 merged [second, first] (.merge _ (.push _ .empty) (.push _ .empty))⟩
  refine scheduling_invisible.1 _ _ _ _ _ [a, b] [(b, 1), (a, 0)] ?_ ?_
  · show ([a, b].map EvaluationInput.path).Nodup
    decide
  · exact List.Perm.swap (a, 0) (b, 1) []

end Opcore
