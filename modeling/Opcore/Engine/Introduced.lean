/-
  Opcore.Engine.Introduced

  The introduced comparison is a multiset difference along file continuity:
  under each path and comparison key, as many diagnostics are reported as the
  second view has more than the first view had at the path the file came from.
-/
import Opcore.Engine.Scheduling
import Opcore.Library.Fallible

namespace Opcore

open Text Collections Smallest

/-- The diagnostics with a path and a comparison key. -/
def countAt (items : List EvaluatedDiagnostic) (path : RepoPath) (key : Str) : Nat :=
  items.countP fun item => item.diagnostic.path = path ∧ item.comparisonKey = key

theorem countAt_perm {items items' : List EvaluatedDiagnostic} (h : items.Perm items')
    (path : RepoPath) (key : Str) : countAt items path key = countAt items' path key :=
  h.countP_eq _

/-! ## Two credits -/

theorem countKey_eq_iff {item : EvaluatedDiagnostic} {path : RepoPath} {key : Str} :
    countKey item = toLex (path, key) ↔ item.diagnostic.path = path ∧ item.comparisonKey = key := by
  simp [countKey]

theorem countAt_introduced (candidates subtract : List EvaluatedDiagnostic)
    (continuity : BTreeMap RepoPath RepoPath) (path : RepoPath) (key : Str) :
    countAt (introduced candidates subtract continuity) path key
      = countAt candidates path key - countAt subtract path key
        - subtract.countP fun item =>
            continuity.get? item.diagnostic.path = some path ∧ item.comparisonKey = key := by
  have hcount : ∀ item : EvaluatedDiagnostic,
      decide (item.diagnostic.path = path ∧ item.comparisonKey = key) = true
        ↔ countKey item = toLex (path, key) :=
    fun item => decide_eq_true_iff.trans countKey_eq_iff.symm
  have hkey : ∀ k, decide ((ofLex k).1 = path ∧ (ofLex k).2 = key) = true ↔ k = toLex (path, key) := by
    intro k
    rw [decide_eq_true_iff, ← Prod.mk.injEq, ← toLex_inj]
    rfl
  have hexact : ((tally (subtract.map countKey)).get? (toLex (path, key))).getD 0
      = countAt subtract path key := by
    rw [getD_get?_tally hkey, List.countP_map]
    rfl
  have halias : ((tally (subtract.filterMap (aliasKey continuity))).get? (toLex (path, key))).getD 0
      = subtract.countP fun item =>
          continuity.get? item.diagnostic.path = some path ∧ item.comparisonKey = key := by
    rw [getD_get?_tally hkey, List.countP_filterMap]
    congr 1
    funext item
    rw [aliasKey]
    cases continuity.get? item.diagnostic.path with
    | none => simp
    | some q =>
      rw [Bool.eq_iff_iff]
      simp only [Option.map_some, Option.getD_some, decide_eq_true_iff, Option.some.injEq,
        ofLex_toLex]
      exact decide_eq_true_iff
  rw [countAt, introduced, countP_uncredited hcount, countP_uncredited hcount, hexact, halias]
  rfl

theorem countAt_introduced_perm {candidates candidates' subtract subtract' : List EvaluatedDiagnostic}
    (hc : candidates.Perm candidates') (hs : subtract.Perm subtract')
    (continuity : BTreeMap RepoPath RepoPath) (path : RepoPath) (key : Str) :
    countAt (introduced candidates subtract continuity) path key
      = countAt (introduced candidates' subtract' continuity) path key := by
  rw [countAt_introduced, countAt_introduced, countAt_perm hc, countAt_perm hs, hs.countP_eq]

theorem introduced_sublist (candidates subtract : List EvaluatedDiagnostic)
    (continuity : BTreeMap RepoPath RepoPath) :
    (introduced candidates subtract continuity).Sublist candidates :=
  (uncredited_sublist _ _).trans (uncredited_sublist _ _)

theorem eq_nil_of_countAt_eq_zero {items : List EvaluatedDiagnostic}
    (h : ∀ item ∈ items, countAt items item.diagnostic.path item.comparisonKey = 0) :
    items = [] := by
  refine List.eq_nil_iff_forall_not_mem.mpr fun item hitem => ?_
  exact List.countP_eq_zero.mp (h item hitem) item hitem (decide_eq_true ⟨rfl, rfl⟩)

/-! ## Counting at one path -/

theorem countAt_flatMap_of_mem {inputs : List EvaluationInput} {input : EvaluationInput}
    {f : EvaluationInput → List EvaluatedDiagnostic}
    (hf : ∀ input, ∀ item ∈ f input, item.diagnostic.path = input.path)
    (h : DistinctPaths inputs) (hin : input ∈ inputs) (key : Str) :
    countAt (inputs.flatMap f) input.path key = countAt (f input) input.path key := by
  -- an input with another path has nothing to count
  have hother : ∀ input' : EvaluationInput, input'.path ≠ input.path →
      countAt (f input') input.path key = 0 := fun input' hne =>
    List.countP_eq_zero.mpr fun item hitem hEq =>
      hne ((hf input' item hitem).symm.trans (of_decide_eq_true hEq).1)
  induction inputs with
  | nil => cases hin
  | cons head tail ih =>
    rw [DistinctPaths, List.map_cons, List.nodup_cons] at h
    rw [List.flatMap_cons, countAt, List.countP_append]
    rcases List.mem_cons.mp hin with rfl | htail
    · have hzero : countAt (tail.flatMap f) input.path key = 0 := by
        refine List.countP_eq_zero.mpr fun item hitem hEq => ?_
        obtain ⟨input', hin', hmem⟩ := List.mem_flatMap.mp hitem
        refine h.1 (List.mem_map.mpr ⟨input', hin', ?_⟩)
        rw [← hf input' item hmem, (of_decide_eq_true hEq).1]
      exact Nat.add_eq_left.mpr hzero
    · have hne : head.path ≠ input.path := fun hEq =>
        h.1 (hEq ▸ List.mem_map_of_mem (f := EvaluationInput.path) htail)
      have := ih h.2 htail
      rw [countAt] at this
      rw [this]
      exact Nat.add_eq_right.mpr (hother head hne)

/-! ## Renames of paths -/

/-- What a pure rename keeps of a file. -/
def SourceFile.content (file : SourceFile) : Str × Language × Str :=
  (file.bytes, file.language, file.languageMode)

/-- The second view has every file of the first at the path `σ` moves it to, and
    no other file; the evaluated paths are moved among themselves. -/
structure Renaming (request : EvaluationRequest) (σ : Equiv.Perm RepoPath) : Prop where
  evaluated : ∀ p, σ p ∈ evaluationPaths request ↔ p ∈ evaluationPaths request
  content : ∀ p, (request.after.read (σ p)).map SourceFile.content
    = (request.baseline p).map SourceFile.content

/-- A moved file lands on a path that held no file. -/
def Vacant (request : EvaluationRequest) (σ : Equiv.Perm RepoPath) : Prop :=
  ∀ p, σ p ≠ p → request.baseline p ≠ none → request.baseline (σ p) = none

namespace Renaming

variable {request : EvaluationRequest} {σ : Equiv.Perm RepoPath} {p : RepoPath} {file : SourceFile}

theorem after_of_baseline (h : Renaming request σ) (hp : request.baseline p = some file) :
    ∃ file', request.after.read (σ p) = some file' ∧ file'.content = file.content := by
  have hcontent := h.content p
  rw [hp, Option.map_some, Option.map_eq_some_iff] at hcontent
  exact hcontent

theorem baseline_of_after (h : Renaming request σ) (hp : request.after.read (σ p) = some file) :
    ∃ file', request.baseline p = some file' ∧ file'.content = file.content := by
  have hcontent := h.content p
  rw [hp, Option.map_some, eq_comm, Option.map_eq_some_iff] at hcontent
  exact hcontent

/-- A moved file leaves its path empty. -/
theorem after_eq_none (h : Renaming request σ) (hvacant : Vacant request σ)
    (hp : request.baseline p ≠ none) (hmoved : σ p ≠ p) : request.after.read p = none := by
  by_contra hne
  obtain ⟨file, hfile⟩ := Option.ne_none_iff_exists'.mp hne
  have hq : σ (σ.symm p) = p := σ.apply_symm_apply p
  rw [← hq] at hfile
  obtain ⟨file', hfile', -⟩ := h.baseline_of_after hfile
  refine hp (hq ▸ hvacant (σ.symm p) (fun hfix => hmoved ?_) (by simp [hfile']))
  rw [hq] at hfix
  exact (congrArg σ hfix).trans hq

theorem language_eq {file file' : SourceFile} (h : file.content = file'.content) :
    file.language = file'.language :=
  congrArg (fun c => c.2.1) h

theorem continuityKey_eq [Sha256] {file file' : SourceFile} (h : file.content = file'.content) :
    continuityKey file = continuityKey file' := by
  rw [SourceFile.content, SourceFile.content, Prod.mk.injEq, Prod.mk.injEq] at h
  rw [continuityKey, continuityKey, SourceFile.contentId, SourceFile.contentId, h.1, h.2.1, h.2.2]

end Renaming

/-! ## Preparation -/

variable {request : EvaluationRequest}

theorem foldlM_readState {cancelled : RepoPath → Bool} {paths : List RepoPath} {s s' : ReadState}
    (h : paths.foldlM (ReadState.step cancelled request) s = .ok s') :
    s'.inputs = s.inputs ++ paths.map (evaluationInput request) := by
  induction paths generalizing s with
  | nil =>
    cases h
    simp
  | cons path paths ih =>
    rw [List.foldlM_cons] at h
    cases hstep : ReadState.step cancelled request s path with
    | error e =>
      rw [hstep] at h
      cases h
    | ok s₁ =>
      rw [hstep] at h
      have hrest := ih h
      rw [ReadState.step] at hstep
      split_ifs at hstep
      · simp only at hstep
        split_ifs at hstep
        cases hstep
        rw [hrest]
        simp

theorem distinctPaths_evaluationInputs (request : EvaluationRequest) :
    DistinctPaths ((evaluationPaths request).elems.map (evaluationInput request)) := by
  rw [DistinctPaths, List.map_map]
  have hid : EvaluationInput.path ∘ evaluationInput request = id := rfl
  rw [hid, List.map_id]
  exact (evaluationPaths request).nodup_elems

section Introduced

variable [Sha256] {load : SourceFile → Except AnalysisError FileFacts}
  {inputs : List EvaluationInput} {request : EvaluationRequest} {prepared : PreparedEvaluation}
  {cancelled : RepoPath → Bool}

theorem prepareEvaluation_spec (h : prepareEvaluation cancelled request = .ok prepared) :
    prepared.inputs = (evaluationPaths request).elems.map (evaluationInput request)
      ∧ prepared.pathContinuity = pathContinuity request.comparison prepared.inputs := by
  rw [prepareEvaluation] at h
  split_ifs at h
  cases hs : (evaluationPaths request).elems.foldlM (ReadState.step cancelled request) {} with
  | error e =>
    rw [hs] at h
    cases h
  | ok s =>
    rw [hs] at h
    cases h
    exact ⟨by simpa using foldlM_readState hs, rfl⟩

/-- Whatever the schedule, the batch collected the inputs in some order. -/
theorem collected_of_runAnalysis {order : HeapOrder} {workers : Schedule} {batch : AnalysisBatch}
    (h : runAnalysis order workers load inputs = .ok batch) :
    ∃ inputs', inputs'.Perm inputs ∧ Collected load inputs' batch := by
  rw [runAnalysis] at h
  split_ifs at h
  · rcases sequentialAnalysis_spec order load inputs with ⟨e, -, hseq⟩ | ⟨-, batch', hseq, hC⟩
    · rw [hseq] at h
      cases h
    · rw [hseq] at h
      cases h
      exact ⟨inputs, .refl _, hC⟩
  · have hperm := workers.perm inputs.zipIdx
    obtain ⟨hC, herrors⟩ := foldl_workerStep_spec order load (workers.finish inputs.zipIdx) []
      ({}, []) (collected_empty load)
    rw [List.nil_append] at hC herrors
    rw [parallelAnalysis] at h
    simp only [herrors] at h
    split at h
    · cases h
    · rename_i hnone
      cases h
      have hnil := List.head?_eq_none_iff.mp hnone
      have hempty : (workers.finish inputs.zipIdx).filterMap
          (fun job => (errorOf load job.1).map fun e => (job.2, e)) = [] := by
        have hp := sortByKey_perm Prod.fst ((workers.finish inputs.zipIdx).filterMap
          fun job => (errorOf load job.1).map fun e => (job.2, e))
        rw [hnil] at hp
        exact hp.symm.eq_nil
      have hall : ((workers.finish inputs.zipIdx).map Prod.fst).filter
          (fun input => (errorOf load input).isNone) = (workers.finish inputs.zipIdx).map Prod.fst := by
        refine List.filter_eq_self.mpr fun input hin => ?_
        obtain ⟨job, hjob, rfl⟩ := List.mem_map.mp hin
        have := List.filterMap_eq_nil_iff.mp hempty job hjob
        simpa using this
      rw [hall] at hC
      refine ⟨_, ?_, hC⟩
      have hmap := hperm.map Prod.fst
      rwa [List.zipIdx_map_fst] at hmap

/-! ## The formula -/

section Formula

variable (h : prepareEvaluation cancelled request = .ok prepared)
  {candidates : List EvaluatedDiagnostic} {p q : RepoPath}

include h

/-- Every materialised prior diagnostic comes from a file of the first view. -/
theorem baseline_of_mem_before {item : EvaluatedDiagnostic}
    (hitem : item ∈ prepared.inputs.flatMap (materializedBefore load)) :
    request.baseline item.diagnostic.path ≠ none := by
  obtain ⟨input, hin, hmem⟩ := List.mem_flatMap.mp hitem
  rw [(prepareEvaluation_spec h).1] at hin
  obtain ⟨p, -, rfl⟩ := List.mem_map.mp hin
  rcases materializedBefore_cases load (evaluationInput request p) with
    hnil | ⟨file, facts, hfile, -, -⟩
  · simp [hnil] at hmem
  · rw [path_of_mem_before load _ item hmem]
    exact fun hnone => by cases hfile.symm.trans hnone

/-- A path that the first view does not have has no diagnostics of its own there. -/
theorem countAt_before_eq_zero (hp : request.baseline p = none) (key : Str) :
    countAt (prepared.inputs.flatMap (materializedBefore load)) p key = 0 := by
  refine List.countP_eq_zero.mpr fun item hitem heq => ?_
  refine baseline_of_mem_before h hitem ?_
  rw [(of_decide_eq_true heq).1, hp]

/-- Continuity leads to paths that the first view does not have. -/
theorem baseline_of_continuity
    (hcontinuity : IsContinuity prepared.inputs prepared.pathContinuity)
    (hq : prepared.pathContinuity.get? q = some p) : request.baseline p = none := by
  obtain ⟨key, -, hadded⟩ := hcontinuity.joins q p hq
  obtain ⟨input, hin, rfl, hnone, -⟩ := mem_addedAt.mp hadded
  rw [(prepareEvaluation_spec h).1] at hin
  obtain ⟨p', -, rfl⟩ := List.mem_map.mp hin
  exact hnone

/-- The path whose prior diagnostics are subtracted at `p`: `p` itself where the
    first view has it, else the path whose content moved to `p`. -/
def Origin (request : EvaluationRequest) (continuity : BTreeMap RepoPath RepoPath)
    (p q : RepoPath) : Prop :=
  (request.baseline p ≠ none ∧ q = p) ∨ (request.baseline p = none ∧ continuity.get? q = some p)

theorem countAt_introduced_origin
    (hcontinuity : IsContinuity prepared.inputs prepared.pathContinuity)
    (hq : Origin request prepared.pathContinuity p q) (key : Str) :
    countAt (introduced candidates (prepared.inputs.flatMap (materializedBefore load))
        prepared.pathContinuity) p key
      = countAt candidates p key
        - countAt (prepared.inputs.flatMap (materializedBefore load)) q key := by
  rw [countAt_introduced]
  rcases hq with ⟨hp, rfl⟩ | ⟨hp, hget⟩
  · -- a path of the first view is no target of continuity
    have halias : (prepared.inputs.flatMap (materializedBefore load)).countP (fun item =>
        prepared.pathContinuity.get? item.diagnostic.path = some q ∧ item.comparisonKey = key) = 0 := by
      refine List.countP_eq_zero.mpr fun item _ hitem => hp ?_
      exact baseline_of_continuity h hcontinuity (of_decide_eq_true hitem).1
    rw [halias, Nat.sub_zero]
  · have halias : (prepared.inputs.flatMap (materializedBefore load)).countP (fun item =>
        prepared.pathContinuity.get? item.diagnostic.path = some p ∧ item.comparisonKey = key)
          = countAt (prepared.inputs.flatMap (materializedBefore load)) q key := by
      refine List.countP_congr fun item _ => ?_
      rw [decide_eq_true_iff, decide_eq_true_iff]
      refine and_congr_left fun _ => ⟨fun hsome => ?_, fun hEq => by rw [hEq, hget]⟩
      exact hcontinuity.injective _ _ _ hsome hget
    rw [countAt_before_eq_zero h hp, halias, Nat.sub_zero]

theorem countAt_introduced_new
    (hnew : ∀ q, ¬ Origin request prepared.pathContinuity p q) (key : Str) :
    countAt (introduced candidates (prepared.inputs.flatMap (materializedBefore load))
        prepared.pathContinuity) p key = countAt candidates p key := by
  have hp : request.baseline p = none := by
    by_contra hne
    exact hnew p (Or.inl ⟨hne, rfl⟩)
  rw [countAt_introduced]
  have halias : (prepared.inputs.flatMap (materializedBefore load)).countP (fun item =>
      prepared.pathContinuity.get? item.diagnostic.path = some p ∧ item.comparisonKey = key) = 0 :=
    List.countP_eq_zero.mpr fun item _ hitem =>
      hnew _ (Or.inr ⟨hp, (of_decide_eq_true hitem).1⟩)
  rw [countAt_before_eq_zero h hp, halias, Nat.sub_zero, Nat.sub_zero]

end Formula

/-! ## The evaluated diagnostics -/

/-- Without overflow the comparison runs over all materialised diagnostics. -/
theorem diagnostics_of_evaluate {order : HeapOrder} {workers : Schedule} {assessment : Assessment}
    (hcomparison : request.comparison = .introduced)
    (hpublic : request.publicFingerprintComparison = false)
    (hprepared : prepareEvaluation cancelled request = .ok prepared)
    (heval : evaluate order workers load cancelled request = .ok assessment)
    (hbefore : (prepared.inputs.flatMap (materializedBefore load)).length ≤ maxDiagnostics)
    (hafter : (prepared.inputs.flatMap (materializedAfter load)).length ≤ maxDiagnostics) :
    ∃ candidates subtract : List EvaluatedDiagnostic,
      candidates.Perm (prepared.inputs.flatMap (materializedAfter load))
        ∧ subtract.Perm (prepared.inputs.flatMap (materializedBefore load))
        ∧ assessment.diagnostics
          = (introduced candidates subtract prepared.pathContinuity).map
            EvaluatedDiagnostic.diagnostic := by
  rw [evaluate, hprepared] at heval
  simp only at heval
  cases hrun : runAnalysis order workers load prepared.inputs with
  | error e =>
    rw [hrun] at heval
    cases heval
  | ok batch =>
    rw [hrun] at heval
    cases heval
    obtain ⟨inputs', hperm, hC⟩ := collected_of_runAnalysis hrun
    have hdistinct : DistinctPaths prepared.inputs := by
      rw [(prepareEvaluation_spec hprepared).1]
      exact distinctPaths_evaluationInputs request
    have hdistinct' : DistinctPaths inputs' := (hperm.map _).nodup_iff.mpr hdistinct
    have hb : (inputs'.flatMap (materializedBefore load)).Perm
        (prepared.inputs.flatMap (materializedBefore load)) := hperm.flatMap_right _
    have ha : (inputs'.flatMap (materializedAfter load)).Perm
        (prepared.inputs.flatMap (materializedAfter load)) := hperm.flatMap_right _
    have hover : batch.beforeDiagnostics.overflowed = false := by
      rw [BoundedDiagnostics.overflowed_of_built hC.before, hb.length_eq]
      exact decide_eq_false (by omega)
    refine ⟨batch.afterDiagnostics.intoSorted, batch.beforeDiagnostics.intoSorted, ?_, ?_, ?_⟩
    · rw [BoundedDiagnostics.intoSorted_of_built hC.after (keysDistinct_after hdistinct'),
        List.take_of_length_le ((sortByKey_perm _ _).length_eq.trans_le
          (ha.length_eq.trans_le hafter))]
      exact (sortByKey_perm _ _).trans ha
    · rw [BoundedDiagnostics.intoSorted_of_built hC.before (keysDistinct_before hdistinct'),
        List.take_of_length_le ((sortByKey_perm _ _).length_eq.trans_le
          (hb.length_eq.trans_le hbefore))]
      exact (sortByKey_perm _ _).trans hb
    · simp [finalizeAssessment, comparedDiagnostics, hcomparison, hpublic, hover,
        semanticDifference]

/-! ## Renames -/

/-- The diagnostics of one file on its own. -/
def materializedFile (load : SourceFile → Except AnalysisError FileFacts) (file : SourceFile) :
    List EvaluatedDiagnostic :=
  match load file with
  | .ok facts => materialized file facts
  | .error _ => []

/-- Counted under a comparison key, only language and facts of a file matter. -/
theorem countAt_materializedFile {file file' : SourceFile} (hlanguage : file.language = file'.language)
    (hload : load file = load file') (key : Str) :
    countAt (materializedFile load file) file.path key
      = countAt (materializedFile load file') file'.path key := by
  rw [materializedFile, materializedFile, hload]
  cases load file' with
  | error e => rfl
  | ok facts =>
    simp only [countAt, materialized, List.countP_map]
    refine List.countP_congr fun entry _ => ?_
    simp [materializeOne, hlanguage]

variable (input : EvaluationInput)

theorem materializedBefore_removed {file : SourceFile}
    (hb : input.before = some file) (ha : input.after = none) :
    materializedBefore load input = materializedFile load file := by
  rw [materializedBefore, materializedPair, hb, ha, materializedFile]
  cases hl : load file <;> simp [evaluatePair, hl, Except.map]

theorem materializedAfter_added {file : SourceFile}
    (hb : input.before = none) (ha : input.after = some file) :
    materializedAfter load input = materializedFile load file := by
  rw [materializedAfter, materializedPair, hb, ha, materializedFile]
  cases hl : load file <;> simp [evaluatePair, hl, Except.map]

theorem materialized_both {file file' : SourceFile}
    (hb : input.before = some file) (ha : input.after = some file') (hload : load file = load file') :
    materializedBefore load input = materializedFile load file
      ∧ materializedAfter load input = materializedFile load file' := by
  rw [materializedBefore, materializedAfter, materializedPair, hb, ha, materializedFile,
    materializedFile, hload]
  cases hl : load file' <;> simp [evaluatePair, hload, hl, Except.map]

section Renames

variable (h : prepareEvaluation cancelled request = .ok prepared)
  {key : ContinuityKey} {p : RepoPath}

include h

/-- An evaluated path in terms of the request. -/
theorem mem_inputs {input : EvaluationInput} :
    input ∈ prepared.inputs ↔
      input = evaluationInput request input.path ∧ input.path ∈ evaluationPaths request := by
  rw [(prepareEvaluation_spec h).1, List.mem_map]
  constructor
  · rintro ⟨p, hp, rfl⟩
    exact ⟨rfl, hp⟩
  · rintro ⟨hEq, hp⟩
    exact ⟨input.path, hp, hEq.symm⟩

theorem exists_mem_inputs {P : EvaluationInput → Prop} :
    (∃ input ∈ prepared.inputs, input.path = p ∧ P input) ↔
      p ∈ evaluationPaths request ∧ P (evaluationInput request p) := by
  constructor
  · rintro ⟨input, hin, rfl, hinput⟩
    obtain ⟨hEq, hp⟩ := (mem_inputs h).mp hin
    exact ⟨hp, hEq ▸ hinput⟩
  · exact fun ⟨hp, hinput⟩ => ⟨_, (mem_inputs h).mpr ⟨rfl, hp⟩, rfl, hinput⟩

theorem mem_removedAt_prepared : p ∈ removedAt prepared.inputs key ↔
      p ∈ evaluationPaths request ∧ request.after.read p = none
        ∧ ∃ file, request.baseline p = some file ∧ continuityKey file = key :=
  mem_removedAt.trans (exists_mem_inputs h)

theorem mem_addedAt_prepared : p ∈ addedAt prepared.inputs key ↔
      p ∈ evaluationPaths request ∧ request.baseline p = none
        ∧ ∃ file, request.after.read p = some file ∧ continuityKey file = key :=
  mem_addedAt.trans (exists_mem_inputs h)

variable {σ : Equiv.Perm RepoPath} (hdistinct : DistinctPaths prepared.inputs)
  (hrename : Renaming request σ) (hvacant : Vacant request σ)

include hdistinct hrename hvacant

/-- A renaming carries the removed paths of a key onto the added ones. -/
theorem Renaming.addedAt_perm :
    ((removedAt prepared.inputs key).map σ).Perm (addedAt prepared.inputs key) := by
  rw [List.perm_ext_iff_of_nodup ((nodup_removedAt hdistinct).map σ.injective)
    (nodup_addedAt hdistinct)]
  intro p
  rw [List.mem_map, mem_addedAt_prepared h]
  constructor
  · rintro ⟨q, hq, rfl⟩
    obtain ⟨hqp, hafter, file, hfile, rfl⟩ := (mem_removedAt_prepared h).mp hq
    obtain ⟨file', hfile', hcontent⟩ := hrename.after_of_baseline hfile
    have hmoved : σ q ≠ q := by
      intro hfix
      rw [hfix, hafter] at hfile'
      cases hfile'
    exact ⟨(hrename.evaluated q).mpr hqp, hvacant q hmoved (by simp [hfile]), file', hfile',
      continuityKey_eq hcontent⟩
  · rintro ⟨hp, hbase, file, hfile, rfl⟩
    have hq : σ (σ.symm p) = p := σ.apply_symm_apply p
    rw [← hq] at hfile
    obtain ⟨file', hfile', hcontent⟩ := hrename.baseline_of_after hfile
    refine ⟨σ.symm p, (mem_removedAt_prepared h).mpr ⟨?_, ?_, file', hfile',
      continuityKey_eq hcontent⟩, hq⟩
    · rw [← hrename.evaluated, hq]
      exact hp
    · refine hrename.after_eq_none hvacant (by simp [hfile']) fun hfix => ?_
      rw [hq] at hfix
      rw [← hfix, hbase] at hfile'
      cases hfile'

/-- So every added path is the target of continuity. -/
theorem Renaming.exists_continuity (hcomparison : request.comparison = .introduced)
    (hp : p ∈ addedAt prepared.inputs key) :
    ∃ q ∈ removedAt prepared.inputs key, prepared.pathContinuity.get? q = some p := by
  have hlength : (addedAt prepared.inputs key).length = (removedAt prepared.inputs key).length := by
    rw [← (hrename.addedAt_perm h hdistinct hvacant).length_eq, List.length_map]
  have hmem : p ∈ ((removedAt prepared.inputs key).zip (addedAt prepared.inputs key)).map
      Prod.snd := by
    rw [map_snd_zip_eq_take, List.take_of_length_le hlength.le]
    exact hp
  obtain ⟨⟨q, p'⟩, hpair, rfl⟩ := List.mem_map.mp hmem
  refine ⟨q, (List.of_mem_zip hpair).1, ?_⟩
  rw [(prepareEvaluation_spec h).2, hcomparison]
  exact (get?_exactContentPathContinuity hdistinct).mpr ⟨key, hpair⟩

/-- The file a path holds after a renaming has its diagnostics before it, at the origin. -/
theorem Renaming.exists_origin (hcomparison : request.comparison = .introduced)
    (hload : ∀ file file', continuityKey file = continuityKey file' → load file = load file')
    (hp : p ∈ evaluationPaths request) {file : SourceFile}
    (hfile : request.after.read p = some file) :
    ∃ q, Origin request prepared.pathContinuity p q ∧ ∀ k,
      countAt (prepared.inputs.flatMap (materializedAfter load)) p k
        = countAt (prepared.inputs.flatMap (materializedBefore load)) q k := by
  have hpin : evaluationInput request p ∈ prepared.inputs := (mem_inputs h).mpr ⟨rfl, hp⟩
  have hcountAfter := countAt_flatMap_of_mem (path_of_mem_after load) hdistinct hpin
  have hfilePath : file.path = p := (evaluationInput request p).after_path file hfile
  have hq : σ (σ.symm p) = p := σ.apply_symm_apply p
  obtain ⟨prior, hprior, hcontent⟩ := hrename.baseline_of_after (hq ▸ hfile)
  by_cases hfix : σ.symm p = p
  · -- the file stayed at its path
    rw [hfix] at hprior
    have hpriorPath : prior.path = p := (evaluationInput request p).before_path prior hprior
    have hsame : load prior = load file := hload _ _ (continuityKey_eq hcontent)
    obtain ⟨hb, ha⟩ := materialized_both (evaluationInput request p) hprior hfile hsame
    have hcountBefore := countAt_flatMap_of_mem (path_of_mem_before load) hdistinct hpin
    refine ⟨p, Or.inl ⟨by simp [hprior], rfl⟩, fun k => ?_⟩
    have hcount := countAt_materializedFile (language_eq hcontent) hsame k
    rw [hpriorPath, hfilePath] at hcount
    have hafter := hcountAfter k
    have hbefore := hcountBefore k
    rw [ha] at hafter
    rw [hb] at hbefore
    exact (hafter.trans hcount.symm).trans hbefore.symm
  · -- the file came from a path that is gone
    have hbase : request.baseline p = none := by
      have := hvacant (σ.symm p) (by rw [hq]; exact fun hEq => hfix hEq.symm) (by simp [hprior])
      rwa [hq] at this
    have hadded : p ∈ addedAt prepared.inputs (continuityKey file) :=
      (mem_addedAt_prepared h).mpr ⟨hp, hbase, file, hfile, rfl⟩
    obtain ⟨q, hremoved, hget⟩ := hrename.exists_continuity h hdistinct hvacant hcomparison hadded
    obtain ⟨hqp, hqafter, origin, horigin, hkey⟩ := (mem_removedAt_prepared h).mp hremoved
    have hqin : evaluationInput request q ∈ prepared.inputs := (mem_inputs h).mpr ⟨rfl, hqp⟩
    have horiginPath : origin.path = q := (evaluationInput request q).before_path origin horigin
    have hsame : load origin = load file := hload _ _ hkey
    have hlanguage : origin.language = file.language :=
      congrArg (fun k : ContinuityKey => (ofLex (ofLex k).2).1) hkey
    refine ⟨q, Or.inr ⟨hbase, hget⟩, fun k => ?_⟩
    have hcount := countAt_materializedFile hlanguage hsame k
    rw [horiginPath, hfilePath] at hcount
    have hafter := hcountAfter k
    have hbefore := countAt_flatMap_of_mem (path_of_mem_before load) hdistinct hqin k
    rw [materializedAfter_added (evaluationInput request p) hbase hfile] at hafter
    rw [materializedBefore_removed (evaluationInput request q) horigin hqafter] at hbefore
    exact (hafter.trans hcount.symm).trans hbefore.symm

end Renames

end Introduced

/-- The introduced comparison without overflow: the reported diagnostics are a part
    of those materialised after, and under each path and comparison key they are as
    many as the second view has more than the first had at the origin of the path.
    Continuity is a maximal matching of removed with added paths. A renaming that
    lands no file on a path that held another one reports nothing. -/
theorem introduced_comparison_exact [Sha256] (order : HeapOrder) (workers : Schedule)
    (load : SourceFile → Except AnalysisError FileFacts) (cancelled : RepoPath → Bool)
    (request : EvaluationRequest) (prepared : PreparedEvaluation) (assessment : Assessment)
    (hcomparison : request.comparison = .introduced)
    (hpublic : request.publicFingerprintComparison = false)
    (hprepared : prepareEvaluation cancelled request = .ok prepared)
    (heval : evaluate order workers load cancelled request = .ok assessment)
    (hbefore : (prepared.inputs.flatMap (materializedBefore load)).length ≤ maxDiagnostics)
    (hafter : (prepared.inputs.flatMap (materializedAfter load)).length ≤ maxDiagnostics) :
    (∃ reported : List EvaluatedDiagnostic,
        assessment.diagnostics = reported.map EvaluatedDiagnostic.diagnostic
          ∧ reported.Subperm (prepared.inputs.flatMap (materializedAfter load))
          ∧ ∀ p k,
            (∀ q, Origin request prepared.pathContinuity p q →
              countAt reported p k
                = countAt (prepared.inputs.flatMap (materializedAfter load)) p k
                  - countAt (prepared.inputs.flatMap (materializedBefore load)) q k)
            ∧ ((∀ q, ¬ Origin request prepared.pathContinuity p q) →
              countAt reported p k
                = countAt (prepared.inputs.flatMap (materializedAfter load)) p k))
      ∧ IsContinuity prepared.inputs prepared.pathContinuity
      ∧ ∀ σ, Renaming request σ → Vacant request σ →
          (∀ file file', continuityKey file = continuityKey file' → load file = load file') →
          assessment.diagnostics = [] := by
  obtain ⟨candidates, subtract, hcandidates, hsubtract, hdiagnostics⟩ :=
    diagnostics_of_evaluate hcomparison hpublic hprepared heval hbefore hafter
  have hdistinct : DistinctPaths prepared.inputs := by
    rw [(prepareEvaluation_spec hprepared).1]
    exact distinctPaths_evaluationInputs request
  have hcontinuity : IsContinuity prepared.inputs prepared.pathContinuity := by
    rw [(prepareEvaluation_spec hprepared).2, hcomparison]
    exact isContinuity_exactContentPathContinuity hdistinct
  have hformula : ∀ p q k, Origin request prepared.pathContinuity p q →
      countAt (introduced candidates subtract prepared.pathContinuity) p k
        = countAt (prepared.inputs.flatMap (materializedAfter load)) p k
          - countAt (prepared.inputs.flatMap (materializedBefore load)) q k := by
    intro p q k hq
    rw [countAt_introduced_perm hcandidates hsubtract]
    exact countAt_introduced_origin hprepared hcontinuity hq k
  have hsub : (introduced candidates subtract prepared.pathContinuity).Subperm
      (prepared.inputs.flatMap (materializedAfter load)) :=
    (introduced_sublist _ _ _).subperm.trans hcandidates.subperm
  refine ⟨⟨_, hdiagnostics, hsub, fun p k => ⟨fun q hq => hformula p q k hq, fun hnew => ?_⟩⟩,
    hcontinuity, fun σ hrename hvacant hload => ?_⟩
  · rw [countAt_introduced_perm hcandidates hsubtract]
    exact countAt_introduced_new hprepared hnew k
  · refine hdiagnostics.trans (List.map_eq_nil_iff.mpr (eq_nil_of_countAt_eq_zero ?_))
    intro item hitem
    -- the reported diagnostic sits in a file of the second view
    obtain ⟨input, hin, hmem⟩ := List.mem_flatMap.mp (hsub.subset hitem)
    have hpath := path_of_mem_after load input item hmem
    rcases materializedAfter_cases load input with hnil | ⟨file, facts, hfile, -, -⟩
    · simp [hnil] at hmem
    · obtain ⟨hEq, hp⟩ := (mem_inputs hprepared).mp hin
      rw [hEq] at hfile
      obtain ⟨q, horigin, hcount⟩ := hrename.exists_origin hprepared hdistinct hvacant hcomparison
        hload hp hfile
      rw [hpath, hformula _ q _ horigin, hcount, Nat.sub_self]

/-! Two files, one with a diagnostic. -/

def flagged : Str := ascii "x"

/-- Facts, kept by content, that flag the file whose content is `x`. -/
def flagX [Sha256] (file : SourceFile) : Except AnalysisError FileFacts :=
  if file.contentId = ContentId.of flagged then
    .ok { diagnostics := [sampleRaw] }
  else .ok {}

theorem flagX_keyed [Sha256] (file file' : SourceFile)
    (h : continuityKey file = continuityKey file') : flagX file = flagX file' := by
  have hcontent : file.contentId = file'.contentId :=
    congrArg (fun k : ContinuityKey => (ofLex k).1) h
  rw [flagX, flagX, hcontent]

def pathC : RepoPath := ⟨ascii "c.py", by decide⟩

/-- A workspace comparison of two views. -/
def compareViews (before after : List (RepoPath × Str)) : EvaluationRequest where
  before := some (.new (before.map fun entry => ⟨entry.1, entry.2, .python, []⟩))
  after := .new (after.map fun entry => ⟨entry.1, entry.2, .python, []⟩)
  scope := .workspace
  comparison := .introduced
  paths := ∅
  validAsOf := []
  publicFingerprintComparison := false

def identitySchedule : Schedule := ⟨id, fun _ => .refl _⟩

theorem renaming_swap {a b : RepoPath} (ha : (request.after.read b).map SourceFile.content
      = (request.baseline a).map SourceFile.content)
    (hb : (request.after.read a).map SourceFile.content
      = (request.baseline b).map SourceFile.content)
    (hother : ∀ p, p ≠ a → p ≠ b → request.after.read p = request.baseline p)
    (hpaths : a ∈ evaluationPaths request ∧ b ∈ evaluationPaths request) :
    Renaming request (Equiv.swap a b) := by
  refine ⟨fun p => ?_, fun p => ?_⟩ <;> by_cases hpa : p = a
  · subst hpa
    simp [hpaths]
  · by_cases hpb : p = b
    · subst hpb
      simp [hpaths]
    · rw [Equiv.swap_apply_of_ne_of_ne hpa hpb]
  · subst hpa
    rw [Equiv.swap_apply_left, ha]
  · by_cases hpb : p = b
    · subst hpb
      rw [Equiv.swap_apply_right, hb]
    · rw [Equiv.swap_apply_of_ne_of_ne hpa hpb, hother p hpa hpb]

/-- `a.py` is flagged and moves to `c.py`; `b.py` stays. -/
def moveRequest : EvaluationRequest :=
  compareViews [(pathA, flagged), (pathB, [])] [(pathC, flagged), (pathB, [])]

/-- `a.py` is flagged and exchanges its path with `b.py`. -/
def exchangeRequest : EvaluationRequest :=
  compareViews [(pathA, flagged), (pathB, [])] [(pathB, flagged), (pathA, [])]

theorem renaming_moveRequest : Renaming moveRequest (Equiv.swap pathA pathC) := by
  refine renaming_swap (by decide +kernel) (by decide +kernel) (fun p ha hc => ?_) (by decide +kernel)
  by_cases hb : p = pathB <;>
    simp [moveRequest, compareViews, SourceSnapshot.new, SourceSnapshot.read,
      EvaluationRequest.baseline, BTreeMap.get?_insert, ha, hb, hc]

theorem renaming_exchangeRequest : Renaming exchangeRequest (Equiv.swap pathA pathB) := by
  refine renaming_swap (by decide +kernel) (by decide +kernel) (fun p ha hb => ?_) (by decide +kernel)
  simp [exchangeRequest, compareViews, SourceSnapshot.new, SourceSnapshot.read,
      EvaluationRequest.baseline, BTreeMap.get?_insert, ha, hb]

theorem vacant_moveRequest : Vacant moveRequest (Equiv.swap pathA pathC) := by
  intro p hmoved hp
  by_cases ha : p = pathA
  · subst ha
    rw [Equiv.swap_apply_left]
    decide +kernel
  · by_cases hc : p = pathC
    · subst hc
      exact absurd (by decide +kernel) hp
    · exact absurd (Equiv.swap_apply_of_ne_of_ne ha hc) hmoved

/-- How many diagnostics both views have, and how many are reported. -/
def evaluateCounts [Sha256] (load : SourceFile → Except AnalysisError FileFacts)
    (request : EvaluationRequest) : Option (Nat × Nat × Nat) :=
  match prepareEvaluation (fun _ => false) request,
    evaluate identityHeapOrder identitySchedule load (fun _ => false) request with
  | .ok prepared, .ok assessment =>
    some ((prepared.inputs.flatMap (materializedBefore load)).length,
      (prepared.inputs.flatMap (materializedAfter load)).length, assessment.diagnostics.length)
  | _, _ => none

theorem exists_of_evaluateCounts [Sha256] {load : SourceFile → Except AnalysisError FileFacts}
    {b a n : Nat} (h : evaluateCounts load request = some (b, a, n)) :
    ∃ prepared assessment, prepareEvaluation (fun _ => false) request = .ok prepared
      ∧ evaluate identityHeapOrder identitySchedule load (fun _ => false) request = .ok assessment
      ∧ (prepared.inputs.flatMap (materializedBefore load)).length = b
      ∧ (prepared.inputs.flatMap (materializedAfter load)).length = a
      ∧ assessment.diagnostics.length = n := by
  rw [evaluateCounts] at h
  split at h
  · rename_i prepared assessment hprepared heval
    cases h
    exact ⟨prepared, assessment, hprepared, heval, rfl, rfl, rfl⟩
  · cases h

theorem introduced_comparison_exact_move :
    letI := identityDigest
    ∃ prepared assessment, prepareEvaluation (fun _ => false) moveRequest = .ok prepared
      ∧ evaluate identityHeapOrder identitySchedule flagX (fun _ => false) moveRequest = .ok assessment
      ∧ (prepared.inputs.flatMap (materializedAfter flagX)).length = 1
      ∧ assessment.diagnostics = [] := by
  let _ := identityDigest
  obtain ⟨prepared, assessment, hprepared, heval, hb, ha, -⟩ := exists_of_evaluateCounts
    (show evaluateCounts flagX moveRequest = some (1, 1, 0) by decide +kernel)
  refine ⟨prepared, assessment, hprepared, heval, ha, ?_⟩
  exact (introduced_comparison_exact identityHeapOrder identitySchedule flagX (fun _ => false)
    moveRequest prepared assessment rfl rfl hprepared heval (by rw [hb]; decide)
    (by rw [ha]; decide)).2.2 _ renaming_moveRequest vacant_moveRequest flagX_keyed

/-- Two files that exchange their paths: the flagged one is reported where it
    lands, since a path that both views have is compared with itself. -/
theorem exchange_reported :
    letI := identityDigest
    ¬ ∀ (request : EvaluationRequest) (prepared : PreparedEvaluation) (assessment : Assessment)
        (σ : Equiv.Perm RepoPath),
        request.comparison = .introduced → request.publicFingerprintComparison = false →
        prepareEvaluation (fun _ => false) request = .ok prepared →
        evaluate identityHeapOrder identitySchedule flagX (fun _ => false) request
          = .ok assessment →
        (prepared.inputs.flatMap (materializedBefore flagX)).length ≤ maxDiagnostics →
        (prepared.inputs.flatMap (materializedAfter flagX)).length ≤ maxDiagnostics →
        Renaming request σ → assessment.diagnostics = [] := by
  let _ := identityDigest
  intro h
  obtain ⟨prepared, assessment, hprepared, heval, hb, ha, hn⟩ := exists_of_evaluateCounts
    (show evaluateCounts flagX exchangeRequest = some (1, 1, 1) by decide +kernel)
  have hnil := h exchangeRequest prepared assessment _ rfl rfl hprepared heval
    (by rw [hb]; decide) (by rw [ha]; decide) renaming_exchangeRequest
  rw [hnil] at hn
  cases hn

/-! ## What an assessment reports -/

section Reported

variable [Sha256] {load : SourceFile → Except AnalysisError FileFacts}
  {cancelled : RepoPath → Bool} {request : EvaluationRequest}

/-- A diagnostic that comes from the facts of a file of the second view. -/
def ReportedFrom (load : SourceFile → Except AnalysisError FileFacts) (request : EvaluationRequest)
    (diagnostic : Diagnostic) : Prop :=
  ∃ file facts raw n, request.after.read file.path = some file ∧ load file = .ok facts
    ∧ raw ∈ facts.diagnostics ∧ diagnostic = (materializeOne file raw n).diagnostic

theorem reported_of_mem_materializedAfter {path : RepoPath} {item : EvaluatedDiagnostic}
    (h : item ∈ materializedAfter load (evaluationInput request path)) :
    ReportedFrom load request item.diagnostic := by
  rcases materializedAfter_cases load (evaluationInput request path) with
    hnil | ⟨file, facts, hfile, hfacts, hEq⟩
  · simp [hnil] at h
  · rw [hEq] at h
    obtain ⟨⟨raw, n⟩, hraw, rfl⟩ := List.mem_map.mp h
    have hpath : file.path = path := (evaluationInput request path).after_path file hfile
    have hread : request.after.read path = some file := hfile
    refine ⟨file, facts, raw, n, ?_, hfacts, List.fst_mem_of_mem_zipIdx hraw, rfl⟩
    rw [hpath, hread]

omit [Sha256] in
/-- The compared diagnostics are some of those of the second view. -/
theorem comparedDiagnostics_sublist {comparison : Comparison}
    {before after : List EvaluatedDiagnostic} {continuity : BTreeMap RepoPath RepoPath}
    {publicFingerprintComparison : Bool} :
    ∃ kept : List EvaluatedDiagnostic, kept.Sublist after
      ∧ comparedDiagnostics comparison before after continuity publicFingerprintComparison
        = kept.map EvaluatedDiagnostic.diagnostic := by
  cases comparison with
  | all => exact ⟨after, List.Sublist.refl after, rfl⟩
  | introduced =>
    cases publicFingerprintComparison with
    | true => exact ⟨_, List.filter_sublist, rfl⟩
    | false => exact ⟨_, introduced_sublist after before continuity, rfl⟩

theorem diagnostics_of_prepareEvaluation_error {assessment : Assessment}
    (h : prepareEvaluation cancelled request = .error assessment) :
    assessment.diagnostics = [] := by
  rw [prepareEvaluation] at h
  split_ifs at h
  · cases h
    rfl
  · obtain ⟨path, -, s, hstep⟩ := Except.exists_of_foldlM_eq_error
      (Except.map_eq_error_iff.mp h)
    rw [ReadState.step] at hstep
    split_ifs at hstep
    · cases hstep
      rfl
    · simp only at hstep
      split_ifs at hstep
      cases hstep
      rfl

/-- An assessment reports at most `maxDiagnostics` diagnostics, each of a file of the
    second view. -/
theorem reported_of_evaluate {order : HeapOrder} {workers : Schedule} {assessment : Assessment}
    (h : evaluate order workers load cancelled request = .ok assessment) :
    assessment.diagnostics.length ≤ maxDiagnostics
      ∧ ∀ diagnostic ∈ assessment.diagnostics, ReportedFrom load request diagnostic := by
  have hnone : assessment.diagnostics = [] →
      assessment.diagnostics.length ≤ maxDiagnostics
        ∧ ∀ diagnostic ∈ assessment.diagnostics, ReportedFrom load request diagnostic := by
    intro hnil
    rw [hnil]
    exact ⟨Nat.zero_le _, nofun⟩
  rw [evaluate] at h
  cases hprepared : prepareEvaluation cancelled request with
  | error early =>
    rw [hprepared] at h
    cases h
    exact hnone (diagnostics_of_prepareEvaluation_error hprepared)
  | ok prepared =>
    rw [hprepared] at h
    simp only at h
    cases hrun : runAnalysis order workers load prepared.inputs with
    | error e =>
      rw [hrun] at h
      cases h
    | ok batch =>
      rw [hrun] at h
      cases h
      obtain ⟨inputs', hperm, hC⟩ := collected_of_runAnalysis hrun
      have hsmallest := (BoundedDiagnostics.holds_of_built hC.after).smallest
      obtain ⟨dropped, hall, hlength, -⟩ := hsmallest
      have hitems := sortByKey_perm EvaluatedDiagnostic.orderKey batch.afterDiagnostics.items
      obtain ⟨kept, hkept, hcompared⟩ := @comparedDiagnostics_sublist request.comparison
        batch.beforeDiagnostics.intoSorted batch.afterDiagnostics.intoSorted
        prepared.pathContinuity request.publicFingerprintComparison
      -- A first view that overflowed is not compared.
      by_cases hover : request.comparison = .introduced
          ∧ batch.beforeDiagnostics.overflowed = true
      · exact hnone (if_pos hover)
      have hdiagnostics : (finalizeAssessment request prepared batch).diagnostics
          = kept.map EvaluatedDiagnostic.diagnostic := (if_neg hover).trans hcompared
      rw [hdiagnostics]
      refine ⟨?_, ?_⟩
      · have hle := hkept.length_le
        have heq : batch.afterDiagnostics.intoSorted.length
          = batch.afterDiagnostics.items.length := hitems.length_eq
        rw [List.length_map]
        omega
      · intro diagnostic hmem
        obtain ⟨item, hitem, rfl⟩ := List.mem_map.mp hmem
        -- From the report back to the file: compared, stored, read.
        have hstored : item ∈ batch.afterDiagnostics.items :=
          hitems.mem_iff.mp (hkept.subset hitem)
        have hgiven : item ∈ inputs'.flatMap (materializedAfter load) :=
          hall.mem_iff.mp (List.mem_append_left dropped hstored)
        obtain ⟨input, hinput, hmem⟩ := List.mem_flatMap.mp hgiven
        have hinput := hperm.mem_iff.mp hinput
        rw [(prepareEvaluation_spec hprepared).1] at hinput
        obtain ⟨path, -, rfl⟩ := List.mem_map.mp hinput
        exact reported_of_mem_materializedAfter hmem

end Reported

end Opcore
