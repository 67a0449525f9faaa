/-
  Opcore.Engine.Evaluation

  One evaluation request from its paths to its assessment: reading both views,
  analysing every input on the worker pool, and comparing what was collected.
  The analysers and the fact cache behind `load` are a parameter, and so are
  the order in which workers finish and the order in which a heap is walked.
-/
import Opcore.Engine.Comparison

namespace Opcore

open Text Collections Smallest

/-! ## Requests and assessments -/

inductive Scope where
  | changeset
  | workspace
  | paths (paths : List RepoPath)

inductive Comparison where
  | introduced
  | all
  deriving DecidableEq

inductive CoverageStatus where
  | notChecked
  | unsupported
  | incomplete
  deriving DecidableEq

structure CoverageGap where
  path : RepoPath
  status : CoverageStatus
  language : Option Language
  reason : Option Str
  deriving DecidableEq

inductive AssessmentStatus where
  | clean
  | findings
  | notChecked
  | incomplete
  | unsupported
  | cancelled
  | error
  deriving DecidableEq

structure Coverage where
  filesConsidered : Nat := 0
  filesCovered : Nat := 0
  gaps : List CoverageGap := []
  deriving DecidableEq

structure Assessment where
  status : AssessmentStatus
  diagnostics : List Diagnostic
  coverage : Coverage
  validAsOf : Str
  filesRead : Nat := 0
  deriving DecidableEq

structure EvaluationRequest where
  before : Option SourceSnapshot
  after : SourceSnapshot
  scope : Scope
  comparison : Comparison
  paths : BTreeSet RepoPath
  validAsOf : Str
  publicFingerprintComparison : Bool

/-! ## Preparation -/

def evaluationPaths (request : EvaluationRequest) : BTreeSet RepoPath :=
  match request.scope with
  | .workspace =>
    let paths := request.paths.extend request.after.paths
    match request.comparison, request.before with
    | .introduced, some before => paths.extend before.paths
    | _, _ => paths
  | _ => request.paths

/-- The view the first side of a comparison is read from. -/
def EvaluationRequest.baseline (request : EvaluationRequest) (path : RepoPath) :
    Option SourceFile :=
  match request.before, request.comparison with
  | some view, .introduced => view.read path
  | _, _ => none

theorem EvaluationRequest.path_of_baseline {request : EvaluationRequest} {path : RepoPath}
    {file : SourceFile} (h : request.baseline path = some file) : file.path = path := by
  rw [baseline] at h
  split at h
  · exact SourceSnapshot.path_of_read h
  · cases h

def evaluationInput (request : EvaluationRequest) (path : RepoPath) : EvaluationInput where
  path := path
  before := request.baseline path
  after := request.after.read path
  before_path _ h := request.path_of_baseline h
  after_path _ h := SourceSnapshot.path_of_read h

def EvaluationInput.fileCount (input : EvaluationInput) : Nat :=
  input.before.toList.length + input.after.toList.length

def EvaluationInput.byteCount (input : EvaluationInput) : Nat :=
  (input.before.map (·.bytes.length)).getD 0 + (input.after.map (·.bytes.length)).getD 0

def incompleteAssessment (validAsOf reason : Str) : Assessment where
  status := .incomplete
  diagnostics := []
  coverage :=
    { filesConsidered := 1, gaps := [⟨RepoPath.requestMarker, .incomplete, none, some reason⟩] }
  validAsOf := validAsOf

def cancelledAssessment (validAsOf : Str) : Assessment where
  status := .cancelled
  diagnostics := []
  coverage := {}
  validAsOf := validAsOf

structure PreparedEvaluation where
  inputs : List EvaluationInput := []
  pathContinuity : BTreeMap RepoPath RepoPath := ∅
  filesRead : Nat := 0

/-- The state of the loop over the evaluated paths. -/
structure ReadState where
  totalBytes : Nat := 0
  filesRead : Nat := 0
  inputs : List EvaluationInput := []

/-- Read one path; `cancelled` is the answer of the token when the path is reached. -/
def ReadState.step (cancelled : RepoPath → Bool) (request : EvaluationRequest) (s : ReadState)
    (path : RepoPath) : Except Assessment ReadState :=
  if cancelled path then .error (cancelledAssessment request.validAsOf)
  else
    let input := evaluationInput request path
    let totalBytes := s.totalBytes + input.byteCount
    if maxTotalSourceBytes < totalBytes then
      .error (incompleteAssessment request.validAsOf
        (ascii ("request source exceeds the " ++ toString maxTotalSourceBytes ++ "-byte limit")))
    else
      .ok ⟨totalBytes, s.filesRead + input.fileCount, s.inputs ++ [input]⟩

section Evaluation

variable [Sha256]

def pathContinuity (comparison : Comparison) (inputs : List EvaluationInput) :
    BTreeMap RepoPath RepoPath :=
  match comparison with
  | .all => ∅
  | .introduced => exactContentPathContinuity inputs

/-- The inputs of a request, or the assessment that says why there are none. -/
def prepareEvaluation (cancelled : RepoPath → Bool) (request : EvaluationRequest) :
    Except Assessment PreparedEvaluation :=
  let paths := evaluationPaths request
  if maxFiles < paths.size then
    .error (incompleteAssessment request.validAsOf
      (ascii ("request includes " ++ toString paths.size ++ " files; limit is "
        ++ toString maxFiles)))
  else
    (paths.elems.foldlM (ReadState.step cancelled request) {}).map fun s =>
      ⟨s.inputs, pathContinuity request.comparison s.inputs, s.filesRead⟩

/-! ## Analysis -/

/-- Evaluate both sides of an input, the first side first. -/
def evaluatePair {β : Type} (f : SourceFile → Except AnalysisError β)
    (before after : Option SourceFile) : Except AnalysisError (Option β × Option β) :=
  match before.map f with
  | some (.error e) => .error e
  | some (.ok b) =>
    match after.map f with
    | some (.error e) => .error e
    | some (.ok a) => .ok (some b, some a)
    | none => .ok (some b, none)
  | none =>
    match after.map f with
    | some (.error e) => .error e
    | some (.ok a) => .ok (none, some a)
    | none => .ok (none, none)

inductive AnalyzedInput where
  | ready (before after : Option BoundedDiagnostics)
  | unsupported (path : RepoPath) (language : Option Language) (reason : Str)
  | cancelled (path : RepoPath) (language : Option Language)

def analyzeOne (load : SourceFile → Except AnalysisError FileFacts) (file : SourceFile) :
    Except AnalysisError BoundedDiagnostics :=
  (load file).map (materialize file)

/-- Both sides of a path: diagnostics, or the gap that it leaves. -/
def analyzeInput (load : SourceFile → Except AnalysisError FileFacts) (input : EvaluationInput) :
    Except AnalysisError AnalyzedInput :=
  let language := (input.after <|> input.before).map SourceFile.language
  if input.before.isNone && input.after.isNone then
    .ok (.unsupported input.path none
      (ascii "path is missing or its language is outside the supported envelope"))
  else
    match evaluatePair (analyzeOne load) input.before input.after with
    | .ok (before, after) => .ok (.ready before after)
    | .error (.unsupported reason) => .ok (.unsupported input.path language reason)
    | .error .cancelled => .ok (.cancelled input.path language)
    | .error e => .error e

structure AnalysisBatch where
  filesConsidered : Nat := 0
  filesCovered : Nat := 0
  coverageGaps : List CoverageGap := []
  beforeDiagnostics : BoundedDiagnostics := {}
  afterDiagnostics : BoundedDiagnostics := {}
  cancelled : Bool := false

/-- Merge the diagnostics of one side, if the side was analysed. -/
def mergeSide (order : HeapOrder) (diagnostics : BoundedDiagnostics)
    (item : Option BoundedDiagnostics) : BoundedDiagnostics :=
  match item with
  | some item => diagnostics.merge order item
  | none => diagnostics

/-- Count a result, and keep its diagnostics or its gap. -/
def AnalysisBatch.push (order : HeapOrder) (batch : AnalysisBatch) (result : AnalyzedInput) :
    AnalysisBatch :=
  let batch := { batch with filesConsidered := batch.filesConsidered + 1 }
  match result with
  | .ready before after =>
    { batch with
      filesCovered := batch.filesCovered + 1
      beforeDiagnostics := mergeSide order batch.beforeDiagnostics before
      afterDiagnostics := mergeSide order batch.afterDiagnostics after }
  | .unsupported path language reason =>
    { batch with
      coverageGaps := batch.coverageGaps ++ [⟨path, .unsupported, language, some reason⟩] }
  | .cancelled path language =>
    { batch with
      cancelled := true
      coverageGaps := batch.coverageGaps ++
        [⟨path, .incomplete, language, some (ascii "evaluation cancelled")⟩] }

/-- The loop over few inputs: the first error ends it. -/
def sequentialAnalysis (order : HeapOrder) (load : SourceFile → Except AnalysisError FileFacts)
    (inputs : List EvaluationInput) : Except AnalysisError AnalysisBatch :=
  inputs.foldlM (fun batch input => (analyzeInput load input).map (batch.push order)) {}

/-- One worker finishes an input: its result goes into the shared batch, or its
    error, with the input's position, into the shared list of errors. -/
def workerStep (order : HeapOrder) (load : SourceFile → Except AnalysisError FileFacts)
    (shared : AnalysisBatch × List (Nat × AnalysisError)) (job : EvaluationInput × Nat) :
    AnalysisBatch × List (Nat × AnalysisError) :=
  match analyzeInput load job.1 with
  | .ok result => (shared.1.push order result, shared.2)
  | .error e => (shared.1, shared.2 ++ [(job.2, e)])

/-- The worker pool, `schedule` being the inputs with their positions in the
    order in which workers finish them. -/
def parallelAnalysis (order : HeapOrder) (load : SourceFile → Except AnalysisError FileFacts)
    (schedule : List (EvaluationInput × Nat)) : Except AnalysisError AnalysisBatch :=
  let shared := schedule.foldl (workerStep order load) ({}, [])
  match (sortByKey Prod.fst shared.2).head? with
  | some (_, e) => .error e
  | none => .ok shared.1

/-! ## Finalisation -/

def hasCoverage (gaps : List CoverageGap) (status : CoverageStatus) : Bool :=
  gaps.any fun item => item.status = status

def assessmentStatus (cancelled comparisonIncomplete : Bool) (diagnostics : List Diagnostic)
    (coverageGaps : List CoverageGap) : AssessmentStatus :=
  if cancelled then .cancelled
  else if comparisonIncomplete || hasCoverage coverageGaps .incomplete then .incomplete
  else if !diagnostics.isEmpty then .findings
  else .clean

def comparedDiagnostics (comparison : Comparison) (before after : List EvaluatedDiagnostic)
    (continuity : BTreeMap RepoPath RepoPath) (publicFingerprintComparison : Bool) :
    List Diagnostic :=
  match comparison with
  | .all => after.map EvaluatedDiagnostic.diagnostic
  | .introduced =>
    if publicFingerprintComparison then publicFingerprintDifference after before
    else semanticDifference after before continuity

/-- The gap that says which view had more diagnostics than were kept. -/
def overflowGap (beforeOverflowed afterOverflowed : Bool) : CoverageGap :=
  let overflowingView :=
    if beforeOverflowed && afterOverflowed then "baseline and candidate views"
    else if beforeOverflowed then "baseline view"
    else "candidate view"
  ⟨RepoPath.requestMarker, .incomplete, none,
    some (ascii ("diagnostic working set for the " ++ overflowingView ++ " exceeded the "
      ++ toString maxDiagnostics ++ "-finding limit; exact comparison is incomplete"))⟩

/-- Compare the diagnostics of a batch, and say what was not covered. -/
def finalizeAssessment (request : EvaluationRequest) (prepared : PreparedEvaluation)
    (batch : AnalysisBatch) : Assessment :=
  let beforeOverflowed := batch.beforeDiagnostics.overflowed
  let afterOverflowed := batch.afterDiagnostics.overflowed
  let comparisonIncomplete :=
    match request.comparison with
    | .all => afterOverflowed
    | .introduced => beforeOverflowed || afterOverflowed
  let diagnostics :=
    if request.comparison = .introduced ∧ beforeOverflowed = true then []
    else comparedDiagnostics request.comparison batch.beforeDiagnostics.intoSorted
      batch.afterDiagnostics.intoSorted prepared.pathContinuity
      request.publicFingerprintComparison
  let coverageGaps :=
    if comparisonIncomplete then
      batch.coverageGaps ++ [overflowGap beforeOverflowed afterOverflowed]
    else batch.coverageGaps
  let gaps := sortByKey CoverageGap.path coverageGaps
  { status := assessmentStatus batch.cancelled comparisonIncomplete diagnostics gaps
    diagnostics
    coverage := ⟨batch.filesConsidered, batch.filesCovered, gaps⟩
    validAsOf := request.validAsOf
    filesRead := prepared.filesRead }

/-! ## Evaluation -/

def parallelFileThreshold : Nat := 8

/-- The order in which the workers finish their jobs. -/
structure Schedule where
  finish : List (EvaluationInput × Nat) → List (EvaluationInput × Nat)
  perm : ∀ jobs, (finish jobs).Perm jobs

def runAnalysis (order : HeapOrder) (workers : Schedule)
    (load : SourceFile → Except AnalysisError FileFacts) (inputs : List EvaluationInput) :
    Except AnalysisError AnalysisBatch :=
  if inputs.length < parallelFileThreshold then sequentialAnalysis order load inputs
  else parallelAnalysis order load (workers.finish inputs.zipIdx)

def evaluate (order : HeapOrder) (workers : Schedule)
    (load : SourceFile → Except AnalysisError FileFacts) (cancelled : RepoPath → Bool)
    (request : EvaluationRequest) : Except AnalysisError Assessment :=
  match prepareEvaluation cancelled request with
  | .error assessment => .ok assessment
  | .ok prepared =>
    (runAnalysis order workers load prepared.inputs).map (finalizeAssessment request prepared)

end Evaluation

end Opcore
