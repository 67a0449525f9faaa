/-
  Opcore.Analysis.CallableMetrics

  The metric diagnostics of the callables of a file.  A callable is known by its
  base entity and by how many callables before it in the file have the same one;
  each of its metrics that passes its limit is reported under that entity.
-/
import Opcore.Analysis.Hygiene
import Opcore.Engine.Introduced
import Opcore.Library.Json

namespace Opcore

open Text Collections Json

/-! ## Checks -/

def metricEvidence (evidence : BTreeMap Str EvidenceValue) (actual limit : Nat) :
    BTreeMap Str EvidenceValue :=
  evidence.extend [(ascii "actual", .number actual), (ascii "limit", .number limit)]

/-- One metric of a callable and the limit it is checked against. -/
structure MetricCheck where
  ruleId : Str
  label : Str
  actual : Nat
  limit : Nat
  range : SourceRange
  extraEvidence : List (Str × EvidenceValue) := []

/-- What a check reports when its metric passes the limit. -/
def MetricCheck.report (check : MetricCheck) (entity message : Str)
    (evidence : BTreeMap Str EvidenceValue) : Option RawDiagnostic :=
  if check.actual ≤ check.limit then none
  else some
    { ruleId := check.ruleId
      severity := .warning
      message := message
      range := some check.range
      entityKey := entity
      causeKey := ascii "limit:" ++ decimal check.limit
      evidence := evidence }

/-! ## Entities -/

/-- The entity of a callable: its base and the number of those before it. -/
def entityKey (base : Str) (occurrence : Nat) : Str := base ++ ascii ":" ++ decimal occurrence

/-- The loop over the callables of a file, with the occurrences of each base. -/
def diagnoseCallables {α : Type} (baseEntity : α → Str) (diagnose : α → Str → List RawDiagnostic) :
    BTreeMap Str Nat → List α → List RawDiagnostic
  | _, [] => []
  | occurrences, callable :: callables =>
    let occurrence := (occurrences.get? (baseEntity callable)).getD 0
    diagnose callable (entityKey (baseEntity callable) occurrence)
      ++ diagnoseCallables baseEntity diagnose
        (occurrences.insert (baseEntity callable) (occurrence + 1)) callables

/-! ## Node -/

/-- A function of a JavaScript or TypeScript file with its metrics. -/
structure NodeFunction where
  name : Str
  range : SourceRange
  parameterCount : Nat
  nesting : Nat
  complexity : Nat

namespace NodeFunction

def baseEntity (function : NodeFunction) : Str := ascii "function:" ++ function.name

def lines (function : NodeFunction) : Nat :=
  function.range.stop.line - function.range.start.line + 1

def checks (limits : RuleLimits) (function : NodeFunction) : List MetricCheck :=
  [⟨ascii "complexity.max-function-lines", ascii "function lines", function.lines,
      limits.maxFunctionLines, function.range, []⟩,
    ⟨ascii "complexity.max-parameters", ascii "function parameters", function.parameterCount,
      limits.maxParameters, function.range, []⟩,
    ⟨ascii "complexity.max-nesting", ascii "function nesting", function.nesting,
      limits.maxNesting, function.range, []⟩,
    ⟨ascii "complexity.max-cyclomatic-complexity", ascii "cyclomatic complexity",
      function.complexity, limits.maxCyclomaticComplexity, function.range, []⟩]

def parserEvidence : BTreeMap Str EvidenceValue :=
  Opcore.parserEvidence (ascii "oxc-parser") (ascii "0.142.0")

def maybeMetric (entity : Str) (check : MetricCheck) : Option RawDiagnostic :=
  check.report entity
    (check.label ++ ascii ": " ++ decimal check.actual ++ ascii "; configured maximum is "
      ++ decimal check.limit)
    (metricEvidence parserEvidence check.actual check.limit)

def diagnose (limits : RuleLimits) (function : NodeFunction) (entity : Str) : List RawDiagnostic :=
  (function.checks limits).filterMap (maybeMetric entity)

def metricDiagnostics (limits : RuleLimits) (functions : List NodeFunction) : List RawDiagnostic :=
  diagnoseCallables baseEntity (diagnose limits) ∅ functions

/-- No metric of the function passes its limit. -/
def Compliant (limits : RuleLimits) (function : NodeFunction) : Prop :=
  function.lines ≤ limits.maxFunctionLines ∧ function.parameterCount ≤ limits.maxParameters
    ∧ function.nesting ≤ limits.maxNesting ∧ function.complexity ≤ limits.maxCyclomaticComplexity

instance (limits : RuleLimits) (function : NodeFunction) : Decidable (function.Compliant limits) := by
  unfold Compliant
  infer_instance

end NodeFunction

/-! ## Rust -/

inductive RustCallableKind where
  | function
  | closure
  deriving DecidableEq

def RustCallableKind.name : RustCallableKind → Str
  | .function => ascii "function"
  | .closure => ascii "closure"

/-- A function or closure of a Rust file with its metrics. -/
structure RustCallable where
  kind : RustCallableKind
  owner : Str
  name : Str
  range : SourceRange
  parameterRange : Option SourceRange
  parameters : Nat
  maxNesting : Nat
  complexity : Nat
  opaqueMacroCount : Nat

namespace RustCallable

def baseEntity [Sha256] (callable : RustCallable) : Str :=
  ascii "rust:" ++ callable.kind.name ++ ascii ":" ++ hexEncode
    ((hashDomain (ascii "rust-callable-entity/v2")
      [callable.kind.name, callable.owner, callable.name]).take 12)

def lines (callable : RustCallable) : Nat :=
  callable.range.stop.line - callable.range.start.line + 1

/-- Only the check of the parameters says that a receiver is not one of them. -/
def receiverExcluded (callable : RustCallable) : List (Str × EvidenceValue) :=
  if callable.kind = .function then [(ascii "receiverExcluded", .boolean true)] else []

def checks (limits : RuleLimits) (callable : RustCallable) : List MetricCheck :=
  [⟨ascii "complexity.max-function-lines", ascii "lines", callable.lines,
      limits.maxFunctionLines, callable.range, []⟩,
    ⟨ascii "complexity.max-parameters", ascii "parameters", callable.parameters,
      limits.maxParameters, callable.parameterRange.getD callable.range,
      callable.receiverExcluded⟩,
    ⟨ascii "complexity.max-nesting", ascii "nesting depth", callable.maxNesting,
      limits.maxNesting, callable.range, []⟩,
    ⟨ascii "complexity.max-cyclomatic-complexity", ascii "cyclomatic complexity",
      callable.complexity, limits.maxCyclomaticComplexity, callable.range, []⟩]

def parserEvidence (edition : Str) : BTreeMap Str EvidenceValue :=
  (Opcore.parserEvidence (ascii "ra_ap_syntax") (ascii "0.0.344")).extend
    [(ascii "edition", .text edition)]

def callableEvidence (callable : RustCallable) : List (Str × EvidenceValue) :=
  [(ascii "entityKind", .text callable.kind.name),
      (ascii "metricSemantics", .text (ascii "opcore.rust-metrics.v1"))]
    ++ if 0 < callable.opaqueMacroCount then
        [(ascii "macroBodiesOpaque", .boolean true),
          (ascii "opaqueMacroCount", .number callable.opaqueMacroCount)] else []

def pushMetric (edition : Str) (callable : RustCallable) (entity : Str) (check : MetricCheck) :
    Option RawDiagnostic :=
  check.report entity
    (ascii "Rust callable has " ++ decimal check.actual ++ ascii " " ++ check.label
      ++ ascii "; configured maximum is " ++ decimal check.limit)
    ((metricEvidence (parserEvidence edition) check.actual check.limit).extend
      (callable.callableEvidence ++ check.extraEvidence))

def diagnose (edition : Str) (limits : RuleLimits) (callable : RustCallable) (entity : Str) :
    List RawDiagnostic :=
  (callable.checks limits).filterMap (pushMetric edition callable entity)

def metricDiagnostics [Sha256] (edition : Str) (limits : RuleLimits)
    (callables : List RustCallable) : List RawDiagnostic :=
  diagnoseCallables baseEntity (diagnose edition limits) ∅ callables

/-- No metric of the callable passes its limit. -/
def Compliant (limits : RuleLimits) (callable : RustCallable) : Prop :=
  callable.lines ≤ limits.maxFunctionLines ∧ callable.parameters ≤ limits.maxParameters
    ∧ callable.maxNesting ≤ limits.maxNesting
    ∧ callable.complexity ≤ limits.maxCyclomaticComplexity

end RustCallable

/-! ## Rules of one kind of callable -/

/-- The part of a diagnostic that does not depend on the entity. -/
def RawDiagnostic.signature (raw : RawDiagnostic) : Str × Str := (raw.ruleId, raw.causeKey)

/-- How one kind of callable is diagnosed under a limit set: the entity is only
    passed on, and a callable that passes no limit is not reported. -/
structure MetricRules (α : Type) where
  baseEntity : α → Str
  diagnose : α → Str → List RawDiagnostic
  Compliant : α → Prop
  entityKey_eq : ∀ callable entity, ∀ raw ∈ diagnose callable entity, raw.entityKey = entity
  signatures : ∀ callable entity entity',
    (diagnose callable entity).map RawDiagnostic.signature
      = (diagnose callable entity').map RawDiagnostic.signature
  diagnose_eq_nil_iff : ∀ callable entity, diagnose callable entity = [] ↔ Compliant callable

def MetricRules.metricDiagnostics {α : Type} (rules : MetricRules α) (callables : List α) :
    List RawDiagnostic :=
  diagnoseCallables rules.baseEntity rules.diagnose ∅ callables

theorem MetricCheck.report_eq_some {check : MetricCheck} {entity message : Str}
    {evidence : BTreeMap Str EvidenceValue} {raw : RawDiagnostic}
    (h : check.report entity message evidence = some raw) : raw.entityKey = entity := by
  unfold MetricCheck.report at h
  split_ifs at h
  cases h
  rfl

theorem MetricCheck.report_signature (check : MetricCheck) (entity message : Str)
    (evidence : BTreeMap Str EvidenceValue) :
    (check.report entity message evidence).map RawDiagnostic.signature
      = if check.actual ≤ check.limit then none
        else some (check.ruleId, ascii "limit:" ++ decimal check.limit) := by
  unfold MetricCheck.report
  split_ifs <;> rfl

theorem MetricCheck.report_eq_none_iff {check : MetricCheck} {entity message : Str}
    {evidence : BTreeMap Str EvidenceValue} :
    check.report entity message evidence = none ↔ check.actual ≤ check.limit := by
  unfold MetricCheck.report
  split_ifs with h
  · exact iff_of_true rfl h
  · exact iff_of_false nofun h

/-- Reports that differ by their message and evidence only. -/
theorem signatures_filterMap {checks : List MetricCheck} {message message' : MetricCheck → Str}
    {evidence evidence' : MetricCheck → BTreeMap Str EvidenceValue} (entity entity' : Str) :
    (checks.filterMap fun check => check.report entity (message check) (evidence check)).map
        RawDiagnostic.signature
      = (checks.filterMap fun check => check.report entity' (message' check) (evidence' check)).map
        RawDiagnostic.signature := by
  rw [List.map_filterMap, List.map_filterMap]
  congr 1
  funext check
  rw [MetricCheck.report_signature, MetricCheck.report_signature]

/-- The rules of functions of JavaScript and TypeScript. -/
def nodeRules (limits : RuleLimits) : MetricRules NodeFunction where
  baseEntity := NodeFunction.baseEntity
  diagnose := NodeFunction.diagnose limits
  Compliant := NodeFunction.Compliant limits
  entityKey_eq := by
    intro function entity raw hraw
    obtain ⟨check, -, hcheck⟩ := List.mem_filterMap.mp hraw
    exact MetricCheck.report_eq_some hcheck
  signatures := fun _ entity entity' => signatures_filterMap entity entity'
  diagnose_eq_nil_iff := by
    intro function entity
    unfold NodeFunction.diagnose NodeFunction.Compliant
    rw [List.filterMap_eq_nil_iff]
    simp only [NodeFunction.maybeMetric, MetricCheck.report_eq_none_iff]
    simp [NodeFunction.checks]

/-- The rules of functions and closures of Rust. -/
def rustRules [Sha256] (edition : Str) (limits : RuleLimits) : MetricRules RustCallable where
  baseEntity := RustCallable.baseEntity
  diagnose := RustCallable.diagnose edition limits
  Compliant := RustCallable.Compliant limits
  entityKey_eq := by
    intro callable entity raw hraw
    obtain ⟨check, -, hcheck⟩ := List.mem_filterMap.mp hraw
    exact MetricCheck.report_eq_some hcheck
  signatures := fun _ entity entity' => signatures_filterMap entity entity'
  diagnose_eq_nil_iff := by
    intro callable entity
    unfold RustCallable.diagnose RustCallable.Compliant
    rw [List.filterMap_eq_nil_iff]
    simp only [RustCallable.pushMetric, MetricCheck.report_eq_none_iff]
    simp [RustCallable.checks]

end Opcore
