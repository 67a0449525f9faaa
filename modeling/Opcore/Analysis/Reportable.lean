/-
  Opcore.Analysis.Reportable

  What an analysis reports can be sent: every diagnostic has a rule and a message,
  and positions that are `u32`.  The checks of the repository's own passes over the
  bytes are shown to be so; those of the language front ends are a premise.
-/
import Opcore.Analysis.Analyze
import Opcore.Library.Fallible

namespace Opcore

open Text Collections

/-- A position of a source file, whose line and column are `u32`. -/
def Position.Fits (position : Position) : Prop :=
  position.line ≤ u32Max ∧ position.column ≤ u32Max

/-- A diagnostic with a rule, which is always one of the constants of the repository, with
    a message, which may come from a parser, and with positions of their type. -/
structure RawDiagnostic.Reportable (raw : RawDiagnostic) : Prop where
  rule : raw.ruleId ≠ []
  message : raw.message ≠ []
  range : ∀ range, raw.range = some range → range.start.Fits ∧ range.stop.Fits

def FileFacts.Reportable (facts : FileFacts) : Prop := ∀ raw ∈ facts.diagnostics, raw.Reportable

/-- A message that starts with a text is not empty. -/
theorem ascii_append_ne_nil {start rest : String} (h : ascii start ≠ []) :
    ascii (start ++ rest) ≠ [] := by
  unfold ascii
  rw [String.toList_append, List.map_append]
  exact List.append_ne_nil_of_left_ne_nil h _

theorem LineIndex.fits_position (lines : LineIndex) (offset : Nat) :
    (lines.position offset).Fits :=
  ⟨Nat.min_le_right _ _, Nat.min_le_right _ _⟩

theorem reportable_invalidUtf8Diagnostic [Sha256] {language ruleId : Str} (hrule : ruleId ≠ [])
    (source : Str) (lines : LineIndex) (evidence : BTreeMap Str EvidenceValue) :
    (invalidUtf8Diagnostic language ruleId source lines evidence).Reportable := by
  refine ⟨hrule, List.append_ne_nil_of_right_ne_nil _ (by decide), ?_⟩
  intro range hrange
  cases hrange
  exact ⟨lines.fits_position _, lines.fits_position _⟩

/-! ## Hygiene -/

namespace Hygiene

theorem reportable_metric {input : MetricInput} (hrule : input.ruleId ≠ [])
    (hmessage : input.message ≠ []) (hline : input.line ≤ u32Max) : (metric input).Reportable := by
  refine ⟨hrule, hmessage, ?_⟩
  intro range hrange
  cases hrange
  have hfirst : 1 ≤ u32Max := by decide
  exact ⟨⟨hline, hfirst⟩, hline, Nat.min_le_right _ _⟩

variable [Sha256] {bytes : Str} {limits : RuleLimits} {s s' : ScanState}

theorem reportable_checkLine {stop : Nat}
    (h : checkLine bytes limits stop s = .ok s') (hs : ∀ raw ∈ s.diagnostics, raw.Reportable) :
    ∀ raw ∈ s'.diagnostics, raw.Reportable := by
  have hrule : ascii "hygiene.max-line-bytes" ≠ [] := by decide
  have hmessage : ∀ length : Nat, ascii
      s!"line has {length} bytes; configured maximum is {limits.maxLineBytes}" ≠ [] := by
    intro length
    exact ascii_append_ne_nil (ascii_append_ne_nil (ascii_append_ne_nil (by decide)))
  have hadd : ∀ raw : RawDiagnostic, raw.Reportable →
      ∀ other ∈ s.diagnostics ++ [raw], other.Reportable := by
    intro raw hraw other hother
    rcases List.mem_append.mp hother with hother | hother
    · exact hs other hother
    · rw [List.mem_singleton.mp hother]
      exact hraw
  unfold checkLine at h
  dsimp only at h
  split_ifs at h
  · cases h
    exact hadd _ (reportable_metric hrule (hmessage _) (Nat.min_le_right _ _))
  · cases h
    exact hs
  · cases h
    exact hadd _ (reportable_metric hrule (hmessage _) (Nat.min_le_right _ _))
  · cases h
    exact hs

theorem reportable_endLine {cursor next : Nat} (h : endLine bytes limits cursor next s = .ok s')
    (hs : ∀ raw ∈ s.diagnostics, raw.Reportable) : ∀ raw ∈ s'.diagnostics, raw.Reportable := by
  obtain ⟨checked, hchecked, h⟩ := Except.bind_eq_ok_iff.mp h
  cases h
  show ∀ raw ∈ checked.diagnostics, raw.Reportable
  exact reportable_checkLine hchecked hs

/-- What a scan reports it has for a line, and every line is checked the same way. -/
theorem reportable_scanLines {rest : Str} {cursor : Nat}
    (h : scanLines bytes limits rest cursor s = .ok s')
    (hs : ∀ raw ∈ s.diagnostics, raw.Reportable) : ∀ raw ∈ s'.diagnostics, raw.Reportable := by
  induction rest, cursor, s using scanLines.induct with
  | case1 cursor s hlt =>
    rw [scanLines, if_pos hlt] at h
    exact reportable_endLine h hs
  | case2 cursor s hlt =>
    rw [scanLines, if_neg hlt] at h
    cases h
    exact hs
  | case3 cursor s rest ih =>
    obtain ⟨next, hnext, h⟩ := Except.bind_eq_ok_iff.mp h
    exact ih next h (reportable_endLine hnext hs)
  | case4 cursor s b rest hne hbreak ih =>
    rw [scanLines, if_pos hbreak] at h
    · obtain ⟨next, hnext, h⟩ := Except.bind_eq_ok_iff.mp h
      exact ih next h (reportable_endLine hnext hs)
    · exact hne
  | case5 cursor s b rest hne hbreak ih =>
    rw [scanLines, if_neg hbreak] at h
    · exact ih h hs
    · exact hne

theorem reportable_analyze {facts : FileFacts} (h : analyze bytes limits = .ok facts) :
    facts.Reportable := by
  unfold analyze at h
  split_ifs at h
  obtain ⟨s, hscan, h⟩ := Except.bind_eq_ok_iff.mp h
  have hlines := reportable_scanLines hscan nofun
  have hrule : ascii "hygiene.max-file-lines" ≠ [] := by decide
  have hmessage : ascii
      s!"file has {s.lineCount} lines; configured maximum is {limits.maxFileLines}" ≠ [] :=
    ascii_append_ne_nil (ascii_append_ne_nil (ascii_append_ne_nil (by decide)))
  have hfirst : 1 ≤ u32Max := by decide
  cases h
  intro raw hraw
  rcases List.mem_append.mp hraw with hraw | hraw
  · exact hlines raw hraw
  · split_ifs at hraw
    · rw [List.mem_singleton.mp hraw]
      exact reportable_metric hrule hmessage hfirst
    · cases hraw

end Hygiene

/-! ## Every language -/

/-- The front ends report only what can be sent. -/
structure Frontends.Reportable (frontends : Frontends) : Prop where
  goSyntax : ∀ tree source lines target diagnostics,
    frontends.go.syntaxDiagnostics tree source lines target = .ok diagnostics →
    ∀ raw ∈ diagnostics, raw.Reportable
  goMetrics : ∀ tree source tokens lines limits metrics,
    frontends.go.metrics tree source tokens lines limits = .ok metrics →
    ∀ raw ∈ metrics.diagnostics, raw.Reportable
  node : ∀ bytes mode type commonJs limits facts,
    frontends.node.analyze bytes mode type commonJs limits = .ok facts → facts.Reportable
  rust : ∀ bytes mode limits facts, frontends.rust bytes mode limits = .ok facts → facts.Reportable
  python : ∀ bytes limits facts, frontends.python bytes limits = .ok facts → facts.Reportable
  hcl : ∀ bytes mode facts, frontends.hcl bytes mode = .ok facts → facts.Reportable
  shell : ∀ bytes mode facts, frontends.shell bytes mode = .ok facts → facts.Reportable
  protobuf : ∀ bytes mode facts, frontends.protobuf bytes mode = .ok facts → facts.Reportable

section

variable [Sha256] {frontends : Frontends} {file : SourceFile} {limits : RuleLimits}
  {facts : FileFacts}

theorem Frontends.Reportable.analyzeGo (hfrontends : frontends.Reportable)
    (h : Go.analyze frontends.go file limits = .ok facts) : facts.Reportable := by
  obtain ⟨target, -, h⟩ := Except.bind_eq_ok_iff.mp h
  dsimp only at h
  split_ifs at h
  · obtain ⟨tokens, -, h⟩ := Except.bind_eq_ok_iff.mp h
    obtain ⟨tree, -, h⟩ := Except.bind_eq_ok_iff.mp h
    obtain ⟨syntaxErrors, hsyntax, h⟩ := Except.bind_eq_ok_iff.mp h
    split_ifs at h
    · cases h
      exact hfrontends.goSyntax _ _ _ _ _ hsyntax
    · obtain ⟨metrics, hmetrics, h⟩ := Except.bind_eq_ok_iff.mp h
      obtain ⟨modules, -, h⟩ := Except.bind_eq_ok_iff.mp h
      cases h
      exact hfrontends.goMetrics _ _ _ _ _ _ hmetrics
  · cases h
    intro raw hraw
    rw [List.mem_singleton.mp hraw]
    exact reportable_invalidUtf8Diagnostic (by decide) _ _ _

/-- What the analysis of a file reports can be sent where what the front ends report can. -/
theorem Frontends.Reportable.analyze (hfrontends : frontends.Reportable)
    (h : analyze frontends file limits = .ok facts) : facts.Reportable := by
  obtain ⟨checks, hchecks, h⟩ := Except.bind_eq_ok_iff.mp h
  obtain ⟨language, hlanguage, h⟩ := Except.bind_eq_ok_iff.mp h
  have hfacts : language.Reportable := by
    unfold analyzeLanguage at hlanguage
    split at hlanguage
    · obtain ⟨type, -, hlanguage⟩ := Except.bind_eq_ok_iff.mp hlanguage
      exact hfrontends.node _ _ _ _ _ _ hlanguage
    · obtain ⟨type, -, hlanguage⟩ := Except.bind_eq_ok_iff.mp hlanguage
      exact hfrontends.node _ _ _ _ _ _ hlanguage
    · exact hfrontends.rust _ _ _ _ hlanguage
    · exact hfrontends.python _ _ _ hlanguage
    · exact hfrontends.analyzeGo hlanguage
    · exact hfrontends.hcl _ _ _ hlanguage
    · exact hfrontends.shell _ _ _ hlanguage
    · exact hfrontends.protobuf _ _ _ hlanguage
  cases h
  intro raw hraw
  rcases List.mem_append.mp hraw with hraw | hraw
  · exact Hygiene.reportable_analyze hchecks raw hraw
  · exact hfacts raw hraw

end

end Opcore
