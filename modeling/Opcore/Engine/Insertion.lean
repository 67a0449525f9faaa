/-
  Opcore.Engine.Insertion

  The introduced comparison when one more callable stands in a file.  Callables
  after it that have the same base entity count one more before them, so what is
  reported of them is reported under another entity.
-/
import Opcore.Analysis.CallableMetrics

namespace Opcore

open Text Collections Json

/-! ## Entities -/

theorem toNat_le_of_mem_toDigits {n : Nat} {c : Char} (hc : c ∈ Nat.toDigits 10 n) :
    c.toNat ≤ 57 := by
  have hdigit : c.isDigit := Nat.isDigit_of_mem_toDigits (by decide) (by decide) hc
  simp only [Char.isDigit, Bool.and_eq_true, decide_eq_true_eq] at hdigit
  simpa using UInt32.le_iff_toNat_le.mp hdigit.2

theorem map_char_decimal (n : Nat) :
    (decimal n).map (fun b => Char.ofNat b.toNat) = Nat.toDigits 10 n := by
  unfold decimal
  rw [List.map_map]
  refine (List.map_congr_left fun c hc => ?_).trans (List.map_id _)
  have hhigh := toNat_le_of_mem_toDigits hc
  have hbyte : (byte c).toNat = c.toNat := by
    rw [byte, UInt8.toNat_ofNat']
    omega
  show Char.ofNat (byte c).toNat = c
  rw [hbyte]
  exact Char.ofNat_toNat c

theorem decimal_injective {n m : Nat} (h : decimal n = decimal m) : n = m := by
  have hdigits : Nat.toDigits 10 n = Nat.toDigits 10 m := by
    rw [← map_char_decimal, ← map_char_decimal, h]
  rw [← @Nat.ofDigitChars_ten_toDigits n, ← @Nat.ofDigitChars_ten_toDigits m, hdigits]

theorem colon_not_mem_decimal (n : Nat) : byte ':' ∉ decimal n := by
  intro hmem
  obtain ⟨c, hc, heq⟩ := List.mem_map.mp hmem
  have hhigh := toNat_le_of_mem_toDigits hc
  have hnat := congrArg UInt8.toNat heq
  rw [byte, UInt8.toNat_ofNat'] at hnat
  have hcolon : (byte ':').toNat = 58 := by decide
  rw [hcolon] at hnat
  omega

/-- An entity tells the base and the occurrence: the last colon parts them. -/
theorem entityKey_injective {base base' : Str} {n m : Nat}
    (h : entityKey base n = entityKey base' m) : base = base' ∧ n = m := by
  have hdigits : ∀ (base : Str) (n : Nat),
      (entityKey base n).reverse.takeWhile (fun b => b ≠ byte ':') = (decimal n).reverse := by
    intro base n
    have hreverse : (entityKey base n).reverse
        = (decimal n).reverse ++ byte ':' :: base.reverse := by
      unfold entityKey
      rw [List.reverse_append, List.reverse_append]
      rfl
    rw [hreverse, List.takeWhile_append_of_pos, List.takeWhile_cons_of_neg (by simp),
      List.append_nil]
    intro b hb
    have hne : b ≠ byte ':' := fun heq => colon_not_mem_decimal n (heq ▸ List.mem_reverse.mp hb)
    simpa using hne
  have hdecimal : decimal n = decimal m := by
    rw [← List.reverse_inj, ← hdigits base n, ← hdigits base' m, h]
  unfold entityKey at h
  rw [hdecimal] at h
  exact ⟨List.append_cancel_right (List.append_cancel_right h), decimal_injective hdecimal⟩

/-! ## Occurrences -/

section Occurrences

variable {α : Type} (rules : MetricRules α)

/-- The callables of a list with a base entity. -/
def MetricRules.occurrences (callables : List α) (base : Str) : Nat :=
  (callables.map rules.baseEntity).count base

/-- What is reported of some callables that stand after others. -/
def MetricRules.diagnosedAfter : List α → List α → List RawDiagnostic
  | _, [] => []
  | before, callable :: callables =>
    rules.diagnose callable (entityKey (rules.baseEntity callable)
        (rules.occurrences before (rules.baseEntity callable)))
      ++ MetricRules.diagnosedAfter (before ++ [callable]) callables

variable {rules} {before before' callables : List α}

theorem MetricRules.occurrences_concat {callable : α} {base : Str} :
    rules.occurrences (before ++ [callable]) base
      = rules.occurrences before base + if rules.baseEntity callable = base then 1 else 0 := by
  unfold occurrences
  rw [List.map_append, List.count_append]
  simp [List.count_singleton]

theorem MetricRules.occurrences_append {base : Str} :
    rules.occurrences (before ++ callables) base
      = rules.occurrences before base + rules.occurrences callables base := by
  unfold occurrences
  rw [List.map_append, List.count_append]

/-- The loop counts the callables before each one. -/
theorem diagnoseCallables_eq {counts : BTreeMap Str Nat}
    (hcounts : ∀ base, (counts.get? base).getD 0 = rules.occurrences before base) :
    diagnoseCallables rules.baseEntity rules.diagnose counts callables
      = rules.diagnosedAfter before callables := by
  induction callables generalizing counts before with
  | nil => rfl
  | cons callable callables ih =>
    rw [diagnoseCallables, MetricRules.diagnosedAfter, hcounts, ih]
    intro base
    rw [BTreeMap.get?_insert, MetricRules.occurrences_concat]
    by_cases h : base = rules.baseEntity callable
    · rw [if_pos h, h, if_pos rfl]
      rfl
    · rw [if_neg h, if_neg (Ne.symm h), hcounts]
      rfl

theorem MetricRules.metricDiagnostics_eq (callables : List α) :
    rules.metricDiagnostics callables = rules.diagnosedAfter [] callables :=
  diagnoseCallables_eq fun _ => rfl

theorem MetricRules.diagnosedAfter_append (before first second : List α) :
    rules.diagnosedAfter before (first ++ second)
      = rules.diagnosedAfter before first ++ rules.diagnosedAfter (before ++ first) second := by
  induction first generalizing before with
  | nil => simp [diagnosedAfter]
  | cons callable first ih =>
    rw [List.cons_append, diagnosedAfter, diagnosedAfter, ih, List.append_assoc, List.append_assoc]
    rfl

theorem MetricRules.mem_diagnosedAfter {raw : RawDiagnostic} :
    raw ∈ rules.diagnosedAfter before callables ↔ ∃ first callable second,
      callables = first ++ callable :: second ∧ raw ∈ rules.diagnose callable
        (entityKey (rules.baseEntity callable)
          (rules.occurrences (before ++ first) (rules.baseEntity callable))) := by
  induction callables generalizing before with
  | nil => simp [diagnosedAfter]
  | cons callable callables ih =>
    rw [diagnosedAfter, List.mem_append, ih]
    constructor
    · rintro (h | ⟨first, found, second, rfl, h⟩)
      · exact ⟨[], callable, callables, rfl, by simpa using h⟩
      · exact ⟨callable :: first, found, second, rfl, by simpa using h⟩
    · rintro ⟨first, found, second, heq, h⟩
      cases first with
      | nil =>
        cases heq
        exact .inl (by simpa using h)
      | cons head first =>
        cases heq
        exact .inr ⟨first, found, second, rfl, by simpa using h⟩

end Occurrences

/-! ## Comparison keys -/

/-- What two views compare diagnostics of a file by: rule, entity and cause. -/
def RawDiagnostic.key (raw : RawDiagnostic) : Str × Str × Str :=
  (raw.ruleId, raw.entityKey, raw.causeKey)

section Keys

variable [Sha256]

/-- The comparison key `materialize` gives. -/
def comparisonKeyOf (language : Language) (key : Str × Str × Str) : Str :=
  hexEncode (hashDomain (ascii "diagnostic-comparison/v1")
    [key.1, language.family, key.2.1, key.2.2])

theorem countAt_materialized (file : SourceFile) (facts : FileFacts) (path : RepoPath) (key : Str) :
    countAt (materialized file facts) path key
      = (facts.diagnostics.map RawDiagnostic.key).countP fun raw =>
          file.path = path ∧ comparisonKeyOf file.language raw = key := by
  unfold countAt materialized
  rw [List.countP_map, List.countP_map]
  conv_rhs => rw [← List.zipIdx_map_fst 0 facts.diagnostics, List.countP_map]
  rfl

omit [Sha256] in
/-- Nothing is introduced exactly when every key occurs before as often as after. -/
theorem semanticDifference_eq_nil_iff {candidates subtract : List EvaluatedDiagnostic} :
    semanticDifference candidates subtract ∅ = []
      ↔ ∀ path key, countAt candidates path key ≤ countAt subtract path key := by
  have hnone : ∀ path key, (subtract.countP fun item =>
      (∅ : BTreeMap RepoPath RepoPath).get? item.diagnostic.path = some path
        ∧ item.comparisonKey = key) = 0 := by
    intro path key
    rw [List.countP_eq_zero]
    intro item _ h
    rw [decide_eq_true_eq] at h
    cases h.1
  unfold semanticDifference
  rw [List.map_eq_nil_iff]
  constructor
  · intro h path key
    have hcount := countAt_introduced candidates subtract ∅ path key
    rw [h, hnone] at hcount
    have hzero : countAt [] path key = 0 := rfl
    omega
  · intro h
    refine eq_nil_of_countAt_eq_zero fun item _ => ?_
    have hle := h item.diagnostic.path item.comparisonKey
    rw [countAt_introduced, hnone]
    omega

/-- No two of the diagnostics of a file have one digest without having one key. -/
def Separates (language : Language) (raws : List RawDiagnostic) : Prop :=
  ∀ raw ∈ raws, ∀ raw' ∈ raws,
    comparisonKeyOf language raw.key = comparisonKeyOf language raw'.key → raw.key = raw'.key

/-- Neither view introduces anything over the other. -/
def Undisturbed (file file' : SourceFile) (facts facts' : FileFacts) : Prop :=
  semanticDifference (materialized file' facts') (materialized file facts) ∅ = []
    ∧ semanticDifference (materialized file facts) (materialized file' facts') ∅ = []

variable {file file' : SourceFile} {facts facts' : FileFacts}

/-- Equal keys leave nothing to report. -/
theorem undisturbed_of_keys (hpath : file.path = file'.path)
    (hlanguage : file.language = file'.language)
    (hkeys : facts.diagnostics.map RawDiagnostic.key = facts'.diagnostics.map RawDiagnostic.key) :
    Undisturbed file file' facts facts' := by
  have hcount : ∀ path key, countAt (materialized file facts) path key
      = countAt (materialized file' facts') path key := by
    intro path key
    rw [countAt_materialized, countAt_materialized, hkeys, hpath, hlanguage]
  exact ⟨semanticDifference_eq_nil_iff.mpr fun path key => (hcount path key).ge,
    semanticDifference_eq_nil_iff.mpr fun path key => (hcount path key).le⟩

/-- What is not introduced has its key in the other view. -/
theorem exists_key_of_undisturbed (hpath : file.path = file'.path)
    (hlanguage : file.language = file'.language)
    (hseparates : Separates file.language (facts.diagnostics ++ facts'.diagnostics))
    (h : Undisturbed file file' facts facts') {raw : RawDiagnostic}
    (hraw : raw ∈ facts'.diagnostics) : ∃ raw' ∈ facts.diagnostics, raw'.key = raw.key := by
  have hle := semanticDifference_eq_nil_iff.mp h.1 file.path (comparisonKeyOf file.language raw.key)
  rw [countAt_materialized, countAt_materialized, ← hpath, ← hlanguage] at hle
  have hpos : 0 < (facts'.diagnostics.map RawDiagnostic.key).countP fun key =>
      file.path = file.path ∧ comparisonKeyOf file.language key
        = comparisonKeyOf file.language raw.key :=
    List.countP_pos_iff.mpr ⟨raw.key, List.mem_map_of_mem hraw, by simp⟩
  obtain ⟨key, hkey, hsame⟩ := List.countP_pos_iff.mp (hpos.trans_le hle)
  obtain ⟨raw', hraw', rfl⟩ := List.mem_map.mp hkey
  rw [decide_eq_true_eq] at hsame
  exact ⟨raw', hraw', hseparates raw' (List.mem_append_left _ hraw') raw
    (List.mem_append_right _ hraw) hsame.2⟩

end Keys

/-! ## One more callable -/

section Insertion

variable {α : Type} {rules : MetricRules α}

/-- Only callables that are reported have to be counted alike. -/
theorem MetricRules.keys_diagnosedAfter {before before' callables : List α}
    (h : ∀ callable ∈ callables, ¬ rules.Compliant callable →
      rules.occurrences before (rules.baseEntity callable)
        = rules.occurrences before' (rules.baseEntity callable)) :
    (rules.diagnosedAfter before callables).map RawDiagnostic.key
      = (rules.diagnosedAfter before' callables).map RawDiagnostic.key := by
  induction callables generalizing before before' with
  | nil => rfl
  | cons callable callables ih =>
    obtain ⟨hfirst, hrest⟩ := List.forall_mem_cons.mp h
    rw [diagnosedAfter, diagnosedAfter, List.map_append, List.map_append]
    congr 1
    · by_cases hcompliant : rules.Compliant callable
      · rw [(rules.diagnose_eq_nil_iff callable _).mpr hcompliant,
          (rules.diagnose_eq_nil_iff callable _).mpr hcompliant]
      · rw [hfirst hcompliant]
    · refine ih fun other hother hcompliant => ?_
      rw [occurrences_concat, occurrences_concat, hrest other hother hcompliant]

/-- Some callable of a list with a base entity is reported with a signature, and
    so many of them stand before it. -/
def MetricRules.FailsAt (rules : MetricRules α) (callables : List α) (base : Str)
    (signature : Str × Str) (occurrence : Nat) : Prop :=
  ∃ first callable second, callables = first ++ callable :: second
    ∧ rules.baseEntity callable = base ∧ rules.occurrences first base = occurrence
    ∧ signature ∈ (rules.diagnose callable []).map RawDiagnostic.signature

variable {signature : Str × Str} {occurrence : Nat}

theorem MetricRules.failsAt_iff {callables : List α} {base : Str} :
    rules.FailsAt callables base signature occurrence ↔ ∃ raw ∈ rules.metricDiagnostics callables,
      raw.key = (signature.1, entityKey base occurrence, signature.2) := by
  rw [metricDiagnostics_eq]
  constructor
  · rintro ⟨first, callable, second, rfl, rfl, rfl, hsignature⟩
    rw [← rules.signatures callable (entityKey (rules.baseEntity callable)
      (rules.occurrences first (rules.baseEntity callable))) []] at hsignature
    obtain ⟨raw, hraw, rfl⟩ := List.mem_map.mp hsignature
    refine ⟨raw, mem_diagnosedAfter.mpr ⟨first, callable, second, rfl, hraw⟩, ?_⟩
    show (raw.ruleId, raw.entityKey, raw.causeKey) = _
    rw [rules.entityKey_eq _ _ raw hraw]
    rfl
  · rintro ⟨raw, hraw, hkey⟩
    obtain ⟨first, callable, second, rfl, hreported⟩ := mem_diagnosedAfter.mp hraw
    have hentity := rules.entityKey_eq _ _ raw hreported
    obtain ⟨hrule, hsame, hcause⟩ : raw.ruleId = signature.1
        ∧ raw.entityKey = entityKey base occurrence ∧ raw.causeKey = signature.2 := by
      simpa [RawDiagnostic.key] using hkey
    obtain ⟨hbase, hoccurrence⟩ := entityKey_injective (hentity.symm.trans hsame)
    refine ⟨first, callable, second, rfl, hbase, by rw [← hbase]; exact hoccurrence, ?_⟩
    rw [← rules.signatures callable (entityKey (rules.baseEntity callable)
      (rules.occurrences ([] ++ first) (rules.baseEntity callable))) []]
    refine List.mem_map.mpr ⟨raw, hreported, ?_⟩
    rw [RawDiagnostic.signature, hrule, hcause]

theorem MetricRules.FailsAt.lt_length {callables : List α} {base : Str}
    (h : rules.FailsAt callables base signature occurrence) :
    occurrence < callables.length := by
  obtain ⟨first, callable, second, rfl, -, rfl, -⟩ := h
  have hle : rules.occurrences first base ≤ first.length := by
    unfold occurrences
    exact List.count_le_length.trans (List.length_map _).le
  rw [List.length_append, List.length_cons]
  omega

/-- A callable after the new one counts one more before it. -/
theorem MetricRules.FailsAt.shift {xs ys : List α} {inserted : α}
    (h : rules.FailsAt (xs ++ ys) (rules.baseEntity inserted) signature occurrence)
    (hle : rules.occurrences xs (rules.baseEntity inserted) ≤ occurrence) :
    rules.FailsAt (xs ++ inserted :: ys) (rules.baseEntity inserted) signature (occurrence + 1) := by
  obtain ⟨first, callable, second, heq, hbase, rfl, hsignature⟩ := h
  -- The callable cannot stand among the first ones: it would be counted there.
  obtain ⟨rest, rfl, rfl⟩ : ∃ rest, first = xs ++ rest ∧ ys = rest ++ callable :: second := by
    obtain ⟨rest, hxs, hys⟩ | ⟨rest, hfirst, hys⟩ := List.append_eq_append_iff.mp heq
    · exact ⟨rest, hxs, hys⟩
    · cases rest with
      | nil => exact ⟨[], by simpa using hfirst.symm, by simpa using hys.symm⟩
      | cons head rest =>
        cases hys
        rw [hfirst, occurrences_append] at hle
        have hself : 1 ≤ rules.occurrences (callable :: rest) (rules.baseEntity inserted) := by
          unfold occurrences
          rw [List.map_cons, hbase, List.count_cons_self]
          omega
        omega
  refine ⟨xs ++ inserted :: rest, callable, second, by simp, hbase, ?_, hsignature⟩
  have hconcat : xs ++ inserted :: rest = (xs ++ [inserted]) ++ rest := by simp
  rw [hconcat, occurrences_append, occurrences_concat, if_pos rfl, occurrences_append]
  omega

/-- No callable after the new one that has its base entity is reported. -/
def MetricRules.Unshadowed (rules : MetricRules α) (inserted : α) (ys : List α) : Prop :=
  ∀ callable ∈ ys, rules.baseEntity callable = rules.baseEntity inserted →
    rules.Compliant callable

variable [Sha256] {file file' : SourceFile} {facts facts' : FileFacts} {xs ys : List α}
  {inserted : α}

theorem MetricRules.undisturbed_of_unshadowed (hpath : file.path = file'.path)
    (hlanguage : file.language = file'.language) (hcompliant : rules.Compliant inserted)
    (hfacts : facts.diagnostics = rules.metricDiagnostics (xs ++ ys))
    (hfacts' : facts'.diagnostics = rules.metricDiagnostics (xs ++ inserted :: ys))
    (h : rules.Unshadowed inserted ys) : Undisturbed file file' facts facts' := by
  refine undisturbed_of_keys hpath hlanguage ?_
  rw [hfacts, hfacts', metricDiagnostics_eq, metricDiagnostics_eq, diagnosedAfter_append,
    diagnosedAfter_append, diagnosedAfter, (rules.diagnose_eq_nil_iff inserted _).mpr hcompliant,
    List.nil_append, List.nil_append, List.map_append, List.map_append]
  congr 1
  refine keys_diagnosedAfter fun callable hmem hreported => ?_
  have hbase : rules.baseEntity inserted ≠ rules.baseEntity callable :=
    fun heq => hreported (h callable hmem heq.symm)
  rw [occurrences_concat, if_neg hbase]
  rfl

/-- A callable that is reported and counts the new one before it is reported anew:
    else one after it would have to be reported, and so on without end. -/
theorem MetricRules.unshadowed_of_undisturbed (hpath : file.path = file'.path)
    (hlanguage : file.language = file'.language)
    (hseparates : Separates file.language (facts.diagnostics ++ facts'.diagnostics))
    (hfacts : facts.diagnostics = rules.metricDiagnostics (xs ++ ys))
    (hfacts' : facts'.diagnostics = rules.metricDiagnostics (xs ++ inserted :: ys))
    (h : Undisturbed file file' facts facts') : rules.Unshadowed inserted ys := by
  intro callable hmem hbase
  by_contra hreported
  obtain ⟨raw, hraw⟩ := List.exists_mem_of_ne_nil _
    (mt (rules.diagnose_eq_nil_iff callable []).mp hreported)
  obtain ⟨rest, second, rfl⟩ := List.append_of_mem hmem
  have hfirst : rules.FailsAt (xs ++ (rest ++ callable :: second)) (rules.baseEntity inserted)
      raw.signature (rules.occurrences (xs ++ rest) (rules.baseEntity inserted)) :=
    ⟨xs ++ rest, callable, second, by simp, hbase, rfl, List.mem_map_of_mem hraw⟩
  have hchain : ∀ k, rules.FailsAt (xs ++ (rest ++ callable :: second)) (rules.baseEntity inserted)
      raw.signature (rules.occurrences (xs ++ rest) (rules.baseEntity inserted) + k) := by
    intro k
    induction k with
    | zero => exact hfirst
    | succ k ih =>
      have hshift := ih.shift (by rw [occurrences_append]; omega)
      obtain ⟨moved, hmoved, hkey⟩ := failsAt_iff.mp hshift
      rw [← hfacts'] at hmoved
      obtain ⟨known, hknown, hsame⟩ :=
        exists_key_of_undisturbed hpath hlanguage hseparates h hmoved
      rw [hfacts] at hknown
      exact failsAt_iff.mpr ⟨known, hknown, hsame.trans hkey⟩
  have hbound := (hchain (xs ++ (rest ++ callable :: second)).length).lt_length
  omega

end Insertion

/-- A callable that passes no limit is put in a file, or taken out of it, without a
    finding exactly when no callable after it that has its base entity passes one.
    That the condition is needed rests on digests that tell the findings apart. -/
theorem compliant_insertion_undisturbed [Sha256] (limits : RuleLimits) (edition : Str)
    (file file' : SourceFile) (facts facts' : FileFacts) (hpath : file.path = file'.path)
    (hlanguage : file.language = file'.language) :
    (∀ (xs ys : List NodeFunction) (inserted : NodeFunction), inserted.Compliant limits →
      facts.diagnostics = NodeFunction.metricDiagnostics limits (xs ++ ys) →
      facts'.diagnostics = NodeFunction.metricDiagnostics limits (xs ++ inserted :: ys) →
      ((∀ function ∈ ys, function.baseEntity = inserted.baseEntity → function.Compliant limits) →
        Undisturbed file file' facts facts')
      ∧ (Separates file.language (facts.diagnostics ++ facts'.diagnostics) →
        Undisturbed file file' facts facts' →
        ∀ function ∈ ys, function.baseEntity = inserted.baseEntity → function.Compliant limits))
    ∧ ∀ (xs ys : List RustCallable) (inserted : RustCallable), inserted.Compliant limits →
      facts.diagnostics = RustCallable.metricDiagnostics edition limits (xs ++ ys) →
      facts'.diagnostics = RustCallable.metricDiagnostics edition limits (xs ++ inserted :: ys) →
      ((∀ callable ∈ ys, callable.baseEntity = inserted.baseEntity → callable.Compliant limits) →
        Undisturbed file file' facts facts')
      ∧ (Separates file.language (facts.diagnostics ++ facts'.diagnostics) →
        Undisturbed file file' facts facts' →
        ∀ callable ∈ ys, callable.baseEntity = inserted.baseEntity →
          callable.Compliant limits) := by
  refine ⟨fun xs ys inserted hcompliant hfacts hfacts' => ?_,
    fun xs ys inserted hcompliant hfacts hfacts' => ?_⟩
  · exact ⟨(nodeRules limits).undisturbed_of_unshadowed hpath hlanguage hcompliant hfacts hfacts',
      fun hseparates => (nodeRules limits).unshadowed_of_undisturbed hpath hlanguage hseparates
        hfacts hfacts'⟩
  · exact ⟨(rustRules edition limits).undisturbed_of_unshadowed hpath hlanguage hcompliant hfacts
        hfacts',
      fun hseparates => (rustRules edition limits).unshadowed_of_undisturbed hpath hlanguage
        hseparates hfacts hfacts'⟩

/-- A function of one line with some parameters. -/
def shortFunction (name : Str) (parameterCount : Nat) : NodeFunction :=
  ⟨name, ⟨⟨1, 1, 0⟩, ⟨1, 20, 19⟩⟩, parameterCount, 0, 1⟩

def scriptFile : SourceFile := ⟨⟨ascii "a.js", by decide⟩, [], .javaScript, []⟩

def scriptFacts (functions : List NodeFunction) : FileFacts :=
  { diagnostics := NodeFunction.metricDiagnostics {} functions }

/-- A function put before one with too many parameters and another name. -/
theorem compliant_insertion_undisturbed_named :
    @Undisturbed identityDigest scriptFile scriptFile
      (scriptFacts [shortFunction (ascii "wide") 9])
      (scriptFacts [shortFunction (ascii "narrow") 1, shortFunction (ascii "wide") 9]) := by
  have hmain := @compliant_insertion_undisturbed identityDigest {} (ascii "2024") scriptFile
    scriptFile (scriptFacts [shortFunction (ascii "wide") 9])
    (scriptFacts [shortFunction (ascii "narrow") 1, shortFunction (ascii "wide") 9]) rfl rfl
  refine (hmain.1 [] [shortFunction (ascii "wide") 9] (shortFunction (ascii "narrow") 1)
    (by decide) rfl rfl).1 ?_
  rw [List.forall_mem_singleton]
  intro hbase
  exact absurd hbase (by decide)

/-- An arrow function put before another one that has too many parameters: the other
    one is reported as new. -/
theorem not_forall_insertion_undisturbed :
    ¬ ∀ (xs ys : List NodeFunction) (inserted : NodeFunction), inserted.Compliant {} →
      @Undisturbed identityDigest scriptFile scriptFile (scriptFacts (xs ++ ys))
        (scriptFacts (xs ++ inserted :: ys)) := by
  intro h
  have hnone : @semanticDifference
      (@materialized identityDigest scriptFile (scriptFacts
        [shortFunction (ascii "anonymous-arrow") 1, shortFunction (ascii "anonymous-arrow") 9]))
      (@materialized identityDigest scriptFile (scriptFacts
        [shortFunction (ascii "anonymous-arrow") 9])) ∅ = [] :=
    (h [] [shortFunction (ascii "anonymous-arrow") 9] (shortFunction (ascii "anonymous-arrow") 1)
      (by decide)).1
  have hreported : (@semanticDifference
      (@materialized identityDigest scriptFile (scriptFacts
        [shortFunction (ascii "anonymous-arrow") 1, shortFunction (ascii "anonymous-arrow") 9]))
      (@materialized identityDigest scriptFile (scriptFacts
        [shortFunction (ascii "anonymous-arrow") 9])) ∅).length = 1 := by
    decide +kernel
  rw [hnone] at hreported
  cases hreported

end Opcore
