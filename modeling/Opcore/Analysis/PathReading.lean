/-
  Opcore.Analysis.PathReading

  How far the facts of a file depend on its path.  Two files with the same
  bytes, language and mode get the same facts whenever the analysis reads the
  same from their two paths; for a Go file that is also necessary, unless the
  file has nothing a build constraint could take away.
-/
import Opcore.Analysis.Analyze

namespace Opcore

open Text Collections

/-! ## Outcomes -/

/-- The outcome of an analysis, without the text of an unsupported file's reason. -/
def outcome (result : Except AnalysisError FileFacts) : Except AnalysisError FileFacts :=
  match result with
  | .error (.unsupported _) => .error (.unsupported [])
  | result => result

@[simp] theorem outcome_ok (facts : FileFacts) : outcome (.ok facts) = .ok facts := rfl

theorem outcome_eq_ok {result : Except AnalysisError FileFacts} {facts : FileFacts} :
    outcome result = .ok facts ↔ result = .ok facts := by
  rcases result with (_ | _ | _) | _ <;> simp [outcome]

/-- Mapping an injective function over the facts neither joins nor separates outcomes. -/
theorem outcome_map_inj {f : FileFacts → FileFacts} (hf : Function.Injective f)
    {r s : Except AnalysisError FileFacts} :
    outcome (r.map f) = outcome (s.map f) ↔ outcome r = outcome s := by
  rcases r with (_ | _ | _) | _ <;> rcases s with (_ | _ | _) | _ <;>
    simp [outcome, Except.map, hf.eq_iff]

/-! ## What is read of a path -/

/-- Equal but for the path. -/
structure SameContent (file other : SourceFile) : Prop where
  bytes : file.bytes = other.bytes
  language : file.language = other.language
  languageMode : file.languageMode = other.languageMode

def Language.isNode (language : Language) : Bool :=
  language = .javaScript || language = .typeScript

/-- What the analysis of a Node file takes from its path: the source type, where it has
    one, and whether the file is one of CommonJS. -/
def Node.reading (frontend : Node.Frontend) (file : SourceFile) : Option (SourceType × Bool) :=
  (sourceType frontend file).toOption.map fun type => (type, commonJsFile file)

/-- The analyses read the same from two paths: the same verdict on the name of a
    Go file, and the same source type, or none, of a Node file that is one of
    CommonJS under both paths or under neither. -/
def ReadAlike (frontends : Frontends) (file other : SourceFile) : Prop :=
  (file.language = .go → ∀ target, Go.modeTarget file.languageMode = some target →
    Go.excludedByName file.path target = Go.excludedByName other.path target)
  ∧ (file.language.isNode → Node.reading frontends.node file = Node.reading frontends.node other)

theorem SameContent.eq {file other : SourceFile} (h : SameContent file other) :
    other = { file with path := other.path } := by
  cases file
  cases other
  obtain ⟨rfl, rfl, rfl⟩ := h
  rfl

/-! ## Go -/

namespace Go

/-- The text and the lines of a file that the passes over it are handed. -/
def text (file : SourceFile) : Str := (sourceWithoutUtf8Bom file.bytes).1

def textLines (file : SourceFile) : LineIndex :=
  LineIndex.new (text file) (sourceWithoutUtf8Bom file.bytes).2

/-- The file gets as far as its module facts: it names a target, is text, has no
    syntax error, and none of the passes before the module facts fails. -/
structure Parses (frontend : Frontend) (file : SourceFile) (limits : RuleLimits)
    (target : GoTarget) (tokens : List GoToken) (tree : frontend.Tree) (metrics : MetricFacts) :
    Prop where
  mode : modeTarget file.languageMode = some target
  utf8 : utf8Valid (text file)
  scanned : frontend.scanTokens (text file) = .ok tokens
  parsed : frontend.parse (text file) = .ok tree
  noSyntaxErrors : frontend.syntaxDiagnostics tree (text file) (textLines file) target = .ok []
  measured : frontend.metrics tree (text file) tokens (textLines file) limits = .ok metrics

/-- The module facts a file has when its name does not exclude it, as they end
    up in the facts of the file. -/
def admittedFacts (frontend : Frontend) (source : Str) (target : GoTarget)
    (tree : frontend.Tree) (tokens : List GoToken) :
    Except AnalysisError (DependencyFacts × InterfaceFacts) :=
  (moduleFacts frontend (evaluateBuildDirectives source target) tree source tokens).map
    fun facts => (facts.1, withoutTestExports target facts.2)

/-- A file that parses and would lose something if its name excluded it: its own
    build directives do not exclude it already, and it has an import, an export,
    a shape, or a construct the extraction could not read. -/
def Contributes (frontend : Frontend) (file : SourceFile) (limits : RuleLimits) : Prop :=
  ∃ target tokens tree metrics, Parses frontend file limits target tokens tree metrics
    ∧ admittedFacts frontend (text file) target tree tokens
      ≠ .ok (completeDependencies [], completeInterfaces)

variable {frontend : Frontend} {file : SourceFile} {limits : RuleLimits} {target : GoTarget}
  {tokens : List GoToken} {tree : frontend.Tree} {metrics : MetricFacts}

theorem withoutTestExports_completeInterfaces (target : GoTarget) :
    withoutTestExports target completeInterfaces = completeInterfaces := by
  rw [withoutTestExports]
  split_ifs <;> rfl

theorem validateLanguageMode_of_target (hlanguage : file.language = .go)
    (h : modeTarget file.languageMode = some target) :
    validateLanguageMode file = .ok target := by
  rw [validateLanguageMode, if_neg (not_not_intro hlanguage), h]

theorem contributes_iff (h : Parses frontend file limits target tokens tree metrics) :
    Contributes frontend file limits ↔ admittedFacts frontend (text file) target tree tokens
      ≠ .ok (completeDependencies [], completeInterfaces) := by
  refine ⟨?_, fun hfacts => ⟨target, tokens, tree, metrics, h, hfacts⟩⟩
  rintro ⟨target', tokens', tree', metrics', h', hfacts⟩
  obtain rfl : target = target' := Option.some.inj (h.mode.symm.trans h'.mode)
  obtain rfl : tokens = tokens' := Except.ok.inj (h.scanned.symm.trans h'.scanned)
  obtain rfl : tree = tree' := Except.ok.inj (h.parsed.symm.trans h'.parsed)
  exact hfacts

/-- An admitted file has the facts of an excluded one exactly when it has no
    module facts. -/
theorem map_treeFacts_eq_iff :
    (moduleFacts frontend (evaluateBuildDirectives (text file) target) tree (text file) tokens).map
        (treeFacts metrics target)
      = .ok (treeFacts metrics target (completeDependencies [], completeInterfaces))
    ↔ admittedFacts frontend (text file) target tree tokens
      = .ok (completeDependencies [], completeInterfaces) := by
  rw [admittedFacts]
  cases moduleFacts frontend (evaluateBuildDirectives (text file) target) tree (text file) tokens with
  | error e => simp [Except.map]
  | ok facts => simp [Except.map, treeFacts, withoutTestExports_completeInterfaces]

theorem moduleFacts_of_excluded {path : RepoPath} (h : excludedByName path target) :
    (moduleFacts frontend (buildStatus path (text file) target) tree (text file) tokens).map
        (treeFacts metrics target)
      = .ok (treeFacts metrics target (completeDependencies [], completeInterfaces)) := by
  rw [buildStatus, if_pos h]
  rfl

theorem moduleFacts_of_not_excluded {path : RepoPath} (h : ¬ excludedByName path target) :
    moduleFacts frontend (buildStatus path (text file) target) tree (text file) tokens
      = moduleFacts frontend (evaluateBuildDirectives (text file) target) tree (text file)
          tokens := by
  rw [buildStatus, if_neg h]

variable [Sha256]

/-- The path of a file is handed to the passes over its text and to nothing before. -/
theorem analyze_path (path : RepoPath) :
    analyze frontend { file with path := path } limits
      = (validateLanguageMode file).bind fun target =>
          if utf8Valid (text file) then
            analyzeText frontend path (text file) (textLines file) target limits
          else pure (invalidUtf8Facts (text file) (textLines file) target) := rfl

/-- Where the file parses, the path matters to the build status and nothing else. -/
theorem analyze_of_parses (hlanguage : file.language = .go)
    (h : Parses frontend file limits target tokens tree metrics) (path : RepoPath) :
    analyze frontend { file with path := path } limits
      = (moduleFacts frontend (buildStatus path (text file) target) tree (text file) tokens).map
          (treeFacts metrics target) := by
  have hmode : validateLanguageMode file = .ok target :=
    validateLanguageMode_of_target hlanguage h.mode
  rw [analyze_path, hmode]
  simp only [Except.bind, h.utf8, if_true, analyzeText, h.scanned, h.parsed, h.noSyntaxErrors, bind,
    ne_eq, not_true_eq_false, if_false, analyzeTree, h.measured]
  cases moduleFacts frontend (buildStatus path (text file) target) tree (text file) tokens <;> rfl

/-- Where it does not, the path does not matter at all. -/
theorem analyze_of_not_parses
    (h : ¬ ∃ target tokens tree metrics, Parses frontend file limits target tokens tree metrics)
    (path : RepoPath) :
    analyze frontend { file with path := path } limits = analyze frontend file limits := by
  by_contra hne
  apply h
  -- Every stage that ends the analysis ends it alike for both paths, so the two
  -- results can only differ if all of them pass.
  have hself : analyze frontend file limits = _ := analyze_path file.path
  rw [analyze_path, hself] at hne
  rcases hmode : validateLanguageMode file with e | target
  · simp [hmode, Except.bind] at hne
  have htarget : modeTarget file.languageMode = some target := by
    rw [validateLanguageMode] at hmode
    split_ifs at hmode
    split at hmode
    · cases hmode
      assumption
    · cases hmode
  by_cases hutf8 : utf8Valid (text file)
  swap
  · simp [hmode, hutf8, Except.bind] at hne
  simp only [hmode, hutf8, if_true, Except.bind, analyzeText, bind] at hne
  rcases hscan : frontend.scanTokens (text file) with e | tokens
  · simp [hscan] at hne
  rcases hparse : frontend.parse (text file) with e | tree
  · simp [hscan, hparse] at hne
  rcases hsyntax : frontend.syntaxDiagnostics tree (text file) (textLines file) target with e | errors
  · simp [hscan, hparse, hsyntax] at hne
  by_cases herrors : errors = []
  swap
  · simp [hscan, hparse, hsyntax, herrors] at hne
  subst herrors
  rcases hmetrics : frontend.metrics tree (text file) tokens (textLines file) limits with e | metrics
  · simp [hscan, hparse, hsyntax, analyzeTree, hmetrics, bind, Except.bind] at hne
  exact ⟨target, tokens, tree, metrics, htarget, hutf8, hscan, hparse, hsyntax, hmetrics⟩

/-- Excluding a source that parses changes its facts exactly when it has some to lose. -/
theorem analyze_excluded_iff (hlanguage : file.language = .go)
    (h : Parses frontend file limits target tokens tree metrics) {path other : RepoPath}
    (hpath : excludedByName path target) (hother : ¬ excludedByName other target) :
    outcome (analyze frontend { file with path := path } limits)
        = outcome (analyze frontend { file with path := other } limits)
      ↔ ¬ Contributes frontend file limits := by
  rw [analyze_of_parses hlanguage h path, analyze_of_parses hlanguage h other,
    moduleFacts_of_excluded hpath, moduleFacts_of_not_excluded hother, contributes_iff h, not_not,
    outcome_ok, eq_comm, outcome_eq_ok, map_treeFacts_eq_iff]

/-- Two paths give one Go source the same facts exactly when they agree on
    excluding it, or the source has nothing to lose. -/
theorem analyze_path_iff (hlanguage : file.language = .go) (path other : RepoPath) :
    outcome (analyze frontend { file with path := path } limits)
        = outcome (analyze frontend { file with path := other } limits)
      ↔ (∀ target, modeTarget file.languageMode = some target →
          excludedByName path target = excludedByName other target)
        ∨ ¬ Contributes frontend file limits := by
  by_cases hparses : ∃ target tokens tree metrics,
      Parses frontend file limits target tokens tree metrics
  swap
  · -- Nothing was read of either path.
    have hcontributes : ¬ Contributes frontend file limits :=
      fun ⟨target, tokens, tree, metrics, h, _⟩ => hparses ⟨target, tokens, tree, metrics, h⟩
    rw [analyze_of_not_parses hparses path, analyze_of_not_parses hparses other]
    exact ⟨fun _ => Or.inr hcontributes, fun _ => rfl⟩
  obtain ⟨target, tokens, tree, metrics, h⟩ := hparses
  -- The mode names one target, so the first alternative is about that one.
  have htarget : (∀ t, modeTarget file.languageMode = some t →
      excludedByName path t = excludedByName other t)
      ↔ excludedByName path target = excludedByName other target := by
    rw [h.mode]
    exact ⟨fun ht => ht target rfl, fun heq t ht => Option.some.inj ht ▸ heq⟩
  rw [htarget]
  by_cases hpath : excludedByName path target <;> by_cases hother : excludedByName other target
  · rw [analyze_of_parses hlanguage h path, analyze_of_parses hlanguage h other,
      moduleFacts_of_excluded hpath, moduleFacts_of_excluded hother, hpath, hother]
    simp
  · rw [analyze_excluded_iff hlanguage h hpath hother, hpath, Bool.eq_false_of_not_eq_true hother]
    simp
  · rw [eq_comm, analyze_excluded_iff hlanguage h hother hpath, hother,
      Bool.eq_false_of_not_eq_true hpath]
    simp
  · rw [analyze_of_parses hlanguage h path, analyze_of_parses hlanguage h other,
      moduleFacts_of_not_excluded hpath, moduleFacts_of_not_excluded hother,
      Bool.eq_false_of_not_eq_true hpath, Bool.eq_false_of_not_eq_true hother]
    simp

end Go

/-! ## Node -/

theorem Node.validateSourceLanguage_error {file : SourceFile} {type : SourceType}
    {e : AnalysisError} (h : validateSourceLanguage file type = .error e) :
    ∃ reason, e = .unsupported reason := by
  rw [validateSourceLanguage] at h
  split at h
  · split_ifs at h
    cases h
    exact ⟨_, rfl⟩
  · split_ifs at h
    cases h
    exact ⟨_, rfl⟩
  · cases h
    exact ⟨_, rfl⟩

/-- A source type that cannot be had is an unsupported file. -/
theorem Node.sourceType_error {frontend : Node.Frontend} {file : SourceFile} {e : AnalysisError}
    (h : sourceType frontend file = .error e) : ∃ reason, e = .unsupported reason := by
  rw [sourceType] at h
  rcases hfrom : frontend.fromPath file.path.bytes with reason | type
  · rw [hfrom] at h
    cases h
    exact ⟨reason, rfl⟩
  · rcases hvalid : validateSourceLanguage file type with e' | _
    · simp only [hfrom, Except.mapError, bind, Except.bind, hvalid] at h
      cases h
      exact validateSourceLanguage_error hvalid
    · simp [hfrom, Except.mapError, bind, Except.bind, hvalid, pure, Except.pure] at h

/-- Two files of one content that read alike have the same outcome. -/
theorem Node.outcome_analyze {frontend : Node.Frontend} {file other : SourceFile}
    {limits : RuleLimits} (h : SameContent file other)
    (hread : reading frontend file = reading frontend other) :
    outcome (analyze frontend file limits) = outcome (analyze frontend other limits) := by
  rw [reading, reading] at hread
  rw [analyze, analyze]
  rcases hfile : sourceType frontend file with e | type
  · rcases hother : sourceType frontend other with e' | type'
    · obtain ⟨_, rfl⟩ := sourceType_error hfile
      obtain ⟨_, rfl⟩ := sourceType_error hother
      rfl
    · simp [hfile, hother, Except.toOption] at hread
  · rcases hother : sourceType frontend other with e' | type'
    · simp [hfile, hother, Except.toOption] at hread
    · obtain ⟨rfl, hcommonJs⟩ : type = type' ∧ commonJsFile file = commonJsFile other := by
        simpa [hfile, hother, Except.toOption] using hread
      show outcome (frontend.analyze file.bytes file.languageMode type (commonJsFile file) limits)
        = outcome (frontend.analyze other.bytes other.languageMode type (commonJsFile other) limits)
      rw [h.bytes, h.languageMode, hcommonJs]

/-! ## Whole files -/

/-- The language's facts as `analyze` returns them, after the diagnostics of the
    common checks. -/
def afterDiagnostics (diagnostics : List RawDiagnostic) (facts : FileFacts) : FileFacts :=
  { facts with diagnostics := diagnostics ++ facts.diagnostics }

theorem afterDiagnostics_injective (diagnostics : List RawDiagnostic) :
    Function.Injective (afterDiagnostics diagnostics) := by
  intro a b h
  obtain ⟨_, _, _, _, _, _, _⟩ := a
  obtain ⟨_, _, _, _, _, _, _⟩ := b
  simp_all [afterDiagnostics]

section

variable [Sha256] {frontends : Frontends} {file other : SourceFile} {limits : RuleLimits}

/-- Whole files compare as their language's facts do, once the common checks pass. -/
theorem outcome_analyze_iff (h : SameContent file other) :
    outcome (analyze frontends file limits) = outcome (analyze frontends other limits)
      ↔ ((∃ facts, Hygiene.analyze file.bytes limits = .ok facts) →
        outcome (analyzeLanguage frontends file limits)
          = outcome (analyzeLanguage frontends other limits)) := by
  have hanalyze : ∀ f, analyze frontends f limits = (Hygiene.analyze f.bytes limits).bind fun facts =>
      (analyzeLanguage frontends f limits).map (afterDiagnostics facts.diagnostics) := fun f => by
    rw [analyze]
    cases Hygiene.analyze f.bytes limits <;> cases analyzeLanguage frontends f limits <;> rfl
  rw [hanalyze, hanalyze, ← h.bytes]
  rcases Hygiene.analyze file.bytes limits with e | facts
  · simp [Except.bind]
  · simpa [Except.bind] using outcome_map_inj (afterDiagnostics_injective facts.diagnostics)

/-- A Go file that passes the common checks and would lose facts if its name
    excluded it. -/
def SensitiveToName (frontends : Frontends) (file : SourceFile) (limits : RuleLimits) : Prop :=
  file.language = .go ∧ (∃ facts, Hygiene.analyze file.bytes limits = .ok facts)
    ∧ Go.Contributes frontends.go file limits

/-- Files of one content whose paths read alike have the same facts. -/
theorem outcome_analyze_of_readAlike (h : SameContent file other)
    (hread : ReadAlike frontends file other) :
    outcome (analyze frontends file limits) = outcome (analyze frontends other limits) := by
  rw [outcome_analyze_iff h]
  intro _
  rw [analyzeLanguage, analyzeLanguage, ← h.language]
  cases hlanguage : file.language with
  | javaScript => exact Node.outcome_analyze h (hread.2 (by rw [hlanguage]; rfl))
  | typeScript => exact Node.outcome_analyze h (hread.2 (by rw [hlanguage]; rfl))
  | go =>
    show outcome (Go.analyze frontends.go { file with path := file.path } limits) = _
    rw [h.eq, Go.analyze_path_iff hlanguage]
    exact Or.inl (hread.1 hlanguage)
  | _ => simp [h.bytes, h.languageMode]

/-- Outside Node the converse holds too, but for Go files with nothing to lose. -/
theorem outcome_analyze_iff_readAlike (h : SameContent file other)
    (hnode : file.language.isNode = false) :
    outcome (analyze frontends file limits) = outcome (analyze frontends other limits)
      ↔ ReadAlike frontends file other ∨ ¬ SensitiveToName frontends file limits := by
  by_cases hgo : file.language = .go
  swap
  · have hread : ReadAlike frontends file other :=
      ⟨fun h => absurd h hgo, fun h => absurd h (by rw [hnode]; simp)⟩
    exact iff_of_true (outcome_analyze_of_readAlike h hread) (Or.inl hread)
  have hread : ReadAlike frontends file other ↔
      ∀ target, Go.modeTarget file.languageMode = some target →
        Go.excludedByName file.path target = Go.excludedByName other.path target :=
    ⟨fun hread => hread.1 hgo, fun hname => ⟨fun _ => hname, fun h => absurd h (by rw [hnode]; simp)⟩⟩
  have hlanguage : outcome (analyzeLanguage frontends file limits)
        = outcome (analyzeLanguage frontends other limits)
      ↔ ReadAlike frontends file other ∨ ¬ Go.Contributes frontends.go file limits := by
    rw [analyzeLanguage, analyzeLanguage, ← h.language, hgo, hread,
      ← Go.analyze_path_iff hgo file.path other.path, ← h.eq]
  rw [outcome_analyze_iff h, hlanguage, SensitiveToName]
  tauto

end

end Opcore
