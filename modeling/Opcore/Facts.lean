/-
  Opcore.Facts

  Facts by key.  A request analyses one file per fact key and looks the facts of
  every file up under its key, and a cache carries facts from one analysis to
  the next.  Both are sound as long as files with one key read alike: then
  every cached and every shared set of facts is the file's own.
-/
import Opcore.Analysis.PathReading
import Opcore.Cache
import Opcore.Source.Snapshot
import Opcore.Library.Fallible

namespace Opcore

open Text Collections FactCache LawfulFactCache

section

variable [Sha256] (frontends : Frontends) (limits : RuleLimits) (parserOptions : Str)

/-! ## Loading -/

def nondeterministicCacheError : AnalysisError :=
  .parser (ascii "same fact key produced unequal deterministic payloads")

/-- `facts::load`.  Other workers use the cache meanwhile, so the cache that is
    asked for the facts and the one they are stored in are two arguments. -/
def load {σ : Type} [FactCache σ] (file : SourceFile) (asked stored : σ) :
    Except AnalysisError FileFacts :=
  match get asked (factKey file parserOptions) with
  | some facts => .ok facts
  | none => do
    let facts ← analyze frontends file limits
    match (put stored (factKey file parserOptions) facts).1 with
    | .error .nonDeterministic => .error nondeterministicCacheError
    | _ => .ok facts

structure UniqueFiles where
  files : BTreeMap FileFactKey SourceFile := ∅
  factKeys : FactKeyLookup := ∅

def UniqueFiles.add (unique : UniqueFiles) (file : SourceFile) : UniqueFiles where
  files := unique.files.insert (factKey file parserOptions) file
  factKeys := unique.factKeys.upsert file.contentId ∅
    (·.insert file.languageMode (factKey file parserOptions))

def requestFiles (before after : SourceSnapshot) : List SourceFile :=
  before.fileList ++ after.fileList

/-- One file for each key, the last of those that have it. -/
def uniqueFiles (before after : SourceSnapshot) : UniqueFiles :=
  (requestFiles before after).foldl (UniqueFiles.add parserOptions) {}

def unsupportedFacts : FileFacts := { dependencies := { status := .unsupported } }

/-- A file that is not supported has facts that say so; any other failure ends
    the request. -/
def supportedOrEmpty (result : Except AnalysisError FileFacts) : Except AnalysisError FileFacts :=
  match result with
  | .error (.unsupported _) => .ok unsupportedFacts
  | result => result

/-- Load the facts of one key.  `asked` and `stored` are the states in which the
    worker of each key meets the cache. -/
def loadEntry {σ : Type} [FactCache σ] (asked stored : FileFactKey → σ)
    (entry : FileFactKey × SourceFile) : Except AnalysisError (FileFactKey × FileFacts) :=
  (supportedOrEmpty (load frontends limits parserOptions entry.2 (asked entry.1)
    (stored entry.1))).map fun facts => (entry.1, facts)

def loadFacts {σ : Type} [FactCache σ] (files : BTreeMap FileFactKey SourceFile)
    (asked stored : FileFactKey → σ) : Except AnalysisError FactMap := do
  let loaded ← files.entries.mapM (loadEntry frontends limits parserOptions asked stored)
  pure (BTreeMap.ofList loaded)

/-! ## Caches of one repository -/

/-- Files with one key have one content and read alike. -/
def KeysReadAlike (files : List SourceFile) : Prop :=
  ∀ file ∈ files, ∀ other ∈ files,
    factKey file parserOptions = factKey other parserOptions →
      SameContent file other ∧ ReadAlike frontends file other

/-- The states of a cache that any number of workers and requests fill with the
    facts of these files, in any order, while entries may get lost. -/
inductive Filled {σ : Type} [LawfulFactCache σ] (files : List SourceFile) : σ → Prop where
  | empty : Filled files empty
  | put {s : σ} {file : SourceFile} {facts : FileFacts} :
      Filled files s → file ∈ files → analyze frontends file limits = .ok facts →
        Filled files (put s (factKey file parserOptions) facts).2
  | lose {s s' : σ} :
      Filled files s → (∀ key facts, holds s' key facts → holds s key facts) → Filled files s'

end

theorem supportedOrEmpty_congr {r s : Except AnalysisError FileFacts}
    (h : outcome r = outcome s) : supportedOrEmpty r = supportedOrEmpty s := by
  rcases r with (_ | _ | _) | _ <;> rcases s with (_ | _ | _) | _ <;>
    simp_all [outcome, supportedOrEmpty]

section

variable [Sha256] {frontends : Frontends} {limits : RuleLimits} {parserOptions : Str}
  {files : List SourceFile} {file other : SourceFile} {facts : FileFacts} {σ : Type}

/-- A cache holds the analysis of some file under that file's key. -/
theorem Filled.holds [LawfulFactCache σ] {s : σ}
    (h : Filled frontends limits parserOptions files s) {key : FileFactKey}
    (hholds : holds s key facts) :
    ∃ file ∈ files, factKey file parserOptions = key ∧ analyze frontends file limits = .ok facts := by
  induction h with
  | empty => exact absurd hholds (not_holds_empty key facts)
  | put _ hfile hanalyze ih =>
    obtain hheld | ⟨rfl, rfl⟩ := holds_put hholds
    · exact ih hheld
    · exact ⟨_, hfile, rfl, hanalyze⟩
  | lose _ hsub ih => exact ih (hsub _ _ hholds)

/-- What a cache holds under a file's key is the file's own analysis. -/
theorem analyze_of_holds [LawfulFactCache σ] {s : σ}
    (hkeys : KeysReadAlike frontends parserOptions files)
    (h : Filled frontends limits parserOptions files s) (hfile : file ∈ files)
    (hholds : LawfulFactCache.holds s (factKey file parserOptions) facts) :
    analyze frontends file limits = .ok facts := by
  obtain ⟨other, hother, hkey, hanalyze⟩ := h.holds hholds
  obtain ⟨hsame, hread⟩ := hkeys file hfile other hother hkey.symm
  have houtcome : outcome (analyze frontends file limits) = outcome (analyze frontends other limits) :=
    outcome_analyze_of_readAlike hsame hread
  rw [hanalyze, outcome_ok] at houtcome
  exact outcome_eq_ok.mp houtcome

/-- Storing a file's own facts never conflicts. -/
theorem put_ne_nonDeterministic [LawfulFactCache σ] {s : σ}
    (hkeys : KeysReadAlike frontends parserOptions files)
    (h : Filled frontends limits parserOptions files s) (hfile : file ∈ files)
    (hanalyze : analyze frontends file limits = .ok facts) :
    (put s (factKey file parserOptions) facts).1 ≠ .error .nonDeterministic := by
  intro hconflict
  obtain ⟨held, hholds, hne⟩ := conflict hconflict
  have hown := analyze_of_holds hkeys h hfile hholds
  rw [hanalyze] at hown
  exact hne (Except.ok.inj hown).symm

/-- A hit is returned as it is. -/
theorem load_of_get {σ : Type} [FactCache σ] {asked stored : σ}
    (h : get asked (factKey file parserOptions) = some facts) :
    load frontends limits parserOptions file asked stored = .ok facts := by
  rw [load, h]

/-- Loading through such a cache is analysing the file. -/
theorem load_eq_analyze [LawfulFactCache σ] {asked stored : σ}
    (hkeys : KeysReadAlike frontends parserOptions files)
    (hasked : Filled frontends limits parserOptions files asked)
    (hstored : Filled frontends limits parserOptions files stored) (hfile : file ∈ files) :
    load frontends limits parserOptions file asked stored = analyze frontends file limits := by
  rw [load]
  split
  · rename_i cached hget
    exact (analyze_of_holds hkeys hasked hfile (holds_of_get hget)).symm
  · rcases hanalyze : analyze frontends file limits with e | own
    · rfl
    · show (match (put stored (factKey file parserOptions) own).1 with
        | .error .nonDeterministic => .error nondeterministicCacheError
        | _ => .ok own : Except AnalysisError FileFacts) = .ok own
      have hput := put_ne_nonDeterministic hkeys hstored hfile hanalyze
      split
      · rename_i heq
        exact absurd heq hput
      · rfl

/-! ## Sharing within a request -/

/-- The facts a file would get if it were analysed itself. -/
def ownFacts (frontends : Frontends) (limits : RuleLimits) (file : SourceFile) :
    Except AnalysisError FileFacts :=
  supportedOrEmpty (analyze frontends file limits)

/-- Collecting files by key keeps, for every key some file has, one file with it. -/
theorem get?_foldl_add (files : List SourceFile) (unique : UniqueFiles) (key : FileFactKey)
    (kept : SourceFile) :
    (files.foldl (UniqueFiles.add parserOptions) unique).files.get? key = some kept →
      kept ∈ files ∧ factKey kept parserOptions = key ∨ unique.files.get? key = some kept := by
  induction files generalizing unique with
  | nil => exact Or.inr
  | cons file files ih =>
    intro h
    obtain ⟨hmem, hkey⟩ | hadd := ih _ h
    · exact Or.inl ⟨List.mem_cons_of_mem file hmem, hkey⟩
    · rw [UniqueFiles.add, BTreeMap.get?_insert] at hadd
      split_ifs at hadd with hkey
      · cases hadd
        exact Or.inl ⟨List.mem_cons_self, hkey.symm⟩
      · exact Or.inr hadd

theorem exists_get?_foldl_add (files : List SourceFile) (unique : UniqueFiles) (key : FileFactKey)
    (h : (∃ file ∈ files, factKey file parserOptions = key)
      ∨ ∃ kept, unique.files.get? key = some kept) :
    ∃ kept, (files.foldl (UniqueFiles.add parserOptions) unique).files.get? key = some kept := by
  induction files generalizing unique with
  | nil => simpa using h
  | cons file files ih =>
    apply ih
    rw [UniqueFiles.add]
    by_cases hkey : key = factKey file parserOptions
    · exact Or.inr ⟨file, by rw [BTreeMap.get?_insert, if_pos hkey]⟩
    · obtain ⟨f, hf, hfkey⟩ | ⟨kept, hkept⟩ := h
      · obtain rfl | hf := List.mem_cons.mp hf
        · exact absurd hfkey.symm hkey
        · exact Or.inl ⟨f, hf, hfkey⟩
      · exact Or.inr ⟨kept, by rw [BTreeMap.get?_insert, if_neg hkey, hkept]⟩

variable {before after : SourceSnapshot}

theorem uniqueFiles_get? {key : FileFactKey} {kept : SourceFile}
    (h : (uniqueFiles parserOptions before after).files.get? key = some kept) :
    kept ∈ requestFiles before after ∧ factKey kept parserOptions = key := by
  obtain hkept | hempty := get?_foldl_add _ _ _ _ h
  · exact hkept
  · simp at hempty

/-- Looking facts up by key gives every file of the request its own facts, or
    the request fails with an error of one of its files. -/
theorem loadFacts_uniqueFiles [LawfulFactCache σ]
    (hkeys : KeysReadAlike frontends parserOptions (requestFiles before after))
    (asked stored : FileFactKey → σ)
    (hasked : ∀ key, Filled frontends limits parserOptions (requestFiles before after) (asked key))
    (hstored : ∀ key, Filled frontends limits parserOptions (requestFiles before after) (stored key)) :
    (∃ fileFacts, loadFacts frontends limits parserOptions
          (uniqueFiles parserOptions before after).files asked stored = .ok fileFacts
        ∧ ∀ file ∈ requestFiles before after, ∃ facts, ownFacts frontends limits file = .ok facts
          ∧ fileFacts.get? (factKey file parserOptions) = some facts)
      ∨ ∃ e, loadFacts frontends limits parserOptions
          (uniqueFiles parserOptions before after).files asked stored = .error e
        ∧ ∃ file ∈ requestFiles before after, ownFacts frontends limits file = .error e := by
  set unique := (uniqueFiles parserOptions before after).files with hunique
  -- Loading a kept file is analysing it.
  have hentry : ∀ entry ∈ unique.entries, loadEntry frontends limits parserOptions asked stored entry
      = (ownFacts frontends limits entry.2).map fun facts => (entry.1, facts) := by
    intro entry hmem
    obtain ⟨hkept, -⟩ := uniqueFiles_get? (BTreeMap.mem_entries_iff.mp hmem)
    rw [loadEntry, load_eq_analyze hkeys (hasked entry.1) (hstored entry.1) hkept, ownFacts]
  obtain ⟨results, hresults, hall⟩ | ⟨e, herror, entry, hmem, hfail⟩ :=
    Except.mapM_cases (loadEntry frontends limits parserOptions asked stored) unique.entries
  · left
    refine ⟨BTreeMap.ofList results, by rw [loadFacts, hresults]; rfl, ?_⟩
    intro file hfile
    rw [List.map_congr_left hentry] at hall
    obtain ⟨hresultKeys, hown⟩ := Except.keys_of_map_ok hall
    -- The file kept under this file's key has the same facts as the file.
    obtain ⟨kept, hkept⟩ := exists_get?_foldl_add (requestFiles before after) {}
      (factKey file parserOptions) (Or.inl ⟨file, hfile, rfl⟩)
    obtain ⟨hkeptFile, hkeptKey⟩ := uniqueFiles_get? hkept
    obtain ⟨hsame, hread⟩ := hkeys kept hkeptFile file hfile hkeptKey
    obtain ⟨facts, hfacts, hmem⟩ := hown (factKey file parserOptions, kept)
      (BTreeMap.mem_entries_iff.mpr hkept)
    refine ⟨facts, ?_, ?_⟩
    · rw [← hfacts]
      exact (supportedOrEmpty_congr (outcome_analyze_of_readAlike hsame hread)).symm
    · rw [BTreeMap.get?_ofList_of_nodup (hresultKeys ▸ unique.nodup_keys)]
      exact hmem
  · right
    refine ⟨e, by rw [loadFacts, herror]; rfl, entry.2, ?_, ?_⟩
    · exact (uniqueFiles_get? (BTreeMap.mem_entries_iff.mp hmem)).1
    · rw [hentry entry hmem] at hfail
      rcases hown : ownFacts frontends limits entry.2 with e' | facts
      · rw [hown] at hfail
        cases hfail
        rfl
      · rw [hown] at hfail
        cases hfail

/-- A file's key stands for its facts exactly as far as the analysis reads the
    same from every path the key covers.  Between two files of one content: equal
    facts if their paths read alike, and outside Node only then, save for a Go
    file without anything to lose.  Over a whole run: if the files of one key
    have one content and read alike, then every lookup in a cache filled from
    them, in any order and with any losses, gives a file its own facts, no store
    conflicts, and the facts shared within a request are each file's own. -/
theorem factKey_identifies_facts (frontends : Frontends) (limits : RuleLimits) :
    (∀ file other, SameContent file other → ReadAlike frontends file other →
        outcome (analyze frontends file limits) = outcome (analyze frontends other limits))
    ∧ (∀ file other, SameContent file other → file.language.isNode = false →
        (outcome (analyze frontends file limits) = outcome (analyze frontends other limits)
          ↔ ReadAlike frontends file other ∨ ¬ SensitiveToName frontends file limits))
    ∧ (∀ (σ : Type) [LawfulFactCache σ] (parserOptions : Str) (files : List SourceFile),
        KeysReadAlike frontends parserOptions files → ∀ asked stored : σ,
        Filled frontends limits parserOptions files asked →
        Filled frontends limits parserOptions files stored → ∀ file ∈ files,
          load frontends limits parserOptions file asked stored = analyze frontends file limits
          ∧ ∀ facts, analyze frontends file limits = .ok facts →
            (put stored (factKey file parserOptions) facts).1 ≠ .error .nonDeterministic)
    ∧ (∀ (σ : Type) [LawfulFactCache σ] (parserOptions : Str) (before after : SourceSnapshot),
        KeysReadAlike frontends parserOptions (requestFiles before after) →
        ∀ asked stored : FileFactKey → σ,
        (∀ key, Filled frontends limits parserOptions (requestFiles before after) (asked key)) →
        (∀ key, Filled frontends limits parserOptions (requestFiles before after) (stored key)) →
          (∃ fileFacts, loadFacts frontends limits parserOptions
                (uniqueFiles parserOptions before after).files asked stored = .ok fileFacts
              ∧ ∀ file ∈ requestFiles before after,
                ∃ facts, ownFacts frontends limits file = .ok facts
                  ∧ fileFacts.get? (factKey file parserOptions) = some facts)
            ∨ ∃ e, loadFacts frontends limits parserOptions
                (uniqueFiles parserOptions before after).files asked stored = .error e
              ∧ ∃ file ∈ requestFiles before after, ownFacts frontends limits file = .error e) := by
  refine ⟨fun _ _ h hread => outcome_analyze_of_readAlike h hread,
    fun _ _ h hnode => outcome_analyze_iff_readAlike h hnode, ?_, ?_⟩
  · intro σ _ parserOptions files hkeys asked stored hasked hstored file hfile
    exact ⟨load_eq_analyze hkeys hasked hstored hfile,
      fun facts hanalyze => put_ne_nonDeterministic hkeys hstored hfile hanalyze⟩
  · intro σ _ parserOptions before after hkeys asked stored hasked hstored
    exact loadFacts_uniqueFiles hkeys asked stored hasked hstored

end

/-! ## One exported variable -/

def exportedVariable : Str := ascii "package a\n\nvar V = 1\n"

def exportedVariableTokens : List Go.GoToken :=
  [⟨0, 7, 3, true, false⟩, ⟨8, 9, 1, true, false⟩, ⟨9, 9, 4, false, true⟩,
    ⟨11, 14, 3, true, false⟩, ⟨15, 16, 1, true, false⟩, ⟨17, 18, 4, true, false⟩,
    ⟨19, 20, 2, true, false⟩, ⟨20, 20, 4, false, true⟩]

/-- What the front ends yield for `exportedVariable`; the other languages' are not asked. -/
def exportedVariableFrontends : Frontends where
  go :=
    { Tree := Unit
      scanTokens := fun _ => .ok exportedVariableTokens
      parse := fun _ => .ok ()
      syntaxDiagnostics := fun _ _ _ _ => .ok []
      metrics := fun _ _ _ _ _ => .ok
        { diagnostics := []
          callables := { status := .complete }
          regions :=
            { status := .complete
              tokenCount := 6
              encodedTokens := ascii ("AAAAAAAAAAcDAAAAAAAIAAAACQEAAAAAAAsAAAAOAwAGBAAAAAEK"
                ++ "AAAADwAAABABAAAAAAARAAAAEgQAAAAAABMAAAAUAgAA") } }
      extract := fun _ _ _ => .ok
        (Go.completeDependencies [],
          { Go.completeInterfaces with exports := [⟨ascii "V", .value, .local, .variable_⟩] }) }
  node := ⟨fun _ => .error [], fun _ _ _ _ _ => .error (.unsupported [])⟩
  rust := fun _ _ _ => .error (.unsupported [])
  python := fun _ _ => .error (.unsupported [])
  hcl := fun _ _ => .error (.unsupported [])
  shell := fun _ _ => .error (.unsupported [])
  protobuf := fun _ _ => .error (.unsupported [])

def exportedVariableAt (path : RepoPath) : SourceFile where
  path := path
  bytes := exportedVariable
  language := .go
  languageMode := ascii "go:source:linux:amd64"

def linuxFile : SourceFile := exportedVariableAt ⟨ascii "a_linux.go", by decide⟩

def windowsFile : SourceFile := exportedVariableAt ⟨ascii "a_windows.go", by decide⟩

def plainFile : SourceFile := exportedVariableAt ⟨ascii "a.go", by decide⟩

/-- The copy for the target's own system reads like one without a constraint. -/
theorem factKey_identifies_facts_linux :
    letI := identityDigest
    ReadAlike exportedVariableFrontends linuxFile plainFile
      ∧ outcome (analyze exportedVariableFrontends linuxFile {})
        = outcome (analyze exportedVariableFrontends plainFile {}) := by
  have hread : ReadAlike exportedVariableFrontends linuxFile plainFile := by
    refine ⟨fun _ target htarget => ?_, nofun⟩
    obtain rfl : target = ⟨ascii "linux", ascii "amd64", false⟩ := by
      have hmode : Go.modeTarget linuxFile.languageMode
          = some ⟨ascii "linux", ascii "amd64", false⟩ := by decide +kernel
      exact Option.some.inj (htarget.symm.trans hmode)
    decide +kernel
  exact ⟨hread, (@factKey_identifies_facts identityDigest exportedVariableFrontends {}).1
    linuxFile plainFile ⟨rfl, rfl, rfl⟩ hread⟩

def exportsOf (result : Except AnalysisError FileFacts) : Option (List InterfaceExportFact) :=
  result.toOption.map fun facts => facts.interfaces.exports

/-- The copy for another system has the same key and loses its export, so a cache
    that has seen one of the two answers wrongly for the other. -/
theorem osCopies_share_key :
    letI := identityDigest
    SameContent linuxFile windowsFile
      ∧ factKey linuxFile [] = factKey windowsFile []
      ∧ exportsOf (analyze exportedVariableFrontends linuxFile {})
        = some [⟨ascii "V", .value, .local, .variable_⟩]
      ∧ exportsOf (analyze exportedVariableFrontends windowsFile {}) = some []
      ∧ ∀ (σ : Type) [FactCache σ] (asked stored : σ) (own : FileFacts),
        analyze exportedVariableFrontends linuxFile {} = .ok own →
        get asked (factKey windowsFile []) = some own →
          load exportedVariableFrontends {} [] windowsFile asked stored
            ≠ analyze exportedVariableFrontends windowsFile {} := by
  have hlinux : exportsOf (@analyze identityDigest exportedVariableFrontends linuxFile {})
      = some [⟨ascii "V", .value, .local, .variable_⟩] := by decide +kernel
  have hwindows : exportsOf (@analyze identityDigest exportedVariableFrontends windowsFile {})
      = some [] := by decide +kernel
  refine ⟨⟨rfl, rfl, rfl⟩, rfl, hlinux, hwindows, ?_⟩
  intro σ _ asked stored own hown hget hload
  rw [hown] at hlinux
  rw [← hload, @load_of_get identityDigest _ _ _ _ _ _ _ _ _ hget, hlinux] at hwindows
  cases hwindows

end Opcore
