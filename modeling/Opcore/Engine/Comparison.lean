/-
  Opcore.Engine.Comparison

  Local comparison of two views: evaluation inputs, the continuity of files
  whose content moved to a new path, and the difference of diagnostics counted
  along that continuity.
-/
import Opcore.Engine.Diagnostics
import Opcore.Library.Tally
import Opcore.Source.Snapshot

namespace Opcore

open Text Collections Smallest

/-! ## Evaluation inputs -/

/-- One evaluated path with the file each view has there. -/
structure EvaluationInput where
  path : RepoPath
  before : Option SourceFile
  after : Option SourceFile
  before_path : ∀ file, before = some file → file.path = path
  after_path : ∀ file, after = some file → file.path = path

/-! ## Path continuity -/

section Continuity

variable [Sha256]

/-- `ContinuityKey`: content identity, language and mode. -/
abbrev ContinuityKey := ContentId ×ₗ Language ×ₗ Str

def continuityKey (file : SourceFile) : ContinuityKey :=
  toLex (file.contentId, toLex (file.language, file.languageMode))

/-- A path that only the first view has, under its key. -/
def EvaluationInput.removed (input : EvaluationInput) : Option (ContinuityKey × RepoPath) :=
  match input.before, input.after with
  | some before, none => some (continuityKey before, input.path)
  | _, _ => none

/-- A path that only the second view has, under its key. -/
def EvaluationInput.added (input : EvaluationInput) : Option (ContinuityKey × RepoPath) :=
  match input.before, input.after with
  | none, some after => some (continuityKey after, input.path)
  | _, _ => none

/-- `Vec<RepoPath>::sort`. -/
def sortPaths (paths : List RepoPath) : List RepoPath := paths.insertionSort (· ≤ ·)

/-- Pair the removed paths of one key with the added paths of that key, in order. -/
def pairPaths (added : BTreeMap ContinuityKey (List RepoPath))
    (entry : ContinuityKey × List RepoPath) : List (RepoPath × RepoPath) :=
  match added.get? entry.1 with
  | none => []
  | some afterPaths => (sortPaths entry.2).zip (sortPaths afterPaths)

def exactContentPathContinuity (inputs : List EvaluationInput) : BTreeMap RepoPath RepoPath :=
  let removed := BTreeMap.group (inputs.filterMap EvaluationInput.removed)
  let added := BTreeMap.group (inputs.filterMap EvaluationInput.added)
  BTreeMap.ofList (removed.entries.flatMap (pairPaths added))

end Continuity

/-! ## Materialised diagnostics -/

section Materialize

variable [Sha256]

/-- One diagnostic of a file's facts, placed at the file's path. -/
def materializeOne (file : SourceFile) (raw : RawDiagnostic) (materializationOrder : Nat) :
    EvaluatedDiagnostic :=
  let comparisonKey := hexEncode (hashDomain (ascii "diagnostic-comparison/v1")
    [raw.ruleId, file.language.family, raw.entityKey, raw.causeKey])
  let fingerprint := hexEncode (hashDomain (ascii "diagnostic-fingerprint/v1")
    [file.path.bytes, comparisonKey])
  { diagnostic :=
      { ruleId := raw.ruleId
        severity := raw.severity
        message := raw.message
        path := file.path
        range := raw.range
        fingerprint
        language := file.language
        evidence := raw.evidence }
    comparisonKey
    materializationOrder }

/-- The diagnostics `materialize` pushes, in order. -/
def materialized (file : SourceFile) (facts : FileFacts) : List EvaluatedDiagnostic :=
  facts.diagnostics.zipIdx.map fun (raw, order) => materializeOne file raw order

def materialize (file : SourceFile) (facts : FileFacts) : BoundedDiagnostics :=
  (materialized file facts).foldl BoundedDiagnostics.push {}

end Materialize

/-! ## Semantic difference -/

/-- The key diagnostics are counted under: path and comparison key. -/
def countKey (item : EvaluatedDiagnostic) : RepoPath ×ₗ Str :=
  toLex (item.diagnostic.path, item.comparisonKey)

/-- The key a prior diagnostic is credited to at the path its file moved to. -/
def aliasKey (continuity : BTreeMap RepoPath RepoPath) (item : EvaluatedDiagnostic) :
    Option (RepoPath ×ₗ Str) :=
  (continuity.get? item.diagnostic.path).map fun after => toLex (after, item.comparisonKey)

/-- The candidates that are left after both credits, with their keys. -/
def introduced (candidates subtract : List EvaluatedDiagnostic)
    (continuity : BTreeMap RepoPath RepoPath) : List EvaluatedDiagnostic :=
  let exactCounts := tally (subtract.map countKey)
  let aliasCounts := tally (subtract.filterMap (aliasKey continuity))
  let pending := uncredited countKey exactCounts candidates
  uncredited countKey aliasCounts pending

def semanticDifference (candidates subtract : List EvaluatedDiagnostic)
    (continuity : BTreeMap RepoPath RepoPath) : List Diagnostic :=
  (introduced candidates subtract continuity).map EvaluatedDiagnostic.diagnostic

def publicFingerprintDifference (candidates subtract : List EvaluatedDiagnostic) :
    List Diagnostic :=
  let prior := BTreeSet.ofList (subtract.map fun item => item.diagnostic.fingerprint)
  (candidates.filter fun item => item.diagnostic.fingerprint ∉ prior).map
    EvaluatedDiagnostic.diagnostic

/-! ## Continuity matches as many paths as possible -/

/-- No two inputs share a path. -/
def DistinctPaths (inputs : List EvaluationInput) : Prop :=
  (inputs.map EvaluationInput.path).Nodup

theorem DistinctPaths.eq {inputs : List EvaluationInput}
    {input input' : EvaluationInput} (h : DistinctPaths inputs)
    (hin : input ∈ inputs) (hin' : input' ∈ inputs) (hp : input.path = input'.path) :
    input = input' :=
  List.inj_on_of_nodup_map h hin hin' hp

theorem nodup_sortPaths_valuesAt {inputs : List EvaluationInput} {key : ContinuityKey}
    {f : EvaluationInput → Option (ContinuityKey × RepoPath)}
    (hf : ∀ input entry, f input = some entry → entry.2 = input.path)
    (h : DistinctPaths inputs) :
    (sortPaths (BTreeMap.valuesAt key (inputs.filterMap f))).Nodup := by
  have hsub : ((inputs.filterMap f).map Prod.snd).Sublist (inputs.map EvaluationInput.path) := by
    clear h
    induction inputs with
    | nil => exact .slnil
    | cons input inputs ih =>
      cases hfi : f input with
      | none =>
        rw [List.filterMap_cons_none hfi]
        exact ih.cons _
      | some entry =>
        rw [List.filterMap_cons_some hfi, List.map_cons, List.map_cons, hf input entry hfi]
        exact ih.cons_cons _
  rw [sortPaths, (List.perm_insertionSort _ _).nodup_iff]
  exact (hsub.nodup h).sublist (List.filter_sublist.map _)

theorem map_snd_zip_eq_take {α β : Type*} (l₁ : List α) (l₂ : List β) :
    (l₁.zip l₂).map Prod.snd = l₂.take l₁.length := by
  rw [List.zip_eq_zip_take_min, List.map_snd_zip (by simp)]
  simp

theorem filter_mem_take {α : Type*} [DecidableEq α] {l : List α} (h : l.Nodup) (n : Nat) :
    l.filter (fun a => a ∈ l.take n) = l.take n := by
  have hsplit : (l.take n ++ l.drop n).filter (fun a => a ∈ l.take n) = l.take n := by
    rw [List.filter_append]
    have h₁ : (l.take n).filter (fun a => a ∈ l.take n) = l.take n :=
      List.filter_eq_self.mpr fun a ha => decide_eq_true ha
    have h₂ : (l.drop n).filter (fun a => a ∈ l.take n) = [] := by
      refine List.filter_eq_nil_iff.mpr fun a ha hmem => ?_
      exact List.disjoint_take_drop h le_rfl (of_decide_eq_true hmem) ha
    rw [h₁, h₂, List.append_nil]
  rwa [List.take_append_drop] at hsplit

theorem map_fst_zip_eq_take {α β : Type*} (l₁ : List α) (l₂ : List β) :
    (l₁.zip l₂).map Prod.fst = l₁.take l₂.length := by
  rw [List.zip_eq_zip_take_min, List.map_fst_zip (by simp)]
  simp [Nat.min_comm]

section ContinuitySpec

variable [Sha256] {inputs : List EvaluationInput} {p p' q : RepoPath} {key : ContinuityKey}

/-- The removed paths of a key, in the order they are paired. -/
def removedAt (inputs : List EvaluationInput) (key : ContinuityKey) : List RepoPath :=
  sortPaths (BTreeMap.valuesAt key (inputs.filterMap EvaluationInput.removed))

/-- The added paths of a key, in the order they are paired. -/
def addedAt (inputs : List EvaluationInput) (key : ContinuityKey) : List RepoPath :=
  sortPaths (BTreeMap.valuesAt key (inputs.filterMap EvaluationInput.added))

theorem mem_removedAt : p ∈ removedAt inputs key ↔
    ∃ input ∈ inputs, input.path = p ∧ input.after = none
      ∧ ∃ file, input.before = some file ∧ continuityKey file = key := by
  rw [removedAt, sortPaths, List.mem_insertionSort, BTreeMap.mem_valuesAt, List.mem_filterMap]
  constructor
  · rintro ⟨input, hin, h⟩
    rw [EvaluationInput.removed] at h
    split at h
    · rename_i file hb ha
      cases h
      exact ⟨input, hin, rfl, ha, file, hb, rfl⟩
    · cases h
  · rintro ⟨input, hin, rfl, ha, file, hb, rfl⟩
    exact ⟨input, hin, by rw [EvaluationInput.removed, hb, ha]⟩

theorem mem_addedAt : p ∈ addedAt inputs key ↔
    ∃ input ∈ inputs, input.path = p ∧ input.before = none
      ∧ ∃ file, input.after = some file ∧ continuityKey file = key := by
  rw [addedAt, sortPaths, List.mem_insertionSort, BTreeMap.mem_valuesAt, List.mem_filterMap]
  constructor
  · rintro ⟨input, hin, h⟩
    rw [EvaluationInput.added] at h
    split at h
    · rename_i file hb ha
      cases h
      exact ⟨input, hin, rfl, hb, file, ha, rfl⟩
    · cases h
  · rintro ⟨input, hin, rfl, hb, file, ha, rfl⟩
    exact ⟨input, hin, by rw [EvaluationInput.added, hb, ha]⟩

theorem nodup_removedAt (h : DistinctPaths inputs) : (removedAt inputs key).Nodup := by
  refine nodup_sortPaths_valuesAt (fun input entry hEq => ?_) h
  rw [EvaluationInput.removed] at hEq
  split at hEq
  · cases hEq
    rfl
  · cases hEq

theorem nodup_addedAt (h : DistinctPaths inputs) : (addedAt inputs key).Nodup := by
  refine nodup_sortPaths_valuesAt (fun input entry hEq => ?_) h
  rw [EvaluationInput.added] at hEq
  split at hEq
  · cases hEq
    rfl
  · cases hEq

/-- A removed path has one key, and so has an added one. -/
theorem removedAt_key_unique {key' : ContinuityKey} (h : DistinctPaths inputs)
    (hp : p ∈ removedAt inputs key) (hp' : p ∈ removedAt inputs key') : key = key' := by
  obtain ⟨input, hin, rfl, -, file, hb, rfl⟩ := mem_removedAt.mp hp
  obtain ⟨input', hin', hpath, -, file', hb', rfl⟩ := mem_removedAt.mp hp'
  obtain rfl := h.eq hin' hin hpath
  rw [hb] at hb'
  cases hb'
  rfl

theorem addedAt_key_unique {key' : ContinuityKey} (h : DistinctPaths inputs)
    (hp : p ∈ addedAt inputs key) (hp' : p ∈ addedAt inputs key') : key = key' := by
  obtain ⟨input, hin, rfl, -, file, ha, rfl⟩ := mem_addedAt.mp hp
  obtain ⟨input', hin', hpath, -, file', ha', rfl⟩ := mem_addedAt.mp hp'
  obtain rfl := h.eq hin' hin hpath
  rw [ha] at ha'
  cases ha'
  rfl

/-- The pairs of one removed content group. -/
theorem pairs_of_entry {entry : ContinuityKey × List RepoPath}
    (hentry : entry ∈ (BTreeMap.group (inputs.filterMap EvaluationInput.removed)).entries) :
    pairPaths (BTreeMap.group (inputs.filterMap EvaluationInput.added)) entry
      = (removedAt inputs entry.1).zip (addedAt inputs entry.1) := by
  have hb : entry.2 = BTreeMap.valuesAt entry.1 (inputs.filterMap EvaluationInput.removed) := by
    have hget := BTreeMap.mem_entries_iff.mp hentry
    have hgetD := BTreeMap.getD_get?_group (k := entry.1)
      (inputs.filterMap EvaluationInput.removed)
    rw [hget] at hgetD
    exact hgetD
  have ha := BTreeMap.getD_get?_group (k := entry.1) (inputs.filterMap EvaluationInput.added)
  rw [removedAt, ← hb, addedAt, ← ha, pairPaths]
  cases (BTreeMap.group (inputs.filterMap EvaluationInput.added)).get? entry.1 with
  | none => simp [sortPaths]
  | some afterPaths => rfl

theorem get?_exactContentPathContinuity (h : DistinctPaths inputs) :
    (exactContentPathContinuity inputs).get? p = some q ↔
      ∃ key, (p, q) ∈ (removedAt inputs key).zip (addedAt inputs key) := by
  rw [exactContentPathContinuity, BTreeMap.get?_ofList_of_nodup]
  · rw [List.mem_flatMap]
    constructor
    · rintro ⟨entry, hentry, hpair⟩
      rw [pairs_of_entry hentry] at hpair
      exact ⟨entry.1, hpair⟩
    · rintro ⟨key, hpair⟩
      have hp : p ∈ removedAt inputs key := (List.of_mem_zip hpair).1
      have hne : BTreeMap.valuesAt key (inputs.filterMap EvaluationInput.removed) ≠ [] := by
        intro hnil
        simp [removedAt, hnil, sortPaths] at hp
      have hget := BTreeMap.get?_group (k := key) (inputs.filterMap EvaluationInput.removed)
      rw [if_neg hne] at hget
      have hentry := BTreeMap.mem_entries_iff.mpr hget
      exact ⟨_, hentry, by rw [pairs_of_entry hentry]; exact hpair⟩
  · rw [List.map_flatMap, List.nodup_flatMap]
    constructor
    · intro entry hentry
      rw [pairs_of_entry hentry]
      rw [map_fst_zip_eq_take]
      exact (nodup_removedAt h).sublist (List.take_sublist ..)
    · refine (BTreeMap.group (inputs.filterMap EvaluationInput.removed)).sorted.imp_of_mem ?_
      intro e₁ e₂ h₁ h₂ hlt
      show List.Disjoint ((pairPaths _ e₁).map Prod.fst) ((pairPaths _ e₂).map Prod.fst)
      rw [pairs_of_entry h₁, pairs_of_entry h₂]
      intro x hx₁ hx₂
      obtain ⟨⟨_, y₁⟩, hy₁, rfl⟩ := List.mem_map.mp hx₁
      obtain ⟨⟨_, y₂⟩, hy₂, hEq⟩ := List.mem_map.mp hx₂
      simp only at hEq
      subst hEq
      exact hlt.ne (removedAt_key_unique h (List.of_mem_zip hy₁).1 (List.of_mem_zip hy₂).1)

/-- Continuity as a matching: it joins a removed and an added path of the same
    content, language and mode, no added path twice, and in each group of such
    paths as many as the smaller side has. -/
structure IsContinuity (inputs : List EvaluationInput) (continuity : BTreeMap RepoPath RepoPath) :
    Prop where
  joins : ∀ p q, continuity.get? p = some q →
    ∃ key, p ∈ removedAt inputs key ∧ q ∈ addedAt inputs key
  injective : ∀ p p' q, continuity.get? p = some q → continuity.get? p' = some q → p = p'
  maximal : ∀ key, ((removedAt inputs key).filter fun p => (continuity.get? p).isSome).length
    = min (removedAt inputs key).length (addedAt inputs key).length

theorem isContinuity_exactContentPathContinuity (h : DistinctPaths inputs) :
    IsContinuity inputs (exactContentPathContinuity inputs) := by
  refine ⟨fun p q hq => ?_, fun p p' q hq hq' => ?_, fun key => ?_⟩
  · obtain ⟨key, hpair⟩ := (get?_exactContentPathContinuity h).mp hq
    exact ⟨key, (List.of_mem_zip hpair).1, (List.of_mem_zip hpair).2⟩
  · obtain ⟨key, hpair⟩ := (get?_exactContentPathContinuity h).mp hq
    obtain ⟨key', hpair'⟩ := (get?_exactContentPathContinuity h).mp hq'
    obtain rfl := addedAt_key_unique h (List.of_mem_zip hpair).2 (List.of_mem_zip hpair').2
    have hnd : (((removedAt inputs key).zip (addedAt inputs key)).map Prod.snd).Nodup := by
      rw [map_snd_zip_eq_take]
      exact (nodup_addedAt h).sublist (List.take_sublist ..)
    exact congrArg Prod.fst (List.inj_on_of_nodup_map hnd hpair hpair' rfl)
  · have hsome : ∀ p ∈ removedAt inputs key,
        ((exactContentPathContinuity inputs).get? p).isSome
          = decide (p ∈ (removedAt inputs key).take (addedAt inputs key).length) := by
      intro p hp
      rw [← map_fst_zip_eq_take, Bool.eq_iff_iff, Option.isSome_iff_exists, decide_eq_true_eq,
        List.mem_map]
      constructor
      · rintro ⟨q, hq⟩
        obtain ⟨key', hpair⟩ := (get?_exactContentPathContinuity h).mp hq
        obtain rfl := removedAt_key_unique h hp (List.of_mem_zip hpair).1
        exact ⟨(p, q), hpair, rfl⟩
      · rintro ⟨⟨_, q⟩, hpair, rfl⟩
        exact ⟨q, (get?_exactContentPathContinuity h).mpr ⟨key, hpair⟩⟩
    rw [List.filter_congr hsome, filter_mem_take (nodup_removedAt h), List.length_take, Nat.min_comm]

end ContinuitySpec

end Opcore
