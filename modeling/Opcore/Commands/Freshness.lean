/-
  Opcore.Commands.Freshness

  What the freshness check of a workflow guarantees.  A path that has the same state
  at both observations had the same file in between; a path that is absent at both
  may have been there in between, unless nobody deletes a file at it.
-/
import Opcore.Commands.Workflows

namespace Opcore.Workflows

open Text Collections

/-! ## Paths of interest -/

variable (repository : Repository)

/-- The paths a result is about: selected sources, bound documents, the configuration. -/
def ofInterest (selection : Selection) (path : RepoPath) : Prop :=
  (selection.candidate path = true
    ∧ (path ∈ repository.tracked ∨ repository.ignored path = false))
  ∨ path ∈ auxiliaryPaths repository selection

theorem mem_observedPaths {selection : Selection} {files : Worktree} {path : RepoPath} :
    path ∈ (observedPaths repository selection files).elems
      ↔ path ∈ auxiliaryPaths repository selection
        ∨ (path ∈ files.keys ∧ path ∉ repository.tracked ∧ repository.ignored path = false
          ∧ selection.candidate path = true)
        ∨ (path ∈ repository.tracked ∧ selection.candidate path = true) := by
  rw [← BTreeSet.mem_def, observedPaths, BTreeSet.mem_extend, BTreeSet.mem_extend,
    BTreeSet.mem_ofList, List.mem_filter, List.mem_filter]
  simp [and_assoc]

/-- A path of interest that is not listed has no file. -/
theorem get?_eq_none_of_unlisted {selection : Selection} {files : Worktree} {path : RepoPath}
    (hinterest : ofInterest repository selection path)
    (h : path ∉ (observedPaths repository selection files).elems) : files.get? path = none := by
  rw [mem_observedPaths] at h
  simp only [not_or, not_and] at h
  obtain ⟨hauxiliary, huntracked, htracked⟩ := h
  obtain ⟨hcandidate, hselected⟩ | haux := hinterest
  · have hnot : path ∉ repository.tracked := fun hmem => htracked hmem hcandidate
    have hignored := hselected.resolve_left hnot
    cases hfile : files.get? path with
    | none => rfl
    | some file =>
      have hkey : path ∈ files.keys := BTreeMap.mem_keys_iff.mpr ⟨file, hfile⟩
      exact absurd hcandidate (huntracked hkey hnot hignored)
  · exact absurd haux hauxiliary

/-! ## What is recorded of a run -/

section Records

variable (history : History)

/-- What a look records is what was there at its instant. -/
structure Look.Recorded (path : RepoPath) (look : Look) : Prop where
  instant_le : look.instant ≤ history.now
  file_eq : look.file = (worktreeAt history.initial history.edits look.instant).get? path

/-- No file is deleted at a path from a look on that found none. -/
def Look.Guarded (path : RepoPath) (look : Look) : Prop :=
  look.file = none → Undeleted history.edits path look.instant

/-- Looks at paths between two instants; some paths are still to be looked at. -/
structure Looked (start finish : Nat) (paths todo : List RepoPath)
    (looks : BTreeMap RepoPath Look) : Prop where
  start_le : start ≤ finish
  finish_le : finish ≤ history.now
  looked : ∀ path, path ∈ looks.keys ↔ path ∈ paths ∧ path ∉ todo
  todo_subset : todo ⊆ paths
  todo_nodup : todo.Nodup
  look : ∀ path look, looks.get? path = some look →
    look.Recorded history path ∧ start ≤ look.instant ∧ look.instant ≤ finish

/-- An observation made between two instants, with the paths that are still to be
    looked at. -/
structure Observation.Recorded (selection : Selection) (start finish : Nat)
    (observation : Observation) (todo : List RepoPath) : Prop where
  start_le : start ≤ observation.instant
  paths_eq : observation.paths = (observedPaths repository selection
    (worktreeAt history.initial history.edits observation.instant)).elems
  looked : Looked history observation.instant finish observation.paths todo observation.looks

/-- No file of interest is deleted from an observation on that found none. -/
structure Observation.Guarded (selection : Selection) (observation : Observation) : Prop where
  unlisted : ∀ path, ofInterest repository selection path → path ∉ observation.paths →
    Undeleted history.edits path observation.instant
  look : ∀ path look, observation.looks.get? path = some look → look.Guarded history path

structure Snapshot.Recorded (start : Nat) (snapshot : Snapshot) : Prop where
  start_le : start ≤ snapshot.instant
  instant_le : snapshot.instant ≤ history.now
  files_eq : snapshot.files = worktreeAt history.initial history.edits snapshot.instant

/-- The records of an attempt up to its first observation. -/
structure Prepared (configuration : Configuration) (before : Observation) (todo : List RepoPath)
    (finish : Nat) : Prop where
  policy : configuration.policy.Recorded history repository.policyPath
  policy_guarded : configuration.policy.Guarded history repository.policyPath
  before_recorded : before.Recorded repository history configuration.selection
    configuration.policy.instant finish todo
  before_guarded : before.Guarded repository history configuration.selection

/-- The records of an attempt up to the second observation. -/
structure Assessed.Recorded (assessed : Assessed) : Prop where
  prepared : Prepared repository history assessed.configuration assessed.before []
    assessed.verify.instant
  verify : assessed.verify.Recorded history 0
  sense : assessed.sense.Recorded history assessed.verify.instant

/-- Everyone saw the same file at every path of interest: the one of the last look. -/
def Consistent (assessed : Assessed) (after : Observation) : Prop :=
  ∀ path, ofInterest repository assessed.configuration.selection path →
    assessed.verify.files.get? path = (after.looks.get? path).bind Look.file
    ∧ assessed.sense.files.get? path = (after.looks.get? path).bind Look.file
    ∧ (path = repository.policyPath →
      assessed.configuration.policy.file = (after.looks.get? path).bind Look.file)

/-- What holds of the records at every point of a workflow. -/
def Flow.Valid : Flow → Prop
  | .starting _ => True
  | .configured configuration => configuration.policy.Recorded history repository.policyPath
      ∧ configuration.policy.Guarded history repository.policyPath
  | .observing configuration before todo =>
    Prepared repository history configuration before todo history.now
  | .verifying configuration before => Prepared repository history configuration before [] history.now
  | .sensing configuration before verify =>
    Prepared repository history configuration before [] verify.instant ∧ verify.Recorded history 0
  | .evaluated assessed => assessed.Recorded repository history
  | .observingAgain assessed after todo => assessed.Recorded repository history
      ∧ after.Recorded repository history assessed.configuration.selection assessed.sense.instant
        history.now todo
  | .finished assessed after => Consistent repository assessed after
  | .failed => True

end Records

/-! ## What a current result saw -/

section Current

variable {repository} {history : History} {assessed : Assessed} {after : Observation}

/-- The looks of two observations with the same digest are at the same paths, and found
    the same states. -/
theorem looks_of_generationState [Sha256] (hdigest : Function.Injective Sha256.digest)
    {before after : Observation}
    (h : generationState before.generations = generationState after.generations)
    (path : RepoPath) :
    (before.looks.get? path).map (fun look => metadataState look.file)
      = (after.looks.get? path).map fun look => metadataState look.file := by
  have hlength : ∀ observation : Observation, ∀ entry ∈ observation.generations.entries,
      entry.2.length = 56 := by
    intro observation entry hentry
    have hget := BTreeMap.mem_entries_iff.mp hentry
    rw [Observation.generations, BTreeMap.get?_mapValues] at hget
    obtain ⟨look, -, hstate⟩ := Option.map_eq_some_iff.mp hget
    rw [← hstate]
    exact length_metadataState _
  have hsame := generationState_injective hdigest (hlength before) (hlength after) h
  have hget := congrArg (fun generations => generations.get? path) hsame
  simpa only [Observation.generations, BTreeMap.get?_mapValues] using hget

/-- A path that was looked at twice: everyone in between saw the file of both looks. -/
theorem file_eq_of_looks (hfresh : FreshEdits history.initial history.edits) {path : RepoPath}
    {first last : Look} (hfirst : first.Recorded history path) (hguarded : first.Guarded history path)
    (hlast : last.Recorded history path)
    (hstate : metadataState first.file = metadataState last.file) {instant : Nat}
    (hle : first.instant ≤ instant) (hge : instant ≤ last.instant) :
    (worktreeAt history.initial history.edits instant).get? path = last.file := by
  have hundeleted : (worktreeAt history.initial history.edits first.instant).get? path = none →
      Undeleted history.edits path first.instant := fun hnone =>
    hguarded (hfirst.file_eq.trans hnone)
  have hsame : metadataState ((worktreeAt history.initial history.edits last.instant).get? path)
      = metadataState ((worktreeAt history.initial history.edits first.instant).get? path) := by
    rw [← hlast.file_eq, ← hfirst.file_eq, hstate]
  rw [hfresh.unchanged hundeleted hlast.instant_le hsame hle hge, hlast.file_eq,
    hfresh.unchanged hundeleted hlast.instant_le hsame (hle.trans hge) le_rfl]

theorem policyPath_mem_paths {selection : Selection} {start finish : Nat}
    {observation : Observation} {todo : List RepoPath}
    (h : observation.Recorded repository history selection start finish todo) :
    repository.policyPath ∈ observation.paths := by
  rw [h.paths_eq, mem_observedPaths]
  left
  exact List.mem_append_right _ (List.mem_singleton_self _)

/-- A result that is current describes one view. -/
theorem consistent_of_isCurrent [Sha256] (hdigest : Function.Injective Sha256.digest)
    (hfresh : FreshEdits history.initial history.edits) (hassessed : assessed.Recorded repository history)
    (hafter : after.Recorded repository history assessed.configuration.selection
      assessed.sense.instant history.now [])
    (hcurrent : isCurrent assessed after (history.look repository.policyPath) = true) :
    Consistent repository assessed after := by
  obtain ⟨hgenerations, hpolicy⟩ := Bool.and_eq_true_iff.mp hcurrent
  have hlooks := looks_of_generationState hdigest (of_decide_eq_true hgenerations)
  have hpolicy := of_decide_eq_true hpolicy
  have hbefore := hassessed.prepared.before_recorded
  have hguarded := hassessed.prepared.before_guarded
  have hverify_sense := hassessed.sense.start_le
  intro path hinterest
  rw [hassessed.verify.files_eq, hassessed.sense.files_eq]
  cases hlast : after.looks.get? path with
  | some last =>
    obtain ⟨hrecorded, hlisted, -⟩ := hafter.looked.look path last hlast
    have hsome := hlooks path
    rw [hlast, Option.map_some] at hsome
    obtain ⟨first, hfirst, hstate⟩ := Option.map_eq_some_iff.mp hsome
    obtain ⟨hfirst_recorded, -, hfirst_le⟩ := hbefore.looked.look path first hfirst
    have hfile : ∀ {instant : Nat}, first.instant ≤ instant → instant ≤ last.instant → _ :=
      file_eq_of_looks hfresh hfirst_recorded (hguarded.look path first hfirst) hrecorded hstate
    have hsense_le : assessed.sense.instant ≤ last.instant := hafter.start_le.trans hlisted
    refine ⟨hfile hfirst_le (hverify_sense.trans hsense_le),
      hfile (hfirst_le.trans hverify_sense) hsense_le, ?_⟩
    rintro rfl
    -- The configuration was read before the first look and checked after the last.
    have hconfigured := hassessed.prepared.policy
    have hnow : (history.look repository.policyPath).Recorded history repository.policyPath :=
      ⟨le_rfl, rfl⟩
    have hread : ∀ {instant : Nat}, assessed.configuration.policy.instant ≤ instant →
        instant ≤ (history.look repository.policyPath).instant → _ :=
      file_eq_of_looks hfresh hconfigured hassessed.prepared.policy_guarded hnow hpolicy
    have hinstant : assessed.configuration.policy.instant ≤ last.instant :=
      hbefore.start_le.trans (hbefore.looked.start_le.trans (hverify_sense.trans hsense_le))
    rw [hconfigured.file_eq, hread le_rfl hconfigured.instant_le,
      ← hread hinstant hrecorded.instant_le, ← hrecorded.file_eq]
    rfl
  | none =>
    have hnone := hlooks path
    rw [hlast, Option.map_none, Option.map_eq_none_iff] at hnone
    -- Both listings left the path out, so it had no file at either.
    have hunlisted : ∀ {start finish : Nat} {observation : Observation},
        observation.Recorded repository history assessed.configuration.selection start finish [] →
        observation.looks.get? path = none → path ∉ observation.paths
          ∧ (worktreeAt history.initial history.edits observation.instant).get? path = none := by
      intro start finish observation hobservation hlook
      have hpath : path ∉ observation.paths := by
        intro hmem
        have hkey := (hobservation.looked.looked path).mpr ⟨hmem, List.not_mem_nil⟩
        obtain ⟨look, hget⟩ := BTreeMap.mem_keys_iff.mp hkey
        rw [hlook] at hget
        cases hget
      exact ⟨hpath, get?_eq_none_of_unlisted repository hinterest (hobservation.paths_eq ▸ hpath)⟩
    obtain ⟨hbefore_paths, hbefore_none⟩ := hunlisted hbefore hnone
    obtain ⟨hafter_paths, hafter_none⟩ := hunlisted hafter hlast
    have hfirst : (Look.mk assessed.before.instant none).Recorded history path :=
      ⟨hbefore.looked.start_le.trans hbefore.looked.finish_le, hbefore_none.symm⟩
    have hlast' : (Look.mk after.instant none).Recorded history path :=
      ⟨hafter.looked.start_le, hafter_none.symm⟩
    have hfile : ∀ {instant : Nat}, assessed.before.instant ≤ instant →
        instant ≤ after.instant → _ :=
      file_eq_of_looks hfresh hfirst (fun _ => hguarded.unlisted path hinterest hbefore_paths)
        hlast' rfl
    refine ⟨hfile hbefore.looked.start_le (hverify_sense.trans hafter.start_le),
      hfile (hbefore.looked.start_le.trans hverify_sense) hafter.start_le, ?_⟩
    rintro rfl
    exact absurd (policyPath_mem_paths hbefore) hbefore_paths

end Current

/-! ## Edits -/

/-- The workflow has found no file at a path and relies on it. -/
def Flow.foundAbsent (path : RepoPath) : Flow → Prop
  | .configured configuration => policyAbsent configuration
  | .observing configuration before _ | .verifying configuration before
  | .sensing configuration before _ =>
    policyAbsent configuration ∨ beforeAbsent configuration.selection before
  | .evaluated assessed | .observingAgain assessed _ _ =>
    policyAbsent assessed.configuration
      ∨ beforeAbsent assessed.configuration.selection assessed.before
  | _ => False
where
  policyAbsent (configuration : Configuration) : Prop :=
    path = repository.policyPath ∧ configuration.policy.file = none
  beforeAbsent (selection : Selection) (before : Observation) : Prop :=
    (ofInterest repository selection path ∧ path ∉ before.paths)
      ∨ ∃ look, before.looks.get? path = some look ∧ look.file = none

/-- The condition on a step: no file is deleted at a path where the workflow has found
    none. -/
def Admissible (w : World) : Action → Prop
  | .edit (.delete path) => ¬ w.flow.foundAbsent repository path
  | _ => True

section Edits

variable {repository} {history : History} {edit : Edit}

/-- The history after an edit. -/
abbrev edited (history : History) (edit : Edit) : History :=
  { history with edits := history.edits ++ [edit] }

theorem now_edited : (edited history edit).now = history.now + 1 := by simp [History.now]

variable {path : RepoPath}

theorem undeleted_append {edits : List Edit} {start : Nat}
    (h : Undeleted edits path start) (hedit : edit ≠ .delete path) :
    Undeleted (edits ++ [edit]) path start := by
  intro instant hstart hget
  obtain hlt | hge := Nat.lt_or_ge instant edits.length
  · rw [List.getElem?_append_left hlt] at hget
    exact h instant hstart hget
  · rw [List.getElem?_append_right hge] at hget
    have hmem := List.mem_of_getElem? hget
    exact hedit (List.mem_singleton.mp hmem).symm

theorem Look.Recorded.edited {look : Look} (h : look.Recorded history path) :
    look.Recorded (edited history edit) path :=
  ⟨by rw [now_edited]; exact Nat.le_succ_of_le h.instant_le,
    by rw [h.file_eq, worktreeAt_append h.instant_le]⟩

theorem Look.Guarded.edited {look : Look} (h : look.Guarded history path)
    (hedit : look.file = none → edit ≠ .delete path) : look.Guarded (edited history edit) path :=
  fun hnone => undeleted_append (h hnone) (hedit hnone)

theorem Looked.edited {start finish finish' : Nat} {paths todo : List RepoPath}
    {looks : BTreeMap RepoPath Look} (h : Looked history start finish paths todo looks)
    (hfinish : finish ≤ finish') (hnow : finish' ≤ history.now + 1) :
    Looked (edited history edit) start finish' paths todo looks where
  start_le := h.start_le.trans hfinish
  finish_le := by rw [now_edited]; exact hnow
  looked := h.looked
  todo_subset := h.todo_subset
  todo_nodup := h.todo_nodup
  look path look hlook := by
    obtain ⟨hrecorded, hle, hge⟩ := h.look path look hlook
    exact ⟨hrecorded.edited, hle, hge.trans hfinish⟩

theorem Observation.Recorded.edited {selection : Selection} {start finish finish' : Nat}
    {observation : Observation} {todo : List RepoPath}
    (h : observation.Recorded repository history selection start finish todo)
    (hfinish : finish ≤ finish') (hnow : finish' ≤ history.now + 1) :
    observation.Recorded repository (edited history edit) selection start finish' todo where
  start_le := h.start_le
  paths_eq := by rw [h.paths_eq, worktreeAt_append (h.looked.start_le.trans h.looked.finish_le)]
  looked := h.looked.edited hfinish hnow

theorem Observation.Guarded.edited {selection : Selection} {observation : Observation}
    (h : observation.Guarded repository history selection)
    (hunlisted : ∀ path, ofInterest repository selection path → path ∉ observation.paths →
      edit ≠ .delete path)
    (hlook : ∀ path look, observation.looks.get? path = some look → look.file = none →
      edit ≠ .delete path) :
    observation.Guarded repository (edited history edit) selection where
  unlisted path hinterest hpath :=
    undeleted_append (h.unlisted path hinterest hpath) (hunlisted path hinterest hpath)
  look path look hget := (h.look path look hget).edited (hlook path look hget)

theorem Snapshot.Recorded.edited {start : Nat} {snapshot : Snapshot}
    (h : snapshot.Recorded history start) : snapshot.Recorded (edited history edit) start :=
  ⟨h.start_le, by rw [now_edited]; exact Nat.le_succ_of_le h.instant_le,
    by rw [h.files_eq, worktreeAt_append h.instant_le]⟩

theorem Prepared.edited {configuration : Configuration} {before : Observation}
    {todo : List RepoPath} {finish finish' : Nat}
    (h : Prepared repository history configuration before todo finish) (hfinish : finish ≤ finish')
    (hnow : finish' ≤ history.now + 1)
    (hpolicy : ∀ path, Flow.foundAbsent.policyAbsent repository path configuration →
      edit ≠ .delete path)
    (hbefore : ∀ path, Flow.foundAbsent.beforeAbsent repository path configuration.selection before →
      edit ≠ .delete path) :
    Prepared repository (edited history edit) configuration before todo finish' where
  policy := h.policy.edited
  policy_guarded := h.policy_guarded.edited fun hnone => hpolicy _ ⟨rfl, hnone⟩
  before_recorded := h.before_recorded.edited hfinish hnow
  before_guarded := h.before_guarded.edited
    (fun path hinterest hpath => hbefore path (.inl ⟨hinterest, hpath⟩))
    (fun path look hget hnone => hbefore path (.inr ⟨look, hget, hnone⟩))

theorem Assessed.Recorded.edited {assessed : Assessed} (h : assessed.Recorded repository history)
    (hpolicy : ∀ path, Flow.foundAbsent.policyAbsent repository path assessed.configuration →
      edit ≠ .delete path)
    (hbefore : ∀ path, Flow.foundAbsent.beforeAbsent repository path
      assessed.configuration.selection assessed.before → edit ≠ .delete path) :
    assessed.Recorded repository (edited history edit) where
  prepared := h.prepared.edited le_rfl (Nat.le_succ_of_le h.verify.instant_le) hpolicy hbefore
  verify := h.verify.edited
  sense := h.sense.edited

/-- An admissible edit leaves the records of a workflow in order. -/
theorem Flow.Valid.edited {w : World} (h : w.flow.Valid repository w.toHistory)
    (hadmissible : Admissible repository w (.edit edit)) :
    w.flow.Valid repository (edited w.toHistory edit) := by
  have hdelete : ∀ path, w.flow.foundAbsent repository path → edit ≠ .delete path := by
    rintro path habsent rfl
    exact hadmissible habsent
  have hnow := @now_edited w.toHistory edit
  cases hflow : w.flow with
  | starting retried => trivial
  | failed => trivial
  | finished assessed after =>
    rw [hflow] at h
    exact h
  | configured configuration =>
    rw [hflow] at h hdelete
    exact ⟨h.1.edited, h.2.edited fun hnone => hdelete _ ⟨rfl, hnone⟩⟩
  | observing configuration before todo =>
    rw [hflow] at h hdelete
    show Prepared repository _ _ _ _ _
    rw [hnow]
    exact Prepared.edited h (Nat.le_succ _) le_rfl (fun path hp => hdelete path (.inl hp))
      fun path hb => hdelete path (.inr hb)
  | verifying configuration before =>
    rw [hflow] at h hdelete
    show Prepared repository _ _ _ _ _
    rw [hnow]
    exact Prepared.edited h (Nat.le_succ _) le_rfl (fun path hp => hdelete path (.inl hp))
      fun path hb => hdelete path (.inr hb)
  | sensing configuration before verify =>
    rw [hflow] at h hdelete
    exact ⟨h.1.edited le_rfl (Nat.le_succ_of_le h.2.instant_le)
      (fun path hp => hdelete path (.inl hp)) (fun path hb => hdelete path (.inr hb)), h.2.edited⟩
  | evaluated assessed =>
    rw [hflow] at h hdelete
    exact Assessed.Recorded.edited h (fun path hp => hdelete path (.inl hp))
      fun path hb => hdelete path (.inr hb)
  | observingAgain assessed after todo =>
    rw [hflow] at h hdelete
    refine ⟨h.1.edited (fun path hp => hdelete path (.inl hp))
      (fun path hb => hdelete path (.inr hb)), ?_⟩
    rw [hnow]
    exact h.2.edited (Nat.le_succ _) le_rfl

end Edits

/-! ## The next access -/

section Advance

variable {repository} {history : History} {path : RepoPath}

theorem undeleted_now : Undeleted history.edits path history.now := by
  intro instant hle hget
  rw [List.getElem?_eq_none hle] at hget
  cases hget

theorem look_recorded : (history.look path).Recorded history path := ⟨le_rfl, rfl⟩

theorem look_guarded : (history.look path).Guarded history path := fun _ => undeleted_now

theorem Looked.begin {start : Nat} (hstart : start ≤ history.now) {paths : List RepoPath}
    (hnodup : paths.Nodup) : Looked history start history.now paths paths ∅ where
  start_le := hstart
  finish_le := le_rfl
  looked path := by
    constructor
    · intro hmem
      obtain ⟨_, hget⟩ := BTreeMap.mem_keys_iff.mp hmem
      cases hget
    · exact fun h => absurd h.1 h.2
  todo_subset := fun _ hmem => hmem
  todo_nodup := hnodup
  look _ _ hget := by cases hget

/-- One look more. -/
theorem Looked.add {start finish : Nat} {paths todo : List RepoPath} {looks : BTreeMap RepoPath Look}
    (h : Looked history start finish paths (path :: todo) looks) :
    Looked history start history.now paths todo (looks.insert path (history.look path)) where
  start_le := h.start_le.trans h.finish_le
  finish_le := le_rfl
  looked p := by
    obtain ⟨hpath, htodo⟩ := List.nodup_cons.mp h.todo_nodup
    have hmem := h.todo_subset List.mem_cons_self
    have hlooked := h.looked p
    rw [BTreeMap.mem_keys_iff] at hlooked ⊢
    rw [BTreeMap.get?_insert]
    by_cases heq : p = path
    · subst heq
      simp [hmem, hpath]
    · rw [if_neg heq, hlooked, List.mem_cons, or_iff_right heq]
  todo_subset := fun _ hmem => h.todo_subset (List.mem_cons_of_mem _ hmem)
  todo_nodup := (List.nodup_cons.mp h.todo_nodup).2
  look p look hget := by
    rw [BTreeMap.get?_insert] at hget
    split_ifs at hget with hp
    · cases hget
      rw [hp]
      exact ⟨look_recorded, h.start_le.trans h.finish_le, le_rfl⟩
    · obtain ⟨hrecorded, hle, hge⟩ := h.look p look hget
      exact ⟨hrecorded, hle, hge.trans h.finish_le⟩

variable {selection : Selection}

/-- A listing made now, with all its paths still to be looked at. -/
theorem list_recorded {start : Nat} (hstart : start ≤ history.now) :
    (history.list repository selection).Recorded repository history selection start history.now
      (history.list repository selection).paths where
  start_le := hstart
  paths_eq := rfl
  looked := Looked.begin le_rfl (BTreeSet.nodup_elems _)

theorem list_guarded :
    (history.list repository selection).Guarded repository history selection where
  unlisted _ _ _ := undeleted_now
  look path look hlook := by simp [History.list] at hlook

/-- A look now at the next path of an observation. -/
theorem Observation.Recorded.add {start : Nat} {observation : Observation} {todo : List RepoPath}
    (h : observation.Recorded repository history selection start history.now (path :: todo)) :
    (observation.add path (history.look path)).Recorded repository history selection start
      history.now todo where
  start_le := h.start_le
  paths_eq := h.paths_eq
  looked := h.looked.add

theorem Observation.Guarded.add {observation : Observation}
    (h : observation.Guarded repository history selection) :
    (observation.add path (history.look path)).Guarded repository history selection where
  unlisted := h.unlisted
  look path' look hlook := by
    rw [Observation.add, BTreeMap.get?_insert] at hlook
    split at hlook
    · next heq =>
      cases hlook
      rw [heq]
      exact look_guarded
    · exact h.look path' look hlook

/-- Every access leaves the records of a workflow in order. -/
theorem Flow.Valid.advance [Sha256] (hdigest : Function.Injective Sha256.digest) {w : World}
    (hfresh : FreshEdits w.initial w.edits) (h : w.flow.Valid repository w.toHistory) :
    (w.advance repository).Valid repository w.toHistory := by
  unfold World.advance
  cases hflow : w.flow with
  | starting retried =>
    dsimp only
    split
    · trivial
    · exact ⟨look_recorded, look_guarded⟩
  | configured configuration =>
    rw [hflow] at h
    exact ⟨h.1, h.2, list_recorded h.1.instant_le, list_guarded⟩
  | observing configuration before todo =>
    rw [hflow] at h
    cases todo with
    | nil => exact h
    | cons path todo =>
      exact ⟨h.policy, h.policy_guarded, h.before_recorded.add, h.before_guarded.add⟩
  | verifying configuration before =>
    rw [hflow] at h
    exact ⟨h, Nat.zero_le _, le_rfl, rfl⟩
  | sensing configuration before verify =>
    rw [hflow] at h
    exact ⟨h.1, h.2, h.2.instant_le, le_rfl, rfl⟩
  | evaluated assessed =>
    rw [hflow] at h
    exact ⟨h, list_recorded h.sense.instant_le⟩
  | observingAgain assessed after todo =>
    rw [hflow] at h
    cases todo with
    | nil =>
      dsimp only
      split_ifs with hcurrent
      · exact consistent_of_isCurrent hdigest hfresh h.1 h.2 hcurrent
      · trivial
      · trivial
    | cons path todo => exact ⟨h.1, h.2.add⟩
  | finished assessed after =>
    rw [hflow] at h
    exact h
  | failed => trivial

end Advance

/-! ## Whole runs -/

section Runs

/-- Every write is fresh, and the records of the workflow are in order. -/
def World.Inv (w : World) : Prop :=
  FreshEdits w.initial w.edits ∧ w.flow.Valid repository w.toHistory

variable {repository} [Sha256]


theorem World.Inv.step (hdigest : Function.Injective Sha256.digest) {w w' : World}
    {action : Action} (h : w.Inv repository) (hadmissible : Admissible repository w action)
    (hstep : step repository w action = some w') : w'.Inv repository := by
  obtain ⟨hfresh, hvalid⟩ := h
  cases action with
  | edit edit =>
    simp only [Workflows.step] at hstep
    split at hstep
    · next hedit =>
      cases hstep
      exact ⟨hfresh.snoc hedit, hvalid.edited hadmissible⟩
    · cases hstep
  | advance =>
    cases hstep
    exact ⟨hfresh, hvalid.advance hdigest hfresh⟩

/-- A workflow result describes one view, when nobody deletes a file at a path where the
    workflow has found none. -/
theorem result_describes_one_view (hdigest : Function.Injective Sha256.digest)
    {initial : Worktree} {actions : List Action} {w : World} {assessed : Assessed}
    {after : Observation}
    (hrun : Transition.run (step repository) { initial } actions = some w)
    (hadmissible : Transition.Throughout (step repository) (Admissible repository)
      { initial } actions)
    (hfinished : w.flow = .finished assessed after) : Consistent repository assessed after := by
  have hstart : World.Inv repository { initial } := by
    refine ⟨?_, trivial⟩
    intro before edit after heq
    simp at heq
  have hend := Transition.run_preserves_throughout
    (fun _ _ _ hinv hallowed hstep => World.Inv.step hdigest hinv hallowed hstep) hrun hadmissible
    hstart
  have hvalid := hend.2
  rw [hfinished] at hvalid
  exact hvalid

end Runs

/-! ## A run with a retry, and a run that misses a file -/

/-- A repository with no tracked file, where every configuration selects every path. -/
def everythingSelected : Repository where
  tracked := []
  ignored _ := false
  policyPath := ⟨ascii ".opcore.json", by decide⟩
  resolve _ := some ⟨fun _ => true, []⟩

def mainPath : RepoPath := ⟨ascii "main.py", by decide⟩

def writtenFile : WorktreeFile where
  state := List.replicate 56 1
  content := ascii "x"
  length_state := by decide
  present := by decide

/-- Whether a path is selected, and what Verify and the last look saw of it, in a
    finished workflow. -/
def Flow.seen (path : RepoPath) : Flow → Option (Bool × Option WorktreeFile × Option WorktreeFile)
  | .finished assessed after =>
    some (assessed.configuration.selection.candidate path, assessed.verify.files.get? path,
      (after.looks.get? path).bind Look.file)
  | _ => none

/-- A file is written after the first listing, so that the first attempt is given up. -/
def retriedRun : List Action :=
  [.advance, .advance, .edit (.write mainPath writtenFile)] ++ List.replicate 19 .advance

theorem exists_finished_of_seen [Sha256] {repository : Repository} {actions : List Action}
    {path : RepoPath} {selected : Bool} {verified last : Option WorktreeFile}
    (h : ((Transition.run (step repository) { initial := ∅ } actions).bind
      fun w => w.flow.seen path) = some (selected, verified, last)) :
    ∃ w assessed after, Transition.run (step repository) { initial := ∅ } actions = some w
      ∧ w.flow = .finished assessed after
      ∧ assessed.configuration.selection.candidate path = selected
      ∧ assessed.verify.files.get? path = verified
      ∧ (after.looks.get? path).bind Look.file = last := by
  obtain ⟨w, hrun, hseen⟩ := Option.bind_eq_some_iff.mp h
  cases hflow : w.flow with
  | finished assessed after =>
    rw [hflow] at hseen
    cases hseen
    exact ⟨w, assessed, after, hrun, hflow, rfl, rfl, rfl⟩
  | _ =>
    rw [hflow] at hseen
    cases hseen

theorem result_describes_one_view_retried :
    ∃ w assessed after, Transition.run (@step everythingSelected identityDigest) { initial := ∅ }
        retriedRun = some w
      ∧ w.flow = .finished assessed after ∧ assessed.verify.files.get? mainPath = some writtenFile
      ∧ Consistent everythingSelected assessed after := by
  obtain ⟨w, assessed, after, hrun, hflow, -, hverify, -⟩ :=
    @exists_finished_of_seen identityDigest everythingSelected retriedRun mainPath
      true (some writtenFile) (some writtenFile) (by decide +kernel)
  refine ⟨w, assessed, after, hrun, hflow, hverify, ?_⟩
  refine @result_describes_one_view everythingSelected identityDigest Function.injective_id _ _ _ _ _
    hrun (Transition.throughout_of_forall ?_) hflow
  intro w action haction
  -- Nothing is deleted in this run.
  have hkind : action = .advance ∨ action = .edit (.write mainPath writtenFile) := by
    simp only [retriedRun, List.cons_append, List.nil_append, List.mem_cons,
      List.mem_replicate] at haction
    tauto
  obtain rfl | rfl := hkind <;> trivial

/-- A file that Verify sees and that is gone again at the last look, as at the first. -/
def missedRun : List Action :=
  List.replicate 4 .advance ++ .edit (.write mainPath writtenFile) :: .advance ::
    .edit (.delete mainPath) :: List.replicate 4 .advance

theorem not_forall_result_describes_one_view :
    ¬ ∀ (inst : Sha256) (repository : Repository) (initial : Worktree) (actions : List Action)
        (w : World) (assessed : Assessed) (after : Observation),
      Function.Injective inst.digest →
      Transition.run (@step repository inst) { initial } actions = some w →
      w.flow = .finished assessed after → Consistent repository assessed after := by
  intro hall
  obtain ⟨w, assessed, after, hrun, hflow, hselected, hverify, hlast⟩ :=
    @exists_finished_of_seen identityDigest everythingSelected missedRun mainPath
      true (some writtenFile) none (by decide +kernel)
  have hconsistent := hall identityDigest _ _ _ _ _ _ Function.injective_id hrun hflow
  have hinterest : ofInterest everythingSelected assessed.configuration.selection mainPath :=
    .inl ⟨hselected, .inr rfl⟩
  have hsame := (hconsistent mainPath hinterest).1
  rw [hverify, hlast] at hsame
  cases hsame

end Opcore.Workflows
