/-
  Opcore.Commands.Linearization

  A capture of the workspace is that of one instant: the one at which Git listed the paths of
  the second sentinel.  A path with the same state at both sentinels had the same file in
  between, unless it was absent at both and nobody keeps from deleting a file there.
-/
import Opcore.Commands.CaptureRuns

namespace Opcore.CaptureRuns

open Text Collections Workflows

section

variable [Platform]

/-! ## A capture of one view -/

section Views

variable {w w' : GitWorktree} {paths before overlay : BTreeSet RepoPath}

omit [Platform] in
theorem afterPaths_congr (hsparse : w.sparse = w'.sparse)
    (h : ∀ path ∈ overlay, w.contents.get? path = w'.contents.get? path) :
    w.afterPaths before overlay = w'.afterPaths before overlay := by
  have hfold : overlay.elems.foldl (fun after path =>
        if (w.contents.get? path).isSome then (after.erase path).insert path
        else after.erase path) before
      = overlay.elems.foldl (fun after path =>
        if (w'.contents.get? path).isSome then (after.erase path).insert path
        else after.erase path) before := by
    apply List.foldl_ext
    intro after path hpath
    rw [h path (BTreeSet.mem_def.mpr hpath)]
  have hmissing : (overlay.filter fun path => (w.contents.get? path).isNone)
      = overlay.filter fun path => (w'.contents.get? path).isNone := by
    apply BTreeSet.ext_mem
    intro path
    rw [BTreeSet.mem_filter, BTreeSet.mem_filter]
    exact and_congr_right fun hpath => by rw [h path hpath]
  rw [GitWorktree.afterPaths, GitWorktree.afterPaths, hfold, hmissing, hsparse]

variable (batch : SourceBatch)

theorem readWorktreePath_congr {path : RepoPath} (h : w.contents.get? path = w'.contents.get? path) :
    w.readWorktreePath batch path = w'.readWorktreePath batch path := by
  rw [GitWorktree.readWorktreePath, GitWorktree.readWorktreePath, h]

theorem foldlM_readWorktreePath_congr {l : List RepoPath}
    (h : ∀ path ∈ l, w.contents.get? path = w'.contents.get? path) :
    l.foldlM w.readWorktreePath batch = l.foldlM w'.readWorktreePath batch := by
  induction l generalizing batch with
  | nil => rfl
  | cons path l ih =>
    obtain ⟨hpath, hrest⟩ := List.forall_mem_cons.mp h
    rw [List.foldlM_cons, List.foldlM_cons, readWorktreePath_congr batch hpath]
    exact congrArg _ (funext fun batch => ih batch hrest)

theorem appendSparseFiles_congr (hcat : w.catFile = w'.catFile)
    (hindex : w.index = w'.index) (hsparse : w.sparse = w'.sparse)
    (h : ∀ path ∈ paths, w.contents.get? path = w'.contents.get? path) :
    appendSparseFiles w paths batch = appendSparseFiles w' paths batch := by
  have hmissing : (paths.filter fun path =>
        (w.contents.get? path).isNone && (detectLanguage path).isSome)
      = paths.filter fun path =>
        (w'.contents.get? path).isNone && (detectLanguage path).isSome := by
    apply BTreeSet.ext_mem
    intro path
    rw [BTreeSet.mem_filter, BTreeSet.mem_filter]
    exact and_congr_right fun hpath => by rw [h path hpath]
  rw [appendSparseFiles, appendSparseFiles, hmissing, hcat, hindex, hsparse]

/-- Looks that all found what a worktree has give the capture of that worktree. -/
theorem captureWorktree_eq [Sha256] {repository : Repository} {files : Worktree}
    {placed reads : BTreeMap RepoPath Look} {beforeFiles : List SourceFile} {batch : SourceBatch}
    {capture : GitWorkspaceCapture}
    (hplaced : ∀ path ∈ repository.paths (repository.worktreePaths files),
      (lookedContents placed).get? path = (repository.atRest files).contents.get? path)
    (hreads : ∀ path ∈ repository.paths (repository.worktreePaths files),
      (lookedContents reads).get? path = (repository.atRest files).contents.get? path)
    (hbound : GitWorkspaceCapture.requirePathBound
      (capturedPaths (repository.looked (repository.worktreePaths files) ∅)) = .ok ())
    (hbefore : filesBefore (repository.looked (repository.worktreePaths files) placed)
      = .ok beforeFiles)
    (hbatch : (repository.paths (repository.worktreePaths files)).elems.foldlM
      (repository.looked (repository.worktreePaths files) reads).readWorktreePath {} = .ok batch)
    (hcapture : captureOnce (repository.looked (repository.worktreePaths files) placed)
      (repository.looked (repository.worktreePaths files) reads) beforeFiles batch
      = .ok capture) :
    GitWorkspaceCapture.captureWorktree (repository.atRest files) = .ok capture := by
  let rest := repository.atRest files
  have hafter : rest.afterPaths (capturedEntries rest).keySet rest.paths
      = (repository.looked (repository.worktreePaths files) placed).afterPaths
        (capturedEntries rest).keySet rest.paths :=
    afterPaths_congr rfl fun path hpath => (hplaced path hpath).symm
  have hfold : rest.paths.elems.foldlM rest.readWorktreePath {} = .ok batch := by
    rw [← hbatch]
    exact foldlM_readWorktreePath_congr {} fun path hpath =>
      (hreads path (BTreeSet.mem_def.mpr hpath)).symm
  have hread : rest.readWorktreeFiles rest.paths
      = appendSparseFiles (repository.looked (repository.worktreePaths files) reads) rest.paths
        batch := by
    rw [GitWorktree.readWorktreeFiles, hfold]
    exact appendSparseFiles_congr batch rfl rfl rfl fun path hpath => (hreads path hpath).symm
  rw [captureOnce] at hcapture
  obtain ⟨overlayFiles, hoverlay, hcapture⟩ := Except.bind_eq_ok_iff.mp hcapture
  refine Except.bind_eq_ok_iff.mpr ⟨(), hbound, ?_⟩
  refine Except.bind_eq_ok_iff.mpr ⟨beforeFiles, hbefore, ?_⟩
  refine Except.bind_eq_ok_iff.mpr ⟨overlayFiles, hread.trans hoverlay, ?_⟩
  rw [← hcapture]
  -- the two differ in the paths that they count
  let afterFiles := applyWorkspaceOverlay beforeFiles rest.paths overlayFiles
  let counted (afterPaths : BTreeSet RepoPath) : GitWorkspaceCapture := {
    before := .new beforeFiles
    after := .new afterFiles
    paths := capturedPaths rest
    changedPaths := changedSourcePaths beforeFiles afterFiles
    beforeUnsupportedFiles := unsupportedCount (capturedEntries rest).keySet
    afterUnsupportedFiles := unsupportedCount afterPaths
    unsupportedChangedFiles := (rest.worktreePaths.filter isUnsupported).size }
  exact congrArg (fun afterPaths => Except.ok (counted afterPaths)) hafter

end Views

/-! ## What is recorded of a run -/

section Records

variable (repository : Repository) (history : History)

/-- A sentinel taken up to an instant. -/
structure Observed.Recorded (finish : Nat) (observed : Observed) (todo : List RepoPath) : Prop where
  worktreePaths_eq : observed.worktreePaths = repository.worktreePaths
    (worktreeAt history.initial history.edits observed.instant)
  looked : Looked history observed.instant finish
    (repository.paths observed.worktreePaths).elems todo observed.looks

/-- No file is deleted at a path from the look on that found none. -/
def Observed.Guarded (observed : Observed) : Prop :=
  ∀ path look, observed.looks.get? path = some look → look.Guarded history path

/-- The looks have found what the worktree has. -/
def Find (files : Worktree) (looks : BTreeMap RepoPath Look) : Prop :=
  ∀ path look, looks.get? path = some look → look.file = files.get? path

variable [Sha256]

/-- A capture made between two instants is that of every view that its looks have found. -/
def Captured (before : Observed) (start finish : Nat) (capture : GitWorkspaceCapture) : Prop :=
  ∃ placed reads,
    Looked history start finish (repository.paths before.worktreePaths).elems [] placed
      ∧ Looked history start finish (repository.paths before.worktreePaths).elems [] reads
      ∧ ∀ files, repository.worktreePaths files = before.worktreePaths → Find files placed →
        Find files reads →
        GitWorkspaceCapture.captureWorktree (repository.atRest files) = .ok capture

/-- What an attempt has at an instant. -/
def Progress.Valid (finish : Nat) : Progress → Prop
  | .first _ => True
  | .second _ before capture => ∃ middle, before.Recorded repository history middle []
      ∧ before.Guarded history ∧ Captured repository history before middle finish capture

/-- The first sentinel of an attempt, and what was checked of it. -/
structure Begun (before : Observed) (middle : Nat) : Prop where
  recorded : before.Recorded repository history middle []
  guarded : before.Guarded history
  bound : GitWorkspaceCapture.requirePathBound
    (capturedPaths (repository.looked before.worktreePaths ∅)) = .ok ()

/-- The capture is that of one instant. -/
def Linearized (capture : GitWorkspaceCapture) : Prop :=
  ∃ instant ≤ history.now, GitWorkspaceCapture.captureWorktree
    (repository.atRest (worktreeAt history.initial history.edits instant)) = .ok capture

/-- What holds of the records at every point of a capture. -/
def Flow.Valid : Flow → Prop
  | .listing progress => progress.Valid repository history history.now
  | .scanning progress listed _ _ => listed.instant ≤ history.now
      ∧ listed.worktreePaths = repository.worktreePaths
        (worktreeAt history.initial history.edits listed.instant)
      ∧ progress.Valid repository history listed.instant
  | .looking progress listed scope looks todo =>
    let observed : Observed := ⟨listed.instant, listed.worktreePaths, scope, looks⟩
    observed.Recorded repository history history.now todo
      ∧ progress.Valid repository history listed.instant
      ∧ ∀ attempt, progress = .first attempt → observed.Guarded history
  | .placing _ before placed todo => ∃ middle, Begun repository history before middle
      ∧ Looked history middle history.now (repository.paths before.worktreePaths).elems todo placed
  | .reading _ before placed reads beforeFiles batch todo =>
    ∃ middle, Begun repository history before middle
      ∧ Looked history middle history.now (repository.paths before.worktreePaths).elems [] placed
      ∧ Looked history middle history.now (repository.paths before.worktreePaths).elems todo reads
      ∧ filesBefore (repository.looked before.worktreePaths placed) = .ok beforeFiles
      ∧ ∃ done, (repository.paths before.worktreePaths).elems = done ++ todo
        ∧ done.foldlM (repository.looked before.worktreePaths reads).readWorktreePath {}
          = .ok batch
  | .finished _ capture _ => Linearized repository history capture
  | .failed => True

end Records

/-! ## Edits -/

/-- A look found no file at the path. -/
def Absent (looks : BTreeMap RepoPath Look) (path : RepoPath) : Prop :=
  ∃ look, looks.get? path = some look ∧ look.file = none

/-- The first sentinel of the attempt has found no file at the path. -/
def Flow.foundAbsent (path : RepoPath) : Flow → Prop
  | .listing (.second _ before _) | .scanning (.second _ before _) _ _ _
  | .looking (.second _ before _) _ _ _ _ | .placing _ before _ _
  | .reading _ before _ _ _ _ _ => Absent before.looks path
  | .looking (.first _) _ _ looks _ => Absent looks path
  | _ => False

/-- The condition on a step: no file is deleted at a path where the first sentinel has found
    none. -/
def Admissible (w : World) : Action → Prop
  | .edit (.delete path) => ¬ w.flow.foundAbsent path
  | _ => True

section Edits

variable {repository : Repository} {history : History} {edit : Edit}
  {start finish finish' : Nat} {paths todo : List RepoPath} {looks : BTreeMap RepoPath Look}

omit [Platform] in
theorem Observed.Recorded.edited {observed : Observed}
    (h : observed.Recorded repository history finish todo) (hfinish : finish ≤ finish')
    (hnow : finish' ≤ history.now + 1) :
    observed.Recorded repository (edited history edit) finish' todo where
  worktreePaths_eq := by
    rw [worktreeAt_append (h.looked.start_le.trans h.looked.finish_le)]
    exact h.worktreePaths_eq
  looked := h.looked.edited hfinish hnow

omit [Platform] in
theorem Observed.Guarded.edited {observed : Observed} (h : observed.Guarded history)
    (hdelete : ∀ path, Absent observed.looks path → edit ≠ .delete path) :
    observed.Guarded (edited history edit) :=
  fun path look hget => (h path look hget).edited fun hnone => hdelete path ⟨look, hget, hnone⟩

omit [Platform] in
theorem Begun.edited {before : Observed} {middle : Nat}
    (h : Begun repository history before middle)
    (hdelete : ∀ path, Absent before.looks path → edit ≠ .delete path) :
    Begun repository (edited history edit) before middle where
  recorded := h.recorded.edited le_rfl (Nat.le_succ_of_le h.recorded.looked.finish_le)
  guarded := h.guarded.edited hdelete
  bound := h.bound

variable [Sha256]

theorem Captured.edited {before : Observed} {capture : GitWorkspaceCapture}
    (h : Captured repository history before start finish capture) (hfinish : finish ≤ finish')
    (hnow : finish' ≤ history.now + 1) :
    Captured repository (edited history edit) before start finish' capture := by
  obtain ⟨placed, reads, hplaced, hreads, hviews⟩ := h
  exact ⟨placed, reads, hplaced.edited hfinish hnow, hreads.edited hfinish hnow, hviews⟩

theorem Progress.Valid.edited {progress : Progress} (h : progress.Valid repository history finish)
    (hfinish : finish ≤ finish') (hnow : finish' ≤ history.now + 1)
    (hdelete : ∀ attempt before capture path, progress = .second attempt before capture →
      Absent before.looks path → edit ≠ .delete path) :
    progress.Valid repository (edited history edit) finish' := by
  cases progress with
  | first attempt => trivial
  | second attempt before capture =>
    obtain ⟨middle, hrecorded, hguarded, hcaptured⟩ := h
    refine ⟨middle, ?_, ?_, hcaptured.edited hfinish hnow⟩
    · exact hrecorded.edited le_rfl (Nat.le_succ_of_le hrecorded.looked.finish_le)
    · exact hguarded.edited fun path => hdelete attempt before capture path rfl

theorem Linearized.edited {capture : GitWorkspaceCapture}
    (h : Linearized repository history capture) :
    Linearized repository (edited history edit) capture := by
  obtain ⟨instant, hinstant, hcapture⟩ := h
  refine ⟨instant, by rw [now_edited]; exact Nat.le_succ_of_le hinstant, ?_⟩
  rw [worktreeAt_append hinstant]
  exact hcapture

/-- An admissible edit leaves the records of a capture in order. -/
theorem Flow.Valid.edited {w : World} (h : w.flow.Valid repository w.toHistory)
    (hadmissible : Admissible w (.edit edit)) :
    w.flow.Valid repository (edited w.toHistory edit) := by
  have hdelete : ∀ path, w.flow.foundAbsent path → edit ≠ .delete path := by
    rintro path habsent rfl
    exact hadmissible habsent
  have hnow := @now_edited w.toHistory edit
  -- An edit moves the present; what was read keeps its moment.
  cases hflow : w.flow with
  | listing progress =>
    rw [hflow] at h hdelete
    show progress.Valid repository _ _
    rw [hnow]
    refine Progress.Valid.edited h (Nat.le_succ _) le_rfl ?_
    rintro attempt before capture path rfl
    exact hdelete path
  | scanning progress listed manifest todo =>
    rw [hflow] at h hdelete
    obtain ⟨hlisted, hpaths, hprogress⟩ := h
    refine ⟨by rw [hnow]; exact Nat.le_succ_of_le hlisted, ?_, ?_⟩
    · rw [worktreeAt_append hlisted]
      exact hpaths
    · refine hprogress.edited le_rfl (Nat.le_succ_of_le hlisted) ?_
      rintro attempt before capture path rfl
      exact hdelete path
  | looking progress listed scope looks todo =>
    rw [hflow] at h hdelete
    obtain ⟨hobserved, hprogress, hguarded⟩ := h
    have hlisted := hobserved.looked.start_le
    refine ⟨?_, ?_, ?_⟩
    · rw [hnow]
      exact hobserved.edited (Nat.le_succ _) le_rfl
    · refine hprogress.edited le_rfl (Nat.le_succ_of_le hlisted) ?_
      rintro attempt before capture path rfl
      exact hdelete path
    · rintro attempt rfl
      exact (hguarded attempt rfl).edited hdelete
  | placing attempt before placed todo =>
    rw [hflow] at h hdelete
    obtain ⟨middle, hbegun, hplaced⟩ := h
    refine ⟨middle, hbegun.edited hdelete, ?_⟩
    rw [hnow]
    exact hplaced.edited (Nat.le_succ _) le_rfl
  | reading attempt before placed reads beforeFiles batch todo =>
    rw [hflow] at h hdelete
    obtain ⟨middle, hbegun, hplaced, hreads, hbatch⟩ := h
    refine ⟨middle, hbegun.edited hdelete, ?_, ?_, hbatch⟩
    · rw [hnow]
      exact hplaced.edited (Nat.le_succ _) le_rfl
    · rw [hnow]
      exact hreads.edited (Nat.le_succ _) le_rfl
  | finished before capture after =>
    rw [hflow] at h
    exact Linearized.edited h
  | failed => trivial

end Edits

/-! ## The next access -/

section Advance

variable {repository : Repository} {history : History}

omit [Platform] in
/-- The contents that looks found are those of the worktree they agree with. -/
theorem lookedContents_eq {start finish : Nat} {paths : List RepoPath}
    {looks : BTreeMap RepoPath Look} {files : Worktree}
    (h : Looked history start finish paths [] looks) (hfind : Find files looks) {path : RepoPath}
    (hpath : path ∈ paths) :
    (lookedContents looks).get? path = (repository.atRest files).contents.get? path := by
  obtain ⟨look, hlook⟩ :=
    BTreeMap.mem_keys_iff.mp ((h.looked path).mpr ⟨hpath, List.not_mem_nil⟩)
  show (looks.filterMap _).get? path = (files.filterMap _).get? path
  rw [BTreeMap.get?_filterMap, BTreeMap.get?_filterMap, hlook, Option.bind_some,
    hfind path look hlook]
  cases files.get? path <;> rfl

variable [Sha256]

omit [Platform] in
/-- Looks between two sentinels that agree have found the files of the second listing. -/
theorem find_of_sentinel (hdigest : Function.Injective Sha256.digest)
    (hfresh : FreshEdits history.initial history.edits) {before after : Observed}
    {middle finish : Nat} (hbefore : before.Recorded repository history middle [])
    (hguarded : before.Guarded history) (hafter : after.Recorded repository history history.now [])
    (hfinish : finish ≤ after.instant)
    (hsame : before.sentinel repository = after.sentinel repository)
    {looks : BTreeMap RepoPath Look}
    (hlooks : Looked history middle finish (repository.paths before.worktreePaths).elems [] looks) :
    Find (worktreeAt history.initial history.edits after.instant) looks := by
  intro path look hlook
  obtain ⟨hrecorded, hle, hge⟩ := hlooks.look path look hlook
  have hgenerations : generationState before.generations = generationState after.generations :=
    congrArg WorkspaceSentinel.generations hsame
  have hstates := @looks_of_generationState _ hdigest ⟨before.instant, [], before.looks⟩
    ⟨after.instant, [], after.looks⟩ hgenerations path
  dsimp only at hstates
  -- the path was looked at for both sentinels
  have hkey : path ∈ before.looks.keys :=
    (hbefore.looked.looked path).mpr
      ((hlooks.looked path).mp (BTreeMap.mem_keys_iff.mpr ⟨look, hlook⟩))
  obtain ⟨first, hfirst⟩ := BTreeMap.mem_keys_iff.mp hkey
  rw [hfirst, Option.map_some] at hstates
  obtain ⟨last, hlast, hstate⟩ := Option.map_eq_some_iff.mp hstates.symm
  obtain ⟨hfirst_recorded, -, hfirst_le⟩ := hbefore.looked.look path first hfirst
  obtain ⟨hlast_recorded, hlast_ge, -⟩ := hafter.looked.look path last hlast
  have hfile : ∀ {instant : Nat}, first.instant ≤ instant → instant ≤ last.instant → _ :=
    file_eq_of_looks hfresh hfirst_recorded (hguarded path first hfirst) hlast_recorded hstate.symm
  have hlook_le : look.instant ≤ after.instant := hge.trans hfinish
  rw [hrecorded.file_eq, hfile (hfirst_le.trans hle) (hlook_le.trans hlast_ge),
    hfile ((hfirst_le.trans hle).trans hlook_le) hlast_ge]

/-- A capture between two sentinels that agree is that of the second listing. -/
theorem linearized_of_sentinel (hdigest : Function.Injective Sha256.digest)
    (hfresh : FreshEdits history.initial history.edits) {before after : Observed}
    {capture : GitWorkspaceCapture} {middle finish : Nat}
    (hbefore : before.Recorded repository history middle []) (hguarded : before.Guarded history)
    (hcaptured : Captured repository history before middle finish capture)
    (hafter : after.Recorded repository history history.now []) (hfinish : finish ≤ after.instant)
    (hsame : before.sentinel repository = after.sentinel repository) :
    Linearized repository history capture := by
  obtain ⟨placed, reads, hplaced, hreads, hviews⟩ := hcaptured
  have hpaths : after.worktreePaths = before.worktreePaths :=
    (congrArg WorkspaceSentinel.worktreePaths hsame).symm
  have hfind {looks : BTreeMap RepoPath Look} := @find_of_sentinel repository history _ hdigest
    hfresh before after middle finish hbefore hguarded hafter hfinish hsame looks
  refine ⟨after.instant, hafter.looked.start_le.trans hafter.looked.finish_le, ?_⟩
  exact hviews _ (hafter.worktreePaths_eq.symm.trans hpaths) (hfind hplaced) (hfind hreads)

theorem Flow.Valid.retry (attempt : Nat) :
    (CaptureRuns.retry attempt).Valid repository history := by
  rw [CaptureRuns.retry]
  split_ifs <;> trivial

theorem Flow.Valid.giveUp (attempt : Nat) (error : SourceError) :
    (CaptureRuns.giveUp attempt error).Valid repository history := by
  cases error with
  | changed detail => exact Flow.Valid.retry attempt
  | _ => trivial

/-- What follows a sentinel has its records in order. -/
theorem Progress.Valid.next (hdigest : Function.Injective Sha256.digest)
    (hfresh : FreshEdits history.initial history.edits) {progress : Progress} {observed : Observed}
    (h : progress.Valid repository history observed.instant)
    (hobserved : observed.Recorded repository history history.now [])
    (hguarded : ∀ attempt, progress = .first attempt → observed.Guarded history) :
    (progress.next repository observed).Valid repository history := by
  cases progress with
  | first attempt =>
    rw [Progress.next]
    cases hbound : GitWorkspaceCapture.requirePathBound
        (capturedPaths (repository.looked observed.worktreePaths ∅)) with
    | ok u =>
      refine ⟨history.now, ⟨hobserved, hguarded attempt rfl, hbound⟩, ?_⟩
      exact Looked.begin le_rfl (BTreeSet.nodup_elems _)
    | error error => exact Flow.Valid.giveUp attempt error
  | second attempt before capture =>
    obtain ⟨middle, hbefore, hguarded, hcaptured⟩ := h
    rw [Progress.next]
    split_ifs with hsame
    · exact linearized_of_sentinel hdigest hfresh hbefore hguarded hcaptured hobserved le_rfl hsame
    · exact Flow.Valid.retry attempt

/-- The next access leaves the records of a capture in order. -/
theorem Flow.Valid.advance (hdigest : Function.Injective Sha256.digest) {w : World}
    (hfresh : FreshEdits w.initial w.edits) (h : w.flow.Valid repository w.toHistory) :
    (w.advance repository).Valid repository w.toHistory := by
  unfold World.advance
  split
  next progress hflow =>
    rw [hflow] at h
    exact ⟨le_rfl, rfl, h⟩
  next progress listed manifest path todo hflow =>
    rw [hflow] at h
    split
    · exact h
    · trivial
  next progress listed manifest hflow =>
    rw [hflow] at h
    obtain ⟨hlisted, hpaths, hprogress⟩ := h
    split
    · have hlooked := Looked.begin hlisted (BTreeSet.nodup_elems (repository.paths listed.worktreePaths))
      exact ⟨⟨hpaths, hlooked⟩, hprogress, fun _ _ _ _ hget => by cases hget⟩
    · trivial
  next progress listed scope looks path todo hflow =>
    rw [hflow] at h
    obtain ⟨hobserved, hprogress, hguarded⟩ := h
    refine ⟨⟨hobserved.worktreePaths_eq, hobserved.looked.add⟩, hprogress, ?_⟩
    rintro attempt rfl p look hget
    rw [BTreeMap.get?_insert] at hget
    split_ifs at hget with hp
    · cases hget
      rw [hp]
      exact look_guarded
    · exact hguarded attempt rfl p look hget
  next progress listed scope looks hflow =>
    rw [hflow] at h
    obtain ⟨hobserved, hprogress, hguarded⟩ := h
    exact hprogress.next hdigest hfresh hobserved hguarded
  next attempt before placed path todo hflow =>
    rw [hflow] at h
    obtain ⟨middle, hbegun, hplaced⟩ := h
    exact ⟨middle, hbegun, hplaced.add⟩
  next attempt before placed hflow =>
    rw [hflow] at h
    obtain ⟨middle, hbegun, hplaced⟩ := h
    split
    next beforeFiles hbefore =>
      have hreads := Looked.begin (hbegun.recorded.looked.finish_le)
        (BTreeSet.nodup_elems (repository.paths before.worktreePaths))
      exact ⟨middle, hbegun, hplaced, hreads, hbefore, [], rfl, rfl⟩
    next error _ => exact Flow.Valid.giveUp attempt error
  next attempt before placed reads beforeFiles batch path todo hflow =>
    rw [hflow] at h
    obtain ⟨middle, hbegun, hplaced, hreads, hbefore, done, hdone, hbatch⟩ := h
    dsimp only
    split
    next batch' hread =>
      refine ⟨middle, hbegun, hplaced, hreads.add, hbefore, done ++ [path], ?_, ?_⟩
      · rw [hdone, List.append_assoc, List.singleton_append]
      · -- the new read leaves the earlier ones as they were
        have hnodup := BTreeSet.nodup_elems (repository.paths before.worktreePaths)
        rw [hdone, List.nodup_append] at hnodup
        have hsame : ∀ p ∈ done, (repository.looked before.worktreePaths
              (reads.insert path (w.look path))).contents.get? p
            = (repository.looked before.worktreePaths reads).contents.get? p := by
          intro p hp
          have hne : p ≠ path := hnodup.2.2 p hp path List.mem_cons_self
          show (BTreeMap.filterMap _ _).get? p = (BTreeMap.filterMap _ _).get? p
          rw [BTreeMap.get?_filterMap, BTreeMap.get?_filterMap, BTreeMap.get?_insert, if_neg hne]
        rw [List.foldlM_append, foldlM_readWorktreePath_congr {} hsame, hbatch]
        refine Except.bind_eq_ok_iff.mpr ⟨batch, rfl, ?_⟩
        exact Except.bind_eq_ok_iff.mpr ⟨batch', hread, rfl⟩
    next error _ => exact Flow.Valid.giveUp attempt error
  next attempt before placed reads beforeFiles batch hflow =>
    rw [hflow] at h
    obtain ⟨middle, hbegun, hplaced, hreads, hbefore, done, hdone, hbatch⟩ := h
    rw [List.append_nil] at hdone
    rw [← hdone] at hbatch
    split
    next capture hcapture =>
      refine ⟨middle, hbegun.recorded, hbegun.guarded, placed, reads, hplaced, hreads, ?_⟩
      intro files hfiles hfindPlaced hfindReads
      have hbound := hbegun.bound
      rw [← hfiles] at hplaced hreads hbound hbefore hbatch hcapture
      exact captureWorktree_eq
        (fun path hpath => lookedContents_eq hplaced hfindPlaced (BTreeSet.mem_def.mp hpath))
        (fun path hpath => lookedContents_eq hreads hfindReads (BTreeSet.mem_def.mp hpath))
        hbound hbefore hbatch hcapture
    next error _ => exact Flow.Valid.giveUp attempt error
  next before capture after hflow =>
    rw [hflow] at h
    exact h
  next => trivial

end Advance

/-! ## Runs -/

section Runs

variable [Sha256] {repository : Repository}

def World.Inv (repository : Repository) (w : World) : Prop :=
  FreshEdits w.initial w.edits ∧ w.flow.Valid repository w.toHistory

theorem World.Inv.step (hdigest : Function.Injective Sha256.digest) {w w' : World} {action : Action}
    (h : w.Inv repository) (hadmissible : Admissible w action)
    (hstep : CaptureRuns.step repository w action = some w') : w'.Inv repository := by
  obtain ⟨hfresh, hvalid⟩ := h
  cases action with
  | edit edit =>
    simp only [CaptureRuns.step] at hstep
    split_ifs at hstep with hedit
    cases hstep
    exact ⟨hfresh.snoc hedit, hvalid.edited hadmissible⟩
  | advance =>
    cases hstep
    exact ⟨hfresh, hvalid.advance hdigest hfresh⟩

/-- A capture is that of an instant during it, when nobody deletes a file at a path where its
    first sentinel has found none. -/
theorem capture_linearized (hdigest : Function.Injective Sha256.digest)
    {initial : Worktree} {actions : List Action} {w : World} {before after : Observed}
    {capture : GitWorkspaceCapture}
    (hrun : Transition.run (step repository) { initial } actions = some w)
    (hadmissible : Transition.Throughout (step repository) Admissible { initial } actions)
    (hfinished : w.flow = .finished before capture after) :
    Linearized repository w.toHistory capture := by
  have hstart : World.Inv repository { initial } := by
    refine ⟨?_, trivial⟩
    intro before edit after heq
    simp at heq
  have hend := Transition.run_preserves_throughout
    (fun _ _ _ hinv hallowed hstep => World.Inv.step hdigest hinv hallowed hstep) hrun hadmissible
    hstart
  have hvalid := hend.2
  rw [hfinished] at hvalid
  exact hvalid

end Runs

end

/-! ## A run with a retry, and a run that sees two files at no one time -/

section Samples

attribute [local instance] linuxPlatform identityDigest

def firstPath : RepoPath := samplePath "a.ts"
def secondPath : RepoPath := samplePath "b.ts"

/-- Two files that are added to the index and not committed: Git reports both, whatever the
    worktree has of them. -/
def twoAdded : Repository where
  catFile _ := []
  targets := ⟨[]⟩
  headEntries := ∅
  special := ∅
  sparse := ∅
  index := .ofList [(firstPath, ⟨ascii "100644", ascii "1", utf8Valid_one⟩),
    (secondPath, ⟨ascii "100644", ascii "2", utf8Valid_two⟩)]
  status _ := .ofList [firstPath, secondPath]

def sampleFile (n : UInt8) (hn : List.replicate 56 n ≠ noMetadata) : WorktreeFile where
  state := List.replicate 56 n
  content := [n]
  length_state := List.length_replicate
  present := hn

def firstFile : WorktreeFile := sampleFile 1 (by decide)
def secondFile : WorktreeFile := sampleFile 2 (by decide)

/-- Whether the after view of a finished capture has files at the two paths, and how many edits
    there were. -/
def World.seen (w : World) : Option (Bool × Bool × Nat) :=
  match w.flow with
  | .finished _ capture _ =>
    some ((capture.after.read firstPath).isSome, (capture.after.read secondPath).isSome, w.now)
  | _ => none

theorem exists_finished_of_seen {initial : Worktree} {actions : List Action} {a b : Bool} {n : Nat}
    (h : (Transition.run (step twoAdded) { initial } actions).bind World.seen = some (a, b, n)) :
    ∃ w before capture after, Transition.run (step twoAdded) { initial } actions = some w
      ∧ w.flow = .finished before capture after ∧ (capture.after.read firstPath).isSome = a
      ∧ (capture.after.read secondPath).isSome = b ∧ w.now = n := by
  obtain ⟨w, hrun, hseen⟩ := Option.bind_eq_some_iff.mp h
  rw [World.seen] at hseen
  cases hflow : w.flow with
  | finished before capture after =>
    rw [hflow] at hseen
    cases hseen
    exact ⟨w, before, capture, after, hrun, hflow, rfl, rfl, rfl⟩
  | _ =>
    rw [hflow] at hseen
    cases hseen

/-- The second file is written behind the first sentinel, so that the capture is tried again. -/
def retriedRun : List Action :=
  List.replicate 8 .advance ++ .edit (.write secondPath secondFile) :: List.replicate 32 .advance

theorem capture_linearized_retried : ∃ w before capture after,
    Transition.run (step twoAdded) { initial := .ofList [(firstPath, firstFile)] } retriedRun
      = some w
      ∧ w.flow = .finished before capture after ∧ (capture.after.read secondPath).isSome = true
      ∧ Linearized twoAdded w.toHistory capture := by
  obtain ⟨w, before, capture, after, hrun, hflow, -, hsecond, -⟩ :=
    @exists_finished_of_seen (.ofList [(firstPath, firstFile)]) retriedRun true true 1
      (by decide +kernel)
  refine ⟨w, before, capture, after, hrun, hflow, hsecond, ?_⟩
  refine capture_linearized Function.injective_id hrun (Transition.throughout_of_forall ?_) hflow
  intro w action haction
  -- nothing is deleted in this run
  have hkind : action = .advance ∨ action = .edit (.write secondPath secondFile) := by
    simp only [retriedRun, List.mem_append, List.mem_cons, List.mem_replicate] at haction
    tauto
  obtain rfl | rfl := hkind <;> trivial

/-- Each file is there when it is read and at no other time, and no two of them at once. -/
def passingRun : List Action :=
  List.replicate 10 .advance
    ++ [.edit (.write firstPath firstFile), .advance, .edit (.delete firstPath),
      .edit (.write secondPath secondFile), .advance, .edit (.delete secondPath)]
    ++ List.replicate 8 .advance

/-- The view of an instant has both files. -/
def bothAt (history : History) (instant : Nat) : Bool :=
  match GitWorkspaceCapture.captureWorktree
      (twoAdded.atRest (worktreeAt history.initial history.edits instant)) with
  | .ok view => (view.after.read firstPath).isSome && (view.after.read secondPath).isSome
  | .error _ => false

theorem not_forall_capture_linearized :
    ¬ ∀ (repository : Repository) (initial : Worktree) (actions : List Action) (w : World)
        (before after : Observed) (capture : GitWorkspaceCapture),
      Transition.run (step repository) { initial } actions = some w →
      w.flow = .finished before capture after →
      ∃ instant ≤ w.now, ∃ view,
        GitWorkspaceCapture.captureWorktree
          (repository.atRest (worktreeAt w.initial w.edits instant)) = .ok view
        ∧ view.after = capture.after ∧ view.afterUnsupportedFiles = capture.afterUnsupportedFiles := by
  intro hall
  have hseen : ((Transition.run (step twoAdded) { initial := ∅ } passingRun).bind World.seen)
      = some (true, true, 4) := by decide +kernel
  have hnever : ((Transition.run (step twoAdded) { initial := ∅ } passingRun).any fun w =>
      (List.range 5).all fun instant => !bothAt w.toHistory instant) = true := by decide +kernel
  obtain ⟨w, before, capture, after, hrun, hflow, hfirst, hsecond, hnow⟩ :=
    exists_finished_of_seen hseen
  obtain ⟨instant, hinstant, view, hview, hsame, -⟩ := hall _ _ _ _ _ _ _ hrun hflow
  rw [hrun] at hnever
  have hnot := List.all_eq_true.mp hnever instant (List.mem_range.mpr (by omega))
  have hboth : bothAt w.toHistory instant = true := by
    rw [bothAt, hview]
    show ((view.after.read firstPath).isSome && (view.after.read secondPath).isSome) = true
    rw [hsame, hfirst, hsecond]
    rfl
  rw [hboth] at hnot
  cases hnot

end Samples

end Opcore.CaptureRuns
