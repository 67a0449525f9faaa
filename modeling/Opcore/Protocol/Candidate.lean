/-
  Opcore.Protocol.Candidate

  The paths a diagnostic may have.  The host keeps the paths of the candidate as it
  goes over the changes; they are the ones at which the provider's tree, after the
  same changes, has a file, and each is one that can be sent.
-/
import Opcore.Protocol.Evaluate
import Opcore.Protocol.HostTrees
import Opcore.Protocol.Validation

namespace Opcore

open Text Collections Json Asp Validation

namespace Validation

/-! ## One change -/

/-- What a change does to the candidate. -/
def CandidatePaths.apply (paths : CandidatePaths) (change : Change) : CandidatePaths :=
  match change.kind with
  | .create | .modify => paths.add change.path
  | .delete => paths.remove change.path
  | .rename => (change.source.elim paths paths.remove).add change.path

theorem parseCandidateChange_toValue {change : Change} (h : isProtocolPath change.path = true) :
    ∃ members, parseCandidateChange change.toValue = .ok (members, change.path, change.kind.asStr)
      ∧ members.lookup (ascii "from") = change.source.map fun path => .string (pathText path) := by
  obtain ⟨path, kind, source, before, after⟩ := change
  have hpath := protocolPath_pathText h (ascii "check/evaluate change path is invalid")
  have hread : ∀ members : List (Str × Value),
      members.lookup (ascii "path") = some (.string (pathText path)) →
      members.lookup (ascii "kind") = some (.string kind.asStr) →
      parseCandidateChange (.object members) = .ok (members, path, kind.asStr) := by
    intro members hmember hkind
    unfold parseCandidateChange
    dsimp only [Value.asObject?]
    rw [hmember, hkind]
    exact Except.bind_eq_ok_iff.mpr ⟨path, hpath, rfl⟩
  cases source <;> cases before <;> cases after <;> exact ⟨_, hread _ rfl rfl, rfl⟩

/-- The host reads a legal change as it was meant. -/
theorem applyCandidateChange_toValue {change : Change} (hsendable : change.isSendable = true)
    (hlegal : change.Legal) (paths : CandidatePaths) :
    applyCandidateChange paths change.toValue = .ok (paths.apply change) := by
  obtain ⟨hpath, hsource⟩ := Bool.and_eq_true_iff.mp hsendable
  obtain ⟨members, hparse, hfrom⟩ := parseCandidateChange_toValue hpath
  refine Except.bind_eq_ok_iff.mpr ⟨_, hparse, ?_⟩
  obtain ⟨path, kind, source, before, after⟩ := change
  cases kind with
  | create => rfl
  | modify => rfl
  | delete => rfl
  | rename =>
    obtain ⟨source, rfl⟩ := Option.isSome_iff_exists.mp hlegal.1
    have hprotocol := protocolPath_pathText (show isProtocolPath source = true from hsource)
      (ascii "rename source path is invalid")
    show applyCandidateRename members paths path = _
    unfold applyCandidateRename
    rw [hfrom]
    exact Except.bind_eq_ok_iff.mpr ⟨source, hprotocol, rfl⟩

theorem foldlM_applyCandidateChange {changes : List Change}
    (hsendable : ∀ change ∈ changes, change.isSendable = true)
    (hlegal : ∀ change ∈ changes, change.Legal) (paths : CandidatePaths) :
    (changes.map Change.toValue).foldlM applyCandidateChange paths
      = .ok (changes.foldl CandidatePaths.apply paths) := by
  induction changes generalizing paths with
  | nil => rfl
  | cons change changes ih =>
    obtain ⟨hchange, hsendable⟩ := List.forall_mem_cons.mp hsendable
    obtain ⟨hfirst, hlegal⟩ := List.forall_mem_cons.mp hlegal
    rw [List.map_cons, List.foldlM_cons, applyCandidateChange_toValue hchange hfirst]
    exact ih hsendable hlegal (paths.apply change)

/-! ## The candidate and the tree -/

/-- The paths of the candidate are the ones a tree has an entry at. -/
def CandidatePaths.Agrees (paths : CandidatePaths) (tree : TreeState) : Prop :=
  ∀ p, p ∈ paths.candidate ↔ tree.entries.get? p ≠ none

section

variable {paths : CandidatePaths} {tree tree' : TreeState}

theorem CandidatePaths.Agrees.add (h : paths.Agrees tree) (path : RepoPath) (blob : Str) :
    (paths.add path).Agrees (tree.write path blob) := by
  intro p
  have hadd : p ∈ (paths.add path).candidate ↔ p = path ∨ p ∈ paths.candidate :=
    BTreeSet.mem_insert
  have hwrite : (tree.write path blob).entries.get? p
      = if p = path then some blob else tree.entries.get? p := BTreeMap.get?_insert
  rw [hadd, hwrite, h p]
  split_ifs with hp
  · simp [hp]
  · simp [hp]

theorem CandidatePaths.Agrees.remove (h : paths.Agrees tree) (path : RepoPath) :
    (paths.remove path).Agrees (tree.remove path) := by
  intro p
  have hremove : p ∈ (paths.remove path).candidate ↔ p ∈ paths.candidate ∧ p ≠ path :=
    BTreeSet.mem_erase
  have herase : (tree.remove path).entries.get? p
      = if p = path then none else tree.entries.get? p := BTreeMap.get?_erase
  rw [hremove, herase, h p]
  split_ifs with hp
  · simp [hp]
  · simp [hp]

/-- The host and the provider take a legal change the same way. -/
theorem CandidatePaths.Agrees.apply (h : paths.Agrees tree) {change : Change}
    (hlegal : change.Legal) (happly : applyChange tree change = .ok tree') :
    (paths.apply change).Agrees tree' := by
  obtain ⟨path, kind, source, before, after⟩ := change
  cases kind with
  | create =>
    obtain ⟨blob, rfl⟩ := Option.isSome_iff_exists.mp hlegal.2.2
    cases happly
    exact h.add path blob
  | modify =>
    obtain ⟨blob, rfl⟩ := Option.isSome_iff_exists.mp hlegal.2.2
    cases happly
    exact h.add path blob
  | delete =>
    cases happly
    exact h.remove path
  | rename =>
    obtain ⟨source, rfl⟩ := Option.isSome_iff_exists.mp hlegal.1
    have hrename : applyRename tree ⟨path, .rename, some source, before, after⟩ = .ok tree' :=
      happly
    unfold applyRename at hrename
    dsimp only at hrename
    split at hrename
    · cases hrename
    · next blob _ =>
      cases hrename
      exact (h.remove source).add path blob

theorem CandidatePaths.Agrees.foldl (h : paths.Agrees tree) {changes : List Change}
    (hlegal : ∀ change ∈ changes, change.Legal)
    (happly : changes.foldlM applyChange tree = .ok tree') :
    (changes.foldl CandidatePaths.apply paths).Agrees tree' := by
  induction changes generalizing paths tree with
  | nil =>
    cases happly
    exact h
  | cons change changes ih =>
    obtain ⟨hfirst, hlegal⟩ := List.forall_mem_cons.mp hlegal
    rw [List.foldlM_cons] at happly
    obtain ⟨next, hnext, happly⟩ := Except.bind_eq_ok_iff.mp happly
    exact ih (h.apply hfirst hnext) hlegal happly

/-- The whole listing of a workspace gives a tree with its entries. -/
theorem agrees_of_listing {workspace : HostWorkspace} {preconditions requested : BTreeSet RepoPath}
    (h : treeFromListing ⟨workspace.entries.entries.map listedEntry, false⟩ .workspace preconditions
      requested = .ok tree) : CandidatePaths.Agrees ⟨workspace.entries.keySet, ∅⟩ tree := by
  unfold treeFromListing at h
  split_ifs at h with hmany
  obtain ⟨-, hmem, hother⟩ := foldlM_addListingEntry h
  intro p
  show p ∈ workspace.entries.keySet ↔ _
  rw [BTreeMap.mem_keySet_iff]
  cases hget : workspace.entries.get? p with
  | none =>
    have hnone : tree.at_ p = (none, none) := by
      refine hother p ?_
      intro entry hentry heq
      obtain ⟨⟨path, blob⟩, hlisted, rfl⟩ := List.mem_map.mp hentry
      cases (show path = p from heq)
      rw [BTreeMap.mem_entries_iff.mp hlisted] at hget
      cases hget
    rw [show tree.entries.get? p = none from congrArg Prod.fst hnone]
    simp
  | some blob =>
    have hlisted := hmem _ (List.mem_map_of_mem (BTreeMap.mem_entries_iff.mpr hget))
    rw [show tree.entries.get? p = some blob from congrArg Prod.fst hlisted]
    simp

/-- A candidate whose paths can be sent stays one. -/
theorem CandidatePaths.isProtocolPath_of_foldl {changes : List Change}
    (hsendable : ∀ change ∈ changes, change.isSendable = true)
    (h : ∀ p ∈ paths.candidate, isProtocolPath p = true) :
    ∀ p ∈ (changes.foldl CandidatePaths.apply paths).candidate, isProtocolPath p = true := by
  induction changes generalizing paths with
  | nil => exact h
  | cons change changes ih =>
    obtain ⟨hfirst, hsendable⟩ := List.forall_mem_cons.mp hsendable
    refine ih hsendable ?_
    have hpath : isProtocolPath change.path = true := (Bool.and_eq_true_iff.mp hfirst).1
    have hadd : ∀ paths : CandidatePaths, (∀ p ∈ paths.candidate, isProtocolPath p = true) →
        ∀ p ∈ (paths.add change.path).candidate, isProtocolPath p = true := by
      intro paths h p hp
      rcases BTreeSet.mem_insert.mp hp with rfl | hp
      · exact hpath
      · exact h p hp
    have hremove : ∀ path, ∀ p ∈ (paths.remove path).candidate, isProtocolPath p = true :=
      fun path p hp => h p (BTreeSet.mem_erase.mp hp).1
    unfold CandidatePaths.apply
    cases change.kind with
    | create => exact hadd paths h
    | modify => exact hadd paths h
    | delete => exact hremove change.path
    | rename =>
      refine hadd _ ?_
      cases change.source with
      | none => exact h
      | some source => exact hremove source

end

/-! ## The second view -/

/-- A file is materialized only where the tree has an entry. -/
theorem materializeFiles_entry [Platform] {tree : TreeState} {blobs : BTreeMap Str Str}
    {paths : List RepoPath} {files : List SourceFile}
    (h : materializeFiles tree blobs paths = .ok files) {file : SourceFile} (hfile : file ∈ files) :
    tree.entries.get? file.path ≠ none := by
  have hblobs : ∀ id bytes, blobs.get? id = some bytes → bytes = (blobs.get? id).getD [] := by
    intro id bytes hget
    rw [hget]
    rfl
  obtain ⟨path, -, hsome⟩ := (mem_materializeFiles hblobs h file).mp hfile
  rw [path_of_materialized hsome]
  intro hnone
  rw [TreeState.at_, hnone] at hsome
  cases hsome

theorem listTree_host [Base64] [Build] {workspace : HostWorkspace} {listing : ListTreeResult}
    (h : workspace.host.listTree workspace.baseline none = .ok listing) :
    (workspace.entries.entries.all fun entry => isProtocolPath entry.1) = true
      ∧ listing = ⟨workspace.entries.entries.map listedEntry, false⟩ := by
  obtain ⟨value, hvalue, h⟩ := Except.bind_eq_ok_iff.mp h
  have hwhole : workspace.callback (listTreeCallback workspace.baseline none)
      = workspace.listTree (.object [(ascii "baseline", workspace.baseline)]) := if_pos rfl
  rw [Except.mapError_eq_ok_iff, hwhole, listTree_whole] at hvalue
  cases hvalue
  unfold parseListing at h
  rw [ofValue?_listing] at h
  split_ifs at h with hall
  cases h
  exact ⟨hall, rfl⟩

/-- A file of the second view is at a path of the candidate, which can be sent. -/
theorem mem_candidate_of_read [Platform] [Sha256] [Base64] [Asp.Base64] [Build]
    {workspace : HostWorkspace} {session : AspSession} {changeset : ChangeSet} {views : PreparedViews}
    (hsession : session.baseline = workspace.baseline)
    (hsendable : ∀ change ∈ changeset.changes, change.isSendable = true)
    (hlegal : ∀ change ∈ changeset.changes, change.Legal)
    (h : prepareViews workspace.host session changeset .workspace = .ok views)
    {path : RepoPath} {file : SourceFile} (hread : views.after.read path = some file) :
    path ∈ (changeset.changes.foldl CandidatePaths.apply ⟨workspace.entries.keySet, ∅⟩).candidate
      ∧ isProtocolPath path = true := by
  obtain ⟨listing, baseline, after, hlisting, -, hbaseline, hafter, hviews⟩ := prepareViews_ok h
  rw [hsession] at hlisting
  obtain ⟨hlisted, rfl⟩ := listTree_host hlisting
  have hagrees := (agrees_of_listing hbaseline).foldl hlegal hafter
  obtain ⟨_, -, hviews⟩ := Except.bind_eq_ok_iff.mp hviews
  obtain ⟨blobs, -, hviews⟩ := Except.bind_eq_ok_iff.mp hviews
  obtain ⟨beforeFiles, -, hviews⟩ := Except.bind_eq_ok_iff.mp hviews
  obtain ⟨afterFiles, hfiles, hviews⟩ := Except.bind_eq_ok_iff.mp hviews
  cases hviews
  have hmem : path ∈ (changeset.changes.foldl CandidatePaths.apply
      ⟨workspace.entries.keySet, ∅⟩).candidate := by
    rw [hagrees path, ← SourceSnapshot.path_of_read hread]
    exact materializeFiles_entry (Except.mapError_eq_ok_iff.mp hfiles)
      (SourceSnapshot.mem_of_read_new hread)
  refine ⟨hmem, CandidatePaths.isProtocolPath_of_foldl hsendable ?_ path hmem⟩
  intro p hp
  obtain ⟨blob, hblob⟩ := BTreeMap.mem_keySet_iff.mp hp
  exact List.all_eq_true.mp hlisted _ (BTreeMap.mem_entries_iff.mpr hblob)

end Validation

end Opcore
