/-
  Opcore.Protocol.ReadSet

  The blobs the provider cites are the ones the host handed out: the listing
  records none, every blob of the views is asked for once and answered, and an
  evaluation that ends in a gap has asked for none.
-/
import Opcore.Protocol.Evaluate

namespace Opcore

open Text Collections Json Asp

/-! ## Blobs that are read -/

namespace Asp

section

variable [Sha256] [Asp.Base64] {host : AspHost}

omit [Asp.Base64] in
theorem ne_nil_of_verifyBlob {id bytes : Str} (h : verifyBlob id bytes = .ok ()) : id ≠ [] := by
  rintro rfl
  cases h

variable {ids : List Str}

/-- Every blob the loop reads is answered, and has a reference for its id. -/
theorem AspHost.readBlobs_ok {total : Nat} {blobs blobs' : BTreeMap Str Str}
    (h : host.readBlobs ids total blobs = .ok blobs') :
    ∀ id ∈ ids, id ≠ [] ∧ ∃ result, host.readBlob id = .ok result := by
  induction ids generalizing total blobs with
  | nil => exact nofun
  | cons next ids ih =>
    obtain ⟨blob, hblob, h⟩ := Except.bind_eq_ok_iff.mp h
    obtain ⟨bytes, -, h⟩ := Except.bind_eq_ok_iff.mp h
    dsimp only at h
    split_ifs at h with hbound
    obtain ⟨_, hverify, h⟩ := Except.bind_eq_ok_iff.mp h
    obtain ⟨hid, result, hresult, -⟩ := blob_ok hblob
    rw [hid] at hverify
    refine List.forall_mem_cons.mpr ⟨⟨?_, result, hresult⟩, ih h⟩
    exact ne_nil_of_verifyBlob (Except.mapError_eq_ok_iff.mp hverify)

/-- Where all blobs are read, the first of them are. -/
theorem AspHost.readBlobs_take {total : Nat} {blobs blobs' : BTreeMap Str Str}
    (h : host.readBlobs ids total blobs = .ok blobs') (n : Nat) :
    (host.readBlobs (ids.take n) total blobs).isOk = true := by
  induction ids generalizing total blobs n with
  | nil =>
    rw [List.take_nil]
    rfl
  | cons next ids ih =>
    cases n with
    | zero => rfl
    | succ n =>
      obtain ⟨blob, hblob, h⟩ := Except.bind_eq_ok_iff.mp h
      obtain ⟨bytes, hbytes, h⟩ := Except.bind_eq_ok_iff.mp h
      dsimp only at h
      split_ifs at h with hbound
      obtain ⟨_, hverify, h⟩ := Except.bind_eq_ok_iff.mp h
      have hrest := ih h n
      rw [List.take_succ_cons, AspHost.readBlobs, hblob]
      show Except.isOk (decodeBlob blob >>= _) = true
      rw [hbytes]
      show Except.isOk (if _ then _ else _) = true
      rw [if_neg hbound, hverify]
      exact hrest

/-- A loop that ends well has asked for every id. -/
theorem AspHost.requestedIds_of_ok {blobs : BTreeMap Str Str}
    (h : host.readBlobs ids 0 ∅ = .ok blobs) : host.requestedIds ids = ids := by
  unfold AspHost.requestedIds
  rw [List.filter_eq_self.mpr fun entry _ => AspHost.readBlobs_take h entry.2]
  exact List.zipIdx_map_fst 0 ids

end

/-! ## The callbacks of the views -/

section

variable [Sha256] [Asp.Base64] [Platform] {host : AspHost} {session : AspSession}
  {changeset : ChangeSet} {scope : Scope}

theorem prepareViews_eq : prepareViews host session changeset scope
    = viewTrees host session changeset scope >>= fun trees =>
      readViews host trees.1 trees.2.1 trees.2.2 := rfl

/-- The callbacks of views that are read: the listing, and each blob they cite. -/
theorem viewCallbacks_of_ok {views : PreparedViews}
    (h : prepareViews host session changeset scope = .ok views) :
    viewCallbacks host session changeset scope
        = viewListing session changeset scope :: views.readIds.map readBlobCallback
      ∧ views.readIds.Nodup
      ∧ ∀ id ∈ views.readIds, id ≠ [] ∧ ∃ result, host.readBlob id = .ok result := by
  rw [prepareViews_eq] at h
  obtain ⟨⟨paths, baseline, after⟩, htrees, h⟩ := Except.bind_eq_ok_iff.mp h
  obtain ⟨_, hsymlinks, h⟩ := Except.bind_eq_ok_iff.mp h
  obtain ⟨blobs, hblobs, h⟩ := Except.bind_eq_ok_iff.mp h
  obtain ⟨beforeFiles, -, h⟩ := Except.bind_eq_ok_iff.mp h
  obtain ⟨afterFiles, -, h⟩ := Except.bind_eq_ok_iff.mp h
  cases h
  have hread := Except.mapError_eq_ok_iff.mp hblobs
  refine ⟨?_, BTreeSet.nodup_elems _, AspHost.readBlobs_ok hread⟩
  rw [viewCallbacks, htrees, blobCallbacks]
  dsimp only at hsymlinks
  rw [hsymlinks]
  dsimp only
  rw [AspHost.requestedIds_of_ok hread]

end

/-! A gap in the views comes from the listing or from a symbolic link, and then no
    blob is asked for. -/

section

variable {host : AspHost} {session : AspSession} {changeset : ChangeSet} {scope : Scope}

theorem liftRpc_ne_coverage {α : Type} (result : Except RpcFailure α) (gap : WorkspaceGap) :
    liftRpc result ≠ .error (.coverage gap) := by
  cases result with
  | error failure => exact nofun
  | ok value => exact nofun

/-- What a gap in the views says of itself. -/
def WorkspaceGap.Named (gap : WorkspaceGap) : Prop :=
  gap.status ∈ [ascii "incomplete", ascii "unsupported"] ∧ gap.detail ≠ []

variable {gap : WorkspaceGap}

theorem gap_of_rejectSourceSymlinks {paths : BTreeSet RepoPath} {before after : TreeState}
    (h : rejectSourceSymlinks paths before after = .error (.coverage gap)) : gap.Named := by
  unfold rejectSourceSymlinks at h
  split at h
  · cases h
    refine ⟨List.mem_cons_of_mem _ List.mem_cons_self, ?_⟩
    exact List.append_ne_nil_of_right_ne_nil _ (by decide)
  · cases h

theorem gap_of_viewTrees
    (h : viewTrees host session changeset scope = .error (.coverage gap)) : gap.Named := by
  unfold viewTrees at h
  dsimp only at h
  rcases Except.bind_eq_error_iff.mp h with h | ⟨listing, -, h⟩
  · exact absurd h (liftRpc_ne_coverage _ _)
  rcases Except.bind_eq_error_iff.mp h with h | ⟨_, -, h⟩
  · unfold requireCompleteListing at h
    split_ifs at h
    cases h
    exact ⟨by decide, by decide⟩
  rcases Except.bind_eq_error_iff.mp h with h | ⟨baseline, -, h⟩
  · exact absurd h (liftRpc_ne_coverage _ _)
  rcases Except.bind_eq_error_iff.mp h with h | ⟨_, -, h⟩
  · exact absurd h (liftRpc_ne_coverage _ _)
  rcases Except.bind_eq_error_iff.mp h with h | ⟨after, -, h⟩
  · exact absurd h (liftRpc_ne_coverage _ _)
  · cases h

theorem viewCallbacks_of_gap [Sha256] [Asp.Base64] [Platform]
    (h : prepareViews host session changeset scope = .error (.coverage gap)) :
    gap.Named
      ∧ viewCallbacks host session changeset scope = [viewListing session changeset scope] := by
  rw [prepareViews_eq] at h
  rcases Except.bind_eq_error_iff.mp h with htrees | ⟨⟨paths, baseline, after⟩, htrees, h⟩
  · refine ⟨gap_of_viewTrees htrees, ?_⟩
    rw [viewCallbacks, htrees, blobCallbacks]
  rcases Except.bind_eq_error_iff.mp h with hsymlinks | ⟨_, -, h⟩
  · refine ⟨gap_of_rejectSourceSymlinks hsymlinks, ?_⟩
    dsimp only at hsymlinks
    rw [viewCallbacks, htrees, blobCallbacks, hsymlinks]
  rcases Except.bind_eq_error_iff.mp h with h | ⟨blobs, -, h⟩
  · exact absurd h (liftRpc_ne_coverage _ _)
  rcases Except.bind_eq_error_iff.mp h with h | ⟨before, -, h⟩
  · exact absurd h (liftRpc_ne_coverage _ _)
  rcases Except.bind_eq_error_iff.mp h with h | ⟨after, -, h⟩
  · exact absurd h (liftRpc_ne_coverage _ _)
  · cases h

end

end Asp

/-! ## What the host records -/

section

variable [Base64] {workspace : HostWorkspace}

theorem answerCallback_listTree (reads : BTreeSet Str) (baseline : Value)
    (paths : Option (BTreeSet RepoPath)) :
    answerCallback workspace reads (listTreeCallback baseline paths) = .ok reads := by
  have hmethod : (listTreeCallback baseline paths).method ≠ ascii "workspace/readBlob" := by
    show ascii "workspace/listTree" ≠ _
    decide
  unfold answerCallback recordBlobRead
  cases workspace.callback (listTreeCallback baseline paths) with
  | error detail => rfl
  | ok value => exact if_pos hmethod

theorem answerCallback_readBlob [Build] {id : Str} {result : ReadBlobResult}
    (h : workspace.host.readBlob id = .ok result) (reads : BTreeSet Str) :
    answerCallback workspace reads (readBlobCallback id) = .ok (reads.insert id) := by
  obtain ⟨value, hvalue, -⟩ := Except.bind_eq_ok_iff.mp h
  unfold answerCallback
  rw [Except.mapError_eq_ok_iff.mp hvalue]
  rfl

theorem foldlM_answerCallback [Build] {ids : List Str}
    (h : ∀ id ∈ ids, ∃ result, workspace.host.readBlob id = .ok result) (reads : BTreeSet Str) :
    (ids.map readBlobCallback).foldlM (answerCallback workspace) reads
      = .ok (reads.extend ids) := by
  induction ids generalizing reads with
  | nil => rfl
  | cons id ids ih =>
    obtain ⟨⟨result, hresult⟩, h⟩ := List.forall_mem_cons.mp h
    rw [List.map_cons, List.foldlM_cons, answerCallback_readBlob hresult]
    exact ih h (reads.insert id)

/-- The blobs handed out in a listing and some blob reads are those blobs. -/
theorem recordedReads_views [Build] {ids : List Str}
    (h : ∀ id ∈ ids, ∃ result, workspace.host.readBlob id = .ok result) (session : AspSession)
    (changeset : ChangeSet) (scope : Asp.Scope) :
    recordedReads workspace (viewListing session changeset scope :: ids.map readBlobCallback)
      = .ok (BTreeSet.ofList ids) := by
  unfold recordedReads
  rw [List.foldlM_cons, viewListing, answerCallback_listTree]
  exact foldlM_answerCallback h ∅

end

end Opcore
