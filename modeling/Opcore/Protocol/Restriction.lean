/-
  Opcore.Protocol.Restriction

  Scoped views are restrictions of the whole-workspace views.  A tree built from
  a listing is read one path at a time: what it has at a requested path is what
  the host's tree has there, what the changes leave at a path depends on that
  path alone, and a view has at a path the file its tree's entry reads as.
-/
import Mathlib.Data.List.Find
import Opcore.Protocol.Workspace

namespace Opcore.Asp

open Text Collections Json

/-! ## Honest hosts -/

/-- The entries of a workspace: a blob and a kind at each path. -/
abbrev HostTree := BTreeMap RepoPath (Str × EntryKind)

/-- What a tree of the provider has at a path where the host's tree has `entry`. -/
def listed (entry : Option (Str × EntryKind)) : Option Str × Option EntryKind :=
  (entry.map Prod.fst, entry.map Prod.snd)

/-- A host that answers from one tree: every complete listing holds exactly the
    entries at the requested paths, and every blob read gives the blob's bytes. -/
structure AspHost.Honest [Base64] (host : AspHost) (tree : HostTree) (content : Str → Str) :
    Prop where
  listing : ∀ baseline requested listing, host.listTree baseline requested = .ok listing →
    listing.truncated = false → ∀ entry, entry ∈ listing.entries ↔
      tree.get? entry.path = some (entry.blobId, entry.kind)
        ∧ ∀ paths, requested = some paths → entry.path ∈ paths
  blob : ∀ id result, host.readBlob id = .ok result → ∀ blob ∈ result.blobs, ∀ bytes,
    blob.id = id → decodeBlob blob = .ok bytes → bytes = content id

/-! ## Trees from listings -/

theorem addListingEntry_ok {allowed : Option (BTreeSet RepoPath)} {tree tree' : TreeState}
    {entry : TreeEntry} (h : addListingEntry allowed tree entry = .ok tree') :
    (∀ paths, allowed = some paths → entry.path ∈ paths)
      ∧ tree.entries.get? entry.path = none
      ∧ ∀ p, tree'.at_ p
        = if p = entry.path then (some entry.blobId, some entry.kind) else tree.at_ p := by
  unfold addListingEntry at h
  split_ifs at h with hallowed hseen
  · split at h <;> cases h
  · split at h
    · cases h
    · cases h
      refine ⟨?_, ?_, ?_⟩
      · rintro paths rfl
        simpa using hallowed
      · simpa [BTreeMap.contains] using hseen
      · intro p
        simp only [TreeState.at_, BTreeMap.get?_insert]
        split_ifs <;> rfl

section

variable {allowed : Option (BTreeSet RepoPath)} {tree tree' : TreeState} {entries : List TreeEntry}

/-- A path the tree already has is listed no second time. -/
theorem ne_of_foldlM_addListingEntry {p : RepoPath}
    (h : entries.foldlM (addListingEntry allowed) tree = .ok tree')
    (hp : tree.entries.get? p ≠ none) : ∀ entry ∈ entries, entry.path ≠ p := by
  induction entries generalizing tree with
  | nil => exact nofun
  | cons entry entries ih =>
    rw [List.foldlM_cons] at h
    obtain ⟨next, hnext, hrest⟩ := Except.bind_eq_ok_iff.mp h
    obtain ⟨-, hnone, hat⟩ := addListingEntry_ok hnext
    have hne : p ≠ entry.path := by
      rintro rfl
      exact hp hnone
    have hkept : next.entries.get? p = tree.entries.get? p := by
      have := hat p
      rw [if_neg hne] at this
      exact congrArg Prod.fst this
    intro e he
    rcases List.mem_cons.mp he with rfl | he
    · exact hne.symm
    · exact ih hrest (hkept ▸ hp) e he

/-- The loop over a listing: the tree holds the entries over what it had. -/
theorem foldlM_addListingEntry
    (h : entries.foldlM (addListingEntry allowed) tree = .ok tree') :
    (∀ entry ∈ entries, ∀ paths, allowed = some paths → entry.path ∈ paths)
      ∧ (∀ entry ∈ entries, tree'.at_ entry.path = (some entry.blobId, some entry.kind))
      ∧ ∀ p, (∀ entry ∈ entries, entry.path ≠ p) → tree'.at_ p = tree.at_ p := by
  induction entries generalizing tree with
  | nil =>
    cases h
    exact ⟨nofun, nofun, fun _ _ => rfl⟩
  | cons entry entries ih =>
    rw [List.foldlM_cons] at h
    obtain ⟨next, hnext, hrest⟩ := Except.bind_eq_ok_iff.mp h
    obtain ⟨hallowed, -, hat⟩ := addListingEntry_ok hnext
    obtain ⟨hallowed', hmem, hother⟩ := ih hrest
    refine ⟨List.forall_mem_cons.mpr ⟨hallowed, hallowed'⟩, ?_, ?_⟩
    · intro e he
      rcases List.mem_cons.mp he with rfl | he
      · have hhere : next.at_ e.path = (some e.blobId, some e.kind) := by
          rw [hat, if_pos rfl]
        have hnew : next.entries.get? e.path ≠ none := by
          rw [show next.entries.get? e.path = some e.blobId from congrArg Prod.fst hhere]
          exact Option.some_ne_none _
        rw [hother e.path (ne_of_foldlM_addListingEntry hrest hnew), hhere]
      · exact hmem e he
    · intro p hp
      rw [hother p fun e he => hp e (List.mem_cons_of_mem entry he), hat,
        if_neg fun heq => hp entry List.mem_cons_self heq.symm]

end

section

variable {scope : Scope} {preconditions requested : BTreeSet RepoPath} {listing : ListTreeResult}
  {state : TreeState}

/-- A tree has nothing at a path that was not asked for. -/
theorem treeFromListing_unrequested
    (h : treeFromListing listing scope preconditions requested = .ok state) {p : RepoPath}
    {paths : BTreeSet RepoPath}
    (hpaths : allowedListingPaths scope preconditions requested = some paths) (hp : p ∉ paths) :
    state.at_ p = (none, none) := by
  unfold treeFromListing at h
  split_ifs at h with hmany
  obtain ⟨hallowed, -, hother⟩ := foldlM_addListingEntry h
  refine hother p ?_
  rintro entry hentry rfl
  exact hp (hallowed entry hentry paths hpaths)

/-- A tree built from an honest listing has the host's entries at the requested paths. -/
theorem treeFromListing_at [Base64] {host : AspHost} {tree : HostTree} {content : Str → Str}
    (hhost : host.Honest tree content) {baseline : Value}
    (hlist : host.listTree baseline (allowedListingPaths scope preconditions requested)
      = .ok listing)
    (hcomplete : listing.truncated = false)
    (h : treeFromListing listing scope preconditions requested = .ok state) {p : RepoPath}
    (hp : ∀ paths, allowedListingPaths scope preconditions requested = some paths → p ∈ paths) :
    state.at_ p = listed (tree.get? p) := by
  unfold treeFromListing at h
  split_ifs at h with hmany
  obtain ⟨-, hmem, hother⟩ := foldlM_addListingEntry h
  have hentries := hhost.listing _ _ _ hlist hcomplete
  cases hget : tree.get? p with
  | none =>
    refine hother p ?_
    rintro entry hentry rfl
    rw [((hentries entry).mp hentry).1] at hget
    cases hget
  | some found =>
    obtain ⟨blobId, kind⟩ := found
    exact hmem ⟨p, blobId, kind⟩ ((hentries ⟨p, blobId, kind⟩).mpr ⟨hget, hp⟩)

end

/-! ## Views, one path at a time -/

theorem blob_ok {host : AspHost} {id : Str} {blob : BlobResult} (h : host.blob id = .ok blob) :
    blob.id = id ∧ ∃ result, host.readBlob id = .ok result ∧ blob ∈ result.blobs := by
  obtain ⟨result, hresult, h⟩ := Except.bind_eq_ok_iff.mp h
  split at h
  · next found hfound =>
    split_ifs at h with hid
    cases h
    exact ⟨not_not.mp hid, result, hresult, hfound ▸ List.mem_singleton_self _⟩
  · cases h

section

variable [Sha256] [Base64] {host : AspHost} {tree : HostTree} {content : Str → Str}

/-- Every blob that is read has the bytes the honest host has for it. -/
theorem get?_readBlobs (hhost : host.Honest tree content) {ids : List Str} {total : Nat}
    {blobs blobs' : BTreeMap Str Str} (h : host.readBlobs ids total blobs = .ok blobs')
    {id bytes : Str} (hget : blobs'.get? id = some bytes) :
    blobs.get? id = some bytes ∨ bytes = content id := by
  induction ids generalizing total blobs with
  | nil =>
    cases h
    exact .inl hget
  | cons next ids ih =>
    obtain ⟨blob, hblob, h⟩ := Except.bind_eq_ok_iff.mp h
    obtain ⟨read, hread, h⟩ := Except.bind_eq_ok_iff.mp h
    dsimp only at h
    split_ifs at h with hbound
    obtain ⟨u, -, h⟩ := Except.bind_eq_ok_iff.mp h
    obtain ⟨hid, result, hresult, hmem⟩ := blob_ok hblob
    rcases ih h with hbefore | hcontent
    · rw [BTreeMap.get?_insert] at hbefore
      split_ifs at hbefore with heq
      · cases hbefore
        right
        rw [heq, hid]
        exact hhost.blob next result hresult blob hmem _ hid hread
      · exact .inl hbefore
    · exact .inr hcontent

end

section

variable [Platform] {content : Str → Str} {blobs : BTreeMap Str Str} {tree : TreeState}

/-- The source file that a tree's entry at a path reads as, if it is one. -/
def materialized (content : Str → Str) (path : RepoPath) :
    Option Str × Option EntryKind → Option SourceFile
  | (some id, some .file) =>
    (resolveLanguage path (content id)).map fun (language, mode) =>
      ⟨path, content id, language, mode⟩
  | _ => none

variable {path : RepoPath}

theorem path_of_materialized {entry : Option Str × Option EntryKind}
    {file : SourceFile} (h : materialized content path entry = some file) : file.path = path := by
  unfold materialized at h
  split at h
  · obtain ⟨mode, -, rfl⟩ := Option.map_eq_some_iff.mp h
    rfl
  · cases h

/-- Only entries that are files read as source files. -/
theorem materialized_eq_none_of_kind (h : tree.kinds.get? path ≠ some .file) :
    materialized content path (tree.at_ path) = none := by
  unfold TreeState.at_
  cases tree.entries.get? path with
  | none => rfl
  | some id =>
    rcases hk : tree.kinds.get? path with _ | _ | _ | _
    · rfl
    · exact absurd hk h
    · rfl
    · rfl

theorem materializeFile_ok (hblobs : ∀ id bytes, blobs.get? id = some bytes → bytes = content id)
    {file : Option SourceFile} (h : materializeFile tree blobs path = .ok file) :
    file = materialized content path (tree.at_ path) := by
  unfold materializeFile at h
  unfold TreeState.at_
  split at h
  · next hlanguage =>
    -- No language: neither does the file resolve to one.
    cases h
    have hnone : ∀ bytes, resolveLanguage path bytes = none := by
      intro bytes
      rw [resolveLanguage, Option.isNone_iff_eq_none.mp hlanguage]
      rfl
    cases tree.entries.get? path <;> rcases tree.kinds.get? path with _ | _ | _ | _ <;>
      simp [materialized, hnone]
  · split at h
    · next hentry =>
      cases h
      rw [hentry]
      rfl
    · next id hentry =>
      rw [hentry]
      split at h
      · next hkind =>
        cases h
        rw [← hentry]
        exact (materialized_eq_none_of_kind hkind).symm
      · next hkind =>
        rw [not_not.mp hkind]
        split at h
        · cases h
        · next bytes hbytes =>
          cases h
          rw [hblobs id bytes hbytes]
          rfl

theorem mem_materializeFiles
    (hblobs : ∀ id bytes, blobs.get? id = some bytes → bytes = content id)
    {paths : List RepoPath} {files : List SourceFile}
    (h : materializeFiles tree blobs paths = .ok files) (file : SourceFile) :
    file ∈ files ↔ ∃ path ∈ paths, materialized content path (tree.at_ path) = some file := by
  induction paths generalizing files with
  | nil =>
    cases h
    simp
  | cons path paths ih =>
    obtain ⟨here, hhere, h⟩ := Except.bind_eq_ok_iff.mp h
    obtain ⟨rest, hrest, h⟩ := Except.bind_eq_ok_iff.mp h
    cases h
    rw [List.mem_append, Option.mem_toList, materializeFile_ok hblobs hhere, ih hrest,
      List.exists_mem_cons_iff]

/-- A view has, at each path it was made from, the file of the tree's entry. -/
theorem read_materializeFiles
    (hblobs : ∀ id bytes, blobs.get? id = some bytes → bytes = content id)
    {paths : List RepoPath} {files : List SourceFile}
    (h : materializeFiles tree blobs paths = .ok files) (path : RepoPath) :
    (SourceSnapshot.new files).read path
      = if path ∈ paths then materialized content path (tree.at_ path) else none := by
  have hmem := mem_materializeFiles hblobs h
  have hunique : ∀ file ∈ files, file.path = path →
      path ∈ paths ∧ materialized content path (tree.at_ path) = some file := by
    rintro file hfile rfl
    obtain ⟨p, hp, hsome⟩ := (hmem file).mp hfile
    rw [path_of_materialized hsome]
    exact ⟨hp, hsome⟩
  have hnone : (∀ file, path ∈ paths → materialized content path (tree.at_ path) ≠ some file) →
      (SourceSnapshot.new files).read path = none := by
    intro habsent
    apply SourceSnapshot.read_new_eq_none
    intro file hfile hpath
    obtain ⟨hp, hsome⟩ := hunique file hfile hpath
    exact habsent file hp hsome
  split_ifs with hp
  · cases hsome : materialized content path (tree.at_ path) with
    | none =>
      apply hnone
      intro file _ hne
      rw [hsome] at hne
      cases hne
    | some file =>
      refine SourceSnapshot.read_new_eq_some ((hmem file).mpr ⟨path, hp, hsome⟩)
        (path_of_materialized hsome) ?_
      intro other hother hpath
      have := (hunique other hother hpath).2
      rw [hsome] at this
      exact (Option.some.inj this).symm
  · exact hnone fun _ habs => absurd habs hp

end

section

variable [Sha256] [Base64] [Platform] {host : AspHost} {tree : HostTree} {content : Str → Str}
  {session : AspSession} {changeset : ChangeSet} {scope : Scope} {views : PreparedViews}

theorem readViews_read (hhost : host.Honest tree content) {paths : BTreeSet RepoPath}
    {baseline after : TreeState} (h : readViews host paths baseline after = .ok views)
    (path : RepoPath) :
    views.before.read path
        = (if path ∈ paths then materialized content path (baseline.at_ path) else none)
      ∧ views.after.read path
        = if path ∈ paths then materialized content path (after.at_ path) else none := by
  obtain ⟨_, -, h⟩ := Except.bind_eq_ok_iff.mp h
  obtain ⟨blobs, hblobs, h⟩ := Except.bind_eq_ok_iff.mp h
  obtain ⟨beforeFiles, hbefore, h⟩ := Except.bind_eq_ok_iff.mp h
  obtain ⟨afterFiles, hafter, h⟩ := Except.bind_eq_ok_iff.mp h
  cases h
  have hcontent : ∀ id bytes, blobs.get? id = some bytes → bytes = content id := by
    intro id bytes hget
    rcases get?_readBlobs hhost (Except.mapError_eq_ok_iff.mp hblobs) hget with hempty | hcontent
    · rw [BTreeMap.get?_empty] at hempty
      cases hempty
    · exact hcontent
  exact ⟨read_materializeFiles hcontent (Except.mapError_eq_ok_iff.mp hbefore) path,
    read_materializeFiles hcontent (Except.mapError_eq_ok_iff.mp hafter) path⟩

/-- The run of a successful `prepare_views`: its listing, its two trees, and that
    the views are read from them. -/
theorem prepareViews_ok (h : prepareViews host session changeset scope = .ok views) :
    ∃ listing baseline after,
      let requested := requestedPaths scope (affectedSourcePaths changeset)
      let preconditions := scopedChangePreconditionPaths changeset scope requested
      host.listTree session.baseline (allowedListingPaths scope preconditions requested)
          = .ok listing
        ∧ listing.truncated = false
        ∧ treeFromListing listing scope preconditions requested = .ok baseline
        ∧ applyChanges baseline changeset = .ok after
        ∧ readViews host (assessmentPaths scope requested baseline after) baseline after
          = .ok views := by
  obtain ⟨trees, htrees, h⟩ := Except.bind_eq_ok_iff.mp h
  obtain ⟨listing, hlisting, htrees⟩ := Except.bind_eq_ok_iff.mp htrees
  obtain ⟨_, hcomplete, htrees⟩ := Except.bind_eq_ok_iff.mp htrees
  obtain ⟨baseline, hbaseline, htrees⟩ := Except.bind_eq_ok_iff.mp htrees
  obtain ⟨_, -, htrees⟩ := Except.bind_eq_ok_iff.mp htrees
  obtain ⟨after, hafter, htrees⟩ := Except.bind_eq_ok_iff.mp htrees
  cases htrees
  refine ⟨listing, baseline, after, Except.mapError_eq_ok_iff.mp hlisting, ?_,
    Except.mapError_eq_ok_iff.mp hbaseline, Except.mapError_eq_ok_iff.mp hafter, h⟩
  unfold requireCompleteListing at hcomplete
  split_ifs at hcomplete with htruncated
  simpa using htruncated

end

/-! ## Changes out of scope -/

section

variable {changes : List Change} {changeset : ChangeSet} {scope : Scope}

/-- What a changeset leaves at a path depends on what the baseline has there. -/
theorem applyChanges_at (hlegal : ∀ change ∈ changeset.changes, change.Legal)
    {baseline after : TreeState} (h : applyChanges baseline changeset = .ok after)
    (p : RepoPath) :
    after.at_ p = Updates.settle Change.touch p (baseline.at_ p) changeset.changes := by
  obtain ⟨after', hafter', hat⟩ := foldlM_applyChange hlegal baseline
  obtain rfl : after' = after := Except.ok.inj (hafter'.symm.trans h)
  exact hat p

variable {change : Change} {p : RepoPath}

theorem Change.mem_paths :
    p ∈ change.paths ↔ change.path = p ∨ change.source = some p := by
  simp only [Change.paths, List.mem_cons, Option.mem_toList, eq_comm]

theorem Change.touch_ne_none_of_mem_paths (h : p ∈ change.paths) : change.touch p ≠ none := by
  intro hnone
  obtain ⟨hpath, hsource⟩ := Change.touch_eq_none_iff.mp hnone
  rcases Change.mem_paths.mp h with h | h
  · exact hpath h
  · exact hsource h

theorem Change.touch_eq_none_of_not_mem_paths (h : p ∉ change.paths) : change.touch p = none := by
  rw [Change.mem_paths, not_or] at h
  exact Change.touch_eq_none_iff.mpr h

/-- The paths a scope other than the whole workspace asks for. -/
abbrev scopePaths (changeset : ChangeSet) (scope : Scope) : BTreeSet RepoPath :=
  requestedPaths scope (affectedSourcePaths changeset)

abbrev inScope (changeset : ChangeSet) (scope : Scope) (change : Change) : Bool :=
  changeIsInScope scope (scopePaths changeset scope) change

/-- A change that touches a requested path is in scope. -/
theorem inScope_of_mem_paths (hscope : scope ≠ .workspace)
    (hp : p ∈ scopePaths changeset scope) (hchange : p ∈ change.paths) :
    inScope changeset scope change = true := by
  rw [Change.mem_paths] at hchange
  cases scope with
  | workspace => exact absurd rfl hscope
  | paths paths =>
    simp only [inScope, changeIsInScope, Bool.or_eq_true, decide_eq_true_eq]
    rcases hchange with rfl | hsource
    · exact .inl hp
    · exact .inr (by rw [hsource]; simpa using hp)
  | changeset =>
    have hcandidate : isSourceCandidate p = true := (BTreeSet.mem_filter.mp hp).2
    simp only [inScope, changeIsInScope, changeIsSourceRelevant, Bool.or_eq_true]
    rcases hchange with rfl | hsource
    · exact .inl hcandidate
    · exact .inr (by rw [hsource]; simpa using hcandidate)

/-- The changeset without the changes that are out of scope. -/
def withinScope (changeset : ChangeSet) (scope : Scope) : ChangeSet :=
  { changeset with changes := changeset.changes.filter (inScope changeset scope) }

theorem scopePaths_withinScope (changeset : ChangeSet) (scope : Scope) :
    scopePaths (withinScope changeset scope) scope = scopePaths changeset scope := by
  cases scope with
  | workspace => rfl
  | paths paths => rfl
  | changeset =>
    apply BTreeSet.ext_mem
    intro p
    show p ∈ affectedSourcePaths _ ↔ p ∈ affectedSourcePaths _
    simp only [affectedSourcePaths, allChangePaths, BTreeSet.mem_filter, BTreeSet.mem_ofList,
      List.mem_flatMap, withinScope, List.mem_filter]
    constructor
    · rintro ⟨⟨change, ⟨hmem, -⟩, hp⟩, hcandidate⟩
      exact ⟨⟨change, hmem, hp⟩, hcandidate⟩
    · rintro ⟨⟨change, hmem, hp⟩, hcandidate⟩
      refine ⟨⟨change, ⟨hmem, ?_⟩, hp⟩, hcandidate⟩
      refine inScope_of_mem_paths (by simp) ?_ hp
      refine BTreeSet.mem_filter.mpr ⟨BTreeSet.mem_ofList.mpr ?_, hcandidate⟩
      exact List.mem_flatMap.mpr ⟨change, hmem, hp⟩

/-- No path of a change out of scope is asked for: it is not requested, and no
    change in scope touches it. -/
theorem not_mem_allowedListingPaths (hwf : WellFormed changeset.changes)
    (hscope : scope ≠ .workspace) (hmem : change ∈ changeset.changes)
    (hout : inScope changeset scope change = false) (hp : p ∈ change.paths) :
    ∃ paths, allowedListingPaths scope
        (scopedChangePreconditionPaths changeset scope (scopePaths changeset scope))
        (scopePaths changeset scope) = some paths ∧ p ∉ paths := by
  refine ⟨(scopePaths changeset scope).union
    (scopedChangePreconditionPaths changeset scope (scopePaths changeset scope)), ?_, ?_⟩
  · cases scope with
    | workspace => exact absurd rfl hscope
    | paths paths => rfl
    | changeset => rfl
  · intro hallowed
    rcases BTreeSet.mem_union.mp hallowed with hrequested | hprecondition
    · have := inScope_of_mem_paths hscope hrequested hp
      rw [hout] at this
      cases this
    · obtain ⟨other, hother, hpother⟩ :=
        List.mem_flatMap.mp (BTreeSet.mem_ofList.mp hprecondition)
      obtain ⟨hother, hin⟩ := List.mem_filter.mp hother
      -- No other change touches the path, so this one would have to be in scope.
      obtain rfl : change = other := hwf.disjoint.eq_of_touch hmem hother
        (Change.touch_ne_none_of_mem_paths hp) (Change.touch_ne_none_of_mem_paths hpother)
      exact absurd hin (Bool.eq_false_iff.mp hout)

end

theorem rejectSourceSymlinks_congr {paths : BTreeSet RepoPath} {before after after' : TreeState}
    (h : ∀ p ∈ paths, after.at_ p = after'.at_ p) :
    rejectSourceSymlinks paths before after = rejectSourceSymlinks paths before after' := by
  unfold rejectSourceSymlinks
  rw [List.find?_congr fun p hp => ?_]
  have : after.kinds.get? p = after'.kinds.get? p := congrArg Prod.snd (h p hp)
  rw [this]

theorem requiredBlobIds_congr [Platform] {paths : BTreeSet RepoPath} {before after after' : TreeState}
    (h : ∀ p ∈ paths, after.at_ p = after'.at_ p) :
    requiredBlobIds paths before after = requiredBlobIds paths before after' := by
  refine List.foldl_ext _ _ _ ?_
  intro ids p hp
  have hkind : after.kinds.get? p = after'.kinds.get? p := congrArg Prod.snd (h p hp)
  have hentry : after.entries.get? p = after'.entries.get? p := congrArg Prod.fst (h p hp)
  simp only [insertBlobId, hkind, hentry]

theorem materializeFiles_congr [Platform] {paths : List RepoPath} {blobs : BTreeMap Str Str}
    {after after' : TreeState} (h : ∀ p ∈ paths, after.at_ p = after'.at_ p) :
    materializeFiles after blobs paths = materializeFiles after' blobs paths := by
  induction paths with
  | nil => rfl
  | cons p paths ih =>
    obtain ⟨hp, hrest⟩ := List.forall_mem_cons.mp h
    have hkind : after.kinds.get? p = after'.kinds.get? p := congrArg Prod.snd hp
    have hentry : after.entries.get? p = after'.entries.get? p := congrArg Prod.fst hp
    simp only [materializeFiles, materializeFile, hkind, hentry, ih hrest]

section

variable [Sha256] [Base64] [Platform] {host : AspHost}

/-- The views depend on the trees only at their paths. -/
theorem readViews_congr {paths : BTreeSet RepoPath} {baseline after after' : TreeState}
    (h : ∀ p ∈ paths, after.at_ p = after'.at_ p) :
    readViews host paths baseline after = readViews host paths baseline after' := by
  unfold readViews
  simp only [rejectSourceSymlinks_congr h, requiredBlobIds_congr h,
    materializeFiles_congr (show ∀ p ∈ paths.elems, after.at_ p = after'.at_ p from h)]

/-- The whole evaluation of a scope, answers and failures alike, is that of the
    changes in scope. -/
theorem prepareViews_withinScope {session : AspSession} {changeset : ChangeSet}
    (hwf : WellFormed changeset.changes) {scope : Scope} (hscope : scope ≠ .workspace) :
    prepareViews host session (withinScope changeset scope) scope
      = prepareViews host session changeset scope := by
  have hrequested := scopePaths_withinScope changeset scope
  have hpreconditions : scopedChangePreconditionPaths (withinScope changeset scope) scope
      (scopePaths changeset scope)
      = scopedChangePreconditionPaths changeset scope (scopePaths changeset scope) := by
    simp only [scopedChangePreconditionPaths, withinScope, List.filter_filter, Bool.and_self]
  have hvalidate : ∀ baseline, validateChangePreconditions (withinScope changeset scope) scope
      (scopePaths changeset scope) baseline
      = validateChangePreconditions changeset scope (scopePaths changeset scope) baseline := by
    intro baseline
    refine Except.forM_filter ?_
    intro change _ hout
    rw [if_neg (Bool.eq_false_iff.mp hout)]
  have happly : ∀ baseline,
      (liftRpc (applyChanges baseline (withinScope changeset scope)) >>= fun after =>
        readViews host (assessmentPaths scope (scopePaths changeset scope) baseline after)
          baseline after)
      = liftRpc (applyChanges baseline changeset) >>= fun after =>
        readViews host (assessmentPaths scope (scopePaths changeset scope) baseline after)
          baseline after := by
    intro baseline
    obtain ⟨after, hafter, hat⟩ := foldlM_applyChange hwf.legal baseline
    have hlegal : ∀ change ∈ (withinScope changeset scope).changes, change.Legal :=
      fun change hmem => hwf.legal change (List.mem_filter.mp hmem).1
    obtain ⟨after', hafter', hat'⟩ := foldlM_applyChange hlegal baseline
    -- Only the paths of the scope are asked for.
    have hpaths : ∀ tree, assessmentPaths scope (scopePaths changeset scope) baseline tree
        = scopePaths changeset scope := by
      intro tree
      cases scope with
      | workspace => exact absurd rfl hscope
      | paths paths => rfl
      | changeset => rfl
    rw [show applyChanges baseline changeset = .ok after from hafter,
      show applyChanges baseline (withinScope changeset scope) = .ok after' from hafter']
    show readViews host _ baseline after' = readViews host _ baseline after
    rw [hpaths, hpaths]
    apply readViews_congr
    intro p hp
    rw [hat' p, hat p]
    refine Updates.settle_filter ?_
    intro change _ hout
    apply Change.touch_eq_none_of_not_mem_paths
    intro hmem
    exact absurd (inScope_of_mem_paths hscope hp hmem) (Bool.eq_false_iff.mp hout)
  unfold prepareViews viewTrees
  simp only [bind_assoc, pure_bind, hrequested, hpreconditions, hvalidate, happly]

/-! ## Restriction -/

omit [Sha256] [Base64] in
/-- A source candidate that is not assessed is no file in either tree. -/
theorem materialized_of_not_assessed {content : Str → Str} {requested : BTreeSet RepoPath}
    {baseline after : TreeState} {path : RepoPath} (hcandidate : isSourceCandidate path = true)
    (h : path ∉ assessmentPaths .workspace requested baseline after) :
    materialized content path (baseline.at_ path) = none
      ∧ materialized content path (after.at_ path) = none := by
  have hnone : ∀ tree : TreeState, tree = baseline ∨ tree = after →
      materialized content path (tree.at_ path) = none := by
    intro tree htree
    by_cases hkind : tree.kinds.get? path = some .file
    · cases hentry : tree.entries.get? path with
      | none =>
        rw [TreeState.at_, hentry]
        rfl
      | some id =>
        exfalso
        apply h
        have hfile : isFileOrSymlink (tree.kinds.get? path) = true := by
          simp [isFileOrSymlink, hkind]
        have hkey : path ∈ tree.entries.keySet := BTreeMap.mem_keySet_iff.mpr ⟨id, hentry⟩
        refine BTreeSet.mem_filter.mpr ⟨BTreeSet.mem_union.mpr ?_, ?_⟩
        · rcases htree with rfl | rfl
          · exact .inl hkey
          · exact .inr hkey
        · rw [hcandidate, Bool.true_and, Bool.or_eq_true]
          rcases htree with rfl | rfl
          · exact .inl hfile
          · exact .inr hfile
    · exact materialized_eq_none_of_kind hkind
  exact ⟨hnone baseline (.inl rfl), hnone after (.inr rfl)⟩

/-- Over one honest host tree, the views of a scope have at every source
    candidate in scope what the whole-workspace views have, and nothing out of
    scope.  A change out of scope meets a baseline without its paths, no
    precondition of it is checked, and the evaluation is the one without it. -/
theorem scopedViews_restrict {host' : AspHost} {tree : HostTree} {content : Str → Str}
    (hhost : host.Honest tree content) (hhost' : host'.Honest tree content)
    {session session' : AspSession} {changeset : ChangeSet}
    (hvalid : validateChangeset changeset = .ok ()) {scope : Scope} (hscope : scope ≠ .workspace)
    {views whole : PreparedViews}
    (hviews : prepareViews host session changeset scope = .ok views)
    (hwhole : prepareViews host' session' changeset .workspace = .ok whole) :
    (∀ path ∈ scopePaths changeset scope, isSourceCandidate path →
        views.before.read path = whole.before.read path
          ∧ views.after.read path = whole.after.read path)
      ∧ (∀ path, path ∉ scopePaths changeset scope →
        views.before.read path = none ∧ views.after.read path = none)
      ∧ (∀ listing baseline, treeFromListing listing scope
          (scopedChangePreconditionPaths changeset scope (scopePaths changeset scope))
          (scopePaths changeset scope) = .ok baseline →
        ∀ change ∈ changeset.changes, inScope changeset scope change = false →
        ∀ path ∈ change.paths, baseline.at_ path = (none, none))
      ∧ prepareViews host session (withinScope changeset scope) scope = .ok views := by
  have hwf := wellFormed_of_validateChangeset hvalid
  obtain ⟨listing, baseline, after, hlist, hcomplete, hbaseline, hafter, hread⟩ :=
    prepareViews_ok hviews
  obtain ⟨listing', baseline', after', hlist', hcomplete', hbaseline', hafter', hread'⟩ :=
    prepareViews_ok hwhole
  have hpaths : assessmentPaths scope (scopePaths changeset scope) baseline after
      = scopePaths changeset scope := by
    cases scope with
    | workspace => exact absurd rfl hscope
    | paths paths => rfl
    | changeset => rfl
  rw [hpaths] at hread
  have hscoped := readViews_read hhost hread
  have hfull := readViews_read hhost' hread'
  refine ⟨?_, ?_, ?_, ?_⟩
  · intro path hpath hcandidate
    -- Both baselines have the host's entry, so both after trees have the same.
    have hbefore : baseline.at_ path = listed (tree.get? path) := by
      refine treeFromListing_at hhost hlist hcomplete hbaseline ?_
      intro paths hallowed
      cases scope with
      | workspace => exact absurd rfl hscope
      | paths _ =>
        cases hallowed
        exact BTreeSet.mem_union.mpr (.inl hpath)
      | changeset =>
        cases hallowed
        exact BTreeSet.mem_union.mpr (.inl hpath)
    have hbefore' : baseline'.at_ path = listed (tree.get? path) :=
      treeFromListing_at hhost' hlist' hcomplete' hbaseline' nofun
    have hsame : after.at_ path = after'.at_ path := by
      rw [applyChanges_at hwf.legal hafter, applyChanges_at hwf.legal hafter', hbefore, hbefore']
    rw [(hscoped path).1, (hscoped path).2, (hfull path).1, (hfull path).2, if_pos hpath,
      if_pos hpath, hbefore, ← hbefore', hsame]
    split_ifs with hassessed
    · exact ⟨rfl, rfl⟩
    · exact materialized_of_not_assessed hcandidate hassessed
  · intro path hpath
    rw [(hscoped path).1, (hscoped path).2, if_neg hpath, if_neg hpath]
    exact ⟨rfl, rfl⟩
  · intro listing baseline htree change hmem hout path hpath
    obtain ⟨paths, hallowed, hnot⟩ := not_mem_allowedListingPaths hwf hscope hmem hout hpath
    exact treeFromListing_unrequested htree hallowed hnot
  · rw [prepareViews_withinScope hwf hscope]
    exact hviews

end

/-! ## The host of a tree -/

/-- The host that answers from a tree and the bytes of its blobs. -/
def treeHost (tree : HostTree) (content : Str → Str) : AspHost where
  listTree _ requested :=
    .ok ⟨(tree.entries.filter fun entry => requested.all fun paths => entry.1 ∈ paths).map
      fun (path, blobId, kind) => ⟨path, blobId, kind⟩, false⟩
  readBlob id := .ok ⟨[⟨id, .utf8, content id⟩]⟩

theorem treeHost_honest [Base64] (tree : HostTree) (content : Str → Str) :
    (treeHost tree content).Honest tree content := by
  refine ⟨?_, ?_⟩
  · rintro baseline requested listing hlist - ⟨path, blobId, kind⟩
    cases hlist
    rw [List.mem_map]
    constructor
    · rintro ⟨⟨path', blobId', kind'⟩, hmem, heq⟩
      cases heq
      obtain ⟨hentry, hrequested⟩ := List.mem_filter.mp hmem
      refine ⟨BTreeMap.mem_entries_iff.mp hentry, ?_⟩
      rintro paths rfl
      simpa using hrequested
    · rintro ⟨hget, hrequested⟩
      refine ⟨⟨path, blobId, kind⟩, List.mem_filter.mpr ⟨BTreeMap.mem_entries_iff.mpr hget, ?_⟩,
        rfl⟩
      cases requested with
      | none => rfl
      | some paths => simpa using hrequested paths rfl
  · intro id result hread blob hmem bytes hid hdecode
    cases hread
    obtain rfl := List.mem_singleton.mp hmem
    obtain ⟨decoded, hdecoded, hdecode⟩ := Except.bind_eq_ok_iff.mp hdecode
    cases hdecoded
    dsimp only at hdecode
    split_ifs at hdecode
    cases hdecode
    rfl

/-- SHA-256 of the empty text and of the text `x`. -/
abbrev sampleDigest : Sha256 where
  digest bytes :=
    if bytes = [] then
      [227, 176, 196, 66, 152, 252, 28, 20, 154, 251, 244, 200, 153, 111, 185, 36, 39, 174, 65, 228,
        100, 155, 147, 76, 164, 149, 153, 27, 120, 82, 184, 85]
    else
      [115, 203, 56, 88, 166, 135, 168, 73, 76, 163, 50, 48, 83, 1, 98, 130, 243, 218, 211, 157, 66,
        207, 98, 202, 78, 121, 221, 162, 170, 199, 217, 172]

def emptyBlob : Str :=
  ascii "blob:sha256:e3b0c44298fc1c149afbf4c8996fb92427ae41e4649b934ca495991b7852b855"

def lineBlob : Str :=
  ascii "blob:sha256:73cb3858a687a8494ca3323053016282f3dad39d42cf62ca4e79dda2aac7d9ac"

/-- A workspace with a Python file, a text file and a directory, and a changeset
    that renames the Python file to a text file and edits the text file. -/
def sampleTree : HostTree :=
  BTreeMap.ofList [(samplePath "a.py", lineBlob, .file),
    (⟨ascii "notes.txt", by decide⟩, emptyBlob, .file), (⟨ascii "src", by decide⟩, emptyBlob, .dir)]

def sampleContent (id : Str) : Str := if id = lineBlob then [120, 10] else []

def sampleChangeset : ChangeSet where
  baseline := ⟨ascii "main", none, none⟩
  changes := [
    ⟨⟨ascii "a.txt", by decide⟩, .rename, some (samplePath "a.py"), some lineBlob, none⟩,
    ⟨⟨ascii "notes.txt", by decide⟩, .modify, none, some emptyBlob, some lineBlob⟩]

/-- A decoder that is never asked: every sample blob is sent as text. -/
abbrev sampleBase64 : Base64 := ⟨fun _ => .error []⟩

abbrev samplePlatform : Platform := ⟨ascii "linux", ascii "x86_64"⟩

/-- The sample evaluation under a scope. -/
def sampleViews (scope : Scope) : WorkspaceResult PreparedViews :=
  @prepareViews sampleDigest sampleBase64 samplePlatform (treeHost sampleTree sampleContent)
    ⟨.null, 1000, .null⟩ sampleChangeset scope

/-- The Python file is in the scope of the changeset, its new name and the text
    file are not; both routes agree on it. -/
theorem scopedViews_restrict_renamed :
    ∃ views whole, sampleViews .changeset = .ok views ∧ sampleViews .workspace = .ok whole
      ∧ (scopePaths sampleChangeset .changeset).elems = [⟨ascii "a.py", by decide⟩]
      ∧ views.before.read ⟨ascii "a.py", by decide⟩ = whole.before.read ⟨ascii "a.py", by decide⟩
      ∧ views.after.read ⟨ascii "a.py", by decide⟩
        = whole.after.read ⟨ascii "a.py", by decide⟩ := by
  have hvalid : validateChangeset sampleChangeset = .ok () := by rfl
  have hpaths : (scopePaths sampleChangeset .changeset).elems = [⟨ascii "a.py", by decide⟩] := by
    decide +kernel
  have hok : (sampleViews .changeset).isOk = true := by decide +kernel
  have hok' : (sampleViews .workspace).isOk = true := by decide +kernel
  cases hviews : sampleViews .changeset with
  | error failure => rw [hviews] at hok; cases hok
  | ok views =>
    cases hwhole : sampleViews .workspace with
    | error failure => rw [hwhole] at hok'; cases hok'
    | ok whole =>
      have hhost := @treeHost_honest sampleBase64 sampleTree sampleContent
      have hagree := (@scopedViews_restrict sampleDigest sampleBase64 samplePlatform _ _ _ _ hhost
        hhost _ _ _ hvalid .changeset (by decide) views whole hviews hwhole).1
      have hscope : (⟨ascii "a.py", by decide⟩ : RepoPath) ∈ scopePaths sampleChangeset .changeset := by
        rw [BTreeSet.mem_def, hpaths]
        exact List.mem_singleton_self _
      exact ⟨views, whole, rfl, rfl, hpaths, hagree _ hscope (by decide +kernel)⟩

end Opcore.Asp
