/-
  Opcore.Protocol.HostTrees

  The provider's trees from the host's input.  The host's listing and changeset
  pass every check of the provider, and the trees it rebuilds are the two views
  of the capture, exactly when each path of the workspace can be sent.
-/
import Opcore.Protocol.HostInput
import Opcore.Protocol.Shutdown

namespace Opcore

open Text Collections Json Asp

/-! ## Blob references -/

theorem isBlobDigestByte_hexDigit : ∀ n < 16, isBlobDigestByte (Text.hexDigit n) = true := by
  decide

theorem all_isBlobDigestByte_hexEncode (s : Str) : (hexEncode s).all isBlobDigestByte = true := by
  rw [List.all_eq_true]
  intro b hb
  obtain ⟨c, -, hc⟩ := List.mem_flatMap.mp hb
  have hlt : c.toNat < 256 := c.toNat_lt
  simp only [List.mem_cons, List.not_mem_nil, or_false] at hc
  rcases hc with rfl | rfl
  · exact isBlobDigestByte_hexDigit _ (by omega)
  · exact isBlobDigestByte_hexDigit _ (Nat.mod_lt _ (by decide))

section

variable [Sha256]

/-- The reference of some bytes is a reference. -/
theorem validateBlobRef_blobRef (hdigest : ∀ bytes, (Sha256.digest bytes).length = 32) (bytes : Str) :
    validateBlobRef (blobRef bytes) = .ok () := by
  have hne : hexEncode (Sha256.digest bytes) ≠ [] := by
    intro hnil
    have hlength := hdigest bytes
    cases hbytes : Sha256.digest bytes with
    | nil =>
      rw [hbytes] at hlength
      cases hlength
    | cons b s =>
      rw [hbytes] at hnil
      cases hnil
  have hsplit : (stripPrefix (ascii "blob:") (blobRef bytes)).bind (splitOnce (byte ':'))
      = some (ascii "sha256", hexEncode (Sha256.digest bytes)) := by
    have hstrip : stripPrefix (ascii "blob:") (blobRef bytes)
        = some (ascii "sha256:" ++ hexEncode (Sha256.digest bytes)) :=
      stripPrefix_eq_some_iff.mpr rfl
    rw [hstrip]
    rfl
  unfold validateBlobRef
  rw [hsplit]
  refine if_neg ?_
  rintro (h | h | h | h)
  · exact absurd h (by decide)
  · exact h (by decide)
  · exact hne h
  · exact h (all_isBlobDigestByte_hexEncode _)

theorem validateOptionalBlob_map (hdigest : ∀ bytes, (Sha256.digest bytes).length = 32)
    (blob : Option NativeBlob) : validateOptionalBlob (blob.map NativeBlob.blobId) = .ok () := by
  cases blob with
  | none => rfl
  | some blob =>
    rw [Option.map_some, blob.valid]
    exact validateBlobRef_blobRef hdigest blob.bytes

/-! ## Captured states -/

/-- What a capture says about its paths: each exists in a view, and the changed
    ones are those whose blobs differ. -/
structure GitNativeCapture.Sound (capture : GitNativeCapture) : Prop where
  present : ∀ path state, capture.paths.get? path = some state →
    state.before ≠ none ∨ state.after ≠ none
  changed : ∀ path, path ∈ capture.changedPaths ↔ ∃ state, capture.paths.get? path = some state
    ∧ state.before.map NativeBlob.blobId ≠ state.after.map NativeBlob.blobId

theorem shareBytes_ne_none {before after : Option NativeBlob} (h : after ≠ none) :
    shareBytes before after ≠ none := by
  cases after with
  | none => exact absurd rfl h
  | some after =>
    cases before with
    | none => exact Option.some_ne_none _
    | some before =>
      simp only [shareBytes]
      split_ifs <;> exact Option.some_ne_none _

theorem buildCapture_sound (before after : BTreeMap RepoPath NativeBlob) (baselineTree : Str)
    (roots : List RepoPath) (filter : NativeCaptureFilter) :
    (buildCapture before after baselineTree roots filter).Sound := by
  refine ⟨?_, ?_⟩
  · intro path state hstate
    rw [get?_buildCapture] at hstate
    split_ifs at hstate with hpath
    cases hstate
    rcases BTreeSet.mem_union.mp hpath with hmem | hmem
    · obtain ⟨blob, hblob⟩ := BTreeMap.mem_keySet_iff.mp hmem
      left
      show before.get? path ≠ none
      rw [hblob]
      exact Option.some_ne_none _
    · obtain ⟨blob, hblob⟩ := BTreeMap.mem_keySet_iff.mp hmem
      right
      refine shareBytes_ne_none ?_
      rw [hblob]
      exact Option.some_ne_none _
  · intro path
    rw [get?_buildCapture]
    show path ∈ (allPaths before after).filter _ ↔ _
    rw [BTreeSet.mem_filter, decide_eq_true_eq]
    split_ifs with hpath
    · constructor
      · rintro ⟨-, hne⟩
        exact ⟨_, rfl, hne⟩
      · rintro ⟨state, hstate, hne⟩
        cases hstate
        exact ⟨hpath, hne⟩
    · constructor
      · rintro ⟨hmem, -⟩
        exact absurd hmem hpath
      · rintro ⟨state, hstate, -⟩
        cases hstate

/-! ## The changes of a capture -/

theorem stateChange_legal {path : RepoPath} {state : NativePathState}
    (h : state.before ≠ none ∨ state.after ≠ none) : (stateChange path state).Legal := by
  obtain ⟨before, after⟩ := state
  cases before with
  | none =>
    cases after with
    | none => exact absurd rfl (h.elim id id)
    | some after => exact ⟨rfl, rfl, rfl⟩
  | some before =>
    cases after with
    | none => exact ⟨rfl, rfl, rfl⟩
    | some after => exact ⟨rfl, rfl, rfl⟩

theorem written_stateChange (path : RepoPath) (state : NativePathState) :
    (stateChange path state).written = state.after.map NativeBlob.blobId := by
  obtain ⟨before, after⟩ := state
  cases before <;> cases after <;> rfl

/-- The precondition of a captured change: the baseline has the blob from before. -/
theorem validateChangePrecondition_stateChange {entries : BTreeMap RepoPath Str} {path : RepoPath}
    {state : NativePathState} (h : entries.get? path = state.before.map NativeBlob.blobId) :
    validateChangePrecondition entries (stateChange path state) = .ok () := by
  obtain ⟨before, after⟩ := state
  cases before with
  | none =>
    show requireAbsent entries path _ = _
    refine if_neg ?_
    rw [BTreeMap.contains, h]
    exact Bool.false_ne_true
  | some before =>
    have hrequire : requireBefore entries path (some before.blobId) (ascii "before blob") = .ok () :=
      if_neg (not_not.mpr h)
    cases after with
    | none => exact hrequire
    | some after => exact hrequire

theorem mem_capturedChanges {capture : GitNativeCapture} {mapping : BTreeMap RepoPath RepoPath}
    {paths : List RepoPath} {change : Change} :
    change ∈ capturedChanges capture mapping paths ↔ ∃ path ∈ paths, ∃ destination state,
      mapping.get? path = some destination ∧ capture.paths.get? path = some state
        ∧ change = stateChange destination state := by
  unfold capturedChanges
  rw [List.mem_filterMap]
  constructor
  · rintro ⟨path, hpath, h⟩
    obtain ⟨destination, hdestination, h⟩ := Option.bind_eq_some_iff.mp h
    obtain ⟨state, hstate, rfl⟩ := Option.map_eq_some_iff.mp h
    exact ⟨path, hpath, destination, state, hdestination, hstate, rfl⟩
  · rintro ⟨path, hpath, destination, state, hdestination, hstate, rfl⟩
    refine ⟨path, hpath, ?_⟩
    rw [hdestination, hstate]
    rfl

/-- A mapping that sends no two paths to one place. -/
def MapsApart (mapping : BTreeMap RepoPath RepoPath) : Prop :=
  ∀ path path' destination, mapping.get? path = some destination →
    mapping.get? path' = some destination → path = path'

theorem pairwise_capturedChanges {capture : GitNativeCapture}
    {mapping : BTreeMap RepoPath RepoPath} (hmapping : MapsApart mapping) {paths : List RepoPath}
    (hnodup : paths.Nodup) :
    (capturedChanges capture mapping paths).Pairwise fun a b => a.path ≠ b.path := by
  unfold capturedChanges
  rw [List.pairwise_filterMap]
  refine hnodup.imp ?_
  intro p q hne a ha b hb heq
  obtain ⟨d, hd, ha⟩ := Option.bind_eq_some_iff.mp ha
  obtain ⟨d', hd', hb⟩ := Option.bind_eq_some_iff.mp hb
  obtain ⟨state, -, rfl⟩ := Option.map_eq_some_iff.mp ha
  obtain ⟨state', -, rfl⟩ := Option.map_eq_some_iff.mp hb
  cases (show d = d' from heq)
  exact hne (hmapping p q d hd hd')

end

/-! ## What the provider accepts -/

/-- A change that passes validation on its own and moves no file. -/
structure Plain (change : Change) : Prop where
  legal : change.Legal
  source : change.source = none
  before : validateOptionalBlob change.before = .ok ()
  after : validateOptionalBlob change.after = .ok ()

theorem Plain.validate {change : Change} (h : Plain change) (sources : BTreeSet RepoPath) :
    validateChange change sources = .ok sources := by
  obtain ⟨path, kind, source, before, after⟩ := change
  obtain ⟨hlegal, rfl, hbefore, hafter⟩ := h
  have hblobs : (do
      validateOptionalBlob before
      validateOptionalBlob after
      return sources : Except RpcFailure (BTreeSet RepoPath)) = .ok sources := by
    rw [show validateOptionalBlob before = .ok () from hbefore,
      show validateOptionalBlob after = .ok () from hafter]
    rfl
  cases kind with
  | create =>
    obtain ⟨-, rfl, hsome⟩ := hlegal
    obtain ⟨blob, rfl⟩ := Option.isSome_iff_exists.mp hsome
    exact hblobs
  | modify =>
    obtain ⟨-, hsome, hsome'⟩ := hlegal
    obtain ⟨blob, rfl⟩ := Option.isSome_iff_exists.mp hsome
    obtain ⟨blob', rfl⟩ := Option.isSome_iff_exists.mp hsome'
    exact hblobs
  | delete =>
    obtain ⟨-, hsome, rfl⟩ := hlegal
    obtain ⟨blob, rfl⟩ := Option.isSome_iff_exists.mp hsome
    exact hblobs
  | rename => exact absurd hlegal.1 Bool.false_ne_true

/-- The loop over plain changes accepts them where their destinations differ. -/
theorem validateChanges_of_plain {changes : List Change} (hplain : ∀ c ∈ changes, Plain c)
    (happart : changes.Pairwise fun a b => a.path ≠ b.path) {destinations : BTreeSet RepoPath}
    (hfresh : ∀ c ∈ changes, c.path ∉ destinations) (sources : BTreeSet RepoPath) :
    ∃ destinations', validateChanges destinations sources changes = .ok (destinations', sources) := by
  induction changes generalizing destinations with
  | nil => exact ⟨destinations, rfl⟩
  | cons change changes ih =>
    obtain ⟨hchange, hplain⟩ := List.forall_mem_cons.mp hplain
    obtain ⟨hnew, hfresh⟩ := List.forall_mem_cons.mp hfresh
    obtain ⟨hne, happart⟩ := List.pairwise_cons.mp happart
    have hfresh' : ∀ c ∈ changes, c.path ∉ destinations.insert change.path := by
      intro c hc hmem
      rcases BTreeSet.mem_insert.mp hmem with heq | hmem
      · exact hne c hc heq.symm
      · exact hfresh c hc hmem
    obtain ⟨destinations', hrest⟩ := ih hplain happart hfresh'
    refine ⟨destinations', ?_⟩
    rw [validateChanges, if_neg hnew, hchange.validate]
    exact hrest

theorem validateChangeset_of_plain {rev : Str} (hrev : rev ≠ []) {changes : List Change}
    (hplain : ∀ c ∈ changes, Plain c) (happart : changes.Pairwise fun a b => a.path ≠ b.path)
    (hcount : changes.length ≤ maxFiles) :
    validateChangeset ⟨⟨rev, none, none⟩, changes⟩ = .ok () := by
  obtain ⟨destinations, hloop⟩ := validateChanges_of_plain hplain happart
    (fun _ _ => BTreeSet.not_mem_empty) ∅
  have hshared : ¬ (destinations.elems.any fun path => decide (path ∈ (∅ : BTreeSet RepoPath)))
      = true := by
    simp
  unfold validateChangeset
  dsimp only
  rw [if_neg hrev, if_neg (Nat.not_lt.mpr hcount), hloop]
  show (if _ then _ else _) = _
  rw [if_neg hshared]
  rfl

/-- A listing whose paths differ gives a tree with its entries. -/
theorem foldlM_addListingEntry_of_apart {entries : List Asp.TreeEntry}
    (hvalid : ∀ e ∈ entries, validateBlobRef e.blobId = .ok ())
    (happart : entries.Pairwise fun a b => a.path ≠ b.path) {tree : TreeState}
    (hfresh : ∀ e ∈ entries, tree.entries.get? e.path = none) :
    ∃ tree', entries.foldlM (addListingEntry none) tree = .ok tree' := by
  induction entries generalizing tree with
  | nil => exact ⟨tree, rfl⟩
  | cons entry entries ih =>
    obtain ⟨hentry, hvalid⟩ := List.forall_mem_cons.mp hvalid
    obtain ⟨hnew, hfresh⟩ := List.forall_mem_cons.mp hfresh
    obtain ⟨hne, happart⟩ := List.pairwise_cons.mp happart
    have hstep : addListingEntry none tree entry
        = .ok ⟨tree.entries.insert entry.path entry.blobId,
          tree.kinds.insert entry.path entry.kind⟩ := by
      unfold addListingEntry
      rw [if_neg (by simp), hentry]
      exact if_neg (by simp [BTreeMap.contains, hnew])
    rw [List.foldlM_cons, hstep]
    refine ih hvalid happart ?_
    intro e he
    rw [BTreeMap.get?_insert, if_neg (hne e he).symm]
    exact hfresh e he

theorem treeFromListing_of_apart {entries : List Asp.TreeEntry}
    (hcount : entries.length ≤ maxFiles)
    (hvalid : ∀ e ∈ entries, validateBlobRef e.blobId = .ok ())
    (happart : entries.Pairwise fun a b => a.path ≠ b.path) :
    ∃ tree, (∀ preconditions requested, treeFromListing ⟨entries, false⟩ .workspace preconditions
        requested = .ok tree)
      ∧ (∀ e ∈ entries, tree.at_ e.path = (some e.blobId, some e.kind))
      ∧ ∀ p, (∀ e ∈ entries, e.path ≠ p) → tree.at_ p = (none, none) := by
  obtain ⟨tree, htree⟩ := foldlM_addListingEntry_of_apart hvalid happart
    (fun _ _ => (rfl : (⟨∅, ∅⟩ : TreeState).entries.get? _ = none))
  obtain ⟨-, hmem, hother⟩ := foldlM_addListingEntry htree
  refine ⟨tree, ?_, hmem, hother⟩
  intro preconditions requested
  unfold treeFromListing
  rw [if_neg (Nat.not_lt.mpr hcount)]
  exact htree

/-- Every provider returns the trees where the listing and all preconditions pass
    and neither tree is too large. -/
theorem treesOfListing_of_ok {profile : ProviderProfile} {changeset : ChangeSet}
    {listing : ListTreeResult} {baseline after : TreeState}
    (hlisting : ∀ preconditions requested,
      treeFromListing listing .workspace preconditions requested = .ok baseline)
    (hpre : ∀ c ∈ changeset.changes, validateChangePrecondition baseline.entries c = .ok ())
    (hafter : applyChanges baseline changeset = .ok after)
    (hsize : baseline.entries.size ≤ maxFiles) (hsize' : after.entries.size ≤ maxFiles) :
    treesOfListing profile changeset listing = .ok (baseline, after) := by
  have hnative : validatedNativeTrees changeset listing = .ok (baseline, after) := by
    refine Except.bind_eq_ok_iff.mpr ⟨baseline, hlisting ∅ ∅, ?_⟩
    refine Except.bind_eq_ok_iff.mpr ⟨(), Except.forM_eq_ok_iff.mpr hpre, ?_⟩
    refine Except.bind_eq_ok_iff.mpr ⟨after, hafter, ?_⟩
    refine Except.bind_eq_ok_iff.mpr ⟨(), if_neg (Nat.not_lt.mpr hsize), ?_⟩
    exact Except.bind_eq_ok_iff.mpr ⟨(), if_neg (Nat.not_lt.mpr hsize'), rfl⟩
  cases profile with
  | fast =>
    have hscoped : ∀ requested, validateChangePreconditions changeset .workspace requested
        baseline.entries = .ok () := by
      intro requested
      refine Except.forM_eq_ok_iff.mpr ?_
      intro c hc
      split_ifs
      · exact hpre c hc
      · rfl
    refine Except.bind_eq_ok_iff.mpr ⟨baseline, hlisting _ _, ?_⟩
    refine Except.bind_eq_ok_iff.mpr ⟨(), hscoped _, ?_⟩
    exact Except.bind_eq_ok_iff.mpr ⟨after, hafter, rfl⟩
  | rustNative => exact hnative
  | nodeNative => exact hnative
  | pythonNative => exact hnative

/-! ## What the provider reads -/

def listedEntry (entry : RepoPath × Str) : Asp.TreeEntry := ⟨entry.1, entry.2, .file⟩

theorem ofValue?_entryValue (path : RepoPath) (blob : Str) :
    Asp.TreeEntry.ofValue? (HostWorkspace.entryValue path blob)
      = if isProtocolPath path then some ⟨path, blob, .file⟩ else none := by
  show (pathOfValue? (.string (pathText path))).bind _ = _
  rw [pathOfValue?_pathText path]
  cases isProtocolPath path <;> rfl

/-- The whole listing is read where every listed path can be sent. -/
theorem ofValue?_listing (entries : List (RepoPath × Str)) :
    ListTreeResult.ofValue? (.object [
        (ascii "entries", .array (entries.map fun e => HostWorkspace.entryValue e.1 e.2)),
        (ascii "truncated", .bool false)])
      = if entries.all fun e => isProtocolPath e.1 then some ⟨entries.map listedEntry, false⟩
        else none := by
  have hread : (entries.map fun e => HostWorkspace.entryValue e.1 e.2).mapM Asp.TreeEntry.ofValue?
      = if entries.all fun e => isProtocolPath e.1 then some (entries.map listedEntry) else none := by
    apply Option.mapM_of_map_eq_ite
    rw [List.map_map]
    apply List.map_congr_left
    intro e _
    exact ofValue?_entryValue e.1 e.2
  show ((entries.map fun e => HostWorkspace.entryValue e.1 e.2).mapM Asp.TreeEntry.ofValue?).bind _ = _
  rw [hread]
  cases entries.all fun e => isProtocolPath e.1 <;> rfl

theorem listTree_whole (workspace : HostWorkspace) :
    workspace.listTree (.object [(ascii "baseline", workspace.baseline)])
      = .ok (.object [
        (ascii "entries", .array
          (workspace.entries.entries.map fun e => HostWorkspace.entryValue e.1 e.2)),
        (ascii "truncated", .bool false)]) := by
  refine Except.bind_eq_ok_iff.mpr ⟨[(ascii "baseline", workspace.baseline)], rfl, ?_⟩
  have hbaseline : ¬ ([(ascii "baseline", workspace.baseline)] : List (Str × Value)).lookup
      (ascii "baseline") ≠ some workspace.baseline := not_not.mpr rfl
  rw [if_neg hbaseline]
  refine Except.bind_eq_ok_iff.mpr ⟨none, rfl, ?_⟩
  have hall : workspace.entries.entries.filter (fun entry =>
      (none : Option (BTreeSet RepoPath)).all fun paths => entry.1 ∈ paths)
        = workspace.entries.entries := List.filter_eq_self.mpr fun _ _ => rfl
  rw [hall]
  rfl

section

variable [Sha256]

/-! ## What a host input holds -/

section

variable {capture : GitNativeCapture} {root context : WorkspaceRoot} {profile : ProviderProfile}
  {mapping : BTreeMap RepoPath RepoPath}

theorem get?_workspaceMapping (h : workspaceMapping capture root context profile = .ok mapping)
    (path : RepoPath) :
    mapping.get? path = if path ∈ capture.paths.keys ∧ inWorkspace root context profile path then
      rebasePath path context else none := by
  obtain ⟨hget, -, -⟩ := mapPaths_ok capture.paths.nodup_keys h
  exact hget path

theorem mapsApart_workspaceMapping
    (h : workspaceMapping capture root context profile = .ok mapping) : MapsApart mapping := by
  obtain ⟨-, -, hinj⟩ := mapPaths_ok capture.paths.nodup_keys h
  intro path path' destination hpath hpath'
  rw [get?_workspaceMapping h] at hpath hpath'
  split_ifs at hpath hpath' with hin hin'
  exact hinj path hin.1 path' hin'.1 hin.2 hin'.2 (hpath.trans hpath'.symm)

end

omit [Sha256] in
theorem MapsApart.nodup_snd {mapping : BTreeMap RepoPath RepoPath} (h : MapsApart mapping) :
    (mapping.entries.map Prod.snd).Nodup := by
  refine List.Nodup.map_on ?_ mapping.nodup_entries
  rintro ⟨path, destination⟩ he ⟨path', destination'⟩ he' heq
  cases (show destination = destination' from heq)
  rw [h path path' destination (BTreeMap.mem_entries_iff.mp he) (BTreeMap.mem_entries_iff.mp he')]

/-- A prepared root: its changeset has the changes of the mapped paths and its
    listing the files they had before. -/
structure Sent (capture : GitNativeCapture) (mapping : BTreeMap RepoPath RepoPath)
    (prepared : PreparedRoot) : Prop where
  baseline : prepared.workspace.baseline = baselineValue capture
  changeset : ∃ values, prepared.params.get? (ascii "changeset")
      = some (.object [(ascii "baseline", baselineValue capture), (ascii "changes", .array values)])
    ∧ values.map Change.ofValue?
      = (capturedChanges capture mapping capture.changedPaths.elems).map fun change =>
        if isProtocolPath change.path then some change else none
  size : prepared.workspace.entries.size ≤ maxFiles
  mapped : ∀ path destination, mapping.get? path = some destination →
    ∃ state, capture.paths.get? path = some state
      ∧ prepared.workspace.entries.get? destination = state.before.map NativeBlob.blobId
  other : ∀ p, (∀ path, mapping.get? path ≠ some p) → prepared.workspace.entries.get? p = none

theorem hostInput_ok {capture : GitNativeCapture} {root : WorkspaceRoot}
    {profile : ProviderProfile} {comparison : Str} {verify : Value} {prepared : PreparedRoot}
    (h : hostInput capture root profile comparison verify = .ok prepared) :
    ∃ mapping, workspaceMapping capture root (projectContext capture root profile) profile
        = .ok mapping
      ∧ Sent capture mapping prepared := by
  obtain ⟨empty, hempty, h⟩ := Except.bind_eq_ok_iff.mp h
  obtain ⟨mapping, hmapping, h⟩ := Except.bind_eq_ok_iff.mp h
  obtain ⟨⟨listed, candidates⟩, hlisted, h⟩ := Except.bind_eq_ok_iff.mp h
  obtain ⟨⟨values, final⟩, hfinal, h⟩ := Except.bind_eq_ok_iff.mp h
  cases h
  have hnew : empty = ⟨baselineValue capture, ∅, ∅, 0⟩ := by
    unfold HostWorkspace.new at hempty
    split at hempty
    · cases hempty
    · split at hempty
      · cases hempty
      · cases hempty
        rfl
  subst hnew
  obtain ⟨hbaseline, hsize, hmapped, hother⟩ := populateWorkspace_ok
    (mapsApart_workspaceMapping hmapping).nodup_snd (fun _ _ => BTreeMap.get?_empty) hlisted
  obtain ⟨hbaseline', hentries, rfl⟩ := rootChanges_ok hfinal
  refine ⟨mapping, hmapping, hbaseline'.trans hbaseline,
    ⟨_, rfl, ofValue?_capturedChanges capture mapping _⟩, ?_, ?_, ?_⟩
  · rw [hentries]
    exact hsize (Nat.zero_le _)
  · intro path destination hpath
    rw [hentries]
    exact hmapped _ (BTreeMap.mem_entries_iff.mpr hpath)
  · intro p hp
    rw [hentries]
    refine hother p ?_
    rintro ⟨path, destination⟩ he rfl
    exact hp path (BTreeMap.mem_entries_iff.mp he)

/-- The changeset the provider reads where every path of it can be sent. -/
def sentChangeset (capture : GitNativeCapture) (mapping : BTreeMap RepoPath RepoPath) : ChangeSet :=
  ⟨⟨capture.baselineRev, none, none⟩, capturedChanges capture mapping capture.changedPaths.elems⟩

/-- Reading the changeset and the listing succeeds where every path in them can
    be sent; the rest of the provider then works on what was sent. -/
theorem providerTrees_ok_iff [Build] {capture : GitNativeCapture}
    {mapping : BTreeMap RepoPath RepoPath} {prepared : PreparedRoot}
    (hsent : Sent capture mapping prepared) {profile : ProviderProfile}
    {trees : TreeState × TreeState} :
    providerTrees profile prepared = .ok trees
      ↔ ((sentChangeset capture mapping).changes.all fun c => isProtocolPath c.path) = true
        ∧ (prepared.workspace.entries.entries.all fun e => isProtocolPath e.1) = true
        ∧ validateChangeset (sentChangeset capture mapping) = .ok ()
        ∧ treesOfListing profile (sentChangeset capture mapping)
          ⟨prepared.workspace.entries.entries.map listedEntry, false⟩ = .ok trees := by
  obtain ⟨values, hvalue, hread⟩ := hsent.changeset
  have hchangeset : parseChangeset prepared.params
      = if (sentChangeset capture mapping).changes.all fun c => isProtocolPath c.path then
          .ok (sentChangeset capture mapping)
        else .error (.input (ascii "invalid check/evaluate request: "
          ++ Build.deserializeError prepared.params)) := by
    -- A path outside the protocol is the only thing that cannot be parsed.
    have hmap := @Option.mapM_of_map_eq_ite _ _ _ _ _ id _ _ hread
    rw [List.map_id] at hmap
    have hof : ChangeSet.ofValue? (.object [(ascii "baseline", baselineValue capture),
        (ascii "changes", .array values)])
        = (values.mapM Change.ofValue?).bind fun changes =>
          some ⟨⟨capture.baselineRev, none, none⟩, changes⟩ := rfl
    unfold parseChangeset
    rw [hvalue, Option.bind_some, hof, hmap]
    show _ = if (capturedChanges capture mapping capture.changedPaths.elems).all _ then _ else _
    split_ifs <;> rfl
  unfold providerTrees
  rw [hchangeset, listTree_whole]
  cases (sentChangeset capture mapping).changes.all fun c => isProtocolPath c.path with
  | false =>
    refine iff_of_false (fun h => ?_) fun h => absurd h.1 Bool.false_ne_true
    cases h
  | true =>
    show (liftRpc (validateChangeset (sentChangeset capture mapping)) >>= fun _ => _) = _ ↔ _
    rw [Except.bind_eq_ok_iff]
    constructor
    · rintro ⟨_, hvalid, h⟩
      obtain ⟨listing, hparse, h⟩ := Except.bind_eq_ok_iff.mp h
      obtain ⟨listing', hparse', h⟩ := Except.bind_eq_ok_iff.mp h
      obtain ⟨_, -, h⟩ := Except.bind_eq_ok_iff.mp h
      cases hparse
      have hparse' := Except.mapError_eq_ok_iff.mp hparse'
      unfold parseListing at hparse'
      rw [ofValue?_listing] at hparse'
      cases hall : prepared.workspace.entries.entries.all fun e => isProtocolPath e.1 with
      | false =>
        rw [hall] at hparse'
        cases hparse'
      | true =>
        rw [hall] at hparse'
        cases hparse'
        exact ⟨rfl, rfl, Except.mapError_eq_ok_iff.mp hvalid, Except.mapError_eq_ok_iff.mp h⟩
    · rintro ⟨-, hall, hvalid, htrees⟩
      refine ⟨(), Except.mapError_eq_ok_iff.mpr hvalid, ?_⟩
      refine Except.bind_eq_ok_iff.mpr ⟨_, rfl, ?_⟩
      refine Except.bind_eq_ok_iff.mpr
        ⟨⟨prepared.workspace.entries.entries.map listedEntry, false⟩, ?_, ?_⟩
      · refine Except.mapError_eq_ok_iff.mpr ?_
        unfold parseListing
        rw [ofValue?_listing, if_pos hall]
      · exact Except.bind_eq_ok_iff.mpr ⟨(), rfl, Except.mapError_eq_ok_iff.mpr htrees⟩

/-! ## Exactness -/

/-- What a tree has at a path whose file is the given one. -/
def fileAt (blob : Option NativeBlob) : Option Str × Option EntryKind :=
  (blob.map NativeBlob.blobId, blob.map fun _ => .file)

/-- Two trees hold the views of a capture under a mapping, and nothing else. -/
structure Encodes (capture : GitNativeCapture) (mapping : BTreeMap RepoPath RepoPath)
    (baseline after : TreeState) : Prop where
  mapped : ∀ path destination, mapping.get? path = some destination →
    ∃ state, capture.paths.get? path = some state
      ∧ baseline.at_ destination = fileAt state.before ∧ after.at_ destination = fileAt state.after
  other : ∀ p, (∀ path, mapping.get? path ≠ some p) →
    baseline.at_ p = (none, none) ∧ after.at_ p = (none, none)

section

variable {capture : GitNativeCapture} {mapping : BTreeMap RepoPath RepoPath}
  {prepared : PreparedRoot}

/-- A path of a prepared root's listing is the place of a mapped one. -/
theorem Sent.exists_of_listed (hsent : Sent capture mapping prepared) {p : RepoPath} {blob : Str}
    (h : prepared.workspace.entries.get? p = some blob) :
    ∃ path, mapping.get? path = some p := by
  by_contra hnone
  rw [hsent.other p fun path hpath => hnone ⟨path, hpath⟩] at h
  cases h

theorem exists_of_mem_changes {change : Change}
    (h : change ∈ (sentChangeset capture mapping).changes) :
    ∃ path destination state, mapping.get? path = some destination
      ∧ capture.paths.get? path = some state ∧ change = stateChange destination state := by
  obtain ⟨path, -, destination, state, hpath, hstate, rfl⟩ := mem_capturedChanges.mp h
  exact ⟨path, destination, state, hpath, hstate, rfl⟩

theorem length_changes_le (hsound : capture.Sound) (hbound : capture.paths.size ≤ maxFiles) :
    (sentChangeset capture mapping).changes.length ≤ maxFiles := by
  have hchanged : capture.changedPaths.size ≤ capture.paths.keySet.size := by
    apply BTreeSet.size_le_of_subset
    intro path hpath
    obtain ⟨state, hstate, -⟩ := (hsound.changed path).mp hpath
    exact BTreeMap.mem_keySet_iff.mpr ⟨state, hstate⟩
  rw [BTreeMap.size_keySet] at hchanged
  have hfilter : (sentChangeset capture mapping).changes.length ≤ capture.changedPaths.elems.length :=
    List.length_filterMap_le _ _
  have hsize : capture.changedPaths.size = capture.changedPaths.elems.length := rfl
  omega

/-- A map with nothing outside the mapped places has no more entries than a capture. -/
theorem size_le_of_mapped {β : Type} {m : BTreeMap RepoPath β}
    (hkeys : ∀ path destination, mapping.get? path = some destination →
      ∃ state, capture.paths.get? path = some state)
    (h : ∀ p, (∀ path, mapping.get? path ≠ some p) → m.get? p = none) :
    m.size ≤ capture.paths.size := by
  have hplaces : m.keySet.size ≤ (BTreeSet.ofList mapping.values).size := by
    apply BTreeSet.size_le_of_subset
    intro p hp
    obtain ⟨v, hv⟩ := BTreeMap.mem_keySet_iff.mp hp
    rw [BTreeSet.mem_ofList, BTreeMap.mem_values_iff]
    by_contra hnone
    rw [h p fun path hpath => hnone ⟨path, hpath⟩] at hv
    cases hv
  have hvalues : (BTreeSet.ofList mapping.values).size ≤ mapping.size := by
    rw [BTreeSet.size_ofList]
    refine (List.toFinset_card_le _).trans ?_
    exact le_of_eq (List.length_map ..)
  have hmapped : mapping.keySet.size ≤ capture.paths.keySet.size := by
    apply BTreeSet.size_le_of_subset
    intro path hpath
    obtain ⟨destination, hdestination⟩ := BTreeMap.mem_keySet_iff.mp hpath
    exact BTreeMap.mem_keySet_iff.mpr (hkeys path destination hdestination)
  rw [BTreeMap.size_keySet] at hplaces hmapped
  rw [BTreeMap.size_keySet] at hmapped
  omega

section

variable (hdigest : ∀ bytes, (Sha256.digest bytes).length = 32)

include hdigest

theorem plain_of_mem_changes (hsound : capture.Sound) :
    ∀ change ∈ (sentChangeset capture mapping).changes, Plain change := by
  intro change hchange
  obtain ⟨path, destination, state, -, hstate, rfl⟩ := exists_of_mem_changes hchange
  exact ⟨stateChange_legal (hsound.present path state hstate), rfl,
    validateOptionalBlob_map hdigest state.before, validateOptionalBlob_map hdigest state.after⟩

theorem wellFormed_sentChangeset (hsound : capture.Sound) (hmapping : MapsApart mapping) :
    WellFormed (sentChangeset capture mapping).changes := by
  have hplain := @plain_of_mem_changes _ _ mapping hdigest hsound
  refine ⟨fun c hc => (hplain c hc).legal,
    pairwise_capturedChanges hmapping capture.changedPaths.nodup_elems, ?_, ?_⟩
  · refine List.pairwise_of_forall_mem_list ?_
    intro a ha b hb path hpath
    rw [(hplain a ha).source] at hpath
    cases hpath
  · intro a ha b hb hpath
    rw [(hplain a ha).source] at hpath
    cases hpath

/-- The tree of the host's listing: a file at each place that had one before. -/
theorem Sent.exists_baseline (hsent : Sent capture mapping prepared) :
    ∃ baseline, (∀ preconditions requested, treeFromListing
        ⟨prepared.workspace.entries.entries.map listedEntry, false⟩ .workspace preconditions requested
          = .ok baseline)
      ∧ (∀ path destination, mapping.get? path = some destination →
        ∃ state, capture.paths.get? path = some state
          ∧ baseline.at_ destination = fileAt state.before)
      ∧ ∀ p, (∀ path, mapping.get? path ≠ some p) → baseline.at_ p = (none, none) := by
  have hvalid : ∀ e ∈ prepared.workspace.entries.entries.map listedEntry,
      validateBlobRef e.blobId = .ok () := by
    intro e he
    obtain ⟨⟨p, blob⟩, hmem, rfl⟩ := List.mem_map.mp he
    have hget := BTreeMap.mem_entries_iff.mp hmem
    obtain ⟨path, hpath⟩ := hsent.exists_of_listed hget
    obtain ⟨state, -, hstate⟩ := hsent.mapped path p hpath
    rw [hget] at hstate
    obtain ⟨before, -, hbefore⟩ := Option.map_eq_some_iff.mp hstate.symm
    show validateBlobRef blob = .ok ()
    rw [← hbefore, before.valid]
    exact validateBlobRef_blobRef hdigest before.bytes
  have happart : (prepared.workspace.entries.entries.map listedEntry).Pairwise
      fun a b => a.path ≠ b.path := by
    rw [List.pairwise_map]
    exact prepared.workspace.entries.sorted.imp ne_of_lt
  have hcount : (prepared.workspace.entries.entries.map listedEntry).length ≤ maxFiles := by
    rw [List.length_map]
    exact hsent.size
  obtain ⟨baseline, htree, hmem, hother⟩ := treeFromListing_of_apart hcount hvalid happart
  have hunlisted : ∀ p, prepared.workspace.entries.get? p = none → baseline.at_ p = (none, none) := by
    intro p hp
    refine hother p ?_
    intro e he heq
    obtain ⟨entry, hentry, rfl⟩ := List.mem_map.mp he
    cases heq
    have hget := BTreeMap.mem_entries_iff.mp hentry
    rw [show (listedEntry entry).path = entry.1 from rfl] at hp
    rw [hget] at hp
    cases hp
  refine ⟨baseline, htree, ?_, fun p hp => hunlisted p (hsent.other p hp)⟩
  intro path destination hpath
  obtain ⟨state, hstate, hget⟩ := hsent.mapped path destination hpath
  refine ⟨state, hstate, ?_⟩
  cases hbefore : state.before with
  | none =>
    rw [hbefore] at hget
    exact hunlisted destination hget
  | some before =>
    rw [hbefore] at hget
    exact hmem _ (List.mem_map_of_mem (BTreeMap.mem_entries_iff.mpr hget))

/-- The captured changes take the views from before to the views after. -/
theorem encodes_of_baseline (hsound : capture.Sound) (hmapping : MapsApart mapping)
    {baseline after : TreeState}
    (hmapped : ∀ path destination, mapping.get? path = some destination →
      ∃ state, capture.paths.get? path = some state ∧ baseline.at_ destination = fileAt state.before)
    (hother : ∀ p, (∀ path, mapping.get? path ≠ some p) → baseline.at_ p = (none, none))
    (hafter : ∀ p, after.at_ p = Updates.settle Change.touch p (baseline.at_ p)
      (sentChangeset capture mapping).changes) :
    Encodes capture mapping baseline after := by
  have hwellFormed := wellFormed_sentChangeset hdigest hsound hmapping
  -- A change touches only its own path, since it moves no file.
  have htouch : ∀ p, (∀ change ∈ (sentChangeset capture mapping).changes, change.path ≠ p) →
      after.at_ p = baseline.at_ p := by
    intro p hp
    rw [hafter p]
    apply Updates.settle_of_untouched
    intro change hchange
    refine Change.touch_eq_none_iff.mpr ⟨hp change hchange, ?_⟩
    rw [(plain_of_mem_changes hdigest hsound change hchange).source]
    exact nofun
  refine ⟨?_, ?_⟩
  · intro path destination hpath
    obtain ⟨state, hstate, hbefore⟩ := hmapped path destination hpath
    refine ⟨state, hstate, hbefore, ?_⟩
    by_cases hchanged : path ∈ capture.changedPaths
    · have hmem : stateChange destination state ∈ (sentChangeset capture mapping).changes :=
        mem_capturedChanges.mpr ⟨path, hchanged, destination, state, hpath, hstate, rfl⟩
      have hleaves : (stateChange destination state).touch destination
          = some (fileAt state.after) := by
        have hself : destination = (stateChange destination state).path := rfl
        unfold Change.touch
        rw [if_pos hself, written_stateChange, Option.map_map]
        rfl
      rw [hafter destination, Updates.settle_of_mem hwellFormed.disjoint hmem hleaves]
    · have hsame : state.before.map NativeBlob.blobId = state.after.map NativeBlob.blobId := by
        by_contra hne
        exact hchanged ((hsound.changed path).mpr ⟨state, hstate, hne⟩)
      rw [htouch destination, hbefore]
      · obtain ⟨before, after⟩ := state
        cases before <;> cases after <;> simp_all [fileAt]
      · intro change hchange heq
        obtain ⟨path', hpath', d, state', hd, -, rfl⟩ := mem_capturedChanges.mp hchange
        cases (show d = destination from heq)
        rw [hmapping path path' destination hpath hd] at hchanged
        exact hchanged hpath'
  · intro p hp
    refine ⟨hother p hp, ?_⟩
    rw [htouch p, hother p hp]
    intro change hchange heq
    obtain ⟨path, d, state, hd, -, rfl⟩ := exists_of_mem_changes hchange
    exact hp path (hd.trans (congrArg some heq))

/-- Where every mapped path can be sent, the provider rebuilds the capture. -/
theorem Sent.exists_trees [Build] (hsent : Sent capture mapping prepared)
    (hsound : capture.Sound) (hrev : capture.baselineRev ≠ [])
    (hbound : capture.paths.size ≤ maxFiles) (hmapping : MapsApart mapping)
    (hpaths : ∀ path destination, mapping.get? path = some destination →
      isProtocolPath destination = true) (profile : ProviderProfile) :
    ∃ baseline after, providerTrees profile prepared = .ok (baseline, after)
      ∧ Encodes capture mapping baseline after := by
  have hplain := @plain_of_mem_changes _ _ mapping hdigest hsound
  obtain ⟨baseline, hlisting, hmapped, hother⟩ := hsent.exists_baseline hdigest
  obtain ⟨after, happly, hafter⟩ :=
    foldlM_applyChange (fun c hc => (hplain c hc).legal) baseline
  have hencodes := encodes_of_baseline hdigest hsound hmapping hmapped hother hafter
  have hkeys : ∀ path destination, mapping.get? path = some destination →
      ∃ state, capture.paths.get? path = some state := by
    intro path destination hpath
    obtain ⟨state, hstate, -⟩ := hencodes.mapped path destination hpath
    exact ⟨state, hstate⟩
  refine ⟨baseline, after, (providerTrees_ok_iff hsent).mpr ⟨?_, ?_, ?_, ?_⟩, hencodes⟩
  · rw [List.all_eq_true]
    intro change hchange
    obtain ⟨path, destination, state, hpath, -, rfl⟩ := exists_of_mem_changes hchange
    exact hpaths path destination hpath
  · rw [List.all_eq_true]
    rintro ⟨p, blob⟩ hmem
    obtain ⟨path, hpath⟩ := hsent.exists_of_listed (BTreeMap.mem_entries_iff.mp hmem)
    exact hpaths path p hpath
  · exact validateChangeset_of_plain hrev hplain
      (pairwise_capturedChanges hmapping capture.changedPaths.nodup_elems)
      (length_changes_le hsound hbound)
  · refine treesOfListing_of_ok hlisting ?_ happly ?_ ?_
    · intro change hchange
      obtain ⟨path, destination, state, hpath, hstate, rfl⟩ := exists_of_mem_changes hchange
      obtain ⟨state', hstate', hbefore⟩ := hmapped path destination hpath
      cases hstate.symm.trans hstate'
      exact validateChangePrecondition_stateChange (congrArg Prod.fst hbefore)
    · exact (size_le_of_mapped hkeys fun p hp => congrArg Prod.fst (hencodes.other p hp).1).trans hbound
    · exact (size_le_of_mapped hkeys fun p hp => congrArg Prod.fst (hencodes.other p hp).2).trans hbound

end

/-- Trees are rebuilt only where every mapped path can be sent: a path with a file
    before is listed, and one without is created. -/
theorem Sent.isProtocolPath_of_trees [Build] (hsent : Sent capture mapping prepared)
    (hsound : capture.Sound) {profile : ProviderProfile} {trees : TreeState × TreeState}
    (h : providerTrees profile prepared = .ok trees) {path destination : RepoPath}
    (hpath : mapping.get? path = some destination) : isProtocolPath destination = true := by
  obtain ⟨hchanges, hlisted, -, -⟩ := (providerTrees_ok_iff hsent).mp h
  obtain ⟨state, hstate, hget⟩ := hsent.mapped path destination hpath
  cases hbefore : state.before with
  | some before =>
    rw [hbefore] at hget
    exact List.all_eq_true.mp hlisted _ (BTreeMap.mem_entries_iff.mpr hget)
  | none =>
    have hafter : state.after ≠ none :=
      (hsound.present path state hstate).resolve_left (not_not.mpr hbefore)
    have hchanged : path ∈ capture.changedPaths := by
      refine (hsound.changed path).mpr ⟨state, hstate, ?_⟩
      intro heq
      rw [hbefore] at heq
      exact hafter (Option.map_eq_none_iff.mp heq.symm)
    exact List.all_eq_true.mp hchanges _
      (mem_capturedChanges.mpr ⟨path, hchanged, destination, state, hpath, hstate, rfl⟩)

end

/-- Every captured path of a root's workspace can be sent: seen from its project
    context it is UTF-8 without a backslash. -/
def Sendable (capture : GitNativeCapture) (root : WorkspaceRoot) (profile : ProviderProfile) : Prop :=
  ∀ path ∈ capture.paths.keys,
    inWorkspace root (projectContext capture root profile) profile path = true →
    ∀ destination, rebasePath path (projectContext capture root profile) = some destination →
      isProtocolPath destination = true

/-- The host's listing and changeset encode a capture: the paths are mapped apart,
    and the provider rebuilds both views and nothing else exactly when every path
    of the workspace can be sent.  A capture has at most `maxFiles` paths. -/
theorem hostInput_encodes_iff [Build] (hdigest : ∀ bytes, (Sha256.digest bytes).length = 32)
    {before after : BTreeMap RepoPath NativeBlob} {baselineTree : Str} {roots : List RepoPath}
    {filter : NativeCaptureFilter} (hbound : (allPaths before after).size ≤ maxFiles)
    {root : WorkspaceRoot} {profile : ProviderProfile} {comparison : Str} {verify : Value}
    {prepared : PreparedRoot}
    (h : hostInput (buildCapture before after baselineTree roots filter) root profile comparison verify
      = .ok prepared) :
    ∃ mapping, workspaceMapping (buildCapture before after baselineTree roots filter) root
        (projectContext (buildCapture before after baselineTree roots filter) root profile) profile
          = .ok mapping
      ∧ MapsApart mapping
      ∧ ((∃ baselineState afterState,
          providerTrees profile prepared = .ok (baselineState, afterState)
            ∧ Encodes (buildCapture before after baselineTree roots filter) mapping baselineState
              afterState)
        ↔ Sendable (buildCapture before after baselineTree roots filter) root profile) := by
  obtain ⟨mapping, hmapping, hsent⟩ := hostInput_ok h
  have hsound := buildCapture_sound before after baselineTree roots filter
  have hapart := mapsApart_workspaceMapping hmapping
  have hsize : (buildCapture before after baselineTree roots filter).paths.size ≤ maxFiles := by
    refine le_trans ?_ hbound
    rw [← BTreeMap.size_keySet]
    apply BTreeSet.size_le_of_subset
    intro path hpath
    exact BTreeSet.mem_union.mpr (mem_keySet_buildCapture.mp hpath)
  refine ⟨mapping, hmapping, hapart, ?_, ?_⟩
  · rintro ⟨baseline, final, htrees, -⟩ path hpath hin destination hdestination
    have hmapped : mapping.get? path = some destination := by
      rw [get?_workspaceMapping hmapping, if_pos ⟨hpath, hin⟩]
      exact hdestination
    exact hsent.isProtocolPath_of_trees hsound htrees hmapped
  · intro hsendable
    refine hsent.exists_trees hdigest hsound ?_ hsize hapart ?_ profile
    · exact List.append_ne_nil_of_left_ne_nil (by decide) _
    · intro path destination hpath
      rw [get?_workspaceMapping hmapping] at hpath
      split_ifs at hpath with hin
      exact hsendable path hin.1 hin.2 destination hpath

end

/-- A project in `pkg`: one file modified, one deleted, one created, one kept. -/
def sampleBefore : @BTreeMap RepoPath (@NativeBlob sampleDigest) _ :=
  .ofList [(⟨ascii "pkg/a.py", by decide⟩, @NativeBlob.new sampleDigest []),
    (⟨ascii "pkg/b.py", by decide⟩, @NativeBlob.new sampleDigest (ascii "x")),
    (⟨ascii "pkg/pyproject.toml", by decide⟩, @NativeBlob.new sampleDigest [])]

def sampleAfter : @BTreeMap RepoPath (@NativeBlob sampleDigest) _ :=
  .ofList [(⟨ascii "pkg/a.py", by decide⟩, @NativeBlob.new sampleDigest (ascii "x")),
    (⟨ascii "pkg/c.py", by decide⟩, @NativeBlob.new sampleDigest []),
    (⟨ascii "pkg/pyproject.toml", by decide⟩, @NativeBlob.new sampleDigest [])]

def sampleCapture : @GitNativeCapture sampleDigest :=
  @buildCapture sampleDigest sampleBefore sampleAfter (ascii "0a") [] { python := true }

def packageRoot : WorkspaceRoot := ⟨ascii "pkg", some ⟨ascii "pkg", by decide⟩⟩

def sampleInput (capture : @GitNativeCapture sampleDigest) (root : WorkspaceRoot) :
    Except Str PreparedRoot :=
  @hostInput sampleDigest capture root .pythonNative (ascii "introduced") .null

theorem sampleDigest_length (bytes : Str) : (@Sha256.digest sampleDigest bytes).length = 32 := by
  show (if bytes = [] then _ else _ : Str).length = 32
  split_ifs <;> rfl

theorem hostInput_encodes_package :
    ∃ prepared mapping baseline after, sampleInput sampleCapture packageRoot = .ok prepared
      ∧ @providerTrees Server.bareBuild .pythonNative prepared = .ok (baseline, after)
      ∧ @Encodes sampleDigest sampleCapture mapping baseline after := by
  have hrun : (sampleInput sampleCapture packageRoot).isOk = true := by decide +kernel
  have hpaths : @Sendable sampleDigest sampleCapture packageRoot .pythonNative := by
    have hall : (@GitNativeCapture.paths sampleDigest sampleCapture).keys.all (fun path =>
        (rebasePath path (@projectContext sampleDigest sampleCapture packageRoot .pythonNative)).all
          isProtocolPath) = true := by decide +kernel
    intro path hpath _ destination hdestination
    have := List.all_eq_true.mp hall path hpath
    rw [hdestination] at this
    exact this
  cases hinput : sampleInput sampleCapture packageRoot with
  | error error =>
    rw [hinput] at hrun
    cases hrun
  | ok prepared =>
    obtain ⟨mapping, -, -, hiff⟩ := @hostInput_encodes_iff sampleDigest Server.bareBuild
      sampleDigest_length sampleBefore sampleAfter (ascii "0a") [] { python := true }
      (by decide +kernel) packageRoot .pythonNative (ascii "introduced") .null prepared hinput
    obtain ⟨baseline, after, htrees, hencodes⟩ := hiff.mpr hpaths
    exact ⟨prepared, mapping, baseline, after, rfl, htrees, hencodes⟩

/-- A repository with a new file whose name is not UTF-8. -/
def namedRepository : NativeRepository where
  baselineTree := ascii "0a"
  before := .ofList [(⟨ascii "pyproject.toml", by decide⟩, [])]
  listed := .ofList [⟨ascii "bad-" ++ [255] ++ ascii ".py", by decide⟩,
    ⟨ascii "pyproject.toml", by decide⟩]
  after := .ofList [(⟨ascii "bad-" ++ [255] ++ ascii ".py", by decide⟩, ascii "x"),
    (⟨ascii "pyproject.toml", by decide⟩, [])]
  targets := ⟨[]⟩

/-- The capture of that repository and the input made from it. -/
def namedRun : Option ((@GitNativeCapture sampleDigest) × PreparedRoot) := do
  let capture ← (@NativeRepository.captureNative sampleDigest namedRepository []
    { python := true }).toOption
  (sampleInput capture repositoryRoot).toOption.map fun prepared => (capture, prepared)

/-- The host captures and sends the file; the provider refuses the changeset. -/
theorem hostInput_refused :
    ∃ capture prepared,
      @NativeRepository.captureNative sampleDigest namedRepository [] { python := true }
        = .ok capture
      ∧ sampleInput capture repositoryRoot = .ok prepared
      ∧ ∀ trees, @providerTrees Server.bareBuild .pythonNative prepared ≠ .ok trees := by
  have hrun : namedRun.isSome = true := by decide +kernel
  have hrefused : namedRun.all (fun run =>
      !(@providerTrees Server.bareBuild .pythonNative run.2).isOk) = true := by decide +kernel
  obtain ⟨⟨capture, prepared⟩, hsome⟩ := Option.isSome_iff_exists.mp hrun
  rw [hsome] at hrefused
  unfold namedRun at hsome
  obtain ⟨capture', hcapture, h⟩ := Option.bind_eq_some_iff.mp hsome
  obtain ⟨prepared', hprepared, h⟩ := Option.map_eq_some_iff.mp h
  cases h
  refine ⟨capture, prepared, Except.toOption_eq_some_iff.mp hcapture,
    Except.toOption_eq_some_iff.mp hprepared, ?_⟩
  intro trees htrees
  have hfailed : (!(@providerTrees Server.bareBuild .pythonNative prepared).isOk) = true := hrefused
  rw [htrees] at hfailed
  cases hfailed

end Opcore
