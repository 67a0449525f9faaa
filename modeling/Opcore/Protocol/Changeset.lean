/-
  Opcore.Protocol.Changeset

  Changesets of an evaluation request: their validation, the preconditions on
  the baseline they apply to, and their application to a tree of blob
  references.
-/
import Opcore.Library.BTreeMap
import Opcore.Library.Fallible
import Opcore.Library.Updates
import Opcore.Model
import Opcore.Protocol.Session

namespace Opcore.Asp

open Text Collections

/-! ## Changes -/

inductive ChangeKind where
  | create
  | modify
  | delete
  | rename
  deriving DecidableEq

def ChangeKind.debug : ChangeKind → Str
  | .create => ascii "Create"
  | .modify => ascii "Modify"
  | .delete => ascii "Delete"
  | .rename => ascii "Rename"

/-- A change; `source` is the field `from`. -/
structure Change where
  path : RepoPath
  kind : ChangeKind
  source : Option RepoPath
  before : Option Str
  after : Option Str
  deriving DecidableEq

structure ChangeSet where
  baseline : Baseline
  changes : List Change

def illegalChange (change : Change) : RpcFailure :=
  .input (ascii "illegal fields for " ++ change.kind.debug ++ ascii " change at "
    ++ change.path.displayLossless)

/-! ## Validation -/

def invalidBlobRef (value : Str) : RpcFailure := .input (ascii "invalid blob ref " ++ value)

def isBlobAlgorithmByte (b : UInt8) : Bool := (byte 'a' ≤ b ∧ b ≤ byte 'z' : Bool) || isAsciiDigit b

def isBlobDigestByte (b : UInt8) : Bool := (byte 'a' ≤ b ∧ b ≤ byte 'f' : Bool) || isAsciiDigit b

def validateBlobRef (value : Str) : Except RpcFailure Unit :=
  match (stripPrefix (ascii "blob:") value).bind (splitOnce (byte ':')) with
  | none => .error (invalidBlobRef value)
  | some (algorithm, digest) =>
    if algorithm = [] ∨ ¬ algorithm.all isBlobAlgorithmByte ∨ digest = []
        ∨ ¬ digest.all isBlobDigestByte then
      .error (invalidBlobRef value)
    else .ok ()

def validateOptionalBlob : Option Str → Except RpcFailure Unit
  | none => .ok ()
  | some blob => validateBlobRef blob

/-- The rename sources seen so far, with the one of this change. -/
def validateRename (change : Change) (sources : BTreeSet RepoPath) :
    Except RpcFailure (BTreeSet RepoPath) :=
  match change.source with
  | none => .error (illegalChange change)
  | some source =>
    if source = change.path then
      .error (.input (ascii "rename source and destination are identical"))
    else if source ∈ sources then
      .error (.input (ascii "duplicate rename source " ++ source.displayLossless))
    else .ok (sources.insert source)

/-- A change has the fields of its kind and no others, and its blobs are references. -/
def validateChange (change : Change) (sources : BTreeSet RepoPath) :
    Except RpcFailure (BTreeSet RepoPath) := do
  let sources ←
    match change.kind, change.before.isSome, change.after.isSome, change.source.isSome with
    | .create, false, true, false | .modify, true, true, false | .delete, true, false, false =>
      .ok sources
    | .rename, true, _, true => validateRename change sources
    | _, _, _, _ => .error (illegalChange change)
  validateOptionalBlob change.before
  validateOptionalBlob change.after
  return sources

/-- The loop of `validate_changeset`: all destinations and all rename sources. -/
def validateChanges (destinations sources : BTreeSet RepoPath) :
    List Change → Except RpcFailure (BTreeSet RepoPath × BTreeSet RepoPath)
  | [] => .ok (destinations, sources)
  | change :: changes =>
    if change.path ∈ destinations then
      .error (.input (ascii "duplicate change destination " ++ change.path.displayLossless))
    else
      match validateChange change sources with
      | .error error => .error error
      | .ok sources => validateChanges (destinations.insert change.path) sources changes

/-- What a changeset must be on its own: no path twice, and none both source and destination. -/
def validateChangeset (changeset : ChangeSet) : Except RpcFailure Unit := do
  changeset.baseline.validateTimestamp
  if changeset.baseline.rev = [] then
    .error (.input (ascii "changeset baseline rev is empty"))
  if maxFiles < changeset.changes.length then
    .error (.input (ascii "changeset exceeds 10000 changes"))
  let (destinations, sources) ← validateChanges ∅ ∅ changeset.changes
  if destinations.elems.any fun path => path ∈ sources then
    .error (.input (ascii "a path cannot be both a change destination and rename source"))

/-! ## Trees -/

inductive EntryKind where
  | file
  | dir
  | symlink
  deriving DecidableEq

/-- The blobs and kinds of the paths of a workspace. -/
structure TreeState where
  entries : BTreeMap RepoPath Str
  kinds : BTreeMap RepoPath EntryKind

namespace TreeState

def write (tree : TreeState) (path : RepoPath) (blob : Str) : TreeState :=
  ⟨tree.entries.insert path blob, tree.kinds.insert path .file⟩

/-- `remove_tree_path`. -/
def remove (tree : TreeState) (path : RepoPath) : TreeState :=
  ⟨tree.entries.erase path, tree.kinds.erase path⟩

end TreeState

/-- A rename takes the content after, or else the one before, to the new path. -/
def applyRename (tree : TreeState) (change : Change) : Except RpcFailure TreeState :=
  match change.source with
  | none => .error (illegalChange change)
  | some source =>
    match change.after <|> change.before with
    | none => .error (illegalChange change)
    | some blob => .ok ((tree.remove source).write change.path blob)

/-- One change of a tree; a change without the blob that its kind needs is refused. -/
def applyChange (tree : TreeState) (change : Change) : Except RpcFailure TreeState :=
  match change.kind with
  | .create | .modify =>
    match change.after with
    | none => .error (illegalChange change)
    | some blob => .ok (tree.write change.path blob)
  | .delete => .ok (tree.remove change.path)
  | .rename => applyRename tree change

/-- The tree after the changes, one by one in the order of the changeset. -/
def applyChanges (baseline : TreeState) (changeset : ChangeSet) : Except RpcFailure TreeState :=
  changeset.changes.foldlM applyChange baseline

/-! ## Preconditions -/

section Preconditions

variable (baseline : BTreeMap RepoPath Str)

def requireBefore (path : RepoPath) (expected : Option Str) (label : Str) :
    Except RpcFailure Unit :=
  if baseline.get? path ≠ expected then
    .error (.health (label ++ ascii " does not match baseline for " ++ path.displayLossless))
  else .ok ()

def requireAbsent (path : RepoPath) (label : Str) : Except RpcFailure Unit :=
  if baseline.contains path then
    .error (.input (label ++ ascii " already exists: " ++ path.displayLossless))
  else .ok ()

def validateRenamePrecondition (change : Change) : Except RpcFailure Unit := do
  let some source := change.source | .error (illegalChange change)
  requireBefore baseline source change.before (ascii "rename before blob")
  requireAbsent baseline change.path (ascii "rename destination")

def validateChangePrecondition (change : Change) : Except RpcFailure Unit :=
  match change.kind with
  | .create => requireAbsent baseline change.path (ascii "create destination")
  | .modify | .delete => requireBefore baseline change.path change.before (ascii "before blob")
  | .rename => validateRenamePrecondition baseline change

def validateAllChangePreconditions (changeset : ChangeSet) : Except RpcFailure Unit :=
  changeset.changes.forM (validateChangePrecondition baseline)

end Preconditions

/-! ## What validation guarantees -/

/-- The fields of a change fit its kind. -/
def Change.Legal (change : Change) : Prop :=
  match change.kind with
  | .create => change.source = none ∧ change.before = none ∧ change.after.isSome
  | .modify => change.source = none ∧ change.before.isSome ∧ change.after.isSome
  | .delete => change.source = none ∧ change.before.isSome ∧ change.after = none
  | .rename => change.source.isSome ∧ change.before.isSome

/-- Legal changes that touch pairwise different paths: no two have one
    destination or one source, and no source is a destination. -/
structure WellFormed (changes : List Change) : Prop where
  legal : ∀ change ∈ changes, change.Legal
  destinations : changes.Pairwise fun a b => a.path ≠ b.path
  sources : changes.Pairwise fun a b => ∀ path, a.source = some path → b.source ≠ some path
  apart : ∀ a ∈ changes, ∀ b ∈ changes, a.source ≠ some b.path

variable {change : Change}

theorem validateRename_ok {sources sources' : BTreeSet RepoPath}
    (h : validateRename change sources = .ok sources') :
    ∃ source, change.source = some source ∧ source ∉ sources ∧ sources' = sources.insert source := by
  unfold validateRename at h
  split at h
  · cases h
  · next source hsource =>
    split_ifs at h with hsame hseen
    cases h
    exact ⟨source, hsource, hseen, rfl⟩

/-- One validated change: its shape, and what it adds to the rename sources. -/
theorem validateChange_ok {sources sources' : BTreeSet RepoPath}
    (h : validateChange change sources = .ok sources') :
    change.Legal
      ∧ ((change.source = none ∧ sources' = sources)
        ∨ ∃ source, change.source = some source ∧ source ∉ sources
          ∧ sources' = sources.insert source) := by
  obtain ⟨path, kind, source, before, after⟩ := change
  have hblobs : ∀ {sources'' : BTreeSet RepoPath}, (do
      validateOptionalBlob before
      validateOptionalBlob after
      return sources'' : Except RpcFailure (BTreeSet RepoPath)) = .ok sources' →
      sources' = sources'' := by
    intro sources'' hok
    cases hbefore : validateOptionalBlob before with
    | error error => rw [hbefore] at hok; cases hok
    | ok =>
      rw [hbefore] at hok
      cases hafter : validateOptionalBlob after with
      | error error => rw [hafter] at hok; cases hok
      | ok => rw [hafter] at hok; cases hok; rfl
  -- Each kind refuses all but one shape of source and blobs.
  cases kind with
  | create =>
    cases source with
    | some source => cases before <;> cases after <;> cases h
    | none =>
      cases before with
      | some before => cases after <;> cases h
      | none =>
        cases after with
        | none => cases h
        | some after => exact ⟨⟨rfl, rfl, rfl⟩, .inl ⟨rfl, hblobs h⟩⟩
  | modify =>
    cases source with
    | some source => cases before <;> cases after <;> cases h
    | none =>
      cases before with
      | none => cases after <;> cases h
      | some before =>
        cases after with
        | none => cases h
        | some after => exact ⟨⟨rfl, rfl, rfl⟩, .inl ⟨rfl, hblobs h⟩⟩
  | delete =>
    cases source with
    | some source => cases before <;> cases after <;> cases h
    | none =>
      cases before with
      | none => cases after <;> cases h
      | some before =>
        cases after with
        | some after => cases h
        | none => exact ⟨⟨rfl, rfl, rfl⟩, .inl ⟨rfl, hblobs h⟩⟩
  | rename =>
    cases source with
    | none => cases before <;> cases after <;> cases h
    | some source =>
      cases before with
      | none => cases after <;> cases h
      | some before =>
        refine ⟨⟨rfl, rfl⟩, .inr ?_⟩
        cases hrename : validateRename ⟨path, .rename, some source, some before, after⟩ sources with
        | error error => simp [validateChange, hrename, bind, Except.bind] at h
        | ok renamed =>
          simp only [validateChange, Option.isSome_some, hrename] at h
          have : sources' = renamed := hblobs h
          subst this
          exact validateRename_ok hrename

variable {changes : List Change}

/-- The loop accepts only changes that are apart from each other and from what it
    has seen before, and returns everything it has seen. -/
theorem validateChanges_ok {destinations sources destinations' sources' : BTreeSet RepoPath}
    (h : validateChanges destinations sources changes = .ok (destinations', sources')) :
    (∀ change ∈ changes, change.Legal)
      ∧ changes.Pairwise (fun a b => a.path ≠ b.path)
      ∧ changes.Pairwise (fun a b => ∀ path, a.source = some path → b.source ≠ some path)
      ∧ (∀ change ∈ changes, ∀ path, change.source = some path → path ∉ sources)
      ∧ (∀ change ∈ changes, change.path ∉ destinations)
      ∧ (∀ path, path ∈ destinations' ↔ path ∈ destinations ∨ ∃ c ∈ changes, c.path = path)
      ∧ ∀ path, path ∈ sources' ↔ path ∈ sources ∨ ∃ c ∈ changes, c.source = some path := by
  induction changes generalizing destinations sources with
  | nil =>
    simp only [validateChanges, Except.ok.injEq, Prod.mk.injEq] at h
    obtain ⟨rfl, rfl⟩ := h
    simp
  | cons change changes ih =>
    simp only [validateChanges] at h
    split_ifs at h with hseen
    split at h
    · cases h
    · next sources₁ hchange =>
      obtain ⟨hlegal, hsource⟩ := validateChange_ok hchange
      obtain ⟨hl, hd, hs, hfresh, hnew, hdest, hsrc⟩ := ih h
      -- What the first change adds to the sources is all the others have to avoid.
      have hsources₁ : ∀ path, path ∈ sources₁ ↔ path ∈ sources ∨ change.source = some path := by
        intro path
        rcases hsource with ⟨hnone, rfl⟩ | ⟨source, hsome, -, rfl⟩
        · simp [hnone]
        · rw [BTreeSet.mem_insert, hsome, Option.some.injEq, eq_comm, or_comm]
      refine ⟨?_, ?_, ?_, ?_, ?_, ?_, ?_⟩
      · intro c hc
        rcases List.mem_cons.mp hc with rfl | hc
        · exact hlegal
        · exact hl c hc
      · refine List.pairwise_cons.mpr ⟨?_, hd⟩
        intro c hc heq
        exact hnew c hc (BTreeSet.mem_insert.mpr (.inl heq.symm))
      · refine List.pairwise_cons.mpr ⟨?_, hs⟩
        intro c hc path hpath hcpath
        exact hfresh c hc path hcpath ((hsources₁ path).mpr (.inr hpath))
      · intro c hc path hpath hmem
        rcases List.mem_cons.mp hc with rfl | hc
        · rcases hsource with ⟨hnone, -⟩ | ⟨source, hsome, hunseen, -⟩
          · rw [hnone] at hpath
            cases hpath
          · rw [hsome] at hpath
            cases hpath
            exact hunseen hmem
        · exact hfresh c hc path hpath ((hsources₁ path).mpr (.inl hmem))
      · intro c hc hmem
        rcases List.mem_cons.mp hc with rfl | hc
        · exact hseen hmem
        · exact hnew c hc (BTreeSet.mem_insert.mpr (.inr hmem))
      · intro path
        rw [hdest path, BTreeSet.mem_insert]
        simp only [List.mem_cons, exists_eq_or_imp]
        tauto
      · intro path
        rw [hsrc path, hsources₁ path]
        simp only [List.mem_cons, exists_eq_or_imp]
        tauto

theorem wellFormed_of_validateChangeset {changeset : ChangeSet}
    (h : validateChangeset changeset = .ok ()) : WellFormed changeset.changes := by
  unfold validateChangeset at h
  cases htime : changeset.baseline.validateTimestamp with
  | error error => rw [htime] at h; cases h
  | ok =>
    rw [htime] at h
    simp only [bind, Except.bind] at h
    split_ifs at h with hrev hmany
    cases hloop : validateChanges ∅ ∅ changeset.changes with
    | error error => rw [hloop] at h; cases h
    | ok result =>
      obtain ⟨destinations, sources⟩ := result
      rw [hloop] at h
      simp only at h
      split_ifs at h with hshared
      obtain ⟨hl, hd, hs, -, -, hdest, hsrc⟩ := validateChanges_ok hloop
      refine ⟨hl, hd, hs, ?_⟩
      intro a ha b hb hab
      apply hshared
      rw [List.any_eq_true]
      refine ⟨b.path, ?_, ?_⟩
      · exact (hdest b.path).mpr (.inr ⟨b, hb, rfl⟩)
      · simpa using (hsrc b.path).mpr (.inr ⟨a, ha, hab⟩)

/-! ## Application, one path at a time -/

namespace TreeState

/-- What a tree has at a path. -/
def at_ (tree : TreeState) (path : RepoPath) : Option Str × Option EntryKind :=
  (tree.entries.get? path, tree.kinds.get? path)

theorem ext_at {tree tree' : TreeState} (h : ∀ path, tree.at_ path = tree'.at_ path) :
    tree = tree' := by
  obtain ⟨entries, kinds⟩ := tree
  obtain ⟨entries', kinds'⟩ := tree'
  have hentries : entries = entries' := BTreeMap.ext_get? fun path => (Prod.mk.inj (h path)).1
  have hkinds : kinds = kinds' := BTreeMap.ext_get? fun path => (Prod.mk.inj (h path)).2
  rw [hentries, hkinds]

theorem at_write (tree : TreeState) (path p : RepoPath) (blob : Str) :
    (tree.write path blob).at_ p = if p = path then (some blob, some .file) else tree.at_ p := by
  simp only [at_, write, BTreeMap.get?_insert]
  split_ifs <;> rfl

theorem at_remove (tree : TreeState) (path p : RepoPath) :
    (tree.remove path).at_ p = if p = path then (none, none) else tree.at_ p := by
  simp only [at_, remove, BTreeMap.get?_erase]
  split_ifs <;> rfl

end TreeState

/-- The blob a change writes at its destination, if it writes one. -/
def Change.written (change : Change) : Option Str :=
  match change.kind with
  | .create | .modify => change.after
  | .delete => none
  | .rename => change.after <|> change.before

/-- What a change leaves at a path it touches. -/
def Change.touch (change : Change) (p : RepoPath) : Option (Option Str × Option EntryKind) :=
  if p = change.path then some (change.written, change.written.map fun _ => .file)
  else if change.source = some p then some (none, none)
  else none

theorem Change.touch_eq_none_iff {p : RepoPath} :
    change.touch p = none ↔ change.path ≠ p ∧ change.source ≠ some p := by
  unfold Change.touch
  split_ifs with hpath hsource
  · simp [hpath]
  · simp [hsource]
  · simp [Ne.symm hpath, hsource]

/-- One legal change applies, and does what it says at every path. -/
theorem applyChange_spec (hlegal : change.Legal) (tree : TreeState) :
    ∃ tree', applyChange tree change = .ok tree'
      ∧ ∀ p, tree'.at_ p = (change.touch p).getD (tree.at_ p) := by
  obtain ⟨path, kind, source, before, after⟩ := change
  have hwrite : ∀ blob, kind = .create ∨ kind = .modify → source = none → after = some blob →
      ∀ p, (tree.write path blob).at_ p
        = (Change.touch ⟨path, kind, source, before, after⟩ p).getD (tree.at_ p) := by
    rintro blob hkind rfl rfl p
    rw [TreeState.at_write]
    rcases hkind with rfl | rfl <;>
    · simp only [Change.touch, Change.written, reduceCtorEq, if_false]
      split_ifs <;> rfl
  cases kind with
  | create =>
    obtain ⟨hsource, -, hafter⟩ := hlegal
    obtain ⟨blob, rfl⟩ := Option.isSome_iff_exists.mp hafter
    exact ⟨_, rfl, hwrite blob (.inl rfl) hsource rfl⟩
  | modify =>
    obtain ⟨hsource, -, hafter⟩ := hlegal
    obtain ⟨blob, rfl⟩ := Option.isSome_iff_exists.mp hafter
    exact ⟨_, rfl, hwrite blob (.inr rfl) hsource rfl⟩
  | delete =>
    obtain ⟨rfl, -, -⟩ := hlegal
    refine ⟨_, rfl, ?_⟩
    intro p
    rw [TreeState.at_remove]
    simp only [Change.touch, Change.written, reduceCtorEq, if_false]
    split_ifs <;> rfl
  | rename =>
    obtain ⟨hsource, hbefore⟩ := hlegal
    obtain ⟨source, rfl⟩ := Option.isSome_iff_exists.mp hsource
    obtain ⟨old, rfl⟩ := Option.isSome_iff_exists.mp hbefore
    obtain ⟨blob, hblob⟩ : ∃ blob, (after <|> some old) = some blob := by
      cases after with
      | none => exact ⟨old, rfl⟩
      | some new => exact ⟨new, rfl⟩
    refine ⟨(tree.remove source).write path blob, ?_, ?_⟩
    · simp only [applyChange, applyRename, hblob]
    · intro p
      rw [TreeState.at_write, TreeState.at_remove]
      simp only [Change.touch, Change.written, hblob, Option.some.injEq]
      -- The new path wins over the old one.
      split_ifs with hp hs hs' hs'
      · rfl
      · rfl
      · exact absurd hs.symm hs'
      · exact absurd hs'.symm hs
      · rfl

/-- A list of legal changes applies, and leaves at every path what the last
    change that touches it says. -/
theorem foldlM_applyChange (hlegal : ∀ change ∈ changes, change.Legal) (tree : TreeState) :
    ∃ tree', changes.foldlM applyChange tree = .ok tree'
      ∧ ∀ p, tree'.at_ p = Updates.settle Change.touch p (tree.at_ p) changes := by
  induction changes generalizing tree with
  | nil => exact ⟨tree, rfl, fun _ => rfl⟩
  | cons change changes ih =>
    obtain ⟨next, hnext, hat⟩ := applyChange_spec (hlegal change List.mem_cons_self) tree
    obtain ⟨tree', htree', hat'⟩ := ih (fun c hc => hlegal c (List.mem_cons_of_mem _ hc)) next
    refine ⟨tree', ?_, ?_⟩
    · rw [List.foldlM_cons, hnext]
      exact htree'
    · intro p
      rw [hat' p, hat p, Updates.settle_cons]

/-- Changes that passed validation touch no path twice. -/
theorem WellFormed.disjoint (h : WellFormed changes) :
    Updates.Disjoint Change.touch changes := by
  have hboth := h.destinations.and h.sources
  refine hboth.imp_of_mem ?_
  intro a b ha hb hab p
  obtain ⟨hdest, hsrc⟩ := hab
  by_cases hatouch : a.touch p = none
  · exact .inl hatouch
  · right
    rw [Change.touch_eq_none_iff] at hatouch ⊢
    by_cases hpath : a.path = p
    · subst hpath
      exact ⟨fun h' => hdest h'.symm, h.apart b hb a ha⟩
    · have hsource : a.source = some p := by
        by_contra hne
        exact hatouch ⟨hpath, hne⟩
      refine ⟨?_, hsrc p hsource⟩
      rintro rfl
      exact h.apart a ha b hb hsource

/-! ## Exactness -/

/-- The tree a changeset is meant to leave: the baseline without deleted paths
    and rename sources, with every other destination a file of its blob. -/
structure Applied (baseline : TreeState) (changes : List Change) (after : TreeState) : Prop where
  created : ∀ change ∈ changes, change.kind = .create ∨ change.kind = .modify →
    ∃ blob, change.after = some blob ∧ after.entries.get? change.path = some blob
      ∧ after.kinds.get? change.path = some .file
  deleted : ∀ change ∈ changes, change.kind = .delete →
    after.entries.get? change.path = none ∧ after.kinds.get? change.path = none
  renamed : ∀ change ∈ changes, change.kind = .rename →
    (∃ blob, (change.after <|> change.before) = some blob
      ∧ after.entries.get? change.path = some blob ∧ after.kinds.get? change.path = some .file)
    ∧ ∃ source, change.source = some source
      ∧ after.entries.get? source = none ∧ after.kinds.get? source = none
  untouched : ∀ path, (∀ change ∈ changes, change.path ≠ path ∧ change.source ≠ some path) →
    after.entries.get? path = baseline.entries.get? path
      ∧ after.kinds.get? path = baseline.kinds.get? path

theorem WellFormed.applied (h : WellFormed changes) {baseline after : TreeState}
    (hat : ∀ p, after.at_ p = Updates.settle Change.touch p (baseline.at_ p) changes) :
    Applied baseline changes after := by
  -- At most one change touches a path, so its touch is what remains.
  have hpath : ∀ change ∈ changes, after.entries.get? change.path = change.written
      ∧ after.kinds.get? change.path = change.written.map fun _ => .file := by
    intro change hmem
    have htouch : change.touch change.path
        = some (change.written, change.written.map fun _ => .file) := by simp [Change.touch]
    have := (hat change.path).trans (Updates.settle_of_mem h.disjoint hmem htouch)
    exact Prod.mk.inj this
  have hsource : ∀ change ∈ changes, ∀ source, change.source = some source →
      after.entries.get? source = none ∧ after.kinds.get? source = none := by
    intro change hmem source hsource
    have hne : source ≠ change.path := by
      rintro rfl
      exact h.apart change hmem change hmem hsource
    have htouch : change.touch source = some (none, none) := by simp [Change.touch, hne, hsource]
    have := (hat source).trans (Updates.settle_of_mem h.disjoint hmem htouch)
    exact Prod.mk.inj this
  refine ⟨?_, ?_, ?_, ?_⟩
  · intro change hmem hkind
    have hlegal := h.legal change hmem
    obtain ⟨hentry, hfile⟩ := hpath change hmem
    have hafter : change.after.isSome ∧ change.written = change.after := by
      rcases hkind with hkind | hkind <;> simp only [Change.Legal, hkind] at hlegal <;>
        exact ⟨hlegal.2.2, by simp [Change.written, hkind]⟩
    obtain ⟨blob, hblob⟩ := Option.isSome_iff_exists.mp hafter.1
    refine ⟨blob, hblob, ?_, ?_⟩
    · rw [hentry, hafter.2, hblob]
    · rw [hfile, hafter.2, hblob]
      rfl
  · intro change hmem hkind
    obtain ⟨hentry, hfile⟩ := hpath change hmem
    have hnone : change.written = none := by simp [Change.written, hkind]
    exact ⟨hentry.trans hnone, by rw [hfile, hnone]; rfl⟩
  · intro change hmem hkind
    have hlegal := h.legal change hmem
    simp only [Change.Legal, hkind] at hlegal
    obtain ⟨hentry, hfile⟩ := hpath change hmem
    have hwritten : change.written = (change.after <|> change.before) := by
      simp [Change.written, hkind]
    obtain ⟨old, hold⟩ := Option.isSome_iff_exists.mp hlegal.2
    obtain ⟨blob, hblob⟩ : ∃ blob, (change.after <|> change.before) = some blob := by
      rw [hold]
      cases change.after with
      | none => exact ⟨old, rfl⟩
      | some new => exact ⟨new, rfl⟩
    obtain ⟨source, hsome⟩ := Option.isSome_iff_exists.mp hlegal.1
    refine ⟨⟨blob, hblob, ?_, ?_⟩, source, hsome, hsource change hmem source hsome⟩
    · rw [hentry, hwritten, hblob]
    · rw [hfile, hwritten, hblob]
      rfl
  · intro path huntouched
    have : ∀ change ∈ changes, change.touch path = none :=
      fun change hmem => Change.touch_eq_none_iff.mpr (huntouched change hmem)
    exact Prod.mk.inj ((hat path).trans (Updates.settle_of_untouched this))

/-- Application to any order of validated changes gives one tree, the intended one. -/
theorem applyChanges_perm {changeset : ChangeSet} (h : WellFormed changeset.changes)
    (baseline : TreeState) :
    ∃ after, Applied baseline changeset.changes after
      ∧ ∀ changes, changes.Perm changeset.changes →
        applyChanges baseline { changeset with changes } = .ok after := by
  obtain ⟨after, -, hat⟩ := foldlM_applyChange h.legal baseline
  refine ⟨after, h.applied hat, ?_⟩
  intro changes hperm
  obtain ⟨after', hafter', hat'⟩ :=
    foldlM_applyChange (fun c hc => h.legal c (hperm.mem_iff.mp hc)) baseline
  have : after' = after := by
    apply TreeState.ext_at
    intro p
    rw [hat' p, hat p, Updates.settle_perm h.disjoint hperm.symm]
  rw [← this]
  exact hafter'

theorem requireBefore_ok {baseline : BTreeMap RepoPath Str} {path : RepoPath}
    {expected : Option Str} {label : Str}
    (h : requireBefore baseline path expected label = .ok ()) : baseline.get? path = expected := by
  unfold requireBefore at h
  split_ifs at h with hne
  exact not_not.mp hne

/-- The precondition of a rename: its blob is the one the baseline has at the source. -/
theorem rename_precondition {baseline : BTreeMap RepoPath Str}
    (hkind : change.kind = .rename) {source : RepoPath} (hsource : change.source = some source)
    (h : validateChangePrecondition baseline change = .ok ()) :
    baseline.get? source = change.before := by
  simp only [validateChangePrecondition, hkind, validateRenamePrecondition, hsource] at h
  cases hbefore : requireBefore baseline source change.before (ascii "rename before blob") with
  | error error => rw [hbefore] at h; cases h
  | ok => exact requireBefore_ok hbefore

/-- A validated changeset applies to every baseline that meets its preconditions;
    the result does not depend on the order of the changes and is exactly the
    intended tree, in which a file renamed without a new blob has its old one. -/
theorem applyChanges_exact {changeset : ChangeSet} {baseline : TreeState}
    (hvalid : validateChangeset changeset = .ok ())
    (hbaseline : validateAllChangePreconditions baseline.entries changeset = .ok ()) :
    ∃ after, applyChanges baseline changeset = .ok after
      ∧ Applied baseline changeset.changes after
      ∧ (∀ change ∈ changeset.changes, ∀ source, change.kind = .rename →
          change.source = some source → change.after = none →
          after.entries.get? change.path = baseline.entries.get? source)
      ∧ ∀ changes, changes.Perm changeset.changes →
        applyChanges baseline { changeset with changes } = .ok after := by
  obtain ⟨after, happlied, hperm⟩ :=
    applyChanges_perm (wellFormed_of_validateChangeset hvalid) baseline
  refine ⟨after, hperm changeset.changes (List.Perm.refl _), happlied, ?_, hperm⟩
  intro change hmem source hkind hsource hafter
  have hpre := Except.forM_eq_ok_iff.mp hbaseline change hmem
  obtain ⟨⟨blob, hblob, hentry, -⟩, -⟩ := happlied.renamed change hmem hkind
  rw [hafter] at hblob
  rw [hentry, rename_precondition hkind hsource hpre]
  exact hblob.symm

/-- A tree with one file, and a changeset that moves it and creates another. -/
def movedChangeset : ChangeSet where
  baseline := ⟨ascii "main", none, none⟩
  changes := [
    ⟨⟨ascii "b.rs", by decide⟩, .rename, some ⟨ascii "a.rs", by decide⟩,
      some (ascii "blob:sha256:0a"), none⟩,
    ⟨⟨ascii "c.rs", by decide⟩, .create, none, none, some (ascii "blob:sha256:0c")⟩]

def movedBaseline : TreeState :=
  ⟨BTreeMap.ofList [(⟨ascii "a.rs", by decide⟩, ascii "blob:sha256:0a")],
    BTreeMap.ofList [(⟨ascii "a.rs", by decide⟩, .file)]⟩

theorem applyChanges_exact_moved :
    validateChangeset movedChangeset = .ok ()
      ∧ validateAllChangePreconditions movedBaseline.entries movedChangeset = .ok ()
      ∧ ∃ after, applyChanges movedBaseline movedChangeset = .ok after
        ∧ after.entries.keys.map RepoPath.bytes = [ascii "b.rs", ascii "c.rs"]
        ∧ Applied movedBaseline movedChangeset.changes after := by
  have hvalid : validateChangeset movedChangeset = .ok () := by rfl
  have hbaseline : validateAllChangePreconditions movedBaseline.entries movedChangeset = .ok () := by
    rfl
  refine ⟨hvalid, hbaseline, ?_⟩
  obtain ⟨after, hafter, happlied, -⟩ := applyChanges_exact hvalid hbaseline
  refine ⟨after, hafter, ?_, happlied⟩
  cases hafter
  rfl

end Opcore.Asp
