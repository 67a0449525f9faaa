/-
  Opcore.Sense.ViewIdentity

  What the identities of views say.  Each is the digest of an encoding of all that went into
  it, and the encodings are told apart: where the digest does not confuse those that are
  compared, equal identities mean equal views.
-/
import Opcore.Sense.Engine
import Opcore.Source.Worktree

namespace Opcore

open Text Collections

section

variable [Sha256]

/-- The digest does not confuse any two of the inputs. -/
def NoCollision (inputs : List Str) : Prop :=
  ∀ a ∈ inputs, ∀ b ∈ inputs, Sha256.digest a = Sha256.digest b → a = b

instance (inputs : List Str) : Decidable (NoCollision inputs) :=
  inferInstanceAs (Decidable (∀ a ∈ inputs, ∀ b ∈ inputs, Sha256.digest a = Sha256.digest b → a = b))

/-! ## Domains and parts -/

section Domains

variable {domain domain' a b : Str} {parts parts' inputs : List Str}

omit [Sha256] in
theorem domainEncoding_injective (hdomain : domain.length < 2 ^ 64)
    (hdomain' : domain'.length < 2 ^ 64) (hparts : ∀ part ∈ parts, part.length < 2 ^ 64)
    (hparts' : ∀ part ∈ parts', part.length < 2 ^ 64)
    (h : domainEncoding domain parts = domainEncoding domain' parts') :
    domain = domain' ∧ parts = parts' := by
  simp only [domainEncoding, List.append_assoc, List.append_cancel_left_eq] at h
  rw [← List.append_assoc, ← List.append_assoc] at h
  obtain ⟨hsame, hrest⟩ := selfDelimiting_framed domain domain' hdomain hdomain' _ _ h
  refine ⟨hsame, selfDelimiting_framed.flatMap_injective ?_ hparts hparts' hrest⟩
  intro part hnil
  have hlength := congrArg List.length hnil
  simp [be64] at hlength

omit [Sha256] in
theorem domainEncoding_singleton (h : domainEncoding domain [a] = domainEncoding domain [b]) :
    a = b := by
  unfold domainEncoding at h
  have hparts := List.append_cancel_left h
  simp only [List.flatMap_cons, List.flatMap_nil, List.append_nil] at hparts
  exact (List.append_inj hparts rfl).2

omit [Sha256] in
/-- Domains whose lengths differ never have one encoding. -/
theorem domainEncoding_ne (h : be64 domain.length ≠ be64 domain'.length) :
    domainEncoding domain parts ≠ domainEncoding domain' parts' := by
  intro heq
  simp only [domainEncoding, List.append_assoc, List.append_cancel_left_eq] at heq
  exact h (List.append_inj heq rfl).1

theorem hashDomain_singleton_eq_iff (hnone : NoCollision inputs)
    (ha : domainEncoding domain [a] ∈ inputs) (hb : domainEncoding domain [b] ∈ inputs) :
    hashDomain domain [a] = hashDomain domain [b] ↔ a = b := by
  constructor
  · intro h
    exact domainEncoding_singleton (hnone _ ha _ hb h)
  · rintro rfl
    rfl

/-- A digest says its domain and its parts. -/
theorem hashDomain_eq_iff (hdomain : domain.length < 2 ^ 64) (hdomain' : domain'.length < 2 ^ 64)
    (hparts : ∀ part ∈ parts, part.length < 2 ^ 64)
    (hparts' : ∀ part ∈ parts', part.length < 2 ^ 64)
    (hnone : NoCollision [domainEncoding domain parts, domainEncoding domain' parts']) :
    hashDomain domain parts = hashDomain domain' parts' ↔ domain = domain' ∧ parts = parts' := by
  constructor
  · intro h
    apply domainEncoding_injective hdomain hdomain' hparts hparts'
    exact hnone _ List.mem_cons_self _ (List.mem_cons_of_mem _ List.mem_cons_self) h
  · rintro ⟨rfl, rfl⟩
    rfl

end Domains

/-! ## Snapshots -/

section Snapshots

variable {files files' : List SourceFile} {path : RepoPath}

/-- The last of the files given for a path. -/
def lastGiven (files : List SourceFile) (path : RepoPath) : Option SourceFile :=
  files.reverse.find? fun file => file.path = path

omit [Sha256] in
theorem read_new (files : List SourceFile) (path : RepoPath) :
    (SourceSnapshot.new files).read path = lastGiven files path := by
  rw [SourceSnapshot.read, SourceSnapshot.files_new, BTreeMap.get?_ofList, ← List.map_reverse,
    lastGiven]
  induction files.reverse with
  | nil => rfl
  | cons file files ih =>
    rw [List.map_cons, lookupSorted, ih]
    by_cases hpath : path = file.path
    · have hfound : decide (file.path = path) = true := decide_eq_true hpath.symm
      rw [if_pos hpath, List.find?_cons, hfound]
    · have hother : decide (file.path = path) = false := decide_eq_false (Ne.symm hpath)
      rw [if_neg hpath, List.find?_cons, hother]

/-- What is hashed for a snapshot: its manifest, and the content of every file. -/
def snapshotInputs (files : List SourceFile) : List Str :=
  domainEncoding (ascii "source-snapshot/v2") [(SourceSnapshot.new files).manifest]
    :: files.map fun file => domainEncoding (ascii "content/v1") [file.bytes]

omit [Sha256] in
theorem languageName_injective : Function.Injective SourceSnapshot.languageName := by
  intro a b h
  cases a <;> cases b <;> first | rfl | exact absurd h (by decide)

omit [Sha256] in
theorem selfDelimiting_language : SelfDelimiting
    (fun language => be64 (SourceSnapshot.languageName language).length
      ++ SourceSnapshot.languageName language) fun _ => True := by
  refine selfDelimiting_framed.comap SourceSnapshot.languageName
    (fun _ _ _ _ heq => languageName_injective heq) ?_
  intro language _
  cases language <;> decide

/-- What the manifest says of a file. -/
def entryParts (entry : RepoPath × SourceFile) : RepoPath × Language × Str × Str :=
  (entry.1, entry.2.language, entry.2.languageMode, entry.2.contentId)

theorem manifestEntry_eq (entry : RepoPath × SourceFile) :
    SourceSnapshot.manifestEntry entry.1 entry.2
      = (fun parts : RepoPath × Language × Str × Str =>
          (be64 parts.1.bytes.length ++ parts.1.bytes)
            ++ ((be64 (SourceSnapshot.languageName parts.2.1).length
                ++ SourceSnapshot.languageName parts.2.1)
              ++ ((be64 parts.2.2.1.length ++ parts.2.2.1) ++ id parts.2.2.2)))
        (entryParts entry) := by
  simp [SourceSnapshot.manifestEntry, entryParts]

/-- The manifest of a snapshot says every file of it. -/
theorem files_eq_of_manifest {snapshot snapshot' : SourceSnapshot} {inputs : List Str}
    (hwidth : ∀ s, (Sha256.digest s).length = 32) (hnone : NoCollision inputs)
    (h : ∀ file, snapshot.read file.path = some file ∨ snapshot'.read file.path = some file →
      file.languageMode.length < 2 ^ 64
        ∧ domainEncoding (ascii "content/v1") [file.bytes] ∈ inputs)
    (heq : snapshot.manifest = snapshot'.manifest) : snapshot.files = snapshot'.files := by
  have hcode := selfDelimiting_path.pair (selfDelimiting_language.pair
    (selfDelimiting_framed.pair (selfDelimiting_of_length 32)))
  have hentry := @SelfDelimiting.comap _ _ _ _ (fun entry : RepoPath × SourceFile =>
      entry.2.path = entry.1 ∧ (snapshot.read entry.1 = some entry.2
        ∨ snapshot'.read entry.1 = some entry.2)) hcode entryParts ?values ?parts
  case values =>
    rintro ⟨p, f⟩ ⟨q, g⟩ ⟨hf, hfread⟩ ⟨hg, hgread⟩ hparts
    simp only [entryParts, Prod.mk.injEq] at hparts hf hg hfread hgread
    obtain ⟨rfl, hlanguage, hmode, hcontent⟩ := hparts
    -- one digest of the contents is one content
    have hbytes : f.bytes = g.bytes := domainEncoding_singleton
      (hnone _ (h f (hf.symm ▸ hfread)).2 _ (h g (hg.symm ▸ hgread)).2 hcontent)
    obtain ⟨path, bytes, language, mode⟩ := f
    obtain ⟨path', bytes', language', mode'⟩ := g
    dsimp only at hf hg hlanguage hmode hbytes
    rw [hf, hg, hlanguage, hmode, hbytes]
  case parts =>
    rintro ⟨p, f⟩ ⟨hf, hfread⟩
    dsimp only at hf hfread
    exact ⟨trivial, trivial, (h f (hf.symm ▸ hfread)).1, hwidth _⟩
  have hkeyed : ∀ {s : SourceSnapshot}, ∀ entry ∈ s.files.entries,
      entry.2.path = entry.1 ∧ s.read entry.1 = some entry.2 := by
    intro s entry hmem
    have hread := BTreeMap.mem_entries_iff.mp hmem
    exact ⟨s.keyed entry.1 entry.2 hread, hread⟩
  have hentries : snapshot.files.entries = snapshot'.files.entries := by
    apply hentry.flatMap_injective
    · intro entry hnil
      have hlength := congrArg List.length hnil
      simp [be64] at hlength
    · exact fun entry hmem => ⟨(hkeyed entry hmem).1, .inl (hkeyed entry hmem).2⟩
    · exact fun entry hmem => ⟨(hkeyed entry hmem).1, .inr (hkeyed entry hmem).2⟩
    · simp only [SourceSnapshot.manifest, manifestEntry_eq] at heq
      exact heq
  refine BTreeMap.ext_get? fun path => ?_
  unfold BTreeMap.get?
  rw [hentries]

/-- Two lists have one identity exactly when they give every path the same file last. -/
theorem snapshot_id_eq_iff (hwidth : ∀ s, (Sha256.digest s).length = 32)
    (hmodes : ∀ file ∈ files ++ files', file.languageMode.length < 2 ^ 64)
    (hnone : NoCollision (snapshotInputs files ++ snapshotInputs files')) :
    (SourceSnapshot.new files).id = (SourceSnapshot.new files').id
      ↔ ∀ path, lastGiven files path = lastGiven files' path := by
  have hgiven : ∀ {given : List SourceFile} {file : SourceFile},
      (SourceSnapshot.new given).read file.path = some file → file ∈ given := by
    intro given file hread
    rw [read_new] at hread
    exact List.mem_reverse.mp (List.mem_of_find?_eq_some hread)
  constructor
  · intro h path
    have hmanifest := (hashDomain_singleton_eq_iff hnone
      (List.mem_append_left _ List.mem_cons_self)
      (List.mem_append_right _ List.mem_cons_self)).mp h
    have hfiles := files_eq_of_manifest hwidth hnone ?_ hmanifest
    · rw [← read_new, ← read_new, SourceSnapshot.read, SourceSnapshot.read, hfiles]
    · rintro file (hread | hread)
      · have hmem := hgiven hread
        exact ⟨hmodes file (List.mem_append_left _ hmem),
          List.mem_append_left _ (List.mem_cons_of_mem _ (List.mem_map_of_mem hmem))⟩
      · have hmem := hgiven hread
        exact ⟨hmodes file (List.mem_append_right _ hmem),
          List.mem_append_right _ (List.mem_cons_of_mem _ (List.mem_map_of_mem hmem))⟩
  · intro h
    have hfiles : (SourceSnapshot.new files).files = (SourceSnapshot.new files').files := by
      refine BTreeMap.ext_get? fun path => ?_
      exact (read_new files path).trans ((h path).trans (read_new files' path).symm)
    rw [SourceSnapshot.id, SourceSnapshot.id, SourceSnapshot.manifest, SourceSnapshot.manifest,
      hfiles]

end Snapshots

/-! ## Worktrees -/

section Worktrees

variable {paths paths' : BTreeSet RepoPath} {contents contents' : BTreeMap RepoPath ContentId}
  {generations generations' : BTreeMap RepoPath Str} {included : RepoPath → Bool}

/-- What the manifest says of a path: nothing where it is not included, else its content, if any. -/
def pathState (contents : BTreeMap RepoPath ContentId) (included : RepoPath → Bool)
    (path : RepoPath) : Option (Option ContentId) :=
  if included path then some (contents.get? path) else none

def stateCode : Option (Option ContentId) → Str
  | none => [0]
  | some none => [2]
  | some (some content) => 1 :: content

omit [Sha256]

theorem selfDelimiting_stateCode : SelfDelimiting stateCode fun state =>
    ∀ content, state = some (some content) → content.length = 32 := by
  intro a b ha hb s t heq
  match a, b with
  | none, none | some none, some none => exact ⟨rfl, (List.cons.inj heq).2⟩
  | some (some content), some (some content') =>
    obtain ⟨hsame, hrest⟩ := List.append_inj (List.cons.inj heq).2
      ((ha content rfl).trans (hb content' rfl).symm)
    exact ⟨by rw [hsame], hrest⟩
  | none, some none | none, some (some _) | some none, none | some none, some (some _)
  | some (some _), none | some (some _), some none =>
    exact absurd (List.cons.inj heq).1 (by decide)

theorem worktreeEntry_eq (path : RepoPath) : worktreeEntry contents included path
    = (be64 path.bytes.length ++ path.bytes) ++ stateCode (pathState contents included path) := by
  rw [worktreeEntry, pathState]
  cases included path with
  | false => rfl
  | true => cases contents.get? path <;> rfl

/-- The manifest says the paths, and the content of those that are included. -/
theorem worktree_manifest_eq_iff
    (hcontents : ∀ path content, contents.get? path = some content → content.length = 32)
    (hcontents' : ∀ path content, contents'.get? path = some content → content.length = 32) :
    paths.elems.flatMap (worktreeEntry contents included)
        = paths'.elems.flatMap (worktreeEntry contents' included)
      ↔ paths = paths' ∧ ∀ path ∈ paths, included path = true →
        contents.get? path = contents'.get? path := by
  have hstate : ∀ {contents : BTreeMap RepoPath ContentId},
      (∀ path content, contents.get? path = some content → content.length = 32) →
      ∀ path content, pathState contents included path = some (some content) →
        content.length = 32 := by
    intro contents hcontents path content h
    rw [pathState] at h
    split_ifs at h
    exact hcontents path content (Option.some.inj h)
  have hmanifest : ∀ (contents : BTreeMap RepoPath ContentId) (paths : List RepoPath),
      paths.flatMap (worktreeEntry contents included)
        = (paths.map fun path => (path, pathState contents included path)).flatMap fun entry =>
          (be64 entry.1.bytes.length ++ entry.1.bytes) ++ stateCode entry.2 := by
    intro contents paths
    rw [List.flatMap_map]
    exact List.flatMap_congr fun path _ => worktreeEntry_eq path
  constructor
  · intro h
    rw [hmanifest, hmanifest] at h
    -- Each entry says where it ends, so the manifest can be read back.
    have hentries : (paths.elems.map fun path => (path, pathState contents included path))
        = paths'.elems.map fun path => (path, pathState contents' included path) := by
      apply (selfDelimiting_path.pair selfDelimiting_stateCode).flatMap_injective _ _ _ h
      · intro entry hnil
        have hlength := congrArg List.length hnil
        simp [be64] at hlength
      · intro entry hentry
        obtain ⟨path, -, rfl⟩ := List.mem_map.mp hentry
        exact ⟨trivial, hstate hcontents path⟩
      · intro entry hentry
        obtain ⟨path, -, rfl⟩ := List.mem_map.mp hentry
        exact ⟨trivial, hstate hcontents' path⟩
    have helems : paths.elems = paths'.elems := by
      have hfirst := congrArg (List.map Prod.fst) hentries
      simpa only [List.map_map, Function.comp_def, List.map_id'] using hfirst
    refine ⟨BTreeSet.ext_mem fun path => by rw [BTreeSet.mem_def, BTreeSet.mem_def, helems], ?_⟩
    intro path hpath hincluded
    rw [← helems] at hentries
    have hsame := (Prod.mk.inj (List.map_inj_left.mp hentries path hpath)).2
    rw [pathState, pathState, if_pos hincluded, if_pos hincluded] at hsame
    exact Option.some.inj hsame
  · rintro ⟨rfl, h⟩
    refine List.flatMap_congr fun path hpath => ?_
    rw [worktreeEntry_eq, worktreeEntry_eq, pathState, pathState]
    split_ifs with hincluded
    · rw [h path hpath hincluded]
    · rfl

/-- What is hashed for a worktree. -/
def worktreeInput (paths : BTreeSet RepoPath) (contents : BTreeMap RepoPath ContentId)
    (included : RepoPath → Bool) : Str :=
  domainEncoding (ascii "git-worktree-content/v1")
    [paths.elems.flatMap (worktreeEntry contents included)]

/-- What is hashed for a generation. -/
def generationInput (generations : BTreeMap RepoPath Str) : Str :=
  domainEncoding (ascii "git-worktree-generation/v1") [generationManifest generations]

/-- The manifest says the state of every path. -/
theorem generationManifest_eq_iff (h : ∀ entry ∈ generations.entries, entry.2.length = 56)
    (h' : ∀ entry ∈ generations'.entries, entry.2.length = 56) :
    generationManifest generations = generationManifest generations'
      ↔ generations = generations' := by
  constructor
  · intro heq
    have hentries := manifest_injective h h' heq
    refine BTreeMap.ext_get? fun path => ?_
    unfold BTreeMap.get?
    rw [hentries]
  · rintro rfl
    rfl

end Worktrees

/-! ## Graph views -/

section GraphViews

variable {snapshot snapshot' : SourceSnapshot} {moduleFiles moduleFiles' : BTreeMap RepoPath Str}

/-- What `graph_view_id` hashes for the module files. -/
def moduleManifest (moduleFiles : BTreeMap RepoPath Str) : Str :=
  moduleFiles.entries.flatMap fun (path, bytes) =>
    be64 path.bytes.length ++ path.bytes ++ ContentId.of bytes

def graphEncoding (snapshot : SourceSnapshot) (moduleFiles : BTreeMap RepoPath Str) : Str :=
  domainEncoding (ascii "sense-graph-view/v1") [hexEncode snapshot.id, moduleManifest moduleFiles]

/-- What is hashed for a view: its snapshot, all of it, and the contents of the module files. -/
def graphInputs (snapshot : SourceSnapshot) (moduleFiles : BTreeMap RepoPath Str) : List Str :=
  domainEncoding (ascii "source-snapshot/v2") [snapshot.manifest]
    :: graphEncoding snapshot moduleFiles
    :: moduleFiles.values.map fun bytes => domainEncoding (ascii "content/v1") [bytes]

omit [Sha256] in
theorem length_hexEncode (s : Str) : (hexEncode s).length = 2 * s.length := by
  induction s with
  | nil => rfl
  | cons b s ih =>
    rw [hexEncode, List.flatMap_cons, List.length_append, ← hexEncode, ih, List.length_cons]
    show 2 + 2 * s.length = 2 * (s.length + 1)
    omega

theorem graphViewId_eq : Sense.graphViewId snapshot moduleFiles
    = hexEncode (if moduleFiles.isEmpty then snapshot.id
      else Sha256.digest (graphEncoding snapshot moduleFiles)) := by
  rw [Sense.graphViewId]
  split_ifs <;> rfl

theorem moduleFiles_eq_of_manifest {inputs : List Str}
    (hwidth : ∀ s, (Sha256.digest s).length = 32) (hnone : NoCollision inputs)
    (h : ∀ bytes ∈ moduleFiles.values ++ moduleFiles'.values,
      domainEncoding (ascii "content/v1") [bytes] ∈ inputs)
    (heq : moduleManifest moduleFiles = moduleManifest moduleFiles') :
    moduleFiles = moduleFiles' := by
  have hentry := @SelfDelimiting.comap _ _ _ _
    (fun entry : RepoPath × Str => entry.2 ∈ moduleFiles.values ++ moduleFiles'.values)
    (selfDelimiting_path.pair (selfDelimiting_of_length 32))
    (fun entry => (entry.1, ContentId.of entry.2)) ?values ?parts
  case values =>
    rintro ⟨p, a⟩ ⟨q, b⟩ ha hb hparts
    simp only [Prod.mk.injEq] at hparts
    obtain ⟨rfl, hcontent⟩ := hparts
    rw [domainEncoding_singleton (hnone _ (h a ha) _ (h b hb) hcontent)]
  case parts => exact fun entry _ => ⟨trivial, hwidth _⟩
  have hentries : moduleFiles.entries = moduleFiles'.entries := by
    apply hentry.flatMap_injective _ _ _ heq
    · intro entry hnil
      have hlength := congrArg List.length hnil
      simp [be64] at hlength
    · exact fun entry hmem => List.mem_append_left _ (List.mem_map_of_mem hmem)
    · exact fun entry hmem => List.mem_append_right _ (List.mem_map_of_mem hmem)
  refine BTreeMap.ext_get? fun path => ?_
  unfold BTreeMap.get?
  rw [hentries]

/-- Two views have one identity exactly when their snapshots and their module files have. -/
theorem graphViewId_eq_iff (hwidth : ∀ s, (Sha256.digest s).length = 32)
    (hnone : NoCollision (graphInputs snapshot moduleFiles ++ graphInputs snapshot' moduleFiles')) :
    Sense.graphViewId snapshot moduleFiles = Sense.graphViewId snapshot' moduleFiles'
      ↔ snapshot.id = snapshot'.id ∧ moduleFiles = moduleFiles' := by
  constructor
  · intro h
    rw [graphViewId_eq, graphViewId_eq] at h
    have h := hexEncode_injective h
    -- the digest of a snapshot is never that of a view with module files
    have hapart : ∀ (s s' : SourceSnapshot) (m : BTreeMap RepoPath Str),
        domainEncoding (ascii "source-snapshot/v2") [s.manifest] ≠ graphEncoding s' m :=
      fun s s' m => domainEncoding_ne (by decide)
    have hsnapshot : domainEncoding (ascii "source-snapshot/v2") [snapshot.manifest]
        ∈ graphInputs snapshot moduleFiles ++ graphInputs snapshot' moduleFiles' :=
      List.mem_append_left _ List.mem_cons_self
    have hsnapshot' : domainEncoding (ascii "source-snapshot/v2") [snapshot'.manifest]
        ∈ graphInputs snapshot moduleFiles ++ graphInputs snapshot' moduleFiles' :=
      List.mem_append_right _ List.mem_cons_self
    have hgraph : graphEncoding snapshot moduleFiles
        ∈ graphInputs snapshot moduleFiles ++ graphInputs snapshot' moduleFiles' :=
      List.mem_append_left _ (List.mem_cons_of_mem _ List.mem_cons_self)
    have hgraph' : graphEncoding snapshot' moduleFiles'
        ∈ graphInputs snapshot moduleFiles ++ graphInputs snapshot' moduleFiles' :=
      List.mem_append_right _ (List.mem_cons_of_mem _ List.mem_cons_self)
    split_ifs at h with hempty hempty' hempty'
    · rw [BTreeMap.isEmpty_iff.mp hempty, BTreeMap.isEmpty_iff.mp hempty']
      exact ⟨h, rfl⟩
    · exact absurd (hnone _ hsnapshot _ hgraph' h) (hapart _ _ _)
    · exact absurd (hnone _ hsnapshot' _ hgraph h.symm) (hapart _ _ _)
    · have hencoding := hnone _ hgraph _ hgraph' h
      unfold graphEncoding domainEncoding at hencoding
      have hparts := List.append_cancel_left hencoding
      simp only [List.flatMap_cons, List.flatMap_nil, List.append_nil] at hparts
      have hlength : ∀ s : SourceSnapshot, (hexEncode s.id).length < 2 ^ 64 := by
        intro s
        rw [length_hexEncode, SourceSnapshot.id, hashDomain, hwidth]
        decide
      obtain ⟨hid, hrest⟩ := selfDelimiting_framed _ _ (hlength _) (hlength _) _ _ hparts
      refine ⟨hexEncode_injective hid, ?_⟩
      apply moduleFiles_eq_of_manifest hwidth hnone _ (List.append_inj hrest rfl).2
      intro bytes hbytes
      obtain hmem | hmem := List.mem_append.mp hbytes
      · exact List.mem_append_left _ (List.mem_cons_of_mem _ (List.mem_cons_of_mem _
          (List.mem_map_of_mem hmem)))
      · exact List.mem_append_right _ (List.mem_cons_of_mem _ (List.mem_cons_of_mem _
          (List.mem_map_of_mem hmem)))
  · rintro ⟨hid, rfl⟩
    rw [graphViewId_eq, graphViewId_eq, graphEncoding, graphEncoding, hid]

end GraphViews

/-! ## Result -/

/-- Where the digest does not confuse what is hashed, identities are equal exactly when the
    snapshots, worktrees, generations, domains and parts, or graph views are. -/
theorem view_identities (hwidth : ∀ s, (Sha256.digest s).length = 32) :
    (∀ files files' : List SourceFile,
      (∀ file ∈ files ++ files', file.languageMode.length < 2 ^ 64) →
      NoCollision (snapshotInputs files ++ snapshotInputs files') →
      ((SourceSnapshot.new files).id = (SourceSnapshot.new files').id
        ↔ ∀ path, lastGiven files path = lastGiven files' path))
    ∧ (∀ (paths paths' : BTreeSet RepoPath) (contents contents' : BTreeMap RepoPath ContentId)
        (included : RepoPath → Bool),
      (∀ path content, contents.get? path = some content → content.length = 32) →
      (∀ path content, contents'.get? path = some content → content.length = 32) →
      NoCollision [worktreeInput paths contents included, worktreeInput paths' contents' included] →
      (worktreeState paths contents included = worktreeState paths' contents' included
        ↔ paths = paths' ∧ ∀ path ∈ paths, included path = true →
          contents.get? path = contents'.get? path))
    ∧ (∀ generations generations' : BTreeMap RepoPath Str,
      (∀ entry ∈ generations.entries, entry.2.length = 56) →
      (∀ entry ∈ generations'.entries, entry.2.length = 56) →
      NoCollision [generationInput generations, generationInput generations'] →
      (generationState generations = generationState generations' ↔ generations = generations'))
    ∧ (∀ (domain domain' : Str) (parts parts' : List Str), domain.length < 2 ^ 64 →
      domain'.length < 2 ^ 64 → (∀ part ∈ parts, part.length < 2 ^ 64) →
      (∀ part ∈ parts', part.length < 2 ^ 64) →
      NoCollision [domainEncoding domain parts, domainEncoding domain' parts'] →
      (hashDomain domain parts = hashDomain domain' parts' ↔ domain = domain' ∧ parts = parts'))
    ∧ ∀ (snapshot snapshot' : SourceSnapshot) (moduleFiles moduleFiles' : BTreeMap RepoPath Str),
      NoCollision (graphInputs snapshot moduleFiles ++ graphInputs snapshot' moduleFiles') →
      (Sense.graphViewId snapshot moduleFiles = Sense.graphViewId snapshot' moduleFiles'
        ↔ snapshot.id = snapshot'.id ∧ moduleFiles = moduleFiles') := by
  refine ⟨?snapshots, ?worktrees, ?generations, ?domains, ?graphs⟩
  case snapshots => exact fun files files' hmodes hnone => snapshot_id_eq_iff hwidth hmodes hnone
  case worktrees =>
    intro paths paths' contents contents' included hcontents hcontents' hnone
    rw [← worktree_manifest_eq_iff hcontents hcontents']
    exact hashDomain_singleton_eq_iff hnone List.mem_cons_self
      (List.mem_cons_of_mem _ List.mem_cons_self)
  case generations =>
    intro generations generations' hstates hstates' hnone
    rw [← generationManifest_eq_iff hstates hstates']
    exact hashDomain_singleton_eq_iff hnone List.mem_cons_self
      (List.mem_cons_of_mem _ List.mem_cons_self)
  case domains =>
    intro domain domain' parts parts' hdomain hdomain' hparts hparts' hnone
    exact hashDomain_eq_iff hdomain hdomain' hparts hparts' hnone
  case graphs => exact fun _ _ _ _ hnone => graphViewId_eq_iff hwidth hnone

end

/-! A digest of 32 bytes that tells a few inputs apart. -/

abbrev polynomialDigest : Sha256 :=
  ⟨fun s => List.replicate 24 0
    ++ be64 (s.foldl (fun n b => (n * 1000003 + b.toNat + 1) % 2 ^ 64) 0)⟩

def viewPath : RepoPath := samplePath "a.py"

def viewFile (text : String) : SourceFile := ⟨viewPath, ascii text, .python, ascii "python"⟩

/-- A file given twice counts once; a file that is absent is not an empty one; and neither the
    cut between two parts nor that between a snapshot and its module files can be moved. -/
theorem view_identities_told_apart :
    letI := polynomialDigest
    (SourceSnapshot.new [viewFile "x", viewFile "y"]).id = (SourceSnapshot.new [viewFile "y"]).id
      ∧ worktreeState (.ofList [viewPath]) ∅ (fun _ => true)
        ≠ worktreeState (.ofList [viewPath]) (.ofList [(viewPath, List.replicate 32 0)])
          (fun _ => true)
      ∧ generationState ∅ ≠ generationState (.ofList [(viewPath, noMetadata)])
      ∧ hashDomain (ascii "d") [ascii "ab", ascii "c"]
        ≠ hashDomain (ascii "d") [ascii "a", ascii "bc"]
      ∧ Sense.graphViewId (.new []) ∅ ≠ Sense.graphViewId (.new []) (.ofList [(viewPath, [])]) := by
  have hwidth : ∀ s, (polynomialDigest.digest s).length = 32 := by
    intro s
    exact List.length_append
  obtain ⟨hsnapshots, hworktrees, hgenerations, hdomains, hgraphs⟩ :=
    @view_identities polynomialDigest hwidth
  refine ⟨?snapshots, ?worktrees, ?generations, ?domains, ?graphs⟩
  case snapshots =>
    refine (hsnapshots [viewFile "x", viewFile "y"] [viewFile "y"] (by decide)
      (by decide +kernel)).mpr fun path => ?_
    simp only [lastGiven, List.reverse_cons, List.reverse_nil, List.nil_append, List.cons_append,
      List.find?_cons, List.find?_nil]
    cases hpath : decide ((viewFile "y").path = path) with
    | true => rfl
    | false =>
      have hother : decide ((viewFile "x").path = path) = false := hpath
      rw [hother]
  case worktrees =>
    intro heq
    have hsame := ((hworktrees (.ofList [viewPath]) (.ofList [viewPath]) ∅
      (.ofList [(viewPath, List.replicate 32 0)]) (fun _ => true) nofun ?_ (by decide +kernel)).mp
        heq).2 viewPath (by decide) rfl
    · exact absurd hsame (by decide)
    · intro path content hget
      obtain hmem | hempty := BTreeMap.mem_of_get?_extend hget
      · cases List.mem_singleton.mp hmem
        rfl
      · cases hempty
  case generations =>
    intro heq
    exact absurd ((hgenerations ∅ (.ofList [(viewPath, noMetadata)]) nofun (by decide)
      (by decide +kernel)).mp heq) (by decide)
  case domains =>
    intro heq
    exact absurd ((hdomains (ascii "d") (ascii "d") [ascii "ab", ascii "c"] [ascii "a", ascii "bc"]
      (by decide) (by decide) (by decide) (by decide) (by decide +kernel)).mp heq).2 (by decide)
  case graphs =>
    intro heq
    exact absurd ((hgraphs (.new []) (.new []) ∅ (.ofList [(viewPath, [])])
      (by decide +kernel)).mp heq).2 (by decide)

end Opcore
