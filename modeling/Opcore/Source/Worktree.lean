/-
  Opcore.Source.Worktree

  A worktree that others edit while it is read.  Every write gives a file a metadata
  state it never had before, so a path that has the same state at two instants had
  the same file in between, unless it was absent at both.
-/
import Opcore.Identity
import Opcore.Path
import Opcore.Library.BTreeMap
import Opcore.Library.Framing

namespace Opcore

open Text Collections

/-! ## Files and edits -/

/-- What `metadata_state` gives for a path without a file. -/
def noMetadata : Str := List.replicate 56 0

/-- A file with the state of its metadata. -/
structure WorktreeFile where
  state : Str
  content : Str
  length_state : state.length = 56
  present : state ≠ noMetadata
  deriving DecidableEq

abbrev Worktree := BTreeMap RepoPath WorktreeFile

inductive Edit where
  | write (path : RepoPath) (file : WorktreeFile)
  | delete (path : RepoPath)
  deriving DecidableEq

def Edit.apply (worktree : Worktree) : Edit → Worktree
  | .write path file => worktree.insert path file
  | .delete path => worktree.erase path

/-- The worktree after the first edits. -/
def worktreeAt (initial : Worktree) (edits : List Edit) (instant : Nat) : Worktree :=
  (edits.take instant).foldl Edit.apply initial

/-- The state of a path's metadata. -/
def metadataState : Option WorktreeFile → Str
  | some file => file.state
  | none => noMetadata

/-- A write gives the file a metadata state it never had before. -/
def Edit.Fresh (initial : Worktree) (edits : List Edit) : Edit → Prop
  | .write path file => ∀ instant ≤ edits.length,
      metadataState ((worktreeAt initial edits instant).get? path) ≠ file.state
  | .delete _ => True

instance (initial : Worktree) (edits : List Edit) (edit : Edit) :
    Decidable (edit.Fresh initial edits) :=
  match edit with
  | .write path file => Nat.decidableBallLE edits.length fun instant _ =>
      metadataState ((worktreeAt initial edits instant).get? path) ≠ file.state
  | .delete _ => isTrue trivial

/-- Edits each of which is fresh when it is made. -/
def FreshEdits (initial : Worktree) (edits : List Edit) : Prop :=
  ∀ before edit after, edits = before ++ edit :: after → edit.Fresh initial before

section Instants

variable {initial : Worktree} {edits more : List Edit} {edit : Edit} {path : RepoPath}
  {instant start finish : Nat}

theorem worktreeAt_append (h : instant ≤ edits.length) :
    worktreeAt initial (edits ++ more) instant = worktreeAt initial edits instant := by
  unfold worktreeAt
  rw [List.take_append_of_le_length h]

theorem FreshEdits.snoc (h : FreshEdits initial edits) (hedit : edit.Fresh initial edits) :
    FreshEdits initial (edits ++ [edit]) := by
  intro before edit' after heq
  obtain rfl | ⟨others, last, rfl⟩ := List.eq_nil_or_concat after
  · obtain ⟨rfl, hlast⟩ := List.append_inj' heq rfl
    cases hlast
    exact hedit
  · rw [List.concat_eq_append, ← List.cons_append, ← List.append_assoc] at heq
    exact h before edit' others (List.append_inj' heq rfl).1

theorem worktreeAt_succ (h : instant < edits.length) :
    worktreeAt initial edits (instant + 1)
      = (edits.get ⟨instant, h⟩).apply (worktreeAt initial edits instant) := by
  unfold worktreeAt
  rw [List.take_add_one, List.getElem?_eq_getElem h, Option.toList_some, List.foldl_append]
  rfl

theorem FreshEdits.get (h : FreshEdits initial edits) (hinstant : instant < edits.length) :
    (edits.get ⟨instant, hinstant⟩).Fresh initial (edits.take instant) := by
  refine h _ _ (edits.drop (instant + 1)) ?_
  rw [List.get_eq_getElem, List.cons_getElem_drop_succ, List.take_append_drop]

/-- No file is deleted at a path from an instant on. -/
def Undeleted (edits : List Edit) (path : RepoPath) (start : Nat) : Prop :=
  ∀ instant, start ≤ instant → edits[instant]? ≠ some (.delete path)

/-- One edit keeps the file of a path, or gives it a state it did not have. -/
theorem FreshEdits.step (h : FreshEdits initial edits) (hinstant : instant < edits.length)
    (hstart : start ≤ instant)
    (hundeleted : (worktreeAt initial edits start).get? path = none →
      Undeleted edits path start) :
    (worktreeAt initial edits (instant + 1)).get? path
        = (worktreeAt initial edits instant).get? path
      ∨ metadataState ((worktreeAt initial edits (instant + 1)).get? path)
        ≠ metadataState ((worktreeAt initial edits start).get? path) := by
  have hfresh := h.get hinstant
  rw [worktreeAt_succ hinstant]
  cases hedit : edits.get ⟨instant, hinstant⟩ with
  | write path' file =>
    rw [hedit] at hfresh
    show (BTreeMap.insert _ _ _).get? path = _ ∨ metadataState ((BTreeMap.insert _ _ _).get? path) ≠ _
    rw [BTreeMap.get?_insert]
    split_ifs with hpath
    · subst hpath
      right
      have hlength : instant ≤ (edits.take instant).length := by
        rw [List.length_take]
        omega
      have hold := hfresh start (hstart.trans hlength)
      have hsame : worktreeAt initial (edits.take instant) start
          = worktreeAt initial edits start := by
        unfold worktreeAt
        rw [List.take_take, Nat.min_eq_left hstart]
      rw [hsame] at hold
      exact fun heq => hold heq.symm
    · exact .inl rfl
  | delete path' =>
    show (BTreeMap.erase _ _).get? path = _ ∨ metadataState ((BTreeMap.erase _ _).get? path) ≠ _
    rw [BTreeMap.get?_erase]
    split_ifs with hpath
    · subst hpath
      right
      cases hold : (worktreeAt initial edits start).get? path with
      | some file => exact fun heq => file.present heq.symm
      | none =>
        have hget : edits[instant]? = some (.delete path) := by
          rw [List.getElem?_eq_getElem hinstant]
          exact congrArg some hedit
        exact absurd hget (hundeleted hold instant hstart)
    · exact .inl rfl

/-- From an instant on a path keeps its file, or has a state it did not have then. -/
theorem FreshEdits.kept_or_changed (h : FreshEdits initial edits)
    (hundeleted : (worktreeAt initial edits start).get? path = none →
      Undeleted edits path start) (hstart : start ≤ finish) (hfinish : finish ≤ edits.length) :
    (∀ instant, start ≤ instant → instant ≤ finish →
      (worktreeAt initial edits instant).get? path
        = (worktreeAt initial edits start).get? path)
      ∨ metadataState ((worktreeAt initial edits finish).get? path)
        ≠ metadataState ((worktreeAt initial edits start).get? path) := by
  induction finish, hstart using Nat.le_induction with
  | base =>
    left
    intro instant hle hge
    rw [Nat.le_antisymm hge hle]
  | succ finish hstart ih =>
    have hstep := h.step (Nat.lt_of_succ_le hfinish) hstart hundeleted
    obtain hkept | hchanged := ih (Nat.le_of_succ_le hfinish)
    · refine hstep.imp (fun hsame instant hle hge => ?_) id
      obtain hlt | rfl := Nat.lt_or_eq_of_le hge
      · exact hkept instant hle (Nat.le_of_lt_succ hlt)
      · exact hsame.trans (hkept finish hstart le_rfl)
    · right
      obtain hsame | hnew := hstep
      · rwa [hsame]
      · exact hnew

/-- A path with the same state at two instants had the same file in between. -/
theorem FreshEdits.unchanged (h : FreshEdits initial edits)
    (hundeleted : (worktreeAt initial edits start).get? path = none →
      Undeleted edits path start) (hfinish : finish ≤ edits.length)
    (hstate : metadataState ((worktreeAt initial edits finish).get? path)
      = metadataState ((worktreeAt initial edits start).get? path))
    (hle : start ≤ instant) (hge : instant ≤ finish) :
    (worktreeAt initial edits instant).get? path = (worktreeAt initial edits start).get? path := by
  obtain hkept | hchanged := h.kept_or_changed hundeleted (hle.trans hge) hfinish
  · exact hkept instant hle hge
  · exact absurd hstate hchanged

end Instants

/-! ## The generation of a set of paths -/

def generationManifest (generations : BTreeMap RepoPath Str) : Str :=
  generations.entries.flatMap fun entry =>
    be64 entry.1.bytes.length ++ entry.1.bytes ++ entry.2

/-- The digest two observations are compared by. -/
def generationState [Sha256] (generations : BTreeMap RepoPath Str) : Str :=
  hashDomain (ascii "git-worktree-generation/v1") [generationManifest generations]

theorem RepoPath.length_bytes_lt (path : RepoPath) : path.bytes.length < 2 ^ 64 := by
  have hvalid := path.valid
  unfold validate at hvalid
  split at hvalid
  · cases hvalid
  · split at hvalid
    · cases hvalid
    · next hlength =>
      have hmax : maxRepositoryPathBytes < 2 ^ 64 := by decide
      exact (not_lt.mp hlength).trans_lt hmax

/-- A path behind its length says where it ends. -/
theorem selfDelimiting_path :
    SelfDelimiting (fun path : RepoPath => be64 path.bytes.length ++ path.bytes) fun _ => True :=
  selfDelimiting_framed.comap RepoPath.bytes
    (fun _ _ _ _ heq => RepoPath.bytes_injective heq) fun path _ => path.length_bytes_lt

/-- Entries of paths and states of one length are told apart by their bytes. -/
theorem manifest_injective {n : Nat} {entries entries' : List (RepoPath × Str)}
    (h : ∀ entry ∈ entries, entry.2.length = n) (h' : ∀ entry ∈ entries', entry.2.length = n)
    (heq : (entries.flatMap fun entry => be64 entry.1.bytes.length ++ entry.1.bytes ++ entry.2)
      = entries'.flatMap fun entry => be64 entry.1.bytes.length ++ entry.1.bytes ++ entry.2) :
    entries = entries' := by
  apply (selfDelimiting_path.pair (selfDelimiting_of_length n)).flatMap_injective
  · intro entry hnil
    have hlength := congrArg List.length hnil
    simp [be64] at hlength
  · exact fun entry hentry => ⟨trivial, h entry hentry⟩
  · exact fun entry hentry => ⟨trivial, h' entry hentry⟩
  · exact heq

theorem hashDomain_singleton_injective [Sha256] (hdigest : Function.Injective Sha256.digest)
    {domain a b : Str} (h : hashDomain domain [a] = hashDomain domain [b]) : a = b := by
  have hencoding := hdigest h
  unfold domainEncoding at hencoding
  have hparts := List.append_cancel_left hencoding
  simp only [List.flatMap_cons, List.flatMap_nil, List.append_nil] at hparts
  exact (List.append_inj hparts rfl).2

/-- Two observations with the same digest are the same. -/
theorem generationState_injective [Sha256] (hdigest : Function.Injective Sha256.digest)
    {generations generations' : BTreeMap RepoPath Str}
    (h : ∀ entry ∈ generations.entries, entry.2.length = 56)
    (h' : ∀ entry ∈ generations'.entries, entry.2.length = 56)
    (heq : generationState generations = generationState generations') :
    generations = generations' := by
  have hmanifest := hashDomain_singleton_injective hdigest heq
  have hentries := manifest_injective h h' hmanifest
  refine BTreeMap.ext_get? fun path => ?_
  unfold BTreeMap.get?
  rw [hentries]

/-! ## The contents of a set of paths -/

/-- One path's part of the manifest: whether it is included, and the content it has. -/
def worktreeEntry (contents : BTreeMap RepoPath ContentId) (included : RepoPath → Bool)
    (path : RepoPath) : Str :=
  be64 path.bytes.length ++ path.bytes
    ++ if included path then
        match contents.get? path with
        | some content => 1 :: content
        | none => [2]
      else [0]

def worktreeState [Sha256] (paths : BTreeSet RepoPath) (contents : BTreeMap RepoPath ContentId)
    (included : RepoPath → Bool) : Str :=
  hashDomain (ascii "git-worktree-content/v1")
    [paths.elems.flatMap (worktreeEntry contents included)]

theorem length_metadataState (file : Option WorktreeFile) : (metadataState file).length = 56 := by
  cases file with
  | some file => exact file.length_state
  | none => rfl

end Opcore
