/-
  Opcore.Cache.Interleaving

  What holds of a shared fact cache after any number of steps of any number of
  processes: where the content of every file comes from, who holds which lock, and
  what a repair has seen of the file it removes.
-/
import Opcore.Cache.Shared

namespace Opcore.Shared

open Text

variable [Sha256] [Serde]

/-! ## The invariant -/

/-- What the processes keep up together, from the files that were there at first. -/
structure Inv (initial : Directory) (w : World) : Prop where
  exclusive : ∀ process shard, (w.tasks process).held = some shard →
    w.locks shard = some process
  confined : ∀ process shard entries total, w.tasks process = .trimShard shard entries total →
    ∀ entry ∈ entries, shardOf entry.1 = shard
  announced : ∀ process stage key facts, w.tasks process = .put stage key facts →
    .put key facts ∈ w.history ∧ (Serde.toVec facts).length ≤ maxCacheEntryBytes
  published : ∀ key facts, .published key facts ∈ w.history →
    .put key facts ∈ w.history ∧ (Serde.toVec facts).length ≤ maxCacheEntryBytes
  sourced : ∀ key content, w.files key = some content → initial key = some content
    ∨ ∃ facts, .published key facts ∈ w.history ∧ content = factFile key (Serde.toVec facts)
  /-- A repair that has found a damaged file still has it before it. -/
  damaged : ∀ process key facts, w.tasks process = .put (.metadata true) key facts
    ∨ w.tasks process = .put (.removeFile true) key facts →
    ∃ content, w.files key = some content ∧ readPayload key content = none

section Steps

variable {initial : Directory} {w : World} {process : Nat} {next : Task} {files : Directory}
  {events : List Event}

omit [Sha256] [Serde] in
theorem tasks_set_self : (w.set process next files events).tasks process = next :=
  Function.update_self _ _ _

variable {other : Nat}

omit [Sha256] [Serde] in
theorem tasks_set_of_ne (h : other ≠ process) :
    (w.set process next files events).tasks other = w.tasks other := Function.update_of_ne h _ _

/-- Two processes that hold the lock of a shard are one. -/
theorem Inv.holder_unique (hinv : Inv initial w) {shard : Shard}
    (h : (w.tasks process).held = some shard) (h' : (w.tasks other).held = some shard) :
    other = process := by
  have hprocess := hinv.exclusive process shard h
  rw [hinv.exclusive other shard h'] at hprocess
  exact Option.some.inj hprocess

variable (hinv : Inv initial w) (hmoved : Moved w process next files events)

include hinv hmoved

/-- The locks of the other processes stay theirs. -/
theorem Inv.locksAfter_of_ne {shard : Shard} (hne : other ≠ process)
    (hheld : (w.tasks other).held = some shard) :
    locksAfter w.locks process (w.tasks process) next shard = some other := by
  have hlock := hinv.exclusive other shard hheld
  -- The moving process neither holds this lock nor can get it.
  have htask : (w.tasks process).held ≠ some shard := fun h =>
    hne (hinv.holder_unique h hheld)
  have hnext : next.held ≠ some shard := by
    intro h
    obtain hnone | hsame | ⟨-, shard', hshard, hfree⟩ := hmoved.held
    · rw [hnone] at h
      cases h
    · exact htask (hsame.symm.trans h)
    · rw [h] at hshard
      cases hshard
      rw [hlock] at hfree
      cases hfree
  unfold locksAfter
  cases hafter : next.held with
  | some shard' =>
    have hshard : shard ≠ shard' := by
      rintro rfl
      exact hnext hafter
    exact (Function.update_of_ne hshard _ _).trans hlock
  | none =>
    cases hbefore : (w.tasks process).held with
    | some shard' =>
      have hshard : shard ≠ shard' := by
        rintro rfl
        exact htask hbefore
      exact (Function.update_of_ne hshard _ _).trans hlock
    | none => exact hlock

theorem Inv.exclusive_set (other : Nat) (shard : Shard)
    (h : ((w.set process next files events).tasks other).held = some shard) :
    (w.set process next files events).locks shard = some other := by
  by_cases hne : other = process
  · subst hne
    rw [tasks_set_self] at h
    show locksAfter w.locks other (w.tasks other) next shard = some other
    unfold locksAfter
    rw [h]
    exact Function.update_self _ _ _
  · rw [tasks_set_of_ne hne] at h
    exact hinv.locksAfter_of_ne hmoved hne h

theorem Inv.confined_set (other : Nat) (shard : Shard) (entries : List CacheEntry) (total : Nat)
    (h : (w.set process next files events).tasks other = .trimShard shard entries total) :
    ∀ entry ∈ entries, shardOf entry.1 = shard := by
  by_cases hne : other = process
  · subst hne
    rw [tasks_set_self] at h
    obtain hentries | ⟨entry, total', htask⟩ := hmoved.trim shard entries total h
    · exact hentries
    · exact (List.forall_mem_cons.mp (hinv.confined _ _ _ _ htask)).2
  · rw [tasks_set_of_ne hne] at h
    exact hinv.confined other shard entries total h

theorem Inv.announced_set (other : Nat) (stage : Stage) (key : FactKey) (facts : FileFacts)
    (h : (w.set process next files events).tasks other = .put stage key facts) :
    .put key facts ∈ w.history ++ events
      ∧ (Serde.toVec facts).length ≤ maxCacheEntryBytes := by
  by_cases hne : other = process
  · subst hne
    rw [tasks_set_self] at h
    obtain ⟨stage', htask⟩ | ⟨hevent, hsize⟩ := hmoved.put stage key facts h
    · obtain ⟨hput, hsize⟩ := hinv.announced _ _ _ _ htask
      exact ⟨List.mem_append_left _ hput, hsize⟩
    · exact ⟨List.mem_append_right _ hevent, hsize⟩
  · rw [tasks_set_of_ne hne] at h
    obtain ⟨hput, hsize⟩ := hinv.announced _ _ _ _ h
    exact ⟨List.mem_append_left _ hput, hsize⟩

theorem Inv.published_set
    (key : FactKey) (facts : FileFacts) (h : .published key facts ∈ w.history ++ events) :
    .put key facts ∈ w.history ++ events
      ∧ (Serde.toVec facts).length ≤ maxCacheEntryBytes := by
  obtain h | h := List.mem_append.mp h
  · obtain ⟨hput, hsize⟩ := hinv.published key facts h
    exact ⟨List.mem_append_left _ hput, hsize⟩
  · obtain ⟨key', facts', heq⟩ | ⟨key', -, stage, htask⟩ := hmoved.recorded _ h
    · cases heq
    · obtain ⟨hput, hsize⟩ := hinv.announced _ _ _ _ htask
      exact ⟨List.mem_append_left _ hput, hsize⟩

theorem Inv.sourced_set (key : FactKey) (content : Str) (h : files key = some content) :
    initial key = some content ∨ ∃ facts, .published key facts ∈ w.history ++ events
      ∧ content = factFile key (Serde.toVec facts) := by
  have hbefore : w.files key = some content → initial key = some content
      ∨ ∃ facts, .published key facts ∈ w.history ++ events
        ∧ content = factFile key (Serde.toVec facts) := by
    intro hfile
    obtain hinitial | ⟨facts, hpublished, hcontent⟩ := hinv.sourced key content hfile
    · exact .inl hinitial
    · exact .inr ⟨facts, List.mem_append_left _ hpublished, hcontent⟩
  obtain ⟨hfiles, -⟩ | ⟨path, file, hpath, hfiles, hchange⟩ := hmoved.change
  · exact hbefore (hfiles ▸ h)
  · rw [hfiles] at h
    by_cases hkey : key = path
    · subst hkey
      rw [Function.update_self] at h
      cases hchange with
      | unchanged same _ => exact hbefore (same ▸ h)
      | created stage key' facts put _ present recorded =>
        have hsame : key' = key := by
          rw [path_of_put put] at hpath
          exact Option.some.inj hpath
        subst hsame
        rw [present] at h
        cases h
        refine .inr ⟨facts, List.mem_append_right _ ?_, rfl⟩
        rw [recorded]
        exact List.mem_singleton_self _
      | repaired found key' facts content' _ _ absent _ =>
        rw [absent] at h
        cases h
      | trimmed shard entry entries total content' _ _ absent _ =>
        rw [absent] at h
        cases h
    · rw [Function.update_of_ne hkey] at h
      exact hbefore h

/-- While another process repairs a file it has found damaged, nobody changes it. -/
theorem Inv.files_of_repair {key : FactKey} {content : Str} (hne : other ≠ process)
    (hheld : (w.tasks other).held = some (shardOf key)) (hfile : w.files key = some content) :
    files key = some content := by
  have hlock : (w.tasks process).held ≠ some (shardOf key) := fun h =>
    hne (hinv.holder_unique h hheld)
  obtain ⟨hfiles, -⟩ | ⟨path, file, hpath, hfiles, hchange⟩ := hmoved.change
  · rw [hfiles, hfile]
  · rw [hfiles]
    by_cases hkey : key = path
    · subst hkey
      rw [Function.update_self]
      cases hchange with
      | unchanged same _ => rw [same, hfile]
      | created stage key' facts _ absent _ _ =>
        rw [hfile] at absent
        cases absent
      | repaired found key' facts content' repair _ _ _ =>
        rw [path_of_put repair] at hpath
        cases hpath
        rw [repair] at hlock
        exact absurd rfl hlock
      | trimmed shard entry entries total content' trim _ _ _ =>
        have hshard := hinv.confined _ _ _ _ trim entry List.mem_cons_self
        rw [trim] at hpath hlock
        cases hpath
        rw [hshard] at hlock
        exact absurd rfl hlock
    · rw [Function.update_of_ne hkey, hfile]

theorem Inv.damaged_set (other : Nat) (key : FactKey) (facts : FileFacts)
    (h : (w.set process next files events).tasks other = .put (.metadata true) key facts
      ∨ (w.set process next files events).tasks other = .put (.removeFile true) key facts) :
    ∃ content, files key = some content ∧ readPayload key content = none := by
  by_cases hne : other = process
  · subst hne
    rw [tasks_set_self] at h
    obtain h | h := h
    · obtain ⟨-, hsame, content, hfile, hinvalid⟩ := hmoved.metadata key facts h
      exact ⟨content, hsame.trans hfile, hinvalid⟩
    · obtain ⟨htask, hsame⟩ := hmoved.removeFile key facts h
      obtain ⟨content, hfile, hinvalid⟩ := hinv.damaged _ key facts (.inl htask)
      exact ⟨content, hsame.trans hfile, hinvalid⟩
  · rw [tasks_set_of_ne hne] at h
    obtain ⟨content, hfile, hinvalid⟩ := hinv.damaged other key facts h
    have hheld : (w.tasks other).held = some (shardOf key) := by
      obtain h | h := h <;> rw [h] <;> rfl
    exact ⟨content, hinv.files_of_repair hmoved hne hheld hfile, hinvalid⟩

theorem Inv.set :
    Inv initial (w.set process next files events) where
  exclusive := hinv.exclusive_set hmoved
  confined := hinv.confined_set hmoved
  announced := hinv.announced_set hmoved
  published := hinv.published_set hmoved
  sourced := hinv.sourced_set hmoved
  damaged := hinv.damaged_set hmoved

end Steps

theorem inv_initial (initial : Directory) : Inv initial { files := initial } where
  exclusive _ _ h := nomatch h
  confined _ _ _ _ h := nomatch h
  announced _ _ _ _ h := nomatch h
  published _ _ h := nomatch h
  sourced _ _ h := .inl h
  damaged _ _ _ h := nomatch h

/-! ## The history -/

variable (initial : Directory)

/-- What must have come before an event. -/
def Supported (before : List Event) : Event → Prop
  | .got key facts => .published key facts ∈ before
      ∨ ((initial key).bind (readPayload key)).bind Serde.fromSlice = some facts
  | .nonDeterministic key => ∃ facts payload, .put key facts ∈ before
      ∧ payload ≠ Serde.toVec facts
      ∧ ((initial key).bind (readPayload key) = some payload
        ∨ ∃ facts', .put key facts' ∈ before ∧ payload = Serde.toVec facts')
  | .repaired key found content => found = true → readPayload key content = none
  | _ => True

/-- Every event of a history has what must have come before it. -/
def Justified (history : List Event) : Prop :=
  ∀ before event after, history = before ++ event :: after → Supported initial before event

variable {initial} {w : World} {process : Nat} {next : Task} {files : Directory}
  {events : List Event}

theorem Supported.mono {before before' : List Event} {event : Event}
    (h : Supported initial before event) (hsub : before ⊆ before') :
    Supported initial before' event := by
  cases event with
  | got key facts => exact h.imp (fun hmem => hsub hmem) id
  | nonDeterministic key =>
    obtain ⟨facts, payload, hput, hne, hsource⟩ := h
    exact ⟨facts, payload, hsub hput, hne,
      hsource.imp id fun ⟨facts', hput', heq⟩ => ⟨facts', hsub hput', heq⟩⟩
  | repaired key found content => exact h
  | put key facts => trivial
  | published key facts => trivial
  | trimmed key content => trivial

theorem Justified.append {history : List Event} (h : Justified initial history)
    (hevents : ∀ event ∈ events, Supported initial history event) :
    Justified initial (history ++ events) := by
  intro before event after heq
  obtain ⟨rest, hbefore, hrest⟩ | ⟨rest, hhistory, hafter⟩ := List.append_eq_append_iff.mp heq
  · have hmem : event ∈ events := by
      rw [hrest]
      exact List.mem_append_right _ List.mem_cons_self
    refine (hevents event hmem).mono ?_
    rw [hbefore]
    exact List.subset_append_left _ _
  · cases rest with
    | nil =>
      have hmem : event ∈ events := by
        rw [← List.nil_append events, ← hafter]
        exact List.mem_cons_self
      rw [List.append_nil] at hhistory
      exact hhistory ▸ hevents event hmem
    | cons first rest =>
      cases hafter
      exact h before _ _ hhistory

variable {key : FactKey}

/-- The payload of a file was there at first, or was published. -/
theorem Inv.payload_sourced (hinv : Inv initial w)
    (hdigest : ∀ s, (Sha256.digest s).length = 32) {payload : Str}
    (h : (w.files key).bind (readPayload key) = some payload) :
    (initial key).bind (readPayload key) = some payload
      ∨ ∃ facts, .published key facts ∈ w.history ∧ payload = Serde.toVec facts := by
  obtain ⟨content, hfile, hread⟩ := Option.bind_eq_some_iff.mp h
  obtain hinitial | ⟨facts, hpublished, rfl⟩ := hinv.sourced key content hfile
  · exact .inl (Option.bind_eq_some_iff.mpr ⟨content, hinitial, hread⟩)
  · rw [readPayload_factFile (hdigest _) (hinv.published key facts hpublished).2] at hread
    cases hread
    exact .inr ⟨facts, hpublished, rfl⟩

omit [Serde] in
theorem existingFact_eq_conflicting {file : Option Str} {payload : Str}
    (h : existingFact file key payload = .conflicting) :
    ∃ existing, file.bind (readPayload key) = some existing ∧ existing ≠ payload := by
  unfold existingFact at h
  split at h
  · next existing hexisting =>
    split at h
    · cases h
    · next hne => exact ⟨existing, hexisting, hne⟩
  · cases h

/-- What a step records is supported by what was recorded before. -/
theorem Inv.supported (hinv : Inv initial w) (hdigest : ∀ s, (Sha256.digest s).length = 32)
    (hserde : ∀ key facts, .put key facts ∈ w.history →
      Serde.fromSlice (Serde.toVec facts) = some facts)
    (hmoved : Moved w process next files events) :
    ∀ event ∈ events, Supported initial w.history event := by
  intro event hevent
  obtain ⟨key, facts, rfl⟩ | ⟨path, hpath, hrecorded⟩ := hmoved.recorded event hevent
  · trivial
  · cases event with
    | put key facts => trivial
    | published key facts => trivial
    | trimmed key content => trivial
    | got key facts =>
      obtain ⟨htask, hfacts⟩ := hrecorded
      rw [htask] at hpath
      cases hpath
      obtain ⟨payload, hpayload, hslice⟩ := Option.bind_eq_some_iff.mp hfacts
      obtain hinitial | ⟨facts', hpublished, rfl⟩ := hinv.payload_sourced hdigest hpayload
      · exact .inr (Option.bind_eq_some_iff.mpr ⟨payload, hinitial, hslice⟩)
      · rw [hserde _ facts' (hinv.published _ facts' hpublished).1] at hslice
        cases hslice
        exact .inl hpublished
    | nonDeterministic key =>
      obtain ⟨stage, facts, htask, hconflict⟩ := hrecorded
      rw [path_of_put htask] at hpath
      cases hpath
      obtain ⟨existing, hexisting, hne⟩ := existingFact_eq_conflicting hconflict
      refine ⟨facts, existing, (hinv.announced _ _ _ _ htask).1, hne, ?_⟩
      obtain hinitial | ⟨facts', hpublished, heq⟩ := hinv.payload_sourced hdigest hexisting
      · exact .inl hinitial
      · exact .inr ⟨facts', (hinv.published _ facts' hpublished).1, heq⟩
    | repaired key found content =>
      rintro rfl
      obtain ⟨facts, htask, hfile⟩ := hrecorded
      rw [path_of_put htask] at hpath
      cases hpath
      obtain ⟨content', hfile', hinvalid⟩ := hinv.damaged _ _ facts (.inr htask)
      rw [hfile] at hfile'
      cases hfile'
      exact hinvalid

/-! ## Runs -/

/-- What every run from the files `initial` keeps up. -/
theorem inv_run (hdigest : ∀ s, (Sha256.digest s).length = 32) {actions : List Action}
    (hrun : Transition.run step { files := initial } actions = some w) :
    Inv initial w ∧ ((∀ key facts, .put key facts ∈ w.history →
      Serde.fromSlice (Serde.toVec facts) = some facts) → Justified initial w.history) := by
  refine @Transition.run_preserves _ _ step _ _ _ (fun w => Inv initial w
    ∧ ((∀ key facts, .put key facts ∈ w.history →
      Serde.fromSlice (Serde.toVec facts) = some facts) → Justified initial w.history))
    (fun _ => True) (fun w action w' hw _ hstep => ?_) hrun (fun _ _ => trivial)
    ⟨inv_initial initial, fun _ => ?_⟩
  · obtain ⟨hinv, hjustified⟩ := hw
    obtain rfl | ⟨process, next, files, events, rfl, hmoved⟩ := moved_of_step hstep
    · exact ⟨hinv, hjustified⟩
    · refine ⟨hinv.set hmoved, fun hserde => ?_⟩
      have hserde' : ∀ key facts, .put key facts ∈ w.history →
          Serde.fromSlice (Serde.toVec facts) = some facts := fun key facts hput =>
        hserde key facts (List.mem_append_left _ hput)
      exact (hjustified hserde').append (hinv.supported hdigest hserde' hmoved)
  · intro before event after heq
    exact absurd heq (by simp)

/-- A file that goes is trimmed or repaired away; a repair that found a file at its
    look under the lock removes no fact. -/
theorem Inv.removed (hinv : Inv initial w) {w' : World} {action : Action}
    (hstep : step w action = some w') {content payload : Str}
    (hfile : w.files key = some content) (hvalid : readPayload key content = some payload)
    (hgone : w'.files key ≠ some content) :
    w'.files key = none ∧ (w'.history = w.history ++ [.trimmed key content]
      ∨ w'.history = w.history ++ [.repaired key false content]) := by
  obtain rfl | ⟨process, next, files, events, rfl, hmoved⟩ := moved_of_step hstep
  · exact absurd hfile hgone
  change files key ≠ some content at hgone
  show files key = none ∧ (w.history ++ events = _ ∨ w.history ++ events = _)
  obtain ⟨hfiles, -⟩ | ⟨path, file, hpath, hfiles, hchange⟩ := hmoved.change
  · exact absurd (hfiles ▸ hfile) hgone
  · rw [hfiles] at hgone ⊢
    by_cases hkey : key = path
    · subst hkey
      rw [Function.update_self] at hgone ⊢
      cases hchange with
      | unchanged same _ => exact absurd (same.trans hfile) hgone
      | created stage key' facts _ absent _ _ =>
        rw [hfile] at absent
        cases absent
      | repaired found key' facts content' repair present absent recorded =>
        rw [path_of_put repair] at hpath
        cases hpath
        rw [hfile] at present
        cases present
        cases found with
        | false => exact ⟨absent, .inr (by rw [recorded])⟩
        | true =>
          obtain ⟨content', hfile', hinvalid⟩ := hinv.damaged process _ facts (.inr repair)
          rw [hfile] at hfile'
          cases hfile'
          rw [hvalid] at hinvalid
          cases hinvalid
      | trimmed shard entry entries total content' trim present absent recorded =>
        rw [trim] at hpath
        cases hpath
        rw [hfile] at present
        cases present
        exact ⟨absent, .inl (by rw [recorded])⟩
    · rw [Function.update_of_ne hkey] at hgone
      exact absurd hfile hgone

/-- A shared cache under any interleaving, from any files: a lookup returns what was
    published under the key, or what was there at first; stores of equal facts under a
    key never conflict when a fact that was there at first is the same; and a valid
    fact is removed by the quota only, or by a repair that found no file when it
    looked under the lock. -/
theorem shared_cache_safe (hdigest : ∀ s, (Sha256.digest s).length = 32) {actions : List Action}
    (hrun : Transition.run step { files := initial } actions = some w)
    (hserde : ∀ key facts, .put key facts ∈ w.history →
      Serde.fromSlice (Serde.toVec facts) = some facts) :
    (∀ before key facts after, w.history = before ++ .got key facts :: after →
      .published key facts ∈ before
        ∨ ((initial key).bind (readPayload key)).bind Serde.fromSlice = some facts)
    ∧ (∀ key facts, (∀ facts', .put key facts' ∈ w.history → facts' = facts) →
      (∀ payload, (initial key).bind (readPayload key) = some payload →
        payload = Serde.toVec facts) →
      .nonDeterministic key ∉ w.history)
    ∧ (∀ action w', step w action = some w' → ∀ key content payload,
      w.files key = some content → readPayload key content = some payload →
      w'.files key ≠ some content →
      w'.files key = none ∧ (w'.history = w.history ++ [.trimmed key content]
        ∨ w'.history = w.history ++ [.repaired key false content])) := by
  obtain ⟨hinv, hjustified⟩ := inv_run hdigest hrun
  have hjustified := hjustified hserde
  refine ⟨fun before key facts after heq => hjustified before _ after heq,
    fun key facts hequal hinitial hmem => ?_,
    fun action w' hstep key content payload hfile hvalid hgone =>
      hinv.removed hstep hfile hvalid hgone⟩
  obtain ⟨before, after, heq⟩ := List.append_of_mem hmem
  obtain ⟨facts', payload, hput, hne, hsource⟩ := hjustified before _ after heq
  have hsub : before ⊆ w.history := by
    rw [heq]
    exact List.subset_append_left _ _
  obtain rfl := hequal facts' (hsub hput)
  obtain hfirst | ⟨facts'', hput', rfl⟩ := hsource
  · exact hne (hinitial payload hfirst)
  · rw [hequal facts'' (hsub hput')] at hne
    exact hne rfl

end Opcore.Shared

namespace Opcore.Shared

open Text

/-! ## Runs on a sample

The serialization and the digest are those of empty facts with one of two parsers. -/

def sampleText (parser : Str) : Str :=
  ascii "\x7b\"diagnostics\":[],\"parser\":\"" ++ parser
    ++ ascii "\",\"parserVersion\":\"\""
    ++ ascii ",\"dependencies\":\x7b\"status\":\"unsupported\",\"references\":[]\x7d"
    ++ ascii ",\"callableFingerprints\":\x7b\"status\":\"unsupported\",\"callables\":[]\x7d"
    ++ ascii ",\"regionFingerprints\":\x7b\"status\":\"unsupported\",\"tokenCount\":0,\"anchors\":[]\x7d"
    ++ ascii ",\"interfaces\":\x7b\"status\":\"unsupported\",\"publicSurfaceStatus\":\"unsupported\""
    ++ ascii ",\"imports\":[],\"exports\":[],\"shapes\":[]"
    ++ ascii ",\"gaps\":\x7b\"wildcardExports\":0,\"namespaceImports\":0"
    ++ ascii ",\"commonJsExports\":0,\"dynamicLoaders\":0,\"unsupportedPatterns\":0\x7d\x7d\x7d"

abbrev sampleSerde : Serde where
  toVec facts := sampleText facts.parser
  fromSlice s :=
    if s = sampleText [] then some {}
    else if s = sampleText (ascii "x") then some { parser := ascii "x" }
    else none

def emptyDigest : Str :=
  [224, 239, 253, 158, 140, 225, 249, 36, 8, 128, 24, 184, 113, 210, 104, 182,
    150, 248, 45, 175, 123, 231, 252, 74, 52, 162, 176, 225, 43, 241, 66, 254]

def otherDigest : Str :=
  [97, 86, 106, 253, 40, 79, 76, 87, 44, 191, 184, 145, 51, 178, 100, 165,
    70, 250, 159, 209, 39, 108, 181, 113, 141, 248, 198, 2, 156, 97, 138, 254]

abbrev sampleSha256 : Sha256 where
  digest s :=
    if s = sampleText [] then emptyDigest
    else if s = sampleText (ascii "x") then otherDigest
    else List.replicate 32 0

def sampleKey (first : UInt8) : FactKey := ⟨first :: List.replicate 31 0, rfl⟩

abbrev sampleRun (initial : Directory) (actions : List Action) : Option World :=
  Transition.run (@step sampleSha256 sampleSerde) { files := initial } actions

theorem length_sampleDigest (s : Str) : (sampleSha256.digest s).length = 32 := by
  show (if s = sampleText [] then emptyDigest
    else if s = sampleText (ascii "x") then otherDigest else List.replicate 32 0).length = 32
  split
  · rfl
  · split <;> rfl

/-- A store of one process and a lookup of another. -/
theorem shared_cache_safe_lookup : ∃ w,
    sampleRun (fun _ => none) [.put 0 (sampleKey 0) {}, .advance 0, .get 1 (sampleKey 0),
      .advance 0, .advance 1] = some w
    ∧ w.history = [.put (sampleKey 0) {}, .published (sampleKey 0) {}, .got (sampleKey 0) {}]
    ∧ .nonDeterministic (sampleKey 0) ∉ w.history := by
  have hhistory : (sampleRun (fun _ => none) [.put 0 (sampleKey 0) {}, .advance 0,
      .get 1 (sampleKey 0), .advance 0, .advance 1]).map World.history
      = some [.put (sampleKey 0) {}, .published (sampleKey 0) {}, .got (sampleKey 0) {}] := by
    decide +kernel
  obtain ⟨w, hrun, hhistory⟩ := Option.map_eq_some_iff.mp hhistory
  have hputs : ∀ key facts, Event.put key facts ∈ w.history → key = sampleKey 0 ∧ facts = {} := by
    intro key facts hmem
    rw [hhistory] at hmem
    simpa using hmem
  have hserde : ∀ key facts, Event.put key facts ∈ w.history →
      sampleSerde.fromSlice (sampleSerde.toVec facts) = some facts := by
    intro key facts hmem
    obtain ⟨-, rfl⟩ := hputs key facts hmem
    exact if_pos rfl
  refine ⟨w, hrun, hhistory, (@shared_cache_safe sampleSha256 sampleSerde _ _ length_sampleDigest _
    hrun hserde).2.1 (sampleKey 0) {} (fun facts hmem => (hputs _ facts hmem).2) ?_⟩
  intro payload hpayload
  cases hpayload

/-- A fact of other facts that was there at first conflicts with the only store.  And
    a repair may remove a valid fact: process 0 meets a damaged file, process 2 trims
    the shard before process 0 gets the lock, and process 1 publishes after process 0
    has seen that no file is there. -/
theorem not_forall_shared_cache_safe :
    (¬ ∀ initial actions w, sampleRun initial actions = some w →
      ∀ key facts, (∀ facts', .put key facts' ∈ w.history → facts' = facts) →
        .nonDeterministic key ∉ w.history)
    ∧ ¬ ∀ initial actions w, sampleRun initial actions = some w →
      ∀ key found content, .repaired key found content ∈ w.history →
        @readPayload sampleSha256 key content = none := by
  constructor
  · intro h
    have hhistory : (sampleRun (fun key => some (@factFile sampleSha256 key
        (sampleText (ascii "x")))) [.put 0 (sampleKey 0) {}, .advance 0]).map World.history
        = some [.put (sampleKey 0) {}, .nonDeterministic (sampleKey 0)] := by
      decide +kernel
    obtain ⟨w, hrun, hhistory⟩ := Option.map_eq_some_iff.mp hhistory
    refine h _ _ w hrun (sampleKey 0) {} (fun facts hmem => ?_) ?_
    · rw [hhistory] at hmem
      simpa using hmem
    · rw [hhistory]
      simp
  · intro h
    have hhistory : (sampleRun (fun _ => some []) [.put 0 (sampleKey 0) {}, .advance 0, .advance 0,
        .advance 0, .enforceShardQuota 2 0, .advance 2,
        .scanned 2 [(sampleKey 0, 0), (sampleKey 1, maxCacheBytes)], .advance 2, .advance 2,
        .advance 2, .advance 0, .advance 0, .put 1 (sampleKey 0) {}, .advance 1, .advance 1,
        .advance 0, .advance 0]).map World.history
        = some [.put (sampleKey 0) {}, .trimmed (sampleKey 0) [], .trimmed (sampleKey 1) [],
          .put (sampleKey 0) {}, .published (sampleKey 0) {},
          .repaired (sampleKey 0) false (@factFile sampleSha256 (sampleKey 0)
            (sampleText []))] := by
      decide +kernel
    obtain ⟨w, hrun, hhistory⟩ := Option.map_eq_some_iff.mp hhistory
    have hread := h _ _ w hrun (sampleKey 0) false
      (@factFile sampleSha256 (sampleKey 0) (sampleText [])) (by rw [hhistory]; simp)
    rw [@readPayload_factFile sampleSha256 _ _ (length_sampleDigest _) (by decide +kernel)] at hread
    cases hread

end Opcore.Shared
