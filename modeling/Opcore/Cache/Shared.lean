/-
  Opcore.Cache.Shared

  A fact cache that several processes share: a directory whose files are read,
  created where there is none, and removed, one of these at a time.  Stores publish
  without a lock; the repair of a damaged file and the trimming of a shard hold the
  lock of the shard.
-/
import Mathlib.Logic.Function.Basic
import Opcore.Cache.Entry
import Opcore.Library.Transition

namespace Opcore.Shared

open Text

def maxCacheBytes : Nat := 2 * 1024 * 1024 * 1024

/-- The directory of a key: the first digit of its hexadecimal text. -/
abbrev Shard := UInt8

def shardOf (key : FactKey) : Shard := key.bytes.headD 0 >>> 4

/-! ## What a process is doing -/

/-- Where a store is: each stage ends with one access to the directory or the lock.
    `found` says whether a file was at the path when the repair looked there under
    the lock. -/
inductive Stage where
  | existing
  | publish
  | existingAgain
  | tryLockShard
  | existingLocked
  | metadata (found : Bool)
  | removeFile (found : Bool)
  | finishRepair
  | existingRepaired
  deriving DecidableEq

/-- An entry of a shard as the trimming has seen it: its key and its size. -/
abbrev CacheEntry := FactKey × Nat

/-- What a process is at. -/
inductive Task where
  | idle
  | get (key : FactKey)
  | put (stage : Stage) (key : FactKey) (facts : FileFacts)
  | tryLockShard (shard : Shard)
  | scanShard (shard : Shard)
  | trimShard (shard : Shard) (entries : List CacheEntry) (total : Nat)

/-- What is recorded of a run. -/
inductive Event where
  | put (key : FactKey) (facts : FileFacts)
  | published (key : FactKey) (facts : FileFacts)
  | got (key : FactKey) (facts : FileFacts)
  | nonDeterministic (key : FactKey)
  | repaired (key : FactKey) (found : Bool) (content : Str)
  | trimmed (key : FactKey) (content : Str)
  deriving DecidableEq

def Stage.locked : Stage → Bool
  | .existing | .publish | .existingAgain | .tryLockShard => false
  | .existingLocked | .metadata _ | .removeFile _ | .finishRepair | .existingRepaired => true

/-- The shard whose lock the process holds. -/
def Task.held : Task → Option Shard
  | .put stage key _ => if stage.locked then some (shardOf key) else none
  | .scanShard shard | .trimShard shard _ _ => some shard
  | _ => none

/-- The shard whose lock the process is about to try. -/
def Task.wanted : Task → Option Shard
  | .put .tryLockShard key _ => some (shardOf key)
  | .tryLockShard shard => some shard
  | _ => none

/-- The path the next access is to. -/
def Task.path : Task → Option FactKey
  | .get key => some key
  | .put _ key _ => some key
  | .trimShard _ (entry :: _) _ => some entry.1
  | _ => none

variable [Sha256] [Serde]

/-- The end of a store or its next stage, after a look at the path. -/
def lookAt (key : FactKey) (facts : FileFacts) (file : Option Str) (missing : Task) :
    Task × Option Str × List Event :=
  match existingFact file key (Serde.toVec facts) with
  | .matching => (.idle, file, [])
  | .conflicting => (.idle, file, [.nonDeterministic key])
  | .missing => (missing, file, [])

/-- `persist_noclobber`: publish where no file is. -/
def persistNoclobber (key : FactKey) (facts : FileFacts) (file : Option Str) (exists_ : Task) :
    Task × Option Str × List Event :=
  match file with
  | none => (.idle, some (factFile key (Serde.toVec facts)), [.published key facts])
  | some _ => (exists_, file, [])

/-- The next access of a store. -/
def advancePut (stage : Stage) (key : FactKey) (facts : FileFacts) (file : Option Str)
    (free : Bool) : Task × Option Str × List Event :=
  match stage with
  | .existing => lookAt key facts file (.put .publish key facts)
  | .publish => persistNoclobber key facts file (.put .existingAgain key facts)
  | .existingAgain => lookAt key facts file (.put .tryLockShard key facts)
  | .tryLockShard => (if free then .put .existingLocked key facts else .idle, file, [])
  | .existingLocked => lookAt key facts file (.put (.metadata file.isSome) key facts)
  | .metadata found =>
    match file with
    | none => (.idle, none, [])
    | some _ => (.put (.removeFile found) key facts, file, [])
  | .removeFile found =>
    match file with
    | none => (.idle, none, [])
    | some content => (.put .finishRepair key facts, none, [.repaired key found content])
  | .finishRepair => persistNoclobber key facts file (.put .existingRepaired key facts)
  | .existingRepaired => lookAt key facts file .idle

/-- One removal of `trim_shard`, when the shard is still too large. -/
def advanceTrim (shard : Shard) (entry : CacheEntry) (entries : List CacheEntry) (total : Nat)
    (file : Option Str) : Task × Option Str × List Event :=
  if total ≤ maxCacheBytes / 16 * 9 / 10 then (.idle, file, [])
  else
    match file with
    | none => (.trimShard shard entries total, none, [])
    | some content => (.trimShard shard entries (total - entry.2), none, [.trimmed entry.1 content])

/-- The next access of a process: what it does next, what is at its path then, and
    what is recorded. -/
def Task.advance (task : Task) (file : Option Str) (free : Bool) :
    Task × Option Str × List Event :=
  match task with
  | .idle => (.idle, file, [])
  | .get key =>
    match (file.bind (readPayload key)).bind Serde.fromSlice with
    | some facts => (.idle, file, [.got key facts])
    | none => (.idle, file, [])
  | .put stage key facts => advancePut stage key facts file free
  | .tryLockShard shard => (if free then .scanShard shard else .idle, file, [])
  | .scanShard shard => (.scanShard shard, file, [])
  | .trimShard _ [] _ => (.idle, file, [])
  | .trimShard shard (entry :: entries) total => advanceTrim shard entry entries total file

/-! ## The processes together -/

abbrev Directory := FactKey → Option Str

/-- The directory, the locks of its shards, and what every process is at. -/
structure World where
  files : Directory
  locks : Shard → Option Nat := fun _ => none
  tasks : Nat → Task := fun _ => .idle
  history : List Event := []

inductive Action where
  | get (process : Nat) (key : FactKey)
  | put (process : Nat) (key : FactKey) (facts : FileFacts)
  | enforceShardQuota (process : Nat) (shard : Shard)
  | advance (process : Nat)
  /-- The files of a shard as the scan has seen them, by age. -/
  | scanned (process : Nat) (entries : List CacheEntry)
  /-- The process fails or ends, at any point. -/
  | stop (process : Nat)

/-- The locks when a process goes from one task to another. -/
def locksAfter (locks : Shard → Option Nat) (process : Nat) (task next : Task) :
    Shard → Option Nat :=
  match next.held, task.held with
  | some shard, _ => Function.update locks shard (some process)
  | none, some shard => Function.update locks shard none
  | none, none => locks

def World.set (w : World) (process : Nat) (next : Task) (files : Directory)
    (events : List Event) : World where
  files := files
  locks := locksAfter w.locks process (w.tasks process) next
  tasks := Function.update w.tasks process next
  history := w.history ++ events

/-- The lock the process is about to try is free. -/
def World.free (w : World) (task : Task) : Bool :=
  match task.wanted with
  | some shard => (w.locks shard).isNone
  | none => true

/-- One access by one process. -/
def World.advance (w : World) (process : Nat) : World :=
  let task := w.tasks process
  match task.path with
  | none =>
    let (next, _, events) := task.advance none (w.free task)
    w.set process next w.files events
  | some key =>
    let (next, file, events) := task.advance (w.files key) (w.free task)
    w.set process next (Function.update w.files key file) events

/-- `trim_shard` starts when the shard is too large. -/
def startTrim (shard : Shard) (entries : List CacheEntry) : Task :=
  let entries := entries.filter fun entry => shardOf entry.1 = shard
  let total := (entries.map Prod.snd).sum
  if total ≤ maxCacheBytes / 16 then .idle else .trimShard shard entries total

/-- One step of one process. -/
def step (w : World) : Action → Option World
  | .get process key =>
    match w.tasks process with
    | .idle => some (w.set process (.get key) w.files [])
    | _ => none
  | .put process key facts =>
    match w.tasks process with
    | .idle =>
      if maxCacheEntryBytes < (Serde.toVec facts).length then some w
      else some (w.set process (.put .existing key facts) w.files [.put key facts])
    | _ => none
  | .enforceShardQuota process shard =>
    match w.tasks process with
    | .idle => some (w.set process (.tryLockShard shard) w.files [])
    | _ => none
  | .advance process => some (w.advance process)
  | .scanned process entries =>
    match w.tasks process with
    | .scanShard shard => some (w.set process (startTrim shard entries) w.files [])
    | _ => none
  | .stop process => some (w.set process .idle w.files [])

/-! ## What one access can do -/

/-- How the file at the path changes, with what is recorded of it. -/
inductive FileChange (task : Task) (file file' : Option Str) (events : List Event) : Prop where
  | unchanged (same : file' = file) (quiet : ∀ key facts, .published key facts ∉ events)
  | created (stage : Stage) (key : FactKey) (facts : FileFacts) (put : task = .put stage key facts)
      (absent : file = none) (present : file' = some (factFile key (Serde.toVec facts)))
      (recorded : events = [.published key facts])
  | repaired (found : Bool) (key : FactKey) (facts : FileFacts) (content : Str)
      (repair : task = .put (.removeFile found) key facts) (present : file = some content)
      (absent : file' = none) (recorded : events = [.repaired key found content])
  | trimmed (shard : Shard) (entry : CacheEntry) (entries : List CacheEntry) (total : Nat)
      (content : Str) (trim : task = .trimShard shard (entry :: entries) total)
      (present : file = some content) (absent : file' = none)
      (recorded : events = [.trimmed entry.1 content])

/-- Where a recorded event comes from. -/
def Recorded (task : Task) (file : Option Str) : Event → Prop
  | .put _ _ => False
  | .published key facts => ∃ stage, task = .put stage key facts
  | .got key facts =>
    task = .get key ∧ (file.bind (readPayload key)).bind Serde.fromSlice = some facts
  | .nonDeterministic key => ∃ stage facts, task = .put stage key facts
      ∧ existingFact file key (Serde.toVec facts) = .conflicting
  | .repaired key found content => ∃ facts, task = .put (.removeFile found) key facts
      ∧ file = some content
  | .trimmed _ _ => True

/-- All that one access can do. -/
structure Advanced (task : Task) (file : Option Str) (free : Bool) (next : Task)
    (file' : Option Str) (events : List Event) : Prop where
  change : FileChange task file file' events
  recorded : ∀ event ∈ events, Recorded task file event
  held : next.held = none ∨ next.held = task.held
    ∨ (task.held = none ∧ free = true ∧ next.held = task.wanted)
  /-- A store keeps its key and facts. -/
  put : ∀ stage key facts, next = .put stage key facts → ∃ stage', task = .put stage' key facts
  /-- A repair that found a file has seen that it is no fact of the key. -/
  metadata : ∀ key facts, next = .put (.metadata true) key facts →
    task = .put .existingLocked key facts ∧ file' = file
      ∧ ∃ content, file = some content ∧ readPayload key content = none
  removeFile : ∀ key facts, next = .put (.removeFile true) key facts →
    task = .put (.metadata true) key facts ∧ file' = file
  trim : ∀ shard entries total, next = .trimShard shard entries total →
    ∃ entry total', task = .trimShard shard (entry :: entries) total'

section Access

variable {task next : Task} {file file' : Option Str} {free : Bool} {events : List Event}
  {key : FactKey} {facts : FileFacts} {stage : Stage}

/-- An access after which the process is done, and that changes nothing. -/
theorem advanced_done (events : List Event) (hquiet : ∀ key facts, .published key facts ∉ events)
    (hrecorded : ∀ event ∈ events, Recorded task file event) :
    Advanced task file free .idle file events where
  change := .unchanged rfl hquiet
  recorded := hrecorded
  held := .inl rfl
  put _ _ _ h := nomatch h
  metadata _ _ h := nomatch h
  removeFile _ _ h := nomatch h
  trim _ _ _ h := nomatch h

/-- A look at the path: the store is done, or goes on when there is no fact. -/
theorem advanced_lookAt {missing : Task} (htask : task = .put stage key facts)
    (hmissing : existingFact file key (Serde.toVec facts) = .missing →
      Advanced task file free missing file []) :
    Advanced task file free (lookAt key facts file missing).1 (lookAt key facts file missing).2.1
      (lookAt key facts file missing).2.2 := by
  unfold lookAt
  split
  · exact advanced_done [] (by simp) (by simp)
  · next hconflict =>
    refine advanced_done [.nonDeterministic key] (by simp) ?_
    intro event hevent
    rw [List.mem_singleton.mp hevent]
    exact ⟨stage, facts, htask, hconflict⟩
  · next hnone => exact hmissing hnone

/-- The next stage of a store that neither repairs nor changes anything. -/
theorem advanced_stage {stage' : Stage} (htask : task = .put stage key facts)
    (hheld : (Task.put stage' key facts).held = none
      ∨ (Task.put stage' key facts).held = task.held
      ∨ (task.held = none ∧ free = true ∧ (Task.put stage' key facts).held = task.wanted))
    (hmetadata : stage' ≠ .metadata true) (hremove : stage' ≠ .removeFile true) :
    Advanced task file free (.put stage' key facts) file [] where
  change := .unchanged rfl (by simp)
  recorded := by simp
  held := hheld
  put stage'' key' facts' h := by
    cases h
    exact ⟨stage, htask⟩
  metadata key' facts' h := by
    cases h
    exact absurd rfl hmetadata
  removeFile key' facts' h := by
    cases h
    exact absurd rfl hremove
  trim _ _ _ h := nomatch h

theorem advanced_persistNoclobber {stage' : Stage} (htask : task = .put stage key facts)
    (hheld : (Task.put stage' key facts).held = task.held)
    (hmetadata : stage' ≠ .metadata true) (hremove : stage' ≠ .removeFile true) :
    Advanced task file free (persistNoclobber key facts file (.put stage' key facts)).1
      (persistNoclobber key facts file (.put stage' key facts)).2.1
      (persistNoclobber key facts file (.put stage' key facts)).2.2 := by
  cases file with
  | none =>
    refine ⟨.created stage key facts htask rfl rfl rfl, ?_, .inl rfl, ?_, ?_, ?_, ?_⟩
    · intro event hevent
      rw [List.mem_singleton.mp hevent]
      exact ⟨stage, htask⟩
    · intro _ _ _ h
      cases h
    · intro _ _ h
      cases h
    · intro _ _ h
      cases h
    · intro _ _ _ h
      cases h
  | some content => exact advanced_stage htask (.inr (.inl hheld)) hmetadata hremove

end Access

theorem advanced_put (stage : Stage) (key : FactKey) (facts : FileFacts) (file : Option Str)
    (free : Bool) :
    Advanced (.put stage key facts) file free (advancePut stage key facts file free).1
      (advancePut stage key facts file free).2.1 (advancePut stage key facts file free).2.2 := by
  cases stage with
  | existing => exact advanced_lookAt rfl fun _ => advanced_stage rfl (.inl rfl) (by simp) (by simp)
  | publish => exact advanced_persistNoclobber rfl rfl (by simp) (by simp)
  | existingAgain => exact advanced_lookAt rfl fun _ => advanced_stage rfl (.inl rfl) (by simp) (by simp)
  | tryLockShard =>
    cases free with
    | false => exact advanced_done [] (by simp) (by simp)
    | true => exact advanced_stage rfl (.inr (.inr ⟨rfl, rfl, rfl⟩)) (by simp) (by simp)
  | existingLocked =>
    refine advanced_lookAt rfl fun hmissing => ?_
    cases file with
    | none => exact advanced_stage rfl (.inr (.inl rfl)) (by simp) (by simp)
    | some content =>
      -- Under the lock, a file that gives no facts is the only one to be repaired.
      have hinvalid : readPayload key content = none := by
        unfold existingFact at hmissing
        split at hmissing
        · next existing hexisting => split at hmissing <;> cases hmissing
        · next hnone => exact hnone
      refine ⟨.unchanged rfl (by simp), by simp, .inr (.inl rfl), ?_, ?_, ?_, ?_⟩
      · intro stage' key' facts' h
        cases h
        exact ⟨_, rfl⟩
      · intro key' facts' h
        cases h
        exact ⟨rfl, rfl, content, rfl, hinvalid⟩
      · intro _ _ h
        cases h
      · intro _ _ _ h
        cases h
  | metadata found =>
    cases file with
    | none => exact advanced_done [] (by simp) (by simp)
    | some content =>
      refine ⟨.unchanged rfl (by simp [advancePut]), by simp [advancePut], .inr (.inl rfl), ?_, ?_,
        ?_, ?_⟩
      · intro stage' key' facts' h
        cases h
        exact ⟨_, rfl⟩
      · intro _ _ h
        cases h
      · intro key' facts' h
        cases h
        exact ⟨rfl, rfl⟩
      · intro _ _ _ h
        cases h
  | removeFile found =>
    cases file with
    | none => exact advanced_done [] (by simp) (by simp)
    | some content =>
      refine ⟨.repaired found key facts content rfl rfl rfl rfl, ?_, .inr (.inl rfl), ?_, ?_, ?_, ?_⟩
      · intro event hevent
        rw [List.mem_singleton.mp hevent]
        exact ⟨facts, rfl, rfl⟩
      · intro stage' key' facts' h
        cases h
        exact ⟨_, rfl⟩
      · intro _ _ h
        cases h
      · intro _ _ h
        cases h
      · intro _ _ _ h
        cases h
  | finishRepair => exact advanced_persistNoclobber rfl rfl (by simp) (by simp)
  | existingRepaired => exact advanced_lookAt rfl fun _ => advanced_done [] (by simp) (by simp)

theorem advanced_trim (shard : Shard) (entry : CacheEntry) (entries : List CacheEntry)
    (total : Nat) (file : Option Str) (free : Bool) :
    Advanced (.trimShard shard (entry :: entries) total) file free
      (advanceTrim shard entry entries total file).1
      (advanceTrim shard entry entries total file).2.1
      (advanceTrim shard entry entries total file).2.2 := by
  have hnext : ∀ total', (∀ stage key facts, Task.trimShard shard entries total'
      ≠ .put stage key facts) := by
    intro total' stage key facts h
    cases h
  have htrim : ∀ total' shard' entries' total'', Task.trimShard shard entries total'
      = .trimShard shard' entries' total'' → ∃ entry' total''', Task.trimShard shard
        (entry :: entries) total = .trimShard shard' (entry' :: entries') total''' := by
    intro total' shard' entries' total'' h
    cases h
    exact ⟨entry, total, rfl⟩
  unfold advanceTrim
  split
  · exact advanced_done [] (by simp) (by simp)
  · cases file with
    | none =>
      exact ⟨.unchanged rfl (by simp), by simp, .inr (.inl rfl),
        fun _ _ _ h => absurd h (hnext _ _ _ _), fun _ _ h => absurd h (hnext _ _ _ _),
        fun _ _ h => absurd h (hnext _ _ _ _), htrim _⟩
    | some content =>
      refine ⟨.trimmed shard entry entries total content rfl rfl rfl rfl, ?_, .inr (.inl rfl),
        fun _ _ _ h => absurd h (hnext _ _ _ _), fun _ _ h => absurd h (hnext _ _ _ _),
        fun _ _ h => absurd h (hnext _ _ _ _), htrim _⟩
      intro event hevent
      rw [List.mem_singleton.mp hevent]
      trivial

/-- One access of a process does no more than `Advanced` says. -/
theorem Task.advanced (task : Task) (file : Option Str) (free : Bool) :
    Advanced task file free (task.advance file free).1 (task.advance file free).2.1
      (task.advance file free).2.2 := by
  cases task with
  | idle => exact advanced_done [] (by simp) (by simp)
  | get key =>
    unfold Task.advance
    dsimp only
    split
    · next facts hfacts =>
      refine advanced_done [.got key facts] (by simp) ?_
      intro event hevent
      rw [List.mem_singleton.mp hevent]
      exact ⟨rfl, hfacts⟩
    · exact advanced_done [] (by simp) (by simp)
  | put stage key facts => exact advanced_put stage key facts file free
  | tryLockShard shard =>
    cases free with
    | false => exact advanced_done [] (by simp) (by simp)
    | true =>
      refine ⟨.unchanged rfl (by simp [Task.advance]), by simp [Task.advance],
        .inr (.inr ⟨rfl, rfl, rfl⟩), ?_, ?_, ?_, ?_⟩
      · intro _ _ _ h
        cases h
      · intro _ _ h
        cases h
      · intro _ _ h
        cases h
      · intro _ _ _ h
        cases h
  | scanShard shard =>
    refine ⟨.unchanged rfl (by simp [Task.advance]), by simp [Task.advance], .inr (.inl rfl), ?_, ?_,
      ?_, ?_⟩
    · intro _ _ _ h
      cases h
    · intro _ _ h
      cases h
    · intro _ _ h
      cases h
    · intro _ _ _ h
      cases h
  | trimShard shard entries total =>
    cases entries with
    | nil => exact advanced_done [] (by simp) (by simp)
    | cons entry entries => exact advanced_trim shard entry entries total file free

/-! ## What one step can do -/

/-- All that a step of one process can do to the others. -/
structure Moved (w : World) (process : Nat) (next : Task) (files : Directory)
    (events : List Event) : Prop where
  change : (files = w.files ∧ ∀ key facts, .published key facts ∉ events)
    ∨ ∃ key file, (w.tasks process).path = some key ∧ files = Function.update w.files key file
      ∧ FileChange (w.tasks process) (w.files key) file events
  recorded : ∀ event ∈ events, (∃ key facts, event = .put key facts)
    ∨ ∃ key, (w.tasks process).path = some key
      ∧ Recorded (w.tasks process) (w.files key) event
  held : next.held = none ∨ next.held = (w.tasks process).held
    ∨ ((w.tasks process).held = none ∧ ∃ shard, next.held = some shard ∧ w.locks shard = none)
  put : ∀ stage key facts, next = .put stage key facts →
    (∃ stage', w.tasks process = .put stage' key facts)
      ∨ (.put key facts ∈ events ∧ (Serde.toVec facts).length ≤ maxCacheEntryBytes)
  metadata : ∀ key facts, next = .put (.metadata true) key facts →
    w.tasks process = .put .existingLocked key facts ∧ files key = w.files key
      ∧ ∃ content, w.files key = some content ∧ readPayload key content = none
  removeFile : ∀ key facts, next = .put (.removeFile true) key facts →
    w.tasks process = .put (.metadata true) key facts ∧ files key = w.files key
  trim : ∀ shard entries total, next = .trimShard shard entries total →
    (∀ entry ∈ entries, shardOf entry.1 = shard)
      ∨ ∃ entry total', w.tasks process = .trimShard shard (entry :: entries) total'

section Steps

variable {w w' : World} {process : Nat} {next : Task} {files : Directory} {events : List Event}

/-- A step that only starts or stops something. -/
theorem moved_of_quiet (hnext : next = .idle ∨ (∃ key, next = .get key)
      ∨ ∃ shard, next = .tryLockShard shard) : Moved w process next w.files [] := by
  have hheld : next.held = none := by
    obtain rfl | ⟨key, rfl⟩ | ⟨shard, rfl⟩ := hnext <;> rfl
  have hput : ∀ stage key facts, next ≠ .put stage key facts := by
    rintro stage key facts rfl
    obtain h | ⟨key, h⟩ | ⟨shard, h⟩ := hnext <;> cases h
  have htrim : ∀ shard entries total, next ≠ .trimShard shard entries total := by
    rintro shard entries total rfl
    obtain h | ⟨key, h⟩ | ⟨shard, h⟩ := hnext <;> cases h
  exact ⟨.inl ⟨rfl, by simp⟩, by simp, .inl hheld, fun stage key facts h => absurd h (hput _ _ _),
    fun key facts h => absurd h (hput _ _ _), fun key facts h => absurd h (hput _ _ _),
    fun shard entries total h => absurd h (htrim _ _ _)⟩

omit [Sha256] [Serde] in
theorem path_of_put {task : Task} {stage : Stage} {key : FactKey} {facts : FileFacts}
    (h : task = .put stage key facts) : task.path = some key := by rw [h, Task.path]

omit [Sha256] [Serde] in
/-- The lock a process gets when it tries is free. -/
theorem free_of_wanted {task : Task} {shard : Shard} (hwanted : task.wanted = some shard)
    (hfree : w.free task = true) : w.locks shard = none := by
  unfold World.free at hfree
  rw [hwanted] at hfree
  exact Option.isNone_iff_eq_none.mp hfree

theorem held_of_advanced {file file' : Option Str}
    (h : Advanced (w.tasks process) file (w.free (w.tasks process)) next file' events) :
    next.held = none ∨ next.held = (w.tasks process).held
      ∨ ((w.tasks process).held = none ∧ ∃ shard, next.held = some shard
        ∧ w.locks shard = none) := by
  obtain hnone | hsame | ⟨hheld, hfree, hwanted⟩ := h.held
  · exact .inl hnone
  · exact .inr (.inl hsame)
  · cases hshard : (w.tasks process).wanted with
    | none => exact .inl (hwanted.trans hshard)
    | some shard =>
      exact .inr (.inr ⟨hheld, shard, hwanted.trans hshard, free_of_wanted hshard hfree⟩)

/-- A process without a path only waits for a lock or is done. -/
theorem advance_of_path_eq_none {task : Task} (h : task.path = none) (free : Bool) :
    (task.advance none free).2.2 = [] := by
  cases task with
  | idle => rfl
  | tryLockShard shard => rfl
  | scanShard shard => rfl
  | trimShard shard entries total =>
    cases entries with
    | nil => rfl
    | cons entry entries => cases h
  | get key => cases h
  | put stage key facts => cases h

theorem moved_of_advance : ∃ next files events, w.advance process = w.set process next files events
    ∧ Moved w process next files events := by
  unfold World.advance
  dsimp only
  cases hpath : (w.tasks process).path with
  | none =>
    have hadvanced := (w.tasks process).advanced none (w.free (w.tasks process))
    have hevents := advance_of_path_eq_none hpath (w.free (w.tasks process))
    refine ⟨_, _, _, rfl, .inl ⟨rfl, by simp [hevents]⟩, by simp [hevents],
      held_of_advanced hadvanced, fun stage key facts h => .inl (hadvanced.put stage key facts h),
      fun key facts h => ?_, fun key facts h => ?_,
      fun shard entries total h => .inr (hadvanced.trim shard entries total h)⟩
    · have htask := path_of_put (hadvanced.metadata key facts h).1
      rw [hpath] at htask
      cases htask
    · have htask := path_of_put (hadvanced.removeFile key facts h).1
      rw [hpath] at htask
      cases htask
  | some key =>
    have hadvanced := (w.tasks process).advanced (w.files key) (w.free (w.tasks process))
    -- The path of a store is the path the access is to.
    have hsame : ∀ stage key' facts, w.tasks process = .put stage key' facts → key' = key := by
      intro stage key' facts htask
      have hpath' := path_of_put htask
      rw [hpath] at hpath'
      exact (Option.some.inj hpath').symm
    refine ⟨_, _, _, rfl, .inr ⟨key, _, hpath, rfl, hadvanced.change⟩,
      fun event hevent => .inr ⟨key, hpath, hadvanced.recorded event hevent⟩,
      held_of_advanced hadvanced, fun stage key facts h => .inl (hadvanced.put stage key facts h),
      fun key' facts h => ?_, fun key' facts h => ?_,
      fun shard entries total h => .inr (hadvanced.trim shard entries total h)⟩
    · obtain ⟨htask, hfile, hinvalid⟩ := hadvanced.metadata key' facts h
      obtain rfl := hsame _ _ _ htask
      exact ⟨htask, by rw [Function.update_self, hfile], hinvalid⟩
    · obtain ⟨htask, hfile⟩ := hadvanced.removeFile key' facts h
      obtain rfl := hsame _ _ _ htask
      exact ⟨htask, by rw [Function.update_self, hfile]⟩

omit [Sha256] [Serde] in
theorem startTrim_cases (shard : Shard) (entries : List CacheEntry) :
    startTrim shard entries = .idle
      ∨ ∃ entries' total, startTrim shard entries = .trimShard shard entries' total
        ∧ ∀ entry ∈ entries', shardOf entry.1 = shard := by
  unfold startTrim
  dsimp only
  split
  · exact .inl rfl
  · refine .inr ⟨_, _, rfl, fun entry hentry => ?_⟩
    exact of_decide_eq_true (List.mem_filter.mp hentry).2

theorem moved_of_startTrim {shard : Shard} {entries : List CacheEntry}
    (htask : w.tasks process = .scanShard shard) (hnext : next = startTrim shard entries) :
    Moved w process next w.files [] := by
  obtain hidle | ⟨entries', total, htrim, hentries⟩ := startTrim_cases shard entries
  · exact moved_of_quiet (.inl (hnext.trans hidle))
  · have hnext := hnext.trans htrim
    have hput : ∀ stage key facts, next ≠ .put stage key facts := by
      intro stage key facts h
      rw [hnext] at h
      cases h
    refine ⟨.inl ⟨rfl, by simp⟩, by simp, .inr (.inl (by rw [hnext, htask]; rfl)),
      fun stage key facts h => absurd h (hput _ _ _), fun key facts h => absurd h (hput _ _ _),
      fun key facts h => absurd h (hput _ _ _), fun shard' entries'' total' h => .inl ?_⟩
    rw [hnext] at h
    cases h
    exact hentries

theorem moved_of_putFacts {key : FactKey} {facts : FileFacts}
    (hsize : (Serde.toVec facts).length ≤ maxCacheEntryBytes) :
    Moved w process (.put .existing key facts) w.files [.put key facts] := by
  refine ⟨.inl ⟨rfl, by simp⟩, ?_, .inl rfl, ?_, ?_, ?_, ?_⟩
  · intro event hevent
    exact .inl ⟨key, facts, List.mem_singleton.mp hevent⟩
  · intro stage' key' facts' heq
    cases heq
    exact .inr ⟨List.mem_singleton_self _, hsize⟩
  · intro _ _ h
    cases h
  · intro _ _ h
    cases h
  · intro _ _ _ h
    cases h

/-- Every step leaves all as it is, or moves one process. -/
theorem moved_of_step {action : Action} (h : step w action = some w') :
    w' = w ∨ ∃ process next files events, w' = w.set process next files events
      ∧ Moved w process next files events := by
  cases action with
  | get process key =>
    simp only [step] at h
    split at h
    · exact .inr ⟨process, .get key, w.files, [], (Option.some.inj h).symm,
        moved_of_quiet (.inr (.inl ⟨key, rfl⟩))⟩
    · cases h
  | put process key facts =>
    simp only [step] at h
    split at h
    · split at h
      · exact .inl (Option.some.inj h).symm
      · next hsize =>
        exact .inr ⟨process, .put .existing key facts, w.files, [.put key facts],
          (Option.some.inj h).symm, moved_of_putFacts (not_lt.mp hsize)⟩
    · cases h
  | enforceShardQuota process shard =>
    simp only [step] at h
    split at h
    · exact .inr ⟨process, .tryLockShard shard, w.files, [], (Option.some.inj h).symm,
        moved_of_quiet (.inr (.inr ⟨shard, rfl⟩))⟩
    · cases h
  | advance process =>
    obtain ⟨next, files, events, hset, hmoved⟩ := @moved_of_advance _ _ w process
    exact .inr ⟨process, next, files, events, (Option.some.inj h).symm.trans hset, hmoved⟩
  | scanned process entries =>
    simp only [step] at h
    split at h
    · next shard htask =>
      exact .inr ⟨process, startTrim shard entries, w.files, [], (Option.some.inj h).symm,
        moved_of_startTrim htask rfl⟩
    · cases h
  | stop process =>
    exact .inr ⟨process, .idle, w.files, [], (Option.some.inj h).symm, moved_of_quiet (.inl rfl)⟩

end Steps

end Opcore.Shared
