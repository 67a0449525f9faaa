/-
  Opcore.Cache.Memory

  The bookkeeping of the memory cache.  Its map, its queue of keys and its byte count
  all describe one list: the latest insertions, of which the oldest are dropped first.
-/
import Opcore.Cache

namespace Opcore

open Text Collections

namespace MemoryFactCache

/-! ## Runs -/

/-- A store that put new facts into the cache. -/
structure Insertion where
  key : FileFactKey
  facts : FileFacts
  size : Nat

def Insertion.entry (insertion : Insertion) : FileFactKey × FileFacts × Nat :=
  (insertion.key, insertion.facts, insertion.size)

inductive Request where
  | get (key : FileFactKey)
  | put (key : FileFactKey) (facts : FileFacts)

/-- A cache with all that was ever inserted, the oldest first, and how many keys the
    eviction loop took off the queue. -/
structure Trace where
  cache : MemoryFactCache := {}
  inserted : List Insertion := []
  evicted : Nat := 0

/-- How many keys the loop of `evict` takes off the queue. -/
def popped (payloadBytes : Nat) : List FileFactKey → MemoryFactCache → Nat
  | [], _ => 0
  | oldest :: order, s =>
    if s.entries.size < maxMemoryCacheEntries ∧ s.bytes + payloadBytes ≤ maxMemoryCacheBytes then
      0
    else
      match s.entries.get? oldest with
      | some (_, size) =>
        popped payloadBytes order
          { s with entries := s.entries.erase oldest, bytes := s.bytes - size } + 1
      | none => popped payloadBytes order s + 1

variable [FactCodec]

/-- What a store inserts: nothing when the facts are too large or the key is there. -/
def insertionOf (s : MemoryFactCache) (key : FileFactKey) (facts : FileFacts) : List Insertion :=
  let size := (FactCodec.encode facts).length
  if maxMemoryCacheBytes < size ∨ (s.entries.get? key).isSome then [] else [⟨key, facts, size⟩]

def Trace.step (trace : Trace) : Request → Trace
  | .get _ => trace
  | .put key facts =>
    { cache := (trace.cache.put key facts).2
      inserted := trace.inserted ++ insertionOf trace.cache key facts
      evicted := trace.evicted + ((insertionOf trace.cache key facts).map fun insertion =>
        popped insertion.size trace.cache.insertionOrder trace.cache).sum }

def Trace.run (trace : Trace) (requests : List Request) : Trace := requests.foldl Trace.step trace

/-! ## The queue behind the state -/

/-- The map and the byte count are those of a queue of insertions. -/
structure Holds (s : MemoryFactCache) (queue : List Insertion) : Prop where
  nodup : (queue.map Insertion.key).Nodup
  entries : s.entries = BTreeMap.ofList (queue.map Insertion.entry)
  bytes : s.bytes = (queue.map Insertion.size).sum

section Holds

omit [FactCodec]

variable {s : MemoryFactCache} {queue : List Insertion} {insertion : Insertion} {key : FileFactKey}
  {facts : FileFacts} {payloadBytes : Nat}

theorem map_fst_entry (queue : List Insertion) :
    (queue.map Insertion.entry).map Prod.fst = queue.map Insertion.key := by
  rw [List.map_map]
  rfl

theorem Holds.get?_eq_some_iff (h : Holds s queue) {entry : FileFacts × Nat} :
    s.entries.get? key = some entry ↔ (key, entry) ∈ queue.map Insertion.entry := by
  rw [h.entries, BTreeMap.get?_ofList_of_nodup (by rw [map_fst_entry]; exact h.nodup)]

theorem Holds.size_entries (h : Holds s queue) : s.entries.size = queue.length := by
  have hperm := BTreeMap.entries_ofList_perm
    (l := queue.map Insertion.entry) (by rw [map_fst_entry]; exact h.nodup)
  rw [h.entries, BTreeMap.size, hperm.length_eq, List.length_map]

/-- Dropping the oldest entry. -/
theorem Holds.dropOldest (h : Holds s (insertion :: queue)) :
    Holds { s with entries := s.entries.erase insertion.key, bytes := s.bytes - insertion.size }
      queue := by
  obtain ⟨hkey, hnodup⟩ := List.nodup_cons.mp h.nodup
  refine ⟨hnodup, BTreeMap.ext_get? fun key => Option.ext fun entry => ?_, ?_⟩
  · rw [BTreeMap.get?_erase, BTreeMap.get?_ofList_of_nodup (by rwa [map_fst_entry])]
    split_ifs with heq
    · subst heq
      refine iff_of_false (fun hnone => by cases hnone) fun hmem => hkey ?_
      rw [← map_fst_entry]
      exact List.mem_map_of_mem hmem
    · rw [h.get?_eq_some_iff, List.map_cons, List.mem_cons]
      refine or_iff_right fun hfirst => heq ?_
      exact congrArg Prod.fst hfirst
  · show s.bytes - insertion.size = _
    rw [h.bytes, List.map_cons, List.sum_cons, Nat.add_sub_cancel_left]

/-- Eviction drops the oldest entries until the new one fits. -/
theorem Holds.evict (hpayload : payloadBytes ≤ maxMemoryCacheBytes) (h : Holds s queue) :
    ∃ dropped kept, queue = dropped ++ kept
      ∧ dropped.length = popped payloadBytes (queue.map Insertion.key) s
      ∧ Holds (s.evict payloadBytes (queue.map Insertion.key)) kept
      ∧ (s.evict payloadBytes (queue.map Insertion.key)).insertionOrder = kept.map Insertion.key
      ∧ kept.length < maxMemoryCacheEntries
      ∧ (kept.map Insertion.size).sum + payloadBytes ≤ maxMemoryCacheBytes := by
  induction queue generalizing s with
  | nil =>
    refine ⟨[], [], rfl, rfl, ⟨h.nodup, h.entries, h.bytes⟩, rfl, ?_, ?_⟩
    · decide
    · rwa [List.map_nil, List.sum_nil, Nat.zero_add]
  | cons oldest queue ih =>
    have hget : s.entries.get? oldest.key = some (oldest.facts, oldest.size) :=
      h.get?_eq_some_iff.mpr List.mem_cons_self
    rw [List.map_cons, MemoryFactCache.evict, popped]
    split_ifs with hfits
    · obtain ⟨hcount, hbytes⟩ := hfits
      rw [h.size_entries] at hcount
      rw [h.bytes] at hbytes
      exact ⟨[], oldest :: queue, rfl, rfl, ⟨h.nodup, h.entries, h.bytes⟩, rfl, hcount, hbytes⟩
    · rw [hget]
      obtain ⟨dropped, kept, rfl, hpopped, hkept⟩ := ih h.dropOldest
      exact ⟨oldest :: dropped, kept, rfl, congrArg (· + 1) hpopped, hkept⟩

/-- A new entry at the end of the queue. -/
theorem Holds.insert (h : Holds s queue) (hnew : insertion.key ∉ queue.map Insertion.key) :
    Holds { s with
        entries := s.entries.insert insertion.key (insertion.facts, insertion.size)
        bytes := s.bytes + insertion.size } (queue ++ [insertion]) := by
  refine ⟨?_, ?_, ?_⟩
  · rw [List.map_append, List.map_singleton]
    exact List.nodup_append.mpr ⟨h.nodup, List.nodup_singleton _,
      fun key hkey key' hkey' heq => hnew (by rwa [← List.mem_singleton.mp hkey', ← heq])⟩
  · show s.entries.insert _ _ = _
    rw [h.entries, List.map_append, BTreeMap.ofList, BTreeMap.ofList, BTreeMap.extend,
      BTreeMap.extend, List.foldl_append]
    rfl
  · show s.bytes + insertion.size = _
    rw [h.bytes, List.map_append, List.sum_append, List.map_singleton, List.sum_singleton]

theorem Holds.get (h : Holds s queue) (hmem : insertion ∈ queue) :
    s.get insertion.key = some insertion.facts := by
  rw [MemoryFactCache.get, h.get?_eq_some_iff.mpr (List.mem_map_of_mem hmem)]
  rfl

theorem Holds.get_eq_none (h : Holds s queue) (hmem : key ∉ queue.map Insertion.key) :
    s.get key = none := by
  cases hget : s.entries.get? key with
  | none => rw [MemoryFactCache.get, hget]; rfl
  | some entry =>
    have hentry := h.get?_eq_some_iff.mp hget
    rw [← map_fst_entry] at hmem
    exact absurd (List.mem_map_of_mem hentry) hmem

end Holds

/-! ## What holds of every run -/

/-- The cache holds the latest insertions, in the order of its queue: all but the evicted. -/
structure Trace.Inv (trace : Trace) (queue : List Insertion) : Prop where
  inserted : ∃ dropped, trace.inserted = dropped ++ queue ∧ trace.evicted = dropped.length
  order : trace.cache.insertionOrder = queue.map Insertion.key
  holds : Holds trace.cache queue
  count_le : queue.length ≤ maxMemoryCacheEntries
  bytes_le : (queue.map Insertion.size).sum ≤ maxMemoryCacheBytes

section Runs

variable {trace : Trace} {queue : List Insertion}

/-- A store that fails, or finds its key, changes nothing; any other drops the oldest
    insertions and adds its own. -/
theorem put_cases (s : MemoryFactCache) (key : FileFactKey) (facts : FileFacts) :
    ((s.put key facts).2 = s ∧ insertionOf s key facts = [])
      ∨ ((FactCodec.encode facts).length ≤ maxMemoryCacheBytes ∧ s.entries.get? key = none
        ∧ (s.put key facts).2 = s.store key facts (FactCodec.encode facts).length
        ∧ insertionOf s key facts = [⟨key, facts, (FactCodec.encode facts).length⟩]) := by
  unfold put insertionOf
  by_cases hlarge : maxMemoryCacheBytes < (FactCodec.encode facts).length
  · left
    simp only [hlarge, true_or, if_true, and_self]
  · cases hget : s.entries.get? key with
    | some entry =>
      left
      simp only [if_neg hlarge, Option.isSome_some, or_true, if_true, and_self]
    | none =>
      right
      simp only [hlarge, Option.isSome_none, Bool.false_eq_true, or_self, if_false,
        not_lt.mp hlarge, and_self]

omit [FactCodec] in
/-- What a store of a new key leaves of the queue. -/
theorem Trace.Inv.stored (h : trace.Inv queue) {insertion : Insertion}
    (hsize : insertion.size ≤ maxMemoryCacheBytes)
    (hnew : insertion.key ∉ queue.map Insertion.key) :
    ∃ dropped kept, queue = dropped ++ kept
      ∧ dropped.length = popped insertion.size trace.cache.insertionOrder trace.cache
      ∧ Holds (trace.cache.store insertion.key insertion.facts insertion.size)
        (kept ++ [insertion])
      ∧ (trace.cache.store insertion.key insertion.facts insertion.size).insertionOrder
        = (kept ++ [insertion]).map Insertion.key
      ∧ kept.length < maxMemoryCacheEntries
      ∧ (kept.map Insertion.size).sum + insertion.size ≤ maxMemoryCacheBytes := by
  obtain ⟨dropped, kept, hqueue, hpopped, hkept, horder, hcount, hbytes⟩ := h.holds.evict hsize
  rw [← h.order] at hpopped hkept horder
  have hnotKept : insertion.key ∉ kept.map Insertion.key := by
    intro hmem
    rw [hqueue, List.map_append] at hnew
    exact hnew (List.mem_append_right _ hmem)
  have hstored := hkept.insert hnotKept
  refine ⟨dropped, kept, hqueue, hpopped, ⟨hstored.nodup, hstored.entries, hstored.bytes⟩, ?_,
    hcount, hbytes⟩
  rw [List.map_append, ← horder]
  rfl

variable {key : FileFactKey}

omit [FactCodec] in
theorem Trace.Inv.not_mem_of_get?_eq_none (h : trace.Inv queue)
    (hget : trace.cache.entries.get? key = none) : key ∉ queue.map Insertion.key := by
  intro hmem
  rw [← map_fst_entry] at hmem
  obtain ⟨⟨key', entry⟩, hentry, rfl⟩ := List.mem_map.mp hmem
  rw [h.holds.get?_eq_some_iff.mpr hentry] at hget
  cases hget

theorem Trace.Inv.step (h : trace.Inv queue) (request : Request) :
    ∃ queue', (trace.step request).Inv queue' ∧ trace.evicted ≤ (trace.step request).evicted := by
  cases request with
  | get key => exact ⟨queue, h, le_rfl⟩
  | put key facts =>
    obtain ⟨hcache, hinserted⟩ | ⟨hsize, hget, hcache, hinserted⟩ :=
      put_cases trace.cache key facts
    · have hsame : trace.step (.put key facts) = trace := by
        rw [Trace.step, hcache, hinserted, List.append_nil]
        rfl
      rw [hsame]
      exact ⟨queue, h, le_rfl⟩
    · obtain ⟨dropped, kept, hqueue, hpopped, hholds, horder, hcount, hbytes⟩ :=
        @Trace.Inv.stored trace queue h ⟨key, facts, (FactCodec.encode facts).length⟩ hsize
          (h.not_mem_of_get?_eq_none hget)
      obtain ⟨before, hbefore, hevicted⟩ := h.inserted
      have hstep : trace.step (.put key facts)
          = ⟨trace.cache.store key facts (FactCodec.encode facts).length,
            trace.inserted ++ [⟨key, facts, (FactCodec.encode facts).length⟩],
            trace.evicted + dropped.length⟩ := by
        rw [Trace.step, hcache, hinserted, hpopped]
        rfl
      rw [hstep]
      refine ⟨kept ++ [⟨key, facts, (FactCodec.encode facts).length⟩],
        ⟨⟨before ++ dropped, ?_, ?_⟩, horder, hholds, ?_, ?_⟩, Nat.le_add_right _ _⟩
      · rw [hbefore, hqueue]
        simp only [List.append_assoc]
      · rw [List.length_append, hevicted]
      · rw [List.length_append, List.length_singleton]
        omega
      · rw [List.map_append, List.sum_append, List.map_singleton, List.sum_singleton]
        exact hbytes

theorem Trace.Inv.run (h : trace.Inv queue) (requests : List Request) :
    ∃ queue', (trace.run requests).Inv queue' ∧ trace.evicted ≤ (trace.run requests).evicted := by
  induction requests generalizing trace queue with
  | nil => exact ⟨queue, h, le_rfl⟩
  | cons request requests ih =>
    obtain ⟨queue₁, hstep, hle⟩ := h.step request
    obtain ⟨queue₂, hrun, hle'⟩ := ih hstep
    exact ⟨queue₂, hrun, hle.trans hle'⟩

omit [FactCodec] in
theorem inv_empty : ({} : Trace).Inv [] where
  inserted := ⟨[], rfl, rfl⟩
  order := rfl
  holds := ⟨List.nodup_nil, rfl, rfl⟩
  count_le := Nat.zero_le _
  bytes_le := Nat.zero_le _

/-- A store of new facts: the loop takes `pops` keys off the front of the queue, and these
    entries leave; the new key ends the queue and reads back; no other entry changes. -/
structure Stored (s s' : MemoryFactCache) (key : FileFactKey) (facts : FileFacts) (pops : Nat) :
    Prop where
  order : s'.insertionOrder = s.insertionOrder.drop pops ++ [key]
  get_key : s'.get key = some facts
  get_popped : ∀ other ∈ s.insertionOrder.take pops, s'.get other = none
  get_kept : ∀ other, other ≠ key → other ∉ s.insertionOrder.take pops →
    s'.get other = s.get other

/-- The bookkeeping of a memory cache. -/
structure Bookkeeping (trace : Trace) : Prop where
  bytes_eq : trace.cache.bytes = (trace.cache.entries.values.map Prod.snd).sum
  bytes_le : trace.cache.bytes ≤ maxMemoryCacheBytes
  count_le : trace.cache.entries.size ≤ maxMemoryCacheEntries
  nodup : trace.cache.insertionOrder.Nodup
  mem_order : ∀ key, key ∈ trace.cache.insertionOrder ↔ key ∈ trace.cache.entries.keys
  order : trace.cache.insertionOrder
    = (trace.inserted.drop trace.evicted).map Insertion.key
  put_error : ∀ key facts error, (trace.cache.put key facts).1 = .error error →
    (trace.cache.put key facts).2 = trace.cache
  put_unchanged : ∀ key facts, maxMemoryCacheBytes < (FactCodec.encode facts).length
      ∨ key ∈ trace.cache.insertionOrder →
    (trace.cache.put key facts).2 = trace.cache
  put_inserts : ∀ key facts, (FactCodec.encode facts).length ≤ maxMemoryCacheBytes →
    key ∉ trace.cache.insertionOrder →
    (trace.cache.put key facts).1 = .ok ()
      ∧ Stored trace.cache (trace.cache.put key facts).2 key facts
        (popped (FactCodec.encode facts).length trace.cache.insertionOrder trace.cache)
  get_inserted : ∀ before insertion after, trace.inserted = before ++ insertion :: after →
    (∀ later ∈ after, later.key ≠ insertion.key) →
    trace.cache.get insertion.key
      = if trace.evicted ≤ before.length then some insertion.facts else none
  get_other : ∀ key, (∀ insertion ∈ trace.inserted, insertion.key ≠ key) →
    trace.cache.get key = none

omit [FactCodec] in
theorem Trace.Inv.drop_evicted (h : trace.Inv queue) :
    trace.inserted.drop trace.evicted = queue := by
  obtain ⟨dropped, hdropped, hevicted⟩ := h.inserted
  rw [hevicted, hdropped, List.drop_left]

omit [FactCodec] in
theorem Trace.Inv.get?_eq_none_iff (h : trace.Inv queue) :
    trace.cache.entries.get? key = none ↔ key ∉ trace.cache.insertionOrder := by
  rw [h.order]
  refine ⟨h.not_mem_of_get?_eq_none, fun hmem => ?_⟩
  exact Option.map_eq_none_iff.mp (h.holds.get_eq_none hmem)

theorem Trace.Inv.put_inserts (h : trace.Inv queue) {facts : FileFacts}
    (hsize : (FactCodec.encode facts).length ≤ maxMemoryCacheBytes)
    (hnew : key ∉ trace.cache.insertionOrder) :
    (trace.cache.put key facts).1 = .ok ()
      ∧ Stored trace.cache (trace.cache.put key facts).2 key facts
        (popped (FactCodec.encode facts).length trace.cache.insertionOrder trace.cache) := by
  have hput : trace.cache.put key facts
      = (.ok (), trace.cache.store key facts (FactCodec.encode facts).length) := by
    simp only [put, not_lt.mpr hsize, if_false, h.get?_eq_none_iff.mpr hnew]
  obtain ⟨dropped, kept, hqueue, hpopped, hholds, horder, -, -⟩ :=
    @Trace.Inv.stored trace queue h ⟨key, facts, (FactCodec.encode facts).length⟩ hsize
      (h.order ▸ hnew)
  have hkeys : trace.cache.insertionOrder = dropped.map Insertion.key ++ kept.map Insertion.key := by
    rw [h.order, hqueue, List.map_append]
  have hnodup := h.holds.nodup
  rw [← h.order, hkeys] at hnodup
  have hlength : (dropped.map Insertion.key).length = popped (FactCodec.encode facts).length
      trace.cache.insertionOrder trace.cache := by
    rw [List.length_map, hpopped]
  have hkeptKeys (other : FileFactKey) (hother : other ∉ kept.map Insertion.key)
      (hne : other ≠ key) : (trace.cache.store key facts
        (FactCodec.encode facts).length).get other = none := by
    refine hholds.get_eq_none fun hmem => ?_
    rw [List.map_append, List.mem_append, List.map_singleton, List.mem_singleton] at hmem
    exact hmem.elim hother hne
  rw [hput]
  refine ⟨rfl, ?_, ?_, ?_, ?_⟩
  · rw [horder, ← hlength, hkeys, List.drop_left, List.map_append]
    rfl
  · exact hholds.get (List.mem_append_right _ (List.mem_singleton_self _))
  · intro other hother
    rw [← hlength, hkeys, List.take_left] at hother
    refine hkeptKeys other ((List.nodup_append.mp hnodup).2.2 other hother other · rfl) ?_
    rintro rfl
    exact hnew (hkeys ▸ List.mem_append_left _ hother)
  · intro other hne hother
    rw [← hlength, hkeys, List.take_left] at hother
    by_cases hkept : other ∈ kept.map Insertion.key
    · -- An entry that is kept reads the same from both queues.
      obtain ⟨insertion, hinsertion, rfl⟩ := List.mem_map.mp hkept
      rw [h.holds.get (hqueue ▸ List.mem_append_right _ hinsertion)]
      exact hholds.get (List.mem_append_left _ hinsertion)
    · rw [hkeptKeys other hkept hne]
      refine (h.holds.get_eq_none ?_).symm
      rw [← h.order, hkeys, List.mem_append]
      exact not_or.mpr ⟨hother, hkept⟩

theorem Trace.Inv.bookkeeping (h : trace.Inv queue) : Bookkeeping trace where
  bytes_eq := by
    have hperm : trace.cache.entries.entries.Perm (queue.map Insertion.entry) := by
      rw [h.holds.entries]
      exact BTreeMap.entries_ofList_perm (by rw [map_fst_entry]; exact h.holds.nodup)
    have hsum := ((hperm.map Prod.snd).map Prod.snd).sum_nat
    rw [h.holds.bytes, BTreeMap.values, hsum, List.map_map, List.map_map]
    rfl
  bytes_le := h.holds.bytes ▸ h.bytes_le
  count_le := h.holds.size_entries ▸ h.count_le
  nodup := h.order ▸ h.holds.nodup
  mem_order key := by
    rw [h.order, BTreeMap.mem_keys_iff, ← map_fst_entry, List.mem_map]
    constructor
    · rintro ⟨⟨key', entry⟩, hmem, rfl⟩
      exact ⟨entry, h.holds.get?_eq_some_iff.mpr hmem⟩
    · rintro ⟨entry, hget⟩
      exact ⟨(key, entry), h.holds.get?_eq_some_iff.mp hget, rfl⟩
  order := by rw [h.drop_evicted, h.order]
  put_error key facts error herror := by
    obtain ⟨hcache, -⟩ | ⟨hsize, hget, -, -⟩ := put_cases trace.cache key facts
    · exact hcache
    · simp only [put, not_lt.mpr hsize, if_false, hget] at herror
      cases herror
  put_unchanged key facts hkey := by
    obtain ⟨hcache, -⟩ | ⟨hsize, hget, -, -⟩ := put_cases trace.cache key facts
    · exact hcache
    · obtain hlarge | hmem := hkey
      · exact absurd hsize (not_le.mpr hlarge)
      · exact absurd hmem (h.get?_eq_none_iff.mp hget)
  put_inserts key facts hsize hnew := h.put_inserts hsize hnew
  get_inserted before insertion after heq hlater := by
    have hqueue := h.drop_evicted
    rw [heq, List.drop_append] at hqueue
    split_ifs with hle
    · refine h.holds.get ?_
      rw [← hqueue, Nat.sub_eq_zero_of_le hle, List.drop_zero]
      exact List.mem_append_right _ List.mem_cons_self
    · -- Only later insertions are left, and none of them has the key.
      obtain ⟨n, hn⟩ : ∃ n, trace.evicted - before.length = n + 1 :=
        Nat.exists_eq_succ_of_ne_zero (by omega)
      rw [List.drop_of_length_le (by omega), List.nil_append, hn, List.drop_succ_cons] at hqueue
      refine h.holds.get_eq_none fun hmem => ?_
      obtain ⟨later, hlater_mem, hkey⟩ := List.mem_map.mp hmem
      rw [← hqueue] at hlater_mem
      exact hlater later (List.mem_of_mem_drop hlater_mem) hkey
  get_other key hother := by
    refine h.holds.get_eq_none fun hmem => ?_
    obtain ⟨insertion, hinsertion, hkey⟩ := List.mem_map.mp hmem
    rw [← h.drop_evicted] at hinsertion
    exact hother insertion (List.mem_of_mem_drop hinsertion) hkey

/-- After any requests the bookkeeping of a memory cache is in order, and more requests
    only evict more of the oldest insertions. -/
theorem memory_cache_bookkeeping (requests more : List Request) :
    Bookkeeping (({} : Trace).run requests)
      ∧ (({} : Trace).run requests).evicted ≤ ((({} : Trace).run requests).run more).evicted := by
  obtain ⟨queue, hinv, -⟩ := inv_empty.run requests
  obtain ⟨-, -, hle⟩ := hinv.run more
  exact ⟨hinv.bookkeeping, hle⟩

end Runs

end MemoryFactCache

end Opcore
