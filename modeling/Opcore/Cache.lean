/-
  Opcore.Cache

  Fact caches.  A cache is its state with a lookup and a store; the laws say
  that it only ever holds what was stored under a key, and that a store reports
  a conflict only against something it holds.  Both caches of the repository
  obey them.
-/
import Opcore.Model

namespace Opcore

open Text Collections

def maxCacheEntryBytes : Nat := 16 * 1024 * 1024
def maxMemoryCacheBytes : Nat := 256 * 1024 * 1024
def maxMemoryCacheEntries : Nat := 50000

inductive CacheError where
  | tooLarge
  | nonDeterministic
  deriving DecidableEq

/-- The serialization of facts, which a cached payload is read back through. -/
class FactCodec where
  encode : FileFacts → Str
  decode : Str → Option FileFacts
  decode_encode : ∀ facts, decode (encode facts) = some facts

/-- The trait `FactCache`.  A lookup that fails to read counts as a miss. -/
class FactCache (σ : Type) where
  empty : σ
  get : σ → FileFactKey → Option FileFacts
  put : σ → FileFactKey → FileFacts → Except CacheError Unit × σ

open FactCache

/-- `holds s key facts`: the cache has these facts under this key, whether or not
    a lookup would still return them. -/
class LawfulFactCache (σ : Type) extends FactCache σ where
  holds : σ → FileFactKey → FileFacts → Prop
  not_holds_empty : ∀ key facts, ¬ holds empty key facts
  holds_of_get : ∀ {s key facts}, get s key = some facts → holds s key facts
  holds_put : ∀ {s key facts key' facts'}, holds (put s key facts).2 key' facts' →
    holds s key' facts' ∨ key' = key ∧ facts' = facts
  conflict : ∀ {s key facts}, (put s key facts).1 = .error .nonDeterministic →
    ∃ facts', holds s key facts' ∧ facts' ≠ facts

/-! ## The memory cache -/

structure MemoryFactCache where
  entries : BTreeMap FileFactKey (FileFacts × Nat) := ∅
  insertionOrder : List FileFactKey := []
  bytes : Nat := 0

namespace MemoryFactCache

/-- Drop the oldest entries until `payloadBytes` more fit. -/
def evict (payloadBytes : Nat) : List FileFactKey → MemoryFactCache → MemoryFactCache
  | [], s => { s with insertionOrder := [] }
  | oldest :: order, s =>
    if s.entries.size < maxMemoryCacheEntries ∧ s.bytes + payloadBytes ≤ maxMemoryCacheBytes then
      { s with insertionOrder := oldest :: order }
    else
      match s.entries.get? oldest with
      | some (_, size) =>
        evict payloadBytes order
          { s with entries := s.entries.erase oldest, bytes := s.bytes - size }
      | none => evict payloadBytes order s

def get (s : MemoryFactCache) (key : FileFactKey) : Option FileFacts :=
  (s.entries.get? key).map Prod.fst

/-- Store an entry that is not there yet, in place of the oldest ones. -/
def store (s : MemoryFactCache) (key : FileFactKey) (facts : FileFacts) (payloadBytes : Nat) :
    MemoryFactCache :=
  let s := s.evict payloadBytes s.insertionOrder
  { entries := s.entries.insert key (facts, payloadBytes)
    insertionOrder := s.insertionOrder ++ [key]
    bytes := s.bytes + payloadBytes }

def put [FactCodec] (s : MemoryFactCache) (key : FileFactKey) (facts : FileFacts) :
    Except CacheError Unit × MemoryFactCache :=
  let payloadBytes := (FactCodec.encode facts).length
  if maxMemoryCacheBytes < payloadBytes then (.ok (), s)
  else
    match s.entries.get? key with
    | some (existing, _) => (if existing ≠ facts then .error .nonDeterministic else .ok (), s)
    | none => (.ok (), s.store key facts payloadBytes)

/-- Eviction only removes entries. -/
theorem get?_evict {payloadBytes : Nat} {key : FileFactKey} {entry : FileFacts × Nat}
    (order : List FileFactKey) (s : MemoryFactCache)
    (h : (s.evict payloadBytes order).entries.get? key = some entry) :
    s.entries.get? key = some entry := by
  induction order generalizing s with
  | nil => exact h
  | cons oldest order ih =>
    rw [evict] at h
    split_ifs at h
    · exact h
    · split at h
      · have herase := ih _ h
        rw [BTreeMap.get?_erase] at herase
        split_ifs at herase
        exact herase
      · exact ih s h

theorem get_store {s : MemoryFactCache} {key key' : FileFactKey} {facts facts' : FileFacts}
    {payloadBytes : Nat} (h : (s.store key facts payloadBytes).get key' = some facts') :
    s.get key' = some facts' ∨ key' = key ∧ facts' = facts := by
  rw [get, store, BTreeMap.get?_insert] at h
  split_ifs at h with hkey
  · right
    exact ⟨hkey, by simpa using h.symm⟩
  · left
    obtain ⟨entry, hentry, rfl⟩ := Option.map_eq_some_iff.mp h
    rw [get, get?_evict _ _ hentry]
    rfl

instance [FactCodec] : LawfulFactCache MemoryFactCache where
  empty := {}
  get := get
  put := put
  holds s key facts := s.get key = some facts
  not_holds_empty key facts h := by simp [get] at h
  holds_of_get h := h
  holds_put {s key facts key' facts'} h := by
    rw [put] at h
    split_ifs at h
    · exact Or.inl h
    · split at h
      · exact Or.inl h
      · exact get_store h
  conflict {s key facts} h := by
    rw [put] at h
    split_ifs at h
    split at h
    · rename_i existing size hexisting
      refine ⟨existing, by rw [get, hexisting]; rfl, ?_⟩
      intro heq
      simp [heq] at h
    · cases h

end MemoryFactCache

/-! ## The persistent cache -/

/-- The directory of a persistent cache, as the valid payload of each key: a
    fact file that fails its own checks reads as missing.  Payloads are written
    whole, so each is the serialization of some facts. -/
structure PersistentFactCache [FactCodec] where
  payloads : BTreeMap FileFactKey Str := ∅
  encoded : ∀ key payload, payloads.get? key = some payload →
    ∃ facts, payload = FactCodec.encode facts := by simp

namespace PersistentFactCache

variable [FactCodec]

def get (s : PersistentFactCache) (key : FileFactKey) : Option FileFacts :=
  (s.payloads.get? key).bind FactCodec.decode

/-- Write a fact file where none is. -/
def publish (s : PersistentFactCache) (key : FileFactKey) (facts : FileFacts) :
    PersistentFactCache where
  payloads := s.payloads.insert key (FactCodec.encode facts)
  encoded key' payload h := by
    rw [BTreeMap.get?_insert] at h
    split_ifs at h
    · exact ⟨facts, (Option.some.inj h).symm⟩
    · exact s.encoded key' payload h

def put (s : PersistentFactCache) (key : FileFactKey) (facts : FileFacts) :
    Except CacheError Unit × PersistentFactCache :=
  let payload := FactCodec.encode facts
  if maxCacheEntryBytes < payload.length then (.error .tooLarge, s)
  else
    match s.payloads.get? key with
    | some existing => (if existing = payload then .ok () else .error .nonDeterministic, s)
    | none => (.ok (), s.publish key facts)

/-- Facts are serialized injectively, since they can be read back. -/
theorem encode_injective : Function.Injective FactCodec.encode := by
  intro a b h
  have hdecode := FactCodec.decode_encode a
  rw [h, FactCodec.decode_encode] at hdecode
  exact (Option.some.inj hdecode).symm

instance : LawfulFactCache PersistentFactCache where
  empty := {}
  get := get
  put := put
  holds s key facts := s.payloads.get? key = some (FactCodec.encode facts)
  not_holds_empty key facts h := by simp at h
  holds_of_get {s key facts} h := by
    obtain ⟨payload, hpayload, hdecode⟩ := Option.bind_eq_some_iff.mp h
    obtain ⟨stored, rfl⟩ := s.encoded key payload hpayload
    rw [FactCodec.decode_encode] at hdecode
    cases hdecode
    exact hpayload
  holds_put {s key facts key' facts'} h := by
    rw [put] at h
    split_ifs at h
    · exact Or.inl h
    · split at h
      · exact Or.inl h
      · rw [publish, BTreeMap.get?_insert] at h
        split_ifs at h with hkey
        · exact Or.inr ⟨hkey, (encode_injective (Option.some.inj h)).symm⟩
        · exact Or.inl h
  conflict {s key facts} h := by
    rw [put] at h
    split_ifs at h
    · cases h
    · split at h
      · rename_i existing hexisting
        obtain ⟨stored, rfl⟩ := s.encoded key existing hexisting
        refine ⟨stored, hexisting, ?_⟩
        intro heq
        simp [heq] at h
      · cases h

end PersistentFactCache

end Opcore
