/-
  Opcore.Library.BTreeMap

  Ordered maps over an arbitrary linear order of keys, kept as entry lists
  with strictly increasing keys.  One update, `alter`, covers insertion,
  removal and the entry API; its lookup law `get?_alter` and the
  extensionality law `ext_get?` carry every proof about maps.
-/
import Opcore.Library.BTreeSet

namespace Collections

variable {κ β γ : Type*} [LinearOrder κ]

/-- Lookup in an entry list. -/
def lookupSorted (k : κ) : List (κ × β) → Option β
  | [] => none
  | (k', v) :: l => if k = k' then some v else lookupSorted k l

/-- Replace what an entry list holds at one key; `none` is "no entry". -/
def alterSorted (k : κ) (f : Option β → Option β) : List (κ × β) → List (κ × β)
  | [] => ((f none).map fun v => (k, v)).toList
  | (k', v') :: l =>
    if k < k' then ((f none).map fun v => (k, v)).toList ++ (k', v') :: l
    else if k' < k then (k', v') :: alterSorted k f l
    else ((f (some v')).map fun v => (k, v)).toList ++ l

variable {l : List (κ × β)}

theorem lookupSorted_eq_none_of_lt {k : κ} (h : ∀ e ∈ l, k < e.1) : lookupSorted k l = none := by
  induction l with
  | nil => rfl
  | cons e l ih =>
    obtain ⟨k', v⟩ := e
    have hk : k < k' := h (k', v) (List.mem_cons_self ..)
    rw [lookupSorted, if_neg hk.ne]
    exact ih fun e he => h e (List.mem_cons_of_mem _ he)

theorem lookupSorted_toList_append (k k' : κ) (o : Option β) (l : List (κ × β)) :
    lookupSorted k' ((o.map fun v => (k, v)).toList ++ l)
      = if k' = k then o <|> lookupSorted k' l else lookupSorted k' l := by
  cases o with
  | none => split_ifs <;> simp
  | some v => simp [lookupSorted]

variable {f : Option β → Option β}

theorem lookupSorted_alterSorted {k : κ} (h : l.Pairwise fun a b => a.1 < b.1) (k' : κ) :
    lookupSorted k' (alterSorted k f l)
      = if k' = k then f (lookupSorted k l) else lookupSorted k' l := by
  induction l with
  | nil =>
    have := lookupSorted_toList_append k k' (f none) ([] : List (κ × β))
    simp only [List.append_nil] at this
    rw [alterSorted, this]
    simp [lookupSorted]
  | cons e l ih =>
    obtain ⟨k₀, v₀⟩ := e
    obtain ⟨hhead, htail⟩ := List.pairwise_cons.mp h
    rw [alterSorted]
    by_cases hlt : k < k₀
    · -- the key is smaller than every key present
      have hnone : lookupSorted k ((k₀, v₀) :: l) = none :=
        lookupSorted_eq_none_of_lt fun e he => by
          rcases List.mem_cons.mp he with rfl | he
          · exact hlt
          · exact hlt.trans (hhead e he)
      rw [if_pos hlt, lookupSorted_toList_append]
      split_ifs with hk
      · rw [hk, hnone]
        simp
      · rfl
    · rw [if_neg hlt]
      by_cases hgt : k₀ < k
      · rw [if_pos hgt, lookupSorted, ih htail, lookupSorted, lookupSorted, if_neg hgt.ne']
        split_ifs with hk₀ hk
        · exact absurd (hk ▸ hk₀) hgt.ne'
        · rfl
        · rfl
        · rfl
      · -- the key is the head key
        have hkk : k = k₀ := le_antisymm (not_lt.mp hgt) (not_lt.mp hlt)
        subst hkk
        have hnone : lookupSorted k l = none := lookupSorted_eq_none_of_lt hhead
        rw [if_neg hgt, lookupSorted_toList_append, lookupSorted, lookupSorted, if_pos rfl]
        split_ifs with hk
        · rw [hk, hnone]
          simp
        · rfl

theorem mem_alterSorted {k : κ} {e : κ × β} (he : e ∈ alterSorted k f l) : e.1 = k ∨ e ∈ l := by
  induction l with
  | nil =>
    obtain ⟨v, hv⟩ := Option.mem_toList.mp he |> Option.map_eq_some_iff.mp
    exact Or.inl (by rw [← hv.2])
  | cons e₀ l ih =>
    obtain ⟨k₀, v₀⟩ := e₀
    rw [alterSorted] at he
    have happ : ∀ (o : Option β) (r : List (κ × β)),
        e ∈ (o.map fun v => (k, v)).toList ++ r → e.1 = k ∨ e ∈ r := by
      intro o r h
      rcases List.mem_append.mp h with h | h
      · obtain ⟨v, hv⟩ := Option.mem_toList.mp h |> Option.map_eq_some_iff.mp
        exact Or.inl (by rw [← hv.2])
      · exact Or.inr h
    split_ifs at he with hlt hgt
    · exact happ _ _ he
    · rcases List.mem_cons.mp he with rfl | he
      · exact Or.inr (List.mem_cons_self ..)
      · exact (ih he).imp_right (List.mem_cons_of_mem _)
    · exact (happ _ _ he).imp_right (List.mem_cons_of_mem _)

theorem pairwise_alterSorted {k : κ} (h : l.Pairwise fun a b => a.1 < b.1) :
    (alterSorted k f l).Pairwise fun a b => a.1 < b.1 := by
  have happ : ∀ (o : Option β) (r : List (κ × β)),
      (r.Pairwise fun a b => a.1 < b.1) → (∀ e ∈ r, k < e.1) →
      ((o.map fun v => (k, v)).toList ++ r).Pairwise fun a b => a.1 < b.1 := by
    intro o r hr hk
    cases o with
    | none => simpa using hr
    | some v => exact List.pairwise_cons.mpr ⟨hk, hr⟩
  induction l with
  | nil =>
    have hnil := happ (f none) [] List.Pairwise.nil (by simp)
    rwa [List.append_nil] at hnil
  | cons e₀ l ih =>
    obtain ⟨k₀, v₀⟩ := e₀
    obtain ⟨hhead, htail⟩ := List.pairwise_cons.mp h
    rw [alterSorted]
    split_ifs with hlt hgt
    · refine happ _ _ h fun e he => ?_
      rcases List.mem_cons.mp he with rfl | he
      · exact hlt
      · exact hlt.trans (hhead e he)
    · refine List.pairwise_cons.mpr ⟨fun e he => ?_, ih htail⟩
      rcases mem_alterSorted he with hk | he
      · exact hk ▸ hgt
      · exact hhead e he
    · have hkk : k = k₀ := le_antisymm (not_lt.mp hgt) (not_lt.mp hlt)
      exact happ _ _ htail fun e he => hkk ▸ hhead e he

/-- An ordered map. -/
structure BTreeMap (κ : Type*) (β : Type*) [LinearOrder κ] where
  entries : List (κ × β)
  sorted : entries.Pairwise fun a b => a.1 < b.1

namespace BTreeMap

variable {m m' : BTreeMap κ β} {k k' : κ} {v : β}

instance [DecidableEq β] : DecidableEq (BTreeMap κ β) := fun m m' =>
  decidable_of_iff (m.entries = m'.entries) (by cases m; cases m'; simp)

def empty : BTreeMap κ β := ⟨[], List.Pairwise.nil⟩

instance : EmptyCollection (BTreeMap κ β) := ⟨empty⟩

instance : Inhabited (BTreeMap κ β) := ⟨empty⟩

@[simp] theorem entries_empty : (∅ : BTreeMap κ β).entries = [] := rfl

def get? (m : BTreeMap κ β) (k : κ) : Option β := lookupSorted k m.entries

@[simp] theorem get?_empty : (∅ : BTreeMap κ β).get? k = none := rfl

theorem mem_entries_iff : (k, v) ∈ m.entries ↔ m.get? k = some v := by
  obtain ⟨l, hl⟩ := m
  simp only [get?]
  induction l with
  | nil => simp [lookupSorted]
  | cons e l ih =>
    obtain ⟨k₀, v₀⟩ := e
    obtain ⟨hhead, htail⟩ := List.pairwise_cons.mp hl
    rw [lookupSorted, List.mem_cons, ih htail]
    by_cases hk : k = k₀
    · subst hk
      rw [if_pos rfl, lookupSorted_eq_none_of_lt hhead]
      simp [eq_comm]
    · simp [hk]

theorem nodup_entries (m : BTreeMap κ β) : m.entries.Nodup :=
  m.sorted.imp fun h hEq => absurd (hEq ▸ h) (lt_irrefl _)

theorem ext_get? (h : ∀ k, m.get? k = m'.get? k) : m = m' := by
  have hmem : ∀ e, e ∈ m.entries ↔ e ∈ m'.entries := by
    rintro ⟨k, v⟩
    rw [mem_entries_iff, mem_entries_iff, h]
  have hperm : m.entries.Perm m'.entries :=
    (List.perm_ext_iff_of_nodup m.nodup_entries m'.nodup_entries).mpr hmem
  have heq : m.entries = m'.entries :=
    hperm.eq_of_pairwise (fun a b _ _ hab hba => absurd hab (not_lt.mpr hba.le))
      m.sorted m'.sorted
  cases m
  cases m'
  simpa using heq

/-- Replace what the map holds at one key. -/
def alter (m : BTreeMap κ β) (k : κ) (f : Option β → Option β) : BTreeMap κ β :=
  ⟨alterSorted k f m.entries, pairwise_alterSorted m.sorted⟩

theorem get?_alter {f : Option β → Option β} :
    (m.alter k f).get? k' = if k' = k then f (m.get? k) else m.get? k' :=
  lookupSorted_alterSorted m.sorted k'

def insert (m : BTreeMap κ β) (k : κ) (v : β) : BTreeMap κ β := m.alter k fun _ => some v

theorem get?_insert : (m.insert k v).get? k' = if k' = k then some v else m.get? k' :=
  get?_alter

@[simp] theorem get?_insert_self : (m.insert k v).get? k = some v := by
  rw [get?_insert, if_pos rfl]

def erase (m : BTreeMap κ β) (k : κ) : BTreeMap κ β := m.alter k fun _ => none

theorem get?_erase : (m.erase k).get? k' = if k' = k then none else m.get? k' :=
  get?_alter

/-- `entry(k).or_insert(d)` followed by an update of the value in place. -/
def upsert (m : BTreeMap κ β) (k : κ) (d : β) (f : β → β) : BTreeMap κ β :=
  m.alter k fun o => some (f (o.getD d))

theorem get?_upsert {d : β} {f : β → β} :
    (m.upsert k d f).get? k' = if k' = k then some (f ((m.get? k).getD d)) else m.get? k' :=
  get?_alter

/-- Insert every entry of a list in order; a later entry replaces an earlier one. -/
def extend (m : BTreeMap κ β) (l : List (κ × β)) : BTreeMap κ β :=
  l.foldl (fun m e => m.insert e.1 e.2) m

def ofList (l : List (κ × β)) : BTreeMap κ β := (∅ : BTreeMap κ β).extend l

def keys (m : BTreeMap κ β) : List κ := m.entries.map Prod.fst

def values (m : BTreeMap κ β) : List β := m.entries.map Prod.snd

theorem mem_keys_iff : k ∈ m.keys ↔ ∃ v, m.get? k = some v := by
  simp only [keys, List.mem_map, Prod.exists, exists_and_right, exists_eq_right]
  simp only [mem_entries_iff]

theorem mem_values_iff : v ∈ m.values ↔ ∃ k, m.get? k = some v := by
  simp only [values, List.mem_map, Prod.exists, exists_eq_right]
  simp only [mem_entries_iff]

theorem sorted_keys (m : BTreeMap κ β) : m.keys.Pairwise (· < ·) :=
  List.pairwise_map.mpr m.sorted

theorem nodup_keys (m : BTreeMap κ β) : m.keys.Nodup := m.sorted_keys.imp ne_of_lt

def contains (m : BTreeMap κ β) (k : κ) : Bool := (m.get? k).isSome

def size (m : BTreeMap κ β) : Nat := m.entries.length

/-- The keys as a set. -/
def keySet (m : BTreeMap κ β) : BTreeSet κ := ⟨m.keys, m.sorted_keys⟩

@[simp] theorem mem_keySet_iff : k ∈ m.keySet ↔ ∃ v, m.get? k = some v := mem_keys_iff

theorem size_keySet (m : BTreeMap κ β) : m.keySet.size = m.size := List.length_map ..

theorem size_insert_of_get?_eq_none (h : m.get? k = none) :
    (m.insert k v).size = m.size + 1 := by
  have hset : (m.insert k v).keySet = m.keySet.insert k := by
    apply BTreeSet.ext_mem
    intro x
    rw [mem_keySet_iff, BTreeSet.mem_insert, mem_keySet_iff, get?_insert]
    split_ifs with hx <;> simp [hx]
  rw [← size_keySet, hset, BTreeSet.size_insert_of_not_mem (by simp [h]), size_keySet]

def isEmpty (m : BTreeMap κ β) : Bool := m.entries.isEmpty

theorem isEmpty_iff : m.isEmpty = true ↔ m = ∅ := by
  constructor
  · intro h
    obtain ⟨l, hl⟩ := m
    have hnil : l = [] := List.isEmpty_iff.mp h
    subst hnil
    rfl
  · rintro rfl
    rfl

/-- Replace every value by a function of it. -/
def mapValues (m : BTreeMap κ β) (f : β → γ) : BTreeMap κ γ :=
  ⟨m.entries.map fun e => (e.1, f e.2), List.pairwise_map.mpr m.sorted⟩

theorem get?_mapValues {f : β → γ} : (m.mapValues f).get? k = (m.get? k).map f := by
  have hl : ∀ l : List (κ × β), lookupSorted k (l.map fun e => (e.1, f e.2))
      = (lookupSorted k l).map f := by
    intro l
    induction l with
    | nil => rfl
    | cons e l ih =>
      obtain ⟨k₀, v₀⟩ := e
      rw [List.map_cons, lookupSorted, lookupSorted, ih]
      split_ifs <;> rfl
  exact hl m.entries

/-- Keep the entries that a test accepts, as `retain` does. -/
def filter (m : BTreeMap κ β) (p : κ → β → Bool) : BTreeMap κ β :=
  ⟨m.entries.filter fun e => p e.1 e.2, m.sorted.filter _⟩

theorem get?_filter {p : κ → β → Bool} : (m.filter p).get? k = (m.get? k).filter (p k) := by
  apply Option.ext
  intro v
  rw [← mem_entries_iff, filter, List.mem_filter, mem_entries_iff, Option.filter_eq_some_iff]

/-- Replace the value of every entry, and drop the entries that have none. -/
def filterMap (m : BTreeMap κ β) (f : κ → β → Option γ) : BTreeMap κ γ :=
  ⟨m.entries.filterMap fun e => (f e.1 e.2).map fun v => (e.1, v), by
    refine List.Pairwise.filterMap _ ?_ m.sorted
    rintro a a' hlt b hb b' hb'
    obtain ⟨v, -, rfl⟩ := Option.map_eq_some_iff.mp hb
    obtain ⟨v', -, rfl⟩ := Option.map_eq_some_iff.mp hb'
    exact hlt⟩

theorem get?_filterMap {f : κ → β → Option γ} :
    (m.filterMap f).get? k = (m.get? k).bind (f k) := by
  apply Option.ext
  intro v
  rw [← mem_entries_iff, filterMap, List.mem_filterMap, Option.bind_eq_some_iff]
  constructor
  · rintro ⟨⟨k', b⟩, hmem, hv⟩
    obtain ⟨v', hv', heq⟩ := Option.map_eq_some_iff.mp hv
    cases heq
    exact ⟨b, mem_entries_iff.mp hmem, hv'⟩
  · rintro ⟨b, hb, hv⟩
    exact ⟨(k, b), mem_entries_iff.mpr hb, by rw [hv]; rfl⟩

theorem values_filterMap {f : κ → β → Option γ} :
    (m.filterMap f).values = m.entries.filterMap fun e => f e.1 e.2 := by
  rw [values, filterMap, List.map_filterMap]
  refine List.filterMap_congr fun e _ => ?_
  cases f e.1 e.2 <;> rfl

/-! How the updates change the list of keys. -/

@[simp] theorem keys_mapValues {f : β → γ} : (m.mapValues f).keys = m.keys := by
  simp [keys, mapValues]

theorem keys_eq_nil_iff : m.keys = [] ↔ m = ∅ := by
  rw [← isEmpty_iff, isEmpty, List.isEmpty_iff, keys, List.map_eq_nil_iff]

theorem keys_insert_of_contains (h : m.contains k) : (m.insert k v).keys = m.keys := by
  apply eq_of_pairwise_lt_of_mem (sorted_keys _) (sorted_keys _)
  intro x
  rw [mem_keys_iff, mem_keys_iff, get?_insert]
  split_ifs with hx
  · subst hx
    simpa using Option.isSome_iff_exists.mp h
  · rfl

theorem keys_insert_empty : ((∅ : BTreeMap κ β).insert k v).keys = [k] := by
  apply eq_of_pairwise_lt_of_mem (sorted_keys _) (List.pairwise_singleton _ _)
  intro x
  rw [mem_keys_iff, get?_insert, get?_empty]
  split_ifs with hx <;> simp [hx]

theorem keys_erase : (m.erase k).keys = m.keys.filter fun x => x ≠ k := by
  apply eq_of_pairwise_lt_of_mem (sorted_keys _) ((sorted_keys _).filter _)
  intro x
  rw [mem_keys_iff, get?_erase, List.mem_filter, mem_keys_iff]
  split_ifs with hx <;> simp [hx]

variable {l : List (κ × β)}

/-- The last entry of a key wins, as when a list is collected into a map. -/
theorem get?_extend :
    (m.extend l).get? k = (lookupSorted k l.reverse <|> m.get? k) := by
  induction l generalizing m with
  | nil => simp [extend, lookupSorted]
  | cons e l ih =>
    obtain ⟨k₀, v₀⟩ := e
    have hcons : m.extend ((k₀, v₀) :: l) = (m.insert k₀ v₀).extend l := rfl
    have happ : ∀ r : List (κ × β), lookupSorted k (r ++ [(k₀, v₀)])
        = (lookupSorted k r <|> if k = k₀ then some v₀ else none) := by
      intro r
      induction r with
      | nil => simp [lookupSorted]
      | cons e r ihr =>
        obtain ⟨k₁, v₁⟩ := e
        rw [List.cons_append, lookupSorted, lookupSorted, ihr]
        split_ifs <;> simp
    rw [hcons, ih, List.reverse_cons, happ, get?_insert]
    cases lookupSorted k l.reverse <;> split_ifs <;> simp

theorem get?_ofList : (ofList l).get? k = lookupSorted k l.reverse := by
  rw [ofList, get?_extend]
  simp

/-- Collecting entries with distinct keys keeps every entry. -/
theorem get?_ofList_of_nodup (h : (l.map Prod.fst).Nodup) :
    (ofList l).get? k = some v ↔ (k, v) ∈ l := by
  have hmem : ∀ r : List (κ × β), (r.map Prod.fst).Nodup →
      (lookupSorted k r = some v ↔ (k, v) ∈ r) := by
    intro r hr
    induction r with
    | nil => simp [lookupSorted]
    | cons e r ih =>
      obtain ⟨k₀, v₀⟩ := e
      obtain ⟨hk₀, hr⟩ := List.nodup_cons.mp hr
      rw [lookupSorted, List.mem_cons]
      by_cases hk : k = k₀
      · subst hk
        have hnot : (k, v) ∉ r := fun hin => hk₀ (List.mem_map.mpr ⟨(k, v), hin, rfl⟩)
        simp [hnot, eq_comm]
      · simp [hk, ih hr]
  rw [get?_ofList, hmem _ (by simpa [List.map_reverse] using h), List.mem_reverse]

/-- Extending by a map. -/
theorem get?_extend_entries (m' : BTreeMap κ β) :
    (m.extend m'.entries).get? k = (m'.get? k <|> m.get? k) := by
  have hofList : (ofList m'.entries).get? k = m'.get? k := by
    apply Option.ext
    intro v
    rw [get?_ofList_of_nodup m'.nodup_keys, mem_entries_iff]
  rw [get?_extend, ← get?_ofList, hofList]

theorem extend_append (l l' : List (κ × β)) : m.extend (l ++ l') = (m.extend l).extend l' :=
  List.foldl_append

/-- Extending by a collected list is extending by the list. -/
theorem extend_entries_ofList (l : List (κ × β)) : m.extend (ofList l).entries = m.extend l := by
  apply ext_get?
  intro k
  rw [get?_extend_entries, get?_ofList, get?_extend]

/-- What an extended map holds it held before, or was given. -/
theorem mem_of_get?_extend (h : (m.extend l).get? k = some v) :
    (k, v) ∈ l ∨ m.get? k = some v := by
  induction l generalizing m with
  | nil => exact .inr h
  | cons e l ih =>
    obtain hlater | hinsert := @ih (m.insert e.1 e.2) h
    · exact .inl (List.mem_cons_of_mem e hlater)
    · rw [get?_insert] at hinsert
      split_ifs at hinsert with hk
      · cases hinsert
        exact .inl (hk ▸ List.mem_cons_self)
      · exact .inr hinsert

/-- Collecting the entries of a map gives the map. -/
theorem ofList_entries : ofList m.entries = m := by
  apply ext_get?
  intro k
  rw [ofList, get?_extend_entries, get?_empty]
  cases m.get? k <;> rfl

/-- Collecting entries with distinct keys only reorders them. -/
theorem entries_ofList_perm (h : (l.map Prod.fst).Nodup) :
    (ofList l).entries.Perm l := by
  have hnd : l.Nodup := h.of_map
  refine (List.perm_ext_iff_of_nodup (ofList l).nodup_entries hnd).mpr ?_
  rintro ⟨k, v⟩
  rw [mem_entries_iff, get?_ofList_of_nodup h]

/-- Updating fresh keys one after the other collects the updated defaults. -/
theorem foldl_upsert_of_nodup {d : γ} {f : β → γ → γ} (h : (l.map Prod.fst).Nodup) :
    l.foldl (fun m e => m.upsert e.1 d (f e.2)) ∅ = ofList (l.map fun e => (e.1, f e.2 d)) := by
  have hfold : ∀ (l : List (κ × β)) (m : BTreeMap κ γ), (l.map Prod.fst).Nodup →
      (∀ e ∈ l, m.get? e.1 = none) →
      l.foldl (fun m e => m.upsert e.1 d (f e.2)) m
        = m.extend (l.map fun e => (e.1, f e.2 d)) := by
    intro l
    induction l with
    | nil => exact fun _ _ _ => rfl
    | cons e l ih =>
      intro m hnd hnone
      obtain ⟨he, hnd⟩ := List.nodup_cons.mp hnd
      have hins : m.upsert e.1 d (f e.2) = m.insert e.1 (f e.2 d) := by
        apply ext_get?
        intro k
        rw [get?_upsert, get?_insert, hnone e (List.mem_cons_self ..)]
        rfl
      rw [List.foldl_cons, hins, ih _ hnd]
      · rfl
      · intro e' he'
        rw [get?_insert, if_neg]
        · exact hnone e' (List.mem_cons_of_mem _ he')
        · exact fun hk => he (hk ▸ List.mem_map_of_mem he')
  exact hfold l ∅ h fun _ _ => get?_empty

/-- The keys of a collected list are the ones it lists. -/
theorem exists_get?_ofList_iff :
    (∃ v, (ofList l).get? k = some v) ↔ ∃ v, (k, v) ∈ l := by
  have hfold : ∀ m : BTreeMap κ β,
      (∃ v, (m.extend l).get? k = some v) ↔ (∃ v, m.get? k = some v) ∨ ∃ v, (k, v) ∈ l := by
    induction l with
    | nil => simp [extend]
    | cons e l ih =>
      intro m
      rw [show m.extend (e :: l) = (m.insert e.1 e.2).extend l from rfl, ih, get?_insert]
      by_cases hk : k = e.1
      · subst hk
        simp only [if_true, List.mem_cons]
        exact ⟨fun _ => .inr ⟨e.2, .inl rfl⟩, fun _ => .inl ⟨e.2, rfl⟩⟩
      · simp only [if_neg hk, List.mem_cons]
        refine or_congr_right ⟨fun ⟨v, hv⟩ => ⟨v, .inr hv⟩, ?_⟩
        rintro ⟨v, hv | hv⟩
        · exact absurd (congrArg Prod.fst hv) hk
        · exact ⟨v, hv⟩
  simpa [ofList] using hfold ∅

/-! ## Grouping -/

/-- The values listed under one key, in list order. -/
def valuesAt (k : κ) (l : List (κ × β)) : List β := (l.filter fun e => e.1 = k).map Prod.snd

theorem mem_valuesAt : v ∈ valuesAt k l ↔ (k, v) ∈ l := by
  simp only [valuesAt, List.mem_map, List.mem_filter, decide_eq_true_eq, Prod.exists]
  constructor
  · rintro ⟨k', v', ⟨h, rfl⟩, rfl⟩
    exact h
  · exact fun h => ⟨k, v, ⟨h, rfl⟩, rfl⟩

/-- Of the values of a key, the last one is kept. -/
theorem get?_ofList_eq_getLast? (l : List (κ × β)) :
    (ofList l).get? k = (valuesAt k l).getLast? := by
  induction l using List.reverseRecOn with
  | nil => rfl
  | append_singleton l entry ih =>
    obtain ⟨k', v⟩ := entry
    have hvalues : valuesAt k (l ++ [(k', v)])
        = valuesAt k l ++ if k' = k then [v] else [] := by
      rw [valuesAt, List.filter_append, List.map_append, ← valuesAt]
      by_cases hk : k' = k <;> simp [hk]
    rw [hvalues, ofList, extend_append]
    by_cases hk : k' = k
    · rw [if_pos hk, List.getLast?_append, ← hk]
      exact get?_insert_self
    · rw [if_neg hk, List.append_nil, ← ih]
      exact get?_insert.trans (if_neg (Ne.symm hk))

/-- Collect values under their keys: `entry(k).or_default().push(v)` for each. -/
def group (l : List (κ × β)) : BTreeMap κ (List β) :=
  l.foldl (fun m e => m.upsert e.1 [] (· ++ [e.2])) ∅

/-- A key that was listed has its values, in order. -/
theorem get?_group (l : List (κ × β)) :
    (group l).get? k = if valuesAt k l = [] then none else some (valuesAt k l) := by
  have hfold : ∀ m : BTreeMap κ (List β),
      (l.foldl (fun m e => m.upsert e.1 [] (· ++ [e.2])) m).get? k
        = if valuesAt k l = [] then m.get? k else some ((m.get? k).getD [] ++ valuesAt k l) := by
    induction l with
    | nil => simp [valuesAt]
    | cons e l ih =>
      intro m
      have hvalues : valuesAt k (e :: l)
          = if e.1 = k then e.2 :: valuesAt k l else valuesAt k l := by
        split_ifs with hk <;> simp [valuesAt, hk]
      rw [List.foldl_cons, ih, get?_upsert, hvalues]
      by_cases hk : e.1 = k
      · rw [if_pos hk, if_pos hk.symm, if_neg (List.cons_ne_nil _ _)]
        split_ifs with hl
        · rw [hl, hk]
        · simp [hk]
      · simp [hk, Ne.symm hk]
  simpa [group] using hfold ∅

theorem getD_get?_group (l : List (κ × β)) : ((group l).get? k).getD [] = valuesAt k l := by
  rw [get?_group]
  split_ifs with h
  · exact h.symm
  · rfl

theorem get?_group_eq_none_iff :
    (group l).get? k = none ↔ valuesAt k l = [] := by
  simp [get?_group]

end BTreeMap

end Collections
