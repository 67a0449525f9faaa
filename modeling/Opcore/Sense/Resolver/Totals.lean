/-
  Opcore.Sense.Resolver.Totals

  The projection of contributions that stay within the bounds.  It does not
  depend on the order of the contributions: edges and selectors are sets, the
  counters are sums, and the gaps are the smallest ones (`Totals`).  A
  contribution that does not stay within the bounds leaves a mark.
-/
import Opcore.Sense.Resolver.Contribution

namespace Opcore.Resolver

open Text Collections

/-! ## Selectors -/

def isNamed (selector : InterfaceSelector) : Bool :=
  selector.kind = .named || selector.kind = .default

/-- Selectors that are counted. -/
def namedSelectors (l : List (InterfaceEdgeKey × InterfaceSelector)) :
    List (InterfaceEdgeKey × InterfaceSelector) :=
  l.filter fun entry => isNamed entry.2

@[simp] theorem namedSelectors_append (l l' : List (InterfaceEdgeKey × InterfaceSelector)) :
    namedSelectors (l ++ l') = namedSelectors l ++ namedSelectors l' := List.filter_append ..

def selectEdge (edge : InterfaceEdge) (selector : InterfaceSelector) : InterfaceEdge :=
  match selector.kind with
  | .named | .default => { edge with selectors := edge.selectors.insert selector }
  | .namespace => { edge with unknownWidth := true }
  | .sideEffect => edge

/-- The edge under a key, where no selector is dropped. -/
def edgeAt (l : List (InterfaceEdgeKey × InterfaceSelector)) (key : InterfaceEdgeKey) :
    Option InterfaceEdge :=
  l.foldl
    (fun edge entry =>
      if entry.1 = key ∧ entry.2.kind ≠ .sideEffect then
        some (selectEdge (edge.getD {}) entry.2)
      else edge)
    none

theorem edgeAt_snoc (l : List (InterfaceEdgeKey × InterfaceSelector))
    (entry : InterfaceEdgeKey × InterfaceSelector) (key : InterfaceEdgeKey) :
    edgeAt (l ++ [entry]) key
      = if entry.1 = key ∧ entry.2.kind ≠ .sideEffect then
          some (selectEdge ((edgeAt l key).getD {}) entry.2)
        else edgeAt l key := by
  rw [edgeAt, List.foldl_append]
  rfl

theorem mem_selectors_edgeAt {l : List (InterfaceEdgeKey × InterfaceSelector)}
    {key : InterfaceEdgeKey} {selector : InterfaceSelector} :
    selector ∈ ((edgeAt l key).getD {}).selectors ↔ (key, selector) ∈ namedSelectors l := by
  induction l using List.reverseRecOn with
  | nil => simp [edgeAt, namedSelectors]
  | append_singleton l entry ih =>
    obtain ⟨key', selector'⟩ := entry
    rw [edgeAt_snoc, namedSelectors_append, List.mem_append, ← ih]
    by_cases hkey : key' = key
    · subst hkey
      cases hkind : selector'.kind <;>
        simp [selectEdge, namedSelectors, isNamed, hkind, eq_comm, or_comm]
    · simp [hkey, namedSelectors, Ne.symm hkey]

/-- Selectors of whole namespaces make the width unknown, and side effects alone no edge. -/
theorem edgeAt_spec {l : List (InterfaceEdgeKey × InterfaceSelector)} {key : InterfaceEdgeKey} :
    (((edgeAt l key).getD {}).unknownWidth = true
        ↔ ∃ selector, (key, selector) ∈ l ∧ selector.kind = .namespace)
      ∧ ((edgeAt l key).isSome = true
        ↔ ∃ selector, (key, selector) ∈ l ∧ selector.kind ≠ .sideEffect) := by
  induction l using List.reverseRecOn with
  | nil => simp [edgeAt]
  | append_singleton l entry ih =>
    obtain ⟨key', selector'⟩ := entry
    rw [edgeAt_snoc]
    by_cases hkey : key' = key
    · subst hkey
      cases hkind : selector'.kind <;>
        simp [selectEdge, hkind, or_and_right, exists_or, ih.1, ih.2]
    · simp [hkey, Ne.symm hkey, ih.1, ih.2]

/-- The edge under a key depends on which selectors of the key there are. -/
theorem edgeAt_congr {l l' : List (InterfaceEdgeKey × InterfaceSelector)} {key : InterfaceEdgeKey}
    (hnamed : ∀ selector, (key, selector) ∈ namedSelectors l ↔ (key, selector) ∈ namedSelectors l')
    (hnamespace : (∃ selector, (key, selector) ∈ l ∧ selector.kind = .namespace)
      ↔ ∃ selector, (key, selector) ∈ l' ∧ selector.kind = .namespace) :
    edgeAt l key = edgeAt l' key := by
  have hexists (l : List (InterfaceEdgeKey × InterfaceSelector)) :
      (∃ selector, (key, selector) ∈ l ∧ selector.kind ≠ .sideEffect)
        ↔ (∃ selector, (key, selector) ∈ namedSelectors l)
          ∨ ∃ selector, (key, selector) ∈ l ∧ selector.kind = .namespace := by
    rw [← exists_or]
    apply exists_congr
    intro selector
    cases hkind : selector.kind <;> simp [namedSelectors, isNamed, hkind]
  have hsome : (edgeAt l key).isSome = (edgeAt l' key).isSome := by
    rw [Bool.eq_iff_iff, edgeAt_spec.2, edgeAt_spec.2, hexists, hexists, hnamespace]
    simp only [hnamed]
  have hselectors : ((edgeAt l key).getD {}).selectors = ((edgeAt l' key).getD {}).selectors := by
    apply BTreeSet.ext_mem
    intro selector
    rw [mem_selectors_edgeAt, mem_selectors_edgeAt, hnamed]
  have hunknown :
      ((edgeAt l key).getD {}).unknownWidth = ((edgeAt l' key).getD {}).unknownWidth := by
    rw [Bool.eq_iff_iff, edgeAt_spec.1, edgeAt_spec.1, hnamespace]
  cases h : edgeAt l key with
  | none =>
    cases h' : edgeAt l' key with
    | none => rfl
    | some edge' => simp [h, h'] at hsome
  | some edge =>
    cases h' : edgeAt l' key with
    | none => simp [h, h'] at hsome
    | some edge' =>
      obtain ⟨selectors, unknownWidth⟩ := edge
      obtain ⟨selectors', unknownWidth'⟩ := edge'
      simp_all

/-- No selector of `l` was dropped. -/
structure SelectorState.Holds (s : SelectorState)
    (l : List (InterfaceEdgeKey × InterfaceSelector)) : Prop where
  edges : ∀ key, s.edges.get? key = edgeAt l key
  resolved : s.resolved = (namedSelectors l).toFinset.card

variable {s : SelectorState}

theorem record_of_isNamed {key : InterfaceEdgeKey}
    {selector : InterfaceSelector} (hnamed : isNamed selector = true) :
    s.record (key, selector) = s.recordNamed key selector := by
  cases hkind : selector.kind with
  | named | default => simp [SelectorState.record, hkind]
  | «namespace» | sideEffect => simp [isNamed, hkind] at hnamed

namespace SelectorState.Holds

variable {s : SelectorState} {l : List (InterfaceEdgeKey × InterfaceSelector)}
  {entry : InterfaceEdgeKey × InterfaceSelector} {selector : InterfaceSelector}
  {key : InterfaceEdgeKey}

/-- The selectors under a key are the recorded ones. -/
theorem mem_selectors (h : s.Holds l) :
    selector ∈ ((s.edges.get? key).getD {}).selectors ↔ (key, selector) ∈ namedSelectors l := by
  rw [h.edges, mem_selectors_edgeAt]

theorem toFinset_snoc_of_isNamed (hnamed : isNamed entry.2 = true) :
    (namedSelectors (l ++ [entry])).toFinset = insert entry (namedSelectors l).toFinset := by
  ext entry'
  simp [namedSelectors, hnamed]

theorem namedSelectors_snoc_of_not_isNamed (hnamed : isNamed entry.2 = false) :
    namedSelectors (l ++ [entry]) = namedSelectors l := by
  rw [namedSelectors_append, namedSelectors, namedSelectors,
    List.filter_cons_of_neg (by simp [hnamed]), List.filter_nil, List.append_nil]

/-- A selector that is not counted is always recorded. -/
theorem record_of_not_isNamed (h : s.Holds l) (hnamed : isNamed entry.2 = false) :
    (s.record entry).Holds (l ++ [entry]) ∧ (s.record entry).truncated = s.truncated := by
  obtain ⟨key, selector⟩ := entry
  have hsame := namedSelectors_snoc_of_not_isNamed (l := l) hnamed
  cases hkind : selector.kind with
  | named | default => simp [isNamed, hkind] at hnamed
  | sideEffect =>
    have hrecord : s.record (key, selector) = s := by simp [SelectorState.record, hkind]
    rw [hrecord]
    refine ⟨⟨fun key' => ?_, by rw [hsame, h.resolved]⟩, rfl⟩
    rw [edgeAt_snoc, h.edges, if_neg (by simp [hkind])]
  | «namespace» =>
    have hrecord : s.record (key, selector)
        = { s with edges := s.edges.upsert key {} fun edge =>
              { edge with unknownWidth := true } } := by
      simp [SelectorState.record, hkind]
    rw [hrecord]
    refine ⟨⟨fun key' => ?_, by rw [hsame, ← h.resolved]⟩, rfl⟩
    rw [edgeAt_snoc, BTreeMap.get?_upsert]
    by_cases hkey : key' = key
    · simp [hkey, hkind, selectEdge, h.edges]
    · simp [hkey, Ne.symm hkey, h.edges]

theorem edgeAt_snoc_of_isNamed (hnamed : isNamed selector = true) (key' : InterfaceEdgeKey) :
    edgeAt (l ++ [(key, selector)]) key'
      = if key' = key then
          some ⟨((edgeAt l key).getD {}).selectors.insert selector,
            ((edgeAt l key).getD {}).unknownWidth⟩
        else edgeAt l key' := by
  rw [edgeAt_snoc]
  by_cases hkey : key' = key
  · subst hkey
    cases hkind : selector.kind with
    | named | default => simp [hkind, selectEdge]
    | «namespace» | sideEffect => simp [isNamed, hkind] at hnamed
  · simp [hkey, Ne.symm hkey]

/-- A selector that is there already, or for which there is room, is recorded. -/
theorem recordNamed (h : s.Holds l) (hnamed : isNamed selector = true)
    (hfit : (namedSelectors (l ++ [(key, selector)])).toFinset.card ≤ maxInterfaceSelectors) :
    (s.recordNamed key selector).Holds (l ++ [(key, selector)])
      ∧ (s.recordNamed key selector).truncated = s.truncated := by
  have hcard : (namedSelectors (l ++ [(key, selector)])).toFinset
      = insert (key, selector) (namedSelectors l).toFinset := toFinset_snoc_of_isNamed hnamed
  rw [SelectorState.recordNamed]
  by_cases hmem : selector ∈ ((s.edges.get? key).getD {}).selectors
  · have hin : (key, selector) ∈ (namedSelectors l).toFinset :=
      List.mem_toFinset.mpr (h.mem_selectors.mp hmem)
    rw [if_pos hmem]
    refine ⟨⟨fun key' => ?_, ?_⟩, rfl⟩
    · rw [edgeAt_snoc_of_isNamed hnamed, BTreeMap.get?_insert, ← h.edges, ← h.edges,
        BTreeSet.insert_of_mem hmem]
      split_ifs <;> rfl
    · rw [hcard, Finset.insert_eq_of_mem hin, ← h.resolved]
  · have hout : (key, selector) ∉ (namedSelectors l).toFinset := fun hin =>
      hmem (h.mem_selectors.mpr (List.mem_toFinset.mp hin))
    have hroom : ¬ maxInterfaceSelectors ≤ s.resolved := by
      rw [hcard, Finset.card_insert_of_notMem hout, ← h.resolved] at hfit
      omega
    rw [if_neg hmem, if_neg hroom]
    refine ⟨⟨fun key' => ?_, ?_⟩, rfl⟩
    · rw [edgeAt_snoc_of_isNamed hnamed, BTreeMap.get?_insert, BTreeMap.get?_insert, ← h.edges,
        ← h.edges]
      split_ifs <;> rfl
    · rw [hcard, Finset.card_insert_of_notMem hout, ← h.resolved]

theorem record (h : s.Holds l)
    (hfit : (namedSelectors (l ++ [entry])).toFinset.card ≤ maxInterfaceSelectors) :
    (s.record entry).Holds (l ++ [entry]) ∧ (s.record entry).truncated = s.truncated := by
  cases hnamed : isNamed entry.2 with
  | true =>
    rw [record_of_isNamed hnamed]
    exact h.recordNamed hnamed hfit
  | false => exact h.record_of_not_isNamed hnamed

/-- A selector for which there is no room leaves a mark. -/
theorem record_truncated (h : s.Holds l)
    (hfit : (namedSelectors l).toFinset.card ≤ maxInterfaceSelectors)
    (hover : maxInterfaceSelectors < (namedSelectors (l ++ [entry])).toFinset.card) :
    (s.record entry).truncated = true := by
  cases hnamed : isNamed entry.2 with
  | false =>
    rw [namedSelectors_snoc_of_not_isNamed hnamed] at hover
    exact absurd hfit (not_le.mpr hover)
  | true =>
    rw [toFinset_snoc_of_isNamed hnamed] at hover
    have hout : entry ∉ (namedSelectors l).toFinset := by
      intro hin
      rw [Finset.insert_eq_of_mem hin] at hover
      exact absurd hfit (not_le.mpr hover)
    have hmem : entry.2 ∉ ((s.edges.get? entry.1).getD {}).selectors := fun hmem =>
      hout (List.mem_toFinset.mpr (h.mem_selectors.mp hmem))
    rw [Finset.card_insert_of_notMem hout, ← h.resolved] at hover
    have hfull : maxInterfaceSelectors ≤ s.resolved := by omega
    rw [record_of_isNamed hnamed, SelectorState.recordNamed, if_neg hmem, if_pos hfull]

theorem card_mono (l l' : List (InterfaceEdgeKey × InterfaceSelector)) :
    (namedSelectors l).toFinset.card ≤ (namedSelectors (l ++ l')).toFinset.card := by
  apply Finset.card_le_card
  intro entry
  simp +contextual [namedSelectors_append]

/-- Everything is recorded while everything fits. -/
theorem foldl_record (h : s.Holds l) {l' : List (InterfaceEdgeKey × InterfaceSelector)}
    (hfit : (namedSelectors (l ++ l')).toFinset.card ≤ maxInterfaceSelectors) :
    (l'.foldl SelectorState.record s).Holds (l ++ l')
      ∧ (l'.foldl SelectorState.record s).truncated = s.truncated := by
  induction l' generalizing s l with
  | nil =>
    rw [List.append_nil]
    exact ⟨h, rfl⟩
  | cons entry l' ih =>
    rw [List.append_cons l entry l'] at hfit ⊢
    have hstep := h.record ((card_mono _ l').trans hfit)
    have hrest := ih hstep.1 hfit
    exact ⟨hrest.1, hrest.2.trans hstep.2⟩

end SelectorState.Holds

/-- A mark stays. -/
theorem record_truncated_of_truncated (h : s.truncated = true)
    (entry : InterfaceEdgeKey × InterfaceSelector) : (s.record entry).truncated = true := by
  rw [SelectorState.record]
  split
  · rw [SelectorState.recordNamed]
    split_ifs <;> simp [h]
  · rw [SelectorState.recordNamed]
    split_ifs <;> simp [h]
  · exact h
  · exact h

theorem foldl_record_of_truncated (h : s.truncated = true)
    (l : List (InterfaceEdgeKey × InterfaceSelector)) :
    (l.foldl SelectorState.record s).truncated = true := by
  induction l generalizing s with
  | nil => exact h
  | cons entry l ih => exact ih (record_truncated_of_truncated h entry)

/-- If not everything fits, there is a mark. -/
theorem SelectorState.Holds.foldl_record_truncated
    {l l' : List (InterfaceEdgeKey × InterfaceSelector)} (h : s.Holds l)
    (hfit : (namedSelectors l).toFinset.card ≤ maxInterfaceSelectors)
    (hover : maxInterfaceSelectors < (namedSelectors (l ++ l')).toFinset.card) :
    (l'.foldl SelectorState.record s).truncated = true := by
  induction l' generalizing s l with
  | nil =>
    rw [List.append_nil] at hover
    exact absurd hfit (not_le.mpr hover)
  | cons entry l' ih =>
    rw [List.foldl_cons]
    by_cases hroom : (namedSelectors (l ++ [entry])).toFinset.card ≤ maxInterfaceSelectors
    · apply ih (h.record hroom).1 hroom
      rwa [List.append_assoc]
    · exact foldl_record_of_truncated (h.record_truncated hfit (not_le.mp hroom)) l'

/-! ## Totals -/

/-- The contribution fits into a projection. -/
def Contribution.Fits (c : Contribution) : Prop :=
  c.edges.toFinset.card ≤ maxGraphEdges
    ∧ (namedSelectors c.selectors).toFinset.card ≤ maxInterfaceSelectors

/-- Some bound was reached. -/
def Marked (P : Projection) : Prop :=
  P.coverage.edgesTruncated = true ∨ P.interfaceCoverage.selectorsTruncated = true

/-- The projection of a contribution that fits. -/
structure Totals (start : Projection) (c : Contribution) (P : Projection) : Prop where
  nodes : P.nodes = start.nodes
  edges : ∀ edge, edge ∈ P.edges ↔ edge ∈ c.edges
  coverage : P.coverage = { addCoverage start.coverage c.coverage with edgesTruncated := false }
  gaps : P.resolutionGaps = (BTreeSet.ofList c.gaps).initial maxObservationPaths
  gapsTruncated :
    P.resolutionGapsTruncated = decide (maxObservationPaths < (BTreeSet.ofList c.gaps).size)
  interfaces : ∀ path module, P.interfaces.get? path = some module ↔ (path, module) ∈ c.modules
  selectors : (selectorState P).Holds c.selectors
  interfaceCoverage :
    P.interfaceCoverage =
      { c.interfaceCoverage with
        resolvedSelectors := (namedSelectors c.selectors).toFinset.card
        selectorsTruncated := false }

/-- The totals of a contribution determine the projection. -/
theorem Totals.unique {start P Q : Projection} {c : Contribution} (hP : Totals start c P)
    (hQ : Totals start c Q) : P = Q := by
  have hedges : P.edges = Q.edges :=
    BTreeSet.ext_mem fun edge => (hP.edges edge).trans (hQ.edges edge).symm
  have hinterfaces : P.interfaces = Q.interfaces := by
    apply BTreeMap.ext_get?
    intro path
    apply Option.ext
    intro module
    exact (hP.interfaces path module).trans (hQ.interfaces path module).symm
  have hinterfaceEdges : P.interfaceEdges = Q.interfaceEdges := by
    apply BTreeMap.ext_get?
    intro key
    exact (hP.selectors.edges key).trans (hQ.selectors.edges key).symm
  obtain ⟨_, _, _, _, _, _, _, _⟩ := P
  obtain ⟨_, _, _, _, _, _, _, _⟩ := Q
  rw [Projection.mk.injEq]
  exact ⟨hP.nodes.trans hQ.nodes.symm, hedges, hP.coverage.trans hQ.coverage.symm,
    hP.gaps.trans hQ.gaps.symm, hP.gapsTruncated.trans hQ.gapsTruncated.symm, hinterfaces,
    hinterfaceEdges, hP.interfaceCoverage.trans hQ.interfaceCoverage.symm⟩

theorem get?_foldl_recordModule {l : List (RepoPath × ModuleInterface)}
    {interfaces : BTreeMap RepoPath ModuleInterface} (hnodup : (l.map Prod.fst).Nodup)
    (hfresh : ∀ entry ∈ l, interfaces.get? entry.1 = none) (path : RepoPath)
    (module : ModuleInterface) :
    (l.foldl recordModule interfaces).get? path = some module
      ↔ interfaces.get? path = some module ∨ (path, module) ∈ l := by
  induction l generalizing interfaces with
  | nil => simp
  | cons entry l ih =>
    obtain ⟨path', module'⟩ := entry
    rw [List.map_cons, List.nodup_cons] at hnodup
    have hnone : interfaces.get? path' = none := hfresh _ (List.mem_cons_self ..)
    have hstep : recordModule interfaces (path', module') = interfaces.insert path' module' := by
      simp [recordModule, hnone]
    rw [List.foldl_cons, hstep, ih hnodup.2]
    · rw [BTreeMap.get?_insert, List.mem_cons, Prod.mk.injEq]
      by_cases hpath : path = path'
      · have hout : (path, module) ∉ l := fun hin =>
          hnodup.1 (List.mem_map.mpr ⟨_, hin, hpath⟩)
        simp [hpath, hnone, hpath ▸ hout, eq_comm]
      · simp [hpath]
    · intro entry hentry
      have hne : entry.1 ≠ path' := fun heq =>
        hnodup.1 (List.mem_map.mpr ⟨entry, hentry, heq⟩)
      rw [BTreeMap.get?_insert, if_neg hne]
      exact hfresh entry (List.mem_cons_of_mem _ hentry)

section

variable (nodes : BTreeSet RepoPath) (files configurationErrors : Nat) {c : Contribution}

theorem selectorState_start_holds :
    (selectorState (startProjection nodes files configurationErrors)).Holds [] where
  edges := fun _ => rfl
  resolved := rfl

/-- A contribution that fits is projected to its totals. -/
theorem totals_absorb (hfit : c.Fits) (hmodules : (c.modules.map Prod.fst).Nodup) :
    Totals (startProjection nodes files configurationErrors) c
      (absorb (startProjection nodes files configurationErrors) c) := by
  have hedges : c.edges.foldl (insertBounded maxGraphEdges) (∅, false)
      = (BTreeSet.ofList c.edges, false) :=
    foldl_insertBounded_of_le (by
      rw [← BTreeSet.ofList, BTreeSet.size_ofList]
      exact hfit.1)
  have hgaps : c.gaps.foldl (keepSmallest maxObservationPaths) (∅, false)
      = ((BTreeSet.ofList c.gaps).initial maxObservationPaths,
        decide (maxObservationPaths < (BTreeSet.ofList c.gaps).size)) := by
    have := foldl_keepSmallest maxObservationPaths ∅ false c.gaps
    simp only [Bool.or_false] at this
    exact this
  have hselectors := (selectorState_start_holds nodes files configurationErrors).foldl_record
    (show (namedSelectors ([] ++ c.selectors)).toFinset.card ≤ _ from hfit.2)
  refine ⟨rfl, ?_, ?_, ?_, ?_, ?_, ?_, ?_⟩
  · intro edge
    have : (absorb (startProjection nodes files configurationErrors) c).edges
        = BTreeSet.ofList c.edges := congrArg Prod.fst hedges
    rw [this, BTreeSet.mem_ofList]
  · rw [absorb]
    dsimp only [startProjection]
    rw [hedges]
  · exact congrArg Prod.fst hgaps
  · exact congrArg Prod.snd hgaps
  · intro path module
    refine (get?_foldl_recordModule hmodules (fun _ _ => BTreeMap.get?_empty) path module).trans ?_
    simp
  · exact ⟨hselectors.1.edges, hselectors.1.resolved⟩
  · have hresolved := hselectors.1.resolved
    have htruncated := hselectors.2
    rw [absorb]
    dsimp only
    rw [hresolved, htruncated]
    simp [startProjection, selectorState, addInterfaceCoverage, addInterfaceGaps]

/-- A contribution that does not fit leaves a mark. -/
theorem marked_absorb (hover : ¬ c.Fits) :
    Marked (absorb (startProjection nodes files configurationErrors) c) := by
  rw [Contribution.Fits, not_and_or, not_le, not_le] at hover
  refine hover.imp (fun hedges => ?_) (fun hselectors => ?_)
  · apply foldl_insertBounded_of_lt (Nat.zero_le _)
    rw [← BTreeSet.size_ofList] at hedges
    exact hedges
  · exact (selectorState_start_holds nodes files configurationErrors).foldl_record_truncated
      (Nat.zero_le _) hselectors

theorem Totals.not_marked {start P : Projection} (h : Totals start c P) : ¬ Marked P := by
  rw [Marked, h.coverage, h.interfaceCoverage]
  simp

end

end Opcore.Resolver
