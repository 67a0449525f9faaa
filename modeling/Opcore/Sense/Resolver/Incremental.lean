/-
  Opcore.Sense.Resolver.Incremental

  Editing a projection against computing it.  Within the bounds, what a changed
  file contributed can be subtracted (`Totals.subtract`) and what it contributes
  now added (`Totals.add`).  A view on the way that does not fit leaves a mark
  that no later file takes away.
-/
import Opcore.Sense.Resolver.Totals

namespace Opcore.Resolver

open Text Collections

/-! ## Contributions of different files -/

/-- Everything in the contribution names the path as its importer. -/
structure Contribution.OwnedBy (c : Contribution) (path : RepoPath) : Prop where
  edges : ∀ edge ∈ c.edges, edge.from = path
  modules : ∀ entry ∈ c.modules, entry.1 = path
  selectors : ∀ entry ∈ c.selectors, entry.1.from = path

/-- Nothing in the contribution names the path as its importer. -/
structure Contribution.Avoids (c : Contribution) (path : RepoPath) : Prop where
  edges : ∀ edge ∈ c.edges, edge.from ≠ path
  modules : ∀ entry ∈ c.modules, entry.1 ≠ path
  selectors : ∀ entry ∈ c.selectors, entry.1.from ≠ path

variable {rest c : Contribution} {path : RepoPath}

theorem card_namedSelectors_append (hrest : rest.Avoids path) (hc : c.OwnedBy path) :
    (namedSelectors (rest ++ c).selectors).toFinset.card
      = (namedSelectors rest.selectors).toFinset.card
        + (namedSelectors c.selectors).toFinset.card := by
  rw [Contribution.selectors_append, namedSelectors_append, List.toFinset_append,
    Finset.card_union_of_disjoint]
  rw [Finset.disjoint_left]
  intro entry hin hin'
  rw [List.mem_toFinset] at hin hin'
  exact hrest.selectors entry (List.mem_filter.mp hin).1
    (hc.selectors entry (List.mem_filter.mp hin').1)

variable {key : InterfaceEdgeKey}

/-- Under a key of the owner only the owner's selectors count. -/
theorem edgeAt_append_of_from_eq (hrest : rest.Avoids path) (hkey : key.from = path) :
    edgeAt (rest ++ c).selectors key = edgeAt c.selectors key := by
  have hout (selector : InterfaceSelector) : (key, selector) ∉ rest.selectors := fun hin =>
    hrest.selectors _ hin hkey
  apply edgeAt_congr
  · intro selector
    simp [namedSelectors, hout]
  · simp [hout]

theorem edgeAt_append_of_from_ne (hc : c.OwnedBy path) (hkey : key.from ≠ path) :
    edgeAt (rest ++ c).selectors key = edgeAt rest.selectors key := by
  have hout (selector : InterfaceSelector) : (key, selector) ∉ c.selectors := fun hin =>
    hkey (hc.selectors _ hin)
  apply edgeAt_congr
  · intro selector
    simp [namedSelectors, hout]
  · simp [hout]

/-! ## Subtracting -/

theorem mem_foldl_erase {α : Type*} [LinearOrder α] {s : BTreeSet α} {l : List α} {a : α} :
    a ∈ l.foldl BTreeSet.erase s ↔ a ∈ s ∧ a ∉ l := by
  induction l generalizing s with
  | nil => simp
  | cons b l ih =>
    rw [List.foldl_cons, ih, BTreeSet.mem_erase, List.mem_cons, not_or, and_assoc]

theorem get?_foldl_erase {κ β : Type*} [LinearOrder κ] {m : BTreeMap κ β} {l : List κ} {k : κ} :
    (l.foldl BTreeMap.erase m).get? k = if k ∈ l then none else m.get? k := by
  induction l generalizing m with
  | nil => simp
  | cons k' l ih =>
    rw [List.foldl_cons, ih, BTreeMap.get?_erase]
    by_cases hk : k = k'
    · simp [hk]
    · simp [hk]

section

variable {nodes nodes' : BTreeSet RepoPath} {files configurationErrors : Nat}
  {rest c : Contribution} {P C : Projection} {path : RepoPath}

/-- Subtracting the projection of a file leaves the totals of the rest. -/
theorem Totals.subtract
    (hP : Totals (startProjection nodes (files + 1) configurationErrors) (rest ++ c) P)
    (hC : Totals (startProjection nodes' 1 0) c C) (hrest : rest.Avoids path)
    (hc : c.OwnedBy path) (hgaps : c.gaps = []) :
    Totals (startProjection nodes files configurationErrors) rest (subtractContribution P C) where
  nodes := hP.nodes
  edges := by
    intro edge
    rw [subtractContribution]
    dsimp only
    rw [mem_foldl_erase, hP.edges, ← BTreeSet.mem_def, hC.edges, Contribution.edges_append,
      List.mem_append]
    have hdisjoint : edge ∈ rest.edges → edge ∉ c.edges := fun hin hin' =>
      hrest.edges edge hin (hc.edges edge hin')
    tauto
  coverage := by
    rw [subtractContribution]
    dsimp only
    rw [hP.coverage, hC.coverage]
    simp only [subtractCoverage, addCoverage, startProjection, Contribution.coverage_append,
      ResolutionCoverage.mk.injEq, and_true]
    omega
  gaps := by
    have hnone : C.resolutionGaps = ∅ := by rw [hC.gaps, hgaps]; rfl
    rw [subtractContribution]
    dsimp only
    rw [hnone, hP.gaps, Contribution.gaps_append, hgaps, List.append_nil]
    rfl
  gapsTruncated := by
    rw [subtractContribution]
    dsimp only
    rw [hP.gapsTruncated, Contribution.gaps_append, hgaps, List.append_nil]
  interfaces := by
    intro path' module
    rw [subtractContribution]
    dsimp only
    rw [get?_foldl_erase]
    have hkeys : path' ∈ C.interfaces.keys ↔ ∃ module, (path', module) ∈ c.modules := by
      rw [BTreeMap.mem_keys_iff]
      simp only [hC.interfaces]
    have hdisjoint : (path', module) ∈ rest.modules → ∀ module', (path', module') ∉ c.modules :=
      fun hin module' hin' => hrest.modules _ hin (hc.modules (path', module') hin')
    by_cases hin : path' ∈ C.interfaces.keys
    · rw [if_pos hin]
      obtain ⟨module', hmodule'⟩ := hkeys.mp hin
      simp only [reduceCtorEq, false_iff]
      exact fun hrestIn => hdisjoint hrestIn module' hmodule'
    · rw [if_neg hin, hP.interfaces, Contribution.modules_append, List.mem_append]
      have hout : (path', module) ∉ c.modules := fun hmodule => hin (hkeys.mpr ⟨module, hmodule⟩)
      tauto
  selectors := by
    have hresolvedP : P.interfaceCoverage.resolvedSelectors = _ := hP.selectors.resolved
    have hresolvedC : C.interfaceCoverage.resolvedSelectors = _ := hC.selectors.resolved
    have hedgesP : ∀ key, P.interfaceEdges.get? key = _ := hP.selectors.edges
    have hedgesC : ∀ key, C.interfaceEdges.get? key = _ := hC.selectors.edges
    refine ⟨fun key => ?_, ?_⟩
    · change (C.interfaceEdges.keys.foldl BTreeMap.erase P.interfaceEdges).get? key = _
      rw [get?_foldl_erase, hedgesP]
      have hkeys : key ∈ C.interfaceEdges.keys ↔ (edgeAt c.selectors key).isSome = true := by
        rw [BTreeMap.mem_keys_iff, ← hedgesC, Option.isSome_iff_exists]
      by_cases hkey : key.from = path
      · -- The rest has no edge under a key of the owner.
        have hnone : edgeAt rest.selectors key = none := by
          rw [← Option.not_isSome_iff_eq_none, edgeAt_spec.2]
          rintro ⟨selector, hin, -⟩
          exact hrest.selectors _ hin hkey
        rw [edgeAt_append_of_from_eq hrest hkey, hnone]
        split_ifs with hin
        · rfl
        · rwa [hkeys, Option.not_isSome_iff_eq_none] at hin
      · rw [edgeAt_append_of_from_ne hc hkey, if_neg]
        rw [hkeys, edgeAt_spec.2]
        rintro ⟨selector, hin, -⟩
        exact hkey (hc.selectors _ hin)
    · change P.interfaceCoverage.resolvedSelectors - C.interfaceCoverage.resolvedSelectors = _
      rw [hresolvedP, hresolvedC, card_namedSelectors_append hrest hc, Nat.add_sub_cancel]
  interfaceCoverage := by
    have hcard := card_namedSelectors_append hrest hc
    rw [subtractContribution]
    dsimp only
    rw [hP.interfaceCoverage, hC.interfaceCoverage, hcard]
    simp only [subtractInterfaceCoverage, subtractInterfaceGaps, addInterfaceCoverage,
      addInterfaceGaps, Contribution.interfaceCoverage_append, Nat.add_sub_cancel]

end

/-! ## Adding -/

theorem foldl_recordEdge (P : Projection) (l : List DependencyEdge) :
    l.foldl recordEdge P = absorb P { edges := l } := by
  induction l generalizing P with
  | nil => exact (absorb_empty P).symm
  | cons edge l ih =>
    rw [List.foldl_cons, ih, recordEdge_eq, ← absorb_append]
    rfl

theorem foldl_recordResolutionGap (P : Projection) (l : List ResolutionGapEvidence) :
    l.foldl recordResolutionGap P = absorb P { gaps := l } := by
  induction l generalizing P with
  | nil => exact (absorb_empty P).symm
  | cons gap l ih =>
    rw [List.foldl_cons, ih, recordResolutionGap_eq, ← absorb_append]
    rfl

/-- The selectors that rebuild an edge. -/
def edgeSelectors (entry : InterfaceEdgeKey × InterfaceEdge) :
    List (InterfaceEdgeKey × InterfaceSelector) :=
  (if entry.2.unknownWidth then [(entry.1, ⟨.namespace, []⟩)] else [])
    ++ entry.2.selectors.elems.map fun selector => (entry.1, selector)

/-- What an edge that a selector made looks like. -/
structure IsRecorded (edge : InterfaceEdge) : Prop where
  named : ∀ selector ∈ edge.selectors, isNamed selector = true
  nonempty : edge.unknownWidth = true ∨ edge.selectors ≠ ∅

theorem isRecorded_of_edgeAt {l : List (InterfaceEdgeKey × InterfaceSelector)}
    {edge : InterfaceEdge} (h : edgeAt l key = some edge) :
    IsRecorded edge := by
  have hselectors := @mem_selectors_edgeAt l key
  have hunknown := (@edgeAt_spec l key).1
  simp only [h, Option.getD_some] at hselectors hunknown
  refine ⟨fun selector hin => ?_, ?_⟩
  · exact (List.mem_filter.mp (hselectors.mp hin)).2
  · obtain ⟨selector, hin, hkind⟩ := edgeAt_spec.2.mp (Option.isSome_of_eq_some h)
    cases hcase : selector.kind with
    | sideEffect => exact absurd hcase hkind
    | «namespace» => exact Or.inl (hunknown.mpr ⟨selector, hin, hcase⟩)
    | named | default =>
      right
      intro hempty
      have : selector ∈ edge.selectors :=
        hselectors.mpr (List.mem_filter.mpr ⟨hin, by simp [isNamed, hcase]⟩)
      rw [hempty] at this
      exact BTreeSet.not_mem_empty this

/-- Creating an edge before its first selector changes nothing. -/
theorem recordNamed_upsert (s : SelectorState) (key : InterfaceEdgeKey)
    (selector : InterfaceSelector) :
    SelectorState.recordNamed { s with edges := s.edges.upsert key {} fun edge => edge } key
      selector = s.recordNamed key selector := by
  have hget : ((s.edges.upsert key {} fun edge => edge).get? key).getD {}
      = (s.edges.get? key).getD {} := by
    rw [BTreeMap.get?_upsert, if_pos rfl]
    rfl
  have hinsert (edge : InterfaceEdge) :
      (s.edges.upsert key {} fun edge => edge).insert key edge = s.edges.insert key edge := by
    apply BTreeMap.ext_get?
    intro key'
    rw [BTreeMap.get?_insert, BTreeMap.get?_insert, BTreeMap.get?_upsert]
    split_ifs <;> rfl
  simp only [SelectorState.recordNamed, hget, hinsert]

theorem foldl_recordNamedSelector (P : Projection) (key : InterfaceEdgeKey)
    {l : List InterfaceSelector} (hnamed : ∀ selector ∈ l, isNamed selector = true) :
    l.foldl (fun P => recordNamedSelector P key) P
      = absorb P { selectors := l.map fun selector => (key, selector) } := by
  induction l generalizing P with
  | nil => exact (absorb_empty P).symm
  | cons selector l ih =>
    have hrecord : recordNamedSelector P key selector = recordSelector P key selector := by
      have hselector := hnamed selector (List.mem_cons_self ..)
      rw [recordSelector]
      cases hkind : selector.kind with
      | named | default => rfl
      | «namespace» | sideEffect => simp [isNamed, hkind] at hselector
    rw [List.foldl_cons, ih _ fun s hs => hnamed s (List.mem_cons_of_mem _ hs), hrecord,
      recordSelector_eq, ← absorb_append]
    rfl

/-- Adding an edge of a contribution is recording its selectors. -/
theorem addInterfaceEdge_eq (P : Projection) {entry : InterfaceEdgeKey × InterfaceEdge}
    (h : IsRecorded entry.2) :
    addInterfaceEdge P entry = absorb P { selectors := edgeSelectors entry } := by
  obtain ⟨key, selectors, unknownWidth⟩ := entry
  rw [addInterfaceEdge, foldl_recordNamedSelector _ _ h.named]
  cases unknownWidth with
  | true =>
    have hnamespace : absorb P { selectors := [(key, ⟨.namespace, []⟩)] }
        = { P with interfaceEdges := P.interfaceEdges.upsert key {} fun edge =>
              { edge with unknownWidth := true } } := by
      rw [← recordSelector_eq]
      rfl
    simp only [Bool.or_true]
    rw [← hnamespace, ← absorb_append]
    rfl
  | false =>
    have hnonempty : selectors ≠ ∅ := h.nonempty.resolve_left (by simp)
    obtain ⟨first, others, hsplit⟩ : ∃ first others, selectors.elems = first :: others := by
      cases hcase : selectors.elems with
      | nil => exact absurd (BTreeSet.isEmpty_iff.mp (by simp [BTreeSet.isEmpty, hcase])) hnonempty
      | cons first others => exact ⟨first, others, rfl⟩
    have hfirst : isNamed first = true :=
      h.named first (by rw [BTreeSet.mem_def, hsplit]; exact List.mem_cons_self ..)
    have hstate (s : SelectorState) :
        (selectors.elems.map fun selector => (key, selector)).foldl SelectorState.record
            { s with edges := s.edges.upsert key {} fun edge => edge }
          = (selectors.elems.map fun selector => (key, selector)).foldl SelectorState.record s := by
      rw [hsplit, List.map_cons, List.foldl_cons, List.foldl_cons, record_of_isNamed hfirst,
        record_of_isNamed hfirst, recordNamed_upsert]
    have hselectors : edgeSelectors (key, ⟨selectors, false⟩)
        = selectors.elems.map fun selector => (key, selector) := by
      simp [edgeSelectors]
    have hfold := hstate (selectorState P)
    simp only [Bool.or_false, hselectors]
    simp only [absorb, selectorState] at hfold ⊢
    simp only [hfold]

theorem foldl_addInterfaceEdge (P : Projection) {l : List (InterfaceEdgeKey × InterfaceEdge)}
    (h : ∀ entry ∈ l, IsRecorded entry.2) :
    l.foldl addInterfaceEdge P = absorb P { selectors := l.flatMap edgeSelectors } := by
  induction l generalizing P with
  | nil => exact (absorb_empty P).symm
  | cons entry l ih =>
    rw [List.foldl_cons, ih _ fun e he => h e (List.mem_cons_of_mem _ he),
      addInterfaceEdge_eq P (h entry (List.mem_cons_self ..)), ← absorb_append]
    rfl

/-- The counters of both, before the edges, gaps and selectors of the contribution. -/
def addCounters (P C : Projection) : Projection :=
  { P with
    coverage := addCoverage P.coverage C.coverage
    resolutionGapsTruncated := P.resolutionGapsTruncated || C.resolutionGapsTruncated
    interfaces := P.interfaces.extend C.interfaces.entries
    interfaceCoverage :=
      { addInterfaceCoverage P.interfaceCoverage C.interfaceCoverage with
        resolvedSelectors := P.interfaceCoverage.resolvedSelectors } }

/-- What is left of a projection to record: edges, gaps and selectors. -/
def recordedIn (C : Projection) : Contribution where
  edges := C.edges.elems
  gaps := C.resolutionGaps.elems
  selectors := C.interfaceEdges.entries.flatMap edgeSelectors

theorem addContribution_eq (P : Projection) {C : Projection}
    (h : ∀ entry ∈ C.interfaceEdges.entries, IsRecorded entry.2) :
    addContribution P C = absorb (addCounters P C) (recordedIn C) := by
  simp only [addContribution, foldl_recordResolutionGap, foldl_recordEdge,
    foldl_addInterfaceEdge _ h]
  simp [absorb, selectorState, addCounters, recordedIn, addCoverage, addInterfaceCoverage,
    addInterfaceGaps]

/-- The same selectors, up to the names of namespaces. -/
structure SameSelectors (l l' : List (InterfaceEdgeKey × InterfaceSelector)) : Prop where
  named : ∀ entry, entry ∈ namedSelectors l ↔ entry ∈ namedSelectors l'
  «namespace» : ∀ key, (∃ selector, (key, selector) ∈ l ∧ selector.kind = .namespace)
    ↔ ∃ selector, (key, selector) ∈ l' ∧ selector.kind = .namespace

namespace SameSelectors

variable {l l' : List (InterfaceEdgeKey × InterfaceSelector)}

theorem card (h : SameSelectors l l') :
    (namedSelectors l).toFinset.card = (namedSelectors l').toFinset.card := by
  congr 1
  ext entry
  rw [List.mem_toFinset, List.mem_toFinset, h.named]

theorem holds (h : SameSelectors l l') {s : SelectorState} (hs : s.Holds l) : s.Holds l' where
  edges := fun key => (hs.edges key).trans
    (edgeAt_congr (fun selector => h.named (key, selector)) (h.namespace key))
  resolved := hs.resolved.trans h.card

theorem append_left (h : SameSelectors l l') (rest : List (InterfaceEdgeKey × InterfaceSelector)) :
    SameSelectors (rest ++ l) (rest ++ l') where
  named := by
    intro entry
    simp only [namedSelectors_append, List.mem_append, h.named]
  «namespace» := by
    intro key
    simp only [List.mem_append, or_and_right, exists_or, h.namespace]

end SameSelectors

/-- The selectors of a projection rebuild those it holds. -/
theorem sameSelectors_recordedIn {C : Projection} {l : List (InterfaceEdgeKey × InterfaceSelector)}
    (h : (selectorState C).Holds l) : SameSelectors (recordedIn C).selectors l := by
  have hedges : ∀ key, C.interfaceEdges.get? key = edgeAt l key := h.edges
  have hentry (key : InterfaceEdgeKey) (edge : InterfaceEdge) :
      (key, edge) ∈ C.interfaceEdges.entries ↔ edgeAt l key = some edge := by
    rw [BTreeMap.mem_entries_iff, hedges]
  refine ⟨fun ⟨key, selector⟩ => ?_, fun key => ?_⟩
  · rw [← @mem_selectors_edgeAt l]
    simp only [namedSelectors, recordedIn, List.mem_filter, List.mem_flatMap]
    constructor
    · rintro ⟨⟨⟨key', edge⟩, hin, hselector⟩, hnamed⟩
      rw [edgeSelectors, List.mem_append] at hselector
      rcases hselector with hselector | hselector
      · -- A rebuilt namespace is not counted.
        split_ifs at hselector
        · simp only [List.mem_singleton, Prod.mk.injEq] at hselector
          simp [hselector.2, isNamed] at hnamed
        · exact absurd hselector List.not_mem_nil
      · simp only [List.mem_map, Prod.mk.injEq] at hselector
        obtain ⟨selector', hselector', rfl, rfl⟩ := hselector
        rw [(hentry _ _).mp hin]
        exact hselector'
    · intro hselector
      cases hedge : edgeAt l key with
      | none =>
        rw [hedge] at hselector
        exact absurd hselector BTreeSet.not_mem_empty
      | some edge =>
        rw [hedge] at hselector
        refine ⟨⟨(key, edge), (hentry _ _).mpr hedge, ?_⟩,
          (isRecorded_of_edgeAt hedge).named selector hselector⟩
        rw [edgeSelectors, List.mem_append]
        exact Or.inr (List.mem_map.mpr ⟨selector, hselector, rfl⟩)
  · rw [← (@edgeAt_spec l _).1]
    simp only [recordedIn, List.mem_flatMap]
    constructor
    · rintro ⟨selector, ⟨⟨key', edge⟩, hin, hselector⟩, hkind⟩
      rw [edgeSelectors, List.mem_append] at hselector
      rcases hselector with hselector | hselector
      · split_ifs at hselector with hunknown
        · simp only [List.mem_singleton, Prod.mk.injEq] at hselector
          rw [hselector.1, (hentry _ _).mp hin]
          exact hunknown
        · exact absurd hselector List.not_mem_nil
      · simp only [List.mem_map, Prod.mk.injEq] at hselector
        obtain ⟨selector', hselector', rfl, rfl⟩ := hselector
        have hnamed := (isRecorded_of_edgeAt ((hentry _ _).mp hin)).named _ hselector'
        simp [isNamed, hkind] at hnamed
    · intro hunknown
      cases hedge : edgeAt l key with
      | none =>
        rw [hedge] at hunknown
        exact absurd hunknown (by simp)
      | some edge =>
        rw [hedge] at hunknown
        refine ⟨⟨.namespace, []⟩, ⟨(key, edge), (hentry _ _).mpr hedge, ?_⟩, rfl⟩
        rw [edgeSelectors, if_pos (show edge.unknownWidth = true from hunknown)]
        exact List.mem_append_left _ (List.mem_singleton.mpr rfl)

section

variable {nodes nodes' : BTreeSet RepoPath} {files configurationErrors : Nat}
  {rest c : Contribution} {M C : Projection} {path : RepoPath} {start : Projection}

theorem Totals.isRecorded (hC : Totals start c C) :
    ∀ entry ∈ C.interfaceEdges.entries, IsRecorded entry.2 := by
  intro entry hentry
  have hget := BTreeMap.mem_entries_iff.mp hentry
  exact isRecorded_of_edgeAt ((hC.selectors.edges entry.1).symm.trans hget)

theorem Totals.edges_eq (h : Totals start c C) :
    C.edges = BTreeSet.ofList c.edges :=
  BTreeSet.ext_mem fun edge => (h.edges edge).trans BTreeSet.mem_ofList.symm

theorem Totals.extend_edges {start start' : Projection} (hM : Totals start rest M)
    (hC : Totals start' c C) :
    M.edges.extend C.edges.elems = BTreeSet.ofList (rest ++ c).edges := by
  apply BTreeSet.ext_mem
  intro edge
  rw [BTreeSet.mem_extend, ← BTreeSet.mem_def, hM.edges, hC.edges, BTreeSet.mem_ofList,
    Contribution.edges_append, List.mem_append, or_comm]

/-- The state into which the selectors of a contribution go. -/
theorem Totals.holds_addCounters (hM : Totals start rest M) (C : Projection) :
    (selectorState (addCounters M C)).Holds rest.selectors :=
  ⟨hM.selectors.edges, hM.selectors.resolved⟩

theorem ofList_append_eq_extend {α : Type*} [LinearOrder α] (l l' : List α) :
    BTreeSet.ofList (l ++ l') = (BTreeSet.ofList l).extend (BTreeSet.ofList l').elems := by
  apply BTreeSet.ext_mem
  intro a
  rw [BTreeSet.mem_extend, ← BTreeSet.mem_def, BTreeSet.mem_ofList, BTreeSet.mem_ofList,
    BTreeSet.mem_ofList, List.mem_append, or_comm]

/-- Adding the projection of a file gives the totals of both, if both fit. -/
theorem Totals.add (hM : Totals (startProjection nodes files configurationErrors) rest M)
    (hC : Totals (startProjection nodes' 1 0) c C) (hrest : rest.Avoids path)
    (hc : c.OwnedBy path) (hfit : (rest ++ c).Fits) :
    Totals (startProjection nodes (files + 1) configurationErrors) (rest ++ c)
      (addContribution M C) := by
  have hflags : (addCounters M C).coverage.edgesTruncated = false := by
    change (M.coverage.edgesTruncated || C.coverage.edgesTruncated) = false
    rw [hM.coverage, hC.coverage]
    rfl
  have hedges : (recordedIn C).edges.foldl (insertBounded maxGraphEdges)
        ((addCounters M C).edges, (addCounters M C).coverage.edgesTruncated)
      = (BTreeSet.ofList (rest ++ c).edges, false) := by
    have hextend : (addCounters M C).edges.extend (recordedIn C).edges
        = BTreeSet.ofList (rest ++ c).edges := hM.extend_edges hC
    rw [← hextend, hflags]
    apply foldl_insertBounded_of_le
    rw [hextend, BTreeSet.size_ofList]
    exact hfit.1
  have hgaps : (recordedIn C).gaps.foldl (keepSmallest maxObservationPaths)
        ((addCounters M C).resolutionGaps, (addCounters M C).resolutionGapsTruncated)
      = ((BTreeSet.ofList (rest ++ c).gaps).initial maxObservationPaths,
        decide (maxObservationPaths < (BTreeSet.ofList (rest ++ c).gaps).size)) := by
    have hstart : ((addCounters M C).resolutionGaps, (addCounters M C).resolutionGapsTruncated)
        = ((BTreeSet.ofList rest.gaps).initial maxObservationPaths,
          decide (maxObservationPaths < (BTreeSet.ofList rest.gaps).size)
            || C.resolutionGapsTruncated) := by
      rw [← hM.gaps, ← hM.gapsTruncated]
      rfl
    have hitems : (recordedIn C).gaps
        = ((BTreeSet.ofList c.gaps).initial maxObservationPaths).elems := by
      rw [← hC.gaps]
      rfl
    rw [hstart, hitems, foldl_keepSmallest, hC.gapsTruncated, Contribution.gaps_append,
      ofList_append_eq_extend, BTreeSet.initial_extend_initial, Prod.mk.injEq]
    refine ⟨rfl, ?_⟩
    rw [Bool.eq_iff_iff, Bool.or_eq_true, decide_eq_true_eq, decide_eq_true_eq, decide_eq_true_eq,
      BTreeSet.lt_size_extend_iff maxObservationPaths (.ofList rest.gaps) (.ofList c.gaps)]
    have hmono := size_extend_mono (BTreeSet.ofList rest.gaps)
      ((BTreeSet.ofList c.gaps).initial maxObservationPaths).elems
    omega
  have hsame := (sameSelectors_recordedIn hC.selectors).append_left rest.selectors
  have hselectors := (hM.holds_addCounters C).foldl_record (hsame.card.trans_le hfit.2)
  rw [addContribution_eq M hC.isRecorded]
  refine ⟨hM.nodes, ?_, ?_, congrArg Prod.fst hgaps, congrArg Prod.snd hgaps, ?_, ?_, ?_⟩
  · intro edge
    rw [show (absorb (addCounters M C) (recordedIn C)).edges = BTreeSet.ofList (rest ++ c).edges
      from congrArg Prod.fst hedges, BTreeSet.mem_ofList]
  · rw [absorb]
    dsimp only
    rw [hedges]
    simp only [addCounters, hM.coverage, hC.coverage]
    simp only [recordedIn, addCoverage, startProjection, Contribution.coverage_append,
      ResolutionCoverage.mk.injEq, and_true]
    omega
  · intro path' module
    change (M.interfaces.extend C.interfaces.entries).get? path' = some module ↔ _
    rw [BTreeMap.get?_extend_entries, Contribution.modules_append, List.mem_append,
      ← hM.interfaces, ← hC.interfaces]
    cases hnew : C.interfaces.get? path' with
    | none => simp
    | some module' =>
      -- The path is the owner's, so the rest has nothing under it.
      have hold : M.interfaces.get? path' = none := by
        rw [Option.eq_none_iff_forall_ne_some]
        intro module'' hin
        exact hrest.modules _ ((hM.interfaces _ _).mp hin)
          (hc.modules (path', module') ((hC.interfaces _ _).mp hnew))
      simp [hold]
  · exact hsame.holds ⟨hselectors.1.edges, hselectors.1.resolved⟩
  · have hresolved := hselectors.1.resolved
    have htruncated := hselectors.2
    rw [absorb]
    dsimp only
    rw [hresolved, htruncated, hsame.card]
    simp only [addCounters, selectorState, hM.interfaceCoverage, hC.interfaceCoverage]
    simp [recordedIn, addInterfaceCoverage, addInterfaceGaps]

end

/-! ## Marks -/

variable {P : Projection}

theorem marked_absorb_of_marked (h : Marked P) (c : Contribution) :
    Marked (absorb P c) := by
  refine h.imp (fun hedges => ?_) (fun hselectors => ?_)
  · change (c.edges.foldl (insertBounded maxGraphEdges) (P.edges, P.coverage.edgesTruncated)).2
      = true
    rw [hedges]
    exact foldl_insertBounded_true
  · exact foldl_record_of_truncated hselectors c.selectors

theorem marked_recordNamedSelector (h : Marked P) (key : InterfaceEdgeKey)
    (selector : InterfaceSelector) : Marked (recordNamedSelector P key selector) := by
  rw [recordNamedSelector]
  dsimp only
  split_ifs
  · exact h
  · exact Or.inr rfl
  · exact h

theorem marked_addInterfaceEdge (h : Marked P)
    (entry : InterfaceEdgeKey × InterfaceEdge) : Marked (addInterfaceEdge P entry) := by
  rw [addInterfaceEdge]
  refine List.foldlRecOn _ _ (motive := Marked) h fun P hP selector _ => ?_
  exact marked_recordNamedSelector hP entry.1 selector

/-- A mark on either side stays. -/
theorem marked_addContribution {P C : Projection} (h : Marked P ∨ Marked C) :
    Marked (addContribution P C) := by
  rw [addContribution]
  simp only [foldl_recordResolutionGap, foldl_recordEdge]
  refine List.foldlRecOn _ _ (motive := Marked) ?_ fun P hP entry _ => marked_addInterfaceEdge hP entry
  apply marked_absorb_of_marked (c := { edges := C.edges.elems })
  have hcounters : Marked (absorb (addCounters P C) { gaps := C.resolutionGaps.elems }) := by
    apply marked_absorb_of_marked
    simp only [Marked, addCounters, addCoverage, addInterfaceCoverage, Bool.or_eq_true] at h ⊢
    tauto
  exact hcounters

theorem marked_subtractContribution (h : Marked P) (C : Projection) :
    Marked (subtractContribution P C) := h

section

variable {start start' : Projection} {rest c : Contribution} {M C : Projection}

/-- Adding a contribution for which there is no room leaves a mark. -/
theorem Totals.marked_add (hM : Totals start rest M) (hC : Totals start' c C) (hfit : rest.Fits)
    (hover : ¬ (rest ++ c).Fits) : Marked (addContribution M C) := by
  rw [addContribution_eq M hC.isRecorded]
  rw [Contribution.Fits, not_and_or, not_le, not_le] at hover
  refine hover.imp (fun hedges => ?_) (fun hselectors => ?_)
  · apply foldl_insertBounded_of_lt
    · change M.edges.size ≤ maxGraphEdges
      rw [hM.edges_eq, BTreeSet.size_ofList]
      exact hfit.1
    · change maxGraphEdges < (M.edges.extend C.edges.elems).size
      rw [hM.extend_edges hC, BTreeSet.size_ofList]
      exact hedges
  · have hsame := (sameSelectors_recordedIn hC.selectors).append_left rest.selectors
    apply (hM.holds_addCounters C).foldl_record_truncated hfit.2
    rw [hsame.card]
    exact hselectors

end

/-! ## Orders of files -/

/-- Contributions that differ in the order of their parts at most. -/
structure Contribution.Same (c d : Contribution) : Prop where
  coverage : c.coverage = d.coverage
  edges : c.edges.Perm d.edges
  gaps : c.gaps.Perm d.gaps
  modules : c.modules.Perm d.modules
  selectors : c.selectors.Perm d.selectors
  interfaceCoverage : c.interfaceCoverage = d.interfaceCoverage

namespace Contribution.Same

variable {c d d' : Contribution}

theorem symm (h : Same c d) : Same d c :=
  ⟨h.coverage.symm, h.edges.symm, h.gaps.symm, h.modules.symm, h.selectors.symm,
    h.interfaceCoverage.symm⟩

theorem append_left (c : Contribution) (h : Same d d') : Same (c ++ d) (c ++ d') :=
  ⟨congrArg (addCoverage c.coverage) h.coverage, h.edges.append_left _, h.gaps.append_left _,
    h.modules.append_left _, h.selectors.append_left _,
    congrArg (addInterfaceCoverage c.interfaceCoverage) h.interfaceCoverage⟩

theorem comm (c d : Contribution) : Same (c ++ d) (d ++ c) :=
  ⟨addCoverage_comm _ _, List.perm_append_comm, List.perm_append_comm, List.perm_append_comm,
    List.perm_append_comm, addInterfaceCoverage_comm _ _⟩

theorem sameSelectors (h : Same c d) : SameSelectors c.selectors d.selectors where
  named := fun _ => (h.selectors.filter _).mem_iff
  «namespace» := fun _ => exists_congr fun _ => by rw [h.selectors.mem_iff]

theorem fits_iff (h : Same c d) : c.Fits ↔ d.Fits := by
  rw [Fits, Fits, h.sameSelectors.card, List.toFinset_eq_of_perm _ _ h.edges]

theorem totals (h : Same c d) {start P : Projection} (hP : Totals start c P) : Totals start d P := by
  have hgaps : BTreeSet.ofList c.gaps = BTreeSet.ofList d.gaps := by
    apply BTreeSet.ext_mem
    intro gap
    rw [BTreeSet.mem_ofList, BTreeSet.mem_ofList, h.gaps.mem_iff]
  refine ⟨hP.nodes, fun edge => ?_, ?_, ?_, ?_, fun path module => ?_, ?_, ?_⟩
  · rw [hP.edges, h.edges.mem_iff]
  · rw [hP.coverage, h.coverage]
  · rw [hP.gaps, hgaps]
  · rw [hP.gapsTruncated, hgaps]
  · rw [hP.interfaces, h.modules.mem_iff]
  · exact h.sameSelectors.holds hP.selectors
  · rw [hP.interfaceCoverage, h.interfaceCoverage, h.sameSelectors.card]

end Contribution.Same

theorem append_assoc (c d e : Contribution) : (c ++ d) ++ e = c ++ (d ++ e) := by
  simp [Contribution.ext_iff, addCoverage_assoc, addInterfaceCoverage_assoc]

theorem concat_append (l l' : List Contribution) :
    Contribution.concat (l ++ l') = Contribution.concat l ++ Contribution.concat l' := by
  induction l with
  | nil => simp [Contribution.ext_iff, addCoverage_comm {}, addInterfaceCoverage_comm {}]
  | cons c l ih => rw [List.cons_append, Contribution.concat_cons, ih, Contribution.concat_cons,
      append_assoc]

/-- A file may be taken out of the middle of a view. -/
theorem concat_middle (l l' : List Contribution) (c : Contribution) :
    Contribution.Same (.concat (l ++ c :: l')) (.concat (l ++ l') ++ c) := by
  rw [concat_append, Contribution.concat_cons, concat_append, append_assoc]
  exact .append_left _ (.comm _ _)

theorem Contribution.Fits.left {c d : Contribution} (h : (c ++ d).Fits) : c.Fits := by
  refine ⟨(Finset.card_le_card ?_).trans h.1, (SelectorState.Holds.card_mono _ _).trans h.2⟩
  intro edge
  simp +contextual

theorem Contribution.Fits.right {c d : Contribution} (h : (c ++ d).Fits) : d.Fits :=
  ((Contribution.Same.comm c d).fits_iff.mp h).left

end Opcore.Resolver
