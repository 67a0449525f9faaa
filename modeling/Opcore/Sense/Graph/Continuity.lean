/-
  Opcore.Sense.Graph.Continuity

  Exact path continuity between two views, and the renaming of a projection
  along it.  A removed and an added path are the same file when their content
  occurs at no other removed and no other added path.
-/
import Opcore.Sense.Graph.Cycles
import Opcore.Source.Snapshot

namespace Opcore

open Text Collections Digraph

/-! ## Unmatched paths -/

/-- The merge of `unmatched_paths` over the two sorted path sequences. -/
def unmatched : List RepoPath → List RepoPath → List RepoPath × List RepoPath
  | [], after => ([], after)
  | before, [] => (before, [])
  | b :: before, a :: after =>
    if b < a then
      let rest := unmatched before (a :: after)
      (b :: rest.1, rest.2)
    else if a < b then
      let rest := unmatched (b :: before) after
      (rest.1, a :: rest.2)
    else unmatched before after
  termination_by before after => before.length + after.length

def unmatchedPaths (before after : SourceSnapshot) : List RepoPath × List RepoPath :=
  unmatched before.paths after.paths

section Continuity

variable [Sha256]

def contentPaths (snapshot : SourceSnapshot) (paths : List RepoPath) :
    BTreeMap ContentId (List RepoPath) :=
  BTreeMap.group (paths.filterMap fun path =>
    (snapshot.read path).map fun file => (file.contentId, path))

/-- A removed path goes on as the added one of its content, where both are the only ones of it. -/
def exactPathContinuity (before after : SourceSnapshot) : BTreeMap RepoPath RepoPath :=
  let (removedPaths, addedPaths) := unmatchedPaths before after
  let removed := contentPaths before removedPaths
  let added := contentPaths after addedPaths
  BTreeMap.ofList (removed.entries.filterMap fun (content, beforePaths) =>
    (added.get? content).bind fun afterPaths =>
      match beforePaths, afterPaths with
      | [beforePath], [afterPath] => some (beforePath, afterPath)
      | _, _ => none)

end Continuity

/-! ## Renaming a projection -/

def canonicalPath (continuity : BTreeMap RepoPath RepoPath) (path : RepoPath) : RepoPath :=
  (continuity.get? path).getD path

def DependencyEdge.rename (f : RepoPath → RepoPath) (edge : DependencyEdge) : DependencyEdge :=
  ⟨f edge.from, f edge.to, edge.kind⟩

def ResolutionGapEvidence.rename (f : RepoPath → RepoPath) (gap : ResolutionGapEvidence) :
    ResolutionGapEvidence :=
  { gap with path := f gap.path }

def InterfaceEdgeKey.rename (f : RepoPath → RepoPath) (key : InterfaceEdgeKey) :
    InterfaceEdgeKey :=
  ⟨f key.from, f key.to, key.namespace⟩

/-- Fold one edge into the edge already collected under the same key. -/
def InterfaceEdge.merge (edge destination : InterfaceEdge) : InterfaceEdge :=
  { selectors := destination.selectors.extend edge.selectors.elems
    unknownWidth := destination.unknownWidth || edge.unknownWidth }

/-- The view under the paths that go on: renamed edges that meet are merged. -/
def canonicalize (projection : Projection) (continuity : BTreeMap RepoPath RepoPath) :
    Projection :=
  let rename := canonicalPath continuity
  { nodes := projection.nodes.map rename
    edges := projection.edges.map (DependencyEdge.rename rename)
    coverage := projection.coverage
    resolutionGaps := projection.resolutionGaps.map (ResolutionGapEvidence.rename rename)
    resolutionGapsTruncated := projection.resolutionGapsTruncated
    interfaces := BTreeMap.ofList (projection.interfaces.entries.map
      fun entry => (rename entry.1, entry.2))
    interfaceEdges := (projection.interfaceEdges.entries.map
        fun entry => (entry.1.rename rename, entry.2)).foldl
      (fun edges entry => edges.upsert entry.1 {} entry.2.merge) ∅
    interfaceCoverage := projection.interfaceCoverage }

/-! ## The merge computes both differences -/

/-- A path below the head of an increasing list is not in the list. -/
theorem not_mem_of_lt_head {p a : RepoPath} {paths : List RepoPath}
    (h : (a :: paths).Pairwise (· < ·)) (hp : p < a) : p ∉ a :: paths := by
  intro hmem
  rcases List.mem_cons.mp hmem with rfl | hmem
  · exact lt_irrefl _ hp
  · exact lt_asymm hp ((List.pairwise_cons.mp h).1 p hmem)

theorem mem_unmatched (before after : List RepoPath) (hb : before.Pairwise (· < ·))
    (ha : after.Pairwise (· < ·)) :
    (∀ p, p ∈ (unmatched before after).1 ↔ p ∈ before ∧ p ∉ after)
      ∧ ∀ p, p ∈ (unmatched before after).2 ↔ p ∈ after ∧ p ∉ before := by
  fun_induction unmatched before after with
  | case1 after => simp
  | case2 before => simp
  | case3 b before a after hlt rest ih =>
    obtain ⟨ih₁, ih₂⟩ := ih (List.pairwise_cons.mp hb).2 ha
    have hbnot := not_mem_of_lt_head ha hlt
    refine ⟨fun p => ?_, fun p => ?_⟩
    · rw [List.mem_cons, List.mem_cons, ih₁]
      constructor
      · rintro (rfl | ⟨hp, hnot⟩)
        · exact ⟨Or.inl rfl, hbnot⟩
        · exact ⟨Or.inr hp, hnot⟩
      · rintro ⟨rfl | hp, hnot⟩
        · exact Or.inl rfl
        · exact Or.inr ⟨hp, hnot⟩
    · rw [ih₂, List.mem_cons (a := p) (b := b)]
      refine and_congr_right fun hp => ?_
      have hne : p ≠ b := fun h => hbnot (h ▸ hp)
      simp [hne]
  | case4 b before a after hlt hgt rest ih =>
    obtain ⟨ih₁, ih₂⟩ := ih hb (List.pairwise_cons.mp ha).2
    have hanot := not_mem_of_lt_head hb hgt
    refine ⟨fun p => ?_, fun p => ?_⟩
    · rw [ih₁, List.mem_cons (a := p) (b := a)]
      refine and_congr_right fun hp => ?_
      have hne : p ≠ a := fun h => hanot (h ▸ hp)
      simp [hne]
    · rw [List.mem_cons, List.mem_cons, ih₂]
      constructor
      · rintro (rfl | ⟨hp, hnot⟩)
        · exact ⟨Or.inl rfl, hanot⟩
        · exact ⟨Or.inr hp, hnot⟩
      · rintro ⟨rfl | hp, hnot⟩
        · exact Or.inl rfl
        · exact Or.inr ⟨hp, hnot⟩
  | case5 b before a after hlt hgt ih =>
    obtain rfl : b = a := le_antisymm (not_lt.mp hgt) (not_lt.mp hlt)
    obtain ⟨hbhead, hb⟩ := List.pairwise_cons.mp hb
    obtain ⟨hahead, ha⟩ := List.pairwise_cons.mp ha
    obtain ⟨ih₁, ih₂⟩ := ih hb ha
    have hnb : b ∉ before := fun h => lt_irrefl _ (hbhead b h)
    have hna : b ∉ after := fun h => lt_irrefl _ (hahead b h)
    refine ⟨fun p => ?_, fun p => ?_⟩
    · rw [ih₁]
      by_cases hp : p = b <;> simp [hp, hnb]
    · rw [ih₂]
      by_cases hp : p = b <;> simp [hp, hna]

/-- The merge visits the paths in order and each at most once. -/
theorem sublist_unmatched (before after : List RepoPath) :
    (unmatched before after).1.Sublist before ∧ (unmatched before after).2.Sublist after := by
  fun_induction unmatched before after with
  | case1 after => simp
  | case2 before => simp
  | case3 b before a after hlt rest ih => exact ⟨ih.1.cons_cons b, ih.2⟩
  | case4 b before a after hlt hgt rest ih => exact ⟨ih.1, ih.2.cons_cons a⟩
  | case5 b before a after hlt hgt ih => exact ⟨ih.1.cons b, ih.2.cons a⟩

/-! ## Continuity -/

theorem eq_singleton_iff_of_nodup {p : RepoPath} {paths : List RepoPath} (h : paths.Nodup) :
    paths = [p] ↔ ∀ x, x ∈ paths ↔ x = p := by
  constructor
  · rintro rfl
    simp
  · intro hmem
    refine List.perm_singleton.mp ((List.perm_ext_iff_of_nodup h (List.nodup_singleton p)).mpr ?_)
    simpa using hmem

section ContinuitySpec

variable [Sha256] {before after : SourceSnapshot} {p q : RepoPath} {content : ContentId}

/-- The content identity a snapshot has at a path. -/
def contentAt (snapshot : SourceSnapshot) (path : RepoPath) : Option ContentId :=
  (snapshot.read path).map SourceFile.contentId

/-- `p` was in the first view only, with this content. -/
def OnlyIn (first second : SourceSnapshot) (content : ContentId) (p : RepoPath) : Prop :=
  contentAt first p = some content ∧ p ∉ second.paths

theorem mem_paths_iff_contentAt {snapshot : SourceSnapshot} :
    p ∈ snapshot.paths ↔ ∃ content, contentAt snapshot p = some content := by
  rw [SourceSnapshot.mem_paths, contentAt]
  cases snapshot.read p <;> simp

theorem valuesAt_contentPaths (snapshot : SourceSnapshot) (paths : List RepoPath) :
    BTreeMap.valuesAt content (paths.filterMap fun path =>
        (snapshot.read path).map fun file => (file.contentId, path))
      = paths.filter fun p => contentAt snapshot p = some content := by
  rw [BTreeMap.valuesAt]
  induction paths with
  | nil => rfl
  | cons p paths ih =>
    cases hread : snapshot.read p with
    | none => simpa [hread, contentAt] using ih
    | some file =>
      by_cases hc : file.contentId = content
      · simpa [hread, contentAt, hc] using ih
      · simpa [hread, contentAt, hc] using ih

/-- A content group of unmatched paths has one member exactly when one path of
    that content is in the first view only. -/
theorem get?_contentPaths_singleton (content : ContentId) (p : RepoPath)
    {first second : SourceSnapshot} {paths : List RepoPath}
    (hnd : paths.Nodup) (hmem : ∀ x, x ∈ paths ↔ x ∈ first.paths ∧ x ∉ second.paths) :
    (contentPaths first paths).get? content = some [p] ↔
      OnlyIn first second content p ∧ ∀ x, OnlyIn first second content x → x = p := by
  have hfilter : ∀ x, x ∈ (paths.filter fun x => contentAt first x = some content) ↔
      OnlyIn first second content x := by
    intro x
    rw [List.mem_filter, hmem, decide_eq_true_eq, OnlyIn, mem_paths_iff_contentAt]
    exact ⟨fun h => ⟨h.2, h.1.2⟩, fun h => ⟨⟨⟨content, h.1⟩, h.2⟩, h.1⟩⟩
  have hget : (contentPaths first paths).get? content = some [p] ↔
      (paths.filter fun x => contentAt first x = some content) = [p] := by
    rw [contentPaths, BTreeMap.get?_group, valuesAt_contentPaths]
    split_ifs with hnil
    · simp [hnil]
    · simp
  rw [hget, eq_singleton_iff_of_nodup (hnd.filter _)]
  simp only [hfilter]
  constructor
  · exact fun h => ⟨(h p).mpr rfl, fun x hx => (h x).mp hx⟩
  · exact fun h x => ⟨h.2 x, fun hx => hx ▸ h.1⟩

/-- Continuity joins a removed to an added path when each is the only one of
    its side with their common content. -/
def Continues (before after : SourceSnapshot) (p q : RepoPath) : Prop :=
  ∃ content, (OnlyIn before after content p ∧ ∀ x, OnlyIn before after content x → x = p)
    ∧ OnlyIn after before content q ∧ ∀ x, OnlyIn after before content x → x = q

theorem get?_exactPathContinuity :
    (exactPathContinuity before after).get? p = some q ↔ Continues before after p q := by
  obtain ⟨hmem₁, hmem₂⟩ := mem_unmatched before.paths after.paths before.sorted_paths
    after.sorted_paths
  obtain ⟨hsub₁, hsub₂⟩ := sublist_unmatched before.paths after.paths
  have hremoved := fun content p => get?_contentPaths_singleton content p
    (hsub₁.nodup (before.sorted_paths.imp ne_of_lt)) hmem₁
  have hadded := fun content p => get?_contentPaths_singleton content p
    (hsub₂.nodup (after.sorted_paths.imp ne_of_lt)) hmem₂
  -- one pair per content group
  have hpair : ∀ (entry : ContentId × List RepoPath) (pair : RepoPath × RepoPath),
      ((contentPaths after (unmatched before.paths after.paths).2).get? entry.1).bind
          (fun afterPaths => match entry.2, afterPaths with
            | [beforePath], [afterPath] => some (beforePath, afterPath)
            | _, _ => none) = some pair ↔
        entry.2 = [pair.1] ∧
          (contentPaths after (unmatched before.paths after.paths).2).get? entry.1
            = some [pair.2] := by
    rintro ⟨content, beforePaths⟩ ⟨x, y⟩
    constructor
    · intro h
      obtain ⟨afterPaths, hget, hmatch⟩ := Option.bind_eq_some_iff.mp h
      split at hmatch
      · rename_i hb
        cases hmatch
        exact ⟨hb, hget⟩
      · cases hmatch
    · rintro ⟨hb, ha⟩
      simp only at hb ha
      rw [ha, hb]
      rfl
  rw [exactPathContinuity, unmatchedPaths, BTreeMap.get?_ofList_of_nodup]
  · rw [List.mem_filterMap]
    constructor
    · rintro ⟨⟨content, beforePaths⟩, hentry, h⟩
      obtain ⟨hb, ha⟩ := (hpair (content, beforePaths) (p, q)).mp h
      simp only at hb ha
      rw [BTreeMap.mem_entries_iff, hb] at hentry
      exact ⟨content, (hremoved content p).mp hentry, (hadded content q).mp ha⟩
    · rintro ⟨content, hp, hq⟩
      refine ⟨(content, [p]), BTreeMap.mem_entries_iff.mpr ((hremoved content p).mpr hp), ?_⟩
      exact (hpair (content, [p]) (p, q)).mpr ⟨rfl, (hadded content q).mpr hq⟩
  · -- a removed path has one content, so no key occurs twice
    rw [List.Nodup, List.pairwise_map, List.pairwise_filterMap]
    refine (contentPaths before (unmatched before.paths after.paths).1).sorted.imp_of_mem ?_
    rintro ⟨c₁, l₁⟩ ⟨c₂, l₂⟩ h₁ h₂ hlt ⟨x₁, y₁⟩ hx₁ ⟨x₂, y₂⟩ hx₂ hEq
    obtain ⟨hl₁, -⟩ := (hpair (c₁, l₁) (x₁, y₁)).mp hx₁
    obtain ⟨hl₂, -⟩ := (hpair (c₂, l₂) (x₂, y₂)).mp hx₂
    simp only at hl₁ hl₂ hEq
    subst hEq
    rw [BTreeMap.mem_entries_iff] at h₁ h₂
    have hc₁ := ((hremoved c₁ x₁).mp (hl₁ ▸ h₁)).1.1
    have hc₂ := ((hremoved c₂ x₁).mp (hl₂ ▸ h₂)).1.1
    rw [hc₁] at hc₂
    cases hc₂
    exact lt_irrefl _ hlt

theorem Continues.source (h : Continues before after p q) :
    p ∈ before.paths ∧ p ∉ after.paths := by
  obtain ⟨content, ⟨hp, -⟩, -⟩ := h
  exact ⟨mem_paths_iff_contentAt.mpr ⟨content, hp.1⟩, hp.2⟩

theorem Continues.target (h : Continues before after p q) :
    q ∈ after.paths ∧ q ∉ before.paths := by
  obtain ⟨content, -, hq, -⟩ := h
  exact ⟨mem_paths_iff_contentAt.mpr ⟨content, hq.1⟩, hq.2⟩

theorem Continues.injective {p' : RepoPath} (h : Continues before after p q)
    (h' : Continues before after p' q) : p = p' := by
  obtain ⟨content, ⟨hp, -⟩, hq, -⟩ := h
  obtain ⟨content', ⟨hp', hunique⟩, hq', -⟩ := h'
  obtain rfl : content = content' := by
    have hEq := hq.1
    rw [hq'.1] at hEq
    simpa using hEq.symm
  exact hunique p hp

/-- Renaming along continuity keeps the paths of the first view apart: a renamed
    path never collides with a surviving one. -/
theorem canonicalPath_injOn (after : SourceSnapshot) {p' : RepoPath} (hp : p ∈ before.paths)
    (hp' : p' ∈ before.paths) (h : canonicalPath (exactPathContinuity before after) p
      = canonicalPath (exactPathContinuity before after) p') : p = p' := by
  rw [canonicalPath, canonicalPath] at h
  cases hq : (exactPathContinuity before after).get? p with
  | none =>
    cases hq' : (exactPathContinuity before after).get? p' with
    | none => simpa [hq, hq'] using h
    | some q' =>
      rw [hq, hq'] at h
      obtain rfl : p = q' := by simpa using h
      exact absurd hp (get?_exactPathContinuity.mp hq').target.2
  | some q =>
    cases hq' : (exactPathContinuity before after).get? p' with
    | none =>
      rw [hq, hq'] at h
      obtain rfl : q = p' := by simpa using h
      exact absurd hp' (get?_exactPathContinuity.mp hq).target.2
    | some q' =>
      rw [hq, hq'] at h
      obtain rfl : q = q' := by simpa using h
      exact (get?_exactPathContinuity.mp hq).injective (get?_exactPathContinuity.mp hq')

end ContinuitySpec

/-! ## Faithful renaming -/

section Renaming

variable {f : RepoPath → RepoPath} {projection renamed : Projection} {snapshot : SourceSnapshot}

/-- Every path a projection mentions is a path of the snapshot. -/
structure Projection.Over (projection : Projection) (snapshot : SourceSnapshot) : Prop where
  nodes : ∀ v ∈ projection.nodes, v ∈ snapshot.paths
  edges : ∀ e ∈ projection.edges, e.from ∈ snapshot.paths ∧ e.to ∈ snapshot.paths
  gaps : ∀ g ∈ projection.resolutionGaps, g.path ∈ snapshot.paths
  interfaces : ∀ v ∈ projection.interfaces.keys, v ∈ snapshot.paths
  interfaceEdges : ∀ k ∈ projection.interfaceEdges.keys,
    k.from ∈ snapshot.paths ∧ k.to ∈ snapshot.paths

/-- `renamed` is `projection` with its paths renamed and nothing merged: each
    collection of `renamed` lists the renamed members of `projection` once each. -/
structure FaithfulRenaming (f : RepoPath → RepoPath) (projection renamed : Projection) :
    Prop where
  nodes : renamed.nodes.elems.Perm (projection.nodes.elems.map f)
  edges : renamed.edges.elems.Perm (projection.edges.elems.map (DependencyEdge.rename f))
  gaps : renamed.resolutionGaps.elems.Perm
    (projection.resolutionGaps.elems.map (ResolutionGapEvidence.rename f))
  interfaces : renamed.interfaces.entries.Perm
    (projection.interfaces.entries.map fun entry => (f entry.1, entry.2))
  interfaceEdges : renamed.interfaceEdges.entries.Perm
    (projection.interfaceEdges.entries.map fun entry => (entry.1.rename f, entry.2))
  coverage : renamed.coverage = projection.coverage
  gapsTruncated : renamed.resolutionGapsTruncated = projection.resolutionGapsTruncated
  interfaceCoverage : renamed.interfaceCoverage = projection.interfaceCoverage

theorem InterfaceEdge.merge_default (edge : InterfaceEdge) : edge.merge {} = edge := by
  obtain ⟨selectors, unknownWidth⟩ := edge
  have hset : (∅ : BTreeSet InterfaceSelector).extend selectors.elems = selectors :=
    BTreeSet.ext_mem fun x => by
      rw [BTreeSet.mem_extend, or_iff_left BTreeSet.not_mem_empty]
      rfl
  simp [merge, hset]

theorem nodup_map_keys {κ κ' β : Type*} [LinearOrder κ] {m : BTreeMap κ β} {g : κ → κ'}
    (hinj : ∀ a ∈ m.keys, ∀ b ∈ m.keys, g a = g b → a = b) :
    ((m.entries.map fun entry => (g entry.1, entry.2)).map Prod.fst).Nodup := by
  have hmap : (m.entries.map fun entry => (g entry.1, entry.2)).map Prod.fst = m.keys.map g := by
    simp [BTreeMap.keys]
  rw [hmap]
  exact m.nodup_keys.map_on hinj

theorem canonicalize_faithful_of_injOn {continuity : BTreeMap RepoPath RepoPath}
    (hover : projection.Over snapshot)
    (hinj : ∀ p ∈ snapshot.paths, ∀ q ∈ snapshot.paths,
      canonicalPath continuity p = canonicalPath continuity q → p = q) :
    FaithfulRenaming (canonicalPath continuity) projection
      (canonicalize projection continuity) := by
  refine ⟨?_, ?_, ?_, ?_, ?_, rfl, rfl, rfl⟩
  · exact BTreeSet.elems_map_perm fun a ha b hb =>
      hinj a (hover.nodes a ha) b (hover.nodes b hb)
  · refine BTreeSet.elems_map_perm ?_
    rintro ⟨f₁, t₁, k₁⟩ h₁ ⟨f₂, t₂, k₂⟩ h₂ hEq
    simp only [DependencyEdge.rename, DependencyEdge.mk.injEq] at hEq ⊢
    obtain ⟨hf₁, ht₁⟩ := hover.edges _ h₁
    obtain ⟨hf₂, ht₂⟩ := hover.edges _ h₂
    exact ⟨hinj _ hf₁ _ hf₂ hEq.1, hinj _ ht₁ _ ht₂ hEq.2.1, hEq.2.2⟩
  · refine BTreeSet.elems_map_perm ?_
    rintro ⟨p₁, s₁, k₁⟩ h₁ ⟨p₂, s₂, k₂⟩ h₂ hEq
    simp only [ResolutionGapEvidence.rename, ResolutionGapEvidence.mk.injEq] at hEq ⊢
    exact ⟨hinj _ (hover.gaps _ h₁) _ (hover.gaps _ h₂) hEq.1, hEq.2⟩
  · exact BTreeMap.entries_ofList_perm (nodup_map_keys fun a ha b hb =>
      hinj a (hover.interfaces a ha) b (hover.interfaces b hb))
  · have hnd := nodup_map_keys (m := projection.interfaceEdges)
      (g := InterfaceEdgeKey.rename (canonicalPath continuity)) (by
        rintro ⟨f₁, t₁, n₁⟩ h₁ ⟨f₂, t₂, n₂⟩ h₂ hEq
        simp only [InterfaceEdgeKey.rename, InterfaceEdgeKey.mk.injEq] at hEq ⊢
        obtain ⟨hf₁, ht₁⟩ := hover.interfaceEdges _ h₁
        obtain ⟨hf₂, ht₂⟩ := hover.interfaceEdges _ h₂
        exact ⟨hinj _ hf₁ _ hf₂ hEq.1, hinj _ ht₁ _ ht₂ hEq.2.1, hEq.2.2⟩)
    have hkeep : (canonicalize projection continuity).interfaceEdges
        = BTreeMap.ofList (projection.interfaceEdges.entries.map
            fun entry => (entry.1.rename (canonicalPath continuity), entry.2)) := by
      rw [canonicalize]
      simp only
      rw [BTreeMap.foldl_upsert_of_nodup hnd, List.map_map]
      simp only [Function.comp_def, InterfaceEdge.merge_default]
    rw [hkeep]
    exact BTreeMap.entries_ofList_perm hnd

/-- Two graphs on the same nodes and edges: nothing is introduced. -/
theorem introducedCycles_eq_nil_of_same {before after : Projection}
    (hnodes : before.nodes = after.nodes) (hedges : before.edges = after.edges) :
    introducedCycles before after = [] := by
  have hruntime : before.runtimeEdges = after.runtimeEdges := by
    rw [Projection.runtimeEdges, Projection.runtimeEdges, hedges]
  have hcyclic : cyclicComponents before = cyclicComponents after := by
    rw [cyclicComponents, cyclicComponents, hnodes, hruntime]
  have hnone : (cyclicComponents after).filter (fun component =>
      !containedInPriorCycle component (componentMembership (cyclicComponents before))) = [] := by
    rw [List.filter_eq_nil_iff]
    intro c hc
    obtain ⟨r, -, hr⟩ :=
      (components_partition after.nodes after.runtimeEdges).block c (List.mem_filter.mp hc).1
    have hcontained := (containedInPriorCycle_iff (disjoint_cyclicComponents before)
      ⟨r, (hr r).mpr (mem_component_self r)⟩).mpr ⟨c, hcyclic ▸ hc, fun v hv => hv⟩
    simp [hcontained]
  rw [introducedCycles]
  simp only [hnone, List.filterMap_nil]

end Renaming

/-- Pure renames are invisible: continuity is the injective matching of removed
    to added paths whose content is unique on both sides, renaming a projection
    of the first view along it merges nothing, and a second view that is the
    renamed first one introduces no cycle. -/
theorem rename_invariant [Sha256] (before after : SourceSnapshot) :
    (∀ p q, (exactPathContinuity before after).get? p = some q ↔ Continues before after p q)
      ∧ (∀ p q, (exactPathContinuity before after).get? p = some q →
          (p ∈ before.paths ∧ p ∉ after.paths) ∧ (q ∈ after.paths ∧ q ∉ before.paths)
            ∧ contentAt before p = contentAt after q)
      ∧ (∀ p p' q, (exactPathContinuity before after).get? p = some q →
          (exactPathContinuity before after).get? p' = some q → p = p')
      ∧ ∀ projection : Projection, projection.Over before →
          FaithfulRenaming (canonicalPath (exactPathContinuity before after)) projection
              (canonicalize projection (exactPathContinuity before after))
            ∧ ∀ afterProjection : Projection,
              FaithfulRenaming (canonicalPath (exactPathContinuity before after)) projection
                  afterProjection →
                introducedCycles (canonicalize projection (exactPathContinuity before after))
                  afterProjection = [] := by
  refine ⟨fun p q => get?_exactPathContinuity, fun p q h => ?_, fun p p' q h h' => ?_,
    fun projection hover => ?_⟩
  · have hc := get?_exactPathContinuity.mp h
    refine ⟨hc.source, hc.target, ?_⟩
    obtain ⟨content, ⟨hp, -⟩, hq, -⟩ := hc
    rw [hp.1, hq.1]
  · exact (get?_exactPathContinuity.mp h).injective (get?_exactPathContinuity.mp h')
  · have hfaithful := canonicalize_faithful_of_injOn hover fun p hp q hq =>
      canonicalPath_injOn after hp hq
    refine ⟨hfaithful, fun afterProjection hrenamed => ?_⟩
    refine introducedCycles_eq_nil_of_same ?_ ?_
    · exact BTreeSet.ext_mem fun a => (hfaithful.nodes.trans hrenamed.nodes.symm).mem_iff
    · exact BTreeSet.ext_mem fun e => (hfaithful.edges.trans hrenamed.edges.symm).mem_iff

/-! One self-importing file, renamed. -/

def renamedFrom : SourceSnapshot := .new [⟨moduleA, ascii "import a", .python, ascii "py"⟩]

def renamedTo : SourceSnapshot := .new [⟨moduleB, ascii "import a", .python, ascii "py"⟩]

def selfImport (path : RepoPath) : Projection where
  nodes := BTreeSet.ofList [path]
  edges := BTreeSet.ofList [⟨path, path, .runtime⟩]

theorem rename_invariant_selfImport :
    letI := identityDigest
    (exactPathContinuity renamedFrom renamedTo).get? moduleA = some moduleB
      ∧ introducedCycles (canonicalize (selfImport moduleA)
          (exactPathContinuity renamedFrom renamedTo)) (selfImport moduleB) = [] := by
  let _ := identityDigest
  have hover : (selfImport moduleA).Over renamedFrom := by
    refine ⟨?_, ?_, ?_, ?_, ?_⟩ <;> decide
  refine ⟨by decide +kernel, ?_⟩
  refine ((rename_invariant renamedFrom renamedTo).2.2.2 (selfImport moduleA) hover).2 _ ?_
  refine ⟨?_, ?_, ?_, ?_, ?_, rfl, rfl, rfl⟩ <;> decide +kernel

end Opcore
