/-
  Opcore.Sense.Dedup.RegionMatching

  What the token comparisons say: a comparison that returns has compared the
  tokens themselves, so the occurrences counted for a candidate are exactly the
  anchored positions that carry its tokens.
-/
import Opcore.Sense.Dedup.Regions

namespace Opcore

open Text Collections Smallest Fallible

variable {view : RegionView} {file token : Nat}

/-! ## Tokens -/

/-- Two token runs of length `n` that exist and agree token by token. -/
def SameTokens (leftView : RegionView) (leftFile left : Nat) (rightView : RegionView)
    (rightFile right n : Nat) : Prop :=
  ∀ o < n, ∃ t, leftView.exactToken leftFile (left + o) = some t
    ∧ rightView.exactToken rightFile (right + o) = some t

theorem SameTokens.append {leftView rightView : RegionView} {leftFile left rightFile right n m : Nat}
    (h : SameTokens leftView leftFile left rightView rightFile right n)
    (h' : SameTokens leftView leftFile (left + n) rightView rightFile (right + n) m) :
    SameTokens leftView leftFile left rightView rightFile right (n + m) := by
  intro o ho
  by_cases hn : o < n
  · exact h o hn
  · have hrest := h' (o - n) (by omega)
    rw [show left + n + (o - n) = left + o by omega,
      show right + n + (o - n) = right + o by omega] at hrest
    exact hrest

theorem exists_file_of_exactToken {t : ExactToken} (h : view.exactToken file token = some t) :
    ∃ regionFile, view.files[file]? = some regionFile
      ∧ token < regionFile.decoded.tokens.length := by
  rw [RegionView.exactToken] at h
  cases hfile : view.files[file]? with
  | none => simp [hfile] at h
  | some regionFile =>
    refine ⟨regionFile, rfl, ?_⟩
    by_contra hlen
    have hnone : regionFile.decoded.tokens[token]? = none :=
      List.getElem?_eq_none (Nat.not_lt.mp hlen)
    simp [hfile, hnone] at h

theorem returns_malformedAt {α : Type} {Q : α → Prop} : Returns (malformedAt view file) Q :=
  Returns.then fun _ => returns_stop

theorem returns_tokensEqual (pair : TokenPair) : Returns (tokensEqual pair) fun equal =>
    equal = true ↔ ∃ t, pair.leftView.exactToken pair.left.file pair.left.token = some t
      ∧ pair.rightView.exactToken pair.right.file pair.right.token = some t := by
  refine Returns.then fun _ => ?_
  cases hl : pair.leftView.exactToken pair.left.file pair.left.token with
  | none => exact returns_malformedAt
  | some left =>
    cases hr : pair.rightView.exactToken pair.right.file pair.right.token with
    | none => exact returns_malformedAt
    | some right =>
      refine returns_pure ?_
      rw [decide_eq_true_iff]
      constructor
      · rintro rfl
        exact ⟨left, rfl, rfl⟩
      · rintro ⟨t, hlt, hrt⟩
        rw [Option.some.inj hlt, Option.some.inj hrt]

theorem returns_tokenExists (view : RegionView) (file token : Nat) :
    Returns (tokenExists view file token) fun found => found = true ↔
      ∃ regionFile, view.files[file]? = some regionFile
        ∧ token < regionFile.decoded.tokens.length := by
  rw [tokenExists]
  cases hfile : view.files[file]? with
  | none =>
    refine Returns.then fun _ => returns_pure ?_
    simp
  | some regionFile =>
    refine returns_pure ?_
    simp

theorem returns_tokensExist {pair : TokenPair} : Returns (tokensExist pair) fun found =>
    found = false → ¬ ∃ t, pair.leftView.exactToken pair.left.file pair.left.token = some t
      ∧ pair.rightView.exactToken pair.right.file pair.right.token = some t := by
  refine (returns_tokenExists _ _ _).bind fun leftExists hleft => Returns.ite (fun _ => ?_)
    (fun habsent => ?_)
  · refine (returns_tokenExists _ _ _).mono fun found hfound hfalse ⟨t, _, hright⟩ => ?_
    have htrue := hfound.mpr (exists_file_of_exactToken hright)
    rw [hfalse] at htrue
    cases htrue
  · refine returns_pure fun _ ⟨t, hfirst, _⟩ => ?_
    exact habsent (hleft.mpr (exists_file_of_exactToken hfirst))

/-! ## Runs -/

theorem returns_offsetsEqual (pair : RegionPair) (count offset : Nat) :
    Returns (offsetsEqual pair count offset) fun equal => equal = true ↔
      ∀ o, offset ≤ o → o < offset + count →
        ∃ t, pair.leftView.exactToken pair.leftFile (pair.leftStart + o) = some t
          ∧ pair.rightView.exactToken pair.rightFile (pair.rightStart + o) = some t := by
  induction count generalizing offset with
  | zero =>
    refine returns_pure ?_
    simp only [true_iff]
    intro o hlo hhi
    omega
  | succ count ih =>
    refine (returns_tokensEqual _).bind fun equal hequal => Returns.ite (fun htrue => ?_)
      (fun hfalse => ?_)
    · -- the first pair agrees, the rest decides
      refine (ih (offset + 1)).mono fun rest hrest => hrest.trans ?_
      constructor
      · intro h o hlo hhi
        by_cases ho : o = offset
        · rw [ho]
          exact hequal.mp htrue
        · exact h o (by omega) (by omega)
      · intro h o hlo hhi
        exact h o (by omega) (by omega)
    · refine returns_pure ⟨nofun, fun h => ?_⟩
      exact absurd (hequal.mpr (h offset le_rfl (by omega))) hfalse

/-- A region comparison that returns decides whether two runs of one length agree. -/
theorem returns_regionsEqual {pair : RegionPair} {n : Nat} (hn : 0 < n)
    (hleft : pair.leftStop = pair.leftStart + n) (hright : pair.rightStop = pair.rightStart + n) :
    Returns (regionsEqual pair) fun equal => equal = true ↔
      SameTokens pair.leftView pair.leftFile pair.leftStart pair.rightView pair.rightFile
        pair.rightStart n := by
  have hlenLeft : pair.leftStop - pair.leftStart = n := by omega
  have hlenRight : pair.rightStop - pair.rightStart = n := by omega
  rw [regionsEqual, hlenLeft, hlenRight, if_neg (not_not.mpr rfl)]
  refine returns_tokensExist.bind fun bothExist hnot => Returns.ite (fun _ => ?_) (fun hfalse => ?_)
  · refine (returns_offsetsEqual pair n 0).mono fun equal hequal => hequal.trans ?_
    constructor
    · intro h o ho
      exact h o (Nat.zero_le o) (by omega)
    · intro h o _ ho
      exact h o (by omega)
  · -- the last tokens of the two runs are not both there
    have hno : ¬ SameTokens pair.leftView pair.leftFile pair.leftStart pair.rightView
        pair.rightFile pair.rightStart n := by
      intro hsame
      have hlast := hsame (n - 1) (by omega)
      rw [show pair.leftStart + (n - 1) = pair.leftStop - 1 by omega,
        show pair.rightStart + (n - 1) = pair.rightStop - 1 by omega] at hlast
      exact hnot (by simpa using hfalse) hlast
    refine Returns.then fun s => Returns.ite (fun _ => returns_stop) (fun _ => returns_pure ?_)
    exact ⟨nofun, fun h => absurd h hno⟩

/-! ## Occurrences of a candidate -/

/-- The occurrences of an anchor in a family. -/
def RegionView.group (view : RegionView) (family : Str) (key : AnchorKey) : List AnchorOccurrence :=
  (((view.groups.get? family).getD ∅).get? key).getD []

theorem RegionView.group_eq {family : Str} {key : AnchorKey} :
    view.group family key
      = ((view.groups.get? family).bind fun groups => groups.get? key).getD [] := by
  rw [group]
  cases view.groups.get? family <;> simp

/-- Path and start, the key of an occurrence. -/
def ExactOccurrence.position (self : ExactOccurrence) : RepoPath ×ₗ Nat := toLex (self.path, self.start)

/-- The candidate's tokens stand at a position of a file. -/
structure Hits (candidateView : RegionView) (candidate : Candidate) (target : RegionView)
    (file : Nat) (position : RepoPath ×ₗ Nat) : Prop where
  path : target.pathOf file = some (ofLex position).1
  tokens : SameTokens candidateView candidate.file candidate.start target file (ofLex position).2
    candidate.len

/-- The group has the candidate's anchor at its offset from the position. -/
def HitBy (candidateView : RegionView) (candidate : Candidate) (target : RegionView)
    (anchor : AnchorOccurrence) (position : RepoPath ×ₗ Nat) : Prop :=
  anchor.tokenIndex = (ofLex position).2 + candidate.anchorOffset
    ∧ Hits candidateView candidate target anchor.file position

/-- An occurrence as it is recorded. -/
structure Recorded (candidateView : RegionView) (candidate : Candidate) (target : RegionView)
    (changedPaths : BTreeSet RepoPath) (occurrence : ExactOccurrence) : Prop where
  hits : Hits candidateView candidate target occurrence.file occurrence.position
  stop : occurrence.stop = occurrence.start + candidate.len
  changed : occurrence.changed = decide (occurrence.path ∈ changedPaths)

section Occurrences

variable {candidateView target : RegionView} {candidate : Candidate} {family : Str}
  {changedPaths : BTreeSet RepoPath}

/-- What the loop over `anchors` adds to `occurrences`. -/
structure Adds (candidateView : RegionView) (candidate : Candidate) (target : RegionView)
    (changedPaths : BTreeSet RepoPath) (anchors : List AnchorOccurrence)
    (occurrences result : BTreeMap (RepoPath ×ₗ Nat) ExactOccurrence) : Prop where
  positions : ∀ position, (∃ o, result.get? position = some o) ↔
    (∃ o, occurrences.get? position = some o)
      ∨ ∃ anchor ∈ anchors, HitBy candidateView candidate target anchor position
  recorded : ∀ position o, result.get? position = some o → occurrences.get? position = some o
    ∨ (position = o.position ∧ Recorded candidateView candidate target changedPaths o
      ∧ ∃ anchor ∈ anchors, anchor.file = o.file)

variable {anchors : List AnchorOccurrence} {anchor : AnchorOccurrence}
  {occurrences result : BTreeMap (RepoPath ×ₗ Nat) ExactOccurrence}

/-- An anchor at which the candidate does not occur. -/
theorem Adds.skip (h : Adds candidateView candidate target changedPaths anchors occurrences result)
    (hno : ∀ position, ¬ HitBy candidateView candidate target anchor position) :
    Adds candidateView candidate target changedPaths (anchor :: anchors) occurrences result := by
  refine ⟨fun position => ?_, fun position o ho => ?_⟩
  · rw [h.positions]
    refine or_congr_right ⟨?_, ?_⟩
    · rintro ⟨a, ha, hhit⟩
      exact ⟨a, List.mem_cons_of_mem _ ha, hhit⟩
    · rintro ⟨a, ha, hhit⟩
      rcases List.mem_cons.mp ha with rfl | ha
      · exact absurd hhit (hno position)
      · exact ⟨a, ha, hhit⟩
  · rcases h.recorded position o ho with hold | ⟨hpos, hrec, a, ha, hfile⟩
    · exact Or.inl hold
    · exact Or.inr ⟨hpos, hrec, a, List.mem_cons_of_mem _ ha, hfile⟩

/-- One anchor is hit at one position only. -/
theorem HitBy.unique {position position' : RepoPath ×ₗ Nat}
    (h : HitBy candidateView candidate target anchor position)
    (h' : HitBy candidateView candidate target anchor position') : position = position' := by
  have hpath := h.2.path
  rw [h'.2.path, Option.some.injEq] at hpath
  have hstart : (ofLex position).2 = (ofLex position').2 := by
    have h₁ := h.1
    have h₂ := h'.1
    omega
  exact ofLex_inj.mp (Prod.ext hpath.symm hstart)

/-- An anchor at which it does: recorded unless its position is taken. -/
theorem Adds.record (new : ExactOccurrence)
    (h : Adds candidateView candidate target changedPaths anchors
      (occurrences.upsert new.position new id) result)
    (hhit : HitBy candidateView candidate target anchor new.position)
    (hrec : Recorded candidateView candidate target changedPaths new)
    (hfile : anchor.file = new.file) :
    Adds candidateView candidate target changedPaths (anchor :: anchors) occurrences result := by
  refine ⟨fun position => ?_, fun position o ho => ?_⟩
  · rw [h.positions, BTreeMap.get?_upsert]
    constructor
    · rintro (⟨o, ho⟩ | ⟨a, ha, hhit'⟩)
      · split_ifs at ho with hEq
        · exact Or.inr ⟨anchor, List.mem_cons_self .., hEq ▸ hhit⟩
        · exact Or.inl ⟨o, ho⟩
      · exact Or.inr ⟨a, List.mem_cons_of_mem _ ha, hhit'⟩
    · rintro (⟨o, ho⟩ | ⟨a, ha, hhit'⟩)
      · left
        split_ifs
        · exact ⟨_, rfl⟩
        · exact ⟨o, ho⟩
      · rcases List.mem_cons.mp ha with rfl | ha
        · rw [if_pos (hhit'.unique hhit)]
          exact Or.inl ⟨_, rfl⟩
        · exact Or.inr ⟨a, ha, hhit'⟩
  · rcases h.recorded position o ho with hold | ⟨hpos, hrec', a, ha, hf⟩
    · rw [BTreeMap.get?_upsert] at hold
      split_ifs at hold with hEq
      · subst hEq
        cases hprior : occurrences.get? new.position with
        | some prior =>
          rw [hprior] at hold
          exact Or.inl hold
        | none =>
          rw [hprior] at hold
          cases hold
          exact Or.inr ⟨rfl, hrec, anchor, List.mem_cons_self .., hfile⟩
      · exact Or.inl hold
    · exact Or.inr ⟨hpos, hrec', a, List.mem_cons_of_mem _ ha, hf⟩

theorem returns_anchoredOccurrences (hlen : 0 < candidate.len)
    (hstop : candidate.stop = candidate.start + candidate.len) (anchors : List AnchorOccurrence)
    (occurrences : BTreeMap (RepoPath ×ₗ Nat) ExactOccurrence) :
    Returns (anchoredOccurrences candidateView candidate target changedPaths anchors occurrences)
      (Adds candidateView candidate target changedPaths anchors occurrences) := by
  induction anchors generalizing occurrences with
  | nil => exact returns_pure ⟨by simp, fun position o h => Or.inl h⟩
  | cons anchor anchors ih =>
    rw [anchoredOccurrences]
    refine Returns.ite (fun hbefore => ?_) (fun hinside => ?_)
    · refine (ih occurrences).mono fun result hresult => hresult.skip ?_
      rintro position ⟨hindex, -⟩
      omega
    refine (returns_regionsEqual hlen hstop rfl).bind fun equal hequal => Returns.ite
      (fun htrue => ?_) (fun hfalse => ?_)
    · cases hfile : target.files[anchor.file]? with
      | none => exact returns_malformedAt
      | some regionFile =>
        simp only
        cases regionFile.range (anchor.tokenIndex - candidate.anchorOffset)
            (anchor.tokenIndex - candidate.anchorOffset + candidate.len) with
        | none => exact returns_malformedAt
        | some range =>
          have hpath : target.pathOf anchor.file = some regionFile.path := by
            rw [RegionView.pathOf, hfile, Option.map_some]
          have hhits : Hits candidateView candidate target anchor.file
              (toLex (regionFile.path, anchor.tokenIndex - candidate.anchorOffset)) :=
            ⟨hpath, hequal.mp htrue⟩
          refine (ih _).mono fun result hresult => Adds.record
            ⟨anchor.file, regionFile.path, anchor.tokenIndex - candidate.anchorOffset,
              anchor.tokenIndex - candidate.anchorOffset + candidate.len, range,
              regionFile.path ∈ changedPaths⟩ hresult ⟨?_, hhits⟩ ⟨hhits, rfl, rfl⟩ rfl
          show anchor.tokenIndex
            = anchor.tokenIndex - candidate.anchorOffset + candidate.anchorOffset
          omega
    · refine (ih occurrences).mono fun result hresult => hresult.skip ?_
      rintro position ⟨hindex, hhits⟩
      refine hfalse (hequal.mpr ?_)
      show SameTokens candidateView candidate.file candidate.start target anchor.file
        (anchor.tokenIndex - candidate.anchorOffset) candidate.len
      rw [show anchor.tokenIndex - candidate.anchorOffset = (ofLex position).2 by omega]
      exact hhits.tokens

/-! ## The selected occurrences -/

/-- Left to right without overlap, positions of a run of `n` tokens. -/
def selectPositions (n : Nat) (positions : BTreeSet (RepoPath ×ₗ Nat)) : List (RepoPath ×ₗ Nat) :=
  Intervals.leftmost (fun p : RepoPath ×ₗ Nat => (ofLex p).1) (fun p => (ofLex p).2)
    (fun p => (ofLex p).2 + n) none positions.elems

/-- The occurrences counted for a candidate in a view. -/
structure Selected (candidateView : RegionView) (candidate : Candidate) (target : RegionView)
    (family : Str) (changedPaths : BTreeSet RepoPath) (selected : List ExactOccurrence) : Prop where
  recorded : ∀ o ∈ selected, Recorded candidateView candidate target changedPaths o
    ∧ ∃ anchor ∈ target.group family candidate.anchor, anchor.file = o.file
  disjoint : selected.Pairwise fun o o' => o.path = o'.path → o.stop ≤ o'.start
  positions : ∀ positions : BTreeSet (RepoPath ×ₗ Nat),
    (∀ position, position ∈ positions ↔ ∃ anchor ∈ target.group family candidate.anchor,
      HitBy candidateView candidate target anchor position) →
    selected.map ExactOccurrence.position = selectPositions candidate.len positions

/-- Recorded occurrences come out in the order of their positions. -/
theorem map_position_values (h : ∀ position o, occurrences.get? position = some o →
    position = o.position) : occurrences.values.map ExactOccurrence.position = occurrences.keys := by
  rw [BTreeMap.values, BTreeMap.keys, List.map_map]
  refine List.map_congr_left fun entry hentry => ?_
  exact (h entry.1 entry.2 (BTreeMap.mem_entries_iff.mp hentry)).symm

theorem sortByKey_values (h : ∀ position o, occurrences.get? position = some o →
    position = o.position) :
    sortByKey ExactOccurrence.sortKey occurrences.values = occurrences.values := by
  refine List.Pairwise.insertionSort_eq ?_
  have hsorted : (occurrences.values.map ExactOccurrence.position).Pairwise (· < ·) := by
    rw [map_position_values h]
    exact occurrences.sorted_keys
  refine (List.pairwise_map.mp hsorted).imp fun {o o'} hlt => ?_
  rw [ExactOccurrence.position, ExactOccurrence.position, Prod.Lex.toLex_lt_toLex] at hlt
  rw [ExactOccurrence.sortKey, ExactOccurrence.sortKey, Prod.Lex.toLex_le_toLex]
  rcases hlt with hpath | ⟨hpath, hstart⟩
  · exact Or.inl hpath
  · exact Or.inr ⟨hpath, (Prod.Lex.toLex_le_toLex.mpr (Or.inl hstart))⟩

/-- Counting occurrences returns the selected ones among the anchored positions. -/
theorem returns_exactOccurrences (hlen : 0 < candidate.len)
    (hstop : candidate.stop = candidate.start + candidate.len) :
    Returns (exactOccurrences candidateView candidate target family changedPaths)
      (Selected candidateView candidate target family changedPaths) := by
  have hgroupEq : target.group family candidate.anchor = _ := RegionView.group_eq
  rw [exactOccurrences]
  cases hgroup : (target.groups.get? family).bind fun groups => groups.get? candidate.anchor with
  | none =>
    rw [hgroup, Option.getD_none] at hgroupEq
    refine returns_pure ⟨by simp, .nil, fun positions hpositions => ?_⟩
    have hempty : positions = ∅ := by
      refine BTreeSet.ext_mem fun position => ?_
      rw [hpositions, hgroupEq]
      simp
    rw [hempty]
    rfl
  | some group =>
    rw [hgroup, Option.getD_some] at hgroupEq
    refine (returns_anchoredOccurrences hlen hstop group ∅).bind fun occurrences hadds => ?_
    have hvalue : ∀ position o, occurrences.get? position = some o →
        position = o.position ∧ Recorded candidateView candidate target changedPaths o
          ∧ ∃ anchor ∈ group, anchor.file = o.file := by
      intro position o ho
      exact (hadds.recorded position o ho).resolve_left (by simp)
    have hkey : ∀ position o, occurrences.get? position = some o → position = o.position :=
      fun position o ho => (hvalue position o ho).1
    have hrec : ∀ o ∈ occurrences.values, Recorded candidateView candidate target changedPaths o
        ∧ ∃ anchor ∈ group, anchor.file = o.file := by
      intro o ho
      obtain ⟨position, hposition⟩ := BTreeMap.mem_values_iff.mp ho
      exact (hvalue position o hposition).2
    rw [sortByKey_values hkey]
    refine returns_pure ⟨fun o ho => ?_, ?_, fun positions hpositions => ?_⟩
    · obtain ⟨hrecorded, anchor, hanchor, hfile⟩ :=
        hrec o ((Intervals.leftmost_sublist _ _).subset ho)
      exact ⟨hrecorded, anchor, hgroupEq ▸ hanchor, hfile⟩
    · refine Intervals.pairwise_leftmost (fun o ho => ?_) ?_ none
      · rw [(hrec o ho).1.stop]
        exact Nat.le_add_right ..
      · have hsorted : (occurrences.values.map ExactOccurrence.position).Pairwise (· < ·) := by
          rw [map_position_values hkey]
          exact occurrences.sorted_keys
        refine (List.pairwise_map.mp hsorted).imp fun {o o'} hlt => ?_
        rw [ExactOccurrence.position, ExactOccurrence.position, Prod.Lex.toLex_lt_toLex] at hlt
        exact hlt.elim le_of_lt fun h => h.1.le
    · -- The map holds the positions, each once and in order.
      have hset : positions = occurrences.keySet := by
        refine BTreeSet.ext_mem fun position => ?_
        rw [hpositions, BTreeMap.mem_keySet_iff, hadds.positions, hgroupEq]
        simp
      have hkeys : positions.elems = occurrences.values.map ExactOccurrence.position := by
        rw [map_position_values hkey, hset]
        rfl
      rw [nonOverlapping, selectPositions, hkeys]
      exact Intervals.map_leftmost ExactOccurrence.position (fun _ => rfl) (fun _ => rfl)
        (fun o ho => (hrec o ho).1.stop.symm) (fun _ h => by cases h)

end Occurrences

end Opcore
