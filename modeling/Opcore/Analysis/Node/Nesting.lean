/-
  Opcore.Analysis.Node.Nesting

  What the nesting metric computes.  When every body is found, an interval of a function
  closes behind those in its body and before the next one opens, and the greatest number
  of them around one point is the greatest number of control bodies around a token of the
  function.
-/
import Opcore.Analysis.Node.Owners
import Opcore.Analysis.Node.Statements

namespace Opcore.NodeMetrics

/-! ## Pairs of delimiters -/

def Delimiters.pairing (delimiters : Delimiters) : Bracket → Pairing
  | .paren => delimiters.parens
  | .brack => delimiters.brackets
  | .curly => delimiters.braces

/-- What one token does to the pairing of a bracket. -/
def Pairing.step (bracket : Bracket) (pairing : Pairing) (token : Kind × Nat) : Pairing :=
  if token.1 = bracket.opening then pairing.push token.2
  else if token.1 = bracket.closing then pairing.pair token.2
  else pairing

/-- The partner of an opening delimiter. -/
def Delimiters.openOf (delimiters : Delimiters) : Bracket → Nat → Option Nat
  | .paren => delimiters.parenOpen
  | .brack => delimiters.bracketOpen
  | .curly => delimiters.braceOpen

section Pairs

variable {bracket : Bracket} {pairing : Pairing} {kinds inner pre post : List Kind}
  {offset index : Nat}

theorem Delimiters.pairing_step (delimiters : Delimiters) (token : Kind × Nat) :
    (delimiters.step token).pairing bracket
      = (delimiters.pairing bracket).step bracket token := by
  obtain ⟨kind, index⟩ := token
  cases kind <;> cases bracket <;> rfl

theorem Delimiters.pairing_foldl (delimiters : Delimiters) (tokens : List (Kind × Nat)) :
    (tokens.foldl Delimiters.step delimiters).pairing bracket
      = tokens.foldl (Pairing.step bracket) (delimiters.pairing bracket) := by
  induction tokens generalizing delimiters with
  | nil => rfl
  | cons token tokens ih => rw [List.foldl_cons, ih, pairing_step, List.foldl_cons]

/-- The pairing of a bracket after some tokens. -/
abbrev paired (bracket : Bracket) (pairing : Pairing) (kinds : List Kind) (offset : Nat) : Pairing :=
  (kinds.zipIdx offset).foldl (Pairing.step bracket) pairing

variable {kind : Kind}

theorem paired_cons : paired bracket pairing (kind :: kinds) offset
    = paired bracket (pairing.step bracket (kind, offset)) kinds (offset + 1) := rfl

theorem paired_append : paired bracket pairing (kinds ++ inner) offset
    = paired bracket (paired bracket pairing kinds offset) inner (offset + kinds.length) := by
  rw [paired, List.zipIdx_append, List.foldl_append, Nat.add_comm]

theorem Bracket.opening_ne_closing (other : Bracket) : bracket.opening ≠ other.closing := by
  cases bracket <;> cases other <;> decide

theorem Bracket.opening_injective {other : Bracket} (h : bracket.opening = other.opening) :
    bracket = other := by
  cases bracket <;> cases other <;> first | rfl | cases h

theorem Bracket.closing_injective {other : Bracket} (h : bracket.closing = other.closing) :
    bracket = other := by
  cases bracket <;> cases other <;> first | rfl | cases h

theorem Pairing.step_opening :
    pairing.step bracket (bracket.opening, index) = pairing.push index := if_pos rfl

theorem Pairing.step_closing :
    pairing.step bracket (bracket.closing, index) = pairing.pair index := by
  rw [step, if_neg (Ne.symm (Bracket.opening_ne_closing bracket)), if_pos rfl]

theorem Pairing.step_of_ne (hopening : kind ≠ bracket.opening)
    (hclosing : kind ≠ bracket.closing) : pairing.step bracket (kind, index) = pairing := by
  rw [step, if_neg hopening, if_neg hclosing]

theorem Pairing.step_token (h : kind.isDelimiter = false) :
    pairing.step bracket (kind, index) = pairing := by
  refine step_of_ne ?_ ?_
  all_goals
    rintro rfl
    cases bracket <;> cases h

/-- Balanced tokens leave the stack as it was. -/
theorem stack_of_balanced (h : Balanced kinds) :
    (paired bracket pairing kinds offset).stack = pairing.stack := by
  induction h generalizing pairing offset with
  | nil => rfl
  | token hkind _ ih => rw [paired_cons, ih, Pairing.step_token hkind]
  | group other _ _ ihinner ihrest =>
    rw [paired_cons, paired_append, paired_cons, ihrest]
    by_cases heq : other = bracket
    · subst heq
      have hstack := @ihinner (pairing.step other (other.opening, offset)) (offset + 1)
      rw [Pairing.step_closing, Pairing.pair, hstack, Pairing.step_opening]
      rfl
    · have hopening : other.opening ≠ bracket.opening := fun h =>
        heq (Bracket.opening_injective h)
      have hclosing : other.closing ≠ bracket.closing := fun h =>
        heq (Bracket.closing_injective h)
      rw [Pairing.step_of_ne (Bracket.opening_ne_closing other).symm hclosing, ihinner,
        Pairing.step_of_ne hopening (Bracket.opening_ne_closing bracket)]

theorem Pairing.length_step {token : Kind × Nat} :
    (pairing.step bracket token).openToClose.length = pairing.openToClose.length := by
  unfold step pair
  split_ifs
  · rfl
  · split
    · rfl
    · exact List.length_set
  · rfl

theorem length_paired :
    (paired bracket pairing kinds offset).openToClose.length = pairing.openToClose.length := by
  induction kinds generalizing pairing offset with
  | nil => rfl
  | cons kind kinds ih => rw [paired_cons, ih, Pairing.length_step]

/-- A token puts only itself on the stack. -/
theorem Pairing.mem_stack_step (h : index ∈ (pairing.step bracket (kind, offset)).stack) :
    index = offset ∨ index ∈ pairing.stack := by
  unfold step at h
  split_ifs at h
  · exact List.mem_cons.mp h
  · unfold pair at h
    split at h
    · exact .inr h
    · next heq =>
      rw [heq]
      exact .inr (List.mem_cons_of_mem _ h)
  · exact .inr h

/-- The stack holds earlier tokens. -/
theorem stack_lt (hstack : ∀ i ∈ pairing.stack, i < offset) :
    ∀ i ∈ (paired bracket pairing kinds offset).stack, i < offset + kinds.length := by
  induction kinds generalizing pairing offset with
  | nil => exact hstack
  | cons kind kinds ih =>
    rw [paired_cons, List.length_cons, ← Nat.add_assoc, Nat.add_right_comm]
    refine ih fun i hi => ?_
    obtain rfl | hi := Pairing.mem_stack_step hi
    · exact Nat.lt_succ_self _
    · exact Nat.lt_succ_of_lt (hstack i hi)

/-- A pair is only made for what the stack holds. -/
theorem Pairing.step_kept {token : Kind × Nat} (hindex : index ∉ pairing.stack) :
    (pairing.step bracket token).openToClose[index]? = pairing.openToClose[index]? := by
  unfold step pair
  split_ifs
  · rfl
  · split
    · rfl
    · next opened stack heq =>
      rw [heq] at hindex
      refine List.getElem?_set_ne ?_
      rintro rfl
      exact hindex List.mem_cons_self
  · rfl

/-- Later tokens leave a pair as it is. -/
theorem paired_kept (hindex : index ∉ pairing.stack) (hlt : index < offset) :
    (paired bracket pairing kinds offset).openToClose[index]? = pairing.openToClose[index]? := by
  induction kinds generalizing pairing offset with
  | nil => rfl
  | cons kind kinds ih =>
    have hnot : index ∉ (pairing.step bracket (kind, offset)).stack := by
      intro hmem
      obtain rfl | hmem := Pairing.mem_stack_step hmem
      · exact absurd hlt (Nat.lt_irrefl _)
      · exact hindex hmem
    rw [paired_cons, ih hnot (Nat.lt_succ_of_lt hlt), Pairing.step_kept hindex]

/-- A delimiter around balanced tokens is paired with its partner. -/
theorem openToClose_new (hinner : Balanced inner)
    (hkinds : kinds = pre ++ bracket.opening :: (inner ++ bracket.closing :: post)) :
    (((Delimiters.new kinds).pairing bracket).openToClose[pre.length]?).join
      = some (pre.length + 1 + inner.length) := by
  have hnew : (Delimiters.new kinds).pairing bracket
      = paired bracket ((Delimiters.unpaired kinds.length).pairing bracket) kinds 0 :=
    Delimiters.pairing_foldl _ _
  have hlength : ((Delimiters.unpaired kinds.length).pairing bracket).openToClose.length
      = kinds.length := by
    cases bracket <;> exact List.length_replicate
  have hempty : ((Delimiters.unpaired kinds.length).pairing bracket).stack = [] := by
    cases bracket <;> rfl
  generalize (Delimiters.unpaired kinds.length).pairing bracket = start at hnew hlength hempty
  rw [hnew, hkinds, paired_append, paired_cons, paired_append, paired_cons, Pairing.step_opening,
    Pairing.step_closing, Nat.zero_add]
  -- The stack before the delimiter comes back when its partner is met.
  have hstack : ∀ i ∈ (paired bracket start pre 0).stack, i < pre.length := by
    have hlt := @stack_lt bracket start pre 0 (by rw [hempty]; exact fun _ h => absurd h List.not_mem_nil)
    rwa [Nat.zero_add] at hlt
  generalize hbefore : paired bracket start pre 0 = before at hstack
  have hinside := @stack_of_balanced bracket (before.push pre.length) inner (pre.length + 1) hinner
  generalize hat : paired bracket (before.push pre.length) inner (pre.length + 1) = inside
    at hinside
  have hopen : inside.openToClose.length = kinds.length := by
    rw [← hat, length_paired]
    show before.openToClose.length = _
    rw [← hbefore, length_paired, hlength]
  have hpair : inside.pair (pre.length + 1 + inner.length)
      = { stack := before.stack
          openToClose := inside.openToClose.set pre.length (some (pre.length + 1 + inner.length))
          closeToOpen := inside.closeToOpen.set (pre.length + 1 + inner.length) (some pre.length) } := by
    rw [Pairing.pair, hinside]
    rfl
  rw [hpair, paired_kept, List.getElem?_set_self]
  · rfl
  · rw [hopen, hkinds]
    simp
  · exact fun hmem => Nat.lt_irrefl _ (hstack _ hmem)
  · omega

/-- What is paired lies behind what it is paired with. -/
theorem paired_lt (hstack : ∀ i ∈ pairing.stack, i < offset)
    (h : ∀ i j : Nat, pairing.openToClose[i]?.join = some j → i < j) :
    ∀ i j : Nat, (paired bracket pairing kinds offset).openToClose[i]?.join = some j → i < j := by
  induction kinds generalizing pairing offset with
  | nil => exact h
  | cons kind kinds ih =>
    rw [paired_cons]
    refine ih (fun i hi => ?_) fun i j hclose => ?_
    · obtain rfl | hi := Pairing.mem_stack_step hi
      · exact Nat.lt_succ_self _
      · exact Nat.lt_succ_of_lt (hstack i hi)
    · unfold Pairing.step Pairing.pair at hclose
      split_ifs at hclose
      · exact h i j hclose
      · split at hclose
        · exact h i j hclose
        · next opened stack heq =>
          by_cases hi : opened = i
          · subst hi
            rw [List.getElem?_set_self'] at hclose
            cases hget : pairing.openToClose[opened]? with
            | none =>
              rw [hget] at hclose
              cases hclose
            | some _ =>
              rw [hget] at hclose
              cases hclose
              exact hstack opened (by rw [heq]; exact List.mem_cons_self)
          · rw [List.getElem?_set_ne hi] at hclose
            exact h i j hclose
      · exact h i j hclose

theorem lt_of_openOf {close : Nat} (h : (Delimiters.new kinds).openOf bracket index = some close) :
    index < close := by
  have hnew : (Delimiters.new kinds).pairing bracket
      = paired bracket ((Delimiters.unpaired kinds.length).pairing bracket) kinds 0 :=
    Delimiters.pairing_foldl _ _
  have hlt := @paired_lt bracket ((Delimiters.unpaired kinds.length).pairing bracket) kinds 0
    (by cases bracket <;> exact fun _ h => absurd h List.not_mem_nil) (by
      intro i j hclose
      have hnone : ((Delimiters.unpaired kinds.length).pairing bracket).openToClose
          = List.replicate kinds.length none := by
        cases bracket <;> rfl
      rw [hnone, List.getElem?_replicate] at hclose
      split_ifs at hclose <;> cases hclose)
  refine hlt index close ?_
  rw [← hnew]
  cases bracket <;> exact h

theorem openOf_new (hinner : Balanced inner)
    (hkinds : kinds = pre ++ bracket.opening :: (inner ++ bracket.closing :: post))
    (hoffset : pre.length = offset) :
    (Delimiters.new kinds).openOf bracket offset = some (offset + 1 + inner.length) := by
  subst hoffset
  have h := openToClose_new hinner hkinds
  cases bracket <;> exact h

end Pairs

/-! ## The end of an unbraced body -/

section Unbraced

variable {kinds front pre post : List Kind} {offset functionEnd fuel : Nat}

theorem unbracedStatementEnd_token {kind : Kind} (hlt : offset < functionEnd)
    (hget : kinds[offset]? = some kind) (hopening : ∀ bracket : Bracket, kind ≠ bracket.opening)
    (hsemicolon : kind ≠ .semicolon) :
    unbracedStatementEnd kinds (Delimiters.new kinds) functionEnd (fuel + 1) offset
      = unbracedStatementEnd kinds (Delimiters.new kinds) functionEnd fuel (offset + 1) := by
  rw [unbracedStatementEnd, if_pos hlt, hget]
  cases kind with
  | semicolon => exact absurd rfl hsemicolon
  | lParen => exact absurd rfl (hopening .paren)
  | lBrack => exact absurd rfl (hopening .brack)
  | lCurly => exact absurd rfl (hopening .curly)
  | _ => rfl

theorem unbracedStatementEnd_semicolon (hlt : offset < functionEnd)
    (hget : kinds[offset]? = some .semicolon) :
    unbracedStatementEnd kinds (Delimiters.new kinds) functionEnd (fuel + 1) offset = offset := by
  rw [unbracedStatementEnd, if_pos hlt, hget]

/-- The search passes over a pair of brackets. -/
theorem unbracedStatementEnd_group {bracket : Bracket} {inner rest : List Kind}
    (hinner : Balanced inner)
    (hkinds : kinds = pre ++ bracket.opening :: (inner ++ bracket.closing :: rest))
    (hoffset : pre.length = offset) (hlt : offset < functionEnd) :
    unbracedStatementEnd kinds (Delimiters.new kinds) functionEnd (fuel + 1) offset
      = unbracedStatementEnd kinds (Delimiters.new kinds) functionEnd fuel
        (offset + (inner.length + 2)) := by
  have hget : kinds[offset]? = some bracket.opening := by
    rw [hkinds, ← hoffset]
    simp
  have hopen : (Delimiters.new kinds).openOf bracket offset = some (offset + 1 + inner.length) :=
    openOf_new hinner hkinds hoffset
  have hnext : offset + (inner.length + 2) = offset + 1 + inner.length + 1 := by omega
  rw [unbracedStatementEnd, if_pos hlt, hget, hnext]
  cases bracket
  all_goals
    simp only [Bracket.opening, Delimiters.openOf] at hopen ⊢
    rw [hopen]
    rfl

/-- The search passes over tokens without a semicolon outside brackets. -/
theorem unbracedStatementEnd_front (hfront : Passed front)
    (hkinds : kinds = pre ++ front ++ post) (hoffset : pre.length = offset)
    (hend : offset + front.length ≤ functionEnd) (hfuel : functionEnd - offset ≤ fuel) :
    ∃ fuel', functionEnd - (offset + front.length) ≤ fuel'
      ∧ unbracedStatementEnd kinds (Delimiters.new kinds) functionEnd fuel offset
        = unbracedStatementEnd kinds (Delimiters.new kinds) functionEnd fuel'
          (offset + front.length) := by
  induction hfront generalizing pre offset fuel with
  | nil => exact ⟨fuel, hfuel, rfl⟩
  | @token kind rest hopening hsemicolon _ ih =>
    rw [List.length_cons] at hend ⊢
    obtain ⟨fuel, rfl⟩ : ∃ n, fuel = n + 1 := ⟨fuel - 1, by omega⟩
    have hget : kinds[offset]? = some kind := by
      rw [hkinds, ← hoffset]
      simp
    obtain ⟨fuel', hfuel', hscan⟩ := @ih (pre ++ [kind]) (offset + 1) fuel
      (by rw [hkinds]; simp) (by simp [hoffset]) (by omega) (by omega)
    refine ⟨fuel', by omega, ?_⟩
    rw [unbracedStatementEnd_token (by omega) hget hopening hsemicolon, hscan, Nat.add_right_comm,
      Nat.add_assoc]
  | @group bracket inner rest hinner _ ih =>
    have hlength : (bracket.opening :: (inner ++ bracket.closing :: rest)).length
        = inner.length + 2 + rest.length := by
      simp only [List.length_cons, List.length_append]
      omega
    rw [hlength] at hend ⊢
    obtain ⟨fuel, rfl⟩ : ∃ n, fuel = n + 1 := ⟨fuel - 1, by omega⟩
    have hgroup := @unbracedStatementEnd_group kinds pre offset functionEnd fuel bracket inner
      (rest ++ post) hinner (by rw [hkinds]; simp) hoffset (by omega)
    obtain ⟨fuel', hfuel', hscan⟩ := @ih (pre ++ bracket.opening :: (inner ++ [bracket.closing]))
      (offset + (inner.length + 2)) fuel (by rw [hkinds]; simp) (by simp [← hoffset]) (by omega)
      (by omega)
    refine ⟨fuel', by omega, ?_⟩
    rw [hgroup, hscan, Nat.add_assoc]

/-- The search ends at the first semicolon outside brackets, or with the function. -/
theorem unbracedStatementEnd_eq (hfront : Passed front) (hkinds : kinds = pre ++ front ++ post)
    (hoffset : pre.length = offset) (hend : offset + front.length ≤ functionEnd)
    (hstop : offset + front.length < functionEnd → post.head? = some .semicolon) :
    unbracedStatementEnd kinds (Delimiters.new kinds) functionEnd (functionEnd - offset) offset
      = offset + front.length := by
  obtain ⟨fuel, hfuel, hscan⟩ := unbracedStatementEnd_front hfront hkinds hoffset hend le_rfl
  rw [hscan]
  cases fuel with
  | zero =>
    show functionEnd = _
    omega
  | succ fuel =>
    by_cases hlt : offset + front.length < functionEnd
    · obtain ⟨more, hpost⟩ := List.head?_eq_some_iff.mp (hstop hlt)
      have hget : kinds[offset + front.length]? = some .semicolon := by
        rw [hkinds, hpost, ← hoffset]
        simp
      exact unbracedStatementEnd_semicolon hlt hget
    · rw [unbracedStatementEnd, if_neg hlt]
      omega

end Unbraced

/-! ## Nested intervals -/

/-- Intervals that open in a range of tokens, in order, and lie in one another to a depth:
    whatever is open around the range stays open, what they leave on the stack is closed
    when one of the following intervals opens, and the maximum is raised by the depth. -/
structure Nested (intervals following : List (Nat × Nat)) (offset length nest : Nat) : Prop where
  within : ∀ interval ∈ intervals, offset ≤ interval.1 ∧ interval.1 + 1 < offset + length
  sorted : intervals.Pairwise fun left right => left.1 < right.1
  entered : ∀ (dead live : List Nat) (maximum : Nat),
    (∀ close ∈ dead, ∀ interval ∈ intervals ++ following, close ≤ interval.1) →
    (∀ close ∈ live, offset + length ≤ close + 1) → live.length ≤ maximum →
    live.length + nest ≤ u32Max →
    ∃ dead', (∀ close ∈ dead', ∀ interval ∈ following, close ≤ interval.1)
      ∧ intervals.foldl enterInterval (dead ++ live, maximum)
        = (dead' ++ live, max maximum (live.length + nest))

section Nested

variable {intervals following first second : List (Nat × Nat)}
  {offset length start size m n opened close : Nat}

theorem Nested.nil : Nested [] following offset length 0 where
  within _ h := absurd h List.not_mem_nil
  sorted := List.Pairwise.nil
  entered dead live maximum hdead _ hmaximum _ := by
    refine ⟨dead, hdead, ?_⟩
    rw [List.foldl_nil, Nat.add_zero, max_eq_left hmaximum]

theorem Nested.append (hfirst : Nested first (second ++ following) offset length m)
    (hsecond : Nested second following (offset + length) size n) :
    Nested (first ++ second) following offset (length + size) (max m n) where
  within interval hmem := by
    obtain hmem | hmem := List.mem_append.mp hmem
    · have hwithin := hfirst.within interval hmem
      omega
    · have hwithin := hsecond.within interval hmem
      omega
  sorted := by
    refine List.pairwise_append.mpr ⟨hfirst.sorted, hsecond.sorted, fun left hleft right hright => ?_⟩
    have hle := hfirst.within left hleft
    have hge := hsecond.within right hright
    omega
  entered dead live maximum hdead hlive hmaximum hbound := by
    have hle := le_max_left m n
    have hle' := le_max_right m n
    rw [List.append_assoc] at hdead
    obtain ⟨dead₁, hdead₁, hfold₁⟩ := hfirst.entered dead live maximum hdead
      (fun close hclose => by have h := hlive close hclose; omega) hmaximum (by omega)
    obtain ⟨dead₂, hdead₂, hfold₂⟩ := hsecond.entered dead₁ live (max maximum (live.length + m))
      hdead₁ (fun close hclose => by have h := hlive close hclose; omega)
      (hmaximum.trans (le_max_left _ _)) (by omega)
    refine ⟨dead₂, hdead₂, ?_⟩
    rw [List.foldl_append, hfold₁, hfold₂]
    congr 1
    omega

/-- A body: its interval opens before those in it, and closes with its last token or, where
    no interval follows, later. -/
theorem Nested.body (h : Nested intervals following start size n)
    (hintervals : ∀ interval ∈ intervals, opened < interval.1) (hopened : offset ≤ opened)
    (hlt : opened + 1 < offset + length) (hlength : start + size = offset + length)
    (hclose : offset + length ≤ close + 1)
    (hfollowing : ∀ interval ∈ following, close ≤ interval.1) :
    Nested ((opened, close) :: intervals) following offset length (n + 1) where
  within interval hmem := by
    obtain rfl | hmem := List.mem_cons.mp hmem
    · exact ⟨hopened, hlt⟩
    · have hwithin := h.within interval hmem
      have hafter := hintervals interval hmem
      omega
  sorted := List.pairwise_cons.mpr ⟨hintervals, h.sorted⟩
  entered dead live maximum hdead hlive hmaximum hbound := by
    have hpop : (dead ++ live).dropWhile (fun active => decide (active ≤ opened)) = live := by
      rw [List.dropWhile_append_of_pos fun active hactive => ?_]
      · cases live with
        | nil => rfl
        | cons active live =>
          have h := hlive active List.mem_cons_self
          rw [List.dropWhile_cons_of_neg]
          simp only [decide_eq_true_eq]
          omega
      · exact decide_eq_true (hdead active hactive _ List.mem_cons_self)
    have henter : enterInterval (dead ++ live, maximum) (opened, close)
        = (close :: live, max maximum (live.length + 1)) := by
      simp only [enterInterval, hpop, List.length_cons]
      rw [Nat.min_eq_left (by omega)]
    obtain ⟨dead', hdead', hfold⟩ := h.entered [] (close :: live)
      (max maximum (live.length + 1)) (fun _ h => absurd h List.not_mem_nil)
      (by rw [hlength]; exact List.forall_mem_cons.mpr ⟨hclose, hlive⟩)
      (le_max_right _ _) (by rw [List.length_cons]; omega)
    refine ⟨dead' ++ [close], ?_, ?_⟩
    · intro active hactive
      obtain hactive | hactive := List.mem_append.mp hactive
      · exact hdead' active hactive
      · rw [List.mem_singleton.mp hactive]
        exact hfollowing
    · rw [List.foldl_cons, henter, ← List.nil_append (close :: live), hfold, List.append_assoc]
      congr 1
      simp only [List.length_cons]
      omega

/-- The metric of nested intervals is their depth. -/
theorem Nested.maximumNesting (h : Nested intervals following offset length n) (hn : n ≤ u32Max) :
    maximumNesting intervals = n := by
  have hsorted : intervals.insertionSort (fun left right => toLex left ≤ toLex right) = intervals := by
    refine List.Pairwise.insertionSort_eq (h.sorted.imp fun {left right} hlt => ?_)
    exact Prod.Lex.le_iff.mpr (.inl hlt)
  obtain ⟨dead, -, hfold⟩ := h.entered [] [] 0 (fun _ h => absurd h List.not_mem_nil)
    (fun _ h => absurd h List.not_mem_nil) le_rfl (by simpa using hn)
  rw [NodeMetrics.maximumNesting, hsorted]
  rw [List.append_nil] at hfold
  rw [hfold]
  simp

end Nested

/-! ## The intervals of one function -/

/-- One function of a text, whose body lies between two delimiters. -/
structure Site where
  kinds : List Kind
  functions : List FunctionFact
  owners : List (Option Nat)
  k : Nat
  opened : Nat
  closed : Nat
  function : ∃ function, functions[k]? = some function ∧ function.body = some (opened, closed)

abbrev Site.delimiters (s : Site) : Delimiters := Delimiters.new s.kinds

/-- The token belongs to the function itself. -/
abbrev Site.Owned (s : Site) (index : Nat) : Prop := s.owners[index]?.join = some s.k

section Collected

variable (s : Site)

/-- The interval a token opens for one function. -/
def intervalFor (index : Nat) : Option (Nat × Nat) :=
  (intervalAt s.kinds s.delimiters s.functions s.owners index).bind fun found =>
    if found.1 = s.k then some found.2 else none

def collected (offset length : Nat) : List (Nat × Nat) :=
  (List.range' offset length).filterMap (intervalFor s)

/-- The intervals from a token to the end of the function. -/
def after (offset : Nat) : List (Nat × Nat) :=
  collected s offset (s.closed - offset)

/-- The intervals of a piece of text are nested, before those that follow. -/
abbrev Nests (offset : Nat) (tokens : List Token) (nest : Nat) : Prop :=
  Nested (collected s offset tokens.length)
    (after s (offset + tokens.length)) offset tokens.length nest

variable {s} {offset length size : Nat}

theorem getElem?_foldl_addInterval (indexes : List Nat) {intervals : List (List (Nat × Nat))}
    {mine : List (Nat × Nat)} (hmine : intervals[s.k]? = some mine) :
    (indexes.foldl (addInterval s.kinds s.delimiters s.functions s.owners) intervals)[s.k]?
      = some (mine ++ indexes.filterMap (intervalFor s)) := by
  induction indexes generalizing intervals mine with
  | nil =>
    rw [List.filterMap_nil, List.append_nil]
    exact hmine
  | cons index indexes ih =>
    rw [List.foldl_cons, List.filterMap_cons]
    cases hat : intervalAt s.kinds s.delimiters s.functions s.owners index with
    | none =>
      simp only [addInterval, intervalFor, hat, Option.bind_none]
      exact ih hmine
    | some found =>
      obtain ⟨owner, interval⟩ := found
      simp only [addInterval, intervalFor, hat, Option.bind_some]
      by_cases howner : owner = s.k
      · have hadded : (intervals.modify s.k (· ++ [interval]))[s.k]? = some (mine ++ [interval]) := by
          simp [hmine]
        rw [howner, if_pos rfl, ih hadded, List.append_assoc]
        rfl
      · rw [if_neg howner]
        exact ih (by simp [howner, hmine])

/-- The intervals of a function, in the order of the tokens. -/
theorem getElem?_nestingIntervals :
    (nestingIntervals s.kinds s.delimiters s.functions s.owners)[s.k]?
      = some (collected s 0 s.kinds.length) := by
  obtain ⟨function, hfunction, -⟩ := s.function
  obtain ⟨hk, -⟩ := List.getElem?_eq_some_iff.mp hfunction
  have hstart : (List.replicate s.functions.length ([] : List (Nat × Nat)))[s.k]? = some [] := by
    simp [hk]
  rw [nestingIntervals, getElem?_foldl_addInterval _ hstart, List.nil_append, List.range_eq_range']
  rfl

theorem collected_add : collected s offset (length + size) = collected s offset length
      ++ collected s (offset + length) size := by
  rw [collected, ← List.range'_append_1, List.filterMap_append]
  rfl

theorem after_eq (h : offset + length ≤ s.closed) :
    after s offset = collected s offset length ++ after s (offset + length) := by
  rw [after, after, ← collected_add]
  congr 1
  omega

theorem collected_one : collected s offset 1 = (intervalFor s offset).toList := by
  rw [collected, List.range'_one, List.filterMap_cons, List.filterMap_nil]
  cases intervalFor s offset <;> rfl

theorem collected_eq_nil (h : ∀ index, offset ≤ index → index < offset + length →
      intervalFor s index = none) :
    collected s offset length = [] := by
  refine List.filterMap_eq_nil_iff.mpr fun index hindex => ?_
  obtain ⟨hle, hlt⟩ := List.mem_range'_1.mp hindex
  exact h index hle hlt

/-- What an interval of a function says about the token that opens it, and about the one
    its body starts with. -/
theorem intervalFor_eq_some {index : Nat} {interval : Nat × Nat}
    (h : intervalFor s index = some interval) :
    s.Owned index
      ∧ ∃ kind function start, s.kinds[index]? = some kind ∧ s.functions[s.k]? = some function
        ∧ opensInterval s.kinds function index kind = true
        ∧ controlStatementStart s.kinds s.delimiters index
          ((function.body.map Prod.snd).getD index) = some start
        ∧ s.Owned start
        ∧ nestingInterval s.kinds s.delimiters index start
          ((function.body.map Prod.snd).getD index) = some interval := by
  obtain ⟨⟨owner, found⟩, hat, howner⟩ := Option.bind_eq_some_iff.mp h
  obtain ⟨rfl, rfl⟩ : owner = s.k ∧ found = interval := by simpa using howner
  simp only [intervalAt, Option.bind_eq_bind, Option.bind_eq_some_iff] at hat
  obtain ⟨kind, hkind, owner', howner', function, hfunction, hat⟩ := hat
  split at hat
  · next hopens =>
    obtain ⟨start, hstart, hat⟩ := Option.bind_eq_some_iff.mp hat
    split at hat
    · next hown =>
      obtain ⟨interval, hinterval, heq⟩ := Option.bind_eq_some_iff.mp hat
      cases heq
      exact ⟨howner', kind, function, start, hkind, hfunction, hopens, hstart, hown, hinterval⟩
    · cases hat
  · cases hat

theorem lt_of_controlStatementStart {index functionEnd start : Nat}
    (h : controlStatementStart s.kinds s.delimiters index functionEnd = some start) :
    index < start := by
  simp only [controlStatementStart, Option.bind_eq_bind] at h
  split at h
  · obtain ⟨found, hfound, h⟩ := Option.bind_eq_some_iff.mp h
    obtain ⟨close, hclose, rfl⟩ := Option.map_eq_some_iff.mp hfound
    have hlt := @lt_of_openOf .paren s.kinds (index + 1) close hclose
    split_ifs at h
    cases h
    omega
  · rw [Option.bind_some] at h
    split_ifs at h
    cases h
    exact Nat.lt_succ_self index

/-- An interval opens at its keyword or behind it. -/
theorem le_of_intervalFor {index : Nat} {interval : Nat × Nat}
    (h : intervalFor s index = some interval) : index ≤ interval.1 := by
  obtain ⟨-, _, _, start, -, -, -, hstart, -, hinterval⟩ := intervalFor_eq_some h
  rw [nestingInterval] at hinterval
  split_ifs at hinterval
  · obtain ⟨close, -, rfl⟩ := Option.map_eq_some_iff.mp hinterval
    exact (lt_of_controlStatementStart hstart).le
  · cases hinterval
    exact le_rfl

/-- The interval of a control keyword of the function. -/
theorem intervalFor_keyword {index start : Nat} {kind : Kind} {function : FunctionFact}
    (hkind : s.kinds[index]? = some kind) (howner : s.Owned index)
    (hfunction : s.functions[s.k]? = some function)
    (hbody : function.body = some (s.opened, s.closed))
    (hopens : opensInterval s.kinds function index kind = true)
    (hstart : controlStatementStart s.kinds s.delimiters index s.closed = some start)
    (hown : s.Owned start) :
    intervalFor s index = nestingInterval s.kinds s.delimiters index start s.closed := by
  have hat : intervalAt s.kinds s.delimiters s.functions s.owners index
      = (nestingInterval s.kinds s.delimiters index start s.closed).map fun interval =>
        (s.k, interval) := by
    simp only [intervalAt, hkind, howner, hfunction, hbody, hopens, hstart, hown, Option.bind_eq_bind,
      Option.bind_some, Option.map_some, Option.getD_some, if_true]
    cases nestingInterval s.kinds s.delimiters index start s.closed <;> rfl
  rw [intervalFor, hat]
  cases nestingInterval s.kinds s.delimiters index start s.closed with
  | none => rfl
  | some interval => exact if_pos rfl

end Collected

/-! ## Statements in their place -/

/-- Tokens stand at an offset, and the function owns those that are its own. -/
structure Placed (s : Site) (offset : Nat) (tokens : List Token) : Prop where
  text : ∃ pre post, s.kinds = pre ++ kindsOf tokens ++ post ∧ pre.length = offset
  owned : ∀ i token, tokens[i]? = some token → (s.Owned (offset + i) ↔ token.own = true)

section Placed

variable {s : Site} {offset : Nat} {function : FunctionFact} {tokens first second : List Token}
  {token : Token} {keyword : Kind} {header : Header} {body : Stmt}

theorem Placed.left (h : Placed s offset (first ++ second)) :
    Placed s offset first := by
  obtain ⟨⟨pre, post, hkinds, hoffset⟩, howned⟩ := h
  refine ⟨⟨pre, kindsOf second ++ post, ?_, hoffset⟩, fun i token hget => ?_⟩
  · rw [hkinds, kindsOf_append]
    simp only [List.append_assoc]
  · obtain ⟨hlt, -⟩ := List.getElem?_eq_some_iff.mp hget
    exact howned i token (by rw [List.getElem?_append_left hlt, hget])

theorem Placed.right (h : Placed s offset (first ++ second)) :
    Placed s (offset + first.length) second := by
  obtain ⟨⟨pre, post, hkinds, hoffset⟩, howned⟩ := h
  refine ⟨⟨pre ++ kindsOf first, post, ?_, ?_⟩, fun i token hget => ?_⟩
  · rw [hkinds, kindsOf_append]
    simp only [List.append_assoc]
  · rw [List.length_append, length_kindsOf, hoffset]
  · have hthere := howned (first.length + i) token (by
      rw [List.getElem?_append_right (Nat.le_add_right _ _), Nat.add_sub_cancel_left, hget])
    rwa [← Nat.add_assoc] at hthere

theorem Placed.tail (h : Placed s offset (token :: tokens)) :
    Placed s (offset + 1) tokens :=
  @Placed.right _ _ [token] tokens h

theorem Placed.kind_at (h : Placed s offset tokens) {i : Nat}
    (hget : tokens[i]? = some token) : s.kinds[offset + i]? = some token.kind := by
  obtain ⟨⟨pre, post, hkinds, rfl⟩, -⟩ := h
  obtain ⟨hlt, -⟩ := List.getElem?_eq_some_iff.mp hget
  rw [hkinds, List.append_assoc, List.getElem?_append_right (Nat.le_add_right _ _),
    Nat.add_sub_cancel_left, List.getElem?_append_left (by rwa [length_kindsOf]), kindsOf,
    List.getElem?_map, hget]
  rfl

theorem Placed.head (h : Placed s offset (token :: tokens)) :
    s.kinds[offset]? = some token.kind ∧ (s.Owned offset ↔ token.own = true) :=
  ⟨h.kind_at (i := 0) rfl, h.owned 0 token rfl⟩

/-- Tokens without a control keyword of the function open no interval. -/
theorem Placed.collected_eq_nil (h : Placed s offset tokens) (hkeyword : NoKeyword tokens) :
    collected s offset tokens.length = [] := by
  refine NodeMetrics.collected_eq_nil fun index hle hlt => ?_
  obtain ⟨i, rfl⟩ := Nat.exists_eq_add_of_le hle
  cases hinterval : intervalFor s (offset + i) with
  | none => rfl
  | some interval =>
    obtain ⟨howner, kind, function, _, hkind, -, hopens, -⟩ := intervalFor_eq_some hinterval
    have hget := List.getElem?_eq_getElem (Nat.lt_of_add_lt_add_left hlt)
    rw [h.kind_at hget] at hkind
    have hplain := hkeyword _ (List.mem_of_getElem? hget) ((h.owned i _ hget).mp howner)
    obtain rfl := Option.some.inj hkind
    simp [opensInterval, hplain] at hopens

/-- The delimiter before balanced tokens is paired with the one after them. -/
theorem Placed.openOf {bracket : Bracket} {inner : List Token} (hinner : Balanced (kindsOf inner))
    (h : Placed s offset (own bracket.opening :: (inner ++ [own bracket.closing]))) :
    s.delimiters.openOf bracket offset = some (offset + 1 + inner.length) := by
  obtain ⟨⟨pre, post, hkinds, hoffset⟩, -⟩ := h
  rw [← length_kindsOf inner]
  refine @openOf_new bracket s.kinds (kindsOf inner) pre post offset hinner ?_ hoffset
  rw [hkinds, kindsOf_cons, kindsOf_append, List.append_assoc, List.cons_append, List.append_assoc]
  rfl

/-- After a header the body starts, where the function goes on. -/
theorem controlStatementStart_header (hkind : s.kinds[offset]? = some keyword)
    (hkeyword : hasHeader keyword = true) (h : Placed s (offset + 1) header.text) :
    controlStatementStart s.kinds s.delimiters offset s.closed
      = if offset + 1 + header.text.length < s.closed then some (offset + 1 + header.text.length)
        else none := by
  have hopen : s.delimiters.parenOpen (offset + 1) = some (offset + 1 + 1 + header.tokens.length) :=
      @Placed.openOf s (offset + 1) .paren header.tokens header.balanced h
  have hlength : offset + 1 + 1 + header.tokens.length + 1 = offset + 1 + header.text.length := by
    simp only [Header.text, List.length_cons, List.length_append, List.length_nil]
    omega
  simp only [controlStatementStart, hkind, h.head.1, Option.any_some, hkeyword, own, and_self,
    if_true, hopen, Option.map_some, Option.bind_eq_bind, Option.bind_some, hlength]

/-- Without a header the body starts after the keyword. -/
theorem controlStatementStart_bare (hkind : s.kinds[offset]? = some keyword)
    (hkeyword : hasHeader keyword = false ∨ s.kinds[offset + 1]? ≠ some .lParen)
    (hclosed : offset + 1 < s.closed) :
    controlStatementStart s.kinds s.delimiters offset s.closed = some (offset + 1) := by
  have hnot : ¬ (s.kinds[offset]?.any hasHeader = true ∧ s.kinds[offset + 1]? = some .lParen) := by
    rintro ⟨hheader, hparen⟩
    rw [hkind, Option.any_some] at hheader
    obtain hkeyword | hkeyword := hkeyword
    · rw [hheader] at hkeyword
      cases hkeyword
    · exact hkeyword hparen
  simp only [controlStatementStart, if_neg hnot, Option.bind_eq_bind, Option.bind_some,
    if_pos hclosed]

theorem Placed.head?_eq (h : Placed s offset tokens) (hne : tokens ≠ []) :
    s.kinds[offset]? = (kindsOf tokens).head? := by
  cases tokens with
  | nil => exact absurd rfl hne
  | cons token tokens => exact h.head.1

end Placed

/-! ## Tokens in the body of their function -/

/-- Tokens of a function, placed in its body before the rest of it. -/
structure InBody (s : Site) (offset : Nat) (tokens rest : List Token) : Prop where
  placed : Placed s offset (tokens ++ rest)
  lt : s.opened < offset
  eq : offset + (tokens ++ rest).length = s.closed

section InBody

variable {s : Site} {offset : Nat} {tokens first second rest gap : List Token} {token : Token}
  {keyword : Kind} {body : Stmt}

theorem InBody.le (h : InBody s offset tokens rest) :
    offset + tokens.length ≤ s.closed := by
  have heq := h.eq
  rw [List.length_append] at heq
  omega

theorem InBody.text (h : InBody s offset tokens rest) :
    Placed s offset tokens := h.placed.left

theorem InBody.left (h : InBody s offset (first ++ second) rest) :
    InBody s offset first (second ++ rest) := by
  obtain ⟨hplaced, hlt, heq⟩ := h
  rw [List.append_assoc] at hplaced heq
  exact ⟨hplaced, hlt, heq⟩

theorem InBody.right (h : InBody s offset (first ++ second) rest) :
    InBody s (offset + first.length) second rest := by
  obtain ⟨hplaced, hlt, heq⟩ := h
  rw [List.append_assoc] at hplaced heq
  refine ⟨hplaced.right, hlt.trans_le (Nat.le_add_right _ _), ?_⟩
  rw [List.length_append] at heq
  omega

theorem InBody.tail (h : InBody s offset (token :: first) rest) :
    InBody s (offset + 1) first rest :=
  @InBody.right _ _ [token] first rest h

theorem InBody.afterGap (h : InBody s offset (clause keyword gap tokens) rest) :
    InBody s (offset + 1 + gap.length) tokens rest :=
  h.tail.right

theorem mem_after {interval : Nat × Nat} (h : interval ∈ after s offset) :
    ∃ index, offset ≤ index ∧ index < s.closed ∧ intervalFor s index = some interval := by
  obtain ⟨index, hindex, hinterval⟩ := List.mem_filterMap.mp h
  obtain ⟨hle, hlt⟩ := List.mem_range'_1.mp hindex
  exact ⟨index, hle, by omega, hinterval⟩

theorem le_of_mem_after {interval : Nat × Nat}
    (h : interval ∈ after s offset) : offset ≤ interval.1 := by
  obtain ⟨index, hle, -, hinterval⟩ := mem_after h
  exact hle.trans (le_of_intervalFor hinterval)

/-- A search for the end of the tokens does not stop before it, and no interval that
    follows opens before it stops. -/
theorem InBody.search (h : InBody s offset tokens rest) (hends : Ends rest tokens) :
    offset + tokens.length
        ≤ unbracedStatementEnd s.kinds s.delimiters s.closed (s.closed - offset) offset + 1
      ∧ ∀ interval ∈ after s (offset + tokens.length),
        unbracedStatementEnd s.kinds s.delimiters s.closed (s.closed - offset) offset
          ≤ interval.1 := by
  have hbehind : Placed s (offset + tokens.length) rest := h.placed.right
  have heq := h.eq
  obtain ⟨⟨pre, post, hkinds, hoffset⟩, -⟩ := h.placed
  rw [kindsOf_append] at hkinds
  rw [List.length_append] at heq
  have hlength := length_kindsOf tokens
  obtain ⟨front, hfront, hpassed⟩ | ⟨hpassed, ahead, stop, rfl, hahead, hkeyword, hstop⟩ := hends
  · rw [hfront, List.length_append, List.length_singleton] at hlength
    have hend := @unbracedStatementEnd_eq s.kinds front pre (.semicolon :: (kindsOf rest ++ post))
      offset s.closed hpassed (by rw [hkinds, hfront]; simp) hoffset (by omega) fun _ => rfl
    rw [hend]
    refine ⟨by omega, fun interval hmem => ?_⟩
    have hle := le_of_mem_after hmem
    omega
  · rw [List.length_append] at heq
    have hend := @unbracedStatementEnd_eq s.kinds (kindsOf (tokens ++ ahead)) pre
      (kindsOf stop ++ post) offset s.closed (by rw [kindsOf_append]; exact hpassed.append hahead)
      (by rw [hkinds]; simp) hoffset (by simp; omega) fun hlt => by
        cases stop with
        | nil =>
          simp at hlt heq
          omega
        | cons token stop => exact congrArg some (hstop _ rfl)
    rw [hend, length_kindsOf, List.length_append]
    refine ⟨by omega, fun interval hmem => ?_⟩
    -- no interval opens in what the search passes over
    rw [after_eq (show _ + ahead.length ≤ s.closed by omega), hbehind.left.collected_eq_nil hkeyword,
      List.nil_append] at hmem
    have hle := le_of_mem_after hmem
    omega

/-- The interval of a body that is a block or is ended by a search: it opens at the brace
    or at the keyword. -/
theorem InBody.exists_nestingInterval (index : Nat) (h : InBody s offset body.tokens rest)
    (hfound : body.isBlock = true ∨ Ends rest body.tokens) :
    ∃ close, nestingInterval s.kinds s.delimiters index offset s.closed
        = some (if body.isBlock then offset else index, close)
      ∧ offset + body.tokens.length ≤ close + 1
      ∧ ∀ interval ∈ after s (offset + body.tokens.length),
        close ≤ interval.1 := by
  have hhead := h.text.head?_eq body.tokens_ne_nil
  cases hblock : body.isBlock with
  | true =>
    obtain ⟨stmts, rfl⟩ : ∃ stmts, body = .block stmts := by
      cases body <;> first | exact ⟨_, rfl⟩ | cases hblock
    have hopen : s.delimiters.braceOpen offset = some (offset + 1 + stmts.tokens.length) :=
      @Placed.openOf s offset .curly stmts.tokens stmts.balanced h.text
    have hlength : (Stmt.block stmts).tokens.length = stmts.tokens.length + 2 := by
      simp [Stmt.tokens, inBraces]
    have hbrace : s.kinds[offset]? = some .lCurly := hhead
    rw [nestingInterval, if_pos hbrace, hopen, if_pos rfl]
    refine ⟨_, rfl, by omega, fun interval hmem => ?_⟩
    have hle := le_of_mem_after hmem
    omega
  | false =>
    have hbrace : s.kinds[offset]? ≠ some .lCurly := by
      rw [hhead]
      exact Stmt.head?_ne_lCurly hblock
    rw [hblock] at hfound
    rw [nestingInterval, if_neg hbrace, if_neg Bool.false_ne_true]
    exact ⟨_, rfl, h.search (hfound.resolve_left Bool.false_ne_true)⟩

theorem Stmt.head?_own_of_block (h : body.isBlock = true) :
    body.tokens.head?.any Token.own = true := by
  cases body <;> first | rfl | cases h

theorem Stmt.hasOwn_of_head? (h : body.tokens.head?.any Token.own = true) :
    body.hasOwn = true := by
  obtain ⟨token, htoken, hown⟩ := (Option.any_eq_true _ _).mp h
  exact List.any_eq_true.mpr ⟨token, List.mem_of_head? htoken, hown⟩

theorem Stmt.noKeyword_of_hasOwn (h : body.hasOwn = false) : NoKeyword body.tokens := by
  intro token hmem hown
  rw [hasOwn, List.any_eq_true.mpr ⟨token, hmem, hown⟩] at h
  cases h

end InBody

/-! ## Clauses -/

/-- The intervals in a statement are as deep as its bodies; those in a block open after
    its brace. -/
structure Intervals (s : Site) (offset : Nat) (stmt : Stmt) : Prop where
  nested : Nests s offset stmt.tokens stmt.nest
  inside : stmt.isBlock = true →
    ∀ interval ∈ collected s offset stmt.tokens.length, offset < interval.1

section Clauses

variable {s : Site} {offset start close : Nat} {gap tokens first second rest : List Token}
  {token : Token} {keyword : Kind} {header : Header} {body : Stmt}

theorem nested_plain (h : Placed s offset tokens) (hkeyword : NoKeyword tokens) :
    Nests s offset tokens 0 := by
  rw [Nests, h.collected_eq_nil hkeyword]
  exact Nested.nil

/-- Two pieces of text in sequence. -/
theorem nested_append {m n : Nat} (h : InBody s offset (first ++ second) rest)
    (hfirst : Nests s offset first m)
    (hsecond : Nests s (offset + first.length) second n) :
    Nests s offset (first ++ second) (max m n) := by
  have hle := h.le
  rw [List.length_append, ← Nat.add_assoc] at hle
  rw [Nests, after_eq hle] at hfirst
  rw [Nests, List.length_append, collected_add, ← Nat.add_assoc]
  exact hfirst.append hsecond

/-- A token that opens no interval, before text without a control keyword. -/
theorem nested_quiet (h : Placed s offset (token :: tokens))
    (hinterval : intervalFor s offset = none) (hkeyword : NoKeyword tokens) :
    Nests s offset (token :: tokens) 0 := by
  have hplain : collected s (offset + 1) tokens.length = [] :=
    h.tail.collected_eq_nil hkeyword
  rw [Nests, List.length_cons, Nat.add_comm tokens.length 1, collected_add, collected_one,
    hinterval, hplain]
  exact Nested.nil

/-- A clause whose keyword has an interval around its body. -/
theorem nested_clause {nest : Nat} (h : InBody s offset (clause keyword gap tokens) rest)
    (hgap : NoKeyword gap)
    (hinterval : intervalFor s offset = some (start, close))
    (hstart : offset ≤ start ∧ start + 1 < offset + (clause keyword gap tokens).length)
    (hinside : ∀ interval ∈ collected s (offset + 1 + gap.length)
      tokens.length, start < interval.1)
    (hclose : offset + (clause keyword gap tokens).length ≤ close + 1)
    (hafter : ∀ interval ∈ after s
      (offset + (clause keyword gap tokens).length), close ≤ interval.1)
    (hbody : Nests s (offset + 1 + gap.length) tokens nest) :
    Nests s offset (clause keyword gap tokens) (nest + 1) := by
  have hlength : (clause keyword gap tokens).length = 1 + gap.length + tokens.length := by
    simp only [clause, List.length_cons, List.length_append]
    omega
  have hend : offset + 1 + gap.length + tokens.length
      = offset + (clause keyword gap tokens).length := by omega
  have hplain : collected s (offset + 1) gap.length = [] :=
    h.text.tail.left.collected_eq_nil hgap
  have hcollected : collected s offset (clause keyword gap tokens).length = (start, close)
        :: collected s (offset + 1 + gap.length) tokens.length := by
    rw [hlength, collected_add, collected_add, collected_one, hinterval, hplain, ← Nat.add_assoc]
    rfl
  rw [Nests, hend] at hbody
  rw [Nests, hcollected]
  exact hbody.body hinside hstart.1 hstart.2 hend hclose hafter

theorem InBody.interval (h : InBody s offset (clause keyword gap tokens) rest)
    {interval : Nat × Nat} (hkeyword : isNestingKeyword keyword = true)
    (helse : keyword = .else_ → s.kinds[offset + 1]? ≠ some .if_)
    (hstart : controlStatementStart s.kinds s.delimiters offset s.closed = some start)
    (hown : s.Owned start)
    (hinterval : nestingInterval s.kinds s.delimiters offset start s.closed = some interval) :
    intervalFor s offset = some interval := by
  obtain ⟨function, hfunction, hbody⟩ := s.function
  obtain ⟨hkind, howner⟩ := h.text.head
  have hlength : 0 < (clause keyword gap tokens).length := Nat.succ_pos _
  have hlt := h.lt
  have hle := h.le
  have hinside : inFunctionBody function.body offset = true := by
    simp only [hbody, inFunctionBody, Option.any_some, Bool.and_eq_true, decide_eq_true_eq]
    omega
  have hopens : opensInterval s.kinds function offset keyword = true := by
    simp only [opensInterval, hinside, hkeyword, Bool.true_and, Bool.not_eq_true']
    by_cases heq : keyword = .else_
    · simp [helse heq]
    · simp [heq]
  rw [intervalFor_keyword hkind (howner.mpr rfl) hfunction hbody hopens hstart hown, hinterval]

/-- A keyword whose body starts with a token of another function has no interval. -/
theorem intervalFor_eq_none
    (hstart : ∀ found, controlStatementStart s.kinds s.delimiters offset s.closed = some found →
      ¬ s.Owned found) :
    intervalFor s offset = none := by
  cases hinterval : intervalFor s offset with
  | none => rfl
  | some interval =>
    obtain ⟨-, _, function, found, -, hfunction, -, hfound, howner, -⟩ :=
      intervalFor_eq_some hinterval
    obtain ⟨function', hfunction', hbody⟩ := s.function
    cases hfunction.symm.trans hfunction'
    rw [hbody] at hfound
    exact absurd howner (hstart found hfound)

/-- A clause whose body is found. -/
theorem nested_found (h : InBody s offset (clause keyword gap body.tokens) rest)
    (hkeyword : isNestingKeyword keyword = true) (hgap : NoKeyword gap)
    (helse : keyword = .else_ → gap = [] ∧ body.isIf = false)
    (hstart : controlStatementStart s.kinds s.delimiters offset s.closed
      = some (offset + 1 + gap.length)) (hfound : body.Found rest)
    (hbody : Intervals s (offset + 1 + gap.length) body) :
    Nests s offset (clause keyword gap body.tokens) (bodyNest body.hasOwn body.nest) := by
  have hplaced := h.afterGap.text
  have hpositive := List.length_pos_of_ne_nil body.tokens_ne_nil
  have hlength : (clause keyword gap body.tokens).length = 1 + gap.length + body.tokens.length := by
    simp only [clause, List.length_cons, List.length_append]
    omega
  by_cases hown : body.tokens.head?.any Token.own = true
  · have hhas := Stmt.hasOwn_of_head? hown
    -- A body that starts a statement ends where the search ends it.
    have hshape : body.isBlock = true ∨ Ends rest body.tokens := by
      obtain hblock | ⟨-, hends⟩ | hnone := hfound
      · exact .inl hblock
      · exact .inr hends
      · rw [hhas] at hnone
        cases hnone
    have howner : s.Owned (offset + 1 + gap.length) := by
      obtain ⟨token, htoken, hown⟩ := (Option.any_eq_true _ _).mp hown
      obtain ⟨more, htokens⟩ := List.head?_eq_some_iff.mp htoken
      rw [htokens] at hplaced
      exact hplaced.head.2.mpr hown
    obtain ⟨close, hinterval, hclose, hafter⟩ :=
      h.afterGap.exists_nestingInterval offset hshape
    have hfor := h.interval hkeyword (fun heq => by
      obtain ⟨rfl, hif⟩ := helse heq
      exact (h.afterGap.text.head?_eq body.tokens_ne_nil).trans_ne (Stmt.head?_ne_if hown hif))
      hstart howner hinterval
    have hend : offset + 1 + gap.length + body.tokens.length
        = offset + (clause keyword gap body.tokens).length := by omega
    rw [hend] at hclose hafter
    rw [hhas, bodyNest, if_pos rfl]
    refine nested_clause h hgap hfor ?_ (fun interval hmem => ?_) hclose hafter hbody.nested
    · split_ifs with hblock
      · have htwo : 2 ≤ body.tokens.length := by
          cases body <;> first | simp [Stmt.tokens, inBraces]; done | cases hblock
        omega
      · omega
    · split_ifs with hblock
      · exact hbody.inside hblock interval hmem
      · have hwithin := hbody.nested.within interval hmem
        omega
  · -- No statement starts here, so no interval does.
    have hnone : body.hasOwn = false := by
      obtain hblock | ⟨hhead, -⟩ | hnone := hfound
      · exact absurd (Stmt.head?_own_of_block hblock) hown
      · exact absurd hhead hown
      · exact hnone
    have hfor := intervalFor_eq_none fun found hfound howner => by
      rw [hstart] at hfound
      cases hfound
      cases htokens : body.tokens with
      | nil => exact body.tokens_ne_nil htokens
      | cons token more =>
        rw [htokens] at hplaced hown
        exact hown (hplaced.head.2.mp howner)
    rw [hnone]
    refine nested_quiet h.text hfor fun token hmem => ?_
    obtain hmem | hmem := List.mem_append.mp hmem
    · exact hgap token hmem
    · exact Stmt.noKeyword_of_hasOwn hnone token hmem

theorem noKeyword_text (header : Header) : NoKeyword header.text := by
  intro token hmem hown
  obtain _ | ⟨_, hmem⟩ := hmem
  · rfl
  · obtain hmem | hmem := List.mem_append.mp hmem
    · exact header.noKeyword token hmem hown
    · rw [List.mem_singleton.mp hmem]
      rfl

theorem isNestingKeyword_of_hasHeader (h : hasHeader keyword = true) :
    isNestingKeyword keyword = true ∧ keyword ≠ .else_ := by
  cases keyword <;> first | exact ⟨rfl, by decide⟩ | cases h

/-- A clause with a header. -/
theorem nested_headed (h : InBody s offset (clause keyword header.text body.tokens) rest)
    (hheader : hasHeader keyword = true) (hfound : body.Found rest)
    (hbody : Intervals s (offset + 1 + header.text.length) body) :
    Nests s offset (clause keyword header.text body.tokens) (bodyNest body.hasOwn body.nest) := by
  obtain ⟨hkeyword, hne⟩ := isNestingKeyword_of_hasHeader hheader
  have hle := h.afterGap.le
  have hpositive := List.length_pos_of_ne_nil body.tokens_ne_nil
  have hstart := controlStatementStart_header h.text.head.1 hheader
    h.text.tail.left
  rw [if_pos (by omega)] at hstart
  exact nested_found h hkeyword (noKeyword_text header) (fun heq => absurd heq hne) hstart hfound
    hbody

/-- A clause without a header. -/
theorem nested_bare (h : InBody s offset (clause keyword [] body.tokens) rest)
    (hkeyword : isNestingKeyword keyword = true)
    (hheader : hasHeader keyword = false ∨ body.isBlock = true)
    (helse : keyword = .else_ → body.isIf = false) (hfound : body.Found rest)
    (hbody : Intervals s (offset + 1) body) :
    Nests s offset (clause keyword [] body.tokens) (bodyNest body.hasOwn body.nest) := by
  have hle : offset + 1 + body.tokens.length ≤ s.closed := h.afterGap.le
  have hpositive := List.length_pos_of_ne_nil body.tokens_ne_nil
  have hhead : s.kinds[offset + 1]? = (kindsOf body.tokens).head? :=
    h.afterGap.text.head?_eq body.tokens_ne_nil
  have hstart := controlStatementStart_bare h.text.head.1 (by
    refine hheader.imp id fun hblock => ?_
    rw [hhead]
    cases body <;> first | exact fun heq => by cases heq | cases hblock) (by omega)
  exact nested_found h hkeyword (fun token hmem => absurd hmem List.not_mem_nil)
    (fun heq => ⟨rfl, helse heq⟩) hstart hfound hbody

/-- The `while` of a do-while without a semicolon. -/
theorem nested_tail (h : InBody s offset (clause .while_ header.text []) rest)
    (hleft : body.Left rest false) :
    ∃ nest, Nests s offset (clause .while_ header.text []) nest
      ∧ nest ≤ bodyNest body.hasOwn body.nest := by
  have hstart := controlStatementStart_header h.text.head.1 rfl
    h.text.tail.left
  have heq := h.afterGap.eq
  rw [List.nil_append] at heq
  by_cases hown : rest.head?.any Token.own = true
  · obtain hnone | ⟨hhas, hbrace, hahead⟩ := hleft
    · rw [hown] at hnone
      cases hnone
    · obtain ⟨token, htoken, hown⟩ := (Option.any_eq_true _ _).mp hown
      obtain ⟨more, rfl⟩ := List.head?_eq_some_iff.mp htoken
      have hbehind : Placed s (offset + 1 + header.text.length) (token :: more) :=
        h.afterGap.placed
      obtain ⟨hclose, hafter⟩ := h.afterGap.search (.inr ⟨.nil, hahead⟩)
      rw [List.length_cons] at heq
      rw [if_pos (by omega)] at hstart
      have hinterval : nestingInterval s.kinds s.delimiters offset
          (offset + 1 + header.text.length) s.closed = some (offset, unbracedStatementEnd s.kinds
            s.delimiters s.closed (s.closed - (offset + 1 + header.text.length))
            (offset + 1 + header.text.length)) :=
        if_neg (by rw [hbehind.head.1]; exact hbrace)
      have hend : offset + (clause .while_ header.text []).length
          = offset + 1 + header.text.length := by
        simp only [clause, List.length_cons, List.append_nil]
        omega
      have htwo : 2 ≤ header.text.length := by simp [Header.text]
      rw [List.length_nil, Nat.add_zero] at hclose hafter
      refine ⟨1, nested_clause h (noKeyword_text header) (h.interval rfl (fun heq => by cases heq)
        hstart (hbehind.head.2.mpr hown) hinterval) (by omega) (fun interval hmem => by cases hmem)
        (by rw [hend]; exact hclose) (by rw [hend]; exact hafter) Nested.nil, ?_⟩
      rw [hhas, bodyNest, if_pos rfl]
      exact Nat.le_add_left 1 _
  · refine ⟨0, nested_quiet h.text (intervalFor_eq_none fun found hfound howner => ?_) ?_,
      Nat.zero_le _⟩
    · rw [hstart] at hfound
      split_ifs at hfound
      cases hfound
      cases rest with
      | nil =>
        rw [List.length_nil] at heq
        omega
      | cons token more =>
        have hbehind : Placed s (offset + 1 + header.text.length) (token :: more) :=
          h.afterGap.placed
        exact hown (hbehind.head.2.mp howner)
    · rw [List.append_nil]
      exact noKeyword_text header

end Clauses

/-! ## Every statement -/

section Statements

variable {s : Site} {offset : Nat} {tokens rest : List Token} {body : Stmts} {stmt : Stmt}

theorem nested_brace (bracket : Token) (h : Placed s offset [bracket])
    (hbracket : isNestingKeyword bracket.kind = false) :
    Nests s offset [bracket] 0 :=
  nested_plain h fun token hmem _ => by
    rw [List.mem_singleton.mp hmem]
    exact hbracket

/-- Statements in braces. -/
theorem intervals_block (h : InBody s offset (inBraces body.tokens) rest)
    (hbody : Nests s (offset + 1) body.tokens body.nest) :
    Intervals s offset (.block body) := by
  have hfirst : InBody s offset ([own .lCurly] ++ (body.tokens ++ [own .rCurly])) rest := h
  have hinner := nested_append hfirst.right hbody
    (nested_brace (own .rCurly) hfirst.right.right.text rfl)
  rw [Nat.max_zero] at hinner
  have hopen : collected s offset 1 = [] :=
    hfirst.left.text.collected_eq_nil fun token hmem _ => by
      rw [List.mem_singleton.mp hmem]
      rfl
  refine ⟨?_, fun _ interval hmem => ?_⟩
  · have hall := nested_append hfirst (nested_brace (own .lCurly) hfirst.left.text rfl) hinner
    rwa [Nat.zero_max] at hall
  · have hlength : (Stmt.block body).tokens.length = 1 + (body.tokens ++ [own .rCurly]).length := by
      rw [Nat.add_comm]
      rfl
    rw [hlength, collected_add, hopen, List.nil_append] at hmem
    exact (hinner.within interval hmem).1

/-- The semicolon that ends a do-while is like an empty body of its `while`. -/
def emptyStatement : Stmt :=
  .terminated ⟨[], .nil, fun _ h => absurd h List.not_mem_nil, fun h => by cases h⟩

theorem found_emptyStatement : emptyStatement.Found rest :=
  .inr (.inl ⟨rfl, .inl ⟨[], rfl, .nil⟩⟩)

theorem Stmt.found_block : (Stmt.block body).Found rest := .inl rfl

/-- A clause whose body is in braces. -/
theorem nested_braced {keyword : Kind} {gap : List Token} (h : InBody s offset
      (clause keyword gap (inBraces body.tokens)) rest)
    (hclause : Intervals s (offset + 1 + gap.length) (.block body) →
      Nests s offset (clause keyword gap (inBraces body.tokens)) (body.nest + 1))
    (hbody : ∀ offset, InBody s offset body.tokens (own .rCurly :: rest) →
      Nests s offset body.tokens body.nest) :
    Nests s offset (clause keyword gap (inBraces body.tokens)) (body.nest + 1) :=
  hclause (intervals_block h.afterGap (hbody _ h.afterGap.tail.left))

theorem intervals_of_nested {stmt : Stmt} (hblock : stmt.isBlock = false)
    (h : Nests s offset stmt.tokens stmt.nest) :
    Intervals s offset stmt :=
  ⟨h, fun hblock' => by rw [hblock] at hblock'; cases hblock'⟩

/-- A clause of a `catch`, with or without a parameter. -/
theorem nested_catch {parameter : Option Header} (h : InBody s offset
      (clause .catch_ (parameterText parameter) (inBraces body.tokens)) rest)
    (hbody : Intervals s (offset + 1 + (parameterText parameter).length) (.block body)) :
    Nests s offset
      (clause .catch_ (parameterText parameter) (inBraces body.tokens)) (body.nest + 1) := by
  cases parameter with
  | none =>
    exact @nested_bare s offset rest .catch_ (.block body) h rfl
      (.inr rfl) (fun heq => by cases heq) Stmt.found_block hbody
  | some header =>
    exact @nested_headed s offset rest .catch_ header (.block body) h rfl Stmt.found_block hbody

/-- The `else` before an `if` opens no interval. -/
theorem nested_chain (h : InBody s offset (clause .else_ [] stmt.tokens) rest)
    (hif : stmt.isIf = true)
    (hbody : Intervals s (offset + 1) stmt) :
    Nests s offset (clause .else_ [] stmt.tokens) stmt.nest := by
  have hnext : s.kinds[offset + 1]? = some .if_ := by
    refine (h.text.tail.head?_eq stmt.tokens_ne_nil).trans ?_
    cases stmt <;> first | rfl | cases hif
  have hnone : intervalFor s offset = none := by
    cases hinterval : intervalFor s offset with
    | none => rfl
    | some interval =>
      obtain ⟨-, kind, function, _, hkind, -, hopens, -⟩ := intervalFor_eq_some hinterval
      rw [h.text.head.1] at hkind
      obtain rfl := Option.some.inj hkind
      simp [opensInterval, hnext, own] at hopens
  have hfirst : InBody s offset ([own .else_] ++ stmt.tokens) rest := h
  have helse : Nests s offset [own .else_] 0 :=
    nested_quiet hfirst.left.text hnone fun token hmem => absurd hmem List.not_mem_nil
  have hchain := nested_append hfirst helse hbody.nested
  rwa [Nat.zero_max] at hchain

/-- A search that starts before the tokens ends as one that starts with them. -/
theorem Ends.prepend {before : List Token} (h : Ends rest tokens)
    (hbefore : Passed (kindsOf before)) : Ends rest (before ++ tokens) := by
  rw [Ends, kindsOf_append]
  obtain ⟨front, hfront, hfree⟩ | ⟨hfree, hahead⟩ := h
  · exact .inl ⟨kindsOf before ++ front, by rw [hfront, List.append_assoc], hbefore.append hfree⟩
  · exact .inr ⟨hbefore.append hfree, hahead⟩

/-- An awaited `for`, whose body is searched from its header on. -/
theorem nested_await {header : Header} (h : InBody s offset
      (clause .for_ (own awaitKind :: header.text) stmt.tokens) rest)
    (hown : stmt.hasOwn = true) (hends : Ends rest stmt.tokens)
    (hbody : Intervals s (offset + 1 + (own awaitKind :: header.text).length) stmt) :
    Nests s offset (clause .for_ (own awaitKind :: header.text) stmt.tokens)
      (bodyNest stmt.hasOwn stmt.nest) := by
  have hfree : Passed (kindsOf (own awaitKind :: header.text)) := by
    rw [kindsOf_cons, Header.text, kindsOf_cons, kindsOf_append]
    exact .token (by rintro (_ | _ | _) <;> decide) (by decide) (.group .paren header.balanced .nil)
  obtain ⟨hclose, hafter⟩ := h.tail.search (hends.prepend hfree)
  have hawait := h.text.tail.head
  have hle := h.le
  have hpositive := List.length_pos_of_ne_nil stmt.tokens_ne_nil
  have hend : offset + 1 + (own awaitKind :: header.text ++ stmt.tokens).length
      = offset + (clause .for_ (own awaitKind :: header.text) stmt.tokens).length := by
    rw [clause, List.length_cons]
    omega
  have hlong : 2 ≤ (own awaitKind :: header.text ++ stmt.tokens).length := by
    simp only [List.cons_append, List.length_cons, List.length_append]
    omega
  rw [hend] at hclose hafter
  have hstart := controlStatementStart_bare h.text.head.1
    (.inr (by rw [hawait.1]; decide)) (by omega)
  have hinterval : nestingInterval s.kinds s.delimiters offset (offset + 1) s.closed
      = some (offset, unbracedStatementEnd s.kinds s.delimiters s.closed
        (s.closed - (offset + 1)) (offset + 1)) := if_neg (by rw [hawait.1]; decide)
  rw [hown, bodyNest, if_pos rfl]
  refine nested_clause h (fun token hmem hown => ?_) (h.interval rfl (fun heq => by cases heq)
    hstart (hawait.2.mpr rfl) hinterval) (by omega) (fun interval hmem => ?_) hclose hafter
    hbody.nested
  · obtain _ | ⟨_, hmem⟩ := hmem
    · rfl
    · exact noKeyword_text header token hmem hown
  · have hwithin := hbody.nested.within interval hmem
    omega

end Statements

section Induction

variable {s : Site}

mutual

/-- The intervals of a sound statement are as deep as its control bodies. -/
theorem Stmt.intervals : ∀ (stmt : Stmt) (offset : Nat) (rest : List Token),
    InBody s offset stmt.tokens rest → stmt.Sound rest →
    Intervals s offset stmt
  | .expression expression _, offset, _, h, _ =>
    intervals_of_nested rfl (nested_plain h.text expression.noKeyword)
  | .terminated expression, offset, _, h, _ => by
    refine intervals_of_nested rfl (nested_plain h.text fun token hmem hown => ?_)
    obtain hmem | hmem := List.mem_append.mp hmem
    · exact expression.noKeyword token hmem hown
    · rw [List.mem_singleton.mp hmem]
      rfl
  | .block body, offset, _, h, hsound =>
    intervals_block h (body.intervals (offset + 1) _ h.tail.left hsound)
  | .ifThen condition consequent, offset, _, h, ⟨hfound, hsound⟩ =>
    intervals_of_nested rfl
      (nested_headed h rfl hfound (consequent.intervals _ _ h.afterGap hsound))
  | .ifElse condition consequent alternate, offset, _, h,
      ⟨hfound, hsound, halternate, hsound'⟩ => by
    refine intervals_of_nested rfl (nested_append h ?_ ?_)
    · exact nested_headed h.left rfl hfound (consequent.intervals _ _ h.left.afterGap hsound)
    · have hrest := alternate.intervals _ _ h.right.afterGap hsound'
      cases hif : alternate.isIf with
      | true => exact nested_chain h.right hif hrest
      | false =>
        rw [hif] at halternate
        have hbody := halternate.resolve_left Bool.false_ne_true
        exact nested_bare h.right rfl (.inl rfl) (fun _ => hif) hbody hrest
  | .loop keyword header body, offset, _, h, ⟨hfound, hsound⟩ =>
    intervals_of_nested rfl (nested_headed h (by cases keyword <;> rfl) hfound
      (body.intervals _ _ h.afterGap hsound))
  | .forAwait header body, offset, _, h, ⟨⟨hown, hends⟩, hsound⟩ =>
    intervals_of_nested rfl (nested_await h hown hends (body.intervals _ _ h.afterGap hsound))
  | .doWhile body condition semicolon, offset, rest, h, ⟨hfound, hsound, hleft⟩ => by
    have hbody : Nests s offset (clause .do_ [] body.tokens) (bodyNest body.hasOwn body.nest) :=
      nested_bare h.left rfl (.inl rfl) (fun heq => by cases heq) hfound
        (body.intervals _ _ h.left.afterGap hsound)
    -- The search takes the tail of a `do` for a loop: it must find no deeper body.
    have htail : ∃ nest, Nests s (offset + (clause .do_ [] body.tokens).length)
        (clause .while_ condition.text (terminator semicolon)) nest
        ∧ nest ≤ bodyNest body.hasOwn body.nest := by
      cases semicolon with
      | false => exact nested_tail h.right hleft
      | true =>
        have hempty : Intervals s _ emptyStatement :=
          intervals_of_nested rfl (nested_brace (own .semicolon) h.right.afterGap.text rfl)
        refine ⟨1, nested_headed h.right rfl found_emptyStatement hempty, ?_⟩
        rw [show body.hasOwn = true from hleft, bodyNest, if_pos rfl]
        exact Nat.le_add_left 1 _
    obtain ⟨nest, hnests, hle⟩ := htail
    refine intervals_of_nested rfl ?_
    have hall := nested_append h hbody hnests
    rwa [max_eq_left hle] at hall
  | .switch _ cases, offset, _, h, hsound =>
    intervals_of_nested rfl (nested_braced h (nested_headed h rfl Stmt.found_block)
      fun offset hcases => cases.intervals offset _ hcases hsound)
  | .tryCatch body parameter handler, offset, _, h, ⟨hbody, hhandler⟩ => by
    refine intervals_of_nested rfl (nested_append h ?_ ?_)
    · exact nested_braced h.left
        (nested_bare h.left rfl (.inl rfl) (fun heq => by cases heq) Stmt.found_block)
        fun offset hplaced => body.intervals offset _ hplaced hbody
    · exact nested_braced h.right (nested_catch h.right)
        fun offset hplaced => handler.intervals offset _ hplaced hhandler
  | .tryFinally body finalizer, offset, _, h, ⟨hbody, hfinalizer⟩ => by
    refine intervals_of_nested rfl (nested_append h ?_ ?_)
    · exact nested_braced h.left
        (nested_bare h.left rfl (.inl rfl) (fun heq => by cases heq) Stmt.found_block)
        fun offset hplaced => body.intervals offset _ hplaced hbody
    · exact nested_braced h.right
        (nested_bare h.right rfl (.inl rfl) (fun heq => by cases heq) Stmt.found_block)
        fun offset hplaced => finalizer.intervals offset _ hplaced hfinalizer
  | .tryCatchFinally body parameter handler finalizer, offset, _, h,
      ⟨hbody, hhandler, hfinalizer⟩ => by
    refine intervals_of_nested rfl (nested_append h (nested_append h.left ?_ ?_) ?_)
    · exact nested_braced h.left.left
        (nested_bare h.left.left rfl (.inl rfl) (fun heq => by cases heq) Stmt.found_block)
        fun offset hplaced => body.intervals offset _ hplaced hbody
    · exact nested_braced h.left.right (nested_catch h.left.right)
        fun offset hplaced => handler.intervals offset _ hplaced hhandler
    · exact nested_braced h.right
        (nested_bare h.right rfl (.inl rfl) (fun heq => by cases heq) Stmt.found_block)
        fun offset hplaced => finalizer.intervals offset _ hplaced hfinalizer

theorem Stmts.intervals : ∀ (stmts : Stmts) (offset : Nat) (rest : List Token),
    InBody s offset stmts.tokens rest → stmts.Sound rest →
    Nests s offset stmts.tokens stmts.nest
  | .nil, offset, _, _, _ => Nested.nil
  | .cons stmt more, offset, _, h, ⟨hstmt, hmore⟩ =>
    nested_append h (stmt.intervals offset _ h.left hstmt).nested (more.intervals _ _ h.right hmore)
  | .label expression more, offset, _, h, hsound => by
    rw [Stmts.nest, ← Nat.zero_max more.nest]
    exact nested_append h (nested_plain h.left.text expression.noKeyword)
      (more.intervals _ _ h.right hsound)

end

end Induction

/-! ## The metric of a function -/

/-- The statements a function is written with: their tokens stand between the delimiters
    of its body, and those that are marked as its own lie in no nested function. -/
structure Written (kinds : List Kind) (functions : List FunctionFact) (k opened : Nat)
    (body : Stmts) : Prop where
  function : ∃ function, functions[k]? = some function
    ∧ function.body = some (opened, opened + 1 + body.tokens.length)
  text : ∃ pre post, kinds = pre ++ kindsOf body.tokens ++ post ∧ pre.length = opened + 1
  owned : ∀ i token, body.tokens[i]? = some token →
    (Owns functions k (opened + 1 + i) ↔ token.own = true)

section Function

variable {kinds : List Kind} {functions : List FunctionFact} {k opened : Nat} {body : Stmts}

/-- The function in its text. -/
def Written.site (h : Written kinds functions k opened body) : Site :=
  ⟨kinds, functions, functionOwners functions kinds.length, k, opened,
    opened + 1 + body.tokens.length, h.function⟩

theorem Written.inBody (h : Written kinds functions k opened body) (hlaminar : Laminar functions) :
    InBody h.site (opened + 1) body.tokens [] := by
  refine ⟨?_, Nat.lt_succ_self _, by rw [List.append_nil]; rfl⟩
  rw [List.append_nil]
  refine ⟨h.text, fun i token hget => ?_⟩
  obtain ⟨pre, post, hkinds, hpre⟩ := h.text
  obtain ⟨hlt, -⟩ := List.getElem?_eq_some_iff.mp hget
  have hindex : opened + 1 + i < kinds.length := by
    rw [hkinds, List.length_append, List.length_append, length_kindsOf, hpre]
    omega
  exact (functionOwners_eq_some_iff hlaminar hindex).trans (h.owned i token hget)

/-- Every interval of a function opens in its body. -/
theorem Written.collected_eq (h : Written kinds functions k opened body) :
    collected h.site 0 kinds.length = collected h.site (opened + 1) body.tokens.length := by
  obtain ⟨pre, post, hkinds, hpre⟩ := h.text
  have hlength : kinds.length = (opened + 1) + (body.tokens.length + post.length) := by
    rw [hkinds, List.length_append, List.length_append, length_kindsOf, hpre]
    omega
  have houtside : ∀ index, index ≤ opened ∨ opened + 1 + body.tokens.length ≤ index →
      intervalFor h.site index = none := by
    intro index hindex
    cases hinterval : intervalFor h.site index with
    | none => rfl
    | some interval =>
      obtain ⟨-, kind, function, _, -, hfunction, hopens, -⟩ := intervalFor_eq_some hinterval
      obtain ⟨function', hfunction', hbody⟩ := h.function
      cases hfunction.symm.trans hfunction'
      simp only [opensInterval, inFunctionBody, hbody, Option.any_some, Bool.and_eq_true,
        decide_eq_true_eq] at hopens
      omega
  have hbefore : collected h.site 0 (opened + 1) = [] :=
    collected_eq_nil fun index _ hlt => houtside index (.inl (by omega))
  have hafter : collected h.site (opened + 1 + body.tokens.length) post.length = [] :=
    collected_eq_nil fun index hle _ => houtside index (.inr hle)
  rw [hlength, collected_add, hbefore, Nat.zero_add, List.nil_append, collected_add, hafter,
    List.append_nil]

/-- The nesting of a function is the greatest number of its control bodies around one of
    its tokens, when every body is found; so the nesting of two sequences of statements
    is the greater one of theirs. -/
theorem function_nesting_eq_depth (hlaminar : Laminar functions)
    (h : Written kinds functions k opened body) (hlength : kinds.length ≤ u32Max)
    (hsound : body.Sound []) :
    (functionNestings kinds (Delimiters.new kinds) functions
        (functionOwners functions kinds.length))[k]? = some body.depth
      ∧ ∀ first second : Stmts, body = first.append second →
        body.depth = max first.depth second.depth := by
  constructor
  · obtain ⟨pre, post, hkinds, -⟩ := h.text
    have hnested := body.intervals (opened + 1) [] (h.inBody hlaminar) hsound
    have hle : body.nest ≤ u32Max := by
      have hnest := body.nest_le
      rw [hkinds, List.length_append, List.length_append, length_kindsOf] at hlength
      omega
    have hintervals : (nestingIntervals kinds (Delimiters.new kinds) functions
        (functionOwners functions kinds.length))[k]?
        = some (collected h.site (opened + 1) body.tokens.length) :=
      (@getElem?_nestingIntervals h.site).trans (congrArg some h.collected_eq)
    rw [functionNestings, List.getElem?_map, hintervals, Option.map_some,
      hnested.maximumNesting hle, body.depth_eq_nest]
  · rintro first second rfl
    exact Stmts.depth_append first second

end Function

/-! ## A loop in an else, and two conditions without a semicolon between them -/

section Samples

def word (code : Nat) : Token := own (.other code)

/-- A call without arguments. -/
def call (code : Nat) : Expression where
  tokens := [word code, own .lParen, own .rParen]
  semicolonFree := .token rfl (fun h => by cases h) (.group .paren .nil .nil)
  noKeyword := by simp [NoKeyword, word, own, isNestingKeyword]
  noBrace := by simp [word, own]

def headerOf (code : Nat) : Header where
  tokens := [word code]
  balanced := .token rfl .nil
  noKeyword := by simp [NoKeyword, word, own, isNestingKeyword]

/-- A function without parameters around the tokens of a body. -/
def functionText (body : Stmts) : List Kind :=
  [.other 1, .other 2, .lParen, .rParen, .lCurly] ++ kindsOf body.tokens ++ [.rCurly]

def functionFact (body : Stmts) : FunctionFact :=
  ⟨0, 5 + body.tokens.length, some (4, 5 + body.tokens.length)⟩

theorem laminar_single (function : FunctionFact) (h : function.start ≤ function.finish) :
    Laminar [function] where
  start_le {i _} hget := by
    cases i with
    | zero => cases hget; exact h
    | succ i => cases hget
  nested {i j _ _} hne hi hj := by
    cases i with
    | zero =>
      cases j with
      | zero => exact absurd rfl hne
      | succ j => cases hj
    | succ i => cases hi

theorem written_single {body : Stmts} (hown : ∀ token ∈ body.tokens, token.own = true) :
    Written (functionText body) [functionFact body] 0 4 body where
  function := ⟨functionFact body, rfl, rfl⟩
  text := ⟨[.other 1, .other 2, .lParen, .rParen, .lCurly], [.rCurly], rfl, rfl⟩
  owned i token hget := by
    refine iff_of_true ?_ (hown token (List.mem_of_getElem? hget))
    obtain ⟨hlt, -⟩ := List.getElem?_eq_some_iff.mp hget
    refine ⟨functionFact body, rfl, ⟨Nat.zero_le _, ?_⟩, fun j nested hne hnested => ?_⟩
    · simp only [functionFact]
      omega
    · cases j with
      | zero => exact absurd rfl hne
      | succ j => cases hnested

/-- A call in the consequent, and in the alternate a loop whose body ends with it. -/
def loopInElse : Stmts :=
  .cons (.ifElse (headerOf 3) (.terminated (call 4))
    (.block (.cons (.loop .while_ (headerOf 5) (.expression (call 6) (by simp [call]))) .nil))) .nil

theorem function_nesting_eq_depth_loopInElse :
    loopInElse.depth = 2
      ∧ (functionNestings (functionText loopInElse) (Delimiters.new (functionText loopInElse))
          [functionFact loopInElse]
          (functionOwners [functionFact loopInElse] (functionText loopInElse).length))[0]?
        = some loopInElse.depth := by
  have hfree (code : Nat) : Passed (kindsOf (call code).tokens) :=
    (call code).semicolonFree.passed
  have hahead : NoKeywordAhead [own .rCurly] :=
    ⟨[own .rCurly], [], rfl, .token (by rintro (_ | _ | _) <;> decide) (by decide) .nil,
      by simp [NoKeyword, own, isNestingKeyword], fun _ h => by cases h⟩
  refine ⟨by decide, (function_nesting_eq_depth (laminar_single _ (Nat.zero_le _))
    (written_single (by decide)) (by decide) ?_).1⟩
  refine ⟨⟨.inr (.inl ⟨rfl, .inl ⟨_, ?_, hfree 4⟩⟩), trivial, .inr (.inl rfl), ⟨?_, trivial⟩,
    trivial⟩, trivial⟩
  · rw [Stmt.tokens, kindsOf_append]
    rfl
  · exact .inr (.inl ⟨rfl, .inr ⟨hfree 6, hahead⟩⟩)

/-- Two conditions in sequence, the first body of which ends at a line break. -/
def withoutSemicolon : Stmts :=
  .cons (.ifThen (headerOf 3) (.expression (call 4) (by decide)))
    (.cons (.ifThen (headerOf 5) (.terminated (call 6))) .nil)

theorem not_forall_function_nesting_eq_depth :
    ¬ ∀ (kinds : List Kind) (functions : List FunctionFact) (k opened : Nat) (body : Stmts),
      Laminar functions → Written kinds functions k opened body → kinds.length ≤ u32Max →
      (functionNestings kinds (Delimiters.new kinds) functions
        (functionOwners functions kinds.length))[k]? = some body.depth := by
  intro hall
  have hdepth := hall _ _ 0 4 withoutSemicolon
    (laminar_single (functionFact withoutSemicolon) (Nat.zero_le _))
    (written_single (by decide)) (by decide)
  have hmetric : (functionNestings (functionText withoutSemicolon)
      (Delimiters.new (functionText withoutSemicolon)) [functionFact withoutSemicolon]
      (functionOwners [functionFact withoutSemicolon] (functionText withoutSemicolon).length))[0]?
      = some 2 := by decide +kernel
  have hspec : withoutSemicolon.depth = 1 := by decide
  rw [hmetric, hspec] at hdepth
  cases hdepth

end Samples

end Opcore.NodeMetrics
