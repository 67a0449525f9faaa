/-
  Opcore.Analysis.Python.Depth

  What the guard says about the depth of the tree it lets through: every counter
  that stays within the limit bounds one kind of nesting, as long as no comma or
  uncounted operator stands inside a chain.
-/
import Opcore.Analysis.Python.Syntax

namespace Opcore.Python

variable {limit : Nat} {self next : PythonStructure}

/-! ## Expressions -/

theorem UnaryOp.isUnary_token (op : UnaryOp) : PythonStructure.isUnary op.token = true := by
  cases op <;> rfl

theorem UnaryOp.delimitersAfter_token (op : UnaryOp) (n : Nat) : delimitersAfter n op.token = n := by
  cases op <;> rfl

variable {token : TokenKind}

/-- A token in a line that is no bracket. -/
theorem observe_plain (hword : token.isWord = true)
    (hplain : delimitersAfter self.delimiters token = self.delimiters)
    (h : self.observe limit token = .ok next) : next.delimiters = self.delimiters :=
  (observed_of_observe hword h).delimiters.trans hplain

theorem delimitersAfter_of_isFiller (h : token.isFiller = true) (n : Nat) :
    token.isWord = true ∧ delimitersAfter n token = n := by
  revert h
  cases token <;> simp [TokenKind.isFiller, TokenKind.isWord, delimitersAfter]

variable {tokens : List TokenKind}

/-- Tokens of a line that are no brackets. -/
theorem observeTokens_filler (hfiller : ∀ token ∈ tokens, token.isFiller = true)
    (h : observeTokens limit self tokens = .ok next) : next.delimiters = self.delimiters := by
  induction tokens generalizing self with
  | nil =>
    cases h
    rfl
  | cons token tokens ih =>
    obtain ⟨htoken, hrest⟩ := List.forall_mem_cons.mp hfiller
    obtain ⟨mid, hmid, htokens⟩ := observeTokens_cons.mp h
    obtain ⟨hword, hplain⟩ := delimitersAfter_of_isFiller htoken self.delimiters
    exact (ih hrest htokens).trans (observe_plain hword hplain hmid)

theorem isFiller_of_mem_fillerTokens {fillers : List Filler} :
    ∀ token ∈ fillerTokens fillers, token.isFiller = true := by
  intro token hmem
  obtain ⟨filler, -, rfl⟩ := List.mem_map.mp hmem
  exact filler.filler

theorem BinaryOp.isFiller_of_mem_tokens (op : BinaryOp) :
    ∀ token ∈ op.tokens, token.isFiller = true := by
  cases op <;> decide

/-- What a pass over an expression has checked: its brackets and its runs of unary
    operators are within the limit, and its brackets are closed again. -/
structure Checked (limit : Nat) (before after : PythonStructure) (brackets runs : Nat) : Prop where
  delimiters : after.delimiters = before.delimiters
  brackets : before.delimiters + brackets ≤ limit
  runs : runs ≤ limit

variable {before mid after : PythonStructure}

/-- Two parts one after the other. -/
theorem Checked.both {brackets brackets' runs runs' : Nat}
    (h : Checked limit before mid brackets runs) (h' : Checked limit mid after brackets' runs') :
    Checked limit before after (max brackets brackets') (max runs runs') := by
  have hmid := h.delimiters
  have hbrackets := h.brackets
  have hbrackets' := h'.brackets
  exact ⟨h'.delimiters.trans hmid, by omega, max_le h.runs h'.runs⟩

/-- A pass over a part between two brackets. -/
theorem Checked.bracketed {before inside inside' after : PythonStructure} {brackets runs : Nat}
    {opening closing : TokenKind} (hopening : ∀ n, delimitersAfter n opening = n + 1)
    (hclosing : ∀ n, delimitersAfter n closing = n - 1)
    (hopen : Observed limit before opening inside) (h : Checked limit inside inside' brackets runs)
    (hclose : Observed limit inside' closing after) :
    Checked limit before after (brackets + 1) runs := by
  have hdelimiters := hopen.delimiters
  have hdelimiters' := hclose.delimiters
  rw [hopening] at hdelimiters
  rw [hclosing, h.delimiters] at hdelimiters'
  have hbrackets := h.brackets
  exact ⟨by omega, by omega, h.runs⟩

/-- A plain token before a part. -/
theorem Checked.after_plain {brackets runs : Nat}
    (hplain : mid.delimiters = before.delimiters) (h : Checked limit mid after brackets runs) :
    Checked limit before after brackets runs :=
  ⟨h.delimiters.trans hplain, hplain ▸ h.brackets, h.runs⟩

theorem Checked.before_plain {brackets runs : Nat}
    (h : Checked limit before mid brackets runs) (hplain : after.delimiters = mid.delimiters) :
    Checked limit before after brackets runs :=
  ⟨hplain.trans h.delimiters, h.brackets, h.runs⟩

mutual

theorem Expr.checked : ∀ (expr : Expr) (self next : PythonStructure),
    observeTokens limit self expr.tokens = .ok next →
    Checked limit self next expr.brackets expr.runs
      ∧ (expr.lead = 0 ∨ self.unary + expr.lead ≤ limit)
  | .leaf, self, next, h => by
    obtain ⟨mid, hmid, hnil⟩ := observeTokens_cons.mp h
    cases hnil
    have hobserved := observed_of_observe rfl hmid
    have hdelimiters : next.delimiters = self.delimiters := hobserved.delimiters
    have hlimit := hobserved.delimiters_le
    refine ⟨⟨hdelimiters, ?_, Nat.zero_le _⟩, .inl rfl⟩
    simp only [Expr.brackets]
    omega
  | .unary op operand, self, next, h => by
    obtain ⟨mid, hmid, hrest⟩ := observeTokens_cons.mp h
    have hword : op.token.isWord = true := by cases op <;> rfl
    have hobserved := observed_of_observe hword hmid
    have hunary := hobserved.unary
    rw [op.isUnary_token, if_pos rfl] at hunary
    have hunary_le := hobserved.unary_le
    obtain ⟨hchecked, hlead⟩ := operand.checked mid next hrest
    have hrun : self.unary + (operand.lead + 1) ≤ limit := by omega
    have hplain : mid.delimiters = self.delimiters :=
      hobserved.delimiters.trans (op.delimitersAfter_token _)
    have hall := Checked.after_plain hplain hchecked
    refine ⟨⟨hall.delimiters, hall.brackets, ?_⟩, .inr hrun⟩
    have hruns := hchecked.runs
    simp only [Expr.runs, Expr.lead]
    omega
  | .binary op left right, self, next, h => by
    obtain ⟨mid', hboth, hright⟩ := observeTokens_append.mp h
    obtain ⟨mid, hleft, hop⟩ := observeTokens_append.mp hboth
    -- The operator resets the run and leaves the delimiters alone.
    have hplain := observeTokens_filler op.isFiller_of_mem_tokens hop
    exact ⟨((left.checked self mid hleft).1.before_plain hplain).both
      (right.checked mid' next hright).1, .inl rfl⟩
  | .attribute value, self, next, h => by
    obtain ⟨mid, hvalue, hrest⟩ := observeTokens_append.mp h
    have hplain := observeTokens_filler (by decide) hrest
    exact ⟨(value.checked self mid hvalue).1.before_plain hplain, .inl rfl⟩
  | .call function arguments, self, next, h => by
    obtain ⟨inside', hfirst, hclose⟩ := observeTokens_append.mp h
    obtain ⟨mid, hfunction, hrest⟩ := observeTokens_append.mp hfirst
    obtain ⟨inside, hopen, harguments⟩ := observeTokens_cons.mp hrest
    obtain ⟨last, hclose, hnil⟩ := observeTokens_cons.mp hclose
    cases hnil
    have hopened := observed_of_observe rfl hopen
    -- The arguments stand one delimiter deeper.
    exact ⟨(function.checked self mid hfunction).1.both (Checked.bracketed (fun _ => rfl)
      (fun _ => rfl) hopened (arguments.checked inside inside' hopened.delimiters_le harguments)
      (observed_of_observe rfl hclose)), .inl rfl⟩
  | .subscript value items, self, next, h => by
    obtain ⟨inside', hfirst, hclose⟩ := observeTokens_append.mp h
    obtain ⟨mid, hvalue, hrest⟩ := observeTokens_append.mp hfirst
    obtain ⟨inside, hopen, hitems⟩ := observeTokens_cons.mp hrest
    obtain ⟨last, hclose, hnil⟩ := observeTokens_cons.mp hclose
    cases hnil
    have hopened := observed_of_observe rfl hopen
    exact ⟨(value.checked self mid hvalue).1.both (Checked.bracketed (fun _ => rfl)
      (fun _ => rfl) hopened (items.checked inside inside' hopened.delimiters_le hitems)
      (observed_of_observe rfl hclose)), .inl rfl⟩
  | .conditional body test orelse, self, next, h => by
    obtain ⟨mid', hfirst, hrest⟩ := observeTokens_append.mp h
    obtain ⟨mid, hbody, htest⟩ := observeTokens_append.mp hfirst
    obtain ⟨tested, hif, htest⟩ := observeTokens_cons.mp htest
    obtain ⟨orelsed, helse, horelse⟩ := observeTokens_cons.mp hrest
    have htest' := (test.checked tested mid' htest).1.before_plain (observe_plain rfl rfl helse)
    exact ⟨((body.checked self mid hbody).1.before_plain (observe_plain rfl rfl hif)).both
      (htest'.both (orelse.checked orelsed next horelse).1), .inl rfl⟩
  | .lambda parameters body, self, next, h => by
    obtain ⟨mid', hfirst, hrest⟩ := observeTokens_append.mp h
    obtain ⟨mid, hlambda, hparameters⟩ := observeTokens_cons.mp hfirst
    obtain ⟨started, hcolon, hbody⟩ := observeTokens_cons.mp hrest
    have hobserved := observed_of_observe rfl hlambda
    have hparameters' := (parameters.checked mid mid' hobserved.delimiters_le
      hparameters).before_plain (observe_plain rfl rfl hcolon)
    exact ⟨(Checked.after_plain hobserved.delimiters hparameters').both
      (body.checked started next hbody).1, .inl rfl⟩
  | .display bracket items, self, next, h => by
    obtain ⟨inside', hrest, hclose⟩ := observeTokens_append.mp h
    obtain ⟨inside, hopen, hitems⟩ := observeTokens_cons.mp hrest
    obtain ⟨last, hclose, hnil⟩ := observeTokens_cons.mp hclose
    cases hnil
    have hopening : bracket.opening.isWord = true := by cases bracket <;> rfl
    have hclosing : bracket.closing.isWord = true := by cases bracket <;> rfl
    have hopened := observed_of_observe hopening hopen
    refine ⟨Checked.bracketed ?_ ?_ hopened
      (items.checked inside inside' hopened.delimiters_le hitems)
      (observed_of_observe hclosing hclose), .inl rfl⟩
    · intro n
      cases bracket <;> rfl
    · intro n
      cases bracket <;> rfl

theorem Items.checked : ∀ (items : Items) (self next : PythonStructure),
    self.delimiters ≤ limit → observeTokens limit self items.tokens = .ok next →
    Checked limit self next items.brackets items.runs
  | .last _, self, next, hlimit, h =>
    ⟨observeTokens_filler isFiller_of_mem_fillerTokens h, hlimit, Nat.zero_le _⟩
  | .item fillers expr rest, self, next, hlimit, h => by
    obtain ⟨mid', hfirst, hrest⟩ := observeTokens_append.mp h
    obtain ⟨mid, hfillers, hexpr⟩ := observeTokens_append.mp hfirst
    have hplain := observeTokens_filler isFiller_of_mem_fillerTokens hfillers
    have hexpr' := Checked.after_plain hplain (expr.checked mid mid' hexpr).1
    have hlimit' : mid'.delimiters ≤ limit := hexpr'.delimiters.trans_le hlimit
    exact hexpr'.both (rest.checked mid' next hlimit' hrest)

end

/-! ## Chains -/

/-- The tokens expressions are made of. -/
def TokenKind.inExpression (token : TokenKind) : Bool := token.isWord && token ≠ .semi

theorem inExpression_of_isFiller (h : token.isFiller = true) :
    token.inExpression = true := by
  revert h
  cases token <;> decide

mutual

theorem Expr.inExpression_tokens : ∀ (expr : Expr), ∀ token ∈ expr.tokens,
    token.inExpression = true
  | .leaf => by decide
  | .unary op operand => by
    refine List.forall_mem_cons.mpr ⟨?_, operand.inExpression_tokens⟩
    cases op <;> rfl
  | .binary op left right => by
    refine List.forall_mem_append.mpr ⟨List.forall_mem_append.mpr
      ⟨left.inExpression_tokens, fun token hmem => ?_⟩, right.inExpression_tokens⟩
    exact inExpression_of_isFiller (op.isFiller_of_mem_tokens token hmem)
  | .attribute value =>
    List.forall_mem_append.mpr ⟨value.inExpression_tokens, by decide⟩
  | .call function arguments =>
    List.forall_mem_append.mpr ⟨List.forall_mem_append.mpr ⟨function.inExpression_tokens,
      List.forall_mem_cons.mpr ⟨rfl, arguments.inExpression_tokens⟩⟩, by decide⟩
  | .subscript value items =>
    List.forall_mem_append.mpr ⟨List.forall_mem_append.mpr ⟨value.inExpression_tokens,
      List.forall_mem_cons.mpr ⟨rfl, items.inExpression_tokens⟩⟩, by decide⟩
  | .conditional body test orelse =>
    List.forall_mem_append.mpr ⟨List.forall_mem_append.mpr ⟨body.inExpression_tokens,
      List.forall_mem_cons.mpr ⟨rfl, test.inExpression_tokens⟩⟩,
      List.forall_mem_cons.mpr ⟨rfl, orelse.inExpression_tokens⟩⟩
  | .lambda parameters body =>
    List.forall_mem_append.mpr ⟨List.forall_mem_cons.mpr ⟨rfl, parameters.inExpression_tokens⟩,
      List.forall_mem_cons.mpr ⟨rfl, body.inExpression_tokens⟩⟩
  | .display bracket items => by
    refine List.forall_mem_append.mpr ⟨List.forall_mem_cons.mpr ⟨?_, items.inExpression_tokens⟩, ?_⟩
    · cases bracket <;> rfl
    · cases bracket <;> decide

theorem Items.inExpression_tokens : ∀ (items : Items), ∀ token ∈ items.tokens,
    token.inExpression = true
  | .last _ => fun token hmem => inExpression_of_isFiller (isFiller_of_mem_fillerTokens token hmem)
  | .item _ expr rest =>
    List.forall_mem_append.mpr ⟨List.forall_mem_append.mpr
      ⟨fun token hmem => inExpression_of_isFiller (isFiller_of_mem_fillerTokens token hmem),
        expr.inExpression_tokens⟩, rest.inExpression_tokens⟩

end

/-- The counters are within the limit after the last token of a line. -/
theorem exists_observed_last (hne : tokens ≠ []) (hwords : ∀ token ∈ tokens, token.isWord = true)
    (h : observeTokens limit self tokens = .ok next) :
    ∃ before, ∃ token ∈ tokens, Observed limit before token next := by
  obtain ⟨first, token, rfl⟩ : ∃ first token, tokens = first ++ [token] :=
    ⟨tokens.dropLast, tokens.getLast hne, (List.dropLast_append_getLast hne).symm⟩
  obtain ⟨mid, -, hlast⟩ := observeTokens_append.mp h
  obtain ⟨last, hlast, hnil⟩ := observeTokens_cons.mp hlast
  cases hnil
  have hmem : token ∈ first ++ [token] := List.mem_append_right _ (List.mem_singleton_self _)
  exact ⟨mid, token, hmem, observed_of_observe (hwords token hmem) hlast⟩

variable {expr : Expr}

/-- In an expression without commas all nodes are counted together. -/
theorem nodes_le_of_observeTokens (hcomma : .comma ∉ expr.tokens)
    (h : observeTokens limit self expr.tokens = .ok next) : nodes expr.tokens ≤ limit := by
  have hwords : ∀ token ∈ expr.tokens, token.isWord = true := fun token hmem =>
    (Bool.and_eq_true_iff.mp (expr.inExpression_tokens token hmem)).1
  have hsemi : TokenKind.semi ∉ expr.tokens := by
    intro hmem
    have hsemi := expr.inExpression_tokens _ hmem
    cases hsemi
  by_cases hne : expr.tokens = []
  · rw [hne]
    exact Nat.zero_le _
  · have hcount := expressionNodes_observeTokens hwords hcomma hsemi h
    obtain ⟨before, token, -, hlast⟩ := exists_observed_last hne hwords h
    have hlimit := hlast.expressionNodes_le
    unfold nodes
    omega

mutual

/-- No comma and no operator that is not counted stands in a chain: commas part the
    items of brackets that are no operands. -/
def Expr.Clear : Expr → Prop
  | .leaf => True
  | .unary _ operand => operand.Clear
  | .display _ items => items.Clear
  | expr => .comma ∉ expr.tokens ∧ .at_ ∉ expr.tokens

def Items.Clear : Items → Prop
  | .last _ => True
  | .item _ expr rest => expr.Clear ∧ rest.Clear

end

/-- The depth of an expression the guard lets through. -/
def expressionBound (limit : Nat) : Nat := depthBound (limit + limit) limit + limit

/-- A chain without commas: every node of it is counted. -/
theorem Expr.depth_le_of_counted (hcomma : .comma ∉ expr.tokens)
    (hat : .at_ ∉ expr.tokens) (h : observeTokens limit self expr.tokens = .ok next) :
    expr.depth ≤ depthBound (limit + expr.brackets) limit + expr.lead := by
  have hnodes := nodes_le_of_observeTokens hcomma h
  have hchecked := (expr.checked self next h).1
  have hdepth := expr.depth_le hat hchecked.runs
  have hmono := @depthBound_mono expr.counts (limit + expr.brackets) limit
    (by unfold Expr.counts; omega)
  omega

mutual

theorem Expr.depth_le_of_clear : ∀ (expr : Expr) (self next : PythonStructure), expr.Clear →
    observeTokens limit self expr.tokens = .ok next →
    expr.depth ≤ depthBound (limit + expr.brackets) limit + expr.lead
  | .leaf, _, _, _, _ => Nat.zero_le _
  | .unary op operand, self, next, hclear, h => by
    obtain ⟨mid, -, hrest⟩ := observeTokens_cons.mp h
    have hoperand := operand.depth_le_of_clear mid next hclear hrest
    simp only [Expr.depth, Expr.lead, Expr.brackets]
    omega
  | .display bracket items, self, next, hclear, h => by
    obtain ⟨inside', hrest, -⟩ := observeTokens_append.mp h
    obtain ⟨inside, hopen, hitems⟩ := observeTokens_cons.mp hrest
    have hopening : bracket.opening.isWord = true := by cases bracket <;> rfl
    have hlimit := (observed_of_observe hopening hopen).delimiters_le
    have hdepth := items.depth_le_of_clear inside inside' hlimit hclear hitems
    have hstep := @depthBound_step items.depth (limit + items.brackets)
      (limit + (Expr.display bracket items).brackets) limit limit hdepth le_rfl
      (by simp only [Expr.brackets]; omega)
    simp only [Expr.depth, Expr.lead]
    omega
  | .binary op left right, _, _, hclear, h => Expr.depth_le_of_counted hclear.1 hclear.2 h
  | .attribute value, _, _, hclear, h => Expr.depth_le_of_counted hclear.1 hclear.2 h
  | .call function arguments, _, _, hclear, h => Expr.depth_le_of_counted hclear.1 hclear.2 h
  | .subscript value items, _, _, hclear, h => Expr.depth_le_of_counted hclear.1 hclear.2 h
  | .conditional body test orelse, _, _, hclear, h => Expr.depth_le_of_counted hclear.1 hclear.2 h
  | .lambda parameters body, _, _, hclear, h => Expr.depth_le_of_counted hclear.1 hclear.2 h

theorem Items.depth_le_of_clear : ∀ (items : Items) (self next : PythonStructure),
    self.delimiters ≤ limit → items.Clear → observeTokens limit self items.tokens = .ok next →
    items.depth ≤ depthBound (limit + items.brackets) limit + limit
  | .last _, _, _, _, _, _ => Nat.zero_le _
  | .item fillers expr rest, self, next, hlimit, hclear, h => by
    obtain ⟨mid', hfirst, hrest⟩ := observeTokens_append.mp h
    obtain ⟨mid, hfillers, hexpr⟩ := observeTokens_append.mp hfirst
    have hplain := observeTokens_filler isFiller_of_mem_fillerTokens hfillers
    have hchecked := (expr.checked mid mid' hexpr).1
    have hlimit' : mid'.delimiters ≤ limit := by
      rw [hchecked.delimiters, hplain]
      exact hlimit
    have hfirst := expr.depth_le_of_clear mid mid' hclear.1 hexpr
    have hothers := rest.depth_le_of_clear mid' next hlimit' hclear.2 hrest
    have hlead : expr.lead ≤ limit := (lead_le_runs expr).trans hchecked.runs
    have hmono := @depthBound_mono (limit + expr.brackets)
      (limit + (Items.item fillers expr rest).brackets) limit
      (by simp only [Items.brackets]; omega)
    have hmono' := @depthBound_mono (limit + rest.brackets)
      (limit + (Items.item fillers expr rest).brackets) limit
      (by simp only [Items.brackets]; omega)
    simp only [Items.depth]
    omega

end

theorem Expr.depth_le_expressionBound (hclear : expr.Clear)
    (h : observeTokens limit self expr.tokens = .ok next) :
    expr.depth ≤ expressionBound limit := by
  have hchecked := (expr.checked self next h).1
  have hbrackets := hchecked.brackets
  have hdepth := expr.depth_le_of_clear self next hclear h
  have hlead := (lead_le_runs expr).trans hchecked.runs
  have hmono := @depthBound_mono (limit + expr.brackets) (limit + limit) limit (by omega)
  unfold expressionBound
  omega

/-! ## Lines -/

theorem Expr.tokens_ne_nil (expr : Expr) : expr.tokens ≠ [] := by
  cases expr with
  | binary op left right => cases op <;> simp [Expr.tokens, BinaryOp.tokens]
  | _ => simp [Expr.tokens]

theorem Part.tokens_ne_nil (part : Part) : part.tokens ≠ [] := by
  cases part with
  | word w => simp [Part.tokens]
  | expr e => exact e.tokens_ne_nil

theorem isWord_of_mem_partsTokens {parts : List Part} :
    ∀ token ∈ partsTokens parts, token.isWord = true := by
  intro token hmem
  obtain ⟨part, -, hpart⟩ := List.mem_flatMap.mp hmem
  cases part with
  | word w =>
    rw [List.mem_singleton.mp hpart]
    exact w.word
  | expr e => exact (Bool.and_eq_true_iff.mp (e.inExpression_tokens token hpart)).1

/-- Within a line the indentation and its chains stay. -/
theorem observeTokens_inLine
    (hwords : ∀ token ∈ tokens, token.isWord = true) (hline : self.logicalLineStart = false)
    (h : observeTokens limit self tokens = .ok next) :
    next.indents = self.indents ∧ next.logicalLineStart = false
      ∧ next.elifChainByIndent = self.elifChainByIndent := by
  induction tokens generalizing self with
  | nil =>
    cases h
    exact ⟨rfl, hline, rfl⟩
  | cons token tokens ih =>
    obtain ⟨hword, hrest⟩ := List.forall_mem_cons.mp hwords
    obtain ⟨mid, hmid, htokens⟩ := observeTokens_cons.mp h
    have hobserved := observed_of_observe hword hmid
    obtain ⟨hindents, hline', hchains⟩ := ih hrest hobserved.logicalLineStart htokens
    exact ⟨hindents.trans hobserved.indents, hline',
      hchains.trans (hobserved.inLine hline)⟩

/-- The first token of a line decides what becomes of the chain of its indentation. -/
structure Header (limit : Nat) (before : PythonStructure) (token : TokenKind)
    (after : PythonStructure) : Prop where
  indents : after.indents = before.indents
  indents_le : before.indents ≤ limit
  inLine : after.logicalLineStart = false
  chain : ∃ chain, before.elifChainByIndent[before.indents]? = some chain
    ∧ after.elifChainByIndent = before.elifChainByIndent.set before.indents (chainAfter chain token)
    ∧ chainAfter chain token ≤ limit

theorem header_of_observeTokens {token : TokenKind} {tokens : List TokenKind}
    (hwords : ∀ t ∈ token :: tokens, t.isWord = true) (hstart : self.logicalLineStart = true)
    (h : observeTokens limit self (token :: tokens) = .ok next) :
    Header limit self token next := by
  obtain ⟨hword, hrest⟩ := List.forall_mem_cons.mp hwords
  obtain ⟨mid, hmid, htokens⟩ := observeTokens_cons.mp h
  have hobserved := observed_of_observe hword hmid
  obtain ⟨hindents, hline, hchains⟩ :=
    observeTokens_inLine hrest hobserved.logicalLineStart htokens
  obtain ⟨chain, hchain, hset, hle⟩ := hobserved.lineStart hstart
  exact ⟨hindents.trans hobserved.indents, hobserved.indents ▸ hobserved.indents_le, hline,
    chain, hchain, hchains.trans hset, hle⟩

theorem Header.inRange (h : Header limit self token next) : next.InRange := by
  obtain ⟨chain, hchain, hset, -⟩ := h.chain
  have hlength := (List.getElem?_eq_some_iff.mp hchain).1
  unfold PythonStructure.InRange
  rw [h.indents, hset, List.length_set]
  exact hlength

/-- The chain of the indentation after the header. -/
theorem Header.chain_eq (h : Header limit self token next) {chain : Nat}
    (hchain : self.elifChainByIndent[self.indents]? = some chain) :
    next.elifChainByIndent[next.indents]? = some (chainAfter chain token)
      ∧ chainAfter chain token ≤ limit := by
  obtain ⟨before, hbefore, hset, hle⟩ := h.chain
  cases hbefore.symm.trans hchain
  refine ⟨?_, hle⟩
  rw [h.indents, hset]
  exact List.getElem?_set_self (List.getElem?_eq_some_iff.mp hchain).1

theorem Header.below (h : Header limit self token next) {i : Nat}
    (hi : i < self.indents) : next.elifChainByIndent[i]? = self.elifChainByIndent[i]? := by
  obtain ⟨chain, -, hset, -⟩ := h.chain
  rw [hset, List.getElem?_set_ne hi.ne']

def Part.Clear : Part → Prop
  | .word _ => True
  | .expr e => e.Clear

def partsClear (parts : List Part) : Prop := ∀ part ∈ parts, part.Clear

theorem partsDepth_le {parts : List Part} (hclear : partsClear parts)
    (h : observeTokens limit self (partsTokens parts) = .ok next) :
    partsDepth parts ≤ expressionBound limit := by
  induction parts generalizing self with
  | nil => exact Nat.zero_le _
  | cons part parts ih =>
    obtain ⟨hpart, hparts⟩ := List.forall_mem_cons.mp hclear
    obtain ⟨mid, hfirst, hrest⟩ := observeTokens_append.mp h
    refine max_le ?_ (ih hparts hrest)
    cases part with
    | word w => exact Nat.zero_le _
    | expr e => exact Expr.depth_le_expressionBound hpart hfirst

/-! ## Blocks -/

/-- After a block of an indentation the next line starts at that indentation, and
    the chains of the indentations around it are as they were. -/
structure Returned (before after : PythonStructure) : Prop where
  lineStart : after.logicalLineStart = true
  indents : after.indents = before.indents
  inRange : after.InRange
  below : ∀ i < before.indents, after.elifChainByIndent[i]? = before.elifChainByIndent[i]?

/-- What a block may hold at an indentation: so many levels of indentation are left,
    each with a chain of branches. -/
def blockBound (limit indents : Nat) : Nat :=
  expressionBound limit + (limit + 1 - indents) * (limit + 2)

theorem blockBound_step {indents : Nat} (h : indents ≤ limit) :
    blockBound limit (indents + 1) + (limit + 2) = blockBound limit indents := by
  unfold blockBound
  have hsub : limit + 1 - indents = (limit + 1 - (indents + 1)) + 1 := by omega
  rw [hsub, Nat.succ_mul]
  omega

theorem expressionBound_le_blockBound (indents : Nat) :
    expressionBound limit ≤ blockBound limit indents := Nat.le_add_right _ _

mutual

def Stmt.Clear : Stmt → Prop
  | .statement first rest suite => partsClear (first :: rest) ∧ suite.Clear
  | .branch test suite rest => partsClear test ∧ suite.Clear ∧ rest.Clear

def Suite.Clear : Suite → Prop
  | .inline => True
  | .indented body => body.Clear

def Block.Clear : Block → Prop
  | .nil => True
  | .cons stmt rest => stmt.Clear ∧ rest.Clear

def Branches.Clear : Branches → Prop
  | .done => True
  | .otherwise header suite => partsClear header ∧ suite.Clear
  | .elif test suite rest => partsClear test ∧ suite.Clear ∧ rest.Clear

end

theorem observe_newline : self.observe limit .newline
    = .ok { self with unary := 0, expressionNodes := 0, logicalLineStart := true } := rfl

theorem observe_indent : self.observe limit .indent = .ok { self with
    indents := self.indents + 1
    elifChainByIndent := resize self.elifChainByIndent (self.indents + 1 + 1) } := rfl

theorem observe_dedent : self.observe limit .dedent
    = .ok { self with indents := self.indents - 1 } := rfl

theorem getElem?_resize {values : List Nat} {size i : Nat} (hi : i < size)
    (hlength : i < values.length) : (resize values size)[i]? = values[i]? := by
  unfold resize
  rw [List.getElem?_append_left (by rw [List.length_take]; omega), List.getElem?_take_of_lt hi]

/-- After a suite the next line starts at the indentation of its header, whose chain
    is still there. -/
structure Resumed (before after : PythonStructure) : Prop where
  lineStart : after.logicalLineStart = true
  indents : after.indents = before.indents
  inRange : after.InRange
  kept : ∀ i ≤ before.indents, after.elifChainByIndent[i]? = before.elifChainByIndent[i]?

/-- A header and its suite leave the indentations around them alone. -/
theorem Header.returned {mid : PythonStructure}
    (h : Header limit self token mid) (hsuite : Resumed mid next) : Returned self next := by
  refine ⟨hsuite.lineStart, hsuite.indents.trans h.indents, hsuite.inRange, fun i hi => ?_⟩
  rw [hsuite.kept i (h.indents ▸ hi.le), h.below hi]

theorem Returned.trans {mid : PythonStructure} (h : Returned self mid) (h' : Returned mid next) :
    Returned self next := by
  refine ⟨h'.lineStart, h'.indents.trans h.indents, h'.inRange, fun i hi => ?_⟩
  rw [h'.below i (h.indents ▸ hi), h.below i hi]

theorem resumed_inline (hrange : self.InRange)
    (h : observeTokens limit self [.newline] = .ok next) : Resumed self next := by
  obtain ⟨mid, hmid, hnil⟩ := observeTokens_cons.mp h
  cases hnil
  cases observe_newline.symm.trans hmid
  exact ⟨rfl, rfl, hrange, fun _ _ => rfl⟩

/-- An indented block runs one level further in, with a chain of its own. -/
theorem resumed_indented (hrange : self.InRange)
    (h : observeTokens limit self (.newline :: .indent :: tokens ++ [.dedent]) = .ok next) :
    ∃ inside inside', inside.logicalLineStart = true ∧ inside.indents = self.indents + 1
      ∧ inside.InRange ∧ observeTokens limit inside tokens = .ok inside'
      ∧ (Returned inside inside' → Resumed self next) := by
  obtain ⟨inside', hrest, hdedent⟩ := observeTokens_append.mp h
  obtain ⟨line, hnewline, hrest⟩ := observeTokens_cons.mp hrest
  cases observe_newline.symm.trans hnewline
  obtain ⟨inside, hindent, hbody⟩ := observeTokens_cons.mp hrest
  cases observe_indent.symm.trans hindent
  obtain ⟨last, hdedent, hnil⟩ := observeTokens_cons.mp hdedent
  cases hnil
  cases observe_dedent.symm.trans hdedent
  refine ⟨_, inside', rfl, rfl, ?_, hbody, fun hreturned => ?_⟩
  · unfold PythonStructure.InRange
    rw [PythonStructure.length_resize]
    exact Nat.lt_succ_self _
  · have hindents : inside'.indents = self.indents + 1 := hreturned.indents
    have hinside : inside'.indents < inside'.elifChainByIndent.length := hreturned.inRange
    refine ⟨hreturned.lineStart, ?_, ?_, fun i hi => ?_⟩
    · show inside'.indents - 1 = self.indents
      omega
    · show inside'.indents - 1 < inside'.elifChainByIndent.length
      omega
    · have hlength : i < self.elifChainByIndent.length := hi.trans_lt hrange
      have hbelow := hreturned.below i (Nat.lt_succ_of_le hi)
      exact hbelow.trans (getElem?_resize (Nat.lt_succ_of_lt (Nat.lt_succ_of_le hi)) hlength)

-- The induction follows the tree: a block is run from the start of a line, a suite
-- from the end of its header, and further branches with the chain of their `if`.
mutual

theorem Stmt.run : ∀ (stmt : Stmt) (self next : PythonStructure), stmt.Clear →
    self.logicalLineStart = true → observeTokens limit self stmt.tokens = .ok next →
    Returned self next ∧ self.indents ≤ limit ∧ stmt.depth ≤ blockBound limit self.indents
  | .statement first rest suite, self, next, hclear, hstart, h => by
    obtain ⟨mid, hparts, hsuite⟩ := observeTokens_append.mp h
    obtain ⟨token, tokens, htokens⟩ :
        ∃ token tokens, partsTokens (first :: rest) = token :: tokens := by
      obtain ⟨token, tokens, hfirst⟩ := List.exists_cons_of_ne_nil first.tokens_ne_nil
      exact ⟨token, tokens ++ partsTokens rest, by simp [partsTokens, hfirst]⟩
    have hheader : Header limit self token mid := by
      refine @header_of_observeTokens _ _ _ token tokens ?_ hstart (htokens ▸ hparts)
      rw [← htokens]
      exact isWord_of_mem_partsTokens
    obtain ⟨hresumed, hdepth⟩ := suite.run mid next hclear.2 hheader.inRange hsuite
    have hdepth' := partsDepth_le hclear.1 hparts
    have hexpression := @expressionBound_le_blockBound limit (mid.indents + 1)
    have hstep := blockBound_step hheader.indents_le
    rw [hheader.indents] at hdepth hexpression
    refine ⟨hheader.returned hresumed, hheader.indents_le, ?_⟩
    simp only [Stmt.depth]
    omega
  | .branch test suite rest, self, next, hclear, hstart, h => by
    obtain ⟨mid', hfirst, hrest⟩ := observeTokens_append.mp h
    obtain ⟨mid, hheader, hsuite⟩ := observeTokens_append.mp hfirst
    obtain ⟨before, -, htest⟩ := observeTokens_cons.mp hheader
    have hheader : Header limit self .if_ mid :=
      header_of_observeTokens (List.forall_mem_cons.mpr ⟨rfl, isWord_of_mem_partsTokens⟩) hstart
        hheader
    obtain ⟨chain, hchain, -, -⟩ := hheader.chain
    obtain ⟨hone, hle⟩ := hheader.chain_eq hchain
    obtain ⟨hresumed, hdepth⟩ := suite.run mid mid' hclear.2.1 hheader.inRange hsuite
    have hreturned := hheader.returned hresumed
    have hkept : mid'.elifChainByIndent[mid'.indents]? = some 1 := by
      rw [hresumed.indents, hresumed.kept _ le_rfl]
      exact hone
    have hindents : mid'.indents ≤ limit := hreturned.indents ▸ hheader.indents_le
    obtain ⟨hreturned', hdepth'⟩ :=
      rest.run mid' next 1 hclear.2.2 hreturned.lineStart hreturned.inRange hkept hle hindents hrest
    have htests := partsDepth_le hclear.1 htest
    have hexpression := @expressionBound_le_blockBound limit (self.indents + 1)
    have hstep := blockBound_step hheader.indents_le
    have hone_le : 1 ≤ limit := hle
    rw [hheader.indents] at hdepth
    rw [hreturned.indents] at hdepth'
    refine ⟨hreturned.trans hreturned', hheader.indents_le, ?_⟩
    simp only [Stmt.depth]
    omega

theorem Suite.run : ∀ (suite : Suite) (self next : PythonStructure), suite.Clear → self.InRange →
    observeTokens limit self suite.tokens = .ok next →
    Resumed self next ∧ suite.depth ≤ blockBound limit (self.indents + 1)
  | .inline, self, next, _, hrange, h => ⟨resumed_inline hrange h, Nat.zero_le _⟩
  | .indented body, self, next, hclear, hrange, h => by
    obtain ⟨inside, inside', hstart, hindents, hinside, hbody, hresumed⟩ :=
      resumed_indented hrange h
    obtain ⟨hreturned, hdepth⟩ := body.run inside inside' hclear hstart hinside hbody
    refine ⟨hresumed hreturned, ?_⟩
    rw [← hindents]
    exact hdepth

theorem Block.run : ∀ (block : Block) (self next : PythonStructure), block.Clear →
    self.logicalLineStart = true → self.InRange →
    observeTokens limit self block.tokens = .ok next →
    Returned self next ∧ block.depth ≤ blockBound limit self.indents
  | .nil, self, next, _, hstart, hrange, h => by
    cases h
    exact ⟨⟨hstart, rfl, hrange, fun _ _ => rfl⟩, Nat.zero_le _⟩
  | .cons stmt rest, self, next, hclear, hstart, _, h => by
    obtain ⟨mid, hstmt, hrest⟩ := observeTokens_append.mp h
    obtain ⟨hreturned, -, hdepth⟩ := stmt.run self mid hclear.1 hstart hstmt
    obtain ⟨hreturned', hdepth'⟩ :=
      rest.run mid next hclear.2 hreturned.lineStart hreturned.inRange hrest
    rw [hreturned.indents] at hdepth'
    exact ⟨hreturned.trans hreturned', max_le hdepth hdepth'⟩

/-- Every further `elif` takes one of what its chain has left. -/
theorem Branches.run : ∀ (branches : Branches) (self next : PythonStructure) (chain : Nat),
    branches.Clear → self.logicalLineStart = true → self.InRange →
    self.elifChainByIndent[self.indents]? = some chain → chain ≤ limit → self.indents ≤ limit →
    observeTokens limit self branches.tokens = .ok next →
    Returned self next
      ∧ branches.depth ≤ limit - chain + 1 + blockBound limit (self.indents + 1)
  | .done, self, next, _, _, hstart, hrange, _, _, _, h => by
    cases h
    exact ⟨⟨hstart, rfl, hrange, fun _ _ => rfl⟩, Nat.zero_le _⟩
  | .otherwise header suite, self, next, chain, hclear, hstart, _, _, _, _, h => by
    obtain ⟨mid, hheader, hsuite⟩ := observeTokens_append.mp h
    obtain ⟨before, -, hparts⟩ := observeTokens_cons.mp hheader
    have hheader : Header limit self .else_ mid :=
      header_of_observeTokens (List.forall_mem_cons.mpr ⟨rfl, isWord_of_mem_partsTokens⟩) hstart
        hheader
    obtain ⟨hresumed, hdepth⟩ := suite.run mid next hclear.2 hheader.inRange hsuite
    have hparts' := partsDepth_le hclear.1 hparts
    have hexpression := @expressionBound_le_blockBound limit (self.indents + 1)
    rw [hheader.indents] at hdepth
    refine ⟨hheader.returned hresumed, ?_⟩
    simp only [Branches.depth]
    omega
  | .elif test suite rest, self, next, chain, hclear, hstart, _, hchain, _, _, h => by
    obtain ⟨mid', hfirst, hrest⟩ := observeTokens_append.mp h
    obtain ⟨mid, hheader, hsuite⟩ := observeTokens_append.mp hfirst
    obtain ⟨before, -, htest⟩ := observeTokens_cons.mp hheader
    have hheader : Header limit self .elif_ mid :=
      header_of_observeTokens (List.forall_mem_cons.mpr ⟨rfl, isWord_of_mem_partsTokens⟩) hstart
        hheader
    obtain ⟨hnext, hle⟩ := hheader.chain_eq hchain
    obtain ⟨hresumed, hdepth⟩ := suite.run mid mid' hclear.2.1 hheader.inRange hsuite
    have hreturned := hheader.returned hresumed
    have hkept : mid'.elifChainByIndent[mid'.indents]? = some (chain + 1) := by
      rw [hresumed.indents, hresumed.kept _ le_rfl]
      exact hnext
    have hindents : mid'.indents ≤ limit := hreturned.indents ▸ hheader.indents_le
    obtain ⟨hreturned', hdepth'⟩ := rest.run mid' next (chain + 1) hclear.2.2 hreturned.lineStart
      hreturned.inRange hkept hle hindents hrest
    have htests := partsDepth_le hclear.1 htest
    have hexpression := @expressionBound_le_blockBound limit (self.indents + 1)
    have hle : chain + 1 ≤ limit := hle
    rw [hheader.indents] at hdepth
    rw [hreturned.indents] at hdepth'
    refine ⟨hreturned.trans hreturned', ?_⟩
    simp only [Branches.depth]
    omega

end

/-! ## The guard -/

theorem preflightStructure_eq_ok (h : preflightStructure tokens = .ok ()) :
    ∃ next, observeTokens maxStructuralDepth {} tokens = .ok next := by
  unfold preflightStructure at h
  cases hrun : observeTokens maxStructuralDepth {} tokens with
  | error fault =>
    rw [hrun] at h
    cases h
  | ok next => exact ⟨next, rfl⟩

/-- A module of one line with one expression. -/
def expressionModule (expr : Expr) : Block :=
  .cons (.statement (.expr expr) [] .inline) .nil

theorem expressionModule_tokens (expr : Expr) :
    (expressionModule expr).tokens = expr.tokens ++ [.newline] := by
  simp [expressionModule, Block.tokens, Stmt.tokens, Suite.tokens, partsTokens, Part.tokens]

theorem depth_lt_expressionModule (expr : Expr) :
    expr.depth < (expressionModule expr).depth := by
  simp only [expressionModule, Block.depth, Stmt.depth, Suite.depth, partsDepth, Part.depth]
  omega

/-- The state in a line of the outermost block, with nothing counted. -/
def lineState : PythonStructure := { logicalLineStart := false }

/-- `value @ value @ …`. -/
def matMulChain : Nat → Expr
  | 0 => .leaf
  | n + 1 => .binary .matMul (matMulChain n) .leaf

/-- `value(value, value)(value, value)…`. -/
def callChain : Nat → Expr
  | 0 => .leaf
  | n + 1 => .call (callChain n)
      (.item [] .leaf (.item [⟨.comma, rfl⟩] .leaf (.last [])))

variable (n : Nat)

theorem depth_matMulChain : (matMulChain n).depth = n := by
  induction n with
  | zero => rfl
  | succ n ih =>
    show max (matMulChain n).depth 0 + 1 = n + 1
    omega

theorem depth_callChain : (callChain n).depth = n := by
  induction n with
  | zero => rfl
  | succ n ih =>
    show max (callChain n).depth (max 0 (max 0 0)) + 1 = n + 1
    omega

-- The counters are back where they were after every further operand.
theorem observeTokens_matMulChain :
    observeTokens maxStructuralDepth {} (matMulChain n).tokens = .ok lineState := by
  induction n with
  | zero => rfl
  | succ n ih =>
    rw [matMulChain, Expr.tokens, List.append_assoc]
    exact observeTokens_append.mpr ⟨lineState, ih, rfl⟩

theorem observeTokens_callChain :
    observeTokens maxStructuralDepth {} (callChain n).tokens = .ok lineState := by
  induction n with
  | zero => rfl
  | succ n ih =>
    rw [callChain, Expr.tokens, List.append_assoc]
    exact observeTokens_append.mpr ⟨lineState, ih, rfl⟩

theorem preflightStructure_expressionModule
    (h : observeTokens maxStructuralDepth {} expr.tokens = .ok lineState) :
    preflightStructure (expressionModule expr).tokens = .ok () := by
  have hrun : observeTokens maxStructuralDepth {} (expressionModule expr).tokens = .ok {} := by
    rw [expressionModule_tokens]
    exact observeTokens_append.mpr ⟨lineState, h, rfl⟩
  unfold preflightStructure
  rw [hrun]
  rfl

theorem comma_notMem_matMulChain : .comma ∉ (matMulChain n).tokens := by
  induction n with
  | zero => decide
  | succ n ih =>
    rw [matMulChain, Expr.tokens, List.append_assoc, List.mem_append]
    exact not_or.mpr ⟨ih, by decide⟩

theorem at_notMem_callChain : .at_ ∉ (callChain n).tokens := by
  induction n with
  | zero => decide
  | succ n ih =>
    rw [callChain, Expr.tokens, List.append_assoc, List.mem_append]
    exact not_or.mpr ⟨ih, by decide⟩

/-- The counters are never read out of range, and a module the guard lets through is
    no deeper than a bound that depends on the limit only, when no chain of it holds
    a comma or a matrix product.  Without either half of the condition there is no
    bound. -/
theorem preflightStructure_bounds (tokens : List TokenKind) :
    preflightStructure tokens ≠ .error .outOfRange
    ∧ (∀ block : Block, block.Clear → preflightStructure block.tokens = .ok () →
      block.depth ≤ blockBound maxStructuralDepth 0)
    ∧ (∀ bound, ∃ block : Block, .comma ∉ block.tokens
      ∧ preflightStructure block.tokens = .ok () ∧ bound < block.depth)
    ∧ (∀ bound, ∃ block : Block, .at_ ∉ block.tokens
      ∧ preflightStructure block.tokens = .ok () ∧ bound < block.depth) := by
  have hinitial : PythonStructure.InRange {} := Nat.zero_lt_one
  refine ⟨?_, fun block hclear h => ?_, fun bound => ?_, fun bound => ?_⟩
  · unfold preflightStructure
    obtain ⟨next, hnext, -⟩ | herror := @observeTokens_inRange maxStructuralDepth _ hinitial tokens
    · rw [hnext]
      rintro ⟨⟩
    · rw [herror]
      rintro ⟨⟩
  · obtain ⟨next, hrun⟩ := preflightStructure_eq_ok h
    exact (block.run {} next hclear rfl hinitial hrun).2
  · refine ⟨expressionModule (matMulChain bound), ?_,
      preflightStructure_expressionModule (observeTokens_matMulChain bound), ?_⟩
    · rw [expressionModule_tokens, List.mem_append]
      exact not_or.mpr ⟨comma_notMem_matMulChain bound, by decide⟩
    · exact (depth_matMulChain bound).symm.trans_lt (depth_lt_expressionModule _)
  · refine ⟨expressionModule (callChain bound), ?_,
      preflightStructure_expressionModule (observeTokens_callChain bound), ?_⟩
    · rw [expressionModule_tokens, List.mem_append]
      exact not_or.mpr ⟨at_notMem_callChain bound, by decide⟩
    · exact (depth_callChain bound).symm.trans_lt (depth_lt_expressionModule _)

/-- `if value: …`, `elif value: -value`, both on lines of their own. -/
def branchedModule : Block :=
  .cons (.branch [.expr .leaf, .word ⟨.colon, rfl⟩]
    (.indented (.cons (.statement (.expr (.attribute .leaf)) [] .inline) .nil))
    (.elif [.expr .leaf, .word ⟨.colon, rfl⟩]
      (.indented (.cons (.statement (.expr (.unary .minus .leaf)) [] .inline) .nil)) .done)) .nil

theorem preflightStructure_bounds_branched :
    branchedModule.Clear ∧ preflightStructure branchedModule.tokens = .ok ()
      ∧ branchedModule.depth ≤ blockBound maxStructuralDepth 0 := by
  have hclear : branchedModule.Clear := by
    simp [branchedModule, Block.Clear, Stmt.Clear, Suite.Clear, Branches.Clear, partsClear,
      Part.Clear, Expr.Clear, Expr.tokens]
  exact ⟨hclear, rfl, (preflightStructure_bounds branchedModule.tokens).2.1 branchedModule hclear rfl⟩

/-- No bound holds for all modules the guard lets through: `@` is not counted. -/
theorem not_exists_bound : ¬ ∃ bound, ∀ block : Block, preflightStructure block.tokens = .ok () →
    block.depth ≤ bound := by
  rintro ⟨bound, hbound⟩
  have hdepth := hbound (expressionModule (matMulChain bound))
    (preflightStructure_expressionModule (observeTokens_matMulChain bound))
  have hlt := (depth_matMulChain bound).symm.trans_lt (depth_lt_expressionModule _)
  exact absurd hdepth (not_le.mpr hlt)

end Opcore.Python
