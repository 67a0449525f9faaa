/-
  Opcore.Analysis.Go.Recursion

  How deep the parser of build constraints recurses.  It is run with a bound on the calls
  that are open at once; a scan of the text that counts open parentheses and the negations
  before them says exactly which bound is enough.
-/
import Opcore.Analysis.Go.Constraints

namespace Opcore.Go.BuildExpression

open Text

/-! ## The parser with a bound on open calls -/

/-- The end of a run: too many open calls, no expression, or a value and what is left. -/
inductive Run where
  | overflow
  | stopped
  | read (value : Truth) (rest : Str)
  deriving DecidableEq

def Run.andThen (run : Run) (next : Truth → Str → Run) : Run :=
  match run with
  | .overflow => .overflow
  | .stopped => .stopped
  | .read value rest => next value rest

/-- The loop of `parse_or` and `parse_and`, for at most so many rounds; a round consumes bytes. -/
def operands (token : Str) (combine : Truth → Truth → Truth) (operand : Str → Run) :
    Nat → Truth → Str → Run
  | 0, value, s => .read value (skipSpace s)
  | rounds + 1, value, s =>
    match stripPrefix token (skipSpace s) with
    | none => .read value (skipSpace s)
    | some s => (operand s).andThen fun other s =>
        operands token combine operand rounds (combine value other) s

mutual

/-- `parse_or`, with room for so many open calls. -/
def orWithin (target : GoTarget) : Nat → Nat → Str → Run
  | 0, _, _ => .overflow
  | calls + 1, depth, s => (andWithin target calls depth s).andThen fun value s =>
      operands (ascii "||") Truth.or (andWithin target calls depth) s.length value s

def andWithin (target : GoTarget) : Nat → Nat → Str → Run
  | 0, _, _ => .overflow
  | calls + 1, depth, s => (unaryWithin target calls depth s).andThen fun value s =>
      operands (ascii "&&") Truth.and (unaryWithin target calls depth) s.length value s

def unaryWithin (target : GoTarget) : Nat → Nat → Str → Run
  | 0, _, _ => .overflow
  | calls + 1, depth, s =>
    match stripPrefix (ascii "!") (skipSpace s) with
    | some s => (unaryWithin target calls depth s).andThen fun value s => .read value.not s
    | none =>
      match stripPrefix (ascii "(") (skipSpace s) with
      | some s =>
        if maxStructuralDepth ≤ depth then .stopped
        else (orWithin target calls (depth + 1) s).andThen fun value s =>
          match stripPrefix (ascii ")") (skipSpace s) with
          | some s => .read value s
          | none => .stopped
      | none =>
        match parseTag target (skipSpace s) with
        | some (value, s) => .read value s
        | none => .stopped

end

/-! ## The scan -/

theorem length_of_stripPrefix {token s rest : Str} (htoken : token ≠ [])
    (h : stripPrefix token (skipSpace s) = some rest) : rest.length < s.length := by
  have hlength := congrArg List.length (stripPrefix_eq_some_iff.mp h)
  have hskip := length_skipSpace_le s
  have hpos := List.length_pos_of_ne_nil htoken
  rw [List.length_append] at hlength
  omega

/-- What follows a tag. -/
def afterTag (s : Str) : Option Str :=
  if (skipSpace s).takeWhile isTagByte = [] then none else some ((skipSpace s).dropWhile isTagByte)

theorem length_of_afterTag {s rest : Str} (h : afterTag s = some rest) :
    rest.length < s.length := by
  rw [afterTag] at h
  split_ifs at h with hname
  cases h
  have hlength := congrArg List.length (@List.takeWhile_append_dropWhile _ isTagByte (skipSpace s))
  have hskip := length_skipSpace_le s
  have hpos := List.length_pos_of_ne_nil hname
  rw [List.length_append] at hlength
  omega

/-- What open calls cost: for each level of parentheses as much, and its negations. -/
def cost (perLevel : Nat) (negations : List Nat) : Nat := (negations.map (· + perLevel)).sum

/-- The highest cost on the way through a text: where an operand is expected behind `n` negations
    of its level, `some n`; where an operator is, `none`; with the negations of the outer levels. -/
def peak (perLevel : Nat) (expected : Option Nat) (outer : List Nat) (s : Str) : Nat :=
  match expected with
  | some n =>
    max (cost perLevel (n :: outer)) <|
      match _hnot : stripPrefix (ascii "!") (skipSpace s) with
      | some rest => peak perLevel (some (n + 1)) outer rest
      | none =>
        match _hopen : stripPrefix (ascii "(") (skipSpace s) with
        | some rest =>
          if maxStructuralDepth ≤ outer.length then 0
          else peak perLevel (some 0) (n :: outer) rest
        | none =>
          match _htag : afterTag s with
          | some rest => peak perLevel none outer rest
          | none => 0
  | none =>
    match _hand : stripPrefix (ascii "&&") (skipSpace s) with
    | some rest => peak perLevel (some 0) outer rest
    | none =>
      match _hor : stripPrefix (ascii "||") (skipSpace s) with
      | some rest => peak perLevel (some 0) outer rest
      | none =>
        match _hclose : stripPrefix (ascii ")") (skipSpace s) with
        | some rest =>
          match outer with
          | _ :: outer => peak perLevel none outer rest
          | [] => 0
        | none => 0
termination_by s.length
decreasing_by
  · exact length_of_stripPrefix (by decide) _hnot
  · exact length_of_stripPrefix (by decide) _hopen
  · exact length_of_afterTag _htag
  · exact length_of_stripPrefix (by decide) _hand
  · exact length_of_stripPrefix (by decide) _hor
  · exact length_of_stripPrefix (by decide) _hclose

section Equations

variable {perLevel n : Nat} {outer : List Nat} {s rest : Str}

theorem peak_not (hnot : stripPrefix (ascii "!") (skipSpace s) = some rest) :
    peak perLevel (some n) outer s
      = max (cost perLevel (n :: outer)) (peak perLevel (some (n + 1)) outer rest) := by
  rw [peak]
  split <;> simp_all

theorem peak_open (hnot : stripPrefix (ascii "!") (skipSpace s) = none)
    (hopen : stripPrefix (ascii "(") (skipSpace s) = some rest) :
    peak perLevel (some n) outer s
      = max (cost perLevel (n :: outer)) (if maxStructuralDepth ≤ outer.length then 0
          else peak perLevel (some 0) (n :: outer) rest) := by
  rw [peak]
  split
  · simp_all
  · split <;> simp_all

theorem peak_tag (hnot : stripPrefix (ascii "!") (skipSpace s) = none)
    (hopen : stripPrefix (ascii "(") (skipSpace s) = none) :
    peak perLevel (some n) outer s
      = max (cost perLevel (n :: outer))
          (((afterTag s).map (peak perLevel none outer)).getD 0) := by
  rw [peak]
  split
  · simp_all
  · split
    · simp_all
    · split <;> simp_all

theorem peak_and (hand : stripPrefix (ascii "&&") (skipSpace s) = some rest) :
    peak perLevel none outer s = peak perLevel (some 0) outer rest := by
  conv_lhs => rw [peak]
  split <;> simp_all

theorem peak_or (hand : stripPrefix (ascii "&&") (skipSpace s) = none)
    (hor : stripPrefix (ascii "||") (skipSpace s) = some rest) :
    peak perLevel none outer s = peak perLevel (some 0) outer rest := by
  conv_lhs => rw [peak]
  split
  · simp_all
  · split <;> simp_all

theorem peak_close (hand : stripPrefix (ascii "&&") (skipSpace s) = none)
    (hor : stripPrefix (ascii "||") (skipSpace s) = none) :
    peak perLevel none (n :: outer) s
      = ((stripPrefix (ascii ")") (skipSpace s)).map (peak perLevel none outer)).getD 0 := by
  rw [peak]
  split
  · simp_all
  · split
    · simp_all
    · split <;> simp_all

theorem peak_nil (hand : stripPrefix (ascii "&&") (skipSpace s) = none)
    (hor : stripPrefix (ascii "||") (skipSpace s) = none) : peak perLevel none [] s = 0 := by
  rw [peak]
  split
  · simp_all
  · split
    · simp_all
    · split <;> rfl

end Equations

/-- The negations that are open at once, at most, where the parser goes. -/
def pendingNegations (text : Str) : Nat := peak 0 (some 0) [] text

/-- The calls that are open at once, at most. -/
def recursionDepth (text : Str) : Nat := peak 3 (some 0) [] text

/-! ## The scan is right -/

/-- None of the tokens comes next. -/
def Past (tokens : List Str) (s : Str) : Prop :=
  ∀ token ∈ tokens, stripPrefix token (skipSpace s) = none

theorem Past.skipSpace {tokens : List Str} {s : Str} (h : Past tokens s) :
    Past tokens (skipSpace s) := by
  intro token htoken
  rw [skipSpace_idem]
  exact h token htoken

/-- A run overflows exactly when the peak before it exceeds the bound, unless only the peak
    after it does. -/
def Accounts (bound : Nat) (outer : List Nat) (tokens : List Str) (before : Nat) (s : Str)
    (run : Run) : Prop :=
  match run with
  | .overflow => bound < before
  | .stopped => before ≤ bound
  | .read _ rest => (before ≤ bound ↔ peak 3 none outer rest ≤ bound) ∧ rest.length ≤ s.length
      ∧ Past tokens rest

theorem peak_skipSpace (perLevel : Nat) (outer : List Nat) (s : Str) :
    peak perLevel none outer (skipSpace s) = peak perLevel none outer s := by
  rw [peak, peak, skipSpace_idem]

/-- A run after which another one follows. -/
theorem Accounts.andThen {bound before : Nat} {outer outer' : List Nat} {tokens tokens' : List Str}
    {s : Str} {run : Run} {next : Truth → Str → Run} (h : Accounts bound outer tokens before s run)
    (hnext : ∀ value rest, rest.length ≤ s.length → Past tokens rest →
      Accounts bound outer' tokens' (peak 3 none outer rest) rest (next value rest)) :
    Accounts bound outer' tokens' before s (run.andThen next) := by
  cases run with
  | overflow => exact h
  | stopped => exact h
  | read value rest =>
    obtain ⟨hiff, hlength, hpast⟩ := h
    have hrest := hnext value rest hlength hpast
    rw [Run.andThen]
    cases hrun : next value rest with
    | overflow =>
      rw [hrun] at hrest
      exact Nat.lt_of_not_le fun hle => Nat.not_le_of_lt hrest (hiff.mp hle)
    | stopped =>
      rw [hrun] at hrest
      exact hiff.mpr hrest
    | read value' rest' =>
      rw [hrun] at hrest
      exact ⟨hiff.trans hrest.1, hrest.2.1.trans hlength, hrest.2.2⟩

/-- What is paid for already does not decide. -/
theorem Accounts.of_before {bound before paid next : Nat} {outer : List Nat} {tokens : List Str}
    {s : Str} {run : Run} (hbefore : before = max paid next) (hpaid : paid ≤ bound)
    (h : Accounts bound outer tokens next s run) : Accounts bound outer tokens before s run := by
  subst hbefore
  cases run with
  | overflow => exact Nat.lt_of_lt_of_le h (Nat.le_max_right ..)
  | stopped => exact Nat.max_le.mpr ⟨hpaid, h⟩
  | read value rest =>
    refine ⟨?_, h.2⟩
    rw [Nat.max_le, and_iff_right hpaid]
    exact h.1

theorem Accounts.of_length_le {bound before : Nat} {outer : List Nat} {tokens : List Str}
    {s s' : Str} {run : Run} (h : Accounts bound outer tokens before s run)
    (hlength : s.length ≤ s'.length) : Accounts bound outer tokens before s' run := by
  cases run with
  | overflow => exact h
  | stopped => exact h
  | read value rest => exact ⟨h.1, h.2.1.trans hlength, h.2.2⟩

/-- A loop over operands: each round reads the token and what stands behind it. -/
theorem accounts_operands {bound : Nat} {outer : List Nat} {token : Str} {tokens : List Str}
    {operand : Str → Run} (combine : Truth → Truth → Truth) (hne : token ≠ [])
    (hoperand : ∀ s, Accounts bound outer tokens (peak 3 (some 0) outer s) s (operand s))
    (htoken : ∀ s rest, Past tokens s → stripPrefix token (skipSpace s) = some rest →
      peak 3 none outer s = peak 3 (some 0) outer rest)
    {rounds : Nat} (value : Truth) {s : Str} (hrounds : s.length ≤ rounds)
    (hpast : Past tokens s) :
    Accounts bound outer (token :: tokens) (peak 3 none outer s) s
      (operands token combine operand rounds value s) := by
  induction rounds generalizing value s with
  | zero =>
    refine ⟨by rw [peak_skipSpace], length_skipSpace_le s, Past.skipSpace ?_⟩
    refine List.forall_mem_cons.mpr ⟨Option.eq_none_iff_forall_ne_some.mpr ?_, hpast⟩
    intro rest hrest
    have hshort := length_of_stripPrefix hne hrest
    omega
  | succ rounds ih =>
    rw [operands]
    cases hrest : stripPrefix token (skipSpace s) with
    | none =>
      refine ⟨by rw [peak_skipSpace], length_skipSpace_le s, Past.skipSpace ?_⟩
      exact List.forall_mem_cons.mpr ⟨hrest, hpast⟩
    | some rest =>
      -- what the operand leaves is shorter, so that the rounds suffice
      have hshort := length_of_stripPrefix hne hrest
      rw [htoken s rest hpast hrest]
      refine Accounts.of_length_le ((hoperand rest).andThen ?_) (Nat.le_of_lt hshort)
      intro other rest' hlength hpast'
      exact ih _ (by omega) hpast'

theorem cost_cons (perLevel n : Nat) (outer : List Nat) :
    cost perLevel (n :: outer) = n + perLevel + cost perLevel outer := by
  rw [cost, List.map_cons, List.sum_cons, cost]

theorem cost_le_peak (perLevel n : Nat) (outer : List Nat) (s : Str) :
    cost perLevel (n :: outer) ≤ peak perLevel (some n) outer s := by
  rw [peak]
  exact Nat.le_max_left _ _

theorem afterTag_skipSpace (target : GoTarget) (s : Str) :
    afterTag s = (parseTag target (skipSpace s)).map Prod.snd := by
  rw [afterTag, parseTag, skipSpace_idem]
  split_ifs <;> rfl

/-- What the three functions do with so many calls left. -/
theorem accounts_within (target : GoTarget) (calls : Nat) :
    (∀ outer s, Accounts (cost 3 outer + calls) outer [ascii "||", ascii "&&"]
        (peak 3 (some 0) outer s) s (orWithin target calls outer.length s))
      ∧ (∀ outer s, Accounts (cost 3 outer + 1 + calls) outer [ascii "&&"]
        (peak 3 (some 0) outer s) s (andWithin target calls outer.length s))
      ∧ ∀ n outer s, Accounts (cost 3 outer + 2 + n + calls) outer []
        (peak 3 (some n) outer s) s (unaryWithin target calls outer.length s) := by
  induction calls with
  | zero =>
    have hpeak : ∀ n outer s, n + 3 + cost 3 outer ≤ peak 3 (some n) outer s := fun n outer s =>
      cost_cons 3 n outer ▸ cost_le_peak 3 n outer s
    refine ⟨fun outer s => ?_, fun outer s => ?_, fun n outer s => ?_⟩
    · show cost 3 outer + 0 < peak 3 (some 0) outer s
      have := hpeak 0 outer s
      omega
    · show cost 3 outer + 1 + 0 < peak 3 (some 0) outer s
      have := hpeak 0 outer s
      omega
    · show cost 3 outer + 2 + n + 0 < peak 3 (some n) outer s
      have := hpeak n outer s
      omega
  | succ calls ih =>
    obtain ⟨ihor, ihand, ihunary⟩ := ih
    refine ⟨?_, ?_, ?_⟩
    · intro outer s
      rw [orWithin, show cost 3 outer + (calls + 1) = cost 3 outer + 1 + calls by omega]
      refine (ihand outer s).andThen ?_
      intro value rest hlength hpast
      refine accounts_operands _ (by decide) (ihand outer) ?_ value le_rfl hpast
      intro s rest hpast hrest
      exact peak_or (hpast _ (List.mem_cons_self ..)) hrest
    · intro outer s
      rw [andWithin, show cost 3 outer + 1 + (calls + 1) = cost 3 outer + 2 + 0 + calls by omega]
      refine (ihunary 0 outer s).andThen ?_
      intro value rest hlength hpast
      refine accounts_operands _ (by decide) (ihunary 0 outer) ?_ value le_rfl hpast
      intro s rest _ hrest
      exact peak_and hrest
    · intro n outer s
      -- the call itself is paid for, so that the scan's other term decides
      have hcost : cost 3 (n :: outer) ≤ cost 3 outer + 2 + n + (calls + 1) := by
        rw [cost_cons]
        omega
      rw [unaryWithin]
      cases hnot : stripPrefix (ascii "!") (skipSpace s) with
      | some rest =>
        have hrun := ihunary (n + 1) outer rest
        rw [show cost 3 outer + 2 + (n + 1) + calls = cost 3 outer + 2 + n + (calls + 1) by omega]
          at hrun
        refine Accounts.of_before (peak_not hnot) hcost ?_
        refine Accounts.of_length_le (hrun.andThen ?_)
          (Nat.le_of_lt (length_of_stripPrefix (by decide) hnot))
        intro value rest' _ hpast
        exact ⟨Iff.rfl, le_rfl, hpast⟩
      | none =>
        cases hopen : stripPrefix (ascii "(") (skipSpace s) with
        | some rest =>
          refine Accounts.of_before (peak_open hnot hopen) hcost ?_
          dsimp only
          split_ifs with hdepth
          · exact Nat.zero_le _
          · have hrun := ihor (n :: outer) rest
            rw [cost_cons, show n + 3 + cost 3 outer + calls = cost 3 outer + 2 + n + (calls + 1)
              by omega] at hrun
            refine Accounts.of_length_le (hrun.andThen ?_)
              (Nat.le_of_lt (length_of_stripPrefix (by decide) hopen))
            intro value rest' _ hpast
            -- behind the operand stands neither `&&` nor `||`
            rw [peak_close (hpast _ (by decide)) (hpast _ (by decide))]
            cases hclose : stripPrefix (ascii ")") (skipSpace rest') with
            | none => exact Nat.zero_le _
            | some rest'' =>
              have hshort := length_of_stripPrefix (by decide) hclose
              exact ⟨Iff.rfl, Nat.le_of_lt hshort, fun _ h => by cases h⟩
        | none =>
          refine Accounts.of_before (peak_tag hnot hopen) hcost ?_
          have htag := afterTag_skipSpace target s
          cases hparse : parseTag target (skipSpace s) with
          | none =>
            rw [hparse] at htag
            rw [htag]
            exact Nat.zero_le _
          | some parsed =>
            rw [hparse] at htag
            rw [htag]
            exact ⟨Iff.rfl, Nat.le_of_lt (length_of_afterTag htag), fun _ h => by cases h⟩

/-- A bound on open calls is enough exactly when the scan stays within it. -/
theorem orWithin_ne_overflow_iff (target : GoTarget) (bound : Nat) (text : Str) :
    orWithin target bound 0 text ≠ .overflow ↔ recursionDepth text ≤ bound := by
  have h := (accounts_within target bound).1 [] text
  rw [show cost 3 [] + bound = bound from Nat.zero_add _] at h
  change Accounts bound [] _ (recursionDepth text) text (orWithin target bound 0 text) at h
  cases hrun : orWithin target bound 0 text with
  | overflow =>
    rw [hrun] at h
    exact ⟨fun hne => absurd rfl hne, fun hle => absurd hle (Nat.not_le_of_lt h)⟩
  | stopped =>
    rw [hrun] at h
    exact ⟨fun _ => h, fun _ => by simp⟩
  | read value rest =>
    rw [hrun] at h
    refine ⟨fun _ => h.1.mpr ?_, fun _ => by simp⟩
    -- no level of parentheses is open, so that nothing is read behind the expression
    rw [peak_nil (h.2.2 _ (by decide)) (h.2.2 _ (by decide))]
    exact Nat.zero_le _

/-! ## Parentheses and negations -/

theorem cost_eq (perLevel : Nat) (negations : List Nat) :
    cost perLevel negations = cost 0 negations + perLevel * negations.length := by
  induction negations with
  | nil => rfl
  | cons n outer ih =>
    rw [cost_cons, cost_cons, ih, List.length_cons, Nat.mul_succ]
    omega

/-- The levels of parentheses add a constant to the negations. -/
theorem peak_bounds (expected : Option Nat) (outer : List Nat) (s : Str)
    (houter : outer.length ≤ maxStructuralDepth) :
    peak 0 expected outer s ≤ peak 3 expected outer s
      ∧ peak 3 expected outer s ≤ 3 * (maxStructuralDepth + 1) + peak 0 expected outer s := by
  induction expected, outer, s using peak.induct with
  | case1 outer s n ihnot ihopen ihtag =>
    -- A level costs at most three calls, and the depth is bounded.
    have hcost := cost_eq 3 (n :: outer)
    rw [List.length_cons] at hcost
    cases hnot : stripPrefix (ascii "!") (skipSpace s) with
    | some rest =>
      have hrest := ihnot rest hnot houter
      rw [peak_not hnot, peak_not hnot]
      omega
    | none =>
      cases hopen : stripPrefix (ascii "(") (skipSpace s) with
      | some rest =>
        rw [peak_open hnot hopen, peak_open hnot hopen]
        split_ifs with hfull
        · omega
        · have hrest := ihopen rest hopen (by rw [List.length_cons]; omega)
          omega
      | none =>
        rw [peak_tag hnot hopen, peak_tag hnot hopen]
        cases htag : afterTag s with
        | none =>
          rw [Option.map_none, Option.map_none, Option.getD_none]
          omega
        | some rest =>
          have hrest := ihtag rest htag houter
          rw [Option.map_some, Option.map_some, Option.getD_some, Option.getD_some]
          omega
  | case2 outer s rest hand ih =>
    rw [peak_and hand, peak_and hand]
    exact ih houter
  | case3 outer s hand rest hor ih =>
    rw [peak_or hand hor, peak_or hand hor]
    exact ih houter
  | case4 s hand hor rest hclose n outer ih =>
    rw [peak_close hand hor, peak_close hand hor, hclose]
    exact ih (Nat.le_of_succ_le houter)
  | case5 s hand hor rest hclose =>
    rw [peak_nil hand hor, peak_nil hand hor]
    omega
  | case6 outer s hand hor hclose =>
    cases outer with
    | nil =>
      rw [peak_nil hand hor, peak_nil hand hor]
      omega
    | cons n outer =>
      rw [peak_close hand hor, peak_close hand hor, hclose, Option.map_none, Option.map_none,
        Option.getD_none]
      omega

theorem pendingNegations_le_recursionDepth (text : Str) :
    pendingNegations text ≤ recursionDepth text
      ∧ recursionDepth text ≤ 3 * (maxStructuralDepth + 1) + pendingNegations text :=
  peak_bounds (some 0) [] text (Nat.zero_le _)

/-! ## The same parser -/

/-- A run that does not overflow has the parser's result. -/
def Agrees (run : Run) (s : Str) (parsed : Option (Truth × Str)) : Prop :=
  match run with
  | .overflow => True
  | .stopped => parsed = none
  | .read value rest => parsed = some (value, rest) ∧ rest.length ≤ s.length

theorem Agrees.of_length_le {run : Run} {s s' : Str} {parsed : Option (Truth × Str)}
    (h : Agrees run s parsed) (hlength : s.length ≤ s'.length) : Agrees run s' parsed := by
  cases run with
  | overflow => trivial
  | stopped => exact h
  | read value rest => exact ⟨h.1, h.2.trans hlength⟩

theorem Agrees.andThen {run : Run} {s : Str} {parsed : Option (Truth × Str)}
    {next : Truth → Str → Run} {next' : Truth × Str → Option (Truth × Str)}
    (h : Agrees run s parsed)
    (hnext : ∀ value rest, rest.length ≤ s.length →
      Agrees (next value rest) rest (next' (value, rest))) :
    Agrees (run.andThen next) s (parsed.bind next') := by
  cases run with
  | overflow => trivial
  | stopped =>
    rw [show parsed = none from h]
    rfl
  | read value rest =>
    obtain ⟨rfl, hlength⟩ := h
    exact Agrees.of_length_le (hnext value rest hlength) hlength

/-- The loops of the parser do the rounds. -/
theorem agrees_operands {token : Str} {combine : Truth → Truth → Truth} {operand : Str → Run}
    {parser : Nat → Str → Option (Truth × Str)} {loop : Nat → Truth → Str → Option (Truth × Str)}
    (hne : token ≠ [])
    (hloop : ∀ fuel value s, loop (fuel + 1) value s = match stripPrefix token (skipSpace s) with
      | none => some (value, skipSpace s)
      | some s => (parser fuel s).bind fun parsed => loop fuel (combine value parsed.1) parsed.2)
    (hoperand : ∀ fuel s, 3 * s.length + 3 ≤ fuel → Agrees (operand s) s (parser fuel s))
    {rounds fuel : Nat} (value : Truth) {s : Str} (hrounds : s.length ≤ rounds)
    (hfuel : 3 * s.length + 1 ≤ fuel) :
    Agrees (operands token combine operand rounds value s) s (loop fuel value s) := by
  induction rounds generalizing fuel value s with
  | zero =>
    obtain ⟨fuel, rfl⟩ := Nat.exists_eq_add_of_le' (Nat.le_of_add_left_le hfuel)
    have hnone : stripPrefix token (skipSpace s) = none := by
      refine Option.eq_none_iff_forall_ne_some.mpr fun rest hrest => ?_
      have hshort := length_of_stripPrefix hne hrest
      omega
    rw [hloop, hnone]
    exact ⟨rfl, length_skipSpace_le s⟩
  | succ rounds ih =>
    obtain ⟨fuel, rfl⟩ := Nat.exists_eq_add_of_le' (Nat.le_of_add_left_le hfuel)
    rw [operands, hloop]
    cases hrest : stripPrefix token (skipSpace s) with
    | none => exact ⟨rfl, length_skipSpace_le s⟩
    | some rest =>
      have hshort := length_of_stripPrefix hne hrest
      refine Agrees.of_length_le ((hoperand fuel rest (by omega)).andThen ?_) (Nat.le_of_lt hshort)
      intro other rest' hlength
      exact ih _ (by omega) (by omega)

theorem agrees_within (target : GoTarget) (calls : Nat) :
    (∀ fuel depth s, 3 * s.length + 3 ≤ fuel →
        Agrees (orWithin target calls depth s) s (parseOr target fuel depth s))
      ∧ (∀ fuel depth s, 3 * s.length + 2 ≤ fuel →
        Agrees (andWithin target calls depth s) s (parseAnd target fuel depth s))
      ∧ ∀ fuel depth s, 3 * s.length + 1 ≤ fuel →
        Agrees (unaryWithin target calls depth s) s (parseUnary target fuel depth s) := by
  induction calls with
  | zero => exact ⟨fun _ _ _ _ => trivial, fun _ _ _ _ => trivial, fun _ _ _ _ => trivial⟩
  | succ calls ih =>
    obtain ⟨ihor, ihand, ihunary⟩ := ih
    refine ⟨?_, ?_, ?_⟩
    · intro fuel depth s hfuel
      obtain ⟨fuel, rfl⟩ := Nat.exists_eq_add_of_le' (show 1 ≤ fuel by omega)
      rw [orWithin, parseOr]
      refine (ihand fuel depth s (by omega)).andThen ?_
      intro value rest hlength
      have hloop := @agrees_operands (ascii "||") Truth.or (andWithin target calls depth)
        (fun fuel => parseAnd target fuel depth) (fun fuel => parseOrRest target fuel depth)
      -- The loop and its operands share the fuel that the first operand leaves.
      refine hloop (by decide) ?_ ?_ value le_rfl (by omega)
      · intro fuel value s
        rw [parseOrRest]
        rfl
      · intro fuel s hfuel
        exact ihand fuel depth s (by omega)
    · intro fuel depth s hfuel
      obtain ⟨fuel, rfl⟩ := Nat.exists_eq_add_of_le' (show 1 ≤ fuel by omega)
      rw [andWithin, parseAnd]
      refine (ihunary fuel depth s (by omega)).andThen ?_
      intro value rest hlength
      have hloop := @agrees_operands (ascii "&&") Truth.and (unaryWithin target calls depth)
        (fun fuel => parseUnary target fuel depth) (fun fuel => parseAndRest target fuel depth)
      refine hloop (by decide) ?_ ?_ value le_rfl (by omega)
      · intro fuel value s
        rw [parseAndRest]
        rfl
      · intro fuel s hfuel
        exact ihunary fuel depth s (by omega)
    · intro fuel depth s hfuel
      obtain ⟨fuel, rfl⟩ := Nat.exists_eq_add_of_le' (show 1 ≤ fuel by omega)
      rw [unaryWithin, parseUnary]
      dsimp only
      cases hnot : stripPrefix (ascii "!") (skipSpace s) with
      | some rest =>
        have hshort := length_of_stripPrefix (by decide) hnot
        refine Agrees.of_length_le ((ihunary fuel depth rest (by omega)).andThen ?_)
          (Nat.le_of_lt hshort)
        intro value rest' _
        exact ⟨rfl, le_rfl⟩
      | none =>
        cases hopen : stripPrefix (ascii "(") (skipSpace s) with
        | some rest =>
          have hshort := length_of_stripPrefix (by decide) hopen
          dsimp only
          split_ifs with hdepth
          · rfl
          · refine Agrees.of_length_le ((ihor fuel (depth + 1) rest (by omega)).andThen ?_)
              (Nat.le_of_lt hshort)
            intro value rest' _
            dsimp only
            cases hclose : stripPrefix (ascii ")") (skipSpace rest') with
            | none => rfl
            | some rest'' =>
              exact ⟨rfl, Nat.le_of_lt (length_of_stripPrefix (by decide) hclose)⟩
        | none =>
          have htag := afterTag_skipSpace target s
          dsimp only
          cases hparse : parseTag target (skipSpace s) with
          | none => rfl
          | some parsed =>
            rw [hparse] at htag
            exact ⟨rfl, Nat.le_of_lt (length_of_afterTag htag)⟩

/-- `BuildExpression::parse`, with room for so many open calls. -/
def parseWithin (bound : Nat) (source : Str) (target : GoTarget) : Option Truth :=
  match orWithin target bound 0 source with
  | .overflow => none
  | .stopped => some .unknown
  | .read value rest => some (if skipSpace rest = [] then value else .unknown)

/-- A run with room enough has the value of the parser. -/
theorem parseWithin_eq_some {bound : Nat} {source : Str} {target : GoTarget} {value : Truth}
    (h : parseWithin bound source target = some value) : parse source target = value := by
  have hagrees := (agrees_within target bound).1 (4 * source.length + 8) 0 source (by omega)
  rw [parseWithin] at h
  rw [parse]
  cases hrun : orWithin target bound 0 source with
  | overflow =>
    rw [hrun] at h
    cases h
  | stopped =>
    rw [hrun] at h hagrees
    rw [show parseOr _ _ _ _ = none from hagrees]
    exact Option.some.inj h
  | read value' rest =>
    rw [hrun] at h hagrees
    rw [hagrees.1]
    exact Option.some.inj h

theorem parseWithin_ne_none_iff (bound : Nat) (source : Str) (target : GoTarget) :
    parseWithin bound source target ≠ none ↔ recursionDepth source ≤ bound := by
  rw [← orWithin_ne_overflow_iff target, parseWithin]
  cases orWithin target bound 0 source <;> simp

/-! ## Which texts are parsed within a bound -/

/-- Parentheses are bounded, negations are not: on a set of texts the recursion is bounded
    exactly when the negations that the parser has open at once are. -/
theorem recursion_bounded_iff (sources : Set Str) :
    (∀ bound source target value, parseWithin bound source target = some value →
        parse source target = value)
      ∧ (∀ bound source target, parseWithin bound source target ≠ none
        ↔ recursionDepth source ≤ bound)
      ∧ (∀ n source target, pendingNegations source ≤ n →
        parseWithin (3 * (maxStructuralDepth + 1) + n) source target ≠ none)
      ∧ ((∃ bound, ∀ source ∈ sources, ∀ target, parseWithin bound source target ≠ none)
        ↔ ∃ n, ∀ source ∈ sources, pendingNegations source ≤ n) := by
  have henough : ∀ n source target, pendingNegations source ≤ n →
      parseWithin (3 * (maxStructuralDepth + 1) + n) source target ≠ none := by
    intro n source target hpending
    have hdepth := (pendingNegations_le_recursionDepth source).2
    exact (parseWithin_ne_none_iff _ source target).mpr (by omega)
  refine ⟨fun _ _ _ _ => parseWithin_eq_some, parseWithin_ne_none_iff, henough, ?_, ?_⟩
  · rintro ⟨bound, hbound⟩
    refine ⟨bound, fun source hsource => ?_⟩
    have hdepth := (parseWithin_ne_none_iff bound source ⟨[], [], false⟩).mp
      (hbound source hsource _)
    exact (pendingNegations_le_recursionDepth source).1.trans hdepth
  · rintro ⟨n, hn⟩
    exact ⟨_, fun source hsource target => henough n source target (hn source hsource)⟩

/-- A tag behind so many negations. -/
def negated (n : Nat) (tag : Str) : Str := List.replicate n (byte '!') ++ tag

theorem le_peak_negated (n pending : Nat) (tag : Str) :
    pending + n ≤ peak 0 (some pending) [] (negated n tag) := by
  induction n generalizing pending with
  | zero =>
    have hcost := cost_le_peak 0 pending [] (negated 0 tag)
    rw [cost_cons] at hcost
    omega
  | succ n ih =>
    have hnot : stripPrefix (ascii "!") (skipSpace (negated (n + 1) tag))
        = some (negated n tag) := by
      rw [negated, List.replicate_succ, List.cons_append, skipSpace_cons (by decide)]
      exact stripPrefix_append (ascii "!") _
    have hnext := ih (pending + 1)
    rw [peak_not hnot]
    omega

/-- No bound is enough for all texts, and deep negations are not given up. -/
theorem negations_unbounded :
    (∀ bound, ∃ source, ∀ target, parseWithin bound source target = none)
      ∧ parse (negated 300 (ascii "linux")) ⟨ascii "linux", ascii "amd64", false⟩
        = .true := by
  refine ⟨fun bound => ⟨negated (bound + 1) (ascii "linux"), fun target => ?_⟩, by decide +kernel⟩
  by_contra hne
  have hdepth := (parseWithin_ne_none_iff bound _ target).mp hne
  have hpending := (pendingNegations_le_recursionDepth _).1.trans hdepth
  have hnegated := le_peak_negated (bound + 1) 0 (ascii "linux")
  have hle : 0 + (bound + 1) ≤ bound := hnegated.trans hpending
  omega

end Opcore.Go.BuildExpression
