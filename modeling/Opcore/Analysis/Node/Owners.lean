/-
  Opcore.Analysis.Node.Owners

  Functions lie inside one another or side by side, so the functions around a token
  form a chain.  `functionOwners` gives every token to the innermost of them.
-/
import Opcore.Analysis.Node.Metrics

namespace Opcore.NodeMetrics

/-! ## Functions around a token -/

def FunctionFact.Covers (function : FunctionFact) (token : Nat) : Prop :=
  function.start ≤ token ∧ token ≤ function.finish

def FunctionFact.Within (inner outer : FunctionFact) : Prop :=
  outer.start ≤ inner.start ∧ inner.finish ≤ outer.finish

/-- Token ranges of functions as a parser gives them: two of them are side by side, or
    one lies inside the other. -/
structure Laminar (functions : List FunctionFact) : Prop where
  start_le : ∀ {i : Nat} {function : FunctionFact}, functions[i]? = some function →
    function.start ≤ function.finish
  nested : ∀ {i j : Nat} {f g : FunctionFact}, i ≠ j → functions[i]? = some f → functions[j]? = some g →
    f.finish < g.start ∨ g.finish < f.start ∨ (f.Within g ∧ ¬ g.Within f)
      ∨ (g.Within f ∧ ¬ f.Within g)

/-- A token of a function that is not a token of a function nested in it. -/
def Owns (functions : List FunctionFact) (index token : Nat) : Prop :=
  ∃ function, functions[index]? = some function ∧ function.Covers token
    ∧ ∀ j nested, j ≠ index → functions[j]? = some nested → nested.Within function →
      ¬ nested.Covers token

section Stack

variable {functions : List FunctionFact} {token : Nat}

theorem finishOf_eq {index : Nat} {function : FunctionFact}
    (h : functions[index]? = some function) : finishOf functions index = function.finish := by
  simp [finishOf, h]

theorem mem_startsAt {index : Nat} :
    index ∈ startsAt functions token
      ↔ ∃ function, functions[index]? = some function ∧ function.start = token := by
  rw [startsAt, List.mem_insertionSort, List.mem_filter, List.mem_range]
  constructor
  · rintro ⟨-, hany⟩
    obtain ⟨function, hget, hstart⟩ := (Option.any_eq_true _ _).mp hany
    exact ⟨function, hget, of_decide_eq_true hstart⟩
  · rintro ⟨function, hget, hstart⟩
    obtain ⟨hlt, -⟩ := List.getElem?_eq_some_iff.mp hget
    exact ⟨hlt, by simp [hget, hstart]⟩

theorem pairwise_startsAt : (startsAt functions token).reverse.Pairwise fun i j =>
    finishOf functions i ≤ finishOf functions j := by
  rw [List.pairwise_reverse]
  have htotal : Std.Total fun left right => finishOf functions right ≤ finishOf functions left :=
    ⟨fun a b => le_total (finishOf functions b) (finishOf functions a)⟩
  have htrans : IsTrans Nat fun left right => finishOf functions right ≤ finishOf functions left :=
    ⟨fun a b c hab hbc => hbc.trans hab⟩
  exact List.pairwise_insertionSort _ _

/-- Where an earlier element fails, the later ones fail too: what is dropped is all that
    holds. -/
theorem dropWhile_eq_filter {α : Type*} {p : α → Bool} {l : List α}
    (h : l.Pairwise fun a b => p b = true → p a = true) :
    l.dropWhile p = l.filter fun a => !p a := by
  induction l with
  | nil => rfl
  | cons a l ih =>
    obtain ⟨ha, hl⟩ := List.pairwise_cons.mp h
    cases hp : p a with
    | true => simp [hp, ih hl]
    | false =>
      have hrest : l.filter (fun b => !p b) = l := by
        refine List.filter_eq_self.mpr fun b hb => ?_
        cases hb' : p b with
        | true => rw [ha b hb hb'] at hp; cases hp
        | false => rfl
      simp [hp, hrest]

/-- The functions around a token, innermost first. -/
structure Around (functions : List FunctionFact) (token : Nat) (stack : List Nat) : Prop where
  mem : ∀ index, index ∈ stack
    ↔ ∃ function, functions[index]? = some function ∧ function.Covers token
  ordered : stack.Pairwise fun i j => ∀ f g, functions[i]? = some f → functions[j]? = some g →
    f.Within g

/-- The functions around a token are those around the one before it that do not end there,
    and those that start at it. -/
theorem around_enterToken (hlaminar : Laminar functions) {stack : List Nat}
    (hmem : ∀ index, index ∈ stack ↔ ∃ function, functions[index]? = some function
      ∧ function.start < token ∧ token ≤ function.finish + 1)
    (hordered : stack.Pairwise fun i j => ∀ f g, functions[i]? = some f →
      functions[j]? = some g → f.Within g) :
    Around functions token (enterToken functions stack token) := by
  have hfinish : stack.Pairwise fun i j =>
      decide (finishOf functions j < token) = true → decide (finishOf functions i < token) = true := by
    refine hordered.imp_of_mem fun {i j} hi hj hwithin hlt => ?_
    obtain ⟨f, hf, -⟩ := (hmem i).mp hi
    obtain ⟨g, hg, -⟩ := (hmem j).mp hj
    have hle := (hwithin f g hf hg).2
    rw [decide_eq_true_eq, finishOf_eq hg] at hlt
    rw [decide_eq_true_eq, finishOf_eq hf]
    omega
  have hkept : ∀ index, index ∈ stack.filter (fun index => !decide (finishOf functions index < token))
      ↔ ∃ function, functions[index]? = some function ∧ function.start < token
        ∧ token ≤ function.finish := by
    intro index
    rw [List.mem_filter, hmem index]
    constructor
    · rintro ⟨⟨function, hget, hstart, -⟩, hend⟩
      rw [finishOf_eq hget] at hend
      exact ⟨function, hget, hstart, by simpa using hend⟩
    · rintro ⟨function, hget, hstart, hend⟩
      refine ⟨⟨function, hget, hstart, Nat.le_succ_of_le hend⟩, ?_⟩
      rw [finishOf_eq hget]
      simpa using hend
  rw [enterToken, dropWhile_eq_filter hfinish]
  constructor
  · intro index
    rw [List.mem_append, List.mem_reverse, mem_startsAt, hkept index]
    constructor
    · rintro (⟨function, hget, hstart⟩ | ⟨function, hget, hstart, hend⟩)
      · exact ⟨function, hget, hstart.le, hstart ▸ hlaminar.start_le hget⟩
      · exact ⟨function, hget, hstart.le, hend⟩
    · rintro ⟨function, hget, hstart, hend⟩
      obtain hlt | heq := Nat.lt_or_eq_of_le hstart
      · exact .inr ⟨function, hget, hlt, hend⟩
      · exact .inl ⟨function, hget, heq⟩
  · rw [List.pairwise_append]
    refine ⟨?_, hordered.filter _, ?_⟩
    · refine pairwise_startsAt.imp_of_mem fun {i j} hi hj hle f g hf hg => ?_
      obtain ⟨f', hf', hstart⟩ := mem_startsAt.mp (List.mem_reverse.mp hi)
      obtain ⟨g', hg', hstart'⟩ := mem_startsAt.mp (List.mem_reverse.mp hj)
      cases hf.symm.trans hf'
      cases hg.symm.trans hg'
      rw [finishOf_eq hf, finishOf_eq hg] at hle
      exact ⟨(hstart'.trans hstart.symm).le, hle⟩
    · intro i hi j hj f g hf hg
      obtain ⟨f', hf', hstart⟩ := mem_startsAt.mp (List.mem_reverse.mp hi)
      obtain ⟨g', hg', hstart', hend⟩ := (hkept j).mp hj
      cases hf.symm.trans hf'
      cases hg.symm.trans hg'
      have hne : i ≠ j := by
        rintro rfl
        cases hf.symm.trans hg
        omega
      -- The one that starts later lies inside the one that is still open.
      have hnonempty := hlaminar.start_le hf
      obtain hside | hside | hin | hout := hlaminar.nested hne hf hg
      · omega
      · omega
      · exact hin.1
      · have hstarts := hout.1.1
        omega

theorem around_ownerStack (hlaminar : Laminar functions) (token : Nat) :
    Around functions token (ownerStack functions token) := by
  induction token with
  | zero =>
    refine around_enterToken hlaminar (fun index => ?_) List.Pairwise.nil
    simp
  | succ token ih =>
    refine around_enterToken hlaminar (fun index => ?_) ih.ordered
    rw [ih.mem index]
    simp only [FunctionFact.Covers, Nat.lt_succ_iff, Nat.succ_le_succ_iff]

/-- Every token is given to the innermost function around it. -/
theorem functionOwners_eq_some_iff (hlaminar : Laminar functions) {tokenCount index : Nat}
    (htoken : token < tokenCount) :
    (functionOwners functions tokenCount)[token]?.join = some index
      ↔ Owns functions index token := by
  have haround := around_ownerStack hlaminar token
  have hget : (functionOwners functions tokenCount)[token]?.join
      = (ownerStack functions token).head? := by
    rw [functionOwners, List.getElem?_map, List.getElem?_range htoken]
    rfl
  rw [hget]
  obtain ⟨hmem, hordered⟩ := haround
  constructor
  · intro hhead
    obtain ⟨rest, hstack⟩ := List.head?_eq_some_iff.mp hhead
    rw [hstack] at hmem hordered
    obtain ⟨function, hfunction, hcovers⟩ := (hmem index).mp List.mem_cons_self
    refine ⟨function, hfunction, hcovers, fun j nested hne hnested hwithin hnested_covers => ?_⟩
    have hj := (hmem j).mpr ⟨nested, hnested, hnested_covers⟩
    have hrest := (List.mem_cons.mp hj).resolve_left hne
    have hinside := (List.pairwise_cons.mp hordered).1 j hrest function nested hfunction hnested
    obtain ⟨hstart, hfinish⟩ := hcovers
    obtain ⟨hstart', hfinish'⟩ := hnested_covers
    obtain hside | hside | hin | hout := hlaminar.nested hne hnested hfunction
    · omega
    · omega
    · exact hin.2 hinside
    · exact hout.2 hwithin
  · rintro ⟨function, hfunction, hcovers, hinnermost⟩
    have hin := (hmem index).mpr ⟨function, hfunction, hcovers⟩
    cases hstack : ownerStack functions token with
    | nil =>
      rw [hstack] at hin
      cases hin
    | cons first rest =>
      rw [hstack] at hmem hordered hin
      obtain rfl | hrest := List.mem_cons.mp hin
      · rfl
      · by_cases heq : first = index
        · exact congrArg some heq
        · obtain ⟨nested, hnested, hnested_covers⟩ := (hmem first).mp List.mem_cons_self
          have hwithin := (List.pairwise_cons.mp hordered).1 index hrest nested function hnested
            hfunction
          exact absurd hnested_covers (hinnermost first nested heq hnested hwithin)

end Stack

end Opcore.NodeMetrics
