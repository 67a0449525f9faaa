/-
  Opcore.Protocol.Native.Outline

  What the walk over a source records, without its bounds and its joined keys:
  every recorded stretch with the list of names that leads to it.  The walk of
  the collector refines this one (`scopeRanges_eq_ok`), and the outline of a
  text inside braces does not depend on what surrounds it
  (`foldl_step_framed`).
-/
import Opcore.Library.Fallible
import Opcore.Protocol.Native.Scopes

namespace Opcore.Native

open Text

/-- A recorded stretch of the source and the names that lead to it. -/
structure Stretch where
  start : Nat
  stop : Nat
  names : List Str
  deriving DecidableEq

/-- The outline of the tokens read so far.  `opened` holds, innermost first,
    what the header in front of each unclosed brace declares. -/
structure Outline where
  found : List Stretch
  opened : List (Option (Str × Nat))
  header : Header
  offset : Nat

/-- The names declared in front of unclosed braces, outermost first. -/
def namesOf (opened : List (Option (Str × Nat))) : List Str :=
  (opened.filterMap fun declared => declared.map Prod.fst).reverse

@[simp] theorem namesOf_nil : namesOf [] = [] := rfl

@[simp] theorem namesOf_none (opened : List (Option (Str × Nat))) :
    namesOf (none :: opened) = namesOf opened := rfl

@[simp] theorem namesOf_some (component : Str) (start : Nat) (opened : List (Option (Str × Nat))) :
    namesOf (some (component, start) :: opened) = namesOf opened ++ [component] := by
  simp [namesOf]

theorem namesOf_append (inner outer : List (Option (Str × Nat))) :
    namesOf (inner ++ outer) = namesOf outer ++ namesOf inner := by
  simp [namesOf, List.filterMap_append, List.reverse_append]

namespace Outline

def new : Outline := ⟨[], [], [], 0⟩

/-- What closing a brace records. -/
def closing (declared : Option (Str × Nat)) (outer : List (Option (Str × Nat))) (stop : Nat) :
    List Stretch :=
  (declared.map fun (component, start) => ⟨start, stop, namesOf outer ++ [component]⟩).toList

def readIdentifier (outline : Outline) (identifier : Str) (start : Nat) : Outline :=
  if maxHeaderIdentifiers ≤ outline.header.length then outline
  else { outline with header := outline.header ++ [(identifier, start)] }

def openBrace (outline : Outline) : Outline :=
  { outline with opened := scopeDeclaration outline.header :: outline.opened, header := [] }

def closeBrace (outline : Outline) : Outline :=
  match outline.opened with
  | [] => { outline with header := [] }
  | declared :: outer =>
    { outline with
      found := outline.found ++ closing declared outer outline.offset
      opened := outer
      header := [] }

def endStatement (outline : Outline) : Outline :=
  { outline with
    found := outline.found
      ++ closing (scopeDeclaration outline.header) outline.opened outline.offset
    header := [] }

def step (outline : Outline) (token : Token) : Outline :=
  let start := outline.offset
  let outline := { outline with offset := outline.offset + token.text.length }
  match token.kind with
  | .ident | .rawIdent => outline.readIdentifier token.text start
  | .openBrace => outline.openBrace
  | .closeBrace => outline.closeBrace
  | .semi => outline.endStatement
  | .other => outline

/-- What is recorded for the braces still open at the end. -/
def closingAll (stop : Nat) : List (Option (Str × Nat)) → List Stretch
  | [] => []
  | declared :: outer => closing declared outer stop ++ closingAll stop outer

def finish (outline : Outline) : List Stretch :=
  outline.found ++ closingAll outline.offset outline.opened

end Outline

/-- The outline of a run of tokens. -/
def outlineOf (tokens : List Token) : Outline := tokens.foldl Outline.step .new

/-! ## What a declaration is read as -/

/-- A component is read off the header it starts in, and says which keyword it
    was read from. -/
structure Declares (header : Header) (component : Str) (start : Nat) : Prop where
  starts : ∃ identifier, (identifier, start) ∈ header
  colon : byte ':' ∈ component
  no_slash : (∀ entry ∈ header, byte '/' ∉ entry.1) → byte '/' ∉ component

theorem Declares.cons {header : Header} {component : Str} {start : Nat} {entry : Str × Nat}
    (h : Declares header component start) : Declares (entry :: header) component start where
  starts := by
    obtain ⟨identifier, hmem⟩ := h.starts
    exact ⟨identifier, List.mem_cons_of_mem _ hmem⟩
  colon := h.colon
  no_slash hall := h.no_slash fun entry' h' => hall entry' (List.mem_cons_of_mem _ h')

theorem mem_trimRaw {b : UInt8} {text : Str} (h : b ∈ trimRaw text) : b ∈ text := by
  induction text using trimRaw.induct with
  | case1 rest ih =>
    rw [trimRaw] at h
    exact List.mem_cons_of_mem _ (List.mem_cons_of_mem _ (ih h))
  | case2 text hne =>
    rwa [trimRaw] at h
    exact hne

theorem mem_joinBytes {b c : UInt8} {parts : List Str} (h : b ∈ joinBytes c parts) :
    b = c ∨ ∃ part ∈ parts, b ∈ part := by
  induction parts with
  | nil => simp [joinBytes] at h
  | cons first rest ih =>
    cases rest with
    | nil =>
      refine .inr ⟨first, List.mem_cons_self .., ?_⟩
      simpa [joinBytes] using h
    | cons second rest =>
      simp only [joinBytes, List.intercalate_cons_cons, List.mem_append, List.mem_singleton] at h
      rcases h with (hfirst | hsep) | hrest
      · exact .inr ⟨first, List.mem_cons_self .., hfirst⟩
      · exact .inl hsep
      · rcases ih hrest with heq | ⟨part, hpart, hb⟩
        · exact .inl heq
        · exact .inr ⟨part, List.mem_cons_of_mem _ hpart, hb⟩

theorem keyword_no_slash {keyword : Str} (h : keyword ∈ declarationKeywords) :
    byte '/' ∉ keyword := by
  have hall : ∀ keyword ∈ declarationKeywords, byte '/' ∉ keyword := by decide
  exact hall keyword h

variable {header : Header} {component : Str} {start : Nat}

theorem declares_of_scanDeclaration (h : scanDeclaration header = some (some (component, start))) :
    Declares header component start := by
  induction header with
  | nil => cases h
  | cons entry rest ih =>
    obtain ⟨keyword, position⟩ := entry
    rw [scanDeclaration] at h
    cases hrest : scanDeclaration rest with
    | some found =>
      rw [hrest] at h
      exact (ih (hrest.trans h)).cons
    | none =>
      simp only [hrest] at h
      split_ifs at h with hkeyword himpl hempty
      · -- a keyword followed by the name of the item
        cases rest with
        | nil => simp at h
        | cons name rest =>
          simp only [List.head?_cons, Option.map_some, Option.some.injEq, Prod.mk.injEq] at h
          obtain ⟨rfl, rfl⟩ := h
          refine ⟨⟨keyword, List.mem_cons_self ..⟩, by simp [ascii, byte], fun hall => ?_⟩
          have hname := hall name (by simp)
          intro hmem
          rcases List.mem_append.mp hmem with hmem | hmem
          · rcases List.mem_append.mp hmem with hmem | hmem
            · exact keyword_no_slash hkeyword hmem
            · exact absurd hmem (by decide)
          · exact hname (mem_trimRaw hmem)
      · -- an implementation with the identifiers of its header
        simp only [Option.some.injEq, Prod.mk.injEq] at h
        obtain ⟨rfl, rfl⟩ := h
        refine ⟨⟨keyword, List.mem_cons_self ..⟩, by simp [ascii, byte], fun hall => ?_⟩
        intro hmem
        rcases List.mem_append.mp hmem with hmem | hmem
        · exact absurd hmem (by decide)
        · rcases mem_joinBytes hmem with heq | ⟨part, hpart, hb⟩
          · exact absurd heq (by decide)
          · obtain ⟨entry, hentry, rfl⟩ := List.mem_map.mp hpart
            exact hall entry (List.mem_cons_of_mem _ hentry) hb

theorem declares_of_scopeDeclaration
    (h : scopeDeclaration header = some (component, start)) : Declares header component start :=
  declares_of_scanDeclaration (Option.join_eq_some_iff.mp h)

/-! ## The collector refines the outline -/

/-- A stretch under its joined key. -/
def Stretch.render (stretch : Stretch) : ScopeRange :=
  ⟨stretch.start, stretch.stop, joinBytes (byte '/') stretch.names⟩

/-- The open scopes of the collector stand for what the outline holds open. -/
inductive Stands : List OpenScope → List (Option (Str × Nat)) → Prop where
  | nil : Stands [] []
  | unnamed {scope scopes opened} (hnamed : scope.named = false) (h : Stands scopes opened) :
      Stands (scope :: scopes) (none :: opened)
  | named {scopes opened component start} (h : Stands scopes opened) :
      Stands (⟨true, start, joinBytes (byte '/') (namesOf opened ++ [component])⟩ :: scopes)
        (some (component, start) :: opened)

structure Refines (c : ScopeCollector) (outline : Outline) : Prop where
  ranges : c.ranges = outline.found.map Stretch.render
  scopes : Stands c.scopes outline.opened
  names : c.names = namesOf outline.opened
  header : c.header = outline.header
  offset : c.offset = outline.offset
  nonempty : ∀ name ∈ namesOf outline.opened, name ≠ []

theorem refines_new : Refines .new .new := ⟨rfl, .nil, rfl, rfl, rfl, by simp [Outline.new]⟩

variable {c c' : ScopeCollector}

theorem pushScope_eq_ok {scope : ScopeRange}
    (h : c.pushScope scope = .ok c') : c' = { c with ranges := c.ranges ++ [scope] } := by
  unfold ScopeCollector.pushScope at h
  split_ifs at h
  exact (Except.ok.inj h).symm

/-- Joining one more part, the way a statement extends the names it stands in. -/
theorem joinBytes_snoc (c : UInt8) {parts : List Str} (part : Str) (h : ∀ p ∈ parts, p ≠ []) :
    joinBytes c (parts ++ [part])
      = (if (joinBytes c parts).isEmpty then joinBytes c parts else joinBytes c parts ++ [c])
        ++ part := by
  cases parts with
  | nil => simp [joinBytes]
  | cons first rest =>
    have hne : (joinBytes c (first :: rest)).isEmpty = false := by
      cases rest with
      | nil => simpa [joinBytes] using h first (List.mem_cons_self ..)
      | cons second rest => simp [joinBytes]
    have hsnoc : ∀ (rest : List Str) (first : Str), joinBytes c (first :: rest ++ [part])
        = joinBytes c (first :: rest) ++ [c] ++ part := by
      intro rest
      induction rest with
      | nil => intro first; simp [joinBytes]
      | cons second rest ih =>
        intro first
        have := ih second
        simp only [joinBytes, List.cons_append, List.intercalate_cons_cons] at this ⊢
        rw [this]
        simp
    rw [hne, hsnoc]
    rfl

/-- Closing a scope records what closing its brace does. -/
theorem finishScope_eq_ok {scope : OpenScope} {scopes : List OpenScope}
    {declared : Option (Str × Nat)} {outer : List (Option (Str × Nat))}
    (hstands : Stands (scope :: scopes) (declared :: outer))
    (hnames : c.names = namesOf (declared :: outer)) (h : c.finishScope scope = .ok c') :
    Stands scopes outer ∧ c' = { c with
      ranges := c.ranges ++ (Outline.closing declared outer c.offset).map Stretch.render
      names := namesOf outer } := by
  unfold ScopeCollector.finishScope at h
  cases hstands with
  | unnamed hnamed hstands =>
    rw [hnamed, if_neg Bool.false_ne_true] at h
    cases h
    refine ⟨hstands, ?_⟩
    rw [namesOf_none] at hnames
    simp [Outline.closing, ← hnames]
  | @named _ _ component start hstands =>
    rw [if_pos rfl] at h
    split_ifs at h
    have hc' := pushScope_eq_ok h
    refine ⟨hstands, ?_⟩
    rw [hc', hnames, namesOf_some, List.dropLast_concat]
    simp [Outline.closing, Stretch.render]

variable {outline : Outline}

theorem Refines.acceptIdentifier {c : ScopeCollector} (h : Refines c outline)
    (identifier : Str) (start : Nat) :
    Refines (c.acceptIdentifier identifier start) (outline.readIdentifier identifier start) := by
  unfold ScopeCollector.acceptIdentifier Outline.readIdentifier
  rw [h.header]
  split_ifs
  · exact h
  · exact ⟨h.ranges, h.scopes, h.names, rfl, h.offset, h.nonempty⟩

theorem nonempty_snoc {names : List Str}
    (h : ∀ name ∈ names, name ≠ []) (hdeclares : Declares header component start) :
    ∀ name ∈ names ++ [component], name ≠ [] := by
  intro name hname
  rcases List.mem_append.mp hname with hname | hname
  · exact h name hname
  · rw [List.mem_singleton.mp hname]
    exact List.ne_nil_of_mem hdeclares.colon

theorem Refines.openScope (h : Refines c outline) (hopen : c.openScope start = .ok c') :
    Refines c' outline.openBrace := by
  unfold ScopeCollector.openScope at hopen
  unfold Outline.openBrace
  split_ifs at hopen
  rw [h.header] at hopen
  cases hdeclared : scopeDeclaration outline.header with
  | none =>
    simp only [hdeclared, Except.ok.injEq] at hopen
    subst hopen
    exact ⟨h.ranges, .unnamed rfl h.scopes, h.names, rfl, h.offset, h.nonempty⟩
  | some declared =>
    obtain ⟨component, start⟩ := declared
    simp only [hdeclared, Except.ok.injEq] at hopen
    subst hopen
    have hnames : c.names ++ [component]
        = namesOf (some (component, start) :: outline.opened) := by
      rw [h.names, namesOf_some]
    refine ⟨h.ranges, ?_, hnames, rfl, h.offset, ?_⟩
    · dsimp only
      rw [hnames, namesOf_some]
      exact .named h.scopes
    · dsimp only
      rw [namesOf_some]
      exact nonempty_snoc h.nonempty (declares_of_scopeDeclaration hdeclared)

theorem Refines.closeScope (h : Refines c outline)
    (hclose : c.closeScope = .ok c') : Refines c' outline.closeBrace := by
  unfold ScopeCollector.closeScope at hclose
  unfold Outline.closeBrace
  have hscopes := h.scopes
  cases hs : c.scopes with
  | nil =>
    rw [hs] at hclose
    cases hclose
  | cons scope scopes =>
    rw [hs] at hclose hscopes
    dsimp only at hclose
    obtain ⟨c₂, hfinish, hc'⟩ := Except.bind_eq_ok_iff.mp hclose
    cases hopened : outline.opened with
    | nil =>
      rw [hopened] at hscopes
      cases hscopes
    | cons declared outer =>
      rw [hopened] at hscopes
      have hnames : { c with scopes := scopes }.names = namesOf (declared :: outer) := by
        rw [h.names, hopened]
      obtain ⟨hstands, hc₂⟩ := finishScope_eq_ok hscopes hnames hfinish
      cases hc'
      subst hc₂
      refine ⟨?_, hstands, rfl, rfl, h.offset, fun name hname => ?_⟩
      · dsimp only
        rw [h.ranges, h.offset, List.map_append]
      · have hall := h.nonempty name
        rw [hopened] at hall
        refine hall ?_
        cases declared with
        | none => exact hname
        | some declared =>
          rw [namesOf_some]
          exact List.mem_append_left _ hname

theorem Refines.finishStatement (h : Refines c outline)
    (hfinish : c.finishStatement = .ok c') : Refines c' outline.endStatement := by
  unfold ScopeCollector.finishStatement at hfinish
  unfold Outline.endStatement
  rw [h.header] at hfinish
  cases hdeclared : scopeDeclaration outline.header with
  | none =>
    simp only [hdeclared, Except.ok.injEq] at hfinish
    subst hfinish
    refine ⟨?_, h.scopes, h.names, rfl, h.offset, h.nonempty⟩
    simpa [Outline.closing] using h.ranges
  | some declared =>
    obtain ⟨component, start⟩ := declared
    simp only [hdeclared] at hfinish
    obtain ⟨c₂, hpush, hc'⟩ := Except.bind_eq_ok_iff.mp hfinish
    have hc₂ := pushScope_eq_ok hpush
    cases hc'
    subst hc₂
    refine ⟨?_, h.scopes, h.names, rfl, h.offset, h.nonempty⟩
    have hkey := joinBytes_snoc (byte '/') component h.nonempty
    dsimp only
    rw [h.ranges, h.names, h.offset]
    simp only [Outline.closing, Option.map_some, Option.toList_some, List.map_append,
      List.map_cons, List.map_nil, Stretch.render, hkey]
    rfl

/-- One token: an accepted step of the collector is the step of the outline. -/
theorem Refines.accept {token : Token} (h : Refines c outline) (haccept : c.accept token = .ok c') :
    Refines c' (outline.step token) := by
  have hadvanced : Refines { c with offset := c.offset + token.text.length }
      { outline with offset := outline.offset + token.text.length } :=
    ⟨h.ranges, h.scopes, h.names, h.header, congrArg (· + token.text.length) h.offset, h.nonempty⟩
  unfold ScopeCollector.accept at haccept
  unfold Outline.step
  cases hkind : token.kind with
  | ident | rawIdent =>
    simp only [hkind, Except.ok.injEq] at haccept ⊢
    rw [← haccept, h.offset]
    exact (h.offset ▸ hadvanced).acceptIdentifier ..
  | openBrace =>
    simp only [hkind] at haccept ⊢
    exact hadvanced.openScope haccept
  | closeBrace =>
    simp only [hkind] at haccept ⊢
    exact hadvanced.closeScope haccept
  | semi =>
    simp only [hkind] at haccept ⊢
    exact hadvanced.finishStatement haccept
  | other =>
    simp only [hkind, Except.ok.injEq] at haccept ⊢
    exact haccept ▸ hadvanced

theorem Refines.foldlM {tokens : List Token}
    (h : Refines c outline) (hrun : tokens.foldlM ScopeCollector.accept c = .ok c') :
    Refines c' (tokens.foldl Outline.step outline) := by
  induction tokens generalizing c outline with
  | nil =>
    cases hrun
    exact h
  | cons token tokens ih =>
    rw [List.foldlM_cons] at hrun
    obtain ⟨c₂, haccept, hrest⟩ := Except.bind_eq_ok_iff.mp hrun
    exact ih (h.accept haccept) hrest

/-- Closing what is still open. -/
theorem finishAll_eq_ok {scopes : List OpenScope} {c : ScopeCollector} {ranges : List ScopeRange}
    {opened : List (Option (Str × Nat))} (hstands : Stands scopes opened)
    (hnames : c.names = namesOf opened) (h : c.finishAll scopes = .ok ranges) :
    ranges = c.ranges ++ (Outline.closingAll c.offset opened).map Stretch.render := by
  induction scopes generalizing c opened with
  | nil =>
    cases hstands
    cases h
    simp [Outline.closingAll]
  | cons scope scopes ih =>
    cases opened with
    | nil => cases hstands
    | cons declared outer =>
      rw [ScopeCollector.finishAll] at h
      obtain ⟨c₂, hfinish, hrest⟩ := Except.bind_eq_ok_iff.mp h
      obtain ⟨hstands, hc₂⟩ := finishScope_eq_ok hstands hnames hfinish
      subst hc₂
      rw [ih hstands rfl hrest, Outline.closingAll, List.map_append, List.append_assoc]

/-- The ranges of an accepted source are the stretches of its outline. -/
theorem scopeRanges_eq_ok {lexer : RustLexer} {bytes : Str} {ranges : List ScopeRange}
    (h : scopeRanges lexer bytes = .ok ranges) :
    ranges = (outlineOf (lexer.tokenize bytes)).finish.map Stretch.render := by
  unfold scopeRanges at h
  split_ifs at h
  obtain ⟨c, hrun, hfinish⟩ := Except.bind_eq_ok_iff.mp h
  have hrefines := refines_new.foldlM hrun
  have hranges := finishAll_eq_ok hrefines.scopes hrefines.names hfinish
  rw [hranges, hrefines.ranges, hrefines.offset, Outline.finish, List.map_append]
  rfl

end Opcore.Native
