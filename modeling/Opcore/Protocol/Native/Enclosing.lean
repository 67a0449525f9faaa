/-
  Opcore.Protocol.Native.Enclosing

  The innermost recorded stretch around an offset inside a pair of braces.
  The braces cut the recorded stretches in three: those closed before, which
  end too early; those of the text inside, which are its own outline moved into
  place (`foldl_step_framed`); and those closed afterwards, of which only the
  ones around the braces reach back to the offset (`exists_closedLater`).
-/
import Opcore.Protocol.Native.Outline

namespace Opcore.Native

open Text

/-! ## Smallest elements of a list -/

section Argmin

variable {α β γ : Type*} [LinearOrder γ]

theorem argmin_map (g : α → β) (width : β → γ) (l : List α) :
    (l.map g).argmin width = (l.argmin (width ∘ g)).map g := by
  induction l using List.reverseRecOn with
  | nil => rfl
  | append_singleton l a ih =>
    rw [List.map_append, List.map_cons, List.map_nil, List.argmin_concat, List.argmin_concat, ih]
    cases l.argmin (width ∘ g) with
    | none => rfl
    | some c =>
      simp only [Option.map_some, Function.comp_apply]
      split_ifs <;> rfl

/-- Elements that are all larger than those before do not matter. -/
theorem argmin_append_of_lt {width : α → γ} {l l' : List α} (hne : l ≠ [])
    (h : ∀ a ∈ l, ∀ b ∈ l', width a < width b) :
    (l ++ l').argmin width = l.argmin width := by
  induction l' using List.reverseRecOn with
  | nil => rw [List.append_nil]
  | append_singleton l' b ih =>
    have ih := ih fun a ha b' hb => h a ha b' (List.mem_append_left _ hb)
    rw [← List.append_assoc, List.argmin_concat, ih]
    cases hmin : l.argmin width with
    | none => exact absurd (List.argmin_eq_none.mp hmin) hne
    | some a =>
      have ha := List.argmin_mem hmin
      exact if_neg (h a ha b (by simp)).not_gt

/-- The first of elements of increasing size. -/
theorem argmin_cons_of_lt {width : α → γ} {a : α} {l : List α} (h : ∀ b ∈ l, width a < width b) :
    (a :: l).argmin width = some a := by
  have hsingle : ([a] ++ l).argmin width = [a].argmin width :=
    argmin_append_of_lt (List.cons_ne_nil a []) fun a' ha' => List.mem_singleton.mp ha' ▸ h
  exact hsingle

end Argmin

/-! ## The outline of a text in its place -/

/-- A declaration moved by `k` bytes. -/
def moved (k : Nat) (declared : Str × Nat) : Str × Nat := (declared.1, declared.2 + k)

/-- A stretch moved by `k` bytes into an item of the given names. -/
def Stretch.within (k : Nat) (names : List Str) (stretch : Stretch) : Stretch :=
  ⟨stretch.start + k, stretch.stop + k, names ++ stretch.names⟩

/-- An outline `k` bytes into a source where `found` was recorded and `outer` is open. -/
def Outline.framed (k : Nat) (found : List Stretch) (outer : List (Option (Str × Nat)))
    (outline : Outline) : Outline where
  found := found ++ outline.found.map (Stretch.within k (namesOf outer))
  opened := outline.opened.map (Option.map (moved k)) ++ outer
  header := outline.header.map (moved k)
  offset := outline.offset + k

theorem scanDeclaration_moved (k : Nat) (header : Header) :
    scanDeclaration (header.map (moved k))
      = (scanDeclaration header).map (Option.map (moved k)) := by
  induction header with
  | nil => rfl
  | cons entry rest ih =>
    obtain ⟨keyword, start⟩ := entry
    have hfirst : (rest.map (moved k)).map Prod.fst = rest.map Prod.fst := by
      rw [List.map_map]
      rfl
    have hhead : (rest.map (moved k)).head? = rest.head?.map (moved k) := List.head?_map
    change scanDeclaration ((keyword, start + k) :: rest.map (moved k)) = _
    rw [scanDeclaration, scanDeclaration, ih, hfirst, hhead]
    cases scanDeclaration rest with
    | some found => rfl
    | none =>
      dsimp only [Option.map_none]
      split_ifs
      · cases rest.head? <;> rfl
      · rfl
      · rfl
      · rfl

theorem scopeDeclaration_moved (k : Nat) (header : Header) :
    scopeDeclaration (header.map (moved k)) = (scopeDeclaration header).map (moved k) := by
  rw [scopeDeclaration, scopeDeclaration, scanDeclaration_moved]
  cases scanDeclaration header with
  | none => rfl
  | some found => rfl

theorem namesOf_moved (k : Nat) (opened : List (Option (Str × Nat))) :
    namesOf (opened.map (Option.map (moved k))) = namesOf opened := by
  induction opened with
  | nil => rfl
  | cons declared opened ih =>
    cases declared with
    | none => simpa using ih
    | some declared =>
      obtain ⟨component, start⟩ := declared
      simp only [List.map_cons, Option.map_some, moved, namesOf_some]
      rw [← ih]

theorem closing_moved (k stop : Nat) (declared : Option (Str × Nat))
    (opened outer : List (Option (Str × Nat))) :
    Outline.closing (declared.map (moved k)) (opened.map (Option.map (moved k)) ++ outer) (stop + k)
      = (Outline.closing declared opened stop).map (Stretch.within k (namesOf outer)) := by
  cases declared with
  | none => rfl
  | some declared =>
    obtain ⟨component, start⟩ := declared
    simp [Outline.closing, Stretch.within, moved, namesOf_append, namesOf_moved]

variable {outer : List (Option (Str × Nat))} {outline : Outline}

/-- One token reads the same in its place, unless it closes a brace opened outside. -/
theorem step_framed {k : Nat} {found : List Stretch} {token : Token}
    (h : token.kind = .closeBrace → outline.opened ≠ []) :
    (outline.framed k found outer).step token = (outline.step token).framed k found outer := by
  have hoffset : outline.offset + k + token.text.length = outline.offset + token.text.length + k := by
    omega
  unfold Outline.step
  cases hkind : token.kind with
  | ident | rawIdent =>
    simp only [Outline.readIdentifier, Outline.framed, List.length_map]
    split_ifs
    · simp [hoffset]
    · simp [hoffset, moved]
  | openBrace =>
    simp [Outline.openBrace, Outline.framed, hoffset, scopeDeclaration_moved]
  | closeBrace =>
    cases hopened : outline.opened with
    | nil => exact absurd hopened (h hkind)
    | cons declared opened =>
      simp only [Outline.closeBrace, Outline.framed, hopened, List.map_cons, List.cons_append,
        hoffset, closing_moved, List.map_append, List.map_nil, List.append_assoc]
  | semi =>
    simp only [Outline.endStatement, Outline.framed, hoffset, scopeDeclaration_moved, closing_moved,
      List.map_append, List.map_nil, List.append_assoc]
  | other => simp [Outline.framed, hoffset]

/-- The number of open braces after a run of tokens that closes none opened before it. -/
def depthAfter : Nat → List Token → Option Nat
  | depth, [] => some depth
  | depth, token :: tokens =>
    match token.kind, depth with
    | .openBrace, depth => depthAfter (depth + 1) tokens
    | .closeBrace, 0 => none
    | .closeBrace, depth + 1 => depthAfter depth tokens
    | _, depth => depthAfter depth tokens

/-- The braces of a run of tokens match each other. -/
def Balanced (tokens : List Token) : Prop := depthAfter 0 tokens = some 0

instance (tokens : List Token) : Decidable (Balanced tokens) :=
  inferInstanceAs (Decidable (_ = _))

theorem depthAfter_cons {token : Token} {tokens : List Token} {depth : Nat}
    (h : depthAfter outline.opened.length (token :: tokens) = some depth) :
    (token.kind = .closeBrace → outline.opened ≠ [])
      ∧ depthAfter (outline.step token).opened.length tokens = some depth := by
  unfold Outline.step
  cases hkind : token.kind with
  | ident | rawIdent =>
    simp only [depthAfter, hkind] at h
    refine ⟨nofun, ?_⟩
    simp only [Outline.readIdentifier]
    split_ifs <;> exact h
  | openBrace =>
    simp only [depthAfter, hkind] at h
    exact ⟨nofun, by simpa [Outline.openBrace] using h⟩
  | closeBrace =>
    cases hopened : outline.opened with
    | nil =>
      rw [hopened] at h
      simp [depthAfter, hkind] at h
    | cons declared opened =>
      rw [hopened] at h
      simp only [List.length_cons, depthAfter, hkind] at h
      refine ⟨fun _ => List.cons_ne_nil _ _, ?_⟩
      simpa [Outline.closeBrace, hopened] using h
  | semi =>
    simp only [depthAfter, hkind] at h
    exact ⟨nofun, h⟩
  | other =>
    simp only [depthAfter, hkind] at h
    exact ⟨nofun, h⟩

/-- A text that closes no brace opened outside has its own outline wherever it stands. -/
theorem foldl_step_framed {k : Nat} {found : List Stretch} {outer : List (Option (Str × Nat))}
    {tokens : List Token} {outline : Outline} {depth : Nat}
    (h : depthAfter outline.opened.length tokens = some depth) :
    tokens.foldl Outline.step (outline.framed k found outer)
        = (tokens.foldl Outline.step outline).framed k found outer
      ∧ (tokens.foldl Outline.step outline).opened.length = depth := by
  induction tokens generalizing outline with
  | nil =>
    cases h
    exact ⟨rfl, rfl⟩
  | cons token tokens ih =>
    obtain ⟨hclose, hrest⟩ := depthAfter_cons h
    rw [List.foldl_cons, List.foldl_cons, step_framed hclose]
    exact ih hrest

/-! ## The order of starts and stops -/

/-- Where the items held open start, innermost first. -/
def startsOf (opened : List (Option (Str × Nat))) : List Nat :=
  opened.filterMap fun declared => declared.map Prod.snd

@[simp] theorem startsOf_nil : startsOf [] = [] := rfl

variable {opened : List (Option (Str × Nat))}

theorem mem_startsOf_tail {start : Nat} {declared : Option (Str × Nat)} (h : start ∈ startsOf opened) :
    start ∈ startsOf (declared :: opened) := by
  cases declared with
  | none => exact h
  | some declared => exact List.mem_cons_of_mem _ h

theorem mem_closing {declared : Option (Str × Nat)}
    {stop : Nat} {stretch : Stretch} (h : stretch ∈ Outline.closing declared outer stop) :
    ∃ component start, declared = some (component, start)
      ∧ stretch = ⟨start, stop, namesOf outer ++ [component]⟩ := by
  cases declared with
  | none => simp [Outline.closing] at h
  | some declared =>
    obtain ⟨component, start⟩ := declared
    refine ⟨component, start, rfl, ?_⟩
    simpa [Outline.closing] using h

/-- Nothing recorded reaches past the offset, and what is open starts before what
    is read after it. -/
structure Ordered (outline : Outline) : Prop where
  found : ∀ stretch ∈ outline.found, stretch.stop ≤ outline.offset
  header : ∀ entry ∈ outline.header, entry.2 < outline.offset
  opened : ∀ start ∈ startsOf outline.opened, start < outline.offset
  nested : (startsOf outline.opened).Pairwise (· > ·)
  within : ∀ entry ∈ outline.header, ∀ start ∈ startsOf outline.opened, start < entry.2

theorem ordered_new : Ordered .new := by
  constructor <;> simp [Outline.new]

theorem Ordered.advance (h : Ordered outline) (n : Nat) :
    Ordered { outline with offset := outline.offset + n } where
  found stretch hmem := (h.found stretch hmem).trans (Nat.le_add_right ..)
  header entry hmem := (h.header entry hmem).trans_le (Nat.le_add_right ..)
  opened start hmem := (h.opened start hmem).trans_le (Nat.le_add_right ..)
  nested := h.nested
  within := h.within

theorem Ordered.readIdentifier (h : Ordered outline) {identifier : Str} (hne : identifier ≠ []) :
    Ordered ({ outline with offset := outline.offset + identifier.length }.readIdentifier identifier
      outline.offset) := by
  have hlength := List.length_pos_of_ne_nil hne
  have hadvanced := h.advance identifier.length
  unfold Outline.readIdentifier
  split_ifs
  · exact hadvanced
  · refine ⟨hadvanced.found, fun entry hmem => ?_, hadvanced.opened, h.nested, ?_⟩
    · rcases List.mem_append.mp hmem with hmem | hmem
      · exact hadvanced.header entry hmem
      · rw [List.mem_singleton.mp hmem]
        exact Nat.lt_add_of_pos_right hlength
    · intro entry hmem start hstart
      rcases List.mem_append.mp hmem with hmem | hmem
      · exact h.within entry hmem start hstart
      · rw [List.mem_singleton.mp hmem]
        exact h.opened start hstart

theorem Ordered.openBrace (h : Ordered outline) :
    Ordered outline.openBrace := by
  unfold Outline.openBrace
  cases hdeclared : scopeDeclaration outline.header with
  | none => exact ⟨h.found, nofun, h.opened, h.nested, nofun⟩
  | some declared =>
    obtain ⟨component, start⟩ := declared
    obtain ⟨identifier, hentry⟩ := (declares_of_scopeDeclaration hdeclared).starts
    refine ⟨h.found, nofun, fun start' hstart => ?_, ?_, nofun⟩
    · rcases List.mem_cons.mp hstart with rfl | hstart
      · exact h.header _ hentry
      · exact h.opened start' hstart
    · exact List.pairwise_cons.mpr ⟨fun start' hstart => h.within _ hentry start' hstart, h.nested⟩

theorem mem_append_closing {found : List Stretch} {declared : Option (Str × Nat)} {stop : Nat}
    (h : ∀ stretch ∈ found, stretch.stop ≤ stop) :
    ∀ stretch ∈ found ++ Outline.closing declared outer stop, stretch.stop ≤ stop := by
  intro stretch hmem
  rcases List.mem_append.mp hmem with hmem | hmem
  · exact h stretch hmem
  · obtain ⟨component, start, -, rfl⟩ := mem_closing hmem
    exact le_rfl

theorem Ordered.closeBrace (h : Ordered outline) :
    Ordered outline.closeBrace := by
  unfold Outline.closeBrace
  have hopened := h.opened
  have hnested := h.nested
  cases hopen : outline.opened with
  | nil => exact ⟨h.found, nofun, by simp, by simp, nofun⟩
  | cons declared outer =>
    rw [hopen] at hopened hnested
    refine ⟨mem_append_closing h.found, nofun,
      fun start hstart => hopened start (mem_startsOf_tail hstart), ?_, nofun⟩
    cases declared with
    | none => exact hnested
    | some declared => exact (List.pairwise_cons.mp hnested).2

theorem Ordered.endStatement (h : Ordered outline) :
    Ordered outline.endStatement :=
  ⟨mem_append_closing h.found, nofun, h.opened, h.nested, nofun⟩

theorem Ordered.step {outline : Outline} {token : Token} (h : Ordered outline)
    (hne : token.text ≠ []) : Ordered (outline.step token) := by
  have hadvanced := h.advance token.text.length
  unfold Outline.step
  cases hkind : token.kind with
  | ident | rawIdent => exact h.readIdentifier hne
  | openBrace => exact hadvanced.openBrace
  | closeBrace => exact hadvanced.closeBrace
  | semi => exact hadvanced.endStatement
  | other => exact hadvanced

theorem Ordered.foldl {tokens : List Token} (h : Ordered outline)
    (hne : ∀ token ∈ tokens, token.text ≠ []) : Ordered (tokens.foldl Outline.step outline) := by
  induction tokens generalizing outline with
  | nil => exact h
  | cons token tokens ih =>
    exact ih (h.step (hne token (List.mem_cons_self ..)))
      fun token' hmem => hne token' (List.mem_cons_of_mem _ hmem)

/-! ## What is closed after an offset -/

/-- The named items of `opened`, closed in turn from `from_` on. -/
inductive ClosedLater : Nat → List (Option (Str × Nat)) → List Stretch → Prop where
  | nil {after} : ClosedLater after [] []
  | unnamed {after outer stretches} (h : ClosedLater after outer stretches) :
      ClosedLater after (none :: outer) stretches
  | named {after outer stretches component start stop} (hstop : after ≤ stop)
      (h : ClosedLater stop outer stretches) :
      ClosedLater after (some (component, start) :: outer)
        (⟨start, stop, namesOf outer ++ [component]⟩ :: stretches)

theorem ClosedLater.anti {after after' : Nat}
    {stretches : List Stretch} (h : ClosedLater after opened stretches) (hle : after' ≤ after) :
    ClosedLater after' opened stretches := by
  induction h with
  | nil => exact .nil
  | unnamed _ ih => exact .unnamed (ih hle)
  | named hstop hrest _ => exact .named (hle.trans hstop) hrest

theorem ClosedLater.cons {after : Nat} {declared : Option (Str × Nat)}
    {outer : List (Option (Str × Nat))} {stretches : List Stretch} {offset : Nat}
    (h : ClosedLater after outer stretches) (hoffset : offset ≤ after)
    (hstarts : ∀ start ∈ startsOf (declared :: outer), start ≤ offset) :
    ClosedLater after (declared :: outer)
      ((Outline.closing declared outer after).filter
          (fun stretch => Touches stretch.start stretch.stop offset) ++ stretches) := by
  cases declared with
  | none => exact .unnamed h
  | some declared =>
    obtain ⟨component, start⟩ := declared
    have htouches : Touches start after offset :=
      ⟨hstarts start (List.mem_cons_self ..), hoffset⟩
    simpa [Outline.closing, htouches] using ClosedLater.named le_rfl h

/-- What opens after an offset does not reach back to it. -/
theorem filter_closing_of_lt {declared : Option (Str × Nat)}
    {stop offset : Nat} (h : ∀ component start, declared = some (component, start) → offset < start) :
    (Outline.closing declared outer stop).filter
      (fun stretch => Touches stretch.start stretch.stop offset) = [] := by
  rw [List.filter_eq_nil_iff]
  intro stretch hmem
  obtain ⟨component, start, hdeclared, rfl⟩ := mem_closing hmem
  have := h component start hdeclared
  intro htouches
  exact this.not_ge (of_decide_eq_true htouches).1

variable {inner outer : List (Option (Str × Nat))}

theorem closedLater_closingAll {offset stop : Nat}
    (hinner : ∀ start ∈ startsOf inner, offset < start)
    (houter : ∀ start ∈ startsOf outer, start ≤ offset) (hoffset : offset ≤ stop) :
    ClosedLater stop outer ((Outline.closingAll stop (inner ++ outer)).filter
      fun stretch => Touches stretch.start stretch.stop offset) := by
  induction inner with
  | nil =>
    induction outer with
    | nil => exact .nil
    | cons declared outer ih =>
      rw [List.nil_append, Outline.closingAll, List.filter_append]
      exact (ih fun start hstart => houter start (mem_startsOf_tail hstart)).cons hoffset houter
  | cons declared inner ih =>
    rw [List.cons_append, Outline.closingAll, List.filter_append, filter_closing_of_lt, List.nil_append]
    · exact ih fun start hstart => hinner start (mem_startsOf_tail hstart)
    · rintro component start rfl
      exact hinner start (List.mem_cons_self ..)

/-- The state of the walk after an offset: `inner` was opened after it, `outer` before. -/
structure Past (offset : Nat) (inner outer : List (Option (Str × Nat))) (outline : Outline) :
    Prop where
  opened : outline.opened = inner ++ outer
  inner : ∀ start ∈ startsOf inner, offset < start
  outer : ∀ start ∈ startsOf outer, start ≤ offset
  header : ∀ entry ∈ outline.header, offset < entry.2
  offset : offset < outline.offset

variable {offset : Nat}

theorem Past.advance (h : Past offset inner outer outline) (n : Nat) :
    Past offset inner outer { outline with offset := outline.offset + n } :=
  ⟨h.opened, h.inner, h.outer, h.header, h.offset.trans_le (Nat.le_add_right ..)⟩

theorem Past.declared (h : Past offset inner outer outline) {component : Str} {start : Nat}
    (hdeclared : scopeDeclaration outline.header = some (component, start)) : offset < start := by
  obtain ⟨identifier, hentry⟩ := (declares_of_scopeDeclaration hdeclared).starts
  exact h.header _ hentry

/-- One token after an offset: what it records, and what is open around the offset then. -/
theorem Past.step {offset : Nat} {inner outer : List (Option (Str × Nat))} {outline : Outline}
    (h : Past offset inner outer outline) (token : Token) :
    ∃ inner' outer' recorded, (outline.step token).found = outline.found ++ recorded
      ∧ Past offset inner' outer' (outline.step token)
      ∧ ∀ stretches, ClosedLater (outline.step token).offset outer' stretches →
          ClosedLater outline.offset outer (recorded.filter
            (fun stretch => Touches stretch.start stretch.stop offset) ++ stretches) := by
  have hadvanced := h.advance token.text.length
  have hbefore : outline.offset ≤ outline.offset + token.text.length := Nat.le_add_right ..
  unfold Outline.step
  cases hkind : token.kind with
  | ident | rawIdent =>
    simp only [Outline.readIdentifier]
    split_ifs
    · exact ⟨inner, outer, [], by simp, hadvanced, fun _ hlater => hlater.anti hbefore⟩
    · refine ⟨inner, outer, [], by simp, ⟨h.opened, h.inner, h.outer, fun entry hmem => ?_,
        hadvanced.offset⟩, fun _ hlater => hlater.anti hbefore⟩
      rcases List.mem_append.mp hmem with hmem | hmem
      · exact h.header entry hmem
      · rw [List.mem_singleton.mp hmem]
        exact h.offset
  | openBrace =>
    refine ⟨scopeDeclaration outline.header :: inner, outer, [], by simp [Outline.openBrace],
      ⟨by simp [Outline.openBrace, h.opened], fun start hstart => ?_, h.outer, nofun,
        hadvanced.offset⟩, fun _ hlater => hlater.anti hbefore⟩
    cases hdeclared : scopeDeclaration outline.header with
    | none =>
      rw [hdeclared] at hstart
      exact h.inner start hstart
    | some declared =>
      obtain ⟨component, position⟩ := declared
      rw [hdeclared] at hstart
      rcases List.mem_cons.mp hstart with rfl | hstart
      · exact h.declared hdeclared
      · exact h.inner start hstart
  | closeBrace =>
    simp only [Outline.closeBrace]
    cases inner with
    | nil =>
      have hopened : outline.opened = outer := h.opened
      cases outer with
      | nil =>
        rw [hopened]
        exact ⟨[], [], [], by simp, ⟨rfl, h.inner, h.outer, nofun, hadvanced.offset⟩,
          fun _ hlater => hlater.anti hbefore⟩
      | cons declared outer =>
        -- the brace around the offset closes
        rw [hopened]
        refine ⟨[], outer, _, rfl, ⟨rfl, h.inner,
          fun start hstart => h.outer start (mem_startsOf_tail hstart), nofun, hadvanced.offset⟩,
          fun _ hlater => ?_⟩
        exact (hlater.cons hadvanced.offset.le h.outer).anti hbefore
    | cons declared inner =>
      have hopened : outline.opened = declared :: (inner ++ outer) := h.opened
      rw [hopened]
      refine ⟨inner, outer, _, rfl, ⟨rfl,
        fun start hstart => h.inner start (mem_startsOf_tail hstart), h.outer, nofun,
        hadvanced.offset⟩, fun _ hlater => ?_⟩
      rw [filter_closing_of_lt, List.nil_append]
      · exact hlater.anti hbefore
      · rintro component start rfl
        exact h.inner start (List.mem_cons_self ..)
  | semi =>
    refine ⟨inner, outer, _, rfl, ⟨h.opened, h.inner, h.outer, nofun, hadvanced.offset⟩,
      fun _ hlater => ?_⟩
    rw [filter_closing_of_lt, List.nil_append]
    · exact hlater.anti hbefore
    · exact fun component start => h.declared
  | other => exact ⟨inner, outer, [], by simp, hadvanced, fun _ hlater => hlater.anti hbefore⟩

/-- After an offset only the items held open around it still come to reach it. -/
theorem Past.exists_closedLater (h : Past offset inner outer outline) (tokens : List Token) :
    ∃ later, (tokens.foldl Outline.step outline).finish = outline.found ++ later
      ∧ ClosedLater outline.offset outer
          (later.filter fun stretch => Touches stretch.start stretch.stop offset) := by
  induction tokens generalizing outline inner outer with
  | nil =>
    refine ⟨Outline.closingAll outline.offset outline.opened, rfl, ?_⟩
    rw [h.opened]
    exact closedLater_closingAll h.inner h.outer h.offset.le
  | cons token tokens ih =>
    obtain ⟨inner', outer', recorded, hfound, hpast, hstep⟩ := h.step token
    obtain ⟨later, hfinish, hlater⟩ := ih hpast
    refine ⟨recorded ++ later, ?_, ?_⟩
    · rw [List.foldl_cons, hfinish, hfound, List.append_assoc]
    · rw [List.filter_append]
      exact hstep _ hlater

/-! ## The innermost stretch inside a block -/

def Stretch.width (stretch : Stretch) : Nat := stretch.stop - stretch.start

/-- The first of the smallest stretches around an offset. -/
def innermost (stretches : List Stretch) (offset : Nat) : Option Stretch :=
  (stretches.filter fun stretch => Touches stretch.start stretch.stop offset).argmin Stretch.width

/-- A pair of braces and the text between them. -/
structure Block (tokens : List Token) where
  before : List Token
  opening : Token
  body : List Token
  closing : Token
  after : List Token
  splits : tokens = before ++ opening :: body ++ closing :: after
  opens : opening.kind = .openBrace
  closes : closing.kind = .closeBrace
  balanced : Balanced body

namespace Block

variable {tokens : List Token} (block : Block tokens)

/-- The walk up to the opening brace, and with it. -/
def reached : Outline := outlineOf block.before

def entered : Outline := block.reached.step block.opening

/-- The names the code reads off the headers in front of the braces that are
    open in the block, outermost first: its own header last. -/
def enclosing : List Str := namesOf block.entered.opened

/-- The offset after the opening brace, and that of the closing one. -/
def bodyStart : Nat := block.entered.offset

def bodyStop : Nat := block.bodyStart + (outlineOf block.body).offset

def Inside (offset : Nat) : Prop := block.bodyStart ≤ offset ∧ offset ≤ block.bodyStop

instance (offset : Nat) : Decidable (block.Inside offset) :=
  inferInstanceAs (Decidable (_ ∧ _))

/-- The names of what the code records inside the block around an offset. -/
def nested (offset : Nat) : List Str :=
  (innermost (outlineOf block.body).found (offset - block.bodyStart)).elim [] Stretch.names

/-- All names the code reads around an offset. -/
def reading (offset : Nat) : List Str := block.enclosing ++ block.nested offset

theorem opened_body : (outlineOf block.body).opened = [] := by
  have hframed := @foldl_step_framed 0 [] [] block.body .new 0 block.balanced
  exact List.length_eq_zero_iff.mp hframed.2

/-- The walk over the body is that over the body alone, in its place. -/
theorem foldl_body : block.body.foldl Outline.step block.entered
    = (outlineOf block.body).framed block.bodyStart block.entered.found block.entered.opened := by
  have hheader : block.entered.header = [] := by
    simp [entered, Outline.step, block.opens, Outline.openBrace]
  have hentered : Outline.new.framed block.bodyStart block.entered.found block.entered.opened
      = block.entered := by
    simp only [Outline.framed, Outline.new, List.map_nil, List.append_nil, List.nil_append,
      Nat.zero_add, bodyStart]
    rw [← hheader]
  have hframed := @foldl_step_framed block.bodyStart block.entered.found block.entered.opened
    block.body .new 0 block.balanced
  rw [hentered] at hframed
  exact hframed.1

theorem mem_tokens {token : Token}
    (h : token ∈ block.before ++ block.opening :: block.body ++ block.closing :: block.after) :
    token ∈ tokens := by
  rw [block.splits]
  exact h

theorem ordered_reached (hne : ∀ token ∈ tokens, token.text ≠ []) : Ordered block.reached := by
  refine ordered_new.foldl fun token hmem => hne token (block.mem_tokens ?_)
  simp [hmem]

theorem ordered_entered (hne : ∀ token ∈ tokens, token.text ≠ []) : Ordered block.entered :=
  (block.ordered_reached hne).step (hne block.opening (block.mem_tokens (by simp)))

theorem ordered_body (hne : ∀ token ∈ tokens, token.text ≠ []) :
    Ordered (outlineOf block.body) := by
  refine ordered_new.foldl fun token hmem => hne token (block.mem_tokens ?_)
  simp [hmem]

/-- What the whole source records: before the block, in it, and from its closing brace on. -/
theorem exists_finish (hne : ∀ token ∈ tokens, token.text ≠ []) {offset : Nat}
    (hinside : block.Inside offset) :
    ∃ later, (outlineOf tokens).finish = block.entered.found
        ++ (outlineOf block.body).found.map (Stretch.within block.bodyStart block.enclosing) ++ later
      ∧ ClosedLater block.bodyStop block.entered.opened
          (later.filter fun stretch => Touches stretch.start stretch.stop offset) := by
  have hclosing : 0 < block.closing.text.length :=
    List.length_pos_of_ne_nil (hne block.closing (block.mem_tokens (by simp)))
  have houter : ∀ start ∈ startsOf block.entered.opened, start ≤ offset := fun start hstart =>
    ((block.ordered_entered hne).opened start hstart).le.trans hinside.1
  have hstop : (outlineOf block.body).offset + block.bodyStart = block.bodyStop :=
    Nat.add_comm ..
  have htokens : outlineOf tokens = block.after.foldl Outline.step
      ((block.body.foldl Outline.step block.entered).step block.closing) := by
    conv_lhs => rw [block.splits]
    simp [outlineOf, List.foldl_append, entered, reached]
  rw [htokens, foldl_body]
  obtain ⟨declared, outer, hopened⟩ : ∃ declared outer,
      block.entered.opened = declared :: outer := by
    simp [entered, Outline.step, block.opens, Outline.openBrace]
  rw [hopened] at houter ⊢
  -- the closing brace closes the block itself
  have hclosed : ((outlineOf block.body).framed block.bodyStart block.entered.found
        (declared :: outer)).step block.closing
      = { found := block.entered.found ++ (outlineOf block.body).found.map
            (Stretch.within block.bodyStart block.enclosing)
            ++ Outline.closing declared outer (block.bodyStop + block.closing.text.length)
          opened := outer
          header := []
          offset := block.bodyStop + block.closing.text.length } := by
    simp only [Outline.step, block.closes, Outline.closeBrace, Outline.framed, block.opened_body,
      List.map_nil, List.nil_append, hstop, enclosing, hopened]
  rw [hclosed]
  have hoffset : offset < block.bodyStop + block.closing.text.length := by
    have := hinside.2
    omega
  have hpast : Past offset [] outer
      { found := block.entered.found ++ (outlineOf block.body).found.map
            (Stretch.within block.bodyStart block.enclosing)
            ++ Outline.closing declared outer (block.bodyStop + block.closing.text.length)
        opened := outer
        header := []
        offset := block.bodyStop + block.closing.text.length } :=
    ⟨rfl, nofun, fun start hstart => houter start (mem_startsOf_tail hstart), nofun, hoffset⟩
  obtain ⟨later, hfinish, hlater⟩ := hpast.exists_closedLater block.after
  refine ⟨Outline.closing declared outer (block.bodyStop + block.closing.text.length) ++ later,
    ?_, ?_⟩
  · rw [hfinish]
    simp
  · rw [List.filter_append]
    exact (hlater.cons hoffset.le houter).anti (Nat.le_add_right ..)

end Block

/-- What is closed around a block is wider than the block, the outer ones more so. -/
theorem ClosedLater.widths {after before : Nat}
    {stretches : List Stretch} (h : ClosedLater after opened stretches)
    (hstarts : ∀ start ∈ startsOf opened, start < before)
    (hnested : (startsOf opened).Pairwise (· > ·)) (hle : before ≤ after) :
    (∀ stretch ∈ stretches, after - before < stretch.width)
      ∧ stretches.Pairwise fun inner outer => inner.width < outer.width := by
  induction h generalizing before with
  | nil => exact ⟨nofun, List.Pairwise.nil⟩
  | unnamed _ ih => exact ih hstarts hnested hle
  | @named after outer stretches component start stop hstop _ ih =>
    have hstart : start < before := hstarts start (List.mem_cons_self ..)
    obtain ⟨hsmaller, hrest⟩ := List.pairwise_cons.mp hnested
    obtain ⟨hwider, hpairwise⟩ := ih hsmaller hrest (by omega)
    refine ⟨fun stretch hmem => ?_, List.pairwise_cons.mpr ⟨hwider, hpairwise⟩⟩
    rcases List.mem_cons.mp hmem with rfl | hmem
    · simp only [Stretch.width]
      omega
    · have := hwider stretch hmem
      omega

/-- The first of them stands under the names of everything open. -/
theorem ClosedLater.head {after : Nat} {opened : List (Option (Str × Nat))}
    {stretches : List Stretch} (h : ClosedLater after opened stretches) :
    stretches.head?.elim [] Stretch.names = namesOf opened := by
  induction h with
  | nil => rfl
  | unnamed _ ih => exact ih
  | named => simp

namespace Block

variable {tokens : List Token} (block : Block tokens)

theorem filter_found (hne : ∀ token ∈ tokens, token.text ≠ []) {offset : Nat}
    (hinside : block.Inside offset) : block.entered.found.filter
      (fun stretch => Touches stretch.start stretch.stop offset) = [] := by
  have hfound : block.entered.found = block.reached.found := by
    simp [entered, Outline.step, block.opens, Outline.openBrace]
  have hopening : 0 < block.opening.text.length :=
    List.length_pos_of_ne_nil (hne block.opening (block.mem_tokens (by simp)))
  have hstart : block.bodyStart = block.reached.offset + block.opening.text.length := by
    simp [bodyStart, entered, Outline.step, block.opens, Outline.openBrace]
  rw [hfound, List.filter_eq_nil_iff]
  intro stretch hmem htouches
  have hstop := (block.ordered_reached hne).found stretch hmem
  have htouches := of_decide_eq_true htouches
  have := htouches.2
  have := hinside.1
  omega

theorem touches_within {offset k : Nat} {names : List Str} (stretch : Stretch) (h : k ≤ offset) :
    Touches (stretch.within k names).start (stretch.within k names).stop offset
      ↔ Touches stretch.start stretch.stop (offset - k) := by
  simp only [Touches, Stretch.within]
  omega

/-- The names of the innermost stretch around an offset in a block are those read
    off the headers around the block, and off what is recorded in it. -/
theorem innermost_names (hne : ∀ token ∈ tokens, token.text ≠ []) {offset : Nat}
    (hinside : block.Inside offset) :
    (innermost (outlineOf tokens).finish offset).elim [] Stretch.names = block.reading offset := by
  obtain ⟨later, hfinish, hlater⟩ := block.exists_finish hne hinside
  have hentered := block.ordered_entered hne
  obtain ⟨hwider, hpairwise⟩ := hlater.widths hentered.opened hentered.nested
    (Nat.le_add_right ..)
  have hwithin : ((outlineOf block.body).found.map
        (Stretch.within block.bodyStart block.enclosing)).filter
        (fun stretch => Touches stretch.start stretch.stop offset)
      = ((outlineOf block.body).found.filter fun stretch =>
          Touches stretch.start stretch.stop (offset - block.bodyStart)).map
        (Stretch.within block.bodyStart block.enclosing) := by
    rw [List.filter_map]
    congr 1
    refine List.filter_congr fun stretch _ => ?_
    exact decide_eq_decide.mpr (touches_within stretch hinside.1)
  have hwidth : Stretch.width ∘ Stretch.within block.bodyStart block.enclosing = Stretch.width := by
    funext stretch
    simp only [Function.comp_apply, Stretch.width, Stretch.within]
    omega
  unfold reading nested innermost
  rw [hfinish, List.filter_append, List.filter_append, block.filter_found hne hinside,
    List.nil_append, hwithin]
  generalize hbody : (outlineOf block.body).found.filter (fun stretch =>
    Touches stretch.start stretch.stop (offset - block.bodyStart)) = inside
  generalize later.filter (fun stretch => Touches stretch.start stretch.stop offset) = around
    at hlater hwider hpairwise
  cases inside with
  | nil =>
    -- nothing recorded in the block: the header nearest to it decides
    rw [List.map_nil, List.nil_append, List.argmin_nil]
    have hhead := hlater.head
    cases around with
    | nil => simpa [enclosing] using hhead
    | cons stretch rest =>
      rw [argmin_cons_of_lt (List.pairwise_cons.mp hpairwise).1]
      simpa [enclosing] using hhead
  | cons stretch rest =>
    rw [argmin_append_of_lt (by simp), argmin_map, hwidth]
    · cases hmin : (stretch :: rest).argmin Stretch.width with
      | none => simp at hmin
      | some least => rfl
    · intro inner hinner outer houter
      obtain ⟨stretch', hmem, rfl⟩ := List.mem_map.mp hinner
      rw [← hbody] at hmem
      have hstop := (block.ordered_body hne).found stretch' (List.mem_filter.mp hmem).1
      have := hwider outer houter
      simp only [Stretch.width, Stretch.within, bodyStop, bodyStart] at this ⊢
      omega

end Block

end Opcore.Native
