/-
  Opcore.Analysis.Dedup

  Duplicate evidence of one file: the exact token stream of the file and the
  anchors winnowing selects from it.  Hash values are 64-bit words with wrapping
  arithmetic.
-/
import Opcore.Model
import Opcore.Library.Winnowing

namespace Opcore

open Text Collections

/-! ## Constants -/

def tokenHashSeedOne : UInt64 := 0xa0761d6478bd642f
def tokenHashSeedTwo : UInt64 := 0xe7037ed1a0b428db
def rollingBaseOne : UInt64 := 0x9e3779b185ebca87
def rollingBaseTwo : UInt64 := 0xc2b2ae3d27d4eb4f

def u16Max : Nat := 2 ^ 16 - 1

/-- Base64 comes from outside the repository. -/
class Base64 where
  encode : Str → Str
  decode : Str → Option Str

/-- The codec that leaves bytes as they are, for evaluating the development. -/
abbrev plainBase64 : Base64 := ⟨id, some⟩

/-! ## Tokens -/

structure FingerprintToken where
  tag : UInt8
  text : Str
  line : Nat
  counted : Bool
  startByte : Nat
  endByte : Nat

/-- `encode_component`: the appended form of one uncounted token. -/
def encodeComponent (output : Str) (tag : UInt8) (text : Str) : Str :=
  output ++ [tag] ++ be32 (min text.length u32Max) ++ text

def hashBytes (state : UInt64) (bytes : Str) (base : UInt64) : UInt64 :=
  bytes.foldl (fun state byte => state * base + byte.toUInt64)
    (state * base + UInt64.ofNat bytes.length)

def mix (value : UInt64) : UInt64 :=
  let value := value ^^^ (value >>> 30)
  let value := value * 0xbf58476d1ce4e5b9
  let value := value ^^^ (value >>> 27)
  let value := value * 0x94d049bb133111eb
  value ^^^ (value >>> 31)

/-- One of the two hashes of a token together with the uncounted text before it. -/
def tokenHash (seed base : UInt64) (languageDomain prefixBytes : Str) (tag : UInt8) (text : Str) :
    UInt64 :=
  let state := hashBytes seed languageDomain base
  let state := hashBytes state prefixBytes base
  let state := (state * base) ^^^ tag.toUInt64
  mix (hashBytes state text base)

def normalizedTokenHash (languageDomain prefixBytes : Str) (tag : UInt8) (text : Str) :
    UInt64 × UInt64 :=
  (tokenHash tokenHashSeedOne rollingBaseOne languageDomain prefixBytes tag text,
    tokenHash tokenHashSeedTwo rollingBaseTwo languageDomain prefixBytes tag text)

/-! ## Winnower -/

def wrappingPower (base : UInt64) : Nat → UInt64
  | 0 => 1
  | exponent + 1 => wrappingPower base exponent * base

/-- The last tokens, their two rolling hashes, and the minima of the window. -/
structure Winnower where
  tokenWindow : List (UInt64 × UInt64) := []
  minima : List (Nat × (UInt64 ×ₗ UInt64)) := []
  hashOne : UInt64 := 0
  hashTwo : UInt64 := 0
  kgramCount : Nat := 0
  previousSelection : Option Nat := none
  anchors : List RegionFingerprint := []

namespace Winnower

/-- `observe_kgram`; `none` is its result `false`, after which the caller drops
    the winnower. -/
def observeKgram (w : Winnower) : Option Winnower :=
  let index := w.kgramCount
  let hash := toLex (w.hashOne, w.hashTwo)
  let minima := Winnowing.observe dedupRegionWinnowSpan w.minima index hash
  let w := { w with kgramCount := index + 1, minima }
  if index + 1 < dedupRegionWinnowSpan then some w
  else
    match minima with
    | [] => none
    | (selected, selectedHash) :: _ =>
      if w.previousSelection = some selected then some w
      else if maxRegionFingerprintsPerFile ≤ w.anchors.length then none
      else some { w with
        previousSelection := some selected
        anchors := w.anchors ++
          [⟨(ofLex selectedHash).1, (ofLex selectedHash).2, min selected u32Max⟩] }

/-- One token: until the first k-gram is full it is only added. -/
def push (w : Winnower) (token : UInt64 × UInt64) : Option Winnower :=
  if w.tokenWindow.length < dedupRegionKgramTokens then
    let w := { w with
      hashOne := w.hashOne * rollingBaseOne + token.1
      hashTwo := w.hashTwo * rollingBaseTwo + token.2
      tokenWindow := w.tokenWindow ++ [token] }
    if w.tokenWindow.length < dedupRegionKgramTokens then some w else w.observeKgram
  else
    match w.tokenWindow with
    | [] => none
    | previous :: window =>
      observeKgram { w with
        tokenWindow := window ++ [token]
        hashOne := w.hashOne * rollingBaseOne + token.1
          - previous.1 * wrappingPower rollingBaseOne dedupRegionKgramTokens
        hashTwo := w.hashTwo * rollingBaseTwo + token.2
          - previous.2 * wrappingPower rollingBaseTwo dedupRegionKgramTokens }

end Winnower

/-! ## Region fingerprints -/

/-- The loop state of `region_fingerprints`. -/
structure RegionState where
  encoded : Str := []
  pending : Str := []
  tokenCount : Nat := 0
  winnower : Winnower := {}

/-- One token; `none` is the early return with truncated facts. -/
def RegionState.step (languageDomain : Str) (s : RegionState) (token : FingerprintToken) :
    Option RegionState :=
  if token.counted = false then
    let pending := encodeComponent s.pending token.tag token.text
    if u16Max < pending.length then none else some { s with pending }
  else if token.endByte < token.startByte then none
  else if u16Max < s.pending.length then none
  else
    (s.winnower.push (normalizedTokenHash languageDomain s.pending token.tag token.text)).map
      fun winnower =>
        { encoded := s.encoded ++ be32 token.startByte ++ be32 token.endByte ++ [token.tag]
            ++ be16 s.pending.length ++ s.pending
          pending := []
          tokenCount := s.tokenCount + 1
          winnower }

def truncatedRegions : RegionFingerprintFacts := { status := .truncated }

/-- The anchors and the encoded tokens of a file, or none if they are too many. -/
def regionFingerprints [Base64] (languageDomain : Str) (tokens : List FingerprintToken) :
    RegionFingerprintFacts :=
  match tokens.foldlM (RegionState.step languageDomain) {} with
  | none => truncatedRegions
  | some s =>
    { status := .complete
      tokenCount := min s.tokenCount u32Max
      encodedTokens := Base64.encode s.encoded
      anchors := s.winnower.anchors }

/-! ## The winnower refines its specification -/

section WinnowerSpec

open Winnowing
open scoped UInt64.CommRing

variable {ts : List (UInt64 × UInt64)} {n : Nat} {w w' : Winnower}

/-- The tokens of the k-gram at a position. -/
def kgram {α : Type*} (ts : List α) (i : Nat) : List α := (ts.drop i).take dedupRegionKgramTokens

/-- The hash pair of a window of tokens. -/
noncomputable def windowHash (window : List (UInt64 × UInt64)) : UInt64 ×ₗ UInt64 :=
  toLex (polyHash rollingBaseOne (window.map Prod.fst), polyHash rollingBaseTwo (window.map Prod.snd))

/-- The hash pair of the k-gram at a position. -/
noncomputable def kgramHash (ts : List (UInt64 × UInt64)) (i : Nat) : UInt64 ×ₗ UInt64 :=
  windowHash (kgram ts i)

/-- The anchor of the k-gram at a position. -/
noncomputable def anchorAt (ts : List (UInt64 × UInt64)) (i : Nat) : RegionFingerprint :=
  ⟨(ofLex (kgramHash ts i)).1, (ofLex (kgramHash ts i)).2, min i u32Max⟩

theorem wrappingPower_eq_pow (base : UInt64) (exponent : Nat) :
    wrappingPower base exponent = base ^ exponent := by
  induction exponent with
  | zero => rfl
  | succ exponent ih => rw [wrappingPower, ih, pow_succ]

/-- The k-grams observed so far: their minima, and the selections made. -/
structure Observed (ts : List (UInt64 × UInt64)) (w : Winnower) : Prop where
  minima : MinimaInv (kgramHash ts) dedupRegionWinnowSpan w.kgramCount w.minima
  selections : ∃ selected, Selections (kgramHash ts) dedupRegionWinnowSpan w.kgramCount selected
    ∧ w.previousSelection = selected.getLast? ∧ w.anchors = selected.map (anchorAt ts)
    ∧ selected.length ≤ maxRegionFingerprintsPerFile

/-- Observing the next k-gram, which is refused only for one selection too many. -/
theorem Observed.observeKgram (hO : Observed ts w)
    (hhash : toLex (w.hashOne, w.hashTwo) = kgramHash ts w.kgramCount) :
    ∃ selected, Selections (kgramHash ts) dedupRegionWinnowSpan (w.kgramCount + 1) selected
      ∧ (w.observeKgram = none → maxRegionFingerprintsPerFile < selected.length)
      ∧ ∀ w', w.observeKgram = some w' →
        Observed ts w' ∧ w'.kgramCount = w.kgramCount + 1 ∧ w'.tokenWindow = w.tokenWindow
          ∧ w'.hashOne = w.hashOne ∧ w'.hashTwo = w.hashTwo := by
  have hspan : 0 < dedupRegionWinnowSpan := by decide
  have hmin := minimaInv_observe hspan hO.minima
  obtain ⟨selected, hS, hprev, hanchors, hlen⟩ := hO.selections
  rw [Winnower.observeKgram, hhash]
  simp only
  by_cases hstart : w.kgramCount + 1 < dedupRegionWinnowSpan
  · rw [if_pos hstart]
    have hS' := hS.succ_of_lt hstart
    refine ⟨selected, hS', fun h => (by cases h), ?_⟩
    rintro w' ⟨⟩
    exact ⟨⟨hmin, selected, hS', hprev, hanchors, hlen⟩, rfl, rfl, rfl, rfl⟩
  · rw [if_neg hstart]
    have hcount : dedupRegionWinnowSpan ≤ w.kgramCount + 1 := by omega
    obtain ⟨i, rest, hfront, hi⟩ := hmin.head hspan hcount
    rw [hfront] at hmin ⊢
    simp only
    split_ifs with hsame hfull
    · have hS' := hS.same hcount hi (hprev ▸ hsame)
      refine ⟨selected, hS', fun h => (by cases h), ?_⟩
      rintro w' ⟨⟩
      exact ⟨⟨hmin, selected, hS', hprev, hanchors, hlen⟩, rfl, rfl, rfl, rfl⟩
    · refine ⟨selected ++ [i], hS.new hcount hi (hprev ▸ hsame), fun _ => ?_, fun _ h => (by cases h)⟩
      rw [hanchors, List.length_map] at hfull
      rw [List.length_append, List.length_singleton]
      omega
    · have hS' := hS.new hcount hi (hprev ▸ hsame)
      refine ⟨selected ++ [i], hS', fun h => (by cases h), ?_⟩
      rintro w' ⟨⟩
      refine ⟨⟨hmin, selected ++ [i], hS', ?_, ?_, ?_⟩, rfl, rfl, rfl, rfl⟩
      · simp
      · simp only [hanchors, List.map_append, List.map_cons, List.map_nil]
        rfl
      · rw [hanchors, List.length_map] at hfull
        rw [List.length_append, List.length_singleton]
        omega

/-- The state after the first `n` tokens of the stream `ts`. -/
structure PushedInv (ts : List (UInt64 × UInt64)) (n : Nat) (w : Winnower) : Prop where
  window : w.tokenWindow = (ts.take n).drop (n - dedupRegionKgramTokens)
  hash : toLex (w.hashOne, w.hashTwo) = windowHash w.tokenWindow
  count : w.kgramCount = n - (dedupRegionKgramTokens - 1)
  observed : Observed ts w

theorem pushedInv_empty (ts : List (UInt64 × UInt64)) : PushedInv ts 0 {} := by
  refine ⟨by simp, rfl, by decide, minimaInv_nil _ _, [], selections_nil (by decide), rfl, rfl, ?_⟩
  exact Nat.zero_le _

theorem length_window (hn : n ≤ ts.length) :
    ((ts.take n).drop (n - dedupRegionKgramTokens)).length = min n dedupRegionKgramTokens := by
  rw [List.length_drop, List.length_take]
  omega

/-- The window after one more token, while it grows. -/
theorem window_grow (hn : n < ts.length) (hsmall : n < dedupRegionKgramTokens) :
    (ts.take n).drop (n - dedupRegionKgramTokens) ++ [ts[n]]
      = (ts.take (n + 1)).drop (n + 1 - dedupRegionKgramTokens) := by
  rw [show n - dedupRegionKgramTokens = 0 by omega, show n + 1 - dedupRegionKgramTokens = 0 by omega,
    List.drop_zero, List.drop_zero, List.take_add_one, List.getElem?_eq_getElem hn]
  rfl

/-- The window after one more token, once it slides. -/
theorem window_slide {previous : UInt64 × UInt64} {window : List (UInt64 × UInt64)}
    (hn : n < ts.length) (hfull : dedupRegionKgramTokens ≤ n)
    (h : (ts.take n).drop (n - dedupRegionKgramTokens) = previous :: window) :
    window ++ [ts[n]] = (ts.take (n + 1)).drop (n + 1 - dedupRegionKgramTokens) := by
  have htail : window = (ts.take n).drop (n + 1 - dedupRegionKgramTokens) := by
    rw [show n + 1 - dedupRegionKgramTokens = n - dedupRegionKgramTokens + 1 by omega,
      ← List.drop_drop, h]
    rfl
  rw [htail, List.take_add_one, List.getElem?_eq_getElem hn, List.drop_append_of_le_length]
  · rfl
  · rw [List.length_take]
    have : 0 < dedupRegionKgramTokens := by decide
    omega

/-- A full window is the latest k-gram. -/
theorem window_eq_kgram (hfull : dedupRegionKgramTokens ≤ n) :
    (ts.take n).drop (n - dedupRegionKgramTokens) = kgram ts (n - dedupRegionKgramTokens) := by
  rw [List.drop_take, kgram]
  congr 1
  omega

theorem windowHash_grow (window : List (UInt64 × UInt64)) (hashOne hashTwo : UInt64)
    (token : UInt64 × UInt64) (h : toLex (hashOne, hashTwo) = windowHash window) :
    toLex (hashOne * rollingBaseOne + token.1, hashTwo * rollingBaseTwo + token.2)
      = windowHash (window ++ [token]) := by
  obtain ⟨h₁, h₂⟩ := Prod.mk.injEq .. ▸ toLex_inj.mp h
  rw [windowHash, List.map_append, List.map_append]
  simp only [List.map_cons, List.map_nil]
  rw [polyHash_concat, polyHash_concat, ← h₁, ← h₂]

theorem windowHash_slide (previous token : UInt64 × UInt64) (window : List (UInt64 × UInt64))
    (hashOne hashTwo : UInt64) (hlen : window.length + 1 = dedupRegionKgramTokens)
    (h : toLex (hashOne, hashTwo) = windowHash (previous :: window)) :
    toLex (hashOne * rollingBaseOne + token.1
          - previous.1 * wrappingPower rollingBaseOne dedupRegionKgramTokens,
        hashTwo * rollingBaseTwo + token.2
          - previous.2 * wrappingPower rollingBaseTwo dedupRegionKgramTokens)
      = windowHash (window ++ [token]) := by
  obtain ⟨h₁, h₂⟩ := Prod.mk.injEq .. ▸ toLex_inj.mp h
  rw [windowHash, List.map_append, List.map_append]
  simp only [List.map_cons, List.map_nil] at h₁ h₂ ⊢
  rw [← polyHash_slide rollingBaseOne previous.1, ← polyHash_slide rollingBaseTwo previous.2,
    ← h₁, ← h₂, wrappingPower_eq_pow, wrappingPower_eq_pow, List.length_map, List.length_map, hlen]

/-- A push takes the token into the window and its hash, and once the window is
    full it observes the k-gram there. -/
theorem push_cases (hn : n < ts.length) (hI : PushedInv ts n w) :
    ∃ w₁ : Winnower, w₁.tokenWindow = (ts.take (n + 1)).drop (n + 1 - dedupRegionKgramTokens)
      ∧ toLex (w₁.hashOne, w₁.hashTwo) = windowHash w₁.tokenWindow
      ∧ w₁.kgramCount = n - (dedupRegionKgramTokens - 1) ∧ Observed ts w₁
      ∧ w.push ts[n] = if n + 1 < dedupRegionKgramTokens then some w₁ else w₁.observeKgram := by
  have hpos : 0 < dedupRegionKgramTokens := by decide
  have hlen : w.tokenWindow.length = min n dedupRegionKgramTokens := by
    rw [hI.window, length_window hn.le]
  by_cases hsmall : n < dedupRegionKgramTokens
  · have hgrow : w.tokenWindow ++ [ts[n]]
        = (ts.take (n + 1)).drop (n + 1 - dedupRegionKgramTokens) := by
      rw [hI.window, window_grow hn hsmall]
    refine ⟨{ w with
      hashOne := w.hashOne * rollingBaseOne + ts[n].1
      hashTwo := w.hashTwo * rollingBaseTwo + ts[n].2
      tokenWindow := w.tokenWindow ++ [ts[n]] }, hgrow,
      windowHash_grow w.tokenWindow w.hashOne w.hashTwo ts[n] hI.hash, hI.count,
      ⟨hI.observed.minima, hI.observed.selections⟩, ?_⟩
    rw [Winnower.push, if_pos (by omega)]
    dsimp only
    rw [List.length_append, List.length_singleton, hlen, Nat.min_eq_left hsmall.le]
  · obtain ⟨previous, window, hwindow⟩ : ∃ previous window,
        w.tokenWindow = previous :: window := by
      cases hw : w.tokenWindow with
      | nil =>
        rw [hw, List.length_nil] at hlen
        omega
      | cons previous window => exact ⟨previous, window, rfl⟩
    have hslide : window ++ [ts[n]]
        = (ts.take (n + 1)).drop (n + 1 - dedupRegionKgramTokens) :=
      window_slide hn (by omega) (by rw [← hI.window, hwindow])
    have hwlen : window.length + 1 = dedupRegionKgramTokens := by
      rw [hwindow, List.length_cons] at hlen
      omega
    refine ⟨{ w with
      tokenWindow := window ++ [ts[n]]
      hashOne := w.hashOne * rollingBaseOne + ts[n].1
        - previous.1 * wrappingPower rollingBaseOne dedupRegionKgramTokens
      hashTwo := w.hashTwo * rollingBaseTwo + ts[n].2
        - previous.2 * wrappingPower rollingBaseTwo dedupRegionKgramTokens }, hslide,
      windowHash_slide previous ts[n] window w.hashOne w.hashTwo hwlen (by rw [← hwindow, hI.hash]),
      hI.count, ⟨hI.observed.minima, hI.observed.selections⟩, ?_⟩
    rw [Winnower.push, if_neg (by omega), if_neg (by omega)]
    simp only [hwindow]

/-- A full window has the hash of the k-gram to observe. -/
theorem hash_of_full {w₁ : Winnower} (hfull : dedupRegionKgramTokens ≤ n + 1)
    (hwindow : w₁.tokenWindow = (ts.take (n + 1)).drop (n + 1 - dedupRegionKgramTokens))
    (hhash : toLex (w₁.hashOne, w₁.hashTwo) = windowHash w₁.tokenWindow)
    (hcount : w₁.kgramCount = n - (dedupRegionKgramTokens - 1)) :
    toLex (w₁.hashOne, w₁.hashTwo) = kgramHash ts w₁.kgramCount := by
  have hpos : 0 < dedupRegionKgramTokens := by decide
  have hindex : w₁.kgramCount = n + 1 - dedupRegionKgramTokens := by omega
  rw [hhash, hwindow, window_eq_kgram hfull, hindex, kgramHash]

theorem pushedInv_push (hn : n < ts.length) (hI : PushedInv ts n w)
    (h : w.push ts[n] = some w') : PushedInv ts (n + 1) w' := by
  have hpos : 0 < dedupRegionKgramTokens := by decide
  obtain ⟨w₁, hwindow, hhash, hcount, hO, hpush⟩ := push_cases hn hI
  rw [hpush] at h
  split_ifs at h with hsmall
  · cases h
    exact ⟨hwindow, hhash, by omega, hO⟩
  · obtain ⟨-, -, -, hkept⟩ := hO.observeKgram (hash_of_full (by omega) hwindow hhash hcount)
    obtain ⟨hO', hc, hw, h₁, h₂⟩ := hkept w' h
    refine ⟨hw.trans hwindow, by rw [h₁, h₂, hw, hhash], ?_, hO'⟩
    rw [hc, hcount]
    omega

/-- A run that keeps every push of a prefix ends in the state of that prefix. -/
theorem pushedInv_take (ts : List (UInt64 × UInt64)) (hn : n ≤ ts.length)
    (h : (ts.take n).foldlM Winnower.push {} = some w) : PushedInv ts n w := by
  induction n generalizing w with
  | zero =>
    cases h
    exact pushedInv_empty ts
  | succ n ih =>
    rw [List.take_add_one, List.getElem?_eq_getElem hn, List.foldlM_append] at h
    obtain ⟨w₁, hw₁, hpush⟩ := Option.bind_eq_some_iff.mp h
    have hpush' : w₁.push ts[n] = some w := by simpa using hpush
    exact pushedInv_push hn (ih (by omega) hw₁) hpush'

/-- A run that keeps every push ends in the state of the whole stream. -/
theorem pushedInv_foldlM (ts : List (UInt64 × UInt64)) (h : ts.foldlM Winnower.push {} = some w) :
    PushedInv ts ts.length w :=
  pushedInv_take ts le_rfl (by rwa [List.take_length])

/-- The per-file limit keeps every selected index far below the clamp. -/
theorem min_selected {selected : List Nat} {count i : Nat}
    (hS : Selections (kgramHash ts) dedupRegionWinnowSpan count selected)
    (hlen : selected.length ≤ maxRegionFingerprintsPerFile) (hi : i ∈ selected) :
    min i u32Max = i := by
  have hbound := hS.bound i hi
  have hle : dedupRegionWinnowSpan * selected.length
      ≤ dedupRegionWinnowSpan * maxRegionFingerprintsPerFile := Nat.mul_le_mul_left _ hlen
  have hconst : dedupRegionWinnowSpan * maxRegionFingerprintsPerFile ≤ u32Max := by decide
  omega

/-- Every window of a stream that was kept entirely has its selection among the
    anchors, at its own index. -/
theorem PushedInv.anchor_of_window {lo i : Nat} (hI : PushedInv ts ts.length w)
    (hlo : lo + minDedupRegionTokens ≤ ts.length)
    (hi : RightmostMin (kgramHash ts) lo (lo + dedupRegionWinnowSpan) i) :
    ∃ anchor ∈ w.anchors, anchor.tokenIndex = i
      ∧ toLex (anchor.hashOne, anchor.hashTwo) = kgramHash ts i := by
  obtain ⟨selected, hS, -, hanchors, hlen⟩ := hI.observed.selections
  have hmin : minDedupRegionTokens = dedupRegionKgramTokens - 1 + dedupRegionWinnowSpan := rfl
  have hmem : i ∈ selected := by
    refine (hS.mem_iff i).mpr ⟨lo + dedupRegionWinnowSpan, by omega, ?_, ?_⟩
    · rw [hI.count]
      omega
    · rwa [Nat.add_sub_cancel]
  refine ⟨anchorAt ts i, ?_, min_selected hS hlen hmem, rfl⟩
  rw [hanchors]
  exact List.mem_map_of_mem hmem

end WinnowerSpec

/-! ## Token streams -/

/-- A counted token with the encoded uncounted text since the counted token before it. -/
structure NormalizedToken where
  prefixBytes : Str
  tag : UInt8
  text : Str
  deriving DecidableEq

def NormalizedToken.hash (languageDomain : Str) (token : NormalizedToken) : UInt64 × UInt64 :=
  normalizedTokenHash languageDomain token.prefixBytes token.tag token.text

/-- The normalized tokens of a stream that starts with `pending` uncounted text. -/
def normalizedFrom (pending : Str) : List FingerprintToken → List NormalizedToken
  | [] => []
  | token :: tokens =>
    if token.counted = false then
      normalizedFrom (encodeComponent pending token.tag token.text) tokens
    else ⟨pending, token.tag, token.text⟩ :: normalizedFrom [] tokens

def normalizedTokens (tokens : List FingerprintToken) : List NormalizedToken :=
  normalizedFrom [] tokens

/-- A run of `region_fingerprints` that does not stop early pushes the hashes of
    the normalized tokens. -/
theorem foldlM_step_winnower {languageDomain : Str} {tokens : List FingerprintToken}
    {s s' : RegionState} (h : tokens.foldlM (RegionState.step languageDomain) s = some s') :
    ((normalizedFrom s.pending tokens).map (NormalizedToken.hash languageDomain)).foldlM
      Winnower.push s.winnower = some s'.winnower := by
  induction tokens generalizing s with
  | nil =>
    cases h
    rfl
  | cons token tokens ih =>
    rw [List.foldlM_cons] at h
    obtain ⟨s₁, hstep, hrest⟩ := Option.bind_eq_some_iff.mp h
    have hrun := ih hrest
    rw [RegionState.step] at hstep
    rw [normalizedFrom]
    by_cases hcounted : token.counted = false
    · rw [if_pos hcounted] at hstep ⊢
      simp only at hstep
      split_ifs at hstep
      cases hstep
      exact hrun
    · rw [if_neg hcounted] at hstep ⊢
      split_ifs at hstep
      obtain ⟨winnower, hpush, rfl⟩ := Option.map_eq_some_iff.mp hstep
      rw [List.map_cons, List.foldlM_cons]
      exact Option.bind_eq_some_iff.mpr ⟨winnower, hpush, hrun⟩

theorem pushedInv_of_complete [Base64] {languageDomain : Str} {tokens : List FingerprintToken}
    (h : (regionFingerprints languageDomain tokens).status = .complete) :
    ∃ w, PushedInv ((normalizedTokens tokens).map (NormalizedToken.hash languageDomain))
        (normalizedTokens tokens).length w
      ∧ (regionFingerprints languageDomain tokens).anchors = w.anchors := by
  rw [regionFingerprints] at h ⊢
  split at h
  · cases h
  · rename_i s hs
    have hinv := pushedInv_foldlM _ (foldlM_step_winnower hs)
    rw [List.length_map] at hinv
    exact ⟨s.winnower, hinv, rfl⟩

/-- Equal runs have equal k-grams. -/
theorem kgram_eq_of_run {α : Type*} {left right : List α} {s t n j : Nat}
    (hrun : (left.drop s).take n = (right.drop t).take n) (hj : j + dedupRegionKgramTokens ≤ n) :
    kgram left (s + j) = kgram right (t + j) := by
  have hsub : ∀ (l : List α) (s : Nat), kgram l (s + j)
      = (((l.drop s).take n).drop j).take dedupRegionKgramTokens := by
    intro l s
    rw [kgram, List.drop_take, List.take_take, List.drop_drop]
    congr 1
    omega
  rw [hsub, hsub, hrun]

/-- The winnowing guarantee: two completely fingerprinted streams of one language
    that share a run of at least `minDedupRegionTokens` tokens share an anchor at
    the same offset of the run, with its k-gram inside the run. -/
theorem winnowing_guarantee [Base64] (languageDomain : Str) (left right : List FingerprintToken)
    (s t n : Nat) (hleft : (regionFingerprints languageDomain left).status = .complete)
    (hright : (regionFingerprints languageDomain right).status = .complete)
    (hn : minDedupRegionTokens ≤ n) (hs : s + n ≤ (normalizedTokens left).length)
    (ht : t + n ≤ (normalizedTokens right).length)
    (hrun : ((normalizedTokens left).drop s).take n = ((normalizedTokens right).drop t).take n) :
    ∃ j, j + dedupRegionKgramTokens ≤ n
      ∧ ∃ a ∈ (regionFingerprints languageDomain left).anchors,
        ∃ b ∈ (regionFingerprints languageDomain right).anchors,
          a.tokenIndex = s + j ∧ b.tokenIndex = t + j
            ∧ a.hashOne = b.hashOne ∧ a.hashTwo = b.hashTwo := by
  obtain ⟨wl, hIl, hal⟩ := pushedInv_of_complete hleft
  obtain ⟨wr, hIr, har⟩ := pushedInv_of_complete hright
  have hmin : minDedupRegionTokens = dedupRegionKgramTokens + dedupRegionWinnowSpan - 1 := rfl
  -- inside the run the two streams have the same k-gram hashes
  have hhash : ∀ j, j < dedupRegionWinnowSpan →
      kgramHash ((normalizedTokens left).map (NormalizedToken.hash languageDomain)) (s + j)
        = kgramHash ((normalizedTokens right).map (NormalizedToken.hash languageDomain)) (t + j) := by
    intro j hj
    rw [kgramHash, kgramHash]
    congr 1
    refine kgram_eq_of_run (n := n) ?_ (by omega)
    rw [← List.map_drop, ← List.map_take, hrun, List.map_take, List.map_drop]
  obtain ⟨i, hi⟩ := Winnowing.exists_rightmostMin
    (kgramHash ((normalizedTokens left).map (NormalizedToken.hash languageDomain)))
    (Nat.lt_add_of_pos_right (n := s) (show 0 < dedupRegionWinnowSpan by decide))
  obtain ⟨j, rfl⟩ := Nat.exists_eq_add_of_le hi.lo_le
  have hj : j < dedupRegionWinnowSpan := by
    have := hi.lt_hi
    omega
  have hi' := hi.shift (d := t) fun k hk => hhash k (by omega)
  rw [Nat.add_sub_cancel_left] at hi'
  rw [← List.length_map (f := NormalizedToken.hash languageDomain)] at hIl hIr
  obtain ⟨a, ha, hai, hah⟩ := hIl.anchor_of_window (by rw [List.length_map]; omega) hi
  obtain ⟨b, hb, hbi, hbh⟩ := hIr.anchor_of_window (by rw [List.length_map]; omega) hi'
  rw [hhash j hj, ← hbh] at hah
  obtain ⟨h₁, h₂⟩ := Prod.mk.injEq .. ▸ toLex_inj.mp hah
  exact ⟨j, by omega, a, by rwa [hal], b, by rwa [har], hai, hbi, h₁, h₂⟩

/-- A stream of one-byte tokens, at the start of a file. -/
def byteTokens (texts : List UInt8) : List FingerprintToken :=
  texts.zipIdx.map fun (text, index) => ⟨0, [text], 1, true, index, index + 1⟩

/-- The least shared run, alone and after one other token. -/
theorem winnowing_guarantee_least :
    letI := plainBase64
    let shared := (List.range minDedupRegionTokens).map UInt8.ofNat
    ∃ j, j + dedupRegionKgramTokens ≤ minDedupRegionTokens
      ∧ ∃ a ∈ (regionFingerprints (ascii "node") (byteTokens shared)).anchors,
        ∃ b ∈ (regionFingerprints (ascii "node") (byteTokens (200 :: shared))).anchors,
          a.tokenIndex = 0 + j ∧ b.tokenIndex = 1 + j
            ∧ a.hashOne = b.hashOne ∧ a.hashTwo = b.hashTwo := by
  let _ := plainBase64
  intro shared
  exact winnowing_guarantee (ascii "node") (byteTokens shared) (byteTokens (200 :: shared)) 0 1
    minDedupRegionTokens (by decide +kernel) (by decide +kernel) le_rfl (by decide +kernel)
    (by decide +kernel) (by decide +kernel)

end Opcore
