/-
  Opcore.Sense.Dedup.RoundTrip

  The token stream an analyser writes is the one the duplicate check reads.  Each
  counted token is one record with the uncounted text before it; records of tokens in
  source order are decoded again, and every anchor lies inside the stream.
-/
import Opcore.Sense.Dedup.Evidence

namespace Opcore

open Text Winnowing

/-! ## Records -/

/-- The record of one counted token. -/
def encodeRecord (record : DecodedToken) : Str :=
  be32 record.start ++ be32 record.stop ++ [record.tag] ++ be16 record.lead.length ++ record.lead

/-- The records of a stream that starts with `pending` uncounted text. -/
def recordsFrom (pending : Str) : List FingerprintToken → List DecodedToken
  | [] => []
  | token :: tokens =>
    if token.counted = false then
      recordsFrom (encodeComponent pending token.tag token.text) tokens
    else ⟨token.startByte, token.endByte, token.tag, pending⟩ :: recordsFrom [] tokens

def records (tokens : List FingerprintToken) : List DecodedToken := recordsFrom [] tokens

def countedTokens (tokens : List FingerprintToken) : List FingerprintToken :=
  tokens.filter FingerprintToken.counted

/-- A record whose numbers fit their fields, inside a source of a length. -/
structure DecodedToken.Fits (sourceLen : Nat) (record : DecodedToken) : Prop where
  start_lt : record.start < record.stop
  stop_le : record.stop ≤ sourceLen
  stop_lt : record.stop < 2 ^ 32
  lead_le : record.lead.length ≤ u16Max

section Records

variable {sourceLen n previousEnd : Nat} {rest pending : Str} {record : DecodedToken}
  {stream : List DecodedToken} {tokens : List FingerprintToken}

theorem readU32_be32 (h : n < 2 ^ 32) : readU32 (be32 n ++ rest) = some (n, rest) := by
  simp only [be32, List.map_cons, List.map_nil, List.cons_append, List.nil_append, readU32,
    UInt8.toNat_ofNat', Option.some.injEq, Prod.mk.injEq, and_true]
  omega

theorem readU16_be16 (h : n < 2 ^ 16) : readU16 (be16 n ++ rest) = some (n, rest) := by
  simp only [be16, List.map_cons, List.map_nil, List.cons_append, List.nil_append, readU16,
    UInt8.toNat_ofNat', Option.some.injEq, Prod.mk.injEq, and_true]
  omega

theorem slice_front (lead rest : Str) : slice (lead ++ rest) 0 lead.length = some lead := by
  rw [slice, if_pos ⟨Nat.zero_le _, by rw [List.length_append]; exact Nat.le_add_right _ _⟩,
    List.drop_zero, Nat.sub_zero, List.take_left]

/-- A record is read back, and what follows it remains. -/
theorem decodeTokenRecord_encodeRecord (h : record.Fits sourceLen) :
    decodeTokenRecord (encodeRecord record ++ rest) sourceLen = some (record, rest) := by
  have hstart : record.start < 2 ^ 32 := h.start_lt.trans h.stop_lt
  have hlead : record.lead.length < 2 ^ 16 := by
    have hle := h.lead_le
    simp only [u16Max] at hle
    omega
  have htext : encodeRecord record ++ rest
      = be32 record.start ++ (be32 record.stop ++ (record.tag ::
        (be16 record.lead.length ++ (record.lead ++ rest)))) := by
    simp only [encodeRecord, List.append_assoc, List.cons_append, List.nil_append]
  rw [htext, decodeTokenRecord, readU32_be32 hstart]
  simp only [Option.bind_eq_bind, Option.bind_some, readU32_be32 h.stop_lt, List.head?_cons,
    List.tail_cons, readU16_be16 hlead, slice_front, if_pos (And.intro h.start_lt h.stop_le),
    List.drop_left]

theorem length_encodeRecord : (encodeRecord record).length = 11 + record.lead.length := by
  simp only [encodeRecord, be32, be16, List.length_append, List.length_map, List.length_cons,
    List.length_nil]

/-- Records in source order are decoded. -/
theorem decodeTokenRecords_flatMap (hfits : ∀ record ∈ stream, record.Fits sourceLen)
    (hordered : stream.Pairwise fun left right => left.stop ≤ right.start)
    (hprevious : ∀ record ∈ stream, previousEnd ≤ record.start) :
    decodeTokenRecords sourceLen stream.length (stream.flatMap encodeRecord) previousEnd
      = some stream := by
  induction stream generalizing previousEnd with
  | nil => rfl
  | cons record stream ih =>
    obtain ⟨hlater, hordered⟩ := List.pairwise_cons.mp hordered
    obtain ⟨hrecord, hfits⟩ := List.forall_mem_cons.mp hfits
    have hnonempty : (encodeRecord record ++ stream.flatMap encodeRecord).isEmpty = false := by
      cases htext : encodeRecord record ++ stream.flatMap encodeRecord with
      | nil =>
        have hlength := congrArg List.length htext
        rw [List.length_append, length_encodeRecord, List.length_nil] at hlength
        omega
      | cons b rest => rfl
    have hstart := not_lt.mpr (hprevious record List.mem_cons_self)
    rw [List.flatMap_cons, List.length_cons]
    unfold decodeTokenRecords
    rw [hnonempty, if_neg Bool.false_ne_true, decodeTokenRecord_encodeRecord hrecord]
    dsimp only
    rw [if_neg hstart, ih hfits hordered hlater]
    rfl

theorem length_flatMap_encodeRecord :
    minEncodedTokenBytes * stream.length ≤ (stream.flatMap encodeRecord).length := by
  induction stream with
  | nil => exact Nat.zero_le _
  | cons record stream ih =>
    rw [List.flatMap_cons, List.length_append, length_encodeRecord, List.length_cons]
    simp only [minEncodedTokenBytes] at ih ⊢
    omega

/-- Tokens in source order are no more than the bytes before the last one's end. -/
theorem length_le_of_ordered {bound : Nat} (hfits : ∀ record ∈ stream, record.start < record.stop)
    (hordered : stream.Pairwise fun left right => left.stop ≤ right.start)
    (hprevious : ∀ record ∈ stream, previousEnd ≤ record.start)
    (hbound : ∀ record ∈ stream, record.stop ≤ bound) (hle : previousEnd ≤ bound) :
    previousEnd + stream.length ≤ bound := by
  induction stream generalizing previousEnd with
  | nil => exact hle
  | cons record stream ih =>
    obtain ⟨hlater, hordered⟩ := List.pairwise_cons.mp hordered
    obtain ⟨hrecord, hfits⟩ := List.forall_mem_cons.mp hfits
    obtain ⟨hrecord_bound, hbound⟩ := List.forall_mem_cons.mp hbound
    have hrest := ih hfits hordered hlater hbound hrecord_bound
    have hstart := hprevious record List.mem_cons_self
    rw [List.length_cons]
    omega

/-- Every counted token has one record. -/
theorem map_recordsFrom {α : Type*} (f : Nat → Nat → UInt8 → α) :
    (recordsFrom pending tokens).map (fun record => f record.start record.stop record.tag)
      = (countedTokens tokens).map fun token => f token.startByte token.endByte token.tag := by
  induction tokens generalizing pending with
  | nil => rfl
  | cons token tokens ih =>
    rw [recordsFrom, countedTokens, List.filter_cons]
    cases hcounted : token.counted with
    | false => exact ih
    | true =>
      rw [if_neg (by decide), if_pos rfl, List.map_cons, List.map_cons]
      exact congrArg _ ih

end Records

/-! ## What the analyser writes -/

section Written

variable {languageDomain : Str} {tokens : List FingerprintToken} {s s' : RegionState}

/-- A run that does not stop early appends the records of its tokens. -/
theorem foldlM_step_encoded (h : tokens.foldlM (RegionState.step languageDomain) s = some s') :
    s'.encoded = s.encoded ++ (recordsFrom s.pending tokens).flatMap encodeRecord
      ∧ s'.tokenCount = s.tokenCount + (recordsFrom s.pending tokens).length
      ∧ ∀ record ∈ recordsFrom s.pending tokens, record.lead.length ≤ u16Max := by
  induction tokens generalizing s with
  | nil =>
    cases h
    exact ⟨(List.append_nil _).symm, rfl, fun _ h => absurd h List.not_mem_nil⟩
  | cons token tokens ih =>
    rw [List.foldlM_cons] at h
    obtain ⟨s₁, hstep, hrest⟩ := Option.bind_eq_some_iff.mp h
    obtain ⟨hencoded, hcount, hlead⟩ := ih hrest
    rw [RegionState.step] at hstep
    rw [recordsFrom]
    by_cases hcounted : token.counted = false
    · rw [if_pos hcounted] at hstep ⊢
      simp only at hstep
      split_ifs at hstep
      cases hstep
      exact ⟨hencoded, hcount, hlead⟩
    · rw [if_neg hcounted] at hstep ⊢
      split_ifs at hstep with _ hpending
      obtain ⟨winnower, -, rfl⟩ := Option.map_eq_some_iff.mp hstep
      refine ⟨?_, ?_, List.forall_mem_cons.mpr ⟨not_lt.mp hpending, hlead⟩⟩
      · rw [hencoded, List.flatMap_cons]
        simp only [encodeRecord, List.append_assoc]
      · rw [hcount, List.length_cons]
        exact Nat.add_right_comm _ _ _

theorem length_normalizedFrom {pending : Str} :
    (normalizedFrom pending tokens).length = (recordsFrom pending tokens).length := by
  induction tokens generalizing pending with
  | nil => rfl
  | cons token tokens ih =>
    rw [normalizedFrom, recordsFrom]
    split_ifs
    · exact ih
    · rw [List.length_cons, List.length_cons, ih]

/-- Every anchor is the index of a k-gram of the stream. -/
theorem anchor_le_of_complete [Base64]
    (h : (regionFingerprints languageDomain tokens).status = .complete) :
    ∀ anchor ∈ (regionFingerprints languageDomain tokens).anchors,
      anchor.tokenIndex + dedupRegionKgramTokens ≤ (records tokens).length := by
  obtain ⟨w, hinv, hanchors⟩ := pushedInv_of_complete h
  obtain ⟨selected, hselections, -, hselected, -⟩ := hinv.observed.selections
  intro anchor hanchor
  rw [hanchors, hselected] at hanchor
  obtain ⟨i, hi, rfl⟩ := List.mem_map.mp hanchor
  obtain ⟨stop, -, hstop, hmin⟩ := (hselections.mem_iff i).mp hi
  have hlt := hmin.lt_hi
  have hcount := hinv.count
  have hlength : (normalizedTokens tokens).length = (records tokens).length := length_normalizedFrom
  have hpositive : 0 < dedupRegionKgramTokens := by decide
  have hindex : (anchorAt ((normalizedTokens tokens).map
      (NormalizedToken.hash languageDomain)) i).tokenIndex ≤ i := Nat.min_le_left _ _
  omega

end Written

/-! ## The round trip -/

/-- The counted tokens cover bytes of the source, in order and without overlap. -/
structure InSourceOrder (source : SourceFile) (tokens : List FingerprintToken) : Prop where
  start_lt : ∀ token ∈ countedTokens tokens, token.startByte < token.endByte
  end_le : ∀ token ∈ countedTokens tokens, token.endByte ≤ source.bytes.length
  end_le_u32 : ∀ token ∈ countedTokens tokens, token.endByte ≤ u32Max
  ordered : (countedTokens tokens).Pairwise fun left right => left.endByte ≤ right.startByte

theorem InSourceOrder.records {source : SourceFile} {tokens : List FingerprintToken}
    (h : InSourceOrder source tokens)
    (hlead : ∀ record ∈ records tokens, record.lead.length ≤ u16Max) :
    (∀ record ∈ Opcore.records tokens, record.Fits source.bytes.length)
      ∧ (Opcore.records tokens).Pairwise (fun left right => left.stop ≤ right.start)
      ∧ (Opcore.records tokens).length ≤ u32Max := by
  have hmap : (Opcore.records tokens).map (fun record => (record.start, record.stop))
      = (countedTokens tokens).map fun token => (token.startByte, token.endByte) :=
    map_recordsFrom fun start stop _ => (start, stop)
  have hbounds : ∀ record ∈ Opcore.records tokens, record.start < record.stop
      ∧ record.stop ≤ source.bytes.length ∧ record.stop ≤ u32Max := by
    intro record hrecord
    have hmem := List.mem_map_of_mem (f := fun record : DecodedToken => (record.start, record.stop))
      hrecord
    rw [hmap] at hmem
    obtain ⟨token, htoken, heq⟩ := List.mem_map.mp hmem
    obtain ⟨hstart, hstop⟩ := Prod.mk.inj heq
    rw [← hstart, ← hstop]
    exact ⟨h.start_lt token htoken, h.end_le token htoken, h.end_le_u32 token htoken⟩
  have hordered : (Opcore.records tokens).Pairwise fun left right => left.stop ≤ right.start := by
    have hpairs : ((countedTokens tokens).map fun token => (token.startByte, token.endByte)).Pairwise
        fun left right => left.2 ≤ right.1 := List.pairwise_map.mpr h.ordered
    rw [← hmap, List.pairwise_map] at hpairs
    exact hpairs
  refine ⟨fun record hrecord => ?_, hordered, ?_⟩
  · obtain ⟨hstart, hstop, hlt⟩ := hbounds record hrecord
    have hu32 : u32Max < 2 ^ 32 := by decide
    exact ⟨hstart, hstop, hlt.trans_lt hu32, hlead record hrecord⟩
  · have hlength := length_le_of_ordered (fun record hrecord => (hbounds record hrecord).1) hordered
      (fun record _ => Nat.zero_le record.start) (fun record hrecord => (hbounds record hrecord).2.2)
      (Nat.zero_le u32Max)
    rwa [Nat.zero_add] at hlength

/-- The evidence of a file that was fingerprinted completely is decoded to one token for
    each counted one, with its place, its tag and the uncounted text before it. -/
theorem decode_regionFingerprints [Base64]
    (hbase64 : ∀ bytes : Str, Base64.decode (Base64.encode bytes) = some bytes)
    (languageDomain : Str) {source : SourceFile} {tokens : List FingerprintToken}
    (htokens : InSourceOrder source tokens)
    (hcomplete : (regionFingerprints languageDomain tokens).status = .complete) :
    (∃ decoded, DecodedTokens.decode source (regionFingerprints languageDomain tokens) = some decoded
        ∧ decoded.tokens = records tokens
        ∧ decoded.tokens.map (fun token => (token.start, token.stop, token.tag))
          = (countedTokens tokens).map fun token => (token.startByte, token.endByte, token.tag))
      ∧ ∀ anchor ∈ (regionFingerprints languageDomain tokens).anchors,
        anchor.tokenIndex + dedupRegionKgramTokens
          ≤ (regionFingerprints languageDomain tokens).tokenCount := by
  have hanchor := anchor_le_of_complete hcomplete
  obtain ⟨s, hs⟩ : ∃ s, tokens.foldlM (RegionState.step languageDomain) {} = some s := by
    cases hs : tokens.foldlM (RegionState.step languageDomain) {} with
    | some s => exact ⟨s, rfl⟩
    | none =>
      rw [regionFingerprints, hs] at hcomplete
      cases hcomplete
  obtain ⟨hencoded, hcount, hlead⟩ := foldlM_step_encoded hs
  have hrecords : recordsFrom ({} : RegionState).pending tokens = records tokens := rfl
  rw [hrecords] at hencoded hcount hlead
  rw [List.nil_append] at hencoded
  rw [Nat.zero_add] at hcount
  obtain ⟨hfits, hordered, hlength⟩ := htokens.records hlead
  have hfacts : regionFingerprints languageDomain tokens
      = { status := .complete
          tokenCount := (records tokens).length
          encodedTokens := Base64.encode ((records tokens).flatMap encodeRecord)
          anchors := (regionFingerprints languageDomain tokens).anchors } := by
    rw [regionFingerprints, hs]
    simp only [hcount, hencoded, Nat.min_eq_left hlength]
  -- The number of tokens fits the bytes that encode them.
  have hbytes : ¬ ((records tokens).flatMap encodeRecord).length / minEncodedTokenBytes
      < (records tokens).length := by
    rw [not_lt, Nat.le_div_iff_mul_le (by decide), Nat.mul_comm]
    exact length_flatMap_encodeRecord
  have hdecoded := decodeTokenRecords_flatMap hfits hordered fun record _ => Nat.zero_le record.start
  have hanchors : ((regionFingerprints languageDomain tokens).anchors.all fun anchor =>
      anchor.tokenIndex + dedupRegionKgramTokens ≤ (records tokens).length) = true :=
    List.all_eq_true.mpr fun anchor hmem => decide_eq_true (hanchor anchor hmem)
  have hdecode : DecodedTokens.decode source (regionFingerprints languageDomain tokens)
      = some ⟨records tokens, collectLineStarts source.bytes⟩ := by
    rw [hfacts, DecodedTokens.decode, DecodedTokens.read]
    simp only [hbase64, Option.bind_eq_bind, Option.bind_some, if_neg hbytes, hdecoded,
      hanchors, if_true]
  refine ⟨⟨_, hdecode, rfl, ?_⟩, fun anchor hmem => ?_⟩
  · exact map_recordsFrom fun start stop tag => (start, stop, tag)
  · rw [hfacts]
    exact hanchor anchor hmem

/-- A token, a comment and a token, at the start of a file of five bytes. -/
def commentedTokens : List FingerprintToken :=
  [⟨0, ascii "a", 1, true, 0, 1⟩, ⟨2, ascii "#b", 1, false, 1, 3⟩, ⟨1, ascii "cd", 1, true, 3, 5⟩]

def commentedFile : SourceFile := ⟨samplePath "a.py", ascii "a#bcd", .python, ascii "python"⟩

theorem decode_regionFingerprints_commented :
    letI := plainBase64
    ∃ decoded, DecodedTokens.decode commentedFile
        (regionFingerprints (ascii "python") commentedTokens) = some decoded
      ∧ decoded.tokens = [⟨0, 1, 0, []⟩, ⟨3, 5, 1, [2, 0, 0, 0, 2] ++ ascii "#b"⟩] := by
  let _ := plainBase64
  have htokens : InSourceOrder commentedFile commentedTokens :=
    ⟨by decide, by decide, by decide, by decide⟩
  obtain ⟨⟨decoded, hdecode, hrecords, -⟩, -⟩ := decode_regionFingerprints (fun _ => rfl)
    (ascii "python") htokens (by decide +kernel)
  exact ⟨decoded, hdecode, hrecords⟩

end Opcore
