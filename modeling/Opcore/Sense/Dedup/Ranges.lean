/-
  Opcore.Sense.Dedup.Ranges

  Token records as the decoder keeps them.  It walks the decoded bytes with a cursor
  and remembers the range of each record's prefix, not the prefix itself.  Every
  range it keeps lies inside the decoded bytes, and the text read there later is the
  text the records are compared by.
-/
import Opcore.Sense.Dedup.Evidence

namespace Opcore

open Text

/-! ## Reading at a cursor -/

/-- `DecodedToken` with the range of its prefix in the decoded bytes. -/
structure TokenRecord where
  start : Nat
  stop : Nat
  tag : UInt8
  prefixStart : Nat
  prefixStop : Nat
  deriving DecidableEq

/-- `read_u32`: the number at the cursor and the cursor behind it. -/
def readU32At (bytes : Str) (cursor : Nat) : Option (Nat × Nat) := do
  let field ← slice bytes cursor (cursor + 4)
  let (value, _) ← readU32 field
  some (value, cursor + 4)

def readU16At (bytes : Str) (cursor : Nat) : Option (Nat × Nat) := do
  let field ← slice bytes cursor (cursor + 2)
  let (value, _) ← readU16 field
  some (value, cursor + 2)

/-- `decode_token_record`. -/
def tokenRecordAt (bytes : Str) (sourceLen cursor : Nat) : Option (TokenRecord × Nat) := do
  let (start, cursor) ← readU32At bytes cursor
  let (stop, cursor) ← readU32At bytes cursor
  let tag ← bytes[cursor]?
  let (prefixLen, prefixStart) ← readU16At bytes (cursor + 1)
  let prefixStop := prefixStart + prefixLen
  let _ ← slice bytes prefixStart prefixStop
  if start < stop ∧ stop ≤ sourceLen then
    some (⟨start, stop, tag, prefixStart, prefixStop⟩, prefixStop)
  else none

/-- `decode_token_records` from a cursor on, with `missing` records still expected. -/
def tokenRecordsAt (bytes : Str) (sourceLen : Nat) :
    (missing cursor previousEnd : Nat) → Option (List TokenRecord)
  | missing, cursor, previousEnd =>
    if bytes.length ≤ cursor then
      if missing = 0 then some [] else none
    else
      match missing, tokenRecordAt bytes sourceLen cursor with
      | missing + 1, some (record, cursor) =>
        if record.start < previousEnd then none
        else (tokenRecordsAt bytes sourceLen missing cursor record.stop).map (record :: ·)
      | _, _ => none

/-- The text a record stands for: `decoded.bytes.get(token.prefix)`. -/
def TokenRecord.lead? (bytes : Str) (record : TokenRecord) : Option Str :=
  slice bytes record.prefixStart record.prefixStop

/-- The record with the text of its prefix. -/
def TokenRecord.toToken (bytes : Str) (record : TokenRecord) : DecodedToken :=
  ⟨record.start, record.stop, record.tag, (record.lead? bytes).getD []⟩

/-! ## The cursor and the remaining bytes -/

section

variable {bytes : Str} {sourceLen missing cursor previousEnd : Nat}

theorem slice_drop (h : cursor ≤ bytes.length) (n : Nat) :
    slice (bytes.drop cursor) 0 n = slice bytes cursor (cursor + n) := by
  simp only [slice, List.length_drop, List.drop_zero, Nat.sub_zero, Nat.add_sub_cancel_left,
    Nat.zero_le, true_and, Nat.le_add_right]
  exact if_congr (by omega) rfl rfl

/-- What a reader at a cursor returns, when the same reader works on the bytes that remain. -/
structure ReadsAlike {α : Type} (bytes : Str) (cursor width : Nat) (read : Option (α × Str))
    (readAt : Option (α × Nat)) : Prop where
  readAt_eq : readAt = read.map fun result => (result.1, cursor + width)
  remaining : ∀ result ∈ read,
    result.2 = bytes.drop (cursor + width) ∧ cursor + width ≤ bytes.length

theorem readU32At_reads (h : cursor ≤ bytes.length) :
    ReadsAlike bytes cursor 4 (readU32 (bytes.drop cursor)) (readU32At bytes cursor) := by
  have hfield := slice_drop h 4
  have hlength : (bytes.drop cursor).length = bytes.length - cursor := List.length_drop ..
  have hdrop : (bytes.drop cursor).drop 4 = bytes.drop (cursor + 4) := List.drop_drop ..
  generalize bytes.drop cursor = l at hfield hlength hdrop
  match l with
  | [] | [_] | [_, _] | [_, _, _] =>
    refine ⟨?_, nofun⟩
    rw [readU32At, ← hfield]
    rfl
  | a :: b :: c :: d :: rest =>
    refine ⟨?_, ?_⟩
    · rw [readU32At, ← hfield]
      simp [slice, readU32]
    · intro result hresult
      simp only [readU32, Option.mem_some_iff] at hresult
      subst hresult
      simp only [List.length_cons] at hlength
      exact ⟨hdrop, by omega⟩

theorem readU16At_reads (h : cursor ≤ bytes.length) :
    ReadsAlike bytes cursor 2 (readU16 (bytes.drop cursor)) (readU16At bytes cursor) := by
  have hfield := slice_drop h 2
  have hlength : (bytes.drop cursor).length = bytes.length - cursor := List.length_drop ..
  have hdrop : (bytes.drop cursor).drop 2 = bytes.drop (cursor + 2) := List.drop_drop ..
  generalize bytes.drop cursor = l at hfield hlength hdrop
  match l with
  | [] | [_] =>
    refine ⟨?_, nofun⟩
    rw [readU16At, ← hfield]
    rfl
  | a :: b :: rest =>
    refine ⟨?_, ?_⟩
    · rw [readU16At, ← hfield]
      simp [slice, readU16]
    · intro result hresult
      simp only [readU16, Option.mem_some_iff] at hresult
      subst hresult
      simp only [List.length_cons] at hlength
      exact ⟨hdrop, by omega⟩

/-- A kept record: its prefix can be read, and the cursor stays inside the bytes. -/
structure TokenRecord.Kept (bytes : Str) (record : TokenRecord) (cursor : Nat) : Prop where
  readable : (record.lead? bytes).isSome
  cursor_le : cursor ≤ bytes.length

/-- The record at a cursor is the record at the front of the remaining bytes. -/
theorem decodeTokenRecord_drop (h : cursor ≤ bytes.length) :
    decodeTokenRecord (bytes.drop cursor) sourceLen
        = (tokenRecordAt bytes sourceLen cursor).map
            (fun result => (result.1.toToken bytes, bytes.drop result.2))
      ∧ ∀ result ∈ tokenRecordAt bytes sourceLen cursor, result.1.Kept bytes result.2 := by
  obtain ⟨hstartAt, hstart⟩ := readU32At_reads h
  rw [decodeTokenRecord, tokenRecordAt, hstartAt]
  cases hreadStart : readU32 (bytes.drop cursor) with
  | none => exact ⟨rfl, nofun⟩
  | some start =>
    obtain ⟨start, rest⟩ := start
    obtain ⟨rfl, hle⟩ := hstart _ hreadStart
    obtain ⟨hstopAt, hstop⟩ := readU32At_reads hle
    simp only [Option.bind_eq_bind, Option.bind_some, Option.map_some, hstopAt]
    cases hreadStop : readU32 (bytes.drop (cursor + 4)) with
    | none => exact ⟨rfl, nofun⟩
    | some stop =>
      obtain ⟨stop, rest⟩ := stop
      obtain ⟨rfl, hle⟩ := hstop _ hreadStop
      simp only [Option.bind_some, Option.map_some, List.head?_drop]
      cases htag : bytes[cursor + 4 + 4]? with
      | none => exact ⟨rfl, nofun⟩
      | some tag =>
        have hlt := (List.getElem?_eq_some_iff.mp htag).1
        obtain ⟨hlenAt, hlen⟩ := readU16At_reads (show cursor + 4 + 4 + 1 ≤ bytes.length from hlt)
        simp only [Option.bind_some, List.tail_drop, hlenAt]
        cases hreadLen : readU16 (bytes.drop (cursor + 4 + 4 + 1)) with
        | none => exact ⟨rfl, nofun⟩
        | some leadLen =>
          obtain ⟨leadLen, rest⟩ := leadLen
          obtain ⟨rfl, hle⟩ := hlen _ hreadLen
          simp only [Option.bind_some, Option.map_some, slice_drop hle]
          cases hlead : slice bytes (cursor + 4 + 4 + 1 + 2) (cursor + 4 + 4 + 1 + 2 + leadLen) with
          | none => exact ⟨rfl, nofun⟩
          | some lead =>
            simp only [Option.bind_some]
            split_ifs
            · have hlead? : (TokenRecord.mk start stop tag (cursor + 4 + 4 + 1 + 2)
                  (cursor + 4 + 4 + 1 + 2 + leadLen)).lead? bytes = some lead := hlead
              refine ⟨?_, ?_⟩
              · simp only [Option.map_some, TokenRecord.toToken, hlead?, Option.getD_some,
                  List.drop_drop]
              · intro result hresult
                cases hresult
                refine ⟨by rw [hlead?]; rfl, ?_⟩
                by_contra hnot
                rw [slice, if_neg (fun hin => hnot hin.2)] at hlead
                cases hlead
            · exact ⟨rfl, nofun⟩

/-- The records of a stream, and what is known of each. -/
theorem decodeTokenRecords_drop (h : cursor ≤ bytes.length) :
    decodeTokenRecords sourceLen missing (bytes.drop cursor) previousEnd
        = (tokenRecordsAt bytes sourceLen missing cursor previousEnd).map
            (List.map (TokenRecord.toToken bytes))
      ∧ ∀ records ∈ tokenRecordsAt bytes sourceLen missing cursor previousEnd,
          ∀ record ∈ records, (record.lead? bytes).isSome := by
  induction missing generalizing cursor previousEnd with
  | zero =>
    unfold decodeTokenRecords tokenRecordsAt
    simp only [List.isEmpty_iff, List.drop_eq_nil_iff]
    split_ifs
    · exact ⟨rfl, by simp⟩
    · exact ⟨rfl, by simp⟩
  | succ missing ih =>
    unfold decodeTokenRecords tokenRecordsAt
    simp only [List.isEmpty_iff, List.drop_eq_nil_iff]
    by_cases hend : bytes.length ≤ cursor
    · simp only [if_pos hend, if_neg (Nat.succ_ne_zero missing)]
      exact ⟨rfl, by simp⟩
    · simp only [if_neg hend]
      obtain ⟨hrecord, hkept⟩ := @decodeTokenRecord_drop bytes sourceLen cursor h
      rw [hrecord]
      cases hat : tokenRecordAt bytes sourceLen cursor with
      | none => exact ⟨rfl, by simp⟩
      | some result =>
        obtain ⟨record, next⟩ := result
        have hrecordKept := hkept _ hat
        simp only [Option.map_some, TokenRecord.toToken]
        split_ifs
        · exact ⟨rfl, by simp⟩
        · obtain ⟨hrest, hreadable⟩ := @ih next record.stop hrecordKept.cursor_le
          rw [hrest]
          cases hrecords : tokenRecordsAt bytes sourceLen missing next record.stop with
          | none => exact ⟨rfl, by simp⟩
          | some records =>
            refine ⟨rfl, ?_⟩
            intro all hall
            cases hall
            exact List.forall_mem_cons.mpr ⟨hrecordKept.readable, hreadable _ hrecords⟩

end

/-! ## Decoded streams -/

section

variable [Base64] {source : SourceFile} {facts : RegionFingerprintFacts} {retain : Bool}

/-- The tokens of a valid stream. -/
def streamTokens (source : SourceFile) (facts : RegionFingerprintFacts) :
    Option (List DecodedToken) := do
  let bytes ← Base64.decode facts.encodedTokens
  if bytes.length / minEncodedTokenBytes < facts.tokenCount then none
  else
    let tokens ← decodeTokenRecords source.bytes.length facts.tokenCount bytes 0
    if facts.anchors.all fun anchor =>
        anchor.tokenIndex + dedupRegionKgramTokens ≤ facts.tokenCount then
      some tokens
    else none

/-- Whether tokens are retained makes no difference to which streams are valid. -/
theorem read_eq : DecodedTokens.read source facts retain = (streamTokens source facts).map
    fun tokens =>
      { tokens := if retain then tokens else []
        lineStarts := if retain then collectLineStarts source.bytes else [] } := by
  rw [DecodedTokens.read, streamTokens]
  cases Base64.decode facts.encodedTokens with
  | none => rfl
  | some bytes =>
    simp only [Option.bind_eq_bind, Option.bind_some]
    by_cases hshort : bytes.length / minEncodedTokenBytes < facts.tokenCount
    · rw [if_pos hshort, if_pos hshort]
      rfl
    · rw [if_neg hshort, if_neg hshort]
      cases decodeTokenRecords source.bytes.length facts.tokenCount bytes 0 with
      | none => rfl
      | some tokens =>
        simp only [Option.bind_some]
        by_cases hanchored : (facts.anchors.all fun anchor =>
            anchor.tokenIndex + dedupRegionKgramTokens ≤ facts.tokenCount) = true
        · rw [if_pos hanchored, if_pos hanchored]
          rfl
        · rw [if_neg hanchored, if_neg hanchored]
          rfl

theorem validates_eq_isSome_decode :
    DecodedTokens.validates source facts = (DecodedTokens.decode source facts).isSome := by
  rw [DecodedTokens.validates, DecodedTokens.decode, read_eq, read_eq, Option.isSome_map,
    Option.isSome_map]

/-- A valid stream: as many records as counted, and every anchor inside them. -/
structure StreamOf (source : SourceFile) (facts : RegionFingerprintFacts) (bytes : Str)
    (tokens : List DecodedToken) : Prop where
  decoded : Base64.decode facts.encodedTokens = some bytes
  records : decodeTokenRecords source.bytes.length facts.tokenCount bytes 0 = some tokens
  anchored : ∀ anchor ∈ facts.anchors,
    anchor.tokenIndex + dedupRegionKgramTokens ≤ facts.tokenCount

theorem exists_streamOf {tokens : List DecodedToken} (h : streamTokens source facts = some tokens) :
    ∃ bytes, StreamOf source facts bytes tokens := by
  obtain ⟨bytes, hbytes, h⟩ := Option.bind_eq_some_iff.mp h
  split_ifs at h with hshort hanchored
  · obtain ⟨found, hfound, h⟩ := Option.bind_eq_some_iff.mp h
    cases h
    exact ⟨bytes, hbytes, hfound, by simpa using hanchored⟩
  · obtain ⟨found, -, h⟩ := Option.bind_eq_some_iff.mp h
    cases h

theorem tokens_of_decode {decoded : DecodedTokens}
    (h : DecodedTokens.decode source facts = some decoded) :
    streamTokens source facts = some decoded.tokens := by
  rw [DecodedTokens.decode, read_eq] at h
  obtain ⟨tokens, htokens, rfl⟩ := Option.map_eq_some_iff.mp h
  exact htokens

/-- The tokens of a decoded stream are the kept records, each with the text at the
    range that was kept for it. -/
theorem exists_records_of_decode {decoded : DecodedTokens}
    (h : DecodedTokens.decode source facts = some decoded) :
    ∃ bytes records, Base64.decode facts.encodedTokens = some bytes
      ∧ tokenRecordsAt bytes source.bytes.length facts.tokenCount 0 0 = some records
      ∧ decoded.tokens = records.map (TokenRecord.toToken bytes)
      ∧ ∀ record ∈ records, (record.lead? bytes).isSome := by
  obtain ⟨bytes, hstream⟩ := exists_streamOf (tokens_of_decode h)
  obtain ⟨hrecords, hreadable⟩ := @decodeTokenRecords_drop bytes source.bytes.length
    facts.tokenCount 0 0 (Nat.zero_le _)
  rw [List.drop_zero, hstream.records] at hrecords
  obtain ⟨records, hat, htokens⟩ := Option.map_eq_some_iff.mp hrecords.symm
  exact ⟨bytes, records, hstream.decoded, hat, htokens.symm, hreadable records hat⟩

end

end Opcore
