/-
  Opcore.Sense.Dedup.Evidence

  The exact token stream kept in a file's facts, decoded again: records of
  source position, tag and the uncounted text before the token.  A stream that
  is not what the analysers write is refused as a whole.
-/
import Opcore.Analysis.Dedup
import Opcore.Source.Snapshot

namespace Opcore

open Text Collections

def minEncodedTokenBytes : Nat := 11

/-- One record.  The source keeps the position of the record's prefix in the
    decoded bytes; the model keeps those bytes themselves as `lead`. -/
structure DecodedToken where
  start : Nat
  stop : Nat
  tag : UInt8
  lead : Str
  deriving DecidableEq

structure DecodedTokens where
  tokens : List DecodedToken
  lineStarts : List Nat
  deriving DecidableEq

/-- `slice.get(start..stop)`. -/
def slice {α : Type*} (l : List α) (start stop : Nat) : Option (List α) :=
  if start ≤ stop ∧ stop ≤ l.length then some ((l.drop start).take (stop - start)) else none

/-- A big-endian number at the front of the remaining bytes. -/
def readU32 : Str → Option (Nat × Str)
  | a :: b :: c :: d :: rest =>
    some (((a.toNat * 256 + b.toNat) * 256 + c.toNat) * 256 + d.toNat, rest)
  | _ => none

def readU16 : Str → Option (Nat × Str)
  | a :: b :: rest => some (a.toNat * 256 + b.toNat, rest)
  | _ => none

/-- The record at the front of the remaining bytes, and what remains behind it. -/
def decodeTokenRecord (bytes : Str) (sourceLen : Nat) : Option (DecodedToken × Str) := do
  let (start, bytes) ← readU32 bytes
  let (stop, bytes) ← readU32 bytes
  let tag ← bytes.head?
  let (leadLen, bytes) ← readU16 bytes.tail
  let lead ← slice bytes 0 leadLen
  if start < stop ∧ stop ≤ sourceLen then some (⟨start, stop, tag, lead⟩, bytes.drop leadLen)
  else none

/-- The records of the remaining bytes.  `missing` records are still expected:
    the stream must hold exactly these, in source order and without overlap. -/
def decodeTokenRecords (sourceLen : Nat) :
    (missing : Nat) → (bytes : Str) → (previousEnd : Nat) → Option (List DecodedToken)
  | missing, bytes, previousEnd =>
    if bytes.isEmpty then
      if missing = 0 then some [] else none
    else
      match missing, decodeTokenRecord bytes sourceLen with
      | missing + 1, some (token, bytes) =>
        if token.start < previousEnd then none
        else (decodeTokenRecords sourceLen missing bytes token.stop).map (token :: ·)
      -- one record more than counted, or one that cannot be read
      | _, _ => none

/-- Byte offsets at which lines start; `\r\n` ends one line. -/
def collectLineStarts (source : Str) : List Nat :=
  0 :: source.zipIdx.filterMap fun (b, index) =>
    if b = 10 ∨ (b = 13 ∧ source[index + 1]? ≠ some 10) then some (index + 1) else none

namespace DecodedTokens

def read [Base64] (source : SourceFile) (facts : RegionFingerprintFacts) (retain : Bool) :
    Option DecodedTokens := do
  let bytes ← Base64.decode facts.encodedTokens
  let expected := facts.tokenCount
  if bytes.length / minEncodedTokenBytes < expected then none
  else
    let tokens ← decodeTokenRecords source.bytes.length expected bytes 0
    if facts.anchors.all fun anchor => anchor.tokenIndex + dedupRegionKgramTokens ≤ expected then
      some
        { tokens := if retain then tokens else []
          lineStarts := if retain then collectLineStarts source.bytes else [] }
    else none

def decode [Base64] (source : SourceFile) (facts : RegionFingerprintFacts) : Option DecodedTokens :=
  read source facts true

def validates [Base64] (source : SourceFile) (facts : RegionFingerprintFacts) : Bool :=
  (read source facts false).isSome

/-- `partition_point(|start| *start <= byte)` on the ascending line starts. -/
def position (self : DecodedTokens) (offset : Nat) : Position :=
  let line := (self.lineStarts.takeWhile (· ≤ offset)).length - 1
  let lineStart := self.lineStarts.getD line 0
  { line := if line ≤ u32Max then min (line + 1) u32Max else u32Max
    column := min (offset - lineStart + 1) u32Max
    byte := min offset u32Max }

end DecodedTokens

/-! ## One decoding per fact key -/

inductive EvidenceState where
  | validated
  | decoded (tokens : DecodedTokens)
  | malformed
  deriving DecidableEq

abbrev DecodedEvidence := BTreeMap FileFactKey EvidenceState

namespace DecodedEvidence

def decodeState [Base64] (source : SourceFile) (facts : RegionFingerprintFacts) : EvidenceState :=
  match DecodedTokens.decode source facts with
  | some tokens => .decoded tokens
  | none => .malformed

/-- The state under a key, decoding at most once unless a validated stream is
    asked for its tokens later. -/
def state [Base64] (self : DecodedEvidence) (factKey : FileFactKey) (source : SourceFile)
    (facts : RegionFingerprintFacts) (retain : Bool) : EvidenceState × DecodedEvidence :=
  let state :=
    match self.get? factKey with
    | some state => state
    | none =>
      if retain then decodeState source facts
      else if DecodedTokens.validates source facts then .validated
      else .malformed
  let state := if retain ∧ state = .validated then decodeState source facts else state
  (state, self.insert factKey state)

def malformedFactKeys (self : DecodedEvidence) : BTreeSet FileFactKey :=
  BTreeSet.ofList ((self.entries.filter fun entry => entry.2 = .malformed).map Prod.fst)

end DecodedEvidence

end Opcore
