/-
  Opcore.Source.Objects

  Reading a batch of objects from `git cat-file`.  Headers are lines and bodies are
  counted, on one stream; what is read for an entry are the bytes that its own frame
  counts, and a stream of such frames is read whole.
-/
import Opcore.Library.Words
import Opcore.Protocol.Session
import Opcore.Source.NativeCapture

namespace Opcore

open Text

/-- An entry of a tree or of the index. -/
structure TreeEntry where
  mode : Str
  oid : Str
  oidText : utf8Valid oid = true
  deriving DecidableEq

/-- The object ids of the samples are texts. -/
theorem utf8Valid_one : utf8Valid (ascii "1") = true := rfl

theorem utf8Valid_two : utf8Valid (ascii "2") = true := rfl

structure GitBlob where
  path : RepoPath
  bytes : Str
  deriving DecidableEq

/-! ## Reading -/

/-- `read_line` into a `String`: the bytes up to the first newline, with it, or all there are. -/
def readLine (stream : Str) : Except SourceError (Str × Str) :=
  let line := stream.take (stream.idxOf 10 + 1)
  if utf8Valid line then .ok (line, stream.drop (stream.idxOf 10 + 1))
  else .error (.io (ascii "stream did not contain valid UTF-8"))

def readExact (length : Nat) (stream : Str) : Except SourceError (Str × Str) :=
  if stream.length < length then .error (.io (ascii "failed to fill whole buffer"))
  else .ok (stream.take length, stream.drop length)

/-- `str::parse` of a `usize`: a plus sign may stand before the digits. -/
def parseUsize (text : Str) : Option Nat :=
  let digits := (stripPrefix (ascii "+") text).getD text
  if digits = [] then none else (Asp.decimalValue digits).filter (· < 2 ^ 64)

/-- The header of an object: the one asked for, a blob, and its size. -/
def readCatHeader (path : RepoPath) (entry : TreeEntry) (stream : Str) :
    Except SourceError (Nat × Str) :=
  match readLine stream with
  | .error error => .error error
  | .ok (header, rest) =>
    match splitAsciiWhitespace header with
    | [oid, kind, size] =>
      if oid ≠ entry.oid ∨ kind ≠ ascii "blob" then
        .error (.invalid (ascii "unexpected cat-file response for " ++ path.displayLossless))
      else
        match parseUsize size with
        | none => .error (.invalid (ascii "invalid blob size"))
        | some length => .ok (length, rest)
    | _ => .error (.invalid (ascii "unexpected cat-file response for " ++ path.displayLossless))

/-- The total once a blob is added to it. -/
def addBoundedBlobLength (total length : Nat) (path : RepoPath) (totalLimit : Nat) :
    Except SourceError Nat :=
  if maxSourceBytes < length then
    .error (.incomplete (path.displayLossless ++ ascii " exceeds 4194304 bytes"))
  else if totalLimit < total + length then
    .error (.incomplete (ascii "Git blob read exceeds " ++ Json.decimal totalLimit
      ++ ascii " total bytes"))
  else .ok (total + length)

/-- The bytes of an object, and the line feed behind them. -/
def readCatBody (length : Nat) (stream : Str) : Except SourceError (Str × Str) :=
  match readExact length stream with
  | .error error => .error error
  | .ok (bytes, rest) =>
    match readExact 1 rest with
    | .error error => .error error
    | .ok (separator, rest) =>
      if separator ≠ [10] then .error (.invalid (ascii "malformed cat-file frame"))
      else .ok (bytes, rest)

/-- One round of the loop: the blob of an entry, the total, and what is left of the stream. -/
def readCatBlob (total totalLimit : Nat) (path : RepoPath) (entry : TreeEntry) (stream : Str) :
    Except SourceError (GitBlob × Nat × Str) := do
  let (length, stream) ← readCatHeader path entry stream
  let total ← addBoundedBlobLength total length path totalLimit
  let (bytes, stream) ← readCatBody length stream
  return (⟨path, bytes⟩, total, stream)

def readCatBlobsFrom (total totalLimit : Nat) :
    List (RepoPath × TreeEntry) → Str → Except SourceError (List GitBlob × Str)
  | [], stream => .ok ([], stream)
  | (path, entry) :: entries, stream => do
    let (blob, total, stream) ← readCatBlob total totalLimit path entry stream
    let (blobs, stream) ← readCatBlobsFrom total totalLimit entries stream
    return (blob :: blobs, stream)

/-- The blobs of the entries, and what is left of the stream. -/
def readCatBlobs (stream : Str) (entries : List (RepoPath × TreeEntry)) (totalLimit : Nat) :
    Except SourceError (List GitBlob × Str) :=
  readCatBlobsFrom 0 totalLimit entries stream

/-! ## Frames -/

/-- The frame of an entry: a line of three words, the last of them a number, and as many bytes
    as it says, with a newline after each. -/
inductive CatFrame (entry : TreeEntry) (bytes : Str) : Str → Prop
  | intro (header size : Str) : 10 ∉ header →
      splitAsciiWhitespace header = [entry.oid, ascii "blob", size] →
      parseUsize size = some bytes.length →
      CatFrame entry bytes (header ++ 10 :: (bytes ++ [10]))

/-- The frames of the entries, one after another; the bytes of each are those of its blob. -/
inductive CatFrames : List (RepoPath × TreeEntry) → List GitBlob → Str → Prop
  | nil : CatFrames [] [] []
  | cons {path : RepoPath} {entry : TreeEntry} {entries : List (RepoPath × TreeEntry)}
      {bytes frame rest : Str} {blobs : List GitBlob} : CatFrame entry bytes frame →
      CatFrames entries blobs rest →
      CatFrames ((path, entry) :: entries) (⟨path, bytes⟩ :: blobs) (frame ++ rest)

/-! ## Decimal sizes -/

section Words

variable {s : Str}

theorem digits_of_decimalValue {digits : Str} {value : Nat} (h : Asp.decimalValue digits = some value) :
    ∀ b ∈ digits, Asp.isAsciiDigit b = true := by
  rw [Asp.decimalValue] at h
  generalize (0 : Nat) = start at h
  induction digits generalizing start with
  | nil => exact nofun
  | cons digit digits ih =>
    rw [List.foldlM_cons] at h
    by_cases hdigit : Asp.isAsciiDigit digit = true
    · rw [if_pos hdigit] at h
      exact List.forall_mem_cons.mpr ⟨hdigit, ih _ h⟩
    · rw [if_neg hdigit] at h
      cases h

/-- A number is written in ASCII. -/
theorem utf8Valid_of_parseUsize {n : Nat} (h : parseUsize s = some n) : utf8Valid s = true := by
  rw [parseUsize] at h
  split_ifs at h with hnil
  obtain ⟨value, hvalue⟩ : ∃ value,
      Asp.decimalValue ((stripPrefix (ascii "+") s).getD s) = some value :=
    ⟨n, (Option.filter_eq_some_iff.mp h).1⟩
  have hdigits : ∀ b : UInt8, Asp.isAsciiDigit b = true → b < 0x80 := by
    intro b hb
    rw [Asp.isAsciiDigit, decide_eq_true_eq] at hb
    exact hb.2.trans_lt (by decide)
  have hascii := digits_of_decimalValue hvalue
  cases hsign : stripPrefix (ascii "+") s with
  | none =>
    rw [hsign] at hascii
    exact utf8Valid_of_ascii fun b hb => hdigits b (hascii b hb)
  | some digits =>
    rw [hsign] at hascii
    rw [stripPrefix_eq_some_iff.mp hsign]
    exact utf8Valid_append rfl
      (utf8Valid_of_ascii fun b hb => hdigits b (hascii b hb))

theorem isAsciiDigit_byte {c : Char} (h : c.isDigit = true) :
    Asp.isAsciiDigit (byte c) = true ∧ (byte c - byte '0').toNat = c.toNat - '0'.toNat := by
  simp only [Char.isDigit, Bool.and_eq_true, decide_eq_true_eq] at h
  have hlow : 48 ≤ c.toNat := by
    have := UInt32.le_iff_toNat_le.mp h.1
    simpa using this
  have hhigh : c.toNat ≤ 57 := by
    have := UInt32.le_iff_toNat_le.mp h.2
    simpa using this
  have hbyte : (byte c).toNat = c.toNat := by
    rw [byte, UInt8.toNat_ofNat']
    omega
  have hzero : byte '0' ≤ byte c := by
    rw [UInt8.le_iff_toNat_le, hbyte]
    exact hlow
  have hnine : byte c ≤ byte '9' := by
    rw [UInt8.le_iff_toNat_le, hbyte]
    exact hhigh
  refine ⟨decide_eq_true ⟨hzero, hnine⟩, ?_⟩
  rw [UInt8.toNat_sub_of_le _ _ hzero, hbyte]
  rfl

theorem foldlM_digits {digits : List Char} (h : ∀ c ∈ digits, c.isDigit = true) (value : Nat) :
    (digits.map byte).foldlM (fun value digit =>
        if Asp.isAsciiDigit digit then some (value * 10 + (digit - byte '0').toNat) else none) value
      = some (Nat.ofDigitChars 10 digits value) := by
  induction digits generalizing value with
  | nil => rfl
  | cons c digits ih =>
    obtain ⟨hc, hdigits⟩ := List.forall_mem_cons.mp h
    obtain ⟨hdigit, hvalue⟩ := isAsciiDigit_byte hc
    rw [List.map_cons, List.foldlM_cons, if_pos hdigit, Nat.ofDigitChars_cons, hvalue,
      Nat.mul_comm value 10]
    exact ih hdigits _

theorem isAsciiDigit_of_mem_decimal {n : Nat} {b : UInt8} (h : b ∈ Json.decimal n) :
    Asp.isAsciiDigit b = true := by
  obtain ⟨c, hc, rfl⟩ := List.mem_map.mp h
  exact (isAsciiDigit_byte (Nat.isDigit_of_mem_toDigits (by decide) (by decide) hc)).1

/-- A number is read as it was written, unless it is too large for a length. -/
theorem parseUsize_decimal {n m : Nat} :
    parseUsize (Json.decimal n) = some m ↔ n = m ∧ n < 2 ^ 64 := by
  have hne : Json.decimal n ≠ [] := by
    rw [Json.decimal, Ne, List.map_eq_nil_iff]
    exact Nat.toDigits_ne_nil
  have hplus : stripPrefix (ascii "+") (Json.decimal n) = none := by
    rw [Option.eq_none_iff_forall_not_mem]
    intro rest hrest
    have hdecimal : Json.decimal n = ascii "+" ++ rest := stripPrefix_eq_some_iff.mp hrest
    have hmem : byte '+' ∈ Json.decimal n := by
      rw [hdecimal]
      exact List.mem_append_left _ (by decide)
    exact absurd (isAsciiDigit_of_mem_decimal hmem) (by decide)
  have hvalue : Asp.decimalValue (Json.decimal n) = some n := by
    rw [Asp.decimalValue, Json.decimal,
      foldlM_digits fun c hc => Nat.isDigit_of_mem_toDigits (by decide) (by decide) hc,
      Nat.ofDigitChars_ten_toDigits]
  rw [parseUsize, hplus]
  dsimp only [Option.getD_none]
  rw [if_neg hne, hvalue, Option.filter_eq_some_iff, Option.some.injEq, decide_eq_true_eq]
  constructor
  · rintro ⟨rfl, hlt⟩
    exact ⟨rfl, hlt⟩
  · rintro ⟨rfl, hlt⟩
    exact ⟨rfl, hlt⟩

end Words

/-! ## One frame -/

section Frame

variable {path : RepoPath} {entry : TreeEntry} {stream rest header bytes : Str} {length : Nat}

/-- The line of a stream that starts with one. -/
theorem readLine_line (hheader : 10 ∉ header) (htext : utf8Valid header = true) :
    readLine (header ++ 10 :: rest) = .ok (header ++ [10], rest) := by
  have hindex : (header ++ 10 :: rest).idxOf (10 : UInt8) = header.length := by
    rw [List.idxOf_append_of_notMem hheader, List.idxOf_cons_self, Nat.add_zero]
  have hline : (header ++ 10 :: rest).take (header.length + 1) = header ++ [10] := by
    rw [List.take_append]
    simp
  have hrest : (header ++ 10 :: rest).drop (header.length + 1) = rest := by
    rw [List.drop_append]
    simp
  rw [readLine, hindex, hline, hrest]
  exact if_pos (utf8Valid_append htext rfl)

/-- A line that was read ends with its newline, or the stream with it. -/
theorem readLine_cases {line : Str} (h : readLine stream = .ok (line, rest)) :
    (∃ header, 10 ∉ header ∧ line = header ++ [10] ∧ stream = header ++ 10 :: rest) ∨ rest = [] := by
  rw [readLine] at h
  split_ifs at h
  cases h
  by_cases hmem : (10 : UInt8) ∈ stream
  · left
    obtain ⟨header, after, rfl, hheader⟩ := List.eq_append_cons_of_mem hmem
    have hindex : (header ++ 10 :: after).idxOf (10 : UInt8) = header.length := by
      rw [List.idxOf_append_of_notMem hheader, List.idxOf_cons_self, Nat.add_zero]
    refine ⟨header, hheader, ?_, ?_⟩
    · rw [hindex, List.take_append]
      simp
    · rw [hindex, List.drop_append]
      simp
  · right
    rw [List.idxOf_of_notMem hmem]
    exact List.drop_of_length_le (Nat.le_succ _)

theorem readExact_eq_ok_iff {n : Nat} : readExact n stream = .ok (bytes, rest)
    ↔ stream = bytes ++ rest ∧ bytes.length = n := by
  rw [readExact]
  split_ifs with hshort
  · constructor
    · intro h
      cases h
    · rintro ⟨rfl, rfl⟩
      rw [List.length_append] at hshort
      omega
  · constructor
    · intro h
      cases h
      exact ⟨(List.take_append_drop n stream).symm, by rw [List.length_take]; omega⟩
    · rintro ⟨rfl, rfl⟩
      rw [List.take_left', List.drop_left']
      · rfl
      · rfl

theorem readCatBody_eq_ok_iff : readCatBody length stream = .ok (bytes, rest)
    ↔ stream = bytes ++ 10 :: rest ∧ bytes.length = length := by
  rw [readCatBody]
  constructor
  · intro h
    split at h
    · cases h
    · next body after hbody =>
        split at h
        · cases h
        · next separator remaining hseparator =>
            split_ifs at h with hnewline
            cases h
            obtain ⟨hstream, hlength⟩ := readExact_eq_ok_iff.mp hbody
            obtain ⟨hafter, -⟩ := readExact_eq_ok_iff.mp hseparator
            rw [not_not.mp hnewline] at hafter
            exact ⟨hstream.trans (congrArg _ hafter), hlength⟩
  · rintro ⟨rfl, hlength⟩
    have hbody : readExact length (bytes ++ 10 :: rest) = .ok (bytes, 10 :: rest) :=
      readExact_eq_ok_iff.mpr ⟨rfl, hlength⟩
    have hseparator : readExact 1 (10 :: rest) = .ok ([10], rest) :=
      readExact_eq_ok_iff.mpr ⟨rfl, rfl⟩
    rw [hbody]
    dsimp only
    rw [hseparator]
    exact if_neg (not_not.mpr rfl)

/-- What a header says, where it is read at all. -/
theorem readCatHeader_eq_ok_iff : readCatHeader path entry stream = .ok (length, rest)
    ↔ ∃ line size, readLine stream = .ok (line, rest)
      ∧ splitAsciiWhitespace line = [entry.oid, ascii "blob", size]
      ∧ parseUsize size = some length := by
  rw [readCatHeader]
  constructor
  · intro h
    split at h
    · cases h
    · next line after hline =>
        split at h
        · next oid kind size hwords =>
            split_ifs at h with hother
            split at h
            · cases h
            · next n hsize =>
                cases h
                rw [not_or, not_not, not_not] at hother
                exact ⟨line, size, hline, by rw [hwords, hother.1, hother.2], hsize⟩
        · cases h
  · rintro ⟨line, size, hline, hwords, hsize⟩
    rw [hline]
    dsimp only
    rw [hwords]
    dsimp only
    rw [if_neg (by simp), hsize]

/-- One round reads one frame: that of its entry, with as many bytes as the bounds allow. -/
theorem readCatBlob_eq_ok_iff {total totalLimit total' : Nat} {blob : GitBlob} :
    readCatBlob total totalLimit path entry stream = .ok (blob, total', rest)
      ↔ blob.path = path ∧ total' = total + blob.bytes.length
        ∧ blob.bytes.length ≤ maxSourceBytes ∧ total' ≤ totalLimit
        ∧ ∃ frame, CatFrame entry blob.bytes frame ∧ stream = frame ++ rest := by
  have hbound : ∀ n m, addBoundedBlobLength total n path totalLimit = .ok m
      ↔ m = total + n ∧ n ≤ maxSourceBytes ∧ m ≤ totalLimit := by
    intro n m
    rw [addBoundedBlobLength]
    split_ifs with hlong hover
    · simp only [false_iff]
      omega
    · simp only [false_iff]
      omega
    · rw [Except.ok.injEq]
      omega
  constructor
  · intro h
    rw [readCatBlob] at h
    cases hheader : readCatHeader path entry stream with
    | error error =>
      rw [hheader] at h
      cases h
    | ok header =>
      obtain ⟨length, body⟩ := header
      rw [hheader] at h
      cases htotal : addBoundedBlobLength total length path totalLimit with
      | error error =>
        change (addBoundedBlobLength total length path totalLimit >>= _) = _ at h
        rw [htotal] at h
        cases h
      | ok sum =>
        change (addBoundedBlobLength total length path totalLimit >>= _) = _ at h
        rw [htotal] at h
        change (readCatBody length body >>= _) = _ at h
        cases hbody : readCatBody length body with
        | error error =>
          rw [hbody] at h
          cases h
        | ok read =>
          obtain ⟨bytes, after⟩ := read
          rw [hbody] at h
          cases h
          obtain ⟨hstream, hlength⟩ := readCatBody_eq_ok_iff.mp hbody
          obtain ⟨rfl, hsource, hlimit⟩ := (hbound length total').mp htotal
          obtain ⟨line, size, hline, hwords, hsize⟩ := readCatHeader_eq_ok_iff.mp hheader
          refine ⟨rfl, by rw [hlength], hlength ▸ hsource, hlimit, ?_⟩
          -- a header at the very end of the stream would leave no newline for the body
          obtain ⟨header, hfree, rfl, rfl⟩ | hend := readLine_cases hline
          · refine ⟨_, .intro header size hfree ?_ (hsize.trans (hlength ▸ rfl)), ?_⟩
            · rw [splitAsciiWhitespace_append header [] rfl] at hwords
              rwa [show splitAsciiWhitespace [] = [] from rfl, List.append_nil] at hwords
            · rw [hstream]
              simp
          · rw [hend] at hstream
            simp at hstream
  · rintro ⟨rfl, rfl, hsource, hlimit, frame, hframe, rfl⟩
    obtain ⟨header, size, hfree, hwords, hsize⟩ := hframe
    have hline : readLine (header ++ 10 :: (blob.bytes ++ [10]) ++ rest)
        = .ok (header ++ [10], blob.bytes ++ 10 :: rest) := by
      have htext : utf8Valid header = true := by
        refine utf8Valid_of_words fun word hword => ?_
        rw [hwords] at hword
        simp only [List.mem_cons, List.not_mem_nil, or_false] at hword
        obtain rfl | rfl | rfl := hword
        · exact entry.oidText
        · rfl
        · exact utf8Valid_of_parseUsize hsize
      have hread := @readLine_line (blob.bytes ++ 10 :: rest) header hfree htext
      simpa using hread
    have hheader : readCatHeader blob.path entry (header ++ 10 :: (blob.bytes ++ [10]) ++ rest)
        = .ok (blob.bytes.length, blob.bytes ++ 10 :: rest) := by
      refine readCatHeader_eq_ok_iff.mpr ⟨_, size, hline, ?_, hsize⟩
      rw [splitAsciiWhitespace_append header [] rfl, hwords]
      rfl
    have htotal : addBoundedBlobLength total blob.bytes.length blob.path totalLimit
        = .ok (total + blob.bytes.length) := (hbound _ _).mpr ⟨rfl, hsource, hlimit⟩
    have hbody : readCatBody blob.bytes.length (blob.bytes ++ 10 :: rest) = .ok (blob.bytes, rest) :=
      readCatBody_eq_ok_iff.mpr ⟨rfl, rfl⟩
    rw [readCatBlob, hheader]
    change (addBoundedBlobLength total blob.bytes.length blob.path totalLimit >>= _) = _
    rw [htotal]
    change (readCatBody blob.bytes.length (blob.bytes ++ 10 :: rest) >>= _) = _
    rw [hbody]
    rfl

end Frame

/-! ## All frames -/

theorem readCatBlobsFrom_eq_ok_iff {total totalLimit : Nat} {entries : List (RepoPath × TreeEntry)}
    {stream rest : Str} {blobs : List GitBlob} (htotal : total ≤ totalLimit) :
    readCatBlobsFrom total totalLimit entries stream = .ok (blobs, rest)
      ↔ ∃ consumed, stream = consumed ++ rest ∧ CatFrames entries blobs consumed
        ∧ (∀ blob ∈ blobs, blob.bytes.length ≤ maxSourceBytes)
        ∧ total + (blobs.map fun blob => blob.bytes.length).sum ≤ totalLimit := by
  induction entries generalizing total stream blobs with
  | nil =>
    rw [readCatBlobsFrom]
    constructor
    · intro h
      cases h
      exact ⟨[], rfl, .nil, nofun, htotal⟩
    · rintro ⟨consumed, rfl, hframes, -, -⟩
      cases hframes
      rfl
  | cons first entries ih =>
    obtain ⟨path, entry⟩ := first
    rw [readCatBlobsFrom]
    constructor
    · intro h
      cases hblob : readCatBlob total totalLimit path entry stream with
      | error error =>
        rw [hblob] at h
        cases h
      | ok result =>
        obtain ⟨blob, total', after⟩ := result
        rw [hblob] at h
        change (readCatBlobsFrom total' totalLimit entries after >>= _) = _ at h
        cases hrest : readCatBlobsFrom total' totalLimit entries after with
        | error error =>
          rw [hrest] at h
          cases h
        | ok remaining =>
          obtain ⟨later, final⟩ := remaining
          rw [hrest] at h
          cases h
          obtain ⟨rfl, rfl, hsource, hlimit, frame, hframe, rfl⟩ :=
            readCatBlob_eq_ok_iff.mp hblob
          obtain ⟨consumed, rfl, hframes, hbounded, hsum⟩ := (ih hlimit).mp hrest
          refine ⟨frame ++ consumed, (List.append_assoc _ _ _).symm, .cons hframe hframes,
            List.forall_mem_cons.mpr ⟨hsource, hbounded⟩, ?_⟩
          rw [List.map_cons, List.sum_cons]
          omega
    · rintro ⟨consumed, rfl, hframes, hbounded, hsum⟩
      cases hframes with
      | @cons _ _ _ bytes frame remaining later hframe hframes =>
        rw [List.map_cons, List.sum_cons] at hsum
        obtain ⟨hsource, hbounded⟩ := List.forall_mem_cons.mp hbounded
        -- The first frame is read alone; the rest starts behind it.
        have hblob : readCatBlob total totalLimit path entry (frame ++ remaining ++ rest)
            = .ok (⟨path, bytes⟩, total + bytes.length, remaining ++ rest) :=
          readCatBlob_eq_ok_iff.mpr ⟨rfl, rfl, hsource, by dsimp only at hsum; omega,
            frame, hframe, List.append_assoc _ _ _⟩
        have hlater : readCatBlobsFrom (total + bytes.length) totalLimit entries
            (remaining ++ rest) = .ok (later, rest) :=
          (ih (by dsimp only at hsum; omega)).mpr
            ⟨remaining, rfl, hframes, hbounded, by dsimp only at hsum; omega⟩
        rw [hblob]
        change (readCatBlobsFrom (total + bytes.length) totalLimit entries
          (remaining ++ rest) >>= _) = _
        rw [hlater]
        rfl

/-- What is read of a stream are the frames of the entries, in their order and within the bounds;
    and every stream that starts with such frames is read. -/
theorem readCatBlobs_eq_ok_iff (stream : Str) (entries : List (RepoPath × TreeEntry))
    (totalLimit : Nat) (blobs : List GitBlob) (rest : Str) :
    readCatBlobs stream entries totalLimit = .ok (blobs, rest)
      ↔ ∃ consumed, stream = consumed ++ rest ∧ CatFrames entries blobs consumed
        ∧ (∀ blob ∈ blobs, blob.bytes.length ≤ maxSourceBytes)
        ∧ (blobs.map fun blob => blob.bytes.length).sum ≤ totalLimit := by
  rw [readCatBlobs, readCatBlobsFrom_eq_ok_iff (Nat.zero_le _)]
  simp only [Nat.zero_add]

end Opcore
