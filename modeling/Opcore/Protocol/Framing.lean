/-
  Opcore.Protocol.Framing

  Newline-delimited JSON frames between the host and a provider process.  Each
  side has its own writer and its own incremental reader.  A reader sees the
  byte stream through `fill_buf` and `consume`, in whatever nonempty chunks the
  transport delivers.
-/
import Opcore.Library.Json

namespace Opcore

open Text
open Json (Value)

def maxFrameBytes : Nat := 8 * 1024 * 1024

def maxAssessmentBytes : Nat := 8 * 1024 * 1024

def newline : UInt8 := 10

/-! ## The buffered stream -/

/-- What a buffered reader has still to deliver.  `fill_buf` returns the next
    chunk, so no chunk is empty; after the last one comes the end of the stream
    or a transport error. -/
structure Stream where
  chunks : List Str
  failure : Option Str
  nonempty : ∀ chunk ∈ chunks, chunk ≠ []

namespace Stream

/-- All bytes still to come. -/
def bytes (stream : Stream) : Str := stream.chunks.flatten

def fillBuf (stream : Stream) : Except Str Str :=
  match stream.chunks, stream.failure with
  | chunk :: _, _ => .ok chunk
  | [], none => .ok []
  | [], some error => .error error

/-- Drop the first `count` bytes of the current chunk. -/
def consume (count : Nat) (stream : Stream) : Stream where
  chunks :=
    match stream.chunks with
    | [] => []
    | chunk :: chunks => if chunk.length ≤ count then chunks else chunk.drop count :: chunks
  failure := stream.failure
  nonempty := by
    obtain ⟨chunks, failure, h⟩ := stream
    cases chunks with
    | nil => simp
    | cons chunk chunks =>
      intro rest hrest
      dsimp only at hrest
      split at hrest
      · exact h rest (by simp [hrest])
      · next hlong =>
        rcases List.mem_cons.mp hrest with rfl | hrest
        · simp only [ne_eq, List.drop_eq_nil_iff]
          exact hlong
        · exact h rest (by simp [hrest])

/-- A stream that arrives in one piece. -/
def whole (bytes : Str) (h : bytes ≠ []) : Stream where
  chunks := [bytes]
  failure := none
  nonempty := by simpa using h

@[simp] theorem whole_bytes (bytes : Str) (h : bytes ≠ []) : (whole bytes h).bytes = bytes := by
  simp [whole, Stream.bytes]

theorem fillBuf_length_le {stream : Stream} {available : Str}
    (h : stream.fillBuf = .ok available) : available.length ≤ stream.bytes.length := by
  unfold fillBuf at h
  split at h
  · next hchunks =>
    cases h
    simp [Stream.bytes, hchunks]
  · cases h; simp
  · cases h

/-- What is consumed is gone, and nothing else. -/
theorem bytes_consume {stream : Stream} {available : Str} (h : stream.fillBuf = .ok available)
    {count : Nat} (hcount : count ≤ available.length) :
    (stream.consume count).bytes = stream.bytes.drop count := by
  obtain ⟨chunks, failure, hne⟩ := stream
  cases chunks with
  | nil => simp [Stream.bytes, consume]
  | cons chunk chunks =>
    have : chunk = available := by simpa [fillBuf] using h
    subst this
    simp only [Stream.bytes, consume, List.flatten_cons]
    split
    · next hle =>
      have : count = chunk.length := by omega
      subst this
      simp
    · next hlt =>
      rw [List.flatten_cons, List.drop_append_of_le_length hcount]

/-- An available chunk is a beginning of the stream, empty only at its end. -/
theorem fillBuf_spec {stream : Stream} (h : stream.bytes ≠ []) :
    ∃ available after, stream.fillBuf = .ok available ∧ available ≠ []
      ∧ stream.bytes = available ++ after := by
  obtain ⟨chunks, failure, hne⟩ := stream
  cases chunks with
  | nil => simp [Stream.bytes] at h
  | cons chunk chunks =>
    exact ⟨chunk, chunks.flatten, rfl, hne chunk (by simp), by simp [Stream.bytes]⟩

end Stream

/-- The length of the first line of a buffer with its newline, or the length of
    a buffer that has none. -/
def linePrefixLen (bytes : Str) : Nat :=
  match bytes.findIdx? (· = newline) with
  | some index => index + 1
  | none => bytes.length

theorem linePrefixLen_le (bytes : Str) : linePrefixLen bytes ≤ bytes.length := by
  unfold linePrefixLen
  split
  · next index h =>
    have := List.findIdx?_eq_some_iff_getElem.mp h
    obtain ⟨hlt, _⟩ := this
    omega
  · exact Nat.le_refl _

theorem linePrefixLen_pos {bytes : Str} (h : bytes ≠ []) : 0 < linePrefixLen bytes := by
  unfold linePrefixLen
  split
  · omega
  · exact List.length_pos_iff.mpr h

/-- `ends_with(b"\n")`. -/
def endsLine (bytes : Str) : Bool := bytes.getLast? = some newline

/-- Reading on after a nonempty chunk leaves fewer bytes. -/
theorem consume_line_lt {stream : Stream} {available : Str} (h : stream.fillBuf = .ok available)
    (hne : available ≠ []) :
    (stream.consume (linePrefixLen available)).bytes.length < stream.bytes.length := by
  have hle := Stream.fillBuf_length_le h
  have hpos := linePrefixLen_pos hne
  have hbound := linePrefixLen_le available
  rw [Stream.bytes_consume h hbound, List.length_drop]
  omega

theorem linePrefixLen_of_notMem {bytes : Str} (h : newline ∉ bytes) :
    linePrefixLen bytes = bytes.length := by
  have : bytes.findIdx? (· = newline) = none := by
    rw [List.findIdx?_eq_none_iff]
    intro b hb
    simp only [decide_eq_false_iff_not]
    rintro rfl
    exact h hb
  rw [linePrefixLen, this]

theorem linePrefixLen_line {body rest : Str} (h : newline ∉ body) :
    linePrefixLen (body ++ newline :: rest) = body.length + 1 := by
  have : (body ++ newline :: rest).findIdx? (· = newline) = some body.length := by
    rw [List.findIdx?_eq_some_iff_getElem]
    refine ⟨by simp, by simp, ?_⟩
    intro j hj
    simp only [decide_eq_true_eq]
    rw [List.getElem_append_left hj]
    intro hnewline
    exact h (hnewline ▸ List.getElem_mem hj)
  rw [linePrefixLen, this]

theorem endsLine_of_notMem {bytes : Str} (h : newline ∉ bytes) : endsLine bytes = false := by
  rw [endsLine, decide_eq_false_iff_not]
  intro hlast
  exact h (List.mem_of_getLast? hlast)

@[simp] theorem endsLine_line (body : Str) : endsLine (body ++ [newline]) = true := by
  simp [endsLine]

/-- The next chunk of a stream that starts with a line: it ends inside the line,
    or its first line is the rest of the line. -/
theorem fillBuf_line {stream : Stream} {body rest : Str} (hbody : newline ∉ body)
    (hbytes : stream.bytes = body ++ newline :: rest) :
    ∃ available, stream.fillBuf = .ok available ∧ available ≠ [] ∧
      ((∃ after, body = available ++ after ∧ linePrefixLen available = available.length
          ∧ endsLine available = false
          ∧ (stream.consume available.length).bytes = after ++ newline :: rest)
        ∨ (linePrefixLen available = body.length + 1
          ∧ available.take (body.length + 1) = body ++ [newline]
          ∧ (stream.consume (body.length + 1)).bytes = rest)) := by
  obtain ⟨available, after, hfill, hne, happend⟩ :=
    @Stream.fillBuf_spec stream (by simp [hbytes])
  refine ⟨available, hfill, hne, ?_⟩
  rw [hbytes] at happend
  have hsplit : (∃ left, body = available ++ left)
      ∨ ∃ right, available = body ++ newline :: right := by
    rcases List.append_eq_append_iff.mp happend with ⟨right, hright, hrest⟩ | ⟨left, hleft, -⟩
    · cases right with
      | nil => exact .inl ⟨[], by simpa using hright.symm⟩
      | cons b right =>
        simp only [List.cons_append, List.cons.injEq] at hrest
        exact .inr ⟨right, by rw [hright, hrest.1]⟩
    · exact .inl ⟨left, hleft⟩
  rcases hsplit with ⟨left, rfl⟩ | ⟨right, rfl⟩
  · left
    have hfree : newline ∉ available := fun h => hbody (by simp [h])
    refine ⟨left, rfl, linePrefixLen_of_notMem hfree, endsLine_of_notMem hfree, ?_⟩
    rw [Stream.bytes_consume hfill (Nat.le_refl _), hbytes]
    simp
  · right
    refine ⟨linePrefixLen_line hbody, by simp [List.take_append], ?_⟩
    rw [Stream.bytes_consume hfill (by simp), hbytes]
    simp

/-- The bytes of a frame without its line ending. -/
def stripLineEnding (frame : Str) : Str :=
  let frame := frame.dropLast
  if frame.getLast? = some 13 then frame.dropLast else frame

/-! ## The provider's reader and writer -/

namespace Server

def frameExceeds : Str := ascii "frame exceeds 8388608 bytes"

def endOfInput (frame : Str) : Except Str (Option Str) :=
  if frame = [] then .ok none
  else .error (ascii "input ended before the JSON-RPC frame newline")

/-- Skip the rest of a line. -/
def discardToNewline (stream : Stream) : Except Str Unit × Stream :=
  match _h : stream.fillBuf with
  | .error error => (.error error, stream)
  | .ok available =>
    if _hne : available = [] then (.ok (), stream)
    else
      let count := linePrefixLen available
      if endsLine (available.take count) then (.ok (), stream.consume count)
      else discardToNewline (stream.consume count)
termination_by stream.bytes.length
decreasing_by exact consume_line_lt _h _hne

def finishFrame (frame : Str) : Except Str (Option Str) :=
  let frame := stripLineEnding frame
  if frame = [] then .error (ascii "empty JSON-RPC frame") else .ok (some frame)

/-- The loop of `read_frame`, with the bytes collected so far.  `none` is the
    end of the input; `some` is a frame, as the caller finds it in its buffer. -/
def readFrameFrom (frame : Str) (stream : Stream) : Except Str (Option Str) × Stream :=
  match _h : stream.fillBuf with
  | .error error => (.error error, stream)
  | .ok available =>
    if _hne : available = [] then (endOfInput frame, stream)
    else
      let take := linePrefixLen available
      let complete := endsLine (available.take take)
      let rest := stream.consume take
      if maxFrameBytes < frame.length + take then
        if complete then (.error frameExceeds, rest)
        else
          match discardToNewline rest with
          | (.error error, rest) => (.error error, rest)
          | (.ok (), rest) => (.error frameExceeds, rest)
      else
        let frame := frame ++ available.take take
        if complete then (finishFrame frame, rest) else readFrameFrom frame rest
termination_by stream.bytes.length
decreasing_by exact consume_line_lt _h _hne

def readFrame (stream : Stream) : Except Str (Option Str) × Stream := readFrameFrom [] stream

/-- The answer sent in place of a message that is too long. -/
def oversizedMessage (id : Value) : Value :=
  .object [
    (ascii "error", .object [
      (ascii "code", .number (.int (-32010))),
      (ascii "data", .object [
        (ascii "detail", .string (ascii "response exceeded the hard output bound")),
        (ascii "failClass", .string (ascii "health")),
        (ascii "retryable", .bool false)]),
      (ascii "message", .string (ascii "provider-error"))]),
    (ascii "id", id),
    (ascii "jsonrpc", .string (ascii "2.0"))]

def boundedMessageBytes (message : Value) : Str :=
  let bytes := message.serialize
  if bytes.length ≤ maxAssessmentBytes then bytes
  else (oversizedMessage ((message.get? (ascii "id")).getD .null)).serialize

/-- What `write_messages` puts on the stream for one message. -/
def written (message : Value) : Str := boundedMessageBytes message ++ [newline]

end Server

/-! ## The host's reader and writer -/

namespace Host

/-- The loop of the host's `read_frame`; it stops at the first error, so an
    oversized frame is left unread. -/
def readFrameFrom (frame : Str) (stream : Stream) : Except Str (Option Str) × Stream :=
  match _h : stream.fillBuf with
  | .error error => (.error error, stream)
  | .ok available =>
    if _hne : available = [] then
      (if frame = [] then .ok none else .error (ascii "stdout ended before the frame newline"), stream)
    else
      let take := linePrefixLen available
      if maxFrameBytes < frame.length + take then
        (.error (ascii "frame exceeds 8388608 bytes"), stream)
      else
        let complete := endsLine (available.take take)
        let frame := frame ++ available.take take
        let rest := stream.consume take
        if complete then
          let frame := stripLineEnding frame
          (if frame = [] then .error (ascii "empty JSON-RPC frame") else .ok (some frame), rest)
        else readFrameFrom frame rest
termination_by stream.bytes.length
decreasing_by exact consume_line_lt _h _hne

def readFrame (stream : Stream) : Except Str (Option Str) × Stream := readFrameFrom [] stream

/-- What the stdin writer puts on the stream for a message `send` accepts. -/
def send (message : Value) : Except Str Str :=
  let bytes := message.serialize
  if maxFrameBytes < bytes.length then .error (ascii "ASP host frame exceeds 8388608 bytes")
  else .ok (bytes ++ [newline])

end Host

/-! ## What the readers return

The number a reader compares with the bound counts the newline, and a writer's
does not: a line is accepted when it is shorter than the bound. -/

section

variable {stream : Stream} {available : Str}

theorem Server.discardToNewline_eq (hfill : stream.fillBuf = .ok available) (hne : available ≠ []) :
    discardToNewline stream
      = if endsLine (available.take (linePrefixLen available)) then
          (.ok (), stream.consume (linePrefixLen available))
        else discardToNewline (stream.consume (linePrefixLen available)) := by
  rw [discardToNewline]
  split
  · next herror => rw [hfill] at herror; cases herror
  · next hfill' =>
    rw [hfill] at hfill'
    cases hfill'
    rw [dif_neg hne]

theorem Server.readFrameFrom_eq (frame : Str) (hfill : stream.fillBuf = .ok available)
    (hne : available ≠ []) :
    readFrameFrom frame stream
      = if maxFrameBytes < frame.length + linePrefixLen available then
          if endsLine (available.take (linePrefixLen available)) then
            (.error frameExceeds, stream.consume (linePrefixLen available))
          else
            match discardToNewline (stream.consume (linePrefixLen available)) with
            | (.error error, rest) => (.error error, rest)
            | (.ok (), rest) => (.error frameExceeds, rest)
        else if endsLine (available.take (linePrefixLen available)) then
          (finishFrame (frame ++ available.take (linePrefixLen available)),
            stream.consume (linePrefixLen available))
        else
          readFrameFrom (frame ++ available.take (linePrefixLen available))
            (stream.consume (linePrefixLen available)) := by
  rw [readFrameFrom]
  split
  · next herror => rw [hfill] at herror; cases herror
  · next hfill' =>
    rw [hfill] at hfill'
    cases hfill'
    rw [dif_neg hne]

theorem Host.readFrameFrom_eq (frame : Str) (hfill : stream.fillBuf = .ok available)
    (hne : available ≠ []) :
    readFrameFrom frame stream
      = if maxFrameBytes < frame.length + linePrefixLen available then
          (.error Server.frameExceeds, stream)
        else if endsLine (available.take (linePrefixLen available)) then
          (Server.finishFrame (frame ++ available.take (linePrefixLen available)),
            stream.consume (linePrefixLen available))
        else
          readFrameFrom (frame ++ available.take (linePrefixLen available))
            (stream.consume (linePrefixLen available)) := by
  rw [readFrameFrom]
  split
  · next herror => rw [hfill] at herror; cases herror
  · next hfill' =>
    rw [hfill] at hfill'
    cases hfill'
    rw [dif_neg hne]
    rfl

end

section

variable {stream : Stream} {frame body rest : Str} (hbody : newline ∉ body)
  (hbytes : stream.bytes = body ++ newline :: rest)

include hbody hbytes

theorem Server.discardToNewline_line :
    (discardToNewline stream).1 = .ok () ∧ (discardToNewline stream).2.bytes = rest := by
  induction hn : stream.bytes.length using Nat.strong_induction_on generalizing stream body with
  | _ n ih =>
    obtain ⟨available, hfill, hne, hcase⟩ := fillBuf_line hbody hbytes
    have hless := consume_line_lt hfill hne
    rw [discardToNewline_eq hfill hne]
    rcases hcase with ⟨after, rfl, hlen, hopen, hafter⟩ | ⟨hlen, htake, hafter⟩
    · rw [hlen] at hless
      simp only [hlen, List.take_length, hopen, Bool.false_eq_true, if_false]
      have hfree : newline ∉ after := fun h => hbody (by simp [h])
      exact ih _ (hn ▸ hless) hfree hafter rfl
    · simp only [hlen, htake, endsLine_line, if_true]
      exact ⟨trivial, hafter⟩

/-- The provider's reader on a stream that starts with a line. -/
theorem Server.readFrameFrom_line :
    (readFrameFrom frame stream).1
        = (if frame.length + body.length < maxFrameBytes then
            finishFrame (frame ++ body ++ [newline])
          else .error frameExceeds)
      ∧ (readFrameFrom frame stream).2.bytes = rest := by
  induction hn : stream.bytes.length using Nat.strong_induction_on
    generalizing stream frame body with
  | _ n ih =>
    obtain ⟨available, hfill, hne, hcase⟩ := fillBuf_line hbody hbytes
    have hless := consume_line_lt hfill hne
    rw [readFrameFrom_eq frame hfill hne]
    rcases hcase with ⟨after, rfl, hlen, hopen, hafter⟩ | ⟨hlen, htake, hafter⟩
    · rw [hlen] at hless
      have hfree : newline ∉ after := fun h => hbody (by simp [h])
      simp only [hlen, List.take_length, hopen, Bool.false_eq_true, if_false, List.length_append]
      by_cases hover : maxFrameBytes < frame.length + available.length
      · -- The frame is already too long: the rest of the line is discarded.
        obtain ⟨hdiscard, hrest⟩ := discardToNewline_line hfree hafter
        rw [if_pos hover, if_neg (by omega)]
        generalize discardToNewline (stream.consume available.length) = discarded at hdiscard hrest
        obtain ⟨result, remaining⟩ := discarded
        cases hdiscard
        exact ⟨rfl, hrest⟩
      · rw [if_neg hover]
        have := @ih _ (hn ▸ hless) _ (frame ++ available) _ hfree hafter rfl
        simpa only [List.length_append, List.append_assoc, Nat.add_assoc] using this
    · simp only [hlen, htake, endsLine_line, if_true]
      by_cases hover : maxFrameBytes < frame.length + (body.length + 1)
      · rw [if_pos hover, if_neg (by omega)]
        exact ⟨rfl, hafter⟩
      · rw [if_neg hover, if_pos (by omega)]
        exact ⟨by rw [List.append_assoc], hafter⟩

/-- The host's reader on a stream that starts with a line. -/
theorem Host.readFrameFrom_line :
    (readFrameFrom frame stream).1
        = (if frame.length + body.length < maxFrameBytes then
            Server.finishFrame (frame ++ body ++ [newline])
          else .error Server.frameExceeds)
      ∧ (frame.length + body.length < maxFrameBytes →
          (readFrameFrom frame stream).2.bytes = rest) := by
  induction hn : stream.bytes.length using Nat.strong_induction_on
    generalizing stream frame body with
  | _ n ih =>
    obtain ⟨available, hfill, hne, hcase⟩ := fillBuf_line hbody hbytes
    have hless := consume_line_lt hfill hne
    rw [readFrameFrom_eq frame hfill hne]
    rcases hcase with ⟨after, rfl, hlen, hopen, hafter⟩ | ⟨hlen, htake, hafter⟩
    · rw [hlen] at hless
      have hfree : newline ∉ after := fun h => hbody (by simp [h])
      simp only [hlen, List.take_length, hopen, Bool.false_eq_true, if_false, List.length_append]
      by_cases hover : maxFrameBytes < frame.length + available.length
      · rw [if_pos hover, if_neg (by omega)]
        exact ⟨rfl, fun h => by omega⟩
      · rw [if_neg hover]
        have := @ih _ (hn ▸ hless) _ (frame ++ available) _ hfree hafter rfl
        simpa only [List.length_append, List.append_assoc, Nat.add_assoc] using this
    · simp only [hlen, htake, endsLine_line, if_true]
      by_cases hover : maxFrameBytes < frame.length + (body.length + 1)
      · rw [if_pos hover, if_neg (by omega)]
        exact ⟨rfl, fun h => by omega⟩
      · rw [if_neg hover, if_pos (by omega)]
        exact ⟨by rw [List.append_assoc], fun _ => hafter⟩

end

/-! ## Writer against reader -/

theorem newline_notMem_serialize (message : Value) : newline ∉ message.serialize := by
  intro h
  exact absurd (Json.printed_serialize message newline h) (by decide)

/-- A serialized message comes out of its frame as it went in. -/
theorem finishFrame_serialize (message : Value) :
    Server.finishFrame (message.serialize ++ [newline]) = .ok (some message.serialize) := by
  have hreturn : message.serialize.getLast? ≠ some 13 := by
    intro h
    exact absurd (Json.printed_serialize message 13 (List.mem_of_getLast? h)) (by decide)
  simp [Server.finishFrame, stripLineEnding, hreturn, Json.serialize_ne_nil]

/-- Does the provider accept the message for sending as it is? -/
def Server.accepts (message : Value) : Prop :=
  message.serialize.length ≤ maxAssessmentBytes

theorem Server.written_of_accepts {message : Value} (h : Server.accepts message) :
    Server.written message = message.serialize ++ [newline] := by
  simp only [Server.accepts] at h
  simp only [Server.written, Server.boundedMessageBytes, if_pos h]

/-- A reader takes the message, and only the message, off the stream. -/
def Delivered (read : Stream → Except Str (Option Str) × Stream) (stream : Stream)
    (message : Value) (rest : Str) : Prop :=
  (read stream).1 = .ok (some message.serialize) ∧ (read stream).2.bytes = rest

section

variable {stream : Stream} {message : Value} {rest : Str}

/-- A reader that bounds a line delivers the messages that are shorter than the bound. -/
theorem delivered_iff_of_line {read : Stream → Except Str (Option Str) × Stream}
    (hread : (read stream).1
      = if message.serialize.length < maxFrameBytes then
          Server.finishFrame (message.serialize ++ [newline])
        else .error Server.frameExceeds)
    (hrest : message.serialize.length < maxFrameBytes → (read stream).2.bytes = rest) :
    Delivered read stream message rest ↔ message.serialize.length < maxFrameBytes := by
  rw [finishFrame_serialize] at hread
  constructor
  · rintro ⟨h, -⟩
    by_contra hlong
    rw [hread, if_neg hlong] at h
    cases h
  · intro h
    exact ⟨hread.trans (if_pos h), hrest h⟩

variable (hbytes : stream.bytes = message.serialize ++ newline :: rest)

include hbytes

theorem Server.delivered_iff :
    Delivered Server.readFrame stream message rest ↔ message.serialize.length < maxFrameBytes := by
  obtain ⟨hread, hrest⟩ :=
    @Server.readFrameFrom_line _ [] _ _ (newline_notMem_serialize message) hbytes
  rw [List.length_nil, Nat.zero_add, List.nil_append] at hread
  exact delivered_iff_of_line hread fun _ => hrest

theorem Host.delivered_iff :
    Delivered Host.readFrame stream message rest ↔ message.serialize.length < maxFrameBytes := by
  obtain ⟨hread, hrest⟩ :=
    @Host.readFrameFrom_line _ [] _ _ (newline_notMem_serialize message) hbytes
  rw [List.length_nil, Nat.zero_add] at hread hrest
  exact delivered_iff_of_line hread hrest

end

/-- Sender and receiver agree on a message: in both directions, what the sender
    writes for a message it accepts reaches the peer intact, whatever chunks the
    transport splits the stream into and whatever follows the message. -/
structure BoundsAgree (message : Value) : Prop where
  toProvider : ∀ written, Host.send message = .ok written →
    ∀ (stream : Stream) (rest : Str), stream.bytes = written ++ rest →
      Delivered Server.readFrame stream message rest
  toHost : Server.accepts message →
    ∀ (stream : Stream) (rest : Str), stream.bytes = Server.written message ++ rest →
      Delivered Host.readFrame stream message rest

theorem Host.send_eq_ok_iff {message : Value} {written : Str} :
    Host.send message = .ok written
      ↔ message.serialize.length ≤ maxFrameBytes ∧ written = message.serialize ++ [newline] := by
  rw [Host.send]
  split
  · next hlong =>
    constructor
    · intro h; cases h
    · rintro ⟨h, -⟩; omega
  · next hfits =>
    constructor
    · intro h
      cases h
      exact ⟨Nat.not_lt.mp hfits, rfl⟩
    · rintro ⟨-, rfl⟩
      rfl

/-- Sender and receiver agree on every message except those whose serialization
    has exactly the bounding length: both senders accept such a message, and the
    peer's reader, which counts the newline, does not. -/
theorem boundsAgree_iff (message : Value) :
    BoundsAgree message ↔ message.serialize.length ≠ maxFrameBytes := by
  constructor
  · intro h hlength
    have hsend : Host.send message = .ok (message.serialize ++ [newline]) :=
      Host.send_eq_ok_iff.mpr ⟨by omega, rfl⟩
    let stream := Stream.whole (message.serialize ++ [newline]) (by simp)
    have hbytes : stream.bytes = message.serialize ++ newline :: [] := Stream.whole_bytes _ _
    have := (Server.delivered_iff hbytes).mp (h.toProvider _ hsend stream [] (by simp [hbytes]))
    omega
  · intro hlength
    constructor
    · intro written hsend stream rest hbytes
      obtain ⟨hfits, rfl⟩ := Host.send_eq_ok_iff.mp hsend
      rw [Server.delivered_iff (by simpa using hbytes)]
      omega
    · intro haccepts stream rest hbytes
      rw [Server.written_of_accepts haccepts] at hbytes
      rw [Host.delivered_iff (by simpa using hbytes)]
      have : message.serialize.length ≤ maxFrameBytes := haccepts
      omega

/-- The answer to request `opcore:1` with a result of `n` letters. -/
def lettersAnswer (n : Nat) : Value :=
  .object [
    (ascii "id", .string (ascii "opcore:1")),
    (ascii "jsonrpc", .string (ascii "2.0")),
    (ascii "result", .string (List.replicate n (byte 'a')))]

theorem length_lettersAnswer (n : Nat) : (lettersAnswer n).serialize.length = n + 45 := by
  have hletters : (List.replicate n (byte 'a')).flatMap Json.escapeByte
      = List.replicate n (byte 'a') := by
    induction n with
    | zero => rfl
    | succ n ih => rw [List.replicate_succ, List.flatMap_cons, ih]; rfl
  have hid : (Json.serializeString (ascii "id")).length = 4 := rfl
  have hvalue : (Json.serializeString (ascii "opcore:1")).length = 10 := rfl
  have hjsonrpc : (Json.serializeString (ascii "jsonrpc")).length = 9 := rfl
  have hversion : (Json.serializeString (ascii "2.0")).length = 5 := rfl
  have hresult : (Json.serializeString (ascii "result")).length = 8 := rfl
  have htext : (Json.serializeString (List.replicate n (byte 'a'))).length = n + 2 := by
    simp [Json.serializeString, hletters]
  simp only [lettersAnswer, Value.serialize, Json.serializeMembers, List.length_append,
    List.length_cons, List.length_nil, hid, hvalue, hjsonrpc, hversion, hresult, htext]
  omega

/-- An answer whose serialization is exactly 8388608 bytes long. -/
def boundingAnswer : Value := lettersAnswer (maxFrameBytes - 45)

theorem length_boundingAnswer : boundingAnswer.serialize.length = maxFrameBytes := by
  have : 45 ≤ maxFrameBytes := by decide
  rw [boundingAnswer, length_lettersAnswer]
  omega

/-- Both senders accept the bounding answer, and both readers refuse it. -/
theorem boundingAnswer_refused :
    Server.accepts boundingAnswer
      ∧ (∃ written, Host.send boundingAnswer = .ok written
        ∧ ∀ stream : Stream, stream.bytes = written →
            (Server.readFrame stream).1 = .error (ascii "frame exceeds 8388608 bytes"))
      ∧ (∀ stream : Stream, stream.bytes = Server.written boundingAnswer →
            (Host.readFrame stream).1 = .error (ascii "frame exceeds 8388608 bytes"))
      ∧ ¬ BoundsAgree boundingAnswer := by
  have hlength := length_boundingAnswer
  generalize boundingAnswer = message at hlength
  have hline := newline_notMem_serialize message
  have hlong : ¬ ([] : Str).length + message.serialize.length < maxFrameBytes := by
    rw [List.length_nil]
    omega
  have haccepts : Server.accepts message := Nat.le_of_eq hlength
  have hsend : Host.send message = .ok (message.serialize ++ [newline]) :=
    Host.send_eq_ok_iff.mpr ⟨by omega, rfl⟩
  have hserver : ∀ stream : Stream, stream.bytes = message.serialize ++ [newline] →
      (Server.readFrame stream).1 = .error (ascii "frame exceeds 8388608 bytes") := by
    intro stream hbytes
    have := (@Server.readFrameFrom_line _ [] _ _ hline hbytes).1
    rw [if_neg hlong] at this
    exact this
  refine ⟨haccepts, ⟨_, hsend, hserver⟩, ?_, ?_⟩
  · intro stream hbytes
    rw [Server.written_of_accepts haccepts] at hbytes
    have := (@Host.readFrameFrom_line _ [] _ _ hline hbytes).1
    rw [if_neg hlong] at this
    exact this
  · intro h
    let stream := Stream.whole (message.serialize ++ [newline]) (by simp)
    have hbytes : stream.bytes = message.serialize ++ [newline] := Stream.whole_bytes _ _
    have hdelivered := (h.toProvider _ hsend stream [] (by simp [hbytes])).1
    rw [hserver stream hbytes] at hdelivered
    cases hdelivered

end Opcore
