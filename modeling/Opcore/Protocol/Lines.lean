/-
  Opcore.Protocol.Lines

  What the provider's reader returns, call after call.  However the transport cuts the
  stream into chunks, the results are those of its lines, one by one; then comes what
  is said of bytes without a newline, and then the end of the stream for ever.
-/
import Opcore.Protocol.Framing

namespace Opcore.Server

open Text

/-! ## The results of repeated calls -/

/-- What the call of `read_frame` after `n` others returns. -/
def frameAt (stream : Stream) : Nat → Except Str (Option Str)
  | 0 => (readFrame stream).1
  | n + 1 => frameAt (readFrame stream).2 n

/-- The result for one line, given without its newline. -/
def lineFrame (line : Str) : Except Str (Option Str) :=
  if maxFrameBytes < line.length + 1 then .error frameExceeds
  else
    let body := if line.getLast? = some 13 then line.dropLast else line
    if body = [] then .error (ascii "empty JSON-RPC frame") else .ok (some body)

/-- The result for the bytes after the last newline. -/
def trailingFrame (trailing : Str) : Except Str (Option Str) :=
  if maxFrameBytes < trailing.length then .error frameExceeds
  else .error (ascii "input ended before the JSON-RPC frame newline")

/-- The pieces of a stream between its newlines, as results: every piece but the last is a
    line, and the last is what follows the last newline. -/
def expectedFrames : List Str → List (Except Str (Option Str))
  | [] => []
  | [trailing] => if trailing = [] then [] else [trailingFrame trailing]
  | line :: rest => lineFrame line :: expectedFrames rest

/-! ## A stream without failure -/

section

variable {stream : Stream} {frame : Str}

theorem failure_discardToNewline (stream : Stream) :
    (discardToNewline stream).2.failure = stream.failure := by
  fun_induction discardToNewline stream with
  | case1 => rfl
  | case2 => rfl
  | case3 => rfl
  | case4 _ _ _ _ _ _ ih => exact ih

/-- Reading does not change how a stream ends. -/
theorem failure_readFrameFrom (frame : Str) (stream : Stream) :
    (readFrameFrom frame stream).2.failure = stream.failure := by
  fun_induction readFrameFrom frame stream with
  | case1 => rfl
  | case2 => rfl
  | case3 => rfl
  | case4 frame stream available hfill hne take complete rest hover hopen error remaining hdiscard =>
    have hkept := failure_discardToNewline rest
    rw [hdiscard] at hkept
    exact hkept
  | case5 frame stream available hfill hne take complete rest hover hopen remaining hdiscard =>
    have hkept := failure_discardToNewline rest
    rw [hdiscard] at hkept
    exact hkept
  | case6 => rfl
  | case7 _ _ _ _ _ _ _ _ _ _ _ ih => exact ih

theorem fillBuf_of_ended (hend : stream.failure = none) (hbytes : stream.bytes = []) :
    stream.fillBuf = .ok [] := by
  obtain ⟨chunks, failure, hne⟩ := stream
  cases chunks with
  | nil =>
    cases hend
    rfl
  | cons chunk chunks =>
    -- a chunk is never empty
    have hchunk : chunk = [] := (List.append_eq_nil_iff.mp hbytes).1
    exact absurd hchunk (hne chunk (List.mem_cons_self ..))

theorem readFrameFrom_of_ended (hend : stream.failure = none) (hbytes : stream.bytes = []) :
    readFrameFrom frame stream = (endOfInput frame, stream) := by
  have hfill := fillBuf_of_ended hend hbytes
  rw [readFrameFrom]
  split
  · next herror =>
      rw [hfill] at herror
      cases herror
  · next hfill' =>
      rw [hfill] at hfill'
      cases hfill'
      rfl

/-- What is available of a stream without a newline is taken whole. -/
theorem fillBuf_of_notMem (hfree : newline ∉ stream.bytes) (hne : stream.bytes ≠ []) :
    ∃ available after, stream.fillBuf = .ok available ∧ available ≠ []
      ∧ stream.bytes = available ++ after ∧ linePrefixLen available = available.length
      ∧ endsLine available = false ∧ (stream.consume available.length).bytes = after := by
  obtain ⟨available, after, hfill, havailable, hbytes⟩ := Stream.fillBuf_spec hne
  have hnone : newline ∉ available := fun h => hfree (by simp [hbytes, h])
  refine ⟨available, after, hfill, havailable, hbytes, linePrefixLen_of_notMem hnone,
    endsLine_of_notMem hnone, ?_⟩
  rw [Stream.bytes_consume hfill (Nat.le_refl _), hbytes]
  exact List.drop_left

theorem discardToNewline_trailing (hend : stream.failure = none) (hfree : newline ∉ stream.bytes) :
    (discardToNewline stream).1 = .ok () ∧ (discardToNewline stream).2.bytes = [] := by
  induction hn : stream.bytes.length using Nat.strong_induction_on generalizing stream with
  | _ n ih =>
    by_cases hempty : stream.bytes = []
    · have hfill := fillBuf_of_ended hend hempty
      rw [discardToNewline]
      split
      · next herror =>
          rw [hfill] at herror
          cases herror
      · next hfill' =>
          rw [hfill] at hfill'
          cases hfill'
          exact ⟨rfl, hempty⟩
    · obtain ⟨available, after, hfill, hne, hbytes, hlen, hopen, hafter⟩ :=
        fillBuf_of_notMem hfree hempty
      have hless := consume_line_lt hfill hne
      rw [hlen, hn] at hless
      have hrest : newline ∉ (stream.consume available.length).bytes := by
        rw [hafter]
        exact fun h => hfree (by simp [hbytes, h])
      rw [discardToNewline_eq hfill hne, hlen, List.take_length, hopen, if_neg (by decide)]
      exact @ih _ hless (stream.consume available.length) hend hrest rfl

/-- The bytes after the last newline are read to the end, and said to be too long or not ended. -/
theorem readFrameFrom_trailing (hend : stream.failure = none) (hfree : newline ∉ stream.bytes)
    (hroom : frame.length ≤ maxFrameBytes) :
    (readFrameFrom frame stream).1
        = (if maxFrameBytes < frame.length + stream.bytes.length then .error frameExceeds
          else endOfInput (frame ++ stream.bytes))
      ∧ (readFrameFrom frame stream).2.bytes = [] := by
  induction hn : stream.bytes.length using Nat.strong_induction_on
    generalizing stream frame with
  | _ n ih =>
    by_cases hempty : stream.bytes = []
    · rw [readFrameFrom_of_ended hend hempty]
      refine ⟨?_, hempty⟩
      rw [← hn, hempty, List.append_nil, List.length_nil, Nat.add_zero,
        if_neg (Nat.not_lt.mpr hroom)]
    · obtain ⟨available, after, hfill, hne, hbytes, hlen, hopen, hafter⟩ :=
        fillBuf_of_notMem hfree hempty
      have hless := consume_line_lt hfill hne
      rw [hlen, hn] at hless
      have hrest : newline ∉ (stream.consume available.length).bytes := by
        rw [hafter]
        exact fun h => hfree (by simp [hbytes, h])
      have hsize : n = available.length + after.length := by
        rw [← hn, hbytes, List.length_append]
      rw [readFrameFrom_eq frame hfill hne, hlen, List.take_length, hopen]
      by_cases hover : maxFrameBytes < frame.length + available.length
      · -- too long already: the rest is discarded
        obtain ⟨hdiscard, hremaining⟩ :=
          @discardToNewline_trailing (stream.consume available.length) hend hrest
        rw [if_pos hover, if_neg (by decide), if_pos (by omega)]
        generalize discardToNewline (stream.consume available.length) = discarded at *
        obtain ⟨result, remaining⟩ := discarded
        cases hdiscard
        exact ⟨rfl, hremaining⟩
      · rw [if_neg hover, if_neg (by decide)]
        obtain ⟨hread, hremaining⟩ := @ih _ hless (stream.consume available.length)
          (frame ++ available) hend hrest
          (by rw [List.length_append]; omega) rfl
        refine ⟨hread.trans ?_, hremaining⟩
        rw [hafter, List.length_append, List.append_assoc, ← hbytes, hsize, Nat.add_assoc]

end

/-! ## Line after line -/

section

variable {stream : Stream}

theorem finishFrame_line (line : Str) :
    (if line.length < maxFrameBytes then finishFrame (line ++ [newline]) else .error frameExceeds)
      = lineFrame line := by
  rw [lineFrame, finishFrame, stripLineEnding, List.dropLast_concat]
  by_cases hfits : line.length < maxFrameBytes
  · have hle : ¬ maxFrameBytes < line.length + 1 := by omega
    rw [if_pos hfits, if_neg hle]
  · have hlong : maxFrameBytes < line.length + 1 := by omega
    rw [if_neg hfits, if_pos hlong]

/-- At the end of the stream there is nothing more, for ever. -/
theorem frameAt_of_ended (hend : stream.failure = none) (hbytes : stream.bytes = []) (n : Nat) :
    frameAt stream n = .ok none := by
  have hread : readFrame stream = (endOfInput [], stream) := readFrameFrom_of_ended hend hbytes
  induction n with
  | zero => rw [frameAt, hread]; rfl
  | succ n ih => rw [frameAt, hread]; exact ih

/-- However a stream is cut into chunks, the results of reading it are those of its lines, then
    that of what follows the last newline, then the end for ever. -/
theorem frameAt_eq (stream : Stream) (hend : stream.failure = none) (n : Nat) :
    frameAt stream n = (expectedFrames (stream.bytes.splitOn newline)).getD n (.ok none) := by
  induction hlen : stream.bytes.length using Nat.strong_induction_on generalizing stream n with
  | _ size ih =>
    have hend' : (readFrame stream).2.failure = none :=
      (failure_readFrameFrom [] stream).trans hend
    by_cases hline : newline ∈ stream.bytes
    · -- the first line is read, and the rest of the stream is left
      obtain ⟨body, rest, hbytes, hbody⟩ := List.eq_append_cons_of_mem hline
      obtain ⟨hread, hrest⟩ := @readFrameFrom_line stream [] body rest hbody hbytes
      have hless : rest.length < size := by
        rw [← hlen, hbytes, List.length_append, List.length_cons]
        omega
      rw [hbytes, List.splitOn_append_cons_self_of_not_mem hbody]
      obtain ⟨piece, pieces, hpieces⟩ := List.exists_cons_of_ne_nil (List.splitOn_ne_nil newline rest)
      have hframes : expectedFrames (body :: rest.splitOn newline)
          = lineFrame body :: expectedFrames (rest.splitOn newline) := by rw [hpieces]; rfl
      rw [hframes]
      cases n with
      | zero =>
        rw [List.nil_append, List.length_nil, Nat.zero_add] at hread
        exact hread.trans (finishFrame_line body)
      | succ n =>
        have hlater := ih _ hless (readFrame stream).2 hend' n (congrArg List.length hrest)
        rw [show (readFrame stream).2.bytes = rest from hrest] at hlater
        exact hlater
    · -- nothing but bytes without a newline is left
      rw [List.splitOn_eq_singleton hline]
      obtain ⟨hread, hrest⟩ := @readFrameFrom_trailing stream [] hend hline (Nat.zero_le _)
      by_cases hempty : stream.bytes = []
      · rw [frameAt_of_ended hend hempty, hempty]
        rfl
      · rw [expectedFrames, if_neg hempty]
        cases n with
        | zero =>
          rw [List.length_nil, Nat.zero_add, List.nil_append, endOfInput, if_neg hempty] at hread
          exact hread
        | succ n =>
          rw [frameAt, frameAt_of_ended hend' hrest]
          rfl

/-- Two frames and a blank line, in chunks that part the second frame. -/
def partedFrames : Stream where
  chunks := [ascii "[]\r\n\n[", ascii "1]\n"]
  failure := none
  nonempty := by decide

theorem frameAt_partedFrames :
    frameAt partedFrames 0 = .ok (some (ascii "[]"))
      ∧ frameAt partedFrames 1 = .error (ascii "empty JSON-RPC frame")
      ∧ frameAt partedFrames 2 = .ok (some (ascii "[1]")) ∧ frameAt partedFrames 3 = .ok none :=
  ⟨(frameAt_eq partedFrames rfl 0).trans (by decide +kernel),
    (frameAt_eq partedFrames rfl 1).trans (by decide +kernel),
    (frameAt_eq partedFrames rfl 2).trans (by decide +kernel),
    (frameAt_eq partedFrames rfl 3).trans (by decide +kernel)⟩

end

end Opcore.Server
