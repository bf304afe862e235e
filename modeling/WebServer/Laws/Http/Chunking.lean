import WebServer.Laws.Http.Refusals

/-!
# Fragmentation

The claim a streaming parser makes is that it does not matter where the
stream was cut. For `RequestParser` that holds of every cut but one kind:
between the two end octets of a request line of exactly `maxRequestLine`
octets. There the pieces are refused with 414, and the whole is not
(`feedResult_ne_of_cut`); for every other fragmentation the pieces and the
whole give the same requests and the same ending
(`feedResult_eq_of_not_cut`).
-/

namespace WebServer

open Base

/-- A run of complete requests on the wire, and their meanings. -/
inductive WireRequests : Bytes → List HttpRequest → Prop where
  | nil : WireRequests [] []
  | cons {wire rest : Bytes} {request : HttpRequest} {requests : List HttpRequest} :
      WireRequest wire request → WireRequests rest requests →
      WireRequests (wire ++ rest) (request :: requests)

/-- The stream is cut between the two end octets of a request line of
exactly `maxRequestLine` octets: complete requests, then the line and its
carriage return, have arrived, and the line feed is in the next chunk. -/
def CutsFullLine (chunks : List Bytes) : Prop :=
  ∃ before after wire requests line rest, chunks = before ++ after ∧
    before.flatten = wire ++ (line ++ [13]) ∧ after.flatten = 10 :: rest ∧
    WireRequests wire requests ∧ find CRLF line = none ∧ line.length = maxRequestLine

namespace RequestParser

/-! ## What a fresh parser takes -/

theorem takes_of_wireRequests {wire : Bytes} {requests : List HttpRequest}
    (h : WireRequests wire requests) (rest : Bytes) :
    reader.Takes {} (wire ++ rest) requests {} rest := by
  induction h with
  | nil => exact .refl _ _
  | @cons wire tail request requests hwire _ ih =>
    obtain ⟨p, hp, rfl⟩ := parse_of_wireRequest hwire (tail ++ rest)
    rw [List.append_assoc]
    exact .step (read_complete hp) ih

theorem wireRequests_of_takes {s : RequestParser} {buffer rest : Bytes}
    {requests : List HttpRequest} (h : reader.Takes {} buffer requests s rest) :
    s = {} ∧ ∃ wire, buffer = wire ++ rest ∧ WireRequests wire requests := by
  generalize hfresh : ({} : RequestParser) = t at h
  induction h with
  | refl t b => exact ⟨rfl, [], rfl, .nil⟩
  | @step t u s b c r request requests hread _ ih =>
    subst hfresh
    rcases hp : ({} : RequestParser).parse b with ⟨result, p, tail⟩
    cases result with
    | NeedMore => rw [read_needMore hp] at hread; cases hread
    | Error => rw [read_error hp] at hread; cases hread
    | Complete =>
      rw [read_complete hp] at hread
      cases hread
      obtain ⟨wire, rfl, hwire⟩ := wireRequest_of_parse hp
      obtain ⟨rfl, rest', rfl, hrest⟩ := ih rfl
      exact ⟨rfl, wire ++ rest', (List.append_assoc ..).symm, .cons hwire hrest⟩

/-! ## Cut at the limit -/

/-- Cut at the limit, a request line is refused with 414, and the whole of
it is not. -/
theorem read_of_cutAtLimit {buffer more : Bytes} (h : CutAtLimit buffer more) :
    reader.read {} buffer = .fail 414 ∧ reader.read {} (buffer ++ more) ≠ .fail 414 := by
  obtain ⟨line, rest, hfree, hlen, rfl, rfl⟩ := h
  have hnone : find CRLF (line ++ [13]) = none := by
    cases hfind : find CRLF (line ++ [13]) with
    | none => rfl
    | some lineEnd =>
      -- A line end found before the line feed arrived would be in the line.
      exfalso
      have hfits := find_fits CRLF_ne_nil hfind
      have hwhole := find_append CRLF_ne_nil hfind (10 :: rest)
      have hline := find_crlf_line hfree rest
      rw [show line ++ [13] ++ 10 :: rest = line ++ (CRLF ++ rest) by simp [CRLF], hline] at hwhole
      cases hwhole
      simp only [List.length_append, CRLF, List.length_cons, List.length_nil] at hfits
      omega
  constructor
  · have hturn : ({} : RequestParser).turn (line ++ [13]) =
        .ret .Error { error := 414 } (line ++ [13]) := by
      simp only [turn, turnRequestLine, hnone]
      rw [if_pos (by simp only [List.length_append, List.length_singleton]; omega)]
    exact read_error (parse_ret hturn)
  · rw [show line ++ [13] ++ 10 :: rest = line ++ (CRLF ++ rest) by simp [CRLF]]
    have hturn : ({} : RequestParser).turn (line ++ (CRLF ++ rest)) =
        ({} : RequestParser).turnRequestLine (line ++ (CRLF ++ rest)) := rfl
    rw [turnRequestLine_line _ hfree, if_neg (by omega)] at hturn
    rcases hparse : ({} : RequestParser).parseRequestLine line with ⟨_ | _, p⟩
    · simp only [hparse] at hturn
      rw [read_error (parse_ret hturn)]
      have hne := parseRequestLine_error hparse
      exact fun heq => by have heq := Reply.fail.inj heq; omega
    · simp only [hparse] at hturn
      rcases hp : ({} : RequestParser).parse (line ++ (CRLF ++ rest)) with ⟨result, q, tail⟩
      cases result with
      | NeedMore => rw [read_needMore hp]; exact fun heq => by cases heq
      | Complete => rw [read_complete hp]; exact fun heq => by cases heq
      | Error =>
        rw [read_error hp]
        rw [parse_again hturn] at hp
        exact fun heq => parse_error_ne_414 hp (by simp) (Reply.fail.inj heq)

/-- A refusal that more octets would have undone was read at a cut in a full
request line. -/
theorem cutAtLimit_of_read {buffer more : Bytes} {e : Nat}
    (hfail : reader.read {} buffer = .fail e)
    (hmore : reader.read {} (buffer ++ more) ≠ .fail e) : CutAtLimit buffer more := by
  rcases hp : ({} : RequestParser).parse buffer with ⟨result, p, tail⟩
  cases result with
  | NeedMore => rw [read_needMore hp] at hfail; cases hfail
  | Complete => rw [read_complete hp] at hfail; cases hfail
  | Error =>
    rw [read_error hp] at hfail
    cases hfail
    rcases parse_append_error hp more with ⟨q, tail', hq, herr⟩ | ⟨_, hcut⟩
    · exact absurd (by rw [read_error hq, herr]) hmore
    · exact hcut

/-! ## Drains -/

/-- The requests of a drain and the error it ended with. -/
def summary (p : List HttpRequest × Ending RequestParser UInt8 Nat) :
    List HttpRequest × Option Nat := (p.1, p.2.error?)

/-- A drain that is refused keeps its summary when more arrives, unless what
it had not taken was cut at the limit. -/
theorem drain_failed_append {buffer : Bytes} {requests : List HttpRequest} {e : Nat}
    (h : reader.drain {} buffer = (requests, .failed e)) (more : Bytes) :
    reader.drain {} (buffer ++ more) = (requests, .failed e) ∨
      ∃ wire rest, buffer = wire ++ rest ∧ WireRequests wire requests ∧
        CutAtLimit rest more := by
  obtain ⟨s, rest, htakes, hread⟩ := reader.takes_of_drain_failed h
  obtain ⟨rfl, wire, rfl, hwire⟩ := wireRequests_of_takes htakes
  by_cases hmore : reader.read {} (rest ++ more) = .fail e
  · refine .inl ?_
    rw [(htakes.append more).drain_eq, reader.drain_fail hmore]
    simp [Reader.prepend]
  · exact .inr ⟨wire, rest, rfl, hwire, cutAtLimit_of_read hread hmore⟩

/-- A stream cut in a full request line is refused at the cut with 414, and
the whole of it is not. -/
theorem drain_of_cut {wire rest more : Bytes} {requests : List HttpRequest}
    (hwire : WireRequests wire requests) (hcut : CutAtLimit rest more) :
    reader.drain {} (wire ++ rest) = (requests, .failed 414) ∧
      summary (reader.drain {} (wire ++ (rest ++ more))) ≠ (requests, some 414) := by
  obtain ⟨hfail, hmore⟩ := read_of_cutAtLimit hcut
  constructor
  · rw [(takes_of_wireRequests hwire rest).drain_eq, reader.drain_fail hfail]
    simp [Reader.prepend]
  · rw [(takes_of_wireRequests hwire (rest ++ more)).drain_eq]
    cases hr : reader.read {} (rest ++ more) with
    | more s r => rw [reader.drain_more hr]; simp [summary, Reader.prepend, Ending.error?]
    | item o s r => rw [reader.drain_item hr]; simp [summary, Reader.prepend]
    | fail e =>
      rw [reader.drain_fail hr]
      have hne : e ≠ 414 := fun heq => hmore (heq ▸ hr)
      simp [summary, Reader.prepend, Ending.error?, hne]

/-- Feeding, in terms of draining: the result is that of the chunks fed
before it stopped. -/
theorem feedResult_eq (chunks : List Bytes) :
    ∃ fed rest, chunks = fed ++ rest ∧ feedResult chunks = summary (reader.drain {} fed.flatten) ∧
      (rest ≠ [] → ∃ e, (reader.drain {} fed.flatten).2 = .failed e) ∧
      ∀ p q, fed = p ++ q → q ≠ [] →
        ∃ s r, (reader.drain {} p.flatten).2 = .waiting s r := by
  obtain ⟨fed, rest, hsplit, hfeed, hstop, hfirst⟩ :=
    reader.feed_spec chunks (read_needMore parse_fresh_nil)
  refine ⟨fed, rest, hsplit, ?_, hstop, hfirst⟩
  unfold feedResult
  rw [feedChunks_eq_feed, hfeed]
  rfl

/-- Feeding everything at once is one drain. -/
theorem feedResult_whole (text : Bytes) : feedResult [text] = summary (reader.drain {} text) := by
  obtain ⟨fed, rest, hsplit, hfeed, hstop, hfirst⟩ := feedResult_eq [text]
  cases fed with
  | nil =>
    -- Nothing was fed, so the drain of nothing was refused.
    obtain ⟨e, he⟩ := hstop (by rw [List.nil_append] at hsplit; simp [← hsplit])
    rw [List.flatten_nil, reader.drain_more (read_needMore parse_fresh_nil)] at he
    cases he
  | cons c fed =>
    obtain ⟨rfl, htail⟩ := List.cons.inj hsplit
    obtain ⟨rfl, rfl⟩ := List.append_eq_nil_iff.mp htail.symm
    rw [hfeed, List.flatten_singleton]

end RequestParser

open RequestParser

/-- Away from the cut in a full request line, the pieces give what the whole
gives. -/
theorem feedResult_eq_of_not_cut {chunks : List Bytes} (h : ¬ CutsFullLine chunks) :
    feedResult chunks = feedResult [chunks.flatten] := by
  obtain ⟨fed, rest, rfl, hfeed, hstop, _⟩ := feedResult_eq chunks
  rw [feedResult_whole, hfeed]
  cases rest with
  | nil => rw [List.append_nil]
  | cons c cs =>
    obtain ⟨e, he⟩ := hstop (List.cons_ne_nil c cs)
    have hdrain : reader.drain {} fed.flatten =
        ((reader.drain {} fed.flatten).1, .failed e) := by rw [← he]
    rw [List.flatten_append]
    rcases drain_failed_append hdrain (c :: cs).flatten with
      hsame | ⟨wire, tail, hsplit, hwire, line, more, hfree, hlen, rfl, hmore⟩
    · rw [hsame, hdrain]
    · exact absurd ⟨fed, c :: cs, wire, _, line, more, rfl, hsplit, hmore, hwire, hfree, hlen⟩ h

/-- At the cut, the pieces are refused and the whole is not refused so. -/
theorem feedResult_ne_of_cut {chunks : List Bytes} (h : CutsFullLine chunks) :
    feedResult chunks ≠ feedResult [chunks.flatten] := by
  obtain ⟨before, after, wire, requests, line, more, rfl, hbefore, hafter, hwire, hfree, hlen⟩ := h
  have hcut : CutAtLimit (line ++ [13]) after.flatten := ⟨line, more, hfree, hlen, rfl, hafter⟩
  obtain ⟨hat, hwhole⟩ := drain_of_cut hwire hcut
  obtain ⟨fed, rest, hsplit, hfeed, hstop, hfirst⟩ := feedResult_eq (before ++ after)
  rw [feedResult_whole, hfeed, List.flatten_append, hbefore, List.append_assoc]
  -- The drain of `before` is refused, so feeding stopped there at the
  -- latest: what was fed is a beginning of `before`.
  have hfed : ∃ others, before = fed ++ others ∧ others ++ after = rest := by
    rcases List.append_eq_append_iff.mp hsplit with ⟨others, hf, ha⟩ | ⟨others, hb, hr⟩
    · cases others with
      | nil =>
        rw [List.append_nil] at hf
        exact ⟨[], by rw [hf, List.append_nil], by rw [ha]; rfl⟩
      | cons c cs =>
        obtain ⟨s, r, hw⟩ := hfirst before (c :: cs) hf (List.cons_ne_nil c cs)
        rw [hbefore, hat] at hw
        cases hw
    · exact ⟨others, hb, hr.symm⟩
  obtain ⟨others, hothers, rfl⟩ := hfed
  have hne : others ++ after ≠ [] := fun hnil => by
    rw [(List.append_eq_nil_iff.mp hnil).2] at hafter
    cases hafter
  obtain ⟨e, he⟩ := hstop hne
  have hdrain : reader.drain {} fed.flatten = ((reader.drain {} fed.flatten).1, .failed e) := by
    rw [← he]
  have hflat : wire ++ (line ++ [13]) = fed.flatten ++ others.flatten := by
    rw [← hbefore, hothers, List.flatten_append]
  rcases drain_failed_append hdrain others.flatten with
    hsame | ⟨wire', rest', hsplit', hwire', hcut'⟩
  · rw [← hflat, hat] at hsame
    rw [hdrain, ← hsame]
    exact fun heq => hwhole heq.symm
  · -- Feeding stopped at an earlier cut of the same kind.
    obtain ⟨line', more', hfree', hlen', rfl, hmore'⟩ := hcut'
    have hlate : CutAtLimit (line' ++ [13]) (others.flatten ++ after.flatten) :=
      ⟨line', more' ++ after.flatten, hfree', hlen', rfl, by rw [hmore']; rfl⟩
    obtain ⟨hat', hwhole'⟩ := drain_of_cut hwire' hlate
    have hall : wire ++ (line ++ [13] ++ after.flatten) =
        wire' ++ (line' ++ [13] ++ (others.flatten ++ after.flatten)) := by
      rw [← List.append_assoc, hflat, hsplit']
      simp only [List.append_assoc]
    rw [hall, hsplit', hat']
    exact fun heq => hwhole' heq.symm

/-- Fragmentation does not matter exactly when no cut falls between the two
end octets of a request line of `maxRequestLine` octets. -/
theorem feedResult_chunks_iff (chunks : List Bytes) :
    feedResult chunks = feedResult [chunks.flatten] ↔ ¬ CutsFullLine chunks :=
  ⟨fun heq hcut => feedResult_ne_of_cut hcut heq, feedResult_eq_of_not_cut⟩

/-- A request line of exactly `maxRequestLine` octets. -/
def fullLine : Bytes := ascii "GET /" ++ List.replicate 8178 97 ++ ascii " HTTP/1.1"

/-- One GET request with a full request line, cut before its first line
feed, is refused with 414 where the whole is not. -/
theorem fullLine_cut_differs :
    feedResult [fullLine ++ [13], 10 :: CRLF] ≠
      feedResult [[fullLine ++ [13], 10 :: CRLF].flatten] := by
  refine feedResult_ne_of_cut ⟨[fullLine ++ [13]], [10 :: CRLF], [], [], fullLine, CRLF, rfl, ?_, ?_,
    .nil, ?_, ?_⟩
  · simp
  · simp
  · refine find_crlf_of_not_mem ?_
    simp only [fullLine, List.mem_append, List.mem_replicate]
    decide
  · simp only [fullLine, List.length_append, List.length_replicate, maxRequestLine]
    decide

end WebServer
