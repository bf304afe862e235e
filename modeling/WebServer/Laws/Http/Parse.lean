import WebServer.Http.Feed

/-!
# What more octets do to a parse

A round that goes on, or completes, does the same on a longer buffer, and
one that asked for more goes on from where it stopped. A refusal is not so
stable: it stays the refusal it was, EXCEPT in one place. The request line
state measures a buffer without a line end against `maxRequestLine`, and
that measure counts a carriage return whose line feed has not arrived. So a
line of exactly `maxRequestLine` octets, cut between its two end octets, is
refused with 414 although the whole of it is within the limit
(`CutAtLimit`). The header state has no such place, because there the line
end is counted in both measures.

`reader` packages the parser as a resumable reader, and `parseOn` and
`feedChunks` are its drain and feed.
-/

namespace WebServer

open Base

/-- The buffer ends between the two end octets of a request line of exactly
the length limit, and the line feed comes next. -/
def CutAtLimit (buffer more : Bytes) : Prop :=
  ∃ line rest, find CRLF line = none ∧ line.length = maxRequestLine ∧
    buffer = line ++ [13] ∧ more = 10 :: rest

/-- What a turn on a longer buffer does, given what it did on the shorter. -/
def Turn.Extends (p : RequestParser) (buffer more : Bytes) : Turn → Turn → Prop
  | .again q rest, longer => longer = .again q (rest ++ more)
  | .ret .Complete q rest, longer => longer = .ret .Complete q (rest ++ more)
  | .ret .NeedMore q rest, _ => q = p ∧ rest = buffer
  | .ret .Error q _, longer =>
    (∃ q' rest', longer = .ret .Error q' rest' ∧ q'.error = q.error) ∨
      (p.state = .RequestLine ∧ CutAtLimit buffer more)

namespace RequestParser

/-- Only a buffer that holds half a line end gets a line end within its own
length plus one. -/
theorem split_at_half_crlf {buffer more : Bytes} {lineEnd : Nat}
    (h : find CRLF (buffer ++ more) = some lineEnd) (hlen : buffer.length = lineEnd + 1) :
    ∃ line rest, find CRLF line = none ∧ line.length = lineEnd ∧
      buffer = line ++ [13] ∧ more = 10 :: rest := by
  obtain ⟨line, rest, hsplit, rfl, hfree⟩ := find_split CRLF_ne_nil h
  have hsplit' : buffer ++ more = (line ++ [13]) ++ (10 :: rest) := by
    rw [hsplit]
    simp [CRLF]
  obtain ⟨rfl, rfl⟩ := List.append_inj hsplit' (by simp [hlen])
  exact ⟨line, rest, hfree, rfl, rfl, rfl⟩

theorem append_line (line rest more : Bytes) :
    line ++ (CRLF ++ rest) ++ more = line ++ (CRLF ++ (rest ++ more)) := by
  simp only [List.append_assoc]

theorem turnRequestLine_append {p : RequestParser} (hs : p.state = .RequestLine)
    (buffer more : Bytes) :
    Turn.Extends p buffer more (p.turnRequestLine buffer) (p.turnRequestLine (buffer ++ more)) := by
  rcases crlf_cases buffer with hnone | ⟨line, rest, hfree, rfl⟩
  · by_cases hlong : buffer.length > maxRequestLine
    · have hret : p.turnRequestLine buffer = .ret .Error { p with error := 414 } buffer := by
        simp only [turnRequestLine, hnone, if_pos hlong]
      rw [hret]
      cases hmore : find CRLF (buffer ++ more) with
      | none =>
        refine .inl ⟨{ p with error := 414 }, buffer ++ more, ?_, rfl⟩
        have : (buffer ++ more).length > maxRequestLine := by
          simp only [List.length_append]
          omega
        simp only [turnRequestLine, hmore, if_pos this]
      | some lineEnd =>
        -- The line end that arrived ends after the old buffer, so the line
        -- is over the limit unless the buffer was one octet over it.
        have hend : buffer.length < lineEnd + 2 := find_none_append CRLF_ne_nil hnone hmore
        by_cases hover : lineEnd > maxRequestLine
        · refine .inl ⟨{ p with error := 414 }, buffer ++ more, ?_, rfl⟩
          simp only [turnRequestLine, hmore, if_pos hover]
        · refine .inr ⟨hs, ?_⟩
          obtain ⟨line, rest, hfree, hlen, hb, hm⟩ :=
            split_at_half_crlf hmore (by omega)
          exact ⟨line, rest, hfree, by omega, hb, hm⟩
    · have hret : p.turnRequestLine buffer = .ret .NeedMore p buffer := by
        simp only [turnRequestLine, hnone, if_neg hlong]
      rw [hret]
      exact ⟨rfl, rfl⟩
  · rw [append_line, turnRequestLine_line p hfree, turnRequestLine_line p hfree]
    split
    · exact .inl ⟨_, _, rfl, rfl⟩
    · split
      · exact .inl ⟨_, _, rfl, rfl⟩
      · exact rfl

theorem turnHeaders_append {p : RequestParser} (buffer more : Bytes) :
    Turn.Extends p buffer more (p.turnHeaders buffer) (p.turnHeaders (buffer ++ more)) := by
  rcases crlf_cases buffer with hnone | ⟨line, rest, hfree, rfl⟩
  · by_cases hlong : buffer.length + p.headerBytes > maxHeaderBlock
    · have hret : p.turnHeaders buffer = .ret .Error { p with error := 431 } buffer := by
        simp only [turnHeaders, hnone, if_pos hlong]
      rw [hret]
      refine .inl ?_
      cases hmore : find CRLF (buffer ++ more) with
      | none =>
        refine ⟨{ p with error := 431 }, buffer ++ more, ?_, rfl⟩
        have : (buffer ++ more).length + p.headerBytes > maxHeaderBlock := by
          simp only [List.length_append]
          omega
        simp only [turnHeaders, hmore, if_pos this]
      | some lineEnd =>
        have hend : buffer.length < lineEnd + 2 := find_none_append CRLF_ne_nil hnone hmore
        have : p.headerBytes + (lineEnd + 2) > maxHeaderBlock := by omega
        refine ⟨{ p with headerBytes := p.headerBytes + (lineEnd + 2), error := 431 },
          (buffer ++ more).drop (lineEnd + 2), ?_, rfl⟩
        simp only [turnHeaders, hmore, if_pos this]
    · have hret : p.turnHeaders buffer = .ret .NeedMore p buffer := by
        simp only [turnHeaders, hnone, if_neg hlong]
      rw [hret]
      exact ⟨rfl, rfl⟩
  · rw [append_line, turnHeaders_line p hfree, turnHeaders_line p hfree]
    split
    · exact .inl ⟨_, _, rfl, rfl⟩
    · split
      · split
        · exact .inl ⟨_, _, rfl, rfl⟩
        · exact rfl
      · unfold turnField
        split
        · exact .inl ⟨_, _, rfl, rfl⟩
        · exact .inl ⟨_, _, rfl, rfl⟩
        · exact rfl

theorem turnBody_append {p : RequestParser} (buffer more : Bytes) :
    Turn.Extends p buffer more (p.turnBody buffer) (p.turnBody (buffer ++ more)) := by
  unfold turnBody
  by_cases hshort : buffer.length < p.contentLength
  · rw [if_pos hshort]
    exact ⟨rfl, rfl⟩
  · have hlonger : ¬ (buffer ++ more).length < p.contentLength := by
      simp only [List.length_append]
      omega
    have htake : (buffer ++ more).take p.contentLength = buffer.take p.contentLength :=
      List.take_append_of_le_length (by omega)
    have hdrop : (buffer ++ more).drop p.contentLength = buffer.drop p.contentLength ++ more :=
      List.drop_append_of_le_length (by omega)
    rw [if_neg hshort, if_neg hlonger, htake, hdrop]
    exact rfl

/-- What a round does on a longer buffer, for every state. -/
theorem turn_append (p : RequestParser) (buffer more : Bytes) :
    Turn.Extends p buffer more (p.turn buffer) (p.turn (buffer ++ more)) := by
  unfold turn
  split
  next hs => exact turnRequestLine_append hs buffer more
  next => exact turnHeaders_append buffer more
  next => exact turnBody_append buffer more
  next => exact rfl

/-- No round leads back to the request line state. -/
theorem turn_again_state {p p' : RequestParser} {buffer rest : Bytes}
    (h : p.turn buffer = .again p' rest) : p'.state ≠ .RequestLine := by
  cases turn_round h with
  | line => simp
  | headers =>
    dsimp only
    split <;> simp
  | field state =>
    show p.state ≠ .RequestLine
    rw [state]
    simp
  | body => simp

/-! ## The laws of `parse` -/

/-- A completed request is completed all the same when more has arrived. -/
theorem parse_append_complete {p p' : RequestParser} {buffer rest : Bytes}
    (h : p.parse buffer = (.Complete, p', rest)) (more : Bytes) :
    p.parse (buffer ++ more) = (.Complete, p', rest ++ more) := by
  fun_induction parse p buffer with
  | case1 p buffer q tail ht ih =>
    have hext := turn_append p buffer more
    rw [ht] at hext
    rw [parse_again hext]
    exact ih h
  | case2 p buffer result q tail ht =>
    have hext := turn_append p buffer more
    rw [ht] at hext
    cases h
    exact parse_ret hext

/-- A parse that asked for more goes on from where it stopped. -/
theorem parse_append_needMore {p p' : RequestParser} {buffer rest : Bytes}
    (h : p.parse buffer = (.NeedMore, p', rest)) (more : Bytes) :
    p.parse (buffer ++ more) = p'.parse (rest ++ more) := by
  fun_induction parse p buffer with
  | case1 p buffer q tail ht ih =>
    have hext := turn_append p buffer more
    rw [ht] at hext
    rw [parse_again hext]
    exact ih h
  | case2 p buffer result q tail ht =>
    have hext := turn_append p buffer more
    rw [ht] at hext
    cases h
    obtain ⟨rfl, rfl⟩ := hext
    rfl

/-- Parsing again what a parse left when it asked for more changes nothing. -/
theorem parse_needMore_again {p p' : RequestParser} {buffer rest : Bytes}
    (h : p.parse buffer = (.NeedMore, p', rest)) :
    p'.parse rest = (.NeedMore, p', rest) := by
  have hagain := parse_append_needMore h []
  rw [List.append_nil, List.append_nil, h] at hagain
  exact hagain.symm

/-- A refusal stays what it is when more has arrived, unless the buffer was
cut at the limit of the request line. -/
theorem parse_append_error {p p' : RequestParser} {buffer rest : Bytes}
    (h : p.parse buffer = (.Error, p', rest)) (more : Bytes) :
    (∃ q tail, p.parse (buffer ++ more) = (.Error, q, tail) ∧ q.error = p'.error) ∨
      (p.state = .RequestLine ∧ CutAtLimit buffer more) := by
  fun_induction parse p buffer with
  | case1 p buffer q tail ht ih =>
    have hext := turn_append p buffer more
    rw [ht] at hext
    rw [parse_again hext]
    rcases ih h with hsame | ⟨hs, _⟩
    · exact .inl hsame
    · exact absurd hs (turn_again_state ht)
  | case2 p buffer result q tail ht =>
    have hext := turn_append p buffer more
    rw [ht] at hext
    cases h
    rcases hext with ⟨q', tail', hret, herr⟩ | hcut
    · exact .inl ⟨q', tail', parse_ret hret, herr⟩
    · exact .inr hcut

/-! ## The parser as a resumable reader -/

/-- One `parse` with the reset that follows a completed request. -/
def reader : Reader RequestParser UInt8 HttpRequest Nat where
  read p buffer := match p.parse buffer with
    | (.NeedMore, p', rest) => .more p' rest
    | (.Complete, p', rest) => .item p'.req p'.reset rest
    | (.Error, p', _) => .fail p'.error
  weight := readWeight
  item_weight := by
    intro p buffer request p' rest h
    rcases hp : p.parse buffer with ⟨result, q, tail⟩
    rw [hp] at h
    cases result <;> cases h
    exact readWeight_reset hp
  item_append := by
    intro p buffer request p' rest h more
    rcases hp : p.parse buffer with ⟨result, q, tail⟩
    rw [hp] at h
    cases result <;> cases h
    rw [parse_append_complete hp more]
  more_append := by
    intro p buffer p' rest h more
    rcases hp : p.parse buffer with ⟨result, q, tail⟩
    rw [hp] at h
    cases result <;> cases h
    rw [parse_append_needMore hp more]

theorem read_needMore {p p' : RequestParser} {buffer rest : Bytes}
    (h : p.parse buffer = (.NeedMore, p', rest)) : reader.read p buffer = .more p' rest := by
  simp only [reader, h]

theorem read_complete {p p' : RequestParser} {buffer rest : Bytes}
    (h : p.parse buffer = (.Complete, p', rest)) :
    reader.read p buffer = .item p'.req p'.reset rest := by
  simp only [reader, h]

theorem read_error {p p' : RequestParser} {buffer rest : Bytes}
    (h : p.parse buffer = (.Error, p', rest)) : reader.read p buffer = .fail p'.error := by
  simp only [reader, h]

/-- A fresh parser with nothing to read waits. -/
theorem parse_fresh_nil : ({} : RequestParser).parse [] = (.NeedMore, {}, []) :=
  parse_ret (by simp [turn, turnRequestLine, find, CRLF, maxRequestLine])

/-- Parsing on is draining. -/
theorem parseOn_eq_drain (p : RequestParser) (buffer : Bytes) :
    p.parseOn buffer = reader.drain p buffer := by
  fun_induction parseOn p buffer with
  | case1 p buffer p' rest h => rw [reader.drain_more (read_needMore h)]
  | case2 p buffer p' rest h => rw [reader.drain_fail (read_error h)]
  | case3 p buffer p' h =>
    rw [reader.drain_item (read_complete h), reset,
      reader.drain_more (read_needMore parse_fresh_nil)]
    rfl
  | case4 p buffer p' rest h hrest ih =>
    rw [reader.drain_item (read_complete h), ih]

theorem parseOn_needMore {p p' : RequestParser} {buffer rest : Bytes}
    (h : p.parse buffer = (.NeedMore, p', rest)) : p.parseOn buffer = ([], .waiting p' rest) := by
  rw [parseOn_eq_drain, reader.drain_more (read_needMore h)]

theorem parseOn_error {p p' : RequestParser} {buffer rest : Bytes}
    (h : p.parse buffer = (.Error, p', rest)) : p.parseOn buffer = ([], .failed p'.error) := by
  rw [parseOn_eq_drain, reader.drain_fail (read_error h)]

theorem parseOn_complete {p p' : RequestParser} {buffer rest : Bytes}
    (h : p.parse buffer = (.Complete, p', rest)) :
    p.parseOn buffer = Reader.prepend [p'.req] (p'.reset.parseOn rest) := by
  rw [parseOn_eq_drain, reader.drain_item (read_complete h), parseOn_eq_drain]

/-- Feeding chunks is feeding the reader. -/
theorem feedChunks_eq_feed (p : RequestParser) (buffer : Bytes) (chunks : List Bytes) :
    p.feedChunks buffer chunks = reader.feed p buffer chunks := by
  induction chunks generalizing p buffer with
  | nil => rfl
  | cons chunk chunks ih =>
    rw [feedChunks, Reader.feed, parseOn_eq_drain]
    split
    next requests p' rest h => simp only [h, ih]
    next requests e h => simp only [h]

/-- One more chunk is parsed from where the chunks before it left off. -/
theorem feedChunks_snoc {p p' : RequestParser} {buffer rest : Bytes} {chunks : List Bytes}
    {requests : List HttpRequest} (h : p.feedChunks buffer chunks = (requests, .waiting p' rest))
    (chunk : Bytes) :
    p.feedChunks buffer (chunks ++ [chunk]) =
      Reader.prepend requests (p'.parseOn (rest ++ chunk)) := by
  rw [feedChunks_eq_feed] at h ⊢
  rw [reader.feed_append h, reader.feed_singleton, parseOn_eq_drain]

end RequestParser

end WebServer
