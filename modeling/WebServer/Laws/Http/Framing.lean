import WebServer.Laws.Http.HeaderTable
import WebServer.Laws.Http.Refusals

/-!
# Framing

How long a body is has to be the same for everyone who reads a stream. The
standard leaves no choice (`Frames`): a message with a `Transfer-Encoding` or with a
`Content-Length` that is not a number within bounds is refused. The parser stands
for an absent field by the empty value and reads the length with `strtoll`, so it
takes more than that: an empty `Transfer-Encoding`, an empty `Content-Length`, and
numbers behind white space or a sign, or in front of a NUL (`Misframed`). On every
other stream it keeps to the standard (`framed_iff`).
-/

namespace WebServer

open Base RequestParser

/-! ## The standard -/

/-- The combined value of the field lines of a name, if there are any. -/
def combined (name : Bytes) (fields : List (Bytes × Bytes)) : Option Bytes :=
  joinValues ((fields.filter fun field => field.1 = name).map Prod.snd)

/-- Digits only, which denote a number within the limit. -/
structure IsLength (value : Bytes) (n : Nat) : Prop where
  ne : value ≠ []
  digits : ∀ c ∈ value, isdigit c = true
  value_eq : decimalValue value = n
  le : n ≤ maxBody

/-- These field lines announce a body of so many octets. -/
structure Frames (fields : List (Bytes × Bytes)) (n : Nat) : Prop where
  no_transfer : ∀ field ∈ fields, field.1 ≠ ascii "transfer-encoding"
  length : (combined (ascii "content-length") fields = none ∧ n = 0) ∨
    ∃ value, combined (ascii "content-length") fields = some value ∧ IsLength value n

/-- The lines of a header block and the blank line behind them. -/
def blockText : List Bytes → Bytes
  | [] => CRLF
  | line :: lines => line ++ (CRLF ++ blockText lines)

/-- The field lines of a header block, each as its name in lower case and its
value, both without blanks around them. -/
def fieldsOf (lines : List Bytes) : List (Bytes × Bytes) := lines.filterMap fieldOf

/-- A stream begins with a request line and a whole header block, both within
their limits. -/
structure Head (stream line : Bytes) (lines : List Bytes) (rest : Bytes) : Prop where
  stream_eq : stream = line ++ (CRLF ++ (blockText lines ++ rest))
  line_free : find CRLF line = none
  line_short : line.length ≤ maxRequestLine
  lines_free : ∀ l ∈ lines, l ≠ [] ∧ find CRLF l = none
  block_short : (blockText lines).length ≤ maxHeaderBlock

theorem Head.fits {stream line rest : Bytes} {lines : List Bytes}
    (hhead : Head stream line lines rest) {p : RequestParser} (hbytes : p.headerBytes = 0) :
    p.headerBytes + (blockText lines).length ≤ maxHeaderBlock := by
  rw [hbytes, Nat.zero_add]
  exact hhead.block_short

/-- The answer to a stream that is framed as the standard says. -/
structure Framed (stream : Bytes) (answer : Result × RequestParser × Bytes) : Prop where
  complete : answer.1 = .Complete → ∃ line lines rest n,
    Head stream line lines rest ∧ Frames (fieldsOf lines) n ∧ n ≤ rest.length ∧
      answer.2.1.req.body = rest.take n ∧ answer.2.2 = rest.drop n
  refused : ∀ line lines rest, Head stream line lines rest →
    (∀ n, ¬ Frames (fieldsOf lines) n) → answer.1 = .Error

/-! ## What the parser takes -/

/-- A value that the parser takes for a length: none, or up to its first NUL a
number within the limit, behind white space and a sign. -/
def Taken (value : Bytes) : Prop :=
  value = [] ∨ ∃ sign digits, Numeral (cString value) sign digits ∧
    decimalValue digits ≤ maxBody ∧ (sign = [45] → decimalValue digits = 0)

/-- These field lines are taken by the parser, and frame nothing: the transfer
encoding is empty, or the length is no number. -/
def MisframedFields (fields : List (Bytes × Bytes)) : Prop :=
  (combined (ascii "transfer-encoding") fields = some [] ∧
    ∀ value, combined (ascii "content-length") fields = some value → Taken value) ∨
  (combined (ascii "transfer-encoding") fields = none ∧
    ∃ value, combined (ascii "content-length") fields = some value ∧ Taken value ∧
      ¬ (value ≠ [] ∧ ∀ c ∈ value, isdigit c = true))

/-- A stream with a good request line and a header block of such field lines. -/
def Misframed (stream : Bytes) : Prop :=
  ∃ line lines rest, Head stream line lines rest ∧
    (RequestParser.parseRequestLine {} line).1 = true ∧ (∀ l ∈ lines, fieldOf l ≠ none) ∧
    MisframedFields (fieldsOf lines)

namespace RequestParser

/-! ## Combined values -/

/-- The parser after these lines were consumed. -/
def addLines (p : RequestParser) : List Bytes → RequestParser
  | [] => p
  | line :: lines =>
    match fieldOf line with
    | none => p.addLines lines
    | some field => (p.addField line field).addLines lines

theorem addLines_contentLength (p : RequestParser) (lines : List Bytes) :
    (p.addLines lines).contentLength = p.contentLength := by
  induction lines generalizing p with
  | nil => rfl
  | cons line lines ih =>
    rw [addLines]
    cases fieldOf line with
    | none => exact ih p
    | some field => exact ih (p.addField line field)

theorem addLines_headers (p : RequestParser) (lines : List Bytes) :
    (p.addLines lines).req.headers =
      (fieldsOf lines).foldl (fun headers field => addHeader headers field.1 field.2)
        p.req.headers := by
  induction lines generalizing p with
  | nil => rfl
  | cons line lines ih =>
    rw [addLines, fieldsOf]
    cases hfield : fieldOf line with
    | none => rw [List.filterMap_cons_none hfield, ih, fieldsOf]
    | some field =>
      rw [List.filterMap_cons_some hfield, List.foldl_cons, ih, fieldsOf]
      rfl

/-- What the parser finds under a name is the combined value, or nothing. -/
theorem header_addLines {p : RequestParser} (hempty : p.req.headers = ∅) (lines : List Bytes)
    {name : Bytes} (hlower : toLower name = name) :
    (p.addLines lines).req.header name = (combined name (fieldsOf lines)).getD [] := by
  rw [HttpRequest.header, hlower, addLines_headers, lookup_foldl_addHeader, hempty,
    AList.lookup_empty, combined, foldl_joinValue_none]

/-! ## The end of the block -/

/-- What the parser makes of the value of a length. -/
theorem taken_of_strtoll {value : Bytes} {n : Int} (h : strtoll (cString value) = some (n, []))
    (hn : 0 ≤ n) (hmax : n.toNat ≤ maxBody) : Taken value := by
  obtain ⟨sign, digits, hnumeral, rfl⟩ := numeral_of_strtoll h
  refine .inr ⟨sign, digits, hnumeral, ?_⟩
  simp only [numeralValue, longMax, longMin, maxBody] at hn hmax ⊢
  split at hn
  next hminus =>
    rw [if_pos hminus] at hmax
    exact ⟨by omega, fun _ => by omega⟩
  next hplus =>
    rw [if_neg hplus] at hmax
    exact ⟨by omega, fun hminus => absurd hminus hplus⟩

theorem strtoll_of_taken {value : Bytes} (h : Taken value) (hne : value ≠ []) :
    ∃ n : Int, strtoll (cString value) = some (n, []) ∧ 0 ≤ n ∧ n.toNat ≤ maxBody := by
  obtain ⟨sign, digits, hnumeral, hmax, hminus⟩ := h.resolve_left hne
  refine ⟨_, strtoll_numeral hnumeral, ?_⟩
  simp only [numeralValue, longMax, longMin, maxBody] at hmax ⊢
  split
  next hsign =>
    have hzero := hminus hsign
    omega
  next => omega

/-- The end of a header block is accepted exactly when the parser finds no
transfer encoding and takes the length. -/
theorem finishHeaders_iff (p : RequestParser) :
    p.finishHeaders.1 = true ↔
      p.req.header (ascii "transfer-encoding") = [] ∧ Taken (p.req.header (ascii "content-length")) := by
  constructor
  · intro h
    have hfinished := finished_of_finishHeaders (rfl : p.finishHeaders = p.finishHeaders)
    generalize p.finishHeaders = finished at h hfinished
    cases hfinished with
    | encoded | unreadable | tooLong => cases h
    | unannounced transfer length => exact ⟨transfer, .inl length⟩
    | announced transfer _ read natural fits =>
      exact ⟨transfer, taken_of_strtoll read natural fits⟩
  · intro ⟨htransfer, htaken⟩
    by_cases hlength : p.req.header (ascii "content-length") = []
    · simp only [finishHeaders, htransfer, hlength, ne_eq, not_true_eq_false, if_false, if_true]
    · obtain ⟨n, hread, hn, hmax⟩ := strtoll_of_taken htaken hlength
      simp only [finishHeaders, htransfer, hlength, hread, ne_eq, not_true_eq_false, false_or,
        Int.not_lt.mpr hn, if_false, gt_iff_lt, Nat.not_lt.mpr hmax]

/-- The length that is taken is the number that the digits denote. -/
theorem finishHeaders_length {p q : RequestParser} {n : Nat} (h : p.finishHeaders = (true, q))
    (hlength : IsLength (p.req.header (ascii "content-length")) n) : q.contentLength = n := by
  have hread := strtoll_numeral (numeral_digits hlength.ne hlength.digits)
  have hvalue : numeralValue [] (p.req.header (ascii "content-length")) = n := by
    have hle := hlength.le
    simp only [numeralValue, hlength.value_eq, longMax, maxBody] at hle ⊢
    rw [if_neg (by simp)]
    omega
  rw [hvalue] at hread
  cases finished_of_finishHeaders h with
  | unannounced _ length => exact absurd length hlength.ne
  | announced _ _ read =>
    rw [cString_digits hlength.digits, hread] at read
    cases read
    exact Int.toNat_natCast n

theorem finishHeaders_no_length {p q : RequestParser} (h : p.finishHeaders = (true, q))
    (hlength : p.req.header (ascii "content-length") = []) :
    q.contentLength = p.contentLength := by
  cases finished_of_finishHeaders h with
  | unannounced => rfl
  | announced _ length => exact absurd hlength length

/-! ## The lines of the block -/

theorem blockText_length (line : Bytes) (lines : List Bytes) :
    (blockText (line :: lines)).length = (line.length + 2) + (blockText lines).length := by
  simp only [blockText, List.length_append, CRLF, List.length_cons, List.length_nil]
  omega

/-- Lines that all carry fields make a header block, if what they say is
accepted. -/
theorem headerBlock_of_lines {p q : RequestParser} {lines : List Bytes}
    (hfree : ∀ l ∈ lines, l ≠ [] ∧ find CRLF l = none)
    (hfit : p.headerBytes + (blockText lines).length ≤ maxHeaderBlock)
    (hfields : ∀ l ∈ lines, fieldOf l ≠ none)
    (hfin : ((p.addLines lines).countLine []).finishHeaders = (true, q)) :
    HeaderBlock p (blockText lines) q := by
  induction lines generalizing p with
  | nil => exact .blank hfit hfin
  | cons line lines ih =>
    rw [blockText_length] at hfit
    obtain ⟨field, hfield⟩ := Option.ne_none_iff_exists'.mp (hfields line List.mem_cons_self)
    obtain ⟨hne, hline⟩ := hfree line List.mem_cons_self
    rw [addLines, hfield] at hfin
    refine .field hne hline ?_ hfield (ih (fun l hl => hfree l (List.mem_cons_of_mem _ hl)) ?_
      (fun l hl => hfields l (List.mem_cons_of_mem _ hl)) hfin)
    · show p.headerBytes + (line.length + 2) ≤ maxHeaderBlock
      omega
    · show p.headerBytes + (line.length + 2) + (blockText lines).length ≤ maxHeaderBlock
      omega

/-- A header block consists of lines that all carry fields, and what they say was
accepted. -/
theorem HeaderBlock.lines {p q : RequestParser} {block : Bytes} (h : HeaderBlock p block q) :
    ∃ lines, block = blockText lines ∧ (∀ l ∈ lines, l ≠ [] ∧ find CRLF l = none) ∧
      (∀ l ∈ lines, fieldOf l ≠ none) ∧ p.headerBytes + block.length ≤ maxHeaderBlock ∧
      ((p.addLines lines).countLine []).finishHeaders = (true, q) := by
  induction h with
  | blank hle hfin =>
    exact ⟨[], rfl, List.forall_mem_nil _, List.forall_mem_nil _, hle, hfin⟩
  | @field p q line block field hne hfree _ hfield _ ih =>
    obtain ⟨lines, rfl, hlines, hfields, hfit, hfin⟩ := ih
    refine ⟨line :: lines, rfl, List.forall_mem_cons.mpr ⟨⟨hne, hfree⟩, hlines⟩, ?_, ?_, ?_⟩
    · exact List.forall_mem_cons.mpr ⟨by rw [hfield]; exact Option.some_ne_none _, hfields⟩
    · have hlength := blockText_length line lines
      rw [blockText] at hlength
      rw [hlength]
      have hcount : (p.addField line field).headerBytes = p.headerBytes + (line.length + 2) := rfl
      omega
    · rw [addLines, hfield]
      exact hfin

/-- A block of lines within the limit is refused, or every line carries a field
and what they say is accepted. -/
theorem parse_lines {p : RequestParser} (hs : p.state = .Headers) {lines : List Bytes}
    (hfree : ∀ l ∈ lines, l ≠ [] ∧ find CRLF l = none)
    (hfit : p.headerBytes + (blockText lines).length ≤ maxHeaderBlock) (rest : Bytes) :
    (p.parse (blockText lines ++ rest)).1 = .Error ∨
      ((∀ l ∈ lines, fieldOf l ≠ none) ∧
        ((p.addLines lines).countLine []).finishHeaders.1 = true) := by
  induction lines generalizing p with
  | nil =>
    rcases hfin : (p.countLine []).finishHeaders with ⟨_ | _, q⟩
    · have hshort : ¬ (p.countLine []).headerBytes > maxHeaderBlock := Nat.not_lt.mpr hfit
      have hturn : p.turn (CRLF ++ rest) = .ret .Error q rest := by
        simp only [turn, hs]
        rw [← List.nil_append (CRLF ++ _), turnHeaders_line p (by decide), if_neg hshort,
          if_pos rfl, hfin]
      exact .inl (congrArg Prod.fst (parse_ret hturn))
    · exact .inr ⟨List.forall_mem_nil _, congrArg Prod.fst hfin⟩
  | cons line lines ih =>
    rw [blockText_length] at hfit
    obtain ⟨hne, hline⟩ := hfree line List.mem_cons_self
    have hturn : p.turn (blockText (line :: lines) ++ rest) =
        (p.countLine line).turnField line (blockText lines ++ rest) := by
      simp only [turn, hs]
      rw [blockText, append_line, turnHeaders_line p hline, if_neg, if_neg hne]
      show ¬ p.headerBytes + (line.length + 2) > maxHeaderBlock
      omega
    rw [turnField_eq] at hturn
    cases hfield : fieldOf line with
    | none =>
      rw [hfield] at hturn
      exact .inl (congrArg Prod.fst (parse_ret hturn))
    | some field =>
      rw [hfield] at hturn
      rw [parse_again hturn, addLines, hfield]
      have hrest := ih (p := p.addField line field) hs
        (fun l hl => hfree l (List.mem_cons_of_mem _ hl))
        (by
          show p.headerBytes + (line.length + 2) + (blockText lines).length ≤ maxHeaderBlock
          omega)
      refine hrest.imp id fun hgood => ⟨?_, hgood.2⟩
      exact List.forall_mem_cons.mpr ⟨by rw [hfield]; exact Option.some_ne_none _, hgood.1⟩

/-! ## What was received in pieces -/

/-- The parser has been given these octets in some pieces, and asked for more each
time: where it is, and what is in the buffer. -/
inductive Fed : Bytes → RequestParser → Bytes → Prop where
  | fresh : Fed [] {} []
  | more {received buffer chunk rest : Bytes} {p q : RequestParser} :
      Fed received p buffer → p.parse (buffer ++ chunk) = (.NeedMore, q, rest) →
      Fed (received ++ chunk) q rest

/-- What the parser answers to the next piece it would answer to the whole. -/
theorem Fed.parse {received buffer : Bytes} {p : RequestParser} (h : Fed received p buffer)
    (chunk : Bytes) : p.parse (buffer ++ chunk) = ({} : RequestParser).parse (received ++ chunk) := by
  induction h generalizing chunk with
  | fresh => rfl
  | more h hmore ih =>
    rw [ih] at hmore
    exact (parse_append_needMore hmore chunk).symm

/-! ## The law -/

theorem combined_eq_none {name : Bytes} {fields : List (Bytes × Bytes)} :
    combined name fields = none ↔ ∀ field ∈ fields, field.1 ≠ name := by
  have hjoin : ∀ values, joinValues values = none ↔ values = [] := by
    intro values
    cases values with
    | nil => exact iff_of_true rfl rfl
    | cons value values => exact iff_of_false (Option.some_ne_none _) (List.cons_ne_nil _ _)
  rw [combined, hjoin, List.map_eq_nil_iff, List.filter_eq_nil_iff]
  simp only [decide_eq_true_eq, ne_eq]

/-- A run of digits that is taken denotes a number within the limit. -/
theorem isLength_of_taken {value : Bytes} (htaken : Taken value) (hne : value ≠ [])
    (hd : ∀ c ∈ value, isdigit c = true) : IsLength value (decimalValue value) := by
  obtain ⟨n, hread, -, hmax⟩ := strtoll_of_taken htaken hne
  rw [cString_digits hd, strtoll_numeral (numeral_digits hne hd)] at hread
  obtain rfl := (Prod.mk.inj (Option.some.inj hread)).1
  refine ⟨hne, hd, rfl, ?_⟩
  simp only [numeralValue, longMax, maxBody] at hmax ⊢
  rw [if_neg (by simp)] at hmax
  omega

/-- Misframed are the field lines that the parser takes and the standard
refuses. -/
theorem misframedFields_iff (fields : List (Bytes × Bytes)) :
    MisframedFields fields ↔
      ((combined (ascii "transfer-encoding") fields).getD [] = [] ∧
        Taken ((combined (ascii "content-length") fields).getD [])) ∧
      ∀ n, ¬ Frames fields n := by
  constructor
  · rintro (⟨htransfer, htaken⟩ | ⟨htransfer, value, hvalue, htaken, hnumber⟩)
    · refine ⟨⟨by rw [htransfer, Option.getD_some], ?_⟩, fun n hframes => ?_⟩
      · cases hlength : combined (ascii "content-length") fields with
        | none => exact .inl rfl
        | some value => exact htaken value hlength
      · rw [combined_eq_none.mpr hframes.no_transfer] at htransfer
        cases htransfer
    · refine ⟨⟨by rw [htransfer, Option.getD_none], by rw [hvalue]; exact htaken⟩, fun n hframes => ?_⟩
      rcases hframes.length with ⟨hnone, -⟩ | ⟨value', hvalue', hlength⟩
      · cases hvalue.symm.trans hnone
      · obtain rfl := Option.some.inj (hvalue.symm.trans hvalue')
        exact hnumber ⟨hlength.ne, hlength.digits⟩
  · rintro ⟨⟨htransfer, htaken⟩, hframes⟩
    cases hte : combined (ascii "transfer-encoding") fields with
    | some value =>
      rw [hte] at htransfer
      refine .inl ⟨by rw [hte]; exact congrArg some htransfer, fun value hvalue => ?_⟩
      rw [hvalue] at htaken
      exact htaken
    | none =>
      have hnone := combined_eq_none.mp hte
      cases hlength : combined (ascii "content-length") fields with
      | none => exact absurd ⟨hnone, .inl ⟨hlength, rfl⟩⟩ (hframes 0)
      | some value =>
        rw [hlength] at htaken
        refine .inr ⟨hte, value, hlength, htaken, fun ⟨hne, hd⟩ => ?_⟩
        exact hframes _ ⟨hnone, .inr ⟨value, hlength, isLength_of_taken htaken hne hd⟩⟩

/-- What the parser finds in the header block at its end is what the field lines
say. -/
theorem finishHeaders_lines_iff {p : RequestParser} (hempty : p.req.headers = ∅)
    (lines : List Bytes) :
    ((p.addLines lines).countLine []).finishHeaders.1 = true ↔
      (combined (ascii "transfer-encoding") (fieldsOf lines)).getD [] = [] ∧
        Taken ((combined (ascii "content-length") (fieldsOf lines)).getD []) := by
  rw [finishHeaders_iff, ← header_addLines hempty lines (by decide +kernel),
    ← header_addLines hempty lines (by decide +kernel)]
  rfl

/-- The body is as long as the field lines say. -/
theorem contentLength_of_frames {p q : RequestParser} {lines : List Bytes} {n : Nat}
    (hempty : p.req.headers = ∅) (hzero : p.contentLength = 0)
    (hfin : ((p.addLines lines).countLine []).finishHeaders = (true, q))
    (hframes : Frames (fieldsOf lines) n) : q.contentLength = n := by
  have hheader : ((p.addLines lines).countLine []).req.header (ascii "content-length") =
      (combined (ascii "content-length") (fieldsOf lines)).getD [] :=
    header_addLines hempty lines (by decide +kernel)
  rcases hframes.length with ⟨hnone, rfl⟩ | ⟨value, hvalue, hlength⟩
  · rw [hnone] at hheader
    rw [finishHeaders_no_length hfin hheader]
    exact (addLines_contentLength p lines).trans hzero
  · rw [hvalue] at hheader
    refine finishHeaders_length hfin ?_
    rw [hheader]
    exact hlength

/-- A parser behind a request line. -/
theorem parseRequestLine_fresh {p : RequestParser} {line : Bytes} {ok : Bool}
    (h : ({} : RequestParser).parseRequestLine line = (ok, p)) :
    p.req.headers = ∅ ∧ p.contentLength = 0 ∧ p.headerBytes = 0 ∧ p.req.body = [] := by
  obtain ⟨-, hlength, hbytes, hbody, hheaders⟩ := parseRequestLine_rest h
  exact ⟨hheaders, hlength, hbytes, hbody⟩

/-- What is completed is framed, on a stream that is not misframed. -/
theorem framed_of_complete {stream rest : Bytes} {p : RequestParser} (hnot : ¬ Misframed stream)
    (h : ({} : RequestParser).parse stream = (.Complete, p, rest)) :
    ∃ line lines tail n, Head stream line lines tail ∧ Frames (fieldsOf lines) n ∧
      n ≤ tail.length ∧ p.req.body = tail.take n ∧ rest = tail.drop n := by
  obtain ⟨wire, rfl, hwire⟩ := wireRequest_of_parse h
  generalize p.req = request at hwire ⊢
  obtain ⟨hfree, hshort, hline, hblock, hbody⟩ := hwire
  rename_i line block body p₀ q
  obtain ⟨hheaders, hlength, hbytes, -⟩ := parseRequestLine_fresh hline
  obtain ⟨lines, rfl, hlines, hfields, hfit, hfin⟩ := hblock.lines
  have hhead : Head (line ++ (CRLF ++ (blockText lines ++ body)) ++ rest) line lines
      (body ++ rest) := by
    refine ⟨by rw [append_line, List.append_assoc], hfree, hshort, hlines, ?_⟩
    have hcount : ({ p₀ with state := .Headers } : RequestParser).headerBytes = 0 := hbytes
    omega
  have hframes : ∃ n, Frames (fieldsOf lines) n := by
    by_contra hno
    refine hnot ⟨line, lines, body ++ rest, hhead, congrArg Prod.fst hline, hfields, ?_⟩
    rw [misframedFields_iff, ← finishHeaders_lines_iff (p := { p₀ with state := .Headers }) hheaders]
    exact ⟨congrArg Prod.fst hfin, not_exists.mp hno⟩
  obtain ⟨n, hframes⟩ := hframes
  have hn : body.length = n := by
    rw [hbody]
    exact contentLength_of_frames (p := { p₀ with state := .Headers }) hheaders hlength hfin hframes
  refine ⟨line, lines, body ++ rest, n, hhead, hframes, ?_, ?_, ?_⟩
  · rw [← hn, List.length_append]
    exact Nat.le_add_right _ _
  · exact (List.take_left' hn).symm
  · rw [List.drop_left' hn]

/-- What is not refused has field lines that frame a body, or that the parser
takes for such. -/
theorem taken_of_not_refused {stream line rest : Bytes} {lines : List Bytes}
    (hhead : Head stream line lines rest)
    (h : (({} : RequestParser).parse stream).1 ≠ .Error) :
    (parseRequestLine {} line).1 = true ∧ (∀ l ∈ lines, fieldOf l ≠ none) ∧
      (combined (ascii "transfer-encoding") (fieldsOf lines)).getD [] = [] ∧
        Taken ((combined (ascii "content-length") (fieldsOf lines)).getD []) := by
  rw [hhead.stream_eq] at h
  rcases hline : ({} : RequestParser).parseRequestLine line with ⟨_ | _, p⟩
  · have hturn : ({} : RequestParser).turn (line ++ (CRLF ++ (blockText lines ++ rest))) =
        .ret .Error p (blockText lines ++ rest) := by
      simp only [turn]
      rw [turnRequestLine_line _ hhead.line_free, if_neg (Nat.not_lt.mpr hhead.line_short), hline]
    exact absurd (congrArg Prod.fst (parse_ret hturn)) h
  · obtain ⟨hheaders, -, hbytes, -⟩ := parseRequestLine_fresh hline
    rw [parse_requestLine hhead.line_free hhead.line_short hline] at h
    have hfit := hhead.fits (p := { p with state := .Headers }) hbytes
    obtain ⟨hfields, hfin⟩ := (parse_lines rfl hhead.lines_free hfit rest).resolve_left h
    exact ⟨rfl, hfields,
      (finishHeaders_lines_iff (p := { p with state := .Headers }) hheaders lines).mp hfin⟩

/-- A misframed stream is not refused. -/
theorem not_refused_of_misframed {stream line rest : Bytes} {lines : List Bytes}
    (hhead : Head stream line lines rest) (hline : (parseRequestLine {} line).1 = true)
    (hfields : ∀ l ∈ lines, fieldOf l ≠ none) (hmisframed : MisframedFields (fieldsOf lines)) :
    (({} : RequestParser).parse stream).1 ≠ .Error := by
  rw [hhead.stream_eq]
  rcases hparsed : ({} : RequestParser).parseRequestLine line with ⟨_ | _, p⟩
  · rw [hparsed] at hline
    cases hline
  · obtain ⟨hheaders, -, hbytes, hbody⟩ := parseRequestLine_fresh hparsed
    have htaken := ((misframedFields_iff _).mp hmisframed).1
    rw [← finishHeaders_lines_iff (p := { p with state := .Headers }) hheaders] at htaken
    rcases hfin : ((({ p with state := .Headers } : RequestParser).addLines lines).countLine
      []).finishHeaders with ⟨ok, q⟩
    rw [hfin] at htaken
    obtain rfl : ok = true := htaken
    have hfit := hhead.fits (p := { p with state := .Headers }) hbytes
    have hblock := headerBlock_of_lines hhead.lines_free hfit hfields hfin
    rw [parse_requestLine hhead.line_free hhead.line_short hparsed, hblock.parse_block rfl,
      parse_announced (hblock.keeps.2.trans hbody)]
    split
    · exact Result.noConfusion
    · exact Result.noConfusion

end RequestParser

/-- The parser frames a stream as the standard says, in however many pieces it
arrives, exactly when the stream is not misframed in a way that the parser does
not see. -/
theorem framed_iff {received buffer : Bytes} {p : RequestParser} (h : Fed received p buffer)
    (chunk : Bytes) :
    Framed (received ++ chunk) (p.parse (buffer ++ chunk)) ↔ ¬ Misframed (received ++ chunk) := by
  rw [h.parse]
  constructor
  · rintro hframed ⟨line, lines, rest, hhead, hline, hfields, hmisframed⟩
    have hno := ((misframedFields_iff _).mp hmisframed).2
    exact not_refused_of_misframed hhead hline hfields hmisframed
      (hframed.refused line lines rest hhead hno)
  · intro hnot
    constructor
    · intro hcomplete
      exact framed_of_complete hnot (Prod.ext hcomplete rfl)
    · intro line lines rest hhead hno
      by_contra herror
      obtain ⟨hline, hfields, htaken⟩ := taken_of_not_refused hhead herror
      exact hnot ⟨line, lines, rest, hhead, hline, hfields,
        (misframedFields_iff _).mpr ⟨htaken, hno⟩⟩

/-! ## Streams -/

/-- A line in front of its end is the first one. -/
theorem line_unique {line line' rest rest' : Bytes} (hfree : find CRLF line = none)
    (hfree' : find CRLF line' = none)
    (h : line ++ (CRLF ++ rest) = line' ++ (CRLF ++ rest')) : line = line' ∧ rest = rest' := by
  have hfound := find_crlf_line hfree rest
  rw [h, find_crlf_line hfree' rest'] at hfound
  obtain ⟨hline, hrest⟩ := List.append_inj h (Option.some.inj hfound).symm
  exact ⟨hline, List.append_cancel_left hrest⟩

theorem blockText_unique {lines lines' : List Bytes} {rest rest' : Bytes}
    (hfree : ∀ l ∈ lines, l ≠ [] ∧ find CRLF l = none)
    (hfree' : ∀ l ∈ lines', l ≠ [] ∧ find CRLF l = none)
    (h : blockText lines ++ rest = blockText lines' ++ rest') : lines = lines' ∧ rest = rest' := by
  have hblank : ∀ {line : Bytes} {block rest rest' : Bytes}, line ≠ [] ∧ find CRLF line = none →
      CRLF ++ rest ≠ line ++ (CRLF ++ block) ++ rest' := by
    intro line block rest rest' hline heq
    rw [append_line] at heq
    exact hline.1 (line_unique (by decide) hline.2 ((List.nil_append _).trans heq)).1.symm
  induction lines generalizing lines' with
  | nil =>
    cases lines' with
    | nil => exact ⟨rfl, List.append_cancel_left h⟩
    | cons line' lines' => exact absurd h (hblank (hfree' line' List.mem_cons_self))
  | cons line lines ih =>
    cases lines' with
    | nil => exact absurd h.symm (hblank (hfree line List.mem_cons_self))
    | cons line' lines' =>
      rw [blockText, blockText, append_line, append_line] at h
      obtain ⟨rfl, hrest⟩ := line_unique (hfree line List.mem_cons_self).2
        (hfree' line' List.mem_cons_self).2 h
      obtain ⟨rfl, rfl⟩ := ih (fun l hl => hfree l (List.mem_cons_of_mem _ hl))
        (fun l hl => hfree' l (List.mem_cons_of_mem _ hl)) hrest
      exact ⟨rfl, rfl⟩

/-- A stream has one header block in front. -/
theorem Head.unique {stream line line' rest rest' : Bytes} {lines lines' : List Bytes}
    (h : Head stream line lines rest) (h' : Head stream line' lines' rest') :
    line = line' ∧ lines = lines' ∧ rest = rest' := by
  obtain ⟨rfl, hblock⟩ := line_unique h.line_free h'.line_free
    (h.stream_eq.symm.trans h'.stream_eq)
  obtain ⟨rfl, rfl⟩ := blockText_unique h.lines_free h'.lines_free hblock
  exact ⟨rfl, rfl, rfl⟩

/-- A stream whose field lines frame a body is not misframed. -/
theorem Head.not_misframed {stream line rest : Bytes} {lines : List Bytes} {n : Nat}
    (h : Head stream line lines rest) (hframes : Frames (fieldsOf lines) n) :
    ¬ Misframed stream := by
  rintro ⟨line', lines', rest', h', -, -, hmisframed⟩
  obtain ⟨rfl, rfl, rfl⟩ := h.unique h'
  exact ((misframedFields_iff _).mp hmisframed).2 n hframes

/-- A request with a body of one octet is framed, also when it comes in two
pieces. -/
theorem framed_iff_split :
    Framed (ascii "POST" ++ ascii " / HTTP/1.1\r\nContent-Length: 1\r\n\r\nx")
      (({} : RequestParser).parse (ascii "POST" ++ ascii " / HTTP/1.1\r\nContent-Length: 1\r\n\r\nx")) := by
  have hfed : Fed (ascii "POST") {} (ascii "POST") := .more .fresh (parse_ret rfl)
  refine (framed_iff hfed (ascii " / HTTP/1.1\r\nContent-Length: 1\r\n\r\nx")).mpr ?_
  have hhead : Head (ascii "POST" ++ ascii " / HTTP/1.1\r\nContent-Length: 1\r\n\r\nx")
      (ascii "POST / HTTP/1.1") [ascii "Content-Length: 1"] (ascii "x") :=
    ⟨by decide +kernel, by decide +kernel, by decide +kernel, by decide +kernel, by decide +kernel⟩
  have hframes : Frames (fieldsOf [ascii "Content-Length: 1"]) 1 :=
    ⟨by decide +kernel, .inr ⟨ascii "1", by decide +kernel,
      ⟨by decide +kernel, by decide +kernel, by decide +kernel, by decide +kernel⟩⟩⟩
  exact hhead.not_misframed hframes

/-- An empty transfer encoding. -/
def emptyTransfer : Bytes := ascii "POST / HTTP/1.1\r\nTransfer-Encoding:\r\n\r\n"

/-- It is taken for none. -/
theorem not_framed_emptyTransfer :
    ¬ Framed emptyTransfer (({} : RequestParser).parse emptyTransfer) := by
  intro hframed
  have hhead : Head emptyTransfer (ascii "POST / HTTP/1.1") [ascii "Transfer-Encoding:"] [] :=
    ⟨by decide +kernel, by decide +kernel, by decide +kernel, by decide +kernel, by decide +kernel⟩
  have hmisframed : MisframedFields (fieldsOf [ascii "Transfer-Encoding:"]) := by
    refine .inl ⟨by decide +kernel, fun value hvalue => ?_⟩
    cases (show combined (ascii "content-length") (fieldsOf [ascii "Transfer-Encoding:"]) = none
      by decide +kernel).symm.trans hvalue
  refine not_refused_of_misframed hhead (by decide +kernel) (by decide +kernel) hmisframed ?_
  exact hframed.refused _ _ _ hhead ((misframedFields_iff _).mp hmisframed).2

end WebServer
