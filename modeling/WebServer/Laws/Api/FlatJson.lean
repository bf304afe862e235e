import WebServer.Api.Text
import WebServer.Json.Flat
import WebServer.Json.Lexer

/-!
# What `parseFlatJson` accepts

The reader accepts a text exactly when it begins with a flat object in a lax
sense: blanks are what `isspace` takes for one, a string runs to the next
quotation mark that no backslash hides, and what is behind the closing brace is
not looked at (`parseFlatJson_of_reading`, `reading_of_parseFlatJson`). It does
what it is for, which is to refuse everything that is no JSON object of strings
and to decode what is, on the texts whose lax reading is also the RFC's reading
(`conforms_iff`).
-/

namespace WebServer

open Base Json

/-- The lax reading: the blanks of `isspace`, and strings that are closed. -/
abbrev LaxReading := Reading isspace Closed

theorem separates_isspace : Separates isspace where
  quote := rfl
  comma := rfl
  colon := rfl
  opening := rfl
  closing := rfl

/-- What `readString` makes of what stands between two quotation marks. -/
def readText : Bytes → Bytes
  | [] => []
  | c :: text =>
    if c = 92 then
      match text with
      | [] => []
      | e :: text => readEscape e :: readText text
    else c :: readText text

/-! ## Strings -/

theorem readText_escape (e : UInt8) (text : Bytes) :
    readText (92 :: e :: text) = readEscape e :: readText text := by
  rw [readText.eq_def]
  simp

theorem readText_plain {c : UInt8} (hslash : c ≠ 92) (text : Bytes) :
    readText (c :: text) = c :: readText text := by
  rw [readText.eq_def]
  simp only [if_neg hslash]

/-- `readString` reads a closed string to its end. -/
theorem readChars_closed {raw : Bytes} (h : Closed raw) (rest : Bytes) :
    readChars (raw ++ 34 :: rest) = some (readText raw, rest) := by
  induction h with
  | nil => exact readChars_quote rest
  | @escape e raw _ ih =>
    rw [List.cons_append, List.cons_append, readChars_escape, ih, readText_escape]
    rfl
  | @plain c raw hquote hslash _ ih =>
    rw [List.cons_append, readChars_plain hquote hslash, ih, readText_plain hslash]
    rfl

/-- What `readString` reads is a closed string. -/
theorem closed_of_readChars {text out rest : Bytes} (h : readChars text = some (out, rest)) :
    ∃ raw, Closed raw ∧ text = raw ++ 34 :: rest ∧ out = readText raw := by
  fun_induction readChars text generalizing out rest with
  | case1 => cases h
  | case2 text =>
    cases h
    exact ⟨[], .nil, rfl, rfl⟩
  | case3 => cases h
  | case4 e text hquote ih =>
    obtain ⟨⟨out', rest'⟩, hread, heq⟩ := Option.map_eq_some_iff.mp h
    cases heq
    obtain ⟨raw, hraw, rfl, rfl⟩ := ih hread
    exact ⟨92 :: e :: raw, .escape hraw, rfl, (readText_escape e raw).symm⟩
  | case5 c text hquote hslash ih =>
    obtain ⟨⟨out', rest'⟩, hread, heq⟩ := Option.map_eq_some_iff.mp h
    cases heq
    obtain ⟨raw, hraw, rfl, rfl⟩ := ih hread
    exact ⟨c :: raw, .plain hquote hslash hraw, rfl, (readText_plain hslash raw).symm⟩

theorem readString_quote {raw : Bytes} (h : Closed raw) (rest : Bytes) :
    readString (34 :: (raw ++ 34 :: rest)) = some (readText raw, rest) :=
  readChars_closed h rest

theorem quote_of_readString {text out rest : Bytes} (h : readString text = some (out, rest)) :
    ∃ raw, Closed raw ∧ text = 34 :: (raw ++ 34 :: rest) ∧ out = readText raw := by
  cases text with
  | nil => cases h
  | cons c text =>
    rw [readString] at h
    split at h
    next hc =>
      subst hc
      obtain ⟨raw, hraw, rfl, rfl⟩ := closed_of_readChars h
      exact ⟨raw, hraw, rfl, rfl⟩
    next => cases h

/-! ## Blanks -/

/-- `skipSpace` stops at the first octet that is no blank. -/
theorem skipSpace_append {blank : Bytes} (h : AllIn isspace blank) {c : UInt8}
    (hc : isspace c = false) (rest : Bytes) : skipSpace (blank ++ c :: rest) = c :: rest := by
  rw [skipSpace, List.dropWhile_append_of_pos h, List.dropWhile_cons_of_neg (by simp [hc])]

/-- What `skipSpace` skips are blanks. -/
theorem skipSpace_eq {text rest : Bytes} (h : skipSpace text = rest) :
    ∃ blank, AllIn isspace blank ∧ text = blank ++ rest := by
  refine ⟨text.takeWhile isspace, fun c hc => List.mem_takeWhile_imp hc, ?_⟩
  rw [← h, skipSpace, List.takeWhile_append_dropWhile]

/-! ## Members -/

/-- One round of the loop reads one member and stops behind its blanks. -/
theorem parseMember_render {m : RawMember} (h : m.Within isspace Closed) {c : UInt8}
    (hc : isspace c = false) (rest : Bytes) :
    parseMember (m.render ++ c :: rest) =
      some ((readText m.key, readText m.value), c :: rest) := by
  rw [m.render_append, parseMember]
  simp only [skipSpace_append h.before separates_isspace.quote, readString_quote h.key,
    skipSpace_append h.afterKey separates_isspace.colon, ne_eq, not_true_eq_false, if_false,
    skipSpace_append h.beforeValue separates_isspace.quote, readString_quote h.value,
    skipSpace_append h.afterValue hc]

/-- What one round of the loop reads is one member. -/
theorem render_of_parseMember {text rest : Bytes} {member : Bytes × Bytes}
    (h : parseMember text = some (member, rest)) :
    ∃ m : RawMember, m.Within isspace Closed ∧ text = m.render ++ rest ∧
      member = (readText m.key, readText m.value) := by
  unfold parseMember at h
  split at h
  · cases h
  · rename_i key afterKey hkey
    split at h
    · cases h
    · rename_i colon afterColon hcolon
      split at h
      · cases h
      · rename_i hcolon_eq
        split at h
        · cases h
        · rename_i value afterValue hvalue
          rw [not_not] at hcolon_eq
          subst hcolon_eq
          simp only [Option.some.injEq, Prod.mk.injEq] at h
          obtain ⟨rfl, hrest⟩ := h
          obtain ⟨rawKey, hrawKey, hopen, rfl⟩ := quote_of_readString hkey
          obtain ⟨rawValue, hrawValue, hopenValue, rfl⟩ := quote_of_readString hvalue
          obtain ⟨before, hbefore, htext⟩ := skipSpace_eq hopen
          obtain ⟨gap, hgap, hafterKey⟩ := skipSpace_eq hcolon
          obtain ⟨gapValue, hgapValue, hafterColon⟩ := skipSpace_eq hopenValue
          obtain ⟨last, hlast, hafterValue⟩ := skipSpace_eq hrest
          refine ⟨⟨before, rawKey, gap, gapValue, rawValue, last⟩,
            ⟨hbefore, hrawKey, hgap, hgapValue, hrawValue, hlast⟩, ?_, rfl⟩
          rw [RawMember.render_append, htext, hafterKey, hafterColon, hafterValue]

/-! ## Objects -/

/-- The members as the reader takes them. -/
def readPair (raw : Bytes × Bytes) : Bytes × Bytes := (readText raw.1, readText raw.2)

/-- Stores members one after the other: the last of a key stays. -/
def storeAll (fields : Table) (members : List (Bytes × Bytes)) : Table :=
  members.foldl (fun fields member => fields.insert member.1 member.2) fields

/-- One round of the loop, by what is behind the member. -/
theorem parseMembers_step {text rest : Bytes} {key value : Bytes} {c : UInt8}
    (h : parseMember text = some ((key, value), c :: rest)) (fields : Table) :
    parseMembers fields text =
      if c = 44 then parseMembers (fields.insert key value) rest
      else if c = 125 then some (fields.insert key value)
      else none := by
  have hne : text ≠ [] := by
    rintro rfl
    cases h
  rw [parseMembers, if_neg hne]
  split
  next hnone =>
    rw [h] at hnone
    cases hnone
  next key' value' rest' hsome =>
    rw [h] at hsome
    cases hsome
    rfl

theorem parseMembers_render {rest : List RawMember} {first : RawMember}
    (h : ∀ m ∈ first :: rest, m.Within isspace Closed) (fields : Table) (tail : Bytes) :
    parseMembers fields (renderMembers first rest ++ 125 :: tail) =
      some (storeAll fields (((first :: rest).map fun m => (m.key, m.value)).map readPair)) := by
  have hfirst := h first List.mem_cons_self
  induction rest generalizing first fields with
  | nil =>
    rw [renderMembers, parseMembers_step (parseMember_render hfirst separates_isspace.closing tail)]
    rfl
  | cons next rest ih =>
    have hrest : ∀ m ∈ next :: rest, m.Within isspace Closed :=
      fun m hm => h m (List.mem_cons_of_mem first hm)
    rw [renderMembers, List.append_assoc, List.cons_append,
      parseMembers_step (parseMember_render hfirst separates_isspace.comma _), if_pos rfl,
      ih hrest _ (hrest next List.mem_cons_self)]
    rfl

theorem members_of_parseMembers {fields result : Table} {text : Bytes}
    (h : parseMembers fields text = some result) :
    ∃ first rest tail, text = renderMembers first rest ++ 125 :: tail ∧
      (∀ m ∈ first :: rest, m.Within isspace Closed) ∧
      result = storeAll fields (((first :: rest).map fun m => (m.key, m.value)).map readPair) := by
  fun_induction parseMembers fields text generalizing result with
  | case1 => cases h
  | case2 => cases h
  | case3 fields text hne key value hmember => cases h
  | case4 fields text hne key value stored rest hmember =>
    rename_i ih
    obtain ⟨m, hm, rfl, heq⟩ := render_of_parseMember hmember
    obtain ⟨first, more, tail, rfl, hmore, rfl⟩ := ih h
    cases heq
    refine ⟨m, first :: more, tail, ?_, List.forall_mem_cons.mpr ⟨hm, hmore⟩, rfl⟩
    rw [renderMembers, List.append_assoc, List.cons_append]
  | case5 fields text hne key value stored rest hmember hcomma =>
    obtain ⟨m, hm, rfl, heq⟩ := render_of_parseMember hmember
    cases heq
    exact ⟨m, [], rest, rfl, List.forall_mem_singleton.mpr hm, (Option.some.inj h).symm⟩
  | case6 => cases h

/-- Behind the opening brace. -/
theorem parseFlatJson_opening {text after : Bytes} (h : skipSpace text = 123 :: after) :
    parseFlatJson text =
      if (skipSpace after).head? = some 125 then (∅, true)
      else
        match parseMembers ∅ (skipSpace after) with
        | some fields => (fields, true)
        | none => (∅, false) := by
  rw [parseFlatJson, h]
  rfl

/-- A text that begins with a flat object in the lax sense is accepted. -/
theorem parseFlatJson_of_reading {text lead rest : Bytes} {object : RawObject}
    (h : LaxReading text lead object rest) :
    parseFlatJson text = (storeAll ∅ (object.pairs.map readPair), true) := by
  have htext := h.text_eq
  cases object with
  | empty blank =>
    have hblank : AllIn isspace blank := h.object
    simp only [RawObject.render, List.append_assoc, List.cons_append, List.nil_append] at htext
    have hopen := skipSpace_append h.lead separates_isspace.opening (blank ++ 125 :: rest)
    rw [← htext] at hopen
    rw [parseFlatJson_opening hopen, skipSpace_append hblank separates_isspace.closing]
    rfl
  | members first more =>
    have hwithin : ∀ m ∈ first :: more, m.Within isspace Closed := h.object
    obtain ⟨hfirst, hmore⟩ := List.forall_mem_cons.mp hwithin
    -- The blanks in front of the first member are skipped before the loop.
    let bare : RawMember := { first with before := [] }
    have hbare : ∀ m ∈ bare :: more, m.Within isspace Closed :=
      List.forall_mem_cons.mpr ⟨⟨(List.forall_mem_nil _), hfirst.key, hfirst.afterKey,
        hfirst.beforeValue, hfirst.value, hfirst.afterValue⟩, hmore⟩
    have hfront : renderMembers first more = first.before ++ renderMembers bare more := by
      rw [← renderMembers_behind, List.append_nil]
    obtain ⟨tail, hhead⟩ := renderMembers_head bare more
    have hhead : renderMembers bare more = 34 :: tail := hhead
    simp only [RawObject.render, List.append_assoc, List.cons_append, List.nil_append] at htext
    have hopen := skipSpace_append h.lead separates_isspace.opening
      (renderMembers first more ++ 125 :: rest)
    have hskip : skipSpace (renderMembers first more ++ 125 :: rest) =
        renderMembers bare more ++ 125 :: rest := by
      rw [hfront, List.append_assoc, hhead, List.cons_append]
      exact skipSpace_append hfirst.before separates_isspace.quote _
    rw [← htext] at hopen
    rw [parseFlatJson_opening hopen, hskip, parseMembers_render hbare, hhead]
    rfl

/-- A text that is accepted begins with a flat object in the lax sense. -/
theorem reading_of_parseFlatJson {text : Bytes} (h : (parseFlatJson text).2 = true) :
    ∃ lead object rest, LaxReading text lead object rest := by
  cases hopen : skipSpace text with
  | nil =>
    rw [parseFlatJson, hopen] at h
    cases h
  | cons c after =>
    obtain ⟨lead, hlead, htext⟩ := skipSpace_eq hopen
    by_cases hc : c = 123
    · subst hc
      rw [parseFlatJson_opening hopen] at h
      split at h
      next hhead =>
        cases hskip : skipSpace after with
        | nil =>
          rw [hskip] at hhead
          cases hhead
        | cons d rest =>
          rw [hskip] at hhead
          obtain rfl : d = 125 := Option.some.inj hhead
          obtain ⟨blank, hblank, rfl⟩ := skipSpace_eq hskip
          refine ⟨lead, .empty blank, rest, ⟨?_, hlead, hblank⟩⟩
          rw [htext]
          simp only [RawObject.render, List.append_assoc, List.cons_append, List.nil_append]
      next hhead =>
        split at h
        next fields hmembers =>
          obtain ⟨first, more, rest, hrest, hwithin, -⟩ := members_of_parseMembers hmembers
          obtain ⟨hfirst, hmore⟩ := List.forall_mem_cons.mp hwithin
          obtain ⟨blank, hblank, rfl⟩ := skipSpace_eq hrest
          let behind : RawMember := { first with before := blank ++ first.before }
          have hbehind : behind.Within isspace Closed := by
            refine ⟨?_, hfirst.key, hfirst.afterKey, hfirst.beforeValue, hfirst.value,
              hfirst.afterValue⟩
            exact List.forall_mem_append.mpr ⟨hblank, hfirst.before⟩
          refine ⟨lead, .members behind more, rest,
            ⟨?_, hlead, List.forall_mem_cons.mpr ⟨hbehind, hmore⟩⟩⟩
          rw [htext]
          simp only [RawObject.render, behind, renderMembers_behind, List.append_assoc,
            List.cons_append, List.nil_append]
        next => cases h
    · rw [parseFlatJson, hopen] at h
      simp only [ne_eq, hc, not_false_eq_true, if_true] at h
      cases h

/-- A refused text gets the empty map. -/
theorem parseFlatJson_false {text : Bytes} (h : (parseFlatJson text).2 = false) :
    parseFlatJson text = (∅, false) := by
  cases hopen : skipSpace text with
  | nil => rw [parseFlatJson, hopen]
  | cons c after =>
    by_cases hc : c = 123
    · subst hc
      rw [parseFlatJson_opening hopen] at h ⊢
      split at h
      next => cases h
      next hhead =>
        rw [if_neg hhead]
        split at h
        next => cases h
        next hnone => rfl
    · rw [parseFlatJson, hopen]
      simp only [ne_eq, hc, not_false_eq_true, if_true]

/-! ## What the reader is for -/

/-- The members as the RFC decodes them. -/
def decodePair (raw : Bytes × Bytes) : Bytes × Bytes :=
  ((unescape raw.1).getD [], (unescape raw.2).getD [])

/-- The reader decodes the JSON objects of strings, the last of a key counting,
and refuses every other text. -/
structure Conforms (text : Bytes) : Prop where
  accepts : ∀ members, FlatText members text → parseFlatJson text = (storeAll ∅ members, true)
  refuses : (∀ members, ¬ FlatText members text) → parseFlatJson text = (∅, false)

/-- A lax reading that the RFC allows: the blanks are JSON's, the strings are
literals, there is nothing but blanks behind the object, and it makes no
difference that `\b`, `\f` and `\u` and its digits are read as letters. -/
structure Strict (lead : Bytes) (object : RawObject) (rest : Bytes) : Prop where
  lead_blank : IsBlank lead
  within : object.Within isWs IsLiteral
  rest_blank : IsBlank rest
  letters : storeAll ∅ (object.pairs.map readPair) = storeAll ∅ (object.pairs.map decodePair)

theorem isspace_of_isWs {c : UInt8} (h : isWs c = true) : isspace c = true := by
  simp only [isWs, Bool.or_eq_true, beq_iff_eq] at h
  rcases h with ((rfl | rfl) | rfl) | rfl <;> rfl

theorem lax_blank {text : Bytes} (h : IsBlank text) : AllIn isspace text :=
  fun c hc => isspace_of_isWs (h c hc)

theorem lax_member {m : RawMember} (h : m.Within isWs IsLiteral) : m.Within isspace Closed where
  before := lax_blank h.before
  key := h.key.closed
  afterKey := lax_blank h.afterKey
  beforeValue := lax_blank h.beforeValue
  value := h.value.closed
  afterValue := lax_blank h.afterValue

/-- A reading the RFC allows is a lax reading. -/
theorem lax_reading {text lead rest : Bytes} {object : RawObject}
    (h : Reading isWs IsLiteral text lead object rest) : LaxReading text lead object rest := by
  refine ⟨h.text_eq, lax_blank h.lead, ?_⟩
  have hobject := h.object
  cases object with
  | empty blank => exact lax_blank hobject
  | members first more => exact fun m hm => lax_member (hobject m hm)

/-- The decoded members are determined by what is written. -/
theorem decodes_eq {pairs members : List (Bytes × Bytes)} (h : List.Forall₂ Decodes pairs members) :
    members = pairs.map decodePair := by
  induction h with
  | nil => rfl
  | @cons raw member _ _ hmember _ ih =>
    rw [List.map_cons, ← ih, decodePair, hmember.1, hmember.2]
    rfl

/-- Literals are decoded. -/
theorem decodes_of_within {object : RawObject} (h : object.Within isWs IsLiteral) :
    List.Forall₂ Decodes object.pairs (object.pairs.map decodePair) := by
  rw [List.forall₂_map_right_iff, List.forall₂_same]
  intro raw hraw
  cases object with
  | empty blank => cases hraw
  | members first more =>
    obtain ⟨m, hm, rfl⟩ := List.mem_map.mp hraw
    obtain ⟨key, hkey⟩ := (h m hm).key
    obtain ⟨value, hvalue⟩ := (h m hm).value
    simp only [Decodes, decodePair, hkey, hvalue, Option.getD_some, and_self]

/-- A string without the escapes `\b`, `\f` and `\u`. -/
inductive PlainEscapes : Bytes → Prop where
  | nil : PlainEscapes []
  | escape {e : UInt8} {raw : Bytes} : e ≠ 98 → e ≠ 102 → e ≠ 117 → PlainEscapes raw →
      PlainEscapes (92 :: e :: raw)
  | plain {c : UInt8} {raw : Bytes} : c ≠ 92 → PlainEscapes raw → PlainEscapes (c :: raw)

/-- The other escapes are the same to the reader and to the RFC. -/
theorem readEscape_eq {e c : UInt8} (hb : e ≠ 98) (hf : e ≠ 102) (h : escaped e = some c) :
    readEscape e = c := by
  unfold escaped at h
  unfold readEscape
  grind

/-- The reader decodes such a literal. -/
theorem readText_of_literal {raw : Bytes} {is : List Item} (literal : Literal raw is)
    (plain : PlainEscapes raw) : readText raw = encode is := by
  induction literal with
  | nil => rfl
  | unit =>
    cases plain with
    | escape _ _ hu => exact absurd rfl hu
    | plain hslash => exact absurd rfl hslash
  | escaped _ he _ ih =>
    cases plain with
    | escape hb hf _ hrest => rw [readText_escape, readEscape_eq hb hf he, ih hrest, encode]
    | plain hslash => exact absurd rfl hslash
  | plain hslash _ _ ih =>
    cases plain with
    | escape => exact absurd rfl hslash
    | plain _ hrest => rw [readText_plain hslash, ih hrest, encode]

theorem readText_of_plainEscapes {raw text : Bytes} (h : unescape raw = some text)
    (plain : PlainEscapes raw) : readText raw = text := by
  obtain ⟨is, his, rfl⟩ := Option.map_eq_some_iff.mp h
  exact readText_of_literal (literal_of_items his) plain

/-- In particular a reading whose strings have none of the three escapes is strict, whatever
its keys are. -/
theorem Strict.of_plainEscapes {lead rest : Bytes} {object : RawObject} (lead_blank : IsBlank lead)
    (within : object.Within isWs IsLiteral) (rest_blank : IsBlank rest)
    (plain : ∀ pair ∈ object.pairs, PlainEscapes pair.1 ∧ PlainEscapes pair.2) :
    Strict lead object rest where
  lead_blank := lead_blank
  within := within
  rest_blank := rest_blank
  letters := by
    refine congrArg (storeAll ∅) (List.map_congr_left fun pair hpair => ?_)
    have decodes := decodes_of_within within
    rw [List.forall₂_map_right_iff, List.forall₂_same] at decodes
    obtain ⟨key, value⟩ := decodes pair hpair
    obtain ⟨plainKey, plainValue⟩ := plain pair hpair
    exact Prod.ext (readText_of_plainEscapes key plainKey)
      (readText_of_plainEscapes value plainValue)

/-- A JSON object of strings has the lax reading that spells it. -/
theorem reading_of_flatText {members : List (Bytes × Bytes)} {text : Bytes}
    (h : FlatText members text) :
    ∃ lead object rest, LaxReading text lead object rest ∧ IsBlank lead ∧
      object.Within isWs IsLiteral ∧ IsBlank rest ∧ members = object.pairs.map decodePair := by
  obtain ⟨lead, object, rest, hreading, hrest, hdecodes⟩ := flatText_iff.mp h
  exact ⟨lead, object, rest, lax_reading hreading, hreading.lead, hreading.object, hrest,
    decodes_eq hdecodes⟩

/-- The reader does what it is for exactly on the texts whose lax reading, if they
have one, the RFC allows. -/
theorem conforms_iff (text : Bytes) :
    Conforms text ↔
      ∀ lead object rest, LaxReading text lead object rest → Strict lead object rest := by
  constructor
  · intro h lead object rest hreading
    have haccepted := parseFlatJson_of_reading hreading
    by_cases hflat : ∃ members, FlatText members text
    · obtain ⟨members, hmembers⟩ := hflat
      have htable := h.accepts members hmembers
      obtain ⟨lead', object', rest', hreading', hlead, hobject, hrest, rfl⟩ :=
        reading_of_flatText hmembers
      obtain ⟨rfl, rfl, rfl⟩ := hreading.unique separates_isspace hreading'
      exact ⟨hlead, hobject, hrest, (Prod.mk.inj (haccepted.symm.trans htable)).1⟩
    · have hrefused := h.refuses fun members hmembers => hflat ⟨members, hmembers⟩
      cases (Prod.mk.inj (haccepted.symm.trans hrefused)).2
  · intro hstrict
    constructor
    · intro members hmembers
      obtain ⟨lead, object, rest, hreading, -, -, -, rfl⟩ := reading_of_flatText hmembers
      rw [parseFlatJson_of_reading hreading, (hstrict lead object rest hreading).letters]
    · intro hnone
      cases haccepted : (parseFlatJson text).2 with
      | false => exact parseFlatJson_false haccepted
      | true =>
        obtain ⟨lead, object, rest, hreading⟩ := reading_of_parseFlatJson haccepted
        obtain ⟨hlead, hobject, hrest, -⟩ := hstrict lead object rest hreading
        exact absurd (flatText_iff.mpr ⟨lead, object, rest, ⟨hreading.text_eq, hlead, hobject⟩,
          hrest, decodes_of_within hobject⟩) (hnone _)

/-- Text behind the closing brace is accepted, and a code unit escape is read as
letters. -/
theorem not_conforms :
    ¬ Conforms (ascii "\x7b\x7dx") ∧ ¬ Conforms (ascii "\x7b\"a\":\"\\u0041\"\x7d") := by
  constructor
  · intro h
    have hreading : LaxReading (ascii "\x7b\x7dx") [] (.empty []) (ascii "x") :=
      ⟨rfl, (List.forall_mem_nil _), (List.forall_mem_nil _)⟩
    have hrefused := h.refuses fun members hmembers => by
      obtain ⟨lead, object, rest, hreading', -, -, hrest, -⟩ := reading_of_flatText hmembers
      obtain ⟨-, -, rfl⟩ := hreading.unique separates_isspace hreading'
      exact absurd (hrest 120 List.mem_cons_self) (by decide)
    cases (Prod.mk.inj ((parseFlatJson_of_reading hreading).symm.trans hrefused)).2
  · intro h
    let member : RawMember := ⟨[], ascii "a", [], [], ascii "\\u0041", []⟩
    have hstring : unescape (ascii "\\u0041") = some (ascii "A") := by decide +kernel
    have hkey : unescape (ascii "a") = some (ascii "a") := unescape_self (by decide +kernel)
    have hwithin : member.Within isWs IsLiteral :=
      ⟨isBlank_nil, ⟨_, hkey⟩, isBlank_nil, isBlank_nil, ⟨_, hstring⟩, isBlank_nil⟩
    have hreading : Reading isWs IsLiteral (ascii "\x7b\"a\":\"\\u0041\"\x7d") []
        (.members member []) [] :=
      ⟨rfl, isBlank_nil, List.forall_mem_singleton.mpr hwithin⟩
    have hflat : FlatText [(ascii "a", ascii "A")] (ascii "\x7b\"a\":\"\\u0041\"\x7d") :=
      flatText_iff.mpr ⟨_, _, _, hreading, isBlank_nil, .cons ⟨hkey, hstring⟩ .nil⟩
    have htable := (parseFlatJson_of_reading (lax_reading hreading)).symm.trans (h.accepts _ hflat)
    have hvalue := congrArg (fun result => result.1[ascii "a"]?) htable
    exact absurd hvalue (by decide +kernel)

end WebServer
