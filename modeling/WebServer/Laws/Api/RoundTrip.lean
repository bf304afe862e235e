import WebServer.Base.Entries
import WebServer.Laws.Api.FlatJson

/-!
# The reader undoes the escaper

What `jsonEscape` writes has no quotation mark that a backslash does not hide, so
`readString` stops where it should (`closed_jsonEscape`), and the reader takes
back one escape after the other (`readText_jsonEscape`). The exceptions are the
control characters that are written as code units: `readString` takes those for
letters. So a map whose texts hold none of them comes back from an object of its
escaped entries, in any order and with any blanks (`parseFlatJson_of_writes`).
-/

namespace WebServer

open Base Json

/-- The octets that the reader takes back: all but the control characters other than
tab, line feed and carriage return. -/
def ReadsBack (c : UInt8) : Prop := 32 ≤ c ∨ c = 9 ∨ c = 10 ∨ c = 13

instance (c : UInt8) : Decidable (ReadsBack c) := inferInstanceAs (Decidable (_ ∨ _))

/-- What is written for such an octet is the octet, or an escape of two characters. -/
theorem jsonEscapeChar_cases {c : UInt8} (h : ReadsBack c) :
    (∃ e, jsonEscapeChar c = [92, e] ∧ readEscape e = c) ∨
      c ≠ 34 ∧ c ≠ 92 ∧ jsonEscapeChar c = [c] := by
  by_cases hquote : c = 34
  · subst hquote
    exact .inl ⟨34, rfl, rfl⟩
  by_cases hslash : c = 92
  · subst hslash
    exact .inl ⟨92, rfl, rfl⟩
  by_cases hfeed : c = 10
  · subst hfeed
    exact .inl ⟨110, rfl, rfl⟩
  by_cases hreturn : c = 13
  · subst hreturn
    exact .inl ⟨114, rfl, rfl⟩
  by_cases htab : c = 9
  · subst htab
    exact .inl ⟨116, rfl, rfl⟩
  have hcontrol : ¬ c < 32 := by
    rcases h with h | h | h | h
    · exact UInt8.not_lt.mpr h
    · exact absurd h htab
    · exact absurd h hfeed
    · exact absurd h hreturn
  right
  unfold jsonEscapeChar
  simp only [if_neg hquote, if_neg hslash, if_neg hfeed, if_neg hreturn, if_neg htab,
    if_neg hcontrol]
  exact ⟨hquote, hslash, trivial⟩

variable {text : Bytes}

theorem jsonEscape_cons (c : UInt8) (text : Bytes) :
    jsonEscape (c :: text) = jsonEscapeChar c ++ jsonEscape text :=
  List.flatMap_cons

/-- No quotation mark in an escaped text ends it. -/
theorem closed_jsonEscape (h : ∀ c ∈ text, ReadsBack c) : Closed (jsonEscape text) := by
  induction text with
  | nil => exact .nil
  | cons c text ih =>
    obtain ⟨hc, htext⟩ := List.forall_mem_cons.mp h
    rw [jsonEscape_cons]
    rcases jsonEscapeChar_cases hc with ⟨e, hwritten, -⟩ | ⟨hquote, hslash, hwritten⟩
    · rw [hwritten]
      exact .escape (ih htext)
    · rw [hwritten]
      exact .plain hquote hslash (ih htext)

/-- The reader decodes an escaped text to the text. -/
theorem readText_jsonEscape (h : ∀ c ∈ text, ReadsBack c) : readText (jsonEscape text) = text := by
  induction text with
  | nil => rfl
  | cons c text ih =>
    obtain ⟨hc, htext⟩ := List.forall_mem_cons.mp h
    rw [jsonEscape_cons]
    rcases jsonEscapeChar_cases hc with ⟨e, hwritten, hread⟩ | ⟨-, hslash, hwritten⟩
    · rw [hwritten, List.cons_append, List.singleton_append, readText_escape, hread, ih htext]
    · rw [hwritten, List.singleton_append, readText_plain hslash, ih htext]

/-! ## Objects -/

/-- An entry as it stands between quotation marks. -/
def escapePair (entry : Bytes × Bytes) : Bytes × Bytes := (jsonEscape entry.1, jsonEscape entry.2)

/-- The text is an object with a member for each entry, its key and value escaped, and
any blanks in front of the tokens. -/
def Writes (text : Bytes) (entries : List (Bytes × Bytes)) : Prop :=
  ∃ (lead : Bytes) (object : RawObject), text = lead ++ object.render ∧ AllIn isspace lead ∧
    object.Within isspace (fun _ => True) ∧ object.pairs = entries.map escapePair

/-- Both texts of an entry hold what the reader takes back. -/
def EntryReadsBack (entry : Bytes × Bytes) : Prop :=
  (∀ c ∈ entry.1, ReadsBack c) ∧ ∀ c ∈ entry.2, ReadsBack c

instance (entry : Bytes × Bytes) : Decidable (EntryReadsBack entry) :=
  inferInstanceAs (Decidable (_ ∧ _))

theorem readPair_escapePair {entry : Bytes × Bytes} (h : EntryReadsBack entry) :
    readPair (escapePair entry) = entry := by
  rw [readPair, escapePair, readText_jsonEscape h.1, readText_jsonEscape h.2]

/-- An object of escaped entries is read as a lax reader should. -/
theorem closed_within {object : RawObject} {entries : List (Bytes × Bytes)}
    (h : object.Within isspace fun _ => True) (pairs : object.pairs = entries.map escapePair)
    (back : ∀ entry ∈ entries, EntryReadsBack entry) : object.Within isspace Closed := by
  cases object with
  | empty blank => exact h
  | members first rest =>
    intro m hm
    have hpair : (m.key, m.value) ∈ entries.map escapePair := by
      rw [← pairs]
      exact List.mem_map_of_mem hm
    obtain ⟨entry, hentry, heq⟩ := List.mem_map.mp hpair
    obtain ⟨hkey, hvalue⟩ := Prod.mk.inj heq
    obtain ⟨hbackKey, hbackValue⟩ := back entry hentry
    have hblanks := h m hm
    exact ⟨hblanks.before, hkey ▸ closed_jsonEscape hbackKey, hblanks.afterKey,
      hblanks.beforeValue, hvalue ▸ closed_jsonEscape hbackValue, hblanks.afterValue⟩

/-- The reader gives back the map whose entries were written. -/
theorem parseFlatJson_of_writes {map : Table} {entries : List (Bytes × Bytes)} {text : Bytes}
    (order : EntriesOf map entries) (back : ∀ entry ∈ entries, EntryReadsBack entry)
    (written : Writes text entries) : parseFlatJson text = (map, true) := by
  obtain ⟨lead, object, htext, hlead, hobject, hpairs⟩ := written
  have hreading : LaxReading text lead object [] :=
    ⟨by rw [htext, List.append_nil], hlead, closed_within hobject hpairs back⟩
  have hread : object.pairs.map readPair = entries := by
    rw [hpairs, List.map_map]
    exact (List.map_congr_left fun entry hentry => readPair_escapePair (back entry hentry)).trans
      (List.map_id entries)
  have hstored : storeAll ∅ entries = map := by
    rw [← order.ofList_eq, Std.ExtTreeMap.ofList_eq_foldl]
    rfl
  rw [parseFlatJson_of_reading hreading, hread, hstored]

/-- A key that ends in backslashes, and a value with a quotation mark and a line feed. -/
theorem parseFlatJson_of_writes_one :
    parseFlatJson (ascii " \x7b\"k\\\\\\\\\"\n:\"\\\"\\n\" \x7d") =
      (Std.ExtTreeMap.ofList [(ascii "k\\\\", ascii "\"\n")] compare, true) := by
  have order : EntriesOf (Std.ExtTreeMap.ofList [(ascii "k\\\\", ascii "\"\n")] compare)
      [(ascii "k\\\\", ascii "\"\n")] := by
    unfold EntriesOf
    decide +kernel
  let member : RawMember :=
    ⟨[], jsonEscape (ascii "k\\\\"), [10], [], jsonEscape (ascii "\"\n"), [32]⟩
  have hwithin : member.Within isspace fun _ => True :=
    ⟨List.forall_mem_nil _, trivial, List.forall_mem_singleton.mpr rfl, List.forall_mem_nil _,
      trivial, List.forall_mem_singleton.mpr rfl⟩
  have htext : ascii " \x7b\"k\\\\\\\\\"\n:\"\\\"\\n\" \x7d" =
      [32] ++ (RawObject.members member []).render := by
    decide +kernel
  exact parseFlatJson_of_writes order (by decide +kernel) ⟨[32], .members member [], htext,
    List.forall_mem_singleton.mpr rfl, List.forall_mem_singleton.mpr hwithin, rfl⟩

end WebServer
