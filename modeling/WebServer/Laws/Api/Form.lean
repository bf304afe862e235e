import WebServer.Base.Entries
import WebServer.Laws.Http.Query

/-!
# A form gives back what was written into it

`parseFormEncoded` cuts a text at the ampersands and each segment at its first
equals sign before it decodes anything. So what matters of an encoded text is that
it holds neither of the two, however its octets are spelled (`not_mem`), and that
the decoder takes one spelling after the other off its front
(`urlDecode_spelling`): a form that names each entry of a map once, in any order,
is read as the map (`parseFormEncoded_of_segments`).
-/

namespace WebServer

open Base

/-! ## Spellings -/

/-- The ways to write an octet in a form. -/
inductive Spelling : UInt8 → Bytes → Prop where
  | literal {c : UInt8} : c ≠ 37 → c ≠ 43 → c ≠ 38 → c ≠ 61 → Spelling c [c]
  | escape {c high low : UInt8} : isxdigit high = true → isxdigit low = true →
      c.toNat = 16 * hexValue high + hexValue low → Spelling c [37, high, low]
  | plus : Spelling 32 [43]

/-- A text and a way to write it. -/
inductive FormEncodes : Bytes → Bytes → Prop where
  | nil : FormEncodes [] []
  | cons {c : UInt8} {spelled text encoded : Bytes} :
      Spelling c spelled → FormEncodes text encoded → FormEncodes (c :: text) (spelled ++ encoded)

/-- The decoder takes one spelling off the front of the text. -/
theorem urlDecode_spelling {c : UInt8} {spelled : Bytes} (h : Spelling c spelled) (rest : Bytes) :
    urlDecode (spelled ++ rest) = c :: urlDecode rest := by
  cases h with
  | literal hpercent hplus _ _ =>
    rw [List.singleton_append, urlDecode.eq_def]
    simp only [if_neg hplus, if_neg hpercent]
  | escape hhigh hlow hvalue =>
    simp only [List.cons_append, List.nil_append]
    rw [urlDecode.eq_def]
    simp [hhigh, hlow, ← hvalue]
  | plus =>
    rw [List.singleton_append, urlDecode.eq_def]
    simp only [if_true]

/-- No spelling holds a separator. -/
theorem Spelling.not_mem {c : UInt8} {spelled : Bytes} (h : Spelling c spelled) {separator : UInt8}
    (hs : separator = 38 ∨ separator = 61) : separator ∉ spelled := by
  have hdigit : isxdigit separator = false := by
    rcases hs with rfl | rfl <;> rfl
  have hpercent : separator ≠ 37 := by
    rcases hs with rfl | rfl <;> decide
  cases h with
  | literal _ _ hamp hequals =>
    intro hmem
    obtain rfl := List.mem_singleton.mp hmem
    exact hs.elim hamp hequals
  | escape hhigh hlow _ =>
    intro hmem
    simp only [List.mem_cons, List.not_mem_nil, or_false] at hmem
    rcases hmem with heq | rfl | rfl
    · exact hpercent heq
    · exact absurd (hdigit.symm.trans hhigh) Bool.false_ne_true
    · exact absurd (hdigit.symm.trans hlow) Bool.false_ne_true
  | plus =>
    intro hmem
    obtain rfl := List.mem_singleton.mp hmem
    exact absurd hs (by decide)

namespace FormEncodes

variable {text encoded : Bytes}

theorem urlDecode_eq (h : FormEncodes text encoded) : urlDecode encoded = text := by
  induction h with
  | nil => rfl
  | cons hc _ ih => rw [urlDecode_spelling hc, ih]

theorem not_mem (h : FormEncodes text encoded) {separator : UInt8}
    (hs : separator = 38 ∨ separator = 61) : separator ∉ encoded := by
  induction h with
  | nil => exact List.not_mem_nil
  | cons hc _ ih =>
    intro hmem
    exact (List.mem_append.mp hmem).elim (hc.not_mem hs) ih

end FormEncodes

/-! ## Segments -/

/-- The segments of a form with these entries: a field for each of them, and around
the fields anything that holds no equals sign. -/
inductive FormSegments : List (Bytes × Bytes) → List Bytes → Prop where
  | nil : FormSegments [] []
  | skip {entries : List (Bytes × Bytes)} {segment : Bytes} {segments : List Bytes} :
      61 ∉ segment → 38 ∉ segment → FormSegments entries segments →
      FormSegments entries (segment :: segments)
  | field {entries : List (Bytes × Bytes)} {name value encodedName encodedValue : Bytes}
      {segments : List Bytes} :
      FormEncodes name encodedName → FormEncodes value encodedValue →
      FormSegments entries segments →
      FormSegments ((name, value) :: entries) ((encodedName ++ 61 :: encodedValue) :: segments)

/-- A field as the reader takes it. -/
def decodeField (field : Bytes × Bytes) : Bytes × Bytes := (urlDecode field.1, urlDecode field.2)

/-- The map is made of the decoded fields. -/
theorem parseFormEncoded_eq_ofList (text : Bytes) :
    parseFormEncoded text =
      Std.ExtTreeMap.ofList ((formFields text).map decodeField) compare := by
  rw [parseFormEncoded_eq, Std.ExtTreeMap.ofList_eq_foldl, List.foldl_map]
  rfl

theorem cutField_of_not_mem {segment : Bytes} (h : 61 ∉ segment) : cutField segment = none := by
  rw [cutField, find_single_eq_none.mpr h]
  rfl

/-- The first equals sign ends the name. -/
theorem cutField_append {name : Bytes} (h : 61 ∉ name) (value : Bytes) :
    cutField (name ++ 61 :: value) = some (name, value) := by
  rw [cutField, find_single_of_not_mem value h]
  simp

/-- Segments without ampersands are what a form of them is cut into. -/
theorem formFields_intercalate {segments : List Bytes} (h : ∀ segment ∈ segments, 38 ∉ segment) :
    formFields ([38].intercalate segments) = segments.filterMap cutField := by
  by_cases hnil : segments = []
  · subst hnil
    rfl
  · rw [formFields, List.splitOn_intercalate 38 h hnil]

namespace FormSegments

variable {entries : List (Bytes × Bytes)} {segments : List Bytes}

theorem not_mem (h : FormSegments entries segments) : ∀ segment ∈ segments, 38 ∉ segment := by
  induction h with
  | nil => exact List.forall_mem_nil _
  | skip _ hamp _ ih => exact List.forall_mem_cons.mpr ⟨hamp, ih⟩
  | field hname hvalue _ ih =>
    refine List.forall_mem_cons.mpr ⟨?_, ih⟩
    rw [List.mem_append, List.mem_cons, not_or, not_or]
    exact ⟨hname.not_mem (.inl rfl), by decide, hvalue.not_mem (.inl rfl)⟩

/-- The fields of the segments are decoded to the entries. -/
theorem decode (h : FormSegments entries segments) :
    (segments.filterMap cutField).map decodeField = entries := by
  induction h with
  | nil => rfl
  | skip hequals _ _ ih => rw [List.filterMap_cons_none (cutField_of_not_mem hequals), ih]
  | field hname hvalue _ ih =>
    rw [List.filterMap_cons_some (cutField_append (hname.not_mem (.inr rfl)) _), List.map_cons, ih,
      decodeField, hname.urlDecode_eq, hvalue.urlDecode_eq]

end FormSegments

/-- A form that names the entries of a map is read as the map. -/
theorem parseFormEncoded_of_segments {map : Table} {entries : List (Bytes × Bytes)}
    {segments : List Bytes} (order : EntriesOf map entries)
    (written : FormSegments entries segments) :
    parseFormEncoded ([38].intercalate segments) = map := by
  rw [parseFormEncoded_eq_ofList, formFields_intercalate written.not_mem, written.decode,
    order.ofList_eq]

/-- A map with two entries, the greater name written first. -/
theorem parseFormEncoded_of_segments_two :
    parseFormEncoded (ascii "&a+b=&x&%3d=1+%2B") =
      Std.ExtTreeMap.ofList [(ascii "=", ascii "1 +"), (ascii "a b", [])] compare := by
  have literal {c : UInt8} (h : c ≠ 37 ∧ c ≠ 43 ∧ c ≠ 38 ∧ c ≠ 61) : Spelling c [c] :=
    .literal h.1 h.2.1 h.2.2.1 h.2.2.2
  have hspaced : FormEncodes [97, 32, 98] [97, 43, 98] :=
    .cons (literal (by decide)) (.cons .plus (.cons (literal (by decide)) .nil))
  have hname : FormEncodes [61] [37, 51, 100] := .cons (.escape rfl rfl rfl) .nil
  have hvalue : FormEncodes [49, 32, 43] [49, 43, 37, 50, 66] :=
    .cons (literal (by decide)) (.cons .plus (.cons (.escape rfl rfl rfl) .nil))
  have written : FormSegments [([97, 32, 98], []), ([61], [49, 32, 43])]
      [[], [97, 43, 98, 61], [120], [37, 51, 100, 61, 49, 43, 37, 50, 66]] :=
    .skip (by decide) (by decide) (.field hspaced .nil (.skip (by decide) (by decide)
      (.field hname hvalue .nil)))
  have order : EntriesOf
      (Std.ExtTreeMap.ofList [(ascii "=", ascii "1 +"), (ascii "a b", [])] compare)
      [([97, 32, 98], []), ([61], [49, 32, 43])] := by
    unfold EntriesOf
    decide +kernel
  have htext : ascii "&a+b=&x&%3d=1+%2B" =
      [38].intercalate [[], [97, 43, 98, 61], [120], [37, 51, 100, 61, 49, 43, 37, 50, 66]] := by
    decide +kernel
  rw [htext]
  exact parseFormEncoded_of_segments order written

end WebServer
