import Std.Data.ExtTreeMap
import WebServer.Base.CLib

/-!
# The API's readers and its escaper

`jsonEscape`, `urlDecode`, `parseFormEncoded` and `parseFlatJson` of
`src/api.cpp`. The scanners of the source move an index `i` over the text; here
they are given what is behind it, `text.substr(i)`, and return the same.
-/

namespace WebServer

open Base

/-- `std::map<std::string, std::string>`, ordered by octets. -/
abbrev Table := Std.ExtTreeMap Bytes Bytes compare

/-- A number as `operator<<` writes it after `std::hex`. -/
def hexadecimal (n : Nat) : Bytes := (Nat.toDigits 16 n).map fun c => UInt8.ofNat c.toNat

/-- What `jsonEscape` writes for one character. -/
def jsonEscapeChar (character : UInt8) : Bytes :=
  if character = 34 then ascii "\\\""
  else if character = 92 then ascii "\\\\"
  else if character = 10 then ascii "\\n"
  else if character = 13 then ascii "\\r"
  else if character = 9 then ascii "\\t"
  else if character < 32 then ascii "\\u00" ++ hexadecimal character.toNat
  else [character]

def jsonEscape (text : Bytes) : Bytes := text.flatMap jsonEscapeChar

/-- The value of a hexadecimal digit; `std::stoi` at base sixteen reads two. -/
def hexValue (c : UInt8) : Nat :=
  if isdigit c then c.toNat - 48 else (tolower c).toNat - 87

def urlDecode : Bytes → Bytes
  | [] => []
  | c :: text =>
    if c = 43 then 32 :: urlDecode text
    else if c = 37 then
      match text with
      | [] => [c]
      | [d] => c :: urlDecode [d]
      | high :: low :: rest =>
        if isxdigit high && isxdigit low then
          UInt8.ofNat (16 * hexValue high + hexValue low) :: urlDecode rest
        else c :: urlDecode (high :: low :: rest)
    else c :: urlDecode text

/-- The pieces that `std::getline` reads one after the other: the delimiter ends
a piece, and there is none behind a last delimiter. -/
def getlines (delimiter : UInt8) : Bytes → List Bytes
  | [] => []
  | c :: text =>
    if c = delimiter then [] :: getlines delimiter text
    else
      match getlines delimiter text with
      | [] => [[c]]
      | piece :: pieces => (c :: piece) :: pieces

def parseFormEncoded (text : Bytes) : Table :=
  (getlines 38 text).foldl (fun fields pair =>
    match find [61] pair with
    | none => fields
    | some equals =>
      fields.insert (urlDecode (pair.take equals)) (urlDecode (pair.drop (equals + 1)))) ∅

def skipSpace (text : Bytes) : Bytes := text.dropWhile isspace

/-- The octet that `readString` writes for the one behind a backslash. -/
def readEscape (c : UInt8) : UInt8 :=
  if c = 110 then 10 else if c = 116 then 9 else if c = 114 then 13 else c

/-- The loop of `readString`, behind the opening quote: what it writes to `out`,
and what is behind the closing quote. -/
def readChars : Bytes → Option (Bytes × Bytes)
  | [] => none
  | c :: text =>
    if c = 34 then some ([], text)
    else if c = 92 then
      match text with
      | [] => none
      | e :: text => (readChars text).map fun (out, rest) => (readEscape e :: out, rest)
    else (readChars text).map fun (out, rest) => (c :: out, rest)

def readString : Bytes → Option (Bytes × Bytes)
  | [] => none
  | c :: text => if c = 34 then readChars text else none

theorem readChars_quote (text : Bytes) : readChars (34 :: text) = some ([], text) := by
  rw [readChars.eq_def]
  simp only [if_true]

theorem readChars_escape (e : UInt8) (text : Bytes) :
    readChars (92 :: e :: text) =
      (readChars text).map fun (out, rest) => (readEscape e :: out, rest) := by
  rw [readChars.eq_def]
  simp

theorem readChars_plain {c : UInt8} (hquote : c ≠ 34) (hslash : c ≠ 92) (text : Bytes) :
    readChars (c :: text) = (readChars text).map fun (out, rest) => (c :: out, rest) := by
  rw [readChars.eq_def]
  simp only [if_neg hquote, if_neg hslash]

theorem readChars_length {text out rest : Bytes} (h : readChars text = some (out, rest)) :
    rest.length < text.length := by
  fun_induction readChars text generalizing out rest with
  | case1 => cases h
  | case2 text =>
    cases h
    exact Nat.lt_succ_self _
  | case3 => cases h
  | case4 e text hquote ih =>
    obtain ⟨⟨out', rest'⟩, hread, heq⟩ := Option.map_eq_some_iff.mp h
    cases heq
    have hlt := ih hread
    simp only [List.length_cons]
    omega
  | case5 c text hquote hslash ih =>
    obtain ⟨⟨out', rest'⟩, hread, heq⟩ := Option.map_eq_some_iff.mp h
    cases heq
    have hlt := ih hread
    simp only [List.length_cons]
    omega

theorem readString_length {text out rest : Bytes} (h : readString text = some (out, rest)) :
    rest.length < text.length := by
  cases text with
  | nil => cases h
  | cons c text =>
    rw [readString] at h
    split at h
    · have hlt := readChars_length h
      simp only [List.length_cons]
      omega
    · cases h

theorem skipSpace_length (text : Bytes) : (skipSpace text).length ≤ text.length :=
  (List.dropWhile_suffix isspace).length_le

/-- One round of the member loop of `parseFlatJson`, up to the look at what is
behind the member: the key and the value, and the text from there. -/
def parseMember (text : Bytes) : Option ((Bytes × Bytes) × Bytes) :=
  match readString (skipSpace text) with
  | none => none
  | some (key, text) =>
    match skipSpace text with
    | [] => none
    | colon :: text =>
      if colon ≠ 58 then none
      else
        match readString (skipSpace text) with
        | none => none
        | some (value, text) => some ((key, value), skipSpace text)

theorem parseMember_length {text rest : Bytes} {member : Bytes × Bytes}
    (h : parseMember text = some (member, rest)) : rest.length < text.length := by
  unfold parseMember at h
  split at h
  · cases h
  · rename_i key afterKey hkey
    split at h
    · cases h
    · rename_i colon afterColon hcolon
      split at h
      · cases h
      · split at h
        · cases h
        · rename_i value afterValue hvalue
          cases h
          have h₁ := skipSpace_length text
          have h₂ := readString_length hkey
          have h₃ := skipSpace_length afterKey
          have h₄ := skipSpace_length afterColon
          have h₅ := readString_length hvalue
          have h₆ := skipSpace_length afterValue
          rw [hcolon, List.length_cons] at h₃
          omega

/-- The member loop of `parseFlatJson`, with the members read so far; `none` is
the empty map with `ok` false. -/
def parseMembers (fields : Table) (text : Bytes) : Option Table :=
  if text = [] then none
  else
    match _h : parseMember text with
    | none => none
    | some ((key, value), rest) =>
      let fields := fields.insert key value
      match rest with
      | [] => none
      | c :: rest =>
        if c = 44 then parseMembers fields rest
        else if c = 125 then some fields
        else none
termination_by text.length
decreasing_by
  have hlt := parseMember_length _h
  simp only [List.length_cons] at hlt
  omega

/-- `parseFlatJson`: the map and `ok`. -/
def parseFlatJson (text : Bytes) : Table × Bool :=
  match skipSpace text with
  | [] => (∅, false)
  | c :: text =>
    if c ≠ 123 then (∅, false)
    else if (skipSpace text).head? = some 125 then (∅, true)
    else
      match parseMembers ∅ (skipSpace text) with
      | some fields => (fields, true)
      | none => (∅, false)

end WebServer
