import WebServer.Base.CLib

/-!
# JSON texts

The grammar of RFC 8259 over octets, as a relation between values and the texts
that spell them. An octet of 0x80 or more is an ordinary character of a string,
so a string value is an octet string too: what a literal means is given by
`unescape`, which reads the literal as a sequence of octets and UTF-16 code units
and writes the code units in UTF-8.

The RFC leaves open what a lone surrogate means; here it is written as any other
code unit is.
-/

namespace WebServer.Json

open Base

/-! ## String literals -/

/-- One item of a string literal. -/
inductive Item where
  /-- An octet, as it is or behind a backslash. -/
  | octet (c : UInt8)
  /-- A UTF-16 code unit, `\u` and four hexadecimal digits. -/
  | unit (n : Nat)
  deriving DecidableEq, Repr

/-- The value of a hexadecimal digit of either case. -/
def hexDigit (c : UInt8) : Option Nat :=
  if 48 ≤ c ∧ c ≤ 57 then some (c.toNat - 48)
  else if 65 ≤ c ∧ c ≤ 70 then some (c.toNat - 55)
  else if 97 ≤ c ∧ c ≤ 102 then some (c.toNat - 87)
  else none

/-- The number four hexadecimal digits denote. -/
def hexQuad (a b c d : UInt8) : Option Nat := do
  let a ← hexDigit a
  let b ← hexDigit b
  let c ← hexDigit c
  let d ← hexDigit d
  return ((a * 16 + b) * 16 + c) * 16 + d

/-- The octet that a one-letter escape denotes: quotation mark, reverse solidus,
solidus, and `b`, `f`, `n`, `r`, `t`. -/
def escaped (c : UInt8) : Option UInt8 :=
  if c = 34 ∨ c = 92 ∨ c = 47 then some c
  else if c = 98 then some 8
  else if c = 102 then some 12
  else if c = 110 then some 10
  else if c = 114 then some 13
  else if c = 116 then some 9
  else none

/-- The items between the quotation marks of a string literal, if what stands
there is one. -/
def items : Bytes → Option (List Item)
  | [] => some []
  | c :: text =>
    if c = 92 then
      match text with
      | [] => none
      | e :: text =>
        if e = 117 then
          match text with
          | h₁ :: h₂ :: h₃ :: h₄ :: text => do
            let n ← hexQuad h₁ h₂ h₃ h₄
            let rest ← items text
            return .unit n :: rest
          | _ => none
        else do
          let c ← escaped e
          let rest ← items text
          return .octet c :: rest
    else if c < 32 ∨ c = 34 then none
    else do
      let rest ← items text
      return .octet c :: rest

/-- A code point in UTF-8. -/
def utf8 (n : Nat) : Bytes :=
  if n < 0x80 then [UInt8.ofNat n]
  else if n < 0x800 then [UInt8.ofNat (0xC0 + n / 64), UInt8.ofNat (0x80 + n % 64)]
  else if n < 0x10000 then
    [UInt8.ofNat (0xE0 + n / 4096), UInt8.ofNat (0x80 + n / 64 % 64),
      UInt8.ofNat (0x80 + n % 64)]
  else
    [UInt8.ofNat (0xF0 + n / 262144), UInt8.ofNat (0x80 + n / 4096 % 64),
      UInt8.ofNat (0x80 + n / 64 % 64), UInt8.ofNat (0x80 + n % 64)]

def isHighSurrogate (n : Nat) : Bool := 0xD800 ≤ n && n < 0xDC00

def isLowSurrogate (n : Nat) : Bool := 0xDC00 ≤ n && n < 0xE000

/-- The octets that items stand for; a surrogate pair is one code point. -/
def encode : List Item → Bytes
  | [] => []
  | .octet c :: rest => c :: encode rest
  | [.unit n] => utf8 n
  | .unit n :: .octet c :: rest => utf8 n ++ c :: encode rest
  | .unit n :: .unit m :: rest =>
    if isHighSurrogate n && isLowSurrogate m then
      utf8 (0x10000 + (n - 0xD800) * 1024 + (m - 0xDC00)) ++ encode rest
    else utf8 n ++ encode (.unit m :: rest)

/-- What stands between the quotation marks of a literal, decoded. -/
def unescape (raw : Bytes) : Option Bytes := (items raw).map encode

/-- A string literal. -/
def quote (raw : Bytes) : Bytes := 34 :: raw ++ [34]

/-! ## Numbers -/

/-- `int`: no leading zero. -/
inductive IntText : Bytes → Prop where
  | zero : IntText [48]
  | digits {d : UInt8} {ds : Bytes} : 49 ≤ d → d ≤ 57 → (∀ c ∈ ds, isdigit c = true) →
      IntText (d :: ds)

/-- `[frac]`, with its digits. -/
inductive FracText : Bytes → Bytes → Prop where
  | none : FracText [] []
  | some {ds : Bytes} : ds ≠ [] → (∀ c ∈ ds, isdigit c = true) → FracText ds (46 :: ds)

/-- `[exp]`, with its value. -/
inductive ExpText : Int → Bytes → Prop where
  | none : ExpText 0 []
  | plain {e : UInt8} {ds : Bytes} : e = 101 ∨ e = 69 → ds ≠ [] → (∀ c ∈ ds, isdigit c = true) →
      ExpText (decimalValue ds) (e :: ds)
  | plus {e : UInt8} {ds : Bytes} : e = 101 ∨ e = 69 → ds ≠ [] → (∀ c ∈ ds, isdigit c = true) →
      ExpText (decimalValue ds) (e :: 43 :: ds)
  | minus {e : UInt8} {ds : Bytes} : e = 101 ∨ e = 69 → ds ≠ [] → (∀ c ∈ ds, isdigit c = true) →
      ExpText (-decimalValue ds) (e :: 45 :: ds)

/-! ## Values -/

/-- A JSON value. A number is a mantissa and a power of ten; the members of an
object keep their order and their duplicates. -/
inductive Value where
  | null
  | bool (b : Bool)
  | number (mantissa exponent : Int)
  | string (text : Bytes)
  | array (elements : List Value)
  | object (members : List (Bytes × Value))

/-- What a piece of a JSON text can spell. -/
inductive Phrase where
  | value (v : Value)
  | elements (vs : List Value)
  | members (ms : List (Bytes × Value))

/-- `ws`: blank, tab, line feed and carriage return. -/
def isWs (c : UInt8) : Bool := c == 32 || c == 9 || c == 10 || c == 13

def IsBlank (text : Bytes) : Prop := ∀ c ∈ text, isWs c = true

/-- The grammar. Elements and members are lists of at least one, separated by
commas and with blanks around each; a minus sign is optional. -/
inductive Spells : Phrase → Bytes → Prop where
  | null : Spells (.value .null) (ascii "null")
  | true : Spells (.value (.bool true)) (ascii "true")
  | false : Spells (.value (.bool false)) (ascii "false")
  | number {int frac fracText expText : Bytes} {exp : Int} :
      IntText int → FracText frac fracText → ExpText exp expText →
      Spells (.value (.number (decimalValue (int ++ frac)) (exp - frac.length)))
        (int ++ fracText ++ expText)
  | negative {int frac fracText expText : Bytes} {exp : Int} :
      IntText int → FracText frac fracText → ExpText exp expText →
      Spells (.value (.number (-decimalValue (int ++ frac)) (exp - frac.length)))
        (45 :: (int ++ fracText ++ expText))
  | string {raw text : Bytes} : unescape raw = some text →
      Spells (.value (.string text)) (quote raw)
  | emptyArray {blank : Bytes} : IsBlank blank →
      Spells (.value (.array [])) (91 :: blank ++ [93])
  | array {vs : List Value} {text : Bytes} : Spells (.elements vs) text →
      Spells (.value (.array vs)) (91 :: text ++ [93])
  | lastElement {v : Value} {before text after : Bytes} :
      IsBlank before → Spells (.value v) text → IsBlank after →
      Spells (.elements [v]) (before ++ text ++ after)
  | moreElements {v : Value} {vs : List Value} {before text after rest : Bytes} :
      IsBlank before → Spells (.value v) text → IsBlank after → Spells (.elements vs) rest →
      Spells (.elements (v :: vs)) (before ++ text ++ after ++ 44 :: rest)
  | emptyObject {blank : Bytes} : IsBlank blank →
      Spells (.value (.object [])) (123 :: blank ++ [125])
  | object {ms : List (Bytes × Value)} {text : Bytes} : Spells (.members ms) text →
      Spells (.value (.object ms)) (123 :: text ++ [125])
  | lastMember {key raw : Bytes} {v : Value} {before after beforeValue text afterValue : Bytes} :
      IsBlank before → unescape raw = some key → IsBlank after → IsBlank beforeValue →
      Spells (.value v) text → IsBlank afterValue →
      Spells (.members [(key, v)])
        (before ++ quote raw ++ after ++ 58 :: (beforeValue ++ text ++ afterValue))
  | moreMembers {key raw : Bytes} {v : Value} {ms : List (Bytes × Value)}
      {before after beforeValue text afterValue rest : Bytes} :
      IsBlank before → unescape raw = some key → IsBlank after → IsBlank beforeValue →
      Spells (.value v) text → IsBlank afterValue → Spells (.members ms) rest →
      Spells (.members ((key, v) :: ms))
        (before ++ quote raw ++ after ++ 58 :: (beforeValue ++ text ++ afterValue) ++ 44 :: rest)

/-- A JSON text: a value with blanks around it. -/
def IsText (v : Value) (text : Bytes) : Prop :=
  ∃ before body after, text = before ++ body ++ after ∧ IsBlank before ∧ IsBlank after ∧
    Spells (.value v) body

/-! ## Small laws -/

theorem isBlank_nil : IsBlank [] := List.forall_mem_nil _

/-- An octet that needs no escape stands for itself. -/
theorem items_plain {c : UInt8} (hslash : c ≠ 92) (hplain : ¬ (c < 32 ∨ c = 34)) (text : Bytes) :
    items (c :: text) = (items text).map (.octet c :: ·) := by
  rw [items.eq_def]
  simp only [if_neg hslash, if_neg hplain]
  cases items text <;> rfl

/-- A one-letter escape stands for its octet. -/
theorem items_escaped {e c : UInt8} (h : escaped e = some c) (text : Bytes) :
    items (92 :: e :: text) = (items text).map (.octet c :: ·) := by
  have hu : e ≠ 117 := by
    rintro rfl
    cases h
  rw [items.eq_def]
  simp only [if_true, if_neg hu, h]
  cases items text <;> rfl

/-- `\u` and four hexadecimal digits stand for a code unit. -/
theorem items_unit {h₁ h₂ h₃ h₄ : UInt8} {n : Nat} (h : hexQuad h₁ h₂ h₃ h₄ = some n)
    (text : Bytes) :
    items (92 :: 117 :: h₁ :: h₂ :: h₃ :: h₄ :: text) = (items text).map (.unit n :: ·) := by
  rw [items.eq_def]
  simp only [if_true, h]
  cases items text <;> rfl

/-- What stands between the quotation marks of a literal, item by item. -/
inductive Literal : Bytes → List Item → Prop where
  | nil : Literal [] []
  | unit {h₁ h₂ h₃ h₄ : UInt8} {n : Nat} {text : Bytes} {is : List Item} :
      hexQuad h₁ h₂ h₃ h₄ = some n → Literal text is →
      Literal (92 :: 117 :: h₁ :: h₂ :: h₃ :: h₄ :: text) (.unit n :: is)
  | escaped {e c : UInt8} {text : Bytes} {is : List Item} :
      e ≠ 117 → escaped e = some c → Literal text is →
      Literal (92 :: e :: text) (.octet c :: is)
  | plain {c : UInt8} {text : Bytes} {is : List Item} :
      c ≠ 92 → ¬ (c < 32 ∨ c = 34) → Literal text is → Literal (c :: text) (.octet c :: is)

theorem literal_of_items {raw : Bytes} {is : List Item} (h : items raw = some is) :
    Literal raw is := by
  fun_induction items raw generalizing is with
  | case1 =>
    cases h
    exact .nil
  | case2 => cases h
  | case3 h₁ h₂ h₃ h₄ text ih =>
    simp only [Option.bind_eq_bind, Option.bind_eq_some_iff, Option.pure_def,
      Option.some.injEq] at h
    obtain ⟨n, hn, rest, hrest, rfl⟩ := h
    exact .unit hn (ih hrest)
  | case4 => cases h
  | case5 e text hu ih =>
    simp only [Option.bind_eq_bind, Option.bind_eq_some_iff, Option.pure_def,
      Option.some.injEq] at h
    obtain ⟨c, hc, rest, hrest, rfl⟩ := h
    exact .escaped hu hc (ih hrest)
  | case6 => cases h
  | case7 c text hslash hplain ih =>
    simp only [Option.bind_eq_bind, Option.bind_eq_some_iff, Option.pure_def,
      Option.some.injEq] at h
    obtain ⟨rest, hrest, rfl⟩ := h
    exact .plain hslash hplain (ih hrest)

/-- Four digits that denote a number are digits. -/
theorem hexQuad_isSome {a b c d : UInt8} {n : Nat} (h : hexQuad a b c d = some n) :
    (∃ x, hexDigit a = some x) ∧ (∃ x, hexDigit b = some x) ∧ (∃ x, hexDigit c = some x) ∧
      ∃ x, hexDigit d = some x := by
  simp only [hexQuad, Option.bind_eq_bind, Option.bind_eq_some_iff] at h
  obtain ⟨x, hx, y, hy, z, hz, w, hw, -⟩ := h
  exact ⟨⟨x, hx⟩, ⟨y, hy⟩, ⟨z, hz⟩, ⟨w, hw⟩⟩

/-- A code unit below the surrogates is written by itself. -/
theorem encode_unit {n : Nat} (h : n < 0xD800) (rest : List Item) :
    encode (.unit n :: rest) = utf8 n ++ encode rest := by
  have hlow : isHighSurrogate n = false := by
    simp only [isHighSurrogate, Bool.and_eq_false_iff, decide_eq_false_iff_not]
    omega
  cases rest with
  | nil => rw [encode, encode, List.append_nil]
  | cons item rest =>
    cases item with
    | octet c => rw [encode, encode]
    | unit m =>
      rw [encode, hlow]
      rfl

theorem unescape_plain {c : UInt8} (hslash : c ≠ 92) (hplain : ¬ (c < 32 ∨ c = 34))
    (text : Bytes) : unescape (c :: text) = (unescape text).map (c :: ·) := by
  simp only [unescape, items_plain hslash hplain, Option.map_map]
  rfl

/-- A text in which nothing needs an escape is what it stands for. -/
theorem unescape_self {text : Bytes} (h : ∀ c ∈ text, c ≠ 92 ∧ ¬ (c < 32 ∨ c = 34)) :
    unescape text = some text := by
  induction text with
  | nil => rfl
  | cons c text ih =>
    obtain ⟨hslash, hplain⟩ := h c List.mem_cons_self
    rw [unescape_plain hslash hplain, ih fun d hd => h d (List.mem_cons_of_mem c hd)]
    rfl

theorem unescape_escaped {e c : UInt8} (h : escaped e = some c) (text : Bytes) :
    unescape (92 :: e :: text) = (unescape text).map (c :: ·) := by
  simp only [unescape, items_escaped h, Option.map_map]
  rfl

theorem unescape_unit {h₁ h₂ h₃ h₄ : UInt8} {n : Nat} (h : hexQuad h₁ h₂ h₃ h₄ = some n)
    (hn : n < 0xD800) (text : Bytes) :
    unescape (92 :: 117 :: h₁ :: h₂ :: h₃ :: h₄ :: text) = (unescape text).map (utf8 n ++ ·) := by
  simp only [unescape, items_unit h, Option.map_map]
  congr 1
  funext is
  exact encode_unit hn is

/-! ## Texts without blanks -/

theorem Spells.element {v : Value} {text : Bytes} (h : Spells (.value v) text) :
    Spells (.elements [v]) text := by
  have hlast := Spells.lastElement isBlank_nil h isBlank_nil
  rwa [List.nil_append, List.append_nil] at hlast

theorem Spells.elements {v : Value} {vs : List Value} {text rest : Bytes}
    (h : Spells (.value v) text) (hrest : Spells (.elements vs) rest) :
    Spells (.elements (v :: vs)) (text ++ 44 :: rest) := by
  have hmore := Spells.moreElements isBlank_nil h isBlank_nil hrest
  rwa [List.nil_append, List.append_nil] at hmore

theorem Spells.member {key raw : Bytes} {v : Value} {text : Bytes}
    (hkey : unescape raw = some key) (h : Spells (.value v) text) :
    Spells (.members [(key, v)]) (quote raw ++ 58 :: text) := by
  have hlast := Spells.lastMember isBlank_nil hkey isBlank_nil isBlank_nil h isBlank_nil
  simpa only [List.nil_append, List.append_nil] using hlast

theorem Spells.members {key raw : Bytes} {v : Value} {ms : List (Bytes × Value)}
    {text rest : Bytes} (hkey : unescape raw = some key) (h : Spells (.value v) text)
    (hrest : Spells (.members ms) rest) :
    Spells (.members ((key, v) :: ms)) (quote raw ++ 58 :: text ++ 44 :: rest) := by
  have hmore := Spells.moreMembers isBlank_nil hkey isBlank_nil isBlank_nil h isBlank_nil hrest
  simpa only [List.nil_append, List.append_nil] using hmore

theorem Spells.isText {v : Value} {text : Bytes} (h : Spells (.value v) text) : IsText v text :=
  ⟨[], text, [], by rw [List.nil_append, List.append_nil], isBlank_nil, isBlank_nil, h⟩

/-- An integer without a sign spells itself. -/
theorem Spells.nat {int : Bytes} (h : IntText int) :
    Spells (.value (.number (decimalValue int) 0)) int := by
  have hnumber := Spells.number h .none .none
  rw [List.append_nil, List.append_nil] at hnumber
  exact hnumber

end WebServer.Json
