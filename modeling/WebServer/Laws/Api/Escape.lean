import WebServer.Api.KvStore
import WebServer.Json.Grammar

/-!
# What the escaper writes

`jsonEscape` writes what a JSON reader decodes to the text it was given, with one
exception: a control character below 0x10 that has no escape of its own is
written with one hexadecimal digit too few (`jsonEscapeChar`). Of all other texts
`unescape_jsonEscape` gives the round trip.
-/

namespace WebServer

open Base Json

/-- The octets that `jsonEscape` gets right: all but the control characters below
0x10 other than tab, line feed and carriage return. -/
def EscapesWell (c : UInt8) : Prop := 16 ≤ c ∨ c = 9 ∨ c = 10 ∨ c = 13

instance (c : UInt8) : Decidable (EscapesWell c) := inferInstanceAs (Decidable (_ ∨ _))

/-- From 0x10 to 0x1f, `std::hex` writes the two digits of a control character. -/
theorem hexadecimal_control {n : Nat} (hlow : 16 ≤ n) (hhigh : n < 32) :
    ∃ d, hexadecimal n = [49, d] ∧ hexDigit d = some (n % 16) := by
  have hdigits : Nat.toDigits 16 n = ['1', (n % 16).digitChar] := by
    rw [Nat.toDigits_of_base_le (by omega) hlow, show n / 16 = 1 by omega,
      Nat.toDigits_of_lt_base (by omega)]
    rfl
  refine ⟨UInt8.ofNat (n % 16).digitChar.toNat, by rw [hexadecimal, hdigits]; rfl, ?_⟩
  have hall : ∀ m < 16, hexDigit (UInt8.ofNat m.digitChar.toNat) = some m := by decide
  exact hall (n % 16) (Nat.mod_lt n (by omega))

/-- A reader decodes what the escaper writes for a character to that character. -/
theorem unescape_jsonEscapeChar {c : UInt8} (h : EscapesWell c) (text : Bytes) :
    unescape (jsonEscapeChar c ++ text) = (unescape text).map (c :: ·) := by
  unfold jsonEscapeChar
  split
  · subst c
    exact unescape_escaped rfl text
  · split
    · subst c
      exact unescape_escaped rfl text
    · split
      · subst c
        exact unescape_escaped rfl text
      · split
        · subst c
          exact unescape_escaped rfl text
        · split
          · subst c
            exact unescape_escaped rfl text
          · split
            next hquote hslash hlf hcr htab hctl =>
              have hlow : 16 ≤ c.toNat := by
                rcases h with h | rfl | rfl | rfl
                · exact h
                · exact absurd rfl htab
                · exact absurd rfl hlf
                · exact absurd rfl hcr
              have hhigh : c.toNat < 32 := hctl
              obtain ⟨d, hhex, hd⟩ := hexadecimal_control hlow hhigh
              have hquad : hexQuad 48 48 49 d = some c.toNat := by
                have h48 : hexDigit 48 = some 0 := rfl
                have h49 : hexDigit 49 = some 1 := rfl
                simp only [hexQuad, h48, h49, hd, Option.bind_eq_bind, Option.bind_some]
                congr 1
                omega
              have hutf8 : utf8 c.toNat = [c] := by
                rw [utf8, if_pos (by omega), UInt8.ofNat_toNat]
              have hunit := unescape_unit hquad (by omega) text
              rw [hutf8] at hunit
              rw [hhex]
              exact hunit
            next hquote hslash hlf hcr htab hplain =>
              exact unescape_plain hslash (not_or.mpr ⟨hplain, hquote⟩) text

/-- A reader decodes what the escaper writes for a text to that text. -/
theorem unescape_jsonEscape {text : Bytes} (h : ∀ c ∈ text, EscapesWell c) :
    unescape (jsonEscape text) = some text := by
  induction text with
  | nil => rfl
  | cons c text ih =>
    rw [jsonEscape, List.flatMap_cons, unescape_jsonEscapeChar (h c List.mem_cons_self)]
    show (unescape (jsonEscape text)).map _ = _
    rw [ih fun d hd => h d (List.mem_cons_of_mem c hd)]
    rfl

end WebServer
