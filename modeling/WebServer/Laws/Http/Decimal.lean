import WebServer.Base.CLib
import WebServer.Http.Response

/-!
# Numbers in decimal

What `decimal` writes is a run of digits, the number they denote is the one that
was written, and there is no leading zero.
-/

namespace WebServer

open Base

/-- The last digit is written last. -/
theorem decimal_step {n : Nat} (h : 10 ≤ n) :
    decimal n = decimal (n / 10) ++ [UInt8.ofNat (n % 10).digitChar.toNat] := by
  rw [decimal, Nat.toDigits_of_base_le (by omega) h, List.map_append]
  rfl

/-- The octet of a digit. -/
theorem digit_octet : ∀ d < 10, UInt8.ofNat d.digitChar.toNat = UInt8.ofNat (48 + d) := by
  decide

theorem decimal_digit {n : Nat} (h : n < 10) : decimal n = [UInt8.ofNat (48 + n)] := by
  rw [decimal, Nat.toDigits_of_lt_base h, List.map_singleton, digit_octet n h]

theorem isdigit_octet {d : Nat} (h : d < 10) : isdigit (UInt8.ofNat (48 + d)) = true := by
  have hall : ∀ d < 10, isdigit (UInt8.ofNat (48 + d)) = true := by decide
  exact hall d h

theorem decimal_isdigit (n : Nat) : ∀ c ∈ decimal n, isdigit c = true := by
  induction n using Nat.strongRecOn with
  | ind n ih =>
    intro c hc
    by_cases hn : n < 10
    · rw [decimal_digit hn] at hc
      cases List.mem_singleton.mp hc
      exact isdigit_octet hn
    · rw [decimal_step (by omega)] at hc
      rcases List.mem_append.mp hc with hc | hc
      · exact ih (n / 10) (by omega) c hc
      · cases List.mem_singleton.mp hc
        rw [digit_octet _ (Nat.mod_lt n (by omega))]
        exact isdigit_octet (Nat.mod_lt n (by omega))

/-- The digits denote the number. -/
theorem decimalValue_decimal (n : Nat) : decimalValue (decimal n) = n := by
  induction n using Nat.strongRecOn with
  | ind n ih =>
    have hlast : ∀ d < 10, (UInt8.ofNat (48 + d)).toNat - 48 = d := by decide
    by_cases hn : n < 10
    · rw [decimal_digit hn]
      show 10 * 0 + ((UInt8.ofNat (48 + n)).toNat - 48) = n
      rw [hlast n hn, Nat.mul_zero, Nat.zero_add]
    · have hmod : n % 10 < 10 := Nat.mod_lt n (by omega)
      rw [decimal_step (by omega), decimalValue, List.foldl_append]
      show 10 * decimalValue (decimal (n / 10)) + _ = n
      rw [ih (n / 10) (by omega), digit_octet _ hmod, hlast _ hmod]
      omega

/-- The first digit of a number that is not 0 is not 0. -/
theorem decimal_head {n : Nat} (h : 0 < n) :
    ∃ d ds, decimal n = d :: ds ∧ 49 ≤ d ∧ d ≤ 57 := by
  induction n using Nat.strongRecOn with
  | ind n ih =>
    by_cases hn : n < 10
    · have hall : ∀ d < 10, 0 < d → 49 ≤ UInt8.ofNat (48 + d) ∧ UInt8.ofNat (48 + d) ≤ 57 := by
        decide
      exact ⟨_, [], decimal_digit hn, hall n hn h⟩
    · obtain ⟨d, ds, hd, hrange⟩ := ih (n / 10) (by omega) (by omega)
      exact ⟨d, _, by rw [decimal_step (by omega), hd]; rfl, hrange⟩

end WebServer
