import Mathlib.Data.List.TakeWhile
import WebServer.Base.Bytes

/-!
# The C library's character classes and number reader

`isspace`, `isdigit`, `isxdigit` and `tolower` in the "C" locale, and
`strtoll` at base ten, on octets. `strtoll` answers `none` where the C
function converts nothing (its end pointer stays at the start), and
otherwise the value, clamped to `long long`, with the unconverted rest.
-/

namespace WebServer.Base

/-- White space: blank, and the five controls from tab to return. -/
def isspace (c : UInt8) : Bool := c == 32 || (9 ≤ c && c ≤ 13)

def isdigit (c : UInt8) : Bool := 48 ≤ c && c ≤ 57

def isxdigit (c : UInt8) : Bool :=
  isdigit c || (65 ≤ c && c ≤ 70) || (97 ≤ c && c ≤ 102)

def tolower (c : UInt8) : UInt8 := if 65 ≤ c ∧ c ≤ 90 then c + 32 else c

/-- A C string ends at its first NUL. -/
def cString (text : Bytes) : Bytes := text.takeWhile (· ≠ 0)

/-- The number a run of decimal digits denotes. -/
def decimalValue (digits : Bytes) : Nat :=
  digits.foldl (fun n c => 10 * n + (c.toNat - 48)) 0

def longMax : Int := 9223372036854775807
def longMin : Int := -9223372036854775808

def strtoll (text : Bytes) : Option (Int × Bytes) :=
  let text := text.dropWhile isspace
  let (negative, text) := match text with
    | 45 :: rest => (true, rest)
    | 43 :: rest => (false, rest)
    | rest => (false, rest)
  let digits := text.takeWhile isdigit
  if digits = [] then none
  else
    let n : Int := decimalValue digits
    some (if negative then max (-n) longMin else min n longMax, text.dropWhile isdigit)

/-! ## Numerals -/

theorem isspace_of_isdigit {c : UInt8} (h : isdigit c = true) : isspace c = false := by
  simp only [isdigit, isspace] at h ⊢
  grind

theorem cString_digits {digits : Bytes} (hd : ∀ c ∈ digits, isdigit c = true) :
    cString digits = digits := by
  refine List.takeWhile_eq_self_iff.mpr fun c hc => ?_
  have hdigit := hd c hc
  rw [decide_eq_true_eq]
  rintro rfl
  exact absurd hdigit (by decide)

/-- A text that `strtoll` converts to its end: white space, one sign or none, and
digits. -/
structure Numeral (text sign digits : Bytes) : Prop where
  spaced : ∃ spaces, (∀ c ∈ spaces, isspace c = true) ∧ text = spaces ++ (sign ++ digits)
  sign_one : sign = [] ∨ sign = [43] ∨ sign = [45]
  digits_ne : digits ≠ []
  digits_all : ∀ c ∈ digits, isdigit c = true

/-- What a numeral is converted to, clamped to `long long`. -/
def numeralValue (sign digits : Bytes) : Int :=
  if sign = [45] then max (-decimalValue digits) longMin else min (decimalValue digits) longMax

/-- A run of digits is a numeral. -/
theorem numeral_digits {digits : Bytes} (hne : digits ≠ []) (hd : ∀ c ∈ digits, isdigit c = true) :
    Numeral digits [] digits where
  spaced := ⟨[], List.forall_mem_nil _, rfl⟩
  sign_one := .inl rfl
  digits_ne := hne
  digits_all := hd

theorem strtoll_numeral {text sign digits : Bytes} (h : Numeral text sign digits) :
    strtoll text = some (numeralValue sign digits, []) := by
  obtain ⟨⟨spaces, hspaces, rfl⟩, hsign, hne, hd⟩ := h
  obtain ⟨d, ds, rfl⟩ := List.exists_cons_of_ne_nil hne
  have hdig := hd d List.mem_cons_self
  have hplus : d ≠ 43 := by
    rintro rfl
    exact absurd hdig (by decide)
  have hminus : d ≠ 45 := by
    rintro rfl
    exact absurd hdig (by decide)
  have htake : (d :: ds).takeWhile isdigit = d :: ds := List.takeWhile_eq_self_iff.mpr hd
  have hdrop : (d :: ds).dropWhile isdigit = [] := List.dropWhile_eq_nil_iff.mpr hd
  have hstart : (spaces ++ (sign ++ d :: ds)).dropWhile isspace = sign ++ d :: ds := by
    rw [List.dropWhile_append_of_pos hspaces]
    rcases hsign with rfl | rfl | rfl
    · rw [List.nil_append, List.dropWhile_cons_of_neg]
      rw [isspace_of_isdigit hdig]
      exact Bool.false_ne_true
    · exact List.dropWhile_cons_of_neg (by decide)
    · exact List.dropWhile_cons_of_neg (by decide)
  simp only [strtoll, hstart]
  rcases hsign with rfl | rfl | rfl
  · split
    next rest heq => exact absurd (List.cons.inj heq).1 hminus
    next rest heq => exact absurd (List.cons.inj heq).1 hplus
    next => simp [htake, hdrop, numeralValue]
  · simp [htake, hdrop, numeralValue]
  · simp [htake, hdrop, numeralValue]

/-- What is converted behind a sign, if that is all of it, makes a numeral. -/
theorem numeral_of_digits {text sign digits : Bytes} {negative : Bool} {n : Int}
    (hsign : sign = [] ∨ sign = [43] ∨ sign = [45]) (hnegative : negative = true ↔ sign = [45])
    (hstart : text.dropWhile isspace = sign ++ digits)
    (h : (if digits.takeWhile isdigit = [] then none
      else some (if negative then max (-(decimalValue (digits.takeWhile isdigit) : Int)) longMin
        else min (decimalValue (digits.takeWhile isdigit) : Int) longMax,
        digits.dropWhile isdigit)) = some (n, [])) :
    Numeral text sign digits ∧ n = numeralValue sign digits := by
  split at h
  · cases h
  next hne =>
    obtain ⟨hvalue, hend⟩ := Prod.mk.inj (Option.some.inj h)
    have hd := List.dropWhile_eq_nil_iff.mp hend
    rw [List.takeWhile_eq_self_iff.mpr hd] at hne hvalue
    refine ⟨⟨⟨text.takeWhile isspace, fun c hc => List.mem_takeWhile_imp hc, ?_⟩, hsign, hne, hd⟩, ?_⟩
    · rw [← hstart]
      exact List.takeWhile_append_dropWhile.symm
    · rw [← hvalue, numeralValue]
      exact if_congr hnegative rfl rfl

/-- What is converted to its end is a numeral. -/
theorem numeral_of_strtoll {text : Bytes} {n : Int} (h : strtoll text = some (n, [])) :
    ∃ sign digits, Numeral text sign digits ∧ n = numeralValue sign digits := by
  unfold strtoll at h
  dsimp only at h
  split at h
  next rest heq => exact ⟨[45], rest, numeral_of_digits (.inr (.inr rfl)) (by simp) heq h⟩
  next rest heq => exact ⟨[43], rest, numeral_of_digits (.inr (.inl rfl)) (by simp) heq h⟩
  next => exact ⟨[], _, numeral_of_digits (.inl rfl) (by simp) rfl h⟩

/-- A run of digits is read whole, to the number it denotes. -/
theorem strtoll_digits {digits : Bytes} (hne : digits ≠ []) (hd : ∀ c ∈ digits, isdigit c = true)
    (hmax : (decimalValue digits : Int) ≤ longMax) :
    strtoll digits = some ((decimalValue digits : Int), []) := by
  rw [strtoll_numeral (numeral_digits hne hd), numeralValue, if_neg (by simp),
    Int.min_eq_left hmax]

end WebServer.Base
