import WebServer.Json.Grammar

/-!
# Where the strings of a JSON text are

A scan that tells the string literals of a text from what is between them, and
fails where a literal cannot go on. It does not know the rest of the grammar, so
it accepts more than the JSON texts; what it refuses is none (`lex_of_isText`).
-/

namespace WebServer.Json

open Base

/-- Where in a text the scan is. -/
inductive Mode where
  | between
  | inside
  | escape
  /-- So many hexadecimal digits are still to come after the next. -/
  | hex (left : Nat)
  deriving DecidableEq, Repr

def lexStep : Mode → UInt8 → Option Mode
  | .between, c => some (if c = 34 then .inside else .between)
  | .inside, c =>
    if c = 92 then some .escape
    else if c < 32 then none
    else some (if c = 34 then .between else .inside)
  | .escape, c => if c = 117 then some (.hex 3) else (escaped c).map fun _ => .inside
  | .hex 0, c => (hexDigit c).map fun _ => .inside
  | .hex (left + 1), c => (hexDigit c).map fun _ => .hex left

/-- The scan of a text. -/
def lex (mode : Mode) (text : Bytes) : Option Mode := text.foldlM lexStep mode

theorem lex_cons {mode mode' : Mode} {c : UInt8} (h : lexStep mode c = some mode') (text : Bytes) :
    lex mode (c :: text) = lex mode' text := by
  rw [lex, List.foldlM_cons, h]
  rfl

/-- A hexadecimal digit takes the scan on. -/
theorem lexStep_hex {c : UInt8} {x : Nat} (h : hexDigit c = some x) :
    lexStep (.hex 0) c = some .inside ∧
      ∀ left, lexStep (.hex (left + 1)) c = some (.hex left) := by
  simp [lexStep, h]

theorem lex_append {mode mode' : Mode} {a : Bytes} (h : lex mode a = some mode') (b : Bytes) :
    lex mode (a ++ b) = lex mode' b := by
  rw [lex, List.foldlM_append]
  show (lex mode a).bind (fun mode => lex mode b) = _
  rw [h]
  rfl

/-- Without a quotation mark the scan stays between the literals. -/
theorem lex_between {text : Bytes} (h : 34 ∉ text) : lex .between text = some .between := by
  induction text with
  | nil => rfl
  | cons c text ih =>
    have hc : c ≠ 34 := fun heq => h (heq ▸ List.mem_cons_self)
    have hstep : lexStep .between c = some .between := by rw [lexStep, if_neg hc]
    rw [lex_cons hstep]
    exact ih fun hin => h (List.mem_cons_of_mem c hin)

/-- Inside a literal the scan follows its items. -/
theorem lex_literal {raw : Bytes} {is : List Item} (h : Literal raw is) :
    lex .inside raw = some .inside := by
  have hslash : lexStep .inside 92 = some .escape := rfl
  induction h with
  | nil => rfl
  | unit hn _ ih =>
    have hu : lexStep .escape 117 = some (.hex 3) := rfl
    obtain ⟨⟨x, hx⟩, ⟨y, hy⟩, ⟨z, hz⟩, ⟨w, hw⟩⟩ := hexQuad_isSome hn
    rw [lex_cons hslash, lex_cons hu, lex_cons ((lexStep_hex hx).2 2),
      lex_cons ((lexStep_hex hy).2 1), lex_cons ((lexStep_hex hz).2 0),
      lex_cons (lexStep_hex hw).1]
    exact ih
  | @escaped e c text is hu hc _ ih =>
    have hstep : lexStep .escape e = some .inside := by
      rw [lexStep, if_neg hu, hc]
      rfl
    rw [lex_cons hslash, lex_cons hstep]
    exact ih
  | @plain c text is hplain hquote _ ih =>
    obtain ⟨hctl, hquote⟩ := not_or.mp hquote
    have hstep : lexStep .inside c = some .inside := by
      rw [lexStep, if_neg hplain, if_neg hctl, if_neg hquote]
    rw [lex_cons hstep]
    exact ih

/-- A literal takes the scan from between the literals back to there. -/
theorem lex_quote {raw text : Bytes} (h : unescape raw = some text) :
    lex .between (quote raw) = some .between := by
  obtain ⟨is, his, -⟩ := Option.map_eq_some_iff.mp h
  have hopen : lex .between (34 :: raw) = some .inside := lex_literal (literal_of_items his)
  rw [quote, lex_append hopen]
  rfl

theorem not_mem_digits {ds : Bytes} (h : ∀ c ∈ ds, isdigit c = true) : 34 ∉ ds :=
  fun hin => absurd (h 34 hin) (by decide)

/-- Where there are blanks there is no literal. -/
theorem IsBlank.not_mem {text : Bytes} (h : IsBlank text) : 34 ∉ text :=
  fun hin => absurd (h 34 hin) (by decide)

theorem IntText.not_mem {text : Bytes} (h : IntText text) : 34 ∉ text := by
  cases h with
  | zero => decide
  | @digits d ds hlow _ hds =>
    intro hin
    rcases List.mem_cons.mp hin with rfl | hin
    · exact absurd hlow (by decide)
    · exact not_mem_digits hds hin

theorem FracText.not_mem {digits text : Bytes} (h : FracText digits text) : 34 ∉ text := by
  cases h with
  | none => exact List.not_mem_nil
  | some _ hds => simpa using not_mem_digits hds

theorem ExpText.not_mem {n : Int} {text : Bytes} (h : ExpText n text) : 34 ∉ text := by
  cases h with
  | none => exact List.not_mem_nil
  | plain he _ hds => rcases he with rfl | rfl <;> simpa using not_mem_digits hds
  | plus he _ hds => rcases he with rfl | rfl <;> simpa using not_mem_digits hds
  | minus he _ hds => rcases he with rfl | rfl <;> simpa using not_mem_digits hds

/-- Two stretches that begin and end between literals make one that does. -/
theorem lex_between_append {a b : Bytes} (ha : lex .between a = some .between)
    (hb : lex .between b = some .between) : lex .between (a ++ b) = some .between := by
  rw [lex_append ha, hb]

/-- An octet that opens no literal may stand in front. -/
theorem lex_between_cons {c : UInt8} (hc : c ≠ 34) {text : Bytes}
    (h : lex .between text = some .between) : lex .between (c :: text) = some .between := by
  have hstep : lexStep .between c = some .between := by rw [lexStep, if_neg hc]
  rw [lex_cons hstep, h]

theorem IsBlank.lex {text : Bytes} (h : IsBlank text) : lex .between text = some .between :=
  lex_between h.not_mem

/-- The scan of a piece of a JSON text begins and ends between literals. -/
theorem lex_of_spells {phrase : Phrase} {text : Bytes} (h : Spells phrase text) :
    lex .between text = some .between := by
  induction h with
  | null => decide
  | true => decide
  | false => decide
  | number hint hfrac hexp =>
    refine lex_between ?_
    simp only [List.mem_append, not_or]
    exact ⟨⟨hint.not_mem, hfrac.not_mem⟩, hexp.not_mem⟩
  | negative hint hfrac hexp =>
    refine lex_between_cons (by decide) (lex_between ?_)
    simp only [List.mem_append, not_or]
    exact ⟨⟨hint.not_mem, hfrac.not_mem⟩, hexp.not_mem⟩
  | string hraw => exact lex_quote hraw
  | emptyArray hblank =>
    exact lex_between_cons (by decide) (lex_between_append hblank.lex (lex_between (by decide)))
  | array _ ih =>
    exact lex_between_cons (by decide) (lex_between_append ih (lex_between (by decide)))
  | lastElement hbefore _ hafter ih =>
    exact lex_between_append (lex_between_append hbefore.lex ih) hafter.lex
  | moreElements hbefore _ hafter _ ih ihrest =>
    exact lex_between_append (lex_between_append (lex_between_append hbefore.lex ih) hafter.lex)
      (lex_between_cons (by decide) ihrest)
  | emptyObject hblank =>
    exact lex_between_cons (by decide) (lex_between_append hblank.lex (lex_between (by decide)))
  | object _ ih =>
    exact lex_between_cons (by decide) (lex_between_append ih (lex_between (by decide)))
  | lastMember hbefore hkey hafter hvalue _ hlast ih =>
    refine lex_between_append (lex_between_append (lex_between_append hbefore.lex
      (lex_quote hkey)) hafter.lex) (lex_between_cons (by decide) ?_)
    exact lex_between_append (lex_between_append hvalue.lex ih) hlast.lex
  | moreMembers hbefore hkey hafter hvalue _ hlast _ ih ihrest =>
    refine lex_between_append (lex_between_append (lex_between_append (lex_between_append
      hbefore.lex (lex_quote hkey)) hafter.lex) (lex_between_cons (by decide) ?_))
      (lex_between_cons (by decide) ihrest)
    exact lex_between_append (lex_between_append hvalue.lex ih) hlast.lex

/-- The scan of a JSON text begins and ends between literals. -/
theorem lex_of_isText {v : Value} {text : Bytes} (h : IsText v text) :
    lex .between text = some .between := by
  obtain ⟨before, body, after, rfl, hbefore, hafter, hbody⟩ := h
  exact lex_between_append (lex_between_append hbefore.lex (lex_of_spells hbody)) hafter.lex

end WebServer.Json
