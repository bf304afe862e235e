import Mathlib.Data.List.Forall2
import WebServer.Json.Grammar

/-!
# Flat objects, as they are written

An object whose member values are all strings, taken apart into the octets it is
written with: the blanks around each token and what stands between the quotation
marks. What counts as a blank and what may stand in a string are parameters, so
that a lax reader and the RFC read the same shape. A text has one reading at most
(`Reading.unique`), and the readings the RFC allows are those of the JSON texts
that spell such an object (`flatText_iff`).
-/

namespace WebServer.Json

open Base

/-- A member as it is written. -/
@[ext]
structure RawMember where
  before : Bytes
  key : Bytes
  afterKey : Bytes
  beforeValue : Bytes
  value : Bytes
  afterValue : Bytes

def RawMember.render (m : RawMember) : Bytes :=
  m.before ++ quote m.key ++ m.afterKey ++ 58 :: (m.beforeValue ++ quote m.value ++ m.afterValue)

/-- Members with commas between them. -/
def renderMembers (first : RawMember) : List RawMember → Bytes
  | [] => first.render
  | next :: rest => first.render ++ 44 :: renderMembers next rest

/-- An object as it is written. -/
inductive RawObject where
  | empty (blank : Bytes)
  | members (first : RawMember) (rest : List RawMember)

namespace RawObject

def render : RawObject → Bytes
  | empty blank => 123 :: blank ++ [125]
  | members first rest => 123 :: renderMembers first rest ++ [125]

/-- What stands between the quotation marks of its keys and values. -/
def pairs : RawObject → List (Bytes × Bytes)
  | empty _ => []
  | members first rest => (first :: rest).map fun m => (m.key, m.value)

end RawObject

/-- Octets of one class. -/
def AllIn (space : UInt8 → Bool) (text : Bytes) : Prop := ∀ c ∈ text, space c = true

/-- A member whose blanks and strings are of these kinds. -/
structure RawMember.Within (space : UInt8 → Bool) (string : Bytes → Prop) (m : RawMember) :
    Prop where
  before : AllIn space m.before
  key : string m.key
  afterKey : AllIn space m.afterKey
  beforeValue : AllIn space m.beforeValue
  value : string m.value
  afterValue : AllIn space m.afterValue

/-- An object whose blanks and strings are of these kinds. -/
def RawObject.Within (space : UInt8 → Bool) (string : Bytes → Prop) : RawObject → Prop
  | .empty blank => AllIn space blank
  | .members first rest => ∀ m ∈ first :: rest, m.Within space string

/-- A text that begins with an object, behind blanks. -/
structure Reading (space : UInt8 → Bool) (string : Bytes → Prop) (text lead : Bytes)
    (object : RawObject) (rest : Bytes) : Prop where
  text_eq : text = lead ++ object.render ++ rest
  lead : AllIn space lead
  object : object.Within space string

/-- No quotation mark but behind a backslash, and something behind each
backslash. -/
inductive Closed : Bytes → Prop where
  | nil : Closed []
  | escape {e : UInt8} {raw : Bytes} : Closed raw → Closed (92 :: e :: raw)
  | plain {c : UInt8} {raw : Bytes} : c ≠ 34 → c ≠ 92 → Closed raw → Closed (c :: raw)

/-! ## One reading -/

/-- The first octet that is no blank ends the blanks. -/
theorem blanks_unique {space : UInt8 → Bool} {x y : UInt8} (hx : space x = false)
    (hy : space y = false) {a b s t : Bytes} (ha : AllIn space a) (hb : AllIn space b)
    (h : a ++ x :: s = b ++ y :: t) : a = b ∧ x = y ∧ s = t := by
  induction a generalizing b with
  | nil =>
    cases b with
    | nil =>
      obtain ⟨rfl, rfl⟩ := List.cons.inj h
      exact ⟨rfl, rfl, rfl⟩
    | cons c b =>
      obtain ⟨rfl, -⟩ := List.cons.inj h
      rw [hb x List.mem_cons_self] at hx
      cases hx
  | cons c a ih =>
    cases b with
    | nil =>
      obtain ⟨rfl, -⟩ := List.cons.inj h
      rw [ha c List.mem_cons_self] at hy
      cases hy
    | cons d b =>
      obtain ⟨rfl, htail⟩ := List.cons.inj h
      obtain ⟨rfl, rfl, rfl⟩ := ih (fun e he => ha e (List.mem_cons_of_mem c he))
        (fun e he => hb e (List.mem_cons_of_mem c he)) htail
      exact ⟨rfl, rfl, rfl⟩

/-- The first quotation mark that no backslash hides ends the string. -/
theorem Closed.unique {a b s t : Bytes} (ha : Closed a) (hb : Closed b)
    (h : a ++ 34 :: s = b ++ 34 :: t) : a = b ∧ s = t := by
  induction ha generalizing b with
  | nil =>
    cases hb with
    | nil => exact ⟨rfl, (List.cons.inj h).2⟩
    | escape _ => exact absurd (List.cons.inj h).1 (by decide)
    | plain hquote _ _ => exact absurd (List.cons.inj h).1.symm hquote
  | @escape e a _ ih =>
    cases hb with
    | nil => exact absurd (List.cons.inj h).1 (by decide)
    | @escape e' b hb =>
      simp only [List.cons_append, List.cons.injEq, true_and] at h
      obtain ⟨rfl, htail⟩ := h
      obtain ⟨rfl, rfl⟩ := ih hb htail
      exact ⟨rfl, rfl⟩
    | plain _ hslash _ => exact absurd (List.cons.inj h).1.symm hslash
  | @plain c a hquote hslash _ ih =>
    cases hb with
    | nil => exact absurd (List.cons.inj h).1 hquote
    | escape _ => exact absurd (List.cons.inj h).1 hslash
    | plain _ _ hb =>
      obtain ⟨rfl, htail⟩ := List.cons.inj h
      obtain ⟨rfl, rfl⟩ := ih hb htail
      exact ⟨rfl, rfl⟩

/-- The octets that separate tokens are no blanks. -/
structure Separates (space : UInt8 → Bool) : Prop where
  quote : space 34 = false
  comma : space 44 = false
  colon : space 58 = false
  opening : space 123 = false
  closing : space 125 = false

variable {space : UInt8 → Bool}

/-- A member, token after token. -/
theorem RawMember.render_append (m : RawMember) (tail : Bytes) :
    m.render ++ tail = m.before ++ 34 :: (m.key ++ 34 :: (m.afterKey ++ 58 ::
      (m.beforeValue ++ 34 :: (m.value ++ 34 :: (m.afterValue ++ tail))))) := by
  simp only [render, quote, List.append_assoc, List.cons_append, List.nil_append]

theorem RawMember.unique (hsep : Separates space) {m n : RawMember} {x y : UInt8}
    (hx : space x = false) (hy : space y = false) {s t : Bytes} (hm : m.Within space Closed)
    (hn : n.Within space Closed) (h : m.render ++ x :: s = n.render ++ y :: t) :
    m = n ∧ x = y ∧ s = t := by
  rw [m.render_append, n.render_append] at h
  obtain ⟨hbefore, -, h⟩ := blanks_unique hsep.quote hsep.quote hm.before hn.before h
  obtain ⟨hkey, h⟩ := hm.key.unique hn.key h
  obtain ⟨hafter, -, h⟩ := blanks_unique hsep.colon hsep.colon hm.afterKey hn.afterKey h
  obtain ⟨hgap, -, h⟩ := blanks_unique hsep.quote hsep.quote hm.beforeValue hn.beforeValue h
  obtain ⟨hvalue, h⟩ := hm.value.unique hn.value h
  obtain ⟨hlast, hnext, htail⟩ := blanks_unique hx hy hm.afterValue hn.afterValue h
  exact ⟨RawMember.ext hbefore hkey hafter hgap hvalue hlast, hnext, htail⟩

theorem renderMembers_unique (hsep : Separates space) {rest rest' : List RawMember}
    {m n : RawMember} {s t : Bytes} (hm : ∀ l ∈ m :: rest, l.Within space Closed)
    (hn : ∀ l ∈ n :: rest', l.Within space Closed)
    (h : renderMembers m rest ++ 125 :: s = renderMembers n rest' ++ 125 :: t) :
    m = n ∧ rest = rest' ∧ s = t := by
  induction rest generalizing m n rest' with
  | nil =>
    cases rest' with
    | nil =>
      obtain ⟨rfl, -, rfl⟩ := RawMember.unique hsep hsep.closing hsep.closing
        (hm m List.mem_cons_self) (hn n List.mem_cons_self) h
      exact ⟨rfl, rfl, rfl⟩
    | cons n' rest' =>
      simp only [renderMembers, List.append_assoc, List.cons_append] at h
      obtain ⟨-, hne, -⟩ := RawMember.unique hsep hsep.closing hsep.comma
        (hm m List.mem_cons_self) (hn n List.mem_cons_self) h
      exact absurd hne (by decide)
  | cons m' rest ih =>
    cases rest' with
    | nil =>
      simp only [renderMembers, List.append_assoc, List.cons_append] at h
      obtain ⟨-, hne, -⟩ := RawMember.unique hsep hsep.comma hsep.closing
        (hm m List.mem_cons_self) (hn n List.mem_cons_self) h
      exact absurd hne (by decide)
    | cons n' rest' =>
      simp only [renderMembers, List.append_assoc, List.cons_append] at h
      obtain ⟨rfl, -, h⟩ := RawMember.unique hsep hsep.comma hsep.comma
        (hm m List.mem_cons_self) (hn n List.mem_cons_self) h
      obtain ⟨rfl, rfl, rfl⟩ := ih (fun l hl => hm l (List.mem_cons_of_mem m hl))
        (fun l hl => hn l (List.mem_cons_of_mem m hl)) h
      exact ⟨rfl, rfl, rfl⟩

/-- The first octet of the members behind their blanks is a quotation mark. -/
theorem renderMembers_head (m : RawMember) (rest : List RawMember) :
    ∃ tail, renderMembers m rest = m.before ++ 34 :: tail := by
  cases rest with
  | nil =>
    rw [renderMembers, ← List.append_nil m.render, m.render_append]
    exact ⟨_, rfl⟩
  | cons n rest =>
    rw [renderMembers, m.render_append]
    exact ⟨_, rfl⟩

/-- Blanks in front of the members are blanks in front of the first. -/
theorem renderMembers_behind (blank : Bytes) (m : RawMember) (rest : List RawMember) :
    renderMembers { m with before := blank ++ m.before } rest = blank ++ renderMembers m rest := by
  cases rest with
  | nil => simp only [renderMembers, RawMember.render, List.append_assoc]
  | cons n rest => simp only [renderMembers, RawMember.render, List.append_assoc]

/-- A text begins with one object at most, written one way. -/
theorem Reading.unique (hsep : Separates space) {text lead lead' rest rest' : Bytes}
    {object object' : RawObject} (h : Reading space Closed text lead object rest)
    (h' : Reading space Closed text lead' object' rest') :
    lead = lead' ∧ object = object' ∧ rest = rest' := by
  have htext := h.text_eq.symm.trans h'.text_eq
  cases object with
  | empty blank =>
    cases object' with
    | empty blank' =>
      simp only [RawObject.render, List.append_assoc, List.cons_append, List.nil_append] at htext
      obtain ⟨rfl, -, htext⟩ := blanks_unique hsep.opening hsep.opening h.lead h'.lead htext
      obtain ⟨rfl, -, rfl⟩ := blanks_unique hsep.closing hsep.closing h.object h'.object htext
      exact ⟨rfl, rfl, rfl⟩
    | members n rest' =>
      obtain ⟨tail, htail⟩ := renderMembers_head n rest'
      simp only [RawObject.render, htail, List.append_assoc, List.cons_append,
        List.nil_append] at htext
      obtain ⟨-, -, htext⟩ := blanks_unique hsep.opening hsep.opening h.lead h'.lead htext
      have hn := h'.object n List.mem_cons_self
      obtain ⟨-, hne, -⟩ := blanks_unique hsep.closing hsep.quote h.object hn.before htext
      exact absurd hne (by decide)
  | members m ms =>
    cases object' with
    | empty blank' =>
      obtain ⟨tail, htail⟩ := renderMembers_head m ms
      simp only [RawObject.render, htail, List.append_assoc, List.cons_append,
        List.nil_append] at htext
      obtain ⟨-, -, htext⟩ := blanks_unique hsep.opening hsep.opening h.lead h'.lead htext
      have hm := h.object m List.mem_cons_self
      obtain ⟨-, hne, -⟩ := blanks_unique hsep.quote hsep.closing hm.before h'.object htext
      exact absurd hne (by decide)
    | members n ns =>
      simp only [RawObject.render, List.append_assoc, List.cons_append, List.nil_append] at htext
      obtain ⟨rfl, -, htext⟩ := blanks_unique hsep.opening hsep.opening h.lead h'.lead htext
      obtain ⟨rfl, rfl, rfl⟩ := renderMembers_unique hsep h.object h'.object htext
      exact ⟨rfl, rfl, rfl⟩

/-! ## The readings that the RFC allows -/

/-- What stands between the quotation marks of a literal. -/
def IsLiteral (raw : Bytes) : Prop := ∃ text, unescape raw = some text

/-- What a written key and value stand for. -/
def Decodes (raw member : Bytes × Bytes) : Prop :=
  unescape raw.1 = some member.1 ∧ unescape raw.2 = some member.2

/-- A JSON text that spells an object whose member values are these strings. -/
def FlatText (members : List (Bytes × Bytes)) (text : Bytes) : Prop :=
  IsText (.object (members.map fun m => (m.1, .string m.2))) text

/-- A hexadecimal digit may stand in a string. -/
theorem closed_hexDigit {c : UInt8} {x : Nat} (h : hexDigit c = some x) {raw : Bytes}
    (hraw : Closed raw) : Closed (c :: raw) := by
  refine .plain ?_ ?_ hraw
  · rintro rfl
    cases h
  · rintro rfl
    cases h

theorem Literal.closed {raw : Bytes} {is : List Item} (h : Literal raw is) : Closed raw := by
  induction h with
  | nil => exact .nil
  | unit hn _ ih =>
    obtain ⟨⟨a, ha⟩, ⟨b, hb⟩, ⟨c, hc⟩, ⟨d, hd⟩⟩ := hexQuad_isSome hn
    exact .escape (closed_hexDigit ha (closed_hexDigit hb (closed_hexDigit hc
      (closed_hexDigit hd ih))))
  | escaped _ _ _ ih => exact .escape ih
  | plain hslash hplain _ ih => exact .plain (not_or.mp hplain).2 hslash ih

/-- A literal is closed. -/
theorem IsLiteral.closed {raw : Bytes} (h : IsLiteral raw) : Closed raw := by
  obtain ⟨text, htext⟩ := h
  obtain ⟨is, his, -⟩ := Option.map_eq_some_iff.mp htext
  exact (literal_of_items his).closed

/-- The members of a JSON object with string values, as they are written. -/
theorem rawMembers_of_spells {phrase : Phrase} {text : Bytes} (h : Spells phrase text)
    {members : List (Bytes × Bytes)}
    (hphrase : phrase = .members (members.map fun m => (m.1, .string m.2))) :
    ∃ first rest, text = renderMembers first rest ∧
      (∀ m ∈ first :: rest, m.Within isWs IsLiteral) ∧
      List.Forall₂ Decodes ((first :: rest).map fun m => (m.key, m.value)) members := by
  induction h generalizing members with
  | @lastMember key raw v before after beforeValue text afterValue hbefore hkey hafter hgap hv hlast =>
    obtain ⟨m, rfl, hm⟩ : ∃ m, members = [m] ∧ (key, v) = (m.1, Value.string m.2) := by
      cases members with
      | nil => cases hphrase
      | cons m members =>
        cases members with
        | nil => exact ⟨m, rfl, (List.cons.inj (Phrase.members.inj hphrase)).1⟩
        | cons n members => cases (List.cons.inj (Phrase.members.inj hphrase)).2
    obtain ⟨rfl, rfl⟩ := Prod.mk.inj hm
    cases hv with
    | @string value _ hvalue =>
      refine ⟨⟨before, raw, after, beforeValue, value, afterValue⟩, [], rfl, ?_, ?_⟩
      · intro n hn
        cases List.mem_singleton.mp hn
        exact ⟨hbefore, ⟨_, hkey⟩, hafter, hgap, ⟨_, hvalue⟩, hlast⟩
      · exact .cons ⟨hkey, hvalue⟩ .nil
  | @moreMembers key raw v ms before after beforeValue text afterValue rest hbefore hkey hafter hgap
      hv hlast _ _ ih =>
    obtain ⟨m, members, rfl, hm, hms⟩ : ∃ m members', members = m :: members' ∧
        (key, v) = (m.1, Value.string m.2) ∧
        ms = members'.map fun m => (m.1, Value.string m.2) := by
      cases members with
      | nil => cases hphrase
      | cons m members =>
        exact ⟨m, members, rfl, List.cons.inj (Phrase.members.inj hphrase)⟩
    obtain ⟨rfl, rfl⟩ := Prod.mk.inj hm
    obtain ⟨first, more, rfl, hwithin, hdecodes⟩ := ih (congrArg Phrase.members hms)
    cases hv with
    | @string value _ hvalue =>
      refine ⟨⟨before, raw, after, beforeValue, value, afterValue⟩, first :: more, rfl, ?_, ?_⟩
      · intro n hn
        rcases List.mem_cons.mp hn with rfl | hn
        · exact ⟨hbefore, ⟨_, hkey⟩, hafter, hgap, ⟨_, hvalue⟩, hlast⟩
        · exact hwithin n hn
      · exact .cons ⟨hkey, hvalue⟩ hdecodes
  | _ => cases hphrase

/-- Written members spell the members they stand for. -/
theorem spells_of_rawMembers {rest : List RawMember} {first : RawMember}
    {members : List (Bytes × Bytes)} (hwithin : ∀ m ∈ first :: rest, m.Within isWs IsLiteral)
    (hdecodes : List.Forall₂ Decodes ((first :: rest).map fun m => (m.key, m.value)) members) :
    Spells (.members (members.map fun m => (m.1, .string m.2))) (renderMembers first rest) := by
  have hfirst := hwithin first List.mem_cons_self
  induction rest generalizing first members with
  | nil =>
    cases hdecodes with
    | @cons _ member _ _ hmember hnil =>
      cases hnil
      exact .lastMember hfirst.before hmember.1 hfirst.afterKey hfirst.beforeValue
        (.string hmember.2) hfirst.afterValue
  | cons next rest ih =>
    cases hdecodes with
    | @cons _ member _ members hmember hrest =>
      have hmore := ih (fun m hm => hwithin m (List.mem_cons_of_mem first hm)) hrest
        (hwithin next (List.mem_cons_of_mem first List.mem_cons_self))
      exact .moreMembers hfirst.before hmember.1 hfirst.afterKey hfirst.beforeValue
        (.string hmember.2) hfirst.afterValue hmore

/-- The JSON texts that spell an object with string values are the readings with
the RFC's blanks and literals and nothing but blanks behind the object. -/
theorem flatText_iff {members : List (Bytes × Bytes)} {text : Bytes} :
    FlatText members text ↔ ∃ lead object rest, Reading isWs IsLiteral text lead object rest ∧
      IsBlank rest ∧ List.Forall₂ Decodes object.pairs members := by
  constructor
  · rintro ⟨before, body, after, rfl, hbefore, hafter, hbody⟩
    generalize hvalue : Value.object (members.map fun m => (m.1, Value.string m.2)) = v at hbody
    cases hbody with
    | @emptyObject blank hblank =>
      cases members with
      | nil => exact ⟨before, .empty blank, after, ⟨rfl, hbefore, hblank⟩, hafter, .nil⟩
      | cons m members => cases hvalue
    | @object ms text hms =>
      obtain ⟨first, rest, rfl, hwithin, hdecodes⟩ :=
        rawMembers_of_spells hms (congrArg Phrase.members (Value.object.inj hvalue).symm)
      exact ⟨before, .members first rest, after, ⟨rfl, hbefore, hwithin⟩, hafter, hdecodes⟩
    | _ => cases hvalue
  · rintro ⟨lead, object, rest, ⟨rfl, hlead, hobject⟩, hrest, hdecodes⟩
    refine ⟨lead, object.render, rest, rfl, hlead, hrest, ?_⟩
    cases object with
    | empty blank =>
      cases hdecodes
      exact .emptyObject hobject
    | members first more => exact .object (spells_of_rawMembers hobject hdecodes)

end WebServer.Json
