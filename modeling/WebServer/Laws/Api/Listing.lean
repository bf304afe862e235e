import WebServer.Json.Lexer
import WebServer.Laws.Api.Escape
import WebServer.Laws.Http.Decimal

/-!
# What the store answers is JSON

A stored entry and a listing of entries as JSON values, and the texts that
`list`, `get` and `put` write for them. While no call has put a control character
into the store that the escaper gets wrong, every such text spells its value
(`answers_of_clean`); `%01` in a form body is enough to break it
(`put_control_malformed`).
-/

namespace WebServer

open Base Json

/-- A text that the escaper gets right. -/
def TextEscapesWell (text : Bytes) : Prop := ∀ c ∈ text, EscapesWell c

instance (text : Bytes) : Decidable (TextEscapesWell text) :=
  List.decidableBAll EscapesWell text

/-- An entry of the store as a JSON value. -/
def entryValue (key value : Bytes) : Value :=
  .object [(ascii "key", .string key), (ascii "value", .string value)]

/-- A listing of entries as a JSON value. -/
def listingValue (entries : List (Bytes × Bytes)) : Value :=
  .object [(ascii "count", .number entries.length 0),
    (ascii "entries", .array (entries.map fun (key, value) => entryValue key value))]

/-! ## The texts -/

theorem intText_decimal (n : Nat) : IntText (decimal n) := by
  rcases Nat.eq_zero_or_pos n with rfl | hn
  · exact .zero
  · obtain ⟨d, ds, hd, hlow, hhigh⟩ := decimal_head hn
    rw [hd]
    refine .digits hlow hhigh fun c hc => decimal_isdigit n c ?_
    rw [hd]
    exact List.mem_cons_of_mem d hc

theorem spells_entryJson {key value : Bytes} (hkey : TextEscapesWell key)
    (hvalue : TextEscapesWell value) :
    Spells (.value (entryValue key value)) (KvStore.entryJson key value) := by
  have hkeys : unescape (ascii "key") = some (ascii "key") := unescape_self (by decide +kernel)
  have hvalues : unescape (ascii "value") = some (ascii "value") := unescape_self (by decide +kernel)
  have hobject := Spells.object (Spells.members hkeys (.string (unescape_jsonEscape hkey))
    (Spells.member hvalues (.string (unescape_jsonEscape hvalue))))
  have htext : KvStore.entryJson key value =
      123 :: (quote (ascii "key") ++ 58 :: quote (jsonEscape key) ++
        44 :: (quote (ascii "value") ++ 58 :: quote (jsonEscape value))) ++ [125] := by
    simp only [KvStore.entryJson, quote, List.append_assoc, List.cons_append, List.nil_append]
    rfl
  rw [htext]
  exact hobject

/-- The entries of a listing, behind the first of them. -/
theorem spells_entriesJson {entries : List (Bytes × Bytes)}
    (h : ∀ entry ∈ entries, TextEscapesWell entry.1 ∧ TextEscapesWell entry.2) {key value : Bytes}
    (hkey : TextEscapesWell key) (hvalue : TextEscapesWell value) :
    Spells (.elements (((key, value) :: entries).map fun (key, value) => entryValue key value))
      (KvStore.entriesJson true ((key, value) :: entries)) := by
  induction entries generalizing key value with
  | nil =>
    have htext : KvStore.entriesJson true [(key, value)] = KvStore.entryJson key value :=
      List.append_nil _
    rw [htext]
    exact (spells_entryJson hkey hvalue).element
  | cons entry entries ih =>
    obtain ⟨hnext, hnextValue⟩ := h entry List.mem_cons_self
    have hrest := ih (fun e he => h e (List.mem_cons_of_mem entry he)) hnext hnextValue
    have hmore := (spells_entryJson hkey hvalue).elements hrest
    have htext : KvStore.entriesJson true ((key, value) :: entry :: entries) =
        KvStore.entryJson key value ++ 44 :: KvStore.entriesJson true (entry :: entries) := rfl
    rw [htext]
    exact hmore

theorem spells_listing {entries : List (Bytes × Bytes)}
    (h : ∀ entry ∈ entries, TextEscapesWell entry.1 ∧ TextEscapesWell entry.2) :
    Spells (.value (listingValue entries))
      (ascii "\x7b\"count\":" ++ decimal entries.length ++ ascii ",\"entries\":[" ++
        KvStore.entriesJson true entries ++ ascii "]\x7d") := by
  have hcount : unescape (ascii "count") = some (ascii "count") := unescape_self (by decide +kernel)
  have hentries : unescape (ascii "entries") = some (ascii "entries") := unescape_self (by decide +kernel)
  have hnumber := Spells.nat (intText_decimal entries.length)
  rw [decimalValue_decimal] at hnumber
  have harray : Spells (.value (.array (entries.map fun (key, value) => entryValue key value)))
      (91 :: KvStore.entriesJson true entries ++ [93]) := by
    cases entries with
    | nil => exact .emptyArray isBlank_nil
    | cons entry entries =>
      obtain ⟨hkey, hvalue⟩ := h entry List.mem_cons_self
      exact .array (spells_entriesJson (fun e he => h e (List.mem_cons_of_mem entry he)) hkey hvalue)
  have hobject := Spells.object (Spells.members hcount hnumber (Spells.member hentries harray))
  have htext : ascii "\x7b\"count\":" ++ decimal entries.length ++ ascii ",\"entries\":[" ++
      KvStore.entriesJson true entries ++ ascii "]\x7d" =
      123 :: (quote (ascii "count") ++ 58 :: decimal entries.length ++
        44 :: (quote (ascii "entries") ++
          58 :: (91 :: KvStore.entriesJson true entries ++ [93]))) ++ [125] := by
    simp only [quote, List.append_assoc, List.cons_append, List.nil_append]
    rfl
  rw [htext]
  exact hobject

/-! ## What a call does to the store -/

namespace KvStore

/-- A `put` finds room in this store for this entry. -/
structure Accepts (store : KvStore) (request : HttpRequest) (key value : Bytes) : Prop where
  fields : ∃ fields, readFields request = some fields ∧
    key = fields[ascii "key"]?.getD [] ∧ value = fields[ascii "value"]?.getD []
  key_ne : key ≠ []
  key_short : key.length ≤ maxKeyLength
  value_short : value.length ≤ maxValueLength
  room : key ∈ store.entries ∨ store.entries.size < maxEntries

/-- A `put` stores the entry it finds room for and answers with it, or refuses and
leaves the store alone. -/
theorem put_cases (store : KvStore) (request : HttpRequest) :
    (∃ key value, store.Accepts request key value ∧
      ((store.put request).1.status = 200 ∨ (store.put request).1.status = 201) ∧
      (store.put request).1.body = entryJson key value ∧
      (store.put request).2 = { entries := store.entries.insert key value }) ∨
    (((store.put request).1.status = 400 ∨ (store.put request).1.status = 413 ∨
      (store.put request).1.status = 507) ∧ (store.put request).2 = store) := by
  unfold put
  split
  · exact .inr ⟨.inl rfl, rfl⟩
  · rename_i fields hfields
    dsimp only
    split
    · exact .inr ⟨.inl rfl, rfl⟩
    · rename_i hkey
      split
      · exact .inr ⟨.inr (.inl rfl), rfl⟩
      · rename_i hlong
        split
        · exact .inr ⟨.inr (.inr rfl), rfl⟩
        · rename_i hroom
          rw [not_or, Nat.not_lt, Nat.not_lt] at hlong
          refine .inl ⟨_, _, ⟨⟨fields, hfields, rfl, rfl⟩, hkey, hlong.1, hlong.2, ?_⟩, ?_, rfl, rfl⟩
          · rw [not_and_or, not_not, Nat.not_le] at hroom
            exact hroom
          · split <;> simp [HttpResponse.json]

/-- A `remove` takes its key out of the store, or leaves the store alone. -/
theorem remove_entries (store : KvStore) (key : Bytes) :
    (store.remove key).2 = store ∨ (store.remove key).2 = { entries := store.entries.erase key } := by
  unfold remove
  split
  · exact .inl rfl
  · split
    · exact .inr rfl
    · exact .inl rfl

/-- The entries are stored under a key, and the escaper gets them right. -/
def Clean (store : KvStore) : Prop :=
  ∀ key value, store.entries[key]? = some value →
    key ≠ [] ∧ TextEscapesWell key ∧ TextEscapesWell value

/-- The entry that a `put` will store, if it will, is one the escaper gets
right. -/
def StoresWell (store : KvStore) : KvCall → Prop
  | .put request => ∀ key value, store.Accepts request key value →
    TextEscapesWell key ∧ TextEscapesWell value
  | .remove _ => True

theorem Clean.step {store store' : KvStore} {call : KvCall} (h : store.Clean)
    (hwell : store.StoresWell call) (hstep : kvMachine.step store call = some store') :
    store'.Clean := by
  cases call with
  | put request =>
    obtain rfl : (store.put request).2 = store' := Option.some.inj hstep
    rcases store.put_cases request with ⟨key, value, haccepts, -, -, hstore⟩ | ⟨-, hstore⟩
    · rw [hstore]
      obtain ⟨hkey, hvalue⟩ := hwell key value haccepts
      intro k v hv
      rw [Std.ExtTreeMap.getElem?_insert] at hv
      split at hv
      next heq =>
        cases hv
        rw [← Std.LawfulEqCmp.eq_of_compare heq]
        exact ⟨haccepts.key_ne, hkey, hvalue⟩
      next => exact h k v hv
    · rw [hstore]
      exact h
  | remove key =>
    obtain rfl : (store.remove key).2 = store' := Option.some.inj hstep
    rcases store.remove_entries key with hstore | hstore
    · rw [hstore]
      exact h
    · rw [hstore]
      intro k v hv
      rw [Std.ExtTreeMap.getElem?_erase] at hv
      split at hv
      · cases hv
      · exact h k v hv

theorem clean_run {store : KvStore} (r : kvMachine.Reach StoresWell store) : store.Clean := by
  refine r.invariant (I := Clean) ?_ fun _ _ _ h hwell hstep => h.step hwell hstep
  intro key value hv
  cases hv

/-! ## What the calls answer -/

theorem Clean.list {store : KvStore} (h : store.Clean) :
    IsText (listingValue store.entries.toList) store.list.body := by
  have hentries : ∀ entry ∈ store.entries.toList,
      TextEscapesWell entry.1 ∧ TextEscapesWell entry.2 := fun entry hin =>
    (h entry.1 entry.2 (Std.ExtTreeMap.mem_toList_iff_getElem?_eq_some.mp hin)).2
  have hspells := (spells_listing hentries).isText
  rw [Std.ExtTreeMap.length_toList] at hspells
  exact hspells

theorem Clean.get {store : KvStore} (h : store.Clean) {key value : Bytes}
    (hv : store.entries[key]? = some value) :
    IsText (entryValue key value) (store.get key).body := by
  obtain ⟨hne, hkey, hvalue⟩ := h key value hv
  rw [KvStore.get, if_neg hne, hv]
  exact (spells_entryJson hkey hvalue).isText

/-- In every run whose calls store nothing that the escaper gets wrong, the
listing spells all the entries and their number, `get` spells the entry of its
key, and a `put` that succeeds spells the entry it has stored. -/
theorem answers_of_clean {store : KvStore} (r : kvMachine.Reach StoresWell store) :
    IsText (listingValue store.entries.toList) store.list.body ∧
    store.entries.toList.length = store.entries.size ∧
    (∀ key value, store.entries[key]? = some value →
      IsText (entryValue key value) (store.get key).body) ∧
    ∀ request, store.StoresWell (.put request) →
      (store.put request).1.status = 200 ∨ (store.put request).1.status = 201 →
      ∃ key value, (store.put request).2.entries[key]? = some value ∧
        IsText (entryValue key value) (store.put request).1.body := by
  have h := clean_run r
  refine ⟨h.list, Std.ExtTreeMap.length_toList, fun key value hv => h.get hv, ?_⟩
  intro request hwell hstatus
  rcases store.put_cases request with ⟨key, value, haccepts, -, hbody, hstore⟩ | ⟨hrefused, -⟩
  · obtain ⟨hkey, hvalue⟩ := hwell key value haccepts
    refine ⟨key, value, ?_, ?_⟩
    · rw [hstore, Std.ExtTreeMap.getElem?_insert_self]
    · rw [hbody]
      exact (spells_entryJson hkey hvalue).isText
  · omega

/-- A form that sets the key `a` to a line feed and a blank. -/
def breakForm : HttpRequest where
  method := ascii "POST"
  body := ascii "key=a&value=%0A+"

/-- The line feed is listed as it was put. -/
theorem answers_of_clean_breakForm :
    ∃ store, kvMachine.exec kvMachine.start [.put breakForm] = some store ∧
      IsText (listingValue [(ascii "a", [10, 32])]) store.list.body := by
  have hfields : readFields breakForm =
      some (((∅ : Table).insert (ascii "key") (ascii "a")).insert (ascii "value") [10, 32]) := by
    decide +kernel
  have hlist : (kvMachine.start.put breakForm).2.entries.toList = [(ascii "a", [10, 32])] := by
    decide +kernel
  have hwell : ({} : KvStore).StoresWell (.put breakForm) := by
    rintro key value ⟨⟨fields, hread, rfl, rfl⟩, -, -, -, -⟩
    obtain rfl := Option.some.inj (hfields.symm.trans hread)
    exact ⟨by decide +kernel, by decide +kernel⟩
  obtain ⟨htext, -⟩ := answers_of_clean (.step .start hwell rfl)
  rw [hlist] at htext
  exact ⟨_, rfl, htext⟩

/-- A form that sets a key of one control character. -/
def controlForm : HttpRequest where
  method := ascii "POST"
  body := ascii "key=%01&value=x"

/-- Its `put` succeeds, and neither its answer nor any listing from then on is a
JSON text. -/
theorem put_control_malformed :
    ∃ store, kvMachine.exec kvMachine.start [.put controlForm] = some store ∧
      (({} : KvStore).put controlForm).1.status = 201 ∧
      (∀ v, ¬ IsText v (({} : KvStore).put controlForm).1.body) ∧
      ∀ v, ¬ IsText v store.list.body := by
  refine ⟨_, rfl, by decide +kernel, fun v h => ?_, fun v h => ?_⟩
  · have hlex : lex .between (({} : KvStore).put controlForm).1.body = none := by decide +kernel
    cases hlex.symm.trans (lex_of_isText h)
  · have hlex : lex .between (({} : KvStore).put controlForm).2.list.body = none := by
      decide +kernel
    cases hlex.symm.trans (lex_of_isText h)

end KvStore

end WebServer
