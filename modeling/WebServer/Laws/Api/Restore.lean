import WebServer.Laws.Api.BoundedMap
import WebServer.Laws.Api.RoundTrip

/-!
# A store rebuilt from its answers

What `get` answers for a key is an object that `put` takes, so a store can be moved to
another server by its own interface: fetch every key, and post every answer as it is.
The reader takes back all that the escaper writes but for the control characters that are
written as code units, and such a character it never makes out of an escaped text
(`Passes.jsonEscape`). So the rebuilt store is the store exactly where it holds none of
them (`restored_iff`).
-/

namespace WebServer

open Base Json

/-! ## Escaped and read -/

/-- What is written here is read to its end, into octets that the reader takes back. -/
structure Passes (raw : Bytes) : Prop where
  closed : ∀ rest, Closed rest → Closed (raw ++ rest)
  read : ∃ out, (∀ c ∈ out, ReadsBack c) ∧ ∀ rest, readText (raw ++ rest) = out ++ readText rest

namespace Passes

theorem nil : Passes [] where
  closed _ h := h
  read := ⟨[], List.forall_mem_nil _, fun _ => rfl⟩

theorem append {first second : Bytes} (h : Passes first) (h' : Passes second) :
    Passes (first ++ second) := by
  obtain ⟨out, back, read⟩ := h.read
  obtain ⟨out', back', read'⟩ := h'.read
  constructor
  · intro rest closed
    rw [List.append_assoc]
    exact h.closed _ (h'.closed rest closed)
  · refine ⟨out ++ out', List.forall_mem_append.mpr ⟨back, back'⟩, ?_⟩
    intro rest
    rw [List.append_assoc, read, read', List.append_assoc]

theorem escape {e : UInt8} (back : ReadsBack (readEscape e)) : Passes [92, e] where
  closed _ h := .escape h
  read := ⟨[readEscape e], List.forall_mem_singleton.mpr back, readText_escape e⟩

theorem plain {c : UInt8} (hquote : c ≠ 34) (hslash : c ≠ 92) (back : ReadsBack c) :
    Passes [c] where
  closed _ h := .plain hquote hslash h
  read := ⟨[c], List.forall_mem_singleton.mpr back, readText_plain hslash⟩

theorem flatMap {written : UInt8 → Bytes} {text : Bytes} (h : ∀ c ∈ text, Passes (written c)) :
    Passes (text.flatMap written) := by
  induction text with
  | nil => exact nil
  | cons c text ih =>
    obtain ⟨hc, htext⟩ := List.forall_mem_cons.mp h
    exact hc.append (ih htext)

/-- A control character comes out as the letters of its code unit. -/
theorem control {c : UInt8} (h : c < 32) : Passes (ascii "\\u00" ++ hexadecimal c.toNat) := by
  have digits : ∀ n < 32, ∀ d ∈ hexadecimal n, d ≠ 34 ∧ d ≠ 92 ∧ ReadsBack d := by
    decide +kernel
  have unit : Passes [92, 117] := escape (by decide)
  have zero : Passes [48] := plain (by decide) (by decide) (by decide)
  have last : Passes ((hexadecimal c.toNat).flatMap fun d => [d]) := by
    refine flatMap ?_
    intro d hd
    obtain ⟨hquote, hslash, back⟩ := digits c.toNat (UInt8.lt_iff_toNat_lt.mp h) d hd
    exact plain hquote hslash back
  rw [List.flatMap_singleton'] at last
  exact (unit.append (zero.append zero)).append last

theorem jsonEscapeChar (c : UInt8) : Passes (jsonEscapeChar c) := by
  by_cases back : ReadsBack c
  · obtain ⟨e, written, read⟩ | ⟨hquote, hslash, written⟩ := jsonEscapeChar_cases back
    · rw [written]
      exact escape (by rwa [read])
    · rw [written]
      exact plain hquote hslash back
  · simp only [ReadsBack, not_or, UInt8.not_le] at back
    obtain ⟨low, htab, hfeed, hreturn⟩ := back
    have hquote : c ≠ 34 := by
      rintro rfl
      exact absurd low (by decide)
    have hslash : c ≠ 92 := by
      rintro rfl
      exact absurd low (by decide)
    simp only [WebServer.jsonEscapeChar, if_neg hquote, if_neg hslash, if_neg hfeed,
      if_neg hreturn, if_neg htab, if_pos low]
    exact control low

/-- Every text that is escaped is read to its end, and what comes out is read back
from then on. -/
theorem jsonEscape (text : Bytes) : Passes (jsonEscape text) :=
  flatMap fun c _ => jsonEscapeChar c

end Passes

/-- What the reader makes of an escaped text. -/
def reread (text : Bytes) : Bytes := readText (jsonEscape text)

theorem closed_of_jsonEscape (text : Bytes) : Closed (jsonEscape text) := by
  have closed := (Passes.jsonEscape text).closed [] .nil
  rwa [List.append_nil] at closed

theorem reread_readsBack (text : Bytes) : ∀ c ∈ reread text, ReadsBack c := by
  obtain ⟨out, back, read⟩ := (Passes.jsonEscape text).read
  have same : reread text = out := by
    have h := read []
    rwa [List.append_nil, show readText [] = [] from rfl, List.append_nil] at h
  rwa [same]

namespace KvStore

/-- What `get` answers is an object that the reader accepts, with its two members. -/
theorem parseFlatJson_entryJson (key value : Bytes) :
    parseFlatJson (entryJson key value) =
      (((∅ : Table).insert (ascii "key") (reread key)).insert (ascii "value") (reread value),
        true) := by
  let member (name text : Bytes) : RawMember := ⟨[], jsonEscape name, [], [], jsonEscape text, []⟩
  have within : ∀ name text, (member name text).Within isspace Closed := by
    intro name text
    exact ⟨List.forall_mem_nil _, closed_of_jsonEscape name, List.forall_mem_nil _,
      List.forall_mem_nil _, closed_of_jsonEscape text, List.forall_mem_nil _⟩
  have reading : LaxReading (entryJson key value) []
      (.members (member (ascii "key") key) [member (ascii "value") value]) [] := by
    refine ⟨?_, List.forall_mem_nil _, ?_⟩
    · simp only [entryJson, RawObject.render, renderMembers, RawMember.render, quote, member,
        List.append_assoc, List.cons_append, List.nil_append, List.append_nil]
      rfl
    · exact List.forall_mem_cons.mpr ⟨within _ _, List.forall_mem_singleton.mpr (within _ _)⟩
  rw [parseFlatJson_of_reading reading]
  rfl

/-- The request posts what the store answers when the key is fetched, and says that it
is JSON. -/
structure Posts (store : KvStore) (key : Bytes) (request : HttpRequest) : Prop where
  json : find (ascii "application/json") (request.header (ascii "content-type")) ≠ none
  body : request.body = (store.get key).body

variable {store built : KvStore} {key value : Bytes} {request : HttpRequest}

theorem Posts.body_eq (h : store.Posts key request) (stored : store.entries[key]? = some value)
    (hkey : key ≠ []) : request.body = entryJson key value := by
  rw [h.body, get, if_neg hkey, stored]
  rfl

/-- It names the entry, as the reader takes it. -/
theorem Posts.named (h : store.Posts key request) (stored : store.entries[key]? = some value)
    (hkey : key ≠ []) : named request = (reread key, reread value) := by
  have other : compare (ascii "value") (ascii "key") ≠ .eq := by decide
  simp only [KvStore.named, readFields, if_pos h.json, h.body_eq stored hkey,
    parseFlatJson_entryJson, Option.getD_some, Std.ExtTreeMap.getElem?_insert_self,
    Std.ExtTreeMap.getElem?_insert, if_neg other]

/-- The store's entries are entries that it takes, and they are not too many. -/
structure Fits (store : KvStore) : Prop where
  admits : ∀ key value, store.entries[key]? = some value → Admits key value
  size : store.entries.size ≤ maxEntries

theorem fits_of_reachable (r : kvMachine.Reachable store) : store.Fits := by
  refine r.invariant (I := Fits) ⟨by simp [kvMachine], by simp [kvMachine, maxEntries]⟩ ?_
  rintro store call store' fit - hs
  cases call with
  | put request =>
    cases hs
    obtain ⟨new, value, accepts, -, -, hstore⟩ | ⟨-, hstore⟩ := store.put_cases request
    · rw [hstore]
      constructor
      · intro key value' hv
        rw [Std.ExtTreeMap.getElem?_insert] at hv
        split at hv
        next same =>
          cases hv
          rw [← Std.LawfulEqCmp.eq_of_compare same]
          exact ⟨accepts.key_ne, accepts.key_short, accepts.value_short⟩
        next => exact fit.admits key value' hv
      · simp only [Std.ExtTreeMap.size_insert, Std.ExtTreeMap.contains_iff_mem]
        split
        next => exact fit.size
        next new => exact (accepts.room.resolve_left new)
    · rw [hstore]
      exact fit
  | remove old =>
    cases hs
    obtain hstore | hstore := store.remove_entries old
    · rw [hstore]
      exact fit
    · rw [hstore]
      constructor
      · intro key value hv
        rw [Std.ExtTreeMap.getElem?_erase] at hv
        split at hv
        · cases hv
        · exact fit.admits key value hv
      · exact Std.ExtTreeMap.size_erase_le.trans fit.size

/-! ## The run -/

/-- The store under construction holds what was posted so far, and nothing else. -/
structure Holding (store : KvStore) (posted : List Bytes) (built : KvStore) : Prop where
  entries : ∀ key, built.entries[key]? = if key ∈ posted then store.entries[key]? else none
  size : built.entries.size = posted.length

theorem holding_start (store : KvStore) : store.Holding [] kvMachine.start where
  entries key := by simp [kvMachine]
  size := rfl

/-- The next answer is posted, and stored as it is. -/
theorem Holding.put {posted : List Bytes} (h : store.Holding posted built) (fit : store.Fits)
    (posts : store.Posts key request) (stored : store.entries[key]? = some value)
    (back : EntryReadsBack (key, value)) (new : key ∉ posted)
    (room : posted.length < maxEntries) :
    (built.put request).1 = .json request.body 201 ∧
      store.Holding (key :: posted) (built.put request).2 := by
  have admits := fit.admits key value stored
  have named : named request = (key, value) := by
    rw [posts.named stored admits.key_ne, reread, reread, readText_jsonEscape back.1,
      readText_jsonEscape back.2]
  have absent : key ∉ built.entries := by
    rw [Std.ExtTreeMap.mem_iff_isSome_getElem?, h.entries, if_neg new]
    simp
  have put : built.put request =
      (.json request.body 201, { entries := built.entries.insert key value }) := by
    rw [put_of_admits (by rw [named]; exact admits), named, locked,
      posts.body_eq stored admits.key_ne]
    simp [absent, h.size, room]
  rw [put]
  refine ⟨rfl, ?_, ?_⟩
  · intro key'
    rw [Std.ExtTreeMap.getElem?_insert]
    split
    next same =>
      rw [← Std.LawfulEqCmp.eq_of_compare same, if_pos List.mem_cons_self, stored]
    next other =>
      have hne : key' ≠ key := by
        rintro rfl
        exact other Std.ReflCmp.compare_self
      rw [h.entries]
      simp [hne]
  · simp [Std.ExtTreeMap.size_insert, absent, h.size]

/-- The call is a `put` that is answered as created, with the entry that was posted. -/
def Creates (store : KvStore) : KvCall → Prop
  | .put request => (store.put request).1 = .json request.body 201
  | .remove _ => False

/-- Posting the answers one after the other creates one entry each time, and in the end
the store holds what was posted. -/
theorem Holding.run {keys posted : List Bytes} {requests : List HttpRequest}
    (h : store.Holding posted built) (fit : store.Fits)
    (posts : List.Forall₂ store.Posts keys requests)
    (stored : ∀ key ∈ keys, ∃ value, store.entries[key]? = some value ∧ EntryReadsBack (key, value))
    (distinct : keys.Nodup) (new : ∀ key ∈ keys, key ∉ posted)
    (room : keys.length + posted.length ≤ maxEntries) :
    kvMachine.Meets Creates built (requests.map .put) ∧
      ∃ last, kvMachine.exec built (requests.map .put) = some last ∧
        store.Holding (keys.reverse ++ posted) last := by
  induction posts generalizing built posted with
  | nil => exact ⟨trivial, built, rfl, h⟩
  | @cons key request keys requests first rest ih =>
    obtain ⟨value, hvalue, back⟩ := stored key List.mem_cons_self
    obtain ⟨notLater, distinct⟩ := List.nodup_cons.mp distinct
    rw [List.length_cons] at room
    obtain ⟨created, holds⟩ := h.put fit first hvalue back (new key List.mem_cons_self) (by omega)
    obtain ⟨meets, last, runs, holds⟩ := ih holds
      (fun key' hkey => stored key' (List.mem_cons_of_mem _ hkey)) distinct
      (by
        intro key' hkey
        rw [List.mem_cons, not_or]
        exact ⟨fun same => notLater (same ▸ hkey), new key' (List.mem_cons_of_mem _ hkey)⟩)
      (by rw [List.length_cons]; omega)
    refine ⟨⟨created, ?_⟩, last, runs, ?_⟩
    · intro s hs
      cases hs
      exact meets
    · rw [List.reverse_cons, List.append_assoc]
      exact holds

/-- Whatever is posted this way, the store holds only texts that the reader takes back. -/
theorem readsBack_of_posts {keys : List Bytes} {requests : List HttpRequest} {last : KvStore}
    (fit : store.Fits) (posts : List.Forall₂ store.Posts keys requests)
    (stored : ∀ key ∈ keys, ∃ value, store.entries[key]? = some value)
    (runs : kvMachine.exec built (requests.map .put) = some last)
    (back : ∀ key value, built.entries[key]? = some value → EntryReadsBack (key, value)) :
    ∀ key value, last.entries[key]? = some value → EntryReadsBack (key, value) := by
  induction posts generalizing built with
  | nil =>
    cases runs
    exact back
  | @cons key request keys requests first rest ih =>
    refine ih (fun key' hkey => stored key' (List.mem_cons_of_mem _ hkey)) runs ?_
    obtain ⟨value, hvalue⟩ := stored key List.mem_cons_self
    have named := first.named hvalue (fit.admits key value hvalue).key_ne
    obtain ⟨new, value', accepts, -, -, hstore⟩ | ⟨-, hstore⟩ := built.put_cases request
    · obtain ⟨fields, hfields, rfl, rfl⟩ := accepts.fields
      simp only [KvStore.named, hfields, Option.getD_some, Prod.mk.injEq] at named
      rw [hstore, named.1, named.2]
      intro k v hv
      rw [Std.ExtTreeMap.getElem?_insert] at hv
      split at hv
      next same =>
        cases hv
        rw [← Std.LawfulEqCmp.eq_of_compare same]
        exact ⟨reread_readsBack key, reread_readsBack value⟩
      next => exact back k v hv
    · rw [hstore]
      exact back

/-- Posting the requests to a fresh server creates an entry each time, and makes the
store. -/
structure Restored (store : KvStore) (requests : List HttpRequest) : Prop where
  created : kvMachine.Meets Creates kvMachine.start (requests.map .put)
  same : kvMachine.exec kvMachine.start (requests.map .put) = some store

/-- Whenever every key's answer is posted to a fresh server, in any order, the store is
restored if and only if it holds no control character but tab, line feed and carriage
return. -/
theorem restored_iff (r : kvMachine.Reachable store) {keys : List Bytes}
    (all : keys.Perm store.entries.keys) {requests : List HttpRequest}
    (posts : List.Forall₂ store.Posts keys requests) :
    store.Restored requests ↔
      ∀ key value, store.entries[key]? = some value → EntryReadsBack (key, value) := by
  have fit := fits_of_reachable r
  have present : ∀ key, key ∈ keys ↔ ∃ value, store.entries[key]? = some value := by
    intro key
    rw [all.mem_iff, Std.ExtTreeMap.mem_keys, Std.ExtTreeMap.mem_iff_isSome_getElem?,
      Option.isSome_iff_exists]
  have stored : ∀ key ∈ keys, ∃ value, store.entries[key]? = some value :=
    fun key hkey => (present key).mp hkey
  constructor
  · intro restored
    exact readsBack_of_posts fit posts stored restored.same (by simp [kvMachine])
  · intro back
    have few : keys.length + ([] : List Bytes).length ≤ maxEntries := by
      rw [all.length_eq, Std.ExtTreeMap.length_keys]
      exact fit.size
    have readable : ∀ key ∈ keys,
        ∃ value, store.entries[key]? = some value ∧ EntryReadsBack (key, value) := by
      intro key hkey
      obtain ⟨value, hvalue⟩ := stored key hkey
      exact ⟨value, hvalue, back key value hvalue⟩
    obtain ⟨created, last, runs, holds⟩ := (holding_start store).run fit posts readable
      (all.nodup_iff.mpr Std.ExtTreeMap.nodup_keys) (fun _ _ => List.not_mem_nil) few
    refine ⟨created, ?_⟩
    rw [runs, Option.some.injEq]
    obtain ⟨entries⟩ := last
    obtain ⟨entries'⟩ := store
    congr 1
    refine Std.ExtTreeMap.ext_getElem? ?_
    intro key
    simp only [holds.entries, List.append_nil, List.mem_reverse]
    split
    next => rfl
    next absent =>
      refine (Option.eq_none_iff_forall_ne_some.mpr ?_).symm
      intro value hvalue
      exact absent ((present key).mpr ⟨value, hvalue⟩)

/-- Two forms: one sets a key of a quotation mark and a backslash to a line feed, the
other one a plain key to nothing. -/
def quotedForms : List KvCall :=
  [.put { body := ascii "key=%22%5C&value=%0A" }, .put { body := ascii "key=b&value=" }]

/-- The store after them. -/
def quotedStore : KvStore :=
  (kvMachine.exec kvMachine.start quotedForms).get (by decide +kernel)

/-- An answer, posted as JSON. -/
def posting (answer : HttpResponse) : HttpRequest where
  method := ascii "POST"
  headers := (∅ : Headers).insert (ascii "content-type") (ascii "application/json")
  body := answer.body

theorem posts_posting (store : KvStore) (key : Bytes) :
    store.Posts key (posting (store.get key)) where
  json := by
    show find _ ((AList.lookup (ascii "content-type") ((∅ : Headers).insert _ _)).getD []) ≠ none
    decide +kernel
  body := rfl

/-- The two entries are posted, the last one first. -/
theorem restored_iff_quoted :
    quotedStore.entries.size = 2 ∧
      quotedStore.Restored
        ([ascii "b", ascii "\"\\"].map fun key => posting (quotedStore.get key)) := by
  have r : kvMachine.Reachable quotedStore := .of_exec (Option.some_get _).symm
  have all : [ascii "b", ascii "\"\\"].Perm quotedStore.entries.keys := by decide +kernel
  have back : ∀ entry ∈ quotedStore.entries.toList, EntryReadsBack entry := by decide +kernel
  refine ⟨by decide +kernel, (restored_iff r all ?_).mpr ?_⟩
  · exact List.forall₂_map_right_iff.mpr
      (List.forall₂_same.mpr fun key _ => quotedStore.posts_posting key)
  · intro key value hvalue
    exact back (key, value) (Std.ExtTreeMap.mem_toList_iff_getElem?_eq_some.mpr hvalue)

end KvStore

end WebServer
