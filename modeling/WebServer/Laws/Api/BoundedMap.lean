import WebServer.Api.Sharing
import WebServer.Base.BoundedMap
import WebServer.Base.Entries
import WebServer.Laws.Api.Listing

/-!
# The store is a bounded map

Whatever calls are made of the store, and from whichever threads, its entries
are those of a map that cannot outgrow its bounds (`KvMap`), every call does to
the entries what the map allows for it (`ActsAs`), and the map is the one that
the answered calls amount to (`latest`): the last successful `put` of a key wins,
unless a `remove` of it has succeeded since (`boundedMap`).

The empty key is asked for in vain and not reported as missing: `get` refuses it
as a malformed request, as it refuses a request without the parameter
(`get_empty_refused`).
-/

namespace WebServer

open Base

namespace KvStore

/-- The entries that the store takes. -/
structure Admits (key value : Bytes) : Prop where
  key_ne : key ≠ []
  key_short : key.length ≤ maxKeyLength
  value_short : value.length ≤ maxValueLength

end KvStore

/-- The map that the store is to be. -/
abbrev KvMap := BoundedMap KvStore.Admits KvStore.maxEntries

namespace KvStore

/-- The key and the value that the body of a `put` names; a missing field, or a
body that is malformed, leaves them empty. -/
def named (request : HttpRequest) : Bytes × Bytes :=
  let fields := (readFields request).getD ∅
  (fields[ascii "key"]?.getD [], fields[ascii "value"]?.getD [])

/-- The key whose entry a call may change. -/
def Op.changes : Op → Option Bytes
  | .list | .get _ => none
  | .put request => some (named request).1
  | .remove key => some key

/-- What the last successful `put` of the key has set, unless a successful
`remove` has taken it since. -/
def latest (key : Bytes) : History → Option Bytes
  | [] => none
  | (op, answer) :: past =>
    if 400 ≤ answer.status then latest key past
    else
      match op with
      | .put request =>
        if key = (named request).1 then some (named request).2 else latest key past
      | .remove k => if key = k then none else latest key past
      | .list | .get _ => latest key past

/-- The entries of the store are those of the map. -/
def Represents (store : KvStore) (m : KvMap) : Prop := ∀ key, store.entries[key]? = m.lookup key

/-- The store does with every call what the map says: which entries it has, what
it answers, and which map it is afterwards. -/
structure ActsAs (store : KvStore) (m : KvMap) : Prop where
  represents : store.Represents m
  get_found : ∀ {key value}, m.lookup key = some value →
    store.get key = .json (entryJson key value)
  get_missing : ∀ {key}, key ≠ [] → m.lookup key = none → (store.get key).status = 404
  get_empty : (store.get []).status = 400
  put_replaces : ∀ {request} (admitted : Admits (named request).1 (named request).2)
    (present : m.lookup (named request).1 ≠ none),
    (store.put request).1.status = 200 ∧
      (store.put request).2.Represents
        (m.insert (named request).1 (named request).2 admitted (.inl present))
  put_inserts : ∀ {request} (admitted : Admits (named request).1 (named request).2)
    (_ : m.lookup (named request).1 = none) (free : m.count < maxEntries),
    (store.put request).1.status = 201 ∧
      (store.put request).2.Represents
        (m.insert (named request).1 (named request).2 admitted (.inr free))
  put_full : ∀ {request}, Admits (named request).1 (named request).2 →
    m.lookup (named request).1 = none → m.count = maxEntries →
    (store.put request).1.status = 507
  remove_present : ∀ {key}, m.lookup key ≠ none →
    (store.remove key).1.status = 200 ∧ (store.remove key).2.Represents (m.erase key)
  remove_missing : ∀ {key}, key ≠ [] → m.lookup key = none → (store.remove key).1.status = 404
  remove_empty : (store.remove []).1.status = 400
  refused : ∀ op, 400 ≤ (store.call op).1.status → (store.call op).2 = store
  frame : ∀ op key, op.changes ≠ some key →
    (store.call op).2.entries[key]? = store.entries[key]?

/-! ## The calls -/

/-- A `put` of an entry that the store takes goes for the mutex. -/
theorem put_of_admits {request : HttpRequest}
    (h : Admits (named request).1 (named request).2) (store : KvStore) :
    store.put request = store.locked (.put (named request).1 (named request).2) := by
  cases hfields : readFields request with
  | none =>
    have hkey : (named request).1 = [] := by simp [named, hfields]
    exact absurd hkey h.key_ne
  | some fields =>
    have hnamed : named request = (fields[ascii "key"]?.getD [], fields[ascii "value"]?.getD []) := by
      simp only [named, hfields, Option.getD_some]
    rw [hnamed] at h ⊢
    have hshort : ¬ ((fields[ascii "key"]?.getD []).length > maxKeyLength ∨
        (fields[ascii "value"]?.getD []).length > maxValueLength) := by
      rw [not_or, Nat.not_lt, Nat.not_lt]
      exact ⟨h.key_short, h.value_short⟩
    simp only [put, hfields, if_neg h.key_ne, if_neg hshort]
    rfl

/-- A `put` of any other entry is refused and leaves the store alone. -/
theorem put_of_not_admits {request : HttpRequest}
    (h : ¬ Admits (named request).1 (named request).2) (store : KvStore) :
    400 ≤ (store.put request).1.status ∧ (store.put request).2 = store := by
  rcases store.put_cases request with ⟨key, value, haccepts, -, -, -⟩ | ⟨hstatus, hstore⟩
  · obtain ⟨fields, hfields, rfl, rfl⟩ := haccepts.fields
    refine absurd ?_ h
    simp only [named, hfields, Option.getD_some]
    exact ⟨haccepts.key_ne, haccepts.key_short, haccepts.value_short⟩
  · exact ⟨by omega, hstore⟩

namespace Represents

variable {store : KvStore} {m : KvMap}

theorem mem_iff (h : store.Represents m) (key : Bytes) :
    key ∈ store.entries ↔ m.lookup key ≠ none := by
  rw [Std.ExtTreeMap.mem_iff_isSome_getElem?, h key, Option.isSome_iff_ne_none]

/-- The store counts the keys of the map. -/
theorem size_eq (h : store.Represents m) : store.entries.size = m.count := by
  have hnodup : store.entries.keys.Nodup :=
    Std.ExtTreeMap.distinct_keys.imp fun hne heq => hne (Std.LawfulEqCmp.compare_eq_iff_eq.mpr heq)
  rw [m.count_eq_length hnodup fun key => Std.ExtTreeMap.mem_keys.trans (h.mem_iff key)]
  exact Std.ExtTreeMap.length_keys.symm

theorem insert (h : store.Represents m) {key value : Bytes} (admitted : Admits key value)
    (room : m.HasRoom key) :
    Represents { entries := store.entries.insert key value }
      (m.insert key value admitted room) := by
  intro k
  rw [Std.ExtTreeMap.getElem?_insert, m.lookup_insert, if_compare, h k]

theorem erase (h : store.Represents m) (key : Bytes) :
    Represents { entries := store.entries.erase key } (m.erase key) := by
  intro k
  rw [Std.ExtTreeMap.getElem?_erase, m.lookup_erase, if_compare, h k]

theorem get_found (h : store.Represents m) {key value : Bytes}
    (hv : m.lookup key = some value) : store.get key = .json (entryJson key value) := by
  rw [get, if_neg (BoundedMap.admits_of_lookup hv).key_ne, h key, hv]

theorem get_missing (h : store.Represents m) {key : Bytes} (hkey : key ≠ [])
    (hv : m.lookup key = none) : (store.get key).status = 404 := by
  rw [get, if_neg hkey, h key, hv]
  rfl

/-- A `put` that finds its key only changes the value. -/
theorem locked_put_present (h : store.Represents m) {key value : Bytes}
    (present : m.lookup key ≠ none) :
    store.locked (.put key value) =
      (.json (entryJson key value), { entries := store.entries.insert key value }) := by
  have hin : key ∈ store.entries := (h.mem_iff key).mpr present
  simp only [locked, hin, not_true_eq_false, false_and, if_true, if_false]

/-- A `put` of a new key looks at the room. -/
theorem locked_put_absent (h : store.Represents m) {key value : Bytes}
    (absent : m.lookup key = none) :
    store.locked (.put key value) =
      if m.count < maxEntries then
        (.json (entryJson key value) 201, { entries := store.entries.insert key value })
      else (.json (ascii "\x7b\"error\":\"store is full\"\x7d") 507, store) := by
  have hout : key ∉ store.entries := fun hin => (h.mem_iff key).mp hin absent
  simp only [locked, hout, not_false_eq_true, true_and, if_false, h.size_eq, ge_iff_le,
    ← Nat.not_lt, ite_not]

theorem put_replaces (h : store.Represents m) {request : HttpRequest}
    (admitted : Admits (named request).1 (named request).2)
    (present : m.lookup (named request).1 ≠ none) :
    (store.put request).1.status = 200 ∧
      (store.put request).2.Represents
        (m.insert (named request).1 (named request).2 admitted (.inl present)) := by
  rw [put_of_admits admitted, h.locked_put_present present]
  exact ⟨rfl, h.insert admitted (.inl present)⟩

theorem put_inserts (h : store.Represents m) {request : HttpRequest}
    (admitted : Admits (named request).1 (named request).2)
    (absent : m.lookup (named request).1 = none) (free : m.count < maxEntries) :
    (store.put request).1.status = 201 ∧
      (store.put request).2.Represents
        (m.insert (named request).1 (named request).2 admitted (.inr free)) := by
  rw [put_of_admits admitted, h.locked_put_absent absent, if_pos free]
  exact ⟨rfl, h.insert admitted (.inr free)⟩

theorem put_full (h : store.Represents m) {request : HttpRequest}
    (admitted : Admits (named request).1 (named request).2)
    (absent : m.lookup (named request).1 = none) (full : m.count = maxEntries) :
    (store.put request).1.status = 507 ∧ (store.put request).2 = store := by
  rw [put_of_admits admitted, h.locked_put_absent absent, if_neg (Nat.not_lt.mpr full.ge)]
  exact ⟨rfl, rfl⟩

theorem remove_present (h : store.Represents m) {key : Bytes} (present : m.lookup key ≠ none) :
    (store.remove key).1.status = 200 ∧ (store.remove key).2.Represents (m.erase key) := by
  have hkey : key ≠ [] := by
    obtain ⟨value, hv⟩ := Option.ne_none_iff_exists'.mp present
    exact (BoundedMap.admits_of_lookup hv).key_ne
  rw [remove, if_neg hkey, if_pos ((h.mem_iff key).mpr present)]
  exact ⟨rfl, h.erase key⟩

theorem remove_missing (h : store.Represents m) {key : Bytes} (hkey : key ≠ [])
    (absent : m.lookup key = none) : store.remove key =
      (.json (ascii "\x7b\"error\":\"not found\"\x7d") 404, store) := by
  rw [remove, if_neg hkey, if_neg fun hin => (h.mem_iff key).mp hin absent]

end Represents

/-! ## Refusals and the other keys -/

/-- A `remove` takes its key, or is refused and leaves the store alone. -/
theorem remove_cases (store : KvStore) (key : Bytes) :
    ((store.remove key).1.status = 200 ∧
      (store.remove key).2 = { entries := store.entries.erase key }) ∨
    (400 ≤ (store.remove key).1.status ∧ (store.remove key).2 = store) := by
  unfold remove
  split
  · exact .inr ⟨Int.le_refl 400, rfl⟩
  · split
    · exact .inl ⟨rfl, rfl⟩
    · exact .inr ⟨by simp [HttpResponse.json], rfl⟩

theorem refused (store : KvStore) (op : Op) (h : 400 ≤ (store.call op).1.status) :
    (store.call op).2 = store := by
  cases op with
  | list => rfl
  | get key => rfl
  | put request =>
    rcases store.put_cases request with ⟨key, value, -, hstatus, -, -⟩ | ⟨-, hstore⟩
    · simp only [call] at h
      omega
    · exact hstore
  | remove key =>
    rcases store.remove_cases key with ⟨hstatus, -⟩ | ⟨-, hstore⟩
    · simp only [call] at h
      omega
    · exact hstore

theorem frame (store : KvStore) (op : Op) (key : Bytes) (h : op.changes ≠ some key) :
    (store.call op).2.entries[key]? = store.entries[key]? := by
  cases op with
  | list => rfl
  | get k => rfl
  | put request =>
    simp only [call]
    rcases store.put_cases request with ⟨k, value, haccepts, -, -, hstore⟩ | ⟨-, hstore⟩
    · obtain ⟨fields, hfields, rfl, -⟩ := haccepts.fields
      rw [hstore, Std.ExtTreeMap.getElem?_insert, if_neg]
      intro heq
      refine h ?_
      simp only [Op.changes, named, hfields, Option.getD_some]
      exact congrArg some (Std.LawfulEqCmp.eq_of_compare heq)
    · rw [hstore]
  | remove k =>
    simp only [call]
    rcases store.remove_cases k with ⟨-, hstore⟩ | ⟨-, hstore⟩
    · rw [hstore, Std.ExtTreeMap.getElem?_erase, if_neg]
      intro heq
      exact h (congrArg some (Std.LawfulEqCmp.eq_of_compare heq))
    · rw [hstore]

theorem Represents.actsAs {store : KvStore} {m : KvMap} (h : store.Represents m) :
    store.ActsAs m where
  represents := h
  get_found := h.get_found
  get_missing := h.get_missing
  get_empty := rfl
  put_replaces := h.put_replaces
  put_inserts := h.put_inserts
  put_full admitted absent full := (h.put_full admitted absent full).1
  remove_present := h.remove_present
  remove_missing hkey absent := by
    rw [h.remove_missing hkey absent]
    rfl
  remove_empty := rfl
  refused := store.refused
  frame := store.frame

/-! ## What the answered calls amount to -/

theorem latest_of_refused {op : Op} {answer : HttpResponse} (h : 400 ≤ answer.status)
    (key : Bytes) (past : History) : latest key ((op, answer) :: past) = latest key past := by
  cases op <;> rw [latest, if_pos h]

/-- A call leaves the map that the history with it amounts to. -/
theorem Represents.call {store : KvStore} {m : KvMap} {past : History} (h : store.Represents m)
    (hlatest : ∀ key, m.lookup key = latest key past) (op : Op) :
    ∃ m' : KvMap, (store.call op).2.Represents m' ∧
      ∀ key, m'.lookup key = latest key (store.answered op past) := by
  by_cases hstatus : 400 ≤ (store.call op).1.status
  · refine ⟨m, ?_, fun key => ?_⟩
    · rw [store.refused op hstatus]
      exact h
    · rw [answered, latest_of_refused hstatus, hlatest]
  · cases op with
    | list => exact ⟨m, h, fun key => by rw [answered, latest, if_neg hstatus, hlatest]⟩
    | get k => exact ⟨m, h, fun key => by rw [answered, latest, if_neg hstatus, hlatest]⟩
    | put request =>
      have admitted : Admits (named request).1 (named request).2 := by
        by_contra hrefused
        exact hstatus (put_of_not_admits hrefused store).1
      have room : m.HasRoom (named request).1 := by
        by_contra hroom
        rw [BoundedMap.HasRoom, not_or, not_not, Nat.not_lt] at hroom
        have hfull := (h.put_full admitted hroom.1 (m.count_le.antisymm hroom.2)).1
        simp only [KvStore.call] at hstatus
        omega
      refine ⟨m.insert _ _ admitted room, ?_, fun key => ?_⟩
      · by_cases present : m.lookup (named request).1 = none
        · exact (h.put_inserts admitted present (room.resolve_left (not_not.mpr present))).2
        · exact (h.put_replaces admitted present).2
      · rw [answered, latest, if_neg hstatus, m.lookup_insert, hlatest]
    | remove k =>
      have present : m.lookup k ≠ none := by
        intro absent
        by_cases hk : k = []
        · subst hk
          exact hstatus (Int.le_refl 400)
        · simp only [KvStore.call, h.remove_missing hk absent] at hstatus
          exact hstatus (by simp [HttpResponse.json])
      refine ⟨m.erase k, (h.remove_present present).2, fun key => ?_⟩
      rw [answered, latest, if_neg hstatus, m.lookup_erase, hlatest]

/-- The store is at every point the map that the answered calls amount to. -/
theorem recorded_represents {p : KvStore × History}
    (r : (kvCalls.recording [] answered).Reachable p) :
    ∃ m : KvMap, p.1.Represents m ∧ ∀ key, m.lookup key = latest key p.2 := by
  refine r.invariant
    (I := fun p => ∃ m : KvMap, p.1.Represents m ∧ ∀ key, m.lookup key = latest key p.2) ?_ ?_
  · refine ⟨.empty Admits maxEntries, fun key => ?_, fun key => BoundedMap.lookup_empty key⟩
    rw [BoundedMap.lookup_empty]
    exact Std.ExtTreeMap.getElem?_empty
  · rintro p op q ⟨m, h, hlatest⟩ - hs
    obtain ⟨hstep, hhistory⟩ := Machine.recording_step hs
    rw [hhistory, ← Option.some.inj hstep]
    exact h.call hlatest op

/-! ## Threads -/

/-- The next store and history: no call has been answered, or one has. -/
inductive Answers (store : KvStore) (past : History) : KvStore → History → Prop where
  | none : Answers store past store past
  | call (op : Op) : Answers store past (store.call op).2 (store.answered op past)

theorem Answers.reachable {store store' : KvStore} {past past' : History}
    (h : Answers store past store' past')
    (r : (kvCalls.recording [] answered).Reachable (store, past)) :
    (kvCalls.recording [] answered).Reachable (store', past') := by
  cases h with
  | none => exact r
  | call op => exact .step (a := op) r trivial rfl

end KvStore

open KvStore

/-- What a thread goes to the mutex with is what its call leaves to do. -/
def KvThreads.Validated (s : KvThreads) : Prop :=
  ∀ thread op task, s.waiting thread = some (op, task) → validate op = .inr task

theorem KvThreads.Validated.update {s : KvThreads} (h : s.Validated) (store : KvStore)
    (thread : Nat) {waits : Option (Op × Task)}
    (hwaits : ∀ op task, waits = some (op, task) → validate op = .inr task) :
    KvThreads.Validated { store, waiting := Function.update s.waiting thread waits } := by
  intro t op task hin
  dsimp only at hin
  by_cases ht : t = thread
  · rw [ht, Function.update_self] at hin
    exact hwaits op task hin
  · rw [Function.update_of_ne ht] at hin
    exact h t op task hin

/-- A step of a thread answers its call from the store as it finds it, or
leaves the store alone. -/
theorem KvThreads.Validated.step {s s' : KvThreads} {event : KvEvent} (h : s.Validated)
    (hs : kvThreads.step s event = some s') (past : History) :
    s'.Validated ∧ Answers s.store past s'.store (s.answered event past) := by
  cases event with
  | enter thread op =>
    simp only [kvThreads] at hs
    cases hwaiting : s.waiting thread with
    | some call => simp only [hwaiting, reduceCtorEq] at hs
    | none =>
      cases hop : validate op with
      | inl answer =>
        simp only [hwaiting, hop, Option.some.injEq] at hs
        rw [← hs]
        refine ⟨h, ?_⟩
        have hcall : Answers s.store past _ _ := .call op
        rw [KvStore.answered, call_of_answer hop] at hcall
        simp only [KvThreads.answered, hop]
        exact hcall
      | inr task =>
        simp only [hwaiting, hop, Option.some.injEq] at hs
        rw [← hs]
        refine ⟨h.update s.store thread fun o k hwaits => ?_, ?_⟩
        · cases hwaits
          exact hop
        · simp only [KvThreads.answered, hop]
          exact .none
  | lock thread =>
    simp only [kvThreads] at hs
    cases hwaiting : s.waiting thread with
    | none => simp only [hwaiting, reduceCtorEq] at hs
    | some call =>
      obtain ⟨op, task⟩ := call
      simp only [hwaiting, Option.some.injEq] at hs
      rw [← hs]
      refine ⟨h.update _ thread fun o k hwaits => ?_, ?_⟩
      · cases hwaits
      · have hcall : Answers s.store past _ _ := .call op
        rw [KvStore.answered, call_of_task (h thread op task hwaiting)] at hcall
        simp only [KvThreads.answered, hwaiting]
        exact hcall

/-- However the threads interleave, the store and its history are those of the
calls made one after the other. -/
theorem kvThreads_simulates {p : KvThreads × History}
    (r : (kvThreads.recording [] KvThreads.answered).Reachable p) :
    p.1.Validated ∧ (kvCalls.recording [] KvStore.answered).Reachable (p.1.store, p.2) := by
  refine r.invariant (I := fun p => p.1.Validated ∧
    (kvCalls.recording [] KvStore.answered).Reachable (p.1.store, p.2)) ?_ ?_
  · refine ⟨fun thread op task h => ?_, .start⟩
    cases h
  · rintro p event q ⟨hvalid, ih⟩ - hs
    obtain ⟨hstep, hhistory⟩ := Machine.recording_step hs
    obtain ⟨hvalid', hanswers⟩ := hvalid.step hstep p.2
    rw [← hhistory] at hanswers
    exact ⟨hvalid', hanswers.reachable ih⟩

/-- The law of the store over a run: the entries are within their bounds and are
those of the map that the answered calls amount to, every call does what the map
says, and the next step of any thread answers one such call or none. -/
structure KvThreads.Lawful (s : KvThreads) (past : History) : Prop where
  acts : ∃ m : KvMap, s.store.ActsAs m ∧ ∀ key, m.lookup key = latest key past
  size_le : s.store.entries.size ≤ maxEntries
  bounded : ∀ {key value : Bytes}, s.store.entries[key]? = some value →
    1 ≤ key.length ∧ key.length ≤ maxKeyLength ∧ value.length ≤ maxValueLength
  answers : ∀ {event s'}, kvThreads.step s event = some s' →
    Answers s.store past s'.store (s.answered event past)

/-- Under every interleaving of the calls of any threads, the store is a bounded
map in which the last successful call wins. -/
theorem boundedMap {p : KvThreads × History}
    (r : (kvThreads.recording [] KvThreads.answered).Reachable p) : p.1.Lawful p.2 := by
  obtain ⟨hvalid, hcalls⟩ := kvThreads_simulates r
  obtain ⟨m, h, hlatest⟩ := recorded_represents hcalls
  refine ⟨⟨m, h.actsAs, hlatest⟩, ?_, fun {key value} hv => ?_, fun hs => (hvalid.step hs p.2).2⟩
  · rw [h.size_eq]
    exact m.count_le
  · have hadmitted := BoundedMap.admits_of_lookup ((h key).symm.trans hv)
    exact ⟨List.length_pos_iff.mpr hadmitted.key_ne, hadmitted.key_short, hadmitted.value_short⟩

/-- A form that sets the key `a`. -/
def setForm (value : String) : HttpRequest where
  method := ascii "POST"
  body := ascii "key=a&value=" ++ ascii value

/-- Two threads set the key at once, one takes it away, and the other sets it
again. -/
def reinserted : List KvEvent :=
  [.enter 1 (.put (setForm "x")), .enter 2 (.put (setForm "y")), .lock 2, .lock 1,
    .enter 1 (.remove (ascii "a")), .lock 1, .enter 2 (.put (setForm "z")), .lock 2]

/-- The key then has the value that it was set to last. -/
theorem boundedMap_reinserted :
    ∃ p, (kvThreads.recording [] KvThreads.answered).exec ({}, []) reinserted = some p ∧
      p.1.store.get (ascii "a") = .json (entryJson (ascii "a") (ascii "z")) := by
  have hrun : ((kvThreads.recording [] KvThreads.answered).exec ({}, []) reinserted).map
      (fun p => latest (ascii "a") p.2) = some (some (ascii "z")) := by decide +kernel
  obtain ⟨p, hexec, hlast⟩ := Option.map_eq_some_iff.mp hrun
  obtain ⟨m, hacts, hlatest⟩ := (boundedMap (.of_exec hexec)).acts
  exact ⟨p, hexec, hacts.get_found ((hlatest _).trans hlast)⟩

/-- Not every key that no `put` has set is reported as missing: the empty one is
refused. -/
theorem get_empty_refused :
    ¬ ∀ p, (kvThreads.recording [] KvThreads.answered).Reachable p →
      ∀ key, latest key p.2 = none → (p.1.store.get key).status = 404 := by
  intro h
  have hempty := h ({}, []) .start [] rfl
  exact absurd hempty (by decide +kernel)

end WebServer
