import WebServer.Laws.Api.BoundedMap
import WebServer.Laws.Server.Dialogue
import WebServer.Laws.Server.Errands

/-!
# What the server of `main()` tells its clients

The sections of all calls come in one order (`Serially`), and every call has a section in
which its answer is settled, or none and is settled when it begins. The order in which
answers are settled is the one that explains them (`Answered`): the store is the bounded
map that the calls so far have made of it, whichever connections they came from, a file
is what the file system holds whatever happens to the cache meanwhile, and what `main()`
answers by itself is always the same. `truthful` says so of every moment of every run.
-/

namespace WebServer

open Base KvStore

variable {μ : Type} {root : FileTree} {toJson : μ → Nat → Nat → Bytes} {staticRoot : Bytes}

/-! ## What is to be answered -/

/-- The calls of the store among the requests, each beside its answer, the newest first. -/
def kvPast (decided : List (Nat × HttpRequest × HttpResponse)) : KvStore.History :=
  (decided.filterMap fun one => (Services.kvOp one.2.1).map (·, one.2.2)).reverse

/-- What is answered to a request, when these calls of the store came before it: a call of
the store is answered as the bounded map says that they have made of it, what is not
routed is answered from the file system, and the rest by a page of its own. -/
structure Answered (root : FileTree) (toJson : μ → Nat → Nat → Bytes) (staticRoot : Bytes)
    (past : KvStore.History) (request : HttpRequest) (response : HttpResponse) : Prop where
  stored : ∀ op, Services.kvOp request = some op → ∃ (store : KvStore) (m : KvMap),
    store.ActsAs m ∧ (∀ key, m.lookup key = latest key past) ∧ response = (store.call op).1
  fetched : ∀ key, Services.kvOp request = some (.get key) → key ≠ [] →
    response = match latest key past with
      | some value => .json (entryJson key value)
      | none => .json (ascii "\x7b\"error\":\"not found\"\x7d") 404
  file : Services.Unrouted request.path →
    response = StaticFileHandler.answer root staticRoot request.path
  healthz : Destination.of request = .healthz →
    response = .json (ascii "\x7b\"status\":\"ok\"\x7d")
  stats : Destination.of request = .stats → ∃ metrics hits misses,
    response = .json (toJson metrics hits misses)
  refused : Destination.of request = .refused → response = refusal request.path

namespace Answered

variable {past : KvStore.History} {request : HttpRequest} {response : HttpResponse}

/-- What is answered by a page of its own. -/
theorem of_page (noOp : Services.kvOp request = none)
    (routed : Destination.of request ≠ .file)
    (healthz : Destination.of request = .healthz →
      response = .json (ascii "\x7b\"status\":\"ok\"\x7d"))
    (stats : Destination.of request = .stats → ∃ metrics hits misses,
      response = .json (toJson metrics hits misses))
    (refused : Destination.of request = .refused → response = refusal request.path) :
    Answered root toJson staticRoot past request response where
  stored op h := by cases noOp.symm.trans h
  fetched key h := by cases noOp.symm.trans h
  file unrouted := absurd (Destination.of_unrouted unrouted) routed
  healthz := healthz
  stats := stats
  refused := refused

/-- A file, or what is said of none. -/
theorem of_file (toFile : Destination.of request = .file)
    (same : response = StaticFileHandler.answer root staticRoot request.path) :
    Answered root toJson staticRoot past request response where
  stored op h := by rw [Services.kvOp_eq, toFile] at h; cases h
  fetched key h := by rw [Services.kvOp_eq, toFile] at h; cases h
  file _ := same
  healthz h := by cases toFile.symm.trans h
  stats h := by cases toFile.symm.trans h
  refused h := by cases toFile.symm.trans h

/-- A call of a store that these calls have made. -/
theorem of_call {store : KvStore} {op : Op}
    (calls : (kvCalls.recording [] answered).Reachable (store, past))
    (hop : Services.kvOp request = some op) (same : response = (store.call op).1) :
    Answered root toJson staticRoot past request response := by
  obtain ⟨m, represents, hlatest⟩ := recorded_represents calls
  have elsewhere : ∀ {destination : Destination}, Destination.of request = destination →
      destination ≠ .file ∧ destination ≠ .healthz ∧ destination ≠ .stats ∧
        destination ≠ .refused := by
    rintro _ rfl
    rw [Services.kvOp_eq] at hop
    cases hdest : Destination.of request <;> rw [hdest] at hop <;> simp at hop ⊢
  constructor
  · intro op' h
    cases hop.symm.trans h
    exact ⟨store, m, represents.actsAs, hlatest, same⟩
  · intro key h hkey
    cases hop.symm.trans h
    rw [same]
    show store.get key = _
    rw [KvStore.get, if_neg hkey, represents key, hlatest]
    cases latest key past <;> rfl
  · exact fun unrouted => absurd rfl (elsewhere (Destination.of_unrouted unrouted)).1
  · exact fun h => absurd rfl (elsewhere h).2.1
  · exact fun h => absurd rfl (elsewhere h).2.2.1
  · exact fun h => absurd rfl (elsewhere h).2.2.2

end Answered

/-! ## The sections of one call -/

/-- The objects of `main()` are sound: the store is what its calls have made of it, and the
cache holds what the file system does. -/
structure Desk.Sound (root : FileTree) (staticRoot : Bytes) (past : KvStore.History) (desk : Desk) :
    Prop where
  calls : (kvCalls.recording [] answered).Reachable (desk.kvStore, past)
  staticRoot : desk.staticFiles.staticRoot = staticRoot
  transparent : desk.staticFiles.fileManager.Transparent root

theorem Desk.sound_start (root : FileTree) (staticRoot : Bytes) (cacheCapacity : Int) :
    (Desk.start root staticRoot cacheCapacity).Sound root
      (StaticFileHandler.new root staticRoot cacheCapacity).staticRoot [] where
  calls := .start
  staticRoot := rfl
  transparent := FileManager.transparent_new root cacheCapacity

/-- What can be left of a call for the request. What it carries from the file system to the
cache is what the file system holds. -/
inductive Errand.Suits (root : FileTree) (staticRoot : Bytes) (request : HttpRequest) :
    Errand → Prop where
  | store {op : Op} {task : Task} : Services.kvOp request = some op → validate op = .inr task →
      Suits root staticRoot request (.store task)
  | lookup {filePath : Bytes} : Destination.of request = .file →
      StaticFileHandler.resolve root staticRoot request.path = some filePath →
      Suits root staticRoot request (.lookup filePath)
  | missed {filePath : Bytes} : Destination.of request = .file →
      StaticFileHandler.resolve root staticRoot request.path = some filePath →
      Suits root staticRoot request (.missed filePath)
  | insert {filePath content : Bytes} : Destination.of request = .file →
      StaticFileHandler.resolve root staticRoot request.path = some filePath →
      readRegular root filePath = some content →
      Suits root staticRoot request (.insert filePath content)
  | stats (hits misses : Option Nat) : Destination.of request = .stats →
      Suits root staticRoot request (.stats hits misses)
  | answered (response : HttpResponse) : Suits root staticRoot request (.answered response)

/-- The call of the store that is answered now, if one is. -/
def newCall (request : HttpRequest) (response : Option HttpResponse) : KvStore.History :=
  (response.bind fun response => (Services.kvOp request).map (·, response)).toList

/-- What is left and what the objects are after a part of a call: if its answer is settled
now, that is the right one, and a call of the store is among those that made it. -/
structure Settles (root : FileTree) (toJson : μ → Nat → Nat → Bytes) (staticRoot : Bytes)
    (past : KvStore.History) (request : HttpRequest) (outcome : Errand × Desk) : Prop where
  suits : outcome.1.Suits root staticRoot request
  sound : outcome.2.Sound root staticRoot (newCall request outcome.1.response? ++ past)
  answered : ∀ response, outcome.1.response? = some response →
    Answered root toJson staticRoot past request response

section Parts

variable {past : KvStore.History} {desk : Desk} {request : HttpRequest} {errand : Errand}
  {op : Op}

/-- Nothing is settled yet. -/
theorem Settles.of_pending (suits : errand.Suits root staticRoot request)
    (sound : desk.Sound root staticRoot past) (pending : errand.response? = none) :
    Settles root toJson staticRoot past request (errand, desk) := by
  refine ⟨suits, ?_, fun response h => by cases pending.symm.trans h⟩
  rw [newCall, pending]
  exact sound

/-- What is settled is no call of the store. -/
theorem Settles.of_answered {response : HttpResponse} (noOp : Services.kvOp request = none)
    (sound : desk.Sound root staticRoot past)
    (answered : Answered root toJson staticRoot past request response) :
    Settles root toJson staticRoot past request (.answered response, desk) := by
  refine ⟨.answered response, ?_, fun response' h => ?_⟩
  · show Desk.Sound root staticRoot (newCall request (some response) ++ past) desk
    rw [newCall, noOp]
    exact sound
  · cases h
    exact answered

/-- A call of the store is settled where the store changes. -/
theorem Settles.of_call {response : HttpResponse} {kvStore : KvStore}
    (sound : desk.Sound root staticRoot past) (hop : Services.kvOp request = some op)
    (call : desk.kvStore.call op = (response, kvStore)) :
    Settles root toJson staticRoot past request (.answered response, { desk with kvStore }) := by
  refine ⟨.answered response, ⟨?_, sound.staticRoot, sound.transparent⟩, fun response' h => ?_⟩
  · have hnew : newCall request (some response) = [(op, response)] := by
      rw [newCall, hop]
      rfl
    show (kvCalls.recording [] KvStore.answered).Reachable
      (kvStore, newCall request (some response) ++ past)
    have r := Machine.Reach.step (a := op) sound.calls trivial rfl
    simp only [KvStore.answered, call] at r
    rw [hnew]
    exact r
  · cases h
    exact .of_call sound.calls hop (by rw [call])

/-- A call of the store, up to the mutex. -/
theorem Settles.begin_call (sound : desk.Sound root staticRoot past)
    (hop : Services.kvOp request = some op) :
    Settles root toJson staticRoot past request (.call op, desk) := by
  cases hvalid : validate op with
  | inl answer =>
    rw [Errand.call, hvalid]
    exact .of_call sound hop (call_of_answer hvalid desk.kvStore)
  | inr task =>
    rw [Errand.call, hvalid]
    exact .of_pending (.store hop hvalid) sound rfl

/-- A call begins in order. -/
theorem Settles.enter (sound : desk.Sound root staticRoot past) (request : HttpRequest) :
    Settles root toJson staticRoot past request (.ofRequest root staticRoot request, desk) := by
  have hop := Services.kvOp_eq request
  rw [Errand.ofRequest_eq]
  cases hdest : Destination.of request with
  | file =>
    rw [hdest] at hop
    dsimp only
    rw [Errand.serveFile]
    cases hresolve : StaticFileHandler.resolve root staticRoot request.path with
    | none =>
      refine .of_answered hop sound (.of_file hdest ?_)
      rw [StaticFileHandler.answer, hresolve]
    | some filePath => exact .of_pending (.lookup hdest hresolve) sound rfl
  | healthz =>
    rw [hdest] at hop
    refine .of_answered hop sound (.of_page hop ?_ (fun _ => rfl) ?_ ?_)
    all_goals simp [hdest]
  | stats => exact .of_pending (.stats none none hdest) sound rfl
  | getKv =>
    rw [hdest] at hop
    exact .begin_call sound hop
  | postKv =>
    rw [hdest] at hop
    exact .begin_call sound hop
  | deleteKv =>
    rw [hdest] at hop
    exact .begin_call sound hop
  | refused =>
    rw [hdest] at hop
    refine .of_answered hop sound (.of_page hop ?_ ?_ ?_ fun _ => rfl)
    all_goals simp [hdest]

/-- The cache of sound objects holds what the file system does, whatever is looked up. -/
theorem Desk.Sound.get (sound : desk.Sound root staticRoot past) (filePath : Bytes) :
    (desk.setCache (desk.cache.get filePath).2).Sound root staticRoot past where
  calls := sound.calls
  staticRoot := sound.staticRoot
  transparent := ⟨sound.transparent.valid.get filePath, sound.transparent.holds.get filePath⟩

theorem Desk.Sound.put (sound : desk.Sound root staticRoot past) {filePath content : Bytes}
    (hread : readRegular root filePath = some content) :
    (desk.setCache (desk.cache.put filePath content)).Sound root staticRoot past where
  calls := sound.calls
  staticRoot := sound.staticRoot
  transparent := ⟨sound.transparent.valid.put filePath content,
    sound.transparent.holds.put sound.transparent.valid hread⟩

/-- A hit is what the file system holds. -/
theorem Desk.Sound.hit (sound : desk.Sound root staticRoot past) {filePath content : Bytes}
    (hget : (desk.cache.get filePath).1 = some content) :
    readRegular root filePath = some content := by
  obtain ⟨node, hmem, hkey, hvalue⟩ := sound.transparent.valid.get_some hget
  have hread := sound.transparent.holds node hmem
  rwa [hkey, hvalue] at hread

/-- The answer for a file that was read, from wherever. -/
theorem answer_of_read {filePath content : Bytes}
    (hresolve : StaticFileHandler.resolve root staticRoot request.path = some filePath)
    (hread : readRegular root filePath = some content) :
    servedFile filePath content = StaticFileHandler.answer root staticRoot request.path := by
  simp only [StaticFileHandler.answer, hresolve, hread]
  rfl

/-- A section of a call goes in order. -/
theorem Settles.take (sound : desk.Sound root staticRoot past)
    (suits : errand.Suits root staticRoot request) (pending : errand.response? = none)
    (found : Found μ) :
    Settles root toJson staticRoot past request (desk.take root toJson (errand, found)) := by
  have toFile : Destination.of request = .file → Services.kvOp request = none := by
    intro h
    rw [Services.kvOp_eq, h]
  cases suits with
  | store hop hvalid => exact .of_call sound hop (call_of_task hvalid desk.kvStore)
  | @lookup filePath hdest hresolve =>
    have kept := sound.get filePath
    rcases hget : desk.cache.get filePath with ⟨_ | content, cache⟩
    · rw [hget] at kept
      simp only [Desk.take, hget]
      exact .of_pending (.missed hdest hresolve) kept rfl
    · have hread := sound.hit (by rw [hget])
      rw [hget] at kept
      simp only [Desk.take, hget]
      exact .of_answered (toFile hdest) kept (.of_file hdest (answer_of_read hresolve hread))
  | @missed filePath hdest hresolve =>
    cases hread : readRegular root filePath with
    | none =>
      simp only [Desk.take, hread]
      refine .of_answered (toFile hdest) sound (.of_file hdest ?_)
      simp only [StaticFileHandler.answer, hresolve, hread]
    | some content =>
      simp only [Desk.take, hread]
      exact .of_pending (.insert hdest hresolve hread) sound rfl
  | insert hdest hresolve hread =>
    exact .of_answered (toFile hdest) (sound.put hread)
      (.of_file hdest (answer_of_read hresolve hread))
  | stats hits misses hdest =>
    have noOp : Services.kvOp request = none := by rw [Services.kvOp_eq, hdest]
    cases hits with
    | none =>
      cases misses with
      | none =>
        rw [Desk.take]
        cases found.hitsFirst <;> exact .of_pending (.stats _ _ hdest) sound rfl
      | some misses => exact .of_pending (.stats _ _ hdest) sound rfl
    | some hits =>
      cases misses with
      | none => exact .of_pending (.stats _ _ hdest) sound rfl
      | some misses =>
        refine .of_answered noOp sound (.of_page noOp ?_ ?_ (fun _ => ⟨_, _, _, rfl⟩) ?_)
        all_goals simp [hdest]
  | answered response => cases pending

end Parts

/-! ## Every moment of every run -/

section Moments

variable {crowd crowd' : MainCrowd μ} {cacheCapacity : Int}

/-- What the sections of all connections keep: the objects are what the answers settled so
far say, each call that is under way is in order, and each answer was right when it was
settled. -/
structure InOrder (root : FileTree) (toJson : μ → Nat → Nat → Bytes) (staticRoot : Bytes)
    (crowd : MainCrowd μ) : Prop where
  sound : crowd.server.Sound root staticRoot (kvPast crowd.decided)
  suits : ∀ k request errand, (crowd.guests k).call = some (request, errand) →
    errand.Suits root staticRoot request
  answered : ∀ before k request response after,
    crowd.decided = before ++ (k, request, response) :: after →
    Answered root toJson staticRoot (kvPast before) request response

theorem kvPast_settled (k : Nat) (decided : List (Nat × HttpRequest × HttpResponse))
    (request : HttpRequest) (response : Option HttpResponse) :
    kvPast (decided ++ (response.map (k, request, ·)).toList) =
      newCall request response ++ kvPast decided := by
  rw [kvPast, List.filterMap_append, List.reverse_append]
  cases response with
  | none => rfl
  | some response =>
    cases hop : Services.kvOp request with
    | none => simp [newCall, hop, kvPast]
    | some op => simp [newCall, hop, kvPast]

/-- What is settled for a connection comes last. -/
theorem InOrder.hold (h : InOrder root toJson staticRoot crowd) (k : Nat) {request : HttpRequest}
    {left : Errand} {server : Desk} {taken : List (Nat × Errand × Found μ)}
    (settles : Settles root toJson staticRoot (kvPast crowd.decided) request (left, server)) :
    InOrder root toJson staticRoot ({ crowd with server, taken }.holdCall
      (Desk.shared root toJson staticRoot) k request left) := by
  constructor
  · show server.Sound root staticRoot (kvPast (crowd.decided ++
      (left.response?.map (k, request, ·)).toList))
    rw [kvPast_settled]
    exact settles.sound
  · intro k' request' errand hcall
    by_cases hk : k' = k
    · subst hk
      rw [Crowd.holdCall_self] at hcall
      cases hcall
      exact settles.suits
    · rw [Crowd.holdCall_of_ne hk] at hcall
      exact h.suits k' request' errand hcall
  · intro before k' request' response after hsplit
    replace hsplit : crowd.decided ++ (left.response?.map (k, request, ·)).toList =
        before ++ (k', request', response) :: after := hsplit
    cases hleft : left.response? with
    | none =>
      rw [hleft, Option.map_none, Option.toList_none, List.append_nil] at hsplit
      exact h.answered before k' request' response after hsplit
    | some response' =>
      rw [hleft, Option.map_some, Option.toList_some] at hsplit
      -- it is the last one, or was there before
      cases after using List.reverseRecOn with
      | nil =>
        obtain ⟨rfl, hlast⟩ := List.append_inj' hsplit rfl
        cases hlast
        exact settles.answered response hleft
      | append_singleton after last =>
        rw [← List.cons_append, ← List.append_assoc] at hsplit
        exact h.answered before k' request' response after (List.append_inj' hsplit rfl).1

theorem InOrder.step {label : Nat × GuestStep (Found μ)} (h : InOrder root toJson staticRoot crowd)
    (hs : crowdStep (Desk.shared root toJson staticRoot) crowd label = some crowd') :
    InOrder root toJson staticRoot crowd' := by
  obtain ⟨k, step⟩ := label
  have move := crowdStep_move hs
  have others := fun k' (hk : k' ≠ k) => move.others hk
  cases move with
  | own unrouted hstep =>
    refine ⟨h.sound, fun k' request errand hcall => ?_, h.answered⟩
    by_cases hk : k' = k
    · subst hk
      rw [Crowd.settle_self] at hcall
      exact h.suits k' request errand hcall
    · rw [others k' hk] at hcall
      exact h.suits k' request errand hcall
  | enter stage call asks => exact h.hold k (.enter h.sound _)
  | take found stage call pending =>
    exact h.hold k (.take h.sound (h.suits k _ _ call) pending found)
  | leave micros call returned hstep =>
    refine ⟨h.sound, fun k' request errand hcall => ?_, h.answered⟩
    by_cases hk : k' = k
    · subst hk
      rw [Crowd.endCall_self] at hcall
      cases hcall
    · rw [others k' hk] at hcall
      exact h.suits k' request errand hcall

theorem inOrder (r : (crowdMachine (mainRouter root toJson staticRoot cacheCapacity)
      (Desk.start root staticRoot cacheCapacity)).Reachable crowd) :
    InOrder root toJson (StaticFileHandler.new root staticRoot cacheCapacity).staticRoot crowd := by
  refine r.invariant ⟨Desk.sound_start root staticRoot cacheCapacity, ?_, ?_⟩
    fun _ _ _ h _ hs => h.step hs
  · intro k request errand hcall
    cases hcall
  · intro before k request response after hsplit
    exact absurd hsplit.symm (List.append_ne_nil_of_right_ne_nil _ (List.cons_ne_nil _ _))

/-- What is true of the server between two moments of a run: the answers come in one order,
in which those of a connection come as they do on it and those settled earlier come first,
the last of them may not be returned yet, and each is what was settled before it says. -/
structure Truthful (root : FileTree) (toJson : μ → Nat → Nat → Bytes) (staticRoot : Bytes)
    (earlier crowd : MainCrowd μ) : Prop where
  order : earlier.decided <+: crowd.decided
  program : ∀ k, Serial.share k crowd.decided = (crowd.guests k).answered ++
    ((crowd.guests k).settled (Desk.shared root toJson staticRoot)).toList
  one : ∀ k, (crowd.guests k).replies.length = (crowd.guests k).history.routed.length
  answered : ∀ before k request response after,
    crowd.decided = before ++ (k, request, response) :: after →
    Answered root toJson staticRoot (kvPast before) request response

theorem truthful {earlier : MainCrowd μ} (order : earlier.decided <+: crowd.decided)
    (r : (crowdMachine (mainRouter root toJson staticRoot cacheCapacity)
      (Desk.start root staticRoot cacheCapacity)).Reachable crowd) :
    Truthful root toJson (StaticFileHandler.new root staticRoot cacheCapacity).staticRoot
      earlier crowd where
  order := order
  program k := ((serially r).each k).decided
  one k := ((serially r).each k).length
  answered := (inOrder r).answered

/-! ## What is sent -/

theorem KvStore.locked_clean (store : KvStore) (task : Task) : (store.locked task).1.Clean := by
  cases task with
  | list => exact HttpResponse.json_clean _ _
  | get key =>
    simp only [locked]
    split <;> exact HttpResponse.json_clean _ _
  | put key value =>
    simp only [locked]
    split <;> exact HttpResponse.json_clean _ _
  | remove key =>
    simp only [locked]
    split <;> exact HttpResponse.json_clean _ _

/-- An answer that is there is clean. -/
def Errand.Clean (errand : Errand) : Prop :=
  ∀ response, errand.response? = some response → response.Clean

theorem Errand.Clean.of_pending {errand : Errand} (pending : errand.response? = none) :
    errand.Clean :=
  fun _ h => by cases pending.symm.trans h

theorem Errand.Clean.of_answered {response : HttpResponse} (clean : response.Clean) :
    (Errand.answered response).Clean :=
  fun _ h => Option.some.inj h ▸ clean

theorem KvStore.call_clean (store : KvStore) (op : Op) : (store.call op).1.Clean := by
  cases op with
  | list => exact HttpResponse.json_clean _ _
  | get key => exact store.get_clean key
  | put request => exact store.put_clean request
  | remove key => exact store.remove_clean key

theorem Errand.call_clean (op : Op) : (Errand.call op).Clean := by
  cases hvalid : validate op with
  | inl answer =>
    have clean := KvStore.call_clean {} op
    rw [call_of_answer hvalid] at clean
    rw [Errand.call, hvalid]
    exact .of_answered clean
  | inr task =>
    rw [Errand.call, hvalid]
    exact .of_pending rfl

theorem refusal_clean (path : Bytes) : (refusal path).Clean := by
  have name : OneLine (ascii "Allow") ∧ 58 ∉ ascii "Allow" ∧
      toLower (ascii "Allow") ≠ ascii "content-length" := by
    decide
  have methods : OneLine (ascii "DELETE, GET, HEAD, POST") ∧ OneLine (ascii "GET, HEAD") := by
    decide
  constructor
  · exact (HttpResponse.error_clean 405).contentType
  · intro field hin
    cases List.mem_singleton.mp hin
    exact name
  · intro field hin
    cases List.mem_singleton.mp hin
    show OneLine (if _ then _ else _)
    split
    · exact methods.1
    · exact methods.2

theorem servedFile_clean (filePath content : Bytes) : (servedFile filePath content).Clean :=
  HttpResponse.clean_of_contentType (mimeType_oneLine filePath) rfl

/-- The responses of `main()` stay what they are on the wire. -/
theorem Desk.shared_clean (root : FileTree) (toJson : μ → Nat → Nat → Bytes) (staticRoot : Bytes) :
    (Desk.shared root toJson staticRoot).Clean Errand.Clean where
  enter request := by
    show (Errand.ofRequest root staticRoot request).Clean
    rw [Errand.ofRequest_eq]
    cases Destination.of request with
    | file =>
      dsimp only
      rw [Errand.serveFile]
      cases StaticFileHandler.resolve root staticRoot request.path with
      | none => exact .of_answered (HttpResponse.error_clean 403)
      | some filePath => exact .of_pending rfl
    | healthz => exact .of_answered (HttpResponse.json_clean _ _)
    | stats => exact .of_pending rfl
    | getKv => exact Errand.call_clean _
    | postKv => exact Errand.call_clean _
    | deleteKv => exact Errand.call_clean _
    | refused => exact .of_answered (refusal_clean request.path)
  take desk errand found clean := by
    show (desk.take root toJson (errand, found)).1.Clean
    cases errand with
    | store task => exact .of_answered (KvStore.locked_clean desk.kvStore task)
    | lookup filePath =>
      rcases hget : desk.cache.get filePath with ⟨_ | content, cache⟩
      · simp only [take, hget]
        exact .of_pending rfl
      · simp only [take, hget]
        exact .of_answered (servedFile_clean filePath content)
    | missed filePath =>
      cases hread : readRegular root filePath with
      | none =>
        simp only [take, hread]
        exact .of_answered (HttpResponse.error_clean 404)
      | some content =>
        simp only [take, hread]
        exact .of_pending rfl
    | insert filePath content => exact .of_answered (servedFile_clean filePath content)
    | stats hits misses =>
      cases hits with
      | none =>
        cases misses with
        | none =>
          rw [take]
          cases found.hitsFirst <;> exact .of_pending rfl
        | some misses => exact .of_pending rfl
      | some hits =>
        cases misses with
        | none => exact .of_pending rfl
        | some misses => exact .of_answered (HttpResponse.json_clean _ _)
    | answered response => exact clean
  returned errand response clean returned := clean response returned

end Moments

end WebServer
