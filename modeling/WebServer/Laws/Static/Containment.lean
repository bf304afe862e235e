import WebServer.Laws.Static.Cache
import WebServer.Static.Handler

/-!
# What the static handler serves

The handler is to serve regular files below its root and to refuse every path
that leads elsewhere. What it checks is that the canonical target's text starts
with the root's text, and a text may go on where a component does not end: the
root `/srv/static` is a prefix of `/srv/static-secret`. `contained_iff` says
exactly when the check is enough, for every file system, every root, every
request path and every earlier requests: when the target's text starts with the
root's only if the target is the root or below it, and the root itself is not a
file that can be read.

The cache is no way around this. What it holds is what the file system holds
(`Transparent`), so an answer is the same as without it.

`Canonical` is what is assumed of the library's resolution of the path: a file
found at the target has the target for its canonical path. It holds unless a
symbolic link stands behind a missing component.
-/

namespace WebServer

open Base

variable {root : FileTree}

/-! ## The cache -/

/-- The cache is in order, and every entry is what reading its file gives. -/
structure FileManager.Transparent (root : FileTree) (manager : FileManager) : Prop where
  valid : manager.cache.Valid
  holds : manager.cache.Holds fun path content => readRegular root path = some content

theorem FileManager.transparent_new (root : FileTree) (cacheCapacity : Int) :
    (FileManager.new cacheCapacity).Transparent root where
  valid := LRUCache.valid_new _
  holds := LRUCache.holds_new _ _

/-- Reading through the cache answers what reading the file does, and keeps the
cache transparent. -/
theorem FileManager.Transparent.readFile {manager : FileManager}
    (h : manager.Transparent root) (path : Bytes) :
    (manager.readFile root path).1 = readRegular root path ∧
      (manager.readFile root path).2.Transparent root := by
  have valid := h.valid.get path
  have holds := h.holds.get path
  cases hg : manager.cache.get path with
  | mk cached cache =>
    rw [hg] at valid holds
    cases cached with
    | some content =>
      obtain ⟨node, hmem, hkey, hvalue⟩ := h.valid.get_some (by rw [hg])
      have hread := h.holds node hmem
      rw [hkey, hvalue] at hread
      simp only [FileManager.readFile, hg]
      exact ⟨hread.symm, valid, holds⟩
    | none =>
      simp only [FileManager.readFile, hg]
      cases hr : readRegular root path with
      | none => exact ⟨rfl, valid, holds⟩
      | some content => exact ⟨rfl, valid.put path content, holds.put valid hr⟩

/-- The answer to a request path with no cache in between. -/
def StaticFileHandler.answer (root : FileTree) (staticRoot path : Bytes) : HttpResponse :=
  match resolve root staticRoot path with
  | none => .error 403
  | some filePath =>
    match readRegular root filePath with
    | none => .error 404
    | some content => { contentType := mimeType filePath, body := content }

/-- A handler whose cache is transparent answers from the file system, and its
cache stays so. -/
theorem StaticFileHandler.call_transparent {handler : StaticFileHandler}
    (h : handler.fileManager.Transparent root) (request : HttpRequest) :
    (handler.call root request).1 = answer root handler.staticRoot request.path ∧
      (handler.call root request).2.staticRoot = handler.staticRoot ∧
      (handler.call root request).2.fileManager.Transparent root := by
  cases hp : resolve root handler.staticRoot request.path with
  | none =>
    simp only [call, answer, hp, true_and]
    exact h
  | some filePath =>
    obtain ⟨same, kept⟩ := h.readFile filePath
    cases hr : handler.fileManager.readFile root filePath with
    | mk content manager =>
      simp only [hr] at same kept
      simp only [call, answer, hp, hr, ← same]
      cases content with
      | none => exact ⟨rfl, rfl, kept⟩
      | some content => exact ⟨rfl, rfl, kept⟩

/-- Earlier requests change neither the root nor what later ones are answered. -/
theorem StaticFileHandler.serve_transparent {handler : StaticFileHandler}
    (h : handler.fileManager.Transparent root) (requests : List HttpRequest) :
    (handler.serve root requests).staticRoot = handler.staticRoot ∧
      (handler.serve root requests).fileManager.Transparent root := by
  induction requests generalizing handler with
  | nil => exact ⟨rfl, h⟩
  | cons request requests ih =>
    obtain ⟨-, sameRoot, kept⟩ := call_transparent h request
    obtain ⟨sameRoot', kept'⟩ := ih kept
    exact ⟨sameRoot'.trans sameRoot, kept'⟩

/-! ## The root -/

/-- The canonical target of a request path under a root. -/
def target (root : FileTree) (staticRoot : List Name) (path : Bytes) : Option CanonicalPath :=
  weaklyCanonical root (StaticFileHandler.candidate (pathText staticRoot) path)

/-- A file found at the target has the target for its canonical path. -/
def Canonical (root : FileTree) (staticRoot : List Name) (path : Bytes) : Prop :=
  ∀ t, target root staticRoot path = some t → ∀ q, status root t.text = .found q → q = t.names

/-- The handler that serves below a canonical root, after some requests. -/
def handlerAfter (root : FileTree) (staticRoot : List Name) (cacheCapacity : Int)
    (requests : List HttpRequest) : StaticFileHandler :=
  StaticFileHandler.serve root
    { staticRoot := pathText staticRoot, fileManager := .new cacheCapacity } requests

/-- The law of containment for one answer: a 200 carries the content of the
regular file found at the target, whose canonical path goes on from the root's
components, and a target that does not is answered 403. -/
structure Contained (root : FileTree) (staticRoot : List Name) (path : Bytes)
    (answer : HttpResponse) : Prop where
  below : answer.status = 200 → ∃ t q content, target root staticRoot path = some t ∧
    status root t.text = .found q ∧ root.at? q = some (.file content true) ∧
    answer.body = content ∧ staticRoot <+: q ∧ q ≠ staticRoot
  refused : ∀ t, target root staticRoot path = some t → ¬ staticRoot <+: t.names →
    answer.status = 403

/-- Where the check on texts is as good as one on components: the target of an
absolute request path, if its text goes on from the root's text, is the root or
below it, and is not the root if that is a file that can be read. -/
def TextIsEnough (root : FileTree) (staticRoot : List Name) (path : Bytes) : Prop :=
  path.head? = some 47 → ∀ t, target root staticRoot path = some t →
    (pathText staticRoot).isPrefixOf t.text →
      staticRoot <+: t.names ∧ (t.names = staticRoot → readRegular root t.text = none)

theorem handlerAfter_call (root : FileTree) (staticRoot : List Name) (cacheCapacity : Int)
    (requests : List HttpRequest) (request : HttpRequest) :
    ((handlerAfter root staticRoot cacheCapacity requests).call root request).1 =
      StaticFileHandler.answer root (pathText staticRoot) request.path := by
  let fresh : StaticFileHandler :=
    { staticRoot := pathText staticRoot, fileManager := .new cacheCapacity }
  have empty : fresh.fileManager.Transparent root := FileManager.transparent_new root cacheCapacity
  obtain ⟨sameRoot, kept⟩ := StaticFileHandler.serve_transparent empty requests
  rw [handlerAfter, (StaticFileHandler.call_transparent kept request).1, sameRoot]

/-- A path that the check lets through resolves to its target's text. -/
theorem resolve_of_prefix {staticRoot : List Name} {t : CanonicalPath} {path : Bytes}
    (slash : path.head? = some 47) (ht : target root staticRoot path = some t)
    (hpre : (pathText staticRoot).isPrefixOf t.text) :
    StaticFileHandler.resolve root (pathText staticRoot) path = some t.text := by
  rw [target] at ht
  simp [StaticFileHandler.resolve, slash, ht, hpre]

/-- Whatever is served was let through by the check. -/
theorem prefix_of_resolve {staticRoot : List Name} {path filePath : Bytes}
    (h : StaticFileHandler.resolve root (pathText staticRoot) path = some filePath) :
    path.head? = some 47 ∧ ∃ t, target root staticRoot path = some t ∧
      (pathText staticRoot).isPrefixOf t.text ∧ filePath = t.text := by
  simp only [StaticFileHandler.resolve] at h
  split at h
  · cases h
  · rename_i slash
    refine ⟨not_not.mp slash, ?_⟩
    split at h
    · cases h
    · rename_i t ht
      split at h
      · rename_i hpre
        cases h
        exact ⟨t, ht, hpre, rfl⟩
      · cases h

/-- A path that the check lets through is answered from the file at its target. -/
theorem answer_of_prefix {staticRoot : List Name} {t : CanonicalPath} {path : Bytes}
    (slash : path.head? = some 47) (ht : target root staticRoot path = some t)
    (hpre : (pathText staticRoot).isPrefixOf t.text) :
    StaticFileHandler.answer root (pathText staticRoot) path =
      match readRegular root t.text with
      | none => .error 404
      | some content => { contentType := mimeType t.text, body := content } := by
  simp only [StaticFileHandler.answer, resolve_of_prefix slash ht hpre]

/-- Whatever leads out of the root is refused if the check on texts is enough. -/
theorem refused_of_enough {staticRoot : List Name} {t : CanonicalPath} {path : Bytes}
    (enough : TextIsEnough root staticRoot path) (ht : target root staticRoot path = some t)
    (out : ¬ staticRoot <+: t.names) :
    (StaticFileHandler.answer root (pathText staticRoot) path).status = 403 := by
  cases hp : StaticFileHandler.resolve root (pathText staticRoot) path with
  | none => simp [StaticFileHandler.answer, hp, HttpResponse.error]
  | some filePath =>
    obtain ⟨slash, t', ht', hpre, _⟩ := prefix_of_resolve hp
    rw [ht] at ht'
    cases ht'
    exact absurd (enough slash t ht hpre).1 out

/-- Whatever is served is the file at a target below the root if the check on
texts is enough. -/
theorem below_of_enough {staticRoot : List Name} {path : Bytes}
    (canonical : Canonical root staticRoot path) (enough : TextIsEnough root staticRoot path)
    (ok : (StaticFileHandler.answer root (pathText staticRoot) path).status = 200) :
    ∃ t q content, target root staticRoot path = some t ∧
      status root t.text = .found q ∧ root.at? q = some (.file content true) ∧
      (StaticFileHandler.answer root (pathText staticRoot) path).body = content ∧
      staticRoot <+: q ∧ q ≠ staticRoot := by
  cases hp : StaticFileHandler.resolve root (pathText staticRoot) path with
  | none => simp [StaticFileHandler.answer, hp, HttpResponse.error] at ok
  | some filePath =>
    obtain ⟨slash, t, ht, hpre, rfl⟩ := prefix_of_resolve hp
    have hanswer := answer_of_prefix slash ht hpre
    cases hr : readRegular root t.text with
    | none =>
      rw [hanswer, hr] at ok
      simp [HttpResponse.error] at ok
    | some content =>
      obtain ⟨q, hq, hfile⟩ := readRegular_eq_some hr
      have htq := canonical t ht q hq
      obtain ⟨below, self⟩ := enough slash t ht hpre
      rw [← htq] at below self
      refine ⟨t, q, content, ht, hq, hfile, by rw [hanswer, hr], below, ?_⟩
      intro same
      rw [self same] at hr
      cases hr

/-- A contained answer to a path that the check lets through has a target below
the root, which is not a readable root. -/
theorem enough_of_contained {staticRoot : List Name} {path : Bytes}
    (canonical : Canonical root staticRoot path)
    (h : Contained root staticRoot path
      (StaticFileHandler.answer root (pathText staticRoot) path)) :
    TextIsEnough root staticRoot path := by
  intro slash t ht hpre
  have hanswer := answer_of_prefix slash ht hpre
  have below : staticRoot <+: t.names := by
    by_contra out
    have := h.refused t ht out
    rw [hanswer] at this
    cases hr : readRegular root t.text <;> simp [hr, HttpResponse.error] at this
  refine ⟨below, ?_⟩
  intro same
  cases hr : readRegular root t.text with
  | none => rfl
  | some content =>
    rw [hr] at hanswer
    obtain ⟨t', q, _, ht', hq, _, _, _, hne⟩ := h.below (by rw [hanswer])
    rw [ht] at ht'
    cases ht'
    exact absurd ((canonical t ht q hq).trans same) hne

/-- After any requests, the answer to a request is contained exactly where the
check on texts is enough for its path. -/
theorem contained_iff (root : FileTree) (staticRoot : List Name) (cacheCapacity : Int)
    (requests : List HttpRequest) (request : HttpRequest)
    (canonical : Canonical root staticRoot request.path) :
    Contained root staticRoot request.path
        ((handlerAfter root staticRoot cacheCapacity requests).call root request).1 ↔
      TextIsEnough root staticRoot request.path := by
  rw [handlerAfter_call]
  constructor
  · exact enough_of_contained canonical
  · intro enough
    exact ⟨below_of_enough canonical enough, fun t ht out => refused_of_enough enough ht out⟩

/-! ## A site and its neighbour -/

/-- The target of a path under which there is something is where that is. -/
theorem target_of_found {staticRoot q q' : List Name} {path : Bytes}
    (h : status root (StaticFileHandler.candidate (pathText staticRoot) path) = .found q)
    (h' : realpath root (StaticFileHandler.candidate (pathText staticRoot) path) = .found q') :
    target root staticRoot path = some { names := q' } := by
  simp only [target, weaklyCanonical, h, h']

/-- A path under which there is something has a canonical target. -/
theorem canonical_of_found {staticRoot q : List Name} {path : Bytes}
    (h : status root (StaticFileHandler.candidate (pathText staticRoot) path) = .found q) :
    Canonical root staticRoot path := by
  intro t ht q' hq'
  simp only [target, weaklyCanonical, h] at ht
  split at ht
  next names hreal =>
    cases ht
    rw [CanonicalPath.text, if_neg Bool.false_ne_true, List.append_nil] at hq'
    exact eq_of_status (plain_of_realpath hreal) hq'
  next => cases ht

/-- `/srv/static` with its index, and `/srv/static-secret` beside it. -/
def neighbours : FileTree :=
  .directory true [(ascii "srv", .directory true [
    (ascii "static", .directory true [(ascii "index.html", .file (ascii "hello") true)]),
    (ascii "static-secret", .directory true [(ascii "key", .file (ascii "42") true)])])]

/-- `/srv/static`. -/
def site : List Name := [ascii "srv", ascii "static"]

/-- `/srv/static-secret/key`. -/
def neighbour : List Name := [ascii "srv", ascii "static-secret", ascii "key"]

/-- The index is served, and served from below the root. -/
theorem contained_index : Contained neighbours site (ascii "/index.html")
    ((handlerAfter neighbours site 8 []).call neighbours { path := ascii "/index.html" }).1 := by
  have found : status neighbours
      (StaticFileHandler.candidate (pathText site) (ascii "/index.html")) =
        .found (site ++ [ascii "index.html"]) := by rfl
  have enough : TextIsEnough neighbours site (ascii "/index.html") := by
    intro _ t ht _
    rw [target_of_found found rfl, Option.some.injEq] at ht
    subst ht
    exact ⟨List.prefix_append _ _, fun same => absurd (List.self_eq_append_right.mp same.symm)
      (List.cons_ne_nil _ _)⟩
  exact (contained_iff neighbours site 8 [] { path := ascii "/index.html" }
    (canonical_of_found found)).mpr enough

/-- The neighbour's key is served: its text goes on from the root's. -/
theorem not_contained : ¬ ∀ (root : FileTree) (staticRoot : List Name) (cacheCapacity : Int)
    (requests : List HttpRequest) (request : HttpRequest), staticRoot ≠ [] →
    status root (pathText staticRoot) = .found staticRoot →
    Canonical root staticRoot request.path →
    Contained root staticRoot request.path
      ((handlerAfter root staticRoot cacheCapacity requests).call root request).1 := by
  intro h
  have rootFound : status neighbours (pathText site) = .found site := by rfl
  have found : status neighbours
      (StaticFileHandler.candidate (pathText site) (ascii "/../static-secret/key")) =
        .found neighbour := by rfl
  have ht : target neighbours site (ascii "/../static-secret/key") = some { names := neighbour } :=
    target_of_found found rfl
  have content : readRegular neighbours (CanonicalPath.text { names := neighbour }) =
      some (ascii "42") := by rfl
  have out : ¬ site <+: neighbour := by decide
  have contained := h neighbours site 8 [] { path := ascii "/../static-secret/key" }
    (List.cons_ne_nil _ _) rootFound (canonical_of_found found)
  have refused := contained.refused { names := neighbour } ht out
  rw [handlerAfter_call, answer_of_prefix rfl ht rfl, content] at refused
  cases refused

end WebServer
