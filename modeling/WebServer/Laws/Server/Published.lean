import WebServer.Laws.Api.Fetch
import WebServer.Laws.Server.Main

/-!
# What is in the static directory is published

Containment says what is not served. This is the other half: a file that can be read, in
the static directory or below it, with no link on the way and under a path that is not too
long for the kernel, is served to every client that names it, whatever requests came
before or are answered meanwhile (`published`). It is named by its path, which the server
does not decode; an index is also named by its directory and a slash. Its type is told by
its own name, although `mimeType` looks for the last dot of the whole path
(`mimeType_pathText`).
-/

namespace WebServer

open Base

variable {root : FileTree} {site dir : List Name} {name : Name} {content : Bytes}

/-! ## The type -/

/-- No extension of the table holds a slash. -/
theorem lookup_slashed {extension : Bytes} (h : 47 ∈ extension) :
    kMimeTypes.lookup extension = none := by
  rw [List.lookup_eq_none_iff]
  intro entry hentry
  have free : ∀ entry ∈ kMimeTypes, 47 ∉ entry.1 := by decide +kernel
  rw [bne_iff_ne]
  rintro rfl
  exact free entry hentry h

/-- The last name of a path tells the type. -/
theorem mimeType_slashed (lead : Bytes) {name : Bytes} :
    mimeType (lead ++ 47 :: name) = mimeType name := by
  unfold mimeType
  rw [List.reverse_append, List.reverse_cons, List.append_assoc, List.takeWhile_append]
  by_cases dotted : 46 ∈ name
  · have stops : (name.reverse.takeWhile (· ≠ 46)).length ≠ name.reverse.length := by
      intro all
      have same := List.takeWhile_eq_self_iff.mp
        ((List.takeWhile_prefix (· ≠ (46 : UInt8))).eq_of_length all)
      exact absurd (same 46 (List.mem_reverse.mpr dotted)) (by decide)
    rw [if_neg stops, if_pos dotted, if_pos]
    exact List.mem_append_right _ (List.mem_cons_of_mem _ dotted)
  · rw [if_neg dotted]
    split
    next =>
      have all : name.reverse.takeWhile (· ≠ 46) = name.reverse := by
        rw [List.takeWhile_eq_self_iff]
        intro c hc
        simp only [ne_eq, decide_not, Bool.not_eq_eq_eq_not, Bool.not_true, decide_eq_false_iff_not]
        rintro rfl
        exact dotted (List.mem_reverse.mp hc)
      rw [if_pos (congrArg List.length all), List.cons_append, List.nil_append,
        List.takeWhile_cons_of_pos (by decide), lookup_slashed, Option.getD_none]
      simp
    next => rfl

theorem mimeType_pathText (dir : List Name) (name : Name) :
    mimeType (pathText (dir ++ [name])) = mimeType name := by
  rw [pathText_concat, mimeType_slashed]

/-! ## The file -/

/-- A file that can be read at a canonical path below the site. -/
structure SiteFile (root : FileTree) (site dir : List Name) (name : Name) (content : Bytes) :
    Prop where
  plain : Plain root (site ++ (dir ++ [name]))
  short : (pathText (site ++ (dir ++ [name]))).length < pathMax
  file : root.at? (site ++ (dir ++ [name])) = some (.file content true)

/-- The request path names the file, or the directory of which it is the index. -/
def Names (dir : List Name) (name : Name) (path : Bytes) : Prop :=
  path = pathText (dir ++ [name]) ∨
    name = ascii "index.html" ∧ path = (dir.flatMap fun name => 47 :: name) ++ [47]

/-- It begins with one slash. -/
theorem pathText_head {path : List Name} (components : ∀ name ∈ path, IsComponent name)
    (hne : path ≠ []) : ∃ rest, pathText path = 47 :: rest ∧ rest.head? ≠ some 47 := by
  cases path with
  | nil => exact absurd rfl hne
  | cons first path =>
    refine ⟨first ++ path.flatMap fun name => 47 :: name, rfl, ?_⟩
    obtain ⟨nonempty, noSlash, -⟩ := components first List.mem_cons_self
    cases first with
    | nil => exact absurd rfl nonempty
    | cons c first =>
      intro h
      cases h
      exact noSlash List.mem_cons_self

/-- What is behind the slash of a path is joined to the site's path. -/
theorem joinPath_pathText (components : ∀ name ∈ site, IsComponent name) {relative : Bytes}
    (head : relative.head? ≠ some 47) :
    joinPath (pathText site) relative =
      (site.flatMap fun name => 47 :: name) ++ 47 :: relative := by
  rw [joinPath, if_neg head]
  cases site using List.reverseRecOn with
  | nil => simp [pathText]
  | append_singleton site name =>
    rw [if_neg (pathText_last site (components name (by simp))),
      pathText_of_ne (List.concat_ne_nil name site)]

variable {path : Bytes}

/-- The candidate is the file's path. -/
theorem SiteFile.candidate (file : SiteFile root site dir name content)
    (names : Names dir name path) :
    StaticFileHandler.candidate (pathText site) path = pathText (site ++ (dir ++ [name])) := by
  obtain ⟨below, ours⟩ := List.forall_mem_append.mp file.plain.components
  have component : IsComponent name := ours name (by simp)
  have relative : (if path.getLast? = some 47 then path ++ ascii "index.html" else path) =
      pathText (dir ++ [name]) := by
    obtain rfl | ⟨rfl, rfl⟩ := names
    · rw [if_neg (pathText_last dir component)]
    · rw [if_pos (by simp), pathText_concat, List.append_assoc, List.singleton_append]
  obtain ⟨rest, whole, head⟩ := pathText_head ours (List.concat_ne_nil name dir)
  rw [StaticFileHandler.candidate, relative, whole, List.tail_cons,
    joinPath_pathText below head, ← whole, pathText_of_ne (List.concat_ne_nil name dir),
    pathText_of_ne (by simp)]
  exact List.flatMap_append.symm

/-- With no cache in between, the file is the answer. -/
theorem SiteFile.answer (file : SiteFile root site dir name content)
    (names : Names dir name path) :
    StaticFileHandler.answer root (pathText site) path =
      { contentType := mimeType name, body := content } := by
  have found := status_of_plain file.plain file.short
  have real := realpath_of_plain file.plain file.short
  have aimed : target root site path = some { names := site ++ (dir ++ [name]) } := by
    simp only [target, weaklyCanonical, file.candidate names, found, real]
  have text : CanonicalPath.text { names := site ++ (dir ++ [name]) } =
      pathText (site ++ (dir ++ [name])) :=
    List.append_nil _
  have slash : path.head? = some 47 := by
    obtain rfl | ⟨rfl, rfl⟩ := names
    · rw [pathText_concat]
      cases dir <;> rfl
    · cases dir <;> rfl
  have below : (pathText site).isPrefixOf (pathText (site ++ (dir ++ [name]))) := by
    have whole : site ++ (dir ++ [name]) ≠ [] := by simp
    rw [List.isPrefixOf_iff_prefix, pathText_of_ne whole, List.flatMap_append]
    cases site with
    | nil => cases dir <;> exact ⟨_, rfl⟩
    | cons first site => exact List.prefix_append _ _
  have read : readRegular root (pathText (site ++ (dir ++ [name]))) = some content := by
    simp only [readRegular, found, file.file]
  rw [← text] at below
  have answered := answer_of_prefix slash aimed below
  rw [text] at answered
  rw [answered, read, ← List.append_assoc, mimeType_pathText]

/-! ## The server -/

/-- What stands before the first question mark. -/
theorem takeWhile_bare {bare : Bytes} (h : 63 ∉ bare) (rest : Bytes) :
    (bare ++ 63 :: rest).takeWhile (· ≠ 63) = bare := by
  have all : ∀ c ∈ bare, decide (c ≠ 63) = true := by
    intro c hc
    rw [decide_eq_true_eq]
    rintro rfl
    exact h hc
  rw [List.takeWhile_append_of_pos all, List.takeWhile_cons_of_neg (by decide), List.append_nil]

/-- A request whose target is a path, or a path and a query, is parsed with that path. -/
theorem path_of_target {r : ClientRequest} {request : HttpRequest} (reads : Reads r request)
    (bare : 63 ∉ path) (target : r.target = path ∨ ∃ query, r.target = path ++ 63 :: query) :
    request.path = path := by
  obtain ⟨free, same, -⟩ | ⟨free, cut⟩ := reads.split
  · obtain whole | ⟨query, parts⟩ := target
    · exact same.trans whole
    · rw [parts] at free
      exact absurd (List.mem_append_right _ List.mem_cons_self) free
  · obtain whole | ⟨query, parts⟩ := target
    · rw [whole] at cut
      rw [cut] at bare
      exact absurd (List.mem_append_right _ List.mem_cons_self) bare
    · rw [← takeWhile_bare free request.query, ← cut, parts, takeWhile_bare bare]

variable {μ : Type} {toJson : μ → Nat → Nat → Bytes}

/-- A router of sound objects takes a request for the file to its content. -/
theorem SiteFile.route {desk : Desk} {past : KvStore.History}
    (file : SiteFile root site dir name content)
    (sound : desk.Sound root (pathText site) past) {request : HttpRequest}
    (names : Names dir name request.path) (unrouted : Services.Unrouted request.path)
    (metrics : μ) :
    ((Services.router root toJson).route (desk.services metrics) request).1 =
      { contentType := mimeType name, body := content } := by
  rw [Services.route_eq, Destination.of_unrouted unrouted]
  show (desk.staticFiles.call root request).1 = _
  rw [(StaticFileHandler.call_transparent sound.transparent request).1, sound.staticRoot,
    file.answer names]

/-- Whatever was asked before, a client that asks for a file of the static directory, by
any method and with any query, fields and body, is answered with its content, whether its
call is taken as a whole or other connections have their sections in between. -/
theorem published {staticRoot : Bytes} (found : realpath root staticRoot = .found site)
    (file : SiteFile root site dir name content) (names : Names dir name path)
    (bare : 63 ∉ path) (unrouted : Services.Unrouted path) (cacheCapacity : Int)
    (r : ClientRequest) (target : r.target = path ∨ ∃ query, r.target = path ++ 63 :: query) :
    ∃ parser, ({} : RequestParser).parse r.render = (.Complete, parser, []) ∧
      ∀ crowd : MainCrowd μ, (crowdMachine (mainRouter root toJson staticRoot cacheCapacity)
        (Desk.start root staticRoot cacheCapacity)).Reachable crowd →
        (∀ metrics, ((Services.router root toJson).route (crowd.server.services metrics)
          parser.req).1 = { contentType := mimeType name, body := content }) ∧
        ∀ k response, (k, parser.req, response) ∈ crowd.decided →
          response = { contentType := mimeType name, body := content } := by
  obtain ⟨parser, parsed, same⟩ := RequestParser.parse_of_wireRequest r.wireRequest []
  rw [List.append_nil] at parsed
  have named : parser.req.path = path := path_of_target (same ▸ r.reads) bare target
  refine ⟨parser, parsed, fun crowd reached => ?_⟩
  have canonical : (StaticFileHandler.new root staticRoot cacheCapacity).staticRoot =
      pathText site := by
    rw [StaticFileHandler.new, found]
  have order := inOrder reached
  rw [canonical] at order
  rw [← named] at names unrouted
  constructor
  · exact file.route order.sound names unrouted
  · intro k response hdecided
    obtain ⟨before, after, hsplit⟩ := List.append_of_mem hdecided
    have answered := order.answered before k parser.req response after hsplit
    rw [answered.file unrouted, file.answer names]

theorem get_word : ascii "GET" ≠ [] ∧ ∀ c ∈ ascii "GET", c ≠ 32 ∧ c ≠ 13 ∧ c ≠ 10 := by
  decide +kernel

theorem iconTarget_word : (ascii "/img/icon.png?v=2").head? = some 47 ∧
    ∀ c ∈ ascii "/img/icon.png?v=2", c ≠ 32 ∧ c ≠ 13 ∧ c ≠ 10 := by
  decide +kernel

theorem iconLine_short :
    (ascii "GET" ++ (ascii " " ++ (ascii "/img/icon.png?v=2" ++
      (ascii " " ++ ascii "HTTP/1.1")))).length < maxRequestLine := by
  decide +kernel

/-- The request for the icon in a directory of a site whose own name has a dot. -/
def iconRequest : ClientRequest where
  method := ascii "GET"
  target := ascii "/img/icon.png?v=2"
  version := ascii "HTTP/1.1"
  fields := []
  body := []
  method_ne := get_word.1
  method_word := get_word.2
  target_head := iconTarget_word.1
  target_word := iconTarget_word.2
  version_known := bare_version
  no_transfer := bare_transfer
  announced := bare_announced
  line_short := iconLine_short
  block_short := bare_block
  body_short := bare_body

/-- `/srv/v1.html`, with an icon and an index below it. -/
def versionedSite : FileTree :=
  .directory true [(ascii "srv", .directory true [(ascii "v1.html", .directory true [
    (ascii "index.html", .file (ascii "hello") true),
    (ascii "img", .directory true [(ascii "icon.png", .file (ascii "pixels") true)])])])]

/-- A client asks for the site's index, which is looked up, read and put into the cache. -/
def indexAsked : List (Nat × GuestStep (Found Unit)) :=
  [(0, .own .readable), (0, .own (.recv (.data oneRoot))), (0, .own (.recv .wouldBlock)),
    (0, .own (.stamp 0)), (0, .route .enter)] ++
    List.replicate 3 (0, .route (.take { metrics := () })) ++ [(0, .route (.leave 7))]

def versionedServer : Machine (MainCrowd Unit) (Nat × GuestStep (Found Unit)) :=
  crowdMachine (mainRouter versionedSite (fun _ _ _ => []) (ascii "/srv/./v1.html") 8)
    (Desk.start versionedSite (ascii "/srv/./v1.html") 8)

def indexSent : MainCrowd Unit :=
  (versionedServer.exec versionedServer.start indexAsked).get (by decide +kernel)

/-- The icon is sent, after its site's index was. -/
theorem published_icon :
    indexSent.decided.map (fun one => one.2.2.body) = [ascii "hello"] ∧
    ∃ parser, ({} : RequestParser).parse iconRequest.render = (.Complete, parser, []) ∧
      (∀ metrics, ((Services.router versionedSite fun (_ : Unit) _ _ => []).route
        (indexSent.server.services metrics) parser.req).1 =
          { contentType := ascii "image/png", body := ascii "pixels" }) ∧
      ∀ k response, (k, parser.req, response) ∈ indexSent.decided →
        response = { contentType := ascii "image/png", body := ascii "pixels" } := by
  have found : realpath versionedSite (ascii "/srv/./v1.html") =
      .found [ascii "srv", ascii "v1.html"] := rfl
  have plain : Plain versionedSite
      ([ascii "srv", ascii "v1.html"] ++ ([ascii "img"] ++ [ascii "icon.png"])) :=
    plain_of_status (show status versionedSite (ascii "/srv/v1.html/img/icon.png") = _ from rfl)
  obtain ⟨parser, parsed, sent⟩ := @published versionedSite _ _ _ _ _ Unit (fun _ _ _ => []) _
    found ⟨plain, by decide, rfl⟩ (.inl rfl) (by decide) ⟨by decide, by decide, by decide⟩ 8
    iconRequest (.inr ⟨ascii "v=2", rfl⟩)
  exact ⟨by decide +kernel, parser, parsed, sent indexSent (.of_exec (Option.some_get _).symm)⟩

end WebServer
