import WebServer.Http.Router

/-!
# What the Allow header says

A path that is registered, but not for the method asked for, is answered with 405
and a list of methods. The list is that of the registered methods in order
(`Router.methods`), with HEAD behind GET (`allowed_eq`), and it should be that of
the methods the router would serve. It is, but for two kinds of registration: HEAD
itself, which is listed and never looked up, and the empty method, which leaves no
trace in the list (`allowsTruly_iff`).
-/

namespace WebServer

open Base

/-! ## Lists written with separators -/

section Separated

variable {α : Type} (sep : List α) {xs ys : List (List α)}

theorem intercalate_append (hx : xs ≠ []) (hy : ys ≠ []) :
    sep.intercalate (xs ++ ys) = sep.intercalate xs ++ sep ++ sep.intercalate ys := by
  induction xs with
  | nil => exact absurd rfl hx
  | cons x xs ih =>
    cases xs with
    | nil => rw [List.singleton_append, List.intercalate_cons_of_ne_nil hy,
        List.intercalate_singleton]
    | cons x' xs =>
      rw [List.cons_append, List.cons_append, List.intercalate_cons_cons, ← List.cons_append,
        ih (List.cons_ne_nil x' xs), List.intercalate_cons_cons]
      simp only [List.append_assoc]

/-- With one more separator at the end there is one behind each text. -/
theorem intercalate_append_sep (hx : xs ≠ []) :
    sep.intercalate xs ++ sep = xs.flatMap fun x => x ++ sep := by
  induction xs with
  | nil => exact absurd rfl hx
  | cons x xs ih =>
    cases xs with
    | nil => simp
    | cons x' xs =>
      rw [List.flatMap_cons, ← ih (List.cons_ne_nil x' xs), List.intercalate_cons_cons]
      simp only [List.append_assoc]

/-- Only the empty list, and the list of one empty text, are written as nothing. -/
theorem intercalate_ne_nil (hx : xs ≠ []) (hne : ∀ x ∈ xs, x ≠ []) : sep.intercalate xs ≠ [] := by
  cases xs with
  | nil => exact absurd rfl hx
  | cons x xs =>
    have hhead := hne x List.mem_cons_self
    intro hnil
    apply hhead
    cases xs with
    | nil => rwa [List.intercalate_singleton] at hnil
    | cons x' xs =>
      rw [List.intercalate_cons_cons, List.append_assoc] at hnil
      exact (List.append_eq_nil_iff.mp hnil).1

end Separated

/-- There is nothing to take out. -/
theorem filter_ne_eq_self {x : Bytes} {xs : List Bytes} (h : x ∉ xs) :
    xs.filter (· ≠ x) = xs := by
  apply List.filter_eq_self.mpr
  intro y hy
  apply decide_eq_true
  intro heq
  exact h (heq ▸ hy)

namespace Router

variable {ρ : Type u}

/-- A later call replaces an earlier one. -/
theorem getElem?_add_self (router : Router ρ) (method path : Bytes) (handler : Handler ρ) :
    (router.add method path handler).routes[(method, path)]? = some handler :=
  Std.ExtTreeMap.getElem?_insert_self

theorem getElem?_add_of_ne (router : Router ρ) {method path : Bytes} (handler : Handler ρ)
    {key : Bytes × Bytes} (h : (method, path) ≠ key) :
    (router.add method path handler).routes[key]? = router.routes[key]? := by
  unfold add
  rw [Std.ExtTreeMap.getElem?_insert, if_neg]
  intro heq
  exact h (Std.LawfulEqCmp.eq_of_compare heq)

/-- The known paths stay in step with the routes. -/
theorem knownPaths_iff {router : Router ρ} (r : (routerMachine ρ).Reachable router) (path : Bytes) :
    path ∈ router.knownPaths ↔ ∃ method, (method, path) ∈ router.routes := by
  induction r with
  | start => simp [routerMachine]
  | @step router router' call _ _ hs ih =>
    cases call with
    | add method path' handler =>
      cases hs
      simp only [add, Std.ExtTreeSet.mem_insert, Std.ExtTreeMap.mem_insert,
        Std.LawfulEqCmp.compare_eq_iff_eq, Prod.mk.injEq, ih]
      constructor
      · rintro (rfl | ⟨m, hm⟩)
        · exact ⟨method, .inl ⟨rfl, rfl⟩⟩
        · exact ⟨m, .inr hm⟩
      · rintro ⟨m, ⟨-, rfl⟩ | hm⟩
        · exact .inl rfl
        · exact .inr ⟨m, hm⟩
    | setFallback handler =>
      cases hs
      exact ih

/-! ## The list -/

/-- The methods a path is registered for, in order. -/
def methods (router : Router ρ) (path : Bytes) : List Bytes :=
  (router.routes.keys.filter fun key => key.2 = path).map Prod.fst

/-- What the list has for a registered method. -/
def listedFor (method : Bytes) : List Bytes :=
  if method = ascii "GET" then [method, ascii "HEAD"] else [method]

theorem mem_methods {router : Router ρ} {path method : Bytes} :
    method ∈ router.methods path ↔ (method, path) ∈ router.routes := by
  unfold methods
  simp only [List.mem_map, List.mem_filter, Std.ExtTreeMap.mem_keys, decide_eq_true_eq]
  constructor
  · rintro ⟨key, ⟨hmem, rfl⟩, rfl⟩
    exact hmem
  · intro hmem
    exact ⟨(method, path), ⟨hmem, rfl⟩, rfl⟩

/-- The methods come in strict order. -/
theorem methods_ordered (router : Router ρ) (path : Bytes) :
    (router.methods path).Pairwise fun a b => compare a b = .lt := by
  unfold methods
  rw [List.pairwise_map]
  refine (Std.ExtTreeMap.ordered_keys.filter _).imp_of_mem ?_
  intro a b ha hb hlt
  have hpath : a.2 = b.2 := by
    rw [of_decide_eq_true (List.mem_filter.mp ha).2, of_decide_eq_true (List.mem_filter.mp hb).2]
  simp only [comparePairs, compareLex, compareOn, hpath, Std.ReflCmp.compare_self] at hlt
  rwa [Ordering.then_eq] at hlt

theorem methods_nodup (router : Router ρ) (path : Bytes) : (router.methods path).Nodup := by
  refine (router.methods_ordered path).imp ?_
  intro a b hlt heq
  have hself : compare b b = .eq := Std.ReflCmp.compare_self
  rw [heq, hself] at hlt
  cases hlt

/-- The empty method comes first, if it is registered. -/
theorem methods_empty_first {router : Router ρ} {path : Bytes} (h : [] ∈ router.methods path) :
    ∃ rest, router.methods path = [] :: rest := by
  have hord := router.methods_ordered path
  cases hm : router.methods path with
  | nil =>
    rw [hm] at h
    cases h
  | cons first rest =>
    rw [hm] at h hord
    rcases List.mem_cons.mp h with rfl | hrest
    · exact ⟨rest, rfl⟩
    · have hlt := (List.pairwise_cons.mp hord).1 [] hrest
      cases first with
      | nil => cases hlt
      | cons c first => cases hlt

/-! ## The value -/

theorem allowMore_eq (allowed method : Bytes) :
    allowMore allowed method = (if allowed = [] then [] else allowed ++ ascii ", ") ++
      (ascii ", ").intercalate (listedFor method) := by
  unfold allowMore listedFor
  have hsep : ascii ", HEAD" = ascii ", " ++ ascii "HEAD" := by decide
  by_cases hget : method = ascii "GET"
  · simp [hget, hsep, List.append_assoc]
    split <;> simp_all
  · simp [hget]
    split <;> simp_all

theorem listedFor_ne_nil (method : Bytes) : listedFor method ≠ [] := by
  unfold listedFor
  split <;> exact List.cons_ne_nil _ _

theorem ne_nil_of_mem_listedFor {method x : Bytes} (h : method ≠ []) (hx : x ∈ listedFor method) :
    x ≠ [] := by
  unfold listedFor at hx
  split at hx
  · rcases List.mem_pair.mp hx with rfl | rfl
    · exact h
    · decide
  · rwa [List.mem_singleton.mp hx]

/-- The list grows at its end. -/
theorem foldl_allowMore {ms before : List Bytes} (hbefore : ∀ x ∈ before, x ≠ [])
    (hms : ∀ m ∈ ms, m ≠ []) :
    ms.foldl allowMore ((ascii ", ").intercalate before) =
      (ascii ", ").intercalate (before ++ ms.flatMap listedFor) := by
  induction ms generalizing before with
  | nil => rw [List.foldl_nil, List.flatMap_nil, List.append_nil]
  | cons m ms ih =>
    have hmore : allowMore ((ascii ", ").intercalate before) m =
        (ascii ", ").intercalate (before ++ listedFor m) := by
      rw [allowMore_eq]
      cases before with
      | nil => rfl
      | cons x before =>
        have hne := List.cons_ne_nil x before
        rw [if_neg (intercalate_ne_nil _ hne hbefore),
          intercalate_append _ hne (listedFor_ne_nil m)]
    rw [List.foldl_cons, hmore, List.flatMap_cons, ← List.append_assoc]
    apply ih
    · intro x hx
      rcases List.mem_append.mp hx with hx | hx
      · exact hbefore x hx
      · exact ne_nil_of_mem_listedFor (hms m List.mem_cons_self) hx
    · intro m' hm'
      exact hms m' (List.mem_cons_of_mem m hm')

/-- The methods that leave a trace in the list. -/
def traced (router : Router ρ) (path : Bytes) : List Bytes :=
  (router.methods path).filter (· ≠ [])

/-- The value is the list of the methods that leave a trace, with HEAD behind GET. -/
theorem allowed_eq (router : Router ρ) (path : Bytes) :
    router.allowed path = (ascii ", ").intercalate ((router.traced path).flatMap listedFor) := by
  have hfold : router.allowed path = (router.methods path).foldl allowMore [] := by
    unfold allowed methods
    rw [List.foldl_map, List.foldl_filter]
    simp only [decide_eq_true_eq]
  have htraced : ∀ m ∈ router.traced path, m ≠ [] := by
    intro m hm
    exact of_decide_eq_true (List.mem_filter.mp hm).2
  have hrest : router.allowed path = (router.traced path).foldl allowMore [] := by
    rw [hfold]
    by_cases hempty : [] ∈ router.methods path
    · -- an empty method at the front leaves the value empty
      obtain ⟨rest, hm⟩ := methods_empty_first hempty
      have hnodup := router.methods_nodup path
      rw [hm, List.nodup_cons] at hnodup
      rw [traced, hm, List.filter_cons_of_neg (by simp), filter_ne_eq_self hnodup.1]
      rfl
    · rw [traced, filter_ne_eq_self hempty]
  rw [hrest]
  exact foldl_allowMore (List.forall_mem_nil _) htraced

/-! ## Its truth -/

/-- The router has a handler for requests of the method on the path. -/
def Dispatches (router : Router ρ) (method path : Bytes) : Prop :=
  (lookedUp method, path) ∈ router.routes

/-- The router answers the request with a 405 of its own. -/
def Refuses (router : Router ρ) (request : HttpRequest) : Prop :=
  ¬ router.Dispatches request.method request.path ∧ request.path ∈ router.knownPaths

/-- The answer's only header is an Allow header that lists, each once, the methods
that would be dispatched. -/
def AllowsTruly (router : Router ρ) (server : ρ) (request : HttpRequest) : Prop :=
  ∃ methods : List Bytes, methods.Nodup ∧
    (router.route server request).1.extraHeaders =
      [(ascii "Allow", (ascii ", ").intercalate methods)] ∧
    ∀ method, method ∈ methods ↔ router.Dispatches method request.path

/-- HEAD is not registered for the path, nor the empty method beside another. -/
structure PlainlyRegistered (router : Router ρ) (path : Bytes) : Prop where
  head : (ascii "HEAD", path) ∉ router.routes
  empty : ([], path) ∈ router.routes → ∀ method, (method, path) ∈ router.routes → method = []

theorem route_refused {router : Router ρ} {request : HttpRequest} (h : router.Refuses request)
    (server : ρ) :
    router.route server request = (router.methodNotAllowed request.path, server) := by
  have hnone : router.routes[(lookedUp request.method, request.path)]? = none :=
    Std.ExtTreeMap.getElem?_eq_none h.1
  unfold route
  rw [hnone]
  exact if_pos h.2

theorem dispatches_iff {router : Router ρ} {method path : Bytes} :
    router.Dispatches method path ↔
      (method = ascii "HEAD" ∧ ascii "GET" ∈ router.methods path) ∨
        (method ≠ ascii "HEAD" ∧ method ∈ router.methods path) := by
  unfold Dispatches lookedUp
  rw [mem_methods, mem_methods]
  by_cases hhead : method = ascii "HEAD"
  · simp [hhead]
  · simp [hhead]

/-- The methods that are dispatched, in the order of the registered ones. -/
def served (router : Router ρ) (path : Bytes) : List Bytes :=
  ((router.methods path).filter (· ≠ ascii "HEAD")).flatMap listedFor

theorem mem_listedFor {method x : Bytes} :
    x ∈ listedFor method ↔ x = method ∨ (method = ascii "GET" ∧ x = ascii "HEAD") := by
  unfold listedFor
  by_cases hget : method = ascii "GET"
  · simp [hget]
  · simp [hget]

theorem mem_served {router : Router ρ} {path method : Bytes} :
    method ∈ router.served path ↔ router.Dispatches method path := by
  rw [dispatches_iff]
  unfold served
  simp only [List.mem_flatMap, List.mem_filter, decide_eq_true_eq, mem_listedFor]
  constructor
  · rintro ⟨m, ⟨hmem, hne⟩, rfl | ⟨rfl, rfl⟩⟩
    · exact .inr ⟨hne, hmem⟩
    · exact .inl ⟨rfl, hmem⟩
  · rintro (⟨rfl, hmem⟩ | ⟨hne, hmem⟩)
    · exact ⟨ascii "GET", ⟨hmem, by decide⟩, .inr ⟨rfl, rfl⟩⟩
    · exact ⟨method, ⟨hmem, hne⟩, .inl rfl⟩

theorem served_nodup (router : Router ρ) (path : Bytes) : (router.served path).Nodup := by
  unfold served
  rw [List.nodup_flatMap]
  constructor
  · intro m hm
    unfold listedFor
    split
    next hget => simp [hget]; decide
    next => exact List.nodup_singleton m
  · refine ((router.methods_nodup path).filter _).imp_of_mem ?_
    intro a b ha hb hne x hxa hxb
    have hahead : a ≠ ascii "HEAD" := of_decide_eq_true (List.mem_filter.mp ha).2
    have hbhead : b ≠ ascii "HEAD" := of_decide_eq_true (List.mem_filter.mp hb).2
    rcases mem_listedFor.mp hxa with rfl | ⟨rfl, rfl⟩
    · rcases mem_listedFor.mp hxb with rfl | ⟨rfl, rfl⟩
      · exact hne rfl
      · exact hahead rfl
    · rcases mem_listedFor.mp hxb with rfl | ⟨rfl, -⟩
      · exact hbhead rfl
      · exact hne rfl

/-- The length of a list's texts with a separator behind each. -/
def weight (xs : List Bytes) : Nat := (xs.flatMap fun x => x ++ ascii ", ").length

theorem weight_append (xs ys : List Bytes) : weight (xs ++ ys) = weight xs + weight ys := by
  unfold weight
  rw [List.flatMap_append, List.length_append]

theorem weight_perm {xs ys : List Bytes} (h : xs.Perm ys) : weight xs = weight ys :=
  (h.flatMap_right _).length_eq

theorem weight_eq {xs : List Bytes} (hx : xs ≠ []) :
    weight xs = ((ascii ", ").intercalate xs).length + (ascii ", ").length := by
  unfold weight
  rw [← intercalate_append_sep _ hx, List.length_append]

/-- Leaving a method out takes off what is listed for it. -/
theorem weight_filter {ms : List Bytes} (nodup : ms.Nodup) (method : Bytes) :
    weight (ms.flatMap listedFor) = weight ((ms.filter (· ≠ method)).flatMap listedFor) +
      if method ∈ ms then weight (listedFor method) else 0 := by
  induction ms with
  | nil => rfl
  | cons m ms ih =>
    obtain ⟨hm, hrest⟩ := List.nodup_cons.mp nodup
    rw [List.flatMap_cons, weight_append, ih hrest]
    by_cases heq : m = method
    · subst heq
      rw [List.filter_cons_of_neg (by simp), if_neg hm, if_pos List.mem_cons_self]
      omega
    · have hmem : method ∈ m :: ms ↔ method ∈ ms := by simp [Ne.symm heq]
      rw [List.filter_cons_of_pos (by simpa using heq), List.flatMap_cons, weight_append]
      simp only [hmem]
      omega

/-- A truthful list is the list of the methods served, in some order. -/
theorem perm_served {router : Router ρ} {path : Bytes} {methods : List Bytes}
    (nodup : methods.Nodup) (mem : ∀ method, method ∈ methods ↔ router.Dispatches method path) :
    methods.Perm (router.served path) := by
  rw [List.perm_ext_iff_of_nodup nodup (router.served_nodup path)]
  intro method
  rw [mem, mem_served]

/-- The value is as long as a truthful list only if the path is plainly registered. -/
theorem plainly_of_value {router : Router ρ} {path : Bytes} {methods : List Bytes}
    (perm : methods.Perm (router.served path))
    (value : router.allowed path = (ascii ", ").intercalate methods) :
    router.PlainlyRegistered path := by
  by_cases htraced : router.traced path = []
  · have hempty : ∀ method, (method, path) ∈ router.routes → method = [] := by
      intro method hmem
      by_contra hne
      have hin : method ∈ router.traced path :=
        List.mem_filter.mpr ⟨mem_methods.mpr hmem, decide_eq_true hne⟩
      rw [htraced] at hin
      cases hin
    constructor
    · intro hmem
      exact absurd (hempty _ hmem) (by decide)
    · intro _
      exact hempty
  · have hne : (router.traced path).flatMap listedFor ≠ [] := by
      obtain ⟨m, ms, hm⟩ := List.exists_cons_of_ne_nil htraced
      rw [hm, List.flatMap_cons]
      exact List.append_ne_nil_of_left_ne_nil (listedFor_ne_nil m) _
    have hlength := weight_eq hne
    rw [← allowed_eq] at hlength
    have hmethods : methods ≠ [] := by
      rintro rfl
      have hnil : router.allowed path = [] := value
      rw [allowed_eq] at hnil
      refine intercalate_ne_nil _ hne ?_ hnil
      intro x hx
      obtain ⟨m, hm, hx⟩ := List.mem_flatMap.mp hx
      exact ne_nil_of_mem_listedFor (of_decide_eq_true (List.mem_filter.mp hm).2) hx
    have hlength' := weight_eq hmethods
    rw [← value, ← hlength] at hlength'
    -- the empty method and HEAD each account for a difference in length
    have hall := weight_filter (router.methods_nodup path) []
    have hall' := weight_filter (router.methods_nodup path) (ascii "HEAD")
    have hsame : weight ((router.traced path).flatMap listedFor) = weight (router.served path) :=
      hlength'.symm.trans (weight_perm perm)
    have hempty : weight (listedFor []) = 2 := by decide
    have hhead : weight (listedFor (ascii "HEAD")) = 6 := by decide
    unfold traced at hsame
    unfold served at hsame
    rw [hall', hsame, hempty, hhead] at hall
    constructor
    · intro hmem
      rw [if_pos (mem_methods.mpr hmem)] at hall
      split at hall <;> omega
    · intro hmem
      rw [if_pos (mem_methods.mpr hmem)] at hall
      split at hall <;> omega

/-- Where the path is plainly registered, the value is the list of the methods served. -/
theorem value_of_plainly {router : Router ρ} {path : Bytes} (plain : router.PlainlyRegistered path) :
    router.allowed path = (ascii ", ").intercalate (router.served path) := by
  have hhead : ascii "HEAD" ∉ router.methods path := by
    intro hm
    exact plain.head (mem_methods.mp hm)
  have hserved : router.served path = (router.methods path).flatMap listedFor := by
    rw [served, filter_ne_eq_self hhead]
  rw [allowed_eq, hserved]
  by_cases hempty : [] ∈ router.methods path
  · -- the empty method is the only one
    obtain ⟨rest, hm⟩ := methods_empty_first hempty
    have hnodup := router.methods_nodup path
    rw [hm, List.nodup_cons] at hnodup
    have hrest : rest = [] := by
      apply List.eq_nil_iff_forall_not_mem.mpr
      intro m hmem
      have hin : m ∈ router.methods path := hm ▸ List.mem_cons_of_mem [] hmem
      have hm := plain.empty (mem_methods.mp hempty) m (mem_methods.mp hin)
      exact hnodup.1 (hm ▸ hmem)
    rw [traced, hm, hrest]
    rfl
  · have htraced : router.traced path = router.methods path := filter_ne_eq_self hempty
    rw [htraced]

/-- The Allow header tells the truth exactly when the path is plainly registered. -/
theorem allowsTruly_iff (router : Router ρ) (server : ρ) (request : HttpRequest)
    (refused : router.Refuses request) :
    router.AllowsTruly server request ↔ router.PlainlyRegistered request.path := by
  have headers : (router.route server request).1.extraHeaders =
      [(ascii "Allow", router.allowed request.path)] := by
    rw [route_refused refused]
    rfl
  unfold AllowsTruly
  rw [headers]
  constructor
  · rintro ⟨methods, nodup, value, mem⟩
    refine plainly_of_value (perm_served nodup mem) ?_
    simpa using value
  · intro plain
    refine ⟨router.served request.path, router.served_nodup _, ?_, fun method => mem_served⟩
    rw [value_of_plainly plain]

/-- A handler that answers with a text. -/
def answerWith (payload : String) : Handler Unit := fun server _ => (.text (ascii payload), server)

/-- A path with a GET and a POST handler. -/
def getAndPost : Router Unit :=
  (add {} (ascii "GET") (ascii "/api/kv") (answerWith "g")).add (ascii "POST")
    (ascii "/api/kv") (answerWith "p")

def patch : HttpRequest where
  method := ascii "PATCH"
  path := ascii "/api/kv"

/-- The answer to a PATCH lists GET, HEAD and POST, and that is all there is. -/
theorem allowsTruly_getAndPost :
    getAndPost.Refuses patch ∧ getAndPost.AllowsTruly () patch ∧
      getAndPost.allowed patch.path = ascii "GET, HEAD, POST" := by
  have refused : getAndPost.Refuses patch := by
    unfold Refuses Dispatches
    decide +kernel
  have plain : getAndPost.PlainlyRegistered patch.path := by
    constructor
    · decide +kernel
    · intro h
      exact absurd h (by decide +kernel)
  exact ⟨refused, (allowsTruly_iff getAndPost () patch refused).mpr plain, by decide +kernel⟩

/-- A path with a HEAD handler only. -/
def headOnly : Router Unit := add {} (ascii "HEAD") (ascii "/page") (answerWith "h")

def head : HttpRequest where
  method := ascii "HEAD"
  path := ascii "/page"

/-- A HEAD request is refused with HEAD in the list of what is allowed. -/
theorem not_allowsTruly : ¬ ∀ (router : Router Unit) (request : HttpRequest),
    router.Refuses request → router.AllowsTruly () request := by
  intro truly
  have refused : headOnly.Refuses head := by
    unfold Refuses Dispatches
    decide +kernel
  obtain ⟨methods, nodup, headers, mem⟩ := truly headOnly head refused
  rw [route_refused refused] at headers
  have value : headOnly.allowed head.path = (ascii ", ").intercalate methods := by
    simpa [methodNotAllowed, HttpResponse.error] using headers
  exact (plainly_of_value (perm_served nodup mem) value).head (by decide +kernel)

end Router

end WebServer
