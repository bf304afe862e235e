import Mathlib.Data.List.Basic
import Mathlib.Data.List.Induction
import WebServer.Base.CLib

/-!
# A file system and the resolution of paths

A file system is a tree of named nodes; a symbolic link holds a path text. A
path is a text, as the kernel takes it: `status` walks it from the root, follows
the links on the way, and answers where it arrived, that nothing is there, or
that the walk failed. Names that are found are spelled out, so the answer is the
canonical path of what was found. The walk fails at a name, and before it begins at
a path, that is longer than the kernel takes. A slash at the end of a path asks for
a directory.

`weaklyCanonical` is `std::filesystem::weakly_canonical` on absolute paths: the
longest leading part that exists is made canonical (`realpath`), and what follows it
is appended and normalised as text. The library thus follows no link that stands
after a missing component, which matters to whoever opens the result; and it keeps
the slash in front of a dot that it takes away from the end.
-/

namespace WebServer.Base

/-- One component of a path. -/
abbrev Name := Bytes

/-- A node and what is below it. -/
inductive FileTree where
  | file (content : Bytes) (readable : Bool)
  | symlink (target : Bytes)
  | directory (searchable : Bool) (entries : List (Name × FileTree))

namespace FileTree

/-- The entry of a directory. -/
def child : FileTree → Name → Option FileTree
  | directory _ entries, name => entries.lookup name
  | _, _ => none

/-- The node below by a list of names, no link followed. -/
def at? : FileTree → List Name → Option FileTree
  | node, [] => some node
  | node, name :: names => (node.child name).bind (·.at? names)

end FileTree

/-- The components of a path: slashes separate, and empty components do not
count. -/
def names (path : Bytes) : List Name := (path.splitOn 47).filter (· ≠ [])

/-- The text of an absolute path. -/
def pathText : List Name → Bytes
  | [] => [47]
  | components => components.flatMap fun name => 47 :: name

/-- `operator/` on paths: an absolute right side replaces the left. -/
def joinPath (base path : Bytes) : Bytes :=
  if path.head? = some 47 then path
  else if base.getLast? = some 47 then base ++ path
  else base ++ 47 :: path

/-- What a walk of the path takes one after the other, and what the library's iterator
of it gives behind the root: the components, and an empty one for a slash at the end. -/
def steps (path : Bytes) : List Name :=
  names path ++ if path.getLast? = some 47 ∧ names path ≠ [] then [[]] else []

def dot : Name := [46]

def dotDot : Name := [46, 46]

/-- How the walk of a path ends. -/
inductive Status where
  /-- There is a node, and this is its canonical path. -/
  | found (path : List Name)
  /-- `ENOENT` or `ENOTDIR`. -/
  | missing
  /-- Another error: too many links, a name that is too long, or no right to search. -/
  | failed
  deriving DecidableEq

/-- `NAME_MAX`. -/
def nameMax : Nat := 255

/-- `PATH_MAX`, which counts the NUL at the end. -/
def pathMax : Nat := 4096

/-- Walks the components from the node at `here`; `link` goes on where a link leads, and
a path that does not fit is not looked up. -/
def walkFrom (root : FileTree) (fits : List Name → Bool) (link : List Name → List Name → Status) :
    List Name → List Name → Status
  | here, [] => .found here
  | here, name :: rest =>
    match root.at? here with
    | some (.directory searchable _) =>
      if name = [] then walkFrom root fits link here rest
      else if !searchable then .failed
      else if name = dot then walkFrom root fits link here rest
      else if name = dotDot then walkFrom root fits link here.dropLast rest
      else if nameMax < name.length || !fits (here ++ [name]) then .failed
      else
        match root.at? (here ++ [name]) with
        | none => .missing
        | some (.symlink target) =>
          link (if target.head? = some 47 then [] else here) (steps (cString target) ++ rest)
        | some _ => walkFrom root fits link (here ++ [name]) rest
    | _ => .missing

/-- Walks the components, following at most so many links. -/
def walk (root : FileTree) (fits : List Name → Bool) : Nat → List Name → List Name → Status
  | 0 => walkFrom root fits fun _ _ => .failed
  | links + 1 => walkFrom root fits (walk root fits links)

/-- The kernel's limit on the links of one path. -/
def maxLinks : Nat := 40

/-- Looks an absolute path up, as a C string. -/
def status (root : FileTree) (path : Bytes) : Status :=
  if (cString path).length < pathMax then
    walk root (fun _ => true) maxLinks [] (steps (cString path))
  else .failed

/-- `std::filesystem::canonical` of an absolute path, which is `realpath`: it asks the
kernel about each canonical path on its way, and so about none that is too long. -/
def realpath (root : FileTree) (path : Bytes) : Status :=
  walk root (fun lead => (pathText lead).length < pathMax) maxLinks [] (steps (cString path))

/-- The leading components that exist, and the rest; `none` if a lookup fails. -/
def leading (root : FileTree) (lead : List Name) : List Name → Option (List Name × List Name)
  | [] => some (lead, [])
  | name :: rest =>
    match status root (pathText (lead ++ [name])) with
    | .found _ => leading root (lead ++ [name]) rest
    | .missing => some (lead, name :: rest)
    | .failed => none

/-- A path as the library returns it: its components, and whether a slash follows. -/
structure CanonicalPath where
  names : List Name
  slash : Bool := false
  deriving DecidableEq

def CanonicalPath.text (path : CanonicalPath) : Bytes :=
  pathText path.names ++ if path.slash then [47] else []

/-- `path::lexically_normal` of an absolute path, one component at a time. -/
def normalStep (base : List Name) (name : Name) : List Name :=
  if name = [] ∨ name = dot then base
  else if name = dotDot then base.dropLast
  else base ++ [name]

/-- `path::lexically_normal` of a canonical path with more components behind it: a dot or
two at the end go, and the slash in front of them stays. -/
def normal (base rest : List Name) : CanonicalPath where
  names := rest.foldl normalStep base
  slash := rest.getLast?.any (fun name => name = [] ∨ name = dot ∨ name = dotDot) &&
    rest.foldl normalStep base ≠ []

/-- `std::filesystem::weakly_canonical` of an absolute path; `none` is an error. -/
def weaklyCanonical (root : FileTree) (path : Bytes) : Option CanonicalPath :=
  match status root path with
  | .found _ =>
    match realpath root path with
    | .found names => some { names }
    | _ => none
  | .failed => none
  | .missing =>
    match leading root [] (steps path) with
    | none => none
    | some (lead, rest) =>
      match realpath root (pathText lead) with
      | .found names => some (normal names rest)
      | _ => none

/-- `is_regular_file` and, if it says yes, opening and reading the file. -/
def readRegular (root : FileTree) (path : Bytes) : Option Bytes :=
  match status root path with
  | .found canonical =>
    match root.at? canonical with
    | some (.file content true) => some content
    | _ => none
  | _ => none

/-- A file that is read is a node of the tree. -/
theorem readRegular_eq_some {root : FileTree} {path content : Bytes}
    (h : readRegular root path = some content) :
    ∃ canonical, status root path = .found canonical ∧
      root.at? canonical = some (.file content true) := by
  simp only [readRegular] at h
  split at h
  · rename_i canonical found
    split at h
    · rename_i node
      cases h
      exact ⟨canonical, found, node⟩
    · cases h
  · cases h

/-! ## Canonical paths -/

/-- What a component of a C string path can be. -/
structure IsComponent (name : Name) : Prop where
  nonempty : name ≠ []
  noSlash : 47 ∉ name
  noNul : 0 ∉ name

/-- A canonical path: searchable directories all the way, no link, and no
component that the walk would not take for a name. -/
inductive Plain (root : FileTree) : List Name → Prop where
  | root : Plain root []
  | child {here : List Name} {name : Name} {entries : List (Name × FileTree)} {node : FileTree} :
      Plain root here → root.at? here = some (.directory true entries) →
      IsComponent name → name ≠ dot → name ≠ dotDot → name.length ≤ nameMax →
      root.at? (here ++ [name]) = some node → (∀ target, node ≠ .symlink target) →
      Plain root (here ++ [name])

theorem mem_splitOn {path : Bytes} {piece : Bytes} (h : piece ∈ path.splitOn 47) :
    47 ∉ piece ∧ ∀ c ∈ piece, c ∈ path := by
  induction path generalizing piece with
  | nil =>
    rw [List.splitOn_nil, List.mem_singleton] at h
    subst h
    exact ⟨List.not_mem_nil, fun _ hc => absurd hc List.not_mem_nil⟩
  | cons c path ih =>
    rw [List.splitOn_cons_eq_if_modifyHead] at h
    split at h
    · rcases List.mem_cons.mp h with rfl | h
      · exact ⟨List.not_mem_nil, fun _ hc => absurd hc List.not_mem_nil⟩
      · exact ⟨(ih h).1, fun d hd => List.mem_cons_of_mem c ((ih h).2 d hd)⟩
    · rename_i hc
      cases hs : path.splitOn 47 with
      | nil => exact absurd hs (List.splitOn_ne_nil 47 path)
      | cons first rest =>
        rw [hs, List.modifyHead_cons, List.mem_cons] at h
        rcases h with rfl | h
        · obtain ⟨hfree, hsub⟩ := ih (hs ▸ List.mem_cons_self)
          refine ⟨?_, ?_⟩
          · rw [List.mem_cons, not_or]
            exact ⟨fun he => hc (by simp [he]), hfree⟩
          · intro d hd
            rcases List.mem_cons.mp hd with rfl | hd
            · exact List.mem_cons_self
            · exact List.mem_cons_of_mem c (hsub d hd)
        · obtain ⟨hfree, hsub⟩ := ih (hs ▸ List.mem_cons_of_mem first h)
          exact ⟨hfree, fun d hd => List.mem_cons_of_mem c (hsub d hd)⟩

/-- The components of a C string are what they should be. -/
theorem names_component {path : Bytes} {name : Name} (h : name ∈ names (cString path)) :
    IsComponent name := by
  obtain ⟨hmem, hne⟩ := List.mem_filter.mp h
  obtain ⟨hslash, hsub⟩ := mem_splitOn hmem
  refine ⟨by simpa using hne, hslash, ?_⟩
  intro hz
  have := List.mem_takeWhile_imp (hsub 0 hz)
  simp at this

/-- A walk takes a component, or asks for a directory. -/
theorem steps_component {path : Bytes} {name : Name} (h : name ∈ steps (cString path)) :
    name = [] ∨ IsComponent name := by
  obtain h | h := List.mem_append.mp h
  · exact .inr (names_component h)
  · split at h
    · exact .inl (List.mem_singleton.mp h)
    · cases h

theorem Plain.components {root : FileTree} {path : List Name} (h : Plain root path) :
    ∀ name ∈ path, IsComponent name := by
  induction h with
  | root => exact fun _ hc => absurd hc List.not_mem_nil
  | child _ _ hname _ _ _ _ _ ih =>
    intro name hmem
    rcases List.mem_append.mp hmem with hmem | hmem
    · exact ih name hmem
    · rw [List.mem_singleton.mp hmem]
      exact hname

theorem Plain.parent {root : FileTree} {path : List Name} (h : Plain root path) :
    Plain root path.dropLast := by
  cases h with
  | root => exact .root
  | child h => rwa [List.dropLast_concat]

/-- The step that the last component of a canonical path takes. -/
theorem Plain.last {root : FileTree} {here : List Name} {name : Name}
    (h : Plain root (here ++ [name])) : Plain root here ∧
      (∃ entries, root.at? here = some (.directory true entries)) ∧ IsComponent name ∧
      name ≠ dot ∧ name ≠ dotDot ∧ name.length ≤ nameMax ∧
      ∃ node, root.at? (here ++ [name]) = some node ∧ ∀ target, node ≠ .symlink target := by
  generalize hp : here ++ [name] = path at h
  cases h with
  | root => simp at hp
  | child h dir hcomponent hdot hdots hshort node link =>
    obtain ⟨rfl, hname⟩ := List.append_inj' hp rfl
    cases hname
    exact ⟨h, ⟨_, dir⟩, hcomponent, hdot, hdots, hshort, _, node, link⟩

theorem Plain.of_append {root : FileTree} {here rest : List Name} (h : Plain root (here ++ rest)) :
    Plain root here := by
  induction rest using List.reverseRecOn with
  | nil => simpa using h
  | append_singleton rest name ih =>
    rw [← List.append_assoc] at h
    exact ih h.last.1

/-- Where a walk arrives is a canonical path. -/
theorem walkFrom_plain {root : FileTree} {fits : List Name → Bool}
    {link : List Name → List Name → Status}
    (hlink : ∀ here rest q, Plain root here → (∀ name ∈ rest, name = [] ∨ IsComponent name) →
      link here rest = .found q → Plain root q)
    {here rest q : List Name} (hhere : Plain root here)
    (hrest : ∀ name ∈ rest, name = [] ∨ IsComponent name)
    (h : walkFrom root fits link here rest = .found q) : Plain root q := by
  induction rest generalizing here with
  | nil =>
    cases h
    exact hhere
  | cons name rest ih =>
    have tail : ∀ name ∈ rest, name = [] ∨ IsComponent name :=
      fun n hn => hrest n (List.mem_cons_of_mem _ hn)
    simp only [walkFrom] at h
    split at h
    case h_2 => cases h
    case h_1 searchable entries dir =>
      split at h
      · exact ih hhere tail h
      rename_i hne
      split at h
      · cases h
      rename_i search
      split at h
      · exact ih hhere tail h
      rename_i hdot
      split at h
      · exact ih hhere.parent tail h
      rename_i hdots
      split at h
      · cases h
      rename_i short
      split at h
      · cases h
      · rename_i target _
        refine hlink _ _ q ?_ ?_ h
        · split
          · exact .root
          · exact hhere
        · intro n hn
          rcases List.mem_append.mp hn with hn | hn
          · exact steps_component hn
          · exact tail n hn
      · rename_i node notLink hnode
        have open_ : searchable = true := by simpa using search
        subst open_
        have component := (hrest name List.mem_cons_self).resolve_left hne
        have known : name.length ≤ nameMax := by
          simp only [Bool.or_eq_true, decide_eq_true_eq, not_or] at short
          exact Nat.not_lt.mp short.1
        exact ih (.child hhere dir component hdot hdots known hnode notLink) tail h

theorem walk_plain {root : FileTree} {fits : List Name → Bool} {links : Nat}
    {here rest q : List Name} (hhere : Plain root here)
    (hrest : ∀ name ∈ rest, name = [] ∨ IsComponent name)
    (h : walk root fits links here rest = .found q) : Plain root q := by
  induction links generalizing here rest q with
  | zero => exact walkFrom_plain (fun _ _ _ _ _ hf => by cases hf) hhere hrest h
  | succ links ih => exact walkFrom_plain (fun _ _ _ hh hr hf => ih hh hr hf) hhere hrest h

theorem plain_of_status {root : FileTree} {path : Bytes} {q : List Name}
    (h : status root path = .found q) : Plain root q := by
  unfold status at h
  split at h
  · exact walk_plain .root (fun _ hn => steps_component hn) h
  · cases h

theorem plain_of_realpath {root : FileTree} {path : Bytes} {q : List Name}
    (h : realpath root path = .found q) : Plain root q :=
  walk_plain .root (fun _ hn => steps_component hn) h

/-- The walk of a canonical path follows it, where every part of it fits. -/
theorem walkFrom_of_plain {root : FileTree} {fits : List Name → Bool}
    {link : List Name → List Name → Status} {here rest : List Name}
    (h : Plain root (here ++ rest)) (fit : ∀ lead, lead <+: here ++ rest → fits lead = true) :
    walkFrom root fits link here rest = .found (here ++ rest) := by
  induction rest generalizing here with
  | nil => rw [List.append_nil, walkFrom]
  | cons name rest ih =>
    rw [List.append_cons] at h fit
    obtain ⟨_, ⟨entries, dir⟩, component, hdot, hdots, short, node, hnode, notLink⟩ :=
      h.of_append.last
    have known : ¬ nameMax < name.length := Nat.not_lt.mpr short
    simp only [walkFrom, dir, component.nonempty, hdot, hdots, hnode, known,
      fit _ (List.prefix_append _ _), ↓reduceIte, Bool.not_true, Bool.false_eq_true, decide_false,
      Bool.or_self]
    rw [List.append_cons here name rest, ← ih h fit]

/-- Cutting the text of a path at its slashes gives the components. -/
theorem splitOn_slashed {path : List Name} (h : ∀ name ∈ path, IsComponent name) :
    (path.flatMap fun name => 47 :: name).splitOn 47 = [] :: path := by
  induction path with
  | nil => rfl
  | cons name path ih =>
    have first := (h name List.mem_cons_self).noSlash
    have rest := ih fun n hn => h n (List.mem_cons_of_mem name hn)
    rw [List.flatMap_cons, List.cons_append, List.splitOn_cons_eq_if_modifyHead,
      if_pos (beq_self_eq_true _)]
    congr 1
    cases path with
    | nil => rw [List.flatMap_nil, List.append_nil, List.splitOn_eq_singleton first]
    | cons name' path =>
      rw [List.flatMap_cons, List.cons_append, List.splitOn_cons_eq_if_modifyHead,
        if_pos (beq_self_eq_true _), List.cons.injEq] at rest
      rw [List.flatMap_cons, List.cons_append, List.splitOn_append_cons_self_of_not_mem first,
        rest.2]

theorem pathText_of_ne {path : List Name} (h : path ≠ []) :
    pathText path = path.flatMap fun name => 47 :: name := by
  cases path with
  | nil => exact absurd rfl h
  | cons name path => rfl

theorem pathText_concat (dir : List Name) (name : Name) :
    pathText (dir ++ [name]) = (dir.flatMap fun name => 47 :: name) ++ 47 :: name := by
  rw [pathText_of_ne (List.concat_ne_nil name dir), List.flatMap_append, List.flatMap_singleton]

/-- A path of components does not end in a slash. -/
theorem pathText_last (dir : List Name) {name : Name} (component : IsComponent name) :
    (pathText (dir ++ [name])).getLast? ≠ some 47 := by
  rw [pathText_concat, List.getLast?_append_cons, List.getLast?_cons]
  intro h
  cases hlast : name.getLast? with
  | none => exact component.nonempty (List.getLast?_eq_none_iff.mp hlast)
  | some c =>
    rw [hlast] at h
    cases h
    exact component.noSlash (List.mem_of_getLast? hlast)

/-- The part of a path is no longer than the whole. -/
theorem length_pathText_front {lead path : List Name} (h : lead <+: path) (hne : path ≠ []) :
    (pathText lead).length ≤ (pathText path).length := by
  obtain ⟨rest, rfl⟩ := h
  cases lead with
  | nil =>
    cases rest with
    | nil => exact absurd rfl hne
    | cons name rest =>
      rw [List.nil_append, pathText_of_ne (List.cons_ne_nil name rest), List.flatMap_cons,
        List.length_append]
      exact Nat.le_add_right_of_le (Nat.succ_le_succ (Nat.zero_le _))
  | cons name lead =>
    rw [pathText_of_ne hne, pathText_of_ne (List.cons_ne_nil name lead), List.flatMap_append,
      List.length_append]
    exact Nat.le_add_right _ _

/-- The text of components is a C string. -/
theorem cString_pathText {path : List Name} (h : ∀ name ∈ path, IsComponent name) :
    cString (pathText path) = pathText path := by
  cases path with
  | nil => rfl
  | cons name path =>
    rw [cString, List.takeWhile_eq_self_iff]
    intro c hc
    simp only [pathText, List.mem_flatMap, List.mem_cons] at hc
    obtain ⟨n, hn, hc⟩ := hc
    rcases hc with rfl | hc
    · rfl
    · simp only [ne_eq, decide_not, Bool.not_eq_eq_eq_not, Bool.not_true, decide_eq_false_iff_not]
      rintro rfl
      exact (h n (List.mem_cons.mpr hn)).noNul hc

theorem names_pathText {path : List Name} (h : ∀ name ∈ path, IsComponent name) :
    names (pathText path) = path := by
  cases path with
  | nil => rfl
  | cons name path =>
    rw [names, pathText, splitOn_slashed h, List.filter_cons_of_neg (by simp),
      List.filter_eq_self]
    · intro n hn
      exact decide_eq_true (h n hn).nonempty
    · exact List.cons_ne_nil name path

theorem steps_pathText {path : List Name} (h : ∀ name ∈ path, IsComponent name) :
    steps (pathText path) = path := by
  cases path using List.reverseRecOn with
  | nil => rfl
  | append_singleton dir name =>
    have component : IsComponent name := h name (by simp)
    rw [steps, names_pathText h, if_neg (fun ends => pathText_last dir component ends.1),
      List.append_nil]

/-- A canonical path, spelled out and looked up, is found where it is. -/
theorem status_of_plain {root : FileTree} {path : List Name} (h : Plain root path)
    (short : (pathText path).length < pathMax) : status root (pathText path) = .found path := by
  rw [status, cString_pathText h.components, steps_pathText h.components, if_pos short, maxLinks,
    walk]
  exact walkFrom_of_plain h fun _ _ => rfl

theorem realpath_of_plain {root : FileTree} {path : List Name} (h : Plain root path)
    (short : (pathText path).length < pathMax) : realpath root (pathText path) = .found path := by
  rw [realpath, cString_pathText h.components, steps_pathText h.components, maxLinks, walk]
  refine walkFrom_of_plain h fun lead below => decide_eq_true ?_
  by_cases hne : path = []
  · subst hne
    rw [List.prefix_nil.mp below]
    exact short
  · exact Nat.lt_of_le_of_lt (length_pathText_front below hne) short

/-- It is found nowhere else. -/
theorem eq_of_status {root : FileTree} {path q : List Name} (h : Plain root path)
    (found : status root (pathText path) = .found q) : q = path := by
  by_cases short : (pathText path).length < pathMax
  · rw [status_of_plain h short] at found
    exact (Status.found.inj found).symm
  · rw [status, cString_pathText h.components, if_neg short] at found
    cases found

end WebServer.Base
