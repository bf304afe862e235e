import WebServer.Http.Query

/-!
# The two readers of a form

`queryParam` and `parseFormEncoded` read the same text, `fields`: what stands
between ampersands, cut at the first equals sign. They choose from it by different
rules. `queryParam` takes the first field whose name is the one it was asked for
as it stands (`queryParam_eq`); `parseFormEncoded` decodes the names, and its map
keeps the last of equal ones (`getElem?_parseFormEncoded`). So they agree on a
name when the two fields have one value, and no further (`sameEntry_iff`).
-/

namespace WebServer

open Base

/-! ## The fields of a form -/

/-- A segment cut at its first equals sign; without one it says nothing. -/
def cutField (segment : Bytes) : Option (Bytes × Bytes) :=
  (find [61] segment).map fun equals => (segment.take equals, segment.drop (equals + 1))

/-- The names and values of a form, as they stand in it. -/
def formFields (text : Bytes) : List (Bytes × Bytes) :=
  (text.splitOn 38).filterMap cutField

/-- The value of the first field that has the name as it stands. -/
def firstNamed (text name : Bytes) : Option Bytes :=
  ((formFields text).find? fun field => field.1 = name).map Prod.snd

/-- The value of the last field whose name is decoded to the name. -/
def lastMeaning (text name : Bytes) : Option Bytes :=
  ((formFields text).reverse.find? fun field => urlDecode field.1 = name).map Prod.snd

/-! ## `queryParam` -/

theorem pairValue_none {segment : Bytes} (h : cutField segment = none) (name : Bytes) :
    pairValue name segment = none := by
  unfold pairValue
  rw [Option.map_eq_none_iff.mp h]

theorem pairValue_some {segment : Bytes} {field : Bytes × Bytes}
    (h : cutField segment = some field) (name : Bytes) :
    pairValue name segment = if field.1 = name then some (urlDecode field.2) else none := by
  obtain ⟨equals, hequals, rfl⟩ := Option.map_eq_some_iff.mp h
  unfold pairValue
  rw [hequals]

/-- A text without an ampersand is one segment. -/
theorem formFields_last {text : Bytes} (h : find [38] text = none) :
    formFields text = (cutField text).toList := by
  have hfree : 38 ∉ text := find_single_eq_none.mp h
  have hsplit : text.splitOn 38 = [text] := by
    rw [List.splitOn_eq_splitOnP]
    apply List.splitOnP_eq_singleton
    intro c hc
    exact beq_eq_false_iff_ne.mpr fun heq => hfree (heq ▸ hc)
  unfold formFields
  rw [hsplit]
  cases hcut : cutField text with
  | none => exact List.filterMap_cons_none hcut
  | some field => exact List.filterMap_cons_some hcut

/-- The first ampersand ends the first segment. -/
theorem formFields_step {text : Bytes} {amp : Nat} (h : find [38] text = some amp) :
    formFields text = (cutField (text.take amp)).toList ++ formFields (text.drop (amp + 1)) := by
  obtain ⟨segment, rest, rfl, rfl, hfree⟩ := find_split (List.cons_ne_nil 38 []) h
  have hsplit : (segment ++ 38 :: rest).splitOn 38 = segment :: rest.splitOn 38 := by
    simp only [List.splitOn_eq_splitOnP]
    apply List.splitOnP_append_cons_of_forall_mem
    · intro c hc
      exact beq_eq_false_iff_ne.mpr fun heq => find_single_eq_none.mp hfree (heq ▸ hc)
    · rfl
  have htake : (segment ++ [38] ++ rest).take segment.length = segment := by simp
  have hdrop : (segment ++ [38] ++ rest).drop (segment.length + 1) = rest := by simp
  rw [htake, hdrop, List.append_assoc, List.singleton_append]
  unfold formFields
  rw [hsplit]
  cases hcut : cutField segment with
  | none => exact List.filterMap_cons_none hcut
  | some field => exact List.filterMap_cons_some hcut

/-- The loop finds the first field with the name, and decodes its value. -/
theorem scanQuery_eq (name text : Bytes) :
    scanQuery name text = urlDecode ((firstNamed text name).getD []) := by
  fun_induction scanQuery name text with
  | case1 => rfl
  | case2 text hne hamp =>
    rw [firstNamed, formFields_last hamp]
    cases hcut : cutField text with
    | none =>
      rw [pairValue_none hcut]
      rfl
    | some field =>
      rw [pairValue_some hcut]
      by_cases hname : field.1 = name
      · simp [hname]
      · simp [hname, urlDecode]
  | case3 text hne amp hamp value hvalue =>
    rw [firstNamed, formFields_step hamp]
    cases hcut : cutField (text.take amp) with
    | none =>
      rw [pairValue_none hcut] at hvalue
      cases hvalue
    | some field =>
      rw [pairValue_some hcut] at hvalue
      split at hvalue
      next hname =>
        cases hvalue
        simp [hname]
      next => cases hvalue
  | case4 text hne amp hamp hvalue ih =>
    rw [ih, firstNamed, firstNamed, formFields_step hamp]
    cases hcut : cutField (text.take amp) with
    | none => rfl
    | some field =>
      rw [pairValue_some hcut] at hvalue
      split at hvalue
      next => cases hvalue
      next hname => simp [hname]

/-- `queryParam` answers with the first field that has the name. -/
theorem queryParam_eq (request : HttpRequest) (name : Bytes) :
    request.queryParam name = urlDecode ((firstNamed request.query name).getD []) :=
  scanQuery_eq name request.query

/-! ## `parseFormEncoded` -/

/-- The pieces of `getline` are the segments, but for an empty one at the end. -/
theorem splitOn_eq_getlines (text : Bytes) :
    text.splitOn 38 = getlines 38 text ∨ text.splitOn 38 = getlines 38 text ++ [[]] := by
  induction text with
  | nil => exact .inr rfl
  | cons c text ih =>
    rw [List.splitOn_cons_eq_if_modifyHead, getlines]
    by_cases hc : c = 38
    · simpa [hc] using ih
    · simp only [if_neg hc, beq_iff_eq]
      cases hg : getlines 38 text with
      | nil =>
        rw [hg] at ih
        rcases ih with ih | ih
        · exact absurd ih (List.splitOn_ne_nil 38 text)
        · exact .inl (by rw [ih]; rfl)
      | cons piece pieces =>
        rw [hg] at ih
        rcases ih with ih | ih
        · exact .inl (by rw [ih]; rfl)
        · exact .inr (by rw [ih]; rfl)

theorem filterMap_getlines (text : Bytes) :
    (getlines 38 text).filterMap cutField = formFields text := by
  unfold formFields
  rcases splitOn_eq_getlines text with h | h
  · rw [h]
  · rw [h, List.filterMap_append]
    exact (List.append_nil _).symm

/-- The map is made of the decoded fields, one after the other. -/
theorem parseFormEncoded_eq (text : Bytes) :
    parseFormEncoded text = (formFields text).foldl
      (fun fields field => fields.insert (urlDecode field.1) (urlDecode field.2)) ∅ := by
  unfold parseFormEncoded
  rw [← filterMap_getlines, List.foldl_filterMap]
  congr 1
  funext fields segment
  unfold cutField
  cases find [61] segment with
  | none => rfl
  | some equals => rfl

/-- Of the fields of one name the last is kept. -/
theorem getElem?_foldl_insert (list : List (Bytes × Bytes)) (fields : Table) (name : Bytes) :
    (list.foldl (fun fields field => fields.insert (urlDecode field.1) (urlDecode field.2))
      fields)[name]? =
      ((list.reverse.find? fun field => urlDecode field.1 = name).map fun field =>
        urlDecode field.2).or fields[name]? := by
  induction list generalizing fields with
  | nil => rfl
  | cons field list ih =>
    rw [List.foldl_cons, ih, List.reverse_cons, List.find?_append, Std.ExtTreeMap.getElem?_insert]
    cases list.reverse.find? fun field => urlDecode field.1 = name with
    | some last => rfl
    | none =>
      by_cases hname : urlDecode field.1 = name
      · simp [hname]
      · simp [hname, Std.LawfulEqCmp.compare_eq_iff_eq]

/-- `parseFormEncoded` assigns to a name what the last field of that meaning says. -/
theorem getElem?_parseFormEncoded (text name : Bytes) :
    (parseFormEncoded text)[name]? = (lastMeaning text name).map urlDecode := by
  rw [parseFormEncoded_eq, getElem?_foldl_insert, lastMeaning, Option.map_map]
  simp [Function.comp_def]

/-! ## Agreement -/

/-- Both readers name the same entry by `name`. -/
def SameEntry (query name : Bytes) : Prop :=
  ({ query } : HttpRequest).queryParam name = (parseFormEncoded query)[name]?.getD []

/-- The first field with the name as it stands, and the last whose name is decoded to
it, say the same; where only one of them is there, it says nothing. -/
structure OneMeaning (query name : Bytes) : Prop where
  both : ∀ first last, firstNamed query name = some first → lastMeaning query name = some last →
    urlDecode first = urlDecode last
  named : ∀ first, firstNamed query name = some first → lastMeaning query name = none → first = []
  meant : ∀ last, firstNamed query name = none → lastMeaning query name = some last → last = []

/-- Nothing is decoded to the empty text but itself. -/
theorem urlDecode_eq_nil {text : Bytes} : urlDecode text = [] ↔ text = [] := by
  constructor
  · intro h
    cases text with
    | nil => rfl
    | cons c text =>
      rw [urlDecode.eq_def] at h
      dsimp only at h
      split at h
      · cases h
      · split at h
        · split at h
          · cases h
          · cases h
          · split at h <;> cases h
        · cases h
  · rintro rfl
    rfl

/-- The two readers name one entry exactly when the fields they choose have one
meaning. -/
theorem sameEntry_iff (query name : Bytes) : SameEntry query name ↔ OneMeaning query name := by
  unfold SameEntry
  rw [queryParam_eq, getElem?_parseFormEncoded]
  constructor
  · intro same
    constructor
    · intro first last hfirst hlast
      rw [hfirst, hlast] at same
      exact same
    · intro first hfirst hlast
      rw [hfirst, hlast] at same
      exact urlDecode_eq_nil.mp same
    · intro last hfirst hlast
      rw [hfirst, hlast] at same
      exact urlDecode_eq_nil.mp same.symm
  · intro one
    cases hfirst : firstNamed query name with
    | none =>
      cases hlast : lastMeaning query name with
      | none => rfl
      | some last => rw [one.meant last hfirst hlast]; rfl
    | some first =>
      cases hlast : lastMeaning query name with
      | none => rw [one.named first hfirst hlast]; rfl
      | some last => exact one.both first last hfirst hlast

/-- A name that is written with an escape is found in a body and missed in a query. -/
theorem not_sameEntry : ¬ ∀ query name : Bytes, name ≠ [] → SameEntry query name := by
  intro same
  have hkey := same (ascii "k%65y=a") (ascii "key") (by decide)
  unfold SameEntry at hkey
  rw [queryParam_eq, getElem?_parseFormEncoded] at hkey
  exact absurd hkey (by decide +kernel)

end WebServer
