import WebServer.Http.Parser

/-!
# The header table

Field lines of one name are joined into one value as they arrive
(`lookup_foldl_addHeader`), which is writing the separator between their values
(`foldl_joinValue_none`).
-/

namespace WebServer

open Base

/-- Values of one name, in one. -/
def joinValues : List Bytes → Option Bytes
  | [] => none
  | value :: values => some ((ascii ", ").intercalate (value :: values))

/-- A value joined behind those already there. -/
def joinValue : Option Bytes → Bytes → Option Bytes
  | none, value => some value
  | some old, value => some (old ++ ascii ", " ++ value)

theorem lookup_addHeader (headers : Headers) (name value key : Bytes) :
    (RequestParser.addHeader headers name value).lookup key =
      if name = key then joinValue (headers.lookup key) value else headers.lookup key := by
  unfold RequestParser.addHeader
  by_cases hk : name = key
  · subst hk
    rw [if_pos rfl]
    cases hl : headers.lookup name with
    | none => simp only [joinValue, AList.lookup_insert]
    | some old => simp only [joinValue, AList.lookup_insert]
  · rw [if_neg hk]
    have hne : key ≠ name := fun heq => hk heq.symm
    split <;> exact AList.lookup_insert_ne hne

/-- Joining values one by one is writing the separator between them. -/
theorem foldl_joinValue_some (old : Bytes) (values : List Bytes) :
    values.foldl joinValue (some old) = some ((ascii ", ").intercalate (old :: values)) := by
  induction values generalizing old with
  | nil => simp [List.intercalate]
  | cons value values ih =>
    rw [List.foldl_cons, joinValue, ih]
    cases values with
    | nil => simp [List.intercalate, List.intersperse]
    | cons next values => simp [List.intercalate, List.intersperse]

theorem foldl_joinValue_none (values : List Bytes) :
    values.foldl joinValue none = joinValues values := by
  cases values with
  | nil => rfl
  | cons value values => rw [List.foldl_cons, joinValue, foldl_joinValue_some, joinValues]

/-- The table after some fields, read under one name. -/
theorem lookup_foldl_addHeader (fields : List (Bytes × Bytes)) (headers : Headers)
    (name : Bytes) :
    (fields.foldl (fun headers field => RequestParser.addHeader headers field.1 field.2)
        headers).lookup name =
      ((fields.filter fun field => field.1 = name).map Prod.snd).foldl joinValue
        (headers.lookup name) := by
  induction fields generalizing headers with
  | nil => rfl
  | cons field fields ih =>
    rw [List.foldl_cons, ih, lookup_addHeader]
    by_cases hname : field.1 = name
    · rw [if_pos hname, List.filter_cons_of_pos (by simpa using hname), List.map_cons,
        List.foldl_cons]
    · rw [if_neg hname, List.filter_cons_of_neg (by simpa using hname)]

end WebServer
