import Mathlib.Data.List.Basic

/-!
# One object and many callers

An object answers calls and changes by them. Callers that share it get, each, its
share of the exchanges of one serial run: the calls of all, beside their answers, in
the order in which the object took them. `share` picks a caller's part out of such an
order, and the `_concat` lemmas say what one more call adds to it.
-/

namespace WebServer.Serial

variable {σ : Type u} {ι : Type v} {ω : Type w} {κ : Type x} {β : Type y}

section Runs

variable (act : σ → ι → ω × σ)

/-- What the object is after the calls. -/
def run (s : σ) (calls : List (κ × ι)) : σ :=
  calls.foldl (fun s call => (act s call.2).2) s

/-- The calls, each beside its caller and its answer. -/
def exchanges (s : σ) : List (κ × ι) → List (κ × ι × ω)
  | [] => []
  | call :: calls => (call.1, call.2, (act s call.2).1) :: exchanges (act s call.2).2 calls

theorem run_concat (s : σ) (calls : List (κ × ι)) (k : κ) (i : ι) :
    run act s (calls ++ [(k, i)]) = (act (run act s calls) i).2 :=
  List.foldl_append

theorem exchanges_concat (s : σ) (calls : List (κ × ι)) (k : κ) (i : ι) :
    exchanges act s (calls ++ [(k, i)]) =
      exchanges act s calls ++ [(k, i, (act (run act s calls) i).1)] := by
  induction calls generalizing s with
  | nil => rfl
  | cons call calls ih =>
    show _ :: exchanges act _ (calls ++ [(k, i)]) = _
    rw [ih]
    rfl

/-- Every answer is one that the object gives in some state. -/
theorem exchanges_given (s : σ) (calls : List (κ × ι)) :
    ∀ one ∈ exchanges act s calls, ∃ s', one.2.2 = (act s' one.2.1).1 := by
  induction calls generalizing s with
  | nil => exact List.forall_mem_nil _
  | cons call calls ih => exact List.forall_mem_cons.mpr ⟨⟨s, rfl⟩, ih _⟩

end Runs

/-! ## Shares -/

section Shares

variable [DecidableEq κ]

/-- A caller's part. -/
def share (k : κ) (all : List (κ × β)) : List β :=
  (all.filter fun one => one.1 = k).map Prod.snd

theorem share_append (k : κ) (all more : List (κ × β)) :
    share k (all ++ more) = share k all ++ share k more := by
  rw [share, List.filter_append, List.map_append]
  rfl

theorem share_concat_self (k : κ) (all : List (κ × β)) (b : β) :
    share k (all ++ [(k, b)]) = share k all ++ [b] := by
  rw [share_append]
  simp [share]

theorem share_concat_of_ne {k k' : κ} (h : k' ≠ k) (all : List (κ × β)) (b : β) :
    share k (all ++ [(k', b)]) = share k all := by
  rw [share_append]
  simp [share, h]

theorem share_all {P : β → Prop} {k : κ} {all : List (κ × β)} (h : ∀ one ∈ all, P one.2) :
    ∀ b ∈ share k all, P b := by
  intro b hb
  obtain ⟨one, hone, rfl⟩ := List.mem_map.mp hb
  exact h one (List.mem_of_mem_filter hone)

end Shares

end WebServer.Serial
