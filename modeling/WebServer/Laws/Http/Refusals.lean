import WebServer.Laws.Http.Grammar

/-!
# The parser's refusals

With which statuses a parse is refused (`parse_error`), and which of them can
come from where.
-/

namespace WebServer

open Base

/-- The statuses that `parse` refuses with. -/
def protocolErrors : List Nat := [400, 413, 414, 431, 501, 505]

namespace RequestParser

theorem finishHeaders_error {p q : RequestParser} (h : p.finishHeaders = (false, q)) :
    q.error = 400 ∨ q.error = 413 ∨ q.error = 501 := by
  cases finished_of_finishHeaders h with
  | encoded => exact .inr (.inr rfl)
  | unreadable => exact .inl rfl
  | tooLong => exact .inr (.inl rfl)

theorem parseRequestLine_error {p q : RequestParser} {line : Bytes}
    (h : p.parseRequestLine line = (false, q)) : q.error = 400 ∨ q.error = 505 := by
  unfold parseRequestLine at h
  split at h
  · cases h; simp
  · split at h
    · cases h; simp
    · dsimp only at h
      split at h
      · cases h; simp
      · split at h
        · cases h; simp
        · cases h

/-- A round that refuses is on the request line or in the header block, and
says which limit or rule was broken there. -/
theorem turn_error {p q : RequestParser} {buffer rest : Bytes}
    (h : p.turn buffer = .ret .Error q rest) :
    (p.state = .RequestLine ∧ (q.error = 400 ∨ q.error = 414 ∨ q.error = 505)) ∨
      (p.state = .Headers ∧ (q.error = 400 ∨ q.error = 413 ∨ q.error = 431 ∨ q.error = 501)) := by
  cases turn_round h with
  | lineOver state => exact .inl ⟨state, by simp⟩
  | lineRefused state _ _ parsed =>
    refine .inl ⟨state, ?_⟩
    have := parseRequestLine_error parsed
    omega
  | headersOver state | blockOver state | fieldRefused state => exact .inr ⟨state, by simp⟩
  | headersRefused state _ finished =>
    refine .inr ⟨state, ?_⟩
    have := finishHeaders_error finished
    omega

theorem parse_error {p q : RequestParser} {buffer rest : Bytes}
    (h : p.parse buffer = (.Error, q, rest)) : q.error ∈ protocolErrors := by
  fun_induction parse p buffer with
  | case1 p buffer p' tail ht ih => exact ih h
  | case2 p buffer result p' tail ht =>
    cases h
    rw [protocolErrors]
    rcases turn_error ht with ⟨-, herror⟩ | ⟨-, herror⟩
    · rcases herror with h | h | h <;> simp [h]
    · rcases herror with h | h | h | h <;> simp [h]

/-- Behind the request line no parse is refused with 414. -/
theorem parse_error_ne_414 {p p' : RequestParser} {buffer rest : Bytes}
    (h : p.parse buffer = (.Error, p', rest)) (hs : p.state ≠ .RequestLine) :
    p'.error ≠ 414 := by
  fun_induction parse p buffer with
  | case1 p buffer q tail ht ih => exact ih h (turn_again_state ht)
  | case2 p buffer result q tail ht =>
    cases h
    rcases turn_error ht with ⟨hline, -⟩ | ⟨-, herror⟩
    · exact absurd hline hs
    · omega

end RequestParser

end WebServer
