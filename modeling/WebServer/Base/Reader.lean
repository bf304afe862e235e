/-!
# Resumable readers

A resumable reader looks at the front of a buffer and answers one of three
things: it needs more, it took one item and left a rest, or it refuses.
Between two calls it keeps a state, so that its input may arrive in any
number of pieces.

Two laws make a reader resumable, and they are fields of `Reader`: an item
taken from a buffer is taken all the same when the buffer is longer
(`item_append`), and a reader that asked for more goes on from where it
stopped as if it had started with everything (`more_append`). There is NO
such law for refusals. A reader may refuse a buffer it would have accepted
had it been given more of it, and which buffers those are is the whole
question of fragmentation.

`drain` takes every item a buffer holds, `feed` does so for one piece after
the other. `feed_spec` is the answer in general: feeding is draining what
arrived up to the first piece after which the drain refuses, so two
fragmentations of one text can only differ through a refusal.
-/

namespace WebServer.Base

/-- What one read answers. -/
inductive Reply (σ α β ε : Type) where
  | more (state : σ) (rest : List α)
  | item (out : β) (state : σ) (rest : List α)
  | fail (error : ε)

/-- How a drain ends: waiting with what is left, or refused. -/
inductive Ending (σ α ε : Type) where
  | waiting (state : σ) (rest : List α)
  | failed (error : ε)

/-- The refusal of an ending, if it is one. -/
def Ending.error? {σ α ε : Type} : Ending σ α ε → Option ε
  | .waiting _ _ => none
  | .failed e => some e

/-- A reader that may be handed its input in pieces. -/
structure Reader (σ α β ε : Type) where
  read : σ → List α → Reply σ α β ε
  /-- What taking an item uses up. -/
  weight : σ → List α → Nat
  item_weight : ∀ {s b o s' r}, read s b = .item o s' r → weight s' r < weight s b
  item_append : ∀ {s b o s' r}, read s b = .item o s' r →
    ∀ x, read s (b ++ x) = .item o s' (r ++ x)
  more_append : ∀ {s b s' r}, read s b = .more s' r →
    ∀ x, read s (b ++ x) = read s' (r ++ x)

namespace Reader

variable {σ α β ε : Type} (R : Reader σ α β ε)

/-- Put items in front of a drain's answer. -/
def prepend (items : List β) (p : List β × Ending σ α ε) : List β × Ending σ α ε :=
  (items ++ p.1, p.2)

@[simp] theorem prepend_nil (p : List β × Ending σ α ε) : prepend [] p = p := rfl

@[simp] theorem prepend_prepend (xs ys : List β) (p : List β × Ending σ α ε) :
    prepend xs (prepend ys p) = prepend (xs ++ ys) p := by
  simp only [prepend, List.append_assoc]

/-- Take every item the buffer holds. -/
def drain (s : σ) (b : List α) : List β × Ending σ α ε :=
  match _h : R.read s b with
  | .more s' r => ([], .waiting s' r)
  | .item o s' r => prepend [o] (drain s' r)
  | .fail e => ([], .failed e)
termination_by R.weight s b
decreasing_by exact R.item_weight _h

theorem drain_more {s s' : σ} {b r : List α} (h : R.read s b = .more s' r) :
    R.drain s b = ([], .waiting s' r) := by
  rw [drain]
  split <;> simp_all

theorem drain_item {s s' : σ} {b r : List α} {o : β} (h : R.read s b = .item o s' r) :
    R.drain s b = prepend [o] (R.drain s' r) := by
  rw [drain]
  split <;> simp_all

theorem drain_fail {s : σ} {b : List α} {e : ε} (h : R.read s b = .fail e) :
    R.drain s b = ([], .failed e) := by
  rw [drain]
  split <;> simp_all

/-- A drain sees its state and buffer only through the read. -/
theorem drain_congr {s s' : σ} {b b' : List α} (h : R.read s b = R.read s' b') :
    R.drain s b = R.drain s' b' := by
  cases hr : R.read s' b' with
  | more t r => rw [R.drain_more hr, R.drain_more (h.trans hr)]
  | item o t r => rw [R.drain_item hr, R.drain_item (h.trans hr)]
  | fail e => rw [R.drain_fail hr, R.drain_fail (h.trans hr)]

/-! ## Taking items -/

/-- `R.Takes s b items s' r`: from state `s` the reads of `b` take exactly
these items one after the other and leave `r` in state `s'`. -/
inductive Takes : σ → List α → List β → σ → List α → Prop where
  | refl (s : σ) (b : List α) : Takes s b [] s b
  | step {s t s' : σ} {b c r : List α} {o : β} {items : List β} :
      R.read s b = .item o t c → Takes t c items s' r → Takes s b (o :: items) s' r

variable {R}

/-- What was taken is taken all the same from a longer buffer. -/
theorem Takes.append {s s' : σ} {b r : List α} {items : List β} (h : R.Takes s b items s' r)
    (x : List α) : R.Takes s (b ++ x) items s' (r ++ x) := by
  induction h with
  | refl s b => exact .refl s (b ++ x)
  | step hr _ ih => exact .step (R.item_append hr x) ih

/-- A drain goes on from wherever taking items has led. -/
theorem Takes.drain_eq {s s' : σ} {b r : List α} {items : List β} (h : R.Takes s b items s' r) :
    R.drain s b = prepend items (R.drain s' r) := by
  induction h with
  | refl s b => rfl
  | step hr _ ih => rw [R.drain_item hr, ih, prepend_prepend]; rfl

variable (R)

/-- Every drain takes some items and ends at a read that takes none. -/
theorem exists_takes (s : σ) (b : List α) :
    ∃ items s' r, R.Takes s b items s' r ∧ ∀ o t c, R.read s' r ≠ .item o t c := by
  induction hn : R.weight s b using Nat.strongRecOn generalizing s b with
  | ind n ih =>
    cases hr : R.read s b with
    | item o t c =>
      obtain ⟨items, s', r, htakes, hend⟩ := ih _ (hn ▸ R.item_weight hr) t c rfl
      exact ⟨o :: items, s', r, .step hr htakes, hend⟩
    | more t c => exact ⟨[], s, b, .refl s b, fun o t c h => by rw [hr] at h; cases h⟩
    | fail e => exact ⟨[], s, b, .refl s b, fun o t c h => by rw [hr] at h; cases h⟩

/-- A refused drain refuses at one read, after the items it took. -/
theorem takes_of_drain_failed {s : σ} {b : List α} {items : List β} {e : ε}
    (h : R.drain s b = (items, .failed e)) :
    ∃ s' r, R.Takes s b items s' r ∧ R.read s' r = .fail e := by
  obtain ⟨items', s', r, htakes, hend⟩ := R.exists_takes s b
  rw [htakes.drain_eq] at h
  cases hr : R.read s' r with
  | item o t c => exact absurd hr (hend o t c)
  | more t c =>
    rw [R.drain_more hr] at h
    simp [prepend] at h
  | fail e' =>
    rw [R.drain_fail hr] at h
    simp only [prepend, List.append_nil, Prod.mk.injEq, Ending.failed.injEq] at h
    obtain ⟨rfl, rfl⟩ := h
    exact ⟨s', r, htakes, hr⟩

/-- A waiting drain waits at one read, after the items it took. -/
theorem takes_of_drain_waiting {s s' : σ} {b r : List α} {items : List β}
    (h : R.drain s b = (items, .waiting s' r)) :
    ∃ t c, R.Takes s b items t c ∧ R.read t c = .more s' r := by
  obtain ⟨items', t, c, htakes, hend⟩ := R.exists_takes s b
  rw [htakes.drain_eq] at h
  cases hr : R.read t c with
  | item o u d => exact absurd hr (hend o u d)
  | fail e =>
    rw [R.drain_fail hr] at h
    simp [prepend] at h
  | more u d =>
    rw [R.drain_more hr] at h
    simp only [prepend, List.append_nil, Prod.mk.injEq, Ending.waiting.injEq] at h
    obtain ⟨rfl, rfl, rfl⟩ := h
    exact ⟨t, c, htakes, hr⟩

/-- A waiting drain goes on, once more has arrived, from where it stopped. -/
theorem drain_append_of_waiting {s s' : σ} {b r : List α} {items : List β}
    (h : R.drain s b = (items, .waiting s' r)) (x : List α) :
    R.drain s (b ++ x) = prepend items (R.drain s' (r ++ x)) := by
  obtain ⟨t, c, htakes, hr⟩ := R.takes_of_drain_waiting h
  rw [(htakes.append x).drain_eq, R.drain_congr (R.more_append hr x)]

/-- Where a drain waits, reading again changes nothing. -/
theorem read_of_waiting {s s' : σ} {b r : List α} {items : List β}
    (h : R.drain s b = (items, .waiting s' r)) : R.read s' r = .more s' r := by
  obtain ⟨t, c, -, hr⟩ := R.takes_of_drain_waiting h
  have hagain := R.more_append hr []
  rw [List.append_nil, List.append_nil, hr] at hagain
  exact hagain.symm

/-! ## Feeding pieces -/

/-- Append one piece after the other and drain after each, until the first
refusal. -/
def feed : σ → List α → List (List α) → List β × Ending σ α ε
  | s, b, [] => ([], .waiting s b)
  | s, b, c :: cs =>
    match R.drain s (b ++ c) with
    | (items, .waiting s' r) => prepend items (feed s' r cs)
    | (items, .failed e) => (items, .failed e)

/-- Feeding is draining all that arrived up to the piece it stopped at. It
stops early only at a refusal, and no shorter run of pieces is refused. -/
theorem feed_spec : ∀ {s : σ} {b : List α} (pieces : List (List α)),
    R.read s b = .more s b →
      ∃ fed rest, pieces = fed ++ rest ∧ R.feed s b pieces = R.drain s (b ++ fed.flatten) ∧
        (rest ≠ [] → ∃ e, (R.drain s (b ++ fed.flatten)).2 = .failed e) ∧
        ∀ p q, fed = p ++ q → q ≠ [] →
          ∃ s' r, (R.drain s (b ++ p.flatten)).2 = .waiting s' r
  | s, b, [], hidle => by
    refine ⟨[], [], rfl, ?_, fun h => absurd rfl h, fun p q hpq hq => ?_⟩
    · rw [feed, List.flatten_nil, List.append_nil, R.drain_more hidle]
    · exact absurd (List.append_eq_nil_iff.mp hpq.symm).2 hq
  | s, b, c :: cs, hidle => by
    have hstart : ∃ s' r, (R.drain s (b ++ ([] : List (List α)).flatten)).2 = .waiting s' r :=
      ⟨s, b, by rw [List.flatten_nil, List.append_nil, R.drain_more hidle]⟩
    rcases hd : R.drain s (b ++ c) with ⟨items, _ | ⟨e⟩⟩
    case waiting s' r =>
      obtain ⟨fed, rest, rfl, hfeed, hstop, hfirst⟩ := feed_spec cs (R.read_of_waiting hd)
      have hgo : ∀ x, R.drain s (b ++ (c ++ x)) = prepend items (R.drain s' (r ++ x)) := by
        intro x
        rw [← List.append_assoc]
        exact R.drain_append_of_waiting hd x
      refine ⟨c :: fed, rest, rfl, ?_, fun hrest => ?_, fun p q hpq hq => ?_⟩
      · rw [feed, hd, List.flatten_cons, hgo, ← hfeed]
      · obtain ⟨e, he⟩ := hstop hrest
        exact ⟨e, by rw [List.flatten_cons, hgo]; exact he⟩
      · cases p with
        | nil => exact hstart
        | cons d p =>
          obtain ⟨rfl, htail⟩ := List.cons.inj hpq
          obtain ⟨t, u, ht⟩ := hfirst p q htail hq
          exact ⟨t, u, by rw [List.flatten_cons, hgo]; exact ht⟩
    case failed =>
      refine ⟨[c], cs, rfl, ?_, fun _ => ⟨e, ?_⟩, fun p q hpq hq => ?_⟩
      · rw [feed, hd, List.flatten_singleton, hd]
      · rw [List.flatten_singleton, hd]
      · cases p with
        | nil => exact hstart
        | cons d p =>
          obtain ⟨_, htail⟩ := List.cons.inj hpq
          exact absurd (List.append_eq_nil_iff.mp htail.symm).2 hq

/-- One piece is fed by one drain. -/
theorem feed_singleton (s : σ) (b c : List α) : R.feed s b [c] = R.drain s (b ++ c) := by
  rw [feed]
  split
  next items s' r h => rw [h, feed, prepend, List.append_nil]
  next items e h => rw [h]

/-- A feed that waits goes on from where it stopped. -/
theorem feed_append {s s' : σ} {b r : List α} {pieces : List (List α)} {items : List β}
    (h : R.feed s b pieces = (items, .waiting s' r)) (more : List (List α)) :
    R.feed s b (pieces ++ more) = prepend items (R.feed s' r more) := by
  induction pieces generalizing s b items with
  | nil =>
    cases h
    rfl
  | cons c cs ih =>
    rw [feed] at h
    rw [List.cons_append, feed]
    rcases hd : R.drain s (b ++ c) with ⟨front, _ | ⟨e⟩⟩
    case waiting t u =>
      rw [hd] at h
      rcases hrest : R.feed t u cs with ⟨later, ending⟩
      simp only [hrest, prepend, Prod.mk.injEq] at h
      obtain ⟨rfl, rfl⟩ := h
      simp only [ih hrest, prepend_prepend]
    case failed =>
      rw [hd] at h
      cases h

/-- When no run of pieces is refused before the last one, feeding the pieces
is draining the whole. -/
theorem feed_eq_drain {s : σ} {b : List α} {pieces : List (List α)}
    (hidle : R.read s b = .more s b)
    (hsafe : ∀ fed rest, pieces = fed ++ rest → rest ≠ [] →
      ∀ e, (R.drain s (b ++ fed.flatten)).2 ≠ .failed e) :
    R.feed s b pieces = R.drain s (b ++ pieces.flatten) := by
  obtain ⟨fed, rest, rfl, hfeed, hstop, _⟩ := R.feed_spec pieces hidle
  cases rest with
  | nil => rw [hfeed, List.append_nil]
  | cons d ds =>
    obtain ⟨e, he⟩ := hstop (List.cons_ne_nil d ds)
    exact absurd he (hsafe fed (d :: ds) rfl (List.cons_ne_nil d ds) e)

/-- A reader whose refusals stand, whatever arrives behind them, may be fed a buffer
that it does not refuse in any pieces. -/
theorem feed_eq_of_waiting {s s' : σ} {b r : List α} {pieces : List (List α)} {items : List β}
    (hfail : ∀ {s b e}, R.read s b = .fail e → ∀ x, R.read s (b ++ x) = .fail e)
    (hidle : R.read s b = .more s b)
    (h : R.drain s (b ++ pieces.flatten) = (items, .waiting s' r)) :
    R.feed s b pieces = (items, .waiting s' r) := by
  rw [R.feed_eq_drain hidle, h]
  intro fed rest hpieces _ e hfailed
  obtain ⟨t, c, htakes, hread⟩ := R.takes_of_drain_failed (Prod.ext rfl hfailed)
  have hwhole := (htakes.append rest.flatten).drain_eq
  rw [R.drain_fail (hfail hread _), List.append_assoc, ← List.flatten_append, ← hpieces, h]
    at hwhole
  cases congrArg Prod.snd hwhole

end Reader

end WebServer.Base
