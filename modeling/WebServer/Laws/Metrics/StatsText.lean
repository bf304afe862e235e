import WebServer.Laws.Api.Listing
import WebServer.Laws.Metrics.Stats

/-!
# What the statistics say is JSON

The text of `toJson` spells one object, with the numbers that were loaded
(`stats_isText`). A percentile is written in milliseconds with two decimals; every one
that a call can find is a multiple of ten microseconds, so none is rounded. JSON has no
text for what a division by zero gives: that the hit rate is a number is due to its guard
(`hitRate_finite`).
-/

namespace WebServer

open Base Json

/-! ## Numbers -/

theorem spells_decimal (n : Nat) : Spells (.value (.number n 0)) (decimal n) := by
  have hnumber := Spells.nat (intText_decimal n)
  rwa [decimalValue_decimal] at hnumber

theorem spells_decimalInt (n : Int) : Spells (.value (.number n 0)) (decimalInt n) := by
  cases n with
  | ofNat n => exact spells_decimal n
  | negSucc n =>
    have hnumber := Spells.negative (intText_decimal (n + 1)) .none .none
    rw [List.append_nil, List.append_nil, decimalValue_decimal] at hnumber
    exact hnumber

/-- Two digits behind a number. -/
theorem decimalValue_two (n : Nat) {d e : Nat} (hd : d < 10) (he : e < 10) :
    decimalValue (decimal n ++ [UInt8.ofNat (48 + d), UInt8.ofNat (48 + e)]) =
      100 * n + 10 * d + e := by
  have digit : ∀ d < 10, (UInt8.ofNat (48 + d)).toNat - 48 = d := by decide
  have front := decimalValue_decimal n
  rw [decimalValue] at front
  rw [decimalValue, List.foldl_append, front]
  simp only [List.foldl_cons, List.foldl_nil, digit d hd, digit e he]
  omega

/-- Hundredths as a JSON value. -/
def hundredthsValue (hundredths : Nat) : Value := .number hundredths (-2)

theorem spells_finite (hundredths : Nat) :
    Spells (.value (hundredthsValue hundredths)) (Fixed.finite hundredths).text := by
  have hd : hundredths / 10 % 10 < 10 := Nat.mod_lt _ (by omega)
  have he : hundredths % 10 < 10 := Nat.mod_lt _ (by omega)
  have digits : ∀ c ∈
      [UInt8.ofNat (48 + hundredths / 10 % 10), UInt8.ofNat (48 + hundredths % 10)],
      isdigit c = true := by
    intro c hc
    obtain rfl | hc := List.mem_cons.mp hc
    · exact isdigit_octet hd
    · rw [List.mem_singleton.mp hc]
      exact isdigit_octet he
  have hnumber := Spells.number (intText_decimal (hundredths / 100))
    (.some (List.cons_ne_nil _ _) digits) .none
  rw [decimalValue_two _ hd he, List.append_nil] at hnumber
  have mantissa : 100 * (hundredths / 100) + 10 * (hundredths / 10 % 10) + hundredths % 10 =
      hundredths := by omega
  rw [mantissa] at hnumber
  exact hnumber

/-- Microseconds as milliseconds, cut behind the second decimal. -/
def millisValue (micros : Nat) : Value := hundredthsValue (micros / 10)

theorem spells_fixedMillis (micros : Nat) :
    Spells (.value (millisValue micros)) (fixedMillis micros) := spells_finite _

/-! ## The hit rate -/

/-- The hundredths of the hit rate, which are 0 when nothing was looked up. -/
def hitRateHundredths (round : UInt64 → UInt64 → Nat) (cacheHits cacheMisses : UInt64) : Nat :=
  if cacheHits + cacheMisses = 0 then 0 else round cacheHits (cacheHits + cacheMisses)

/-- There is no division by zero, also where the sum of the lookups has wrapped around. -/
theorem hitRate_finite (round : UInt64 → UInt64 → Nat) (cacheHits cacheMisses : UInt64) :
    hitRate round cacheHits cacheMisses =
      .finite (hitRateHundredths round cacheHits cacheMisses) := by
  by_cases none : cacheHits + cacheMisses = 0
  · simp [hitRate, hitRateHundredths, none]
  · simp [hitRate, hitRateHundredths, percent, none]

/-! ## The object -/

/-- The statistics as a JSON value. -/
def statsValue (shown : Shown) (round : UInt64 → UInt64 → Nat) (mode : Bytes)
    (threads uptime : Int) (cacheHits cacheMisses : UInt64) : Value :=
  .object [
    (ascii "mode", .string mode),
    (ascii "threads", .number threads 0),
    (ascii "uptimeMs", .number uptime 0),
    (ascii "totalRequests", .number (shown.counters .totalRequests).toNat 0),
    (ascii "bytesOut", .number (shown.counters .bytesOut).toNat 0),
    (ascii "activeConnections", .number shown.activeConnections.toInt 0),
    (ascii "totalConnections", .number shown.totalConnections.toNat 0),
    (ascii "status", .object [
      (ascii "ok", .number (shown.counters .responses2xx).toNat 0),
      (ascii "clientError", .number (shown.counters .responses4xx).toNat 0),
      (ascii "serverError", .number (shown.counters .responses5xx).toNat 0)]),
    (ascii "latencyMs", .object [
      (ascii "p50", millisValue (shown.percentiles .p50).toNat),
      (ascii "p95", millisValue (shown.percentiles .p95).toNat),
      (ascii "p99", millisValue (shown.percentiles .p99).toNat)]),
    (ascii "cache", .object [
      (ascii "hits", .number cacheHits.toNat 0),
      (ascii "misses", .number cacheMisses.toNat 0),
      (ascii "hitRate", hundredthsValue (hitRateHundredths round cacheHits cacheMisses))])]

/-- A label is the name of a member, which stands for itself, with what follows the name. -/
def Labels (label name behind : Bytes) : Prop :=
  label = quote name ++ behind ∧ unescape name = some name

instance (label name behind : Bytes) : Decidable (Labels label name behind) :=
  inferInstanceAs (Decidable (_ ∧ _))

/-- A text begins with members, and the rest follows. -/
def Leads (ms : List (Bytes × Value)) (rest text : Bytes) : Prop :=
  ∃ body, text = body ++ rest ∧ Spells (.members ms) body

namespace Leads

variable {label name text rest inside : Bytes} {v : Value} {ms inner : List (Bytes × Value)}

theorem last (hlabel : Labels label name (ascii ":")) (h : Spells (.value v) text) :
    Leads [(name, v)] rest (label ++ (text ++ rest)) := by
  obtain ⟨rfl, plain⟩ := hlabel
  refine ⟨_, ?_, .member plain h⟩
  simp only [List.append_assoc]
  rfl

theorem more (hlabel : Labels label name (ascii ":")) (h : Spells (.value v) text)
    (hrest : Leads ms rest inside) :
    Leads ((name, v) :: ms) rest (label ++ (text ++ (ascii "," ++ inside))) := by
  obtain ⟨rfl, plain⟩ := hlabel
  obtain ⟨body, rfl, hbody⟩ := hrest
  refine ⟨_, ?_, .members plain h hbody⟩
  simp only [List.append_assoc]
  rfl

/-- A string in front of the rest; its quotation marks are written with what is around it. -/
theorem string (hlabel : Labels label name (ascii ":\"")) {raw string : Bytes}
    (hraw : unescape raw = some string) (hrest : Leads ms rest inside) :
    Leads ((name, .string string) :: ms) rest (label ++ (raw ++ (ascii "\"," ++ inside))) := by
  obtain ⟨rfl, plain⟩ := hlabel
  obtain ⟨body, rfl, hbody⟩ := hrest
  refine ⟨_, ?_, .members plain (.string hraw) hbody⟩
  have opening : ascii ":\"" = [58, 34] := rfl
  have closing : ascii "\"," = [34, 44] := rfl
  simp only [opening, closing, quote, List.append_assoc, List.cons_append, List.nil_append]

theorem lastObject (hlabel : Labels label name (ascii ":\x7b"))
    (h : Leads inner (ascii "\x7d" ++ rest) inside) :
    Leads [(name, .object inner)] rest (label ++ inside) := by
  obtain ⟨rfl, plain⟩ := hlabel
  obtain ⟨body, rfl, hbody⟩ := h
  refine ⟨_, ?_, .member plain (.object hbody)⟩
  have opening : ascii ":\x7b" = [58, 123] := rfl
  have closing : ascii "\x7d" = [125] := rfl
  simp only [opening, closing, List.append_assoc, List.cons_append, List.nil_append]

theorem moreObject (hlabel : Labels label name (ascii ":\x7b"))
    (h : Leads inner (ascii "\x7d," ++ text) inside) (hrest : Leads ms rest text) :
    Leads ((name, .object inner) :: ms) rest (label ++ inside) := by
  obtain ⟨rfl, plain⟩ := hlabel
  obtain ⟨body, rfl, hbody⟩ := h
  obtain ⟨behind, rfl, hbehind⟩ := hrest
  refine ⟨_, ?_, .members plain (.object hbody) hbehind⟩
  have opening : ascii ":\x7b" = [58, 123] := rfl
  have closing : ascii "\x7d," = [125, 44] := rfl
  simp only [opening, closing, List.append_assoc, List.cons_append, List.nil_append]

theorem object (h : Leads ms (ascii "\x7d") inside) :
    Spells (.value (.object ms)) (ascii "\x7b" ++ inside) := by
  obtain ⟨body, rfl, hbody⟩ := h
  exact .object hbody

end Leads

variable {shown : Shown} {round : UInt64 → UInt64 → Nat} {mode : Bytes} {threads uptime : Int}
  {cacheHits cacheMisses : UInt64}

theorem spells_toJson (hmode : unescape mode = some mode) :
    Spells (.value (statsValue shown round mode threads uptime cacheHits cacheMisses))
      (shown.toJson round mode threads uptime cacheHits cacheMisses) := by
  unfold Shown.toJson statsValue
  simp only [List.append_assoc, hitRate_finite]
  have closing : ascii "\x7d\x7d" = ascii "\x7d" ++ ascii "\x7d" := by decide +kernel
  rw [closing]
  refine Leads.object <|
    .string (by decide +kernel) hmode <|
    .more (by decide +kernel) (spells_decimalInt threads) <|
    .more (by decide +kernel) (spells_decimalInt uptime) <|
    .more (by decide +kernel) (spells_decimal (shown.counters .totalRequests).toNat) <|
    .more (by decide +kernel) (spells_decimal (shown.counters .bytesOut).toNat) <|
    .more (by decide +kernel) (spells_decimalInt shown.activeConnections.toInt) <|
    .more (by decide +kernel) (spells_decimal shown.totalConnections.toNat) <|
    .moreObject (by decide +kernel)
      (.more (by decide +kernel) (spells_decimal (shown.counters .responses2xx).toNat) <|
        .more (by decide +kernel) (spells_decimal (shown.counters .responses4xx).toNat) <|
        .last (by decide +kernel) (spells_decimal (shown.counters .responses5xx).toNat)) <|
    .moreObject (by decide +kernel)
      (.more (by decide +kernel) (spells_fixedMillis (shown.percentiles .p50).toNat) <|
        .more (by decide +kernel) (spells_fixedMillis (shown.percentiles .p95).toNat) <|
        .last (by decide +kernel) (spells_fixedMillis (shown.percentiles .p99).toNat)) <|
    .lastObject (by decide +kernel)
      (.more (by decide +kernel) (spells_decimal cacheHits.toNat) <|
        .more (by decide +kernel) (spells_decimal cacheMisses.toNat) <|
        .last (by decide +kernel) (spells_finite _))

/-! ## Every run -/

/-- A bound that can be answered is a multiple of ten microseconds. -/
theorem upperBound_ten (bucket : Option (Fin bucketCount)) :
    (upperBound bucket).toNat % 10 = 0 := by
  cases bucket with
  | none => decide
  | some bucket =>
    have each : ∀ bucket, (upperBound (some bucket)).toNat % 10 = 0 := by decide
    exact each bucket

/-- No percentile is rounded. -/
def Shown.Exact (shown : Shown) : Prop := ∀ quantile, (shown.percentiles quantile).toNat % 10 = 0

theorem StatsReader.finish_exact {reader : StatsReader} (h : reader.shown.Exact)
    (quantile : Quantile) (left : List Load) {value : UInt64} (hvalue : value.toNat % 10 = 0) :
    (reader.finish quantile left value).shown.Exact := by
  intro quantile'
  by_cases same : quantile' = quantile
  · subst same
    simp only [finish, Function.update_self]
    exact hvalue
  · simp only [finish, Function.update_of_ne same]
    exact h quantile'

theorem StatsReader.load_exact {rank : Quantile → UInt64 → UInt64} {now : Counts}
    {reader reader' : StatsReader} (h : reader.shown.Exact)
    (hs : reader.load rank now = some reader') : reader'.shown.Exact := by
  unfold load at hs
  split at hs
  next => cases hs
  next =>
    cases hs
    exact h
  next =>
    cases hs
    exact h
  next =>
    cases hs
    exact h
  next quantile left hleft =>
    dsimp only at hs
    split at hs
    next =>
      split at hs
      next =>
        cases hs
        exact finish_exact h quantile left rfl
      next =>
        cases hs
        exact h
    next =>
      split at hs
      next =>
        cases hs
        exact finish_exact h quantile left (upperBound_ten none)
      next bucket buckets _ =>
        split at hs
        next =>
          cases hs
          exact finish_exact h quantile left (upperBound_ten (some bucket))
        next =>
          cases hs
          exact h

/-- Nothing that is shown, or will be, is rounded. -/
structure Stats.Exact (s : Stats) : Prop where
  readers : ∀ reader ∈ s.readers, reader.shown.Exact
  reports : ∀ report ∈ s.reports, report.shown.Exact

theorem Stats.Exact.step {rank : Quantile → UInt64 → UInt64} {s s' : Stats} {a : StatsStep}
    (h : s.Exact) (hs : s.step rank a = some s') : s'.Exact := by
  cases a with
  | record a =>
    obtain ⟨recorders, -, rfl⟩ := Option.map_eq_some_iff.mp hs
    exact ⟨h.readers, h.reports⟩
  | connect a =>
    obtain ⟨connections, -, rfl⟩ := Option.map_eq_some_iff.mp hs
    exact ⟨h.readers, h.reports⟩
  | enter i =>
    simp only [Stats.step] at hs
    split at hs
    next =>
      split at hs
      next =>
        cases hs
        refine ⟨?_, h.reports⟩
        intro reader hmem
        obtain rfl | hmem := mem_set hmem
        · exact fun quantile => rfl
        · exact h.readers reader hmem
      next => cases hs
    next => cases hs
  | load i =>
    simp only [Stats.step] at hs
    split at hs
    next reader hreader =>
      obtain ⟨reader', hload, rfl⟩ := Option.map_eq_some_iff.mp hs
      have exact := StatsReader.load_exact (h.readers reader (List.mem_of_getElem? hreader)) hload
      constructor
      · intro reader'' hmem
        obtain rfl | hmem := mem_set hmem
        · exact exact
        · exact h.readers reader'' hmem
      · intro report hmem
        obtain hmem | hmem := List.mem_append.mp hmem
        · exact h.reports report hmem
        · split at hmem
          next =>
            rw [List.mem_singleton.mp hmem]
            exact exact
          next => cases hmem
    next => cases hs

/-- Whatever is recorded while `toJson` runs, its text spells one object with the numbers it
has loaded, in either mode of the server and for any counts of the cache, and no percentile in
it is rounded. -/
theorem stats_isText {rank : Quantile → UInt64 → UInt64} {recorders readers : Nat} {s : Stats}
    (r : (statsMachine rank recorders readers).Reachable s) {report : Report}
    (made : report ∈ s.reports) (hmode : mode = ascii "pool" ∨ mode = ascii "reactor") :
    IsText (statsValue report.shown round mode threads uptime cacheHits cacheMisses)
        (report.shown.toJson round mode threads uptime cacheHits cacheMisses) ∧
      ∀ quantile, (report.shown.percentiles quantile).toNat % 10 = 0 := by
  have plain : unescape mode = some mode := by
    obtain rfl | rfl := hmode
    · exact unescape_self (by decide +kernel)
    · exact unescape_self (by decide +kernel)
  have exact : s.Exact := by
    refine r.invariant (I := Stats.Exact) ⟨?_, by simp [statsMachine]⟩ ?_
    · intro reader hmem
      rw [List.eq_of_mem_replicate hmem]
      exact fun quantile => rfl
    · exact fun s a s' h _ hs => h.step hs
  exact ⟨(spells_toJson plain).isText, exact.reports report made⟩

/-- The hit rate in percent, cut behind the second decimal. -/
def cutRate (cacheHits cacheTotal : UInt64) : Nat := 10000 * cacheHits.toNat / cacheTotal.toNat

/-- The report of the run above as it is sent, one lookup of two having hit. -/
theorem stats_isText_quick :
    (quickInBetweenEnd.reports.map fun report =>
        report.shown.toJson cutRate (ascii "reactor") 4 1250 1 1) =
        [ascii "\x7b\"mode\":\"reactor\",\"threads\":4,\"uptimeMs\":1250,\"totalRequests\":2," ++
          ascii "\"bytesOut\":20,\"activeConnections\":2,\"totalConnections\":2," ++
          ascii "\"status\":\x7b\"ok\":2,\"clientError\":0,\"serverError\":0\x7d," ++
          ascii "\"latencyMs\":\x7b\"p50\":2.50,\"p95\":0.05,\"p99\":0.05\x7d," ++
          ascii "\"cache\":\x7b\"hits\":1,\"misses\":1,\"hitRate\":50.00\x7d\x7d"] ∧
      ∀ report ∈ quickInBetweenEnd.reports,
        IsText (statsValue report.shown cutRate (ascii "reactor") 4 1250 1 1)
            (report.shown.toJson cutRate (ascii "reactor") 4 1250 1 1) ∧
          ∀ quantile, (report.shown.percentiles quantile).toNat % 10 = 0 :=
  ⟨by decide +kernel, fun _ made =>
    stats_isText (.of_exec (Option.some_get _).symm) made (.inr rfl)⟩

/-- Without a lookup there is nothing to divide by. -/
example : (hitRate cutRate 0 0).text = ascii "0.00" := by decide +kernel

end WebServer
