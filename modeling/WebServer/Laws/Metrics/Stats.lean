import Mathlib.Data.List.Infix
import WebServer.Base.Landing
import WebServer.Laws.Metrics.Recorders
import WebServer.Metrics.Stats

/-!
# What a reader of the statistics may rely on

`toJson` takes no snapshot: while it adds up the buckets of a percentile, others record
into those it has passed and into those to come. The counters only grow (`Grows`), so each
number it shows lies between what the counters were when it began and when it was done; a
percentile, which falls when quick requests come in, lies between those of the two moments
the other way round (`stats_between`). When no latency is recorded meanwhile the three
percentiles are in order. Otherwise they need not be, each being of its own moment.

`activeConnections` goes both ways. What is shown of it need not lie between its values at
the two moments; it is what a number of openings and a number of closings leave, each of
them between those of the two moments.
-/

namespace WebServer

open Base

/-! ## Counters that grow -/

namespace Metrics

/-- The entries of a bucket. -/
def entries (metrics : Metrics) (bucket : Fin bucketCount) : Nat :=
  (metrics.latencyBuckets.get bucket).toNat

/-- No counter has less, but for the bytes, which wrap around. -/
def Grows (first last : Metrics) : Prop :=
  ∀ counter, counter ≠ .bytesOut → (first.load counter).toNat ≤ (last.load counter).toNat

theorem Grows.refl (metrics : Metrics) : metrics.Grows metrics :=
  fun _ _ => Nat.le_refl _

theorem Grows.trans {first middle last : Metrics} (h : first.Grows middle)
    (h' : middle.Grows last) :
    first.Grows last :=
  fun counter hne => Nat.le_trans (h counter hne) (h' counter hne)

theorem Grows.entries {first last : Metrics} (h : first.Grows last) (bucket : Fin bucketCount) :
    first.entries bucket ≤ last.entries bucket :=
  h (.latencyBucket bucket) Counter.noConfusion

/-- Where the loop of `percentile` ends, all buckets read at one moment. -/
def place (metrics : Metrics) (target : UInt64) : Nat :=
  landing metrics.entries target.toNat 0 (List.finRange bucketCount)

theorem Grows.place {first last : Metrics} (h : first.Grows last) (target : UInt64) :
    last.place target ≤ first.place target :=
  landing_anti (Nat.le_refl 0) fun bucket _ => h.entries bucket

/-- The loop ends at that place, if the entries can be added up. -/
theorem scanBuckets_eq {metrics : Metrics} (target : UInt64)
    {front buckets : List (Fin bucketCount)}
    (few : total metrics.entries (front ++ buckets) < UInt64.size) {seen : UInt64}
    (hseen : seen.toNat ≤ total metrics.entries front) :
    metrics.scanBuckets target seen buckets =
      buckets[landing metrics.entries target.toNat seen.toNat buckets]? := by
  induction buckets generalizing front seen with
  | nil => rfl
  | cons bucket buckets ih =>
    have sum : (seen + metrics.latencyBuckets.get bucket).toNat =
        seen.toNat + metrics.entries bucket := by
      rw [UInt64.toNat_add]
      refine Nat.mod_eq_of_lt ?_
      rw [total_append, total_cons] at few
      show seen.toNat + metrics.entries bucket < UInt64.size
      omega
    rw [scanBuckets, landing]
    simp only [UInt64.le_iff_toNat_le, sum]
    split
    · rfl
    · rw [List.getElem?_cons_succ, ← sum]
      rw [List.append_cons] at few
      refine ih few ?_
      rw [total_append, total_cons, total_nil, sum]
      omega

end Metrics

/-- A call adds one at most to a counter that is not the bytes'. -/
theorem amount_counter {counter : Counter} (hne : counter ≠ .bytesOut) (call : RecordCall) :
    amount (· = counter) call.fetchAdds ≤ 1 := by
  obtain ⟨requests, status, bucket⟩ := amount_kinds call
  have within : ∀ kind : Counter → Bool, kind counter = true →
      amount (· = counter) call.fetchAdds ≤ amount kind call.fetchAdds := by
    intro kind hkind
    refine amount_le (fun c hc => ?_) _
    rw [of_decide_eq_true hc, hkind]
  cases counter with
  | totalRequests => exact Nat.le_of_eq requests
  | bytesOut => exact absurd rfl hne
  | latencyBucket => exact bucket ▸ within Counter.isBucket rfl
  | _ => exact status ▸ within Counter.isStatus rfl

variable {s s' : Recorders}

/-- What was added to a counter, and what is about to be, are no more than the calls. -/
theorem amount_le_calls {added : List (Counter × UInt64)}
    (hadded : ∀ kind, amount kind added + total (amount kind) s.pending =
      amount kind (s.calls.flatMap RecordCall.fetchAdds)) {counter : Counter}
    (hne : counter ≠ .bytesOut) :
    amount (· = counter) added + total (amount (· = counter)) s.pending ≤ s.calls.length := by
  rw [hadded, amount_flatMap, ← total_length]
  exact total_le fun call _ => amount_counter hne call

namespace Conserving

/-- Below 2^64 calls no counter but the bytes' ever has less. -/
theorem grows (h : Conserving s) {a : RecorderStep} (hs : s.step a = some s')
    (few : s'.calls.length < UInt64.size) : s.metrics.Grows s'.metrics := by
  cases a with
  | call thread call =>
    simp only [Recorders.step] at hs
    split at hs
    next =>
      cases hs
      exact .refl _
    next => cases hs
  | add thread =>
    simp only [Recorders.step] at hs
    split at hs
    next add left hpending =>
      cases hs
      obtain ⟨added, hmetrics, hadded⟩ := h.added
      intro counter hne
      have few : s.calls.length < UInt64.size := few
      have most := amount_le_calls hadded hne
      have share := total_set (f := amount (· = counter)) hpending left
      rw [amount_cons] at share
      have before : (s.metrics.load counter).toNat = amount (· = counter) added := by
        rw [hmetrics]
        exact toNat_load counter (by omega)
      rw [Metrics.load_fetchAdd]
      split
      next same =>
        rw [if_pos (decide_eq_true same)] at share
        rw [UInt64.toNat_add, before, Nat.mod_eq_of_lt]
        · exact Nat.le_add_right _ _
        · have size : UInt64.size = 2 ^ 64 := rfl
          omega
      next => exact Nat.le_refl _
    next => cases hs

/-- Below 2^64 calls the entries of the buckets can be added up. -/
theorem entries_few (h : Conserving s) (few : s.calls.length < UInt64.size) :
    total s.metrics.entries (List.finRange bucketCount) < UInt64.size := by
  obtain ⟨added, hmetrics, hadded⟩ := h.added
  have most := hadded Counter.isBucket
  rw [amount_each fun c => (amount_kinds c).2.2] at most
  have sum : s.metrics.bucketSum = amount Counter.isBucket added := by
    rw [hmetrics]
    exact bucketSum_eq (by omega)
  show s.metrics.bucketSum < UInt64.size
  omega

end Conserving

/-! ## Connections -/

namespace Connections

variable {first last connections connections' : Connections}

/-- The calls of `connectionOpened` that have made both their `fetch_add`s. -/
def counted (connections : Connections) : Nat := connections.opened - connections.opening

/-- The counters against the calls. -/
structure Kept (connections : Connections) : Prop where
  opening : connections.opening ≤ connections.opened
  active : connections.activeConnections =
    Int64.ofInt (connections.opened - connections.closed)
  counted : connections.totalConnections = UInt64.ofNat connections.counted

/-- No number of calls is less. -/
structure Before (first last : Connections) : Prop where
  opened : first.opened ≤ last.opened
  closed : first.closed ≤ last.closed
  counted : first.counted ≤ last.counted

theorem Before.refl (connections : Connections) : connections.Before connections :=
  ⟨Nat.le_refl _, Nat.le_refl _, Nat.le_refl _⟩

theorem Before.trans {middle : Connections} (h : first.Before middle) (h' : middle.Before last) :
    first.Before last :=
  ⟨h.opened.trans h'.opened, h.closed.trans h'.closed, h.counted.trans h'.counted⟩

theorem kept_empty : ({} : Connections).Kept := ⟨Nat.le_refl 0, rfl, rfl⟩

/-- Every step keeps the counters, and takes no call back. -/
theorem Kept.step (h : connections.Kept) {a : ConnectionStep}
    (hs : connections.step a = some connections') :
    connections'.Kept ∧ connections.Before connections' := by
  have opening := h.opening
  cases a with
  | connectionOpened =>
    cases hs
    have same : connections.opened + 1 - (connections.opening + 1) = connections.counted :=
      Nat.add_sub_add_right _ _ _
    refine ⟨⟨Nat.succ_le_succ opening, ?_, ?_⟩, ⟨Nat.le_succ _, Nat.le_refl _, ?_⟩⟩
    · have more : ((connections.opened + 1 : Nat) : Int) - connections.closed =
          (connections.opened - connections.closed) + 1 := by omega
      rw [h.active, more, Int64.ofInt_add _ 1]
      rfl
    · exact h.counted.trans (congrArg UInt64.ofNat same.symm)
    · exact Nat.le_of_eq same.symm
  | counted =>
    simp only [Connections.step] at hs
    split at hs
    next => cases hs
    next rest hrest =>
      cases hs
      have more : connections.opened - rest = connections.counted + 1 := by
        simp only [Connections.counted]
        omega
      have fewer : rest ≤ connections.opened := by omega
      refine ⟨⟨fewer, h.active, ?_⟩, ⟨Nat.le_refl _, Nat.le_refl _, ?_⟩⟩
      · show connections.totalConnections + 1 = UInt64.ofNat (connections.opened - rest)
        rw [more, h.counted, UInt64.ofNat_add]
        rfl
      · show connections.counted ≤ connections.opened - rest
        omega
  | connectionClosed =>
    cases hs
    refine ⟨⟨opening, ?_, h.counted⟩, ⟨Nat.le_refl _, Nat.le_succ _, Nat.le_refl _⟩⟩
    have less : (connections.opened : Int) - (connections.closed + 1 : Nat) =
        (connections.opened - connections.closed) - 1 := by omega
    show connections.activeConnections - 1 =
      Int64.ofInt ((connections.opened : Int) - (connections.closed + 1 : Nat))
    rw [h.active, less, Int64.ofInt_sub _ 1]
    rfl

/-- What some number of the openings and some number of the closings leave, each between
those of the two moments. -/
def Left (first last : Connections) (activeConnections : Int64) : Prop :=
  ∃ opened closed : Nat, first.opened ≤ opened ∧ opened ≤ last.opened ∧
    first.closed ≤ closed ∧ closed ≤ last.closed ∧
      activeConnections = Int64.ofInt (opened - closed)

/-- A number of the connections that were counted, between those of the two moments. -/
def Counted (first last : Connections) (totalConnections : UInt64) : Prop :=
  ∃ counted : Nat, first.counted ≤ counted ∧ counted ≤ last.counted ∧
    totalConnections = UInt64.ofNat counted

theorem Left.later {last' : Connections} {activeConnections : Int64}
    (h : first.Left last activeConnections) (before : last.Before last') :
    first.Left last' activeConnections := by
  obtain ⟨opened, closed, since, until_, since', until', same⟩ := h
  exact ⟨opened, closed, since, until_.trans before.opened, since', until'.trans before.closed,
    same⟩

theorem Counted.later {last' : Connections} {totalConnections : UInt64}
    (h : first.Counted last totalConnections) (before : last.Before last') :
    first.Counted last' totalConnections := by
  obtain ⟨counted, since, until_, same⟩ := h
  exact ⟨counted, since, until_.trans before.counted, same⟩

/-- What is loaded now. -/
theorem Kept.left (h : last.Kept) (before : first.Before last) :
    first.Left last last.activeConnections :=
  ⟨last.opened, last.closed, before.opened, Nat.le_refl _, before.closed, Nat.le_refl _, h.active⟩

/-- Below 2^64 connections the second counter has the number of the calls. -/
theorem Kept.toNat_total (h : connections.Kept) (few : connections.opened < UInt64.size) :
    connections.totalConnections.toNat = connections.counted := by
  rw [h.counted]
  exact UInt64.toNat_ofNat_of_lt' (Nat.lt_of_le_of_lt (Nat.sub_le _ _) few)

end Connections

/-- What is known at one moment is known at a later one. -/
structure Counts.Before (first last : Counts) : Prop where
  grows : first.metrics.Grows last.metrics
  connections : first.connections.Before last.connections

theorem Counts.Before.trans {first middle last : Counts} (h : first.Before middle)
    (h' : middle.Before last) : first.Before last :=
  ⟨h.grows.trans h'.grows, h.connections.trans h'.connections⟩

/-! ## One percentile -/

/-- What is answered when the loop ends at a place. -/
def boundAt (place : Nat) : UInt64 := upperBound (List.finRange bucketCount)[place]?

theorem boundAt_mono {place place' : Nat} (h : place ≤ place') :
    boundAt place ≤ boundAt place' := by
  have within : ∀ place < 16, ∀ place' < 16, place ≤ place' → boundAt place ≤ boundAt place' := by
    decide +kernel
  have behind : ∀ place, 15 ≤ place → boundAt place = boundAt 15 := by
    intro place far
    rw [boundAt, List.getElem?_eq_none (by rw [List.length_finRange]; exact far)]
    rfl
  by_cases near : place' < 16
  · exact within place (by omega) place' near h
  · rw [behind place' (by omega)]
    by_cases near : place < 16
    · exact within place near 15 (by decide) (by omega)
    · rw [behind place (by omega)]
      exact UInt64.le_refl _

variable {rank : Quantile → UInt64 → UInt64} {first metrics metrics' : Metrics} {scan : BucketScan}

/-- The loop is at some bucket: it has added up no more than there is in front of it, and
at the first moment it would not have ended there. -/
structure Passing (first metrics : Metrics) (scan : BucketScan) (front : List (Fin bucketCount)) :
    Prop where
  split : List.finRange bucketCount = front ++ scan.buckets
  seen : scan.seen.toNat ≤ total metrics.entries front
  late : front.length + landing first.entries scan.target.toNat scan.seen.toNat scan.buckets ≤
    first.place scan.target

theorem Passing.start (target : UInt64) : Passing first metrics { target } [] where
  split := rfl
  seen := Nat.le_refl 0
  late := Nat.le_of_eq (Nat.zero_add _)

theorem Passing.later {front : List (Fin bucketCount)} (h : Passing first metrics scan front)
    (grows : metrics.Grows metrics') : Passing first metrics' scan front :=
  ⟨h.split, Nat.le_trans h.seen (total_le fun bucket _ => grows.entries bucket), h.late⟩

/-- The value answers the percentile for some moment between the two. -/
structure Landed (rank : Quantile → UInt64 → UInt64) (first last : Metrics) (total : UInt64)
    (quantile : Quantile) (value : UInt64) : Prop where
  idle : total = 0 → value = 0
  place : total ≠ 0 → ∃ place, value = boundAt place ∧
    last.place (rank quantile total) ≤ place ∧ place ≤ first.place (rank quantile total)

theorem Landed.later {total value : UInt64} {quantile : Quantile}
    (h : Landed rank first metrics total quantile value) (grows : metrics.Grows metrics') :
    Landed rank first metrics' total quantile value where
  idle := h.idle
  place some := by
    obtain ⟨place, same, early, late⟩ := h.place some
    exact ⟨place, same, Nat.le_trans (grows.place _) early, late⟩

namespace Passing

variable {front buckets : List (Fin bucketCount)} {bucket : Fin bucketCount}

/-- There is no bucket left. -/
theorem behind (h : Passing first metrics scan front) (last : scan.buckets = []) :
    upperBound none = boundAt front.length ∧ metrics.place scan.target ≤ front.length ∧
      front.length ≤ first.place scan.target := by
  have split := h.split
  have late := h.late
  rw [last, List.append_nil] at split
  refine ⟨?_, ?_, by omega⟩
  · rw [boundAt, split, List.getElem?_eq_none (Nat.le_refl _)]
  · rw [← split]
    exact landing_le_length _ _ _ _

/-- The next bucket is read, and the sum has no overflow. -/
theorem read (h : Passing first metrics scan front) (next : scan.buckets = bucket :: buckets)
    (few : total metrics.entries (List.finRange bucketCount) < UInt64.size) :
    (scan.seen + metrics.latencyBuckets.get bucket).toNat =
      scan.seen.toNat + metrics.entries bucket := by
  have seen := h.seen
  rw [h.split, next, total_append, total_cons] at few
  rw [UInt64.toNat_add]
  refine Nat.mod_eq_of_lt ?_
  show scan.seen.toNat + metrics.entries bucket < UInt64.size
  omega

/-- With the next bucket the target is reached. -/
theorem reach (h : Passing first metrics scan front) (next : scan.buckets = bucket :: buckets)
    (few : total metrics.entries (List.finRange bucketCount) < UInt64.size)
    (enough : scan.target ≤ scan.seen + metrics.latencyBuckets.get bucket) :
    upperBound (some bucket) = boundAt front.length ∧ metrics.place scan.target ≤ front.length ∧
      front.length ≤ first.place scan.target := by
  have split := h.split
  have seen := h.seen
  have late := h.late
  rw [next] at split
  rw [UInt64.le_iff_toNat_le, h.read next few] at enough
  refine ⟨?_, ?_, by omega⟩
  · rw [boundAt, split, List.getElem?_append_right (Nat.le_refl _), Nat.sub_self]
    rfl
  · rw [Metrics.place, split]
    exact landing_reach (by omega)

/-- It is not, and the loop goes on. -/
theorem pass (h : Passing first metrics scan front) (next : scan.buckets = bucket :: buckets)
    (few : total metrics.entries (List.finRange bucketCount) < UInt64.size)
    (grown : first.Grows metrics)
    (passed : ¬ scan.target ≤ scan.seen + metrics.latencyBuckets.get bucket) :
    Passing first metrics
      { scan with seen := scan.seen + metrics.latencyBuckets.get bucket, buckets := buckets }
      (front ++ [bucket]) := by
  have split := h.split
  have seen := h.seen
  have late := h.late
  have sum := h.read next few
  rw [UInt64.le_iff_toNat_le, sum] at passed
  rw [next] at split late
  constructor
  · rw [List.append_assoc, List.singleton_append]
    exact split
  · rw [total_append, total_cons, total_nil]
    show (scan.seen + metrics.latencyBuckets.get bucket).toNat ≤ _
    omega
  · have passing : landing first.entries scan.target.toNat
          (scan.seen.toNat + metrics.entries bucket) buckets + 1 ≤
        landing first.entries scan.target.toNat scan.seen.toNat (bucket :: buckets) :=
      landing_pass (grown.entries bucket) passed
    show (front ++ [bucket]).length + landing first.entries scan.target.toNat
      (scan.seen + metrics.latencyBuckets.get bucket).toNat buckets ≤ first.place scan.target
    rw [List.length_append, List.length_singleton, sum]
    omega

end Passing

/-! ## One call -/

def Load.isPercentile : Load → Bool
  | .percentile _ => true
  | _ => false

/-- The percentiles are loaded last. -/
theorem percentiles_last {load : Load} {left : List Load} (h : load :: left <:+ toJsonLoads)
    (before : load.isPercentile = false) (quantile : Quantile) : .percentile quantile ∈ left := by
  have order : ∀ loads ∈ toJsonLoads.tails,
      (loads.head?.any fun load => !load.isPercentile) = true →
      .percentile .p50 ∈ loads.tail ∧ .percentile .p95 ∈ loads.tail ∧
        .percentile .p99 ∈ loads.tail := by
    decide
  obtain ⟨p50, p95, p99⟩ := order _ ((List.mem_tails _ _).mpr h) (by simp [before])
  cases quantile
  · exact p50
  · exact p95
  · exact p99

/-- What a reader has loaded, and where it is in the loop of a percentile. -/
structure StatsReader.Fair (rank : Quantile → UInt64 → UInt64) (now : Counts)
    (reader : StatsReader) : Prop where
  before : reader.first.Before now
  began : reader.first.connections.Kept
  suffix : reader.left <:+ toJsonLoads
  counters : ∀ counter, counter ≠ .bytesOut → .counter counter ∈ toJsonLoads →
    .counter counter ∉ reader.left →
      (reader.first.metrics.load counter).toNat ≤ (reader.shown.counters counter).toNat ∧
        (reader.shown.counters counter).toNat ≤ (now.metrics.load counter).toNat
  active : .activeConnections ∉ reader.left →
    reader.first.connections.Left now.connections reader.shown.activeConnections
  counted : .totalConnections ∉ reader.left →
    reader.first.connections.Counted now.connections reader.shown.totalConnections
  percentiles : ∀ quantile, .percentile quantile ∉ reader.left →
    Landed rank reader.first.metrics now.metrics (reader.shown.counters .totalRequests) quantile
      (reader.shown.percentiles quantile)
  scan : ∀ scan, reader.scan = some scan → ∃ quantile left front,
    reader.left = .percentile quantile :: left ∧ reader.shown.counters .totalRequests ≠ 0 ∧
      scan.target = rank quantile (reader.shown.counters .totalRequests) ∧
        Passing reader.first.metrics now.metrics scan front

namespace StatsReader.Fair

variable {reader reader' : StatsReader} {now now' : Counts}

/-- Nobody is asked before there is anything to count. -/
theorem idle (rank : Quantile → UInt64 → UInt64) (now : Counts) :
    ({} : StatsReader).Fair rank now where
  before := by
    refine ⟨fun counter _ => ?_, Nat.zero_le _, Nat.zero_le _, Nat.zero_le _⟩
    rw [Metrics.load_empty]
    exact Nat.zero_le _
  began := Connections.kept_empty
  suffix := List.nil_suffix
  counters counter _ _ _ := by
    refine ⟨?_, Nat.zero_le _⟩
    rw [Metrics.load_empty]
  active _ := ⟨0, 0, Nat.le_refl 0, Nat.zero_le _, Nat.le_refl 0, Nat.zero_le _, rfl⟩
  counted _ := ⟨0, Nat.le_refl 0, Nat.zero_le _, rfl⟩
  percentiles quantile _ := ⟨fun _ => rfl, fun some => absurd rfl some⟩
  scan scan h := by cases h

theorem enter (rank : Quantile → UInt64 → UInt64) (kept : now.connections.Kept) :
    ({ left := toJsonLoads, first := now } : StatsReader).Fair rank now where
  before := ⟨.refl _, .refl _⟩
  began := kept
  suffix := List.suffix_refl _
  counters counter _ loaded left := absurd loaded left
  active left := by
    have loaded : .activeConnections ∈ toJsonLoads := by decide
    exact absurd loaded left
  counted left := by
    have loaded : .totalConnections ∈ toJsonLoads := by decide
    exact absurd loaded left
  percentiles quantile left := by
    have loaded : .percentile quantile ∈ toJsonLoads := by cases quantile <;> decide
    exact absurd loaded left
  scan scan h := by cases h

/-- Others record, and open and close connections. -/
theorem later (h : reader.Fair rank now) (before : now.Before now') : reader.Fair rank now' where
  before := h.before.trans before
  began := h.began
  suffix := h.suffix
  counters counter hne loaded left := by
    obtain ⟨early, late⟩ := h.counters counter hne loaded left
    exact ⟨early, Nat.le_trans late (before.grows counter hne)⟩
  active left := (h.active left).later before.connections
  counted left := (h.counted left).later before.connections
  percentiles quantile left := (h.percentiles quantile left).later before.grows
  scan scan hscan := by
    obtain ⟨quantile, left, front, hleft, some, target, passing⟩ := h.scan scan hscan
    exact ⟨quantile, left, front, hleft, some, target, passing.later before.grows⟩

/-- What is loaded next is loaded once. -/
theorem tail {load : Load} {left : List Load} (h : reader.Fair rank now)
    (hleft : reader.left = load :: left) : left <:+ toJsonLoads ∧ load ∉ left := by
  have suffix := h.suffix
  rw [hleft] at suffix
  have distinct : toJsonLoads.Nodup := by decide
  exact ⟨(List.suffix_cons load left).trans suffix,
    (List.nodup_cons.mp (suffix.sublist.nodup distinct)).1⟩

/-- What is behind the next load, and is not that one, was loaded before. -/
theorem gone {load load' : Load} {left : List Load} (hleft : reader.left = load :: left)
    (other : load' ≠ load) (gone : load' ∉ left) : load' ∉ reader.left := by
  rw [hleft, List.mem_cons, not_or]
  exact ⟨other, gone⟩

/-- A reader before the percentiles is not in their loop. -/
theorem outside {load : Load} {left : List Load} (h : reader.Fair rank now)
    (hleft : reader.left = load :: left) (before : load.isPercentile = false) :
    reader.scan = none := by
  rw [Option.eq_none_iff_forall_ne_some]
  intro scan hscan
  obtain ⟨quantile, left', front, hleft', -⟩ := h.scan scan hscan
  rw [hleft] at hleft'
  cases hleft'
  cases before

/-- A number that is not a percentile is loaded. What else was shown stays. -/
theorem plain {load : Load} {left : List Load} {shown : Shown} (h : reader.Fair rank now)
    (hleft : reader.left = load :: left) (before : load.isPercentile = false)
    (counters : ∀ counter, counter ≠ .bytesOut →
      (load = .counter counter ∧ shown.counters counter = now.metrics.load counter) ∨
        (load ≠ .counter counter ∧ shown.counters counter = reader.shown.counters counter))
    (active : .activeConnections ∉ left →
      reader.first.connections.Left now.connections shown.activeConnections)
    (counted : .totalConnections ∉ left →
      reader.first.connections.Counted now.connections shown.totalConnections) :
    ({ reader with shown := shown, left := left } : StatsReader).Fair rank now where
  before := h.before
  began := h.began
  suffix := (h.tail hleft).1
  counters counter hne loaded gone := by
    obtain ⟨-, same⟩ | ⟨other, same⟩ := counters counter hne
    · simp only [same]
      exact ⟨h.before.grows _ hne, Nat.le_refl _⟩
    · simp only [same]
      exact h.counters counter hne loaded (Fair.gone hleft other.symm gone)
  active := active
  counted := counted
  percentiles quantile gone := absurd (percentiles_last (hleft ▸ h.suffix) before quantile) gone
  scan scan hscan := by
    rw [h.outside hleft before] at hscan
    cases hscan

/-- A percentile is found. -/
theorem finish {quantile : Quantile} {left : List Load} {value : UInt64}
    (h : reader.Fair rank now) (hleft : reader.left = .percentile quantile :: left)
    (landed : Landed rank reader.first.metrics now.metrics (reader.shown.counters .totalRequests)
      quantile value) : (reader.finish quantile left value).Fair rank now where
  before := h.before
  began := h.began
  suffix := (h.tail hleft).1
  counters counter hne loaded gone :=
    h.counters counter hne loaded (Fair.gone hleft Load.noConfusion gone)
  active gone := h.active (Fair.gone hleft Load.noConfusion gone)
  counted gone := h.counted (Fair.gone hleft Load.noConfusion gone)
  percentiles quantile' gone := by
    by_cases same : quantile' = quantile
    · subst same
      simp only [StatsReader.finish, Function.update_self]
      exact landed
    · simp only [StatsReader.finish, Function.update_of_ne same]
      exact h.percentiles quantile'
        (Fair.gone hleft (fun eq => same (Load.percentile.inj eq)) gone)
  scan scan hscan := by cases hscan

/-- Every load keeps a reader fair. -/
theorem load (h : reader.Fair rank now) (kept : now.connections.Kept)
    (few : total now.metrics.entries (List.finRange bucketCount) < UInt64.size)
    (hs : reader.load rank now = some reader') : reader'.Fair rank now := by
  unfold StatsReader.load at hs
  split at hs
  next => cases hs
  next counter left hleft =>
    cases hs
    refine h.plain hleft rfl ?_ (fun gone => h.active (Fair.gone hleft Load.noConfusion gone))
      (fun gone => h.counted (Fair.gone hleft Load.noConfusion gone))
    intro counter' _
    by_cases same : counter' = counter
    · subst same
      exact .inl ⟨rfl, Function.update_self ..⟩
    · exact .inr ⟨fun eq => same (Load.counter.inj eq).symm, Function.update_of_ne same ..⟩
  next left hleft =>
    cases hs
    exact h.plain hleft rfl (fun _ _ => .inr ⟨Load.noConfusion, rfl⟩)
      (fun _ => kept.left h.before.connections)
      (fun gone => h.counted (Fair.gone hleft Load.noConfusion gone))
  next left hleft =>
    cases hs
    exact h.plain hleft rfl (fun _ _ => .inr ⟨Load.noConfusion, rfl⟩)
      (fun gone => h.active (Fair.gone hleft Load.noConfusion gone))
      (fun _ => ⟨_, h.before.connections.counted, Nat.le_refl _, kept.counted⟩)
  next quantile left hleft =>
    dsimp only at hs
    split at hs
    next outside =>
      split at hs
      next none =>
        cases hs
        exact h.finish hleft ⟨fun _ => rfl, fun some => absurd none some⟩
      next some =>
        cases hs
        refine ⟨h.before, h.began, h.suffix, h.counters, h.active, h.counted, h.percentiles, ?_⟩
        rintro scan ⟨⟩
        exact ⟨quantile, left, [], hleft, some, rfl, .start _⟩
    next scan hscan =>
      obtain ⟨quantile', left', front, hleft', some, target, passing⟩ := h.scan scan hscan
      rw [hleft] at hleft'
      cases hleft'
      have landed : ∀ value, value = boundAt front.length ∧
          now.metrics.place scan.target ≤ front.length ∧
          front.length ≤ reader.first.metrics.place scan.target →
          Landed rank reader.first.metrics now.metrics (reader.shown.counters .totalRequests)
            quantile value := by
        rintro value ⟨same, early, late⟩
        exact ⟨fun none => absurd none some,
          fun _ => ⟨front.length, same, target ▸ early, target ▸ late⟩⟩
      split at hs
      next last =>
        cases hs
        exact h.finish hleft (landed _ (passing.behind last))
      next bucket buckets next =>
        split at hs
        next enough =>
          cases hs
          exact h.finish hleft (landed _ (passing.reach next few enough))
        next passed =>
          cases hs
          refine ⟨h.before, h.began, h.suffix, h.counters, h.active, h.counted, h.percentiles, ?_⟩
          rintro scan' ⟨⟩
          exact ⟨quantile, left, front ++ [bucket], hleft, some, target,
            passing.pass next few h.before.grows passed⟩

end StatsReader.Fair

/-! ## Every run -/

/-- Each number of a report lies between what the counters were when it was begun and when
it was done: a counter that only grows between its values, a percentile between those of the
two moments, the later one being the lower. -/
structure Report.Lawful (rank : Quantile → UInt64 → UInt64) (report : Report) : Prop where
  counters : ∀ counter, counter ≠ .bytesOut → .counter counter ∈ toJsonLoads →
    report.first.metrics.load counter ≤ report.shown.counters counter ∧
      report.shown.counters counter ≤ report.last.metrics.load counter
  totalConnections : report.last.connections.opened < UInt64.size →
    report.first.connections.totalConnections ≤ report.shown.totalConnections ∧
      report.shown.totalConnections ≤ report.last.connections.totalConnections
  activeConnections :
    report.first.connections.Left report.last.connections report.shown.activeConnections
  idle : report.shown.counters .totalRequests = 0 →
    ∀ quantile, report.shown.percentiles quantile = 0
  percentiles : report.shown.counters .totalRequests ≠ 0 → ∀ quantile,
    let target := rank quantile (report.shown.counters .totalRequests)
    upperBound (report.last.metrics.scanBuckets target 0 (List.finRange bucketCount)) ≤
        report.shown.percentiles quantile ∧
      report.shown.percentiles quantile ≤
        upperBound (report.first.metrics.scanBuckets target 0 (List.finRange bucketCount))
  ordered : (∀ total, rank .p50 total ≤ rank .p95 total ∧ rank .p95 total ≤ rank .p99 total) →
    report.first.metrics.latencyBuckets = report.last.metrics.latencyBuckets →
      report.shown.percentiles .p50 ≤ report.shown.percentiles .p95 ∧
        report.shown.percentiles .p95 ≤ report.shown.percentiles .p99

/-- What a single moment answers. -/
theorem upperBound_scan {metrics : Metrics}
    (few : total metrics.entries (List.finRange bucketCount) < UInt64.size) (target : UInt64) :
    upperBound (metrics.scanBuckets target 0 (List.finRange bucketCount)) =
      boundAt (metrics.place target) := by
  have start : (0 : UInt64).toNat ≤ total metrics.entries [] := Nat.le_refl 0
  have all : total metrics.entries ([] ++ List.finRange bucketCount) < UInt64.size := few
  rw [Metrics.scanBuckets_eq target all start, boundAt, Metrics.place]
  congr 1

/-- `percentile` with all buckets read at one moment is this bound, in milliseconds. -/
theorem Metrics.percentile_eq (metrics : Metrics) (fraction : Rat) {total : UInt64}
    (some : total ≠ 0) :
    metrics.percentile fraction total =
      ((upperBound (metrics.scanBuckets (UInt64.ofNat (fraction * total.toNat).floor.toNat) 0
        (List.finRange bucketCount))).toNat : Rat) / 1000 := by
  rw [percentile, if_neg some]
  dsimp only
  split
  next bucket found => rw [found, upperBound]
  next missed => rw [missed, upperBound]

/-- A reader that is done has a report. -/
theorem StatsReader.Fair.lawful {reader : StatsReader} {now : Counts} (h : reader.Fair rank now)
    (kept : now.connections.Kept)
    (few : total now.metrics.entries (List.finRange bucketCount) < UInt64.size)
    (done : reader.left = []) : (⟨reader.shown, reader.first, now⟩ : Report).Lawful rank := by
  have loaded : ∀ load : Load, load ∉ reader.left := by
    intro load
    rw [done]
    exact List.not_mem_nil
  have fewer : total reader.first.metrics.entries (List.finRange bucketCount) < UInt64.size :=
    Nat.lt_of_le_of_lt (total_le fun bucket _ => h.before.grows.entries bucket) few
  constructor
  · intro counter hne known
    obtain ⟨early, late⟩ := h.counters counter hne known (loaded _)
    exact ⟨UInt64.le_iff_toNat_le.mpr early, UInt64.le_iff_toNat_le.mpr late⟩
  · intro few
    obtain ⟨counted, since, until_, same⟩ := h.counted (loaded _)
    have fewBefore := Nat.lt_of_le_of_lt h.before.connections.opened few
    have shown : reader.shown.totalConnections.toNat = counted := by
      rw [same]
      refine UInt64.toNat_ofNat_of_lt' (Nat.lt_of_le_of_lt until_ ?_)
      exact Nat.lt_of_le_of_lt (Nat.sub_le _ _) few
    constructor
    · rw [UInt64.le_iff_toNat_le, shown, h.began.toNat_total fewBefore]
      exact since
    · rw [UInt64.le_iff_toNat_le, shown, kept.toNat_total few]
      exact until_
  · exact h.active (loaded _)
  · exact fun none quantile => (h.percentiles quantile (loaded _)).idle none
  · intro some quantile
    obtain ⟨place, same, early, late⟩ := (h.percentiles quantile (loaded _)).place some
    simp only [upperBound_scan few, upperBound_scan fewer, same]
    exact ⟨boundAt_mono early, boundAt_mono late⟩
  · intro monotone still
    have places : ∀ target, reader.first.metrics.place target = now.metrics.place target := by
      intro target
      have same : reader.first.metrics.latencyBuckets = now.metrics.latencyBuckets := still
      unfold Metrics.place Metrics.entries
      rw [same]
    by_cases none : reader.shown.counters .totalRequests = 0
    · simp only [(h.percentiles _ (loaded _)).idle none]
      exact ⟨UInt64.le_refl 0, UInt64.le_refl 0⟩
    · have exactly : ∀ quantile, reader.shown.percentiles quantile =
          boundAt (now.metrics.place (rank quantile (reader.shown.counters .totalRequests))) := by
        intro quantile
        obtain ⟨place, same, early, late⟩ := (h.percentiles quantile (loaded _)).place none
        rw [places] at late
        rw [same, Nat.le_antisymm late early]
      simp only [exactly]
      have higher : ∀ {target target' : UInt64}, target ≤ target' →
          boundAt (now.metrics.place target) ≤ boundAt (now.metrics.place target') := by
        intro target target' h
        exact boundAt_mono (landing_mono (UInt64.le_iff_toNat_le.mp h))
      obtain ⟨low, high⟩ := monotone (reader.shown.counters .totalRequests)
      exact ⟨higher low, higher high⟩

/-- Below 2^64 calls every reader is fair and every report lawful. -/
structure Stats.Lawful (rank : Quantile → UInt64 → UInt64) (s : Stats) : Prop where
  readers : ∀ reader ∈ s.readers, reader.Fair rank s.now
  reports : ∀ report ∈ s.reports, report.Lawful rank

/-- A step of the statistics is one of a recorder, or none to the recorders, and so for the
connections. -/
theorem Stats.step_parts {s s' : Stats} {a : StatsStep} (hs : s.step rank a = some s') :
    (s'.recorders = s.recorders ∨ ∃ b, s.recorders.step b = some s'.recorders) ∧
      (s'.connections = s.connections ∨ ∃ b, s.connections.step b = some s'.connections) := by
  cases a with
  | record b =>
    obtain ⟨recorders, hstep, rfl⟩ := Option.map_eq_some_iff.mp hs
    exact ⟨.inr ⟨b, hstep⟩, .inl rfl⟩
  | connect b =>
    obtain ⟨connections, hstep, rfl⟩ := Option.map_eq_some_iff.mp hs
    exact ⟨.inl rfl, .inr ⟨b, hstep⟩⟩
  | enter i =>
    simp only [Stats.step] at hs
    split at hs
    next =>
      split at hs
      next =>
        cases hs
        exact ⟨.inl rfl, .inl rfl⟩
      next => cases hs
    next => cases hs
  | load i =>
    simp only [Stats.step] at hs
    split at hs
    next =>
      obtain ⟨reader', -, rfl⟩ := Option.map_eq_some_iff.mp hs
      exact ⟨.inl rfl, .inl rfl⟩
    next => cases hs

/-- A step makes no call undone. -/
theorem Recorders.step_calls {s s' : Recorders} {a : RecorderStep} (hs : s.step a = some s') :
    s.calls.length ≤ s'.calls.length := by
  cases a <;> simp only [step] at hs <;> split at hs <;> cases hs
  · simp
  · exact Nat.le_refl _

/-- Every step keeps the statistics lawful. -/
theorem Stats.Lawful.step {s s' : Stats} {a : StatsStep} (h : s.Lawful rank)
    (conserving : Conserving s.recorders) (kept : s.connections.Kept)
    (few : s'.recorders.calls.length < UInt64.size) (hs : s.step rank a = some s') :
    s'.Lawful rank := by
  cases a with
  | record a =>
    obtain ⟨recorders, hstep, rfl⟩ := Option.map_eq_some_iff.mp hs
    have before : s.now.Before { s with recorders }.now := ⟨conserving.grows hstep few, .refl _⟩
    exact ⟨fun reader hmem => (h.readers reader hmem).later before, h.reports⟩
  | connect a =>
    obtain ⟨connections, hstep, rfl⟩ := Option.map_eq_some_iff.mp hs
    have before : s.now.Before { s with connections }.now := ⟨.refl _, (kept.step hstep).2⟩
    exact ⟨fun reader hmem => (h.readers reader hmem).later before, h.reports⟩
  | enter i =>
    simp only [Stats.step] at hs
    split at hs
    next reader hreader =>
      split at hs
      next =>
        cases hs
        refine ⟨?_, h.reports⟩
        intro reader' hmem
        obtain rfl | hmem := mem_set hmem
        · exact .enter rank kept
        · exact h.readers reader' hmem
      next => cases hs
    next => cases hs
  | load i =>
    simp only [Stats.step] at hs
    split at hs
    next reader hreader =>
      obtain ⟨reader', hload, rfl⟩ := Option.map_eq_some_iff.mp hs
      have enough := conserving.entries_few few
      have fair := (h.readers reader (List.mem_of_getElem? hreader)).load kept enough hload
      constructor
      · intro reader'' hmem
        obtain rfl | hmem := mem_set hmem
        · exact fair
        · exact h.readers reader'' hmem
      · intro report hmem
        obtain hmem | hmem := List.mem_append.mp hmem
        · exact h.reports report hmem
        · split at hmem
          next done =>
            rw [List.mem_singleton.mp hmem]
            exact fair.lawful kept enough done
          next => cases hmem
    next => cases hs

/-- The invariant of every run: what the counters are, and below 2^64 calls what was shown. -/
structure Stats.Kept (rank : Quantile → UInt64 → UInt64) (s : Stats) : Prop where
  conserving : Conserving s.recorders
  connections : s.connections.Kept
  lawful : s.recorders.calls.length < UInt64.size → s.Lawful rank

theorem Stats.kept_start (rank : Quantile → UInt64 → UInt64) (threads readers : Nat) :
    (statsMachine rank threads readers).start.Kept rank where
  conserving := WebServer.conserving (.start (m := recordersMachine threads))
  connections := Connections.kept_empty
  lawful _ := by
    refine ⟨fun reader hmem => ?_, by simp [statsMachine]⟩
    rw [List.eq_of_mem_replicate hmem]
    exact .idle rank _

theorem Stats.Kept.step {s s' : Stats} {a : StatsStep} (h : s.Kept rank)
    (hs : s.step rank a = some s') : s'.Kept rank := by
  obtain ⟨recorders, connections⟩ := Stats.step_parts hs
  have kept : Conserving s'.recorders ∧ s.recorders.calls.length ≤ s'.recorders.calls.length := by
    obtain same | ⟨b, hstep⟩ := recorders
    · rw [same]
      exact ⟨h.conserving, Nat.le_refl _⟩
    · exact ⟨h.conserving.step hstep, Recorders.step_calls hstep⟩
  refine ⟨kept.1, ?_, fun few => ?_⟩
  · obtain same | ⟨b, hstep⟩ := connections
    · rw [same]
      exact h.connections
    · exact (h.connections.step hstep).1
  · exact (h.lawful (Nat.lt_of_le_of_lt kept.2 few)).step h.conserving h.connections few hs

/-- In every run with fewer than 2^64 calls of `recordRequest`, every report that was made
is lawful, whatever was recorded meanwhile. -/
theorem stats_between {threads readers : Nat} {s : Stats}
    (r : (statsMachine rank threads readers).Reachable s)
    (few : s.recorders.calls.length < UInt64.size) : ∀ report ∈ s.reports, report.Lawful rank := by
  have kept : s.Kept rank :=
    r.invariant (I := Stats.Kept rank) (Stats.kept_start rank threads readers)
      fun _ _ _ h _ hs => h.step hs
  exact (kept.lawful few).reports

/-- The targets in whole numbers. -/
def wholeRank : Quantile → UInt64 → UInt64
  | .p50, total => total / 2
  | .p95, total => total * 95 / 100
  | .p99, total => total * 99 / 100

/-- A call of `recordRequest`, from its begin to its end. -/
def records (latencyMicros : UInt64) : List StatsStep :=
  (.call 0 ⟨200, 10, latencyMicros⟩ :: List.replicate 4 (.add 0)).map .record

/-- Two requests have taken a while, on two connections. When the first percentile has been
read, two quick ones come in, and both connections are closed. -/
def quickInBetween : List StatsStep :=
  [.connectionOpened, .connectionOpened, .counted, .counted].map .connect ++
    records 1500 ++ records 1500 ++ .enter 0 :: List.replicate 14 (.load 0) ++
    records 40 ++ records 40 ++ [.connectionClosed, .connectionClosed].map .connect ++
    List.replicate 4 (.load 0)

/-- Where that run ends. -/
def quickInBetweenEnd : Stats :=
  ((statsMachine wholeRank 1 1).exec (statsMachine wholeRank 1 1).start quickInBetween).get
    (by decide +kernel)

/-- The median that is shown is then above the other two percentiles, and each is of a moment
of the call. -/
theorem stats_between_quick :
    (quickInBetweenEnd.reports.map fun report =>
        (report.shown.percentiles .p50, report.shown.percentiles .p95)) = [(2500, 50)] ∧
      ∀ report ∈ quickInBetweenEnd.reports, report.Lawful wholeRank :=
  ⟨by decide +kernel, stats_between (.of_exec (Option.some_get _).symm) (by decide +kernel)⟩

end WebServer
