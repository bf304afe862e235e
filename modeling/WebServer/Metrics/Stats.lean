import WebServer.Http.Response
import WebServer.Metrics.Recorders

/-!
# What `/api/stats` shows

`Metrics::toJson` loads the counters one after the other, in the order in which it writes
them, while other threads record, and open and close connections. Each load is one step
here, those of the loop in `percentile` among them, and any number of threads may be in
`toJson`. Loads and `fetch_add`s take effect in the order in which they are made, which is
more than relaxed order promises for two counters. The rounding in `fraction * total` is
left open: `rank` is the `target` that a percentile of so many requests is given.

The text is put together from what was loaded (`Shown.toJson`). A percentile is the bound
of a bucket, so in milliseconds it has two decimals at most. The hit rate is a division in
floating point: whether there is one is the code's, and how its quotient is rounded is left
open.
-/

namespace WebServer

open Base

/-- The two counters of connections. -/
structure Connections where
  activeConnections : Int64 := 0
  totalConnections : UInt64 := 0
  /-- The threads between the two `fetch_add`s of `connectionOpened`. -/
  opening : Nat := 0
  /-- The calls of `connectionOpened` so far; the program keeps no such record. -/
  opened : Nat := 0
  /-- The calls of `connectionClosed` so far; nor this one. -/
  closed : Nat := 0

inductive ConnectionStep where
  /-- A thread enters `connectionOpened` and makes its first `fetch_add`. -/
  | connectionOpened
  /-- It makes the second, and returns. -/
  | counted
  | connectionClosed

def Connections.step (connections : Connections) : ConnectionStep → Option Connections
  | .connectionOpened =>
    some { connections with
      activeConnections := connections.activeConnections + 1
      opening := connections.opening + 1
      opened := connections.opened + 1 }
  | .counted =>
    match connections.opening with
    | 0 => none
    | opening + 1 =>
      some { connections with
        totalConnections := connections.totalConnections + 1
        opening }
  | .connectionClosed =>
    some { connections with
      activeConnections := connections.activeConnections - 1
      closed := connections.closed + 1 }

/-- All counters, at one moment. -/
structure Counts where
  metrics : Metrics := {}
  connections : Connections := {}

/-- The percentiles that are shown. -/
inductive Quantile where
  | p50
  | p95
  | p99
  deriving DecidableEq

/-- What `toJson` loads. -/
inductive Load where
  | counter (counter : Counter)
  | activeConnections
  | totalConnections
  | percentile (quantile : Quantile)
  deriving DecidableEq

/-- The loads of `toJson`, in program order. -/
def toJsonLoads : List Load :=
  [.counter .totalRequests, .counter .bytesOut, .activeConnections, .totalConnections,
    .counter .responses2xx, .counter .responses4xx, .counter .responses5xx,
    .percentile .p50, .percentile .p95, .percentile .p99]

/-- The numbers that `toJson` writes, the percentiles in microseconds. -/
structure Shown where
  counters : Counter → UInt64 := fun _ => 0
  activeConnections : Int64 := 0
  totalConnections : UInt64 := 0
  percentiles : Quantile → UInt64 := fun _ => 0

/-- What `percentile` answers, in microseconds, when its loop ends in a bucket or behind
the last. -/
def upperBound : Option (Fin bucketCount) → UInt64
  | none => bucketBounds.get lastBounded
  | some bucket =>
    if bucket.val + 1 = bucketCount then bucketBounds.get (previous bucket)
    else bucketBounds.get bucket

/-- The local variables of the loop in `percentile`. -/
structure BucketScan where
  target : UInt64
  seen : UInt64 := 0
  buckets : List (Fin bucketCount) := List.finRange bucketCount

/-- A thread in `toJson`, or outside with nothing left to load. -/
structure StatsReader where
  shown : Shown := {}
  left : List Load := []
  scan : Option BucketScan := none
  /-- The counters when the call began; the program keeps no such record. -/
  first : Counts := {}

namespace StatsReader

/-- The percentile has been found. -/
def finish (reader : StatsReader) (quantile : Quantile) (left : List Load) (value : UInt64) :
    StatsReader :=
  { reader with
    shown := { reader.shown with
      percentiles := Function.update reader.shown.percentiles quantile value }
    left := left
    scan := none }

/-- The next load. -/
def load (rank : Quantile → UInt64 → UInt64) (now : Counts) (reader : StatsReader) :
    Option StatsReader :=
  match reader.left with
  | [] => none
  | .counter counter :: left =>
    some { reader with
      shown := { reader.shown with
        counters := Function.update reader.shown.counters counter (now.metrics.load counter) }
      left := left }
  | .activeConnections :: left =>
    some { reader with
      shown := { reader.shown with activeConnections := now.connections.activeConnections }
      left := left }
  | .totalConnections :: left =>
    some { reader with
      shown := { reader.shown with totalConnections := now.connections.totalConnections }
      left := left }
  | .percentile quantile :: left =>
    let total := reader.shown.counters .totalRequests
    match reader.scan with
    | none =>
      if total = 0 then some (reader.finish quantile left 0)
      else some { reader with scan := some { target := rank quantile total } }
    | some scan =>
      match scan.buckets with
      | [] => some (reader.finish quantile left (upperBound none))
      | bucket :: buckets =>
        let seen := scan.seen + now.metrics.latencyBuckets.get bucket
        if scan.target ≤ seen then some (reader.finish quantile left (upperBound (some bucket)))
        else some { reader with scan := some { scan with seen, buckets } }

end StatsReader

/-- What a call of `toJson` has shown, with the counters as they were when it began and
when it was done. -/
structure Report where
  shown : Shown
  first : Counts
  last : Counts

/-- Threads that record, that open and close connections, and that are in `toJson`, and
what was shown so far. -/
structure Stats where
  recorders : Recorders
  connections : Connections := {}
  readers : List StatsReader
  reports : List Report := []

/-- The counters as they are now. -/
def Stats.now (s : Stats) : Counts := ⟨s.recorders.metrics, s.connections⟩

inductive StatsStep where
  | record (step : RecorderStep)
  | connect (step : ConnectionStep)
  /-- The thread enters `toJson`. -/
  | enter (reader : Nat)
  /-- The thread makes its next load, and returns after the last. -/
  | load (reader : Nat)

def Stats.step (rank : Quantile → UInt64 → UInt64) (s : Stats) : StatsStep → Option Stats
  | .record step => (s.recorders.step step).map fun recorders => { s with recorders }
  | .connect step => (s.connections.step step).map fun connections => { s with connections }
  | .enter i =>
    match s.readers[i]? with
    | some reader =>
      if reader.left = [] then
        some { s with
          readers := s.readers.set i { left := toJsonLoads, first := s.now } }
      else none
    | none => none
  | .load i =>
    match s.readers[i]? with
    | some reader =>
      (reader.load rank s.now).map fun reader' =>
        { s with
          readers := s.readers.set i reader'
          reports := s.reports ++
            if reader'.left = [] then [⟨reader'.shown, reader'.first, s.now⟩] else [] }
    | none => none

def statsMachine (rank : Quantile → UInt64 → UInt64) (threads readers : Nat) :
    Machine Stats StatsStep where
  start :=
    { recorders := (recordersMachine threads).start
      readers := List.replicate readers {} }
  step := Stats.step rank

/-! ## The text -/

/-- What `std::fixed` at precision two writes of a double that is not negative. -/
inductive Fixed where
  | finite (hundredths : Nat)
  | infinite
  | notANumber

def Fixed.text : Fixed → Bytes
  | .finite hundredths =>
    decimal (hundredths / 100) ++
      46 :: [UInt8.ofNat (48 + hundredths / 10 % 10), UInt8.ofNat (48 + hundredths % 10)]
  | .infinite => ascii "inf"
  | .notANumber => ascii "nan"

/-- Microseconds as milliseconds. -/
def fixedMillis (micros : Nat) : Bytes := (Fixed.finite (micros / 10)).text

/-- `100.0 * cacheHits / cacheTotal` in doubles. `round` gives the hundredths that are
written of the quotient where there is one. -/
def percent (round : UInt64 → UInt64 → Nat) (cacheHits cacheTotal : UInt64) : Fixed :=
  if cacheTotal = 0 then if cacheHits = 0 then .notANumber else .infinite
  else .finite (round cacheHits cacheTotal)

def hitRate (round : UInt64 → UInt64 → Nat) (cacheHits cacheMisses : UInt64) : Fixed :=
  let cacheTotal := cacheHits + cacheMisses
  if cacheTotal ≠ 0 then percent round cacheHits cacheTotal else .finite 0

/-- `toJson`, from what was loaded. -/
def Shown.toJson (shown : Shown) (round : UInt64 → UInt64 → Nat) (mode : Bytes)
    (threads uptime : Int) (cacheHits cacheMisses : UInt64) : Bytes :=
  ascii "\x7b" ++
    ascii "\"mode\":\"" ++ mode ++ ascii "\"," ++
    ascii "\"threads\":" ++ decimalInt threads ++ ascii "," ++
    ascii "\"uptimeMs\":" ++ decimalInt uptime ++ ascii "," ++
    ascii "\"totalRequests\":" ++ decimal (shown.counters .totalRequests).toNat ++ ascii "," ++
    ascii "\"bytesOut\":" ++ decimal (shown.counters .bytesOut).toNat ++ ascii "," ++
    ascii "\"activeConnections\":" ++ decimalInt shown.activeConnections.toInt ++ ascii "," ++
    ascii "\"totalConnections\":" ++ decimal shown.totalConnections.toNat ++ ascii "," ++
    ascii "\"status\":\x7b" ++
    ascii "\"ok\":" ++ decimal (shown.counters .responses2xx).toNat ++ ascii "," ++
    ascii "\"clientError\":" ++ decimal (shown.counters .responses4xx).toNat ++ ascii "," ++
    ascii "\"serverError\":" ++ decimal (shown.counters .responses5xx).toNat ++ ascii "\x7d," ++
    ascii "\"latencyMs\":\x7b" ++
    ascii "\"p50\":" ++ fixedMillis (shown.percentiles .p50).toNat ++ ascii "," ++
    ascii "\"p95\":" ++ fixedMillis (shown.percentiles .p95).toNat ++ ascii "," ++
    ascii "\"p99\":" ++ fixedMillis (shown.percentiles .p99).toNat ++ ascii "\x7d," ++
    ascii "\"cache\":\x7b" ++
    ascii "\"hits\":" ++ decimal cacheHits.toNat ++ ascii "," ++
    ascii "\"misses\":" ++ decimal cacheMisses.toNat ++ ascii "," ++
    ascii "\"hitRate\":" ++ (hitRate round cacheHits cacheMisses).text ++
    ascii "\x7d\x7d"

end WebServer
