import WebServer.Server.Connection

/-!
# The server's counters

`Metrics` of `include/metrics.h` and `src/metrics.cpp`. What a call of
`recordRequest` does is given as the `fetch_add`s it makes, in program order: they
are what threads that record at the same time can interleave.
-/

namespace WebServer

open Base

def bucketCount : Nat := 15

/-- Upper bound of each bucket in microseconds; the last bucket is unbounded. -/
def bucketBounds : Vector UInt64 bucketCount :=
  #v[50, 100, 250, 500, 1000, 2500, 5000, 10000, 25000,
    50000, 100000, 250000, 500000, 1000000, 18446744073709551615]

/-- The bucket in front of a bucket. -/
def previous (bucket : Fin bucketCount) : Fin bucketCount :=
  ⟨bucket.val - 1, Nat.sub_lt_of_lt bucket.isLt⟩

theorem lastBounded_lt : bucketCount - 2 < bucketCount := by decide

/-- The last bucket that is bounded. -/
def lastBounded : Fin bucketCount := ⟨bucketCount - 2, lastBounded_lt⟩

/-- The counters that `recordRequest` adds to. -/
inductive Counter where
  | totalRequests
  | bytesOut
  | responses2xx
  | responses4xx
  | responses5xx
  | latencyBucket (bucket : Fin bucketCount)
  deriving DecidableEq

structure Metrics where
  totalRequests : UInt64 := 0
  bytesOut : UInt64 := 0
  responses2xx : UInt64 := 0
  responses4xx : UInt64 := 0
  responses5xx : UInt64 := 0
  latencyBuckets : Vector UInt64 bucketCount := Vector.replicate bucketCount 0

/-- The arguments of one `recordRequest`. -/
structure RecordCall where
  status : Int
  responseBytes : UInt64
  latencyMicros : UInt64
  deriving DecidableEq

/-- The arguments as the handler gives them: sizes are 64 bits wide, and so is the
time that the clock shows. -/
def Recorded.call (recorded : Recorded) : RecordCall where
  status := recorded.status
  responseBytes := UInt64.ofNat recorded.responseBytes
  latencyMicros := UInt64.ofNat recorded.latencyMicros

namespace Metrics

/-- Reads a counter. -/
def load (metrics : Metrics) : Counter → UInt64
  | .totalRequests => metrics.totalRequests
  | .bytesOut => metrics.bytesOut
  | .responses2xx => metrics.responses2xx
  | .responses4xx => metrics.responses4xx
  | .responses5xx => metrics.responses5xx
  | .latencyBucket bucket => metrics.latencyBuckets.get bucket

/-- `fetch_add` on a counter. -/
def fetchAdd (metrics : Metrics) (counter : Counter) (n : UInt64) : Metrics :=
  match counter with
  | .totalRequests => { metrics with totalRequests := metrics.totalRequests + n }
  | .bytesOut => { metrics with bytesOut := metrics.bytesOut + n }
  | .responses2xx => { metrics with responses2xx := metrics.responses2xx + n }
  | .responses4xx => { metrics with responses4xx := metrics.responses4xx + n }
  | .responses5xx => { metrics with responses5xx := metrics.responses5xx + n }
  | .latencyBucket bucket =>
    { metrics with
      latencyBuckets := metrics.latencyBuckets.set bucket.val
        (metrics.latencyBuckets.get bucket + n) bucket.isLt }

end Metrics

/-- The counter of the status class. -/
def statusCounter (status : Int) : Counter :=
  if status < 400 then .responses2xx
  else if status < 500 then .responses4xx
  else .responses5xx

/-- Where the bucket loop of `recordRequest` ends. -/
def bucketOf (latencyMicros : UInt64) : Option (Fin bucketCount) :=
  (List.finRange bucketCount).find? fun bucket => latencyMicros ≤ bucketBounds.get bucket

/-- The `fetch_add`s of a call, in program order. -/
def RecordCall.fetchAdds (call : RecordCall) : List (Counter × UInt64) :=
  [(.totalRequests, 1), (.bytesOut, call.responseBytes), (statusCounter call.status, 1)] ++
    (bucketOf call.latencyMicros).toList.map fun bucket => (.latencyBucket bucket, 1)

namespace Metrics

/-- Makes the `fetch_add`s one after the other. -/
def addAll (metrics : Metrics) (adds : List (Counter × UInt64)) : Metrics :=
  adds.foldl (fun metrics add => metrics.fetchAdd add.1 add.2) metrics

def recordRequest (metrics : Metrics) (call : RecordCall) : Metrics :=
  metrics.addAll call.fetchAdds

/-- The loop of `percentile`: the first bucket up to which there are `target`
entries, with the entries in front of the buckets that are left. -/
def scanBuckets (metrics : Metrics) (target : UInt64) (seen : UInt64) :
    List (Fin bucketCount) → Option (Fin bucketCount)
  | [] => none
  | bucket :: buckets =>
    let seen := seen + metrics.latencyBuckets.get bucket
    if target ≤ seen then some bucket else metrics.scanBuckets target seen buckets

/-- `percentile`, in milliseconds, with `fraction * total` in exact arithmetic. -/
def percentile (metrics : Metrics) (fraction : Rat) (total : UInt64) : Rat :=
  if total = 0 then 0
  else
    let target := UInt64.ofNat (fraction * total.toNat).floor.toNat
    match metrics.scanBuckets target 0 (List.finRange bucketCount) with
    | some bucket =>
      let upper := if bucket.val + 1 = bucketCount then bucketBounds.get (previous bucket)
        else bucketBounds.get bucket
      (upper.toNat : Rat) / 1000
    | none => ((bucketBounds.get lastBounded).toNat : Rat) / 1000

end Metrics

end WebServer
