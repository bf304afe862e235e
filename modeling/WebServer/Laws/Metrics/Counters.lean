import WebServer.Base.Tally
import WebServer.Metrics.Counters

/-!
# What the counters hold

A `fetch_add` changes one counter and leaves the others alone (`load_fetchAdd`), so
after any number of them a counter holds what they add to it, modulo 2^64
(`load_addAll`). And each latency has one bucket: the one whose bounds it lies
between (`bucketOf_eq_some_iff`, `exists_bucketOf`).
-/

namespace WebServer

open Base

/-- What the `fetch_add`s on counters of one kind come to. -/
def amount (kind : Counter → Bool) (adds : List (Counter × UInt64)) : Nat :=
  total (fun add => if kind add.1 then add.2.toNat else 0) adds

variable {kind : Counter → Bool}

theorem amount_cons (kind : Counter → Bool) (add : Counter × UInt64)
    (adds : List (Counter × UInt64)) :
    amount kind (add :: adds) = (if kind add.1 then add.2.toNat else 0) + amount kind adds :=
  rfl

theorem amount_append (kind : Counter → Bool) (adds more : List (Counter × UInt64)) :
    amount kind (adds ++ more) = amount kind adds + amount kind more :=
  total_append _ adds more

namespace Metrics

variable (metrics : Metrics)

theorem load_fetchAdd (counter other : Counter) (n : UInt64) :
    (metrics.fetchAdd counter n).load other =
      if counter = other then metrics.load other + n else metrics.load other := by
  by_cases h : counter = other
  · subst h
    rw [if_pos rfl]
    cases counter with
    | latencyBucket bucket =>
      simp only [fetchAdd, load]
      exact Vector.getElem_set_self bucket.isLt
    | _ => rfl
  · rw [if_neg h]
    cases counter with
    | latencyBucket bucket =>
      cases other with
      | latencyBucket bucket' =>
        simp only [fetchAdd, load]
        apply Vector.getElem_set_ne bucket.isLt bucket'.isLt
        intro heq
        exact h (congrArg Counter.latencyBucket (Fin.ext heq))
      | _ => rfl
    | _ => cases other <;> first | rfl | exact absurd rfl h

/-- A counter holds what is added to it, modulo 2^64. -/
theorem load_addAll (adds : List (Counter × UInt64)) (counter : Counter) :
    (metrics.addAll adds).load counter =
      metrics.load counter + UInt64.ofNat (amount (· = counter) adds) := by
  induction adds generalizing metrics with
  | nil => exact (UInt64.add_zero _).symm
  | cons add adds ih =>
    show ((metrics.fetchAdd add.1 add.2).addAll adds).load counter = _
    rw [ih, load_fetchAdd, amount_cons, UInt64.ofNat_add]
    by_cases h : add.1 = counter
    · simp only [h, if_true, decide_true, UInt64.ofNat_toNat, UInt64.add_assoc]
    · simp only [h, if_false, decide_false, Bool.false_eq_true]
      rw [show UInt64.ofNat 0 = 0 from rfl, UInt64.zero_add]

theorem addAll_append (adds more : List (Counter × UInt64)) :
    metrics.addAll (adds ++ more) = (metrics.addAll adds).addAll more :=
  List.foldl_append

/-- The calls one after the other. -/
def recordAll (calls : List RecordCall) : Metrics := calls.foldl recordRequest {}

theorem recordAll_eq (calls : List RecordCall) :
    recordAll calls = addAll {} (calls.flatMap RecordCall.fetchAdds) := by
  suffices h : ∀ metrics : Metrics, calls.foldl recordRequest metrics =
      metrics.addAll (calls.flatMap RecordCall.fetchAdds) from h {}
  induction calls with
  | nil => exact fun _ => rfl
  | cons call calls ih =>
    intro metrics
    rw [List.foldl_cons, ih, List.flatMap_cons, addAll_append, recordRequest]

theorem load_empty (counter : Counter) : ({} : Metrics).load counter = 0 := by
  cases counter with
  | latencyBucket bucket => exact Vector.getElem_replicate bucket.isLt
  | _ => rfl

/-- What a counter holds when all calls have been made. -/
theorem toNat_load_recordAll (calls : List RecordCall) (counter : Counter) :
    ((recordAll calls).load counter).toNat =
      amount (· = counter) (calls.flatMap RecordCall.fetchAdds) % UInt64.size := by
  rw [recordAll_eq, load_addAll, load_empty, UInt64.zero_add, UInt64.toNat_ofNat']

end Metrics

/-! ## Buckets -/

/-- The bucket holds the latencies above the previous bound and not above its own. -/
def inBucket (bucket : Fin bucketCount) (latency : UInt64) : Bool :=
  (decide (bucket.val = 0) || bucketBounds.get (previous bucket) < latency) &&
    latency ≤ bucketBounds.get bucket

theorem bounds_ascend : ∀ bucket bucket' : Fin bucketCount, bucket.val ≤ bucket'.val →
    bucketBounds.get bucket ≤ bucketBounds.get bucket' := by
  decide +kernel

/-- The loop ends in the first bucket whose bound is not below the latency. -/
theorem bucketOf_eq_some {latency : UInt64} {bucket : Fin bucketCount} :
    bucketOf latency = some bucket ↔
      latency ≤ bucketBounds.get bucket ∧
        ∀ b : Fin bucketCount, b.val < bucket.val → bucketBounds.get b < latency := by
  unfold bucketOf
  rw [List.find?_eq_some_iff_getElem]
  simp only [decide_eq_true_eq, List.getElem_finRange, List.length_finRange, Fin.cast_mk]
  apply and_congr_right
  intro _
  constructor
  · rintro ⟨i, hi, rfl, hbefore⟩ b hb
    have hno := hbefore b.val hb
    simpa [UInt64.not_le] using hno
  · intro hbefore
    refine ⟨bucket.val, bucket.isLt, rfl, fun j hj => ?_⟩
    have hlt := hbefore ⟨j, Nat.lt_trans hj bucket.isLt⟩ hj
    simpa [UInt64.not_le] using hlt

theorem bucketOf_eq_some_iff {latency : UInt64} {bucket : Fin bucketCount} :
    bucketOf latency = some bucket ↔ inBucket bucket latency = true := by
  unfold inBucket
  simp only [bucketOf_eq_some, Bool.and_eq_true, Bool.or_eq_true, decide_eq_true_eq]
  rw [and_comm]
  apply and_congr_left
  intro _
  constructor
  · intro hbefore
    by_cases hzero : bucket.val = 0
    · exact .inl hzero
    · have hlt : bucket.val - 1 < bucket.val := by omega
      exact .inr (hbefore (previous bucket) hlt)
  · intro hprevious b hb
    rcases hprevious with hzero | hprevious
    · omega
    · have hle : b.val ≤ bucket.val - 1 := by omega
      exact UInt64.lt_of_le_of_lt (bounds_ascend b (previous bucket) hle) hprevious

/-- The last bucket takes what no other does. -/
theorem exists_bucketOf (latency : UInt64) : ∃ bucket, bucketOf latency = some bucket := by
  rw [← Option.isSome_iff_exists, bucketOf, List.find?_isSome]
  refine ⟨⟨14, by decide⟩, List.mem_finRange _, decide_eq_true ?_⟩
  have hlast : bucketBounds.get ⟨14, by decide⟩ = 18446744073709551615 := rfl
  rw [hlast, UInt64.le_iff_toNat_le]
  have hlt := latency.toNat_lt
  have hmax : (18446744073709551615 : UInt64).toNat = 18446744073709551615 := rfl
  omega

/-- A call adds to four counters: one of a status class and one of a bucket among
them. -/
theorem fetchAdds_eq (call : RecordCall) : ∃ bucket, bucketOf call.latencyMicros = some bucket ∧
    call.fetchAdds = [(.totalRequests, 1), (.bytesOut, call.responseBytes),
      (statusCounter call.status, 1), (.latencyBucket bucket, 1)] := by
  obtain ⟨bucket, h⟩ := exists_bucketOf call.latencyMicros
  refine ⟨bucket, h, ?_⟩
  rw [RecordCall.fetchAdds, h]
  rfl

theorem amount_flatMap (kind : Counter → Bool) (calls : List RecordCall) :
    amount kind (calls.flatMap RecordCall.fetchAdds) =
      total (fun call => amount kind call.fetchAdds) calls :=
  total_flatMap _ _ calls

/-- Counters that some calls add one to, and the others nothing, count those calls. -/
theorem amount_calls {p : RecordCall → Bool}
    (each : ∀ call : RecordCall, amount kind call.fetchAdds = if p call then 1 else 0)
    (calls : List RecordCall) :
    amount kind (calls.flatMap RecordCall.fetchAdds) = calls.countP p := by
  rw [amount_flatMap, ← total_one]
  exact total_congr fun call _ => each call

/-- Status classes are counted apart from the rest. -/
theorem statusCounter_cases (status : Int) : statusCounter status = .responses2xx ∨
    statusCounter status = .responses4xx ∨ statusCounter status = .responses5xx := by
  unfold statusCounter
  split
  · exact .inl rfl
  · split
    · exact .inr (.inl rfl)
    · exact .inr (.inr rfl)

theorem amount_latencyBucket (bucket : Fin bucketCount) (call : RecordCall) :
    amount (· = .latencyBucket bucket) call.fetchAdds =
      if bucketOf call.latencyMicros = some bucket then 1 else 0 := by
  obtain ⟨bucket', hbucket, hadds⟩ := fetchAdds_eq call
  rw [hadds, hbucket]
  simp only [amount, total_cons, total_nil]
  rcases statusCounter_cases call.status with h | h | h <;>
  · rw [h]
    by_cases heq : bucket' = bucket
    · simp [heq]
    · simp [heq]

end WebServer
