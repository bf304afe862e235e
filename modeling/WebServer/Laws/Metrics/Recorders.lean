import WebServer.Laws.Metrics.Counters
import WebServer.Metrics.Recorders

/-!
# Recording loses nothing

A call adds one to `totalRequests`, then to a status class, then to a bucket, and
what a thread has left to add is the end of that list. So at every moment the
counters and what is left to add come to what the calls made so far are to add, for
each kind of counter (`Conserving`), and of what is left a later counter never has
less than an earlier one (`left_amounts`). Readers see the order of the additions,
and when no call is in flight everything is there (`conserved`).
-/

namespace WebServer

open Base

/-- The counters of the status classes. -/
def Counter.isStatus : Counter → Bool
  | .responses2xx => true
  | .responses4xx => true
  | .responses5xx => true
  | _ => false

def Counter.isBucket : Counter → Bool
  | .latencyBucket _ => true
  | _ => false

namespace Metrics

/-- `ok + clientError + serverError`. -/
def statusSum (metrics : Metrics) : Nat :=
  metrics.responses2xx.toNat + metrics.responses4xx.toNat + metrics.responses5xx.toNat

/-- The entries of all buckets. -/
def bucketSum (metrics : Metrics) : Nat :=
  total (fun bucket => (metrics.latencyBuckets.get bucket).toNat) (List.finRange bucketCount)

/-- The counters are those of the calls, each counted where it belongs. -/
structure Settled (metrics : Metrics) (calls : List RecordCall) : Prop where
  totalRequests : metrics.totalRequests.toNat = calls.length
  statusSum : metrics.statusSum = calls.length
  bucketSum : metrics.bucketSum = calls.length
  bytesOut : total (·.responseBytes.toNat) calls < UInt64.size →
    metrics.bytesOut.toNat = total (·.responseBytes.toNat) calls
  ok : metrics.responses2xx.toNat = calls.countP fun call => call.status < 400
  clientError : metrics.responses4xx.toNat =
    calls.countP fun call => 400 ≤ call.status && call.status < 500
  serverError : metrics.responses5xx.toNat = calls.countP fun call => 500 ≤ call.status
  bucket : ∀ bucket, (metrics.latencyBuckets.get bucket).toNat =
    calls.countP fun call => inBucket bucket call.latencyMicros

end Metrics

/-- What a reader can rely on, calls in flight or not. -/
structure Recorders.Conserved (s : Recorders) : Prop where
  requests : s.metrics.statusSum ≤ s.metrics.totalRequests.toNat
  status : s.metrics.bucketSum ≤ s.metrics.statusSum
  apart : s.metrics.totalRequests.toNat - s.metrics.bucketSum ≤ s.inFlight
  settled : s.inFlight = 0 → s.metrics.Settled s.calls

/-! ## Kinds of counters -/

@[simp] theorem isStatus_others : Counter.isStatus .totalRequests = false ∧
    Counter.isStatus .bytesOut = false ∧
    ∀ bucket, Counter.isStatus (.latencyBucket bucket) = false :=
  ⟨rfl, rfl, fun _ => rfl⟩

@[simp] theorem isBucket_others : Counter.isBucket .totalRequests = false ∧
    Counter.isBucket .bytesOut = false ∧
    ∀ bucket, Counter.isBucket (.latencyBucket bucket) = true :=
  ⟨rfl, rfl, fun _ => rfl⟩

theorem statusCounter_kind (status : Int) : statusCounter status ≠ .totalRequests ∧
    (statusCounter status).isStatus = true ∧ (statusCounter status).isBucket = false := by
  rcases statusCounter_cases status with h | h | h <;>
  · rw [h]
    exact ⟨Counter.noConfusion, rfl, rfl⟩

/-- A call adds one to `totalRequests`, to a status class and to a bucket. -/
theorem amount_kinds (call : RecordCall) :
    amount (· = .totalRequests) call.fetchAdds = 1 ∧ amount Counter.isStatus call.fetchAdds = 1 ∧
      amount Counter.isBucket call.fetchAdds = 1 := by
  obtain ⟨bucket, -, hadds⟩ := fetchAdds_eq call
  obtain ⟨hrequests, hstatus, hbucket⟩ := statusCounter_kind call.status
  rw [hadds]
  simp [amount, hrequests, hstatus, hbucket]

/-- What is left of a call has no more for an earlier counter than for a later one. -/
theorem left_amounts {call : RecordCall} {left : List (Counter × UInt64)}
    (h : left <:+ call.fetchAdds) :
    amount (· = .totalRequests) left ≤ amount Counter.isStatus left ∧
      amount Counter.isStatus left ≤ amount Counter.isBucket left ∧
      amount Counter.isBucket left ≤ if !left.isEmpty then 1 else 0 := by
  obtain ⟨bucket, -, hadds⟩ := fetchAdds_eq call
  obtain ⟨hrequests, hstatus, hbucket⟩ := statusCounter_kind call.status
  rw [hadds] at h
  simp only [List.suffix_cons_iff, List.suffix_nil] at h
  rcases h with rfl | rfl | rfl | rfl | rfl <;>
    simp [amount, hrequests, hstatus, hbucket]

/-! ## The invariant -/

/-- The counters and what is left to add come to what the calls are to add. -/
structure Conserving (s : Recorders) : Prop where
  added : ∃ added, s.metrics = ({} : Metrics).addAll added ∧
    ∀ kind, amount kind added + total (amount kind) s.pending =
      amount kind (s.calls.flatMap RecordCall.fetchAdds)
  left : ∀ left ∈ s.pending, ∃ call : RecordCall, left <:+ call.fetchAdds

theorem mem_set {α : Type u} {xs : List α} {i : Nat} {x y : α} (h : y ∈ xs.set i x) :
    y = x ∨ y ∈ xs :=
  (List.mem_or_eq_of_mem_set h).symm

theorem Conserving.step {s s' : Recorders} (h : Conserving s) {a : RecorderStep}
    (hs : s.step a = some s') : Conserving s' := by
  obtain ⟨added, hmetrics, hamounts⟩ := h.added
  cases a with
  | call thread call =>
    simp only [Recorders.step] at hs
    split at hs
    next hpending =>
      cases hs
      constructor
      · refine ⟨added, hmetrics, fun kind => ?_⟩
        have hset := total_set (f := amount kind) hpending call.fetchAdds
        have hkind := hamounts kind
        rw [List.flatMap_append, amount_append, List.flatMap_singleton]
        simp only [amount, total_nil] at hset hkind ⊢
        omega
      · intro left hmem
        rcases mem_set hmem with rfl | hmem
        · exact ⟨call, List.suffix_refl _⟩
        · exact h.left left hmem
    next => cases hs
  | add thread =>
    simp only [Recorders.step] at hs
    split at hs
    next add left hpending =>
      cases hs
      constructor
      · refine ⟨added ++ [add], ?_, fun kind => ?_⟩
        · rw [Metrics.addAll_append, ← hmetrics]
          rfl
        · have hset := total_set (f := amount kind) hpending left
          have hkind := hamounts kind
          rw [amount_append]
          rw [amount_cons] at hset
          simp only [amount, total_cons, total_nil] at hset hkind ⊢
          omega
      · intro left' hmem
        rcases mem_set hmem with rfl | hmem
        · obtain ⟨call, hsuffix⟩ := h.left _ (List.mem_of_getElem? hpending)
          exact ⟨call, (List.suffix_cons add left').trans hsuffix⟩
        · exact h.left left' hmem
    next => cases hs

theorem conserving {threads : Nat} {s : Recorders}
    (r : (recordersMachine threads).Reachable s) : Conserving s := by
  refine r.invariant ?_ fun s a s' h _ hs => h.step hs
  constructor
  · refine ⟨[], rfl, fun kind => ?_⟩
    have hidle : total (amount kind) (List.replicate threads []) = 0 :=
      total_eq_zero fun left hmem => List.eq_of_mem_replicate hmem ▸ rfl
    exact (Nat.zero_add _).trans hidle
  · intro left hmem
    rw [List.eq_of_mem_replicate hmem]
    exact ⟨⟨0, 0, 0⟩, List.nil_suffix⟩

/-! ## Reading the counters -/

theorem amount_le {kind wider : Counter → Bool} (h : ∀ c, kind c = true → wider c = true)
    (adds : List (Counter × UInt64)) : amount kind adds ≤ amount wider adds := by
  apply total_le
  intro add _
  by_cases hkind : kind add.1 = true
  · rw [if_pos hkind, if_pos (h _ hkind)]
  · rw [if_neg hkind]
    exact Nat.zero_le _

/-- The three classes together. -/
theorem amount_isStatus (adds : List (Counter × UInt64)) :
    amount (· = .responses2xx) adds + amount (· = .responses4xx) adds +
      amount (· = .responses5xx) adds = amount Counter.isStatus adds := by
  unfold amount
  rw [← total_add, ← total_add]
  apply total_congr
  intro add _
  cases add.1 with
  | responses2xx => simp [Counter.isStatus]
  | responses4xx => simp [Counter.isStatus]
  | responses5xx => simp [Counter.isStatus]
  | _ => simp

/-- All buckets together. -/
theorem amount_isBucket (adds : List (Counter × UInt64)) :
    total (fun bucket => amount (· = .latencyBucket bucket) adds) (List.finRange bucketCount) =
      amount Counter.isBucket adds := by
  unfold amount
  rw [total_comm]
  apply total_congr
  intro add _
  cases add.1 with
  | latencyBucket bucket =>
    simp only [Counter.latencyBucket.injEq, decide_eq_true_eq, isBucket_others, if_true]
    exact total_single (List.nodup_finRange _) (List.mem_finRange bucket) add.2.toNat
  | _ => exact total_eq_zero fun bucket _ => by simp

/-- A counter below 2^64 holds what was added to it. -/
theorem toNat_load {added : List (Counter × UInt64)} (counter : Counter)
    (h : amount (· = counter) added < UInt64.size) :
    ((Metrics.addAll {} added).load counter).toNat = amount (· = counter) added := by
  rw [Metrics.load_addAll, Metrics.load_empty, UInt64.zero_add, UInt64.toNat_ofNat']
  exact Nat.mod_eq_of_lt h

theorem statusSum_eq {added : List (Counter × UInt64)}
    (h : amount Counter.isStatus added < UInt64.size) :
    (Metrics.addAll {} added).statusSum = amount Counter.isStatus added := by
  have hsum := amount_isStatus added
  have hok : ((Metrics.addAll {} added).load .responses2xx).toNat = _ :=
    toNat_load .responses2xx (by omega)
  have hclient : ((Metrics.addAll {} added).load .responses4xx).toNat = _ :=
    toNat_load .responses4xx (by omega)
  have hserver : ((Metrics.addAll {} added).load .responses5xx).toNat = _ :=
    toNat_load .responses5xx (by omega)
  simp only [Metrics.load] at hok hclient hserver
  rw [Metrics.statusSum, hok, hclient, hserver, hsum]

theorem bucketSum_eq {added : List (Counter × UInt64)}
    (h : amount Counter.isBucket added < UInt64.size) :
    (Metrics.addAll {} added).bucketSum = amount Counter.isBucket added := by
  rw [← amount_isBucket]
  apply total_congr
  intro bucket _
  have hkind : ∀ c : Counter, decide (c = .latencyBucket bucket) = true → c.isBucket = true := by
    intro c hc
    rw [of_decide_eq_true hc]
    rfl
  exact toNat_load (.latencyBucket bucket) (Nat.lt_of_le_of_lt (amount_le hkind added) h)

/-! ## The law -/

/-- A kind of which each call adds one. -/
theorem amount_each {kind : Counter → Bool}
    (h : ∀ call : RecordCall, amount kind call.fetchAdds = 1) (calls : List RecordCall) :
    amount kind (calls.flatMap RecordCall.fetchAdds) = calls.length := by
  rw [amount_flatMap, ← total_length]
  exact total_congr fun call _ => h call

/-- What a call adds to each status class, and to `bytesOut`. -/
theorem amount_classes (call : RecordCall) :
    amount (· = .responses2xx) call.fetchAdds = (if decide (call.status < 400) then 1 else 0) ∧
      amount (· = .responses4xx) call.fetchAdds =
        (if decide (400 ≤ call.status) && decide (call.status < 500) then 1 else 0) ∧
      amount (· = .responses5xx) call.fetchAdds = (if decide (500 ≤ call.status) then 1 else 0) ∧
      amount (· = .bytesOut) call.fetchAdds = call.responseBytes.toNat := by
  obtain ⟨bucket, -, hadds⟩ := fetchAdds_eq call
  rw [hadds]
  unfold statusCounter
  by_cases hok : call.status < 400
  · have hserver : ¬ 500 ≤ call.status := by omega
    have hclient : ¬ 400 ≤ call.status := by omega
    simp [amount, hok, hserver, hclient]
  · have hclient : 400 ≤ call.status := by omega
    by_cases hserver : call.status < 500
    · have hnot : ¬ 500 ≤ call.status := by omega
      simp [amount, hok, hserver, hclient, hnot]
    · have hnot : 500 ≤ call.status := by omega
      simp [amount, hok, hserver, hnot]

variable {s : Recorders}

/-- When no call is in flight, everything has been added. -/
theorem settled_of_added {added : List (Counter × UInt64)} {calls : List RecordCall}
    (few : calls.length < UInt64.size)
    (all : ∀ kind, amount kind added = amount kind (calls.flatMap RecordCall.fetchAdds)) :
    (Metrics.addAll {} added).Settled calls := by
  have hcount {counter : Counter} {p : RecordCall → Bool} (each : ∀ call : RecordCall,
      amount (· = counter) call.fetchAdds = if p call then 1 else 0) :
      ((Metrics.addAll {} added).load counter).toNat = calls.countP p := by
    have hamount := (all (· = counter)).trans (amount_calls each calls)
    have hle : calls.countP p ≤ calls.length := List.countP_le_length
    rw [toNat_load counter (by omega), hamount]
  have hrequests := (all (· = .totalRequests)).trans
    (amount_each (fun c => (amount_kinds c).1) calls)
  have hstatus := (all Counter.isStatus).trans (amount_each (fun c => (amount_kinds c).2.1) calls)
  have hbuckets := (all Counter.isBucket).trans (amount_each (fun c => (amount_kinds c).2.2) calls)
  constructor
  · exact (toNat_load .totalRequests (by omega)).trans hrequests
  · exact (statusSum_eq (by omega)).trans hstatus
  · exact (bucketSum_eq (by omega)).trans hbuckets
  · intro small
    have hbytes : amount (· = .bytesOut) added = total (·.responseBytes.toNat) calls := by
      rw [all, amount_flatMap]
      exact total_congr fun call _ => (amount_classes call).2.2.2
    exact (toNat_load .bytesOut (hbytes ▸ small)).trans hbytes
  · exact hcount fun call => (amount_classes call).1
  · exact hcount fun call => (amount_classes call).2.1
  · exact hcount fun call => (amount_classes call).2.2.1
  · intro bucket
    have each : ∀ call : RecordCall, amount (· = .latencyBucket bucket) call.fetchAdds =
        if inBucket bucket call.latencyMicros then 1 else 0 := by
      intro call
      rw [amount_latencyBucket]
      simp only [bucketOf_eq_some_iff]
    exact hcount each

/-- Whatever the interleaving, what readers rely on holds. -/
theorem conserved {threads : Nat} (r : (recordersMachine threads).Reachable s)
    (few : s.calls.length < UInt64.size) : s.Conserved := by
  have h := conserving r
  obtain ⟨added, hmetrics, hamounts⟩ := h.added
  have hleft : ∀ left ∈ s.pending,
      amount (· = .totalRequests) left ≤ amount Counter.isStatus left ∧
        amount Counter.isStatus left ≤ amount Counter.isBucket left ∧
        amount Counter.isBucket left ≤ if !left.isEmpty then 1 else 0 := by
    intro left hmem
    obtain ⟨call, hsuffix⟩ := h.left left hmem
    exact left_amounts hsuffix
  have hearlier := total_le fun left hmem => (hleft left hmem).1
  have hlater := total_le fun left hmem => (hleft left hmem).2.1
  have hflight := total_le fun left hmem => (hleft left hmem).2.2
  rw [total_one (fun left : List (Counter × UInt64) => !left.isEmpty)] at hflight
  have hrequests := hamounts (· = .totalRequests)
  have hstatus := hamounts Counter.isStatus
  have hbuckets := hamounts Counter.isBucket
  rw [amount_each fun c => (amount_kinds c).1] at hrequests
  rw [amount_each fun c => (amount_kinds c).2.1] at hstatus
  rw [amount_each fun c => (amount_kinds c).2.2] at hbuckets
  have htotal : s.metrics.totalRequests.toNat = amount (· = .totalRequests) added := by
    rw [hmetrics]
    exact toNat_load .totalRequests (by omega)
  have hsum : s.metrics.statusSum = amount Counter.isStatus added := by
    rw [hmetrics]
    exact statusSum_eq (by omega)
  have hentries : s.metrics.bucketSum = amount Counter.isBucket added := by
    rw [hmetrics]
    exact bucketSum_eq (by omega)
  constructor
  · omega
  · omega
  · unfold Recorders.inFlight
    omega
  · intro quiet
    rw [hmetrics]
    apply settled_of_added few
    intro kind
    have hnone : total (amount kind) s.pending = 0 := by
      apply total_eq_zero
      intro left hmem
      have hempty := List.countP_eq_zero.mp quiet left hmem
      rw [Bool.not_eq_true, Bool.not_eq_false', List.isEmpty_iff] at hempty
      rw [hempty]
      rfl
    have hkind := hamounts kind
    omega

/-- Two calls whose additions alternate. -/
def alternating : List RecorderStep :=
  [.call 0 ⟨200, 10, 60⟩, .add 0, .call 1 ⟨404, 5, 2000000⟩, .add 1, .add 0, .add 1, .add 1, .add 0,
    .add 0, .add 1]

theorem conserved_two : ∃ s, (recordersMachine 2).Reachable s ∧ s.calls.length = 2 ∧
    s.inFlight = 0 ∧ s.Conserved := by
  have hrun : ((recordersMachine 2).exec (recordersMachine 2).start alternating).map
      (fun s => (s.calls.length, s.inFlight)) = some (2, 0) := by
    decide +kernel
  obtain ⟨s, hexec, hs⟩ := Option.map_eq_some_iff.mp hrun
  obtain ⟨hcalls, hquiet⟩ := Prod.mk.inj hs
  have r : (recordersMachine 2).Reachable s := .of_exec hexec
  exact ⟨s, r, hcalls, hquiet, conserved r (by rw [hcalls]; decide)⟩

end WebServer
