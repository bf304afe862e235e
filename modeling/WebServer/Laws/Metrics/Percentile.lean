import WebServer.Base.Rank
import WebServer.Laws.Metrics.Counters

/-!
# Where a percentile lands

The scan of `percentile` finds the bucket of the latency whose rank it is given:
the entries up to a bucket are the latencies not above its bound
(`scanBuckets_eq_find`), and there are as many as the rank exactly when the latency
of that rank is among them (`lt_countP_iff`). The rank it is given is `fraction *
total` rounded down, and the latency that a fraction of all do not exceed has the
one rounded up. That is the same bucket when no bound lies between the two
(`landsRight_iff`); a rank of zero is answered with the first bucket, whatever it
holds.
-/

namespace WebServer

open Base

instance linearPreorder : Std.IsLinearPreorder UInt64 where
  le_refl := UInt64.le_refl
  le_trans _ _ _ := UInt64.le_trans
  le_total := UInt64.le_total

def latencies (calls : List RecordCall) : List UInt64 := calls.map (·.latencyMicros)

/-- The `k`-th smallest of the latencies, the smallest being the first. -/
def smallest (calls : List RecordCall) (k : Nat) : Option UInt64 :=
  (ranked (latencies calls))[k - 1]?

/-- A bucket's bound in milliseconds. -/
def millis (bucket : Fin bucketCount) : Rat := ((bucketBounds.get bucket).toNat : Rat) / 1000

/-- The value is the bound of the bucket of the latency of that rank, and so a fraction
of all latencies do not exceed it. -/
structure LandsRight (calls : List RecordCall) (fraction value : Rat) : Prop where
  bucket : ∃ latency bucket, smallest calls (fraction * calls.length).ceil.toNat = some latency ∧
    inBucket bucket latency = true ∧ value = millis bucket
  covers : fraction * calls.length ≤
    ((latencies calls).countP fun latency => (latency.toNat : Rat) / 1000 ≤ value)

/-! ## The scan -/

theorem countP_or {α : Type u} {p q : α → Bool} (h : ∀ a, p a = true → q a = false)
    (xs : List α) : xs.countP (fun a => p a || q a) = xs.countP p + xs.countP q := by
  induction xs with
  | nil => rfl
  | cons x xs ih =>
    simp only [List.countP_cons, ih]
    cases hp : p x with
    | true =>
      simp only [h x hp, Bool.or_false, if_true, Bool.false_eq_true, if_false]
      omega
    | false =>
      simp only [Bool.false_or, Bool.false_eq_true, if_false]
      omega

/-- The latencies of the first buckets are those up to the last one's bound. -/
theorem any_bucketOf {front rest : List (Fin bucketCount)} {bucket : Fin bucketCount}
    (split : List.finRange bucketCount = front ++ bucket :: rest) (latency : UInt64) :
    (front ++ [bucket]).any (fun b => bucketOf latency = some b) =
      decide (latency ≤ bucketBounds.get bucket) := by
  have hsorted : (front ++ bucket :: rest).Pairwise (· < ·) := split ▸ List.pairwise_lt_finRange _
  have hfront : ∀ b ∈ front, b ≤ bucket := fun b hb =>
    Fin.le_of_lt ((List.pairwise_append.mp hsorted).2.2 b hb bucket List.mem_cons_self)
  rw [Bool.eq_iff_iff, List.any_eq_true, decide_eq_true_eq]
  constructor
  · rintro ⟨b, hb, hof⟩
    have hle := (bucketOf_eq_some.mp (of_decide_eq_true hof)).1
    rcases List.mem_append.mp hb with hb | hb
    · exact UInt64.le_trans hle (bounds_ascend b bucket (hfront b hb))
    · obtain rfl := List.mem_singleton.mp hb
      exact hle
  · intro hle
    have hhead : (bucket :: rest).find? (fun b => decide (latency ≤ bucketBounds.get b)) =
        some bucket := List.find?_cons_of_pos (decide_eq_true hle)
    have hfind : bucketOf latency = (front.find? fun b => decide (latency ≤ bucketBounds.get b)).or
        (some bucket) := by
      rw [bucketOf, split, List.find?_append, hhead]
    cases hf : front.find? fun b => decide (latency ≤ bucketBounds.get b) with
    | none =>
      rw [hf] at hfind
      exact ⟨bucket, List.mem_append_right _ List.mem_cons_self, decide_eq_true hfind⟩
    | some b =>
      rw [hf] at hfind
      exact ⟨b, List.mem_append_left _ (List.mem_of_find?_eq_some hf), decide_eq_true hfind⟩

variable {calls : List RecordCall}

/-- A bucket counts its latencies. -/
theorem toNat_latencyBuckets (few : calls.length < UInt64.size) (bucket : Fin bucketCount) :
    ((Metrics.recordAll calls).latencyBuckets.get bucket).toNat =
      (latencies calls).countP fun latency => bucketOf latency = some bucket := by
  have hload := Metrics.toNat_load_recordAll calls (.latencyBucket bucket)
  have each : ∀ call : RecordCall, amount (· = .latencyBucket bucket) call.fetchAdds =
      if decide (bucketOf call.latencyMicros = some bucket) then 1 else 0 := by
    intro call
    rw [amount_latencyBucket]
    simp only [decide_eq_true_eq]
  rw [amount_calls each] at hload
  rw [latencies, List.countP_map]
  have hle : calls.countP (fun call => decide (bucketOf call.latencyMicros = some bucket)) ≤
    calls.length := List.countP_le_length
  rw [Nat.mod_eq_of_lt (Nat.lt_of_le_of_lt hle few)] at hload
  exact hload

/-- How many latencies are not above a bucket's bound. -/
def upTo (calls : List RecordCall) (bucket : Fin bucketCount) : Nat :=
  (latencies calls).countP fun latency => latency ≤ bucketBounds.get bucket

theorem upTo_le (calls : List RecordCall) (bucket : Fin bucketCount) :
    upTo calls bucket ≤ calls.length := by
  have hlatencies : (latencies calls).length = calls.length := List.length_map _
  rw [← hlatencies]
  exact List.countP_le_length

/-- They are the entries of the buckets up to it. -/
theorem upTo_eq {front rest : List (Fin bucketCount)} {bucket : Fin bucketCount}
    (split : List.finRange bucketCount = front ++ bucket :: rest) :
    upTo calls bucket = (latencies calls).countP fun latency =>
      (front ++ [bucket]).any fun b => bucketOf latency = some b := by
  simp only [upTo, any_bucketOf split]

/-- The scan finds the first bucket with as many latencies up to its bound. -/
theorem scanBuckets_eq_find (few : calls.length < UInt64.size) (target : UInt64)
    {front buckets : List (Fin bucketCount)} (split : List.finRange bucketCount = front ++ buckets)
    {seen : UInt64} (hseen : seen.toNat = (latencies calls).countP fun latency =>
      front.any fun b => bucketOf latency = some b) :
    (Metrics.recordAll calls).scanBuckets target seen buckets =
      buckets.find? fun bucket => target.toNat ≤ upTo calls bucket := by
  induction buckets generalizing front seen with
  | nil => rfl
  | cons bucket buckets ih =>
    have hnodup : (front ++ bucket :: buckets).Nodup := split ▸ List.nodup_finRange _
    have hnew : bucket ∉ front := fun hmem =>
      (List.nodup_append.mp hnodup).2.2 bucket hmem bucket List.mem_cons_self rfl
    have hdisjoint : ∀ latency, (front.any fun b => bucketOf latency = some b) = true →
        decide (bucketOf latency = some bucket) = false := by
      intro latency hany
      obtain ⟨b, hb, hof⟩ := List.any_eq_true.mp hany
      rw [of_decide_eq_true hof, decide_eq_false_iff_not]
      intro heq
      exact hnew (Option.some.inj heq ▸ hb)
    have hsum : upTo calls bucket =
        seen.toNat + ((Metrics.recordAll calls).latencyBuckets.get bucket).toNat := by
      rw [hseen, toNat_latencyBuckets few, ← countP_or hdisjoint, upTo_eq split]
      simp only [List.any_append, List.any_cons, List.any_nil, Bool.or_false]
    have hadd : (seen + (Metrics.recordAll calls).latencyBuckets.get bucket).toNat =
        upTo calls bucket := by
      rw [UInt64.toNat_add, ← hsum]
      exact Nat.mod_eq_of_lt (Nat.lt_of_le_of_lt (upTo_le calls bucket) few)
    have hcond : target ≤ seen + (Metrics.recordAll calls).latencyBuckets.get bucket ↔
        target.toNat ≤ upTo calls bucket := by
      rw [UInt64.le_iff_toNat_le, hadd]
    rw [Metrics.scanBuckets, List.find?_cons]
    by_cases htarget : target.toNat ≤ upTo calls bucket
    · rw [if_pos (hcond.mpr htarget), decide_eq_true htarget]
    · rw [if_neg fun h => htarget (hcond.mp h), decide_eq_false htarget]
      have hnext : List.finRange bucketCount = (front ++ [bucket]) ++ buckets := by
        rw [split, List.append_assoc, List.singleton_append]
      exact ih hnext (hadd.trans (upTo_eq split))

/-- At a rank from one on, the scan ends in the bucket of the latency of that rank. -/
theorem scanBuckets_smallest (few : calls.length < UInt64.size) {target : UInt64} {latency : UInt64}
    (hpos : 0 < target.toNat) (h : smallest calls target.toNat = some latency) :
    (Metrics.recordAll calls).scanBuckets target 0 (List.finRange bucketCount) =
      bucketOf latency := by
  have hnone : (0 : UInt64).toNat = (latencies calls).countP fun latency =>
      ([] : List (Fin bucketCount)).any fun b => bucketOf latency = some b :=
    (congrFun List.countP_false (latencies calls)).symm
  rw [scanBuckets_eq_find few target (List.nil_append _).symm hnone, bucketOf]
  congr 1
  funext bucket
  have hrank := lt_countP_iff (p := fun latency => latency ≤ bucketBounds.get bucket)
    (fun hle hp => decide_eq_true (UInt64.le_trans hle (of_decide_eq_true hp))) h
  rw [Bool.eq_iff_iff, ← hrank, decide_eq_true_eq, upTo]
  omega

/-- A rank of zero ends it at once. -/
theorem scanBuckets_zero (metrics : Metrics) :
    metrics.scanBuckets 0 0 (List.finRange bucketCount) = some ⟨0, by decide⟩ := by
  have hcons : List.finRange bucketCount =
      ⟨0, by decide⟩ :: (List.finRange bucketCount).tail := rfl
  rw [hcons, Metrics.scanBuckets, if_pos (UInt64.le_iff_toNat_le.mpr (Nat.zero_le _))]

/-! ## The two ranks -/

theorem ceil_of_whole {q : Rat} (h : (q.floor : Rat) = q) : q.ceil = q.floor := by
  rw [← h, Rat.ceil_intCast, Rat.floor_intCast]

theorem whole_of_ceil {q : Rat} (h : q.ceil = q.floor) : (q.floor : Rat) = q := by
  have hle := Rat.floor_le q
  have hge : q ≤ (q.ceil : Rat) := Rat.le_ceil
  rw [h] at hge
  exact Rat.le_antisymm hle hge

/-- Where the rank of a fraction lies, rounded down and rounded up. -/
theorem rank_bounds {q : Rat} {n : Nat} (pos : 0 < q) (le : q ≤ n) :
    0 ≤ q.floor ∧ q.floor ≤ q.ceil ∧ q.ceil ≤ q.floor + 1 ∧ 0 < q.ceil ∧ q.ceil ≤ n := by
  refine ⟨Rat.le_floor_iff.mpr (Rat.le_of_lt pos), ?_, ?_, Rat.lt_ceil_iff.mpr pos, ?_⟩
  · rw [← Rat.intCast_le_intCast]
    exact Rat.le_trans (Rat.floor_le q) Rat.le_ceil
  · exact Rat.ceil_le_iff.mpr (Rat.le_of_lt (Rat.lt_floor_add_one q))
  · exact Rat.ceil_le_iff.mpr le

/-- The rank of a fraction of so many calls. -/
theorem rank_of_fraction {fraction : Rat} (pos : 0 < fraction) (le : fraction ≤ 1) {n : Nat}
    (hn : 0 < n) : 0 < fraction * n ∧ fraction * n ≤ n := by
  have hcast : (0 : Rat) < n := Rat.natCast_pos.mpr hn
  refine ⟨Rat.mul_pos pos hcast, ?_⟩
  have h := Rat.mul_le_mul_of_nonneg_right le (Rat.le_of_lt hcast)
  rwa [Rat.one_mul] at h

/-! ## Percentiles -/

theorem smallest_of_le {k : Nat} (hpos : 0 < k) (hle : k ≤ calls.length) :
    ∃ latency, smallest calls k = some latency := by
  apply ranked_of_lt
  rw [latencies, List.length_map]
  omega

theorem smallest_mem {k : Nat} {latency : UInt64} (h : smallest calls k = some latency) :
    ∃ call ∈ calls, call.latencyMicros = latency :=
  List.mem_map.mp (mem_of_ranked h)

/-- A latency of a second and less is not in the last bucket. -/
theorem not_last {latency : UInt64} (h : latency ≤ 1000000) {bucket : Fin bucketCount}
    (hof : bucketOf latency = some bucket) : bucket.val + 1 ≠ bucketCount := by
  intro hlast
  have hlt : (⟨13, by decide⟩ : Fin bucketCount) < bucket := by
    show 13 < bucket.val
    have hcount : bucketCount = 15 := rfl
    omega
  have hbound := (bucketOf_eq_some.mp hof).2 _ hlt
  exact UInt64.not_le.mpr hbound h

theorem percentile_eq {metrics : Metrics} {fraction : Rat} {total : UInt64} (htotal : total ≠ 0)
    {bucket : Fin bucketCount} (hlast : bucket.val + 1 ≠ bucketCount)
    (hscan : metrics.scanBuckets (UInt64.ofNat (fraction * total.toNat).floor.toNat) 0
      (List.finRange bucketCount) = some bucket) :
    metrics.percentile fraction total = millis bucket := by
  rw [Metrics.percentile, if_neg htotal]
  simp only [hscan, if_neg hlast]
  rfl

/-- At a rank of zero the scan stops before it has seen a latency. -/
theorem percentile_zero {metrics : Metrics} {fraction : Rat} {total : UInt64} (htotal : total ≠ 0)
    (hzero : (fraction * total.toNat).floor = 0) :
    metrics.percentile fraction total = millis ⟨0, by decide⟩ := by
  have hfirst : (⟨0, by decide⟩ : Fin bucketCount).val + 1 ≠ bucketCount := by decide
  apply percentile_eq htotal hfirst
  rw [hzero]
  exact scanBuckets_zero metrics

/-- From one on, it is the bound of the bucket of the latency of that rank. -/
theorem percentile_pos {fraction : Rat} {total : UInt64} (count : total.toNat = calls.length)
    (hpos : 0 < (fraction * calls.length).floor)
    (htop : (fraction * calls.length).floor ≤ calls.length) {latency : UInt64}
    (hrank : smallest calls (fraction * calls.length).floor.toNat = some latency)
    (measured : latency ≤ 1000000) {bucket : Fin bucketCount}
    (hbucket : bucketOf latency = some bucket) :
    (Metrics.recordAll calls).percentile fraction total = millis bucket := by
  have few : calls.length < UInt64.size := count ▸ total.toNat_lt
  have htotal : total ≠ 0 := by
    rintro rfl
    have hempty : (0 : UInt64).toNat = 0 := rfl
    omega
  have htarget : (UInt64.ofNat (fraction * total.toNat).floor.toNat).toNat =
      (fraction * calls.length).floor.toNat := by
    have hsize : UInt64.size = 2 ^ 64 := rfl
    rw [count, UInt64.toNat_ofNat', Nat.mod_eq_of_lt]
    omega
  apply percentile_eq htotal (not_last measured hbucket)
  rw [← hbucket]
  rw [← htarget] at hrank
  apply scanBuckets_smallest few _ hrank
  omega

/-- Different buckets have different bounds. -/
theorem millis_inj {bucket bucket' : Fin bucketCount} (h : millis bucket = millis bucket') :
    bucket = bucket' := by
  have hinj : ∀ b b' : Fin bucketCount, (bucketBounds.get b).toNat = (bucketBounds.get b').toNat →
      b = b' := by
    decide +kernel
  have hne : (1000 : Rat) ≠ 0 := by decide
  have hmul := congrArg (· * (1000 : Rat)) h
  simp only [millis, Rat.div_mul_cancel hne] at hmul
  exact hinj _ _ (Rat.natCast_inj.mp hmul)

theorem div_le_millis {latency : UInt64} {bucket : Fin bucketCount}
    (h : latency ≤ bucketBounds.get bucket) : (latency.toNat : Rat) / 1000 ≤ millis bucket := by
  have hinv : (0 : Rat) ≤ (1000 : Rat)⁻¹ := by decide +kernel
  rw [millis, Rat.div_def, Rat.div_def]
  exact Rat.mul_le_mul_of_nonneg_right
    (Rat.natCast_le_natCast.mpr (UInt64.le_iff_toNat_le.mp h)) hinv

/-- The value is right exactly when it is the bound of the right bucket. -/
theorem landsRight_millis {fraction : Rat} (pos : 0 < fraction * calls.length) {latency : UInt64}
    (hrank : smallest calls (fraction * calls.length).ceil.toNat = some latency)
    {bucket : Fin bucketCount} (hbucket : bucketOf latency = some bucket)
    (bucket' : Fin bucketCount) :
    LandsRight calls fraction (millis bucket') ↔ bucket' = bucket := by
  constructor
  · intro lands
    obtain ⟨latency', right, hrank', hin, hvalue⟩ := lands.bucket
    rw [hrank] at hrank'
    obtain rfl := Option.some.inj hrank'
    rw [← bucketOf_eq_some_iff, hbucket] at hin
    rw [millis_inj hvalue, Option.some.inj hin]
  · rintro rfl
    refine ⟨⟨latency, bucket', hrank, bucketOf_eq_some_iff.mp hbucket, rfl⟩, ?_⟩
    have hle : latency ≤ bucketBounds.get bucket' := (bucketOf_eq_some.mp hbucket).1
    have hcount := (lt_countP_iff (p := fun latency => latency ≤ bucketBounds.get bucket')
      (fun hab hp => decide_eq_true (UInt64.le_trans hab (of_decide_eq_true hp))) hrank).mpr
        (decide_eq_true hle)
    have hmillis : (latencies calls).countP (fun latency => latency ≤ bucketBounds.get bucket') ≤
        (latencies calls).countP fun latency => (latency.toNat : Rat) / 1000 ≤ millis bucket' :=
      List.countP_mono_left fun latency _ hp =>
        decide_eq_true (div_le_millis (of_decide_eq_true hp))
    have hceil := Rat.lt_ceil_iff.mpr pos
    apply Rat.ceil_le_iff (y := ((latencies calls).countP fun latency =>
      (latency.toNat : Rat) / 1000 ≤ millis bucket' : Nat)).mp
    omega

variable {fraction : Rat} {total : UInt64}

/-- The rank of the fraction, rounded down and rounded up, names one bucket: it is
whole, or no bound lies between the latencies of the two ranks. A rank of zero counts
as the first bucket's. -/
inductive Undivided (calls : List RecordCall) (fraction : Rat) : Prop where
  | whole : ((fraction * calls.length).floor : Rat) = fraction * calls.length →
      Undivided calls fraction
  | first {least : UInt64} : (fraction * calls.length).floor = 0 →
      smallest calls 1 = some least → least ≤ 50 → Undivided calls fraction
  | together {lower upper : UInt64} : 0 < (fraction * calls.length).floor →
      smallest calls (fraction * calls.length).floor.toNat = some lower →
      smallest calls ((fraction * calls.length).floor.toNat + 1) = some upper →
      (∀ bound ∈ bucketBounds.toList, lower ≤ bound → upper ≤ bound) → Undivided calls fraction

/-- Two latencies are in one bucket when no bound separates them. -/
theorem bucketOf_eq_iff {lower upper : UInt64} (hle : lower ≤ upper) :
    bucketOf lower = bucketOf upper ↔
      ∀ bound ∈ bucketBounds.toList, lower ≤ bound → upper ≤ bound := by
  obtain ⟨bucket, hbucket⟩ := exists_bucketOf lower
  obtain ⟨hbound, hbefore⟩ := bucketOf_eq_some.mp hbucket
  rw [hbucket, eq_comm, bucketOf_eq_some]
  constructor
  · rintro ⟨hupper, -⟩ bound hmem hlower
    obtain ⟨i, hi, rfl⟩ := List.mem_iff_getElem.mp hmem
    have hi : i < bucketCount := by simpa using hi
    by_cases hb : bucket ≤ ⟨i, hi⟩
    · exact UInt64.le_trans hupper (bounds_ascend bucket ⟨i, hi⟩ hb)
    · have hlt := hbefore ⟨i, hi⟩ (Fin.not_le.mp hb)
      exact absurd hlower (UInt64.not_le.mpr hlt)
  · intro hall
    refine ⟨hall _ ?_ hbound, fun b hb => UInt64.lt_of_lt_of_le (hbefore b hb) hle⟩
    exact Vector.mem_toList_iff.mpr (Vector.getElem_mem bucket.isLt)

theorem undivided_zero {right : UInt64} (pos : 0 < fraction * calls.length)
    (hzero : (fraction * calls.length).floor = 0) (hright : smallest calls 1 = some right) :
    Undivided calls fraction ↔ right ≤ 50 := by
  constructor
  · intro undivided
    cases undivided with
    | whole h =>
      rw [hzero] at h
      rw [← h] at pos
      exact absurd pos (by decide)
    | first _ hleast h =>
      rw [hright] at hleast
      exact Option.some.inj hleast ▸ h
    | together h _ _ _ => exact absurd (hzero ▸ h) (Int.lt_irrefl 0)
  · exact .first hzero hright

theorem undivided_pos {left right : UInt64} (hpos : 0 < (fraction * calls.length).floor)
    (hsteps : (fraction * calls.length).ceil = (fraction * calls.length).floor ∨
      (fraction * calls.length).ceil = (fraction * calls.length).floor + 1)
    (hleft : smallest calls (fraction * calls.length).floor.toNat = some left)
    (hright : smallest calls (fraction * calls.length).ceil.toNat = some right) :
    Undivided calls fraction ↔ bucketOf left = bucketOf right := by
  rcases hsteps with hwhole | hnext
  · rw [hwhole, hleft] at hright
    obtain rfl := Option.some.inj hright
    exact iff_of_true (.whole (whole_of_ceil hwhole)) rfl
  · have hrank : (fraction * calls.length).ceil.toNat =
        (fraction * calls.length).floor.toNat + 1 := by
      omega
    rw [hrank] at hright
    have hle : left ≤ right := ranked_le (by omega) hleft hright
    rw [bucketOf_eq_iff hle]
    constructor
    · intro undivided
      cases undivided with
      | whole h =>
        have heq := ceil_of_whole h
        omega
      | first h _ _ => omega
      | together _ hlower hupper h =>
        rw [hleft] at hlower
        rw [hright] at hupper
        obtain rfl := Option.some.inj hlower
        obtain rfl := Option.some.inj hupper
        exact h
    · exact .together hpos hleft hright

/-- The percentile is right exactly when both ranks name one bucket. -/
theorem landsRight_iff (count : total.toNat = calls.length) (nonempty : calls ≠ [])
    (positive : 0 < fraction) (proper : fraction ≤ 1)
    (measured : ∀ call ∈ calls, call.latencyMicros ≤ 1000000) :
    LandsRight calls fraction ((Metrics.recordAll calls).percentile fraction total) ↔
      Undivided calls fraction := by
  have hn : 0 < calls.length := List.length_pos_iff.mpr nonempty
  obtain ⟨pos, hle⟩ := rank_of_fraction positive proper hn
  obtain ⟨hfloor, hlow, hhigh, hceil, htop⟩ := rank_bounds pos hle
  have hranks {k : Nat} (hpos : 0 < k) (hle : k ≤ calls.length) :
      ∃ latency bucket, smallest calls k = some latency ∧ latency ≤ 1000000 ∧
        bucketOf latency = some bucket := by
    obtain ⟨latency, hlatency⟩ := smallest_of_le hpos hle
    obtain ⟨bucket, hbucket⟩ := exists_bucketOf latency
    obtain ⟨call, hcall, rfl⟩ := smallest_mem hlatency
    exact ⟨call.latencyMicros, bucket, hlatency, measured call hcall, hbucket⟩
  obtain ⟨right, bucket, hright, -, hbucket⟩ :=
    hranks (k := (fraction * calls.length).ceil.toNat) (by omega) (by omega)
  by_cases hzero : (fraction * calls.length).floor = 0
  · have htotal : total ≠ 0 := by
      rintro rfl
      have hempty : (0 : UInt64).toNat = 0 := rfl
      omega
    have hone : (fraction * calls.length).ceil.toNat = 1 := by omega
    rw [percentile_zero htotal (count ▸ hzero), landsRight_millis pos hright hbucket,
      undivided_zero pos hzero (hone ▸ hright)]
    have hwithin : bucketOf right = some ⟨0, by decide⟩ ↔ right ≤ 50 := by
      rw [bucketOf_eq_some]
      exact and_iff_left fun b hb => absurd hb (Nat.not_lt_zero b.val)
    rw [← hwithin, hbucket, Option.some.injEq, eq_comm]
  · obtain ⟨left, found, hleft, hmeasured, hfound⟩ :=
      hranks (k := (fraction * calls.length).floor.toNat) (by omega) (by omega)
    rw [percentile_pos count (by omega) (by omega) hleft hmeasured hfound,
      landsRight_millis pos hright hbucket, undivided_pos (by omega) (by omega) hleft hright,
      hfound, hbucket, Option.some.injEq]

/-- A request of 60 microseconds is what nobody exceeds. -/
theorem landsRight_iff_one :
    LandsRight [⟨200, 0, 60⟩] 1 ((Metrics.recordAll [⟨200, 0, 60⟩]).percentile 1 1) :=
  (landsRight_iff rfl (List.cons_ne_nil _ _) (by decide) (by decide)
    (List.forall_mem_singleton.mpr (by decide))).mpr (.whole (by decide +kernel))

/-- Half of one slow request: the rank is rounded down to zero, and the answer is the
bound of the first bucket, in which there is nothing. -/
theorem not_landsRight : ¬ ∀ (calls : List RecordCall) (fraction : Rat) (total : UInt64),
    total.toNat = calls.length → calls ≠ [] → 0 < fraction → fraction ≤ 1 →
    (∀ call ∈ calls, call.latencyMicros ≤ 1000000) →
    LandsRight calls fraction ((Metrics.recordAll calls).percentile fraction total) := by
  intro all
  have lands := all [⟨200, 0, 900000⟩] (1 / 2) 1 rfl (List.cons_ne_nil _ _) (by decide +kernel)
    (by decide +kernel) (List.forall_mem_singleton.mpr (by decide))
  exact absurd lands.covers (by decide +kernel)

end WebServer
