import Mathlib.Data.List.Basic
import Limpid.Metrics.Registry

/-!
# Observations

The histogram behind a series: what `observe` and `merge_delivery_delta` do to it.  The daemon
observes durations only, one at a time or collected in a `DeliveryDelta` (`Observed`), so that the
sum of a histogram is a sum of durations (`Observed.sum`).
-/

namespace Limpid.Metrics.RegistryCore

open Dsl

section Observe

variable (rt : Runtime)

/-- `first <= second` of `f64`. -/
def f64Le (first second : F64) : Bool :=
  rt.partialCmp first second = some .lt || rt.partialCmp first second = some .eq

/-- `1_000_000_000.0`. -/
def nanosPerSecond : F64 := ⟨0x41cdcd6500000000⟩

/-- `DurationNanos::as_seconds_f64`. -/
def asSecondsF64 (duration : UInt64) : F64 := rt.div (rt.ofUInt duration) nanosPerSecond

/-- `OUTPUT_DELIVERY_BUCKETS`. -/
def outputDeliveryBuckets : List F64 :=
  [⟨0x3f50624dd2f1a9fc⟩, ⟨0x3f747ae147ae147b⟩, ⟨0x3f9999999999999a⟩, ⟨0x3fb999999999999a⟩,
    ⟨0x3fe0000000000000⟩, ⟨0x4004000000000000⟩, ⟨0x4024000000000000⟩, ⟨0x403e000000000000⟩,
    ⟨0x404e000000000000⟩, ⟨0x4072c00000000000⟩, ⟨0x408c200000000000⟩, ⟨0x40ac200000000000⟩]

/-- One more hit in the first bucket that a value is not above. -/
def hit (boundaries : List F64) (value : F64) (counts : List ℕ) : List ℕ :=
  match boundaries.findIdx? (f64Le rt value ·) with
  | some index => counts.modify index (· + 1)
  | none => counts

/-- The histogram of a new series. -/
def HistogramReading.new (boundaries : List F64) : HistogramReading :=
  ⟨boundaries.map fun _ => 0, 0, .zero⟩

/-- `observe`: the first bucket that holds the value counts it. -/
def HistogramReading.observe (boundaries : List F64) (value : F64) (reading : HistogramReading) :
    HistogramReading :=
  ⟨hit rt boundaries value reading.bucketCounts, reading.count + 1, rt.add reading.sum value⟩

/-- An elapsed time in nanoseconds. -/
structure ElapsedNanos where
  duration : UInt64
  reversed : Bool

/-- `DeliveryDelta`: observations that are not yet merged. -/
structure DeliveryDelta where
  bucketHits : List ℕ
  count : ℕ
  sum : F64
  reversed : ℕ

/-- No observations. -/
def DeliveryDelta.default : DeliveryDelta := ⟨outputDeliveryBuckets.map fun _ => 0, 0, .zero, 0⟩

/-- `record`. -/
def DeliveryDelta.record (elapsed : ElapsedNanos) (delta : DeliveryDelta) : DeliveryDelta :=
  let value := asSecondsF64 rt elapsed.duration
  ⟨hit rt outputDeliveryBuckets value delta.bucketHits, delta.count + 1, rt.add delta.sum value,
    delta.reversed + elapsed.reversed.toNat⟩

/-- `merge_delivery_delta`. -/
def HistogramReading.mergeDeliveryDelta (delta : DeliveryDelta) (reading : HistogramReading) :
    HistogramReading :=
  ⟨List.zipWith (· + ·) reading.bucketCounts delta.bucketHits ++
      reading.bucketCounts.drop delta.bucketHits.length,
    reading.count + delta.count, rt.add reading.sum delta.sum⟩

/-- The durations of a burst. -/
def recordAll (burst : List ElapsedNanos) : DeliveryDelta :=
  burst.foldl (fun delta elapsed => delta.record rt elapsed) .default

/-- A histogram when no observation is in progress. -/
inductive Observed (boundaries : List F64) : HistogramReading → Prop
  | new : Observed boundaries (.new boundaries)
  | observe {reading : HistogramReading} (h : Observed boundaries reading) (duration : UInt64) :
      Observed boundaries (reading.observe rt boundaries (asSecondsF64 rt duration))
  | merge {reading : HistogramReading} (h : Observed boundaries reading)
      (burst : List ElapsedNanos) :
      Observed boundaries (reading.mergeDeliveryDelta rt (recordAll rt burst))

/-! ## Sums of durations -/

/-- The sum of a burst. -/
inductive BurstSum : F64 → Prop
  | zero : BurstSum .zero
  | add {sum : F64} (h : BurstSum sum) (duration : UInt64) :
      BurstSum (rt.add sum (asSecondsF64 rt duration))

/-- A sum of durations and of bursts. -/
inductive DurationSum : F64 → Prop
  | zero : DurationSum .zero
  | add {sum : F64} (h : DurationSum sum) (duration : UInt64) :
      DurationSum (rt.add sum (asSecondsF64 rt duration))
  | burst {sum other : F64} (h : DurationSum sum) (hother : BurstSum rt other) :
      DurationSum (rt.add sum other)

end Observe

section Sums

variable {rt : Runtime}

theorem burstSum_recordAll (burst : List ElapsedNanos) : BurstSum rt (recordAll rt burst).sum := by
  have hfold : ∀ delta : DeliveryDelta, BurstSum rt delta.sum →
      BurstSum rt (burst.foldl (fun delta elapsed => delta.record rt elapsed) delta).sum := by
    induction burst with
    | nil => exact fun _ h => h
    | cons elapsed rest ih => exact fun delta h => ih _ (h.add elapsed.duration)
  exact hfold .default .zero

/-- **The sum of a histogram is a sum of durations.** -/
theorem Observed.sum {boundaries : List F64} {reading : HistogramReading}
    (h : Observed rt boundaries reading) : DurationSum rt reading.sum := by
  induction h with
  | new => exact .zero
  | observe _ duration ih => exact ih.add duration
  | merge _ burst ih => exact ih.burst (burstSum_recordAll burst)

end Sums

end Limpid.Metrics.RegistryCore
