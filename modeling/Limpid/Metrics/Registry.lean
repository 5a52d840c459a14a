import Mathlib.Data.List.Sort
import Limpid.Metrics.Schema

/-!
# The metric registry

`registry_core` of `metrics.rs`.  A registration names a family, and adds a series to it or makes
it; the registry keeps the families in the order of their first registration, and beside them the
set of the keys of all series.  A registration reads and writes the registry, so that one that
fails returns the registry it leaves behind.

A series has the key of its family's name and its labels, and no two series have the same one.  So
the counters, gauges and histograms behind the series go by the keys (`Readings`): what an
observation does to them is not the registry's.
-/

namespace Limpid.Metrics.RegistryCore

open Dsl

/-- `MetricsError`. -/
inductive MetricsError where
  | invalidName (name : String) (labelset : Labels)
  | missingHelp (name : String) (labelset : Labels)
  | invalidBuckets (name : String) (labelset : Labels)
  | duplicateLabelName (name : String) (labelset : Labels) (label : String)
  | duplicateSeries (name : String) (labelset : Labels)
  | metadataConflict (name existing requested : String)

/-- `SeriesKey`. -/
structure SeriesKey where
  name : String
  labelset : Labels
deriving DecidableEq

/-- A series; only those of histograms have boundaries. -/
structure Series where
  labels : Labels
  boundaries : List F64

/-- A family of the registry. -/
structure MetricFamily where
  name : String
  help : String
  labelNames : List String
  metricType : MetricType
  series : List Series

/-- `Registry`. -/
structure Registry where
  seriesKeys : List SeriesKey
  families : List MetricFamily

/-- `Registry::new`. -/
def Registry.new : Registry := ⟨[], []⟩

/-- What a registration makes. -/
inductive Kind where
  | counter
  | gauge
  | histogram (boundaries : List F64)

namespace Kind

/-- The type of a request. -/
def metricType : Kind → MetricType
  | counter => .counter
  | gauge => .gauge
  | histogram _ => .histogram

/-- The boundaries of a histogram. -/
def boundaries : Kind → List F64
  | histogram boundaries => boundaries
  | _ => []

end Kind

/-- What a builder has collected when it is built. -/
structure Request where
  kind : Kind
  name : String
  help : Option String
  labels : Labels

/-! ## Labels -/

/-- `canonical_labels`: the labels in order. -/
def canonicalLabels (labels : Labels) : Labels := labels.insertionSort LabelLe

/-- The first name that the next label has too. -/
def firstRepeated : Labels → Option String
  | first :: second :: rest =>
      if first.1 = second.1 then some first.1 else firstRepeated (second :: rest)
  | _ => none

/-- `validate_unique_label_names`. -/
def validateUniqueLabelNames (name : String) (labels : Labels) : Except MetricsError Unit :=
  match firstRepeated labels with
  | some label => .error (.duplicateLabelName name labels label)
  | none => .ok ()

/-- The names of labels, in order. -/
def labelNames (labels : Labels) : List String :=
  ((Entries.keys labels).insertionSort (· ≤ ·)).dedup

theorem keys_sorted {entries : Labels} (h : (Entries.keys entries).Nodup) :
    (Entries.keys (entries.insertionSort (·.1 ≤ ·.1))).Pairwise (· < ·) := by
  have hkeys : Entries.keys (entries.insertionSort (·.1 ≤ ·.1)) =
      (Entries.keys entries).insertionSort (· ≤ ·) :=
    List.map_insertionSort _ _ _ _ fun _ _ _ _ => Iff.rfl
  have hnodup := (List.perm_insertionSort (· ≤ ·) (Entries.keys entries)).nodup_iff.mpr h
  rw [hkeys]
  exact ((List.pairwise_insertionSort (· ≤ ·) (Entries.keys entries)).and hnodup).imp
    fun hpair => lt_of_le_of_ne hpair.1 hpair.2

/-- A `BTreeMap` of labels: the last value of a name stays. -/
def labelsMap (labels : Labels) : LabelMap where
  entries := (Entries.collect labels).insertionSort (·.1 ≤ ·.1)
  sorted := keys_sorted (Entries.nodup_collect labels)

/-! ## Checks -/

/-- The first character of a metric name. -/
def isNameStart (c : Char) : Bool := c.isAlpha || c = '_' || c = ':'

/-- A later character of a metric name. -/
def isNameRest (c : Char) : Bool := c.isAlphanum || c = '_' || c = ':'

/-- `is_valid_metric_name`. -/
def isValidMetricName (name : String) : Bool :=
  match name.toList with
  | [] => false
  | first :: rest => isNameStart first && rest.all isNameRest

/-- `validate_metric_name`. -/
def validateMetricName (name : String) (labels : Labels) : Except MetricsError Unit :=
  if isValidMetricName name then .ok () else .error (.invalidName name labels)

/-- `require_help`. -/
def requireHelp (name : String) (labels : Labels) (help : Option String) :
    Except MetricsError String :=
  match help with
  | some help => if help.isEmpty then .error (.missingHelp name labels) else .ok help
  | none => .error (.missingHelp name labels)

section Checks

variable (rt : Runtime)

/-- Every boundary is less than the next. -/
def strictlyIncreasing : List F64 → Bool
  | first :: second :: rest => f64Lt rt first second && strictlyIncreasing (second :: rest)
  | _ => true

/-- `validate_histogram_boundaries`: finite and strictly increasing. -/
def validateHistogramBoundaries (name : String) (labels : Labels) (boundaries : List F64) :
    Except MetricsError Unit :=
  if boundaries.all rt.isFinite && strictlyIncreasing rt boundaries then .ok ()
  else .error (.invalidBuckets name labels)

/-- Only histograms have boundaries to check. -/
def Kind.validate (name : String) (labels : Labels) : Kind → Except MetricsError Unit
  | .histogram boundaries => validateHistogramBoundaries rt name labels boundaries
  | _ => .ok ()

/-- `{:?}` of a metric type. -/
def debugType : MetricType → String
  | .counter => "Counter"
  | .gauge => "Gauge"
  | .histogram => "Histogram"

/-- `{:?}` of a vector of strings. -/
def debugNames (names : List String) : String :=
  "[" ++ ", ".intercalate (names.map rt.debug) ++ "]"

/-- How an error describes a family. -/
def metadataDiagnostic (metricType : MetricType) (help : String) (labelNames : List String) :
    String :=
  "type=" ++ debugType metricType ++ ", help=" ++ rt.debug help ++ ", label_names=" ++
    debugNames rt labelNames

/-- The place of the family that a new series joins. -/
def validateFamilyMetadata (registry : Registry) (name : String) (metricType : MetricType)
    (help : String) (requestedLabelNames : List String) : Except MetricsError (Option ℕ) :=
  match registry.families.findIdx? (·.name = name) with
  | none => .ok none
  | some index =>
      match registry.families[index]? with
      | none => .ok none
      | some family =>
          if family.metricType = metricType ∧ family.help = help ∧
              family.labelNames = requestedLabelNames then .ok (some index)
          else .error (.metadataConflict name
            (metadataDiagnostic rt family.metricType family.help family.labelNames)
            (metadataDiagnostic rt metricType help requestedLabelNames))

/-- `insert_series_key`: a series is registered once. -/
def insertSeriesKey (registry : Registry) (name : String) (labels : Labels) :
    Except MetricsError Unit × Registry :=
  let key : SeriesKey := ⟨name, labels⟩
  if key ∈ registry.seriesKeys then (.error (.duplicateSeries name labels), registry)
  else (.ok (), { registry with seriesKeys := key :: registry.seriesKeys })

/-- What is checked before the registry is locked. -/
def validate (kind : Kind) (name : String) (help : Option String) (labels : Labels) :
    Except MetricsError String := do
  validateUniqueLabelNames name labels
  validateMetricName name labels
  let help ← requireHelp name labels help
  kind.validate rt name labels
  return help

/-! ## Registration -/

/-- Add a series to a family; one that a registration has found has the same type. -/
def MetricFamily.push (series : Series) (family : MetricFamily) : MetricFamily :=
  { family with series := family.series ++ [series] }

/-- The body of the three registrations. -/
def register (kind : Kind) (name : String) (help : Option String) (labels : Labels)
    (registry : Registry) : Except MetricsError Unit × Registry :=
  let labels := canonicalLabels labels
  match validate rt kind name help labels with
  | .error e => (.error e, registry)
  | .ok help =>
      match validateFamilyMetadata rt registry name kind.metricType help (labelNames labels) with
      | .error e => (.error e, registry)
      | .ok familyIndex =>
          match insertSeriesKey registry name labels with
          | (.error e, registry) => (.error e, registry)
          | (.ok (), registry) =>
              let series : Series := ⟨labels, kind.boundaries⟩
              match familyIndex with
              | some index => (.ok (), { registry with
                  families := registry.families.modify index (MetricFamily.push series) })
              | none => (.ok (), { registry with
                  families := registry.families ++
                    [⟨name, help, labelNames labels, kind.metricType, [series]⟩] })

/-- `register_counter`. -/
def registerCounter := register rt .counter

/-- `register_gauge`. -/
def registerGauge := register rt .gauge

/-- `register_histogram`. -/
def registerHistogram (name : String) (help : Option String) (labels : Labels)
    (boundaries : List F64) := register rt (.histogram boundaries) name help labels

/-- `build` of a request. -/
def Request.build (request : Request) : Registry → Except MetricsError Unit × Registry :=
  match request.kind with
  | .counter => registerCounter rt request.name request.help request.labels
  | .gauge => registerGauge rt request.name request.help request.labels
  | .histogram boundaries =>
      registerHistogram rt request.name request.help request.labels boundaries

/-- Registrations one after another, up to the first that fails. -/
def buildAll : List Request → Registry → Except MetricsError Unit × Registry
  | [], registry => (.ok (), registry)
  | request :: rest, registry =>
      match request.build rt registry with
      | (.error e, registry) => (.error e, registry)
      | (.ok (), registry) => buildAll rest registry

end Checks

/-! ## Snapshots -/

/-- What the counters of a histogram hold. -/
structure HistogramReading where
  bucketCounts : List ℕ
  count : ℕ
  sum : F64

/-- What the counters, gauges and histograms hold. -/
structure Readings where
  value : SeriesKey → ℕ
  histogram : SeriesKey → HistogramReading

/-- The counts of the buckets, each with those before it. -/
def cumulate : ℕ → List (F64 × ℕ) → List (F64 × ℕ)
  | _, [] => []
  | cumulative, (boundary, count) :: rest =>
      (boundary, cumulative + count) :: cumulate (cumulative + count) rest

section Snapshot

variable (readings : Readings)

/-- The series of a counter or a gauge, read. -/
def snapshotValueSeries (name : String) (series : List Series) : List ValueSeries :=
  series.map fun series => ⟨labelsMap series.labels, readings.value ⟨name, series.labels⟩⟩

/-- The series of a histogram, read. -/
def snapshotHistogramSeries (name : String) (series : List Series) : List HistogramSeries :=
  series.map fun series =>
    let reading := readings.histogram ⟨name, series.labels⟩
    ⟨labelsMap series.labels, cumulate 0 (series.boundaries.zip reading.bucketCounts),
      reading.sum, reading.count⟩

/-- A family, read. -/
def snapshotFamily (family : MetricFamily) : Metrics.MetricFamily :=
  match family.metricType with
  | .counter =>
      .counter family.name family.help (snapshotValueSeries readings family.name family.series)
  | .gauge =>
      .gauge family.name family.help (snapshotValueSeries readings family.name family.series)
  | .histogram =>
      .histogram family.name family.help
        (snapshotHistogramSeries readings family.name family.series)

/-- `snapshot`. -/
def Registry.snapshot (registry : Registry) : MetricsSnapshot :=
  .new (registry.families.map (snapshotFamily readings))

end Snapshot

end Limpid.Metrics.RegistryCore
