import Mathlib.Data.List.Lex
import Mathlib.Data.List.Sort
import Limpid.Metrics.Schema

/-!
# From a snapshot to the exposition

`parse_snapshot` of `limpid-prometheus`: the families of a snapshot are checked one by one and
sorted, and the family of the own drops is derived from that of the dropped events.  A series of
the derived family has the value of the series of the source less those of its direct children.
The parent of a series is found by its labels: of a frame at the top it is the series of the
pipeline, and of a frame below the one with the path above and otherwise the same labels.
-/

namespace Limpid.Prometheus

open Dsl Metrics

/-! ## Families -/

/-- `ExpositionType`. -/
inductive ExpositionType where
  | counter | gauge | histogram
deriving DecidableEq

namespace ExpositionType

/-- The type on the wire. -/
def fromWire : MetricType → ExpositionType
  | .counter => counter
  | .gauge => gauge
  | .histogram => histogram

/-- The word of a type. -/
def asStr : ExpositionType → String
  | counter => "counter"
  | gauge => "gauge"
  | histogram => "histogram"

end ExpositionType

/-- `ExpositionSeries`. -/
inductive ExpositionSeries where
  | value (labels : Labels) (value : ℕ)
  | histogram (labels : Labels) (buckets : List (F64 × ℕ)) (sum : F64) (count : ℕ)

namespace ExpositionSeries

/-- The labels of a series. -/
def labels : ExpositionSeries → Labels
  | value labels _ => labels
  | histogram labels _ _ _ => labels

/-- The labels and the value of a series that has one. -/
def toValue : ExpositionSeries → Option (Labels × ℕ)
  | value labels count => some (labels, count)
  | histogram .. => none

end ExpositionSeries

/-- `ExpositionFamily`. -/
structure ExpositionFamily where
  name : String
  metricType : ExpositionType
  help : String
  series : List ExpositionSeries

/-! ## Checks -/

/-- `is_legacy_metric_name`. -/
def isLegacyMetricName (name : String) : Bool :=
  match name.toList with
  | [] => false
  | first :: rest => (first.isAlpha || first = '_' || first = ':') &&
      rest.all fun c => c.isAlphanum || c = '_' || c = ':'

/-- `is_legacy_label_name`. -/
def isLegacyLabelName (name : String) : Bool :=
  match name.toList with
  | [] => false
  | '_' :: '_' :: _ => false
  | first :: rest => (first.isAlpha || first = '_') && rest.all fun c => c.isAlphanum || c = '_'

section Parse

variable (rt : Runtime)

/-- `parse_labels`. -/
def parseLabels (labels : LabelMap) (metricName : String) : Except String Labels :=
  match labels.entries.find? fun entry => !isLegacyLabelName entry.1 with
  | some (key, _) =>
      .error s!"metric {metricName} has invalid Prometheus label name: {rt.debug key}"
  | none => .ok (labels.entries.insertionSort LabelLe)

/-- `first >= second` of `f64`. -/
def f64Ge (first second : F64) : Bool :=
  rt.partialCmp first second = some .gt || rt.partialCmp first second = some .eq

/-- The buckets, after the last one that has been read. -/
def parseBuckets (metricName : String) :
    Option (F64 × ℕ) → List (F64 × ℕ) → Except String (List (F64 × ℕ))
  | _, [] => .ok []
  | previous, (bound, count) :: rest =>
      if !rt.isFinite bound then .error s!"metric {metricName} bucket bound must be finite"
      else if previous.any fun last => f64Ge rt last.1 bound then
        .error s!"metric {metricName} bucket bounds must be strictly increasing"
      else if previous.any fun last => last.2 > count then
        .error s!"metric {metricName} cumulative bucket counts must not decrease"
      else do
        let buckets ← parseBuckets metricName (some (bound, count)) rest
        return (bound, count) :: buckets

/-- A series of a counter or a gauge is read. -/
def parseValueSeries (name : String) (raw : ValueSeries) : Except String ExpositionSeries := do
  let labels ← parseLabels rt raw.labels name
  return .value labels raw.value

/-- A series of a histogram is read. -/
def parseHistogramSeries (name : String) (raw : HistogramSeries) :
    Except String ExpositionSeries := do
  let labels ← parseLabels rt raw.labels name
  let buckets ← parseBuckets rt name none raw.buckets
  if rt.isFinite raw.sum then return .histogram labels buckets raw.sum raw.count
  else throw s!"metric {name} sum must be finite"

/-- The series of a family. -/
def parseSeries (name : String) : MetricFamily → Except String (List ExpositionSeries)
  | .counter _ _ series | .gauge _ _ series => series.mapM (parseValueSeries rt name)
  | .histogram _ _ series => series.mapM (parseHistogramSeries rt name)

/-- The label sets after those seen so far, and the label names of the first. -/
def checkLabelsets (name : String) :
    List Labels → Option (List String) → List Labels → Except String Unit
  | _, _, [] => .ok ()
  | seen, familyLabelKeys, labels :: rest =>
      if labels ∈ seen then .error s!"metric {name} contains a duplicate labelset"
      else
        match familyLabelKeys with
        | none => checkLabelsets name (labels :: seen) (some (Entries.keys labels)) rest
        | some expected =>
            if expected ≠ Entries.keys labels then
              .error s!"metric {name} series must use the same label-name set"
            else checkLabelsets name (labels :: seen) (some expected) rest

/-- `le`, `le_`, `le__` and so on. -/
def inLeChain (key : String) : Bool :=
  match key.toList with
  | 'l' :: 'e' :: suffix => suffix.all (· = '_')
  | _ => false

/-- A label in the way of `le` gets one more underscore. -/
def shiftKey (key : String) : String := if inLeChain key then key ++ "_" else key

/-- `map_histogram_labels`. -/
def mapHistogramLabels (labels : Labels) : Labels :=
  if "le" ∈ Entries.keys labels then
    (labels.map fun entry => (shiftKey entry.1, entry.2)).insertionSort LabelLe
  else labels

/-- The labels as they are exported. -/
def exportedLabels (metricType : ExpositionType) (labels : Labels) : Labels :=
  match metricType with
  | .histogram => mapHistogramLabels labels
  | .counter | .gauge => labels

/-- `validate_exported_labelsets`: no two series are exported under one set of labels. -/
def validateExportedLabelsets (series : List ExpositionSeries) (metricType : ExpositionType)
    (metricName : String) : Except String Unit :=
  if (series.map fun series => exportedLabels metricType series.labels).Nodup then .ok ()
  else .error s!"metric {metricName} contains duplicate exported labelsets"

/-- The order of `Vec<(String, String)>`. -/
def LabelsLe (first second : Labels) : Prop := first.map toLex ≤ second.map toLex

instance (first second : Labels) : Decidable (LabelsLe first second) :=
  inferInstanceAs (Decidable (_ ≤ _))

/-- The series in the order of their labels. -/
def sortSeries (series : List ExpositionSeries) : List ExpositionSeries :=
  series.insertionSort fun first second => LabelsLe first.labels second.labels

/-- One round of the loop of `parse_snapshot`, after families with the names. -/
def parseFamily (names : List String) (metric : MetricFamily) : Except String ExpositionFamily :=
  let name := metric.name
  let metricType := ExpositionType.fromWire metric.metricType
  if name.isEmpty then .error "metric family field name must not be empty"
  else if !isLegacyMetricName name then
    .error s!"invalid Prometheus metric name: {rt.debug name}"
  else if name ∈ names then .error s!"duplicate metric family: {name}"
  else if metric.help.isEmpty then .error s!"{name} field help must not be empty"
  else do
    let series ← parseSeries rt name metric
    checkLabelsets name [] none (series.map ExpositionSeries.labels)
    validateExportedLabelsets series metricType name
    return ⟨name, metricType, metric.help, sortSeries series⟩

/-- The families, whose names are all different. -/
def parseFamilies : List String → List MetricFamily → Except String (List ExpositionFamily)
  | _, [] => .ok []
  | names, metric :: rest => do
      let family ← parseFamily rt names metric
      let families ← parseFamilies (family.name :: names) rest
      return family :: families

/-- The suffixes under which a histogram is exported. -/
def histogramSuffixes : List String := ["_bucket", "_sum", "_count"]

/-- The first name that a histogram exports and a family has. -/
def namespaceClash (declaredNames : List String) (families : List ExpositionFamily) :
    Option (String × String) :=
  families.findSome? fun family =>
    if family.metricType = .histogram then
      histogramSuffixes.findSome? fun suffix =>
        if family.name ++ suffix ∈ declaredNames then some (family.name, family.name ++ suffix)
        else none
    else none

/-- `validate_histogram_namespaces`: no name of a histogram belongs to another family. -/
def validateHistogramNamespaces (families : List ExpositionFamily)
    (declaredNames : List String) : Except String Unit :=
  match namespaceClash declaredNames families with
  | some (name, derived) =>
      .error s!"histogram {name} derived name collides with declared family {derived}"
  | none => .ok ()

end Parse

/-! ## Own drops -/

/-- The help text of the derived family. -/
def droppedOwnHelp : String :=
  "Total events dropped directly at this processing node, excluding direct child drops."

/-- The value of a label. -/
def labelValue (labels : Labels) (name : String) : Option String := labels.lookup name

/-- The labels without the path and the name of the process. -/
def dimensions (labels : Labels) : Labels :=
  labels.filter fun entry => entry.1 ≠ processLabelPath ∧ entry.1 ≠ processLabelName

/-- Where the series of the pipelines and of the frames are; a later one hides an earlier one. -/
structure Indices where
  roots : List (String × ℕ)
  parents : List ((Labels × String) × ℕ)

/-- A series is found by its path and by its parent. -/
def Indices.add (indices : Indices) (labels : Labels) (index : ℕ) : Indices :=
  match labelValue labels processLabelPath with
  | none => indices
  | some path =>
      if path = processPathRoot then
        match labelValue labels processLabelPipeline with
        | some pipeline => { indices with roots := (pipeline, index) :: indices.roots }
        | none => indices
      else { indices with parents := ((dimensions labels, path), index) :: indices.parents }

/-- The series from a place on. -/
def Indices.addAll (indices : Indices) (start : ℕ) : List Labels → Indices
  | [] => indices
  | labels :: rest => (indices.add labels start).addAll (start + 1) rest

/-- The series of the process that calls. -/
def Indices.parent (indices : Indices) (labels : Labels) : Option ℕ := do
  let path ← labelValue labels processLabelPath
  let parentPath ← processPathParent path
  if parentPath = processPathRoot then
    let pipeline ← labelValue labels processLabelPipeline
    indices.roots.lookup pipeline
  else indices.parents.lookup (dimensions labels, parentPath)

/-- A child's value comes off its parent's, down to zero. -/
def subtractChild (indices : Indices) (own : List ℕ) (child : Labels × ℕ) : List ℕ :=
  match indices.parent child.1 with
  | some index => own.modify index (· - child.2)
  | none => own

/-- `derive_dropped_own`. -/
def deriveDroppedOwn (families : List ExpositionFamily) : Option ExpositionFamily := do
  let source ← families.find? (·.name = eventsDroppedTotal)
  if source.metricType ≠ .counter then none
  else do
    let values ← source.series.mapM ExpositionSeries.toValue
    let indices := (⟨[], []⟩ : Indices).addAll 0 (values.map Prod.fst)
    let own := values.foldl (subtractChild indices) (values.map Prod.snd)
    return ⟨eventsDroppedOwnTotal, .counter, droppedOwnHelp,
      List.zipWith (fun series own => .value series.1 own) values own⟩

/-! ## Snapshots -/

/-- `parse_snapshot`. -/
def parseSnapshot (rt : Runtime) (root : MetricsSnapshot) :
    Except String (List ExpositionFamily) :=
  if root.schema ≠ 1 then .error "unsupported or missing metrics schema"
  else do
    let families ← parseFamilies rt [] root.metrics
    validateHistogramNamespaces families (root.metrics.map MetricFamily.name)
    return (families ++ (deriveDroppedOwn families).toList).insertionSort (·.name ≤ ·.name)

end Limpid.Prometheus
