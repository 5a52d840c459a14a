import Mathlib.Data.List.Sort
import Limpid.Decimal
import Limpid.Metrics.Schema

/-!
# `limpidctl stats`

`render_default_stats` of `limpidctl/src/main.rs`: the table that is printed for a snapshot, or
nothing when a family of the table is not as it should be, and the snapshot is printed as it came.

The client knows the frames of a pipeline from their labels only.  It puts them in the order of
their steps, and finds out from their paths which of them is below which (`processTreeNames`).

A `BTreeMap` is the list of its entries in the order of their keys.
-/

namespace Limpid.Ctl

open Decimal Metrics

/-! ## Names -/

/-- The families of the pipeline table. -/
def pipelineMetrics : List String :=
  ["limpid_pipeline_events_received_total", "limpid_pipeline_events_finished_total",
    eventsDroppedTotal, "limpid_pipeline_events_discarded_total",
    "limpid_pipeline_events_errored_total", "limpid_pipeline_events_errored_unwritable_total"]

/-- The families of the input table. -/
def inputMetrics : List String :=
  ["limpid_input_events_received_total", "limpid_input_events_invalid_total",
    "limpid_input_events_injected_total"]

/-- The families of the output table. -/
def outputMetrics : List String :=
  ["limpid_output_events_received_total", "limpid_output_events_injected_total",
    "limpid_output_events_written_total", "limpid_output_events_failed_total",
    "limpid_output_retries_total", "limpid_output_events_wedged_total",
    "limpid_output_events_errored_unwritable_total"]

/-- The families of the process table. -/
def processMetrics : List String :=
  [processEventsInTotal, processEventsOutTotal, eventsDroppedTotal, processEventsErroredTotal]

/-- `known_metric_label`. -/
def knownMetricLabel (name : String) : Option String :=
  if name ∈ pipelineMetrics then some "pipeline"
  else if name ∈ inputMetrics then some "input"
  else if name ∈ outputMetrics then some "output"
  else none

/-! ## Maps -/

/-- `BTreeMap::insert` of a key that is not there. -/
def insertNew {κ : Type} [LinearOrder κ] (key : κ) (value : ℕ) (map : List (κ × ℕ)) :
    Option (List (κ × ℕ)) :=
  if key ∈ Entries.keys map then none else some (map.orderedInsert (·.1 ≤ ·.1) (key, value))

/-- The values of a family by name. -/
abbrev MetricValues := List (String × ℕ)

/-- `ProcessIdentity`: where a process stands in the call tree. -/
structure ProcessIdentity where
  pipeline : String
  step : ℕ
  processPath : String
  processName : String
deriving DecidableEq

namespace ProcessIdentity

/-- What the derived order compares. -/
def key (identity : ProcessIdentity) : String ×ₗ ℕ ×ₗ String ×ₗ String :=
  toLex (identity.pipeline, toLex (identity.step,
    toLex (identity.processPath, identity.processName)))

theorem key_injective : Function.Injective key := by
  rintro ⟨pipeline, step, path, name⟩ ⟨pipeline', step', path', name'⟩ h
  simp only [key, toLex_inj, Prod.mk.injEq] at h
  obtain ⟨rfl, rfl, rfl, rfl⟩ := h
  rfl

instance : LinearOrder ProcessIdentity := LinearOrder.lift' key key_injective

/-- How many separators the path has. -/
def depth (identity : ProcessIdentity) : ℕ := identity.processPath.toList.count processPathSeparator

end ProcessIdentity

/-- The values of a family by process. -/
abbrev ProcessMetricValues := List (ProcessIdentity × ℕ)

/-! ## The process tree -/

/-- The first loop of `process_tree_names`: every frame is below the last one that is less deep. -/
def checkAncestors (activeAncestors : List ProcessIdentity) : List ProcessIdentity → Option Unit
  | [] => some ()
  | identity :: rest =>
    let depth := identity.depth
    let active := activeAncestors.take (depth - 1)
    if depth = 0 then none
    else if depth > 1 then do
      let parent ← active[depth - 2]?
      let (parentPath, _) ← rsplitOnce identity.processPath.toList
      if parent.processPath ≠ String.ofList parentPath then none
      else checkAncestors (active ++ [identity]) rest
    else checkAncestors (active ++ [identity]) rest

/-- `is_last_sibling`, from the depths of the frames behind one. -/
def isLastSibling (depth : ℕ) (after : List ℕ) : Bool :=
  match after.find? (· ≤ depth) with
  | none => true
  | some nextDepth => nextDepth < depth

/-- What is drawn below an ancestor. -/
def ancestorColumn (isLast : Bool) : String := if isLast then "   " else "│  "

/-- The second loop: the frames with the drawing before them, and what stands below it. -/
def drawNames (ancestorIsLast : List Bool) : List ProcessIdentity → List (String × String)
  | [] => []
  | identity :: rest =>
    let ancestors := ancestorIsLast.take (identity.depth - 1)
    let rendered := String.join (ancestors.map ancestorColumn)
    let isLast := isLastSibling identity.depth (rest.map ProcessIdentity.depth)
    (rendered ++ (if isLast then "└─ " else "├─ ") ++ identity.processName,
      rendered ++ ancestorColumn isLast) :: drawNames (ancestors ++ [isLast]) rest

/-- `process_tree_names`. -/
def processTreeNames (identities : List ProcessIdentity) : Option (List (String × String)) := do
  checkAncestors [] identities
  return drawNames [] identities

/-! ## Reading the families -/

/-- The families of the table that have been read so far. -/
structure Families where
  values : List (String × MetricValues)
  processes : List (String × ProcessMetricValues)

/-- The identity that the labels of a series give. -/
def readIdentity (labels : Labels) : Option ProcessIdentity := do
  let pipeline ← labels.lookup "pipeline"
  let stepText ← labels.lookup "step"
  let step ← parseUnsigned stepText.toList
  let processPath ← labels.lookup "process_path"
  let processName ← labels.lookup "process_name"
  if step < UInt64.size then some ⟨pipeline, step, processPath, processName⟩ else none

/-- A series of the dropped family, which is that of a pipeline or of a frame. -/
def readDroppedSeries (validateProcessFamilies : Bool)
    (values : MetricValues × ProcessMetricValues) (item : ValueSeries) :
    Option (MetricValues × ProcessMetricValues) :=
  let labels := item.labels.entries
  if labels.lookup "process_path" = some processPathRoot then
    if labels.length ≠ 4 then none
    else do
      let pipeline ← labels.lookup "pipeline"
      let step ← labels.lookup "step"
      let processName ← labels.lookup "process_name"
      if step ≠ droppedRootStep ∨ processName ≠ droppedRootProcessName then none
      else do
        let pipelines ← insertNew pipeline item.value values.1
        some (pipelines, values.2)
  else if validateProcessFamilies then
    if labels.length ≠ 4 then none
    else do
      let identity ← readIdentity labels
      let leaf ← processPathLeaf identity.processPath
      if leaf ≠ identity.processName then none
      else do
        let processes ← insertNew identity item.value values.2
        some (values.1, processes)
  else some values

/-- A series of a family of processes is taken in. -/
def readProcessSeries (values : ProcessMetricValues) (item : ValueSeries) :
    Option ProcessMetricValues :=
  if item.labels.entries.length ≠ 4 then none
  else do
    let identity ← readIdentity item.labels.entries
    insertNew identity item.value values

/-- A series of a family is taken in. -/
def readSeries (labelName : String) (values : MetricValues) (item : ValueSeries) :
    Option MetricValues :=
  if item.labels.entries.length ≠ 1 then none
  else do
    let scope ← item.labels.entries.lookup labelName
    insertNew scope item.value values

/-- The series of a counter that has some. -/
def counterSeries (metric : MetricFamily) : Option (List ValueSeries) :=
  if metric.metricType ≠ .counter then none
  else do
    let series ← metric.valueSeries
    if series.isEmpty then none else some series

/-- The body of the loop over the families. -/
def readFamily (validateProcessFamilies : Bool) (families : Families) (metric : MetricFamily) :
    Option Families :=
  let name := metric.name
  if name = eventsDroppedTotal then
    if name ∈ Entries.keys families.values ∨ name ∈ Entries.keys families.processes then none
    else do
      let series ← counterSeries metric
      let (pipelines, processes) ← series.foldlM (readDroppedSeries validateProcessFamilies)
        ([], [])
      if pipelines.isEmpty then none
      else some {
        values := (name, pipelines) :: families.values
        processes := if validateProcessFamilies && !processes.isEmpty then
          (name, processes) :: families.processes else families.processes }
  else if validateProcessFamilies ∧ name ∈ processMetrics then
    if name ∈ Entries.keys families.processes then none
    else do
      let series ← counterSeries metric
      let values ← series.foldlM readProcessSeries []
      some { families with processes := (name, values) :: families.processes }
  else
    match knownMetricLabel name with
    | none => some families
    | some labelName =>
      if name ∈ Entries.keys families.values then none
      else do
        let series ← counterSeries metric
        let values ← series.foldlM (readSeries labelName) []
        some { families with values := (name, values) :: families.values }

/-- The families of a group are there and have the keys of the first. -/
def sameKeys {κ : Type} [DecidableEq κ] (families : List (String × List (κ × ℕ)))
    (expected : List (κ × ℕ)) (names : List String) : Bool :=
  names.all fun name =>
    match families.lookup name with
    | none => false
    | some values => Entries.keys values = Entries.keys expected

/-- `validate_metric_group`. -/
def validateMetricGroup (families : List (String × MetricValues)) (names : List String) :
    Option Unit := do
  let first ← names.head?
  let expected ← families.lookup first
  if sameKeys families expected names then some () else none

/-- `validate_process_metric_group`: nothing is expected where no family is there. -/
def validateProcessMetricGroup (families : List (String × ProcessMetricValues)) :
    Option (Option ProcessMetricValues) :=
  if families.isEmpty then some none
  else do
    let expected ← families.lookup processEventsInTotal
    if sameKeys families expected processMetrics then some (some expected) else none

/-- `metric_value` and `process_metric_value`. -/
def metricValue {κ : Type} [DecidableEq κ] (families : List (String × List (κ × ℕ)))
    (metric : String) (scope : κ) : Option ℕ := do
  let values ← families.lookup metric
  values.lookup scope

/-! ## The table -/

/-- `{:<width$}`. -/
def padRight (width : ℕ) (text : String) : String :=
  text ++ String.ofList (List.replicate (width - text.length) ' ')

/-- `{:>8}` of a number. -/
def padLeft8 (value : ℕ) : String :=
  String.ofList (List.replicate (8 - (toString value).length) ' ') ++ toString value

/-- A value and what it counts, as the rows have them. -/
def cell (value : ℕ) (what : String) : String := padLeft8 value ++ " " ++ what

/-- A cell that is shown when it is not zero. -/
def alarm (value : ℕ) (what : String) : String := if value > 0 then "  " ++ cell value what else ""

/-- The line of a pipeline. -/
def pipelineRow (families : List (String × MetricValues)) (name : String) : Option String := do
  let received ← metricValue families "limpid_pipeline_events_received_total" name
  let finished ← metricValue families "limpid_pipeline_events_finished_total" name
  let dropped ← metricValue families eventsDroppedTotal name
  let discarded ← metricValue families "limpid_pipeline_events_discarded_total" name
  let errored ← metricValue families "limpid_pipeline_events_errored_total" name
  let unwritable ← metricValue families "limpid_pipeline_events_errored_unwritable_total" name
  let row := "  " ++ padRight 24 name ++ " " ++ cell received "received" ++ "  " ++
    cell finished "finished" ++ "  " ++ cell dropped "dropped" ++ "  " ++
    cell discarded "discarded"
  return row ++ (if errored = 0 ∧ unwritable = 0 then ""
    else "  " ++ cell errored "errored" ++ alarm unwritable "errored_unwritable") ++ "\n"

/-- The line of an input. -/
def inputRow (families : List (String × MetricValues)) (name : String) : Option String := do
  let received ← metricValue families "limpid_input_events_received_total" name
  let invalid ← metricValue families "limpid_input_events_invalid_total" name
  let injected ← metricValue families "limpid_input_events_injected_total" name
  return "  " ++ padRight 24 name ++ " " ++ cell received "received" ++ "  " ++
    cell invalid "invalid" ++ "  " ++ cell injected "injected" ++ "\n"

/-- The line of an output. -/
def outputRow (families : List (String × MetricValues)) (name : String) : Option String := do
  let received ← metricValue families "limpid_output_events_received_total" name
  let injected ← metricValue families "limpid_output_events_injected_total" name
  let written ← metricValue families "limpid_output_events_written_total" name
  let failed ← metricValue families "limpid_output_events_failed_total" name
  let retries ← metricValue families "limpid_output_retries_total" name
  let wedged ← metricValue families "limpid_output_events_wedged_total" name
  let unwritable ← metricValue families "limpid_output_events_errored_unwritable_total" name
  return "  " ++ padRight 24 name ++ " " ++ cell received "received" ++ "  " ++
    cell injected "injected" ++ "  " ++ cell written "written" ++ "  " ++ cell failed "failed" ++
    "  " ++ cell retries "retries" ++ alarm wedged "wedged" ++
    alarm unwritable "errored_unwritable" ++ "\n"

/-- The rows of a group, one for each key of its first family. -/
def groupRows (families : List (String × MetricValues)) (first : String)
    (row : List (String × MetricValues) → String → Option String) : Option (List String) := do
  let values ← families.lookup first
  (Entries.keys values).mapM (row families)

/-- The frames with their names as they are drawn, pipeline by pipeline. -/
def processRows : List ProcessIdentity → Option (List (ProcessIdentity × String × String))
  | [] => some []
  | first :: rest => do
    let names ← processTreeNames (first :: rest.takeWhile (·.pipeline = first.pipeline))
    let rows ← processRows (rest.dropWhile (·.pipeline = first.pipeline))
    some ((first :: rest.takeWhile (·.pipeline = first.pipeline)).zip names ++ rows)
termination_by identities => identities.length
decreasing_by
  have hle := (List.dropWhile_suffix (·.pipeline = first.pipeline) (l := rest)).length_le
  simp only [List.length_cons]
  omega

/-- One row of the process tree, and the pipeline's name before its first. -/
def processLine (families : List (String × ProcessMetricValues)) (showProcessIdentity : Bool)
    (nameWidth : ℕ) (newPipeline : Bool) (row : ProcessIdentity × String × String) :
    Option String := do
  let (identity, processName, detailPrefix) := row
  let incoming ← metricValue families processEventsInTotal identity
  let outgoing ← metricValue families processEventsOutTotal identity
  let dropped ← metricValue families eventsDroppedTotal identity
  let errored ← metricValue families processEventsErroredTotal identity
  return (if newPipeline then "  " ++ identity.pipeline ++ "\n" else "") ++ "  " ++
    padRight nameWidth processName ++ " " ++ cell incoming "in" ++ "  " ++ cell outgoing "out" ++
    "  " ++ cell dropped "dropped" ++ "  " ++ cell errored "errored" ++ "\n" ++
    if showProcessIdentity then "  " ++ detailPrefix ++ "step: " ++ toString identity.step ++
      "  path: " ++ identity.processPath ++ "\n" else ""

/-- The lines of the processes of a pipeline. -/
def processLines (families : List (String × ProcessMetricValues)) (showProcessIdentity : Bool)
    (nameWidth : ℕ) : Option String → List (ProcessIdentity × String × String) →
      Option (List String)
  | _, [] => some []
  | currentPipeline, row :: rest => do
    let line ← processLine families showProcessIdentity nameWidth
      (currentPipeline ≠ some row.1.pipeline) row
    let lines ← processLines families showProcessIdentity nameWidth (some row.1.pipeline) rest
    some (line :: lines)

/-- The width of the widest name. -/
def nameWidth (rows : List (ProcessIdentity × String × String)) : ℕ :=
  ((rows.map fun (_, name, _) => name.length).max?).getD 0

/-- The section of the processes, which is left out where there are no families of processes. -/
def processSection (families : List (String × ProcessMetricValues)) (showProcessIdentity : Bool) :
    Option ProcessMetricValues → Option String
  | none => some ""
  | some identities => do
    let rows ← processRows (Entries.keys identities)
    let lines ← processLines families showProcessIdentity (nameWidth rows) none rows
    some ("\nProcesses:\n" ++ String.join lines)

/-- `render_default_stats_inner`. -/
def renderDefaultStatsInner (snapshot : MetricsSnapshot)
    (validateProcessFamilies showProcessIdentity : Bool) : Option String :=
  if snapshot.schema ≠ 1 then none
  else do
    let families ← snapshot.metrics.foldlM (readFamily validateProcessFamilies) ⟨[], []⟩
    validateMetricGroup families.values pipelineMetrics
    validateMetricGroup families.values inputMetrics
    validateMetricGroup families.values outputMetrics
    let identities ← if validateProcessFamilies then validateProcessMetricGroup families.processes
      else some none
    let pipelines ← groupRows families.values "limpid_pipeline_events_received_total" pipelineRow
    let inputs ← groupRows families.values "limpid_input_events_received_total" inputRow
    let outputs ← groupRows families.values "limpid_output_events_received_total" outputRow
    let processes ← processSection families.processes showProcessIdentity identities
    return "Pipelines:\n" ++ String.join pipelines ++ "\nInputs:\n" ++ String.join inputs ++
      "\nOutputs:\n" ++ String.join outputs ++ processes

/-- `render_default_stats`. -/
def renderDefaultStats (snapshot : MetricsSnapshot) : Option String :=
  renderDefaultStatsInner snapshot true false

end Limpid.Ctl
