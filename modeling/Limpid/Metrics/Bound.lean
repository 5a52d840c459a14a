import Limpid.Metrics.Registered
import Limpid.Pipeline.FrameAccount

/-!
# The metrics of a bound blueprint

What `bind` and the workers register for a blueprint: four counters for each metric node, and the
counters and the gauge of each pipeline.  The family of the dropped events holds the pipelines and
the frames together, with the same label names; a pipeline stands there as the frame `/` with
step `0`.

The rest of the daemon registers more (`Carries`), in any order; what the counters hold is read
off the workers (`Reads`).
-/

namespace Limpid.Metrics

open RegistryCore
open Pipeline (ProcessCounters PipelineMetrics PipelineWorker)
open Pipeline.Blueprint (MetricNodeDescriptor PipelineBlueprint UnsealedRuntimeBlueprint)

/-! ## Labels -/

/-- The labels of a frame, in the order in which they are given. -/
def processLabels (pipeline step path name : String) : Labels :=
  [(processLabelPipeline, pipeline), (processLabelStep, step), (processLabelPath, path),
    (processLabelName, name)]

/-- The labels of a frame in order. -/
def frameLabels (pipeline step path name : String) : Labels :=
  [(processLabelPipeline, pipeline), (processLabelName, name), (processLabelPath, path),
    (processLabelStep, step)]

/-- The labels of the root of a pipeline. -/
def rootLabels (pipeline : String) : Labels :=
  frameLabels pipeline droppedRootStep processPathRoot droppedRootProcessName

/-- The labels of a node of a pipeline. -/
def nodeLabels (pipeline : String) (node : MetricNodeDescriptor) : Labels :=
  frameLabels pipeline (toString node.step) node.processPath node.processName

theorem frameLabels_pairwise (pipeline step path name : String) :
    (Entries.keys (frameLabels pipeline step path name)).Pairwise (· < ·) := by
  change [processLabelPipeline, processLabelName, processLabelPath, processLabelStep].Pairwise _
  decide

theorem canonicalLabels_processLabels (pipeline step path name : String) :
    canonicalLabels (processLabels pipeline step path name) =
      frameLabels pipeline step path name := by
  refine canonicalLabels_eq (.cons _ ?_) (frameLabels_pairwise pipeline step path name)
  exact (List.reverse_perm [(processLabelName, name), (processLabelPath, path),
    (processLabelStep, step)])

/-! ## Registrations -/

/-- The help text of the family of drops. -/
def droppedHelp : String :=
  "Total events whose drop propagated through this processing node."

/-- `ProcessCounters::register`. -/
def processCounterRequests (pipeline : String) (step : ℕ) (processPath processName : String) :
    List Request :=
  let counter name help : Request :=
    ⟨.counter, name, some help, processLabels pipeline (toString step) processPath processName⟩
  [counter processEventsInTotal "Total process invocation frames started.",
    counter processEventsOutTotal
      "Total process invocation frames that continued successfully.",
    counter eventsDroppedTotal droppedHelp,
    counter processEventsErroredTotal "Total process invocation frames terminated by an error."]

/-- `PipelineMetrics::register`. -/
def pipelineMetricsRequests (pipeline : String) : List Request :=
  let counter name help : Request := ⟨.counter, name, some help, [("pipeline", pipeline)]⟩
  [counter "limpid_pipeline_events_received_total" "Total events received by the pipeline.",
    counter "limpid_pipeline_events_finished_total"
      "Total events that finished pipeline processing.",
    ⟨.counter, eventsDroppedTotal, some droppedHelp,
      processLabels pipeline droppedRootStep processPathRoot droppedRootProcessName⟩,
    counter "limpid_pipeline_events_discarded_total"
      "Total events discarded by pipeline routing.",
    counter "limpid_pipeline_events_errored_total"
      "Total events that encountered a pipeline processing error.",
    counter "limpid_pipeline_events_errored_unwritable_total"
      "Total pipeline errors whose recovery record could not be written.",
    ⟨.gauge, "limpid_pipeline_inflight",
      some "Pipeline executions currently in progress, including terminal bookkeeping.",
      [("pipeline", pipeline)]⟩]

/-- The frames of a pipeline at `bind`, and then the pipeline at its worker. -/
def pipelineRequests (name : String) (pipeline : PipelineBlueprint) : List Request :=
  (pipeline.metricNodes.flatMap fun node =>
    processCounterRequests name node.step node.processPath node.processName) ++
      pipelineMetricsRequests pipeline.name

/-- The one counter of dropped events among those of a frame. -/
theorem processCounterRequests_dropped (pipeline : String) (step : ℕ) (path name : String) :
    (processCounterRequests pipeline step path name).filter
        (fun request => request.name = eventsDroppedTotal) =
      [⟨.counter, eventsDroppedTotal, some droppedHelp,
        processLabels pipeline (toString step) path name⟩] := rfl

theorem pipelineMetricsRequests_dropped (pipeline : String) :
    (pipelineMetricsRequests pipeline).filter
        (fun request => request.name = eventsDroppedTotal) =
      [⟨.counter, eventsDroppedTotal, some droppedHelp,
        processLabels pipeline droppedRootStep processPathRoot droppedRootProcessName⟩] := rfl

/-- What a pipeline registers in the family of the dropped events. -/
theorem request_dropped {name : String} {pipeline : PipelineBlueprint} {request : Request}
    (hmem : request ∈ pipelineRequests name pipeline) (hname : request.name = eventsDroppedTotal) :
    request.kind = .counter ∧ (request.key = ⟨eventsDroppedTotal, rootLabels pipeline.name⟩ ∨
      ∃ node ∈ pipeline.metricNodes,
        request.key = ⟨eventsDroppedTotal, nodeLabels name node⟩) := by
  have hdropped : decide (request.name = eventsDroppedTotal) = true := decide_eq_true hname
  rcases List.mem_append.mp hmem with hframe | hpipeline
  · obtain ⟨node, hnode, hrequest⟩ := List.mem_flatMap.mp hframe
    have hfilter := List.mem_filter (p := fun request => request.name = eventsDroppedTotal)
      |>.mpr ⟨hrequest, hdropped⟩
    rw [processCounterRequests_dropped] at hfilter
    obtain rfl := List.mem_singleton.mp hfilter
    refine ⟨rfl, .inr ⟨node, hnode, ?_⟩⟩
    rw [Request.key, canonicalLabels_processLabels]
    rfl
  · have hfilter := List.mem_filter (p := fun request => request.name = eventsDroppedTotal)
      |>.mpr ⟨hpipeline, hdropped⟩
    rw [pipelineMetricsRequests_dropped] at hfilter
    obtain rfl := List.mem_singleton.mp hfilter
    refine ⟨rfl, .inl ?_⟩
    rw [Request.key, canonicalLabels_processLabels]
    rfl

theorem rootRequest_mem (name : String) (pipeline : PipelineBlueprint) :
    ∃ request ∈ pipelineRequests name pipeline, request.kind = .counter ∧
      request.key = ⟨eventsDroppedTotal, rootLabels pipeline.name⟩ := by
  have hmem := pipelineMetricsRequests_dropped pipeline.name ▸ List.mem_singleton_self _
  refine ⟨_, List.mem_append_right _ (List.mem_of_mem_filter hmem), rfl, ?_⟩
  rw [Request.key, canonicalLabels_processLabels]
  rfl

theorem nodeRequest_mem (name : String) {pipeline : PipelineBlueprint}
    {node : MetricNodeDescriptor} (hnode : node ∈ pipeline.metricNodes) :
    ∃ request ∈ pipelineRequests name pipeline, request.kind = .counter ∧
      request.key = ⟨eventsDroppedTotal, nodeLabels name node⟩ := by
  have hmem := processCounterRequests_dropped name node.step node.processPath
    node.processName ▸ List.mem_singleton_self _
  refine ⟨_, List.mem_append_left _
    (List.mem_flatMap.mpr ⟨node, hnode, List.mem_of_mem_filter hmem⟩), rfl, ?_⟩
  rw [Request.key, canonicalLabels_processLabels]
  rfl

/-- The registrations of a daemon that runs a blueprint. -/
structure Carries (blueprint : UnsealedRuntimeBlueprint) (requests : List Request) : Prop where
  registered : ∀ name pipeline, (name, pipeline) ∈ blueprint.pipelines →
    ∀ request ∈ pipelineRequests name pipeline, request ∈ requests
  dropped : ∀ request ∈ requests, request.name = eventsDroppedTotal →
    ∃ name pipeline, (name, pipeline) ∈ blueprint.pipelines ∧
      request ∈ pipelineRequests name pipeline
  derived : ∀ request ∈ requests, request.name ≠ eventsDroppedOwnTotal

/-! ## Readings -/

/-- The counters of a frame, in the order of `processCounterRequests`. -/
def counterValues (counters : ProcessCounters) : List ℕ :=
  [counters.incoming, counters.outgoing, counters.dropped, counters.errored]

/-- The counters and the gauge of a pipeline, in the order of `pipelineMetricsRequests`. -/
def metricValues (metrics : PipelineMetrics) : List ℕ :=
  [metrics.eventsReceived, metrics.eventsFinished, metrics.eventsDropped,
    metrics.eventsDiscarded, metrics.eventsErrored, metrics.eventsErroredUnwritable,
    metrics.inflight.toNat]

/-- The series of requests hold values. -/
def Holds (readings : Readings) : List Request → List ℕ → Prop :=
  List.Forall₂ fun request value => readings.value request.key = value

theorem holds_of_map_eq {readings : Readings} {requests : List Request} {values : List ℕ}
    (h : requests.map (fun request => readings.value request.key) = values) :
    Holds readings requests values := by
  rw [← List.forall₂_eq_eq_eq, List.forall₂_map_left_iff] at h
  exact h

/-- The series of a pipeline hold what its worker has counted. -/
structure Reads (readings : Readings) (name : String) (pipeline : PipelineBlueprint)
    (worker : PipelineWorker) : Prop where
  frames : ∀ (id : ℕ) node counters, pipeline.metricNodes[id]? = some node →
    worker.processCounters[id]? = some counters →
      Holds readings (processCounterRequests name node.step node.processPath node.processName)
        (counterValues counters)
  pipeline : Holds readings (pipelineMetricsRequests pipeline.name) (metricValues worker.metrics)

namespace Reads

variable {readings : Readings} {name : String} {pipeline : PipelineBlueprint}
  {worker : PipelineWorker}

theorem root_value (h : Reads readings name pipeline worker) :
    readings.value ⟨eventsDroppedTotal, rootLabels pipeline.name⟩ =
      worker.metrics.eventsDropped := by
  obtain ⟨-, -, hvalue, -⟩ := by
    simpa only [Holds, pipelineMetricsRequests, metricValues, List.forall₂_cons] using h.pipeline
  rw [Request.key, canonicalLabels_processLabels] at hvalue
  exact hvalue

theorem node_value (h : Reads readings name pipeline worker) {id : ℕ}
    {node : MetricNodeDescriptor} {counters : ProcessCounters}
    (hnode : pipeline.metricNodes[id]? = some node)
    (hcounters : worker.processCounters[id]? = some counters) :
    readings.value ⟨eventsDroppedTotal, nodeLabels name node⟩ = counters.dropped := by
  obtain ⟨-, -, hvalue, -⟩ := by
    simpa only [Holds, processCounterRequests, counterValues, List.forall₂_cons] using
      h.frames id node counters hnode hcounters
  rw [Request.key, canonicalLabels_processLabels] at hvalue
  exact hvalue

end Reads

end Limpid.Metrics
