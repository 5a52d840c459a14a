import Limpid.Pipeline.Execution

/-!
# The pipeline worker

`runtime/pipeline_worker.rs`: an event of an input is run through every pipeline that subscribes
to it, the copies of each run are handed to the output queues, and the run is counted and its
records are written to the error log.

What a queue or the error log does with what it is given depends on all it was given before; that
is a parameter.  `sent` and `recorded` list what was handed over, in order, with whether it was
taken.
-/

namespace Limpid.Pipeline

open Dsl

/-- A copy handed to the queue of its output.  There is no queue for an unknown output. -/
structure Sent where
  copy : OutputCopy
  accepted : Bool

/-- A record handed to the error log. -/
structure Recorded where
  record : ErroredEventContext
  written : Bool

/-- `PipelineContext`. -/
structure PipelineContext (World : Type) where
  rt : Runtime
  funcs : FunctionRegistry World
  /-- The names of the outputs with a queue. -/
  outputSenders : List String
  /-- Whether a queue takes a copy. -/
  accepts : List Sent → OutputCopy → Bool
  diskOutputs : List String
  /-- Whether the error log, if there is one, takes a record. -/
  errorLog : Option (List Recorded → ErroredEventContext → Bool)
  depth : ℕ

/-- `PipelineMetrics`. -/
structure PipelineMetrics where
  eventsReceived : ℕ
  eventsFinished : ℕ
  eventsDropped : ℕ
  eventsDiscarded : ℕ
  eventsErrored : ℕ
  eventsErroredUnwritable : ℕ
  inflight : ℤ

/-- A worker: its pipeline, the bodies of the blueprint, and its metrics. -/
structure PipelineWorker where
  processBodies : List ProcessBodyCode
  pipeline : PipelineBlueprint
  metrics : PipelineMetrics
  processCounters : List ProcessCounters

/-- What the workers share. -/
structure Shared (World : Type) where
  world : World
  sent : List Sent
  recorded : List Recorded

section Worker

variable {World : Type} (ctx : PipelineContext World)

/-! ## Enqueueing -/

/-- The loop of `enqueue_pipeline_outputs`: the copies that were not taken. -/
def enqueueOutputs (sent : List Sent) : List OutputCopy → List Sent × List OutputCopy
  | [] => (sent, [])
  | copy :: rest =>
      let accepted := ctx.outputSenders.contains copy.1 && ctx.accepts sent copy
      let (sent, failed) := enqueueOutputs (sent ++ [⟨copy, accepted⟩]) rest
      (sent, if accepted then failed else copy :: failed)

/-- The reason of a record for an output that does not take the copy. -/
def enqueueReason : String :=
  "output enqueue failed (queue closed, disk write error, or unknown output)"

/-- The record of a copy that was not taken. -/
def enqueueRecord (pipelineName : String) (copy : OutputCopy) : ErroredEventContext :=
  .output pipelineName (copy.1 ++ " enqueue") enqueueReason copy.1 (.fromOwned copy.2)

/-- `enqueue_pipeline_outputs`. -/
def enqueuePipelineOutputs (pipelineName : String) (result : PipelineRunResult)
    (sent : List Sent) : PipelineRunResult × List Sent :=
  let (sent, failed) := enqueueOutputs ctx sent result.outputs
  let result := { result with outputs := [] }
  match failed with
  | [] => (result, sent)
  | failed =>
      ({ result with
        termination := .errored
        errored := result.errored ++ failed.map (enqueueRecord pipelineName) }, sent)

/-! ## The run of one worker -/

/-- The context in which the worker runs the pipeline. -/
def PipelineWorker.execCtx (worker : PipelineWorker) (event : OwnedEvent) :
    IrPipelineExecCtx World where
  registry :=
    { rt := ctx.rt
      processBodies := worker.processBodies
      metricNodes := worker.pipeline.metricNodes
      funcs := ctx.funcs }
  pipeline := worker.pipeline
  originalEvent := event
  outputCapture := .diskOnly ctx.diskOutputs
  depth := ctx.depth

/-- `run_pipeline_with_outputs_inner`: the outputs of a run that fails are not enqueued. -/
def runPipelineWithOutputsInner (worker : PipelineWorker) (event : OwnedEvent)
    (shared : Shared World) :
    Option (Except String PipelineRunResult × PipelineWorker × Shared World) :=
  match runPipelineBlueprintResolvedAt (worker.execCtx ctx event)
      (shared.world, worker.processCounters) with
  | none => none
  | some (.error message, (world, counters)) =>
      some (.error message, { worker with processCounters := counters },
        { shared with world := world })
  | some (.ok result, (world, counters)) =>
      let (result, sent) := enqueuePipelineOutputs ctx worker.pipeline.name result shared.sent
      some (.ok result, { worker with processCounters := counters },
        { shared with world := world, sent := sent })

/-- `write_errored_to_dlq`.  Without an error log the record goes to the log lines. -/
def writeErroredToDlq (metrics : PipelineMetrics) (recorded : List Recorded)
    (record : ErroredEventContext) : PipelineMetrics × List Recorded :=
  match ctx.errorLog with
  | some write =>
      let written := write recorded record
      (if written then metrics
        else { metrics with eventsErroredUnwritable := metrics.eventsErroredUnwritable + 1 },
        recorded ++ [⟨record, written⟩])
  | none => (metrics, recorded ++ [⟨record, false⟩])

/-- The records are counted and written, one after another. -/
def writeAll (metrics : PipelineMetrics) (recorded : List Recorded)
    (records : List ErroredEventContext) : PipelineMetrics × List Recorded :=
  records.foldl (fun state record => writeErroredToDlq ctx state.1 state.2 record)
    (metrics, recorded)

/-- The record of a pipeline body that failed. -/
def bodyRecord (pipelineName message : String) (event : OwnedEvent) : ErroredEventContext :=
  .process pipelineName "(pipeline body)" message (.fromOwned event)

/-- How a run is counted, and the records it leaves. -/
def settle (pipelineName : String) (event : OwnedEvent) (metrics : PipelineMetrics) :
    Except String PipelineRunResult → PipelineMetrics × List ErroredEventContext
  | .ok result =>
      match result.termination with
      | .dropped => ({ metrics with eventsDropped := metrics.eventsDropped + 1 }, [])
      | .errored => ({ metrics with eventsErrored := metrics.eventsErrored + 1 }, result.errored)
      | .finished =>
          if result.hadOutputs then
            ({ metrics with eventsFinished := metrics.eventsFinished + 1 }, [])
          else ({ metrics with eventsDiscarded := metrics.eventsDiscarded + 1 }, [])
  | .error message =>
      ({ metrics with eventsErrored := metrics.eventsErrored + 1 },
        [bodyRecord pipelineName message event])

/-- The worker with an event in flight. -/
def PipelineWorker.started (worker : PipelineWorker) : PipelineWorker :=
  { worker with
    metrics :=
      { worker.metrics with
        eventsReceived := worker.metrics.eventsReceived + 1
        inflight := worker.metrics.inflight + 1 } }

/-- The loop body of `process_event_at`; there is no result if a call does not return. -/
def processWorker (event : OwnedEvent) (worker : PipelineWorker) (shared : Shared World) :
    Option (PipelineWorker × Shared World) :=
  match runPipelineWithOutputsInner ctx worker.started event shared with
  | none => none
  | some (result, worker, shared) =>
      let (metrics, records) := settle worker.pipeline.name event worker.metrics result
      let (metrics, recorded) := writeAll ctx metrics shared.recorded records
      some ({ worker with metrics := { metrics with inflight := metrics.inflight - 1 } },
        { shared with recorded := recorded })

/-- `process_event_at`. -/
def processEventAt (event : OwnedEvent) :
    List PipelineWorker → Shared World → Option (List PipelineWorker × Shared World)
  | [], shared => some ([], shared)
  | worker :: rest, shared =>
      match processWorker ctx event worker shared with
      | none => none
      | some (worker, shared) =>
          match processEventAt event rest shared with
          | none => none
          | some (rest, shared) => some (worker :: rest, shared)

end Worker

end Limpid.Pipeline
