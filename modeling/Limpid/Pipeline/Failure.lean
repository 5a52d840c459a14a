import Limpid.Pipeline.Reach
import Limpid.Pipeline.Worker

/-!
# Failures of a pipeline

A run that fails should be handled alike whatever failed (`FailureHandled`): the copies of the
outputs reached before are enqueued in order, the event is counted as errored and as nothing else,
and one record with the event as it came in (`arrivalRecord`) is handed to the error log.

A process that fails and an `error` statement are handled so.  Any other failing step is an error
of the interpreter, which `run_pipeline_with_outputs_inner` passes on before anything is enqueued:
the count and the record are right, and the copies are lost (`failure_handled_iff`).
-/

namespace Limpid.Pipeline

open Dsl

variable {World : Type}

/-- The failing step is one of the body itself. -/
def Failure.inBody : Failure → Prop
  | .body _ => True
  | _ => False

/-- The record is about a process. -/
def ErroredEventContext.isProcess : ErroredEventContext → Bool
  | .process .. => true
  | .output .. => false

/-- The record of a failure: what it keeps of the event is as the event came in. -/
def arrivalRecord (pipelineName site reason : String) (event : OwnedEvent) : ErroredEventContext :=
  .process pipelineName site reason
    { key := event.key
      source := event.source
      receivedAt := event.receivedAt
      ingress := event.ingress
      ltpStamps := event.ltpStamps }

/-- What a worker has done with an event on which a run failed that had reached some copies. -/
structure FailureHandled (event : OwnedEvent) (copies : List OutputCopy)
    (worker next : PipelineWorker) (shared after : Shared World) : Prop where
  enqueued : ∃ sent, after.sent = shared.sent ++ sent ∧ sent.map Sent.copy = copies
  errored : next.metrics.eventsErrored = worker.metrics.eventsErrored + 1
  received : next.metrics.eventsReceived = worker.metrics.eventsReceived + 1
  finished : next.metrics.eventsFinished = worker.metrics.eventsFinished
  dropped : next.metrics.eventsDropped = worker.metrics.eventsDropped
  discarded : next.metrics.eventsDiscarded = worker.metrics.eventsDiscarded
  inflight : next.metrics.inflight = worker.metrics.inflight
  recorded : ∃ recorded, after.recorded = shared.recorded ++ recorded ∧
    ∃ site reason, (recorded.map Recorded.record).filter ErroredEventContext.isProcess =
      [arrivalRecord worker.pipeline.name site reason event]

variable {ctx : PipelineContext World}

/-! ## What is handed over -/

/-- The copies not taken. -/
def failedCopies (attempts : List Sent) : List OutputCopy :=
  (attempts.filter fun attempt => !attempt.accepted).map Sent.copy

theorem failedCopies_cons (attempt : Sent) (rest : List Sent) :
    failedCopies (attempt :: rest) =
      if attempt.accepted then failedCopies rest else attempt.copy :: failedCopies rest := by
  unfold failedCopies
  rw [List.filter_cons]
  cases attempt.accepted <;> rfl

variable (ctx) in
/-- Each copy is handed over once, in order; it is taken if its output has a queue and the queue,
which has been given all before, takes it; and the failed ones are those not taken. -/
theorem enqueueOutputs_attempts (sent : List Sent) (copies : List OutputCopy) :
    ∃ attempts, enqueueOutputs ctx sent copies = (sent ++ attempts, failedCopies attempts) ∧
      attempts.map Sent.copy = copies ∧
      ∀ before attempt rest, attempts = before ++ attempt :: rest →
        (attempt.accepted = true ↔ attempt.copy.1 ∈ ctx.outputSenders ∧
          ctx.accepts (sent ++ before) attempt.copy = true) := by
  induction copies generalizing sent with
  | nil => exact ⟨[], by rw [List.append_nil]; rfl, rfl, fun before _ _ h => by simp at h⟩
  | cons copy rest ih =>
      let attempt : Sent := ⟨copy, ctx.outputSenders.contains copy.1 && ctx.accepts sent copy⟩
      obtain ⟨more, henqueue, hcopies, hanswered⟩ := ih (sent ++ [attempt])
      refine ⟨attempt :: more, ?_, ?_, ?_⟩
      · have hstep : enqueueOutputs ctx sent (copy :: rest) =
            ((enqueueOutputs ctx (sent ++ [attempt]) rest).1,
              if attempt.accepted then (enqueueOutputs ctx (sent ++ [attempt]) rest).2
              else copy :: (enqueueOutputs ctx (sent ++ [attempt]) rest).2) := rfl
        rw [hstep, henqueue, failedCopies_cons, List.append_assoc]
        rfl
      · rw [List.map_cons, hcopies]
      · intro before a rest' hsplit
        cases before with
        | nil =>
            obtain ⟨rfl, -⟩ := List.cons.inj hsplit
            simp only [attempt, List.append_nil, Bool.and_eq_true, List.contains_iff_mem]
        | cons first before =>
            obtain ⟨rfl, hmore⟩ := List.cons.inj hsplit
            have hlater := hanswered before a rest' hmore
            rwa [List.append_assoc, List.singleton_append] at hlater

variable (ctx) in
/-- A run that has errored stays errored, and only records of outputs are added. -/
theorem enqueuePipelineOutputs_errored {result : PipelineRunResult}
    (hresult : result.termination = .errored) (pipelineName : String) (sent : List Sent) :
    (enqueuePipelineOutputs ctx pipelineName result sent).1.termination = .errored ∧
      (enqueuePipelineOutputs ctx pipelineName result sent).1.errored.filter
        ErroredEventContext.isProcess = result.errored.filter ErroredEventContext.isProcess ∧
      (enqueuePipelineOutputs ctx pipelineName result sent).2 =
        (enqueueOutputs ctx sent result.outputs).1 := by
  have hnone : ∀ failed : List OutputCopy, (failed.map (enqueueRecord pipelineName)).filter
      ErroredEventContext.isProcess = [] := by
    intro failed
    refine List.filter_eq_nil_iff.mpr fun record hrecord => ?_
    obtain ⟨copy, -, rfl⟩ := List.mem_map.mp hrecord
    exact Bool.false_ne_true
  unfold enqueuePipelineOutputs
  dsimp only
  split
  · exact ⟨hresult, rfl, rfl⟩
  · exact ⟨rfl, by rw [List.filter_append, hnone, List.append_nil], rfl⟩

/-- All records are handed to the error log; only the count of unwritten ones can change. -/
theorem writeAll_spec (metrics : PipelineMetrics) (recorded : List Recorded)
    (records : List ErroredEventContext) :
    (∃ unwritable, (writeAll ctx metrics recorded records).1 =
      { metrics with eventsErroredUnwritable := unwritable }) ∧
    ∃ more, (writeAll ctx metrics recorded records).2 = recorded ++ more ∧
      more.map Recorded.record = records := by
  induction records generalizing metrics recorded with
  | nil => exact ⟨⟨_, rfl⟩, [], (List.append_nil _).symm, rfl⟩
  | cons record rest ih =>
      have hwrite : (∃ unwritable, (writeErroredToDlq ctx metrics recorded record).1 =
          { metrics with eventsErroredUnwritable := unwritable }) ∧
          ∃ written, (writeErroredToDlq ctx metrics recorded record).2 =
            recorded ++ [⟨record, written⟩] := by
        unfold writeErroredToDlq
        split
        · dsimp only
          split
          · exact ⟨⟨_, rfl⟩, _, rfl⟩
          · exact ⟨⟨_, rfl⟩, _, rfl⟩
        · exact ⟨⟨_, rfl⟩, _, rfl⟩
      obtain ⟨⟨unwritable, hmetrics⟩, written, hrecorded⟩ := hwrite
      obtain ⟨⟨unwritable', hmetrics'⟩, more, hmore, hrecords⟩ :=
        ih { metrics with eventsErroredUnwritable := unwritable } (recorded ++ [⟨record, written⟩])
      have hall : writeAll ctx metrics recorded (record :: rest) =
          writeAll ctx { metrics with eventsErroredUnwritable := unwritable }
            (recorded ++ [⟨record, written⟩]) rest := by
        rw [← hmetrics, ← hrecorded]
        rfl
      rw [hall]
      refine ⟨⟨unwritable', hmetrics'⟩, ⟨record, written⟩ :: more, ?_, ?_⟩
      · rw [hmore, List.append_assoc, List.singleton_append]
      · rw [List.map_cons, hrecords]

variable (ctx) in
theorem enqueuePipelineOutputs_sent (pipelineName : String) (result : PipelineRunResult)
    (sent : List Sent) : (enqueuePipelineOutputs ctx pipelineName result sent).2 =
      (enqueueOutputs ctx sent result.outputs).1 := by
  unfold enqueuePipelineOutputs
  dsimp only
  split <;> rfl

/-- What is left to do after the run: it is counted, and its records are handed over. -/
theorem processWorker_settled {event : OwnedEvent} {worker ran : PipelineWorker}
    {shared between : Shared World} {result : Except String PipelineRunResult}
    (hrun : runPipelineWithOutputsInner ctx worker.started event shared =
      some (result, ran, between)) {metrics : PipelineMetrics} {records : List ErroredEventContext}
    (hsettle : settle ran.pipeline.name event ran.metrics result = (metrics, records)) :
    ∃ unwritable more, processWorker ctx event worker shared =
        some ({ ran with
            metrics :=
              { metrics with
                eventsErroredUnwritable := unwritable
                inflight := metrics.inflight - 1 } },
          { between with recorded := between.recorded ++ more }) ∧
      more.map Recorded.record = records := by
  obtain ⟨⟨unwritable, hmetrics⟩, more, hmore, hmap⟩ :=
    @writeAll_spec _ ctx metrics between.recorded records
  refine ⟨unwritable, more, ?_, hmap⟩
  unfold processWorker
  rw [hrun]
  dsimp only
  rw [hsettle]
  dsimp only
  rw [hmetrics, hmore]

/-! ## Failing runs -/

/-- A run that is counted as errored and leaves one record of the pipeline is handled as a failure
should be, except for what was enqueued. -/
theorem processWorker_errored {event : OwnedEvent} {worker ran : PipelineWorker}
    {shared between : Shared World} {result : Except String PipelineRunResult}
    (hrun : runPipelineWithOutputsInner ctx worker.started event shared =
      some (result, ran, between))
    (hmetrics : ran.metrics = worker.started.metrics) (hshared : between.recorded = shared.recorded)
    {records : List ErroredEventContext}
    (hsettle : settle ran.pipeline.name event ran.metrics result =
      ({ ran.metrics with eventsErrored := ran.metrics.eventsErrored + 1 }, records))
    {site reason : String} (hrecords : records.filter ErroredEventContext.isProcess =
      [arrivalRecord worker.pipeline.name site reason event]) :
    ∃ next after, processWorker ctx event worker shared = some (next, after) ∧
      ∀ copies, FailureHandled event copies worker next shared after ↔
        ∃ sent, between.sent = shared.sent ++ sent ∧ sent.map Sent.copy = copies := by
  obtain ⟨unwritable, more, hworker, hmap⟩ := processWorker_settled hrun hsettle
  rw [hshared] at hworker
  refine ⟨_, _, hworker, fun copies => ?_⟩
  dsimp only
  rw [hmetrics]
  constructor
  · intro h
    exact h.enqueued
  · intro h
    refine ⟨h, rfl, rfl, rfl, rfl, rfl, ?_, more, rfl, site, reason, ?_⟩
    · exact add_sub_cancel_right _ _
    · rw [hmap, hrecords]

/-- The run of a worker that returns. -/
theorem runInner_of_ok {event : OwnedEvent} {worker : PipelineWorker} {shared : Shared World}
    {result : PipelineRunResult} {world : World} {counters : List ProcessCounters}
    (hrun : runPipelineBlueprintResolvedAt (worker.execCtx ctx event)
      (shared.world, worker.processCounters) = some (.ok result, (world, counters))) :
    runPipelineWithOutputsInner ctx worker.started event shared =
      some (.ok (enqueuePipelineOutputs ctx worker.pipeline.name result shared.sent).1,
        { worker.started with processCounters := counters },
        { shared with
          world := world
          sent := (enqueuePipelineOutputs ctx worker.pipeline.name result shared.sent).2 }) := by
  have hstarted : runPipelineBlueprintResolvedAt (worker.started.execCtx ctx event)
      (shared.world, worker.started.processCounters) = some (.ok result, (world, counters)) := hrun
  unfold runPipelineWithOutputsInner
  rw [hstarted]
  rfl

/-- The run of a worker whose pipeline body fails. -/
theorem runInner_of_error {event : OwnedEvent} {worker : PipelineWorker} {shared : Shared World}
    {message : String} {world : World} {counters : List ProcessCounters}
    (hrun : runPipelineBlueprintResolvedAt (worker.execCtx ctx event)
      (shared.world, worker.processCounters) = some (.error message, (world, counters))) :
    runPipelineWithOutputsInner ctx worker.started event shared =
      some (.error message, { worker.started with processCounters := counters },
        { shared with world := world }) := by
  have hstarted : runPipelineBlueprintResolvedAt (worker.started.execCtx ctx event)
      (shared.world, worker.started.processCounters) =
        some (.error message, (world, counters)) := hrun
  unfold runPipelineWithOutputsInner
  rw [hstarted]

/-- A failure that leaves its record in the run is handled as it should be. -/
theorem handled_of_recorded {event : OwnedEvent} {worker : PipelineWorker} {shared : Shared World}
    {copies : List OutputCopy} {hadOutputs : Bool} {world : World}
    {counters : List ProcessCounters} {site reason : String}
    (hrun : runPipelineBlueprintResolvedAt (worker.execCtx ctx event)
      (shared.world, worker.processCounters) =
        some (.ok ⟨copies, hadOutputs, .errored,
          [arrivalRecord worker.pipeline.name site reason event]⟩, (world, counters))) :
    ∃ next after, processWorker ctx event worker shared = some (next, after) ∧
      FailureHandled event copies worker next shared after := by
  let result : PipelineRunResult := ⟨copies, hadOutputs, .errored,
    [arrivalRecord worker.pipeline.name site reason event]⟩
  have herrored : result.termination = .errored := rfl
  obtain ⟨htermination, hprocess, hsent⟩ :=
    enqueuePipelineOutputs_errored ctx herrored worker.pipeline.name shared.sent
  obtain ⟨next, after, hworker, hhandled⟩ := processWorker_errored (runInner_of_ok hrun) rfl rfl
    (by unfold settle; dsimp only; rw [htermination]) hprocess
  obtain ⟨attempts, henqueue, hcopies, -⟩ := enqueueOutputs_attempts ctx shared.sent copies
  have hmore : (enqueueOutputs ctx shared.sent copies).1 = shared.sent ++ attempts := by
    rw [henqueue]
  exact ⟨next, after, hworker, (hhandled copies).mpr ⟨attempts, hsent.trans hmore, hcopies⟩⟩

/-- **Failures are handled alike, unless the body itself fails.**  In any state, a run that fails
is handled as it should be exactly when the failing step is not one of the body itself or no copy
had been made. -/
theorem failure_handled_iff (event : OwnedEvent) (worker : PipelineWorker) (shared : Shared World)
    {executed : List Executed} {failure : Failure} {machine : Machine World}
    (hreach : (worker.execCtx ctx event).reach (shared.world, worker.processCounters) =
      some ((executed, .failed failure), machine)) :
    ∃ next after, processWorker ctx event worker shared = some (next, after) ∧
      (FailureHandled event (executed.map (worker.execCtx ctx event).copyOf) worker next shared
          after ↔
        ¬ failure.inBody ∨ executed = []) := by
  obtain ⟨world, counters⟩ := machine
  have hrun := IrPipelineExecCtx.run_reach (worker.execCtx ctx event)
    (shared.world, worker.processCounters)
  rw [hreach] at hrun
  cases failure with
  | process site reason =>
      obtain ⟨next, after, hworker, hhandled⟩ := handled_of_recorded hrun
      exact ⟨next, after, hworker, iff_of_true hhandled (Or.inl fun h => h)⟩
  | error reason =>
      obtain ⟨next, after, hworker, hhandled⟩ := handled_of_recorded hrun
      exact ⟨next, after, hworker, iff_of_true hhandled (Or.inl fun h => h)⟩
  | body reason =>
      obtain ⟨next, after, hworker, hhandled⟩ :=
        processWorker_errored (runInner_of_error hrun) rfl rfl rfl rfl
      refine ⟨next, after, hworker, (hhandled _).trans ⟨fun h => ?_, fun h => ?_⟩⟩
      · -- nothing was handed to the queues
        obtain ⟨sent, hsent, hcopies⟩ := h
        have hnone : sent = [] := List.self_eq_append_right.mp hsent
        rw [hnone] at hcopies
        exact Or.inr (List.map_eq_nil_iff.mp hcopies.symm)
      · rcases h with h | rfl
        · exact absurd trivial h
        · exact ⟨[], (List.append_nil _).symm, rfl⟩

/-! ## Examples -/

/-- One output with a queue, and no built-in functions. -/
def archiveContext (rt : Runtime) : PipelineContext Unit where
  rt := rt
  funcs := ⟨fun _ => none, fun _ => false, fun _ => none, fun _ => none⟩
  outputSenders := ["archive"]
  accepts _ _ := true
  diskOutputs := []
  errorLog := some fun _ _ => true
  depth := 0

/-- `output archive`, and then some statement. -/
def archiveThen (statement : PipelineCode) : PipelineWorker where
  processBodies := []
  pipeline := ⟨"audit", [.output "archive" 0, statement], [], ["archive"]⟩
  metrics := ⟨0, 0, 0, 0, 0, 0, 0⟩
  processCounters := []

/-- An event of one byte. -/
def oneByteEvent : OwnedEvent :=
  ⟨7, 0, .v4 .localhost 514, [65], [65], [], none⟩

/-- The copy for the archive. -/
def archived : OutputCopy := ("archive", oneByteEvent)

theorem failure_handled_archive :
    [archived] ≠ [] ∧ ∀ rt, ∃ next after,
      processWorker (archiveContext rt) oneByteEvent (archiveThen (.error none)) ⟨(), [], []⟩ =
          some (next, after) ∧
        FailureHandled oneByteEvent [archived] (archiveThen (.error none)) next ⟨(), [], []⟩
          after := by
  refine ⟨List.cons_ne_nil _ _, fun rt => ?_⟩
  have hreach : ((archiveThen (.error none)).execCtx (archiveContext rt) oneByteEvent).reach
      ((), []) = some (([⟨"archive", oneByteEvent.viewIn⟩],
        .failed (.error "explicit error routing")), ((), [])) := rfl
  obtain ⟨next, after, hworker, hhandled⟩ :=
    failure_handled_iff oneByteEvent (archiveThen (.error none)) ⟨(), [], []⟩ hreach
  exact ⟨next, after, hworker, hhandled.mpr (Or.inl fun h => h)⟩

/-- `output archive`, and then `if nope { }`. -/
def archiveThenIf : PipelineWorker := archiveThen (.ifChain [(.ident ["nope"], [])] none)

theorem archived_copy_lost :
    archiveThenIf.pipeline.code =
        [.output "archive" 0, .ifChain [(.ident ["nope"], [])] none] ∧ ∀ rt,
      (archiveThenIf.execCtx (archiveContext rt) oneByteEvent).reach ((), []) =
          some (([⟨"archive", oneByteEvent.viewIn⟩],
            .failed (.body "unknown identifier: nope")), ((), [])) ∧
        ∃ next after,
          processWorker (archiveContext rt) oneByteEvent archiveThenIf ⟨(), [], []⟩ =
              some (next, after) ∧
            after.sent = [] ∧
            ¬ FailureHandled oneByteEvent [archived] archiveThenIf next ⟨(), [], []⟩ after := by
  refine ⟨rfl, fun rt => ⟨rfl, _, _, rfl, rfl, fun h => ?_⟩⟩
  obtain ⟨sent, hsent, hcopies⟩ := h.enqueued
  have hnone : sent = [] := List.self_eq_append_right.mp hsent
  rw [hnone] at hcopies
  exact absurd hcopies (List.cons_ne_nil _ _).symm

end Limpid.Pipeline
