import Limpid.Pipeline.Failure

/-!
# Accounting for an event

What one call of `process_event_at` does for every pipeline of the input.  The run of a pipeline is
described by `reach`, which lists the `output` statements executed with the events as they were
there.  What is handed to a queue for such a statement, and what the record of a failed enqueue
says, is written out in terms of that event (`copyOf`, `Attempt.record`).

* `enqueueOutputs_attempts`: each copy is handed to its output once and in order, and the ones that
  were not taken are the failed ones;
* `settle_enqueued`: one counter goes up, which is `eventsErrored` if an enqueue failed;
* `worker_accounted`: the account of one pipeline, and `process_event_accounted` of all of them.
-/

namespace Limpid.Pipeline

open Dsl Eval Reach

variable {World : Type}

/-! ## The account of one pipeline -/

/-- How an event leaves a pipeline. -/
inductive Terminal where
  | dropped | errored | finished | discarded
deriving DecidableEq

namespace PipelineMetrics

/-- The counter of a way to end. -/
def count (metrics : PipelineMetrics) : Terminal → ℕ
  | .dropped => metrics.eventsDropped
  | .errored => metrics.eventsErrored
  | .finished => metrics.eventsFinished
  | .discarded => metrics.eventsDiscarded

/-- The counter of a way to end is one more. -/
def incremented (metrics : PipelineMetrics) : Terminal → PipelineMetrics
  | .dropped => { metrics with eventsDropped := metrics.eventsDropped + 1 }
  | .errored => { metrics with eventsErrored := metrics.eventsErrored + 1 }
  | .finished => { metrics with eventsFinished := metrics.eventsFinished + 1 }
  | .discarded => { metrics with eventsDiscarded := metrics.eventsDiscarded + 1 }

theorem count_incremented (metrics : PipelineMetrics) (terminal t : Terminal) :
    (metrics.incremented terminal).count t = metrics.count t + if t = terminal then 1 else 0 := by
  cases terminal <;> cases t <;> rfl

theorem incremented_received (metrics : PipelineMetrics) (terminal : Terminal) :
    (metrics.incremented terminal).eventsReceived = metrics.eventsReceived := by
  cases terminal <;> rfl

theorem incremented_inflight (metrics : PipelineMetrics) (terminal : Terminal) :
    (metrics.incremented terminal).inflight = metrics.inflight := by
  cases terminal <;> rfl

end PipelineMetrics

/-- What a run that executed some outputs is counted as when every enqueue succeeds. -/
def Outcome.terminal (executed : List Executed) : Outcome → Terminal
  | .next _ | .finished => if executed.isEmpty then .discarded else .finished
  | .dropped => .dropped
  | .failed _ => .errored

/-- The run failed in the body itself. -/
def Outcome.inBody : Outcome → Prop
  | .failed failure => failure.inBody
  | _ => False

/-- The record of a run that fails: where and why, with the event as it came in. -/
def Outcome.failureRecords (pipelineName : String) (event : OwnedEvent) :
    Outcome → List ErroredEventContext
  | .failed (.process site reason) => [arrivalRecord pipelineName site reason event]
  | .failed (.error reason) => [arrivalRecord pipelineName "(pipeline)" reason event]
  | .failed (.body reason) => [arrivalRecord pipelineName "(pipeline body)" reason event]
  | _ => []

/-- An enqueue: the `output` statement it was made for, and whether the copy was taken. -/
structure Attempt where
  executed : Executed
  accepted : Bool

namespace Attempt

/-- The record of an enqueue that failed.  It names the output, and what it keeps of the event is
as the event was at the statement. -/
def record (pipelineName : String) (attempt : Attempt) : ErroredEventContext :=
  .output pipelineName (attempt.executed.output ++ " enqueue")
    "output enqueue failed (queue closed, disk write error, or unknown output)"
    attempt.executed.output
    { key := attempt.executed.event.key
      source := attempt.executed.event.source
      receivedAt := attempt.executed.event.receivedAt
      ingress := attempt.executed.event.ingress
      egress := attempt.executed.event.egress
      ltpStamps := attempt.executed.event.ltpStamps }

/-- The enqueues that failed. -/
def failures (attempts : List Attempt) : List Attempt :=
  attempts.filter fun attempt => !attempt.accepted

end Attempt

/-- What the queue is given for an attempt. -/
def IrPipelineExecCtx.handedOver (run : IrPipelineExecCtx World) (attempt : Attempt) : Sent :=
  ⟨run.copyOf attempt.executed, attempt.accepted⟩

/-- What a pipeline has done with an event: `executed` lists its `output` statements with the event
as it was there, and `attempts` the enqueues with the statements they were made for.  An attempt
succeeds if the output has a queue and the queue, which has been given all before, takes the
copy. -/
structure Accounted (ctx : PipelineContext World) (event : OwnedEvent)
    (worker next : PipelineWorker) (shared after : Shared World) (executed : List Executed)
    (outcome : Outcome) (attempts : List Attempt) (terminal : Terminal) : Prop where
  reached : ∃ machine, (worker.execCtx ctx event).reach
    (shared.world, worker.processCounters) = some ((executed, outcome), machine)
  attempted : ¬ outcome.inBody → attempts.map Attempt.executed = executed
  unattempted : outcome.inBody → attempts = []
  sent : after.sent = shared.sent ++ attempts.map (worker.execCtx ctx event).handedOver
  answered : ∀ before attempt rest, attempts = before ++ attempt :: rest →
    (attempt.accepted = true ↔ attempt.executed.output ∈ ctx.outputSenders ∧
      ctx.accepts (shared.sent ++ before.map (worker.execCtx ctx event).handedOver)
        ((worker.execCtx ctx event).copyOf attempt.executed) = true)
  recorded : ∃ recorded, after.recorded = shared.recorded ++ recorded ∧
    recorded.map Recorded.record = outcome.failureRecords worker.pipeline.name event ++
      (Attempt.failures attempts).map (Attempt.record worker.pipeline.name)
  received : next.metrics.eventsReceived = worker.metrics.eventsReceived + 1
  counted : ∀ t, next.metrics.count t = worker.metrics.count t + if t = terminal then 1 else 0
  terminal_eq : terminal =
    if (Attempt.failures attempts).isEmpty then outcome.terminal executed else .errored
  inflight : next.metrics.inflight = worker.metrics.inflight

/-! ## Enqueueing -/

variable {ctx : PipelineContext World}

/-- How a result is counted once its copies are handed over. -/
def PipelineRunResult.terminal (result : PipelineRunResult) : Terminal :=
  match result.termination with
  | .dropped => .dropped
  | .errored => .errored
  | .finished => if result.hadOutputs then .finished else .discarded

/-- A failed enqueue makes the run count as errored, whatever its termination was. -/
theorem settle_enqueued {result : PipelineRunResult}
    (hrecords : result.termination ≠ .errored → result.errored = []) (pipelineName : String)
    (event : OwnedEvent) (metrics : PipelineMetrics) (sent : List Sent) :
    settle pipelineName event metrics
        (.ok (enqueuePipelineOutputs ctx pipelineName result sent).1) =
      (metrics.incremented (if (enqueueOutputs ctx sent result.outputs).2 = [] then result.terminal
          else .errored),
        result.errored ++
          (enqueueOutputs ctx sent result.outputs).2.map (enqueueRecord pipelineName)) := by
  unfold enqueuePipelineOutputs
  dsimp only
  split
  case h_1 hnone =>
      rw [hnone, if_pos rfl, List.map_nil, List.append_nil]
      unfold settle PipelineRunResult.terminal
      dsimp only
      cases hend : result.termination with
      | finished =>
          rw [hrecords (by rw [hend]; decide)]
          cases result.hadOutputs <;> rfl
      | dropped => rw [hrecords (by rw [hend]; decide)]; rfl
      | errored => rfl
  case h_2 hsome =>
      rw [if_neg hsome]
      rfl

/-! ## One worker -/

/-- The attempts behind what was handed over. -/
theorem exists_attempts (run : IrPipelineExecCtx World) {handed : List Sent}
    {executed : List Executed} (h : handed.map Sent.copy = executed.map run.copyOf) :
    ∃ attempts : List Attempt, attempts.map Attempt.executed = executed ∧
      handed = attempts.map run.handedOver := by
  induction executed generalizing handed with
  | nil => exact ⟨[], rfl, List.map_eq_nil_iff.mp h⟩
  | cons statement rest ih =>
      obtain ⟨first, more, rfl, hfirst, hmore⟩ := List.map_eq_cons_iff.mp h
      obtain ⟨attempts, hexecuted, rfl⟩ := ih hmore
      refine ⟨⟨statement, first.accepted⟩ :: attempts, by rw [List.map_cons, hexecuted], ?_⟩
      rw [List.map_cons]
      congr 1
      unfold IrPipelineExecCtx.handedOver
      rw [← hfirst]

/-- The record of a copy that was not taken is that of the attempt. -/
theorem enqueueRecord_copyOf (run : IrPipelineExecCtx World) (pipelineName : String)
    (attempt : Attempt) :
    enqueueRecord pipelineName (run.copyOf attempt.executed) = attempt.record pipelineName := rfl

theorem failedCopies_handedOver (run : IrPipelineExecCtx World) (pipelineName : String)
    (attempts : List Attempt) :
    (failedCopies (attempts.map run.handedOver)).map (enqueueRecord pipelineName) =
      (Attempt.failures attempts).map (Attempt.record pipelineName) := by
  unfold failedCopies Attempt.failures
  rw [List.filter_map, List.map_map, List.map_map]
  refine List.map_congr_left fun attempt _ => ?_
  exact enqueueRecord_copyOf run pipelineName attempt

theorem failedCopies_eq_nil_iff (run : IrPipelineExecCtx World) (attempts : List Attempt) :
    failedCopies (attempts.map run.handedOver) = [] ↔ (Attempt.failures attempts).isEmpty := by
  unfold failedCopies Attempt.failures
  rw [List.filter_map, List.map_map, List.map_eq_nil_iff, List.isEmpty_iff]
  rfl

variable (ctx) in
/-- What becomes of the copies of a run that is not an error. -/
theorem enqueueOutputs_executed (run : IrPipelineExecCtx World) (sent : List Sent)
    (executed : List Executed) :
    ∃ attempts : List Attempt, enqueueOutputs ctx sent (executed.map run.copyOf) =
        (sent ++ attempts.map run.handedOver, failedCopies (attempts.map run.handedOver)) ∧
      attempts.map Attempt.executed = executed ∧
      ∀ before attempt rest, attempts = before ++ attempt :: rest →
        (attempt.accepted = true ↔ attempt.executed.output ∈ ctx.outputSenders ∧
          ctx.accepts (sent ++ before.map run.handedOver) (run.copyOf attempt.executed) = true) := by
  obtain ⟨handed, henqueue, hcopies, hanswered⟩ :=
    enqueueOutputs_attempts ctx sent (executed.map run.copyOf)
  obtain ⟨attempts, hexecuted, rfl⟩ := exists_attempts run hcopies
  refine ⟨attempts, henqueue, hexecuted, ?_⟩
  rintro before attempt rest rfl
  exact hanswered (before.map run.handedOver) (run.handedOver attempt) (rest.map run.handedOver)
    (by rw [List.map_append, List.map_cons])

/-- What a run returns when it has not failed in the body itself. -/
theorem returned_of_not_inBody (run : IrPipelineExecCtx World) {outcome : Outcome}
    (h : ¬ outcome.inBody) (executed : List Executed) :
    ∃ event termination, IrPipelineExecCtx.returned outcome = .ok (event, termination) ∧
      (termination ≠ .errored → run.records outcome = []) ∧
      outcome.failureRecords run.pipeline.name run.originalEvent = run.records outcome ∧
      (⟨executed.map run.copyOf, !executed.isEmpty, termination, run.records outcome⟩ :
        PipelineRunResult).terminal = outcome.terminal executed := by
  cases outcome with
  | next event => exact ⟨_, _, rfl, fun _ => rfl, rfl, by cases executed <;> rfl⟩
  | finished => exact ⟨_, _, rfl, fun _ => rfl, rfl, by cases executed <;> rfl⟩
  | dropped => exact ⟨_, _, rfl, fun _ => rfl, rfl, rfl⟩
  | failed failure =>
      cases failure with
      | process site reason => exact ⟨_, _, rfl, fun h => absurd rfl h, rfl, rfl⟩
      | error reason => exact ⟨_, _, rfl, fun h => absurd rfl h, rfl, rfl⟩
      | body reason => exact absurd trivial h

variable (ctx) in
/-- The account of a run that fails in the body itself: nothing is handed over. -/
theorem accounted_of_inBody (event : OwnedEvent) (worker : PipelineWorker) (shared : Shared World)
    {executed : List Executed} {reason : String} {machine : Machine World}
    (hreach : (worker.execCtx ctx event).reach
      (shared.world, worker.processCounters) = some ((executed, .failed (.body reason)), machine)) :
    ∃ next after, processWorker ctx event worker shared = some (next, after) ∧
      Accounted ctx event worker next shared after executed (.failed (.body reason)) []
        .errored := by
  obtain ⟨world, counters⟩ := machine
  have hrun := (worker.execCtx ctx event).run_reach (shared.world, worker.processCounters)
  rw [hreach] at hrun
  obtain ⟨unwritable, more, hworker, hmore⟩ := processWorker_settled (runInner_of_error hrun) rfl
  refine ⟨_, _, hworker, ⟨_, hreach⟩, fun h => absurd trivial h, fun _ => rfl, ?_, ?_, ?_, rfl, ?_,
    rfl, ?_⟩
  · exact (List.append_nil _).symm
  · exact fun before _ _ h => by simp at h
  · exact ⟨more, rfl, hmore⟩
  · exact fun t => PipelineMetrics.count_incremented worker.started.metrics .errored t
  · exact add_sub_cancel_right _ _

variable (ctx) in
/-- The account of any other run. -/
theorem accounted_of_not_inBody (event : OwnedEvent) (worker : PipelineWorker)
    (shared : Shared World) {executed : List Executed} {outcome : Outcome}
    {machine : Machine World} (hbody : ¬ outcome.inBody)
    (hreach : (worker.execCtx ctx event).reach
      (shared.world, worker.processCounters) = some ((executed, outcome), machine)) :
    ∃ next after attempts terminal, processWorker ctx event worker shared = some (next, after) ∧
      Accounted ctx event worker next shared after executed outcome attempts terminal := by
  obtain ⟨world, counters⟩ := machine
  let run := worker.execCtx ctx event
  have hrun := run.run_reach (shared.world, worker.processCounters)
  obtain ⟨last, termination, hreturned, hnone, hfailure, hterminal⟩ :=
    returned_of_not_inBody run hbody executed
  rw [hreach] at hrun
  simp only [Option.map_some, hreturned, Except.map] at hrun
  obtain ⟨attempts, henqueue, hexecuted, hanswered⟩ :=
    enqueueOutputs_executed ctx run shared.sent executed
  let result : PipelineRunResult := ⟨executed.map run.copyOf, !executed.isEmpty, termination,
    run.records outcome⟩
  let terminal :=
    if (Attempt.failures attempts).isEmpty then outcome.terminal executed else .errored
  have hsettle : settle worker.pipeline.name event worker.started.metrics
      (.ok (enqueuePipelineOutputs ctx worker.pipeline.name result shared.sent).1) =
        (worker.started.metrics.incremented terminal,
          outcome.failureRecords worker.pipeline.name event ++
            (Attempt.failures attempts).map (Attempt.record worker.pipeline.name)) := by
    have hrecords : outcome.failureRecords worker.pipeline.name event = result.errored := hfailure
    rw [settle_enqueued hnone, henqueue, hterminal, hrecords]
    dsimp only
    rw [failedCopies_handedOver]
    simp only [terminal, failedCopies_eq_nil_iff]
  have hsent : (enqueuePipelineOutputs ctx worker.pipeline.name result shared.sent).2 =
      shared.sent ++ attempts.map run.handedOver := by
    rw [enqueuePipelineOutputs_sent, henqueue]
  obtain ⟨unwritable, more, hworker, hmore⟩ := processWorker_settled (runInner_of_ok hrun) hsettle
  refine ⟨_, _, attempts, terminal, hworker, ⟨_, hreach⟩, fun _ => hexecuted,
    fun h => absurd h hbody, hsent, hanswered, ⟨more, rfl, hmore⟩, ?_, ?_, rfl, ?_⟩
  · exact PipelineMetrics.incremented_received _ terminal
  · exact fun t => PipelineMetrics.count_incremented worker.started.metrics terminal t
  · exact (congrArg (· - 1) (PipelineMetrics.incremented_inflight _ terminal)).trans
      (add_sub_cancel_right _ _)

variable (ctx) in
/-- **The account of one pipeline.** -/
theorem worker_accounted (event : OwnedEvent) (worker : PipelineWorker) (shared : Shared World)
    {executed : List Executed} {outcome : Outcome} {machine : Machine World}
    (hreach : (worker.execCtx ctx event).reach
      (shared.world, worker.processCounters) = some ((executed, outcome), machine)) :
    ∃ next after attempts terminal, processWorker ctx event worker shared = some (next, after) ∧
      Accounted ctx event worker next shared after executed outcome attempts terminal := by
  by_cases hbody : outcome.inBody
  · obtain ⟨reason, rfl⟩ : ∃ reason, outcome = .failed (.body reason) := by
      rcases outcome with _ | _ | _ | ⟨_ | _ | reason⟩
      all_goals first | exact ⟨reason, rfl⟩ | exact absurd hbody fun h => h
    obtain ⟨next, after, hworker, haccounted⟩ := accounted_of_inBody ctx event worker shared hreach
    exact ⟨next, after, [], .errored, hworker, haccounted⟩
  · exact accounted_of_not_inBody ctx event worker shared hbody hreach

/-! ## Every pipeline of the input -/

/-- One pipeline after another, on the same event. -/
inductive AllAccounted (ctx : PipelineContext World) (event : OwnedEvent) :
    List PipelineWorker → Shared World → List PipelineWorker → Shared World → Prop where
  | nil (shared : Shared World) : AllAccounted ctx event [] shared [] shared
  | cons {worker next : PipelineWorker} {rest rest' : List PipelineWorker}
      {shared between after : Shared World} {executed : List Executed} {outcome : Outcome}
      {attempts : List Attempt} {terminal : Terminal}
      (first : Accounted ctx event worker next shared between executed outcome attempts terminal)
      (others : AllAccounted ctx event rest between rest' after) :
      AllAccounted ctx event (worker :: rest) shared (next :: rest') after

/-- **Exact accounting.**  One call accounts for the event in every pipeline, unless the run of a
pipeline does not return. -/
theorem process_event_accounted (ctx : PipelineContext World) (event : OwnedEvent)
    (workers : List PipelineWorker) (shared : Shared World) :
    (∃ workers' after, processEventAt ctx event workers shared = some (workers', after) ∧
        AllAccounted ctx event workers shared workers' after) ∨
      ∃ worker ∈ workers, ∃ world,
        (worker.execCtx ctx event).reach (world, worker.processCounters) = none := by
  induction workers generalizing shared with
  | nil => exact Or.inl ⟨[], shared, rfl, .nil shared⟩
  | cons worker rest ih =>
      cases hreach : (worker.execCtx ctx event).reach
          (shared.world, worker.processCounters) with
      | none =>
          exact Or.inr ⟨worker, List.mem_cons_self, shared.world, hreach⟩
      | some reached =>
          obtain ⟨⟨executed, outcome⟩, machine⟩ := reached
          obtain ⟨next, between, attempts, terminal, hworker, haccounted⟩ :=
            worker_accounted ctx event worker shared hreach
          rcases ih between with ⟨rest', after, hrest, hall⟩ | ⟨other, hother, hnone⟩
          · refine Or.inl ⟨next :: rest', after, ?_, .cons haccounted hall⟩
            unfold processEventAt
            rw [hworker]
            dsimp only
            rw [hrest]
          · exact Or.inr ⟨other, List.mem_cons_of_mem _ hother, hnone⟩

end Limpid.Pipeline
