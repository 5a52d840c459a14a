import Limpid.Pipeline.Process

/-!
# Pipelines

The interpreter of pipeline bodies (`pipeline/execution.rs`).  Copies made by `output` statements
and records for the error log are collected in a state of their own, `PipelineExecOut`.  An error
leaves what has been collected there; `runPipelineBlueprintResolvedAt` does not return it then.

The timestamps of copies and records are left out.
-/

namespace Limpid.Pipeline

open Dsl Eval

/-- `PipelineCode`: the statements of a compiled pipeline. -/
inductive PipelineCode where
  | input (names : List String)
  | processChain (sites : List ProcessSite)
  | output (name : String) (timerSlot : OutputTimerSlot)
  | drop
  | finish
  | error (message : Option Expr)
  | ifChain (branches : List (Expr × List PipelineCode)) (elseBody : Option (List PipelineCode))
  | switch (discriminant : Expr) (arms : List (Option Expr × List PipelineCode))

/-- What a run reads of a `PipelineBlueprint`. -/
structure PipelineBlueprint where
  name : String
  code : List PipelineCode
  metricNodes : List MetricNodeDescriptor
  outputTimers : List String

/-- `PipelineTermination`. -/
inductive PipelineTermination where
  | finished | dropped | errored
deriving DecidableEq

/-- What a record keeps of an event that a pipeline failed on. -/
structure ProcessEvent where
  key : Uuid
  source : Net.SocketAddr
  receivedAt : Timestamp
  ingress : Bytes
  ltpStamps : Option (List Ltp.HopStamp)

/-- What a record of a failed process keeps of the event. -/
def ProcessEvent.fromOwned (event : OwnedEvent) : ProcessEvent where
  key := event.key
  source := event.source
  receivedAt := event.receivedAt
  ingress := event.ingress
  ltpStamps := event.ltpStamps

/-- What a record keeps of a copy that an output did not take. -/
structure OutputEvent where
  key : Uuid
  source : Net.SocketAddr
  receivedAt : Timestamp
  ingress : Bytes
  egress : Bytes
  ltpStamps : Option (List Ltp.HopStamp)

/-- What a record of a failed output keeps of the event. -/
def OutputEvent.fromOwned (event : OwnedEvent) : OutputEvent where
  key := event.key
  source := event.source
  receivedAt := event.receivedAt
  ingress := event.ingress
  egress := event.egress
  ltpStamps := event.ltpStamps

/-- A record for the error log. -/
inductive ErroredEventContext where
  | process (pipeline site reason : String) (event : ProcessEvent)
  | output (pipeline site reason outputName : String) (event : OutputEvent)

/-- `OutputCapturePolicy`. -/
inductive OutputCapturePolicy where
  | stripAll
  | captureAll
  | diskOnly (disk : List String)

/-- `should_capture_workspace`. -/
def OutputCapturePolicy.shouldCaptureWorkspace (outputName : String) :
    OutputCapturePolicy → Bool
  | .stripAll => false
  | .captureAll => true
  | .diskOnly disk => outputName ∈ disk

/-- A copy for an output. -/
abbrev OutputCopy := String × OwnedEvent

/-- `PipelineExecOut`: the copies and records of a run. -/
structure PipelineExecOut where
  outputs : List OutputCopy
  errored : List ErroredEventContext

namespace PipelineExecOut

/-- Nothing has been output yet. -/
def empty : PipelineExecOut := ⟨[], []⟩

end PipelineExecOut

/-- The state of a run of a pipeline. -/
abbrev RunState (World : Type) := Machine World × PipelineExecOut

/-- A copy for an output. -/
def pushOutput {World : Type} (copy : OutputCopy) : Eval (RunState World) Unit :=
  fun (machine, out) => some (.ok (), (machine, { out with outputs := out.outputs ++ [copy] }))

/-- A record of a failure. -/
def pushErrored {World : Type} (record : ErroredEventContext) : Eval (RunState World) Unit :=
  fun (machine, out) => some (.ok (), (machine, { out with errored := out.errored ++ [record] }))

/-- `BoundPipelineExecution` and the `IrPipelineExecCtx` of one run. -/
structure IrPipelineExecCtx (World : Type) where
  registry : IrProcessRegistry World
  pipeline : PipelineBlueprint
  originalEvent : OwnedEvent
  outputCapture : OutputCapturePolicy
  depth : ℕ

namespace IrPipelineExecCtx

variable {World : Type} (ctx : IrPipelineExecCtx World)

/-- `eval_expr`. -/
def evalExpr (event : BorrowedEvent) (e : Expr) : Eval (Machine World) Value :=
  onFst (ctx.registry.evalIn ctx.depth event [] e)

/-- The record of a failure of the pipeline. -/
def record (site reason : String) : ErroredEventContext :=
  .process ctx.pipeline.name site reason (.fromOwned ctx.originalEvent)

/-- The copy of an event for an output. -/
def snapshot (outputName : String) (event : BorrowedEvent) : OwnedEvent :=
  if ctx.outputCapture.shouldCaptureWorkspace outputName then event.toOwned
  else event.toOwnedWithoutWorkspace

/-- The reason in the record of a failed site. -/
def siteReason (kind : SiteKind) (message : String) : String :=
  match kind with
  | .named => processFailed message
  | .inline => message

/-- The text of an `error` statement. -/
def errorMessage (event : BorrowedEvent) : Option Expr → Eval (Machine World) String
  | some e => do
      let value ← ctx.evalExpr event e
      ok (valueToString ctx.registry.rt value)
  | none => ok "explicit error routing"

/-- The processes of a chain, one after another. -/
def execSites (event : BorrowedEvent) :
    List ProcessSite → Eval (RunState World) (Option BorrowedEvent × PipelineTermination)
  | [] => ok (some event, .finished)
  | site :: rest => do
      match ← onFst (attempt
        (ctx.registry.call ctx.depth (.known site.body) site.metricNode event)) with
      | .ok (some event) => execSites event rest
      | .ok none => ok (none, .dropped)
      | .error message => do
          pushErrored (ctx.record site.name (siteReason site.kind message))
          ok (none, .errored)

/-- `output`: a copy is made, and the event goes on. -/
def execOutput (event : BorrowedEvent) (name : String) (timerSlot : OutputTimerSlot) :
    Eval (RunState World) (Option BorrowedEvent × PipelineTermination) :=
  if ctx.pipeline.outputTimers.length ≤ timerSlot then bail "output timer slot is out of range"
  else do
    pushOutput (name, ctx.snapshot name event)
    ok (some event, .finished)

mutual

/-- `exec_ir_pipeline_body`: no event is left when the run of the pipeline has ended. -/
def execIrPipelineBody (event : BorrowedEvent) :
    List PipelineCode → Eval (RunState World) (Option BorrowedEvent × PipelineTermination)
  | [] => ok (some event, .finished)
  | statement :: rest => do
      match ← execPipelineStatement event statement with
      | (some event, _) => execIrPipelineBody event rest
      | (none, termination) => ok (none, termination)

/-- The loop body. -/
def execPipelineStatement (event : BorrowedEvent) :
    PipelineCode → Eval (RunState World) (Option BorrowedEvent × PipelineTermination)
  | .input _ => ok (some event, .finished)
  | .processChain sites => ctx.execSites event sites
  | .output name timerSlot => ctx.execOutput event name timerSlot
  | .drop => ok (none, .dropped)
  | .finish => ok (none, .finished)
  | .error message => do
      let reason ← onFst (ctx.errorMessage event message)
      pushErrored (ctx.record "(pipeline)" reason)
      ok (none, .errored)
  | .ifChain branches none =>
      execPipelineBranches event branches (ok (some event, .finished))
  | .ifChain branches (some elseBody) =>
      execPipelineBranches event branches (execIrPipelineBody event elseBody)
  | .switch discriminant arms => do
      let value ← onFst (ctx.evalExpr event discriminant)
      execPipelineArms event value arms

/-- The body of the first branch whose condition is true. -/
def execPipelineBranches (event : BorrowedEvent) :
    List (Expr × List PipelineCode) →
      Eval (RunState World) (Option BorrowedEvent × PipelineTermination) →
        Eval (RunState World) (Option BorrowedEvent × PipelineTermination)
  | [], otherwise => otherwise
  | (condition, body) :: rest, otherwise => do
      let value ← onFst (ctx.evalExpr event condition)
      if value.isTruthy ctx.registry.rt then execIrPipelineBody event body
      else execPipelineBranches event rest otherwise

/-- The body of the first arm that matches. -/
def execPipelineArms (event : BorrowedEvent) (value : Value) :
    List (Option Expr × List PipelineCode) →
      Eval (RunState World) (Option BorrowedEvent × PipelineTermination)
  | [] => ok (some event, .finished)
  | (none, body) :: _ => execIrPipelineBody event body
  | (some pattern, body) :: rest => do
      let patternValue ← onFst (ctx.evalExpr event pattern)
      if valuesMatch ctx.registry.rt value patternValue then execIrPipelineBody event body
      else execPipelineArms event value rest

end

end IrPipelineExecCtx

/-- `PipelineRunResult`. -/
structure PipelineRunResult where
  outputs : List OutputCopy
  hadOutputs : Bool
  termination : PipelineTermination
  errored : List ErroredEventContext

/-- `run_pipeline_blueprint_resolved_at`: an error of the body is returned as it is. -/
def runPipelineBlueprintResolvedAt {World : Type} (ctx : IrPipelineExecCtx World) :
    Eval (Machine World) PipelineRunResult := fun machine =>
  match ctx.execIrPipelineBody ctx.originalEvent.viewIn ctx.pipeline.code (machine, .empty) with
  | none => none
  | some (.error message, (machine, _)) => some (.error message, machine)
  | some (.ok (_, termination), (machine, out)) =>
      some (.ok ⟨out.outputs, !out.outputs.isEmpty, termination, out.errored⟩, machine)

end Limpid.Pipeline
