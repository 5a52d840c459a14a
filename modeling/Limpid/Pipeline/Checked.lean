import Limpid.Dsl.Concludes
import Limpid.Pipeline.Execution

/-!
# What the interpreter does at places it should not reach

The interpreter reports an index or a name that does not fit as an error, like any other.  Here it
is written once more with what it does there as a parameter, `internal`.  With `bail` it is the
interpreter (`callOr_bail`, `runOr_bail`); a run that ends in the same way whatever `internal` is
reaches none of these places.
-/

namespace Limpid.Pipeline

open Dsl Eval

/-- What is done in place of an internal error with a message. -/
abbrev Internal := ∀ {S α : Type}, String → Eval S α

/-! ## Calls of processes -/

namespace IrProcessRegistry

variable {World : Type} (registry : IrProcessRegistry World) (internal : Internal)

/-- What a call does once its node is found and counted. -/
def runTargetOr (runBody : ProcessBodyCode → BorrowedEvent → Eval (Machine World) ExecResult)
    (target : ProcessTarget) (metricNode : MetricNodeId) (event : BorrowedEvent) :
    Eval (Machine World) (Option BorrowedEvent) :=
  match target with
  | .known bodyId =>
      match registry.processBodies[bodyId]? with
      | none => internal "process body id is out of range"
      | some body => finishCall metricNode (runBody body event)
  | .unknown => finishCall metricNode (ok (.continue event))

/-- `callWith`. -/
def callWithOr (runBody : ProcessBodyCode → BorrowedEvent → Eval (Machine World) ExecResult)
    (target : ProcessTarget) (metricNode : MetricNodeId) (event : BorrowedEvent) :
    Eval (Machine World) (Option BorrowedEvent) := fun machine =>
  match registry.metricNodes[metricNode]? with
  | none => internal "metric node id is out of range" machine
  | some node =>
      if node.target ≠ target then internal "process body and metric node identity mismatch" machine
      else if machine.2.length ≤ metricNode then
        internal "process counter id is out of range" machine
      else
        (do count metricNode .start
            registry.runTargetOr internal runBody target metricNode event :
          Eval (Machine World) (Option BorrowedEvent)) machine

/-- What a call in a body does, given what the call of the child does. -/
def callChildOr (call : ProcessTarget → MetricNodeId → BorrowedEvent →
    Eval (Machine World) (Option BorrowedEvent)) (metricNode : MetricNodeId) (name : String)
    (edgeSlot : EdgeSlot) (event : BorrowedEvent) : Eval (Machine World) (Option BorrowedEvent) :=
  match registry.resolveEdge metricNode name edgeSlot with
  | .error message => internal message
  | .ok (target, child) => do
      match ← attempt (call target child event) with
      | .ok next => ok next
      | .error message => bail (processFailed message)

/-- The run of a body, given what its calls do. -/
def runBody (depth : ℕ) (callProcess : String → EdgeSlot → BorrowedEvent →
    Eval (Machine World) (Option BorrowedEvent)) (body : ProcessBodyCode)
    (event : BorrowedEvent) : Eval (Machine World) ExecResult := do
  let (result, _) ← execIrProcessCode registry.rt (registry.evalIn depth) callProcess event []
    body.code
  ok result

/-- `call`. -/
def callOr : ℕ → ProcessTarget → MetricNodeId → BorrowedEvent →
    Eval (Machine World) (Option BorrowedEvent)
  | 0, target, metricNode, event =>
      registry.callWithOr internal (fun _ _ => diverge) target metricNode event
  | depth + 1, target, metricNode, event =>
      registry.callWithOr internal (registry.runBody (depth + 1)
        (registry.callChildOr internal (callOr depth) metricNode)) target metricNode event

theorem callWithOr_bail
    (runBody : ProcessBodyCode → BorrowedEvent → Eval (Machine World) ExecResult) :
    registry.callWithOr bail runBody = registry.callWith runBody := rfl

/-- A call that fails where the edge is looked up. -/
theorem callChildOr_bail (call : ProcessTarget → MetricNodeId → BorrowedEvent →
    Eval (Machine World) (Option BorrowedEvent)) (metricNode : MetricNodeId) :
    registry.callChildOr bail call metricNode = (fun name edgeSlot event => do
      let (target, child) ← ofExcept (registry.resolveEdge metricNode name edgeSlot)
      match ← attempt (call target child event) with
      | .ok next => ok next
      | .error message => bail (processFailed message)) := by
  funext name edgeSlot event
  unfold callChildOr
  cases registry.resolveEdge metricNode name edgeSlot with
  | error message => rfl
  | ok found => rfl

theorem callOr_bail (depth : ℕ) : registry.callOr bail depth = registry.call depth := by
  induction depth with
  | zero => rfl
  | succ depth ih =>
      funext target metricNode event
      rw [callOr, ih, callChildOr_bail, callWithOr_bail]
      rfl

end IrProcessRegistry

/-! ## Pipeline bodies -/

namespace IrPipelineExecCtx

variable {World : Type} (ctx : IrPipelineExecCtx World)

section Body

variable (sitesWith : BorrowedEvent → List ProcessSite →
    Eval (RunState World) (Option BorrowedEvent × PipelineTermination))
  (outputWith : BorrowedEvent → String → OutputTimerSlot →
    Eval (RunState World) (Option BorrowedEvent × PipelineTermination))

mutual

/-- `exec_ir_pipeline_body`, given what sites and outputs do. -/
def bodyWith (event : BorrowedEvent) :
    List PipelineCode → Eval (RunState World) (Option BorrowedEvent × PipelineTermination)
  | [] => ok (some event, .finished)
  | statement :: rest => do
      match ← statementWith event statement with
      | (some event, _) => bodyWith event rest
      | (none, termination) => ok (none, termination)

/-- A statement of a pipeline, with what chains and outputs do as parameters. -/
def statementWith (event : BorrowedEvent) :
    PipelineCode → Eval (RunState World) (Option BorrowedEvent × PipelineTermination)
  | .input _ => ok (some event, .finished)
  | .processChain sites => sitesWith event sites
  | .output name timerSlot => outputWith event name timerSlot
  | .drop => ok (none, .dropped)
  | .finish => ok (none, .finished)
  | .error message => do
      let reason ← onFst (ctx.errorMessage event message)
      pushErrored (ctx.record "(pipeline)" reason)
      ok (none, .errored)
  | .ifChain branches none => branchesWith event branches (ok (some event, .finished))
  | .ifChain branches (some elseBody) => branchesWith event branches (bodyWith event elseBody)
  | .switch discriminant arms => do
      let value ← onFst (ctx.evalExpr event discriminant)
      armsWith event value arms

def branchesWith (event : BorrowedEvent) :
    List (Expr × List PipelineCode) →
      Eval (RunState World) (Option BorrowedEvent × PipelineTermination) →
        Eval (RunState World) (Option BorrowedEvent × PipelineTermination)
  | [], otherwise => otherwise
  | (condition, body) :: rest, otherwise => do
      let value ← onFst (ctx.evalExpr event condition)
      if value.isTruthy ctx.registry.rt then bodyWith event body
      else branchesWith event rest otherwise

def armsWith (event : BorrowedEvent) (value : Value) :
    List (Option Expr × List PipelineCode) →
      Eval (RunState World) (Option BorrowedEvent × PipelineTermination)
  | [] => ok (some event, .finished)
  | (none, body) :: _ => bodyWith event body
  | (some pattern, body) :: rest => do
      let patternValue ← onFst (ctx.evalExpr event pattern)
      if valuesMatch ctx.registry.rt value patternValue then bodyWith event body
      else armsWith event value rest

end

end Body

mutual

theorem bodyWith_eq : ∀ (code : List PipelineCode) (event : BorrowedEvent),
    ctx.bodyWith ctx.execSites ctx.execOutput event code = ctx.execIrPipelineBody event code
  | [], _ => by rw [bodyWith, execIrPipelineBody]
  | statement :: rest, event => by
      rw [bodyWith, execIrPipelineBody, statementWith_eq statement event]
      congr 1
      funext result
      obtain ⟨next, termination⟩ := result
      cases next with
      | none => rfl
      | some event => exact bodyWith_eq rest event

theorem statementWith_eq : ∀ (statement : PipelineCode) (event : BorrowedEvent),
    ctx.statementWith ctx.execSites ctx.execOutput event statement =
      ctx.execPipelineStatement event statement
  | .ifChain branches none, event => by
      rw [statementWith, execPipelineStatement, branchesWith_eq branches event]
  | .ifChain branches (some elseBody), event => by
      rw [statementWith, execPipelineStatement, branchesWith_eq branches event,
        bodyWith_eq elseBody event]
  | .switch discriminant arms, event => by
      rw [statementWith, execPipelineStatement]
      congr 1
      funext value
      exact armsWith_eq arms event value
  | .input _, _ | .processChain _, _ | .output _ _, _ | .drop, _ | .finish, _ | .error _, _ => by
      rw [statementWith, execPipelineStatement]

theorem branchesWith_eq : ∀ (branches : List (Expr × List PipelineCode)) (event : BorrowedEvent)
    (otherwise : Eval (RunState World) (Option BorrowedEvent × PipelineTermination)),
    ctx.branchesWith ctx.execSites ctx.execOutput event branches otherwise =
      ctx.execPipelineBranches event branches otherwise
  | [], _, _ => by rw [branchesWith, execPipelineBranches]
  | (condition, body) :: rest, event, otherwise => by
      rw [branchesWith, execPipelineBranches, bodyWith_eq body event,
        branchesWith_eq rest event otherwise]

theorem armsWith_eq : ∀ (arms : List (Option Expr × List PipelineCode)) (event : BorrowedEvent)
    (value : Value),
    ctx.armsWith ctx.execSites ctx.execOutput event value arms =
      ctx.execPipelineArms event value arms
  | [], _, _ => by rw [armsWith, execPipelineArms]
  | (none, body) :: _, event, _ => by rw [armsWith, execPipelineArms, bodyWith_eq body event]
  | (some _, body) :: rest, event, value => by
      rw [armsWith, execPipelineArms, bodyWith_eq body event, armsWith_eq rest event value]

end

variable (internal : Internal)

/-- `execSites` with `internal`. -/
def execSitesOr (event : BorrowedEvent) :
    List ProcessSite → Eval (RunState World) (Option BorrowedEvent × PipelineTermination)
  | [] => ok (some event, .finished)
  | site :: rest => do
      match ← onFst (attempt
        (ctx.registry.callOr internal ctx.depth (.known site.body) site.metricNode event)) with
      | .ok (some event) => execSitesOr event rest
      | .ok none => ok (none, .dropped)
      | .error message => do
          pushErrored (ctx.record site.name (siteReason site.kind message))
          ok (none, .errored)

/-- `execOutput` with `internal`. -/
def execOutputOr (event : BorrowedEvent) (name : String) (timerSlot : OutputTimerSlot) :
    Eval (RunState World) (Option BorrowedEvent × PipelineTermination) :=
  if ctx.pipeline.outputTimers.length ≤ timerSlot then internal "output timer slot is out of range"
  else do
    pushOutput (name, ctx.snapshot name event)
    ok (some event, .finished)

theorem execSitesOr_bail (sites : List ProcessSite) (event : BorrowedEvent) :
    ctx.execSitesOr bail event sites = ctx.execSites event sites := by
  induction sites generalizing event with
  | nil => rfl
  | cons site rest ih =>
      rw [execSitesOr, execSites, ctx.registry.callOr_bail]
      congr 1
      funext outcome
      match outcome with
      | .ok (some event) => exact ih event
      | .ok none => rfl
      | .error _ => rfl

/-- `exec_ir_pipeline_body`. -/
def bodyOr (event : BorrowedEvent) (code : List PipelineCode) :
    Eval (RunState World) (Option BorrowedEvent × PipelineTermination) :=
  ctx.bodyWith (ctx.execSitesOr internal) (ctx.execOutputOr internal) event code

theorem bodyOr_bail (event : BorrowedEvent) (code : List PipelineCode) :
    ctx.bodyOr bail event code = ctx.execIrPipelineBody event code := by
  have hsites : ctx.execSitesOr bail = ctx.execSites := by
    funext event sites
    exact ctx.execSitesOr_bail sites event
  rw [bodyOr, hsites]
  exact ctx.bodyWith_eq code event

end IrPipelineExecCtx

/-- `run_pipeline_blueprint_resolved_at`. -/
def runOr {World : Type} (internal : Internal) (ctx : IrPipelineExecCtx World) :
    Eval (Machine World) PipelineRunResult := fun machine =>
  match ctx.bodyOr internal ctx.originalEvent.viewIn ctx.pipeline.code (machine, .empty) with
  | none => none
  | some (.error message, (machine, _)) => some (.error message, machine)
  | some (.ok (_, termination), (machine, out)) =>
      some (.ok ⟨out.outputs, !out.outputs.isEmpty, termination, out.errored⟩, machine)

theorem runOr_bail {World : Type} (ctx : IrPipelineExecCtx World) :
    runOr bail ctx = runPipelineBlueprintResolvedAt ctx := by
  funext machine
  unfold runOr runPipelineBlueprintResolvedAt
  exact ctx.bodyOr_bail .. ▸ rfl

end Limpid.Pipeline
