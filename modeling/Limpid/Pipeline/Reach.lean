import Limpid.Pipeline.Execution

/-!
# What a pipeline reaches

The documented meaning of a pipeline body: it executes `output` statements until it ends, by running
out of statements, by `drop` or `finish`, or by a step that fails; copies already made stay made.
Here a failing step is an outcome like any other and comes with the statements executed before it,
each with the event as it was there (`Reach`).  Which fields of that event a copy has is written out
in `copyOf`.

The interpreter collects copies in a state instead, and tells failures apart: a process that fails
and an `error` statement end the run with a record, any other failing step is an error of the
interpreter.  `exec_reach` says that this is all it does differently: after a run the state holds
what it held before, the copies of the statements reached and, for the first two kinds, the record.
-/

namespace Limpid.Pipeline

open Dsl Eval

/-- A failing step: a process, an `error` statement, or a step of the body itself, which is an
expression of an `if`, a `switch` or an `error`, or an output whose timer is out of range. -/
inductive Failure where
  | process (site reason : String)
  | error (reason : String)
  | body (reason : String)

/-- How a part of the body ends. -/
inductive Outcome where
  | next (event : BorrowedEvent)
  | finished
  | dropped
  | failed (failure : Failure)

/-- An `output` statement that was executed: its output, and the event as it was there. -/
structure Executed where
  output : String
  event : BorrowedEvent

/-- The outputs executed and how it ended, with the state after it. -/
abbrev Reach (World : Type) :=
  Machine World → Option ((List Executed × Outcome) × Machine World)

namespace Reach

variable {World α : Type}

/-- The body ends here. -/
def stop (executed : List Executed) (outcome : Outcome) : Reach World :=
  fun machine => some ((executed, outcome), machine)

/-- What is reached after a part that goes on with an event. -/
def andThen (x : Reach World) (f : BorrowedEvent → Reach World) : Reach World := fun machine =>
  match x machine with
  | none => none
  | some ((executed, .next event), machine) =>
      match f event machine with
      | none => none
      | some ((more, outcome), machine) => some ((executed ++ more, outcome), machine)
  | some ((executed, outcome), machine) => some ((executed, outcome), machine)

/-- A step of the body that may fail. -/
def evaluating (x : Eval (Machine World) α) (f : α → Reach World) : Reach World :=
  fun machine =>
    match x machine with
    | none => none
    | some (.error reason, machine) => some (([], .failed (.body reason)), machine)
    | some (.ok a, machine) => f a machine

end Reach

open Reach

namespace IrPipelineExecCtx

variable {World : Type} (ctx : IrPipelineExecCtx World)

/-- The processes of a chain. -/
def reachSites (event : BorrowedEvent) : List ProcessSite → Reach World
  | [] => stop [] (.next event)
  | site :: rest => fun machine =>
      match ctx.registry.call ctx.depth (.known site.body) site.metricNode event machine with
      | none => none
      | some (.ok (some event), machine) => reachSites event rest machine
      | some (.ok none, machine) => some (([], .dropped), machine)
      | some (.error message, machine) =>
          some (([], .failed (.process site.name (siteReason site.kind message))), machine)

mutual

/-- The statements of a body. -/
def reachBody (event : BorrowedEvent) : List PipelineCode → Reach World
  | [] => stop [] (.next event)
  | statement :: rest => andThen (reachStatement event statement) fun event => reachBody event rest

/-- A statement of a body. -/
def reachStatement (event : BorrowedEvent) : PipelineCode → Reach World
  | .input _ => stop [] (.next event)
  | .processChain sites => ctx.reachSites event sites
  | .output name timerSlot =>
      if ctx.pipeline.outputTimers.length ≤ timerSlot then
        stop [] (.failed (.body "output timer slot is out of range"))
      else stop [⟨name, event⟩] (.next event)
  | .drop => stop [] .dropped
  | .finish => stop [] .finished
  | .error message =>
      evaluating (ctx.errorMessage event message) fun reason => stop [] (.failed (.error reason))
  | .ifChain branches none => reachBranches event branches (stop [] (.next event))
  | .ifChain branches (some elseBody) => reachBranches event branches (reachBody event elseBody)
  | .switch discriminant arms =>
      evaluating (ctx.evalExpr event discriminant) fun value => reachArms event value arms

def reachBranches (event : BorrowedEvent) :
    List (Expr × List PipelineCode) → Reach World → Reach World
  | [], otherwise => otherwise
  | (condition, body) :: rest, otherwise =>
      evaluating (ctx.evalExpr event condition) fun value =>
        if value.isTruthy ctx.registry.rt then reachBody event body
        else reachBranches event rest otherwise

def reachArms (event : BorrowedEvent) (value : Value) :
    List (Option Expr × List PipelineCode) → Reach World
  | [] => stop [] (.next event)
  | (none, body) :: _ => reachBody event body
  | (some pattern, body) :: rest =>
      evaluating (ctx.evalExpr event pattern) fun patternValue =>
        if valuesMatch ctx.registry.rt value patternValue then reachBody event body
        else reachArms event value rest

end

/-- What the whole pipeline reaches on its event. -/
def reach : Reach World := ctx.reachBody ctx.originalEvent.viewIn ctx.pipeline.code

/-- The copy for an output: the event as it was at the statement, its workspace only if the policy
keeps it. -/
def copyOf (executed : Executed) : OutputCopy :=
  (executed.output,
    { key := executed.event.key
      receivedAt := executed.event.receivedAt
      source := executed.event.source
      ingress := executed.event.ingress
      egress := executed.event.egress
      workspace :=
        if ctx.outputCapture.shouldCaptureWorkspace executed.output then
          executed.event.workspace.foldl
            (fun (map : Map) entry => map.insert entry.1 entry.2.toOwnedValue) []
        else []
      ltpStamps := executed.event.ltpStamps })

theorem copyOf_snapshot (name : String) (event : BorrowedEvent) :
    ctx.copyOf ⟨name, event⟩ = (name, ctx.snapshot name event) := by
  unfold copyOf snapshot
  dsimp only
  split <;> rfl

/-! ## The interpreter -/

/-- What the interpreter returns for an outcome. -/
def returned : Outcome → Except String (Option BorrowedEvent × PipelineTermination)
  | .next event => .ok (some event, .finished)
  | .finished => .ok (none, .finished)
  | .dropped => .ok (none, .dropped)
  | .failed (.process _ _) => .ok (none, .errored)
  | .failed (.error _) => .ok (none, .errored)
  | .failed (.body reason) => .error reason

/-- The records the interpreter makes for an outcome. -/
def records : Outcome → List ErroredEventContext
  | .failed (.process site reason) => [ctx.record site reason]
  | .failed (.error reason) => [ctx.record "(pipeline)" reason]
  | _ => []

/-- The state after the outputs executed and the outcome. -/
def collected (out : PipelineExecOut) (executed : List Executed) (outcome : Outcome) :
    PipelineExecOut :=
  ⟨out.outputs ++ executed.map ctx.copyOf, out.errored ++ ctx.records outcome⟩

/-- The interpreter does what is reached. -/
def Realizes (x : Eval (RunState World) (Option BorrowedEvent × PipelineTermination))
    (r : Reach World) : Prop :=
  ∀ machine out, x (machine, out) =
    (r machine).map fun ((executed, outcome), machine) =>
      (returned outcome, (machine, ctx.collected out executed outcome))

section Realizing

variable {ctx} {α : Type}

theorem realizes_next (event : BorrowedEvent) :
    ctx.Realizes (ok (some event, .finished)) (stop [] (.next event)) := by
  intro machine out
  simp [ok, stop, returned, collected, records]

theorem realizes_drop : ctx.Realizes (ok (none, .dropped)) (stop [] .dropped) := by
  intro machine out
  simp [ok, stop, returned, collected, records]

theorem realizes_finish : ctx.Realizes (ok (none, .finished)) (stop [] .finished) := by
  intro machine out
  simp [ok, stop, returned, collected, records]

/-- One part after another: the interpreter goes on as long as there is an event. -/
theorem realizes_andThen
    {x : Eval (RunState World) (Option BorrowedEvent × PipelineTermination)}
    {f : BorrowedEvent → Eval (RunState World) (Option BorrowedEvent × PipelineTermination)}
    {r : Reach World} {g : BorrowedEvent → Reach World} (hx : ctx.Realizes x r)
    (hf : ∀ event, ctx.Realizes (f event) (g event)) :
    ctx.Realizes (do
      match ← x with
      | (some event, _) => f event
      | (none, termination) => ok (none, termination)) (andThen r g) := by
  intro machine out
  show Eval.bind x _ (machine, out) = _
  unfold Eval.bind andThen
  rw [hx machine out]
  cases r machine with
  | none => rfl
  | some reached =>
      obtain ⟨⟨executed, outcome⟩, machine'⟩ := reached
      cases outcome with
      | next event =>
          -- the copies of the second part come after those of the first
          show f event (machine', ctx.collected out executed (.next event)) = _
          rw [hf event machine' _]
          dsimp only
          cases g event machine' with
          | none => rfl
          | some more => simp [collected, records]
      | finished => rfl
      | dropped => rfl
      | failed failure => cases failure <;> rfl

/-- A step that fails makes the interpreter fail. -/
theorem realizes_evaluating {x : Eval (Machine World) α}
    {f : α → Eval (RunState World) (Option BorrowedEvent × PipelineTermination)}
    {g : α → Reach World} (hf : ∀ a, ctx.Realizes (f a) (g a)) :
    ctx.Realizes (onFst x >>= f) (evaluating x g) := by
  intro machine out
  show Eval.bind (onFst x) f (machine, out) = _
  unfold Eval.bind onFst evaluating
  cases hx : x machine with
  | none => simp [hx]
  | some reached =>
      obtain ⟨outcome, machine'⟩ := reached
      cases outcome with
      | error reason => simp [hx, returned, collected, records]
      | ok a =>
          simp only [hx]
          exact hf a machine' out

theorem realizes_ite {p : Prop} [Decidable p]
    {x y : Eval (RunState World) (Option BorrowedEvent × PipelineTermination)} {r s : Reach World}
    (hx : ctx.Realizes x r) (hy : ctx.Realizes y s) :
    ctx.Realizes (if p then x else y) (if p then r else s) := by
  split
  · exact hx
  · exact hy

theorem realizes_sites (event : BorrowedEvent) (sites : List ProcessSite) :
    ctx.Realizes (ctx.execSites event sites) (ctx.reachSites event sites) := by
  induction sites generalizing event with
  | nil => exact realizes_next event
  | cons site rest ih =>
      intro machine out
      unfold execSites reachSites
      show Eval.bind (onFst (attempt _)) _ (machine, out) = _
      unfold Eval.bind onFst attempt
      cases hcall : ctx.registry.call ctx.depth (.known site.body) site.metricNode event
        machine with
      | none => simp [hcall]
      | some reached =>
          obtain ⟨outcome, machine'⟩ := reached
          simp only [hcall]
          cases outcome with
          | error message => simp [returned, collected, records]; rfl
          | ok next =>
              cases next with
              | none => exact realizes_drop machine' out
              | some event => exact ih event machine' out

theorem realizes_output (event : BorrowedEvent) (name : String) (timerSlot : OutputTimerSlot) :
    ctx.Realizes (ctx.execOutput event name timerSlot)
      (ctx.reachStatement event (.output name timerSlot)) := by
  unfold execOutput reachStatement
  refine realizes_ite (fun machine out => ?_) fun machine out => ?_
  · simp [bail, stop, returned, collected, records]
  · simp [stop, returned, collected, records, copyOf_snapshot]
    rfl

theorem realizes_error (event : BorrowedEvent) (message : Option Expr) :
    ctx.Realizes (ctx.execPipelineStatement event (.error message))
      (ctx.reachStatement event (.error message)) := by
  unfold execPipelineStatement reachStatement
  refine realizes_evaluating fun reason machine out => ?_
  simp [stop, returned, collected, records]
  rfl

mutual

/-- **The interpreter does what the body reaches.** -/
theorem exec_reach (event : BorrowedEvent) : ∀ code : List PipelineCode,
    ctx.Realizes (ctx.execIrPipelineBody event code) (ctx.reachBody event code)
  | [] => realizes_next event
  | statement :: rest =>
      realizes_andThen (execStatement_reach event statement) fun event => exec_reach event rest

theorem execStatement_reach (event : BorrowedEvent) : ∀ statement : PipelineCode,
    ctx.Realizes (ctx.execPipelineStatement event statement) (ctx.reachStatement event statement)
  | .input _ => realizes_next event
  | .processChain sites => realizes_sites event sites
  | .output name timerSlot => realizes_output event name timerSlot
  | .drop => realizes_drop
  | .finish => realizes_finish
  | .error message => realizes_error event message
  | .ifChain branches none => execBranches_reach event branches (realizes_next event)
  | .ifChain branches (some elseBody) =>
      execBranches_reach event branches (exec_reach event elseBody)
  | .switch _ arms =>
      realizes_evaluating fun value => execArms_reach event value arms

theorem execBranches_reach (event : BorrowedEvent) :
    ∀ (branches : List (Expr × List PipelineCode))
      {otherwise : Eval (RunState World) (Option BorrowedEvent × PipelineTermination)}
      {r : Reach World}, ctx.Realizes otherwise r →
        ctx.Realizes (ctx.execPipelineBranches event branches otherwise)
          (ctx.reachBranches event branches r)
  | [], _, _, hotherwise => hotherwise
  | (_, body) :: rest, _, _, hotherwise =>
      realizes_evaluating fun _ =>
        realizes_ite (exec_reach event body) (execBranches_reach event rest hotherwise)

theorem execArms_reach (event : BorrowedEvent) (value : Value) :
    ∀ arms : List (Option Expr × List PipelineCode),
      ctx.Realizes (ctx.execPipelineArms event value arms) (ctx.reachArms event value arms)
  | [] => realizes_next event
  | (none, body) :: _ => exec_reach event body
  | (some _, body) :: rest =>
      realizes_evaluating fun _ =>
        realizes_ite (exec_reach event body) (execArms_reach event value rest)

end

end Realizing

/-- What a run returns. -/
theorem run_reach (machine : Machine World) :
    runPipelineBlueprintResolvedAt ctx machine =
      (ctx.reach machine).map fun ((executed, outcome), machine) =>
        ((returned outcome).map fun (_, termination) =>
          ⟨executed.map ctx.copyOf, !executed.isEmpty, termination, ctx.records outcome⟩,
            machine) := by
  unfold runPipelineBlueprintResolvedAt reach
  rw [exec_reach _ _ machine .empty]
  cases ctx.reachBody ctx.originalEvent.viewIn ctx.pipeline.code machine with
  | none => rfl
  | some reached =>
      obtain ⟨⟨executed, outcome⟩, machine'⟩ := reached
      cases houtcome : returned outcome with
      | error reason => simp [houtcome, Except.map]
      | ok result => simp [houtcome, Except.map, collected, PipelineExecOut.empty]

end IrPipelineExecCtx

end Limpid.Pipeline
