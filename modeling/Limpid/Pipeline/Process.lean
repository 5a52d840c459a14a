import Limpid.Dsl.Eval

/-!
# Processes

The execution IR of a pipeline (`pipeline/blueprint.rs`) and the interpreter of process bodies
(`pipeline/execution.rs`, `dsl/exec.rs`).

An error of the interpreter is its text.  A process that fails hands its caller the text of what
failed (`ProcessError`), which the caller sees with `process failed: ` before it.  What a call of
another process does is a parameter of the interpreter; `IrProcessRegistry.call` closes the loop
as `FunctionRegistry.call` does, for processes nested at most `depth` deep.

Beside the state of the built-in functions a run changes the counters of the processes.  The log
lines, the tap and the trace of a test run are left out.
-/

namespace Limpid.Pipeline

open Dsl Eval

/-! ## The execution IR -/

/-- `ProcessBodyId`. -/
abbrev ProcessBodyId := ℕ

/-- `EdgeSlot`. -/
abbrev EdgeSlot := ℕ

/-- `MetricNodeId`. -/
abbrev MetricNodeId := ℕ

/-- `OutputTimerSlot`. -/
abbrev OutputTimerSlot := ℕ

/-- `ProcessTarget`: a body, or a name that none has. -/
inductive ProcessTarget where
  | known (body : ProcessBodyId)
  | unknown
deriving DecidableEq

/-- `ProcessEdge`: a call from one body to another. -/
structure ProcessEdge where
  name : String
  target : ProcessTarget

/-- A branch is a condition and a body; an arm without a pattern is the default arm. -/
inductive ProcessCode where
  | assign (target : AssignTarget) (value : Expr)
  | letBinding (name : String) (value : Expr)
  | call (name : String) (edgeSlot : EdgeSlot)
  | drop
  | error (message : Option Expr)
  | ifChain (branches : List (Expr × List ProcessCode)) (elseBody : Option (List ProcessCode))
  | switch (discriminant : Expr) (arms : List (Option Expr × List ProcessCode))
  | tryCatch (tryBody catchBody : List ProcessCode)
  | expr (e : Expr)

/-- `ProcessBodyCode`. -/
structure ProcessBodyCode where
  code : List ProcessCode
  edges : List ProcessEdge

/-- What the interpreter reads of a `MetricNodeDescriptor`. -/
structure MetricNodeDescriptor where
  target : ProcessTarget
  children : List MetricNodeId

/-- The process is named in the chain, or written there. -/
inductive SiteKind where
  | named | inline
deriving DecidableEq

/-- `ProcessSite`. -/
structure ProcessSite where
  name : String
  kind : SiteKind
  body : ProcessBodyId
  metricNode : MetricNodeId

/-! ## What a run changes -/

/-- `ProcessCounters`. -/
structure ProcessCounters where
  incoming : ℕ
  outgoing : ℕ
  dropped : ℕ
  errored : ℕ

namespace ProcessCounters

/-- An event comes in. -/
def start (c : ProcessCounters) : ProcessCounters := { c with incoming := c.incoming + 1 }

/-- An event goes out. -/
def continued (c : ProcessCounters) : ProcessCounters := { c with outgoing := c.outgoing + 1 }

/-- An event is dropped. -/
def drop (c : ProcessCounters) : ProcessCounters := { c with dropped := c.dropped + 1 }

/-- An event fails. -/
def error (c : ProcessCounters) : ProcessCounters := { c with errored := c.errored + 1 }

end ProcessCounters

/-- The state of the built-in functions and the counters of the processes. -/
abbrev Machine (World : Type) := World × List ProcessCounters

section Lifting

variable {World State Rest α : Type}

/-- A computation on the first part of the state. -/
def onFst (x : Eval State α) : Eval (State × Rest) α := fun (state, rest) =>
  match x state with
  | none => none
  | some (outcome, state) => some (outcome, (state, rest))

/-- The outcome of a computation that may fail. -/
def attempt (x : Eval State α) : Eval State (Except String α) := fun state =>
  match x state with
  | none => none
  | some (outcome, state) => some (.ok outcome, state)

/-- The counters of a node are updated. -/
def count (node : MetricNodeId) (update : ProcessCounters → ProcessCounters) :
    Eval (Machine World) Unit := fun (world, counters) =>
  some (.ok (), (world, counters.modify node update))

end Lifting

/-! ## Assignments -/

/-- `set_object_path`: what is not an object is replaced by one.  Every entry of the key is
updated, or a new entry comes last. -/
def setObjectPath (current : Option Value) (value : Value) : List String → Value
  | [] => value
  | head :: rest =>
      let entries := match current with
        | some (.object entries) => entries
        | _ => []
      let updated := entries.map fun entry =>
        if entry.1 = head then (entry.1, setObjectPath (some entry.2) value rest) else entry
      if entries.any fun entry => entry.1 = head then .object updated
      else .object (updated ++ [(head, setObjectPath none value rest)])

/-- `set_workspace_path`.  A path has a first segment. -/
def setWorkspacePath (event : BorrowedEvent) (path : List String) (value : Value) :
    BorrowedEvent :=
  match path with
  | [] => event
  | [key] => event.workspaceSet key value
  | head :: rest =>
      event.workspaceSet head (setObjectPath (event.workspaceGet head) value rest)

/-- `apply_assign`. -/
def applyAssign (rt : Runtime) (event : BorrowedEvent) (target : AssignTarget) (value : Value) :
    BorrowedEvent :=
  match target with
  | .egress =>
      { event with
        egress := match value with
          | .bytes bytes => bytes
          | value => (valueToString rt value).toUTF8.data.toList }
  | .workspace path => setWorkspacePath event path value

/-! ## Process bodies -/

/-- `ExecResult`. -/
inductive ExecResult where
  | continue (event : BorrowedEvent)
  | dropped

/-- `ProcessError` as its caller shows it. -/
def processFailed (message : String) : String := "process failed: " ++ message

/-- The value of an expression statement, merged into the workspace. -/
def mergeObject (event : BorrowedEvent) : Value → Except String BorrowedEvent
  | .object entries =>
      .ok (entries.foldl (fun event (key, value) => event.workspaceSet key value) event)
  | .null => .ok event
  | other =>
      .error s!"bare expression statement must return Object or Null; got {other.typeName}"

/-- What an expression can use: how it is evaluated is the same for every statement. -/
abbrev Evaluator (World : Type) := BorrowedEvent → LocalScope → Expr → Eval World Value

section Code

variable {World : Type} (rt : Runtime) (evalIn : Evaluator World)
  (callProcess : String → EdgeSlot → BorrowedEvent → Eval (Machine World) (Option BorrowedEvent))

mutual

/-- `exec_ir_process_code`. -/
def execIrProcessCode (event : BorrowedEvent) (scope : LocalScope) :
    List ProcessCode → Eval (Machine World) (ExecResult × LocalScope)
  | [] => ok (.continue event, scope)
  | statement :: rest => do
      match ← execProcessStatement event scope statement with
      | (.continue event, scope) => execIrProcessCode event scope rest
      | (.dropped, scope) => ok (.dropped, scope)

/-- The loop body. -/
def execProcessStatement (event : BorrowedEvent) (scope : LocalScope) :
    ProcessCode → Eval (Machine World) (ExecResult × LocalScope)
  | .assign target e => do
      let value ← onFst (evalIn event scope e)
      ok (.continue (applyAssign rt event target value), scope)
  | .letBinding name e => do
      let value ← onFst (evalIn event scope e)
      ok (.continue event, scope.bind name value)
  | .call name edgeSlot => do
      match ← callProcess name edgeSlot event with
      | some event => ok (.continue event, scope)
      | none => ok (.dropped, scope)
  | .drop => ok (.dropped, scope)
  | .error none => bail "explicit error routing"
  | .error (some e) => do
      let value ← onFst (evalIn event scope e)
      bail (valueToString rt value)
  | .ifChain branches none =>
      execProcessBranches event scope branches (ok (.continue event, scope))
  | .ifChain branches (some elseBody) =>
      execProcessBranches event scope branches (execIrProcessCode event scope elseBody)
  | .switch discriminant arms => do
      let value ← onFst (evalIn event scope discriminant)
      execProcessArms event scope value arms
  | .tryCatch tryBody catchBody => do
      match ← attempt (execIrProcessCode event scope tryBody) with
      | .ok result => ok result
      | .error message => do
          -- event and scope as they were before the body
          let recovered := event.workspaceSet "_error" (.string message)
          match ← execIrProcessCode recovered scope catchBody with
          | (.continue event, scope) => ok (.continue (event.workspaceRemove "_error"), scope)
          | (.dropped, scope) => ok (.dropped, scope)
  | .expr e => do
      let value ← onFst (evalIn event scope e)
      let event ← ofExcept (mergeObject event value)
      ok (.continue event, scope)

/-- The body of the first branch whose condition is true. -/
def execProcessBranches (event : BorrowedEvent) (scope : LocalScope) :
    List (Expr × List ProcessCode) → Eval (Machine World) (ExecResult × LocalScope) →
      Eval (Machine World) (ExecResult × LocalScope)
  | [], otherwise => otherwise
  | (condition, body) :: rest, otherwise => do
      let value ← onFst (evalIn event scope condition)
      if value.isTruthy rt then execIrProcessCode event scope body
      else execProcessBranches event scope rest otherwise

/-- The body of the first arm that matches. -/
def execProcessArms (event : BorrowedEvent) (scope : LocalScope) (value : Value) :
    List (Option Expr × List ProcessCode) → Eval (Machine World) (ExecResult × LocalScope)
  | [] => ok (.continue event, scope)
  | (none, body) :: _ => execIrProcessCode event scope body
  | (some pattern, body) :: rest => do
      let patternValue ← onFst (evalIn event scope pattern)
      if valuesMatch rt value patternValue then execIrProcessCode event scope body
      else execProcessArms event scope value rest

end

end Code

/-! ## Calls of processes -/

/-- `IrProcessRegistry`: the process bodies of the blueprint, the metric nodes of the pipeline and
the functions. -/
structure IrProcessRegistry (World : Type) where
  rt : Runtime
  processBodies : List ProcessBodyCode
  metricNodes : List MetricNodeDescriptor
  funcs : FunctionRegistry World

namespace IrProcessRegistry

variable {World : Type} (registry : IrProcessRegistry World)

/-- `eval_expr_with_scope`, for functions nested at most `depth` deep. -/
def evalIn (depth : ℕ) : Evaluator World := fun event scope e =>
  evalExpr registry.rt event (FunctionRegistry.call registry.rt registry.funcs event depth) scope e

/-- The target and the metric node of a call in the body that runs at a metric node. -/
def resolveEdge (metricNode : MetricNodeId) (name : String) (edgeSlot : EdgeSlot) :
    Except String (ProcessTarget × MetricNodeId) :=
  match registry.metricNodes[metricNode]? with
  | none => .error "metric node id is out of range"
  | some node =>
      match node.target with
      | .unknown => .error "unknown process metric node cannot execute a process body"
      | .known body =>
          match registry.processBodies[body]? with
          | none => .error "process body id is out of range"
          | some body =>
              match body.edges[edgeSlot]? with
              | none => .error "process edge slot is out of range"
              | some edge =>
                  if edge.name ≠ name then .error "process edge identity mismatch"
                  else
                    match node.children[edgeSlot]? with
                    | none => .error "metric child slot is out of range"
                    | some child => .ok (edge.target, child)

/-- Count how a process ended. -/
def finishCall (metricNode : MetricNodeId) (x : Eval (Machine World) ExecResult) :
    Eval (Machine World) (Option BorrowedEvent) := do
  match ← attempt x with
  | .ok (.continue event) => do
      count metricNode .continued
      ok (some event)
  | .ok .dropped => do
      count metricNode .drop
      ok none
  | .error message => do
      count metricNode .error
      bail message

/-- `call`, given how a body runs. -/
def callWith (runBody : ProcessBodyCode → BorrowedEvent → Eval (Machine World) ExecResult)
    (target : ProcessTarget) (metricNode : MetricNodeId) (event : BorrowedEvent) :
    Eval (Machine World) (Option BorrowedEvent) := fun machine =>
  match registry.metricNodes[metricNode]? with
  | none => bail "metric node id is out of range" machine
  | some node =>
      if node.target ≠ target then bail "process body and metric node identity mismatch" machine
      else if machine.2.length ≤ metricNode then
        bail "process counter id is out of range" machine
      else
        (do count metricNode .start
            match target with
            | .known bodyId =>
                match registry.processBodies[bodyId]? with
                | none => bail "process body id is out of range"
                | some body => finishCall metricNode (runBody body event)
            | .unknown => finishCall metricNode (ok (.continue event)) :
          Eval (Machine World) (Option BorrowedEvent)) machine

/-- `IrProcessRegistry::call`: the error is the message of the `ProcessError`. -/
def call : ℕ → ProcessTarget → MetricNodeId → BorrowedEvent →
    Eval (Machine World) (Option BorrowedEvent)
  | 0, target, metricNode, event => registry.callWith (fun _ _ => diverge) target metricNode event
  | depth + 1, target, metricNode, event =>
      let callProcess name edgeSlot event := do
        let (target, child) ← ofExcept (registry.resolveEdge metricNode name edgeSlot)
        match ← attempt (call depth target child event) with
        | .ok next => ok next
        | .error message => bail (processFailed message)
      let runBody (body : ProcessBodyCode) (event : BorrowedEvent) := do
        let (result, _) ← execIrProcessCode registry.rt (registry.evalIn (depth + 1)) callProcess
          event [] body.code
        ok result
      registry.callWith runBody target metricNode event

end IrProcessRegistry

end Limpid.Pipeline
