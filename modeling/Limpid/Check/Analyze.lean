import Limpid.Check.Termination
import Limpid.Pipeline.Blueprint

/-!
# The analysis of names

The walk of the static analysis over pipelines and process bodies (`check/mod.rs`,
`check/control_flow.rs`, `check/bindings.rs`), with the part of `check/expr_types.rs` that reports
what does not resolve, and the position of default arms.  Each function of the walk returns the
diagnostics it appends and, where it changes them, the bindings.  Before the walk the calls of all
processes are searched for cycles (`check/process.rs`).

The types of names, the bindings of the workspace and the diagnostics about them are left out, and
so are the checks of properties and of outputs: none of them has a part in what resolves.  Spans
and help texts are left out.
-/

namespace Limpid.Check

open Dsl

/-- `Diagnostic::warning_kind`. -/
def Diagnostic.warningKind (kind : DiagKind) (message : String) : Diagnostic :=
  ⟨.warning, kind, message⟩

/-! ## Bindings -/

/-- The `let` scopes of `Bindings`, the innermost first. -/
structure Bindings where
  letScopes : List (List String)

namespace Bindings

/-- `Bindings::new`. -/
def new : Bindings := ⟨[]⟩

/-- `push_let_scope`. -/
def pushLetScope (bindings : Bindings) : Bindings := ⟨[] :: bindings.letScopes⟩

/-- `pop_let_scope`. -/
def popLetScope (bindings : Bindings) : Bindings := ⟨bindings.letScopes.tail⟩

/-- Without a scope nothing is bound. -/
def bindLet (name : String) (bindings : Bindings) : Bindings :=
  match bindings.letScopes with
  | [] => bindings
  | top :: rest => ⟨(name :: top) :: rest⟩

/-- `get_let(name).is_some()`. -/
def getLet (name : String) (bindings : Bindings) : Bool :=
  bindings.letScopes.any fun scope => name ∈ scope

/-- The `let` scopes of branches are not intersected: the first branch has the word. -/
def intersectBranches : List Bindings → Bindings
  | [] => new
  | first :: _ => first

end Bindings

/-! ## Expressions -/

section Expressions

variable {World : Type} (pipelineName : String) (registry : FunctionRegistry World)

/-- `check_unknown_ident`: an identifier whose head is neither bound nor of the event. -/
def checkUnknownIdent (bindings : Bindings) (parts : List String) : List Diagnostic :=
  match parts with
  | [] => []
  | first :: rest =>
      if rest = [] ∧ first ∈ ["ingress", "egress", "source", "received_at", "error"] then []
      else if first = "source" ∧ (rest = ["ip"] ∨ rest = ["port"]) then []
      else if first = "workspace" then []
      else if bindings.getLet first then []
      else if rest = [] ∧ first = "timestamp" then
        [.warningKind .unknownIdent
          (s!"[pipeline {pipelineName}] bare `timestamp` is no longer a reserved identifier " ++
            "(renamed in v0.5.0)")]
      else
        [.warningKind .unknownIdent
          s!"[pipeline {pipelineName}] unknown identifier `{dotted parts}`"]

/-- `check_fn_call`, where no function is registered. -/
def checkFnCall (ns : Option String) (name : String) : List Diagnostic :=
  if registry.signatures (ns, name) = none then
    [.warningKind .unknownIdent (s!"[pipeline {pipelineName}] call to unknown function " ++
      s!"`{FunctionRegistry.qualifiedName ns name}`")]
  else []

mutual

/-- `check_types`, as far as names go: the identifiers of an expression. -/
def checkTypes (bindings : Bindings) : Expr → List Diagnostic
  | .template fragments => checkFragments bindings fragments
  | .ident parts => checkUnknownIdent pipelineName bindings parts
  | .funcCall ns name args none =>
      checkArgs bindings args ++ checkFnCall pipelineName registry ns name
  | .funcCall ns name args (some (.mk params lets ret)) =>
      let blockBindings := params.foldl (fun bindings param => bindings.bindLet param)
        bindings.pushLetScope
      checkArgs bindings args ++ (checkLets blockBindings lets ++
        checkTypes (lets.foldl (fun bindings fl => bindings.bindLet fl.1) blockBindings) ret) ++
        checkFnCall pipelineName registry ns name
  | .binOp left _ right => checkTypes bindings left ++ checkTypes bindings right
  | .unaryOp _ operand => checkTypes bindings operand
  | .hashLit entries => checkEntries bindings entries
  | .arrayLit items => checkArgs bindings items
  | .propertyAccess base _ => checkTypes bindings base
  | .switchExpr scrutinee arms =>
      checkTypes bindings scrutinee ++ checkArms bindings arms ++
        validateSwitchDefaultPosition pipelineName arms
  | _ => []

def checkArgs (bindings : Bindings) : List Expr → List Diagnostic
  | [] => []
  | e :: rest => checkTypes bindings e ++ checkArgs bindings rest

def checkFragments (bindings : Bindings) : List TemplateFragment → List Diagnostic
  | [] => []
  | .literal _ :: rest => checkFragments bindings rest
  | .interp e :: rest => checkTypes bindings e ++ checkFragments bindings rest

def checkEntries (bindings : Bindings) : List (String × Expr) → List Diagnostic
  | [] => []
  | (_, e) :: rest => checkTypes bindings e ++ checkEntries bindings rest

def checkArms (bindings : Bindings) : List (Option Expr × Expr) → List Diagnostic
  | [] => []
  | (none, body) :: rest => checkTypes bindings body ++ checkArms bindings rest
  | (some pattern, body) :: rest =>
      checkTypes bindings pattern ++ checkTypes bindings body ++ checkArms bindings rest

/-- The `let`s of a block: each is bound after its own value. -/
def checkLets (bindings : Bindings) : List (String × Expr) → List Diagnostic
  | [] => []
  | (name, e) :: rest => checkTypes bindings e ++ checkLets (bindings.bindLet name) rest

end

end Expressions

/-! ## Process bodies -/

section Processes

variable {World : Type} (pipelineName : String) (registry : FunctionRegistry World)

/-- An optional expression. -/
def checkMessage (bindings : Bindings) : Option Expr → List Diagnostic
  | none => []
  | some e => checkTypes pipelineName registry bindings e

mutual

/-- `analyze_process_stmt` for the statements of a body. -/
def analyzeProcessStmts (bindings : Bindings) :
    List ProcessStatement → Bindings × List Diagnostic
  | [] => (bindings, [])
  | statement :: rest =>
      let (next, diagnostics) := analyzeProcessStmt bindings statement
      let (last, more) := analyzeProcessStmts next rest
      (last, diagnostics ++ more)

/-- `analyze_process_stmt`.  A `process` statement is not followed into the process it calls. -/
def analyzeProcessStmt (bindings : Bindings) : ProcessStatement → Bindings × List Diagnostic
  | .assign _ e => (bindings, checkTypes pipelineName registry bindings e)
  | .letBinding name e => (bindings.bindLet name, checkTypes pipelineName registry bindings e)
  | .exprStmt e => (bindings, checkTypes pipelineName registry bindings e)
  -- the body of the process is not looked at from here
  | .processCall _ => (bindings, [])
  | .drop => (bindings, [])
  | .error message => (bindings, checkMessage pipelineName registry bindings message)
  | .ifChain branches none =>
      let (results, diagnostics) := analyzeInlineBranches bindings branches
      (.intersectBranches (results ++ [bindings]), diagnostics)
  | .ifChain branches (some elseBody) =>
      let (results, diagnostics) := analyzeInlineBranches bindings branches
      let (last, more) := analyzeInlineBody bindings.pushLetScope elseBody
      (.intersectBranches (results ++ [last.popLetScope]), diagnostics ++ more)
  | .switch discriminant arms =>
      let (results, diagnostics) := analyzeInlineArms bindings arms
      (.intersectBranches
        (if arms.any fun arm => arm.1.isNone then results else results ++ [bindings]),
        checkTypes pipelineName registry bindings discriminant ++
          (validateSwitchDefaultPosition pipelineName arms ++ diagnostics))
  | .tryCatch tryBody catchBody =>
      let (tryBindings, diagnostics) := analyzeProcessStmts bindings.pushLetScope tryBody
      let (catchBindings, more) := analyzeProcessStmts bindings.pushLetScope catchBody
      (.intersectBranches [tryBindings.popLetScope, catchBindings.popLetScope],
        diagnostics ++ more)

/-- Pipeline statements of a branch are passed over. -/
def analyzeInlineBody (bindings : Bindings) : List BranchBody → Bindings × List Diagnostic
  | [] => (bindings, [])
  | .process statement :: rest =>
      let (next, diagnostics) := analyzeProcessStmt bindings statement
      let (last, more) := analyzeInlineBody next rest
      (last, diagnostics ++ more)
  | .pipeline _ :: rest => analyzeInlineBody bindings rest

/-- The branches of `analyze_inline_if`, each from the same bindings. -/
def analyzeInlineBranches (starting : Bindings) :
    List (Expr × List BranchBody) → List Bindings × List Diagnostic
  | [] => ([], [])
  | (condition, body) :: rest =>
      let (inner, diagnostics) := analyzeInlineBody starting.pushLetScope body
      let (results, more) := analyzeInlineBranches starting rest
      (inner.popLetScope :: results,
        checkTypes pipelineName registry starting condition ++ diagnostics ++ more)

/-- The arms of `analyze_inline_switch`. -/
def analyzeInlineArms (starting : Bindings) :
    List (Option Expr × List BranchBody) → List Bindings × List Diagnostic
  | [] => ([], [])
  | (pattern, body) :: rest =>
      let (inner, diagnostics) := analyzeInlineBody starting.pushLetScope body
      let (results, more) := analyzeInlineArms starting rest
      (inner.popLetScope :: results,
        checkMessage pipelineName registry starting pattern ++ diagnostics ++ more)

end

/-- A body in a scope of its own: `analyze_process_body`, and an inline process. -/
def analyzeProcessBody (bindings : Bindings) (body : List ProcessStatement) :
    Bindings × List Diagnostic :=
  let (inner, diagnostics) :=
    analyzeProcessStmts pipelineName registry bindings.pushLetScope body
  (inner.popLetScope, diagnostics)

end Processes

/-! ## Pipelines -/

section Pipelines

variable {World : Type} (pipelineName : String) (processes : List (String × ProcessDef))
  (registry : FunctionRegistry World)

/-- `analyze_chain_element`: the body of the process that is named, or the body written in the
chain. -/
def analyzeChainElement (bindings : Bindings) :
    ProcessChainElement → Bindings × List Diagnostic
  | .named name =>
      match processes.lookup name with
      | some processDef => analyzeProcessBody pipelineName registry bindings processDef.body
      | none => (bindings, [])
  | .inline body => analyzeProcessBody pipelineName registry bindings body

/-- The elements of a chain, one after another. -/
def analyzeChain (bindings : Bindings) :
    List ProcessChainElement → Bindings × List Diagnostic
  | [] => (bindings, [])
  | element :: rest =>
      let (next, diagnostics) :=
        analyzeChainElement pipelineName processes registry bindings element
      let (last, more) := analyzeChain next rest
      (last, diagnostics ++ more)

mutual

/-- `analyze_pipeline_stmt` for the statements of a body. -/
def analyzePipelineStmts (bindings : Bindings) :
    List PipelineStatement → Bindings × List Diagnostic
  | [] => (bindings, [])
  | statement :: rest =>
      let (next, diagnostics) := analyzePipelineStmt bindings statement
      let (last, more) := analyzePipelineStmts next rest
      (last, diagnostics ++ more)

/-- `analyze_pipeline_stmt`. -/
def analyzePipelineStmt (bindings : Bindings) : PipelineStatement → Bindings × List Diagnostic
  | .input _ => (bindings, [])
  | .processChain chain => analyzeChain pipelineName processes registry bindings chain
  | .output _ => (bindings, [])
  | .drop => (bindings, [])
  | .finish => (bindings, [])
  | .error message => (bindings, checkMessage pipelineName registry bindings message)
  | .ifChain branches none =>
      let (results, diagnostics) := analyzeBranches bindings branches
      (.intersectBranches (results ++ [bindings]), diagnostics)
  | .ifChain branches (some elseBody) =>
      let (results, diagnostics) := analyzeBranches bindings branches
      let (last, more) := analyzeBranch bindings elseBody
      (.intersectBranches (results ++ [last]), diagnostics ++ more)
  | .switch discriminant arms =>
      let (results, diagnostics) := analyzeArms bindings arms
      (.intersectBranches
        (if arms.any fun arm => arm.1.isNone then results else results ++ [bindings]),
        checkTypes pipelineName registry bindings discriminant ++
          (validateSwitchDefaultPosition pipelineName arms ++ diagnostics))

/-- A branch in the scope of the pipeline. -/
def analyzeBranch (bindings : Bindings) : List BranchBody → Bindings × List Diagnostic
  | [] => (bindings, [])
  | .pipeline statement :: rest =>
      let (next, diagnostics) := analyzePipelineStmt bindings statement
      let (last, more) := analyzeBranch next rest
      (last, diagnostics ++ more)
  | .process statement :: rest =>
      let (next, diagnostics) := analyzeProcessStmt pipelineName registry bindings statement
      let (last, more) := analyzeBranch next rest
      (last, diagnostics ++ more)

/-- The branches of `analyze_if_chain`. -/
def analyzeBranches (starting : Bindings) :
    List (Expr × List BranchBody) → List Bindings × List Diagnostic
  | [] => ([], [])
  | (condition, body) :: rest =>
      let (inner, diagnostics) := analyzeBranch starting body
      let (results, more) := analyzeBranches starting rest
      (inner :: results,
        checkTypes pipelineName registry starting condition ++ diagnostics ++ more)

/-- The arms of `analyze_switch`. -/
def analyzeArms (starting : Bindings) :
    List (Option Expr × List BranchBody) → List Bindings × List Diagnostic
  | [] => ([], [])
  | (pattern, body) :: rest =>
      let (inner, diagnostics) := analyzeBranch starting body
      let (results, more) := analyzeArms starting rest
      (inner :: results,
        checkMessage pipelineName registry starting pattern ++ diagnostics ++ more)

end

/-- `analyze_pipeline`. -/
def analyzePipeline (pipeline : PipelineDef) : List Diagnostic :=
  (analyzePipelineStmts pipelineName processes registry Bindings.new.pushLetScope
    pipeline.body).2

end Pipelines

/-! ## Configurations -/

/-- A configuration with its functions. -/
structure Program extends Pipeline.Blueprint.CompiledConfig where
  functions : List FunctionDef
  nodup_functions : (functions.map FunctionDef.name).Nodup

namespace Program

variable {World : Type}

/-- What the check of functions reads. -/
def functionConfig (program : Program) : CompiledConfig where
  functions := program.functions
  processes := Entries.keys program.processes
  nodup := program.nodup_functions

/-- The registry that the analysis and the runtime build. -/
def registry (program : Program) (builtins : FunctionRegistry World) : FunctionRegistry World :=
  program.functionConfig.registered builtins

/-- `adjacency.get(name)`: the named processes that a process calls, sorted, each once. -/
def processCallees (program : Program) (name : String) : Option (List String) :=
  (program.processes.lookup name).map fun processDef =>
    (((ProcessStatement.calls processDef.body).filter
      fun callee => callee ∈ Entries.keys program.processes).insertionSort (· ≤ ·)).dedup

/-- `check_process_cycles`, from the names in their order. -/
def checkProcessCycles (program : Program) : List Diagnostic :=
  checkCycles "process" program.processCallees
    (Pipeline.Blueprint.sortedKeys program.processes)

/-- `analyze`, with the functions in some order. -/
def analyze (program : Program) (names : List String) (builtins : FunctionRegistry World) :
    List Diagnostic :=
  checkAllFunctions program.functionConfig names (program.registry builtins) ++
    (program.checkProcessCycles ++
      program.pipelines.flatMap fun (name, pipeline) =>
        analyzePipeline name program.processes (program.registry builtins) pipeline)

end Program

end Limpid.Check
