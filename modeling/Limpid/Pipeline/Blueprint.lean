import Mathlib.Data.List.Sort
import Mathlib.Data.String.Basic
import Limpid.Slots
import Limpid.Dsl.Statement
import Limpid.Pipeline.Execution

/-!
# The compiler of blueprints

`UnsealedRuntimeBlueprint::compile` of `pipeline/blueprint.rs`.  The processes of the
configuration are numbered in the order of their names and compiled in that order; then the
pipelines are compiled in the order of theirs, and every inline process adds a body.  A body gives
a slot to each name it calls.  A pipeline has one metric node for each process site, and one below
a node for each edge of the body that runs there: bodies are shared between sites, nodes are not.

The parts of a `CompiledConfig` that the compiler only passes on are left out.  The structures
here have the fields that only the compiler and the checks read, beside those the interpreter
reads.
-/

namespace Limpid.Pipeline.Blueprint

open Dsl

/-! ## The execution IR -/

/-- `PipelineId`. -/
abbrev PipelineId := ℕ

/-- `ProcessBodyCode`, with the name that messages give. -/
structure ProcessBodyCode extends Pipeline.ProcessBodyCode where
  name : String

/-- `MetricNodeDescriptor`. -/
structure MetricNodeDescriptor extends Pipeline.MetricNodeDescriptor where
  parent : Option MetricNodeId
  step : ℕ
  processPath : String
  processName : String

/-- `PipelineFlow`: the inputs and outputs of a pipeline. -/
structure PipelineFlow where
  inputs : List String
  processes : List String
  outputs : List String

/-- `PipelineBlueprint`. -/
structure PipelineBlueprint where
  name : String
  code : List PipelineCode
  flow : PipelineFlow
  subscriptionInputs : List String
  metricNodes : List MetricNodeDescriptor
  outputTimers : List String

/-- `UnsealedRuntimeBlueprint`. -/
structure UnsealedRuntimeBlueprint where
  processBodies : List ProcessBodyCode
  processNames : List (String × ProcessBodyId)
  pipelines : List (String × PipelineBlueprint)
  pipelineIds : List (String × PipelineId)
  pipelineOrder : List String

/-- The processes and pipelines of a `CompiledConfig`, by name. -/
structure CompiledConfig where
  processes : List (String × ProcessDef)
  pipelines : List (String × PipelineDef)
  nodup_processes : (Entries.keys processes).Nodup
  nodup_pipelines : (Entries.keys pipelines).Nodup

/-- `u32::try_from`, with the message of the identifier type. -/
def fromIndex (message : String) (index : ℕ) : Except String ℕ :=
  if index < UInt32.size then .ok index else .error message

theorem fromIndex_eq_ok_iff {message : String} {index id : ℕ} :
    fromIndex message index = .ok id ↔ index < UInt32.size ∧ index = id := by
  unfold fromIndex
  split
  · next h => exact ⟨fun hok => ⟨h, Except.ok.inj hok⟩, fun heq => congrArg _ heq.2⟩
  · next h =>
    refine ⟨fun hok => ?_, fun heq => absurd heq.1 h⟩
    exact nomatch hok

/-- More bodies than ids. -/
def bodyLimit : String := "process body count exceeds the execution IR limit"

/-- More edges than slots. -/
def edgeLimit : String := "process edge count exceeds the execution IR limit"

/-- More nodes than ids. -/
def nodeLimit : String := "metric node count exceeds the execution IR limit"

/-- More timers than slots. -/
def timerLimit : String := "output timer count exceeds the execution IR limit"

/-- More pipelines than ids. -/
def pipelineLimit : String := "pipeline count exceeds the execution IR limit"

/-- Names and their numbers. -/
def numberFrom (message : String) : ℕ → List String → Except String (List (String × ℕ))
  | _, [] => .ok []
  | index, name :: rest => do
      let id ← fromIndex message index
      let others ← numberFrom message (index + 1) rest
      return (name, id) :: others

/-- The keys of a map, sorted. -/
def sortedKeys {V : Type} (entries : List (String × V)) : List String :=
  (Entries.keys entries).insertionSort (· ≤ ·)

/-! ## Process bodies -/

section Processes

variable (processNames : List (String × ProcessBodyId))

/-- The edge of a called name. -/
def edgeOf (name : String) : ProcessEdge :=
  ⟨name, ((processNames.lookup name).map ProcessTarget.known).getD .unknown⟩

/-- The edges of a body under compilation, with `slots`. -/
abbrev EdgeTable := SlotTable (edgeOf processNames)

mutual

/-- `compile_process_statements`. -/
def compileProcessStatements :
    List ProcessStatement → StateT (EdgeTable processNames) (Except String) (List ProcessCode)
  | [] => pure []
  | statement :: rest => do
      let code ← compileProcessStatement statement
      let codes ← compileProcessStatements rest
      return code :: codes

/-- `compile_process_statement`. -/
def compileProcessStatement :
    ProcessStatement → StateT (EdgeTable processNames) (Except String) ProcessCode
  | .assign target value => pure (.assign target value)
  | .letBinding name value => pure (.letBinding name value)
  | .processCall name => do
      let slot ← SlotTable.slot UInt32.size edgeLimit name
      return .call name slot
  | .drop => pure .drop
  | .error message => pure (.error message)
  | .ifChain branches none => do
      let codes ← compileProcessBranches branches
      return .ifChain codes none
  | .ifChain branches (some elseBody) => do
      let codes ← compileProcessBranches branches
      let elseCode ← compileProcessBranch elseBody
      return .ifChain codes (some elseCode)
  | .switch discriminant arms => do
      let codes ← compileProcessArms arms
      return .switch discriminant codes
  | .tryCatch tryBody catchBody => do
      let tryCode ← compileProcessStatements tryBody
      let catchCode ← compileProcessStatements catchBody
      return .tryCatch tryCode catchCode
  | .exprStmt e => pure (.expr e)

def compileProcessBranch :
    List BranchBody → StateT (EdgeTable processNames) (Except String) (List ProcessCode)
  | [] => pure []
  | .process statement :: rest => do
      let code ← compileProcessStatement statement
      let codes ← compileProcessBranch rest
      return code :: codes
  | .pipeline _ :: _ => throw "pipeline statement found in process body"

def compileProcessBranches : List (Expr × List BranchBody) →
    StateT (EdgeTable processNames) (Except String) (List (Expr × List ProcessCode))
  | [] => pure []
  | (condition, body) :: rest => do
      let code ← compileProcessBranch body
      let codes ← compileProcessBranches rest
      return (condition, code) :: codes

def compileProcessArms : List (Option Expr × List BranchBody) →
    StateT (EdgeTable processNames) (Except String) (List (Option Expr × List ProcessCode))
  | [] => pure []
  | (pattern, body) :: rest => do
      let code ← compileProcessBranch body
      let codes ← compileProcessArms rest
      return (pattern, code) :: codes

end

/-- `compile_process_body`. -/
def compileProcessBody (name : String) (statements : List ProcessStatement) :
    Except String ProcessBodyCode := do
  let (code, table) ← compileProcessStatements processNames statements .empty
  return ⟨⟨code, table.entries⟩, name⟩

/-- `compile_named_processes`: the names in order, with the bodies compiled so far. -/
def compileNamedProcesses (config : CompiledConfig) :
    List (String × ProcessBodyId) → List ProcessBodyCode → Except String (List ProcessBodyCode)
  | [], bodies => .ok bodies
  | (name, expectedId) :: rest, bodies =>
      match config.processes.lookup name with
      | none => .error s!"process '{name}' disappeared during compile"
      | some processDef => do
          let body ← compileProcessBody processNames name processDef.body
          let actualId ← fromIndex bodyLimit bodies.length
          if actualId ≠ expectedId then .error "process body id assignment is not deterministic"
          else compileNamedProcesses config rest (bodies ++ [body])

end Processes

/-! ## Pipeline bodies -/

section Pipelines

variable (processNames : List (String × ProcessBodyId))

/-- What grows while a pipeline body is compiled: the process bodies of the compiler, and the
output timers of the pipeline with `output_slots`. -/
structure PipelineTables where
  processBodies : List ProcessBodyCode
  outputs : SlotTable (id : String → String)

/-- The name of a body written in a chain. -/
def inlineName (id : ProcessBodyId) : String := s!"(inline@{id})"

/-- A body written in a chain is compiled and gets an id. -/
def compileInline (body : List ProcessStatement) :
    StateT PipelineTables (Except String) ProcessBodyId := fun tables => do
  let id ← fromIndex bodyLimit tables.processBodies.length
  let code ← compileProcessBody processNames (inlineName id) body
  return (id, { tables with processBodies := tables.processBodies ++ [code] })

/-- A site before its metric node is attached. -/
def ProcessSite.unattached (name : String) (kind : SiteKind) (body : ProcessBodyId) :
    ProcessSite :=
  ⟨name, kind, body, UInt32.size - 1⟩

/-- An element of a chain is compiled to a site. -/
def compileChainElement :
    ProcessChainElement → StateT PipelineTables (Except String) ProcessSite
  | .named name =>
      match processNames.lookup name with
      | some body => pure (ProcessSite.unattached name .named body)
      | none => throw s!"pipeline references unknown process '{name}'"
  | .inline body => do
      let id ← compileInline processNames body
      return ProcessSite.unattached "(inline)" .inline id

/-- The slot of an output. -/
def outputSlot (name : String) : StateT PipelineTables (Except String) OutputTimerSlot :=
  fun tables => do
    let (slot, outputs) ← tables.outputs.slot UInt32.size timerLimit name
    return (slot, { tables with outputs := outputs })

mutual

/-- `compile_pipeline_statements`. -/
def compilePipelineStatements :
    List PipelineStatement → StateT PipelineTables (Except String) (List PipelineCode)
  | [] => pure []
  | statement :: rest => do
      let code ← compilePipelineStatement statement
      let codes ← compilePipelineStatements rest
      return code :: codes

/-- `compile_pipeline_statement`. -/
def compilePipelineStatement :
    PipelineStatement → StateT PipelineTables (Except String) PipelineCode
  | .input names => pure (.input names)
  | .processChain chain => do
      let sites ← mapInOrder (compileChainElement processNames) chain
      return .processChain sites
  | .output name => do
      let slot ← outputSlot name
      return .output name slot
  | .drop => pure .drop
  | .finish => pure .finish
  | .error message => pure (.error message)
  | .ifChain branches none => do
      let codes ← compilePipelineBranches branches
      return .ifChain codes none
  | .ifChain branches (some elseBody) => do
      let codes ← compilePipelineBranches branches
      let elseCode ← compilePipelineBranch elseBody
      return .ifChain codes (some elseCode)
  | .switch discriminant arms => do
      let codes ← compilePipelineArms arms
      return .switch discriminant codes

def compilePipelineBranch :
    List BranchBody → StateT PipelineTables (Except String) (List PipelineCode)
  | [] => pure []
  | .pipeline statement :: rest => do
      let code ← compilePipelineStatement statement
      let codes ← compilePipelineBranch rest
      return code :: codes
  | .process _ :: _ => throw "process statement found in pipeline body"

def compilePipelineBranches : List (Expr × List BranchBody) →
    StateT PipelineTables (Except String) (List (Expr × List PipelineCode))
  | [] => pure []
  | (condition, body) :: rest => do
      let code ← compilePipelineBranch body
      let codes ← compilePipelineBranches rest
      return (condition, code) :: codes

def compilePipelineArms : List (Option Expr × List BranchBody) →
    StateT PipelineTables (Except String) (List (Option Expr × List PipelineCode))
  | [] => pure []
  | (pattern, body) :: rest => do
      let code ← compilePipelineBranch body
      let codes ← compilePipelineArms rest
      return (pattern, code) :: codes

end

end Pipelines

/-! ## Metric nodes -/

section MetricNodes

variable (bodies : List ProcessBodyCode)

/-- The nodes of a pipeline and `next_step`. -/
structure MetricTable where
  nodes : List MetricNodeDescriptor
  nextStep : ℕ

/-- `checked_add` on a step. -/
def checkedAdd (step : ℕ) : Except String ℕ :=
  if step + 1 < UInt32.size then .ok (step + 1) else .error "metric step overflow"

/-- The path of a process called from another. -/
def childPath (path name : String) : String := path ++ "/" ++ name

/-- The text of a cycle: the names on the path from the element it comes back to. -/
def cycleMessage (names : List String) : String :=
  "process call cycle: " ++ " -> ".intercalate names

/-- How many of the first `count` bodies are not on a path of bodies. -/
def unvisited (count : ℕ) (active : List ProcessBodyId) : ℕ :=
  (List.range count).countP fun id => id ∉ active

theorem unvisited_append_lt {count : ℕ} {active : List ProcessBodyId} {id : ProcessBodyId}
    (hlt : id < count) (hid : id ∉ active) :
    unvisited count (active ++ [id]) < unvisited count active := by
  obtain ⟨before, after, hrange⟩ := List.append_of_mem (List.mem_range.mpr hlt)
  have hle : ∀ ids : List ProcessBodyId, (ids.countP fun other => other ∉ active ++ [id]) ≤
      ids.countP fun other => other ∉ active := fun ids =>
    List.countP_mono_left fun other _ hother => by
      simp only [List.mem_append, decide_eq_true_eq, not_or] at hother ⊢
      exact hother.1
  have hbefore := hle before
  have hafter := hle after
  simp only [unvisited, hrange, List.countP_append, List.countP_cons] at hbefore hafter ⊢
  simp [hid] at hbefore hafter ⊢
  omega

theorem lt_length_of_getElem? {bodies : List ProcessBodyCode} {id : ProcessBodyId}
    {body : ProcessBodyCode} (hbody : bodies[id]? = some body) : id < bodies.length :=
  (List.getElem?_eq_some_iff.mp hbody).1

/-- `add_metric_node`: `ancestors` are the bodies on the path to the node, with their names. -/
def addMetricNode (parent : Option MetricNodeId) (target : ProcessTarget) (name path : String)
    (ancestors : List (ProcessBodyId × String)) (table : MetricTable) :
    Except String (MetricNodeId × MetricTable) := do
  let id ← fromIndex nodeLimit table.nodes.length
  let nextStep ← checkedAdd table.nextStep
  let pushed : MetricTable :=
    ⟨table.nodes ++ [⟨⟨target, []⟩, parent, table.nextStep, path, name⟩], nextStep⟩
  match target with
  | .unknown => return (id, pushed)
  | .known bodyId =>
      match _hbody : bodies[bodyId]? with
      | none => .error "process body id is out of range"
      | some body =>
          if _hid : bodyId ∈ ancestors.map Prod.fst then
            .error (cycleMessage
              ((ancestors.dropWhile fun ancestor => ancestor.1 ≠ bodyId).map Prod.snd ++ [name]))
          else do
            let (children, grown) ← mapInOrder (fun edge : ProcessEdge =>
              addMetricNode (some id) edge.target edge.name (childPath path edge.name)
                (ancestors ++ [(bodyId, name)])) body.edges pushed
            return (id, { grown with
              nodes := grown.nodes.modify id fun node => { node with children := children } })
termination_by unvisited bodies.length (ancestors.map Prod.fst)
decreasing_by
  rw [List.map_append]
  exact unvisited_append_lt (lt_length_of_getElem? _hbody) _hid

/-- The metric nodes of a process in a chain, and of all it calls. -/
def attachSite (site : ProcessSite) : StateT MetricTable (Except String) ProcessSite := do
  let node ← addMetricNode bodies none (.known site.body) site.name ("/" ++ site.name) []
  return { site with metricNode := node }

mutual

/-- `attach_pipeline_metric_nodes`. -/
def attachPipelineMetricNodes :
    List PipelineCode → StateT MetricTable (Except String) (List PipelineCode)
  | [] => pure []
  | statement :: rest => do
      let code ← attachStatement statement
      let codes ← attachPipelineMetricNodes rest
      return code :: codes

/-- The metric nodes of a statement. -/
def attachStatement : PipelineCode → StateT MetricTable (Except String) PipelineCode
  | .processChain sites => do
      let attached ← mapInOrder (attachSite bodies) sites
      return .processChain attached
  | .ifChain branches none => do
      let codes ← attachBranches branches
      return .ifChain codes none
  | .ifChain branches (some elseBody) => do
      let codes ← attachBranches branches
      let elseCode ← attachPipelineMetricNodes elseBody
      return .ifChain codes (some elseCode)
  | .switch discriminant arms => do
      let codes ← attachArms arms
      return .switch discriminant codes
  | statement => pure statement

def attachBranches : List (Expr × List PipelineCode) →
    StateT MetricTable (Except String) (List (Expr × List PipelineCode))
  | [] => pure []
  | (condition, body) :: rest => do
      let code ← attachPipelineMetricNodes body
      let codes ← attachBranches rest
      return (condition, code) :: codes

def attachArms : List (Option Expr × List PipelineCode) →
    StateT MetricTable (Except String) (List (Option Expr × List PipelineCode))
  | [] => pure []
  | (pattern, body) :: rest => do
      let code ← attachPipelineMetricNodes body
      let codes ← attachArms rest
      return (pattern, code) :: codes

end

end MetricNodes

/-! ## Pipelines -/

mutual

/-- `collect_pipeline_flow`. -/
def collectPipelineFlow (flow : PipelineFlow) : List PipelineCode → PipelineFlow
  | [] => flow
  | statement :: rest => collectPipelineFlow (collectStatementFlow flow statement) rest

/-- The inputs and outputs of a statement are taken in. -/
def collectStatementFlow (flow : PipelineFlow) : PipelineCode → PipelineFlow
  | .input names => { flow with inputs := addNames flow.inputs names }
  | .processChain sites =>
      { flow with
        processes := addNames flow.processes
          ((sites.filter fun site => site.kind = .named).map ProcessSite.name) }
  | .output name _ => { flow with outputs := addName flow.outputs name }
  | .ifChain branches none => collectBranchesFlow flow branches
  | .ifChain branches (some elseBody) =>
      collectPipelineFlow (collectBranchesFlow flow branches) elseBody
  | .switch _ arms => collectArmsFlow flow arms
  | _ => flow

def collectBranchesFlow (flow : PipelineFlow) : List (Expr × List PipelineCode) → PipelineFlow
  | [] => flow
  | (_, body) :: rest => collectBranchesFlow (collectPipelineFlow flow body) rest

def collectArmsFlow (flow : PipelineFlow) : List (Option Expr × List PipelineCode) → PipelineFlow
  | [] => flow
  | (_, body) :: rest => collectArmsFlow (collectPipelineFlow flow body) rest

end

/-- The names of the first `input` statement at the top level. -/
def subscriptionInputs (code : List PipelineCode) : List String :=
  (code.findSome? fun statement =>
    match statement with
    | .input names => some names
    | _ => none).getD []

/-- `compile_pipeline`. -/
def compilePipeline (processNames : List (String × ProcessBodyId)) (pipeline : PipelineDef) :
    StateT (List ProcessBodyCode) (Except String) PipelineBlueprint := fun bodies => do
  let (code, tables) ← compilePipelineStatements processNames pipeline.body ⟨bodies, .empty⟩
  let (code, metrics) ← attachPipelineMetricNodes tables.processBodies code ⟨[], 1⟩
  return (⟨pipeline.name, code, collectPipelineFlow ⟨[], [], []⟩ code, subscriptionInputs code,
    metrics.nodes, tables.outputs.entries⟩, tables.processBodies)

/-- The pipelines in the order of their names. -/
def compileConfigPipeline (config : CompiledConfig)
    (processNames : List (String × ProcessBodyId)) (name : String) :
    StateT (List ProcessBodyCode) (Except String) (String × PipelineBlueprint) :=
  match config.pipelines.lookup name with
  | none => throw s!"pipeline '{name}' disappeared during compile"
  | some pipeline => do
      let compiled ← compilePipeline processNames pipeline
      return (name, compiled)

/-- `UnsealedRuntimeBlueprint::compile`. -/
def UnsealedRuntimeBlueprint.compile (config : CompiledConfig) :
    Except String UnsealedRuntimeBlueprint := do
  let processNames ← numberFrom bodyLimit 0 (sortedKeys config.processes)
  let bodies ← compileNamedProcesses processNames config processNames []
  let (pipelines, bodies) ←
    mapInOrder (compileConfigPipeline config processNames) (sortedKeys config.pipelines) bodies
  let pipelineOrder := Entries.keys pipelines
  let pipelineIds ← numberFrom pipelineLimit 0 pipelineOrder
  return ⟨bodies, processNames, pipelines, pipelineIds, pipelineOrder⟩

end Limpid.Pipeline.Blueprint
