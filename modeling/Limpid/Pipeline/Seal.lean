import Limpid.Pipeline.Blueprint

/-!
# Sealing a blueprint

`UnsealedRuntimeBlueprint::seal` of `pipeline/blueprint.rs`: every index of the tables, every
name that stands beside an index and the calls between bodies are checked once, so that the
interpreter can rely on them.  The sealed blueprint is the unsealed one.

Each check is a function of its own under the source's name.  The order of the checks is that of the
source, because the first one that fails gives the error: the processes with their edges, code and
cycles, then each pipeline with its metric nodes and code, and last the tables of pipelines.  What a
blueprint that passes has is said in `Limpid.Pipeline.Sealed`.
-/

namespace Limpid.Pipeline.Blueprint

open Dsl

/-! ## Calls and sites of a code -/

mutual

/-- The calls of a code, with their slots. -/
def codeCalls : List ProcessCode → List (String × EdgeSlot)
  | [] => []
  | statement :: rest => statementCalls statement ++ codeCalls rest

/-- The calls in a statement. -/
def statementCalls : ProcessCode → List (String × EdgeSlot)
  | .call name edgeSlot => [(name, edgeSlot)]
  | .ifChain branches none => branchesCalls branches
  | .ifChain branches (some elseBody) => branchesCalls branches ++ codeCalls elseBody
  | .switch _ arms => armsCalls arms
  | .tryCatch tryBody catchBody => codeCalls tryBody ++ codeCalls catchBody
  | _ => []

def branchesCalls : List (Expr × List ProcessCode) → List (String × EdgeSlot)
  | [] => []
  | (_, body) :: rest => codeCalls body ++ branchesCalls rest

def armsCalls : List (Option Expr × List ProcessCode) → List (String × EdgeSlot)
  | [] => []
  | (_, body) :: rest => codeCalls body ++ armsCalls rest

end

mutual

/-- The process sites of a code. -/
def codeSites : List PipelineCode → List ProcessSite
  | [] => []
  | statement :: rest => statementSites statement ++ codeSites rest

/-- The processes in the chains of a statement. -/
def statementSites : PipelineCode → List ProcessSite
  | .processChain sites => sites
  | .ifChain branches none => branchesSites branches
  | .ifChain branches (some elseBody) => branchesSites branches ++ codeSites elseBody
  | .switch _ arms => armsSites arms
  | _ => []

def branchesSites : List (Expr × List PipelineCode) → List ProcessSite
  | [] => []
  | (_, body) :: rest => codeSites body ++ branchesSites rest

def armsSites : List (Option Expr × List PipelineCode) → List ProcessSite
  | [] => []
  | (_, body) :: rest => codeSites body ++ armsSites rest

end

mutual

/-- The outputs of a code, with their timers. -/
def codeOutputs : List PipelineCode → List (String × OutputTimerSlot)
  | [] => []
  | statement :: rest => statementOutputs statement ++ codeOutputs rest

/-- The outputs of a statement. -/
def statementOutputs : PipelineCode → List (String × OutputTimerSlot)
  | .output name timerSlot => [(name, timerSlot)]
  | .ifChain branches none => branchesOutputs branches
  | .ifChain branches (some elseBody) => branchesOutputs branches ++ codeOutputs elseBody
  | .switch _ arms => armsOutputs arms
  | _ => []

def branchesOutputs : List (Expr × List PipelineCode) → List (String × OutputTimerSlot)
  | [] => []
  | (_, body) :: rest => codeOutputs body ++ branchesOutputs rest

def armsOutputs : List (Option Expr × List PipelineCode) → List (String × OutputTimerSlot)
  | [] => []
  | (_, body) :: rest => codeOutputs body ++ armsOutputs rest

end

/-! ## Process bodies -/

section Bodies

variable (bodies : List ProcessBodyCode)

/-- A known target is a body. -/
def targetInRange (target : ProcessTarget) : Prop :=
  ∀ body, target = .known body → body < bodies.length

instance (target : ProcessTarget) : Decidable (targetInRange bodies target) :=
  match target with
  | .known body =>
      decidable_of_iff (body < bodies.length)
        ⟨fun h _ heq => ProcessTarget.known.inj heq ▸ h, fun h => h body rfl⟩
  | .unknown => isTrue fun _ h => nomatch h

/-- The loop over the edges of a body, with the names seen before. -/
def validateEdges (bodyName : String) :
    List String → ℕ → List ProcessEdge → Except String Unit
  | _, _, [] => .ok ()
  | seen, index, edge :: rest => do
      ensure (targetInRange bodies edge.target)
        s!"process '{bodyName}' edge target is out of range"
      let _ ← fromIndex edgeLimit index
      let name := edge.name
      ensure (name ∉ seen) s!"process '{bodyName}' has duplicate edge '{name}'"
      validateEdges bodyName (seen ++ [edge.name]) (index + 1) rest

/-- The check of a call. -/
def validateCall (body : ProcessBodyCode) (name : String) (edgeSlot : EdgeSlot) :
    Except String Unit :=
  let bodyName := body.name
  match body.edges[edgeSlot]? with
  | none => .error s!"process '{bodyName}' call edge slot is out of range"
  | some edge => ensure (edge.name = name) s!"process '{bodyName}' call edge identity mismatch"

mutual

/-- `validate_process_code`. -/
def validateProcessCode (body : ProcessBodyCode) : List ProcessCode → Except String Unit
  | [] => .ok ()
  | statement :: rest => do
      validateProcessStatement body statement
      validateProcessCode body rest

/-- A statement is checked. -/
def validateProcessStatement (body : ProcessBodyCode) : ProcessCode → Except String Unit
  | .call name edgeSlot => validateCall body name edgeSlot
  | .ifChain branches none => validateProcessBranches body branches
  | .ifChain branches (some elseBody) => do
      validateProcessBranches body branches
      validateProcessCode body elseBody
  | .switch _ arms => validateProcessArms body arms
  | .tryCatch tryBody catchBody => do
      validateProcessCode body tryBody
      validateProcessCode body catchBody
  | _ => .ok ()

def validateProcessBranches (body : ProcessBodyCode) :
    List (Expr × List ProcessCode) → Except String Unit
  | [] => .ok ()
  | (_, branch) :: rest => do
      validateProcessCode body branch
      validateProcessBranches body rest

def validateProcessArms (body : ProcessBodyCode) :
    List (Option Expr × List ProcessCode) → Except String Unit
  | [] => .ok ()
  | (_, arm) :: rest => do
      validateProcessCode body arm
      validateProcessArms body rest

end

/-- The name of a body in a message. -/
def bodyName (id : ProcessBodyId) : String := ((bodies[id]?).map ProcessBodyCode.name).getD ""

/-- `visit` of `validate_process_cycles`: the bodies that are done after it. -/
def visit (id : ProcessBodyId) (active done : List ProcessBodyId) :
    Except String (List ProcessBodyId) :=
  if id ∈ done then .ok done
  else if _hid : id ∈ active then
    .error (cycleMessage ((active.dropWhile (· ≠ id)).map (bodyName bodies) ++
      [bodyName bodies id]))
  else
    match _hbody : bodies[id]? with
    | none => .error "process body id is out of range"
    | some body => do
        let done ← body.edges.foldlM (fun done edge =>
          match edge.target with
          | .known target => visit target (active ++ [id]) done
          | .unknown => .ok done) done
        return id :: done
termination_by unvisited bodies.length active
decreasing_by exact unvisited_append_lt (lt_length_of_getElem? _hbody) _hid

/-- `validate_process_cycles`. -/
def validateProcessCycles : Except String Unit := do
  let _ ← (List.range bodies.length).foldlM (fun done index => do
    let id ← fromIndex bodyLimit index
    visit bodies id [] done) []
  return ()

end Bodies

/-! ## Blueprints -/

namespace UnsealedRuntimeBlueprint

variable (blueprint : UnsealedRuntimeBlueprint)

/-- A name of a process is the name of its body. -/
def validateProcessName : String × ProcessBodyId → Except String Unit := fun (name, bodyId) =>
  match blueprint.processBodies[bodyId]? with
  | none => .error s!"process body id for '{name}' is out of range"
  | some body => ensure (body.name = name) s!"process body identity mismatch for '{name}'"

/-- The edges and the code of a body are checked. -/
def validateBody (body : ProcessBodyCode) : Except String Unit := do
  validateEdges blueprint.processBodies body.name [] 0 body.edges
  validateProcessCode body body.code

/-- `validate_process_identity_and_edges`. -/
def validateProcessIdentityAndEdges : Except String Unit := do
  checkAll (blueprint.validateProcessName) blueprint.processNames
  checkAll (blueprint.validateBody) blueprint.processBodies
  validateProcessCycles blueprint.processBodies

section Pipeline

variable (pipeline : PipelineBlueprint)

/-- A child of a metric node and the edge it stands for. -/
def validateChild (nodeId : MetricNodeId) (node : MetricNodeDescriptor) :
    MetricNodeId × ProcessEdge → Except String Unit := fun (childId, edge) =>
  let name := pipeline.name
  match pipeline.metricNodes[childId]? with
  | none => .error s!"pipeline '{name}' metric child id is out of range"
  | some child =>
      ensure (child.parent = some nodeId ∧ child.target = edge.target ∧
          child.processName = edge.name ∧
          child.processPath = childPath node.processPath edge.name)
        s!"pipeline '{name}' metric child identity mismatch"

/-- A metric node is checked. -/
def validateMetricNode : MetricNodeDescriptor × ℕ → Except String Unit := fun (node, index) => do
  let name := pipeline.name
  let nodeId ← fromIndex nodeLimit index
  let step ← fromIndex "metric step overflow" (index + 1)
  ensure (node.step = step) s!"pipeline '{name}' metric step sequence mismatch"
  match node.target with
  | .known bodyId =>
      match blueprint.processBodies[bodyId]? with
      | none => .error s!"pipeline '{name}' metric body is out of range"
      | some body => do
          ensure (node.children.length = body.edges.length)
            s!"pipeline '{name}' metric child count mismatch"
          checkAll (validateChild pipeline nodeId node) (node.children.zip body.edges)
  | .unknown =>
      ensure (node.children = []) s!"pipeline '{name}' unknown metric node has children"

/-- A site is checked. -/
def validateSite (site : ProcessSite) : Except String Unit := do
  let name := pipeline.name
  ensure (site.kind = .named ↔ site.body ∈ blueprint.processNames.map Prod.snd)
    s!"pipeline '{name}' process site kind mismatch"
  match pipeline.metricNodes[site.metricNode]? with
  | none => .error s!"pipeline '{name}' root metric node is out of range"
  | some node =>
      ensure (node.parent = none ∧ node.target = .known site.body ∧
          node.processName = site.name ∧ node.processPath = "/" ++ site.name)
        s!"pipeline '{name}' root metric identity mismatch"

mutual

/-- `validate_pipeline_code`. -/
def validatePipelineCode : List PipelineCode → Except String Unit
  | [] => .ok ()
  | statement :: rest => do
      validatePipelineStatement statement
      validatePipelineCode rest

/-- A statement of a pipeline is checked. -/
def validatePipelineStatement : PipelineCode → Except String Unit
  | .processChain sites => checkAll (blueprint.validateSite pipeline) sites
  | .output name timerSlot =>
      let pipelineName := pipeline.name
      ensure (pipeline.outputTimers[timerSlot]? = some name)
        s!"pipeline '{pipelineName}' output timer identity mismatch"
  | .ifChain branches none => validatePipelineBranches branches
  | .ifChain branches (some elseBody) => do
      validatePipelineBranches branches
      validatePipelineCode elseBody
  | .switch _ arms => validatePipelineArms arms
  | _ => .ok ()

def validatePipelineBranches : List (Expr × List PipelineCode) → Except String Unit
  | [] => .ok ()
  | (_, body) :: rest => do
      validatePipelineCode body
      validatePipelineBranches rest

def validatePipelineArms : List (Option Expr × List PipelineCode) → Except String Unit
  | [] => .ok ()
  | (_, body) :: rest => do
      validatePipelineCode body
      validatePipelineArms rest

end

/-- `validate_pipeline`. -/
def validatePipeline : Except String Unit := do
  let name := pipeline.name
  ensure (pipeline.metricNodes.length < UInt32.size)
    s!"pipeline '{name}' metric node count exceeds the IR limit"
  checkAll (blueprint.validateMetricNode pipeline) pipeline.metricNodes.zipIdx
  ensure (pipeline.subscriptionInputs = Blueprint.subscriptionInputs pipeline.code)
    s!"pipeline '{name}' subscription input identity mismatch"
  blueprint.validatePipelineCode pipeline pipeline.code

end Pipeline

/-- The entry of a pipeline in the identity tables. -/
def validateIdentity : String × ℕ → Except String Unit := fun (name, index) => do
  let expected ← fromIndex pipelineLimit index
  ensure (blueprint.pipelineIds.lookup name = some expected ∧
      name ∈ Entries.keys blueprint.pipelines)
    s!"pipeline identity table mismatch for '{name}'"

/-- `seal`. -/
def sealBlueprint : Except String UnsealedRuntimeBlueprint := do
  blueprint.validateProcessIdentityAndEdges
  checkAll (blueprint.validatePipeline) (blueprint.pipelines.map Prod.snd)
  ensure (blueprint.pipelineOrder.length = blueprint.pipelines.length ∧
      blueprint.pipelineIds.length = blueprint.pipelines.length)
    "pipeline identity table length mismatch"
  checkAll (blueprint.validateIdentity) blueprint.pipelineOrder.zipIdx
  return blueprint

end UnsealedRuntimeBlueprint

/-- `compile_runtime_blueprint`. -/
def compileRuntimeBlueprint (config : CompiledConfig) : Except String UnsealedRuntimeBlueprint := do
  let blueprint ← UnsealedRuntimeBlueprint.compile config
  blueprint.sealBlueprint

end Limpid.Pipeline.Blueprint
