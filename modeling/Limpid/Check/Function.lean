import Mathlib.Data.String.Basic
import Limpid.Dsl.Eval

/-!
# The static check of functions

`check/function.rs`: every `def function` of a configuration is checked for what it refers to,
and the functions together for cycles of calls.  A check appends diagnostics; here it returns the
ones it appends.  Spans and help texts are left out.

The hash maps and sets of the source are lists and functions.  The order in which the map of
callees lists its keys is nobody's choice, so `checkFunctionCycles` is given it.
-/

namespace Limpid.Check

open Dsl

/-! ## Configurations and diagnostics -/

/-- The functions of a `CompiledConfig` and the names of its processes.  The functions are keyed
by their own names, of which `from_config` accepts no duplicates. -/
structure CompiledConfig where
  functions : List FunctionDef
  processes : List String
  nodup : (functions.map FunctionDef.name).Nodup

namespace CompiledConfig

/-- `config.functions.get(name)`. -/
def function (config : CompiledConfig) (name : String) : Option FunctionDef :=
  config.functions.find? fun fnDef => fnDef.name = name

/-- The functions that are defined. -/
def functionNames (config : CompiledConfig) : List String :=
  config.functions.map FunctionDef.name

end CompiledConfig

/-- `Level`. -/
inductive Level where
  | error | warning | info
deriving DecidableEq

/-- `DiagKind`. -/
inductive DiagKind where
  | unknownIdent | typeMismatch | dataflow | propertySchema | other
deriving DecidableEq

/-- `Diagnostic`, without spans and help. -/
structure Diagnostic where
  level : Level
  kind : DiagKind
  message : String
deriving DecidableEq

/-- `Diagnostic::error_kind`. -/
def Diagnostic.errorKind (kind : DiagKind) (message : String) : Diagnostic :=
  ⟨.error, kind, message⟩

/-! ## What a body refers to -/

/-- `EVENT_IDENTS`: the names that belong to the event. -/
def eventIdents : List String :=
  ["ingress", "egress", "source", "received_at", "error", "workspace"]

section DefaultPosition

variable {B : Type} (pipelineName : String)

/-- The loop of `validate_switch_default_position`: `n` arms in all, at position `i`, with the
first default arm seen so far. -/
def defaultPositionFrom (n : ℕ) :
    ℕ → Option ℕ → List (Option Expr × B) → List Diagnostic
  | _, _, [] => []
  | i, firstDefault, (some _, _) :: rest => defaultPositionFrom n (i + 1) firstDefault rest
  | i, none, (none, _) :: rest =>
      (if i + 1 < n then
        [Diagnostic.errorKind .dataflow
          (s!"`switch` in pipeline '{pipelineName}': `default` arm is at position {i} of {n} " ++
            s!"but must be the last arm; the {n - i - 1} arm(s) after `default` are " ++
            "unreachable (the runtime dispatches at the first match)")]
      else []) ++ defaultPositionFrom n (i + 1) (some i) rest
  | i, some prev, (none, _) :: rest =>
      Diagnostic.errorKind .dataflow
        (s!"`switch` in pipeline '{pipelineName}': multiple `default` arms (positions {prev} " ++
          s!"and {i}); only one is allowed and only the first runs") ::
        defaultPositionFrom n (i + 1) (some prev) rest

/-- `validate_switch_default_position`: a default that is not the last arm. -/
def validateSwitchDefaultPosition (arms : List (Option Expr × B)) : List Diagnostic :=
  defaultPositionFrom pipelineName arms.length 0 none arms

end DefaultPosition

section Purity

variable {World : Type} (fnName : String) (config : CompiledConfig)
  (registry : FunctionRegistry World)

/-- An identifier in a body that knows some names. -/
def identDiagnostics (known : List String) (parts : List String) : List Diagnostic :=
  match parts with
  | [] => []
  | head :: rest =>
      if rest = [] ∧ head ∈ known then []
      else if head ∈ eventIdents then
        [.errorKind .unknownIdent
          (s!"[function {fnName}] body references Event-bound identifier " ++
            s!"`{dotted parts}` — functions are pure and may only read their parameters")]
      else if rest = [] then
        [.errorKind .unknownIdent
          s!"[function {fnName}] body references unknown identifier `{head}` — not a parameter"]
      else if head ∈ known then []
      else
        [.errorKind .unknownIdent
          (s!"[function {fnName}] body references unknown path `{dotted parts}` — " ++
            s!"head `{head}` is neither a parameter nor an Event-bound identifier")]

/-- A call in a body. -/
def callDiagnostics (ns : Option String) (name : String) : List Diagnostic :=
  if ns = none ∧ name ∈ config.processes then
    [.errorKind .unknownIdent
      (s!"[function {fnName}] body calls process `{name}` — " ++
        "functions can only call other functions and built-in primitives")]
  else if registry.signatures (ns, name) = none ∧ ¬ (ns = none ∧ name ∈ config.functionNames) then
    [.errorKind .unknownIdent
      s!"[function {fnName}] call to unknown function `{FunctionRegistry.qualifiedName ns name}`"]
  else []

mutual

/-- `walk_for_purity`. -/
def walkForPurity (known : List String) : Expr → List Diagnostic
  | .template fragments => walkFragments known fragments
  | .ident parts => identDiagnostics fnName known parts
  | .funcCall ns name args none =>
      callDiagnostics fnName config registry ns name ++ walkArgs known args
  | .funcCall ns name args (some (.mk params lets ret)) =>
      callDiagnostics fnName config registry ns name ++ walkArgs known args ++
        (walkLets (params ++ known) lets ++
          walkForPurity ((lets.map Prod.fst).reverse ++ (params ++ known)) ret)
  | .binOp left _ right => walkForPurity known left ++ walkForPurity known right
  | .unaryOp _ operand => walkForPurity known operand
  | .hashLit entries => walkEntries known entries
  | .arrayLit items => walkArgs known items
  | .propertyAccess base _ => walkForPurity known base
  | .switchExpr scrutinee arms =>
      walkForPurity known scrutinee ++ walkArms known arms ++
        validateSwitchDefaultPosition fnName arms
  | _ => []

def walkArgs (known : List String) : List Expr → List Diagnostic
  | [] => []
  | e :: rest => walkForPurity known e ++ walkArgs known rest

def walkFragments (known : List String) : List TemplateFragment → List Diagnostic
  | [] => []
  | .literal _ :: rest => walkFragments known rest
  | .interp e :: rest => walkForPurity known e ++ walkFragments known rest

def walkEntries (known : List String) : List (String × Expr) → List Diagnostic
  | [] => []
  | (_, e) :: rest => walkForPurity known e ++ walkEntries known rest

def walkArms (known : List String) : List (Option Expr × Expr) → List Diagnostic
  | [] => []
  | (none, body) :: rest => walkForPurity known body ++ walkArms known rest
  | (some pattern, body) :: rest =>
      walkForPurity known pattern ++ walkForPurity known body ++ walkArms known rest

/-- A `let` is known after its own value. -/
def walkLets (known : List String) : List (String × Expr) → List Diagnostic
  | [] => []
  | (name, e) :: rest => walkForPurity known e ++ walkLets (name :: known) rest

end

end Purity

/-- `check_function_body`: parameters, reserved names, `let`s and the returned expression. -/
def checkFunctionBody {World : Type} (config : CompiledConfig)
    (registry : FunctionRegistry World) (fnDef : FunctionDef) : List Diagnostic :=
  walkLets fnDef.name config registry fnDef.params fnDef.lets ++
    walkForPurity fnDef.name config registry
      ((fnDef.lets.map Prod.fst).reverse ++ fnDef.params) fnDef.ret

/-! ## Whom a body calls -/

section Callees

variable (config : CompiledConfig)

mutual

/-- `collect_user_callees`: the block of a call is not visited. -/
def collectUserCallees : Expr → List String
  | .template fragments => collectFragments fragments
  | .funcCall ns name args _ =>
      (if ns = none ∧ name ∈ config.functionNames then [name] else []) ++ collectArgs args
  | .binOp left _ right => collectUserCallees left ++ collectUserCallees right
  | .unaryOp _ operand => collectUserCallees operand
  | .hashLit entries => collectEntries entries
  | .arrayLit items => collectArgs items
  | .propertyAccess base _ => collectUserCallees base
  | .switchExpr scrutinee arms => collectUserCallees scrutinee ++ collectArms arms
  | _ => []

def collectArgs : List Expr → List String
  | [] => []
  | e :: rest => collectUserCallees e ++ collectArgs rest

def collectFragments : List TemplateFragment → List String
  | [] => []
  | .literal _ :: rest => collectFragments rest
  | .interp e :: rest => collectUserCallees e ++ collectFragments rest

def collectEntries : List (String × Expr) → List String
  | [] => []
  | (_, e) :: rest => collectUserCallees e ++ collectEntries rest

def collectArms : List (Option Expr × Expr) → List String
  | [] => []
  | (none, body) :: rest => collectUserCallees body ++ collectArms rest
  | (some pattern, body) :: rest =>
      collectUserCallees pattern ++ collectUserCallees body ++ collectArms rest

end

/-- `adj.get(name)`: the callees found in a function. -/
def callees (name : String) : Option (List String) :=
  (config.function name).map fun fnDef =>
    collectEntries config fnDef.lets ++ collectUserCallees config fnDef.ret

end Callees

/-! ## Cycles of calls -/

/-- Where the search stands with a name. -/
inductive Color where
  | unvisited | onStack | done
deriving DecidableEq

/-- What `dfs_cycle` changes, with the diagnostics it has appended. -/
structure DfsState where
  color : String → Color
  stack : List String
  reported : List (List String)
  diagnostics : List Diagnostic

namespace DfsState

/-- No name is visited. -/
def initial : DfsState :=
  { color := fun _ => .unvisited, stack := [], reported := [], diagnostics := [] }

/-- A name changes its colour. -/
def setColor (node : String) (color : Color) (s : DfsState) : DfsState :=
  { s with color := fun n => if n = node then color else s.color n }

end DfsState

/-- The index of the first of the least names. -/
def minIndex (names : List String) : ℕ :=
  names.findIdx fun name => names.all fun other => decide (name ≤ other)

/-- The text about a cycle of functions, or of processes. -/
def cycleMessage (declared : String) (cycle : List String) : String :=
  let path := match cycle with
    | [name] => s!"`{name}` calls itself"
    | _ => "`" ++ "` → `".intercalate cycle ++ "` → `" ++ cycle.headD "" ++ "`"
  s!"{declared} call cycle detected: {path}; recursion in `def {declared}` is not supported"

/-! The search of `check/function.rs` and that of `check/process.rs` differ in this word only. -/

section Search

variable (declared : String)

/-- A call back to a name on the stack: each cycle is reported once, wherever it is entered. -/
def reportCycle (callee : String) (s : DfsState) : DfsState :=
  let cycle := s.stack.drop ((s.stack.idxOf? callee).getD 0)
  let canon := cycle.rotate (minIndex cycle)
  if canon ∈ s.reported then s
  else
    { s with
      reported := canon :: s.reported
      diagnostics := s.diagnostics ++ [.errorKind .other (cycleMessage declared cycle)] }

/-- The loop body of `dfs_cycle`. -/
def visitCallee (dfs : String → DfsState → DfsState) (s : DfsState) (callee : String) :
    DfsState :=
  match s.color callee with
  | .unvisited => dfs callee s
  | .onStack => reportCycle declared callee s
  | .done => s

/-- `dfs_cycle` and `visit_process`, nested at most `fuel` deep. -/
def dfsCycle (adj : String → Option (List String)) : ℕ → String → DfsState → DfsState
  | 0, _, s => s
  | fuel + 1, node, s =>
      let s := s.setColor node .onStack
      let s := { s with stack := s.stack ++ [node] }
      let s := ((adj node).getD []).foldl (visitCallee declared (dfsCycle adj fuel)) s
      let s := s.setColor node .done
      { s with stack := s.stack.dropLast }

/-- The loop body of `check_function_cycles` and of `check_process_cycles`. -/
def visitRoot (dfs : String → DfsState → DfsState) (s : DfsState) (name : String) : DfsState :=
  if s.color name = .unvisited then dfs name s else s

/-- The search from every name.  It colours a node on the stack for each level, so it is never
deeper than there are names. -/
def checkCycles (adj : String → Option (List String)) (names : List String) : List Diagnostic :=
  (names.foldl (visitRoot (dfsCycle declared adj names.length)) .initial).diagnostics

end Search

/-- `check_function_cycles`, with the keys of `adj` in their order. -/
def checkFunctionCycles (config : CompiledConfig) (names : List String) : List Diagnostic :=
  checkCycles "function" (callees config) names

/-- `check_all_functions`: each body, then the cycles. -/
def checkAllFunctions {World : Type} (config : CompiledConfig) (names : List String)
    (registry : FunctionRegistry World) : List Diagnostic :=
  config.functions.flatMap (checkFunctionBody config registry) ++ checkFunctionCycles config names

/-- No error is among the diagnostics. -/
def Accepted {World : Type} (config : CompiledConfig) (names : List String)
    (registry : FunctionRegistry World) : Prop :=
  ∀ d ∈ checkAllFunctions config names registry, d.level ≠ .error

end Limpid.Check
