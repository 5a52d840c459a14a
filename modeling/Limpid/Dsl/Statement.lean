import Limpid.Dsl.Ast

/-!
# The syntax of processes and pipelines

The statements of `dsl/ast.rs`, without the source spans.  A branch of an `if` or a `switch` is a
list of `BranchBody`, for process bodies and pipeline bodies alike: nothing in the syntax keeps a
pipeline statement out of a process body.  `ownKind` says that there is none.

`calls` are the names a body calls, `elements` the elements of the process chains of a pipeline
body and `outputs` the outputs it names, each as often as it occurs and in the order in which the
compiler meets it.
-/

namespace Limpid.Dsl

mutual

/-- `ProcessStatement`. -/
inductive ProcessStatement where
  | assign (target : AssignTarget) (value : Expr)
  | letBinding (name : String) (value : Expr)
  | processCall (name : String)
  | drop
  | error (message : Option Expr)
  | ifChain (branches : List (Expr × List BranchBody)) (elseBody : Option (List BranchBody))
  | switch (discriminant : Expr) (arms : List (Option Expr × List BranchBody))
  | tryCatch (tryBody catchBody : List ProcessStatement)
  | exprStmt (e : Expr)

/-- `ProcessChainElement`. -/
inductive ProcessChainElement where
  | named (name : String)
  | inline (body : List ProcessStatement)

/-- `PipelineStatement`. -/
inductive PipelineStatement where
  | input (names : List String)
  | processChain (chain : List ProcessChainElement)
  | output (name : String)
  | drop
  | finish
  | error (message : Option Expr)
  | ifChain (branches : List (Expr × List BranchBody)) (elseBody : Option (List BranchBody))
  | switch (discriminant : Expr) (arms : List (Option Expr × List BranchBody))

/-- `BranchBody`: a branch holds statements of both kinds. -/
inductive BranchBody where
  | process (statement : ProcessStatement)
  | pipeline (statement : PipelineStatement)

end

/-- `ProcessDef`. -/
structure ProcessDef where
  name : String
  body : List ProcessStatement

/-- `PipelineDef`. -/
structure PipelineDef where
  name : String
  body : List PipelineStatement

/-! ## Processes -/

namespace ProcessStatement

mutual

/-- Every branch of the body holds process statements. -/
def ownKind : List ProcessStatement → Bool
  | [] => true
  | statement :: rest => ownKindOf statement && ownKind rest

def ownKindOf : ProcessStatement → Bool
  | .ifChain branches none => ownKindBranches branches
  | .ifChain branches (some elseBody) => ownKindBranches branches && ownKindBranch elseBody
  | .switch _ arms => ownKindArms arms
  | .tryCatch tryBody catchBody => ownKind tryBody && ownKind catchBody
  | _ => true

def ownKindBranch : List BranchBody → Bool
  | [] => true
  | .process statement :: rest => ownKindOf statement && ownKindBranch rest
  | .pipeline _ :: _ => false

def ownKindBranches : List (Expr × List BranchBody) → Bool
  | [] => true
  | (_, body) :: rest => ownKindBranch body && ownKindBranches rest

def ownKindArms : List (Option Expr × List BranchBody) → Bool
  | [] => true
  | (_, body) :: rest => ownKindBranch body && ownKindArms rest

end

mutual

/-- The processes a body calls. -/
def calls : List ProcessStatement → List String
  | [] => []
  | statement :: rest => callsOf statement ++ calls rest

def callsOf : ProcessStatement → List String
  | .processCall name => [name]
  | .ifChain branches none => callsBranches branches
  | .ifChain branches (some elseBody) => callsBranches branches ++ callsBranch elseBody
  | .switch _ arms => callsArms arms
  | .tryCatch tryBody catchBody => calls tryBody ++ calls catchBody
  | _ => []

def callsBranch : List BranchBody → List String
  | [] => []
  | .process statement :: rest => callsOf statement ++ callsBranch rest
  | .pipeline _ :: rest => callsBranch rest

def callsBranches : List (Expr × List BranchBody) → List String
  | [] => []
  | (_, body) :: rest => callsBranch body ++ callsBranches rest

def callsArms : List (Option Expr × List BranchBody) → List String
  | [] => []
  | (_, body) :: rest => callsBranch body ++ callsArms rest

end

end ProcessStatement

/-! ## Pipelines -/

/-- A process of a chain is one of the configuration or is written in the chain. -/
def ProcessChainElement.ownKind : ProcessChainElement → Bool
  | .named _ => true
  | .inline body => ProcessStatement.ownKind body

namespace PipelineStatement

mutual

/-- Every branch of the body holds pipeline statements, and every inline process is of its own
kind. -/
def ownKind : List PipelineStatement → Bool
  | [] => true
  | statement :: rest => ownKindOf statement && ownKind rest

def ownKindOf : PipelineStatement → Bool
  | .processChain chain => chain.all ProcessChainElement.ownKind
  | .ifChain branches none => ownKindBranches branches
  | .ifChain branches (some elseBody) => ownKindBranches branches && ownKindBranch elseBody
  | .switch _ arms => ownKindArms arms
  | _ => true

def ownKindBranch : List BranchBody → Bool
  | [] => true
  | .process _ :: _ => false
  | .pipeline statement :: rest => ownKindOf statement && ownKindBranch rest

def ownKindBranches : List (Expr × List BranchBody) → Bool
  | [] => true
  | (_, body) :: rest => ownKindBranch body && ownKindBranches rest

def ownKindArms : List (Option Expr × List BranchBody) → Bool
  | [] => true
  | (_, body) :: rest => ownKindBranch body && ownKindArms rest

end

mutual

/-- The elements of the process chains of a body. -/
def elements : List PipelineStatement → List ProcessChainElement
  | [] => []
  | statement :: rest => elementsOf statement ++ elements rest

def elementsOf : PipelineStatement → List ProcessChainElement
  | .processChain chain => chain
  | .ifChain branches none => elementsBranches branches
  | .ifChain branches (some elseBody) => elementsBranches branches ++ elementsBranch elseBody
  | .switch _ arms => elementsArms arms
  | _ => []

def elementsBranch : List BranchBody → List ProcessChainElement
  | [] => []
  | .process _ :: rest => elementsBranch rest
  | .pipeline statement :: rest => elementsOf statement ++ elementsBranch rest

def elementsBranches : List (Expr × List BranchBody) → List ProcessChainElement
  | [] => []
  | (_, body) :: rest => elementsBranch body ++ elementsBranches rest

def elementsArms : List (Option Expr × List BranchBody) → List ProcessChainElement
  | [] => []
  | (_, body) :: rest => elementsBranch body ++ elementsArms rest

end

mutual

/-- The outputs a body names. -/
def outputs : List PipelineStatement → List String
  | [] => []
  | statement :: rest => outputsOf statement ++ outputs rest

def outputsOf : PipelineStatement → List String
  | .output name => [name]
  | .ifChain branches none => outputsBranches branches
  | .ifChain branches (some elseBody) => outputsBranches branches ++ outputsBranch elseBody
  | .switch _ arms => outputsArms arms
  | _ => []

def outputsBranch : List BranchBody → List String
  | [] => []
  | .process _ :: rest => outputsBranch rest
  | .pipeline statement :: rest => outputsOf statement ++ outputsBranch rest

def outputsBranches : List (Expr × List BranchBody) → List String
  | [] => []
  | (_, body) :: rest => outputsBranch body ++ outputsBranches rest

def outputsArms : List (Option Expr × List BranchBody) → List String
  | [] => []
  | (_, body) :: rest => outputsBranch body ++ outputsArms rest

end

end PipelineStatement

end Limpid.Dsl
