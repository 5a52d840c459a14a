import Limpid.Dsl.Value

/-!
# The syntax of expressions and functions

`dsl/ast.rs`, without the source spans.
-/

namespace Limpid.Dsl

/-- `BinOp`. -/
inductive BinOp where
  | eq | ne | lt | le | gt | ge
  | and | or
  | add | sub | mul | div | mod
deriving DecidableEq

/-- `UnaryOp`. -/
inductive UnaryOp where
  | not | neg
deriving DecidableEq

mutual

/-- `ExprKind`.  A switch arm without a pattern is the default arm. -/
inductive Expr where
  | stringLit (s : String)
  | template (fragments : List TemplateFragment)
  | intLit (n : Int64)
  | floatLit (n : F64)
  | boolLit (b : Bool)
  | null
  | ident (parts : List String)
  | funcCall (ns : Option String) (name : String) (args : List Expr) (blockArg : Option BlockArg)
  | binOp (left : Expr) (op : BinOp) (right : Expr)
  | unaryOp (op : UnaryOp) (operand : Expr)
  | hashLit (entries : List (String × Expr))
  | arrayLit (items : List Expr)
  | propertyAccess (base : Expr) (path : List String)
  | switchExpr (scrutinee : Expr) (arms : List (Option Expr × Expr))

/-- `TemplateFragment`: text, or an expression in `$\x7b \x7d`. -/
inductive TemplateFragment where
  | literal (s : String)
  | interp (e : Expr)

/-- The trailing `{ |x, …| let y = …; … ret }` of a call. -/
inductive BlockArg where
  | mk (params : List String) (lets : List (String × Expr)) (ret : Expr)

end

/-- `def function name(params) { let y = …; … ret }`. -/
structure FunctionDef where
  name : String
  params : List String
  lets : List (String × Expr)
  ret : Expr

/-- `AssignTarget`. -/
inductive AssignTarget where
  | egress
  | workspace (path : List String)
deriving DecidableEq

end Limpid.Dsl
