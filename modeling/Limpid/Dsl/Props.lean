import Limpid.Dsl.Eval

/-!
# Properties

The property lists of definitions (`Property` of `dsl/ast.rs`, without the spans and without what
was quoted) and the accessors that modules read them with (`dsl/props.rs`).  An accessor reads the
first property with the key; `get_int` and `get_ident` pass over those that are not of their form.
-/

namespace Limpid.Dsl

/-- A property without its spans. -/
inductive Property where
  | keyValue (key : String) (value : Expr)
  | block (key : String) (properties : List Property)

namespace Props

/-- What the accessors use of the formats of other types: the `Debug` form of an expression. -/
structure Formats where
  debugExpr : Expr → String

/-- The value of the first property with the key. -/
def getExpr (props : List Property) (key : String) : Option Expr :=
  props.findSome? fun
    | .keyValue k value => if k = key then some value else none
    | .block _ _ => none

section Source

variable (rt : Runtime) (formats : Formats)

/-- A string in quotes, with its backslashes and quotes escaped. -/
def quote (s : String) : String :=
  "\"" ++ String.ofList (s.toList.flatMap fun
    | '\\' => ['\\', '\\']
    | '"' => ['\\', '"']
    | c => [c]) ++ "\""

/-- `push_expr_source`: an expression as it is written. -/
def exprSource : Expr → String
  | .ident parts => dotted parts
  | .stringLit s => quote s
  | .intLit n => toString n.toInt
  | .floatLit n => rt.display n
  | .boolLit b => if b then "true" else "false"
  | .null => "null"
  | other => formats.debugExpr other

/-- `template_to_source`. -/
def templateToSource (frags : List TemplateFragment) : String :=
  String.join (frags.map fun
    | .literal s => s
    | .interp e => "$\x7b" ++ exprSource rt formats e ++ "\x7d")

/-- `get_string`. -/
def getString (props : List Property) (key : String) : Option String :=
  match getExpr props key with
  | some (.stringLit s) => some s
  | some (.template frags) => some (templateToSource rt formats frags)
  | some (.ident parts) => some (dotted parts)
  | some (.intLit n) => some (toString n.toInt)
  | _ => none

end Source

/-- The first part of the first identifier under the key. -/
def getIdent (props : List Property) (key : String) : Option String :=
  (props.findSome? fun
    | .keyValue k (.ident parts) => if k = key then some parts else none
    | _ => none).bind List.head?

/-- `true` and `false` may also be spelled as identifiers. -/
def getBool (props : List Property) (key : String) : Option Bool :=
  match getExpr props key with
  | some (.boolLit b) => some b
  | some (.ident ["true"]) => some true
  | some (.ident ["false"]) => some false
  | _ => none

/-- The first integer under the key. -/
def getInt (props : List Property) (key : String) : Option Int64 :=
  props.findSome? fun
    | .keyValue k (.intLit n) => if k = key then some n else none
    | _ => none

/-- `get_positive_int`: an error below zero. -/
def getPositiveInt (props : List Property) (key : String) : Except String (Option ℕ) :=
  match getInt props key with
  | some n =>
      if 0 ≤ n then .ok (some n.toInt.toNat)
      else .error s!"'{key}' must be non-negative, got {n.toInt}"
  | none => .ok none

/-- `get_strictly_positive_int`: an error below one. -/
def getStrictlyPositiveInt (props : List Property) (key : String) : Except String (Option ℕ) :=
  match getInt props key with
  | some n =>
      if 1 ≤ n then .ok (some n.toInt.toNat) else .error s!"'{key}' must be >= 1, got {n.toInt}"
  | none => .ok none

/-- The properties of the first block with the key. -/
def getBlock (props : List Property) (key : String) : Option (List Property) :=
  props.findSome? fun
    | .block k properties => if k = key then some properties else none
    | .keyValue _ _ => none

/-- The string entries of a map; a missing map and an empty block have none. -/
def getStringMap (props : List Property) (key : String) : List (String × String) :=
  match getExpr props key with
  | some (.hashLit entries) =>
      entries.filterMap fun
        | (k, .stringLit value) => some (k, value)
        | _ => none
  | _ => []

end Props

end Limpid.Dsl
