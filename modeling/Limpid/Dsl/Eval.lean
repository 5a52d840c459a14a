import Limpid.Event

/-!
# The evaluator

`dsl/eval.rs` and the dispatch of calls in `functions/mod.rs`.

`evalExpr` follows the expression; what a call of a named function does is a parameter of it, so
that the evaluator itself is a structural recursion.  `call` closes the loop: a user function's
body is evaluated with `call` one level down, and with no levels left there is no result.  The
program has no such bound, its stack has: a call that has no result at any depth does not
return.

Built-in functions are parameters.  They may read and change state of their own (tables, clocks),
which is the `world` every evaluation is threaded through.
-/

namespace Limpid.Dsl

/-! ## Computations -/

/-- A computation that may fail, in a world that is changed on the way; `none` if it runs out of
depth. -/
def Eval (World α : Type) : Type := World → Option (Except String α × World)

namespace Eval

variable {World α β : Type}

/-- `Ok`. -/
def ok (a : α) : Eval World α := fun world => some (.ok a, world)

/-- `bail!`. -/
def bail (message : String) : Eval World α := fun world => some (.error message, world)

/-- An evaluation after another, as `?` has it. -/
def bind (x : Eval World α) (f : α → Eval World β) : Eval World β := fun world =>
  match x world with
  | none => none
  | some (.error message, world) => some (.error message, world)
  | some (.ok a, world) => f a world

instance : Monad (Eval World) where
  pure := ok
  bind := bind

/-- Run out of depth. -/
def diverge : Eval World α := fun _ => none

/-- What runs out of depth is not continued. -/
theorem bind_eq_none {x : Eval World α} {world : World} (h : x world = none)
    (f : α → Eval World β) : bind x f world = none := by
  unfold bind
  rw [h]

/-- A result without a call. -/
def ofExcept : Except String α → Eval World α
  | .ok a => ok a
  | .error message => bail message

end Eval

/-! ## Scopes -/

/-- `LocalScope`: a hash map, listed with the latest binding of a name first. -/
abbrev LocalScope := List (String × Value)

/-- `bind`: the innermost binding comes first. -/
def LocalScope.bind (name : String) (value : Value) (scope : LocalScope) : LocalScope :=
  (name, value) :: scope

/-- `get`. -/
def LocalScope.get (name : String) (scope : LocalScope) : Option Value :=
  scope.lookup name

/-- Bind parameters to values, as far as both go. -/
def LocalScope.bindAll : List String → List Value → LocalScope → LocalScope
  | param :: params, value :: values, scope => bindAll params values (scope.bind param value)
  | _, _, scope => scope

/-! ## Operators -/

section Operators

variable (rt : Runtime)

/-- The equality of `==` and of the statement form of `switch`. -/
def valuesMatch : Value → Value → Bool
  | .int a, .int b => a = b
  | .float a, .float b => rt.eq a b
  | .int a, .float b => rt.eq (rt.ofInt a) b
  | .float b, .int a => rt.eq (rt.ofInt a) b
  | .string a, .string b => a = b
  | .bytes a, .bytes b => a = b
  | .bool a, .bool b => a = b
  | .null, .null => true
  | .array a, .array b => Value.beqItems rt a b
  | .object a, .object b => Value.beqEntries rt a b
  | _, _ => false

/-- The equality of the expression form of `switch`. -/
def valuesEqual : Value → Value → Bool
  | .null, .null => true
  | .bool a, .bool b => a = b
  | .int a, .int b => a = b
  | .float a, .float b => rt.eq a b
  | .int a, .float b => rt.eq (rt.ofInt a) b
  | .float b, .int a => rt.eq (rt.ofInt a) b
  | .string a, .string b => a = b
  | _, _ => false

mutual

/-- `value_to_string`. -/
def valueToString : Value → String
  | .string s => s
  | .null => ""
  | .bool b => if b then "true" else "false"
  | .int n => toString n.toInt
  | .float n =>
      if rt.eq (rt.fract n) .zero && rt.isFinite n then toString (rt.toInt n).toInt
      else rt.display n
  | .bytes _ => "<bytes>"
  | .timestamp instant => rt.toRfc3339 instant
  | .array items => "[" ++ ", ".intercalate (itemsToString items) ++ "]"
  | .object entries => "\x7b" ++ ", ".intercalate (entriesToString entries) ++ "\x7d"

def itemsToString : List Value → List String
  | [] => []
  | item :: rest => valueToString item :: itemsToString rest

def entriesToString : List (String × Value) → List String
  | [] => []
  | (key, value) :: rest => (key ++ ": " ++ valueToString value) :: entriesToString rest

end

/-- `value_to_f64`. -/
def valueToF64 : Value → F64
  | .int n => rt.ofInt n
  | .float n => n
  | .string s => (rt.parse s).getD .zero
  | .bool true => .one
  | _ => .zero

/-- Bytes in lexicographic order. -/
def compareBytes : Bytes → Bytes → Ordering
  | [], [] => .eq
  | [], _ :: _ => .lt
  | _ :: _, [] => .gt
  | a :: as, b :: bs => if a < b then .lt else if b < a then .gt else compareBytes as bs

/-- `compare_values`: numbers, strings and timestamps, each among themselves. -/
def compareValues : Value → Value → Option Ordering
  | .int a, .int b => some (if a < b then .lt else if a = b then .eq else .gt)
  | .float a, .float b => rt.partialCmp a b
  | .int a, .float b => rt.partialCmp (rt.ofInt a) b
  | .float a, .int b => rt.partialCmp a (rt.ofInt b)
  | .bytes a, .bytes b => some (compareBytes a b)
  | _, _ => none

/-- `2 ^ 63` on the `f64` side is the negation of the least integer. -/
def numericValueFromF64 (n : F64) : Value :=
  let i64Min := rt.ofInt Int64.minValue
  let i64MaxExclusive := rt.neg i64Min
  if rt.isFinite n ∧ rt.eq (rt.fract n) .zero ∧
      (rt.partialCmp n i64Min = some .gt ∨ rt.partialCmp n i64Min = some .eq) ∧
      rt.partialCmp n i64MaxExclusive = some .lt then .int (rt.toInt n)
  else if rt.isFinite n then .float n
  else .null

/-- The action and the symbol of an arithmetic operator, for its messages. -/
def arithmeticLabels : BinOp → String × String
  | .add => ("add", "+")
  | .sub => ("subtract", "-")
  | .mul => ("multiply", "*")
  | .div => ("divide", "/")
  | _ => ("modulo", "%")

/-- A result that must fit in an `i64`. -/
def checkedInt (n : Int) : Option Int64 :=
  if Int64.minValue.toInt ≤ n ∧ n ≤ Int64.maxValue.toInt then some (Int64.ofInt n) else none

/-- `exact_int_op`: `i64` division truncates. -/
def exactIntOp (op : BinOp) (left right : Int64) : Except String Int64 :=
  let result := match op with
    | .add => checkedInt (left.toInt + right.toInt)
    | .sub => checkedInt (left.toInt - right.toInt)
    | .mul => checkedInt (left.toInt * right.toInt)
    | .div => if right = 0 then some 0 else checkedInt (left.toInt.tdiv right.toInt)
    | _ =>
        if right = 0 then some 0
        else (checkedInt (left.toInt.tdiv right.toInt)).bind fun _ =>
          checkedInt (left.toInt.tmod right.toInt)
  match result with
  | some n => .ok n
  | none =>
      let symbol := (arithmeticLabels op).2
      .error s!"integer overflow for operator `{symbol}`: {left.toInt} {symbol} {right.toInt} exceeds i64"

/-- The `f64` form of an arithmetic operator. -/
def f64Op (op : BinOp) (a b : F64) : F64 :=
  match op with
  | .add => rt.add a b
  | .sub => rt.sub a b
  | .mul => rt.mul a b
  | .div => if rt.eq b .zero then .zero else rt.div a b
  | _ => if rt.eq b .zero then .zero else rt.rem a b

/-- `numeric_op`: integers with overflow checks, else floats. -/
def numericOp (op : BinOp) (left right : Value) : Except String Value :=
  match left, right with
  | .bytes _, _ => .error s!"cannot {(arithmeticLabels op).1} a bytes value"
  | _, .bytes _ => .error s!"cannot {(arithmeticLabels op).1} a bytes value"
  | .int a, .int b => (exactIntOp op a b).map .int
  | _, _ =>
      .ok (numericValueFromF64 rt (f64Op rt op (valueToF64 rt left) (valueToF64 rt right)))

/-- `add_values`: numbers, or texts put together. -/
def addValues (left right : Value) : Except String Value :=
  match left, right with
  | .bytes a, .bytes b => .ok (.bytes (a ++ b))
  | .bytes _, _ | _, .bytes _ =>
      .error s!"cannot concatenate {left.typeName} and {right.typeName} (only bytes + bytes is supported)"
  | .string _, _ | _, .string _ =>
      .ok (.string (valueToString rt left ++ valueToString rt right))
  | _, _ => numericOp rt .add left right

/-- `eval_bin_op`. -/
def evalBinOp (left : Value) (op : BinOp) (right : Value) : Except String Value :=
  let order := compareValues rt left right
  match op with
  | .eq => .ok (.bool (valuesMatch rt left right))
  | .ne => .ok (.bool (!valuesMatch rt left right))
  | .lt => .ok (.bool (order = some .lt))
  | .le => .ok (.bool (order = some .lt ∨ order = some .eq))
  | .gt => .ok (.bool (order = some .gt))
  | .ge => .ok (.bool (order = some .gt ∨ order = some .eq))
  | .and => .ok (.bool (left.isTruthy rt && right.isTruthy rt))
  | .or => .ok (.bool (left.isTruthy rt || right.isTruthy rt))
  | .add => addValues rt left right
  | op => numericOp rt op left right

/-- `eval_unary_op`. -/
def evalUnaryOp (op : UnaryOp) (value : Value) : Except String Value :=
  match op, value with
  | .not, value => .ok (.bool (!value.isTruthy rt))
  | .neg, .bytes _ => .error "cannot negate a bytes value"
  | .neg, value => .ok (numericValueFromF64 rt (rt.neg (valueToF64 rt value)))

end Operators

/-! ## Identifiers -/

section Identifiers

variable {World : Type}

/-- Bytes that are UTF-8 are a string. -/
def bytesToValue (bytes : Bytes) : Value :=
  match String.fromUTF8? ⟨bytes.toArray⟩ with
  | some s => .string s
  | none => .bytes bytes

/-- The first entry of a key. -/
def entry (key : String) (entries : List (String × Value)) : Value :=
  (entries.lookup key).getD .null

/-- `resolve_workspace_path`: what is not there is null. -/
def resolveWorkspacePath : List String → Value → Except String Value
  | [], value => .ok value
  | key :: rest, value =>
      match value with
      | .object entries => resolveWorkspacePath rest (entry key entries)
      | .bytes _ => .error s!"cannot access field `{key}` on a bytes value"
      | _ => .ok .null

/-- A path as it is written. -/
def dotted (parts : List String) : String := ".".intercalate parts

/-- `source.ip`. -/
def sourceIp (event : BorrowedEvent) : Value := .string (String.ofList event.source.ip.display)

/-- `source.port`. -/
def sourcePort (event : BorrowedEvent) : Value := .int (Int64.ofNat event.source.port.toNat)

/-- `resolve_ident`: a `let`, a field of the event, or a path of the workspace. -/
def resolveIdent (parts : List String) (event : BorrowedEvent) (scope : LocalScope) :
    Except String Value :=
  match parts with
  | [] => .error "unknown identifier: "
  | head :: rest =>
      match scope.get head with
      | some root => resolveWorkspacePath rest root
      | none =>
          match head, rest with
          | "ingress", _ => .ok (bytesToValue event.ingress)
          | "egress", _ => .ok (bytesToValue event.egress)
          | "received_at", _ => .ok (.timestamp event.receivedAt)
          | "source", [] =>
              .ok (.object [("ip", sourceIp event), ("port", sourcePort event)])
          | "source", ["ip"] => .ok (sourceIp event)
          | "source", ["port"] => .ok (sourcePort event)
          | "source", rest =>
              .error s!"unknown ident path: source.{dotted rest} — only source.ip / source.port are defined"
          | "error", _ => .ok ((event.workspaceGet "_error").getD .null)
          | "workspace", [] => .ok (.object event.workspace)
          | "workspace", key :: rest =>
              resolveWorkspacePath rest ((event.workspaceGet key).getD .null)
          | _, _ => .error s!"unknown identifier: {dotted parts}"

/-- The loop of `PropertyAccess`. -/
def accessPath : List String → Value → Except String Value
  | [], value => .ok value
  | field :: rest, value =>
      match value with
      | .object entries => accessPath rest (entry field entries)
      | .bytes _ => .error s!"cannot access field `{field}` on a bytes value"
      | _ => accessPath rest .null

end Identifiers

/-! ## The block primitives -/

section Blocks

variable {World : Type} (rt : Runtime)

namespace Eval

/-- Run computations in order. -/
def collect {α : Type} : List (Eval World α) → Eval World (List α)
  | [] => ok []
  | x :: rest => do
      let a ← x
      let as ← collect rest
      return a :: as

/-- The elements whose test is true. -/
def filterM' {α : Type} (test : α → Eval World Bool) : List α → Eval World (List α)
  | [] => ok []
  | a :: rest => do
      let keep ← test a
      let kept ← filterM' test rest
      return if keep then a :: kept else kept

/-- The first element whose test is true; no test is run after it. -/
def findM' {α : Type} (test : α → Eval World Bool) : List α → Eval World (Option α)
  | [] => ok none
  | a :: rest => do
      let found ← test a
      if found then ok (some a) else findM' test rest

/-- A fold whose steps are evaluations. -/
def foldM' {α β : Type} (f : β → α → Eval World β) : β → List α → Eval World β
  | acc, [] => ok acc
  | acc, a :: rest => do
      let acc ← f acc a
      foldM' f acc rest

end Eval

open Eval

/-- A collection argument, as the values to bind for each element. -/
inductive Collection where
  | array (items : List Value)
  | object (entries : List (String × Value))
  | null

/-- `expect_collection_arg`. -/
def expectCollectionArg (name : String) (expected : ℕ) (args : List (Eval World Value)) :
    Eval World Collection :=
  if args.length ≠ expected then
    bail s!"{name}() with a block expects {expected} argument(s), got {args.length}"
  else
    match args with
    | [] => bail "index out of bounds"
    | first :: _ => do
        let value ← first
        match value with
        | .array items => ok (.array items)
        | .object entries => ok (.object entries)
        | .null => ok .null
        | other =>
            bail s!"{name}() expects an array or object as its first argument, got {other.typeName}"

/-- The check of the number of block parameters, with an example of the right number. -/
def expectBlockArity (name : String) (params : List String) (collectionType : String)
    (expected : ℕ) (names : String) : Eval World Unit :=
  if params.length ≠ expected then
    bail (s!"{name}() over an {collectionType} requires exactly {expected} block parameter(s) " ++
      "(`\x7b |" ++ names ++ "| ... \x7d`); got " ++ toString params.length)
  else ok ()

def entryArgs (entry : String × Value) : List Value := [.string entry.1, entry.2]

variable (params : List String) (body : List Value → Eval World Value)

/-- `map` with a block. -/
def evalMap (args : List (Eval World Value)) : Eval World Value := do
  match ← expectCollectionArg "map" 1 args with
  | .array items => do
      expectBlockArity "map" params "array" 1 "x"
      let out ← collect (items.map fun item => body [item])
      return .array out
  | .object entries => do
      expectBlockArity "map" params "object" 2 "key, value"
      let out ← collect (entries.map fun entry => body (entryArgs entry))
      return .array out
  | .null => do
      expectBlockArity "map" params "array" 1 "x"
      return .array []

/-- Whether the block's value is true. -/
def test (args : List Value) : Eval World Bool := do
  let value ← body args
  return value.isTruthy rt

/-- `filter` with a block. -/
def evalFilter (args : List (Eval World Value)) : Eval World Value := do
  match ← expectCollectionArg "filter" 1 args with
  | .array items => do
      expectBlockArity "filter" params "array" 1 "x"
      let out ← filterM' (fun item => test rt body [item]) items
      return .array out
  | .object entries => do
      expectBlockArity "filter" params "object" 2 "key, value"
      let out ← filterM' (fun entry => test rt body (entryArgs entry)) entries
      return .object out
  | .null => do
      expectBlockArity "filter" params "array" 1 "x"
      return .array []

/-- `find` with a block. -/
def evalFind (args : List (Eval World Value)) : Eval World Value := do
  match ← expectCollectionArg "find" 1 args with
  | .array items => do
      expectBlockArity "find" params "array" 1 "x"
      let found ← findM' (fun item => test rt body [item]) items
      return found.getD .null
  | .object entries => do
      expectBlockArity "find" params "object" 2 "key, value"
      let found ← findM' (fun entry => test rt body (entryArgs entry)) entries
      return (found.map fun entry => .array (entryArgs entry)).getD .null
  | .null => do
      expectBlockArity "find" params "array" 1 "x"
      return .null

/-- `reduce` with a block. -/
def evalReduce (args : List (Eval World Value)) : Eval World Value := do
  let collection ← expectCollectionArg "reduce" 2 args
  match collection with
  | .object _ => expectBlockArity "reduce" params "object" 3 "acc, key, value"
  | _ => expectBlockArity "reduce" params "array" 2 "acc, x"
  let acc ← args.getD 1 (bail "index out of bounds")
  match collection with
  | .array items => foldM' (fun acc item => body [acc, item]) acc items
  | .object entries => foldM' (fun acc entry => body (acc :: entryArgs entry)) acc entries
  | .null => ok acc

/-- `eval_block_primitive`, given the computations of the arguments and of the block. -/
def evalBlockPrimitive (ns : Option String) (name : String) (args : List (Eval World Value)) :
    Eval World Value :=
  match ns with
  | some ns =>
      bail ("block-arg primitives are flat-namespaced; " ++ ns ++ "." ++ name ++
        " does not accept a `\x7b |x| ... \x7d` block")
  | none =>
      match name with
      | "map" => evalMap params body args
      | "filter" => evalFilter rt params body args
      | "find" => evalFind rt params body args
      | "reduce" => evalReduce params body args
      | other =>
          bail s!"function `{other}` does not accept a block argument (only map / filter / find / reduce do)"

end Blocks

/-! ## Expressions -/

section Expressions

open Eval

variable {World : Type} (rt : Runtime) (event : BorrowedEvent)
  (call : Option String → String → List Value → Eval World Value)

mutual

/-- `eval_expr_with_scope`. -/
def evalExpr (scope : LocalScope) : Expr → Eval World Value
  | .stringLit s => ok (.string s)
  | .template fragments => do
      let out ← evalFragments scope fragments
      return .string out
  | .intLit n => ok (.int n)
  | .floatLit n => ok (.float n)
  | .boolLit b => ok (.bool b)
  | .null => ok .null
  | .ident parts => ofExcept (resolveIdent parts event scope)
  | .funcCall ns name args none => do
      let values ← collect (evalArgs scope args)
      call ns name values
  | .funcCall ns name args (some (.mk params lets ret)) =>
      evalBlockPrimitive rt params
        (fun values =>
          if values.length ≠ params.length then
            bail s!"block arity mismatch: declared {params.length} parameter(s) but caller bound {values.length}"
          else do
            let inner ← evalLets (scope.bindAll params values) lets
            evalExpr inner ret)
        ns name (evalArgs scope args)
  | .binOp left op right => do
      let left ← evalExpr scope left
      let right ← evalExpr scope right
      ofExcept (evalBinOp rt left op right)
  | .unaryOp op operand => do
      let value ← evalExpr scope operand
      ofExcept (evalUnaryOp rt op value)
  | .hashLit entries => do
      let out ← evalEntries scope entries
      return .object out
  | .arrayLit items => do
      let out ← collect (evalArgs scope items)
      return .array out
  | .propertyAccess base path => do
      let value ← evalExpr scope base
      ofExcept (accessPath path value)
  | .switchExpr scrutinee arms => do
      let target ← evalExpr scope scrutinee
      evalArms scope target arms

/-- The computations of expressions. -/
def evalArgs (scope : LocalScope) : List Expr → List (Eval World Value)
  | [] => []
  | e :: rest => evalExpr scope e :: evalArgs scope rest

def evalFragments (scope : LocalScope) : List TemplateFragment → Eval World String
  | [] => ok ""
  | .literal s :: rest => do
      let out ← evalFragments scope rest
      return s ++ out
  | .interp e :: rest => do
      match ← evalExpr scope e with
      | .bytes _ =>
          bail "cannot interpolate bytes into a string template (use to_string() first)"
      | value => do
          let out ← evalFragments scope rest
          return valueToString rt value ++ out

def evalEntries (scope : LocalScope) : List (String × Expr) → Eval World (List (String × Value))
  | [] => ok []
  | (key, e) :: rest => do
      let value ← evalExpr scope e
      let out ← evalEntries scope rest
      return (key, value) :: out

/-- The first arm that is the default or whose pattern equals the target. -/
def evalArms (scope : LocalScope) (target : Value) : List (Option Expr × Expr) → Eval World Value
  | [] => ok .null
  | (none, body) :: _ => evalExpr scope body
  | (some pattern, body) :: rest => do
      let value ← evalExpr scope pattern
      if valuesEqual rt target value then evalExpr scope body else evalArms scope target rest

/-- `let` bindings in order: the scope after them. -/
def evalLets (scope : LocalScope) : List (String × Expr) → Eval World LocalScope
  | [] => ok scope
  | (name, e) :: lets => do
      let value ← evalExpr scope e
      evalLets (scope.bind name value) lets

end

end Expressions

/-! ## Calls -/

/-- The types of arguments and results, as far as the static checks know them. -/
inductive FieldType where
  | string | int | float | bool | timestamp | null | object | array | bytes | any
  | union (members : List FieldType)

/-- `Arity`. -/
inductive Arity where
  | fixed
  | optional (required : ℕ)
  | variadic (min : ℕ)

/-- `FunctionSig`. -/
structure FunctionSig where
  args : List FieldType
  arity : Arity
  ret : FieldType

/-- `ExprFn`: a built-in function. -/
abbrev ExprFn (World : Type) :=
  List Value → BorrowedEvent → World → Except String Value × World

/-- The namespace and the name of a function. -/
abbrev FnKey := Option String × String

/-- `FunctionRegistry`, without the parser metadata of the static checks. -/
structure FunctionRegistry (World : Type) where
  functions : FnKey → Option (ExprFn World)
  /-- Whether some function is registered in a namespace. -/
  hasNamespace : String → Bool
  signatures : FnKey → Option FunctionSig
  userDefinitions : String → Option FunctionDef

namespace FunctionRegistry

open Eval

variable {World : Type}

/-- `register_user_functions` for the functions a configuration defines. -/
def registerUserFunctions (definitions : String → Option FunctionDef)
    (registry : FunctionRegistry World) : FunctionRegistry World :=
  { registry with
    signatures := fun key =>
      match key with
      | (none, name) =>
          match definitions name with
          | some fnDef => some ⟨fnDef.params.map fun _ => .any, .fixed, .any⟩
          | none => registry.signatures key
      | key => registry.signatures key
    userDefinitions := fun name => (definitions name).or (registry.userDefinitions name) }

/-- The number of arguments fits. -/
def arityOk (sig : FunctionSig) (actual : ℕ) : Bool :=
  match sig.arity with
  | .fixed => actual = sig.args.length
  | .optional required => required ≤ actual && actual ≤ sig.args.length
  | .variadic min => min ≤ actual

/-- The name with its namespace. -/
def qualifiedName (ns : Option String) (name : String) : String :=
  match ns with
  | some ns => ns ++ "." ++ name
  | none => name

/-- `validate_arity`. -/
def validateArity (ns : Option String) (name : String) (sig : FunctionSig) (actual : ℕ) :
    Except String Unit :=
  if arityOk sig actual then .ok ()
  else
    let expected := match sig.arity with
      | .fixed =>
          if sig.args.length = 1 then "1 argument" else s!"{sig.args.length} arguments"
      | .optional required =>
          if required = sig.args.length then s!"{required} arguments"
          else s!"{required} to {sig.args.length} arguments"
      | .variadic min => s!"at least {min} " ++ if min = 1 then "argument" else "arguments"
    .error s!"{qualifiedName ns name}() expects {expected}, got {actual}"

/-- The part of `call` for built-in functions. -/
def callBuiltin (registry : FunctionRegistry World) (event : BorrowedEvent) (ns : Option String)
    (name : String) (args : List Value) : Eval World Value :=
  match registry.functions (ns, name) with
  | none =>
      match ns with
      | none => bail s!"unknown function: {name}"
      | some ns =>
          if registry.hasNamespace ns then
            bail s!"unknown function '{ns}.{name}' in namespace '{ns}'"
          else bail s!"unknown function namespace: '{ns}'"
  | some f =>
      match (registry.signatures (ns, name)).map fun sig =>
        validateArity ns name sig args.length with
      | some (.error message) => bail message
      | _ => fun world =>
          let (result, world) := f args event world
          some (result, world)

/-- `call_user_function`, with what calls in the body do. -/
def callUserFunction (rt : Runtime) (event : BorrowedEvent)
    (call : Option String → String → List Value → Eval World Value) (fnDef : FunctionDef)
    (args : List Value) : Eval World Value :=
  if args.length ≠ fnDef.params.length then
    bail s!"function {fnDef.name}() expects {fnDef.params.length} argument(s), got {args.length}"
  else do
    let scope ← evalLets rt event call (LocalScope.bindAll fnDef.params args []) fnDef.lets
    evalExpr rt event call scope fnDef.ret

/-- `FunctionRegistry::call`, for user functions nested at most `depth` deep. -/
def call (rt : Runtime) (registry : FunctionRegistry World) (event : BorrowedEvent) :
    ℕ → Option String → String → List Value → Eval World Value
  | depth, ns, name, args =>
      match ns, registry.userDefinitions name with
      | none, some fnDef =>
          match depth with
          | 0 => diverge
          | depth + 1 => callUserFunction rt event (call rt registry event depth) fnDef args
      | ns, _ => callBuiltin registry event ns name args

end FunctionRegistry

end Limpid.Dsl
