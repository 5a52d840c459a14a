import Limpid.Decimal
import Limpid.Dsl.Grammar
import Limpid.Dsl.Precedence

/-!
# From pairs to expressions

The functions of `dsl/parser.rs` that read the pairs of the grammar's expression rules, without
source spans.  What the grammar never leaves, the source calls an invariant and would panic; here
it is an error.

The functions are mutual, as in the source, and follow the nesting of pairs.  Lists of pairs have
functions of their own where the source loops over `into_inner()`.

The operators are read a second time in `Limpid.Dsl.Precedence`, where the operands and operators of
a `bin_expr` are given as such and not as pairs.  `IsBinExpr.parse` says that both readings agree on
every pair that holds these operands and operators.
-/

namespace Limpid.Dsl.Parser

open Peg (Pair)

/-- What the grammar never leaves. -/
def malformed {α : Type} : Except String α := .error "pest grammar invariant"

section Texts

/-- `as_rule`. -/
def ruleOf : Pair Rule → Rule
  | .node rule _ _ => rule

/-- `as_str`. -/
def textOf : Pair Rule → String
  | .node _ text _ => String.ofList text

/-- `as_str().trim()`. -/
def trimmedOf : Pair Rule → String
  | .node _ text _ => String.ofList (Decimal.trim text)

/-- The texts of the pairs in a pair. -/
def childTexts : Pair Rule → List String
  | .node _ _ children => children.map textOf

/-- `str::parse` on an `i64`. -/
def parseInt64 (text : List Char) : Except String Int64 :=
  let digits := match text with
    | '-' :: digits => (Decimal.parseDigits digits).map fun n => -(n : ℤ)
    | text => (Decimal.parseUnsigned text).map fun n => (n : ℤ)
  match digits with
  | none => .error "invalid digit found in string"
  | some n =>
    if Int64.maxValue.toInt < n then .error "number too large to fit in target type"
    else if n < Int64.minValue.toInt then .error "number too small to fit in target type"
    else .ok (Int64.ofInt n)

/-- `process_plain_into`: the escapes of a string. -/
def processPlain : List Char → List Char
  | [] => []
  | ['\\'] => ['\\']
  | '\\' :: c :: rest =>
    (match c with
      | 'n' => ['\n']
      | 't' => ['\t']
      | '\\' => ['\\']
      | '"' => ['"']
      | '$' => ['$']
      | other => ['\\', other]) ++ processPlain rest
  | c :: rest => c :: processPlain rest

/-- A literal that ends before a fragment. -/
def flush (literal : List Char) (fragments : List TemplateFragment) : List TemplateFragment :=
  if literal.isEmpty then fragments else .literal (String.ofList literal) :: fragments

/-- The fragment is an expression. -/
def isInterp : TemplateFragment → Bool
  | .interp _ => true
  | .literal _ => false

/-- The text of a literal fragment. -/
def literalOf : TemplateFragment → String
  | .literal s => s
  | .interp _ => ""

/-- A string with no interpolation is a literal. -/
def collapse (fragments : List TemplateFragment) : Expr :=
  if fragments.any isInterp then .template fragments
  else .stringLit (String.join (fragments.map literalOf))

/-- The left side becomes the first argument. -/
def pipeInto (lhs : Expr) : Expr → Except String Expr
  | .funcCall ns name args blockArg => .ok (.funcCall ns name (lhs :: args) blockArg)
  | _ => .error "pipe target must be a function call"

end Texts

section Pairs

variable (rt : Runtime)

mutual

/-- `parse_expr`: an expression of operators, piped into calls. -/
def parseExpr : Pair Rule → Except String Expr
  | .node _ _ [] => malformed
  | .node _ _ (bin :: targets) => do
    let current ← parseBinExpr bin
    parsePipeTargets current targets

/-- The calls that an expression is piped into, one after another. -/
def parsePipeTargets (current : Expr) : List (Pair Rule) → Except String Expr
  | [] => .ok current
  | .node _ _ [] :: _ => .error "expected at least one inner pair in grammar rule"
  | .node _ _ (target :: _) :: rest => do
    let call ← match ruleOf target with
      | .funcCall => parseFuncCall target
      | .pipeBareTarget => parsePipeBareTarget target
      | _ => .error "unexpected pipe target rule"
    let current ← pipeInto current call
    parsePipeTargets current rest

/-- A pipe target without parentheses. -/
def parsePipeBareTarget : Pair Rule → Except String Expr
  | .node _ _ [] => malformed
  | .node _ _ [name] => .ok (.funcCall none (textOf name) [] none)
  | .node _ _ (name :: block :: _) => do
    let blockArg ← parseBlockArg block
    return .funcCall none (textOf name) [] (some blockArg)

/-- `parse_bin_expr`, on the pair of `bin_expr`. -/
def parseBinExpr : Pair Rule → Except String Expr
  | .node _ _ [operand] => parseAtomOrUnary operand
  | .node _ _ children => do
    let (operands, operators) ← parseOperands children
    foldByPrecedence operands operators

/-- The operands and the operators of a `bin_expr`, in order. -/
def parseOperands : List (Pair Rule) → Except String (List Expr × List BinOp)
  | [] => .ok ([], [])
  | child :: rest =>
    match ruleOf child with
    | .binOp => do
      let op ← parseBinOp (trimmedOf child)
      let (operands, operators) ← parseOperands rest
      return (operands, op :: operators)
    | _ => do
      let operand ← parseAtomOrUnary child
      let (operands, operators) ← parseOperands rest
      return (operand :: operands, operators)

/-- Only `unary_expr` comes here: the grammar has no other operand. -/
def parseAtomOrUnary : Pair Rule → Except String Expr
  | .node _ _ [] => malformed
  | .node _ _ [only] => parsePostfix only
  | .node _ _ (first :: operand :: _) => do
    let op ← parseUnaryOp (trimmedOf first)
    let operand ← parseAtomOrUnary operand
    return .unaryOp op operand

/-- `parse_postfix_expr`. -/
def parsePostfix : Pair Rule → Except String Expr
  | .node _ _ [] => malformed
  | .node _ _ (atom :: suffixes) => do
    let base ← parseAtom atom
    return parsePostfixExpr base (suffixes.map textOf)

/-- `parse_atom`. -/
def parseAtom : Pair Rule → Except String Expr
  | .node _ _ [] => .error "expected at least one inner pair in grammar rule"
  | .node _ _ (inner :: _) =>
    match ruleOf inner with
    | .expr => parseExpr inner
    | .switchExpr => parseSwitchExpr inner
    | .funcCall => parseFuncCall inner
    | .hashLit => parseHashLit inner
    | .arrayLit => parseArrayLit inner
    | .floatLit =>
      match rt.parse (textOf inner) with
      | some n => .ok (.floatLit n)
      | none => .error "invalid float literal"
    | .integerLit => do
      let n ← parseInt64 (textOf inner).toList
      return .intLit n
    | .stringLit => parseStringLit inner
    | .boolLit => .ok (.boolLit (textOf inner = "true"))
    | .nullLit => .ok .null
    | .identPath => .ok (.ident (childTexts inner))
    | _ => .error "unexpected atom"

/-- `parse_switch_expr`. -/
def parseSwitchExpr : Pair Rule → Except String Expr
  | .node _ _ [] => malformed
  | .node _ _ (scrutinee :: arms) => do
    let scrutinee ← parseExpr scrutinee
    let arms ← parseArms arms
    return .switchExpr scrutinee arms

def parseArms : List (Pair Rule) → Except String (List (Option Expr × Expr))
  | [] => .ok []
  | .node _ _ [body] :: rest => do
    let body ← parseExpr body
    let arms ← parseArms rest
    return (none, body) :: arms
  | .node _ _ [pattern, body] :: rest => do
    let pattern ← parseExpr pattern
    let body ← parseExpr body
    let arms ← parseArms rest
    return (some pattern, body) :: arms
  | .node _ _ children :: _ =>
    .error s!"malformed switch_expr_arm: expected 1 or 2 children, got {children.length}"

/-- `parse_func_call_expr`: one or two names, the arguments, and maybe a block. -/
def parseFuncCall : Pair Rule → Except String Expr
  | .node _ _ [name, args] => do
    let args ← parseFuncArgs args
    return .funcCall none (textOf name) args none
  | .node _ _ [first, second, third] =>
    match ruleOf third with
    | .blockArg => do
      let args ← parseFuncArgs second
      let blockArg ← parseBlockArg third
      return .funcCall none (textOf first) args (some blockArg)
    | _ => do
      let args ← parseFuncArgs third
      return .funcCall (some (textOf first)) (textOf second) args none
  | .node _ _ [ns, name, args, block] => do
    let args ← parseFuncArgs args
    let blockArg ← parseBlockArg block
    return .funcCall (some (textOf ns)) (textOf name) args (some blockArg)
  | .node _ _ _ => malformed

def parseFuncArgs : Pair Rule → Except String (List Expr)
  | .node _ _ args => parseExprs args

/-- Expressions with commas between them. -/
def parseExprs : List (Pair Rule) → Except String (List Expr)
  | [] => .ok []
  | arg :: rest => do
    let e ← parseExpr arg
    let es ← parseExprs rest
    return e :: es

/-- `parse_block_arg`: bound names and a body. -/
def parseBlockArg : Pair Rule → Except String BlockArg
  | .node _ _ children => do
    let (params, body) ← parseBlockParts children
    if params.isEmpty then
      .error "block argument requires at least one bound identifier (e.g. `\x7b |x| ... \x7d`)"
    else
      match body with
      | none => .error "block argument missing body"
      | some (lets, ret) => return .mk params lets ret

/-- The parts of a block argument. -/
def parseBlockParts :
    List (Pair Rule) → Except String (List String × Option (List (String × Expr) × Expr))
  | [] => .ok ([], none)
  | child :: rest =>
    match ruleOf child with
    | .ident => do
      let (params, body) ← parseBlockParts rest
      return (textOf child :: params, body)
    | .funcBody => do
      let body ← parseFuncBody child
      let (params, later) ← parseBlockParts rest
      return (params, later.orElse fun _ => some body)
    | _ => .error "unexpected rule in block_arg"

/-- `parse_func_body`: `let`s and the expression that is returned. -/
def parseFuncBody : Pair Rule → Except String (List (String × Expr) × Expr)
  | .node _ _ children => do
    let (lets, ret) ← parseBodyParts children
    match ret with
    | none => .error "def function body missing trailing return expression"
    | some ret => return (lets, ret)

/-- The parts of the body of a function. -/
def parseBodyParts : List (Pair Rule) → Except String (List (String × Expr) × Option Expr)
  | [] => .ok ([], none)
  | .node .processLet _ [name, value] :: rest => do
    let value ← parseExpr value
    let (lets, ret) ← parseBodyParts rest
    return ((textOf name, value) :: lets, ret)
  | child :: rest =>
    match ruleOf child with
    | .expr => do
      let e ← parseExpr child
      let (lets, later) ← parseBodyParts rest
      return (lets, later.orElse fun _ => some e)
    | _ => .error "unexpected rule in func_body"

/-- `parse_hash_lit`. -/
def parseHashLit : Pair Rule → Except String Expr
  | .node _ _ entries => do
    let entries ← parseEntries entries
    return .hashLit entries

def parseEntries : List (Pair Rule) → Except String (List (String × Expr))
  | [] => .ok []
  | .node _ _ (key :: value :: _) :: rest => do
    let value ← parseExpr value
    let entries ← parseEntries rest
    return (textOf key, value) :: entries
  | _ => malformed

/-- `parse_array_lit`. -/
def parseArrayLit : Pair Rule → Except String Expr
  | .node _ _ items => do
    let items ← parseExprs items
    return .arrayLit items

/-- `parse_string_lit_expr`. -/
def parseStringLit : Pair Rule → Except String Expr
  | .node _ _ fragments => do
    let fragments ← parseFragments [] fragments
    return collapse fragments

/-- The fragments of a string after a literal that has not ended. -/
def parseFragments (literal : List Char) :
    List (Pair Rule) → Except String (List TemplateFragment)
  | [] => .ok (flush literal [])
  | .node .stringInterp _ (e :: _) :: rest => do
    let e ← parseExpr e
    let fragments ← parseFragments [] rest
    return flush literal (.interp e :: fragments)
  | .node .stringPlain text _ :: rest => parseFragments (literal ++ processPlain text) rest
  | _ :: rest => parseFragments literal rest

end

end Pairs

/-! ## Operators in pairs

`parseBinExpr` on pairs does what `Dsl.parseBinExpr` does on the operands and operators they hold.
-/

section Operators

variable (rt : Runtime)

/-- The pair of an operand. -/
inductive IsOperand : Pair Rule → UnaryExpr → Prop where
  | atom {rule inner : Rule} {text within : List Char} {atom : Pair Rule}
      {suffixes : List (Pair Rule)} {base : Expr} (h : parseAtom rt atom = .ok base) :
      IsOperand (.node rule text [.node inner within (atom :: suffixes)])
        (.atom base (suffixes.map textOf))
  | unary {rule : Rule} {text : List Char} {first operand : Pair Rule} {more : List (Pair Rule)}
      {op : UnaryOp} {source : UnaryExpr} (hop : trimmedOf first = op.text)
      (h : IsOperand operand source) :
      IsOperand (.node rule text (first :: operand :: more)) (.unary op source)

/-- The pairs of an operator and of the operand after it. -/
structure IsStep (step : Pair Rule × Pair Rule) (entry : BinOp × UnaryExpr) : Prop where
  isOp : ruleOf step.1 = .binOp
  op : trimmedOf step.1 = entry.1.text
  notOp : ruleOf step.2 ≠ .binOp
  operand : IsOperand rt step.2 entry.2

/-- The pair of an expression of operators: an operand, and the steps after it. -/
inductive IsBinExpr : Pair Rule → BinExpr → Prop where
  | node {rule : Rule} {text : List Char} {first : Pair Rule} {steps : List (Pair Rule × Pair Rule)}
      {source : BinExpr} (hnotOp : ruleOf first ≠ .binOp) (hfirst : IsOperand rt first source.first)
      (hsteps : List.Forall₂ (IsStep rt) steps source.rest) :
      IsBinExpr (.node rule text (first :: steps.flatMap fun step => [step.1, step.2])) source

variable {rt}

theorem IsOperand.parse {pair : Pair Rule} {source : UnaryExpr} (h : IsOperand rt pair source) :
    parseAtomOrUnary rt pair = .ok source.term.expr := by
  rw [← parseAtomOrUnary_eq]
  induction h with
  | atom h =>
      rw [parseAtomOrUnary, parsePostfix, h]
      rfl
  | unary hop _ ih =>
      rw [parseAtomOrUnary, hop, parseUnaryOp_text, ih, Dsl.parseAtomOrUnary, parseUnaryOp_text]

theorem parseOperands_operand {child : Pair Rule} {source : UnaryExpr}
    (hnotOp : ruleOf child ≠ .binOp) (h : IsOperand rt child source) (rest : List (Pair Rule)) :
    parseOperands rt (child :: rest) = (parseOperands rt rest).map fun parts =>
      (source.term.expr :: parts.1, parts.2) := by
  rw [parseOperands]
  split
  · next hop => exact absurd hop hnotOp
  · rw [h.parse]
    cases parseOperands rt rest <;> rfl

theorem parseOperands_steps {steps : List (Pair Rule × Pair Rule)}
    {entries : List (BinOp × UnaryExpr)} (h : List.Forall₂ (IsStep rt) steps entries) :
    parseOperands rt (steps.flatMap fun step => [step.1, step.2]) =
      .ok (entries.map fun entry => entry.2.term.expr, entries.map Prod.fst) := by
  induction h with
  | nil => rw [List.flatMap_nil, parseOperands]; rfl
  | cons hstep _ ih =>
      rw [List.flatMap_cons, List.cons_append, List.cons_append, List.nil_append, parseOperands,
        hstep.isOp]
      dsimp only
      rw [hstep.op, parseBinOp_text, parseOperands_operand hstep.notOp hstep.operand, ih]
      rfl

/-- **The two readings of an expression of operators agree.** -/
theorem IsBinExpr.parse {pair : Pair Rule} {source : BinExpr} (h : IsBinExpr rt pair source) :
    parseBinExpr rt pair = Dsl.parseBinExpr source := by
  obtain ⟨hnotOp, hfirst, hsteps⟩ := h
  obtain ⟨first, rest⟩ := source
  have hparts := parseOperands_operand hnotOp hfirst
  cases hsteps with
  | nil =>
      rw [List.flatMap_nil, parseBinExpr, hfirst.parse]
      exact (parseAtomOrUnary_eq first).symm
  | cons hstep hsteps =>
      have hoperands := parseOperands_steps (.cons hstep hsteps)
      rw [List.flatMap_cons, List.cons_append, List.cons_append, List.nil_append] at hoperands ⊢
      rw [parseBinExpr, hparts, hoperands, Dsl.parseBinExpr, if_neg (by simp)]
      · have hsources : ∀ sources : List UnaryExpr, sources.mapM Dsl.parseAtomOrUnary =
            .ok (sources.map fun operand => operand.term.expr) := fun sources =>
          mapM_ok fun operand _ => parseAtomOrUnary_eq operand
        have hops : ∀ entries : List (BinOp × UnaryExpr),
            entries.mapM (fun entry => parseBinOp entry.1.text) = .ok (entries.map Prod.fst) :=
          fun entries => mapM_ok fun entry _ => parseBinOp_text entry.1
        rw [hsources, hops]
        simp only [List.map_cons, List.map_map]
        rfl
      · simp

end Operators

end Limpid.Dsl.Parser
