import Limpid.Precedence
import Limpid.Dsl.Ast

/-!
# Binary and unary operators

`parse_bin_expr`, `fold_by_precedence` and `parse_atom_or_unary` of `dsl/parser.rs`, on what the
rule `bin_expr` admits: operands under unary operators, with binary operators between them.

The grammar lists the operators from the weakest to the strongest (`level`): `or`, `and`, `not`,
comparisons, sums, products and the unary minus.  A parse respects the list (`Respects`) if it has
the operands and operators of the source in their order, no operator directly under a stronger one,
and no operator as the right side of one as strong.

The binary operators are folded as they are to be (`Precedence.exists_tree`).  But `not` is parsed
as a part of its operand, so the parse respects the list exactly where no `not` is next to a
stronger operator (`parseBinExpr_respects_iff`).
-/

namespace Limpid.Dsl

open Precedence (Tree Ordered adjacent)

/-! ## Operators -/

/-- An operator as it is written. -/
def BinOp.text : BinOp → String
  | eq => "=="
  | ne => "!="
  | le => "<="
  | ge => ">="
  | lt => "<"
  | gt => ">"
  | and => "and"
  | or => "or"
  | add => "+"
  | sub => "-"
  | mul => "*"
  | div => "/"
  | mod => "%"

/-- `parse_bin_op`. -/
def parseBinOp (text : String) : Except String BinOp :=
  if text = "==" then .ok .eq
  else if text = "!=" then .ok .ne
  else if text = "<=" then .ok .le
  else if text = ">=" then .ok .ge
  else if text = "<" then .ok .lt
  else if text = ">" then .ok .gt
  else if text = "and" then .ok .and
  else if text = "or" then .ok .or
  else if text = "+" then .ok .add
  else if text = "-" then .ok .sub
  else if text = "*" then .ok .mul
  else if text = "/" then .ok .div
  else if text = "%" then .ok .mod
  else .error s!"unknown binary operator: {text}"

theorem parseBinOp_text (op : BinOp) : parseBinOp op.text = .ok op := by
  cases op <;> rfl

/-- An operator as it is written. -/
def UnaryOp.text : UnaryOp → String
  | not => "not"
  | neg => "-"

/-- `not` and `-`. -/
def parseUnaryOp (text : String) : Except String UnaryOp :=
  if text = "not" then .ok .not
  else if text = "-" then .ok .neg
  else .error s!"unknown unary operator: {text}"

theorem parseUnaryOp_text (op : UnaryOp) : parseUnaryOp op.text = .ok op := by
  cases op <;> rfl

/-! ## Expressions of operators -/

/-- `unary_expr`: an atom with its suffixes, under unary operators. -/
inductive UnaryExpr where
  | unary (op : UnaryOp) (operand : UnaryExpr)
  | atom (base : Expr) (suffixes : List String)

/-- `bin_expr`. -/
structure BinExpr where
  first : UnaryExpr
  rest : List (BinOp × UnaryExpr)

/-- `parse_postfix_expr`. -/
def parsePostfixExpr (base : Expr) (suffixes : List String) : Expr :=
  if suffixes.isEmpty then base else .propertyAccess base suffixes

/-- `parse_atom_or_unary`. -/
def parseAtomOrUnary : UnaryExpr → Except String Expr
  | .unary op operand => do
    let op ← parseUnaryOp op.text
    let operand ← parseAtomOrUnary operand
    return .unaryOp op operand
  | .atom base suffixes => .ok (parsePostfixExpr base suffixes)

/-- `precedence`: the larger, the stronger. -/
def precedence : BinOp → ℕ
  | .or => 1
  | .and => 2
  | .eq | .ne | .lt | .le | .gt | .ge => 3
  | .add | .sub => 4
  | .mul | .div | .mod => 5

/-- `fold_by_precedence`. -/
def foldByPrecedence : List Expr → List BinOp → Except String Expr :=
  Precedence.fold Expr.binOp precedence

/-- `parse_bin_expr`: a single operand is left as it is. -/
def parseBinExpr (source : BinExpr) : Except String Expr :=
  if source.rest.isEmpty then parseAtomOrUnary source.first
  else do
    let operands ← (source.first :: source.rest.map Prod.snd).mapM parseAtomOrUnary
    let operators ← source.rest.mapM fun entry => parseBinOp entry.1.text
    foldByPrecedence operands operators

/-! ## The list of the grammar -/

/-- An operator of either kind. -/
inductive Operator where
  | unary (op : UnaryOp)
  | binary (op : BinOp)

/-- The place in the list: `or < and < not < comparison < additive < multiplicative < unary`. -/
def Operator.level : Operator → ℕ
  | binary .or => 1
  | binary .and => 2
  | unary .not => 3
  | binary .eq | binary .ne | binary .lt | binary .le | binary .gt | binary .ge => 4
  | binary .add | binary .sub => 5
  | binary .mul | binary .div | binary .mod => 6
  | unary .neg => 7

/-- An expression whose operands are left as they are. -/
inductive Term where
  | operand (e : Expr)
  | unary (op : UnaryOp) (inner : Term)
  | binary (left : Term) (op : BinOp) (right : Term)

/-- An operand or an operator of the source. -/
inductive Token where
  | operand (e : Expr)
  | unary (op : UnaryOp)
  | binary (op : BinOp)

namespace Term

/-- The expression of a term. -/
def expr : Term → Expr
  | operand e => e
  | unary op inner => .unaryOp op inner.expr
  | binary left op right => .binOp left.expr op right.expr

/-- The operands and operators in order. -/
def tokens : Term → List Token
  | operand e => [.operand e]
  | unary op inner => .unary op :: inner.tokens
  | binary left op right => left.tokens ++ .binary op :: right.tokens

/-- The operator at the root. -/
def root : Term → Option Operator
  | operand _ => none
  | unary op _ => some (.unary op)
  | binary _ op _ => some (.binary op)

/-- No operator is directly under a stronger one. -/
def NoLower : Term → Prop
  | operand _ => True
  | unary op inner =>
    (∀ child ∈ inner.root, (Operator.unary op).level ≤ child.level) ∧ inner.NoLower
  | binary left op right =>
    ((∀ child ∈ left.root, (Operator.binary op).level ≤ child.level) ∧ left.NoLower) ∧
      (∀ child ∈ right.root, (Operator.binary op).level ≤ child.level) ∧ right.NoLower

/-- Operators of one level associate to the left. -/
def LeftAssoc : Term → Prop
  | operand _ => True
  | unary _ inner => inner.LeftAssoc
  | binary left op right => left.LeftAssoc ∧ right.LeftAssoc ∧
    ∀ other, right.root = some (.binary other) →
      (Operator.binary other).level ≠ (Operator.binary op).level

end Term

/-- The operand and the operators above it, in order. -/
def UnaryExpr.tokens : UnaryExpr → List Token
  | unary op operand => .unary op :: operand.tokens
  | atom base suffixes => [.operand (parsePostfixExpr base suffixes)]

/-- The operands and operators of the source, in order. -/
def BinExpr.tokens (source : BinExpr) : List Token :=
  source.first.tokens ++ source.rest.flatMap fun entry => .binary entry.1 :: entry.2.tokens

/-- **The expression respects the list of the operators.** -/
def Respects (source : BinExpr) (e : Expr) : Prop :=
  ∃ term : Term, term.expr = e ∧ term.tokens = source.tokens ∧ term.NoLower ∧ term.LeftAssoc

/-! ## Where `not` stands -/

/-- The operand begins with `not`. -/
def UnaryExpr.startsNot : UnaryExpr → Bool
  | unary .not _ => true
  | _ => false

/-- No `not` comes directly after a unary minus. -/
def UnaryExpr.NoNegNot : UnaryExpr → Prop
  | unary op operand => (op = .neg → operand.startsNot = false) ∧ operand.NoNegNot
  | atom _ _ => True

/-- No `not` is next to a stronger operator. -/
structure NotsApart (source : BinExpr) : Prop where
  unary : ∀ operand ∈ source.first :: source.rest.map Prod.snd, operand.NoNegNot
  binary : ∀ entry ∈ adjacent source.first source.rest, entry.2.startsNot = true →
    entry.1 = .and ∨ entry.1 = .or

/-! ## Parses -/

/-- The term that an operand is parsed to. -/
def UnaryExpr.term : UnaryExpr → Term
  | unary op operand => .unary op operand.term
  | atom base suffixes => .operand (parsePostfixExpr base suffixes)

theorem parseAtomOrUnary_eq (operand : UnaryExpr) :
    parseAtomOrUnary operand = .ok operand.term.expr := by
  induction operand with
  | unary op operand ih =>
      rw [parseAtomOrUnary, parseUnaryOp_text, ih]
      rfl
  | atom base suffixes => rfl

theorem tokens_unaryTerm (operand : UnaryExpr) : operand.term.tokens = operand.tokens := by
  induction operand with
  | unary op operand ih => rw [UnaryExpr.term, Term.tokens, ih]; rfl
  | atom base suffixes => rfl

/-- The term of a folded sequence. -/
def termOf (tree : Tree UnaryExpr BinOp) : Term := tree.eval UnaryExpr.term Term.binary

theorem expr_termOf (tree : Tree UnaryExpr BinOp) :
    (termOf tree).expr = tree.eval (fun operand => operand.term.expr) Expr.binOp := by
  induction tree with
  | leaf operand => rfl
  | node left op right ihLeft ihRight =>
      rw [Tree.eval, ← ihLeft, ← ihRight]
      rfl

theorem tokens_termOf (tree : Tree UnaryExpr BinOp) :
    (termOf tree).tokens = (BinExpr.mk tree.first tree.rest).tokens := by
  induction tree with
  | leaf operand =>
      rw [BinExpr.tokens, Tree.rest, List.flatMap_nil, List.append_nil]
      exact tokens_unaryTerm operand
  | node left op right ihLeft ihRight =>
      have hleft : (termOf (.node left op right)).tokens =
          (termOf left).tokens ++ .binary op :: (termOf right).tokens := rfl
      rw [hleft, ihLeft, ihRight]
      simp [BinExpr.tokens, Tree.first, Tree.rest, List.append_assoc]

theorem mapM_ok {α β : Type} {f : α → Except String β} {g : α → β} {items : List α}
    (h : ∀ item ∈ items, f item = .ok (g item)) : items.mapM f = .ok (items.map g) := by
  induction items with
  | nil => rfl
  | cons item rest ih =>
      obtain ⟨hitem, hrest⟩ := List.forall_mem_cons.mp h
      rw [List.mapM_cons, hitem, ih hrest]
      rfl

/-- **What is parsed.** -/
theorem parseBinExpr_eq (source : BinExpr) : ∃ tree : Tree UnaryExpr BinOp,
    parseBinExpr source = .ok (termOf tree).expr ∧ tree.first = source.first ∧
      tree.rest = source.rest ∧ Ordered precedence tree := by
  obtain ⟨first, rest⟩ := source
  obtain ⟨tree, hfold, hfirst, hrest, hordered⟩ := Precedence.exists_tree
    (fun operand : UnaryExpr => operand.term.expr) Expr.binOp precedence first rest
  refine ⟨tree, ?_, hfirst, hrest, hordered⟩
  rw [expr_termOf, ← hfold, parseBinExpr]
  split
  · next hempty =>
    obtain rfl : rest = [] := List.isEmpty_iff.mp hempty
    rw [parseAtomOrUnary_eq, List.map_nil, List.map_nil, Precedence.fold]
  · have hoperands : (first :: rest.map Prod.snd).mapM parseAtomOrUnary =
        .ok ((first :: rest.map Prod.snd).map fun operand => operand.term.expr) :=
      mapM_ok fun operand _ => parseAtomOrUnary_eq operand
    have hoperators : rest.mapM (fun entry => parseBinOp entry.1.text) =
        .ok (rest.map Prod.fst) := mapM_ok fun entry _ => parseBinOp_text entry.1
    rw [hoperands, hoperators, List.map_cons, List.map_map]
    rfl

/-! ## Levels -/

theorem level_le_iff (first second : BinOp) :
    (Operator.binary first).level ≤ (Operator.binary second).level ↔
      precedence first ≤ precedence second := by
  cases first <;> cases second <;> decide

theorem level_le_not_iff (op : BinOp) :
    (Operator.binary op).level ≤ (Operator.unary .not).level ↔ op = .and ∨ op = .or := by
  cases op <;> decide

theorem level_le_neg (op : Operator) : op.level ≤ (Operator.unary .neg).level := by
  cases op with
  | unary op => cases op <;> decide
  | binary op => cases op <;> decide

/-- The operators of a unary expression are as they are to be. -/
theorem noLower_unary_iff (operand : UnaryExpr) : operand.term.NoLower ↔ operand.NoNegNot := by
  induction operand with
  | atom base suffixes => exact Iff.rfl
  | unary op operand ih =>
      have hroot : (∀ child ∈ operand.term.root, (Operator.unary op).level ≤ child.level) ↔
          (op = .neg → operand.startsNot = false) := by
        cases operand with
        | atom base suffixes => simp [UnaryExpr.term, Term.root, UnaryExpr.startsNot]
        | unary inner operand =>
            cases op <;> cases inner <;>
              simp [UnaryExpr.term, Term.root, UnaryExpr.startsNot, Operator.level]
      exact and_congr hroot ih

/-- The operand under a binary operator. -/
theorem root_unary_iff (op : BinOp) (operand : UnaryExpr) :
    (∀ child ∈ operand.term.root, (Operator.binary op).level ≤ child.level) ↔
      (operand.startsNot = true → op = .and ∨ op = .or) := by
  cases operand with
  | atom base suffixes => simp [UnaryExpr.term, Term.root, UnaryExpr.startsNot]
  | unary inner operand =>
      cases inner with
      | not => simp [UnaryExpr.term, Term.root, UnaryExpr.startsNot, level_le_not_iff]
      | neg => simp [UnaryExpr.term, Term.root, UnaryExpr.startsNot, level_le_neg]

/-- A side of a node that is a node itself has an operator of at least the same level. -/
theorem root_node {op : BinOp} {left : Tree UnaryExpr BinOp} {inner : BinOp}
    {right : Tree UnaryExpr BinOp}
    (h : ∀ other ∈ (Precedence.Tree.node left inner right).rest,
      precedence op ≤ precedence other.1) :
    ∀ child ∈ (termOf (.node left inner right)).root,
      (Operator.binary op).level ≤ child.level := by
  intro child hchild
  obtain rfl : Operator.binary inner = child := Option.some.inj hchild
  exact (level_le_iff op inner).mpr (h (inner, right.first) (by simp [Tree.rest]))

/-- **The folded term has no lower operator under a higher one, exactly where `not` has not.** -/
theorem noLower_termOf_iff {tree : Tree UnaryExpr BinOp} (h : Ordered precedence tree) :
    (termOf tree).NoLower ↔ (∀ operand ∈ tree.first :: tree.rest.map Prod.snd, operand.NoNegNot) ∧
      ∀ child ∈ tree.children, child.2.startsNot = true → child.1 = .and ∨ child.1 = .or := by
  induction tree with
  | leaf operand =>
      have hiff : (termOf (.leaf operand)).NoLower ↔ operand.NoNegNot := noLower_unary_iff operand
      rw [hiff]
      simp [Tree.first, Tree.rest, Tree.children]
  | node left op right ihLeft ihRight =>
      obtain ⟨hsplit, hleft, hright⟩ := h
      have hside : ∀ side : Tree UnaryExpr BinOp,
          (∀ other ∈ side.rest, precedence op ≤ precedence other.1) →
          ((termOf side).NoLower ↔
            (∀ operand ∈ side.first :: side.rest.map Prod.snd, operand.NoNegNot) ∧
              ∀ child ∈ side.children, child.2.startsNot = true →
                child.1 = .and ∨ child.1 = .or) →
          (((∀ child ∈ (termOf side).root, (Operator.binary op).level ≤ child.level) ∧
              (termOf side).NoLower) ↔
            (∀ operand ∈ side.first :: side.rest.map Prod.snd, operand.NoNegNot) ∧
              ∀ child ∈ side.under op, child.2.startsNot = true →
                child.1 = .and ∨ child.1 = .or) := by
        intro side hprec ih
        cases side with
        | leaf operand =>
            rw [ih, Tree.under, List.forall_mem_singleton, and_comm]
            refine (and_congr_right fun _ => root_unary_iff op operand).trans ?_
            simp [Tree.children]
        | node first inner second =>
            exact ⟨fun h => ih.mp h.2, fun h => ⟨root_node hprec, ih.mpr h⟩⟩
      have hl := hside left hsplit.before (ihLeft hleft)
      have hr := hside right (fun other hother => Nat.le_of_lt (hsplit.after other hother))
        (ihRight hright)
      refine (and_congr hl hr).trans ?_
      rw [Tree.children, List.forall_mem_append]
      simp only [Tree.first, Tree.rest, List.map_append, List.map_cons, ← List.cons_append,
        List.forall_mem_append]
      tauto

theorem leftAssoc_unary (operand : UnaryExpr) : operand.term.LeftAssoc := by
  induction operand with
  | atom base suffixes => trivial
  | unary op operand ih => exact ih

theorem leftAssoc_termOf {tree : Tree UnaryExpr BinOp} (h : Ordered precedence tree) :
    (termOf tree).LeftAssoc := by
  induction tree with
  | leaf operand => exact leftAssoc_unary operand
  | node left op right ihLeft ihRight =>
      obtain ⟨hsplit, hleft, hright⟩ := h
      refine ⟨ihLeft hleft, ihRight hright, fun other hroot heq => ?_⟩
      cases right with
      | leaf operand =>
          cases operand with
          | atom base suffixes => exact nomatch hroot
          | unary inner operand => exact nomatch hroot
      | node first inner second =>
          obtain rfl : inner = other := Operator.binary.inj (Option.some.inj hroot)
          have hlt := hsplit.after (inner, second.first) (by simp [Tree.rest])
          exact absurd ((level_le_iff inner op).mp (Nat.le_of_eq heq)) (Nat.not_le_of_lt hlt)

/-! ## One term only -/

theorem tokens_ne_nil (term : Term) : term.tokens ≠ [] := by
  cases term <;> simp [Term.tokens]

/-- The first operand of a term is the whole term, or less than it. -/
theorem head_operand {term : Term} {e : Expr} {rest : List Token}
    (h : term.tokens = .operand e :: rest) : term = .operand e ∨ sizeOf e < sizeOf term.expr := by
  induction term generalizing rest with
  | operand other =>
      obtain ⟨heq, -⟩ := List.cons.inj h
      exact .inl (congrArg Term.operand (Token.operand.inj heq))
  | unary op inner => exact nomatch (List.cons.inj h).1
  | binary left op right ihLeft =>
      obtain ⟨token, more, hleft⟩ := List.exists_cons_of_ne_nil (tokens_ne_nil left)
      rw [Term.tokens, hleft] at h
      obtain ⟨rfl, -⟩ := List.cons.inj h
      right
      have hsize : sizeOf left.expr < sizeOf (Term.binary left op right).expr := by
        rw [Term.expr, Expr.binOp.sizeOf_spec]
        omega
      rcases ihLeft hleft with rfl | hlt
      · exact hsize
      · exact Nat.lt_trans hlt hsize

/-- **A term is determined by its expression and its operands and operators.** -/
theorem term_eq {first second : Term} (hexpr : first.expr = second.expr) {after others : List Token}
    (htokens : first.tokens ++ after = second.tokens ++ others) :
    first = second ∧ after = others := by
  have hwhole : ∀ {e : Expr} {term : Term} {after others : List Token}, e = term.expr →
      Token.operand e :: after = term.tokens ++ others →
        Term.operand e = term ∧ after = others := by
    intro e term after others hexpr htokens
    obtain ⟨token, more, hterm⟩ := List.exists_cons_of_ne_nil (tokens_ne_nil term)
    rw [hterm, List.cons_append] at htokens
    obtain ⟨rfl, hafter⟩ := List.cons.inj htokens
    rcases head_operand hterm with rfl | hlt
    · obtain ⟨-, rfl⟩ := List.cons.inj hterm
      exact ⟨rfl, hafter⟩
    · exact absurd hlt (by rw [hexpr]; exact Nat.lt_irrefl _)
  induction first generalizing second after others with
  | operand e => exact hwhole hexpr htokens
  | unary op inner ih =>
      cases second with
      | operand e =>
          obtain ⟨heq, hafter⟩ := hwhole hexpr.symm htokens.symm
          exact ⟨heq.symm, hafter.symm⟩
      | unary other otherInner =>
          obtain ⟨rfl, hinner⟩ := Expr.unaryOp.inj hexpr
          obtain ⟨rfl, hafter⟩ := ih hinner (List.cons.inj htokens).2
          exact ⟨rfl, hafter⟩
      | binary left other right => exact nomatch hexpr
  | binary left op right ihLeft ihRight =>
      cases second with
      | operand e =>
          obtain ⟨heq, hafter⟩ := hwhole hexpr.symm htokens.symm
          exact ⟨heq.symm, hafter.symm⟩
      | unary other inner => exact nomatch hexpr
      | binary otherLeft other otherRight =>
          obtain ⟨hleft, rfl, hright⟩ := Expr.binOp.inj hexpr
          rw [Term.tokens, Term.tokens, List.append_assoc, List.append_assoc] at htokens
          obtain ⟨rfl, hrest⟩ := ihLeft hleft htokens
          obtain ⟨rfl, hafter⟩ := ihRight hright (List.cons.inj hrest).2
          exact ⟨rfl, hafter⟩

/-- A parse respects the list if its one term does. -/
theorem respects_iff {source : BinExpr} {tree : Tree UnaryExpr BinOp}
    (hfirst : tree.first = source.first) (hrest : tree.rest = source.rest)
    (hordered : Ordered precedence tree) :
    Respects source (termOf tree).expr ↔ NotsApart source := by
  have htokens : (termOf tree).tokens = source.tokens := by
    rw [tokens_termOf, hfirst, hrest]
  have hnoLower := noLower_termOf_iff hordered
  rw [hfirst, hrest] at hnoLower
  constructor
  · rintro ⟨term, hexpr, hterm, hlower, -⟩
    obtain ⟨rfl, -⟩ := @term_eq term (termOf tree) hexpr [] [] (by rw [hterm, htokens])
    obtain ⟨hunary, hchildren⟩ := hnoLower.mp hlower
    refine ⟨hunary, fun entry hentry hnot => ?_⟩
    rw [← hfirst, ← hrest] at hentry
    obtain ⟨above, hchild, hle⟩ := Tree.exists_child hordered entry hentry
    have hweak := hchildren _ hchild hnot
    rw [← level_le_not_iff] at hweak ⊢
    exact Nat.le_trans ((level_le_iff _ _).mpr hle) hweak
  · intro hapart
    refine ⟨termOf tree, rfl, htokens, hnoLower.mpr ⟨hapart.unary, fun child hchild => ?_⟩,
      leftAssoc_termOf hordered⟩
    refine hapart.binary child ?_
    rw [← hfirst, ← hrest]
    exact Tree.children_subset child hchild

/-- **A parse respects the list exactly where no `not` is next to a stronger operator.** -/
theorem parseBinExpr_respects_iff (source : BinExpr) :
    (∃ e, parseBinExpr source = .ok e ∧ Respects source e) ↔ NotsApart source := by
  obtain ⟨tree, hparse, hfirst, hrest, hordered⟩ := parseBinExpr_eq source
  rw [← respects_iff hfirst hrest hordered]
  constructor
  · rintro ⟨e, he, hrespects⟩
    obtain rfl := Except.ok.inj (hparse.symm.trans he)
    exact hrespects
  · exact fun hrespects => ⟨_, hparse, hrespects⟩

/-- `not a == b`. -/
def notEqual : BinExpr :=
  ⟨.unary .not (.atom (.ident ["a"]) []), [(.eq, .atom (.ident ["b"]) [])]⟩

theorem notEqual_not_respected :
    parseBinExpr notEqual =
        .ok (.binOp (.unaryOp .not (.ident ["a"])) .eq (.ident ["b"])) ∧
      ∀ e, parseBinExpr notEqual = .ok e → ¬Respects notEqual e := by
  have hparse : parseBinExpr notEqual =
      .ok (.binOp (.unaryOp .not (.ident ["a"])) .eq (.ident ["b"])) := by
    have hfold := @Precedence.fold_split Expr BinOp Expr.binOp precedence
      (.unaryOp .not (.ident ["a"])) [] .eq (.ident ["b"]) [] ⟨by simp, by simp⟩
    rw [List.map_nil, List.map_nil, Precedence.fold, Precedence.fold] at hfold
    exact hfold
  refine ⟨hparse, fun e he hrespects => ?_⟩
  obtain ⟨tree, htree, hfirst, hrest, hordered⟩ := parseBinExpr_eq notEqual
  obtain rfl := Except.ok.inj (htree.symm.trans he)
  have hapart := (respects_iff hfirst hrest hordered).mp hrespects
  have hweak := hapart.binary (.eq, notEqual.first) List.mem_cons_self rfl
  exact absurd hweak (by decide)

end Limpid.Dsl
