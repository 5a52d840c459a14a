import Limpid.Check.Resolved
import Limpid.Check.ResolvedRun
import Limpid.Pipeline.CompiledBlueprint

/-!
# The analysis of a process body covers its code

The walk of the analysis over a body keeps the bindings: only a `let` changes them, and what a
branch binds is gone after it (`analyzeProcessStmt_bindings`).  So the walk knows at each statement
what the code compiled from it knows there, and where nothing is reported the code resolves
(`compileProcessStatements_resolves`).

## Strategy

* The compiler changes names to slots and leaves expressions as they are, so the proof goes over
  the statements with the two walks side by side.
* `bindingsAfter` is what the code knows behind a statement.  A branch starts from what is known
  before it and its own bindings are dropped at its end, in the analysis and in the code.
* A `process` statement is not followed by the analysis, which is why the results are about one
  body and not about the bodies it calls.
-/

namespace Limpid.Check

open Dsl Eval Pipeline Blueprint

variable {World : Type}

/-! ## What the walk does to the bindings -/

section Bindings

variable {pipelineName : String} {registry : FunctionRegistry World}

/-- The bindings after a statement: only a `let` changes them. -/
def bindingsAfter (bindings : Bindings) : ProcessStatement → Bindings
  | .letBinding name _ => bindings.bindLet name
  | _ => bindings

theorem tail_bindingsAfter (bindings : Bindings) (statement : ProcessStatement) :
    (bindingsAfter bindings statement).letScopes.tail = bindings.letScopes.tail := by
  cases statement with
  | letBinding name e => exact bindings.tail_bindLet name
  | _ => rfl

/-- The scope of a branch is gone after it. -/
theorem popLetScope_eq {bindings inner : Bindings}
    (h : inner.letScopes.tail = bindings.pushLetScope.letScopes.tail) :
    inner.popLetScope = bindings := by
  unfold Bindings.popLetScope
  rw [h]
  rfl

theorem intersectBranches_replicate (bindings : Bindings) (count : ℕ) (rest : List Bindings) :
    Bindings.intersectBranches (List.replicate (count + 1) bindings ++ rest) = bindings := rfl

theorem intersectBranches_concat (bindings : Bindings) (count : ℕ) :
    Bindings.intersectBranches (List.replicate count bindings ++ [bindings]) = bindings := by
  cases count <;> rfl

mutual

theorem analyzeProcessStmts_tail : ∀ (statements : List ProcessStatement) (bindings : Bindings),
    (analyzeProcessStmts pipelineName registry bindings statements).1.letScopes.tail =
      bindings.letScopes.tail
  | [], _ => rfl
  | statement :: rest, bindings => by
      rw [analyzeProcessStmts]
      dsimp only
      rw [analyzeProcessStmts_tail rest, analyzeProcessStmt_bindings statement,
        tail_bindingsAfter]

/-- A branch leaves nothing behind. -/
theorem analyzeProcessStmt_bindings : ∀ (statement : ProcessStatement) (bindings : Bindings),
    (analyzeProcessStmt pipelineName registry bindings statement).1 =
      bindingsAfter bindings statement
  | .assign _ _, _ | .letBinding _ _, _ | .exprStmt _, _ | .processCall _, _ | .drop, _
  | .error _, _ => by
      rw [analyzeProcessStmt]
      rfl
  | .ifChain branches none, bindings => by
      rw [analyzeProcessStmt]
      dsimp only
      rw [analyzeInlineBranches_results branches]
      exact intersectBranches_concat bindings _
  | .ifChain branches (some elseBody), bindings => by
      rw [analyzeProcessStmt]
      dsimp only
      rw [analyzeInlineBranches_results branches,
        popLetScope_eq (analyzeInlineBody_tail elseBody bindings.pushLetScope)]
      exact intersectBranches_concat bindings _
  | .switch discriminant arms, bindings => by
      rw [analyzeProcessStmt]
      dsimp only
      rw [analyzeInlineArms_results arms]
      split
      · next hdefault =>
        -- a default arm is an arm
        cases arms with
        | nil => cases hdefault
        | cons arm rest => exact intersectBranches_replicate bindings rest.length []
      · exact intersectBranches_concat bindings _
  | .tryCatch tryBody catchBody, bindings => by
      rw [analyzeProcessStmt]
      exact popLetScope_eq (analyzeProcessStmts_tail tryBody bindings.pushLetScope)

theorem analyzeInlineBody_tail : ∀ (body : List BranchBody) (bindings : Bindings),
    (analyzeInlineBody pipelineName registry bindings body).1.letScopes.tail =
      bindings.letScopes.tail
  | [], _ => by rw [analyzeInlineBody]
  | .process statement :: rest, bindings => by
      rw [analyzeInlineBody]
      dsimp only
      rw [analyzeInlineBody_tail rest, analyzeProcessStmt_bindings statement, tail_bindingsAfter]
  | .pipeline _ :: rest, bindings => by
      rw [analyzeInlineBody]
      exact analyzeInlineBody_tail rest bindings

theorem analyzeInlineBranches_results : ∀ (branches : List (Expr × List BranchBody))
    (bindings : Bindings), (analyzeInlineBranches pipelineName registry bindings branches).1 =
      List.replicate branches.length bindings
  | [], _ => by
      rw [analyzeInlineBranches]
      rfl
  | (_, body) :: rest, bindings => by
      rw [analyzeInlineBranches]
      dsimp only
      rw [analyzeInlineBranches_results rest,
        popLetScope_eq (analyzeInlineBody_tail body bindings.pushLetScope)]
      rfl

theorem analyzeInlineArms_results : ∀ (arms : List (Option Expr × List BranchBody))
    (bindings : Bindings), (analyzeInlineArms pipelineName registry bindings arms).1 =
      List.replicate arms.length bindings
  | [], _ => by
      rw [analyzeInlineArms]
      rfl
  | (_, body) :: rest, bindings => by
      rw [analyzeInlineArms]
      dsimp only
      rw [analyzeInlineArms_results rest,
        popLetScope_eq (analyzeInlineBody_tail body bindings.pushLetScope)]
      rfl

end

theorem analyzeProcessBody_bindings (bindings : Bindings) (body : List ProcessStatement) :
    (analyzeProcessBody pipelineName registry bindings body).1 = bindings :=
  popLetScope_eq (analyzeProcessStmts_tail body bindings.pushLetScope)

end Bindings

/-! ## Process bodies -/

section Processes

variable {pipelineName : String} {registry : FunctionRegistry World}
  {processNames : List (String × ProcessBodyId)}

theorem checkMessage_resolves {bindings : Bindings} {message : Option Expr}
    (h : NoUnknown (checkMessage pipelineName registry bindings message)) :
    ∀ e ∈ message, Resolves (Signed registry) bindings.known e := by
  intro e he
  obtain rfl := Option.mem_def.mp he
  exact checkTypes_resolves e h

theorem known_bindingsAfter {bindings : Bindings} (h : bindings.letScopes ≠ [])
    {statement : ProcessStatement} {table : EdgeTable processNames}
    {result : ProcessCode × EdgeTable processNames}
    (hcode : compileProcessStatement processNames statement table = .ok result) :
    (bindingsAfter bindings statement).letScopes ≠ [] ∧
      (bindingsAfter bindings statement).known = declared result.1 ∪ bindings.known := by
  cases statement with
  | letBinding name e =>
      obtain rfl := Except.ok.inj hcode
      exact ⟨Bindings.letScopes_bindLet h name, Bindings.known_bindLet h name⟩
  | assign _ _ | drop | error _ | exprStmt _ =>
      obtain rfl := Except.ok.inj hcode
      exact ⟨h, (Set.empty_union _).symm⟩
  | processCall name =>
      obtain ⟨slot, next, -, hcode⟩ := exists_of_bind_eq_ok hcode
      obtain rfl := Except.ok.inj hcode
      exact ⟨h, (Set.empty_union _).symm⟩
  | ifChain branches elseBody =>
      cases elseBody with
      | none =>
          obtain ⟨codes, next, -, hcode⟩ := exists_of_bind_eq_ok hcode
          obtain rfl := Except.ok.inj hcode
          exact ⟨h, (Set.empty_union _).symm⟩
      | some elseBody =>
          obtain ⟨codes, next, -, hcode⟩ := exists_of_bind_eq_ok hcode
          obtain ⟨elseCode, last, -, hcode⟩ := exists_of_bind_eq_ok hcode
          obtain rfl := Except.ok.inj hcode
          exact ⟨h, (Set.empty_union _).symm⟩
  | switch discriminant arms =>
      obtain ⟨codes, next, -, hcode⟩ := exists_of_bind_eq_ok hcode
      obtain rfl := Except.ok.inj hcode
      exact ⟨h, (Set.empty_union _).symm⟩
  | tryCatch tryBody catchBody =>
      obtain ⟨tryCode, next, -, hcode⟩ := exists_of_bind_eq_ok hcode
      obtain ⟨catchCode, last, -, hcode⟩ := exists_of_bind_eq_ok hcode
      obtain rfl := Except.ok.inj hcode
      exact ⟨h, (Set.empty_union _).symm⟩

theorem pushLetScope_ne_nil (bindings : Bindings) : bindings.pushLetScope.letScopes ≠ [] :=
  List.cons_ne_nil _ _

mutual

/-- **The code of a body on which nothing is reported resolves.** -/
theorem compileProcessStatements_resolves : ∀ (statements : List ProcessStatement)
    {bindings : Bindings} {table : EdgeTable processNames}
    {result : List ProcessCode × EdgeTable processNames}, bindings.letScopes ≠ [] →
      NoUnknown (analyzeProcessStmts pipelineName registry bindings statements).2 →
      compileProcessStatements processNames statements table = .ok result →
        ResolvesCode (Signed registry) bindings.known result.1
  | [], _, _, _, _, _, h => by
      obtain rfl := Except.ok.inj h
      trivial
  | statement :: rest, bindings, _, _, hscopes, hclean, h => by
      rw [analyzeProcessStmts] at hclean
      obtain ⟨hstatement, hrest⟩ := noUnknown_append.mp hclean
      rw [analyzeProcessStmt_bindings] at hrest
      obtain ⟨code, next, hcode, h⟩ := exists_of_bind_eq_ok h
      obtain ⟨codes, last, hcodes, h⟩ := exists_of_bind_eq_ok h
      obtain rfl := Except.ok.inj h
      obtain ⟨hscopes', hknown⟩ := known_bindingsAfter hscopes hcode
      refine ⟨compileProcessStatement_resolves statement hscopes hstatement hcode, ?_⟩
      exact hknown ▸ compileProcessStatements_resolves rest hscopes' hrest hcodes

theorem compileProcessStatement_resolves : ∀ (statement : ProcessStatement)
    {bindings : Bindings} {table : EdgeTable processNames}
    {result : ProcessCode × EdgeTable processNames}, bindings.letScopes ≠ [] →
      NoUnknown (analyzeProcessStmt pipelineName registry bindings statement).2 →
      compileProcessStatement processNames statement table = .ok result →
        ResolvesStatement (Signed registry) bindings.known result.1
  | .assign _ e, _, _, _, _, hclean, h | .letBinding _ e, _, _, _, _, hclean, h
  | .exprStmt e, _, _, _, _, hclean, h => by
      obtain rfl := Except.ok.inj h
      rw [analyzeProcessStmt] at hclean
      exact checkTypes_resolves e hclean
  | .processCall _, _, _, _, _, _, h => by
      obtain ⟨slot, next, -, h⟩ := exists_of_bind_eq_ok h
      obtain rfl := Except.ok.inj h
      trivial
  | .drop, _, _, _, _, _, h => by
      obtain rfl := Except.ok.inj h
      trivial
  | .error message, _, _, _, _, hclean, h => by
      obtain rfl := Except.ok.inj h
      rw [analyzeProcessStmt] at hclean
      exact checkMessage_resolves hclean
  | .ifChain branches none, _, _, _, _, hclean, h => by
      rw [analyzeProcessStmt] at hclean
      obtain ⟨codes, next, hcodes, h⟩ := exists_of_bind_eq_ok h
      obtain rfl := Except.ok.inj h
      exact compileProcessBranches_resolves branches hclean hcodes
  | .ifChain branches (some elseBody), bindings, _, _, _, hclean, h => by
      rw [analyzeProcessStmt] at hclean
      obtain ⟨hbranches, hbody⟩ := noUnknown_append.mp hclean
      obtain ⟨codes, next, hcodes, h⟩ := exists_of_bind_eq_ok h
      obtain ⟨elseCode, last, helse, h⟩ := exists_of_bind_eq_ok h
      obtain rfl := Except.ok.inj h
      have hscopes := pushLetScope_ne_nil bindings
      -- the scope of a branch is its own
      have helse := compileProcessBranch_resolves elseBody hscopes hbody helse
      rw [Bindings.known_pushLetScope] at helse
      exact ⟨compileProcessBranches_resolves branches hbranches hcodes, helse⟩
  | .switch discriminant arms, _, _, _, _, hclean, h => by
      rw [analyzeProcessStmt] at hclean
      obtain ⟨hdiscriminant, harms⟩ := noUnknown_append.mp hclean
      obtain ⟨codes, next, hcodes, h⟩ := exists_of_bind_eq_ok h
      obtain rfl := Except.ok.inj h
      exact ⟨checkTypes_resolves discriminant hdiscriminant,
        compileProcessArms_resolves arms (noUnknown_append.mp harms).2 hcodes⟩
  | .tryCatch tryBody catchBody, bindings, _, _, _, hclean, h => by
      rw [analyzeProcessStmt] at hclean
      obtain ⟨htry, hcatch⟩ := noUnknown_append.mp hclean
      obtain ⟨tryCode, next, htryCode, h⟩ := exists_of_bind_eq_ok h
      obtain ⟨catchCode, last, hcatchCode, h⟩ := exists_of_bind_eq_ok h
      obtain rfl := Except.ok.inj h
      have hscopes := pushLetScope_ne_nil bindings
      have htry := compileProcessStatements_resolves tryBody hscopes htry htryCode
      have hcatch := compileProcessStatements_resolves catchBody hscopes hcatch hcatchCode
      rw [Bindings.known_pushLetScope] at htry hcatch
      exact ⟨htry, hcatch⟩

theorem compileProcessBranch_resolves : ∀ (body : List BranchBody)
    {bindings : Bindings} {table : EdgeTable processNames}
    {result : List ProcessCode × EdgeTable processNames}, bindings.letScopes ≠ [] →
      NoUnknown (analyzeInlineBody pipelineName registry bindings body).2 →
      compileProcessBranch processNames body table = .ok result →
        ResolvesCode (Signed registry) bindings.known result.1
  | [], _, _, _, _, _, h => by
      obtain rfl := Except.ok.inj h
      trivial
  | .process statement :: rest, bindings, _, _, hscopes, hclean, h => by
      rw [analyzeInlineBody] at hclean
      obtain ⟨hstatement, hrest⟩ := noUnknown_append.mp hclean
      rw [analyzeProcessStmt_bindings] at hrest
      obtain ⟨code, next, hcode, h⟩ := exists_of_bind_eq_ok h
      obtain ⟨codes, last, hcodes, h⟩ := exists_of_bind_eq_ok h
      obtain rfl := Except.ok.inj h
      obtain ⟨hscopes', hknown⟩ := known_bindingsAfter hscopes hcode
      refine ⟨compileProcessStatement_resolves statement hscopes hstatement hcode, ?_⟩
      exact hknown ▸ compileProcessBranch_resolves rest hscopes' hrest hcodes
  | .pipeline _ :: _, _, _, _, _, _, h => by cases h

theorem compileProcessBranches_resolves : ∀ (branches : List (Expr × List BranchBody))
    {bindings : Bindings} {table : EdgeTable processNames}
    {result : List (Expr × List ProcessCode) × EdgeTable processNames},
      NoUnknown (analyzeInlineBranches pipelineName registry bindings branches).2 →
      compileProcessBranches processNames branches table = .ok result →
        ResolvesBranches (Signed registry) bindings.known result.1
  | [], _, _, _, _, h => by
      obtain rfl := Except.ok.inj h
      trivial
  | (condition, body) :: rest, bindings, _, _, hclean, h => by
      rw [analyzeInlineBranches] at hclean
      obtain ⟨hclean, hrest⟩ := noUnknown_append.mp hclean
      obtain ⟨hcondition, hbody⟩ := noUnknown_append.mp hclean
      obtain ⟨code, next, hcode, h⟩ := exists_of_bind_eq_ok h
      obtain ⟨codes, last, hcodes, h⟩ := exists_of_bind_eq_ok h
      obtain rfl := Except.ok.inj h
      have hbody := compileProcessBranch_resolves body (pushLetScope_ne_nil bindings) hbody hcode
      rw [Bindings.known_pushLetScope] at hbody
      exact ⟨checkTypes_resolves condition hcondition, hbody,
        compileProcessBranches_resolves rest hrest hcodes⟩

theorem compileProcessArms_resolves : ∀ (arms : List (Option Expr × List BranchBody))
    {bindings : Bindings} {table : EdgeTable processNames}
    {result : List (Option Expr × List ProcessCode) × EdgeTable processNames},
      NoUnknown (analyzeInlineArms pipelineName registry bindings arms).2 →
      compileProcessArms processNames arms table = .ok result →
        ResolvesCases (Signed registry) bindings.known result.1
  | [], _, _, _, _, h => by
      obtain rfl := Except.ok.inj h
      trivial
  | (pattern, body) :: rest, bindings, _, _, hclean, h => by
      rw [analyzeInlineArms] at hclean
      obtain ⟨hclean, hrest⟩ := noUnknown_append.mp hclean
      obtain ⟨hpattern, hbody⟩ := noUnknown_append.mp hclean
      obtain ⟨code, next, hcode, h⟩ := exists_of_bind_eq_ok h
      obtain ⟨codes, last, hcodes, h⟩ := exists_of_bind_eq_ok h
      obtain rfl := Except.ok.inj h
      have hbody := compileProcessBranch_resolves body (pushLetScope_ne_nil bindings) hbody hcode
      rw [Bindings.known_pushLetScope] at hbody
      exact ⟨checkMessage_resolves hpattern, hbody, compileProcessArms_resolves rest hrest hcodes⟩

end

/-- The analysis has looked at a body, in a scope that binds nothing, and has nothing to report. -/
def Cleared (registry : FunctionRegistry World) (body : List ProcessStatement) : Prop :=
  ∃ pipelineName bindings, bindings.letScopes ≠ [] ∧ bindings.known = ∅ ∧
    NoUnknown (analyzeProcessStmts pipelineName registry bindings body).2

theorem Cleared.resolves {body : List ProcessStatement} (h : Cleared registry body) {name : String}
    {code : Blueprint.ProcessBodyCode}
    (hcode : compileProcessBody processNames name body = .ok code) :
    ResolvesCode (Signed registry) ∅ code.code := by
  obtain ⟨pipelineName, bindings, hscopes, hknown, hclean⟩ := h
  unfold compileProcessBody at hcode
  obtain ⟨⟨codes, table⟩, hcodes, hcode⟩ := Except.exists_of_bind_eq_ok hcode
  obtain rfl := Except.ok.inj hcode
  exact hknown ▸ compileProcessStatements_resolves body hscopes hclean hcodes

end Processes

end Limpid.Check
