import Limpid.Check.ResolvedCode

/-!
# The analysis of a pipeline covers its code

The walk over the body of a pipeline leaves the bindings as they are when the body compiles: a
process is analysed in a scope of its own, and a branch of a pipeline binds nothing.  Every
expression of the compiled body resolves without a name being bound, every element of a chain has
a body that is cleared, and every site of the code runs what is compiled from such a body
(`compilePipelineStatements_clears`).
-/

namespace Limpid.Check

open Dsl Eval Pipeline Blueprint

variable {World : Type} {pipelineName : String} {processes : List (String × ProcessDef)}
  {registry : FunctionRegistry World} {processNames : List (String × ProcessBodyId)}

/-! ## Elements of chains -/

/-- The body that an element of a chain runs. -/
def elementBody (processes : List (String × ProcessDef)) :
    ProcessChainElement → Option (List ProcessStatement)
  | .named name => (processes.lookup name).map ProcessDef.body
  | .inline body => some body

/-- Bindings outside of every process: there is a scope, and nothing is bound. -/
def Outer (bindings : Bindings) : Prop := bindings.letScopes ≠ [] ∧ bindings.known = ∅

theorem outer_new : Outer Bindings.new.pushLetScope := by
  refine ⟨List.cons_ne_nil _ _, ?_⟩
  ext name
  simp [Bindings.known, Bindings.getLet, Bindings.pushLetScope, Bindings.new]

theorem Outer.cleared {bindings : Bindings} (h : Outer bindings) {body : List ProcessStatement}
    (hclean : NoUnknown (analyzeProcessBody pipelineName registry bindings body).2) :
    Cleared registry body := by
  refine ⟨pipelineName, bindings.pushLetScope, pushLetScope_ne_nil bindings, ?_, hclean⟩
  rw [Bindings.known_pushLetScope]
  exact h.2

theorem analyzeChainElement_bindings (bindings : Bindings) (element : ProcessChainElement) :
    (analyzeChainElement pipelineName processes registry bindings element).1 = bindings := by
  cases element with
  | named name =>
      unfold analyzeChainElement
      dsimp only
      split
      · exact analyzeProcessBody_bindings bindings _
      · rfl
  | inline body => exact analyzeProcessBody_bindings bindings body

theorem analyzeChainElement_cleared {bindings : Bindings} (h : Outer bindings)
    {element : ProcessChainElement}
    (hclean : NoUnknown (analyzeChainElement pipelineName processes registry bindings element).2) :
    ∀ body ∈ elementBody processes element, Cleared registry body := by
  intro body hbody
  cases element with
  | named name =>
      obtain ⟨processDef, hdef, rfl⟩ := Option.map_eq_some_iff.mp hbody
      simp only [analyzeChainElement, hdef] at hclean
      exact h.cleared hclean
  | inline statements =>
      obtain rfl := Option.some.inj hbody
      exact h.cleared hclean

/-- The body of an element is compiled under a number. -/
inductive RunsBody (processNames : List (String × ProcessBodyId))
    (bodies : List Blueprint.ProcessBodyCode) : ProcessChainElement → ProcessBodyId → Prop
  | named {name : String} {id : ProcessBodyId} : processNames.lookup name = some id →
      RunsBody processNames bodies (.named name) id
  | inline {name : String} {statements : List ProcessStatement} {body : Blueprint.ProcessBodyCode}
      {id : ProcessBodyId} : bodies[id]? = some body →
        compileProcessBody processNames name statements = .ok body →
          RunsBody processNames bodies (.inline statements) id

theorem RunsBody.mono {bodies more : List Blueprint.ProcessBodyCode} (hbodies : bodies <+: more)
    {element : ProcessChainElement} {id : ProcessBodyId}
    (h : RunsBody processNames bodies element id) : RunsBody processNames more element id := by
  cases h with
  | named hname => exact .named hname
  | inline hbody hcode => exact .inline (getElem?_of_isPrefix hbodies hbody) hcode

/-! ## Bodies of pipelines -/

/-- What the compiler makes of a part of a pipeline body on which nothing is reported. -/
structure Clears (processes : List (String × ProcessDef)) (registry : FunctionRegistry World)
    (processNames : List (String × ProcessBodyId)) (tables next : PipelineTables)
    (elements : List ProcessChainElement) (sites : List ProcessSite) (exprs : List Expr) :
    Prop where
  bodies : tables.processBodies <+: next.processBodies
  cleared : ∀ element ∈ elements, ∀ body ∈ elementBody processes element, Cleared registry body
  sites : ∀ site ∈ sites, ∃ element ∈ elements,
    RunsBody processNames next.processBodies element site.body
  exprs : ∀ e ∈ exprs, Resolves (Signed registry) ∅ e

namespace Clears

variable {tables next last : PipelineTables} {elements others : List ProcessChainElement}
  {sites more : List ProcessSite} {exprs terms : List Expr}

theorem quiet (h : tables.processBodies <+: next.processBodies) :
    Clears processes registry processNames tables next [] [] [] where
  bodies := h
  cleared _ helement := absurd helement List.not_mem_nil
  sites _ hsite := absurd hsite List.not_mem_nil
  exprs _ he := absurd he List.not_mem_nil

theorem refl (tables : PipelineTables) :
    Clears processes registry processNames tables tables [] [] [] :=
  .quiet List.prefix_rfl

theorem trans (h : Clears processes registry processNames tables next elements sites exprs)
    (hnext : Clears processes registry processNames next last others more terms) :
    Clears processes registry processNames tables last (elements ++ others) (sites ++ more)
      (exprs ++ terms) where
  bodies := h.bodies.trans hnext.bodies
  cleared := List.forall_mem_append.mpr ⟨h.cleared, hnext.cleared⟩
  sites := by
    refine List.forall_mem_append.mpr ⟨fun site hsite => ?_, fun site hsite => ?_⟩
    · obtain ⟨element, helement, hruns⟩ := h.sites site hsite
      exact ⟨element, List.mem_append_left _ helement, hruns.mono hnext.bodies⟩
    · obtain ⟨element, helement, hruns⟩ := hnext.sites site hsite
      exact ⟨element, List.mem_append_right _ helement, hruns⟩
  exprs := List.forall_mem_append.mpr ⟨h.exprs, hnext.exprs⟩

/-- Expressions of a statement beside its parts. -/
theorem withExprs (h : Clears processes registry processNames tables next elements sites exprs)
    (hterms : ∀ e ∈ terms, Resolves (Signed registry) ∅ e) :
    Clears processes registry processNames tables next elements sites (terms ++ exprs) :=
  { h with exprs := List.forall_mem_append.mpr ⟨hterms, h.exprs⟩ }

end Clears

theorem checkMessage_outer {bindings : Bindings} (h : Outer bindings) {message : Option Expr}
    (hclean : NoUnknown (checkMessage pipelineName registry bindings message)) :
    ∀ e ∈ message.toList, Resolves (Signed registry) ∅ e := by
  intro e he
  exact h.2 ▸ checkMessage_resolves hclean e (Option.mem_toList.mp he)

theorem checkTypes_outer {bindings : Bindings} (h : Outer bindings) {e : Expr}
    (hclean : NoUnknown (checkTypes pipelineName registry bindings e)) :
    ∀ other ∈ [e], Resolves (Signed registry) ∅ other := by
  intro other hother
  obtain rfl := List.mem_singleton.mp hother
  exact h.2 ▸ checkTypes_resolves other hclean

theorem compileChainElement_clears {bindings : Bindings} (h : Outer bindings)
    {element : ProcessChainElement} {tables : PipelineTables}
    {result : ProcessSite × PipelineTables}
    (hclean : NoUnknown (analyzeChainElement pipelineName processes registry bindings element).2)
    (hcode : compileChainElement processNames element tables = .ok result) :
    Clears processes registry processNames tables result.2 [element] [result.1] [] := by
  have helements : ∀ other ∈ [element], ∀ body ∈ elementBody processes other,
      Cleared registry body := by
    intro other hother
    obtain rfl := List.mem_singleton.mp hother
    exact analyzeChainElement_cleared h hclean
  have hexprs : ∀ e ∈ ([] : List Expr), Resolves (Signed registry) ∅ e :=
    fun e he => absurd he List.not_mem_nil
  cases element with
  | named name =>
      cases hname : processNames.lookup name with
      | none =>
          simp only [compileChainElement, hname] at hcode
          cases hcode
      | some id =>
          simp only [compileChainElement, hname] at hcode
          obtain rfl := Except.ok.inj hcode
          refine ⟨List.prefix_rfl, helements, ?_, hexprs⟩
          intro site hsite
          obtain rfl := List.mem_singleton.mp hsite
          exact ⟨_, List.mem_singleton_self _, .named hname⟩
  | inline statements =>
      obtain ⟨id, next, hid, hcode⟩ := exists_of_bind_eq_ok hcode
      obtain rfl := Except.ok.inj hcode
      unfold compileInline at hid
      obtain ⟨id', hindex, hid⟩ := Except.exists_of_bind_eq_ok hid
      obtain ⟨body, hbody, hid⟩ := Except.exists_of_bind_eq_ok hid
      obtain ⟨rfl, rfl⟩ := Prod.mk.inj (Except.ok.inj hid)
      -- the new body is the last one
      obtain ⟨hlt, rfl⟩ := fromIndex_eq_ok_iff.mp hindex
      refine ⟨List.prefix_append _ _, helements, ?_, hexprs⟩
      intro site hsite
      obtain rfl := List.mem_singleton.mp hsite
      exact ⟨_, List.mem_singleton_self _, .inline List.getElem?_concat_length hbody⟩

theorem compileChain_clears {bindings : Bindings} (h : Outer bindings)
    (chain : List ProcessChainElement) {tables : PipelineTables}
    {result : List ProcessSite × PipelineTables}
    (hclean : NoUnknown (analyzeChain pipelineName processes registry bindings chain).2)
    (hcode : mapInOrder (compileChainElement processNames) chain tables = .ok result) :
    (analyzeChain pipelineName processes registry bindings chain).1 = bindings ∧
      Clears processes registry processNames tables result.2 chain result.1 [] := by
  induction chain generalizing tables result with
  | nil =>
      obtain rfl := Except.ok.inj hcode
      exact ⟨rfl, .refl tables⟩
  | cons element rest ih =>
      rw [analyzeChain] at hclean ⊢
      dsimp only at hclean ⊢
      rw [analyzeChainElement_bindings] at hclean ⊢
      obtain ⟨hfirst, hrest⟩ := noUnknown_append.mp hclean
      obtain ⟨site, next, hsite, hcode⟩ := exists_of_bind_eq_ok hcode
      obtain ⟨sites, last, hsites, hcode⟩ := exists_of_bind_eq_ok hcode
      obtain rfl := Except.ok.inj hcode
      obtain ⟨hbindings, hclears⟩ := ih hrest hsites
      exact ⟨hbindings, (compileChainElement_clears h hfirst hsite).trans hclears⟩

theorem outputSlot_clears {name : String} {tables : PipelineTables}
    {result : OutputTimerSlot × PipelineTables} (h : outputSlot name tables = .ok result) :
    Clears processes registry processNames tables result.2 [] [] [] := by
  unfold outputSlot at h
  obtain ⟨given, hslot, h⟩ := Except.exists_of_bind_eq_ok h
  obtain rfl := Except.ok.inj h
  exact .quiet List.prefix_rfl

mutual

/-- **The code of a pipeline on which nothing is reported**, and what its sites run. -/
theorem compilePipelineStatements_clears : ∀ (statements : List PipelineStatement)
    {bindings : Bindings} {tables : PipelineTables} {result : List PipelineCode × PipelineTables},
    Outer bindings →
      NoUnknown (analyzePipelineStmts pipelineName processes registry bindings statements).2 →
      compilePipelineStatements processNames statements tables = .ok result →
        (analyzePipelineStmts pipelineName processes registry bindings statements).1 = bindings ∧
          Clears processes registry processNames tables result.2
            (PipelineStatement.elements statements) (codeSites result.1) (pipelineExprs result.1)
  | [], _, tables, _, _, _, h => by
      obtain rfl := Except.ok.inj h
      exact ⟨by rw [analyzePipelineStmts], .refl tables⟩
  | statement :: rest, bindings, _, _, houter, hclean, h => by
      rw [analyzePipelineStmts] at hclean ⊢
      dsimp only at hclean ⊢
      obtain ⟨hfirst, hrest⟩ := noUnknown_append.mp hclean
      obtain ⟨code, next, hcode, h⟩ := exists_of_bind_eq_ok h
      obtain ⟨codes, last, hcodes, h⟩ := exists_of_bind_eq_ok h
      obtain rfl := Except.ok.inj h
      obtain ⟨hsame, hclears⟩ := compilePipelineStatement_clears statement houter hfirst hcode
      rw [hsame] at hrest ⊢
      obtain ⟨hlast, hmore⟩ := compilePipelineStatements_clears rest houter hrest hcodes
      exact ⟨hlast, hclears.trans hmore⟩

theorem compilePipelineStatement_clears : ∀ (statement : PipelineStatement)
    {bindings : Bindings} {tables : PipelineTables} {result : PipelineCode × PipelineTables},
    Outer bindings →
      NoUnknown (analyzePipelineStmt pipelineName processes registry bindings statement).2 →
      compilePipelineStatement processNames statement tables = .ok result →
        (analyzePipelineStmt pipelineName processes registry bindings statement).1 = bindings ∧
          Clears processes registry processNames tables result.2
            (PipelineStatement.elementsOf statement) (statementSites result.1)
            (pipelineStatementExprs result.1)
  | .processChain chain, _, _, _, houter, hclean, h => by
      rw [analyzePipelineStmt] at hclean ⊢
      obtain ⟨sites, next, hsites, h⟩ := exists_of_bind_eq_ok h
      obtain rfl := Except.ok.inj h
      exact compileChain_clears houter chain hclean hsites
  | .output name, _, _, _, _, _, h => by
      obtain ⟨slot, next, hslot, h⟩ := exists_of_bind_eq_ok h
      obtain rfl := Except.ok.inj h
      exact ⟨by rw [analyzePipelineStmt], outputSlot_clears hslot⟩
  | .input _, _, tables, _, _, _, h | .drop, _, tables, _, _, _, h
  | .finish, _, tables, _, _, _, h => by
      obtain rfl := Except.ok.inj h
      exact ⟨by rw [analyzePipelineStmt], .refl tables⟩
  | .error message, _, tables, _, houter, hclean, h => by
      rw [analyzePipelineStmt] at hclean ⊢
      obtain rfl := Except.ok.inj h
      exact ⟨rfl, { Clears.refl tables with exprs := checkMessage_outer houter hclean }⟩
  | .ifChain branches none, bindings, _, _, houter, hclean, h => by
      rw [analyzePipelineStmt] at hclean ⊢
      dsimp only at hclean ⊢
      obtain ⟨codes, next, hcodes, h⟩ := exists_of_bind_eq_ok h
      obtain rfl := Except.ok.inj h
      obtain ⟨hresults, hclears⟩ := compilePipelineBranches_clears branches houter hclean hcodes
      rw [hresults]
      exact ⟨intersectBranches_concat bindings _, hclears⟩
  | .ifChain branches (some elseBody), bindings, _, _, houter, hclean, h => by
      rw [analyzePipelineStmt] at hclean ⊢
      dsimp only at hclean ⊢
      obtain ⟨hbranches, helse⟩ := noUnknown_append.mp hclean
      obtain ⟨codes, next, hcodes, h⟩ := exists_of_bind_eq_ok h
      obtain ⟨elseCode, last, helseCode, h⟩ := exists_of_bind_eq_ok h
      obtain rfl := Except.ok.inj h
      obtain ⟨hresults, hclears⟩ := compilePipelineBranches_clears branches houter hbranches hcodes
      obtain ⟨hlast, hmore⟩ := compilePipelineBranch_clears elseBody houter helse helseCode
      rw [hresults, hlast]
      exact ⟨intersectBranches_concat bindings _, hclears.trans hmore⟩
  | .switch discriminant arms, bindings, _, _, houter, hclean, h => by
      rw [analyzePipelineStmt] at hclean ⊢
      dsimp only at hclean ⊢
      obtain ⟨hdiscriminant, harms⟩ := noUnknown_append.mp hclean
      obtain ⟨codes, next, hcodes, h⟩ := exists_of_bind_eq_ok h
      obtain rfl := Except.ok.inj h
      obtain ⟨hresults, hclears⟩ :=
        compilePipelineArms_clears arms houter (noUnknown_append.mp harms).2 hcodes
      refine ⟨?_, hclears.withExprs (checkTypes_outer houter hdiscriminant)⟩
      rw [hresults]
      split
      · next hdefault =>
        -- a default arm is an arm
        cases arms with
        | nil => cases hdefault
        | cons arm rest =>
            have hone := intersectBranches_replicate bindings rest.length []
            rwa [List.append_nil] at hone
      · exact intersectBranches_concat bindings _

theorem compilePipelineBranch_clears : ∀ (body : List BranchBody)
    {bindings : Bindings} {tables : PipelineTables} {result : List PipelineCode × PipelineTables},
    Outer bindings →
      NoUnknown (analyzeBranch pipelineName processes registry bindings body).2 →
      compilePipelineBranch processNames body tables = .ok result →
        (analyzeBranch pipelineName processes registry bindings body).1 = bindings ∧
          Clears processes registry processNames tables result.2
            (PipelineStatement.elementsBranch body) (codeSites result.1) (pipelineExprs result.1)
  | [], _, tables, _, _, _, h => by
      obtain rfl := Except.ok.inj h
      exact ⟨by rw [analyzeBranch], .refl tables⟩
  | .pipeline statement :: rest, bindings, _, _, houter, hclean, h => by
      rw [analyzeBranch] at hclean ⊢
      dsimp only at hclean ⊢
      obtain ⟨hfirst, hrest⟩ := noUnknown_append.mp hclean
      obtain ⟨code, next, hcode, h⟩ := exists_of_bind_eq_ok h
      obtain ⟨codes, last, hcodes, h⟩ := exists_of_bind_eq_ok h
      obtain rfl := Except.ok.inj h
      obtain ⟨hsame, hclears⟩ := compilePipelineStatement_clears statement houter hfirst hcode
      rw [hsame] at hrest ⊢
      obtain ⟨hlast, hmore⟩ := compilePipelineBranch_clears rest houter hrest hcodes
      exact ⟨hlast, hclears.trans hmore⟩
  | .process _ :: _, _, _, _, _, _, h => by cases h

theorem compilePipelineBranches_clears : ∀ (branches : List (Expr × List BranchBody))
    {bindings : Bindings} {tables : PipelineTables}
    {result : List (Expr × List PipelineCode) × PipelineTables},
    Outer bindings →
      NoUnknown (analyzeBranches pipelineName processes registry bindings branches).2 →
      compilePipelineBranches processNames branches tables = .ok result →
        (analyzeBranches pipelineName processes registry bindings branches).1 =
            List.replicate branches.length bindings ∧
          Clears processes registry processNames tables result.2
            (PipelineStatement.elementsBranches branches) (branchesSites result.1)
            (pipelineBranchesExprs result.1)
  | [], _, tables, _, _, _, h => by
      obtain rfl := Except.ok.inj h
      exact ⟨by rw [analyzeBranches]; rfl, .refl tables⟩
  | (condition, body) :: rest, bindings, _, _, houter, hclean, h => by
      rw [analyzeBranches] at hclean ⊢
      dsimp only at hclean ⊢
      obtain ⟨hclean, hrest⟩ := noUnknown_append.mp hclean
      obtain ⟨hcondition, hbody⟩ := noUnknown_append.mp hclean
      obtain ⟨code, next, hcode, h⟩ := exists_of_bind_eq_ok h
      obtain ⟨codes, last, hcodes, h⟩ := exists_of_bind_eq_ok h
      obtain rfl := Except.ok.inj h
      obtain ⟨hsame, hclears⟩ := compilePipelineBranch_clears body houter hbody hcode
      obtain ⟨hresults, hmore⟩ := compilePipelineBranches_clears rest houter hrest hcodes
      rw [hsame, hresults]
      exact ⟨rfl, (hclears.trans hmore).withExprs (checkTypes_outer houter hcondition)⟩

theorem compilePipelineArms_clears : ∀ (arms : List (Option Expr × List BranchBody))
    {bindings : Bindings} {tables : PipelineTables}
    {result : List (Option Expr × List PipelineCode) × PipelineTables},
    Outer bindings →
      NoUnknown (analyzeArms pipelineName processes registry bindings arms).2 →
      compilePipelineArms processNames arms tables = .ok result →
        (analyzeArms pipelineName processes registry bindings arms).1 =
            List.replicate arms.length bindings ∧
          Clears processes registry processNames tables result.2
            (PipelineStatement.elementsArms arms) (armsSites result.1)
            (pipelineArmsExprs result.1)
  | [], _, tables, _, _, _, h => by
      obtain rfl := Except.ok.inj h
      exact ⟨by rw [analyzeArms]; rfl, .refl tables⟩
  | (pattern, body) :: rest, bindings, _, _, houter, hclean, h => by
      rw [analyzeArms] at hclean ⊢
      dsimp only at hclean ⊢
      obtain ⟨hclean, hrest⟩ := noUnknown_append.mp hclean
      obtain ⟨hpattern, hbody⟩ := noUnknown_append.mp hclean
      obtain ⟨code, next, hcode, h⟩ := exists_of_bind_eq_ok h
      obtain ⟨codes, last, hcodes, h⟩ := exists_of_bind_eq_ok h
      obtain rfl := Except.ok.inj h
      obtain ⟨hsame, hclears⟩ := compilePipelineBranch_clears body houter hbody hcode
      obtain ⟨hresults, hmore⟩ := compilePipelineArms_clears rest houter hrest hcodes
      rw [hsame, hresults]
      exact ⟨rfl, (hclears.trans hmore).withExprs (checkMessage_outer houter hpattern)⟩

end

end Limpid.Check
