import Limpid.Check.ResolvedProgram
import Limpid.Dsl.Negation
import Limpid.Pipeline.FrameAccount

/-!
# What the analysis does not look at

The analysis reads the definition of a process in two places: the walk reads it where a chain names
the process, and the search for cycles reads off it which processes are called.  So two programs
that differ only in processes which no chain names have the same diagnostics about names, and the
same diagnostics altogether if these processes make the same calls (`analyze_unnamed`).  Such a
process still runs when another one calls it, so a program on which nothing is reported can fail on
an unknown identifier.
-/

namespace Limpid.Check

open Dsl Eval Pipeline Blueprint

variable {World : Type} {pipelineName : String} {processes others : List (String × ProcessDef)}
  {registry : FunctionRegistry World}

/-! ## Bodies of pipelines -/

/-- Two lists of definitions agree on the processes that chains name. -/
def AgreeOn (processes others : List (String × ProcessDef))
    (elements : List ProcessChainElement) : Prop :=
  ∀ name, .named name ∈ elements → processes.lookup name = others.lookup name

theorem agreeOn_append {elements more : List ProcessChainElement} :
    AgreeOn processes others (elements ++ more) ↔
      AgreeOn processes others elements ∧ AgreeOn processes others more := by
  simp only [AgreeOn, List.mem_append, or_imp, forall_and]

theorem analyzeChain_congr (chain : List ProcessChainElement) (bindings : Bindings)
    (h : AgreeOn processes others chain) :
    analyzeChain pipelineName processes registry bindings chain =
      analyzeChain pipelineName others registry bindings chain := by
  induction chain generalizing bindings with
  | nil => rfl
  | cons element rest ih =>
      obtain ⟨hfirst, hrest⟩ := (agreeOn_append : AgreeOn _ _ ([element] ++ rest) ↔ _).mp h
      have helement : analyzeChainElement pipelineName processes registry bindings element =
          analyzeChainElement pipelineName others registry bindings element := by
        cases element with
        | named name =>
            unfold analyzeChainElement
            dsimp only
            rw [hfirst name List.mem_cons_self]
        | inline body => rfl
      rw [analyzeChain, analyzeChain, helement]
      dsimp only
      rw [ih _ hrest]

mutual

/-- The analysis of a body reads the definitions of the processes that its chains name. -/
theorem analyzePipelineStmts_congr : ∀ (statements : List PipelineStatement) (bindings : Bindings),
    AgreeOn processes others (PipelineStatement.elements statements) →
      analyzePipelineStmts pipelineName processes registry bindings statements =
        analyzePipelineStmts pipelineName others registry bindings statements
  | [], _, _ => by rw [analyzePipelineStmts, analyzePipelineStmts]
  | statement :: rest, bindings, h => by
      obtain ⟨hfirst, hrest⟩ := agreeOn_append.mp h
      rw [analyzePipelineStmts, analyzePipelineStmts,
        analyzePipelineStmt_congr statement bindings hfirst]
      dsimp only
      rw [analyzePipelineStmts_congr rest _ hrest]

theorem analyzePipelineStmt_congr : ∀ (statement : PipelineStatement) (bindings : Bindings),
    AgreeOn processes others (PipelineStatement.elementsOf statement) →
      analyzePipelineStmt pipelineName processes registry bindings statement =
        analyzePipelineStmt pipelineName others registry bindings statement
  | .processChain chain, bindings, h => by
      rw [analyzePipelineStmt, analyzePipelineStmt]
      exact analyzeChain_congr chain bindings h
  | .input _, _, _ | .output _, _, _ | .drop, _, _ | .finish, _, _ | .error _, _, _ => by
      rw [analyzePipelineStmt, analyzePipelineStmt]
  | .ifChain branches none, bindings, h => by
      rw [analyzePipelineStmt, analyzePipelineStmt, analyzeBranches_congr branches bindings h]
  | .ifChain branches (some elseBody), bindings, h => by
      obtain ⟨hbranches, helse⟩ := agreeOn_append.mp h
      rw [analyzePipelineStmt, analyzePipelineStmt,
        analyzeBranches_congr branches bindings hbranches,
        analyzeBranch_congr elseBody bindings helse]
  | .switch discriminant arms, bindings, h => by
      rw [analyzePipelineStmt, analyzePipelineStmt, analyzeArms_congr arms bindings h]

theorem analyzeBranch_congr : ∀ (body : List BranchBody) (bindings : Bindings),
    AgreeOn processes others (PipelineStatement.elementsBranch body) →
      analyzeBranch pipelineName processes registry bindings body =
        analyzeBranch pipelineName others registry bindings body
  | [], _, _ => by rw [analyzeBranch, analyzeBranch]
  | .pipeline statement :: rest, bindings, h => by
      obtain ⟨hfirst, hrest⟩ := agreeOn_append.mp h
      rw [analyzeBranch, analyzeBranch, analyzePipelineStmt_congr statement bindings hfirst]
      dsimp only
      rw [analyzeBranch_congr rest _ hrest]
  | .process statement :: rest, bindings, h => by
      rw [analyzeBranch, analyzeBranch]
      dsimp only
      rw [analyzeBranch_congr rest _ h]

theorem analyzeBranches_congr : ∀ (branches : List (Expr × List BranchBody)) (bindings : Bindings),
    AgreeOn processes others (PipelineStatement.elementsBranches branches) →
      analyzeBranches pipelineName processes registry bindings branches =
        analyzeBranches pipelineName others registry bindings branches
  | [], _, _ => by rw [analyzeBranches, analyzeBranches]
  | (condition, body) :: rest, bindings, h => by
      obtain ⟨hfirst, hrest⟩ := agreeOn_append.mp h
      rw [analyzeBranches, analyzeBranches, analyzeBranch_congr body bindings hfirst,
        analyzeBranches_congr rest bindings hrest]

theorem analyzeArms_congr : ∀ (arms : List (Option Expr × List BranchBody)) (bindings : Bindings),
    AgreeOn processes others (PipelineStatement.elementsArms arms) →
      analyzeArms pipelineName processes registry bindings arms =
        analyzeArms pipelineName others registry bindings arms
  | [], _, _ => by rw [analyzeArms, analyzeArms]
  | (pattern, body) :: rest, bindings, h => by
      obtain ⟨hfirst, hrest⟩ := agreeOn_append.mp h
      rw [analyzeArms, analyzeArms, analyzeBranch_congr body bindings hfirst,
        analyzeArms_congr rest bindings hrest]

end

/-! ## Programs -/

/-- Two programs that differ only in the bodies of processes which no chain names. -/
structure SameNamed (program other : Program) : Prop where
  functions : program.functions = other.functions
  pipelines : program.pipelines = other.pipelines
  names : Entries.keys program.processes = Entries.keys other.processes
  named : ∀ entry ∈ program.pipelines,
    AgreeOn program.processes other.processes (PipelineStatement.elements entry.2.body)

/-- What the search for cycles reports is not about names. -/
theorem Program.checkProcessCycles_kind (program : Program) :
    ∀ d ∈ program.checkProcessCycles, d.kind = .other := by
  refine fun d hd => (checkCycles_errors ?_ d hd).2
  intro node callee hcallee
  unfold Program.processCallees at hcallee
  cases hlookup : program.processes.lookup node with
  | none =>
      rw [hlookup] at hcallee
      exact absurd hcallee List.not_mem_nil
  | some processDef =>
      rw [hlookup, Option.map_some, Option.getD_some, List.mem_dedup,
        List.mem_insertionSort] at hcallee
      rw [mem_sortedKeys]
      exact of_decide_eq_true (List.mem_filter.mp hcallee).2

/-- The diagnostics about names. -/
def aboutNames (diagnostics : List Diagnostic) : List Diagnostic :=
  diagnostics.filter fun d => d.kind = .unknownIdent

/-- **A process that no chain names is not looked at.**  What is reported about names does not
depend on its body, and what is reported otherwise only on the calls in it. -/
theorem analyze_unnamed {program other : Program} (h : SameNamed program other)
    (names : List String) (builtins : FunctionRegistry World) :
    aboutNames (program.analyze names builtins) = aboutNames (other.analyze names builtins) ∧
      ((∀ name, program.processCallees name = other.processCallees name) →
        program.analyze names builtins = other.analyze names builtins) := by
  have hconfig : program.functionConfig = other.functionConfig := by
    unfold Program.functionConfig
    simp only [h.functions, h.names]
  have hregistry : program.registry builtins = other.registry builtins := by
    unfold Program.registry
    rw [hconfig]
  -- only the middle part of the diagnostics is left
  have hparts : ∃ first last, ∀ each : Program, each = program ∨ each = other →
      each.analyze names builtins = first ++ (each.checkProcessCycles ++ last) := by
    refine ⟨checkAllFunctions other.functionConfig names (other.registry builtins),
      other.pipelines.flatMap fun entry =>
        analyzePipeline entry.1 other.processes (other.registry builtins) entry.2, ?_⟩
    rintro each (rfl | rfl)
    · have hwalk : (each.pipelines.flatMap fun entry =>
          analyzePipeline entry.1 each.processes (each.registry builtins) entry.2) =
            other.pipelines.flatMap fun entry =>
              analyzePipeline entry.1 other.processes (other.registry builtins) entry.2 := by
        rw [← h.pipelines, hregistry]
        refine List.flatMap_congr fun entry hentry => ?_
        unfold analyzePipeline
        rw [analyzePipelineStmts_congr _ _ (h.named entry hentry)]
      rw [← hwalk, ← hconfig, ← hregistry]
      rfl
    · rfl
  obtain ⟨first, last, hparts⟩ := hparts
  rw [hparts program (.inl rfl), hparts other (.inr rfl)]
  constructor
  · have hnone : ∀ program : Program, aboutNames program.checkProcessCycles = [] := by
      refine fun program => List.filter_eq_nil_iff.mpr fun d hd => ?_
      rw [program.checkProcessCycles_kind d hd]
      decide
    unfold aboutNames at hnone ⊢
    simp only [List.filter_append, hnone]
  · intro hcalls
    have hcycles : program.checkProcessCycles = other.checkProcessCycles := by
      unfold Program.checkProcessCycles sortedKeys
      rw [funext hcalls, h.names]
    rw [hcycles]

/-! ### A process that only another one calls -/

/-- `input in; process outer; output out`. -/
def outerMain : PipelineDef :=
  ⟨"main", [.input ["in"], .processChain [.named "outer"], .output "out"]⟩

/-- `def process outer { process inner }`, with a body of `inner`. -/
def calling (inner : List ProcessStatement) : Program where
  processes := [("outer", ⟨"outer", [.processCall "inner"]⟩), ("inner", ⟨"inner", inner⟩)]
  pipelines := [("main", outerMain)]
  nodup_processes := by
    show ["outer", "inner"].Nodup
    decide
  nodup_pipelines := by decide
  functions := []
  nodup_functions := List.nodup_nil

theorem calling_sameNamed (inner other : List ProcessStatement) :
    SameNamed (calling inner) (calling other) where
  functions := rfl
  pipelines := rfl
  names := rfl
  named entry hentry name hname := by
    obtain rfl := List.mem_singleton.mp hentry
    obtain rfl : name = "outer" := by
      simpa [outerMain, PipelineStatement.elements, PipelineStatement.elementsOf] using hname
    rfl

/-- The reason of a record. -/
def ErroredEventContext.reason : ErroredEventContext → String
  | .process _ _ reason _ => reason
  | .output _ _ reason _ _ => reason

/-- The reasons of the records of a run of the first pipeline. -/
def failures (program : Program) (event : OwnedEvent) : Option (List String) := do
  let blueprint ← (compileRuntimeBlueprint program.toCompiledConfig).toOption
  let (_, pipeline) ← blueprint.pipelines.head?
  let counters := pipeline.metricNodes.map fun _ => ⟨0, 0, 0, 0⟩
  let (outcome, _) ← runPipelineBlueprintResolvedAt
    (blueprint.execCtx binary64 (program.registry noFunctions) pipeline .captureAll event 3)
    ((), counters)
  let result ← outcome.toOption
  return result.errored.map ErroredEventContext.reason

/-- Nothing is reported about `inner`, and a run fails on the name in it. -/
theorem analyze_unnamed_calling :
    (calling [.exprStmt (.ident ["nope"])]).analyze [] noFunctions =
        (calling [.drop]).analyze [] noFunctions ∧
      (calling [.drop]).analyze [] noFunctions = [] ∧
        failures (calling [.exprStmt (.ident ["nope"])]) someEvent =
          some ["process failed: process failed: unknown identifier: nope"] := by
  have hcalls : ∀ name, (calling [.exprStmt (.ident ["nope"])]).processCallees name =
      (calling [.drop]).processCallees name := by
    intro name
    simp only [Program.processCallees, calling, Entries.lookup_cons]
    split
    · rfl
    · split <;> rfl
  refine ⟨(analyze_unnamed (calling_sameNamed _ _) [] noFunctions).2 hcalls, ?_, ?_⟩
  · decide +kernel
  · decide +kernel

end Limpid.Check
