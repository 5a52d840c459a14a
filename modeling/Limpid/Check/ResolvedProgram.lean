import Limpid.Check.Resolved
import Limpid.Check.ResolvedPipeline
import Limpid.Check.ResolvedRun
import Limpid.Pipeline.BlueprintSound
import Limpid.Pipeline.CompiledBlueprint
import Limpid.Pipeline.SealedRun

/-!
# The analysis covers what runs

A program compiles and the analysis reports nothing as unknown.  The analysis walks over the bodies
of pipelines, over inline processes and over the processes that a chain names, and the code compiled
from what it has walked over resolves.  It does not walk from a `process` statement to the process
it names, so a process that is only called by other processes is never looked at
(`analyze_unnamed`).  Where every process that is called is also named in a chain (`Covered`), no
run of a pipeline, on any event, evaluates an identifier or calls a function that is unknown
(`no_unknown_names`).
-/

namespace Limpid.Check

open Dsl Eval Pipeline Blueprint

variable {World : Type}

/-! ## Metric nodes -/

section MetricNodes

variable {bodies : List Blueprint.ProcessBodyCode}

mutual

/-- The metric nodes change no expression of a pipeline. -/
theorem attachPipelineMetricNodes_exprs : ∀ (code : List PipelineCode) {table : MetricTable}
    {result : List PipelineCode × MetricTable},
    attachPipelineMetricNodes bodies code table = .ok result →
      pipelineExprs result.1 = pipelineExprs code
  | [], _, _, h => by
      obtain rfl := Except.ok.inj h
      rfl
  | statement :: rest, _, _, h => by
      obtain ⟨code, next, hcode, h⟩ := exists_of_bind_eq_ok h
      obtain ⟨codes, last, hcodes, h⟩ := exists_of_bind_eq_ok h
      obtain rfl := Except.ok.inj h
      exact congrArg₂ (· ++ ·) (attachStatement_exprs statement hcode)
        (attachPipelineMetricNodes_exprs rest hcodes)

theorem attachStatement_exprs : ∀ (statement : PipelineCode) {table : MetricTable}
    {result : PipelineCode × MetricTable}, attachStatement bodies statement table = .ok result →
      pipelineStatementExprs result.1 = pipelineStatementExprs statement
  | .processChain sites, _, _, h => by
      obtain ⟨attached, next, -, h⟩ := exists_of_bind_eq_ok h
      obtain rfl := Except.ok.inj h
      rfl
  | .ifChain branches none, _, _, h => by
      obtain ⟨codes, next, hcodes, h⟩ := exists_of_bind_eq_ok h
      obtain rfl := Except.ok.inj h
      exact attachBranches_exprs branches hcodes
  | .ifChain branches (some elseBody), _, _, h => by
      obtain ⟨codes, next, hcodes, h⟩ := exists_of_bind_eq_ok h
      obtain ⟨elseCode, last, helse, h⟩ := exists_of_bind_eq_ok h
      obtain rfl := Except.ok.inj h
      exact congrArg₂ (· ++ ·) (attachBranches_exprs branches hcodes)
        (attachPipelineMetricNodes_exprs elseBody helse)
  | .switch discriminant arms, _, _, h => by
      obtain ⟨codes, next, hcodes, h⟩ := exists_of_bind_eq_ok h
      obtain rfl := Except.ok.inj h
      exact congrArg (discriminant :: ·) (attachArms_exprs arms hcodes)
  | .input _, _, _, h | .output _ _, _, _, h | .drop, _, _, h | .finish, _, _, h
  | .error _, _, _, h => by
      obtain rfl := Except.ok.inj h
      rfl

theorem attachBranches_exprs : ∀ (branches : List (Expr × List PipelineCode))
    {table : MetricTable} {result : List (Expr × List PipelineCode) × MetricTable},
    attachBranches bodies branches table = .ok result →
      pipelineBranchesExprs result.1 = pipelineBranchesExprs branches
  | [], _, _, h => by
      obtain rfl := Except.ok.inj h
      rfl
  | (condition, body) :: rest, _, _, h => by
      obtain ⟨code, next, hcode, h⟩ := exists_of_bind_eq_ok h
      obtain ⟨codes, last, hcodes, h⟩ := exists_of_bind_eq_ok h
      obtain rfl := Except.ok.inj h
      exact congrArg (condition :: ·) (congrArg₂ (· ++ ·)
        (attachPipelineMetricNodes_exprs body hcode) (attachBranches_exprs rest hcodes))

theorem attachArms_exprs : ∀ (arms : List (Option Expr × List PipelineCode))
    {table : MetricTable} {result : List (Option Expr × List PipelineCode) × MetricTable},
    attachArms bodies arms table = .ok result →
      pipelineArmsExprs result.1 = pipelineArmsExprs arms
  | [], _, _, h => by
      obtain rfl := Except.ok.inj h
      rfl
  | (pattern, body) :: rest, _, _, h => by
      obtain ⟨code, next, hcode, h⟩ := exists_of_bind_eq_ok h
      obtain ⟨codes, last, hcodes, h⟩ := exists_of_bind_eq_ok h
      obtain rfl := Except.ok.inj h
      exact congrArg (pattern.toList ++ ·) (congrArg₂ (· ++ ·)
        (attachPipelineMetricNodes_exprs body hcode) (attachArms_exprs rest hcodes))

end

end MetricNodes

/-! ## What is compiled from what -/

section Compile

variable {config : Blueprint.CompiledConfig} {processNames : List (String × ProcessBodyId)}

/-- The body of a named process is compiled from its definition. -/
theorem compileNamedProcesses_exact {entries : List (String × ProcessBodyId)}
    {bodies result : List Blueprint.ProcessBodyCode}
    (h : compileNamedProcesses processNames config entries bodies = .ok result) :
    ∀ name id, (name, id) ∈ entries → ∃ processDef body,
      config.processes.lookup name = some processDef ∧ result[id]? = some body ∧
        compileProcessBody processNames name processDef.body = .ok body := by
  induction entries generalizing bodies with
  | nil => exact fun _ _ hmem => absurd hmem List.not_mem_nil
  | cons entry rest ih =>
      obtain ⟨name, expected⟩ := entry
      rw [compileNamedProcesses] at h
      split at h
      · cases h
      · next processDef hdef =>
        obtain ⟨body, hbody, h⟩ := Except.exists_of_bind_eq_ok h
        obtain ⟨actual, hactual, hrest⟩ := Except.exists_of_bind_eq_ok h
        split at hrest
        · cases hrest
        · next hsame =>
          obtain ⟨hlt, rfl⟩ := fromIndex_eq_ok_iff.mp hactual
          obtain rfl : bodies.length = expected := not_not.mp hsame
          obtain ⟨hbodies, -⟩ := compileNamedProcesses_spec hrest
          intro other id hmem
          rcases List.mem_cons.mp hmem with heq | hmem
          · obtain ⟨rfl, rfl⟩ := Prod.mk.inj heq
            exact ⟨processDef, body, hdef,
              getElem?_of_isPrefix hbodies List.getElem?_concat_length, hbody⟩
          · exact ih hrest other id hmem

/-- A pipeline of the blueprint is compiled from its definition. -/
theorem compilePipelines_exact {names : List String} {bodies : List Blueprint.ProcessBodyCode}
    {result : List (String × Blueprint.PipelineBlueprint) × List Blueprint.ProcessBodyCode}
    (hbodies : processNames.length ≤ bodies.length)
    (h : mapInOrder (compileConfigPipeline config processNames) names bodies = .ok result) :
    ∀ name pipeline, (name, pipeline) ∈ result.1 → ∃ definition before after,
      config.pipelines.lookup name = some definition ∧
        compilePipeline processNames definition before = .ok (pipeline, after) ∧
          after <+: result.2 := by
  induction names generalizing bodies result with
  | nil =>
      obtain rfl := Except.ok.inj h
      exact fun _ _ hmem => absurd hmem List.not_mem_nil
  | cons name rest ih =>
      obtain ⟨entry, next, hentry, h⟩ := exists_of_bind_eq_ok h
      obtain ⟨entries, last, hentries, h⟩ := exists_of_bind_eq_ok h
      obtain rfl := Except.ok.inj h
      unfold compileConfigPipeline at hentry
      cases hdefinition : config.pipelines.lookup name with
      | none =>
        rw [hdefinition] at hentry
        cases hentry
      | some definition =>
        rw [hdefinition] at hentry
        obtain ⟨pipeline, after, hpipeline, hentry⟩ := exists_of_bind_eq_ok hentry
        obtain ⟨rfl, rfl⟩ := Prod.mk.inj (Except.ok.inj hentry)
        obtain ⟨hgrow, -⟩ := compilePipeline_spec hbodies hpipeline
        have hnext : processNames.length ≤ after.length :=
          Nat.le_trans hbodies hgrow.grows.length_le
        obtain ⟨hrest, -⟩ := compilePipelines_spec hnext hentries
        intro other blueprint hmem
        rcases List.mem_cons.mp hmem with heq | hmem
        · obtain ⟨rfl, rfl⟩ := Prod.mk.inj heq
          exact ⟨definition, bodies, after, hdefinition, hpipeline, hrest.grows⟩
        · exact ih hnext hentries other blueprint hmem

/-- What the tables of a blueprint are compiled from. -/
structure CompiledExactly (config : Blueprint.CompiledConfig)
    (blueprint : UnsealedRuntimeBlueprint) : Prop where
  named : ∀ name id, blueprint.processNames.lookup name = some id → ∃ processDef body,
    config.processes.lookup name = some processDef ∧ blueprint.processBodies[id]? = some body ∧
      compileProcessBody blueprint.processNames name processDef.body = .ok body
  pipelines : ∀ name pipeline, (name, pipeline) ∈ blueprint.pipelines →
    ∃ definition before after, config.pipelines.lookup name = some definition ∧
      compilePipeline blueprint.processNames definition before = .ok (pipeline, after) ∧
        after <+: blueprint.processBodies

theorem compile_exact {blueprint : UnsealedRuntimeBlueprint}
    (h : UnsealedRuntimeBlueprint.compile config = .ok blueprint) :
    CompiledExactly config blueprint := by
  have hspec := compile_spec h
  unfold UnsealedRuntimeBlueprint.compile at h
  obtain ⟨processNames, hnames, h⟩ := Except.exists_of_bind_eq_ok h
  obtain ⟨named, hnamed, h⟩ := Except.exists_of_bind_eq_ok h
  obtain ⟨⟨pipelines, bodies⟩, hpipelines, h⟩ := Except.exists_of_bind_eq_ok h
  obtain ⟨ids, hids, h⟩ := Except.exists_of_bind_eq_ok h
  obtain rfl := Except.ok.inj h
  have hlength := (namedBodies_of_compile (numberFrom_eq hnames).1 hnamed).2.1
  have hbodies := Nat.le_of_eq hlength.symm
  refine ⟨fun name id hid => ?_, compilePipelines_exact hbodies hpipelines⟩
  have hmem : (name, id) ∈ processNames := by
    have hplace := hspec.bodies.lookup_eq_some_iff.mp hid
    have hnumbered : processNames = _ := hspec.bodies.numbered
    rw [hnumbered]
    exact List.mk_mem_zipIdx_iff_getElem?.mpr hplace
  obtain ⟨processDef, body, hdef, hbody, hcode⟩ := compileNamedProcesses_exact hnamed name id hmem
  obtain ⟨hgrow, -⟩ := compilePipelines_spec hbodies hpipelines
  exact ⟨processDef, body, hdef, getElem?_of_isPrefix hgrow.grows hbody, hcode⟩

end Compile

/-! ## Programs -/

/-- Every entry of the second list belongs to one of the first. -/
theorem exists_left_of_mem {α β : Type*} {R : α → β → Prop} {first : List α} {second : List β}
    (h : List.Forall₂ R first second) : ∀ b ∈ second, ∃ a ∈ first, R a b := by
  induction h with
  | nil => exact fun _ hmem => absurd hmem List.not_mem_nil
  | cons hab _ ih =>
      refine List.forall_mem_cons.mpr ⟨⟨_, List.mem_cons_self, hab⟩, fun b hb => ?_⟩
      obtain ⟨a, ha, hrel⟩ := ih b hb
      exact ⟨a, List.mem_cons_of_mem _ ha, hrel⟩

namespace Program

variable {program : Program} {builtins : FunctionRegistry World} {names : List String}
  {blueprint : UnsealedRuntimeBlueprint}

/-- A body that the analysis walks over: an inline process, or that of a process a chain names. -/
def Analyzed (program : Program) (body : List ProcessStatement) : Prop :=
  ∃ name pipeline, program.pipelines.lookup name = some pipeline ∧
    ∃ element ∈ PipelineStatement.elements pipeline.body,
      body ∈ elementBody program.processes element

/-- Every process that a walked body calls is named in a chain. -/
def Covered (program : Program) : Prop :=
  ∀ body, program.Analyzed body → ∀ callee ∈ ProcessStatement.calls body, ∀ processDef,
    program.processes.lookup callee = some processDef → program.Analyzed processDef.body

theorem noUnknown_pipeline (hclean : NoUnknown (program.analyze names builtins)) {name : String}
    {pipeline : PipelineDef} (hpipeline : program.pipelines.lookup name = some pipeline) :
    NoUnknown (analyzePipeline name program.processes (program.registry builtins) pipeline) := by
  intro d hd
  apply hclean d
  refine List.mem_append_right _ (List.mem_append_right _
    (List.mem_flatMap.mpr ⟨(name, pipeline), ?_, hd⟩))
  obtain ⟨first, rest, heq, -⟩ := List.lookup_eq_some_iff.mp hpipeline
  rw [heq]
  exact List.mem_append_right _ List.mem_cons_self

theorem noUnknown_functions (hclean : NoUnknown (program.analyze names builtins)) :
    ∀ fnDef ∈ program.functions, NoUnknown
      (checkFunctionBody program.functionConfig (program.registry builtins) fnDef) := by
  intro fnDef hfn d hd
  apply hclean d
  refine List.mem_append_left _ (List.mem_append_left _ ?_)
  exact List.mem_flatMap.mpr ⟨fnDef, hfn, hd⟩

/-- What runs in a pipeline of the blueprint: bodies that are cleared. -/
structure PipelineClears (program : Program) (registry : FunctionRegistry World)
    (blueprint : UnsealedRuntimeBlueprint) (definition : PipelineDef)
    (pipeline : Blueprint.PipelineBlueprint) : Prop where
  cleared : ∀ element ∈ PipelineStatement.elements definition.body,
    ∀ body ∈ elementBody program.processes element, Cleared registry body
  sites : ∀ site ∈ codeSites pipeline.code,
    ∃ element ∈ PipelineStatement.elements definition.body,
      RunsBody blueprint.processNames blueprint.processBodies element site.body
  exprs : ∀ e ∈ pipelineExprs pipeline.code, Resolves (Signed registry) ∅ e

theorem pipelineClears (hexact : CompiledExactly program.toCompiledConfig blueprint)
    (hclean : NoUnknown (program.analyze names builtins)) {name : String}
    {pipeline : Blueprint.PipelineBlueprint} (hmem : (name, pipeline) ∈ blueprint.pipelines) :
    ∃ definition, program.pipelines.lookup name = some definition ∧
      PipelineClears program (program.registry builtins) blueprint definition pipeline := by
  obtain ⟨definition, before, after, hdefinition, hpipeline, hgrows⟩ :=
    hexact.pipelines name pipeline hmem
  refine ⟨definition, hdefinition, ?_⟩
  unfold compilePipeline at hpipeline
  obtain ⟨⟨code, tables⟩, hcode, hpipeline⟩ := Except.exists_of_bind_eq_ok hpipeline
  obtain ⟨⟨attached, metrics⟩, hattached, hpipeline⟩ := Except.exists_of_bind_eq_ok hpipeline
  obtain ⟨rfl, rfl⟩ := Prod.mk.inj (Except.ok.inj hpipeline)
  obtain ⟨-, hclears⟩ := compilePipelineStatements_clears definition.body outer_new
    (noUnknown_pipeline hclean hdefinition) hcode
  refine ⟨hclears.cleared, fun site hsite => ?_, fun e he => ?_⟩
  · -- the site before its metric node was attached
    have hstart : (⟨[], 1⟩ : MetricTable).Counts := ⟨rfl, by decide⟩
    obtain ⟨hattaches, -⟩ := attachPipelineMetricNodes_attaches code hstart hattached
    obtain ⟨original, horiginal, hsame⟩ := exists_left_of_mem hattaches.sites site hsite
    obtain ⟨element, helement, hruns⟩ := hclears.sites original horiginal
    exact ⟨element, helement, hsame.body ▸ hruns.mono hgrows⟩
  · exact hclears.exprs e (attachPipelineMetricNodes_exprs code hattached ▸ he)

/-- Every pipeline of the program is compiled, so a body that the analysis walks over is cleared. -/
theorem Analyzed.cleared (hspec : CompiledBlueprint program.toCompiledConfig blueprint)
    (hexact : CompiledExactly program.toCompiledConfig blueprint)
    (hclean : NoUnknown (program.analyze names builtins)) {body : List ProcessStatement}
    (h : program.Analyzed body) : Cleared (program.registry builtins) body := by
  obtain ⟨name, definition, hdefinition, element, helement, hbody⟩ := h
  have hname : name ∈ Entries.keys blueprint.pipelines := by
    rw [hspec.keys, hspec.order, mem_sortedKeys]
    by_contra hnot
    rw [Entries.lookup_eq_none_iff.mpr hnot] at hdefinition
    cases hdefinition
  obtain ⟨⟨_, pipeline⟩, hmem, rfl⟩ := List.mem_map.mp hname
  obtain ⟨other, hother, hclears⟩ := pipelineClears hexact hclean hmem
  obtain rfl := Option.some.inj (hdefinition.symm.trans hother)
  exact hclears.cleared element helement body hbody

/-- The bodies of a blueprint that are compiled from what the analysis walks over. -/
def walkedBodies (program : Program) (blueprint : UnsealedRuntimeBlueprint) :
    Set ProcessBodyId :=
  {id | ∃ name statements body, program.Analyzed statements ∧
    blueprint.processBodies[id]? = some body ∧
      compileProcessBody blueprint.processNames name statements = .ok body}

theorem walkedBodies_resolved {pipeline : Blueprint.PipelineBlueprint} {rt : Runtime}
    (hspec : CompiledBlueprint program.toCompiledConfig blueprint)
    (hexact : CompiledExactly program.toCompiledConfig blueprint)
    (hclean : NoUnknown (program.analyze names builtins)) (hcovered : program.Covered) :
    Resolved (blueprint.registry rt (program.registry builtins) pipeline)
      (Signed (program.registry builtins)) (program.walkedBodies blueprint) := by
  have hbody : ∀ {id : ProcessBodyId} {body : Pipeline.ProcessBodyCode}
      {original : Blueprint.ProcessBodyCode}, blueprint.processBodies[id]? = some original →
        (blueprint.registry rt (program.registry builtins) pipeline).processBodies[id]? =
          some body → body = original.toProcessBodyCode := by
    intro id body original horiginal h
    change (blueprint.processBodies.map _)[id]? = _ at h
    rw [List.getElem?_map, horiginal] at h
    exact (Option.some.inj h).symm
  refine ⟨?_, ?_⟩
  · rintro id ⟨name, statements, original, hwalked, horiginal, hcode⟩ body h
    obtain rfl := hbody horiginal h
    exact (hwalked.cleared hspec hexact hclean).resolves hcode
  · rintro id ⟨name, statements, original, hwalked, horiginal, hcode⟩ body h edge hedge callee
      htarget
    obtain rfl := hbody horiginal h
    -- an edge is that of a name which the statements call
    obtain ⟨-, hfrom⟩ := compileProcessBody_spec hcode
    have hedge : edge ∈ original.edges := hedge
    rw [hfrom.edges] at hedge
    obtain ⟨called, hcalled, rfl⟩ := List.mem_map.mp hedge
    have hcalls := mem_firstUses.mp hcalled
    obtain ⟨processDef, code, hdef, hplace, hexactly⟩ :=
      hexact.named called callee (edgeOf_target_eq_known.mp htarget)
    exact ⟨called, processDef.body, code, hcovered statements hwalked called hcalls processDef hdef,
      hplace, hexactly⟩

theorem sites_walked (hexact : CompiledExactly program.toCompiledConfig blueprint)
    (hclean : NoUnknown (program.analyze names builtins)) {name : String}
    {pipeline : Blueprint.PipelineBlueprint} (hmem : (name, pipeline) ∈ blueprint.pipelines) :
    SitesIn (program.walkedBodies blueprint) (codeSites pipeline.code) := by
  obtain ⟨definition, hdefinition, hclears⟩ := pipelineClears hexact hclean hmem
  intro site hsite
  obtain ⟨element, helement, hruns⟩ := hclears.sites site hsite
  have hwalked : ∀ body ∈ elementBody program.processes element, program.Analyzed body :=
    fun body hbody => ⟨name, definition, hdefinition, element, helement, hbody⟩
  revert hwalked hruns
  generalize site.body = id
  intro hruns hwalked
  cases hruns with
  | named hlookup =>
      obtain ⟨processDef, code, hdef, hplace, hcode⟩ := hexact.named _ id hlookup
      refine ⟨_, processDef.body, code, hwalked _ ?_, hplace, hcode⟩
      change (program.processes.lookup _).map ProcessDef.body = _
      rw [hdef]
      rfl
  | inline hplace hcode => exact ⟨_, _, _, hwalked _ rfl, hplace, hcode⟩

end Program

/-! ## Runs -/

section Runs

variable {program : Program} {builtins : FunctionRegistry World} {names : List String}
  {blueprint : UnsealedRuntimeBlueprint} {pipeline : Blueprint.PipelineBlueprint} {rt : Runtime}

theorem knowsNames_onFst {S Rest α : Type} {x : Eval S α} (h : KnowsNames x) :
    KnowsNames (onFst x : Eval (S × Rest) α) := by
  rintro ⟨state, rest⟩ message ⟨after, rest'⟩ hx
  obtain ⟨hinner, -⟩ := onFst_eq_some hx
  exact h state message after hinner

theorem evalIn_knows (hclean : NoUnknown (program.analyze names builtins))
    (hbuiltins : BuiltinsNamed builtins) :
    EvalKnows (Signed (program.registry builtins))
      (blueprint.registry rt (program.registry builtins) pipeline).evalIn := by
  intro depth event scope known e hresolves hbinds
  have hcall : CallsKnowNames (Signed (program.registry builtins))
      (FunctionRegistry.call rt (program.registry builtins) event depth) :=
    call_knowsNames hbuiltins (Program.noUnknown_functions hclean) event depth
  exact evalExpr_knowsNames hcall e hresolves hbinds

/-- **No run evaluates an unknown name.**  A program compiles, the analysis reports nothing as
unknown, and every process that is called is also named in a chain.  Then a run of a pipeline, on
any event and from any state, is one in which no statement that is reached, in whatever process,
fails because an identifier or a function is unknown, and neither does an expression of the
pipeline itself. -/
theorem no_unknown_names
    (hcompile : UnsealedRuntimeBlueprint.compile program.toCompiledConfig = .ok blueprint)
    (hclean : NoUnknown (program.analyze names builtins)) (hcovered : program.Covered)
    (hbuiltins : BuiltinsNamed builtins) {name : String}
    (hpipeline : (name, pipeline) ∈ blueprint.pipelines) (capture : OutputCapturePolicy)
    (original : OwnedEvent) (depth : ℕ) (machine : Machine World) :
    let ctx := blueprint.execCtx rt (program.registry builtins) pipeline capture original depth
    (∀ outcome after, runPipelineBlueprintResolvedAt ctx machine = some (outcome, after) →
      ∃ trace, traceRun ctx (machine, []) = some (outcome, (after, trace)) ∧
        ∀ point, .reached point ∈ trace → PointKnows ctx.registry.evalIn point) ∧
      ∀ e ∈ pipelineExprs pipeline.code, ∀ event, KnowsNames (ctx.evalExpr event e) := by
  intro ctx
  have hspec := compile_spec hcompile
  have hexact := compile_exact hcompile
  have heval : EvalKnows (Signed (program.registry builtins)) ctx.registry.evalIn :=
    evalIn_knows hclean hbuiltins
  refine ⟨fun outcome after hrun => ?_, fun e he event => ?_⟩
  · have hforgets := traceRun_forgets ctx (machine, [])
    rw [hrun] at hforgets
    obtain ⟨⟨outcome', after', trace⟩, htrace, hsame⟩ := Option.map_eq_some_iff.mp hforgets
    obtain ⟨rfl, rfl⟩ := Prod.mk.inj hsame
    refine ⟨trace, htrace, fun point hpoint => ?_⟩
    have hresolved : Resolved ctx.registry (Signed (program.registry builtins))
        (program.walkedBodies blueprint) :=
      Program.walkedBodies_resolved hspec hexact hclean hcovered
    have hsites : SitesIn (program.walkedBodies blueprint) (codeSites ctx.pipeline.code) :=
      Program.sites_walked hexact hclean hpipeline
    obtain ⟨⟨added, hadded, hentries⟩, -⟩ :=
      traceRun_emits hresolved heval hsites _ _ _ htrace
    have hadded : trace = added := hadded
    exact hentries _ (hadded ▸ hpoint)
  · obtain ⟨definition, -, hclears⟩ := Program.pipelineClears hexact hclean hpipeline
    exact knowsNames_onFst (heval depth event [] ∅ e (hclears.exprs e he) (Binds.empty []))

/-! ### A program with a function, a `let` and a call of a process -/

/-- `let v = ingress; workspace.copies = each(v)`. -/
def maskBody : List ProcessStatement :=
  [.letBinding "v" (.ident ["ingress"]), .assign (.workspace ["copies"]) (callOf "each" "v")]

/-- `process mask | { process mask }`, with the functions of `mapping`. -/
def masked : Program where
  processes := [("mask", ⟨"mask", maskBody⟩)]
  pipelines := [("main", twoSitesMain)]
  nodup_processes := List.nodup_singleton "mask"
  nodup_pipelines := List.nodup_singleton "main"
  functions := mapping.functions
  nodup_functions := mapping.nodup

theorem mapBuiltins_named : BuiltinsNamed mapBuiltins where
  user _ := rfl
  present ns name h := by
    intro hnone
    apply h
    unfold mapBuiltins at hnone ⊢
    dsimp only at hnone ⊢
    split at hnone
    · cases hnone
    · rfl
  texts event ns name args h := by
    obtain ⟨rfl, rfl⟩ : ns = none ∧ name = "map" := by
      unfold mapBuiltins at h
      dsimp only at h
      split at h
      · next heq => exact Prod.mk.inj heq
      · exact absurd rfl h
    unfold FunctionRegistry.callBuiltin
    simp only [mapBuiltins, Option.map_some]
    unfold FunctionRegistry.validateArity
    cases FunctionRegistry.arityOk
        ⟨[.union [.array, .object, .null]], .fixed, .array⟩ args.length with
    | true =>
        intro world message after hrun
        obtain ⟨heq, -⟩ := Prod.mk.inj (Option.some.inj hrun)
        obtain rfl := Except.error.inj heq
        exact not_isNameError (c := 'm') rfl (by decide)
    | false =>
        refine .bail (not_isNameError (c := 'm') ?_ (by decide))
        repeat apply head?_append
        rfl

theorem masked_covered : masked.Covered := by
  rintro body - callee hcallee processDef hdef
  -- there is one process, and the chain names it
  obtain ⟨before, after, heq, -⟩ := List.lookup_eq_some_iff.mp hdef
  have hmem : (callee, processDef) ∈ masked.processes :=
    heq ▸ List.mem_append_right _ List.mem_cons_self
  obtain ⟨rfl, rfl⟩ := Prod.mk.inj (List.mem_singleton.mp hmem)
  exact ⟨"main", twoSitesMain, rfl, .named "mask", List.mem_cons_self, rfl⟩

theorem no_unknown_names_masked : ∃ blueprint pipeline,
    UnsealedRuntimeBlueprint.compile masked.toCompiledConfig = .ok blueprint ∧
      ("main", pipeline) ∈ blueprint.pipelines ∧
        ∀ rt capture original depth machine outcome after,
          let ctx := blueprint.execCtx rt (masked.registry mapBuiltins) pipeline capture original
            depth
          runPipelineBlueprintResolvedAt ctx machine = some (outcome, after) →
            ∃ trace, traceRun ctx (machine, []) = some (outcome, (after, trace)) ∧
              ∀ point, .reached point ∈ trace → PointKnows ctx.registry.evalIn point := by
  have hnodes : compiledNodes masked.toCompiledConfig = some [("main", 3)] := by decide +kernel
  obtain ⟨blueprint, hok, hpipelines⟩ := Option.map_eq_some_iff.mp hnodes
  have hok : compileRuntimeBlueprint masked.toCompiledConfig = .ok blueprint := by
    cases h : compileRuntimeBlueprint masked.toCompiledConfig with
    | error message =>
        rw [h] at hok
        cases hok
    | ok other =>
        rw [h] at hok
        exact congrArg Except.ok (Option.some.inj hok)
  obtain ⟨hcompile, -⟩ := compileRuntimeBlueprint_ok_iff.mp hok
  obtain ⟨⟨name, pipeline⟩, rest, heq, hentry, -⟩ := List.map_eq_cons_iff.mp hpipelines
  obtain ⟨rfl, -⟩ := Prod.mk.inj hentry
  have hmem : ("main", pipeline) ∈ blueprint.pipelines := heq ▸ List.mem_cons_self
  have hclean : NoUnknown (masked.analyze ["each", "both"] mapBuiltins) := by
    rw [show masked.analyze ["each", "both"] mapBuiltins = [] from by rfl]
    exact fun d hd => absurd hd List.not_mem_nil
  refine ⟨blueprint, pipeline, hcompile, hmem, fun rt capture original depth machine => ?_⟩
  exact (no_unknown_names hcompile hclean masked_covered mapBuiltins_named hmem capture original
    depth machine).1

end Runs

end Limpid.Check
