import Limpid.Pipeline.SealedRun

/-!
# Compilation is sound and complete for execution

Three facts about a configuration whose blueprint compiles and is sealed: runs of its pipelines
come to an end and reach no internal error; a failure means that named processes call each other
in a cycle, if the configuration is one that a parser and a check of its names can hand over; and
the metric nodes of a pipeline are a forest over its process sites (`MetricForest`).

## Strategy

* A run ends because bodies do not call each other in a cycle.  `Sealed.runsClean` has the depth at
  which it ends, and lets the interpreter do anything at the places that report an internal error:
  as the outcome is the same whatever is done there, these places are not reached.
* The converse (`error_iff_cycle`) goes through `compileRuntimeBlueprint_ok_iff`: each check that
  can fail is met by what the compiler makes, but for the cycles.
* Expressions may call functions of the configuration, so that their evaluation comes to an end is
  a hypothesis, `ExpressionsEnd`.  It holds when there are no such functions.
-/

namespace Limpid.Pipeline.Blueprint

open Dsl Eval

variable {config : CompiledConfig} {blueprint : UnsealedRuntimeBlueprint}

/-- The node of a child, with the name of the process. -/
def ChildNamed (nodes : List MetricNodeDescriptor) (parent : MetricNodeId) (child : MetricNodeId)
    (name : String) : Prop :=
  ∃ node, nodes[child]? = some node ∧ node.parent = some parent ∧ node.processName = name

/-- The children of a node: one for each name that the body which runs there calls. -/
def ChildPerCall (bodies : List ProcessBodyCode) (nodes : List MetricNodeDescriptor)
    (id : MetricNodeId) (node : MetricNodeDescriptor) : Prop :=
  ∃ names : List String, List.Forall₂ (ChildNamed nodes id) node.children names ∧ names.Nodup ∧
    match node.target with
    | .known bodyId => ∃ body, bodies[bodyId]? = some body ∧
        ∀ name, name ∈ names ↔ name ∈ (codeCalls body.code).map Prod.fst
    | .unknown => names = []

/-- The metric nodes of a pipeline are a forest.  Its roots are the nodes of the process sites,
one for each; below a node there is one for each distinct name its body calls; and the steps are
`1..n`. -/
structure MetricForest (blueprint : UnsealedRuntimeBlueprint) (definition : PipelineDef)
    (pipeline : PipelineBlueprint) : Prop where
  sites : List.Forall₂ (SiteOf blueprint.processNames blueprint.processBodies)
    (PipelineStatement.elements definition.body) (codeSites pipeline.code)
  distinct : ((codeSites pipeline.code).map ProcessSite.metricNode).Pairwise (· < ·)
  targets : ∀ site ∈ codeSites pipeline.code, ∃ node,
    pipeline.metricNodes[site.metricNode]? = some node ∧ node.target = .known site.body ∧
      node.processName = site.name
  roots : ∀ (i : ℕ) node, pipeline.metricNodes[i]? = some node →
    (node.parent = none ↔ i ∈ (codeSites pipeline.code).map ProcessSite.metricNode)
  parents : ∀ (i : ℕ) node p, pipeline.metricNodes[i]? = some node → node.parent = some p →
    p < i ∧ ∃ parent, pipeline.metricNodes[p]? = some parent ∧ i ∈ parent.children
  children : ∀ (i : ℕ) node, pipeline.metricNodes[i]? = some node →
    ChildPerCall blueprint.processBodies pipeline.metricNodes i node
  steps : ∀ (i : ℕ) node, pipeline.metricNodes[i]? = some node → node.step = i + 1

/-- A body has an edge for each name it calls. -/
theorem CompiledFrom.mem_edges_iff {processNames : List (String × ProcessBodyId)}
    {statements : List ProcessStatement} {body : ProcessBodyCode}
    (h : CompiledFrom processNames statements body) {name : String} :
    name ∈ body.edges.map ProcessEdge.name ↔ name ∈ (codeCalls body.code).map Prod.fst := by
  have hnames : body.edges.map ProcessEdge.name =
      firstUses (ProcessStatement.calls statements) := by
    rw [h.edges, List.map_map]
    exact List.map_id _
  rw [hnames, mem_firstUses, h.calls]

/-- The children of a node of a compiled pipeline. -/
theorem CompiledBlueprint.childPerCall (h : CompiledBlueprint config blueprint)
    {nodes : List MetricNodeDescriptor} {i : ℕ} {node : MetricNodeDescriptor}
    (hok : NodeOk blueprint.processBodies nodes i node) :
    ChildPerCall blueprint.processBodies nodes i node := by
  cases htarget : node.target with
  | unknown =>
      refine ⟨[], ?_, List.nodup_nil, ?_⟩
      · rw [hok.unknown htarget]
        exact .nil
      · simp only [htarget]
  | known id =>
      obtain ⟨body, hbody, hchildren⟩ := hok.known id htarget
      obtain ⟨statements, hfrom⟩ := h.bodies.compiled body (List.mem_of_getElem? hbody)
      refine ⟨body.edges.map ProcessEdge.name, ?_,
        (hfrom.bodyOk h.bodies (List.mem_of_getElem? hbody)).names, ?_⟩
      · rw [List.forall₂_map_right_iff]
        exact hchildren.imp fun child edge ⟨childNode, hchild, hparent, _, hname, _⟩ =>
          ⟨childNode, hchild, hparent, hname⟩
      · simp only [htarget]
        exact ⟨body, hbody, fun name => hfrom.mem_edges_iff⟩

/-- **The metric nodes of a compiled pipeline are a forest.** -/
theorem CompiledBlueprint.metricForest (h : CompiledBlueprint config blueprint)
    {definition : PipelineDef} {pipeline : PipelineBlueprint}
    (hpipeline : CompiledPipeline blueprint.processNames blueprint.processBodies definition
      pipeline) : MetricForest blueprint definition pipeline := by
  have hok : ∀ (i : ℕ) node, pipeline.metricNodes[i]? = some node →
      NodeOk blueprint.processBodies pipeline.metricNodes i node := fun i node hnode =>
    hpipeline.nodes.nodeOk i node (Nat.zero_le i) (List.getElem?_eq_some_iff.mp hnode).1 hnode
  -- at the top there is no parent, elsewhere there is one before the node
  have htop : ∀ (i : ℕ) node, pipeline.metricNodes[i]? = some node →
      i ∈ (codeSites pipeline.code).map ProcessSite.metricNode → node.parent = none := by
    intro i node hnode hi
    obtain ⟨site, hsite, rfl⟩ := List.mem_map.mp hi
    obtain ⟨root, hroot, hparent, -⟩ := hpipeline.roots site hsite
    obtain rfl := Option.some.inj (hnode.symm.trans hroot)
    exact hparent
  have hbelow : ∀ (i : ℕ) node, pipeline.metricNodes[i]? = some node →
      i ∉ (codeSites pipeline.code).map ProcessSite.metricNode →
        ∃ p parent, p < i ∧ pipeline.metricNodes[p]? = some parent ∧ node.parent = some p ∧
          i ∈ parent.children := by
    intro i node hnode hi
    obtain ⟨p, parent, -, hfacts⟩ := hpipeline.nodes.parents i node (Nat.zero_le i)
      (List.getElem?_eq_some_iff.mp hnode).1 hnode hi
    exact ⟨p, parent, hfacts⟩
  exact {
    sites := hpipeline.sites
    distinct := hpipeline.nodes.tops_lt
    targets := fun site hsite => by
      obtain ⟨node, hnode, -, htarget, hname, -⟩ := hpipeline.roots site hsite
      exact ⟨node, hnode, htarget, hname⟩
    roots := fun i node hnode => by
      refine ⟨fun hparent => ?_, htop i node hnode⟩
      by_contra hi
      obtain ⟨p, parent, -, -, hsome, -⟩ := hbelow i node hnode hi
      exact absurd (hparent.symm.trans hsome) (by simp)
    parents := fun i node p hnode hparent => by
      have hi : i ∉ (codeSites pipeline.code).map ProcessSite.metricNode := fun hi =>
        absurd ((htop i node hnode hi).symm.trans hparent) (by simp)
      obtain ⟨q, parent, hlt, hplace, hsome, hchild⟩ := hbelow i node hnode hi
      obtain rfl := Option.some.inj (hparent.symm.trans hsome)
      exact ⟨hlt, parent, hplace, hchild⟩
    children := fun i node hnode => h.childPerCall (hok i node hnode)
    steps := fun i node hnode => (hok i node hnode).step }

/-! ## Failure -/

theorem compileRuntimeBlueprint_ok_iff : compileRuntimeBlueprint config = .ok blueprint ↔
    UnsealedRuntimeBlueprint.compile config = .ok blueprint ∧
      blueprint.sealBlueprint = .ok blueprint := by
  unfold compileRuntimeBlueprint
  constructor
  · intro h
    obtain ⟨unsealed, hcompile, hseal⟩ := Except.exists_of_bind_eq_ok h
    obtain ⟨rfl, -⟩ := sealed_of_ok hseal
    exact ⟨hcompile, hseal⟩
  · rintro ⟨hcompile, hseal⟩
    rw [hcompile]
    exact hseal

/-- A blueprint that compiles and is sealed has no cycle of calls. -/
theorem acyclic_of_ok (h : compileRuntimeBlueprint config = .ok blueprint) :
    Acyclic config.CalledBy := by
  obtain ⟨hcompile, hseal⟩ := compileRuntimeBlueprint_ok_iff.mp h
  exact (compile_spec hcompile).bodies.acyclic_bodies_iff.mp (sealed_of_ok hseal).2.acyclic

/-- A configuration without a cycle of calls compiles, and its blueprint is sealed. -/
theorem ok_of_acyclic (hacyclic : Acyclic config.CalledBy) (hkind : config.OwnKind)
    (hdefined : config.Defined) (hlimits : config.WithinLimits) :
    ∃ blueprint, compileRuntimeBlueprint config = .ok blueprint := by
  obtain ⟨blueprint, hcompile⟩ := compile_ok hacyclic hkind hdefined hlimits
  have hcompiled := compile_spec hcompile
  have hsealed := hcompiled.sealed (hcompiled.bodies.acyclic_bodies_iff.mpr hacyclic)
  exact ⟨blueprint,
    compileRuntimeBlueprint_ok_iff.mpr ⟨hcompile, ok_of_sealed hsealed hcompiled.limit⟩⟩

/-- **Compilation fails exactly on cycles.** -/
theorem error_iff_cycle (hkind : config.OwnKind) (hdefined : config.Defined)
    (hlimits : config.WithinLimits) :
    (∃ message, compileRuntimeBlueprint config = .error message) ↔
      ¬ Acyclic config.CalledBy := by
  constructor
  · rintro ⟨message, herror⟩ hacyclic
    obtain ⟨blueprint, hok⟩ := ok_of_acyclic hacyclic hkind hdefined hlimits
    exact nomatch herror.symm.trans hok
  · intro hcycle
    cases h : compileRuntimeBlueprint config with
    | error message => exact ⟨message, rfl⟩
    | ok blueprint => exact absurd (acyclic_of_ok h) hcycle

/-! ## Runs -/

/-- The run of a pipeline on an event has a result, and the result does not depend on what is done
at internal errors. -/
def RunsClean {World : Type} (blueprint : UnsealedRuntimeBlueprint) (rt : Runtime)
    (funcs : FunctionRegistry World) (pipeline : PipelineBlueprint) (capture : OutputCapturePolicy)
    (event : OwnedEvent) (machine : Machine World) : Prop :=
  ∃ depth result, ∀ deeper, depth ≤ deeper →
    runPipelineBlueprintResolvedAt (blueprint.execCtx rt funcs pipeline capture event deeper)
      machine = some result ∧
    ∀ internal : Internal,
      runOr internal (blueprint.execCtx rt funcs pipeline capture event deeper) machine =
        some result

theorem Sealed.runsClean {World : Type} (hsealed : Sealed blueprint) {pipeline : PipelineBlueprint}
    (hpipeline : pipeline ∈ blueprint.pipelines.map Prod.snd) {rt : Runtime}
    {funcs : FunctionRegistry World}
    (hexpressions : ExpressionsEnd (blueprint.registry rt funcs pipeline))
    (capture : OutputCapturePolicy) (event : OwnedEvent) {machine : Machine World}
    (hmachine : Counted pipeline machine) :
    RunsClean blueprint rt funcs pipeline capture event machine := by
  obtain ⟨outcome, after, depth, -, hrun⟩ :=
    @Sealed.run_concludes _ _ _ _ _ event capture hsealed hpipeline hexpressions machine
      hmachine
  refine ⟨depth, (outcome, after), fun deeper hdeeper => ⟨?_, hrun deeper hdeeper⟩⟩
  rw [← runOr_bail]
  exact hrun deeper hdeeper bail

/-- Without user functions there is nothing that could go on for ever. -/
theorem expressionsEnd_of_builtin {World : Type} (registry : IrProcessRegistry World)
    (hbuiltin : ∀ name, registry.funcs.userDefinitions name = none) : ExpressionsEnd registry := by
  intro event scope e world
  let call := FunctionRegistry.call registry.rt registry.funcs event 0
  have hcalls : RelatedAt (fun x _ => Terminates x) call call (callSites false e) := by
    intro site _ args
    change Terminates (FunctionRegistry.call _ _ _ _ _ _ _)
    rw [FunctionRegistry.call_builtin (Or.inr (hbuiltin site.2.2))]
    exact FunctionRegistry.callBuiltin_terminates event site.2.1 site.2.2 args
  exact ⟨0, evalExpr_rel congruence_terminates e scope hcalls world⟩

/-- **The compiler of blueprints is sound and complete.** -/
theorem blueprint_sound (config : CompiledConfig) :
    (∀ blueprint, compileRuntimeBlueprint config = .ok blueprint →
      ∀ name pipeline, (name, pipeline) ∈ blueprint.pipelines →
        (∃ definition, config.pipelines.lookup name = some definition ∧
          MetricForest blueprint definition pipeline) ∧
        ∀ {World : Type} (rt : Runtime) (funcs : FunctionRegistry World)
          (capture : OutputCapturePolicy) (event : OwnedEvent) (machine : Machine World),
          ExpressionsEnd (blueprint.registry rt funcs pipeline) → Counted pipeline machine →
            RunsClean blueprint rt funcs pipeline capture event machine) ∧
    (config.OwnKind → config.Defined → config.WithinLimits →
      ((∃ message, compileRuntimeBlueprint config = .error message) ↔
        ¬ Acyclic config.CalledBy)) := by
  refine ⟨fun blueprint hok name pipeline hmem => ?_, error_iff_cycle⟩
  obtain ⟨hcompile, hseal⟩ := compileRuntimeBlueprint_ok_iff.mp hok
  have hcompiled := compile_spec hcompile
  obtain ⟨definition, hdefinition, hpipeline⟩ := hcompiled.pipelines name pipeline hmem
  refine ⟨⟨definition, hdefinition, hcompiled.metricForest hpipeline⟩,
    fun rt funcs capture event machine hexpressions hmachine => ?_⟩
  have hmem' : pipeline ∈ blueprint.pipelines.map Prod.snd :=
    List.mem_map_of_mem (f := Prod.snd) hmem
  exact (sealed_of_ok hseal).2.runsClean hmem' hexpressions capture event hmachine

/-- A pipeline with a site of `mask` and an inline site that calls it. -/
def twoSitesMain : PipelineDef :=
  ⟨"main", [.input ["in"], .processChain [.named "mask", .inline [.processCall "mask"]],
    .output "out"]⟩

/-- With `def process mask { process drop_all }` and `def process drop_all { drop }`. -/
def twoSites : CompiledConfig where
  processes := [("mask", ⟨"mask", [.processCall "drop_all"]⟩), ("drop_all", ⟨"drop_all", [.drop]⟩)]
  pipelines := [("main", twoSitesMain)]
  nodup_processes := by decide
  nodup_pipelines := by decide

/-- No functions. -/
def noFunctions : FunctionRegistry Unit :=
  ⟨fun _ => none, fun _ => false, fun _ => none, fun _ => none⟩

/-- The pipelines of the sealed blueprint, with the numbers of their metric nodes. -/
def compiledNodes (config : CompiledConfig) : Option (List (String × ℕ)) :=
  (compileRuntimeBlueprint config).toOption.map fun blueprint =>
    blueprint.pipelines.map fun (name, pipeline) => (name, pipeline.metricNodes.length)

theorem blueprint_sound_twoSites :
    (∃ blueprint pipeline, compileRuntimeBlueprint twoSites = .ok blueprint ∧
      ("main", pipeline) ∈ blueprint.pipelines ∧ pipeline.metricNodes.length = 5 ∧
      ∀ rt event, RunsClean blueprint rt noFunctions pipeline .captureAll event
        ((), List.replicate 5 ⟨0, 0, 0, 0⟩)) ∧
    ((∃ message, compileRuntimeBlueprint twoSites = .error message) ↔
      ¬ Acyclic twoSites.CalledBy) := by
  obtain ⟨hruns, hfails⟩ := blueprint_sound twoSites
  constructor
  · have hnodes : compiledNodes twoSites = some [("main", 5)] := by decide +kernel
    obtain ⟨blueprint, hok, hpipelines⟩ := Option.map_eq_some_iff.mp hnodes
    have hok : compileRuntimeBlueprint twoSites = .ok blueprint := by
      cases h : compileRuntimeBlueprint twoSites with
      | error message =>
          rw [h] at hok
          exact nomatch hok
      | ok other =>
          rw [h] at hok
          exact congrArg Except.ok (Option.some.inj hok)
    have hmem : ("main", 5) ∈ blueprint.pipelines.map fun (name, pipeline) =>
        (name, pipeline.metricNodes.length) := hpipelines ▸ List.mem_cons_self
    obtain ⟨⟨name, pipeline⟩, hmem, hentry⟩ := List.mem_map.mp hmem
    obtain ⟨rfl, hlength⟩ := Prod.mk.inj hentry
    refine ⟨blueprint, pipeline, hok, hmem, hlength, fun rt event => ?_⟩
    refine (hruns blueprint hok _ pipeline hmem).2 rt noFunctions .captureAll event _
      (expressionsEnd_of_builtin _ fun _ => rfl) ?_
    rw [Counted, List.length_replicate, hlength]
  · -- the configuration is one that the checks before the compiler let through
    have hprocess : ∀ name processDef, twoSites.processes.lookup name = some processDef →
        processDef = ⟨"mask", [.processCall "drop_all"]⟩ ∨
          processDef = ⟨"drop_all", [.drop]⟩ := fun name processDef h => by
      obtain ⟨before, after, heq, -⟩ := List.lookup_eq_some_iff.mp h
      have hmem : (name, processDef) ∈ twoSites.processes :=
        heq ▸ List.mem_append_right _ List.mem_cons_self
      simpa [twoSites, or_and_right] using
        List.mem_map_of_mem (f := Prod.snd) hmem
    have hpipeline : ∀ name definition, twoSites.pipelines.lookup name = some definition →
        definition = twoSitesMain := fun name definition h => by
      obtain ⟨before, after, heq, -⟩ := List.lookup_eq_some_iff.mp h
      have hmem : (name, definition) ∈ twoSites.pipelines :=
        heq ▸ List.mem_append_right _ List.mem_cons_self
      exact (Prod.mk.inj (List.mem_singleton.mp hmem)).2
    have hinline : ∀ statements,
        .inline statements ∈ PipelineStatement.elements twoSitesMain.body →
          statements = [.processCall "mask"] := fun statements hmem => by
      simpa [twoSitesMain, PipelineStatement.elements, PipelineStatement.elementsOf] using hmem
    have hnamed : ∀ name, .named name ∈ PipelineStatement.elements twoSitesMain.body →
        name = "mask" := fun name hmem => by
      simpa [twoSitesMain, PipelineStatement.elements, PipelineStatement.elementsOf] using hmem
    refine hfails ⟨fun name processDef h => ?_, fun name definition h => ?_⟩
      (fun name definition h process hmem => ?_) ⟨by decide, fun name processDef h => ?_,
        fun name definition h statements hmem => ?_, fun name definition h => ?_,
        fun name definition h => ?_, by decide⟩
    · rcases hprocess name processDef h with rfl | rfl <;> rfl
    · obtain rfl := hpipeline name definition h
      rfl
    · obtain rfl := hpipeline name definition h
      rw [hnamed process hmem]
      decide
    · rcases hprocess name processDef h with rfl | rfl <;> decide
    · obtain rfl := hpipeline name definition h
      rw [hinline statements hmem]
      decide
    · obtain rfl := hpipeline name definition h
      decide
    · obtain rfl := hpipeline name definition h
      decide

end Limpid.Pipeline.Blueprint
