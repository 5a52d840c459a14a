import Limpid.Decimal
import Limpid.Metrics.Bound
import Limpid.Pipeline.BlueprintSound
import Limpid.Prometheus.Accepted
import Limpid.Prometheus.Derived

/-!
# The own drops of a blueprint

What the sidecar derives from the counters of a blueprint that has been compiled, bound and run.
The labels of the frames say who is the child of whom, and the two sides do not agree below the
top: `add_metric_node` gives each node a step of its own, and `derive_dropped_own` looks for the
parent under the step of the child.  So the roots come off their pipeline (`exported_root`), and
nothing comes off a frame (`exported_node`).

With the account of the frames, the derived family counts the drops of each body itself exactly
when no drop is executed below the top, and no pipeline both drops in its body and has drops
overridden (`own_drops_iff`).
-/

namespace Limpid.Prometheus

open Decimal Dsl Metrics RegistryCore
open Pipeline (PipelineContext PipelineWorker TraceEntry WorkerRuns droppedAt ownDrops bodyDrops
  counters_counted droppedAt_balanced eventsDropped_balanced)
open Pipeline.Blueprint

/-! ## The paths of the frames -/

/-- The name of a process: an identifier, or `(inline)`. -/
def FrameName (name : String) : Prop := name ≠ "" ∧ processPathSeparator ∉ name.toList

/-- The metric nodes of a pipeline as its frames are labelled. -/
structure Framed (pipeline : PipelineBlueprint) : Prop where
  step : ∀ (id : ℕ) node, pipeline.metricNodes[id]? = some node → node.step = id + 1
  top : ∀ (id : ℕ) node, pipeline.metricNodes[id]? = some node → node.parent = none →
    node.processPath = "/" ++ node.processName
  below : ∀ (id : ℕ) node p, pipeline.metricNodes[id]? = some node → node.parent = some p →
    ∃ parent, pipeline.metricNodes[p]? = some parent ∧ id ∈ parent.children ∧
      node.processPath = childPath parent.processPath node.processName
  children : ∀ (id : ℕ) node, pipeline.metricNodes[id]? = some node → ∀ child ∈ node.children,
    id < child ∧ ∃ other, pipeline.metricNodes[child]? = some other ∧ other.parent = some id
  names : ∀ node ∈ pipeline.metricNodes, FrameName node.processName

/-- A compiled pipeline is labelled so. -/
theorem framed_of_compiled {config : CompiledConfig} {blueprint : UnsealedRuntimeBlueprint}
    (hcompiled : CompiledBlueprint config blueprint) {name : String}
    {pipeline : PipelineBlueprint} (hmem : (name, pipeline) ∈ blueprint.pipelines)
    (hok : PipelineOk blueprint pipeline)
    (hnames : ∀ node ∈ pipeline.metricNodes, FrameName node.processName) : Framed pipeline := by
  obtain ⟨definition, -, hpipeline⟩ := hcompiled.pipelines name pipeline hmem
  have hforest := hcompiled.metricForest hpipeline
  refine ⟨hforest.steps, fun id node hnode hparent => ?_, fun id node p hnode hparent => ?_,
    fun id node hnode child hchild => ⟨?_, hok.parent hnode hchild⟩, hnames⟩
  · obtain ⟨site, hsite, rfl⟩ := List.mem_map.mp ((hforest.roots id node hnode).mp hparent)
    obtain ⟨root, hroot, -, -, hname, hpath⟩ := hpipeline.roots site hsite
    obtain rfl := Option.some.inj (hnode.symm.trans hroot)
    rw [hpath, hname]
  · obtain ⟨-, parent, hplace, hchild⟩ := hforest.parents id node p hnode hparent
    refine ⟨parent, hplace, hchild, ?_⟩
    have hok := hpipeline.nodes.nodeOk p parent (Nat.zero_le p)
      (List.getElem?_eq_some_iff.mp hplace).1 hplace
    cases htarget : parent.target with
    | unknown =>
        rw [hok.unknown htarget] at hchild
        exact absurd hchild List.not_mem_nil
    | known bodyId =>
        obtain ⟨body, -, hchildren⟩ := hok.known bodyId htarget
        obtain ⟨i, hi, rfl⟩ := List.getElem_of_mem hchild
        obtain ⟨other, hother, -, -, hname, hpath⟩ :=
          hchildren.get hi (hchildren.length_eq ▸ hi)
        obtain rfl := Option.some.inj (hnode.symm.trans hother)
        have hpath : node.processPath = childPath parent.processPath _ := hpath
        rw [hpath, hname]
  · exact (hpipeline.nodes.children id node (Nat.zero_le id)
      (List.getElem?_eq_some_iff.mp hnode).1 hnode child hchild).1

section Paths

variable {pipeline : PipelineBlueprint} {id : ℕ} {node : MetricNodeDescriptor}

theorem Framed.path_toList (h : Framed pipeline) (hnode : pipeline.metricNodes[id]? = some node) :
    ∃ base, node.processPath.toList = base ++ processPathSeparator :: node.processName.toList := by
  cases hparent : node.parent with
  | none =>
      refine ⟨[], ?_⟩
      rw [h.top id node hnode hparent, String.toList_append]
      rfl
  | some p =>
      obtain ⟨parent, -, -, heq⟩ := h.below id node p hnode hparent
      refine ⟨parent.processPath.toList, ?_⟩
      rw [heq, childPath, String.toList_append, String.toList_append, List.append_assoc]
      rfl

/-- The path of a frame is neither empty nor that of the pipeline. -/
theorem Framed.path_ne (h : Framed pipeline) (hnode : pipeline.metricNodes[id]? = some node) :
    node.processPath ≠ "" ∧ node.processPath ≠ processPathRoot := by
  obtain ⟨base, hlist⟩ := h.path_toList hnode
  have hname : 0 < node.processName.toList.length := by
    have hne := (h.names node (List.mem_of_getElem? hnode)).1
    exact List.length_pos_iff.mpr fun hnil => hne (String.toList_eq_nil_iff.mp hnil)
  have hlength := congrArg List.length hlist
  rw [List.length_append, List.length_cons] at hlength
  constructor
  · intro heq
    rw [heq] at hlength
    change 0 = _ at hlength
    omega
  · intro heq
    rw [heq] at hlength
    change 1 = _ at hlength
    omega

theorem Framed.parent_top (h : Framed pipeline) (hnode : pipeline.metricNodes[id]? = some node)
    (hparent : node.parent = none) :
    processPathParent node.processPath = some processPathRoot := by
  obtain ⟨hne, hsep⟩ := h.names node (List.mem_of_getElem? hnode)
  rw [h.top id node hnode hparent]
  exact processPathParent_top hne hsep

/-- Below the top the parent of the path is that of another frame. -/
theorem Framed.parent_below (h : Framed pipeline)
    (hnode : pipeline.metricNodes[id]? = some node) {p : ℕ} (hparent : node.parent = some p)
    {path : String} (hpath : processPathParent node.processPath = some path) :
    path ≠ processPathRoot := by
  obtain ⟨parent, hplace, -, heq⟩ := h.below id node p hnode hparent
  obtain ⟨-, hsep⟩ := h.names node (List.mem_of_getElem? hnode)
  obtain ⟨hne, hroot⟩ := h.path_ne hplace
  rw [heq] at hpath
  rw [processPathParent_below hsep hne hpath]
  exact hroot

end Paths

/-! ## Parents of frames -/

section Labels

variable (pipeline step path name : String)

@[simp] theorem labelValue_path :
    labelValue (frameLabels pipeline step path name) processLabelPath = some path := rfl

@[simp] theorem labelValue_pipeline :
    labelValue (frameLabels pipeline step path name) processLabelPipeline = some pipeline := rfl

@[simp] theorem dimensions_frameLabels : dimensions (frameLabels pipeline step path name) =
    [(processLabelPipeline, pipeline), (processLabelStep, step)] := rfl

end Labels

/-- **Who is the parent of a frame, by the labels.** -/
theorem isParentOf_iff {pipeline step path name pipeline' step' path' name' : String} :
    isParentOf (frameLabels pipeline step path name)
        (frameLabels pipeline' step' path' name') = true ↔
      processPathParent path = some path' ∧ pipeline' = pipeline ∧
        (path' = processPathRoot ∨ step' = step) := by
  unfold isParentOf
  rw [labelValue_path, Option.bind_some]
  cases hparent : processPathParent path with
  | none => simp
  | some parent =>
      by_cases hroot : parent = processPathRoot
      · simp only [hroot, if_true, labelValue_pipeline, isRootOf, labelValue_path,
          Bool.and_eq_true, decide_eq_true_eq, Option.some.injEq]
        constructor
        · rintro ⟨rfl, rfl⟩
          exact ⟨rfl, rfl, .inl rfl⟩
        · rintro ⟨rfl, rfl, -⟩
          exact ⟨rfl, rfl⟩
      · simp only [hroot, if_false, isFrameAt, labelValue_path, dimensions_frameLabels,
          Bool.and_eq_true, decide_eq_true_eq, Option.some.injEq, List.cons.injEq, Prod.mk.injEq,
          true_and, and_true]
        constructor
        · rintro ⟨⟨-, rfl⟩, rfl, rfl⟩
          exact ⟨rfl, rfl, .inr rfl⟩
        · rintro ⟨rfl, rfl, hother⟩
          exact ⟨⟨hroot, rfl⟩, rfl, hother.resolve_left hroot⟩

/-! ## The series of a blueprint -/

/-- What every step yields. -/
theorem mapInOrder_mem {σ ε α β : Type} {step : α → StateT σ (Except ε) β} {P : β → Prop}
    {items : List α} (hstep : ∀ item s b t, step item s = .ok (b, t) → P b) {s : σ}
    {result : List β × σ} (h : mapInOrder step items s = .ok result) : ∀ b ∈ result.1, P b := by
  induction items generalizing s result with
  | nil =>
      obtain rfl := Except.ok.inj h
      exact fun b hb => absurd hb List.not_mem_nil
  | cons item rest ih =>
      obtain ⟨b, next, hb, h⟩ := exists_of_bind_eq_ok h
      obtain ⟨bs, last, hbs, h⟩ := exists_of_bind_eq_ok h
      obtain rfl := Except.ok.inj h
      exact List.forall_mem_cons.mpr ⟨hstep item s b next hb, ih hbs⟩

/-- A pipeline is known by its own name, as the configuration keeps it. -/
theorem pipeline_name {config : CompiledConfig} {blueprint : UnsealedRuntimeBlueprint}
    (h : UnsealedRuntimeBlueprint.compile config = .ok blueprint)
    (hkeyed : ∀ name definition, config.pipelines.lookup name = some definition →
      definition.name = name) {name : String} {pipeline : PipelineBlueprint}
    (hmem : (name, pipeline) ∈ blueprint.pipelines) : pipeline.name = name := by
  unfold UnsealedRuntimeBlueprint.compile at h
  obtain ⟨processNames, -, h⟩ := Except.exists_of_bind_eq_ok h
  obtain ⟨named, -, h⟩ := Except.exists_of_bind_eq_ok h
  obtain ⟨⟨pipelines, bodies⟩, hpipelines, h⟩ := Except.exists_of_bind_eq_ok h
  obtain ⟨ids, -, h⟩ := Except.exists_of_bind_eq_ok h
  obtain rfl := Except.ok.inj h
  refine mapInOrder_mem (P := fun entry : String × PipelineBlueprint => entry.2.name = entry.1)
    (fun given before entry after hentry => ?_) hpipelines _ hmem
  unfold compileConfigPipeline at hentry
  cases hdefinition : config.pipelines.lookup given with
  | none =>
      rw [hdefinition] at hentry
      exact nomatch hentry
  | some definition =>
      rw [hdefinition] at hentry
      obtain ⟨compiled, next, hcompiled, hentry⟩ := exists_of_bind_eq_ok hentry
      obtain ⟨rfl, rfl⟩ := Prod.mk.inj (Except.ok.inj hentry)
      unfold compilePipeline at hcompiled
      obtain ⟨_, -, hcompiled⟩ := Except.exists_of_bind_eq_ok hcompiled
      obtain ⟨_, -, hcompiled⟩ := Except.exists_of_bind_eq_ok hcompiled
      obtain ⟨rfl, -⟩ := Prod.mk.inj (Except.ok.inj hcompiled)
      exact hkeyed given definition hdefinition

/-- The frames of a blueprint, as they are labelled. -/
inductive FrameOf (blueprint : UnsealedRuntimeBlueprint) : Labels → Prop where
  | root {name : String} {pipeline : PipelineBlueprint}
      (hmem : (name, pipeline) ∈ blueprint.pipelines) : FrameOf blueprint (rootLabels name)
  | node {name : String} {pipeline : PipelineBlueprint}
      (hmem : (name, pipeline) ∈ blueprint.pipelines) {id : ℕ} {node : MetricNodeDescriptor}
      (hnode : pipeline.metricNodes[id]? = some node) : FrameOf blueprint (nodeLabels name node)

section Series

variable {blueprint : UnsealedRuntimeBlueprint}

/-- Numbers are told apart by their texts. -/
theorem toString_nat_inj {m n : ℕ} (h : toString m = toString n) : m = n := by
  have hdigits := congrArg String.toList h
  have htext : ∀ n : ℕ, (toString n).toList = formatNat n := fun n => Nat.toList_repr
  rw [htext, htext] at hdigits
  have hparse := congrArg parseDigits hdigits
  rw [parseDigits_formatNat, parseDigits_formatNat] at hparse
  exact Option.some.inj hparse

/-- The pipelines of a blueprint, each under its own name and with its frames labelled. -/
structure FramedBlueprint (blueprint : UnsealedRuntimeBlueprint) : Prop where
  keys : (Entries.keys blueprint.pipelines).Nodup
  names : ∀ name pipeline, (name, pipeline) ∈ blueprint.pipelines → pipeline.name = name
  framed : ∀ name pipeline, (name, pipeline) ∈ blueprint.pipelines → Framed pipeline

/-- A compiled blueprint is one of such pipelines. -/
theorem FramedBlueprint.of_compiled {config : CompiledConfig}
    (hcompiled : compileRuntimeBlueprint config = .ok blueprint)
    (hkeyed : ∀ name definition, config.pipelines.lookup name = some definition →
      definition.name = name)
    (hnames : ∀ name pipeline, (name, pipeline) ∈ blueprint.pipelines →
      ∀ node ∈ pipeline.metricNodes, FrameName node.processName) : FramedBlueprint blueprint := by
  obtain ⟨hcompile, hseal⟩ := compileRuntimeBlueprint_ok_iff.mp hcompiled
  have hspec := compile_spec hcompile
  refine ⟨?_, fun name pipeline hmem => pipeline_name hcompile hkeyed hmem,
    fun name pipeline hmem => framed_of_compiled hspec hmem
      ((sealed_of_ok hseal).2.pipelines pipeline (List.mem_map.mpr ⟨_, hmem, rfl⟩))
        (hnames name pipeline hmem)⟩
  rw [hspec.keys, hspec.order]
  exact (sortedKeys_perm _).nodup_iff.mpr config.nodup_pipelines

/-- Two nodes of a name and a step are the same. -/
theorem FramedBlueprint.node_eq (h : FramedBlueprint blueprint) {name : String}
    {pipeline other : PipelineBlueprint} (hmem : (name, pipeline) ∈ blueprint.pipelines)
    (hother : (name, other) ∈ blueprint.pipelines) {id id' : ℕ}
    {node node' : MetricNodeDescriptor} (hnode : pipeline.metricNodes[id]? = some node)
    (hnode' : other.metricNodes[id']? = some node')
    (hstep : toString node.step = toString node'.step) : id = id' ∧ node = node' := by
  obtain rfl : pipeline = other := Entries.eq_of_mem h.keys hmem hother
  have hid := toString_nat_inj hstep
  rw [(h.framed name pipeline hmem).step id node hnode,
    (h.framed name pipeline hmem).step id' node' hnode'] at hid
  obtain rfl := Nat.succ.inj hid
  exact ⟨rfl, Option.some.inj (hnode.symm.trans hnode')⟩

/-- **No frame has two parents.** -/
theorem FramedBlueprint.oneParent (h : FramedBlueprint blueprint) {child first second : Labels}
    (hchild : FrameOf blueprint child) (hfirst : FrameOf blueprint first)
    (hsecond : FrameOf blueprint second) (hparent : isParentOf child first = true)
    (hparent' : isParentOf child second = true) : first = second := by
  obtain ⟨pipeline, step, path, name, rfl⟩ : ∃ pipeline step path name,
      child = frameLabels pipeline step path name := by
    cases hchild <;> exact ⟨_, _, _, _, rfl⟩
  cases hfirst with
  | root hmem =>
      obtain ⟨hpath, rfl, -⟩ := isParentOf_iff.mp hparent
      cases hsecond with
      | root hmem' =>
          obtain ⟨-, rfl, -⟩ := isParentOf_iff.mp hparent'
          rfl
      | node hmem' hnode =>
          obtain ⟨hpath', -, -⟩ := isParentOf_iff.mp hparent'
          exact absurd (Option.some.inj (hpath.symm.trans hpath')).symm
            ((h.framed _ _ hmem').path_ne hnode).2
  | node hmem hnode =>
      obtain ⟨hpath, rfl, hstep⟩ := isParentOf_iff.mp hparent
      have hroot := ((h.framed _ _ hmem).path_ne hnode).2
      cases hsecond with
      | root hmem' =>
          obtain ⟨hpath', -, -⟩ := isParentOf_iff.mp hparent'
          exact absurd (Option.some.inj (hpath.symm.trans hpath')) hroot
      | node hmem' hnode' =>
          obtain ⟨hpath', rfl, hstep'⟩ := isParentOf_iff.mp hparent'
          have hroot' := ((h.framed _ _ hmem').path_ne hnode').2
          obtain ⟨-, rfl⟩ := h.node_eq hmem hmem' hnode hnode'
            ((hstep.resolve_left hroot).trans (hstep'.resolve_left hroot').symm)
          rfl

/-- Nothing comes off a frame: the step of a child is another. -/
theorem FramedBlueprint.not_isParentOf_node (h : FramedBlueprint blueprint) {name : String}
    {pipeline : PipelineBlueprint} (hmem : (name, pipeline) ∈ blueprint.pipelines) {id : ℕ}
    {node : MetricNodeDescriptor} (hnode : pipeline.metricNodes[id]? = some node)
    {child : Labels} (hchild : FrameOf blueprint child) :
    isParentOf child (nodeLabels name node) = false := by
  rw [← Bool.not_eq_true]
  intro hparent
  have hroot := ((h.framed _ _ hmem).path_ne hnode).2
  cases hchild with
  | root hmem' =>
      obtain ⟨hpath, -, -⟩ := isParentOf_iff.mp hparent
      exact nomatch hpath
  | node hmem' hnode' =>
      obtain ⟨hpath, rfl, hstep⟩ := isParentOf_iff.mp hparent
      obtain ⟨-, rfl⟩ := h.node_eq hmem hmem' hnode hnode' (hstep.resolve_left hroot)
      exact processPathParent_ne_self _ hpath

/-- The children of a pipeline are the frames at the top. -/
theorem FramedBlueprint.isParentOf_root_iff (h : FramedBlueprint blueprint) {name : String}
    {pipeline : PipelineBlueprint} (hmem : (name, pipeline) ∈ blueprint.pipelines)
    {child : Labels} (hchild : FrameOf blueprint child) :
    isParentOf child (rootLabels name) = true ↔ ∃ id ∈ pipeline.roots, ∃ node,
      pipeline.metricNodes[id]? = some node ∧ child = nodeLabels name node := by
  constructor
  · intro hparent
    cases hchild with
    | root hmem' =>
        obtain ⟨hpath, -, -⟩ := isParentOf_iff.mp hparent
        exact nomatch hpath
    | @node name' pipeline' hmem' id node hnode =>
        obtain ⟨hpath, rfl, -⟩ := isParentOf_iff.mp hparent
        obtain rfl : pipeline = pipeline' := Entries.eq_of_mem h.keys hmem hmem'
        refine ⟨id, mem_roots.mpr ⟨node, hnode, ?_⟩, node, hnode, rfl⟩
        cases hup : node.parent with
        | none => rfl
        | some p => exact absurd rfl ((h.framed _ _ hmem).parent_below hnode hup hpath)
  · rintro ⟨id, hid, node, hnode, rfl⟩
    obtain ⟨node', hnode', hnone⟩ := mem_roots.mp hid
    obtain rfl := Option.some.inj (hnode.symm.trans hnode')
    exact isParentOf_iff.mpr ⟨(h.framed _ _ hmem).parent_top hnode hnone, rfl, .inl rfl⟩

end Series

/-! ## Runs and their export -/

section Export

variable {World : Type}

/-- A blueprint that was compiled and bound, events that ran through its workers, and a registry
that is read afterwards. -/
structure BoundRun (ctx : PipelineContext World) (config : CompiledConfig)
    (blueprint : UnsealedRuntimeBlueprint) (traces : String → List (TraceEntry World))
    (overridden : String → ℕ) (registry : Registry) (readings : Readings) : Prop where
  compiled : compileRuntimeBlueprint config = .ok blueprint
  keyed : ∀ name definition, config.pipelines.lookup name = some definition →
    definition.name = name
  names : ∀ name pipeline, (name, pipeline) ∈ blueprint.pipelines →
    ∀ node ∈ pipeline.metricNodes, FrameName node.processName
  built : ∃ requests, Carries blueprint requests ∧
    buildAll ctx.rt requests .new = (.ok (), registry)
  runs : ∀ name pipeline, (name, pipeline) ∈ blueprint.pipelines → ∃ worker,
    WorkerRuns ctx (pipeline.worker blueprint) (traces name) (overridden name) worker ∧
      Reads readings name pipeline worker
  exportable : Exportable ctx.rt readings registry

variable {ctx : PipelineContext World} {config : CompiledConfig}
  {blueprint : UnsealedRuntimeBlueprint} {traces : String → List (TraceEntry World)}
  {overridden : String → ℕ} {registry : Registry} {readings : Readings}

namespace BoundRun

theorem framedBlueprint
    (h : BoundRun ctx config blueprint traces overridden registry readings) :
    FramedBlueprint blueprint :=
  .of_compiled h.compiled h.keyed h.names

/-- The dropped family of the registry: the frames of the blueprint. -/
theorem hasSeries_iff (h : BoundRun ctx config blueprint traces overridden registry readings)
    (metricType : MetricType) (labels : Labels) :
    HasSeries registry.families metricType ⟨eventsDroppedTotal, labels⟩ ↔
      metricType = .counter ∧ FrameOf blueprint labels := by
  obtain ⟨requests, hcarries, hbuilt⟩ := h.built
  rw [(buildAll_ok (.new ctx.rt) hbuilt).2]
  have hnone : ¬HasSeries Registry.new.families metricType ⟨eventsDroppedTotal, labels⟩ :=
    fun ⟨_, hmem, _⟩ => absurd hmem List.not_mem_nil
  rw [or_iff_right hnone]
  constructor
  · rintro ⟨request, hrequest, rfl, hkey⟩
    have hname : request.name = eventsDroppedTotal := congrArg SeriesKey.name hkey
    obtain ⟨name, pipeline, hmem, hown⟩ := hcarries.dropped request hrequest hname
    obtain ⟨hkind, hlabels⟩ := request_dropped hown hname
    refine ⟨by rw [hkind]; rfl, ?_⟩
    rw [hkey, SeriesKey.mk.injEq] at hlabels
    rcases hlabels with ⟨-, rfl⟩ | ⟨node, hnode, heq⟩
    · rw [h.framedBlueprint.names name pipeline hmem]
      exact .root hmem
    · rw [SeriesKey.mk.injEq] at heq
      obtain ⟨id, hid⟩ := List.mem_iff_getElem?.mp hnode
      rw [heq.2]
      exact .node hmem hid
  · rintro ⟨rfl, hframe⟩
    cases hframe with
    | @root name pipeline hmem =>
        obtain ⟨request, hrequest, hkind, hkey⟩ := rootRequest_mem name pipeline
        rw [h.framedBlueprint.names name pipeline hmem] at hkey
        exact ⟨request, hcarries.registered name pipeline hmem request hrequest,
          by rw [hkind]; rfl, hkey⟩
    | @node name pipeline hmem id node hnode =>
        obtain ⟨request, hrequest, hkind, hkey⟩ :=
          nodeRequest_mem name (List.mem_of_getElem? hnode)
        exact ⟨request, hcarries.registered name pipeline hmem request hrequest,
          by rw [hkind]; rfl, hkey⟩

end BoundRun

/-- What the source of the derived family holds. -/
structure Source (readings : Readings) (blueprint : UnsealedRuntimeBlueprint)
    (parsed : List ExpositionFamily) (source : ExpositionFamily)
    (values : List (Labels × ℕ)) : Prop where
  found : parsed.find? (·.name = eventsDroppedTotal) = some source
  counter : source.metricType = .counter
  read : source.series.mapM ExpositionSeries.toValue = some values
  nodup : (values.map Prod.fst).Nodup
  mem_iff : ∀ labels value, (labels, value) ∈ values ↔
    FrameOf blueprint labels ∧ value = readings.value ⟨eventsDroppedTotal, labels⟩

namespace BoundRun

/-- The family of the dropped events, in the exposition. -/
theorem exists_source (h : BoundRun ctx config blueprint traces overridden registry readings)
    {parsed : List ExpositionFamily}
    (hall : List.Forall₂ (Parsed readings) registry.families parsed) {labels : Labels}
    (hframe : FrameOf blueprint labels) :
    ∃ source values, Source readings blueprint parsed source values := by
  obtain ⟨requests, -, hbuilt⟩ := h.built
  obtain ⟨hok, -⟩ := buildAll_ok (.new ctx.rt) hbuilt
  obtain ⟨family, hfamily, hname, htype, -⟩ := (h.hasSeries_iff .counter labels).mpr ⟨rfl, hframe⟩
  obtain ⟨source, hsource, hparsed⟩ := exists_parsed hall hfamily
  have hseries : source.series.Perm (family.series.map fun series =>
      .value series.labels (readings.value ⟨eventsDroppedTotal, series.labels⟩)) := by
    have hperm := hparsed.series
    unfold expositionSeries at hperm
    rw [htype, hname] at hperm
    exact hperm
  have hvalues : (source.series.filterMap ExpositionSeries.toValue).Perm
      (family.series.map fun series =>
        (series.labels, readings.value ⟨eventsDroppedTotal, series.labels⟩)) := by
    have hperm := hseries.filterMap ExpositionSeries.toValue
    rw [List.filterMap_map] at hperm
    exact hperm.trans (.of_eq (congrFun List.filterMap_eq_map' family.series))
  -- the series that are registered are those of the frames
  have hlabels : ∀ labels, FrameOf blueprint labels ↔
      labels ∈ family.series.map Series.labels := by
    intro labels
    have hiff := h.hasSeries_iff .counter labels
    constructor
    · intro hframe
      obtain ⟨other, hother, hotherName, -, hmem⟩ := hiff.mpr ⟨rfl, hframe⟩
      rwa [List.inj_on_of_nodup_map hok.names hother hfamily (hotherName.trans hname.symm)] at hmem
    · exact fun hmem => (hiff.mp ⟨family, hfamily, hname, htype, hmem⟩).2
  refine ⟨source, _, find?_eq_some_of_unique hsource ?_ fun other hother heq => ?_, ?_,
    mapM_toValue fun series hmem => ?_, ?_, fun labels value => ?_⟩
  · exact decide_eq_true (hparsed.name.trans hname)
  · have hnodup := parsed_names hall ▸ hok.names
    exact List.inj_on_of_nodup_map hnodup hother hsource
      ((of_decide_eq_true heq).trans (hparsed.name.trans hname).symm)
  · rw [hparsed.metricType, htype]
    rfl
  · obtain ⟨_, -, rfl⟩ := List.mem_map.mp (hseries.mem_iff.mp hmem)
    exact ⟨_, _, rfl⟩
  · refine (hvalues.map Prod.fst).nodup_iff.mpr ?_
    rw [List.map_map]
    exact (hok.families family hfamily).distinct
  · rw [hvalues.mem_iff, hlabels, List.mem_map, List.mem_map]
    constructor
    · rintro ⟨series, hmem, heq⟩
      obtain ⟨rfl, rfl⟩ := Prod.mk.inj heq
      exact ⟨⟨series, hmem, rfl⟩, rfl⟩
    · rintro ⟨⟨series, hmem, rfl⟩, rfl⟩
      exact ⟨series, hmem, rfl⟩

end BoundRun

/-- The value of a series, by the name of its family and its labels. -/
def exported (families : List ExpositionFamily) (name : String) (labels : Labels) : Option ℕ := do
  let family ← families.find? (·.name = name)
  let series ← (family.series.filterMap ExpositionSeries.toValue).find? (·.1 = labels)
  return series.2

theorem Source.deriveDroppedOwn {parsed : List ExpositionFamily} {source : ExpositionFamily}
    {values : List (Labels × ℕ)} (h : Source readings blueprint parsed source values) :
    deriveDroppedOwn parsed =
      some ⟨eventsDroppedOwnTotal, .counter, droppedOwnHelp, derivedSeries values⟩ := by
  unfold Prometheus.deriveDroppedOwn
  rw [h.found]
  change (if source.metricType ≠ .counter then none else _) = _
  rw [if_neg (not_not.mpr h.counter), h.read]
  rfl

namespace BoundRun

/-- **What is exported for a frame**: its drops less those of its children. -/
theorem exported_own (h : BoundRun ctx config blueprint traces overridden registry readings)
    {parsed : List ExpositionFamily}
    (hall : List.Forall₂ (Parsed readings) registry.families parsed) {source : ExpositionFamily}
    {values : List (Labels × ℕ)} (hsource : Source readings blueprint parsed source values)
    {labels : Labels} {value : ℕ} (hmem : (labels, value) ∈ values) :
    exported ((parsed ++ (deriveDroppedOwn parsed).toList).insertionSort (·.name ≤ ·.name))
        eventsDroppedOwnTotal labels =
      some (value -
        ((values.filter fun child => isParentOf child.1 labels).map Prod.snd).sum) := by
  obtain ⟨derived, hderived⟩ : ∃ derived : ExpositionFamily, derived =
      ⟨eventsDroppedOwnTotal, .counter, droppedOwnHelp, derivedSeries values⟩ := ⟨_, rfl⟩
  -- nothing registered has the name of the derived family
  have hother : ∀ family ∈ parsed, family.name ≠ eventsDroppedOwnTotal := by
    intro family hfamily hname
    obtain ⟨requests, hcarries, hbuilt⟩ := h.built
    have hregistered : family.name ∈ registry.families.map RegistryCore.MetricFamily.name :=
      parsed_names hall ▸ List.mem_map_of_mem hfamily
    rcases buildAll_name hbuilt hregistered with hnone | ⟨request, hrequest, hsame⟩
    · exact absurd hnone List.not_mem_nil
    · exact hcarries.derived request hrequest (hsame.trans hname)
  have hfound : ((parsed ++ (deriveDroppedOwn parsed).toList).insertionSort
      (·.name ≤ ·.name)).find? (·.name = eventsDroppedOwnTotal) = some derived := by
    refine find?_eq_some_of_unique ?_ ?_ fun other hmem hname => ?_
    · rw [(List.perm_insertionSort _ _).mem_iff, hsource.deriveDroppedOwn, hderived]
      exact List.mem_append_right _ List.mem_cons_self
    · rw [hderived]
      rfl
    · rw [(List.perm_insertionSort _ _).mem_iff, hsource.deriveDroppedOwn] at hmem
      rcases List.mem_append.mp hmem with hparsed | hmem
      · exact absurd (of_decide_eq_true hname) (hother other hparsed)
      · exact (List.mem_singleton.mp hmem).trans hderived.symm
  -- so the value is that of the one frame with these labels
  have hone : OneParent values := by
    have hframe : ∀ labels ∈ values.map Prod.fst, FrameOf blueprint labels := by
      intro labels hlabels
      obtain ⟨⟨_, value⟩, hmem, rfl⟩ := List.mem_map.mp hlabels
      exact ((hsource.mem_iff _ _).mp hmem).1
    exact fun child hchild first hfirst second hsecond =>
      h.framedBlueprint.oneParent (hframe child hchild) (hframe first hfirst)
        (hframe second hsecond)
  have hkeys : (((derivedSeries values).filterMap ExpositionSeries.toValue).map
      Prod.fst).Nodup := by
    have hsame := keys_derivedSeries values
    rw [Entries.keys] at hsame
    rw [hsame]
    exact hsource.nodup
  have hmem' : (labels, value -
      ((values.filter fun child => isParentOf child.1 labels).map Prod.snd).sum) ∈
        (derivedSeries values).filterMap ExpositionSeries.toValue :=
    List.mem_filterMap.mpr ⟨_, derived_mem hsource.nodup hone hmem, rfl⟩
  have hseries := find?_eq_some_of_unique (p := fun series => series.1 = labels) hmem'
    (decide_eq_true rfl) fun other hother heq =>
      List.inj_on_of_nodup_map hkeys hother hmem' (of_decide_eq_true heq)
  unfold exported
  rw [hfound, hderived]
  change (List.find? _ ((derivedSeries values).filterMap ExpositionSeries.toValue) >>= _) = _
  rw [hseries]
  rfl

/-- The frames at the top, with what comes off their pipeline. -/
theorem rootChildren_perm (h : BoundRun ctx config blueprint traces overridden registry readings)
    {parsed : List ExpositionFamily} {source : ExpositionFamily} {values : List (Labels × ℕ)}
    (hsource : Source readings blueprint parsed source values) {name : String}
    {pipeline : PipelineBlueprint} (hmem : (name, pipeline) ∈ blueprint.pipelines)
    {dropped : ℕ → ℕ} (hdropped : ∀ (id : ℕ) node, pipeline.metricNodes[id]? = some node →
      readings.value ⟨eventsDroppedTotal, nodeLabels name node⟩ = dropped id) :
    ((values.filter fun child => isParentOf child.1 (rootLabels name)).map Prod.snd).sum =
      (pipeline.roots.map dropped).sum := by
  have hnodes : ∀ id ∈ pipeline.roots, ∃ node, pipeline.metricNodes[id]? = some node := by
    intro id hid
    obtain ⟨node, hnode, -⟩ := mem_roots.mp hid
    exact ⟨node, hnode⟩
  obtain ⟨entry, hentry⟩ : ∃ entry : ℕ → Labels × ℕ, ∀ (id : ℕ) node,
      pipeline.metricNodes[id]? = some node → entry id = (nodeLabels name node, dropped id) :=
    ⟨fun id => (((pipeline.metricNodes[id]?).map (nodeLabels name)).getD [], dropped id),
      fun id node hnode => by
        dsimp only
        rw [hnode]
        rfl⟩
  have hperm : (values.filter fun child => isParentOf child.1 (rootLabels name)).Perm
      (pipeline.roots.map entry) := by
    have hroots : pipeline.roots.Nodup := List.nodup_range.filter _
    refine (List.perm_ext_iff_of_nodup (.filter _ (.of_map _ hsource.nodup))
      (hroots.map_on fun id hid id' hid' heq => ?_)).mpr fun child => ?_
    · obtain ⟨node, hnode⟩ := hnodes id hid
      obtain ⟨node', hnode'⟩ := hnodes id' hid'
      rw [hentry id node hnode, hentry id' node' hnode'] at heq
      have hstep : some (toString node.step) = some (toString node'.step) :=
        congrArg (fun labels => labelValue labels processLabelStep) (Prod.mk.inj heq).1
      exact (h.framedBlueprint.node_eq hmem hmem hnode hnode' (Option.some.inj hstep)).1
    · rw [List.mem_filter, List.mem_map]
      constructor
      · rintro ⟨hchild, hparent⟩
        obtain ⟨hframe, hvalue⟩ := (hsource.mem_iff child.1 child.2).mp hchild
        obtain ⟨id, hid, node, hnode, hlabels⟩ :=
          (h.framedBlueprint.isParentOf_root_iff hmem hframe).mp hparent
        refine ⟨id, hid, ?_⟩
        rw [hentry id node hnode, ← hlabels, ← hdropped id node hnode, ← hlabels, ← hvalue]
      · rintro ⟨id, hid, rfl⟩
        obtain ⟨node, hnode⟩ := hnodes id hid
        rw [hentry id node hnode]
        have hframe : FrameOf blueprint (nodeLabels name node) := .node hmem hnode
        exact ⟨(hsource.mem_iff _ _).mpr ⟨hframe, (hdropped id node hnode).symm⟩,
          (h.framedBlueprint.isParentOf_root_iff hmem hframe).mpr ⟨id, hid, node, hnode, rfl⟩⟩
  rw [(hperm.map Prod.snd).sum_eq, List.map_map]
  refine congrArg List.sum (List.map_congr_left fun id hid => ?_)
  obtain ⟨node, hnode⟩ := hnodes id hid
  exact congrArg Prod.snd (hentry id node hnode)

/-- **What is exported for a pipeline and its frames.** -/
theorem exported_frames (h : BoundRun ctx config blueprint traces overridden registry readings)
    {parsed : List ExpositionFamily}
    (hall : List.Forall₂ (Parsed readings) registry.families parsed) {name : String}
    {pipeline : PipelineBlueprint} (hmem : (name, pipeline) ∈ blueprint.pipelines) :
    ∃ worker, WorkerRuns ctx (pipeline.worker blueprint) (traces name) (overridden name) worker ∧
      exported ((parsed ++ (deriveDroppedOwn parsed).toList).insertionSort (·.name ≤ ·.name))
          eventsDroppedOwnTotal (rootLabels name) =
        some (worker.metrics.eventsDropped -
          (pipeline.roots.map (droppedAt worker.processCounters)).sum) ∧
      ∀ (id : ℕ) node, pipeline.metricNodes[id]? = some node →
        exported ((parsed ++ (deriveDroppedOwn parsed).toList).insertionSort (·.name ≤ ·.name))
            eventsDroppedOwnTotal (nodeLabels name node) =
          some (droppedAt worker.processCounters id) := by
  obtain ⟨source, values, hsource⟩ := h.exists_source hall (.root hmem)
  obtain ⟨worker, hrun, hreads⟩ := h.runs name pipeline hmem
  obtain ⟨-, hseal⟩ := compileRuntimeBlueprint_ok_iff.mp h.compiled
  have hpipeline : pipeline ∈ blueprint.pipelines.map Prod.snd :=
    List.mem_map.mpr ⟨_, hmem, rfl⟩
  have hdropped : ∀ (id : ℕ) node, pipeline.metricNodes[id]? = some node →
      readings.value ⟨eventsDroppedTotal, nodeLabels name node⟩ =
        droppedAt worker.processCounters id := by
    intro id node hnode
    have hcounters := counters_counted hseal hpipeline hrun hnode
    rw [hreads.node_value hnode hcounters, droppedAt, hcounters]
    rfl
  refine ⟨worker, hrun, ?_, fun id node hnode => ?_⟩
  · have hroot := (hsource.mem_iff (rootLabels name) _).mpr ⟨.root hmem, rfl⟩
    rw [h.exported_own hall hsource hroot, h.rootChildren_perm hsource hmem hdropped]
    have hvalue := hreads.root_value
    rw [h.framedBlueprint.names name pipeline hmem] at hvalue
    rw [hvalue]
  · have hframe := (hsource.mem_iff (nodeLabels name node) _).mpr ⟨.node hmem hnode, rfl⟩
    rw [h.exported_own hall hsource hframe, hdropped id node hnode]
    have hnone : values.filter (fun child => isParentOf child.1 (nodeLabels name node)) = [] := by
      refine List.filter_eq_nil_iff.mpr fun child hchild => ?_
      rw [h.framedBlueprint.not_isParentOf_node hmem hnode
        ((hsource.mem_iff child.1 child.2).mp hchild).1]
      exact Bool.false_ne_true
    rw [hnone]
    rfl

end BoundRun

/-- The derived family counts the drops of each body. -/
def CountsOwnDrops (blueprint : UnsealedRuntimeBlueprint)
    (traces : String → List (TraceEntry World)) (families : List ExpositionFamily) : Prop :=
  ∀ name pipeline, (name, pipeline) ∈ blueprint.pipelines →
    exported families eventsDroppedOwnTotal (rootLabels name) =
        some (bodyDrops (traces name)) ∧
      ∀ (id : ℕ) node, pipeline.metricNodes[id]? = some node →
        exported families eventsDroppedOwnTotal (nodeLabels name node) =
          some (ownDrops id (traces name))

/-- Nothing was dropped by a process that another one called, and in no pipeline were events
dropped in the body and drops overridden. -/
def DropsAtTop (blueprint : UnsealedRuntimeBlueprint) (traces : String → List (TraceEntry World))
    (overridden : String → ℕ) : Prop :=
  ∀ name pipeline, (name, pipeline) ∈ blueprint.pipelines →
    (bodyDrops (traces name) = 0 ∨ overridden name = 0) ∧
      ∀ (id : ℕ) node, pipeline.metricNodes[id]? = some node → node.parent ≠ none →
        ownDrops id (traces name) = 0

/-- Where frames below the top execute no drop, none ends with one. -/
theorem droppedAt_below {worker : PipelineWorker} {pipeline : PipelineBlueprint}
    {trace : List (TraceEntry World)} {count : ℕ} (hframed : Framed pipeline)
    (hseal : blueprint.sealBlueprint = .ok blueprint)
    (hmem : pipeline ∈ blueprint.pipelines.map Prod.snd)
    (hrun : WorkerRuns ctx (pipeline.worker blueprint) trace count worker)
    (hown : ∀ (id : ℕ) node, pipeline.metricNodes[id]? = some node → node.parent ≠ none →
      ownDrops id trace = 0) {id : ℕ} {node : MetricNodeDescriptor}
    (hnode : pipeline.metricNodes[id]? = some node) (hparent : node.parent ≠ none) :
    droppedAt worker.processCounters id = 0 := by
  -- the children of a node come after it
  induction hn : pipeline.metricNodes.length - id using Nat.strong_induction_on
    generalizing id node with
  | _ n ih =>
    rw [droppedAt_balanced hseal hmem hrun hnode, hown id node hnode hparent, Nat.zero_add]
    refine List.sum_eq_zero fun value hvalue => ?_
    obtain ⟨child, hchild, rfl⟩ := List.mem_map.mp hvalue
    obtain ⟨hlt, other, hother, hup⟩ := hframed.children id node hnode child hchild
    have hlength := (List.getElem?_eq_some_iff.mp hother).1
    exact ih _ (by omega) hother (by rw [hup]; exact Option.some_ne_none _) rfl

/-- **The own drops.**  The snapshot is accepted, and the derived family counts the drops of each
body exactly when there are none below the top and none that are overridden beside others. -/
theorem own_drops_iff (h : BoundRun ctx config blueprint traces overridden registry readings) :
    ∃ families, parseSnapshot ctx.rt (registry.snapshot readings) = .ok families ∧
      (CountsOwnDrops blueprint traces families ↔ DropsAtTop blueprint traces overridden) := by
  obtain ⟨requests, -, hbuilt⟩ := h.built
  obtain ⟨hok, -⟩ := buildAll_ok (.new ctx.rt) hbuilt
  obtain ⟨parsed, hall, hparse⟩ := parseSnapshot_snapshot hok h.exportable
  obtain ⟨-, hseal⟩ := compileRuntimeBlueprint_ok_iff.mp h.compiled
  refine ⟨_, hparse, fun hcounts name pipeline hmem => ?_, fun htop name pipeline hmem => ?_⟩
  · obtain ⟨worker, hrun, hroot, hframes⟩ := h.exported_frames hall hmem
    obtain ⟨hrootCount, hcount⟩ := hcounts name pipeline hmem
    have hpipeline : pipeline ∈ blueprint.pipelines.map Prod.snd :=
      List.mem_map.mpr ⟨_, hmem, rfl⟩
    have hbalanced := eventsDropped_balanced hseal hpipeline hrun
    have hbody := Option.some.inj (hroot.symm.trans hrootCount)
    refine ⟨by omega, fun id node hnode hparent => ?_⟩
    have hown : ∀ (id : ℕ) node, pipeline.metricNodes[id]? = some node →
        droppedAt worker.processCounters id = ownDrops id (traces name) := fun id node hnode =>
      Option.some.inj ((hframes id node hnode).symm.trans (hcount id node hnode))
    obtain ⟨p, hp⟩ := Option.ne_none_iff_exists'.mp hparent
    obtain ⟨parent, hplace, hchild, -⟩ := (h.framedBlueprint.framed name pipeline hmem).below
      id node p hnode hp
    have hsum := droppedAt_balanced hseal hpipeline hrun hplace
    rw [hown p parent hplace] at hsum
    have hzero := List.sum_eq_zero_iff.mp (Nat.left_eq_add.mp hsum) _
      (List.mem_map_of_mem (f := droppedAt worker.processCounters) hchild)
    exact (hown id node hnode).symm.trans hzero
  · obtain ⟨worker, hrun, hroot, hframes⟩ := h.exported_frames hall hmem
    obtain ⟨hbody, hown⟩ := htop name pipeline hmem
    have hpipeline : pipeline ∈ blueprint.pipelines.map Prod.snd :=
      List.mem_map.mpr ⟨_, hmem, rfl⟩
    have hframed := h.framedBlueprint.framed name pipeline hmem
    have hbalanced := eventsDropped_balanced hseal hpipeline hrun
    refine ⟨hroot.trans (congrArg some (by omega)), fun id node hnode => ?_⟩
    rw [hframes id node hnode, droppedAt_balanced hseal hpipeline hrun hnode]
    refine congrArg some (Nat.add_eq_left.mpr (List.sum_eq_zero fun value hvalue => ?_))
    obtain ⟨child, hchild, rfl⟩ := List.mem_map.mp hvalue
    obtain ⟨-, other, hother, hup⟩ := hframed.children id node hnode child hchild
    exact droppedAt_below hframed hseal hpipeline hrun hown hother
      (by rw [hup]; exact Option.some_ne_none _)

end Export

/-! ### A drop below the top -/

section NestedDrop

open Pipeline (nestedDrop nestedDropBlueprint archiveClosed someEvent noneShared seal_eq_self)

/-- A pipeline whose process calls one that drops. -/
def nestedDropConfig : CompiledConfig where
  processes := [("drop_all", ⟨"drop_all", [.drop]⟩),
    ("mask", ⟨"mask", [.tryCatch [.processCall "drop_all"] []]⟩)]
  pipelines := [("main", ⟨"main", [.processChain [.named "mask"]]⟩)]
  nodup_processes := by decide
  nodup_pipelines := by decide

unseal addMetricNode in
theorem compile_nestedDrop :
    UnsealedRuntimeBlueprint.compile nestedDropConfig = .ok nestedDropBlueprint := rfl

/-- What the counters hold after one event. -/
def oneDropped : Readings where
  value key := if key.name ∈ ["limpid_pipeline_events_received_total", processEventsInTotal,
    eventsDroppedTotal] then 1 else 0
  histogram _ := ⟨[], 0, .zero⟩

/-- One event has run through `nestedDrop`, and was dropped in `drop_all`. -/
theorem nestedDrop_boundRun (rt : Runtime) : ∃ traces registry,
    BoundRun (archiveClosed rt) nestedDropConfig nestedDropBlueprint traces (fun _ => 0) registry
        oneDropped ∧
      ownDrops 0 (traces "main") = 0 ∧ ownDrops 1 (traces "main") = 1 := by
  have hfirst : Pipeline.processWorker (archiveClosed rt) someEvent
      (nestedDrop.worker nestedDropBlueprint) noneShared = some (_, _) := rfl
  -- one event, which the inner process drops
  have hrun := WorkerRuns.event someEvent hfirst (.done _)
  have hbuilt : buildAll rt (pipelineRequests "main" nestedDrop) .new = (.ok (), _) := rfl
  have hentry : ∀ name pipeline, (name, pipeline) ∈ nestedDropBlueprint.pipelines →
      name = "main" ∧ pipeline = nestedDrop := fun name pipeline hmem =>
    Prod.mk.inj (List.mem_singleton.mp hmem)
  have hvalues : ∀ family ∈ (buildAll rt (pipelineRequests "main" nestedDrop) .new).2.families,
      family.metricType ≠ .histogram := by
    have hall : (buildAll rt (pipelineRequests "main" nestedDrop) .new).2.families.all
        (fun family => family.metricType ≠ .histogram) = true := rfl
    exact fun family hfamily => of_decide_eq_true (List.all_eq_true.mp hall family hfamily)
  have hbound : BoundRun (archiveClosed rt) nestedDropConfig nestedDropBlueprint (fun _ => _)
      (fun _ => 0) _ oneDropped := {
    compiled := compileRuntimeBlueprint_ok_iff.mpr
      ⟨compile_nestedDrop, seal_eq_self (by decide +kernel)⟩
    keyed := fun name definition hlookup => by
      obtain ⟨before, after, heq, -⟩ := List.lookup_eq_some_iff.mp hlookup
      have hmem : (name, definition) ∈ nestedDropConfig.pipelines :=
        heq ▸ List.mem_append_right _ List.mem_cons_self
      obtain ⟨rfl, rfl⟩ := Prod.mk.inj (List.mem_singleton.mp hmem)
      rfl
    names := fun name pipeline hmem node hnode => by
      obtain ⟨rfl, rfl⟩ := hentry name pipeline hmem
      rcases List.mem_cons.mp hnode with rfl | hnode
      · exact ⟨by decide, by decide⟩
      · rw [List.mem_singleton.mp hnode]
        exact ⟨by decide, by decide⟩
    built := ⟨pipelineRequests "main" nestedDrop, ⟨fun name pipeline hmem request hrequest => by
        obtain ⟨rfl, rfl⟩ := hentry name pipeline hmem
        exact hrequest,
      fun request hrequest _ => ⟨"main", nestedDrop, List.mem_singleton_self _, hrequest⟩,
      by decide⟩, hbuilt⟩
    runs := fun name pipeline hmem => by
      obtain ⟨rfl, rfl⟩ := hentry name pipeline hmem
      refine ⟨_, hrun, ⟨fun id node counters hnode hcounters => ?_, ?_⟩⟩
      · match id with
        | 0 | 1 =>
            obtain rfl := Option.some.inj hnode
            obtain rfl := Option.some.inj hcounters
            exact holds_of_map_eq rfl
        | id + 2 => exact nomatch hnode
      · exact holds_of_map_eq rfl
    exportable := {
      labels := fun family hfamily name hname => by
        have hall : (buildAll rt (pipelineRequests "main" nestedDrop) .new).2.families.all
            (fun family => family.labelNames.all isLegacyLabelName) = true := rfl
        exact List.all_eq_true.mp (List.all_eq_true.mp hall family hfamily) name hname
      suffixes := fun family hfamily htype => absurd htype (hvalues family hfamily)
      sums := fun family hfamily htype => absurd htype (hvalues family hfamily) } }
  exact ⟨_, _, hbound, rfl, rfl⟩

/-- The export after the event. -/
theorem own_drops_iff_nested : ∃ traces : String → List (TraceEntry Unit),
    ∃ registry : Registry, ∃ families,
      parseSnapshot twoFloats (registry.snapshot oneDropped) = .ok families ∧
        (CountsOwnDrops nestedDropBlueprint traces families ↔
          DropsAtTop nestedDropBlueprint traces fun _ => 0) := by
  obtain ⟨traces, registry, hbound, -⟩ := nestedDrop_boundRun twoFloats
  obtain ⟨families, hparse, hiff⟩ := own_drops_iff hbound
  exact ⟨traces, registry, families, hparse, hiff⟩

/-- The sidecar exports the drop of `drop_all` as one of `mask`, too. -/
theorem nested_drop_exported_twice : ∃ traces, ∃ registry : Registry, ∃ families,
      BoundRun (archiveClosed twoFloats) nestedDropConfig nestedDropBlueprint traces (fun _ => 0) registry
        oneDropped ∧
      parseSnapshot twoFloats (registry.snapshot oneDropped) = .ok families ∧
      ownDrops 0 (traces "main") = 0 ∧
      exported families eventsDroppedOwnTotal (frameLabels "main" "1" "/mask" "mask") = some 1 ∧
      ¬CountsOwnDrops nestedDropBlueprint traces families := by
  obtain ⟨traces, registry, hbound, hmask, hdropAll⟩ := nestedDrop_boundRun twoFloats
  obtain ⟨requests, -, hbuilt⟩ := hbound.built
  obtain ⟨hok, -⟩ := buildAll_ok (.new twoFloats) hbuilt
  obtain ⟨parsed, hall, hparse⟩ := parseSnapshot_snapshot hok hbound.exportable
  have hmain : ("main", nestedDrop) ∈ nestedDropBlueprint.pipelines := List.mem_singleton_self _
  have hpipeline : nestedDrop ∈ nestedDropBlueprint.pipelines.map Prod.snd :=
    List.mem_singleton_self _
  obtain ⟨-, hseal⟩ := compileRuntimeBlueprint_ok_iff.mp hbound.compiled
  obtain ⟨worker, hrun, -, hframes⟩ := hbound.exported_frames hall hmain
  have hchild : droppedAt worker.processCounters 1 = 1 := by
    have hnode : nestedDrop.metricNodes[1]? = some _ := rfl
    rw [droppedAt_balanced hseal hpipeline hrun hnode, hdropAll]
    rfl
  have hparent : droppedAt worker.processCounters 0 = 1 := by
    have hnode : nestedDrop.metricNodes[0]? = some _ := rfl
    rw [droppedAt_balanced hseal hpipeline hrun hnode, hmask]
    change 0 + (droppedAt worker.processCounters 1 + 0) = 1
    rw [hchild]
  have hexported := hframes 0 _ rfl
  rw [hparent] at hexported
  refine ⟨traces, registry, _, hbound, hparse, hmask, hexported, fun hcounts => ?_⟩
  have hown := (hcounts "main" nestedDrop hmain).2 0 _ rfl
  rw [hmask] at hown
  exact absurd (hexported.symm.trans hown) (by decide)

end NestedDrop

end Limpid.Prometheus
