import Limpid.Ctl.ProcessTree
import Limpid.Ctl.Table

/-!
# The call tree of a daemon

A blueprint that was compiled, its inputs and outputs, all registered in one registry in whatever
order, events that ran, and a snapshot.  The registry holds the series of the table and no others
under their names (`StatsRun.hasSeries_iff`), so the table is printed, and its process tree is the
forest of each pipeline (`stats_draw_call_tree`).

## Strategy

* The labels of a series say where in the tree its process stands, and the paths of one pipeline
  are different, so a row of the table is one node.
* The order in which the rows are printed is that of the paths.  It is the preorder of the forest,
  whatever the order of registration was (`preOrder_of_listed`).
* The value printed for a node is that of its series in the snapshot (`frameValue_eq`).
-/

namespace Limpid.Ctl

open Dsl Metrics RegistryCore
open Pipeline (PipelineContext PipelineWorker ProcessCounters ProcessSite TraceEntry WorkerRuns
  counters_counted)
open Pipeline.Blueprint
open Prometheus (Framed FramedBlueprint FrameName)

/-! ## Registrations -/

/-- The counters of the table that `InputMetrics::register` makes. -/
def inputRequests (input : String) : List Request :=
  let counter name help : Request := ⟨.counter, name, some help, [("input", input)]⟩
  [counter "limpid_input_events_received_total" "Total events received by the input.",
    counter "limpid_input_events_invalid_total" "Total invalid events rejected by the input.",
    counter "limpid_input_events_injected_total"
      "Total events injected into the input through the control socket."]

/-- The counters of the table that `OutputMetrics::register` makes. -/
def outputRequests (output : String) : List Request :=
  let counter name help : Request := ⟨.counter, name, some help, [("output", output)]⟩
  [counter "limpid_output_events_received_total" "Total events received by the output queue.",
    counter "limpid_output_events_injected_total"
      "Total events injected into the output through the control socket.",
    counter "limpid_output_events_written_total"
      "Total events successfully written by the output.",
    counter "limpid_output_events_failed_total"
      "Total events that reached a terminal failure disposition for this output.",
    counter "limpid_output_retries_total" "Total output write retries.",
    counter "limpid_output_events_wedged_total"
      "Total disk queue consumers wedged after an unrecoverable drop.",
    counter "limpid_output_events_errored_unwritable_total"
      "Total output errors whose recovery record could not be written."]

/-- The families of the table. -/
def tableMetrics : List String := pipelineMetrics ++ inputMetrics ++ outputMetrics ++ processMetrics

/-- The registrations of pipelines, inputs and outputs. -/
inductive OwnRequest (blueprint : UnsealedRuntimeBlueprint) (inputs outputs : List String) :
    Request → Prop where
  | pipeline {name : String} {pipeline : PipelineBlueprint} {request : Request}
      (hmem : (name, pipeline) ∈ blueprint.pipelines)
      (hrequest : request ∈ pipelineRequests name pipeline) :
      OwnRequest blueprint inputs outputs request
  | input {input : String} {request : Request} (hmem : input ∈ inputs)
      (hrequest : request ∈ inputRequests input) : OwnRequest blueprint inputs outputs request
  | output {output : String} {request : Request} (hmem : output ∈ outputs)
      (hrequest : request ∈ outputRequests output) : OwnRequest blueprint inputs outputs request

/-- The registrations of a daemon: these, and others that are not in the table. -/
structure Registers (blueprint : UnsealedRuntimeBlueprint) (inputs outputs : List String)
    (requests : List Request) : Prop where
  registered : ∀ request, OwnRequest blueprint inputs outputs request → request ∈ requests
  others : ∀ request ∈ requests, request.name ∈ tableMetrics →
    OwnRequest blueprint inputs outputs request

/-- The series of the table. -/
inductive OwnSeries (blueprint : UnsealedRuntimeBlueprint) (inputs outputs : List String) :
    String → Labels → Prop where
  | pipeline {metric name : String} (hmetric : metric ∈ pipelineMetrics)
      (hdropped : metric ≠ eventsDroppedTotal) (hname : name ∈ Entries.keys blueprint.pipelines) :
      OwnSeries blueprint inputs outputs metric [("pipeline", name)]
  | root {name : String} (hname : name ∈ Entries.keys blueprint.pipelines) :
      OwnSeries blueprint inputs outputs eventsDroppedTotal (rootLabels name)
  | node {metric name : String} {pipeline : PipelineBlueprint} {node : MetricNodeDescriptor}
      (hmetric : metric ∈ processMetrics) (hmem : (name, pipeline) ∈ blueprint.pipelines)
      (hnode : node ∈ pipeline.metricNodes) :
      OwnSeries blueprint inputs outputs metric (nodeLabels name node)
  | input {metric name : String} (hmetric : metric ∈ inputMetrics) (hname : name ∈ inputs) :
      OwnSeries blueprint inputs outputs metric [("input", name)]
  | output {metric name : String} (hmetric : metric ∈ outputMetrics) (hname : name ∈ outputs) :
      OwnSeries blueprint inputs outputs metric [("output", name)]

section Requests

variable {blueprint : UnsealedRuntimeBlueprint} {inputs outputs : List String}

theorem key_of_labels {request : Request} {label scope : String}
    (hlabels : request.labels = [(label, scope)]) :
    request.key = ⟨request.name, [(label, scope)]⟩ := by
  rw [Request.key, hlabels]
  rfl

/-- The counters of a frame. -/
theorem processCounterRequests_name (name : String) (step : ℕ) (path processName : String) :
    (processCounterRequests name step path processName).map Request.name = processMetrics := rfl

theorem processCounterRequests_key {name : String} {step : ℕ} {path processName : String} :
    ∀ request ∈ processCounterRequests name step path processName, request.kind = .counter ∧
      request.key = ⟨request.name, frameLabels name (toString step) path processName⟩ := by
  intro request hrequest
  have hshape : request.kind = .counter ∧
      request.labels = processLabels name (toString step) path processName := by
    simp only [processCounterRequests, List.mem_cons, List.not_mem_nil, or_false] at hrequest
    rcases hrequest with rfl | rfl | rfl | rfl
    all_goals exact ⟨rfl, rfl⟩
  refine ⟨hshape.1, ?_⟩
  rw [Request.key, hshape.2, canonicalLabels_processLabels]

/-- The counters of a pipeline, and its gauge. -/
theorem pipelineMetricsRequests_name (name : String) :
    (pipelineMetricsRequests name).map Request.name =
      pipelineMetrics ++ ["limpid_pipeline_inflight"] := rfl

theorem pipelineMetricsRequests_key {name : String} :
    ∀ request ∈ pipelineMetricsRequests name, request.name ∈ pipelineMetrics →
      request.kind = .counter ∧ request.key = ⟨request.name,
        if request.name = eventsDroppedTotal then rootLabels name else [("pipeline", name)]⟩ := by
  intro request hrequest hmetric
  simp only [pipelineMetricsRequests, List.mem_cons, List.not_mem_nil, or_false] at hrequest
  rcases hrequest with rfl | rfl | rfl | rfl | rfl | rfl | rfl
  · exact ⟨rfl, key_of_labels rfl⟩
  · exact ⟨rfl, key_of_labels rfl⟩
  · refine ⟨rfl, ?_⟩
    rw [Request.key, canonicalLabels_processLabels]
    rfl
  · exact ⟨rfl, key_of_labels rfl⟩
  · exact ⟨rfl, key_of_labels rfl⟩
  · exact ⟨rfl, key_of_labels rfl⟩
  · exact absurd hmetric (by dsimp only; decide)

theorem inputRequests_name (input : String) :
    (inputRequests input).map Request.name = inputMetrics := rfl

theorem inputRequests_key {input : String} : ∀ request ∈ inputRequests input,
    request.kind = .counter ∧ request.key = ⟨request.name, [("input", input)]⟩ := by
  intro request hrequest
  simp only [inputRequests, List.mem_cons, List.not_mem_nil, or_false] at hrequest
  rcases hrequest with rfl | rfl | rfl
  all_goals exact ⟨rfl, key_of_labels rfl⟩

theorem outputRequests_name (output : String) :
    (outputRequests output).map Request.name = outputMetrics := rfl

theorem outputRequests_key {output : String} : ∀ request ∈ outputRequests output,
    request.kind = .counter ∧ request.key = ⟨request.name, [("output", output)]⟩ := by
  intro request hrequest
  simp only [outputRequests, List.mem_cons, List.not_mem_nil, or_false] at hrequest
  rcases hrequest with rfl | rfl | rfl | rfl | rfl | rfl | rfl
  all_goals exact ⟨rfl, key_of_labels rfl⟩

/-- **What is registered for the table.** -/
theorem OwnRequest.series (h : FramedBlueprint blueprint) {request : Request}
    (hrequest : OwnRequest blueprint inputs outputs request)
    (htable : request.name ∈ tableMetrics) : request.kind = .counter ∧
      ∃ labels, OwnSeries blueprint inputs outputs request.name labels ∧
        request.key = ⟨request.name, labels⟩ := by
  cases hrequest with
  | @pipeline name pipeline _ hmem hrequest =>
      have hname : name ∈ Entries.keys blueprint.pipelines := List.mem_map_of_mem hmem
      rcases List.mem_append.mp hrequest with hframe | hpipeline
      · obtain ⟨node, hnode, hframe⟩ := List.mem_flatMap.mp hframe
        obtain ⟨hkind, hkey⟩ := processCounterRequests_key request hframe
        have hmetric := processCounterRequests_name name node.step node.processPath
          node.processName ▸ List.mem_map_of_mem (f := Request.name) hframe
        exact ⟨hkind, _, .node hmetric hmem hnode, hkey⟩
      · rw [h.names name pipeline hmem] at hpipeline
        have hmetric : request.name ∈ pipelineMetrics := by
          have hname := pipelineMetricsRequests_name name ▸
            List.mem_map_of_mem (f := Request.name) hpipeline
          rcases List.mem_append.mp hname with hmetric | hgauge
          · exact hmetric
          · -- the gauge is not in the table
            rw [List.mem_singleton.mp hgauge] at htable
            exact absurd htable (by decide)
        obtain ⟨hkind, hkey⟩ := pipelineMetricsRequests_key request hpipeline hmetric
        refine ⟨hkind, _, ?_, hkey⟩
        split
        · next hdropped =>
          rw [hdropped]
          exact .root hname
        · next hdropped => exact .pipeline hmetric hdropped hname
  | @input name _ hmem hrequest =>
      obtain ⟨hkind, hkey⟩ := inputRequests_key request hrequest
      have hmetric := inputRequests_name name ▸ List.mem_map_of_mem (f := Request.name) hrequest
      exact ⟨hkind, _, .input hmetric hmem, hkey⟩
  | @output name _ hmem hrequest =>
      obtain ⟨hkind, hkey⟩ := outputRequests_key request hrequest
      have hmetric := outputRequests_name name ▸ List.mem_map_of_mem (f := Request.name) hrequest
      exact ⟨hkind, _, .output hmetric hmem, hkey⟩

/-- Each series of the table is registered. -/
theorem OwnSeries.request (h : FramedBlueprint blueprint) {metric : String} {labels : Labels}
    (hseries : OwnSeries blueprint inputs outputs metric labels) :
    ∃ request, OwnRequest blueprint inputs outputs request ∧ request.kind = .counter ∧
      request.key = ⟨metric, labels⟩ := by
  cases hseries with
  | @pipeline _ name hmetric hdropped hname =>
      obtain ⟨⟨_, pipeline⟩, hmem, rfl⟩ := List.mem_map.mp hname
      have hnames := List.mem_append_left ["limpid_pipeline_inflight"] hmetric
      obtain ⟨request, hrequest, rfl⟩ := List.mem_map.mp
        (pipelineMetricsRequests_name pipeline.name ▸ hnames)
      obtain ⟨hkind, hkey⟩ := pipelineMetricsRequests_key request hrequest hmetric
      rw [if_neg hdropped, h.names _ pipeline hmem] at hkey
      exact ⟨request, .pipeline hmem (List.mem_append_right _ hrequest), hkind, hkey⟩
  | root hname =>
      obtain ⟨⟨name, pipeline⟩, hmem, rfl⟩ := List.mem_map.mp hname
      obtain ⟨request, hrequest, hkind, hkey⟩ := rootRequest_mem name pipeline
      rw [h.names name pipeline hmem] at hkey
      exact ⟨request, .pipeline hmem hrequest, hkind, hkey⟩
  | @node _ name pipeline node hmetric hmem hnode =>
      obtain ⟨request, hrequest, rfl⟩ := List.mem_map.mp (processCounterRequests_name name
        node.step node.processPath node.processName ▸ hmetric)
      obtain ⟨hkind, hkey⟩ := processCounterRequests_key request hrequest
      exact ⟨request, .pipeline hmem (List.mem_append_left _
        (List.mem_flatMap.mpr ⟨node, hnode, hrequest⟩)), hkind, hkey⟩
  | @input _ name hmetric hname =>
      obtain ⟨request, hrequest, rfl⟩ := List.mem_map.mp (inputRequests_name name ▸ hmetric)
      obtain ⟨hkind, hkey⟩ := inputRequests_key request hrequest
      exact ⟨request, .input hname hrequest, hkind, hkey⟩
  | @output _ name hmetric hname =>
      obtain ⟨request, hrequest, rfl⟩ := List.mem_map.mp (outputRequests_name name ▸ hmetric)
      obtain ⟨hkind, hkey⟩ := outputRequests_key request hrequest
      exact ⟨request, .output hname hrequest, hkind, hkey⟩

end Requests

/-! ## The scopes of the table -/

/-- The frames of a pipeline. -/
def groupOf (entry : String × PipelineBlueprint) : String × List ProcessIdentity :=
  (entry.1, entry.2.metricNodes.map (identity entry.1))

/-- What the rows of the table are about. -/
def scopesOf (blueprint : UnsealedRuntimeBlueprint) (inputs outputs : List String) : Scopes where
  pipelines := Entries.keys blueprint.pipelines
  inputs := inputs.dedup
  outputs := outputs.dedup
  identities := (blueprint.pipelines.map groupOf).flatMap Prod.snd

theorem identityLabels_identity (name : String) (node : MetricNodeDescriptor) :
    identityLabels (identity name node) = nodeLabels name node := rfl

theorem identityLabels_injective : Function.Injective identityLabels := by
  rintro ⟨pipeline, step, path, name⟩ ⟨pipeline', step', path', name'⟩ h
  simp only [identityLabels, frameLabels, List.cons.injEq, Prod.mk.injEq, true_and,
    and_true] at h
  obtain ⟨rfl, rfl, rfl, hstep⟩ := h
  rw [Prometheus.toString_nat_inj hstep]

theorem rootLabels_injective : Function.Injective rootLabels := by
  intro first second h
  simpa [rootLabels, frameLabels] using h

section Scopes

variable {blueprint : UnsealedRuntimeBlueprint} {inputs outputs : List String}

theorem mem_identities {frame : ProcessIdentity} :
    frame ∈ (scopesOf blueprint inputs outputs).identities ↔ ∃ name pipeline,
      (name, pipeline) ∈ blueprint.pipelines ∧
        ∃ node ∈ pipeline.metricNodes, frame = identity name node := by
  constructor
  · intro hframe
    obtain ⟨_, hgroup, hframe⟩ := List.mem_flatMap.mp hframe
    obtain ⟨⟨name, pipeline⟩, hmem, rfl⟩ := List.mem_map.mp hgroup
    obtain ⟨node, hnode, rfl⟩ := List.mem_map.mp hframe
    exact ⟨name, pipeline, hmem, node, hnode, rfl⟩
  · rintro ⟨name, pipeline, hmem, node, hnode, rfl⟩
    exact List.mem_flatMap.mpr ⟨_, List.mem_map_of_mem hmem, List.mem_map_of_mem hnode⟩

theorem knownMetricLabel_input : ∀ metric ∈ inputMetrics,
    knownMetricLabel metric = some "input" := by
  decide

theorem knownMetricLabel_output : ∀ metric ∈ outputMetrics,
    knownMetricLabel metric = some "output" := by
  decide

theorem knownMetricLabel_pipeline {metric : String} (h : metric ∈ pipelineMetrics) :
    knownMetricLabel metric = some "pipeline" := if_pos h

/-- A family of pipelines, inputs or outputs has a series for each. -/
theorem ownSeries_named {metric label : String} (hlabel : knownMetricLabel metric = some label)
    (hdropped : metric ≠ eventsDroppedTotal) (labels : Labels) :
    OwnSeries blueprint inputs outputs metric labels ↔
      ∃ scope ∈ (scopesOf blueprint inputs outputs).named label, labels = [(label, scope)] := by
  constructor
  · intro hseries
    cases hseries with
    | @pipeline _ name hmetric _ hname =>
        obtain rfl := Option.some.inj ((knownMetricLabel_pipeline hmetric).symm.trans hlabel)
        exact ⟨name, hname, rfl⟩
    | root => exact absurd rfl hdropped
    | node hmetric =>
        rw [knownMetricLabel_process metric hmetric hdropped] at hlabel
        exact nomatch hlabel
    | @input _ name hmetric hname =>
        obtain rfl := Option.some.inj ((knownMetricLabel_input _ hmetric).symm.trans hlabel)
        exact ⟨name, List.mem_dedup.mpr hname, rfl⟩
    | @output _ name hmetric hname =>
        obtain rfl := Option.some.inj ((knownMetricLabel_output _ hmetric).symm.trans hlabel)
        exact ⟨name, List.mem_dedup.mpr hname, rfl⟩
  · rintro ⟨scope, hscope, rfl⟩
    unfold knownMetricLabel at hlabel
    split_ifs at hlabel with hpipeline hinput houtput
    · obtain rfl := Option.some.inj hlabel
      exact .pipeline hpipeline hdropped hscope
    · obtain rfl := Option.some.inj hlabel
      exact .input hinput (List.mem_dedup.mp hscope)
    · obtain rfl := Option.some.inj hlabel
      exact .output houtput (List.mem_dedup.mp hscope)

/-- A family of frames has a series for each frame. -/
theorem ownSeries_process {metric : String} (hmetric : metric ∈ processMetrics)
    (hdropped : metric ≠ eventsDroppedTotal) (labels : Labels) :
    OwnSeries blueprint inputs outputs metric labels ↔
      ∃ frame ∈ (scopesOf blueprint inputs outputs).identities, labels = identityLabels frame := by
  have hnone := knownMetricLabel_process metric hmetric hdropped
  constructor
  · intro hseries
    cases hseries with
    | pipeline hother => exact nomatch (knownMetricLabel_pipeline hother).symm.trans hnone
    | root => exact absurd rfl hdropped
    | node _ hmem hnode => exact ⟨_, mem_identities.mpr ⟨_, _, hmem, _, hnode, rfl⟩, rfl⟩
    | input hother => exact nomatch (knownMetricLabel_input _ hother).symm.trans hnone
    | output hother => exact nomatch (knownMetricLabel_output _ hother).symm.trans hnone
  · rintro ⟨frame, hframe, rfl⟩
    obtain ⟨name, pipeline, hmem, node, hnode, rfl⟩ := mem_identities.mp hframe
    exact .node hmetric hmem hnode

/-- The family of the dropped events has the series of both. -/
theorem ownSeries_dropped (labels : Labels) :
    OwnSeries blueprint inputs outputs eventsDroppedTotal labels ↔
      ∃ scope ∈ (scopesOf blueprint inputs outputs).pipelines.map .inl ++
        (scopesOf blueprint inputs outputs).identities.map .inr,
        labels = Sum.elim rootLabels identityLabels scope := by
  have hlabel : knownMetricLabel eventsDroppedTotal = some "pipeline" := rfl
  constructor
  · intro hseries
    cases hseries with
    | pipeline _ hne => exact absurd rfl hne
    | @root name hname =>
        exact ⟨.inl name, List.mem_append_left _ (List.mem_map_of_mem hname), rfl⟩
    | @node _ name pipeline node _ hmem hnode =>
        have hframe : identity name node ∈ (scopesOf blueprint inputs outputs).identities :=
          mem_identities.mpr ⟨name, pipeline, hmem, node, hnode, rfl⟩
        exact ⟨.inr _, List.mem_append_right _ (List.mem_map_of_mem hframe), rfl⟩
    | input hmetric =>
        exact absurd ((knownMetricLabel_input _ hmetric).symm.trans hlabel) (by decide)
    | output hmetric =>
        exact absurd ((knownMetricLabel_output _ hmetric).symm.trans hlabel) (by decide)
  · rintro ⟨scope, hscope, rfl⟩
    rcases List.mem_append.mp hscope with hpipeline | hframe
    · obtain ⟨name, hname, rfl⟩ := List.mem_map.mp hpipeline
      exact .root hname
    · obtain ⟨frame, hidentity, rfl⟩ := List.mem_map.mp hframe
      obtain ⟨name, pipeline, hmem, node, hnode, rfl⟩ := mem_identities.mp hidentity
      exact .node (by decide) hmem hnode

end Scopes

/-! ## Frames -/

/-- The path of a frame ends with its name. -/
theorem path_of_framed {pipeline : PipelineBlueprint} (h : Framed pipeline) {id : ℕ}
    {above : List ℕ} (habove : Above pipeline.metricNodes id above) :
    ∀ node, pipeline.metricNodes[id]? = some node → isProcessPath node.processPath = true ∧
      processPathLeaf node.processPath = some node.processName := by
  induction habove with
  | @top id other hother hparent =>
      intro node hnode
      obtain rfl := Option.some.inj (hnode.symm.trans hother)
      obtain ⟨hne, hsep⟩ := h.names node (List.mem_of_getElem? hnode)
      have hpath := isProcessPath_under hne hsep (.inl rfl)
      rw [h.top id node hnode hparent]
      exact ⟨hpath, processPathLeaf_under hne hsep hpath⟩
  | @under id p other above hother hparent _ ih =>
      intro node hnode
      obtain rfl := Option.some.inj (hnode.symm.trans hother)
      obtain ⟨hne, hsep⟩ := h.names node (List.mem_of_getElem? hnode)
      obtain ⟨parent, hplace, -, heq⟩ := h.below id node p hnode hparent
      have hpath := isProcessPath_under hne hsep
        (.inr ⟨(ih parent hplace).1, (h.path_ne hplace).2⟩)
      rw [heq]
      exact ⟨hpath, processPathLeaf_under hne hsep hpath⟩

/-- Every node has nodes above it up to the top. -/
theorem exists_above {pipeline : PipelineBlueprint} (h : Framed pipeline) {id : ℕ}
    {node : MetricNodeDescriptor} (hnode : pipeline.metricNodes[id]? = some node) :
    ∃ above, Above pipeline.metricNodes id above := by
  -- the parent of a node stands before it
  induction id using Nat.strong_induction_on generalizing node with
  | _ id ih =>
    cases hparent : node.parent with
    | none => exact ⟨[], .top hnode hparent⟩
    | some p =>
        obtain ⟨parent, hplace, hchild, -⟩ := h.below id node p hnode hparent
        obtain ⟨hlt, -⟩ := h.children p parent hplace id hchild
        obtain ⟨above, habove⟩ := ih p hlt hplace
        exact ⟨above ++ [p], .under hnode hparent habove⟩

/-- The frames of a pipeline stand in the order of their steps. -/
theorem frames_pairwise {pipeline : PipelineBlueprint} (h : Framed pipeline) (name : String) :
    (pipeline.metricNodes.map (identity name)).Pairwise (· < ·) := by
  rw [List.pairwise_map, List.pairwise_iff_getElem]
  intro i j hi hj hlt
  have hstep := fun k (hk : k < pipeline.metricNodes.length) =>
    h.step k _ (List.getElem?_eq_getElem hk)
  refine Prod.Lex.toLex_lt_toLex.mpr (.inr ⟨rfl, Prod.Lex.toLex_lt_toLex.mpr (.inl ?_)⟩)
  change pipeline.metricNodes[i].step < pipeline.metricNodes[j].step
  rw [hstep i hi, hstep j hj]
  omega

theorem identities_pairwise {blueprint : UnsealedRuntimeBlueprint} (h : FramedBlueprint blueprint)
    (hkeys : (Entries.keys blueprint.pipelines).Pairwise (· < ·)) (inputs outputs : List String) :
    (scopesOf blueprint inputs outputs).identities.Pairwise (· < ·) := by
  refine List.pairwise_flatMap.mpr ⟨fun group hgroup => ?_, ?_⟩
  · obtain ⟨⟨name, pipeline⟩, hmem, rfl⟩ := List.mem_map.mp hgroup
    exact frames_pairwise (h.framed name pipeline hmem) name
  · rw [List.pairwise_map]
    refine (List.pairwise_map.mp hkeys).imp fun {first second} hlt frame hframe other hother => ?_
    obtain ⟨node, -, rfl⟩ := List.mem_map.mp hframe
    obtain ⟨node', -, rfl⟩ := List.mem_map.mp hother
    exact Prod.Lex.toLex_lt_toLex.mpr (.inl hlt)

/-! ## Runs -/

section Runs

variable {World : Type}

/-- A blueprint that was compiled and bound with inputs and outputs, events that ran through its
workers, and a registry that is read afterwards. -/
structure StatsRun (ctx : PipelineContext World) (config : CompiledConfig)
    (blueprint : UnsealedRuntimeBlueprint) (inputs outputs : List String)
    (traces : String → List (TraceEntry World)) (overridden : String → ℕ) (registry : Registry)
    (readings : Readings) : Prop where
  compiled : compileRuntimeBlueprint config = .ok blueprint
  keyed : ∀ name definition, config.pipelines.lookup name = some definition →
    definition.name = name
  names : ∀ name pipeline, (name, pipeline) ∈ blueprint.pipelines →
    ∀ node ∈ pipeline.metricNodes, FrameName node.processName
  hasPipeline : blueprint.pipelines ≠ []
  hasInput : inputs ≠ []
  hasOutput : outputs ≠ []
  built : ∃ requests, Registers blueprint inputs outputs requests ∧
    buildAll ctx.rt requests .new = (.ok (), registry)
  runs : ∀ name pipeline, (name, pipeline) ∈ blueprint.pipelines → ∃ worker,
    WorkerRuns ctx (pipeline.worker blueprint) (traces name) (overridden name) worker ∧
      Reads readings name pipeline worker

variable {ctx : PipelineContext World} {config : CompiledConfig}
  {blueprint : UnsealedRuntimeBlueprint} {inputs outputs : List String}
  {traces : String → List (TraceEntry World)} {overridden : String → ℕ} {registry : Registry}
  {readings : Readings}

namespace StatsRun

theorem framedBlueprint (h : StatsRun ctx config blueprint inputs outputs traces overridden
    registry readings) : FramedBlueprint blueprint :=
  .of_compiled h.compiled h.keyed h.names

theorem compiledBlueprint (h : StatsRun ctx config blueprint inputs outputs traces overridden
    registry readings) : CompiledBlueprint config blueprint :=
  compile_spec (compileRuntimeBlueprint_ok_iff.mp h.compiled).1

/-- The pipelines stand in the order of their names. -/
theorem keys_pairwise (h : StatsRun ctx config blueprint inputs outputs traces overridden
    registry readings) : (Entries.keys blueprint.pipelines).Pairwise (· < ·) := by
  have hspec := h.compiledBlueprint
  have hsorted : (Entries.keys blueprint.pipelines).Pairwise (· ≤ ·) := by
    rw [hspec.keys, hspec.order]
    exact List.pairwise_insertionSort _ _
  exact (hsorted.and h.framedBlueprint.keys).imp fun hpair => lt_of_le_of_ne hpair.1 hpair.2

/-- The nodes of a pipeline are laid out as its forest. -/
theorem listed (h : StatsRun ctx config blueprint inputs outputs traces overridden
    registry readings) {name : String} {pipeline : PipelineBlueprint}
    (hmem : (name, pipeline) ∈ blueprint.pipelines) :
    Listed pipeline.metricNodes pipeline.roots 0 pipeline.metricNodes.length ∧
      pipeline.metricNodes.length < UInt64.size := by
  obtain ⟨definition, -, hpipeline⟩ := h.compiledBlueprint.pipelines name pipeline hmem
  have hforest := h.compiledBlueprint.metricForest hpipeline
  have hroots : pipeline.roots = (codeSites pipeline.code).map ProcessSite.metricNode := by
    have hsorted : pipeline.roots.Pairwise (· < ·) := List.pairwise_lt_range.filter _
    refine (List.Perm.eq_of_pairwise (fun _ _ _ _ hlt hlt' => absurd hlt (asymm hlt')) hsorted
      hforest.distinct ?_)
    refine (List.perm_ext_iff_of_nodup (hsorted.imp ne_of_lt) (hforest.distinct.imp ne_of_lt)).mpr
      fun id => ?_
    rw [mem_roots]
    constructor
    · rintro ⟨node, hnode, hparent⟩
      exact (hforest.roots id node hnode).mp hparent
    · intro hid
      obtain ⟨site, hsite, rfl⟩ := List.mem_map.mp hid
      obtain ⟨node, hnode, -⟩ := hpipeline.roots site hsite
      exact ⟨node, hnode, (hforest.roots _ node hnode).mpr hid⟩
  refine ⟨hroots ▸ hpipeline.nodes.listed, ?_⟩
  have hcount := hpipeline.count
  have hsize : UInt32.size < UInt64.size := by decide
  omega

/-- The registry holds the series of the table. -/
theorem hasSeries_iff (h : StatsRun ctx config blueprint inputs outputs traces overridden
    registry readings) {metric : String} (hmetric : metric ∈ tableMetrics)
    (metricType : MetricType) (labels : Labels) :
    HasSeries registry.families metricType ⟨metric, labels⟩ ↔
      metricType = .counter ∧ OwnSeries blueprint inputs outputs metric labels := by
  obtain ⟨requests, hregisters, hbuilt⟩ := h.built
  rw [(buildAll_ok (.new ctx.rt) hbuilt).2]
  have hnone : ¬HasSeries Registry.new.families metricType ⟨metric, labels⟩ :=
    fun ⟨_, hmem, _⟩ => absurd hmem List.not_mem_nil
  rw [or_iff_right hnone]
  constructor
  · rintro ⟨request, hrequest, rfl, hkey⟩
    obtain rfl : request.name = metric := congrArg SeriesKey.name hkey
    obtain ⟨hkind, others, hseries, hother⟩ :=
      (hregisters.others request hrequest hmetric).series h.framedBlueprint hmetric
    rw [hkey, SeriesKey.mk.injEq] at hother
    exact ⟨by rw [hkind]; rfl, hother.2 ▸ hseries⟩
  · rintro ⟨rfl, hseries⟩
    obtain ⟨request, hown, hkind, hkey⟩ := hseries.request h.framedBlueprint
    exact ⟨request, hregisters.registered request hown, by rw [hkind]; rfl, hkey⟩

/-- A family of the table has a series. -/
theorem exists_series (h : StatsRun ctx config blueprint inputs outputs traces overridden
    registry readings) {family : RegistryCore.MetricFamily} (hfamily : family ∈ registry.families)
    (hmetric : family.name ∈ tableMetrics) :
    ∃ labels, OwnSeries blueprint inputs outputs family.name labels := by
  obtain ⟨requests, hregisters, hbuilt⟩ := h.built
  have hname : family.name ∈ registry.families.map RegistryCore.MetricFamily.name :=
    List.mem_map_of_mem hfamily
  rcases buildAll_name hbuilt hname with hnone | ⟨request, hrequest, hsame⟩
  · exact absurd hnone List.not_mem_nil
  · rw [← hsame] at hmetric ⊢
    obtain ⟨-, labels, hseries, -⟩ :=
      (hregisters.others request hrequest hmetric).series h.framedBlueprint hmetric
    exact ⟨labels, hseries⟩

/-- A family of the table is that of its scopes. -/
theorem scopedFamily (h : StatsRun ctx config blueprint inputs outputs traces overridden
    registry readings) {family : RegistryCore.MetricFamily} (hfamily : family ∈ registry.families)
    (hmetric : family.name ∈ tableMetrics) {κ : Type} {labelsOf : κ → Labels} {scopes : List κ}
    (hnodup : scopes.Nodup)
    (hinjective : ∀ first ∈ scopes, ∀ second ∈ scopes, labelsOf first = labelsOf second →
      first = second)
    (hseries : ∀ labels, OwnSeries blueprint inputs outputs family.name labels ↔
      ∃ scope ∈ scopes, labels = labelsOf scope) : Scoped family labelsOf scopes := by
  obtain ⟨requests, -, hbuilt⟩ := h.built
  obtain ⟨hok, -⟩ := buildAll_ok (.new ctx.rt) hbuilt
  have hunique : ∀ labels, OwnSeries blueprint inputs outputs family.name labels →
      family.metricType = .counter ∧ labels ∈ family.series.map Series.labels := by
    intro labels hlabels
    obtain ⟨other, hother, hname, htype, hmem⟩ :=
      (h.hasSeries_iff hmetric .counter labels).mpr ⟨rfl, hlabels⟩
    obtain rfl := List.inj_on_of_nodup_map hok.names hother hfamily hname
    exact ⟨htype, hmem⟩
  obtain ⟨labels, hlabels⟩ := h.exists_series hfamily hmetric
  have hcounter := (hunique labels hlabels).1
  obtain ⟨scope, hscope, -⟩ := (hseries labels).mp hlabels
  refine ⟨hcounter, List.ne_nil_of_mem hscope, hnodup, hinjective, fun labels => ?_⟩
  rw [← hseries labels]
  exact ⟨fun hmem => ((h.hasSeries_iff hmetric .counter labels).mp
    ⟨family, hfamily, rfl, hcounter, hmem⟩).2, fun hlabels => (hunique labels hlabels).2⟩

/-- A family with a series is there. -/
theorem family_mem (h : StatsRun ctx config blueprint inputs outputs traces overridden
    registry readings) {metric : String} (hmetric : metric ∈ tableMetrics) {labels : Labels}
    (hseries : OwnSeries blueprint inputs outputs metric labels) :
    metric ∈ registry.families.map RegistryCore.MetricFamily.name := by
  obtain ⟨family, hfamily, hname, -⟩ :=
    (h.hasSeries_iff hmetric .counter labels).mpr ⟨rfl, hseries⟩
  exact List.mem_map.mpr ⟨family, hfamily, hname⟩

theorem frame_ok (h : StatsRun ctx config blueprint inputs outputs traces overridden
    registry readings) {frame : ProcessIdentity}
    (hframe : frame ∈ (scopesOf blueprint inputs outputs).identities) :
    frame.step < UInt64.size ∧ frame.processPath ≠ processPathRoot ∧
      processPathLeaf frame.processPath = some frame.processName := by
  obtain ⟨name, pipeline, hmem, node, hnode, rfl⟩ := mem_identities.mp hframe
  obtain ⟨id, hid⟩ := List.mem_iff_getElem?.mp hnode
  have hframed := h.framedBlueprint.framed name pipeline hmem
  obtain ⟨above, habove⟩ := exists_above hframed hid
  refine ⟨?_, (hframed.path_ne hid).2, (path_of_framed hframed habove node hid).2⟩
  have hlt := (List.getElem?_eq_some_iff.mp hid).1
  have hlength := (h.listed hmem).2
  change node.step < _
  rw [hframed.step id node hid]
  omega

/-- **The registry covers the table.** -/
theorem covers (h : StatsRun ctx config blueprint inputs outputs traces overridden
    registry readings) : (scopesOf blueprint inputs outputs).Covers registry.families := by
  have hpipelines : Entries.keys blueprint.pipelines ≠ [] := by
    simpa [Entries.keys] using h.hasPipeline
  have hframes : (scopesOf blueprint inputs outputs).identities.Nodup :=
    (identities_pairwise h.framedBlueprint h.keys_pairwise inputs outputs).imp ne_of_lt
  have hknown : ∀ name label, knownMetricLabel name = some label → name ∈ tableMetrics ∧
      (label = "pipeline" ∨ label = "input" ∨ label = "output") := by
    intro name label hlabel
    unfold knownMetricLabel at hlabel
    split_ifs at hlabel with hpipeline hinput houtput
    · simp [tableMetrics, hpipeline, (Option.some.inj hlabel).symm]
    · simp [tableMetrics, hinput, (Option.some.inj hlabel).symm]
    · simp [tableMetrics, houtput, (Option.some.inj hlabel).symm]
  have hprocess : ∀ name ∈ processMetrics, name ∈ tableMetrics := fun name hname =>
    List.mem_append_right _ hname
  have hnamed : ∀ label, (label = "pipeline" ∨ label = "input" ∨ label = "output") →
      ((scopesOf blueprint inputs outputs).named label).Nodup ∧
        (scopesOf blueprint inputs outputs).named label ≠ [] := by
    rintro label (rfl | rfl | rfl)
    · exact ⟨h.framedBlueprint.keys, hpipelines⟩
    · exact ⟨List.nodup_dedup _, fun hnil => h.hasInput (List.dedup_eq_nil _ |>.mp hnil)⟩
    · exact ⟨List.nodup_dedup _, fun hnil => h.hasOutput (List.dedup_eq_nil _ |>.mp hnil)⟩
  exact {
    pipelines := hpipelines
    frames := fun frame hframe => h.frame_ok hframe
    named := fun family hfamily hdropped label hlabel => by
      obtain ⟨htable, hlabels⟩ := hknown _ _ hlabel
      refine h.scopedFamily hfamily htable (hnamed label hlabels).1 (fun first _ second _ heq => ?_)
        (ownSeries_named hlabel hdropped)
      simpa using heq
    processes := fun family hfamily hdropped hmetric =>
      h.scopedFamily hfamily (hprocess _ hmetric) hframes
        (fun first _ second _ heq => identityLabels_injective heq)
        (ownSeries_process hmetric hdropped)
    dropped := fun family hfamily hdropped => by
      refine h.scopedFamily hfamily (by rw [hdropped]; decide) ?_ ?_ (by
        rw [hdropped]
        exact ownSeries_dropped)
      · refine List.nodup_append.mpr ⟨h.framedBlueprint.keys.map Sum.inl_injective,
          hframes.map Sum.inr_injective, fun first hfirst second hsecond => ?_⟩
        obtain ⟨name, -, rfl⟩ := List.mem_map.mp hfirst
        obtain ⟨frame, -, rfl⟩ := List.mem_map.mp hsecond
        exact Sum.inl_ne_inr
      · -- the path of a pipeline is no frame's
        have hne : ∀ name, ∀ frame ∈ (scopesOf blueprint inputs outputs).identities,
            rootLabels name ≠ identityLabels frame := by
          intro name frame hframe heq
          have hpath := congrArg (fun labels => labels.lookup processLabelPath) heq
          exact (h.frame_ok hframe).2.1 (Option.some.inj hpath).symm
        rintro (first | first) hfirst (second | second) hsecond heq
        · rw [rootLabels_injective heq]
        · exact absurd heq (hne first second (by simpa using hsecond))
        · exact absurd heq.symm (hne second first (by simpa using hfirst))
        · rw [identityLabels_injective heq]
    known := fun name label hlabel => by
      obtain ⟨htable, hlabels⟩ := hknown name label hlabel
      by_cases hdropped : name = eventsDroppedTotal
      · obtain ⟨pipeline, hpipeline⟩ := List.exists_mem_of_ne_nil _ hpipelines
        rw [hdropped] at htable ⊢
        exact h.family_mem htable (.root hpipeline)
      · obtain ⟨scope, hscope⟩ := List.exists_mem_of_ne_nil _ (hnamed label hlabels).2
        exact h.family_mem htable ((ownSeries_named hlabel hdropped _).mpr ⟨scope, hscope, rfl⟩)
    present := fun hne metric hmetric => by
      obtain ⟨frame, hframe⟩ := List.exists_mem_of_ne_nil _ hne
      obtain ⟨name, pipeline, hmem, node, hnode, -⟩ := mem_identities.mp hframe
      exact h.family_mem (hprocess metric hmetric) (.node hmetric hmem hnode) }

end StatsRun

/-! ## The call tree -/

/-- The nodes at some tops and below them, those below each right behind it. -/
inductive PreOrder (nodes : List MetricNodeDescriptor) : List ℕ → List ℕ → Prop where
  | nil : PreOrder nodes [] []
  | cons {top : ℕ} {node : MetricNodeDescriptor} {tops below rest : List ℕ}
      (hnode : nodes[top]? = some node) (hbelow : PreOrder nodes node.children below)
      (hrest : PreOrder nodes tops rest) : PreOrder nodes (top :: tops) (top :: (below ++ rest))

theorem preOrder_of_listed {nodes : List MetricNodeDescriptor} {tops : List ℕ} {lo hi : ℕ}
    (h : Listed nodes tops lo hi) : PreOrder nodes tops (List.range' lo (hi - lo)) := by
  induction h with
  | nil lo =>
      rw [Nat.sub_self]
      exact .nil
  | @cons lo mid hi node tops hnode hbelow hrest ihbelow ihrest =>
      rw [range'_split hbelow.le hrest.le]
      exact .cons hnode ihbelow ihrest

/-- The rows of a pipeline: its nodes in pre-order, each drawn at its place, with its counters. -/
structure PipelineRows (pipeline : PipelineBlueprint) (worker : PipelineWorker) (width : ℕ)
    (rows : List String) : Prop where
  preOrder : PreOrder pipeline.metricNodes pipeline.roots
    (List.range pipeline.metricNodes.length)
  rows : List.Forall₂ (fun id row => ∃ drawn counters, Drawn pipeline id drawn ∧
      worker.processCounters[id]? = some counters ∧
        row = processRow width drawn counters.incoming counters.outgoing counters.dropped
          counters.errored)
    (List.range pipeline.metricNodes.length) rows

/-- The part of a pipeline in the process tree. -/
def PipelineBlock (ctx : PipelineContext World) (blueprint : UnsealedRuntimeBlueprint)
    (traces : String → List (TraceEntry World)) (overridden : String → ℕ) (width : ℕ)
    (entry : String × PipelineBlueprint) (block : String) : Prop :=
  ∃ worker rows,
    WorkerRuns ctx (entry.2.worker blueprint) (traces entry.1) (overridden entry.1) worker ∧
      PipelineRows entry.2 worker width rows ∧
      block = if rows = [] then "" else pipelineHeader entry.1 ++ String.join rows

namespace StatsRun

/-- The series of a frame hold the counters of its node. -/
theorem frameValue_eq {name : String} {pipeline : PipelineBlueprint} {worker : PipelineWorker}
    (hreads : Reads readings name pipeline worker) {id : ℕ} {node : MetricNodeDescriptor}
    {counters : ProcessCounters} (hnode : pipeline.metricNodes[id]? = some node)
    (hcounters : worker.processCounters[id]? = some counters) (width : ℕ)
    (drawn : String × String) :
    textOf (frameValue readings) width (identity name node, drawn) =
      processRow width drawn.1 counters.incoming counters.outgoing counters.dropped
        counters.errored := by
  have hvalues := hreads.frames id node counters hnode hcounters
  simp only [Holds, processCounterRequests, counterValues, List.forall₂_cons, Request.key,
    canonicalLabels_processLabels] at hvalues
  obtain ⟨hincoming, houtgoing, hdropped, herrored, -⟩ := hvalues
  change processRow width drawn.1 (readings.value ⟨_, nodeLabels name node⟩)
    (readings.value ⟨_, nodeLabels name node⟩) (readings.value ⟨_, nodeLabels name node⟩)
    (readings.value ⟨_, nodeLabels name node⟩) = _
  rw [← hincoming, ← houtgoing, ← hdropped, ← herrored]
  rfl

/-- **The block of a pipeline.** -/
theorem pipelineBlock (h : StatsRun ctx config blueprint inputs outputs traces overridden
    registry readings) {entry : String × PipelineBlueprint} (hmem : entry ∈ blueprint.pipelines)
    {names : List (String × String)} (hnames : List.Forall₂
      (fun id drawn => Drawn entry.2 id drawn.1) (List.range entry.2.metricNodes.length) names)
    (width : ℕ) : PipelineBlock ctx blueprint traces overridden width entry
      (block (frameValue readings) width ((groupOf entry).2.zip names) entry.1) := by
  obtain ⟨name, pipeline⟩ := entry
  obtain ⟨worker, hrun, hreads⟩ := h.runs name pipeline hmem
  obtain ⟨-, hseal⟩ := compileRuntimeBlueprint_ok_iff.mp h.compiled
  have hpipeline : pipeline ∈ blueprint.pipelines.map Prod.snd := List.mem_map_of_mem hmem
  have hlength : names.length = pipeline.metricNodes.length := by
    rw [← hnames.length_eq, List.length_range]
  have hzip : ((groupOf (name, pipeline)).2.zip names).length = pipeline.metricNodes.length := by
    rw [List.length_zip, groupOf, List.length_map, hlength, min_self]
  refine ⟨worker, ((groupOf (name, pipeline)).2.zip names).map
    (textOf (frameValue readings) width), hrun, ⟨?_, ?_⟩, ?_⟩
  · have hpre := preOrder_of_listed (h.listed hmem).1
    rwa [Nat.sub_zero, ← List.range_eq_range'] at hpre
  · refine List.forall₂_iff_get.mpr ⟨by rw [List.length_range, List.length_map, hzip],
      fun i hi hi' => ?_⟩
    rw [List.length_range] at hi
    have hnode := List.getElem?_eq_getElem hi
    have hdrawn := hnames.get (by rwa [List.length_range]) (hlength ▸ hi)
    simp only [List.get_eq_getElem, List.getElem_range] at hdrawn ⊢
    refine ⟨_, _, hdrawn, counters_counted hseal hpipeline hrun hnode, ?_⟩
    rw [← frameValue_eq hreads hnode (counters_counted hseal hpipeline hrun hnode) width]
    simp [groupOf]
  · simp [block]

/-- **`limpidctl stats` draws the call tree.**  The table is printed; its process tree has the
pipelines in the order of their names, and for each of them its metric nodes in pre-order, each
once, drawn at its place in the forest and with its own counters. -/
theorem stats_draw_call_tree (h : StatsRun ctx config blueprint inputs outputs traces overridden
    registry readings) :
    ∃ (pipelineRows inputRows outputRows : List String) (width : ℕ) (blocks : List String),
      renderDefaultStats (registry.snapshot readings) =
        some ("Pipelines:\n" ++ String.join pipelineRows ++
          "\nInputs:\n" ++ String.join inputRows ++
          "\nOutputs:\n" ++ String.join outputRows ++
          ((if ∀ entry ∈ blueprint.pipelines, entry.2.metricNodes = [] then ""
            else "\nProcesses:\n") ++ String.join blocks)) ∧
      pipelineRows.length = blueprint.pipelines.length ∧
      inputRows.length = inputs.dedup.length ∧ outputRows.length = outputs.dedup.length ∧
      List.Forall₂ (PipelineBlock ctx blueprint traces overridden width) blueprint.pipelines
        blocks := by
  obtain ⟨requests, -, hbuilt⟩ := h.built
  obtain ⟨hok, -⟩ := buildAll_ok (.new ctx.rt) hbuilt
  have hframed := h.framedBlueprint
  have htrees : ∀ entry ∈ blueprint.pipelines, ∃ names,
      processTreeNames (groupOf entry).2 = some names ∧ List.Forall₂
        (fun id drawn => Drawn entry.2 id drawn.1) (List.range entry.2.metricNodes.length)
          names := fun entry hmem =>
    processTreeNames_frames (hframed.framed entry.1 entry.2 hmem) (h.listed hmem).1
  -- the rows of one pipeline stand together, under its name
  have hgrouped : Grouped (blueprint.pipelines.map groupOf) := by
    refine ⟨?_, fun group hgroup frame hframe => ?_⟩
    · have hkeys : Entries.keys (blueprint.pipelines.map groupOf) =
          Entries.keys blueprint.pipelines := by
        simp [Entries.keys, groupOf, Function.comp_def]
      rw [hkeys]
      exact hframed.keys
    · obtain ⟨entry, -, rfl⟩ := List.mem_map.mp hgroup
      obtain ⟨node, -, rfl⟩ := List.mem_map.mp hframe
      rfl
  have hnames : ∀ group ∈ blueprint.pipelines.map groupOf,
      processTreeNames group.2 = some ((processTreeNames group.2).getD []) := by
    intro group hgroup
    obtain ⟨entry, hmem, rfl⟩ := List.mem_map.mp hgroup
    obtain ⟨names, htree, -⟩ := htrees entry hmem
    rw [htree, Option.getD_some]
  obtain ⟨pipelineRows, inputRows, outputRows, width, hpipelines, hinputs, houtputs, hrender⟩ :=
    exists_table readings hok h.covers rfl hgrouped
      ((identities_pairwise hframed h.keys_pairwise inputs outputs).imp le_of_lt) hnames
  -- the heading of the tree is left out when there is nothing to draw
  have hnone : (blueprint.pipelines.map groupOf).flatMap Prod.snd = [] ↔
      ∀ entry ∈ blueprint.pipelines, entry.2.metricNodes = [] := by
    rw [List.flatMap_map, List.flatMap_eq_nil_iff]
    simp [groupOf]
  refine ⟨pipelineRows, inputRows, outputRows, width, (blueprint.pipelines.map groupOf).map
    fun group => block (frameValue readings) width
      (drawnRows (fun group => (processTreeNames group.2).getD []) group) group.1, ?_, ?_, hinputs,
    houtputs, ?_⟩
  · rw [hrender, processTable]
    simp only [hnone]
  · rw [hpipelines]
    exact List.length_map _
  · rw [List.map_map, List.forall₂_map_right_iff, List.forall₂_same]
    intro entry hmem
    obtain ⟨names, htree, hdrawn⟩ := htrees entry hmem
    have hrows : drawnRows (fun group => (processTreeNames group.2).getD []) (groupOf entry) =
        (groupOf entry).2.zip names := by
      rw [drawnRows, htree, Option.getD_some]
    have hblock := h.pipelineBlock hmem hdrawn width
    rwa [← hrows] at hblock

end StatsRun

end Runs

/-! ### One event through nested processes -/

section Nested

open Pipeline (nestedDrop nestedDropBlueprint archiveClosed)
open Prometheus (nestedDropConfig nestedDrop_boundRun oneDropped)

/-- The pipeline of `nestedDrop` with an input and an output. -/
def nestedRequests : List Request :=
  pipelineRequests "main" nestedDrop ++ inputRequests "in" ++ outputRequests "out"

theorem nested_statsRun (rt : Runtime) : ∃ traces registry,
    StatsRun (archiveClosed rt) nestedDropConfig nestedDropBlueprint ["in"] ["out"] traces
      (fun _ => 0) registry oneDropped := by
  obtain ⟨traces, _, hbound, -⟩ := nestedDrop_boundRun rt
  have hbuilt : buildAll rt nestedRequests .new = (.ok (), _) := rfl
  have hentry : ∀ name pipeline, (name, pipeline) ∈ nestedDropBlueprint.pipelines →
      name = "main" ∧ pipeline = nestedDrop := fun name pipeline hmem =>
    Prod.mk.inj (List.mem_singleton.mp hmem)
  refine ⟨traces, _, {
    compiled := hbound.compiled
    keyed := hbound.keyed
    names := hbound.names
    hasPipeline := List.cons_ne_nil _ _
    hasInput := List.cons_ne_nil _ _
    hasOutput := List.cons_ne_nil _ _
    built := ⟨nestedRequests, ⟨fun request hrequest => ?_, fun request hrequest _ => ?_⟩, hbuilt⟩
    runs := hbound.runs }⟩
  · cases hrequest with
    | pipeline hmem hrequest =>
        obtain ⟨rfl, rfl⟩ := hentry _ _ hmem
        exact List.mem_append_left _ (List.mem_append_left _ hrequest)
    | input hmem hrequest =>
        obtain rfl := List.mem_singleton.mp hmem
        exact List.mem_append_left _ (List.mem_append_right _ hrequest)
    | output hmem hrequest =>
        obtain rfl := List.mem_singleton.mp hmem
        exact List.mem_append_right _ hrequest
  · rcases List.mem_append.mp hrequest with hrequest | hrequest
    · rcases List.mem_append.mp hrequest with hrequest | hrequest
      · exact .pipeline (List.mem_singleton_self _) hrequest
      · exact .input (List.mem_singleton_self _) hrequest
    · exact .output (List.mem_singleton_self _) hrequest

theorem stats_draw_nested : ∃ (traces : String → List (TraceEntry Unit))
    (registry : Registry) (text : String) (width : ℕ) (blocks : List String),
      renderDefaultStats (registry.snapshot oneDropped) =
        some (text ++ ("\nProcesses:\n" ++ String.join blocks)) ∧
      List.Forall₂ (PipelineBlock (archiveClosed twoFloats) nestedDropBlueprint traces (fun _ => 0) width)
        nestedDropBlueprint.pipelines blocks := by
  obtain ⟨traces, registry, hrun⟩ := nested_statsRun twoFloats
  obtain ⟨_, _, _, width, blocks, hrender, -, -, -, hblocks⟩ := hrun.stats_draw_call_tree
  have hnodes : ¬∀ entry ∈ nestedDropBlueprint.pipelines, entry.2.metricNodes = [] :=
    fun hnil => nomatch hnil _ (List.mem_singleton_self _)
  rw [if_neg hnodes] at hrender
  exact ⟨traces, registry, _, width, blocks, hrender, hblocks⟩

end Nested

end Limpid.Ctl
