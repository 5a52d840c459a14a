import Limpid.Pipeline.Accounting
import Limpid.Pipeline.BodyTrace
import Limpid.Pipeline.SealedRun

/-!
# Process frame accounting

The counters of a pipeline after any events have run through it.  `WorkerRuns` is a run of one
worker, event by event, with what the rest of the program does between the events left open; its
trace is what the runs of the pipeline did (`PipelineWorker.traceOf`).

In the tables of a sealed blueprint a node is called from one place, and a process site calls a
root (`PipelineOk.rooted`), so the trace adds up; the worker then counts a run that ended with a
drop as dropped, except when a copy made before the drop was not taken: such a run is errored
(`overridden`).  `frames_accounted` is the account, and `drop_overridden` a run with such a copy.
-/

namespace Limpid.Pipeline

open Dsl Eval

variable {World : Type}

/-! ## Events through a worker -/

namespace PipelineWorker

variable (ctx : PipelineContext World) (worker : PipelineWorker) (event : OwnedEvent)
  (shared : Shared World)

/-- What the run of an event did. -/
def traceOf : List (TraceEntry World) :=
  match traceRun (worker.execCtx ctx event) ((shared.world, worker.processCounters), []) with
  | some (_, (_, trace)) => trace
  | none => []

/-- The run of an event ended with a drop. -/
def endsDropped : Bool :=
  match runPipelineBlueprintResolvedAt (worker.execCtx ctx event)
      (shared.world, worker.processCounters) with
  | some (.ok result, _) => result.termination = .dropped
  | _ => false

/-- The run of an event ended with a drop and is counted as errored, since a copy that it made was
not taken. -/
def overridden : Bool :=
  match runPipelineBlueprintResolvedAt (worker.execCtx ctx event)
      (shared.world, worker.processCounters) with
  | some (.ok result, _) =>
      result.termination = .dropped && !(enqueueOutputs ctx shared.sent result.outputs).2.isEmpty
  | _ => false

end PipelineWorker

/-- Events that run through a worker, with the trace and the number of overridden drops. -/
inductive WorkerRuns (ctx : PipelineContext World) :
    PipelineWorker → List (TraceEntry World) → ℕ → PipelineWorker → Prop where
  | done (worker : PipelineWorker) : WorkerRuns ctx worker [] 0 worker
  | event {worker next last : PipelineWorker} {shared after : Shared World}
      {trace : List (TraceEntry World)} {overridden : ℕ} (event : OwnedEvent)
      (first : processWorker ctx event worker shared = some (next, after))
      (rest : WorkerRuns ctx next trace overridden last) :
      WorkerRuns ctx worker (worker.traceOf ctx event shared ++ trace)
        ((worker.overridden ctx event shared).toNat + overridden) last

section Worker

variable {ctx : PipelineContext World} {worker next : PipelineWorker} {event : OwnedEvent}
  {shared after : Shared World}

/-- Only a result that ends with a drop is counted as dropped. -/
theorem settle_eventsDropped (pipelineName : String) (metrics : PipelineMetrics)
    (result : PipelineRunResult) :
    (settle pipelineName event metrics (.ok result)).1.eventsDropped =
      metrics.eventsDropped + (decide (result.termination = .dropped)).toNat := by
  unfold settle
  cases hend : result.termination with
  | dropped => simp [hend]
  | errored => simp [hend]
  | finished => cases hhad : result.hadOutputs <;> simp [hend, hhad]

/-- A drop is overridden by a copy that was not taken, and counted otherwise. -/
theorem enqueue_dropped (pipelineName : String) (result : PipelineRunResult) (sent : List Sent) :
    (decide ((enqueuePipelineOutputs ctx pipelineName result sent).1.termination =
        .dropped)).toNat +
      (decide (result.termination = .dropped) &&
        !(enqueueOutputs ctx sent result.outputs).2.isEmpty).toNat =
      (decide (result.termination = .dropped)).toNat := by
  unfold enqueuePipelineOutputs
  cases hfailed : (enqueueOutputs ctx sent result.outputs).2 with
  | nil => simp [hfailed]
  | cons copy rest => simp [hfailed]

/-- What the loop body does with the tables and the counters of the worker. -/
theorem processWorker_eq_some (h : processWorker ctx event worker shared = some (next, after)) :
    ∃ outcome machine, runPipelineBlueprintResolvedAt (worker.execCtx ctx event)
        (shared.world, worker.processCounters) = some (outcome, machine) ∧
      next.processBodies = worker.processBodies ∧ next.pipeline = worker.pipeline ∧
      next.processCounters = machine.2 ∧
      next.metrics.eventsDropped + (worker.overridden ctx event shared).toNat =
        worker.metrics.eventsDropped + (worker.endsDropped ctx event shared).toNat := by
  cases hrun : runPipelineBlueprintResolvedAt (worker.execCtx ctx event)
      (shared.world, worker.processCounters) with
  | none =>
      have hstarted : runPipelineBlueprintResolvedAt (worker.started.execCtx ctx event)
          (shared.world, worker.started.processCounters) = none := hrun
      simp [processWorker, runPipelineWithOutputsInner, hstarted] at h
  | some ran =>
      obtain ⟨outcome, world, counters⟩ := ran
      refine ⟨outcome, (world, counters), rfl, ?_⟩
      unfold PipelineWorker.overridden PipelineWorker.endsDropped
      rw [hrun]
      cases outcome with
      | error message =>
          obtain ⟨unwritable, more, hworker, -⟩ :=
            processWorker_settled (runInner_of_error hrun) rfl
          obtain ⟨rfl, -⟩ := Prod.mk.inj (Option.some.inj (h.symm.trans hworker))
          exact ⟨rfl, rfl, rfl, rfl⟩
      | ok result =>
          have hsettle := @settle_eventsDropped event worker.pipeline.name
            worker.started.metrics
            (enqueuePipelineOutputs ctx worker.pipeline.name result shared.sent).1
          have henqueue := @enqueue_dropped World ctx worker.pipeline.name result shared.sent
          obtain ⟨metrics, records, hmetrics⟩ : ∃ metrics records,
              settle worker.pipeline.name event worker.started.metrics
                (.ok (enqueuePipelineOutputs ctx worker.pipeline.name result shared.sent).1) =
              (metrics, records) := ⟨_, _, rfl⟩
          obtain ⟨unwritable, more, hworker, -⟩ :=
            processWorker_settled (runInner_of_ok hrun) hmetrics
          obtain ⟨rfl, -⟩ := Prod.mk.inj (Option.some.inj (h.symm.trans hworker))
          refine ⟨rfl, rfl, rfl, ?_⟩
          rw [hmetrics] at hsettle
          have hstarted : worker.started.metrics.eventsDropped = worker.metrics.eventsDropped := rfl
          dsimp only at hsettle ⊢
          omega

end Worker

/-! ## The tables of a sealed pipeline -/

namespace Blueprint

/-- The metric nodes at the top. -/
def PipelineBlueprint.roots (pipeline : PipelineBlueprint) : List MetricNodeId :=
  (List.range pipeline.metricNodes.length).filter fun id =>
    (pipeline.metricNodes[id]?).any fun node => node.parent.isNone

/-- The worker of a pipeline before the first event. -/
def PipelineBlueprint.worker (blueprint : UnsealedRuntimeBlueprint)
    (pipeline : PipelineBlueprint) : PipelineWorker where
  processBodies := blueprint.processBodies.map ProcessBodyCode.toProcessBodyCode
  pipeline := pipeline.bound
  metrics := ⟨0, 0, 0, 0, 0, 0, 0⟩
  processCounters := pipeline.metricNodes.map fun _ => .zero

section Tables

variable {blueprint : UnsealedRuntimeBlueprint} {pipeline : PipelineBlueprint}

theorem mem_roots {id : ℕ} : id ∈ pipeline.roots ↔
    ∃ node, pipeline.metricNodes[id]? = some node ∧ node.parent = none := by
  unfold PipelineBlueprint.roots
  rw [List.mem_filter, List.mem_range, Option.any_eq_true]
  constructor
  · rintro ⟨-, node, hnode, hparent⟩
    exact ⟨node, hnode, Option.isNone_iff_eq_none.mp hparent⟩
  · rintro ⟨node, hnode, hparent⟩
    exact ⟨(List.getElem?_eq_some_iff.mp hnode).1, node, hnode,
      Option.isNone_iff_eq_none.mpr hparent⟩

/-- A child knows its parent. -/
theorem PipelineOk.parent (h : PipelineOk blueprint pipeline) {parent : ℕ}
    {node : MetricNodeDescriptor} (hnode : pipeline.metricNodes[parent]? = some node)
    {child : ℕ} (hchild : child ∈ node.children) :
    ∃ other, pipeline.metricNodes[child]? = some other ∧ other.parent = some parent := by
  have hok := h.nodes parent node hnode
  cases htarget : node.target with
  | unknown =>
      rw [hok.unknown htarget] at hchild
      exact absurd hchild List.not_mem_nil
  | known id =>
      obtain ⟨body, -, hchildren⟩ := hok.known id htarget
      obtain ⟨i, hi, rfl⟩ := List.getElem_of_mem hchild
      obtain ⟨other, hother, hparent, -⟩ := hchildren.get hi (hchildren.length_eq ▸ hi)
      exact ⟨other, hother, hparent⟩

/-- The children of a node are different, as the names that its body calls are. -/
theorem PipelineOk.nodup (hsealed : Sealed blueprint) (h : PipelineOk blueprint pipeline)
    {parent : ℕ} {node : MetricNodeDescriptor}
    (hnode : pipeline.metricNodes[parent]? = some node) : node.children.Nodup := by
  have hok := h.nodes parent node hnode
  cases htarget : node.target with
  | unknown =>
      rw [hok.unknown htarget]
      exact List.nodup_nil
  | known id =>
      obtain ⟨body, hbody, hchildren⟩ := hok.known id htarget
      have hnames := (hsealed.bodies body (List.mem_of_getElem? hbody)).names
      have hmap : (node.children.map fun child =>
          (pipeline.metricNodes[child]?).map MetricNodeDescriptor.processName) =
            body.edges.map fun edge => some edge.name := by
        rw [← List.forall₂_eq_eq_eq, List.forall₂_map_left_iff, List.forall₂_map_right_iff]
        refine hchildren.imp fun child edge hchild => ?_
        obtain ⟨other, hother, -, -, hname, -⟩ := hchild
        rw [hother, Option.map_some, hname]
      have hsome := hnames.map (Option.some_injective String)
      rw [List.map_map] at hsome
      exact .of_map _ (hmap.symm ▸ hsome)

variable (rt : Runtime) (funcs : FunctionRegistry World)

theorem registry_getElem?_eq_some {id : ℕ} {descriptor : Pipeline.MetricNodeDescriptor}
    (h : (blueprint.registry rt funcs pipeline).metricNodes[id]? = some descriptor) :
    ∃ node, pipeline.metricNodes[id]? = some node ∧ node.toMetricNodeDescriptor = descriptor := by
  simpa [UnsealedRuntimeBlueprint.registry, PipelineBlueprint.bound] using h

/-- **In a sealed pipeline every node is called from one place.** -/
theorem PipelineOk.rooted (hsealed : Sealed blueprint) (h : PipelineOk blueprint pipeline) :
    (blueprint.registry rt funcs pipeline).Rooted pipeline.roots where
  forest := {
    bodies := fun body hbody edge hedge bodyId htarget hnone => by
      obtain ⟨full, hfull, rfl⟩ := List.mem_map.mp hbody
      have hrange := (hsealed.bodies full hfull).targets edge hedge bodyId htarget
      rw [UnsealedRuntimeBlueprint.registry, List.getElem?_map, Option.map_eq_none_iff,
        List.getElem?_eq_none_iff] at hnone
      exact absurd hrange (Nat.not_lt.mpr hnone)
    children := fun parent id descriptor other child hparent hother hchild => by
      obtain ⟨node, hnode, rfl⟩ := registry_getElem?_eq_some rt funcs hparent
      obtain ⟨node', hnode', rfl⟩ := registry_getElem?_eq_some rt funcs hother
      obtain ⟨found, hfound, hup⟩ := h.parent hnode hchild
      split
      · next heq =>
        obtain rfl := heq
        obtain rfl := Option.some.inj (hnode.symm.trans hnode')
        exact List.count_eq_one_of_mem (h.nodup hsealed hnode) hchild
      · next hne =>
        refine List.count_eq_zero.mpr fun hchild' => hne ?_
        obtain ⟨found', hfound', hup'⟩ := h.parent hnode' hchild'
        obtain rfl := Option.some.inj (hfound.symm.trans hfound')
        exact (Option.some.inj (hup.symm.trans hup')).symm }
  nodup := List.nodup_range.filter _
  apart := fun parent descriptor child hparent hchild hroot => by
    obtain ⟨node, hnode, rfl⟩ := registry_getElem?_eq_some rt funcs hparent
    obtain ⟨found, hfound, hup⟩ := h.parent hnode hchild
    obtain ⟨found', hfound', hnone⟩ := mem_roots.mp hroot
    obtain rfl := Option.some.inj (hfound.symm.trans hfound')
    cases hup.symm.trans hnone

/-- The process sites of a sealed pipeline call roots. -/
theorem PipelineOk.siteFits (h : PipelineOk blueprint pipeline) {site : ProcessSite}
    (hsite : site ∈ codeSites pipeline.code) :
    (blueprint.registry rt funcs pipeline).SiteFits pipeline.roots site := by
  obtain ⟨node, hnode, hparent, htarget, -⟩ := h.roots site hsite
  refine ⟨mem_roots.mpr ⟨node, hnode, hparent⟩, ?_⟩
  obtain ⟨body, hbody, -⟩ := (h.nodes _ node hnode).known site.body htarget
  rw [UnsealedRuntimeBlueprint.registry, List.getElem?_map, hbody]
  exact Option.some_ne_none _

end Tables

end Blueprint

/-! ## The account -/

/-- How many frames of a node have been counted as dropped. -/
def droppedAt (counters : List ProcessCounters) (node : MetricNodeId) : ℕ :=
  (counters[node]?.map ProcessCounters.dropped).getD 0

section Account

variable {ctx : PipelineContext World} {worker last : PipelineWorker}
  {trace : List (TraceEntry World)} {overridden : ℕ} {registry : IrProcessRegistry World}
  {roots : List MetricNodeId}

/-- What a worker has counted after some events. -/
structure Accounts (registry : IrProcessRegistry World) (roots : List MetricNodeId)
    (worker last : PipelineWorker) (trace : List (TraceEntry World)) (overridden : ℕ) : Prop where
  tallies : Tallies worker.processCounters last.processCounters trace
  balanced : Balanced registry trace fun _ => 0
  dropped : last.metrics.eventsDropped + overridden =
    worker.metrics.eventsDropped + bodyDrops trace + childDrops trace roots

/-- **What one event adds.** -/
theorem accounts_event {event : OwnedEvent} {shared after : Shared World} {next : PipelineWorker}
    (hroots : (worker.execCtx ctx event).registry.Rooted roots)
    (hsites : (worker.execCtx ctx event).SitesFit roots
      (Blueprint.codeSites worker.pipeline.code))
    (h : processWorker ctx event worker shared = some (next, after)) :
    Accounts (worker.execCtx ctx event).registry roots worker next
      (worker.traceOf ctx event shared) (worker.overridden ctx event shared).toNat := by
  obtain ⟨outcome, machine, hrun, -, -, hcounters, hdropped⟩ := processWorker_eq_some h
  have hforget := traceRun_forgets (worker.execCtx ctx event)
    ((shared.world, worker.processCounters), [])
  rw [show Prod.fst ((shared.world, worker.processCounters), []) =
    (shared.world, worker.processCounters) from rfl, hrun] at hforget
  obtain ⟨⟨outcome', machine', trace⟩, htrace, heq⟩ := Option.map_eq_some_iff.mp hforget
  obtain ⟨rfl, rfl⟩ := Prod.mk.inj heq
  obtain ⟨added, dropped, hadded, hsettles, hiff⟩ :=
    IrPipelineExecCtx.traceRun_settles hroots hsites htrace
  have htraceOf : worker.traceOf ctx event shared = added := by
    unfold PipelineWorker.traceOf
    rw [htrace]
    exact hadded
  have hends : worker.endsDropped ctx event shared = dropped := by
    rw [Bool.eq_iff_iff, hiff]
    unfold PipelineWorker.endsDropped
    rw [hrun]
    cases outcome' with
    | error message => simp
    | ok result => simp
  rw [htraceOf]
  refine ⟨hcounters ▸ hsettles.tallies, hsettles.balanced, ?_⟩
  have hbody := hsettles.body
  rw [hdropped, hends]
  omega

/-- **What any events add.** -/
theorem accounts_run {blueprint : Blueprint.UnsealedRuntimeBlueprint}
    {pipeline : Blueprint.PipelineBlueprint} (hsealed : Blueprint.Sealed blueprint)
    (hok : Blueprint.PipelineOk blueprint pipeline)
    (hbodies : worker.processBodies =
      blueprint.processBodies.map Blueprint.ProcessBodyCode.toProcessBodyCode)
    (hpipeline : worker.pipeline = pipeline.bound)
    (h : WorkerRuns ctx worker trace overridden last) :
    Accounts (blueprint.registry ctx.rt ctx.funcs pipeline) pipeline.roots worker last trace
      overridden := by
  induction h with
  | done worker =>
      refine ⟨.nil, .nil, ?_⟩
      rw [childDrops_eq_zero fun _ h => absurd h List.not_mem_nil]
      rfl
  | @event worker next last shared after trace overridden event first rest ih =>
      have hregistry : (worker.execCtx ctx event).registry =
          blueprint.registry ctx.rt ctx.funcs pipeline := by
        unfold PipelineWorker.execCtx Blueprint.UnsealedRuntimeBlueprint.registry
        rw [hbodies, hpipeline]
      obtain ⟨_, _, -, hbodies', hpipeline', -, -⟩ := processWorker_eq_some first
      have hone := @accounts_event _ _ _ pipeline.roots _ _ _ _
        (hregistry ▸ hok.rooted ctx.rt ctx.funcs hsealed)
        (fun site hsite => hregistry ▸ hok.siteFits ctx.rt ctx.funcs (by rwa [hpipeline] at hsite))
        first
      rw [hregistry] at hone
      have hmore := ih (hbodies'.trans hbodies) (hpipeline'.trans hpipeline)
      refine ⟨hone.tallies.append hmore.tallies, (hone.balanced.append hmore.balanced).congr
        fun _ => rfl, ?_⟩
      have hfirst := hone.dropped
      have hrest := hmore.dropped
      rw [bodyDrops_append, childDrops_append]
      omega

/-- The counters of a new worker. -/
theorem worker_counters {blueprint : Blueprint.UnsealedRuntimeBlueprint}
    {pipeline : Blueprint.PipelineBlueprint} {id : ℕ} {node : Blueprint.MetricNodeDescriptor}
    (hnode : pipeline.metricNodes[id]? = some node) :
    (pipeline.worker blueprint).processCounters[id]? = some .zero := by
  change (pipeline.metricNodes.map fun _ => ProcessCounters.zero)[id]? = _
  rw [List.getElem?_map, hnode, Option.map_some]

section Sealed

variable {unsealed blueprint : Blueprint.UnsealedRuntimeBlueprint}
  {pipeline : Blueprint.PipelineBlueprint}

/-- The counters of the nodes count what the trace says. -/
theorem counters_counted (hseal : unsealed.sealBlueprint = .ok blueprint)
    (hmem : pipeline ∈ blueprint.pipelines.map Prod.snd)
    (hrun : WorkerRuns ctx (pipeline.worker blueprint) trace overridden last) {id : ℕ}
    {node : Blueprint.MetricNodeDescriptor} (hnode : pipeline.metricNodes[id]? = some node) :
    last.processCounters[id]? = some (ProcessCounters.zero.counted id trace) := by
  obtain ⟨rfl, hsealed⟩ := Blueprint.sealed_of_ok hseal
  have haccounts := accounts_run hsealed (hsealed.pipelines pipeline hmem) rfl rfl hrun
  rw [haccounts.tallies id, worker_counters hnode, Option.map_some]

theorem droppedAt_eq (hseal : unsealed.sealBlueprint = .ok blueprint)
    (hmem : pipeline ∈ blueprint.pipelines.map Prod.snd)
    (hrun : WorkerRuns ctx (pipeline.worker blueprint) trace overridden last) {id : ℕ}
    {node : Blueprint.MetricNodeDescriptor} (hnode : pipeline.metricNodes[id]? = some node) :
    droppedAt last.processCounters id = framesDropped id trace := by
  rw [droppedAt, counters_counted hseal hmem hrun hnode]
  exact Nat.zero_add _

/-- The drops of a node are its own and those of its children. -/
theorem droppedAt_balanced (hseal : unsealed.sealBlueprint = .ok blueprint)
    (hmem : pipeline ∈ blueprint.pipelines.map Prod.snd)
    (hrun : WorkerRuns ctx (pipeline.worker blueprint) trace overridden last) {id : ℕ}
    {node : Blueprint.MetricNodeDescriptor} (hnode : pipeline.metricNodes[id]? = some node) :
    droppedAt last.processCounters id = ownDrops id trace +
      (node.children.map (droppedAt last.processCounters)).sum := by
  rw [droppedAt_eq hseal hmem hrun hnode]
  obtain ⟨rfl, hsealed⟩ := Blueprint.sealed_of_ok hseal
  have hok := hsealed.pipelines pipeline hmem
  have haccounts := accounts_run hsealed hok rfl rfl hrun
  have hbalanced := haccounts.balanced id node.toMetricNodeDescriptor (by
    simp [Blueprint.UnsealedRuntimeBlueprint.registry, Blueprint.PipelineBlueprint.bound, hnode])
  have hchildren : node.children.map (droppedAt last.processCounters) =
      node.children.map fun child => framesDropped child trace :=
    List.map_congr_left fun child hchild => by
      obtain ⟨other, hother, -⟩ := hok.parent hnode hchild
      exact droppedAt_eq hseal hmem hrun hother
  rw [hchildren]
  exact hbalanced.symm

/-- The drops that a pipeline counts, with the overridden ones, are those of its body and of its
roots. -/
theorem eventsDropped_balanced (hseal : unsealed.sealBlueprint = .ok blueprint)
    (hmem : pipeline ∈ blueprint.pipelines.map Prod.snd)
    (hrun : WorkerRuns ctx (pipeline.worker blueprint) trace overridden last) :
    last.metrics.eventsDropped + overridden =
      bodyDrops trace + (pipeline.roots.map (droppedAt last.processCounters)).sum := by
  obtain ⟨rfl, hsealed⟩ := Blueprint.sealed_of_ok hseal
  have haccounts := accounts_run hsealed (hsealed.pipelines pipeline hmem) rfl rfl hrun
  have hroots : pipeline.roots.map (droppedAt last.processCounters) =
      pipeline.roots.map fun root => framesDropped root trace :=
    List.map_congr_left fun root hroot => by
      obtain ⟨node, hnode, -⟩ := Blueprint.mem_roots.mp hroot
      exact droppedAt_eq hseal hmem hrun hnode
  rw [hroots, haccounts.dropped]
  exact congrArg (· + _) (Nat.zero_add _)

end Sealed

/-- **Process frame accounting.**  After any events have run through a sealed pipeline, the
counters of a node count how its frames ended, so what came in is what went out, was dropped or
failed; the drops of a node are those executed in its own frames and those of its children; and
the drops that the pipeline counts, with those it counts as errored because a copy made before was
not taken, are those executed in its body and those of its roots. -/
theorem frames_accounted {unsealed blueprint : Blueprint.UnsealedRuntimeBlueprint}
    {pipeline : Blueprint.PipelineBlueprint} (hseal : unsealed.sealBlueprint = .ok blueprint)
    (hmem : pipeline ∈ blueprint.pipelines.map Prod.snd)
    (hrun : WorkerRuns ctx (pipeline.worker blueprint) trace overridden last) :
    (∀ (id : ℕ) node, pipeline.metricNodes[id]? = some node →
      ∃ counters, last.processCounters[id]? = some counters ∧
        counters = ProcessCounters.zero.counted id trace ∧
        counters.incoming = counters.outgoing + counters.dropped + counters.errored ∧
        counters.dropped = ownDrops id trace +
          (node.children.map (droppedAt last.processCounters)).sum) ∧
    last.metrics.eventsDropped + overridden =
      bodyDrops trace + (pipeline.roots.map (droppedAt last.processCounters)).sum := by
  refine ⟨fun id node hnode => ⟨_, counters_counted hseal hmem hrun hnode, rfl, ?_, ?_⟩,
    eventsDropped_balanced hseal hmem hrun⟩
  · have htotal := ProcessCounters.framesLeft_total id trace
    simp only [ProcessCounters.counted, ProcessCounters.zero, Nat.zero_add]
    exact htotal
  · have hbalanced := droppedAt_balanced hseal hmem hrun hnode
    rw [droppedAt, counters_counted hseal hmem hrun hnode] at hbalanced
    exact hbalanced

end Account

/-! ### Two pipelines -/

/-- `def process mask { try { process drop_all } catch { } }` with
`def process drop_all { drop }`, and `process mask` as the pipeline. -/
def nestedDrop : Blueprint.PipelineBlueprint :=
  ⟨"main", [.processChain [⟨"mask", .named, 1, 0⟩]], ⟨[], ["mask"], []⟩, [],
    [⟨⟨.known 1, [1]⟩, none, 1, "/mask", "mask"⟩,
      ⟨⟨.known 0, []⟩, some 0, 2, "/mask/drop_all", "drop_all"⟩], []⟩

/-- A pipeline whose process calls one that drops. -/
def nestedDropBlueprint : Blueprint.UnsealedRuntimeBlueprint :=
  ⟨[⟨⟨[.drop], []⟩, "drop_all"⟩,
      ⟨⟨[.tryCatch [.call "drop_all" 0] []], [⟨"drop_all", .known 0⟩]⟩, "mask"⟩],
    [("drop_all", 0), ("mask", 1)], [("main", nestedDrop)], [("main", 0)], ["main"]⟩

/-- `output archive` and `drop`. -/
def outputThenDrop : Blueprint.PipelineBlueprint :=
  ⟨"main", [.output "archive" 0, .drop], ⟨[], [], ["archive"]⟩, [], [], ["archive"]⟩

/-- A pipeline that outputs and drops. -/
def outputThenDropBlueprint : Blueprint.UnsealedRuntimeBlueprint :=
  ⟨[], [], [("main", outputThenDrop)], [("main", 0)], ["main"]⟩

/-- No function, and one output, whose queue is closed. -/
def archiveClosed (rt : Runtime) : PipelineContext Unit :=
  ⟨rt, ⟨fun _ => none, fun _ => false, fun _ => none, fun _ => none⟩, ["archive"],
    fun _ _ => false, [], none, 2⟩

/-- The checks leave a blueprint as it is. -/
theorem seal_eq_self {blueprint : Blueprint.UnsealedRuntimeBlueprint}
    (h : blueprint.sealBlueprint.toOption.isSome = true) :
    blueprint.sealBlueprint = .ok blueprint := by
  cases hseal : blueprint.sealBlueprint with
  | error message =>
      rw [hseal] at h
      exact nomatch h
  | ok result => rw [(Blueprint.sealed_of_ok hseal).1]

/-- An event. -/
def someEvent : OwnedEvent := ⟨7, 0, .v4 .localhost 514, [], [], [], none⟩

/-- No metrics and no records. -/
def noneShared : Shared Unit := ⟨(), [], []⟩

/-- The drop of `drop_all` is counted at both nodes, and is in the frames of the second. -/
theorem frames_accounted_nested :
    nestedDropBlueprint.sealBlueprint = .ok nestedDropBlueprint ∧
    ∀ rt, ∃ last trace overridden,
      WorkerRuns (archiveClosed rt) (nestedDrop.worker nestedDropBlueprint) trace overridden last ∧
      last.processCounters = [⟨1, 0, 1, 0⟩, ⟨1, 0, 1, 0⟩] ∧
      (∃ counters, last.processCounters[0]? = some counters ∧ counters.dropped =
        ownDrops 0 trace + ([1].map (droppedAt last.processCounters)).sum) ∧
      last.metrics.eventsDropped + overridden =
        bodyDrops trace + (nestedDrop.roots.map (droppedAt last.processCounters)).sum := by
  have hseal : nestedDropBlueprint.sealBlueprint = .ok nestedDropBlueprint :=
    seal_eq_self (by decide +kernel)
  refine ⟨hseal, fun rt => ?_⟩
  have hfirst : processWorker (archiveClosed rt) someEvent (nestedDrop.worker nestedDropBlueprint)
      noneShared = some (_, _) := rfl
  have hrun := WorkerRuns.event someEvent hfirst (.done _)
  obtain ⟨hnodes, hdropped⟩ := frames_accounted hseal List.mem_cons_self hrun
  refine ⟨_, _, _, hrun, rfl, ?_, hdropped⟩
  obtain ⟨counters, hcounters, -, -, hbalanced⟩ := hnodes 0 _ rfl
  exact ⟨counters, hcounters, hbalanced⟩

/-- The run drops the event in its body and counts it as errored: the copy was not taken. -/
theorem drop_overridden :
    outputThenDropBlueprint.sealBlueprint = .ok outputThenDropBlueprint ∧
    outputThenDrop ∈ outputThenDropBlueprint.pipelines.map Prod.snd ∧
    ∀ rt, ∃ last trace overridden,
      WorkerRuns (archiveClosed rt) (outputThenDrop.worker outputThenDropBlueprint) trace overridden
        last ∧
      bodyDrops trace = 1 ∧ outputThenDrop.roots = [] ∧ last.metrics.eventsDropped = 0 := by
  refine ⟨rfl, List.mem_cons_self, fun rt => ?_⟩
  have hfirst : processWorker (archiveClosed rt) someEvent
      (outputThenDrop.worker outputThenDropBlueprint) noneShared = some (_, _) := rfl
  exact ⟨_, _, _, .event someEvent hfirst (.done _), rfl, rfl, rfl⟩

end Limpid.Pipeline
