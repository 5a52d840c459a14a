import Limpid.Pipeline.CallGraph

/-!
# What the compiler makes of a configuration

The tables of a compiled blueprint (`CompiledBlueprint`): the processes numbered in the order of
their names with a body each, and for each pipeline the sites and outputs of its definition, with
its metric nodes one segment whose tops are the nodes of the sites.

A configuration compiles (`compile_ok`) when its branches hold statements of their own kind, the
processes its pipelines name are defined, the tables have room and the named processes do not call
each other in a cycle.  The number of metric nodes of a pipeline is that of the paths of calls
that start at its sites; without a cycle none of them is longer than the list of processes.
-/

namespace Limpid.Pipeline.Blueprint

open Dsl Relation

/-! ## Numbers of names -/

theorem numberFrom_eq {message : String} {names : List String} {index : ℕ}
    {numbered : List (String × ℕ)} (h : numberFrom message index names = .ok numbered) :
    numbered = names.zipIdx index ∧ (names = [] ∨ index + names.length ≤ UInt32.size) := by
  induction names generalizing index numbered with
  | nil =>
      obtain rfl := Except.ok.inj h
      exact ⟨rfl, Or.inl rfl⟩
  | cons name rest ih =>
      obtain ⟨id, hid, h⟩ := Except.exists_of_bind_eq_ok h
      obtain ⟨others, hothers, h⟩ := Except.exists_of_bind_eq_ok h
      obtain rfl := Except.ok.inj h
      obtain ⟨hlt, rfl⟩ := fromIndex_eq_ok_iff.mp hid
      obtain ⟨rfl, hrest⟩ := ih hothers
      refine ⟨rfl, Or.inr ?_⟩
      rcases hrest with rfl | hrest
      · exact hlt
      · rw [List.length_cons]
        omega

theorem numberFrom_ok {names : List String} {index : ℕ}
    (h : index + names.length ≤ UInt32.size) (message : String) :
    numberFrom message index names = .ok (names.zipIdx index) := by
  induction names generalizing index with
  | nil => rfl
  | cons name rest ih =>
      rw [List.length_cons] at h
      rw [numberFrom, fromIndex_eq_ok_iff.mpr ⟨by omega, rfl⟩]
      change (numberFrom message (index + 1) rest >>= _) = _
      rw [ih (by omega)]
      rfl

/-! ## Named processes -/

section Named

variable {config : CompiledConfig} {processNames : List (String × ProcessBodyId)}

/-- The bodies that are added stand under the numbers of their names. -/
theorem compileNamedProcesses_spec {entries : List (String × ProcessBodyId)}
    {bodies result : List ProcessBodyCode}
    (h : compileNamedProcesses processNames config entries bodies = .ok result) :
    bodies <+: result ∧ result.length = bodies.length + entries.length ∧
      (bodies.length ≤ UInt32.size → result.length ≤ UInt32.size) ∧
      (∀ name id, (name, id) ∈ entries → ∃ processDef body,
        config.processes.lookup name = some processDef ∧ result[id]? = some body ∧
          body.name = name ∧ CompiledFrom processNames processDef.body body) ∧
      ∀ body ∈ result, body ∈ bodies ∨ ∃ statements, CompiledFrom processNames statements body := by
  induction entries generalizing bodies with
  | nil =>
      obtain rfl := Except.ok.inj h
      exact ⟨List.prefix_rfl, rfl, id, fun _ _ hmem => absurd hmem List.not_mem_nil,
        fun _ hbody => Or.inl hbody⟩
  | cons entry rest ih =>
      obtain ⟨name, expected⟩ := entry
      rw [compileNamedProcesses] at h
      split at h
      · exact nomatch h
      · next processDef hdef =>
        obtain ⟨body, hbody, h⟩ := Except.exists_of_bind_eq_ok h
        obtain ⟨actual, hactual, hrest⟩ := Except.exists_of_bind_eq_ok h
        split at hrest
        · exact nomatch hrest
        · next hsame =>
          obtain ⟨hlt, rfl⟩ := fromIndex_eq_ok_iff.mp hactual
          obtain rfl : bodies.length = expected := not_not.mp hsame
          obtain ⟨hname, hfrom⟩ := compileProcessBody_spec hbody
          obtain ⟨hbodies, hlength, hroom, hnamed, hcompiled⟩ := ih hrest
          refine ⟨(List.prefix_append _ _).trans hbodies, ?_, fun _ => ?_, ?_, ?_⟩
          · rw [hlength, List.length_append]
            simp only [List.length_cons, List.length_nil]
            omega
          · rw [List.length_append] at hroom
            exact hroom hlt
          · intro other id hmem
            rcases List.mem_cons.mp hmem with heq | hmem
            · obtain ⟨rfl, rfl⟩ := Prod.mk.inj heq
              exact ⟨processDef, body, hdef,
                getElem?_of_isPrefix hbodies List.getElem?_concat_length, hname, hfrom⟩
            · exact hnamed other id hmem
          · intro other hother
            rcases hcompiled other hother with hmem | hnew
            · rcases List.mem_append.mp hmem with hmem | hmem
              · exact Or.inl hmem
              · exact Or.inr ⟨processDef.body, List.mem_singleton.mp hmem ▸ hfrom⟩
            · exact Or.inr hnew

/-- The bodies of processes with room for their edges compile. -/
theorem compileNamedProcesses_ok {names : List String} {bodies : List ProcessBodyCode}
    (hdefined : ∀ name ∈ names, ∃ processDef, config.processes.lookup name = some processDef ∧
      ProcessStatement.ownKind processDef.body = true ∧
        (ProcessStatement.calls processDef.body).dedup.length ≤ UInt32.size)
    (hroom : bodies.length + names.length ≤ UInt32.size) :
    ∃ result,
      compileNamedProcesses processNames config (names.zipIdx bodies.length) bodies =
        .ok result := by
  induction names generalizing bodies with
  | nil => exact ⟨bodies, rfl⟩
  | cons name rest ih =>
      obtain ⟨processDef, hdef, hkind, hedges⟩ := hdefined name List.mem_cons_self
      obtain ⟨body, hbody⟩ := @compileProcessBody_ok processNames _ hkind hedges name
      rw [List.length_cons] at hroom
      obtain ⟨result, hresult⟩ := @ih (bodies ++ [body])
        (fun other hother => hdefined other (List.mem_cons_of_mem _ hother))
        (by rw [List.length_append, List.length_singleton]; omega)
      refine ⟨result, ?_⟩
      rw [List.zipIdx_cons, compileNamedProcesses]
      simp only
        [hdef, hbody, fromIndex_eq_ok_iff.mpr ⟨show bodies.length < UInt32.size by omega, rfl⟩]
      change (if bodies.length ≠ bodies.length then _ else _) = _
      rw [if_neg (not_not.mpr rfl)]
      rw [List.length_append, List.length_singleton] at hresult
      exact hresult

end Named

/-! ## Pipelines -/

/-- A compiled pipeline: the sites and the outputs of its definition, with their nodes and
timers. -/
structure CompiledPipeline (processNames : List (String × ProcessBodyId))
    (bodies : List ProcessBodyCode) (definition : PipelineDef) (pipeline : PipelineBlueprint) :
    Prop where
  sites : List.Forall₂ (SiteOf processNames bodies) (PipelineStatement.elements definition.body)
    (codeSites pipeline.code)
  roots : ∀ site ∈ codeSites pipeline.code, IsRoot pipeline.metricNodes site
  nodes : Segment bodies pipeline.metricNodes 0 pipeline.metricNodes.length
    ((codeSites pipeline.code).map ProcessSite.metricNode)
  count : pipeline.metricNodes.length + 1 < UInt32.size
  timers : ∀ output ∈ codeOutputs pipeline.code,
    pipeline.outputTimers[output.2]? = some output.1
  subscription : pipeline.subscriptionInputs = subscriptionInputs pipeline.code

theorem CompiledPipeline.mono {processNames : List (String × ProcessBodyId)}
    {bodies more : List ProcessBodyCode} {definition : PipelineDef} {pipeline : PipelineBlueprint}
    (hbodies : bodies <+: more) (h : CompiledPipeline processNames bodies definition pipeline) :
    CompiledPipeline processNames more definition pipeline where
  sites := h.sites.imp fun _ _ => SiteOf.mono hbodies
  roots := h.roots
  nodes := h.nodes.mono hbodies
  count := h.count
  timers := h.timers
  subscription := h.subscription

/-- What the bodies become when a part of the configuration is compiled. -/
structure BodiesGrow (processNames : List (String × ProcessBodyId))
    (bodies next : List ProcessBodyCode) : Prop where
  grows : bodies <+: next
  room : bodies.length ≤ UInt32.size → next.length ≤ UInt32.size
  compiled : ∀ body ∈ next, body ∈ bodies ∨ ∃ statements, CompiledFrom processNames statements body

theorem BodiesGrow.refl (processNames : List (String × ProcessBodyId))
    (bodies : List ProcessBodyCode) : BodiesGrow processNames bodies bodies where
  grows := List.prefix_rfl
  room := id
  compiled _ hbody := Or.inl hbody

theorem BodiesGrow.trans {processNames : List (String × ProcessBodyId)}
    {bodies next last : List ProcessBodyCode} (h : BodiesGrow processNames bodies next)
    (hnext : BodiesGrow processNames next last) : BodiesGrow processNames bodies last where
  grows := h.grows.trans hnext.grows
  room hroom := hnext.room (h.room hroom)
  compiled body hbody := by
    rcases hnext.compiled body hbody with hbefore | hnew
    · exact h.compiled body hbefore
    · exact Or.inr hnew

section Pipelines

variable {processNames : List (String × ProcessBodyId)}

/-- A site with its node is the site of the same element. -/
theorem SiteOf.attached {bodies : List ProcessBodyCode} {nodes : List MetricNodeDescriptor}
    {element : ProcessChainElement} {site attached : ProcessSite}
    (h : SiteOf processNames bodies element site) (hattached : AttachedTo nodes site attached) :
    SiteOf processNames bodies element attached := by
  obtain ⟨name, kind, body, node⟩ := attached
  obtain ⟨hname, hkind, hbody, -⟩ := hattached
  cases h with
  | named hlookup =>
      obtain rfl : name = _ := hname
      obtain rfl : kind = _ := hkind
      obtain rfl : body = _ := hbody
      exact .named hlookup
  | inline hcode hfrom hid =>
      obtain rfl : name = _ := hname
      obtain rfl : kind = _ := hkind
      obtain rfl : body = _ := hbody
      exact .inline hcode hfrom hid

theorem compilePipeline_spec {definition : PipelineDef} {bodies : List ProcessBodyCode}
    {result : PipelineBlueprint × List ProcessBodyCode}
    (hbodies : processNames.length ≤ bodies.length)
    (h : compilePipeline processNames definition bodies = .ok result) :
    BodiesGrow processNames bodies result.2 ∧
      result.2.length =
        bodies.length + (PipelineStatement.elements definition.body).countP isInline ∧
      CompiledPipeline processNames result.2 definition result.1 := by
  unfold compilePipeline at h
  obtain ⟨⟨code, tables⟩, hcode, h⟩ := Except.exists_of_bind_eq_ok h
  obtain ⟨⟨attached, metrics⟩, hattached, h⟩ := Except.exists_of_bind_eq_ok h
  obtain rfl := Except.ok.inj h
  have hgrows := compilePipelineStatements_grows definition.body hbodies hcode
  have hstart : (⟨[], 1⟩ : MetricTable).Counts := ⟨rfl, by decide⟩
  obtain ⟨hattaches, houtputs⟩ := attachPipelineMetricNodes_attaches code hstart hattached
  refine ⟨⟨hgrows.bodies, hgrows.room, hgrows.compiled⟩, hgrows.length, ?_⟩
  have hroots : ∀ site ∈ codeSites attached, IsRoot metrics.nodes site := by
    have hboth := hattaches.sites.flip.imp (S := fun attached site =>
      IsRoot metrics.nodes attached ∧ AttachedTo metrics.nodes site attached)
        fun _ _ hsite => ⟨hsite.root, hsite⟩
    exact ((List.forall₂_and_left _ _).mp hboth).1
  exact {
    sites := by
      have hsites := hgrows.sites
      have hnodes := hattaches.sites
      change List.Forall₂ _ _ (codeSites attached)
      generalize codeSites attached = others at hnodes ⊢
      generalize codeSites code = sites at hsites hnodes
      generalize PipelineStatement.elements definition.body = elements at hsites
      -- element, site and attached site, one after another
      induction hsites generalizing others with
      | nil =>
          cases hnodes
          exact .nil
      | cons hsite _ ih =>
          cases hnodes with
          | cons hnode hrest => exact .cons (hsite.attached hnode) (ih _ hrest)
    roots := hroots
    nodes := hattaches.grows.segment
    count := by
      have hcounts := hattaches.counts
      rw [← hcounts.1]
      exact hcounts.2
    timers := fun output houtput => by
      have houtput : output ∈ codeOutputs code := houtputs ▸ houtput
      have hslot := hgrows.outputs.slots output houtput
      have hentries : tables.outputs.entries = tables.outputs.names := by
        rw [tables.outputs.entries_eq, List.map_id]
        rfl
      change tables.outputs.entries[output.2]? = _
      rw [hentries]
      exact hslot
    subscription := rfl }

/-- What the loop over the pipelines yields. -/
theorem compilePipelines_spec {config : CompiledConfig} {names : List String}
    {bodies : List ProcessBodyCode}
    {result : List (String × PipelineBlueprint) × List ProcessBodyCode}
    (hbodies : processNames.length ≤ bodies.length)
    (h : mapInOrder (compileConfigPipeline config processNames) names bodies = .ok result) :
    BodiesGrow processNames bodies result.2 ∧ Entries.keys result.1 = names ∧
      ∀ name pipeline, (name, pipeline) ∈ result.1 → ∃ definition,
        config.pipelines.lookup name = some definition ∧
          CompiledPipeline processNames result.2 definition pipeline := by
  induction names generalizing bodies result with
  | nil =>
      obtain rfl := Except.ok.inj h
      exact ⟨.refl processNames bodies, rfl, fun _ _ hmem => absurd hmem List.not_mem_nil⟩
  | cons name rest ih =>
      obtain ⟨entry, next, hentry, h⟩ := exists_of_bind_eq_ok h
      obtain ⟨entries, last, hentries, h⟩ := exists_of_bind_eq_ok h
      obtain rfl := Except.ok.inj h
      unfold compileConfigPipeline at hentry
      cases hdefinition : config.pipelines.lookup name with
      | none =>
        rw [hdefinition] at hentry
        exact nomatch hentry
      | some definition =>
        rw [hdefinition] at hentry
        obtain ⟨pipeline, after, hpipeline, hentry⟩ := exists_of_bind_eq_ok hentry
        obtain ⟨rfl, rfl⟩ := Prod.mk.inj (Except.ok.inj hentry)
        obtain ⟨hgrow, hlength, hcompiled⟩ := compilePipeline_spec hbodies hpipeline
        have hnext : processNames.length ≤ after.length :=
          Nat.le_trans hbodies hgrow.grows.length_le
        obtain ⟨hrest, hkeys, hpipelines⟩ := ih hnext hentries
        refine ⟨hgrow.trans hrest, congrArg (name :: ·) hkeys, fun other blueprint hmem => ?_⟩
        rcases List.mem_cons.mp hmem with heq | hmem
        · obtain ⟨rfl, rfl⟩ := Prod.mk.inj heq
          exact ⟨definition, hdefinition, hcompiled.mono hrest.grows⟩
        · exact hpipelines other blueprint hmem

end Pipelines

/-- A compiled blueprint. -/
structure CompiledBlueprint (config : CompiledConfig) (blueprint : UnsealedRuntimeBlueprint) :
    Prop where
  bodies : NamedBodies config blueprint.processNames blueprint.processBodies
  limit : blueprint.processBodies.length ≤ UInt32.size
  order : blueprint.pipelineOrder = sortedKeys config.pipelines
  keys : Entries.keys blueprint.pipelines = blueprint.pipelineOrder
  ids : blueprint.pipelineIds = blueprint.pipelineOrder.zipIdx
  idLimit : blueprint.pipelineOrder.length ≤ UInt32.size
  pipelines : ∀ name pipeline, (name, pipeline) ∈ blueprint.pipelines → ∃ definition,
    config.pipelines.lookup name = some definition ∧
      CompiledPipeline blueprint.processNames blueprint.processBodies definition pipeline

theorem NamedBodies.mono {config : CompiledConfig} {processNames : List (String × ProcessBodyId)}
    {bodies next : List ProcessBodyCode} (h : NamedBodies config processNames bodies)
    (hgrow : BodiesGrow processNames bodies next) : NamedBodies config processNames next where
  numbered := h.numbered
  named name id hid := by
    obtain ⟨processDef, body, hdef, hbody, hfacts⟩ := h.named name id hid
    exact ⟨processDef, body, hdef, getElem?_of_isPrefix hgrow.grows hbody, hfacts⟩
  compiled body hbody := by
    rcases hgrow.compiled body hbody with hbefore | hnew
    · exact h.compiled body hbefore
    · exact hnew

theorem namedBodies_of_compile {config : CompiledConfig}
    {processNames : List (String × ProcessBodyId)} {named : List ProcessBodyCode}
    (hnumbered : processNames = (sortedKeys config.processes).zipIdx)
    (h : compileNamedProcesses processNames config processNames [] = .ok named) :
    NamedBodies config processNames named ∧ named.length = processNames.length ∧
      named.length ≤ UInt32.size := by
  obtain ⟨-, hlength, hroom, hbodies, hcompiled⟩ := compileNamedProcesses_spec h
  rw [List.length_nil, Nat.zero_add] at hlength
  refine ⟨⟨hnumbered, fun name id hid => hbodies name id ?_, fun body hbody => ?_⟩, hlength,
    hroom (Nat.zero_le _)⟩
  · rw [hnumbered] at hid ⊢
    rw [lookup_zipIdx ((sortedKeys_perm _).nodup_iff.mpr config.nodup_processes)] at hid
    exact List.mk_mem_zipIdx_iff_getElem?.mpr hid
  · rcases hcompiled body hbody with hnone | hnew
    · exact absurd hnone List.not_mem_nil
    · exact hnew

/-- **What compilation yields.** -/
theorem compile_spec {config : CompiledConfig} {blueprint : UnsealedRuntimeBlueprint}
    (h : UnsealedRuntimeBlueprint.compile config = .ok blueprint) :
    CompiledBlueprint config blueprint := by
  unfold UnsealedRuntimeBlueprint.compile at h
  obtain ⟨processNames, hnames, h⟩ := Except.exists_of_bind_eq_ok h
  obtain ⟨named, hnamed, h⟩ := Except.exists_of_bind_eq_ok h
  obtain ⟨⟨pipelines, bodies⟩, hpipelines, h⟩ := Except.exists_of_bind_eq_ok h
  obtain ⟨ids, hids, h⟩ := Except.exists_of_bind_eq_ok h
  obtain rfl := Except.ok.inj h
  obtain ⟨hbodies, hlength, hlimit⟩ := namedBodies_of_compile (numberFrom_eq hnames).1 hnamed
  obtain ⟨hgrow, hkeys, hall⟩ := compilePipelines_spec (Nat.le_of_eq hlength.symm) hpipelines
  obtain ⟨hidsEq, hidsLimit⟩ := numberFrom_eq hids
  exact {
    bodies := hbodies.mono hgrow
    limit := hgrow.room hlimit
    order := hkeys
    keys := rfl
    ids := hidsEq
    idLimit := by
      rcases hidsLimit with hnil | hle
      · change (Entries.keys pipelines).length ≤ _
        rw [hnil]
        exact Nat.zero_le _
      · rwa [Nat.zero_add] at hle
    pipelines := hall }

/-! ## The number of metric nodes -/

namespace CompiledConfig

variable (config : CompiledConfig)

/-- The paths of calls, of at most `n` calls below it, that start with a call of a process. -/
def nodeCount : ℕ → String → ℕ
  | 0, _ => 1
  | n + 1, name => 1 + ((firstUses (config.callees name)).map (nodeCount n)).sum

/-- The names that the body of an element calls. -/
def elementCalls : ProcessChainElement → List String
  | .named name => config.callees name
  | .inline body => ProcessStatement.calls body

/-- The nodes of an element: its own, and those of the names its body calls. -/
def elementNodes (element : ProcessChainElement) : ℕ :=
  1 + ((firstUses (config.elementCalls element)).map
    (config.nodeCount (config.processes.length + 1))).sum

/-- The metric nodes of a pipeline. -/
def metricNodes (pipeline : PipelineDef) : ℕ :=
  ((PipelineStatement.elements pipeline.body).map config.elementNodes).sum

end CompiledConfig

section Count

variable {config : CompiledConfig} {processNames : List (String × ProcessBodyId)}
  {bodies : List ProcessBodyCode}

/-- There is room for nodes. -/
def MetricTable.Fits (table : MetricTable) (count : ℕ) : Prop :=
  table.Counts ∧ table.nodes.length + count + 1 < UInt32.size

/-- A step that adds so many nodes when there is room for them. -/
def Adds {α : Type} (count : ℕ) (add : StateT MetricTable (Except String) α) : Prop :=
  ∀ table : MetricTable, table.Fits count →
    ∃ result, add table = .ok result ∧ result.2.Counts ∧
      result.2.nodes.length = table.nodes.length + count

theorem adds_pure {α : Type} (a : α) :
    Adds 0 (pure a : StateT MetricTable (Except String) α) :=
  fun _ hfits => ⟨_, rfl, hfits.1, rfl⟩

/-- Steps after each other add their nodes. -/
theorem Adds.bind {α β : Type} {add : StateT MetricTable (Except String) α}
    {next : α → StateT MetricTable (Except String) β} {count more : ℕ} (h : Adds count add)
    (hnext : ∀ a, Adds more (next a)) : Adds (count + more) (add >>= next) := by
  intro table hfits
  obtain ⟨hcounts, hroom⟩ := hfits
  obtain ⟨⟨a, grown⟩, ha, hgrown, hlength⟩ := h table ⟨hcounts, by omega⟩
  simp only at hgrown hlength
  obtain ⟨result, hresult, hlast, hlengths⟩ := hnext a grown ⟨hgrown, by omega⟩
  refine ⟨result, ?_, hlast, by omega⟩
  rw [bind_eq_of_ok ha]
  exact hresult

theorem Adds.map {α β : Type} {add : StateT MetricTable (Except String) α} {count : ℕ}
    (h : Adds count add) (f : α → β) : Adds count (add >>= fun a => pure (f a)) :=
  h.bind fun a => adds_pure (f a)

theorem mapInOrder_adds {α β : Type} {add : α → StateT MetricTable (Except String) β}
    {count : α → ℕ} {items : List α} (h : ∀ a ∈ items, Adds (count a) (add a)) :
    Adds (items.map count).sum (mapInOrder add items) := by
  induction items with
  | nil => exact adds_pure []
  | cons a rest ih =>
      have hrest := ih fun c hc => h c (List.mem_cons_of_mem _ hc)
      exact (h a List.mem_cons_self).bind fun b => hrest.map (b :: ·)

/-- The table with a node that has no children yet. -/
def pushed (table : MetricTable) (parent : Option MetricNodeId) (target : ProcessTarget)
    (name path : String) : MetricTable :=
  ⟨table.nodes ++ [⟨⟨target, []⟩, parent, table.nextStep, path, name⟩], table.nextStep + 1⟩

theorem pushed_counts {table : MetricTable} {count : ℕ} (h : table.Fits (1 + count))
    (parent : Option MetricNodeId) (target : ProcessTarget) (name path : String) :
    (pushed table parent target name path).Fits count ∧
      (pushed table parent target name path).nodes.length = table.nodes.length + 1 := by
  obtain ⟨⟨hstep, hlimit⟩, hroom⟩ := h
  have hlength : (pushed table parent target name path).nodes.length = table.nodes.length + 1 :=
    List.length_append
  have hnext : (pushed table parent target name path).nextStep = table.nextStep + 1 := rfl
  refine ⟨⟨⟨by rw [hnext, hlength, hstep], by rw [hnext, hstep]; omega⟩, ?_⟩, hlength⟩
  rw [hlength]
  omega

theorem addMetricNode_unknown {parent : Option MetricNodeId} {name path : String}
    {ancestors : List (ProcessBodyId × String)} :
    Adds 1 (addMetricNode bodies parent .unknown name path ancestors) := by
  intro table hfits
  obtain ⟨hpushed, hlength⟩ := @pushed_counts _ 0 hfits parent .unknown name path
  obtain ⟨⟨hstep, hlimit⟩, hroom⟩ := hfits
  refine ⟨(table.nodes.length, pushed table parent .unknown name path), ?_, hpushed.1, hlength⟩
  rw [addMetricNode, fromIndex_eq_ok_iff.mpr ⟨show table.nodes.length < UInt32.size by omega, rfl⟩,
    checkedAdd, if_pos (show table.nextStep + 1 < UInt32.size by omega)]
  rfl

/-- A node of a body adds itself and what the edges of the body add. -/
theorem addMetricNode_known {parent : Option MetricNodeId} {id : ProcessBodyId}
    {name path : String} {ancestors : List (ProcessBodyId × String)} {body : ProcessBodyCode}
    (hbody : bodies[id]? = some body) (hid : id ∉ ancestors.map Prod.fst)
    {count : ProcessEdge → ℕ} (hedges : ∀ node, ∀ edge ∈ body.edges, Adds (count edge)
      (addMetricNode bodies (some node) edge.target edge.name (childPath path edge.name)
        (ancestors ++ [(id, name)]))) :
    Adds (1 + (body.edges.map count).sum)
      (addMetricNode bodies parent (.known id) name path ancestors) := by
  intro table hfits
  obtain ⟨hpushed, hlength⟩ := pushed_counts hfits parent (.known id) name path
  obtain ⟨⟨children, grown⟩, hchildren, hcounts, hgrown⟩ :=
    mapInOrder_adds (hedges table.nodes.length) _ hpushed
  obtain ⟨⟨hstep, hlimit⟩, hroom⟩ := hfits
  let final : MetricTable := { grown with
    nodes := grown.nodes.modify table.nodes.length fun node => { node with children := children } }
  have hfinal : final.nodes.length = grown.nodes.length := List.length_modify _ _ _
  refine ⟨(table.nodes.length, final), ?_, ⟨?_, hcounts.2⟩, ?_⟩
  · rw [addMetricNode,
      fromIndex_eq_ok_iff.mpr ⟨show table.nodes.length < UInt32.size by omega, rfl⟩,
      checkedAdd, if_pos (show table.nextStep + 1 < UInt32.size by omega)]
    dsimp only [bind, Except.bind]
    split
    · next hnone => exact absurd (hnone.symm.trans hbody) (by simp)
    · next other hother =>
      obtain rfl := Option.some.inj (hother.symm.trans hbody)
      rw [dif_neg hid]
      change (mapInOrder _ other.edges (pushed table parent (.known id) name path) >>= _) = _
      rw [hchildren]
      rfl
  · rw [hfinal]
    exact hcounts.1
  · rw [hfinal]
    simp only at hgrown
    omega

/-- The node of a name adds the nodes of the paths of calls from it, as long as the number of
bodies not on the path bounds their length. -/
theorem addMetricNode_adds (h : NamedBodies config processNames bodies)
    (hacyclic : Acyclic (CalledBy bodies)) {n : ℕ} {name path : String}
    {parent : Option MetricNodeId} {ancestors : List (ProcessBodyId × String)}
    (hn : unvisited processNames.length (ancestors.map Prod.fst) < n)
    (hpath : ∀ id, processNames.lookup name = some id → ∀ other ∈ ancestors.map Prod.fst,
      TransGen (CalledBy bodies) id other) :
    Adds (config.nodeCount n name)
      (addMetricNode bodies parent (edgeOf processNames name).target name path ancestors) := by
  induction n generalizing name path parent ancestors with
  | zero => omega
  | succ n ih =>
      unfold edgeOf
      cases hid : processNames.lookup name with
      | none =>
          have hcount : config.nodeCount (n + 1) name = 1 := by
            rw [CompiledConfig.nodeCount, h.callees_of_unknown hid]
            rfl
          rw [hcount]
          exact addMetricNode_unknown
      | some id =>
          obtain ⟨body, hbody, hedges⟩ := h.callees_eq hid
          have hnot : id ∉ ancestors.map Prod.fst := fun hmem =>
            hacyclic id (hpath id hid id hmem)
          have hcount : config.nodeCount (n + 1) name =
              1 + (body.edges.map fun edge => config.nodeCount n edge.name).sum := by
            rw [CompiledConfig.nodeCount, hedges, List.map_map]
            rfl
          rw [hcount]
          refine addMetricNode_known hbody hnot fun node edge hedge => ?_
          have hcalled : ∀ callee, edge.target = .known callee → CalledBy bodies callee id :=
            fun callee htarget => ⟨body, edge, hbody, hedge, htarget⟩
          rw [hedges] at hedge
          obtain ⟨callee, -, rfl⟩ := List.mem_map.mp hedge
          refine ih ?_ fun calleeId hcallee other hother => ?_
          · rw [List.map_append]
            have hlt := unvisited_append_lt (h.lt_length hid) hnot
            simp only [List.map_cons, List.map_nil]
            omega
          · have hstep : CalledBy bodies calleeId id :=
              hcalled calleeId (edgeOf_target_eq_known.mpr hcallee)
            rw [List.map_append] at hother
            rcases List.mem_append.mp hother with hother | hother
            · exact TransGen.head hstep (hpath id hid other hother)
            · rw [List.mem_singleton.mp hother]
              exact TransGen.single hstep

/-- The nodes of a site: its own, and those of the edges of its body. -/
def siteNodes (config : CompiledConfig) (bodies : List ProcessBodyCode) (site : ProcessSite) : ℕ :=
  1 + ((((bodies[site.body]?).map fun body => body.edges).getD []).map fun edge =>
    config.nodeCount (config.processes.length + 1) edge.name).sum

/-- The body of a site has the edges of what its element calls. -/
theorem SiteOf.edges (h : NamedBodies config processNames bodies)
    {element : ProcessChainElement} {site : ProcessSite}
    (hsite : SiteOf processNames bodies element site) : ∃ body, bodies[site.body]? = some body ∧
      body.edges = (firstUses (config.elementCalls element)).map (edgeOf processNames) := by
  cases hsite with
  | named hname => exact h.callees_eq hname
  | inline hbody hfrom _ => exact ⟨_, hbody, hfrom.edges⟩

theorem siteNodes_eq (h : NamedBodies config processNames bodies)
    {element : ProcessChainElement} {site : ProcessSite}
    (hsite : SiteOf processNames bodies element site) :
    siteNodes config bodies site = config.elementNodes element := by
  obtain ⟨body, hbody, hedges⟩ := hsite.edges h
  unfold siteNodes
  rw [hbody, Option.map_some, Option.getD_some, hedges, List.map_map]
  rfl

theorem attachSite_adds (h : NamedBodies config processNames bodies)
    (hacyclic : Acyclic (CalledBy bodies)) {element : ProcessChainElement} {site : ProcessSite}
    (hsite : SiteOf processNames bodies element site) :
    Adds (siteNodes config bodies site) (attachSite bodies site) := by
  obtain ⟨body, hbody, hedges⟩ := hsite.edges h
  have hcount : siteNodes config bodies site = 1 + (body.edges.map fun edge =>
      config.nodeCount (config.processes.length + 1) edge.name).sum := by
    unfold siteNodes
    rw [hbody, Option.map_some, Option.getD_some]
  rw [hcount]
  refine Adds.map (addMetricNode_known hbody List.not_mem_nil fun node edge hedge => ?_) _
  have hcalled : ∀ callee, edge.target = .known callee → CalledBy bodies callee site.body :=
    fun callee htarget => ⟨body, edge, hbody, hedge, htarget⟩
  rw [hedges] at hedge
  obtain ⟨callee, -, rfl⟩ := List.mem_map.mp hedge
  refine addMetricNode_adds h hacyclic ?_ fun id hid other hother => ?_
  · have hle : ∀ active, unvisited processNames.length active ≤ config.processes.length := by
      intro active
      have hall : unvisited processNames.length active ≤
          (List.range processNames.length).length := List.countP_le_length
      rw [List.length_range] at hall
      exact h.length_eq ▸ hall
    exact Nat.lt_succ_of_le (hle _)
  · rw [List.mem_singleton.mp hother]
    exact TransGen.single (hcalled id (edgeOf_target_eq_known.mpr hid))

/-- Every site of a code adds its nodes. -/
def SitesAdd (bodies : List ProcessBodyCode) (count : ProcessSite → ℕ)
    (sites : List ProcessSite) : Prop :=
  ∀ site ∈ sites, Adds (count site) (attachSite bodies site)

theorem sitesAdd_append {count : ProcessSite → ℕ} {sites more : List ProcessSite} :
    SitesAdd bodies count (sites ++ more) ↔
      SitesAdd bodies count sites ∧ SitesAdd bodies count more := by
  simp only [SitesAdd, List.mem_append, or_imp, forall_and]

/-- The nodes of two lists of sites. -/
theorem sum_map_append (count : ProcessSite → ℕ) (sites more : List ProcessSite) :
    ((sites ++ more).map count).sum = (sites.map count).sum + (more.map count).sum := by
  rw [List.map_append, List.sum_append]

mutual

/-- A code adds the nodes of its sites. -/
theorem attachPipelineMetricNodes_adds {count : ProcessSite → ℕ} : ∀ code : List PipelineCode,
    SitesAdd bodies count (codeSites code) →
      Adds ((codeSites code).map count).sum (attachPipelineMetricNodes bodies code)
  | [], _ => adds_pure []
  | statement :: rest, h => by
      obtain ⟨hfirst, hrest⟩ := sitesAdd_append.mp h
      rw [codeSites, sum_map_append]
      exact (attachStatement_adds statement hfirst).bind fun code =>
        (attachPipelineMetricNodes_adds rest hrest).map (code :: ·)

theorem attachStatement_adds {count : ProcessSite → ℕ} : ∀ statement : PipelineCode,
    SitesAdd bodies count (statementSites statement) →
      Adds ((statementSites statement).map count).sum (attachStatement bodies statement)
  | .processChain _, h => (mapInOrder_adds h).map PipelineCode.processChain
  | .ifChain branches none, h =>
      (attachBranches_adds branches h).map fun codes => PipelineCode.ifChain codes none
  | .ifChain branches (some elseBody), h => by
      obtain ⟨hbranches, helse⟩ := sitesAdd_append.mp h
      rw [statementSites, sum_map_append]
      exact (attachBranches_adds branches hbranches).bind fun codes =>
        (attachPipelineMetricNodes_adds elseBody helse).map fun code =>
          PipelineCode.ifChain codes (some code)
  | .switch discriminant arms, h =>
      (attachArms_adds arms h).map fun codes => PipelineCode.switch discriminant codes
  | .input _, _ | .output _ _, _ | .drop, _ | .finish, _ | .error _, _ => adds_pure _

theorem attachBranches_adds {count : ProcessSite → ℕ} :
    ∀ branches : List (Expr × List PipelineCode), SitesAdd bodies count (branchesSites branches) →
      Adds ((branchesSites branches).map count).sum (attachBranches bodies branches)
  | [], _ => adds_pure []
  | (condition, body) :: rest, h => by
      obtain ⟨hfirst, hrest⟩ := sitesAdd_append.mp h
      rw [branchesSites, sum_map_append]
      exact (attachPipelineMetricNodes_adds body hfirst).bind fun code =>
        (attachBranches_adds rest hrest).map ((condition, code) :: ·)

theorem attachArms_adds {count : ProcessSite → ℕ} :
    ∀ arms : List (Option Expr × List PipelineCode), SitesAdd bodies count (armsSites arms) →
      Adds ((armsSites arms).map count).sum (attachArms bodies arms)
  | [], _ => adds_pure []
  | (pattern, body) :: rest, h => by
      obtain ⟨hfirst, hrest⟩ := sitesAdd_append.mp h
      rw [armsSites, sum_map_append]
      exact (attachPipelineMetricNodes_adds body hfirst).bind fun code =>
        (attachArms_adds rest hrest).map ((pattern, code) :: ·)

end

end Count

/-! ## Compilation succeeds -/

namespace CompiledConfig

variable (config : CompiledConfig)

/-- Every branch holds statements of its own kind. -/
def OwnKind : Prop :=
  (∀ name processDef, config.processes.lookup name = some processDef →
    ProcessStatement.ownKind processDef.body = true) ∧
  ∀ name pipeline, config.pipelines.lookup name = some pipeline →
    PipelineStatement.ownKind pipeline.body = true

/-- Every process a pipeline names is defined. -/
def Defined : Prop :=
  ∀ name pipeline, config.pipelines.lookup name = some pipeline →
    ∀ process, .named process ∈ PipelineStatement.elements pipeline.body →
      process ∈ Entries.keys config.processes

/-- The inline processes of a pipeline. -/
def inlineBodies (name : String) : ℕ :=
  ((config.pipelines.lookup name).map fun pipeline =>
    (PipelineStatement.elements pipeline.body).countP isInline).getD 0

/-- The identifiers fit their types: process bodies, the edges of each body, output timers and
metric nodes (with their steps) of each pipeline, and pipelines. -/
structure WithinLimits : Prop where
  bodies : config.processes.length +
    ((Entries.keys config.pipelines).map config.inlineBodies).sum ≤ UInt32.size
  edges : ∀ name processDef, config.processes.lookup name = some processDef →
    (ProcessStatement.calls processDef.body).dedup.length ≤ UInt32.size
  inlineEdges : ∀ name pipeline, config.pipelines.lookup name = some pipeline →
    ∀ statements, .inline statements ∈ PipelineStatement.elements pipeline.body →
      (ProcessStatement.calls statements).dedup.length ≤ UInt32.size
  timers : ∀ name pipeline, config.pipelines.lookup name = some pipeline →
    (PipelineStatement.outputs pipeline.body).dedup.length ≤ UInt32.size
  nodes : ∀ name pipeline, config.pipelines.lookup name = some pipeline →
    config.metricNodes pipeline + 1 < UInt32.size
  pipelines : config.pipelines.length ≤ UInt32.size

end CompiledConfig

section Success

variable {config : CompiledConfig} {processNames : List (String × ProcessBodyId)}
  {bodies : List ProcessBodyCode}

theorem compilePipeline_ok (h : NamedBodies config processNames bodies)
    (hlength : processNames.length ≤ bodies.length) (hacyclic : Acyclic config.CalledBy)
    {definition : PipelineDef} (hkind : PipelineStatement.ownKind definition.body = true)
    (hroom : (⟨bodies, .empty⟩ : PipelineTables).HasRoom processNames
      (PipelineStatement.elements definition.body) (PipelineStatement.outputs definition.body))
    (hnodes : config.metricNodes definition + 1 < UInt32.size) :
    ∃ result, compilePipeline processNames definition bodies = .ok result := by
  obtain ⟨⟨code, tables⟩, hcode⟩ :=
    compilePipelineStatements_ok definition.body hlength hkind hroom
  have hgrows := compilePipelineStatements_grows definition.body hlength hcode
  have hnamed := h.mono ⟨hgrows.bodies, hgrows.room, hgrows.compiled⟩
  have hcycles := hnamed.acyclic_bodies_iff.mpr hacyclic
  have hsites : SitesAdd tables.processBodies (siteNodes config tables.processBodies)
      (codeSites code) := by
    have hboth := hgrows.sites.flip.imp (S := fun site element =>
      Adds (siteNodes config tables.processBodies site) (attachSite tables.processBodies site) ∧
        SiteOf processNames tables.processBodies element site)
        fun _ _ hsite => ⟨attachSite_adds hnamed hcycles hsite, hsite⟩
    exact ((List.forall₂_and_left _ _).mp hboth).1
  have hcount : ((codeSites code).map (siteNodes config tables.processBodies)).sum =
      config.metricNodes definition := by
    have heq : (PipelineStatement.elements definition.body).map config.elementNodes =
        (codeSites code).map (siteNodes config tables.processBodies) := by
      rw [← List.forall₂_eq_eq_eq, List.forall₂_map_left_iff, List.forall₂_map_right_iff]
      exact hgrows.sites.imp fun _ _ hsite => (siteNodes_eq hnamed hsite).symm
    rw [CompiledConfig.metricNodes, heq]
  obtain ⟨⟨attached, metrics⟩, hattached, -⟩ := attachPipelineMetricNodes_adds code hsites ⟨[], 1⟩
    ⟨⟨rfl, by decide⟩, by rw [hcount, List.length_nil, Nat.zero_add]; exact hnodes⟩
  unfold compilePipeline
  rw [hcode]
  change ∃ result, (attachPipelineMetricNodes tables.processBodies code ⟨[], 1⟩ >>= _) = _
  rw [hattached]
  exact ⟨_, rfl⟩

theorem compilePipelines_ok (hacyclic : Acyclic config.CalledBy) (hkind : config.OwnKind)
    (hdefined : config.Defined) (hlimits : config.WithinLimits) {names : List String}
    (hnames : ∀ name ∈ names, name ∈ Entries.keys config.pipelines)
    (h : NamedBodies config processNames bodies) (hlength : processNames.length ≤ bodies.length)
    (hroom : bodies.length + (names.map config.inlineBodies).sum ≤ UInt32.size) :
    ∃ result, mapInOrder (compileConfigPipeline config processNames) names bodies =
      .ok result := by
  induction names generalizing bodies with
  | nil => exact ⟨_, rfl⟩
  | cons name rest ih =>
      cases hdefinition : config.pipelines.lookup name with
      | none =>
          -- the names are the keys of the configuration
          have hmem := hnames name List.mem_cons_self
          exact absurd hmem (Entries.lookup_eq_none_iff.mp hdefinition)
      | some definition =>
          rw [List.map_cons, List.sum_cons] at hroom
          have hinline : config.inlineBodies name =
              (PipelineStatement.elements definition.body).countP isInline := by
            rw [CompiledConfig.inlineBodies, hdefinition]
            rfl
          have htables : (⟨bodies, .empty⟩ : PipelineTables).HasRoom processNames
              (PipelineStatement.elements definition.body)
                (PipelineStatement.outputs definition.body) := {
            defined := fun process hprocess => by
              obtain ⟨id, hid⟩ :=
                h.mem_keys_iff.mp (hdefined name definition hdefinition process hprocess)
              by_contra hnot
              rw [Entries.lookup_eq_none_iff.mpr hnot] at hid
              exact absurd hid (by simp)
            bodies := by
              change bodies.length + _ ≤ _
              omega
            edges := hlimits.inlineEdges name definition hdefinition
            outputs := by
              have htimers := hlimits.timers name definition hdefinition
              rw [← length_firstUses] at htimers
              exact htimers }
          obtain ⟨⟨pipeline, next⟩, hpipeline⟩ := compilePipeline_ok h hlength hacyclic
            (hkind.2 name definition hdefinition) htables
            (hlimits.nodes name definition hdefinition)
          obtain ⟨hgrow, hnext, -⟩ := compilePipeline_spec hlength hpipeline
          simp only at hgrow hnext
          obtain ⟨result, hresult⟩ := @ih next
            (fun other hother => hnames other (List.mem_cons_of_mem _ hother)) (h.mono hgrow)
            (Nat.le_trans hlength hgrow.grows.length_le) (by omega)
          have hentry : compileConfigPipeline config processNames name bodies =
              .ok ((name, pipeline), next) := by
            unfold compileConfigPipeline
            rw [hdefinition]
            change (compilePipeline processNames definition >>= _) bodies = _
            rw [bind_eq_of_ok hpipeline]
            rfl
          refine ⟨((name, pipeline) :: result.1, result.2), ?_⟩
          rw [mapInOrder, bind_eq_of_ok hentry, bind_eq_of_ok hresult]
          rfl

/-- **Compilation succeeds** when the named processes do not call each other in a cycle. -/
theorem compile_ok (hacyclic : Acyclic config.CalledBy) (hkind : config.OwnKind)
    (hdefined : config.Defined) (hlimits : config.WithinLimits) :
    ∃ blueprint, UnsealedRuntimeBlueprint.compile config = .ok blueprint := by
  have hprocesses : (sortedKeys config.processes).length = config.processes.length := by
    rw [(sortedKeys_perm _).length_eq, Entries.keys, List.length_map]
  have hbodies := hlimits.bodies
  have hsum : ((Entries.keys config.pipelines).map config.inlineBodies).sum =
      ((sortedKeys config.pipelines).map config.inlineBodies).sum :=
    (((sortedKeys_perm config.pipelines).map config.inlineBodies).sum_eq).symm
  have hnumbers : numberFrom bodyLimit 0 (sortedKeys config.processes) =
      .ok (sortedKeys config.processes).zipIdx :=
    numberFrom_ok (by omega) bodyLimit
  obtain ⟨named, hnamed⟩ := @compileNamedProcesses_ok config
    (sortedKeys config.processes).zipIdx (sortedKeys config.processes) []
    (fun name hname => by
      cases hdef : config.processes.lookup name with
      | none =>
          exact absurd (mem_sortedKeys.mp hname) (Entries.lookup_eq_none_iff.mp hdef)
      | some processDef =>
          exact ⟨processDef, rfl, hkind.1 name processDef hdef, hlimits.edges name processDef hdef⟩)
    (by rw [List.length_nil]; omega)
  obtain ⟨hnamedBodies, hlength, -⟩ := namedBodies_of_compile rfl hnamed
  have hcount : named.length = config.processes.length := by
    rw [hlength, List.length_zipIdx, hprocesses]
  obtain ⟨⟨pipelines, bodies⟩, hpipelines⟩ := compilePipelines_ok hacyclic hkind hdefined hlimits
    (fun name hname => mem_sortedKeys.mp hname) hnamedBodies (Nat.le_of_eq hlength.symm)
    (by omega)
  obtain ⟨-, hkeys, -⟩ := compilePipelines_spec (Nat.le_of_eq hlength.symm) hpipelines
  have hids : numberFrom pipelineLimit 0 (Entries.keys pipelines) =
      .ok (Entries.keys pipelines).zipIdx := by
    refine numberFrom_ok ?_ pipelineLimit
    have hpipelineCount := hlimits.pipelines
    simp only at hkeys
    rw [hkeys, (sortedKeys_perm _).length_eq, Entries.keys, List.length_map]
    omega
  unfold UnsealedRuntimeBlueprint.compile
  rw [hnumbers]
  change ∃ blueprint, (compileNamedProcesses _ config _ [] >>= _) = _
  rw [List.length_nil] at hnamed
  rw [hnamed]
  change ∃ blueprint, (mapInOrder _ _ named >>= _) = _
  rw [hpipelines]
  change ∃ blueprint, (numberFrom pipelineLimit 0 (Entries.keys pipelines) >>= _) = _
  rw [hids]
  exact ⟨_, rfl⟩

end Success

end Limpid.Pipeline.Blueprint
