import Limpid.Pipeline.CompiledBlueprint

/-!
# What sealing establishes

Each check of `seal` says what it checks (`sealed_of_ok`, `ok_of_sealed`): calls have the slot of
the edge of their name, targets are bodies and do not lead back to where they are called, metric
nodes have their number and the children of the edges of their body, sites have a node at the top
and outputs a timer.  A compiled blueprint without a cycle passes all of them
(`CompiledBlueprint.sealed`).

Every check has a lemma that says when it returns (`validatePipeline_ok_iff` and the ones it is
made of).  They are put together in both directions: what a sealed blueprint has, and that a
blueprint with all this is sealed.  The second direction is what makes compilation complete.
-/

namespace Limpid.Pipeline.Blueprint

open Dsl

/-- A body that passes the checks. -/
structure BodyOk (bodies : List ProcessBodyCode) (body : ProcessBodyCode) : Prop where
  targets : ∀ edge ∈ body.edges, targetInRange bodies edge.target
  names : (body.edges.map ProcessEdge.name).Nodup
  limit : body.edges.length ≤ UInt32.size
  calls : ∀ call ∈ codeCalls body.code, ∃ edge, body.edges[call.2]? = some edge ∧
    edge.name = call.1

/-- A pipeline that passes the checks. -/
structure PipelineOk (blueprint : UnsealedRuntimeBlueprint) (pipeline : PipelineBlueprint) :
    Prop where
  count : pipeline.metricNodes.length < UInt32.size
  nodes : ∀ (i : ℕ) node, pipeline.metricNodes[i]? = some node →
    NodeOk blueprint.processBodies pipeline.metricNodes i node
  subscription : pipeline.subscriptionInputs = subscriptionInputs pipeline.code
  kinds : ∀ site ∈ codeSites pipeline.code,
    (site.kind = .named ↔ site.body ∈ blueprint.processNames.map Prod.snd)
  roots : ∀ site ∈ codeSites pipeline.code, IsRoot pipeline.metricNodes site
  timers : ∀ output ∈ codeOutputs pipeline.code,
    pipeline.outputTimers[output.2]? = some output.1

/-- A blueprint that passes the checks. -/
structure Sealed (blueprint : UnsealedRuntimeBlueprint) : Prop where
  names : ∀ name id, (name, id) ∈ blueprint.processNames →
    ∃ body, blueprint.processBodies[id]? = some body ∧ body.name = name
  bodies : ∀ body ∈ blueprint.processBodies, BodyOk blueprint.processBodies body
  acyclic : Acyclic (CalledBy blueprint.processBodies)
  pipelines : ∀ pipeline ∈ blueprint.pipelines.map Prod.snd, PipelineOk blueprint pipeline
  order : blueprint.pipelineOrder.length = blueprint.pipelines.length
  ids : blueprint.pipelineIds.length = blueprint.pipelines.length
  identity : ∀ (i : ℕ) name, blueprint.pipelineOrder[i]? = some name → i < UInt32.size ∧
    blueprint.pipelineIds.lookup name = some i ∧ name ∈ Entries.keys blueprint.pipelines

/-! ## Bodies -/

section Bodies

variable {bodies : List ProcessBodyCode}

theorem validateEdges_ok_iff {bodyName : String} {seen : List String} {index : ℕ}
    {edges : List ProcessEdge} :
    validateEdges bodies bodyName seen index edges = .ok () ↔
      (∀ edge ∈ edges, targetInRange bodies edge.target) ∧
        (edges = [] ∨ index + edges.length ≤ UInt32.size) ∧
          (∀ edge ∈ edges, edge.name ∉ seen) ∧ (edges.map ProcessEdge.name).Nodup := by
  induction edges generalizing seen index with
  | nil => simp [validateEdges]
  | cons edge rest ih =>
      rw [validateEdges, Except.bind_eq_ok_iff, ensure_eq_ok_iff]
      constructor
      · rintro ⟨htarget, h⟩
        obtain ⟨slot, hslot, h⟩ := Except.exists_of_bind_eq_ok h
        obtain ⟨hlt, -⟩ := fromIndex_eq_ok_iff.mp hslot
        obtain ⟨hnew, h⟩ := Except.bind_eq_ok_iff.mp h
        obtain ⟨htargets, hlimit, hseen, hnodup⟩ := ih.mp h
        have hnew := ensure_eq_ok_iff.mp hnew
        refine ⟨List.forall_mem_cons.mpr ⟨htarget, htargets⟩, Or.inr ?_,
          List.forall_mem_cons.mpr ⟨hnew, fun other hother hmem =>
            hseen other hother (List.mem_append_left _ hmem)⟩, ?_⟩
        · rcases hlimit with rfl | hlimit
          · exact hlt
          · rw [List.length_cons]
            omega
        · refine List.nodup_cons.mpr ⟨fun hmem => ?_, hnodup⟩
          obtain ⟨other, hother, hname⟩ := List.mem_map.mp hmem
          exact hseen other hother (List.mem_append_right _ (by simp [hname]))
      · rintro ⟨htargets, hlimit, hseen, hnodup⟩
        have hlimit : index + (rest.length + 1) ≤ UInt32.size := by
          rcases hlimit with hnil | hlimit
          · exact absurd hnil (List.cons_ne_nil _ _)
          · exact hlimit
        rw [List.map_cons, List.nodup_cons] at hnodup
        refine ⟨htargets edge List.mem_cons_self, ?_⟩
        rw [fromIndex_eq_ok_iff.mpr ⟨show index < UInt32.size by omega, rfl⟩]
        change (ensure (edge.name ∉ seen) _ >>= _) = _
        rw [Except.bind_eq_ok_iff, ensure_eq_ok_iff, ih]
        refine ⟨hseen edge List.mem_cons_self,
          fun other hother => htargets other (List.mem_cons_of_mem _ hother),
          Or.inr (by omega), fun other hother hmem => ?_, hnodup.2⟩
        rcases List.mem_append.mp hmem with hmem | hmem
        · exact hseen other (List.mem_cons_of_mem _ hother) hmem
        · exact hnodup.1 (List.mem_singleton.mp hmem ▸ List.mem_map_of_mem hother)

/-- A call that passes the check. -/
def CallOk (body : ProcessBodyCode) (call : String × EdgeSlot) : Prop :=
  ∃ edge, body.edges[call.2]? = some edge ∧ edge.name = call.1

theorem validateCall_ok_iff {body : ProcessBodyCode} {name : String} {edgeSlot : EdgeSlot} :
    validateCall body name edgeSlot = .ok () ↔ CallOk body (name, edgeSlot) := by
  unfold validateCall CallOk
  cases body.edges[edgeSlot]? with
  | none => simp
  | some edge =>
      change ensure (edge.name = name) _ = _ ↔ _
      rw [ensure_eq_ok_iff]
      simp

/-- All of the calls pass the check. -/
def CallsOk (body : ProcessBodyCode) (calls : List (String × EdgeSlot)) : Prop :=
  ∀ call ∈ calls, CallOk body call

theorem callsOk_append {body : ProcessBodyCode} {calls more : List (String × EdgeSlot)} :
    CallsOk body (calls ++ more) ↔ CallsOk body calls ∧ CallsOk body more :=
  List.forall_mem_append

theorem callsOk_nil {body : ProcessBodyCode} : (Except.ok () : Except String Unit) = .ok () ↔
    CallsOk body [] :=
  ⟨fun _ _ h => absurd h List.not_mem_nil, fun _ => rfl⟩

mutual

theorem validateProcessCode_ok_iff {body : ProcessBodyCode} : ∀ code : List ProcessCode,
    validateProcessCode body code = .ok () ↔ CallsOk body (codeCalls code)
  | [] => callsOk_nil
  | statement :: rest => by
      rw [validateProcessCode, Except.bind_eq_ok_iff, validateProcessStatement_ok_iff statement,
        validateProcessCode_ok_iff rest, codeCalls, callsOk_append]

theorem validateProcessStatement_ok_iff {body : ProcessBodyCode} : ∀ statement : ProcessCode,
    validateProcessStatement body statement = .ok () ↔ CallsOk body (statementCalls statement)
  | .call name edgeSlot => by
      rw [validateProcessStatement, validateCall_ok_iff, statementCalls, CallsOk,
        List.forall_mem_singleton]
  | .ifChain branches none => validateProcessBranches_ok_iff branches
  | .ifChain branches (some elseBody) => by
      rw [validateProcessStatement, Except.bind_eq_ok_iff, validateProcessBranches_ok_iff branches,
        validateProcessCode_ok_iff elseBody, statementCalls, callsOk_append]
  | .switch _ arms => validateProcessArms_ok_iff arms
  | .tryCatch tryBody catchBody => by
      rw [validateProcessStatement, Except.bind_eq_ok_iff, validateProcessCode_ok_iff tryBody,
        validateProcessCode_ok_iff catchBody, statementCalls, callsOk_append]
  | .assign _ _ | .letBinding _ _ | .drop | .error _ | .expr _ => callsOk_nil

theorem validateProcessBranches_ok_iff {body : ProcessBodyCode} :
    ∀ branches : List (Expr × List ProcessCode),
      validateProcessBranches body branches = .ok () ↔ CallsOk body (branchesCalls branches)
  | [] => callsOk_nil
  | (_, branch) :: rest => by
      rw [validateProcessBranches, Except.bind_eq_ok_iff, validateProcessCode_ok_iff branch,
        validateProcessBranches_ok_iff rest, branchesCalls, callsOk_append]

theorem validateProcessArms_ok_iff {body : ProcessBodyCode} :
    ∀ arms : List (Option Expr × List ProcessCode),
      validateProcessArms body arms = .ok () ↔ CallsOk body (armsCalls arms)
  | [] => callsOk_nil
  | (_, arm) :: rest => by
      rw [validateProcessArms, Except.bind_eq_ok_iff, validateProcessCode_ok_iff arm,
        validateProcessArms_ok_iff rest, armsCalls, callsOk_append]

end

end Bodies

/-! ## Pipelines -/

section Pipelines

variable {blueprint : UnsealedRuntimeBlueprint} {pipeline : PipelineBlueprint}

theorem validateChild_ok_iff {id : MetricNodeId} {node : MetricNodeDescriptor}
    {child : MetricNodeId} {edge : ProcessEdge} :
    UnsealedRuntimeBlueprint.validateChild pipeline id node (child, edge) = .ok () ↔
      IsChild pipeline.metricNodes id node child edge := by
  unfold UnsealedRuntimeBlueprint.validateChild IsChild IsNode
  cases hchild : pipeline.metricNodes[child]? with
  | none => simp [hchild]
  | some found =>
      simp only [hchild]
      rw [ensure_eq_ok_iff]
      simp

theorem validateMetricNode_ok_iff {node : MetricNodeDescriptor} {i : ℕ}
    (hi : i + 1 < UInt32.size) :
    blueprint.validateMetricNode pipeline (node, i) = .ok () ↔
      NodeOk blueprint.processBodies pipeline.metricNodes i node := by
  unfold UnsealedRuntimeBlueprint.validateMetricNode
  simp only
  rw [fromIndex_eq_ok_iff.mpr ⟨show i < UInt32.size by omega, rfl⟩,
    fromIndex_eq_ok_iff.mpr ⟨hi, rfl⟩]
  change (ensure (node.step = i + 1) _ >>= fun _ => _) = _ ↔ _
  rw [Except.bind_eq_ok_iff, ensure_eq_ok_iff]
  cases htarget : node.target with
  | unknown =>
      simp only
      rw [ensure_eq_ok_iff]
      constructor
      · rintro ⟨hstep, hchildren⟩
        exact ⟨hstep, fun id hknown => absurd (htarget.symm.trans hknown) (by simp),
          fun _ => hchildren⟩
      · exact fun h => ⟨h.step, h.unknown htarget⟩
  | known bodyId =>
      cases hbody : blueprint.processBodies[bodyId]? with
      | none =>
          simp only [hbody]
          constructor
          · rintro ⟨-, herror⟩
            cases herror
          · intro h
            obtain ⟨body, hsome, -⟩ := h.known bodyId htarget
            exact absurd (hbody.symm.trans hsome) (by simp)
      | some body =>
          simp only [hbody]
          rw [Except.bind_eq_ok_iff, ensure_eq_ok_iff, checkAll_eq_ok_iff]
          constructor
          · rintro ⟨hstep, hlength, hchildren⟩
            refine ⟨hstep, fun id hknown => ?_,
              fun hunknown => absurd (htarget.symm.trans hunknown) (by simp)⟩
            obtain rfl := ProcessTarget.known.inj (htarget.symm.trans hknown)
            refine ⟨body, hbody, List.forall₂_iff_zip.mpr ⟨hlength, fun {child edge} hmem => ?_⟩⟩
            exact validateChild_ok_iff.mp (hchildren (child, edge) hmem)
          · intro h
            obtain ⟨other, hother, hchildren⟩ := h.known bodyId htarget
            obtain rfl := Option.some.inj (hbody.symm.trans hother)
            refine ⟨h.step, hchildren.length_eq, fun pair hpair => ?_⟩
            exact validateChild_ok_iff.mpr ((List.forall₂_iff_zip.mp hchildren).2 hpair)

/-- A site that passes the checks. -/
def SiteOk (blueprint : UnsealedRuntimeBlueprint) (pipeline : PipelineBlueprint)
    (site : ProcessSite) : Prop :=
  (site.kind = .named ↔ site.body ∈ blueprint.processNames.map Prod.snd) ∧
    IsRoot pipeline.metricNodes site

theorem validateSite_ok_iff {site : ProcessSite} :
    blueprint.validateSite pipeline site = .ok () ↔ SiteOk blueprint pipeline site := by
  unfold UnsealedRuntimeBlueprint.validateSite SiteOk IsRoot IsNode
  simp only
  rw [Except.bind_eq_ok_iff, ensure_eq_ok_iff]
  refine and_congr_right fun _ => ?_
  cases hnode : pipeline.metricNodes[site.metricNode]? with
  | none => simp
  | some node =>
      simp only
      rw [ensure_eq_ok_iff]
      simp

/-- The sites and outputs of a part of a code pass the checks. -/
def CodeOk (blueprint : UnsealedRuntimeBlueprint) (pipeline : PipelineBlueprint)
    (sites : List ProcessSite) (outputs : List (String × OutputTimerSlot)) : Prop :=
  (∀ site ∈ sites, SiteOk blueprint pipeline site) ∧
    ∀ output ∈ outputs, pipeline.outputTimers[output.2]? = some output.1

theorem codeOk_append {sites more : List ProcessSite}
    {outputs others : List (String × OutputTimerSlot)} :
    CodeOk blueprint pipeline (sites ++ more) (outputs ++ others) ↔
      CodeOk blueprint pipeline sites outputs ∧ CodeOk blueprint pipeline more others := by
  unfold CodeOk
  rw [List.forall_mem_append, List.forall_mem_append, and_and_and_comm]

theorem codeOk_nil : (Except.ok () : Except String Unit) = .ok () ↔
    CodeOk blueprint pipeline [] [] :=
  ⟨fun _ => ⟨fun _ h => absurd h List.not_mem_nil, fun _ h => absurd h List.not_mem_nil⟩,
    fun _ => rfl⟩

mutual

theorem validatePipelineCode_ok_iff : ∀ code : List PipelineCode,
    blueprint.validatePipelineCode pipeline code = .ok () ↔
      CodeOk blueprint pipeline (codeSites code) (codeOutputs code)
  | [] => codeOk_nil
  | statement :: rest => by
      rw [UnsealedRuntimeBlueprint.validatePipelineCode, Except.bind_eq_ok_iff,
        validatePipelineStatement_ok_iff statement, validatePipelineCode_ok_iff rest, codeSites,
        codeOutputs, codeOk_append]

theorem validatePipelineStatement_ok_iff : ∀ statement : PipelineCode,
    blueprint.validatePipelineStatement pipeline statement = .ok () ↔
      CodeOk blueprint pipeline (statementSites statement) (statementOutputs statement)
  | .processChain sites => by
      rw [UnsealedRuntimeBlueprint.validatePipelineStatement, checkAll_eq_ok_iff]
      simp only [validateSite_ok_iff]
      exact ⟨fun h => ⟨h, fun _ hmem => absurd hmem List.not_mem_nil⟩, fun h => h.1⟩
  | .output name timerSlot => by
      rw [UnsealedRuntimeBlueprint.validatePipelineStatement, ensure_eq_ok_iff]
      refine ⟨fun h => ⟨fun _ hmem => absurd hmem List.not_mem_nil, fun output hmem => ?_⟩,
        fun h => h.2 (name, timerSlot) List.mem_cons_self⟩
      rw [List.mem_singleton.mp hmem]
      exact h
  | .ifChain branches none => validatePipelineBranches_ok_iff branches
  | .ifChain branches (some elseBody) => by
      rw [UnsealedRuntimeBlueprint.validatePipelineStatement, Except.bind_eq_ok_iff,
        validatePipelineBranches_ok_iff branches, validatePipelineCode_ok_iff elseBody,
        statementSites, statementOutputs, codeOk_append]
  | .switch _ arms => validatePipelineArms_ok_iff arms
  | .input _ | .drop | .finish | .error _ => codeOk_nil

theorem validatePipelineBranches_ok_iff : ∀ branches : List (Expr × List PipelineCode),
    blueprint.validatePipelineBranches pipeline branches = .ok () ↔
      CodeOk blueprint pipeline (branchesSites branches) (branchesOutputs branches)
  | [] => codeOk_nil
  | (_, body) :: rest => by
      rw [UnsealedRuntimeBlueprint.validatePipelineBranches, Except.bind_eq_ok_iff,
        validatePipelineCode_ok_iff body, validatePipelineBranches_ok_iff rest, branchesSites,
        branchesOutputs, codeOk_append]

theorem validatePipelineArms_ok_iff : ∀ arms : List (Option Expr × List PipelineCode),
    blueprint.validatePipelineArms pipeline arms = .ok () ↔
      CodeOk blueprint pipeline (armsSites arms) (armsOutputs arms)
  | [] => codeOk_nil
  | (_, body) :: rest => by
      rw [UnsealedRuntimeBlueprint.validatePipelineArms, Except.bind_eq_ok_iff,
        validatePipelineCode_ok_iff body, validatePipelineArms_ok_iff rest, armsSites,
        armsOutputs, codeOk_append]

end

theorem validatePipeline_ok_iff : blueprint.validatePipeline pipeline = .ok () ↔
    PipelineOk blueprint pipeline := by
  unfold UnsealedRuntimeBlueprint.validatePipeline
  simp only
  rw [Except.bind_eq_ok_iff, Except.bind_eq_ok_iff, Except.bind_eq_ok_iff, ensure_eq_ok_iff,
    ensure_eq_ok_iff, checkAll_eq_ok_iff, validatePipelineCode_ok_iff]
  -- a node is checked with its number
  have hnode : ∀ {node : MetricNodeDescriptor} {i : ℕ},
      pipeline.metricNodes.length < UInt32.size → pipeline.metricNodes[i]? = some node →
        (blueprint.validateMetricNode pipeline (node, i) = .ok () ↔
          NodeOk blueprint.processBodies pipeline.metricNodes i node) := by
    intro node i hcount hplace
    have hlt := (List.getElem?_eq_some_iff.mp hplace).1
    exact validateMetricNode_ok_iff (by omega)
  constructor
  · rintro ⟨hcount, hnodes, hsubscription, hsites, htimers⟩
    refine ⟨hcount, fun i node hplace => ?_, hsubscription, fun site hsite => (hsites site hsite).1,
      fun site hsite => (hsites site hsite).2, htimers⟩
    exact (hnode hcount hplace).mp (hnodes (node, i) (List.mk_mem_zipIdx_iff_getElem?.mpr hplace))
  · intro h
    refine ⟨h.count, fun pair hpair => ?_, h.subscription,
      fun site hsite => ⟨h.kinds site hsite, h.roots site hsite⟩, h.timers⟩
    obtain ⟨node, i⟩ := pair
    have hplace := List.mk_mem_zipIdx_iff_getElem?.mp hpair
    exact (hnode h.count hplace).mpr (h.nodes i node hplace)

end Pipelines

/-! ## Blueprints -/

section Blueprints

variable {blueprint : UnsealedRuntimeBlueprint}

theorem validateProcessName_ok_iff {name : String} {id : ProcessBodyId} :
    blueprint.validateProcessName (name, id) = .ok () ↔
      ∃ body, blueprint.processBodies[id]? = some body ∧ body.name = name := by
  unfold UnsealedRuntimeBlueprint.validateProcessName
  cases hbody : blueprint.processBodies[id]? with
  | none => simp [hbody]
  | some body =>
      simp only [hbody]
      rw [ensure_eq_ok_iff]
      simp

theorem validateBody_ok_iff {body : ProcessBodyCode} :
    blueprint.validateBody body = .ok () ↔ BodyOk blueprint.processBodies body := by
  unfold UnsealedRuntimeBlueprint.validateBody
  rw [Except.bind_eq_ok_iff, validateEdges_ok_iff, validateProcessCode_ok_iff]
  constructor
  · rintro ⟨⟨htargets, hlimit, -, hnames⟩, hcalls⟩
    refine ⟨htargets, hnames, ?_, hcalls⟩
    rcases hlimit with hnil | hlimit
    · rw [hnil]
      exact Nat.zero_le _
    · rwa [Nat.zero_add] at hlimit
  · intro h
    exact ⟨⟨h.targets, Or.inr (by rw [Nat.zero_add]; exact h.limit),
      fun _ _ => List.not_mem_nil, h.names⟩, h.calls⟩

theorem validateIdentity_ok_iff {name : String} {i : ℕ} :
    blueprint.validateIdentity (name, i) = .ok () ↔ i < UInt32.size ∧
      blueprint.pipelineIds.lookup name = some i ∧ name ∈ Entries.keys blueprint.pipelines := by
  unfold UnsealedRuntimeBlueprint.validateIdentity
  constructor
  · intro h
    obtain ⟨expected, hexpected, h⟩ := Except.exists_of_bind_eq_ok h
    obtain ⟨hlt, rfl⟩ := fromIndex_eq_ok_iff.mp hexpected
    exact ⟨hlt, ensure_eq_ok_iff.mp h⟩
  · rintro ⟨hlt, h⟩
    simp only
    rw [fromIndex_eq_ok_iff.mpr ⟨hlt, rfl⟩]
    exact ensure_eq_ok_iff.mpr h

/-- **What sealing checks.** -/
theorem sealed_of_ok {result : UnsealedRuntimeBlueprint}
    (h : blueprint.sealBlueprint = .ok result) : result = blueprint ∧ Sealed blueprint := by
  unfold UnsealedRuntimeBlueprint.sealBlueprint at h
  obtain ⟨hprocesses, h⟩ := Except.bind_eq_ok_iff.mp h
  obtain ⟨hpipelines, h⟩ := Except.bind_eq_ok_iff.mp h
  obtain ⟨hlengths, h⟩ := Except.bind_eq_ok_iff.mp h
  obtain ⟨hidentity, h⟩ := Except.bind_eq_ok_iff.mp h
  unfold UnsealedRuntimeBlueprint.validateProcessIdentityAndEdges at hprocesses
  obtain ⟨hnames, hprocesses⟩ := Except.bind_eq_ok_iff.mp hprocesses
  obtain ⟨hbodies, hcycles⟩ := Except.bind_eq_ok_iff.mp hprocesses
  rw [checkAll_eq_ok_iff] at hnames hbodies hpipelines hidentity
  obtain ⟨horder, hids⟩ := ensure_eq_ok_iff.mp hlengths
  refine ⟨(Except.ok.inj h).symm, ?_⟩
  exact {
    names := fun name id hmem => validateProcessName_ok_iff.mp (hnames (name, id) hmem)
    bodies := fun body hbody => validateBody_ok_iff.mp (hbodies body hbody)
    acyclic := acyclic_of_validate hcycles
    pipelines := fun pipeline hpipeline =>
      validatePipeline_ok_iff.mp (hpipelines pipeline hpipeline)
    order := horder
    ids := hids
    identity := fun i name hplace => validateIdentity_ok_iff.mp
      (hidentity (name, i) (List.mk_mem_zipIdx_iff_getElem?.mpr hplace)) }

/-- A blueprint that passes the checks, whose bodies are not too many, is sealed. -/
theorem ok_of_sealed (h : Sealed blueprint)
    (hlimit : blueprint.processBodies.length ≤ UInt32.size) :
    blueprint.sealBlueprint = .ok blueprint := by
  have hrange : CalleesInRange blueprint.processBodies := by
    rintro callee caller ⟨body, edge, hbody, hedge, htarget⟩
    exact (h.bodies body (List.mem_of_getElem? hbody)).targets edge hedge callee htarget
  have hprocesses : blueprint.validateProcessIdentityAndEdges = .ok () := by
    unfold UnsealedRuntimeBlueprint.validateProcessIdentityAndEdges
    rw [Except.bind_eq_ok_iff, Except.bind_eq_ok_iff, checkAll_eq_ok_iff, checkAll_eq_ok_iff]
    exact ⟨fun pair hpair => validateProcessName_ok_iff.mpr (h.names pair.1 pair.2 hpair),
      fun body hbody => validateBody_ok_iff.mpr (h.bodies body hbody),
      validateProcessCycles_ok h.acyclic hrange hlimit⟩
  unfold UnsealedRuntimeBlueprint.sealBlueprint
  rw [Except.bind_eq_ok_iff, Except.bind_eq_ok_iff, Except.bind_eq_ok_iff, Except.bind_eq_ok_iff,
    checkAll_eq_ok_iff, checkAll_eq_ok_iff, ensure_eq_ok_iff]
  refine ⟨hprocesses, fun pipeline hpipeline =>
    validatePipeline_ok_iff.mpr (h.pipelines pipeline hpipeline), ⟨h.order, h.ids⟩,
    fun pair hpair => ?_, rfl⟩
  obtain ⟨name, i⟩ := pair
  exact validateIdentity_ok_iff.mpr (h.identity i name (List.mk_mem_zipIdx_iff_getElem?.mp hpair))

/-! ## Compiled blueprints -/

/-- The named sites run the bodies of named processes, the inline ones do not. -/
theorem SiteOf.kind_iff {config : CompiledConfig}
    (h : NamedBodies config blueprint.processNames blueprint.processBodies)
    {element : ProcessChainElement} {site : ProcessSite}
    (hsite : SiteOf blueprint.processNames blueprint.processBodies element site) :
    site.kind = .named ↔ site.body ∈ blueprint.processNames.map Prod.snd := by
  cases hsite with
  | @named name id node hname =>
      refine ⟨fun _ => ?_, fun _ => rfl⟩
      have hplace := h.lookup_eq_some_iff.mp hname
      have hmem : (name, id) ∈ blueprint.processNames := by
        rw [h.numbered]
        exact List.mk_mem_zipIdx_iff_getElem?.mpr hplace
      exact List.mem_map_of_mem (f := Prod.snd) hmem
  | inline _ _ hid =>
      refine ⟨fun hkind => (nomatch hkind), fun hmem => ?_⟩
      obtain ⟨⟨name, other⟩, hpair, rfl⟩ := List.mem_map.mp hmem
      -- the numbers of names are smaller than those of inline bodies
      have hlt : other < blueprint.processNames.length := by
        have hplace := hpair
        rw [h.numbered] at hplace ⊢
        rw [List.length_zipIdx]
        exact (List.getElem?_eq_some_iff.mp (List.mk_mem_zipIdx_iff_getElem?.mp hplace)).1
      exact absurd hlt (Nat.not_lt.mpr hid)

/-- A body compiled from statements passes the checks. -/
theorem CompiledFrom.bodyOk {config : CompiledConfig}
    (h : NamedBodies config blueprint.processNames blueprint.processBodies)
    {statements : List ProcessStatement} {body : ProcessBodyCode}
    (hmem : body ∈ blueprint.processBodies)
    (hfrom : CompiledFrom blueprint.processNames statements body) :
    BodyOk blueprint.processBodies body where
  targets edge hedge id htarget := by
    obtain ⟨i, hi⟩ := List.mem_iff_getElem?.mp hmem
    exact h.calleesInRange id i ⟨body, edge, hi, hedge, htarget⟩
  names := by
    have hnames : body.edges.map ProcessEdge.name =
        firstUses (ProcessStatement.calls statements) := by
      rw [hfrom.edges, List.map_map]
      exact List.map_id _
    rw [hnames]
    exact nodup_firstUses _
  limit := hfrom.room
  calls call hcall := by
    refine ⟨edgeOf blueprint.processNames call.1, ?_, rfl⟩
    rw [hfrom.edges, List.getElem?_map, hfrom.slots call hcall]
    rfl

/-- **A compiled blueprint without a cycle passes every check.** -/
theorem CompiledBlueprint.sealed {config : CompiledConfig} (h : CompiledBlueprint config blueprint)
    (hacyclic : Acyclic (CalledBy blueprint.processBodies)) : Sealed blueprint where
  names name id hmem := by
    have hid : blueprint.processNames.lookup name = some id := by
      rw [h.bodies.lookup_eq_some_iff]
      have hplace := hmem
      rw [h.bodies.numbered] at hplace
      exact List.mk_mem_zipIdx_iff_getElem?.mp hplace
    obtain ⟨processDef, body, -, hbody, hname, -⟩ := h.bodies.named name id hid
    exact ⟨body, hbody, hname⟩
  bodies body hbody := by
    obtain ⟨statements, hfrom⟩ := h.bodies.compiled body hbody
    exact hfrom.bodyOk h.bodies hbody
  acyclic := hacyclic
  pipelines pipeline hpipeline := by
    obtain ⟨⟨name, other⟩, hmem, rfl⟩ := List.mem_map.mp hpipeline
    obtain ⟨definition, -, hcompiled⟩ := h.pipelines name other hmem
    have hcount := hcompiled.count
    refine ⟨Nat.lt_of_succ_lt hcount, fun i node hplace => ?_, hcompiled.subscription,
      fun site hsite => ?_,
      hcompiled.roots, hcompiled.timers⟩
    · exact hcompiled.nodes.nodeOk i node (Nat.zero_le i)
        (List.getElem?_eq_some_iff.mp hplace).1 hplace
    · have hkinds := hcompiled.sites.flip.imp (S := fun site element =>
        (site.kind = .named ↔ site.body ∈ blueprint.processNames.map Prod.snd) ∧
          SiteOf blueprint.processNames blueprint.processBodies element site)
          fun site element hsite => ⟨hsite.kind_iff h.bodies, hsite⟩
      exact ((List.forall₂_and_left _ _).mp hkinds).1 site hsite
  order := by rw [← h.keys, Entries.keys, List.length_map]
  ids := by rw [h.ids, List.length_zipIdx, ← h.keys, Entries.keys, List.length_map]
  identity i name hplace := by
    have hlt := (List.getElem?_eq_some_iff.mp hplace).1
    have hnodup : blueprint.pipelineOrder.Nodup := by
      rw [h.order]
      exact (sortedKeys_perm _).nodup_iff.mpr config.nodup_pipelines
    refine ⟨Nat.lt_of_lt_of_le hlt h.idLimit, ?_, ?_⟩
    · rw [h.ids, lookup_zipIdx hnodup]
      exact hplace
    · rw [h.keys]
      exact List.mem_of_getElem? hplace

end Blueprints

end Limpid.Pipeline.Blueprint
