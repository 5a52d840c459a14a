import Limpid.Dsl.Termination
import Limpid.Pipeline.Checked
import Limpid.Pipeline.Sealed

/-!
# Runs of sealed blueprints

A pipeline of a sealed blueprint runs to its end and reaches no internal error: whatever is put in
the place of these errors, the run has the same result (`Sealed.run_concludes`).  The induction is
on the body that runs, along the calls between bodies; the counters are as many as the metric nodes
throughout.

Expressions are assumed to have a value or an error.
-/

namespace Limpid.Dsl.Concludes

open Eval Pipeline

variable {κ : Type*} {S Rest α : Type}

/-- A part of the state that the computation does not touch. -/
theorem onFst {inv : S × Rest → Prop} {X : κ → ℕ → Eval S α}
    (h : ∀ rest, Concludes (fun s => inv (s, rest)) X) :
    Concludes inv (fun k depth => (Pipeline.onFst (X k depth) : Eval (S × Rest) α)) := by
  rintro ⟨s, rest⟩ hs
  obtain ⟨outcome, t, bound, ht, hX⟩ := h rest s hs
  refine ⟨outcome, (t, rest), bound, ht, fun depth hdepth k => ?_⟩
  simp only [Pipeline.onFst, hX depth hdepth k]

theorem attempt {inv : S → Prop} {X : κ → ℕ → Eval S α} (h : Concludes inv X) :
    Concludes inv (fun k depth => Pipeline.attempt (X k depth)) := by
  intro s hs
  obtain ⟨outcome, t, bound, ht, hX⟩ := h s hs
  refine ⟨.ok outcome, t, bound, ht, fun depth hdepth k => ?_⟩
  simp only [Pipeline.attempt, hX depth hdepth k]

/-- A change of the state that keeps the invariant. -/
theorem change {inv : S → Prop} {f : S → S} (a : α) (hf : ∀ s, inv s → inv (f s)) :
    Concludes inv (fun (_ : κ) _ s => some (.ok a, f s)) :=
  fun s hs => ⟨.ok a, f s, 0, hf s hs, fun _ _ _ => rfl⟩

/-- A proposition beside the state. -/
theorem frame {P : Prop} {X : κ → ℕ → Eval S α} (h : Concludes (fun _ => True) X) :
    Concludes (fun _ => P) X := by
  intro s hP
  obtain ⟨outcome, t, bound, -, hX⟩ := h s trivial
  exact ⟨outcome, t, bound, hP, hX⟩

end Limpid.Dsl.Concludes

namespace Limpid.Pipeline

open Dsl Eval

variable {World : Type}

/-- Every expression has a value or an error. -/
def ExpressionsEnd (registry : IrProcessRegistry World) : Prop :=
  ∀ event scope e world, ∃ depth, registry.evalIn depth event scope e world ≠ none

namespace IrProcessRegistry

variable (registry : IrProcessRegistry World)

/-- More depth keeps the values of expressions. -/
theorem evalIn_mono {depth deeper : ℕ} (hdepth : depth ≤ deeper) (event : BorrowedEvent)
    (scope : LocalScope) (e : Expr) :
    Le (registry.evalIn depth event scope e) (registry.evalIn deeper event scope e) :=
  evalExpr_rel congruence_le (b := false) e scope fun site _ args =>
    FunctionRegistry.call_mono event hdepth site.2.1 site.2.2 args

theorem evalIn_concludes {κ : Type*} (h : ExpressionsEnd registry) (event : BorrowedEvent)
    (scope : LocalScope) (e : Expr) :
    Concludes (fun _ => True) (fun (_ : κ) depth => registry.evalIn depth event scope e) := by
  intro world _
  obtain ⟨bound, hsome⟩ := h event scope e world
  obtain ⟨⟨outcome, t⟩, hresult⟩ := Option.ne_none_iff_exists'.mp hsome
  exact ⟨outcome, t, bound, trivial, fun depth hdepth _ =>
    registry.evalIn_mono hdepth event scope e world _ hresult⟩

end IrProcessRegistry

/-! ## Process bodies -/

section Code

variable {κ : Type*} {rt : Runtime} {evalIn : κ → ℕ → Evaluator World}
  {callProcess : κ → ℕ → String → EdgeSlot → BorrowedEvent →
    Eval (Machine World) (Option BorrowedEvent)} {inv : Machine World → Prop}

/-- Calls that conclude. -/
def CallsConclude (inv : Machine World → Prop)
    (callProcess : κ → ℕ → String → EdgeSlot → BorrowedEvent →
      Eval (Machine World) (Option BorrowedEvent)) (calls : List (String × EdgeSlot)) : Prop :=
  ∀ call ∈ calls, ∀ event, Concludes inv fun k depth => callProcess k depth call.1 call.2 event

theorem callsConclude_append {calls more : List (String × EdgeSlot)} :
    CallsConclude inv callProcess (calls ++ more) ↔
      CallsConclude inv callProcess calls ∧ CallsConclude inv callProcess more :=
  List.forall_mem_append

/-- Expressions whose evaluation concludes. -/
def EvalConcludes (inv : Machine World → Prop) (evalIn : κ → ℕ → Evaluator World) : Prop :=
  ∀ event scope e, Concludes inv fun k depth => onFst (evalIn k depth event scope e)

mutual

/-- A code whose calls conclude does. -/
theorem execIrProcessCode_concludes (heval : EvalConcludes inv evalIn) :
    ∀ (code : List ProcessCode) (event : BorrowedEvent) (scope : LocalScope),
      CallsConclude inv callProcess (Blueprint.codeCalls code) →
      Concludes inv fun k depth =>
        execIrProcessCode rt (evalIn k depth) (callProcess k depth) event scope code
  | [], event, scope, _ => by
      simp only [execIrProcessCode]
      exact .ok _
  | statement :: rest, event, scope, hcalls => by
      obtain ⟨hfirst, hrest⟩ := callsConclude_append.mp hcalls
      simp only [execIrProcessCode]
      have hstatement := execProcessStatement_concludes heval statement event scope hfirst
      refine hstatement.bind fun result => ?_
      match result with
      | (.continue event, scope) => exact execIrProcessCode_concludes heval rest event scope hrest
      | (.dropped, scope) => exact .ok _

theorem execProcessStatement_concludes (heval : EvalConcludes inv evalIn) :
    ∀ (statement : ProcessCode) (event : BorrowedEvent) (scope : LocalScope),
      CallsConclude inv callProcess (Blueprint.statementCalls statement) →
      Concludes inv fun k depth =>
        execProcessStatement rt (evalIn k depth) (callProcess k depth) event scope statement
  | .assign target e, event, scope, _ => by
      simp only [execProcessStatement]
      exact (heval event scope e).bind fun value => .ok _
  | .letBinding name e, event, scope, _ => by
      simp only [execProcessStatement]
      exact (heval event scope e).bind fun value => .ok _
  | .call name edgeSlot, event, scope, hcalls => by
      simp only [execProcessStatement]
      refine (hcalls _ List.mem_cons_self event).bind fun result => ?_
      cases result with
      | some event => exact .ok _
      | none => exact .ok _
  | .drop, event, scope, _ => by
      simp only [execProcessStatement]
      exact .ok _
  | .error none, event, scope, _ => by
      simp only [execProcessStatement]
      exact .bail _
  | .error (some e), event, scope, _ => by
      simp only [execProcessStatement]
      exact (heval event scope e).bind fun value => .bail _
  | .ifChain branches none, event, scope, hcalls => by
      simp only [execProcessStatement]
      exact execProcessBranches_concludes heval branches event scope hcalls (.ok _)
  | .ifChain branches (some elseBody), event, scope, hcalls => by
      obtain ⟨hbranches, helse⟩ := callsConclude_append.mp hcalls
      simp only [execProcessStatement]
      exact execProcessBranches_concludes heval branches event scope hbranches
        (execIrProcessCode_concludes heval elseBody event scope helse)
  | .switch discriminant arms, event, scope, hcalls => by
      simp only [execProcessStatement]
      exact (heval event scope discriminant).bind fun value =>
        execProcessArms_concludes heval arms event scope value hcalls
  | .tryCatch tryBody catchBody, event, scope, hcalls => by
      obtain ⟨htry, hcatch⟩ := callsConclude_append.mp hcalls
      simp only [execProcessStatement]
      have hattempt := (execIrProcessCode_concludes heval tryBody event scope htry).attempt
      -- a catch body runs on the message, which is the same in all members
      refine hattempt.bind fun outcome => ?_
      cases outcome with
      | ok result => exact .ok _
      | error message =>
          refine (execIrProcessCode_concludes heval catchBody _ scope hcatch).bind fun result => ?_
          match result with
          | (.continue event, scope) => exact .ok _
          | (.dropped, scope) => exact .ok _
  | .expr e, event, scope, _ => by
      simp only [execProcessStatement]
      exact (heval event scope e).bind fun value =>
        (Concludes.ofExcept (mergeObject event value)).bind fun event => .ok _

theorem execProcessBranches_concludes (heval : EvalConcludes inv evalIn) :
    ∀ (branches : List (Expr × List ProcessCode)) (event : BorrowedEvent) (scope : LocalScope)
    {otherwise : κ → ℕ → Eval (Machine World) (ExecResult × LocalScope)},
    CallsConclude inv callProcess (Blueprint.branchesCalls branches) → Concludes inv otherwise →
      Concludes inv fun k depth => execProcessBranches rt (evalIn k depth) (callProcess k depth)
        event scope branches (otherwise k depth)
  | [], event, scope, _, _, hotherwise => by
      simp only [execProcessBranches]
      exact hotherwise
  | (condition, body) :: rest, event, scope, _, hcalls, hotherwise => by
      obtain ⟨hbody, hrest⟩ := callsConclude_append.mp hcalls
      simp only [execProcessBranches]
      refine (heval event scope condition).bind fun value => ?_
      cases htruthy : value.isTruthy rt with
      | true => exact execIrProcessCode_concludes heval body event scope hbody
      | false => exact execProcessBranches_concludes heval rest event scope hrest hotherwise

theorem execProcessArms_concludes (heval : EvalConcludes inv evalIn) :
    ∀ (arms : List (Option Expr × List ProcessCode)) (event : BorrowedEvent) (scope : LocalScope)
    (value : Value),
    CallsConclude inv callProcess (Blueprint.armsCalls arms) →
      Concludes inv fun k depth =>
        execProcessArms rt (evalIn k depth) (callProcess k depth) event scope value arms
  | [], event, scope, _, _ => by
      simp only [execProcessArms]
      exact .ok _
  | (none, body) :: rest, event, scope, _, hcalls => by
      simp only [execProcessArms]
      exact execIrProcessCode_concludes heval body event scope (callsConclude_append.mp hcalls).1
  | (some pattern, body) :: rest, event, scope, value, hcalls => by
      obtain ⟨hbody, hrest⟩ := callsConclude_append.mp hcalls
      simp only [execProcessArms]
      refine (heval event scope pattern).bind fun patternValue => ?_
      cases hmatch : valuesMatch rt value patternValue with
      | true => exact execIrProcessCode_concludes heval body event scope hbody
      | false => exact execProcessArms_concludes heval rest event scope value hrest

end

end Code

/-! ## Calls -/

namespace Blueprint

open IrProcessRegistry

/-- The part of a pipeline that a run reads. -/
def PipelineBlueprint.bound (pipeline : PipelineBlueprint) : Pipeline.PipelineBlueprint where
  name := pipeline.name
  code := pipeline.code
  metricNodes := pipeline.metricNodes.map MetricNodeDescriptor.toMetricNodeDescriptor
  outputTimers := pipeline.outputTimers

/-- The tables that a run of a pipeline reads, with the functions. -/
def UnsealedRuntimeBlueprint.registry (blueprint : UnsealedRuntimeBlueprint) (rt : Runtime)
    (funcs : FunctionRegistry World) (pipeline : PipelineBlueprint) :
    IrProcessRegistry World where
  rt := rt
  processBodies := blueprint.processBodies.map ProcessBodyCode.toProcessBodyCode
  metricNodes := pipeline.bound.metricNodes
  funcs := funcs

section Calls

variable {blueprint : UnsealedRuntimeBlueprint} {pipeline : PipelineBlueprint} {rt : Runtime}
  {funcs : FunctionRegistry World}

/-- A counter for each metric node. -/
def Counted (pipeline : PipelineBlueprint) (machine : Machine World) : Prop :=
  machine.2.length = pipeline.metricNodes.length

variable (rt funcs) in
/-- The edge and the child of a call in the body of a node. -/
theorem resolveEdge_eq (hpipeline : PipelineOk blueprint pipeline) {i : ℕ}
    {node : MetricNodeDescriptor} {id : ProcessBodyId} {body : ProcessBodyCode}
    (hnode : pipeline.metricNodes[i]? = some node) (htarget : node.target = .known id)
    (hbody : blueprint.processBodies[id]? = some body) {call : String × EdgeSlot}
    (hcall : CallOk body call) :
    ∃ (edge : ProcessEdge) (child : ℕ) (childNode : MetricNodeDescriptor),
      (blueprint.registry rt funcs pipeline).resolveEdge i call.1 call.2 =
        .ok (edge.target, child) ∧ edge ∈ body.edges ∧
          pipeline.metricNodes[child]? = some childNode ∧ childNode.target = edge.target := by
  obtain ⟨edge, hedge, hname⟩ := hcall
  obtain ⟨other, hother, hchildren⟩ := (hpipeline.nodes i node hnode).known id htarget
  obtain rfl := Option.some.inj (hbody.symm.trans hother)
  have hslot := (List.getElem?_eq_some_iff.mp hedge).1
  have hlt : call.2 < node.children.length := hchildren.length_eq ▸ hslot
  have hchild := hchildren.get hlt hslot
  obtain ⟨childNode, hplace, -, hsame, -⟩ := hchild
  have hedge' : body.edges.get ⟨call.2, hslot⟩ = edge :=
    (List.getElem?_eq_some_iff.mp hedge).2
  rw [hedge'] at hsame
  refine ⟨edge, node.children[call.2], childNode, ?_, List.mem_of_getElem? hedge, hplace, hsame⟩
  unfold resolveEdge
  simp only [UnsealedRuntimeBlueprint.registry, PipelineBlueprint.bound, List.getElem?_map, hnode,
    Option.map_some, htarget, hbody, hedge, hname, ne_eq, not_true_eq_false, if_false,
    List.getElem?_eq_getElem hlt]

theorem count_concludes {κ : Type*} (node : MetricNodeId)
    (update : ProcessCounters → ProcessCounters) :
    Concludes (Counted pipeline) fun (_ : κ) _ =>
      (count node update : Eval (Machine World) Unit) :=
  .change () fun machine hmachine => by
    rw [Counted, List.length_modify]
    exact hmachine

theorem finishCall_concludes {κ : Type*} (node : MetricNodeId)
    {X : κ → ℕ → Eval (Machine World) ExecResult} (h : Concludes (Counted pipeline) X) :
    Concludes (Counted pipeline) (fun k depth => finishCall node (X k depth)) := by
  refine h.attempt.bind fun outcome => ?_
  match outcome with
  | .ok (.continue event) => exact (count_concludes node .continued).bind fun _ => .ok _
  | .ok .dropped => exact (count_concludes node .drop).bind fun _ => .ok _
  | .error message => exact (count_concludes node .error).bind fun _ => .bail _

variable (rt funcs) in
/-- A call at a node whose body concludes. -/
theorem callWithOr_concludes {i : ℕ} {node : MetricNodeDescriptor}
    (hnode : pipeline.metricNodes[i]? = some node)
    (runBody : Internal → ℕ → Pipeline.ProcessBodyCode → BorrowedEvent →
      Eval (Machine World) ExecResult)
    (hbody : ∀ id, node.target = .known id → ∃ body, blueprint.processBodies[id]? = some body ∧
      ∀ event, Concludes (Counted pipeline) fun internal depth =>
        runBody internal depth body.toProcessBodyCode event) (event : BorrowedEvent) :
    Concludes (Counted pipeline) fun (internal : Internal) depth =>
      (blueprint.registry rt funcs pipeline).callWithOr internal (runBody internal depth)
        node.target i event := by
  have hlt : i < pipeline.metricNodes.length := (List.getElem?_eq_some_iff.mp hnode).1
  have hplace : (blueprint.registry rt funcs pipeline).metricNodes[i]? =
      some node.toMetricNodeDescriptor := by
    simp only [UnsealedRuntimeBlueprint.registry, PipelineBlueprint.bound, List.getElem?_map,
      hnode, Option.map_some]
  refine Concludes.congr (X := fun internal depth => count i .start >>= fun _ =>
      (blueprint.registry rt funcs pipeline).runTargetOr internal (runBody internal depth)
        node.target i event) 0 (fun machine hmachine depth _ internal => ?_)
    ((count_concludes i .start).bind fun _ => ?_)
  · -- the checks before the body pass
    rw [Counted] at hmachine
    unfold callWithOr
    simp only [hplace, ne_eq, not_true_eq_false, if_false, hmachine, Nat.not_le.mpr hlt]
  unfold runTargetOr
  cases htarget : node.target with
  | unknown => exact finishCall_concludes i (.ok _)
  | known id =>
      obtain ⟨body, hsome, hconcludes⟩ := hbody id htarget
      have hsome : (blueprint.registry rt funcs pipeline).processBodies[id]? =
          some body.toProcessBodyCode := by
        simp only [UnsealedRuntimeBlueprint.registry, List.getElem?_map, hsome, Option.map_some]
      simp only [hsome]
      exact finishCall_concludes i (hconcludes event)

/-- The calls at the nodes of a target conclude. -/
def TargetConcludes (registry : IrProcessRegistry World) (pipeline : PipelineBlueprint)
    (target : ProcessTarget) : Prop :=
  ∀ (i : ℕ) node, pipeline.metricNodes[i]? = some node → node.target = target → ∀ event,
    Concludes (Counted pipeline) fun (internal : Internal) depth =>
      registry.callOr internal depth target i event

/-- The run of a body at a node, when the calls at the children conclude. -/
theorem runBody_concludes (hexpressions : ExpressionsEnd (blueprint.registry rt funcs pipeline))
    (hpipeline : PipelineOk blueprint pipeline) {i : ℕ} {node : MetricNodeDescriptor}
    {id : ProcessBodyId} {body : ProcessBodyCode} (hnode : pipeline.metricNodes[i]? = some node)
    (htarget : node.target = .known id) (hbody : blueprint.processBodies[id]? = some body)
    (hcalls : CallsOk body (codeCalls body.code))
    (hedges : ∀ edge ∈ body.edges,
      TargetConcludes (blueprint.registry rt funcs pipeline) pipeline edge.target)
    (event : BorrowedEvent) :
    Concludes (Counted pipeline) fun (internal : Internal) depth =>
      (blueprint.registry rt funcs pipeline).runBody depth
        ((blueprint.registry rt funcs pipeline).callChildOr internal
          ((blueprint.registry rt funcs pipeline).callOr internal (depth - 1)) i)
        body.toProcessBodyCode event := by
  have heval : EvalConcludes (Counted pipeline) fun (_ : Internal) depth =>
      (blueprint.registry rt funcs pipeline).evalIn depth := fun event scope e =>
    .onFst fun counters => (evalIn_concludes _ hexpressions event scope e).frame
      (P := counters.length = pipeline.metricNodes.length)
  refine (execIrProcessCode_concludes heval body.code event [] fun call hcall event => ?_).bind
    fun result => .ok _
  obtain ⟨edge, child, childNode, hresolve, hedge, hchild, hsame⟩ :=
    resolveEdge_eq rt funcs hpipeline hnode htarget hbody (hcalls call hcall)
  simp only [callChildOr, hresolve]
  refine (hedges edge hedge child childNode hchild hsame event).pred.attempt.bind fun outcome => ?_
  cases outcome with
  | ok next => exact .ok _
  | error message => exact .bail _

/-- A call, when those of the edges of its body conclude. -/
theorem targetConcludes_of_edges
    (hexpressions : ExpressionsEnd (blueprint.registry rt funcs pipeline))
    (hsealed : Sealed blueprint) (hpipeline : PipelineOk blueprint pipeline)
    {target : ProcessTarget}
    (hedges : ∀ id body, target = .known id → blueprint.processBodies[id]? = some body →
      ∀ edge ∈ body.edges,
        TargetConcludes (blueprint.registry rt funcs pipeline) pipeline edge.target) :
    TargetConcludes (blueprint.registry rt funcs pipeline) pipeline target := by
  rintro i node hnode rfl event
  have hbodies : ∀ id, node.target = .known id → ∃ body, blueprint.processBodies[id]? = some body ∧
      ∀ event, Concludes (Counted pipeline) fun (internal : Internal) depth =>
        (blueprint.registry rt funcs pipeline).runBody depth
          ((blueprint.registry rt funcs pipeline).callChildOr internal
            ((blueprint.registry rt funcs pipeline).callOr internal (depth - 1)) i)
          body.toProcessBodyCode event := by
    intro id htarget
    obtain ⟨body, hbody, -⟩ := (hpipeline.nodes i node hnode).known id htarget
    exact ⟨body, hbody, runBody_concludes hexpressions hpipeline hnode htarget hbody
      (hsealed.bodies body (List.mem_of_getElem? hbody)).calls (hedges id body htarget hbody)⟩
  have hcall := callWithOr_concludes rt funcs hnode (fun internal depth =>
    (blueprint.registry rt funcs pipeline).runBody depth
      ((blueprint.registry rt funcs pipeline).callChildOr internal
        ((blueprint.registry rt funcs pipeline).callOr internal (depth - 1)) i)) hbodies event
  refine hcall.congr 1 fun machine _ depth hdepth internal => ?_
  obtain ⟨depth, rfl⟩ : ∃ n, depth = n + 1 := ⟨depth - 1, (Nat.sub_add_cancel hdepth).symm⟩
  rfl

/-- **Calls conclude.**  The induction is on the body of the called process. -/
theorem targetConcludes (hexpressions : ExpressionsEnd (blueprint.registry rt funcs pipeline))
    (hsealed : Sealed blueprint) (hpipeline : PipelineOk blueprint pipeline)
    (target : ProcessTarget) :
    TargetConcludes (blueprint.registry rt funcs pipeline) pipeline target := by
  have hrange : ∀ {callee caller}, CalledBy blueprint.processBodies callee caller →
      callee ∈ Set.Iio blueprint.processBodies.length ∧
        caller ∈ Set.Iio blueprint.processBodies.length := by
    rintro callee caller ⟨body, edge, hbody, hedge, htarget⟩
    exact ⟨(hsealed.bodies body (List.mem_of_getElem? hbody)).targets edge hedge callee htarget,
      lt_length_of_getElem? hbody⟩
  have hwf := hsealed.acyclic.wellFounded (Set.finite_Iio _) hrange
  have hunknown : TargetConcludes (blueprint.registry rt funcs pipeline) pipeline .unknown :=
    targetConcludes_of_edges hexpressions hsealed hpipeline fun id body htarget => by cases htarget
  cases target with
  | unknown => exact hunknown
  | known id =>
      induction id using hwf.induction with
      | _ id ih =>
          refine targetConcludes_of_edges hexpressions hsealed hpipeline ?_
          rintro _ body ⟨⟩ hbody edge hedge
          cases htarget : edge.target with
          | unknown => exact hunknown
          | known callee => exact ih callee ⟨body, edge, hbody, hedge, htarget⟩

end Calls

/-! ## Pipelines -/

section Run

variable {blueprint : UnsealedRuntimeBlueprint} {pipeline : PipelineBlueprint} {rt : Runtime}
  {funcs : FunctionRegistry World} {original : OwnedEvent} {capture : OutputCapturePolicy}

/-- The context of a run of a pipeline on an event. -/
def UnsealedRuntimeBlueprint.execCtx (blueprint : UnsealedRuntimeBlueprint) (rt : Runtime)
    (funcs : FunctionRegistry World) (pipeline : PipelineBlueprint) (capture : OutputCapturePolicy)
    (original : OwnedEvent) (depth : ℕ) : IrPipelineExecCtx World where
  registry := blueprint.registry rt funcs pipeline
  pipeline := pipeline.bound
  originalEvent := original
  outputCapture := capture
  depth := depth

/-- A counter for each metric node, beside what a run collects. -/
def RunCounted (pipeline : PipelineBlueprint) (state : RunState World) : Prop :=
  Counted pipeline state.1

theorem evalExpr_concludes {κ : Type*}
    (hexpressions : ExpressionsEnd (blueprint.registry rt funcs pipeline))
    (event : BorrowedEvent) (e : Expr) :
    Concludes (RunCounted pipeline) fun (_ : κ) depth =>
      onFst ((blueprint.execCtx rt funcs pipeline capture original depth).evalExpr event e) :=
  .onFst fun _ => .onFst fun counters =>
    (evalIn_concludes _ hexpressions event [] e).frame
      (P := counters.length = pipeline.metricNodes.length)

theorem errorMessage_concludes {κ : Type*}
    (hexpressions : ExpressionsEnd (blueprint.registry rt funcs pipeline))
    (event : BorrowedEvent) (message : Option Expr) :
    Concludes (RunCounted pipeline) fun (_ : κ) depth => onFst
      ((blueprint.execCtx rt funcs pipeline capture original depth).errorMessage event
        message) := by
  cases message with
  | none => exact .onFst fun _ => .ok _
  | some e =>
      exact .onFst fun _ => .bind (.onFst fun counters =>
        (evalIn_concludes _ hexpressions event [] e).frame
          (P := counters.length = pipeline.metricNodes.length)) fun value =>
            .ok (valueToString rt value)

theorem pushErrored_concludes {κ : Type*} (record : ErroredEventContext) :
    Concludes (RunCounted pipeline) fun (_ : κ) _ =>
      (pushErrored record : Eval (RunState World) Unit) :=
  .change () fun _ hstate => hstate

theorem pushOutput_concludes {κ : Type*} (copy : OutputCopy) :
    Concludes (RunCounted pipeline) fun (_ : κ) _ =>
      (pushOutput copy : Eval (RunState World) Unit) :=
  .change () fun _ hstate => hstate

theorem execSitesOr_concludes
    (hexpressions : ExpressionsEnd (blueprint.registry rt funcs pipeline))
    (hsealed : Sealed blueprint) (hpipeline : PipelineOk blueprint pipeline)
    (sites : List ProcessSite) (hsites : ∀ site ∈ sites, IsRoot pipeline.metricNodes site)
    (event : BorrowedEvent) :
    Concludes (RunCounted pipeline) fun (internal : Internal) depth =>
      (blueprint.execCtx rt funcs pipeline capture original depth).execSitesOr internal event
        sites := by
  induction sites generalizing event with
  | nil =>
      simp only [IrPipelineExecCtx.execSitesOr]
      exact .ok _
  | cons site rest ih =>
      obtain ⟨hroot, hrest⟩ := List.forall_mem_cons.mp hsites
      obtain ⟨node, hnode, -, htarget, -⟩ := hroot
      simp only [IrPipelineExecCtx.execSitesOr]
      have hcall := targetConcludes hexpressions hsealed hpipeline (.known site.body)
        site.metricNode node hnode htarget event
      refine Concludes.bind (.onFst fun _ => hcall.attempt) fun outcome => ?_
      rcases outcome with message | (_ | event)
      · exact (pushErrored_concludes (.process pipeline.name site.name
          (IrPipelineExecCtx.siteReason site.kind message) (.fromOwned original))).bind
            fun _ => .ok _
      · exact .ok _
      · exact ih hrest event

theorem execOutputOr_concludes {name : String} {timerSlot : OutputTimerSlot}
    (htimer : pipeline.outputTimers[timerSlot]? = some name) (event : BorrowedEvent) :
    Concludes (RunCounted pipeline) fun (internal : Internal) depth =>
      (blueprint.execCtx rt funcs pipeline capture original depth).execOutputOr internal event
        name timerSlot := by
  have hlt : timerSlot < pipeline.outputTimers.length :=
    (List.getElem?_eq_some_iff.mp htimer).1
  simp only [IrPipelineExecCtx.execOutputOr, UnsealedRuntimeBlueprint.execCtx,
    PipelineBlueprint.bound, Nat.not_le.mpr hlt, if_false]
  exact (pushOutput_concludes (name, if capture.shouldCaptureWorkspace name then event.toOwned
    else event.toOwnedWithoutWorkspace)).bind fun _ => .ok _

/-- The sites of a code are roots and its outputs have their timers. -/
def CodeFits (pipeline : PipelineBlueprint) (sites : List ProcessSite)
    (outputs : List (String × OutputTimerSlot)) : Prop :=
  (∀ site ∈ sites, IsRoot pipeline.metricNodes site) ∧
    ∀ output ∈ outputs, pipeline.outputTimers[output.2]? = some output.1

theorem codeFits_append {sites more : List ProcessSite}
    {outputs others : List (String × OutputTimerSlot)} :
    CodeFits pipeline (sites ++ more) (outputs ++ others) ↔
      CodeFits pipeline sites outputs ∧ CodeFits pipeline more others := by
  unfold CodeFits
  rw [List.forall_mem_append, List.forall_mem_append, and_and_and_comm]

mutual

/-- A code whose sites and outputs fit concludes. -/
theorem bodyOr_concludes (hexpressions : ExpressionsEnd (blueprint.registry rt funcs pipeline))
    (hsealed : Sealed blueprint) (hpipeline : PipelineOk blueprint pipeline) :
    ∀ (code : List PipelineCode) (event : BorrowedEvent),
      CodeFits pipeline (codeSites code) (codeOutputs code) →
        Concludes (RunCounted pipeline) fun (internal : Internal) depth =>
          (blueprint.execCtx rt funcs pipeline capture original depth).bodyOr internal event code
  | [], event, _ => by
      simp only [IrPipelineExecCtx.bodyOr, IrPipelineExecCtx.bodyWith]
      exact .ok _
  | statement :: rest, event, hfits => by
      obtain ⟨hfirst, hrest⟩ := codeFits_append.mp hfits
      simp only [IrPipelineExecCtx.bodyOr, IrPipelineExecCtx.bodyWith]
      have hstatement := statementOr_concludes hexpressions hsealed hpipeline statement event hfirst
      refine hstatement.bind fun result => ?_
      match result with
      | (some event, _) => exact bodyOr_concludes hexpressions hsealed hpipeline rest event hrest
      | (none, termination) => exact .ok _

theorem statementOr_concludes
    (hexpressions : ExpressionsEnd (blueprint.registry rt funcs pipeline))
    (hsealed : Sealed blueprint) (hpipeline : PipelineOk blueprint pipeline) :
    ∀ (statement : PipelineCode) (event : BorrowedEvent),
      CodeFits pipeline (statementSites statement) (statementOutputs statement) →
        Concludes (RunCounted pipeline) fun (internal : Internal) depth =>
          (blueprint.execCtx rt funcs pipeline capture original depth).statementWith
            ((blueprint.execCtx rt funcs pipeline capture original depth).execSitesOr internal)
            ((blueprint.execCtx rt funcs pipeline capture original depth).execOutputOr internal)
            event statement
  | .input _, event, _ => by
      simp only [IrPipelineExecCtx.statementWith]
      exact .ok _
  | .processChain sites, event, hfits => by
      simp only [IrPipelineExecCtx.statementWith]
      exact execSitesOr_concludes hexpressions hsealed hpipeline sites hfits.1 event
  | .output name timerSlot, event, hfits => by
      simp only [IrPipelineExecCtx.statementWith]
      exact execOutputOr_concludes (hfits.2 _ List.mem_cons_self) event
  | .drop, event, _ => by
      simp only [IrPipelineExecCtx.statementWith]
      exact .ok _
  | .finish, event, _ => by
      simp only [IrPipelineExecCtx.statementWith]
      exact .ok _
  | .error message, event, _ => by
      simp only [IrPipelineExecCtx.statementWith]
      exact (errorMessage_concludes hexpressions event message).bind fun reason =>
        (pushErrored_concludes (.process pipeline.name "(pipeline)" reason
          (.fromOwned original))).bind fun _ => .ok _
  | .ifChain branches none, event, hfits => by
      simp only [IrPipelineExecCtx.statementWith]
      exact branchesOr_concludes hexpressions hsealed hpipeline branches event hfits (.ok _)
  | .ifChain branches (some elseBody), event, hfits => by
      obtain ⟨hbranches, helse⟩ := codeFits_append.mp hfits
      simp only [IrPipelineExecCtx.statementWith]
      exact branchesOr_concludes hexpressions hsealed hpipeline branches event hbranches
        (bodyOr_concludes hexpressions hsealed hpipeline elseBody event helse)
  | .switch discriminant arms, event, hfits => by
      simp only [IrPipelineExecCtx.statementWith]
      exact (evalExpr_concludes hexpressions event discriminant).bind fun value =>
        armsOr_concludes hexpressions hsealed hpipeline arms event value hfits

theorem branchesOr_concludes
    (hexpressions : ExpressionsEnd (blueprint.registry rt funcs pipeline))
    (hsealed : Sealed blueprint) (hpipeline : PipelineOk blueprint pipeline) :
    ∀ (branches : List (Expr × List PipelineCode)) (event : BorrowedEvent)
      {otherwise : Internal → ℕ →
        Eval (RunState World) (Option BorrowedEvent × PipelineTermination)},
      CodeFits pipeline (branchesSites branches) (branchesOutputs branches) →
        Concludes (RunCounted pipeline) otherwise →
          Concludes (RunCounted pipeline) fun (internal : Internal) depth =>
            (blueprint.execCtx rt funcs pipeline capture original depth).branchesWith
              ((blueprint.execCtx rt funcs pipeline capture original depth).execSitesOr internal)
              ((blueprint.execCtx rt funcs pipeline capture original depth).execOutputOr internal)
              event branches (otherwise internal depth)
  | [], event, _, _, hotherwise => by
      simp only [IrPipelineExecCtx.branchesWith]
      exact hotherwise
  | (condition, body) :: rest, event, _, hfits, hotherwise => by
      obtain ⟨hbody, hrest⟩ := codeFits_append.mp hfits
      simp only [IrPipelineExecCtx.branchesWith]
      refine (evalExpr_concludes hexpressions event condition).bind fun value => ?_
      change Concludes _ fun internal depth => if value.isTruthy rt then _ else _
      cases htruthy : value.isTruthy rt with
      | true => exact bodyOr_concludes hexpressions hsealed hpipeline body event hbody
      | false =>
          exact branchesOr_concludes hexpressions hsealed hpipeline rest event hrest hotherwise

theorem armsOr_concludes (hexpressions : ExpressionsEnd (blueprint.registry rt funcs pipeline))
    (hsealed : Sealed blueprint) (hpipeline : PipelineOk blueprint pipeline) :
    ∀ (arms : List (Option Expr × List PipelineCode)) (event : BorrowedEvent) (value : Value),
      CodeFits pipeline (armsSites arms) (armsOutputs arms) →
        Concludes (RunCounted pipeline) fun (internal : Internal) depth =>
          (blueprint.execCtx rt funcs pipeline capture original depth).armsWith
            ((blueprint.execCtx rt funcs pipeline capture original depth).execSitesOr internal)
            ((blueprint.execCtx rt funcs pipeline capture original depth).execOutputOr internal)
            event value arms
  | [], event, _, _ => by
      simp only [IrPipelineExecCtx.armsWith]
      exact .ok _
  | (none, body) :: rest, event, _, hfits => by
      simp only [IrPipelineExecCtx.armsWith]
      exact bodyOr_concludes hexpressions hsealed hpipeline body event
        (codeFits_append.mp hfits).1
  | (some pattern, body) :: rest, event, value, hfits => by
      obtain ⟨hbody, hrest⟩ := codeFits_append.mp hfits
      simp only [IrPipelineExecCtx.armsWith]
      refine (evalExpr_concludes hexpressions event pattern).bind fun patternValue => ?_
      change Concludes _ fun internal depth => if valuesMatch rt value patternValue then _ else _
      cases hmatch : valuesMatch rt value patternValue with
      | true => exact bodyOr_concludes hexpressions hsealed hpipeline body event hbody
      | false => exact armsOr_concludes hexpressions hsealed hpipeline rest event value hrest

end

/-- **A pipeline of a sealed blueprint runs to its end and reaches no internal error.** -/
theorem Sealed.run_concludes (hsealed : Sealed blueprint)
    (hpipeline : pipeline ∈ blueprint.pipelines.map Prod.snd)
    (hexpressions : ExpressionsEnd (blueprint.registry rt funcs pipeline)) :
    Concludes (Counted pipeline) fun (internal : Internal) depth =>
      runOr internal (blueprint.execCtx rt funcs pipeline capture original depth) := by
  have hok := hsealed.pipelines pipeline hpipeline
  intro machine hmachine
  obtain ⟨outcome, ⟨after, out⟩, bound, hafter, hbody⟩ :=
    @bodyOr_concludes _ _ _ _ _ original capture hexpressions hsealed hok
      pipeline.code original.viewIn ⟨hok.roots, hok.timers⟩ (machine, .empty) hmachine
  cases outcome with
  | error message =>
      refine ⟨.error message, after, bound, hafter, fun depth hdepth internal => ?_⟩
      unfold runOr
      simp only [UnsealedRuntimeBlueprint.execCtx, PipelineBlueprint.bound] at hbody ⊢
      rw [hbody depth hdepth internal]
  | ok ended =>
      obtain ⟨last, termination⟩ := ended
      refine ⟨.ok ⟨out.outputs, !out.outputs.isEmpty, termination, out.errored⟩, after, bound,
        hafter, fun depth hdepth internal => ?_⟩
      unfold runOr
      simp only [UnsealedRuntimeBlueprint.execCtx, PipelineBlueprint.bound] at hbody ⊢
      rw [hbody depth hdepth internal]

end Run

end Blueprint

end Limpid.Pipeline
