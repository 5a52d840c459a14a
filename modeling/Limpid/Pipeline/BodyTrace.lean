import Limpid.Pipeline.FrameCounts
import Limpid.Pipeline.Seal
import Limpid.Pipeline.Worker

/-!
# The run of a pipeline with its trace

The interpreter of pipeline bodies once more, on the traced interpreter of processes: the trace of
a run has what its processes did and the `drop`s of the body itself.  It changes nothing
(`traceRun_forgets`), and what it says adds up (`traceRun_settles`): the counters of the run count
its frames, the drops of every node are balanced, and the run ends with a drop when the body
executed one or a process site ended with one.
-/

namespace Limpid.Pipeline

open Dsl Eval

variable {World : Type}

/-- The state of a traced run of a pipeline. -/
abbrev TracedRun (World : Type) := Traced World × PipelineExecOut

/-- What a step of the body collects. -/
def collect (change : PipelineExecOut → PipelineExecOut) : Eval (TracedRun World) Unit :=
  fun (traced, out) => some (.ok (), (traced, change out))

namespace IrPipelineExecCtx

variable (ctx : IrPipelineExecCtx World)

/-- An expression is evaluated; nothing is traced. -/
def traceExpr {α : Type} (x : Eval (Machine World) α) : Eval (TracedRun World) α :=
  onFst (onFst x)

/-- A record of a failure. -/
def traceRecord (record : ErroredEventContext) : Eval (TracedRun World) Unit :=
  collect fun out => { out with errored := out.errored ++ [record] }

/-- `execSites`, traced. -/
def traceSites (event : BorrowedEvent) :
    List ProcessSite → Eval (TracedRun World) (Option BorrowedEvent × PipelineTermination)
  | [] => ok (some event, .finished)
  | site :: rest => do
      match ← onFst (attempt
        (ctx.registry.traceCall ctx.depth (.known site.body) site.metricNode event)) with
      | .ok (some event) => traceSites event rest
      | .ok none => ok (none, .dropped)
      | .error message => do
          traceRecord (ctx.record site.name (siteReason site.kind message))
          ok (none, .errored)

/-- `execOutput`, traced. -/
def traceOutput (event : BorrowedEvent) (name : String) (timerSlot : OutputTimerSlot) :
    Eval (TracedRun World) (Option BorrowedEvent × PipelineTermination) :=
  if ctx.pipeline.outputTimers.length ≤ timerSlot then bail "output timer slot is out of range"
  else do
    collect fun out => { out with outputs := out.outputs ++ [(name, ctx.snapshot name event)] }
    ok (some event, .finished)

mutual

/-- `exec_ir_pipeline_body`. -/
def traceBody (event : BorrowedEvent) :
    List PipelineCode → Eval (TracedRun World) (Option BorrowedEvent × PipelineTermination)
  | [] => ok (some event, .finished)
  | statement :: rest => do
      match ← traceStatement event statement with
      | (some event, _) => traceBody event rest
      | (none, termination) => ok (none, termination)

/-- A statement of a pipeline, traced. -/
def traceStatement (event : BorrowedEvent) :
    PipelineCode → Eval (TracedRun World) (Option BorrowedEvent × PipelineTermination)
  | .input _ => ok (some event, .finished)
  | .processChain sites => ctx.traceSites event sites
  | .output name timerSlot => ctx.traceOutput event name timerSlot
  | .drop => do
      onFst (note fun _ => [.bodyDropped])
      ok (none, .dropped)
  | .finish => ok (none, .finished)
  | .error message => do
      let reason ← traceExpr (ctx.errorMessage event message)
      traceRecord (ctx.record "(pipeline)" reason)
      ok (none, .errored)
  | .ifChain branches none =>
      traceBranches event branches (ok (some event, .finished))
  | .ifChain branches (some elseBody) =>
      traceBranches event branches (traceBody event elseBody)
  | .switch discriminant arms => do
      let value ← traceExpr (ctx.evalExpr event discriminant)
      traceArms event value arms

def traceBranches (event : BorrowedEvent) :
    List (Expr × List PipelineCode) →
      Eval (TracedRun World) (Option BorrowedEvent × PipelineTermination) →
        Eval (TracedRun World) (Option BorrowedEvent × PipelineTermination)
  | [], otherwise => otherwise
  | (condition, body) :: rest, otherwise => do
      let value ← traceExpr (ctx.evalExpr event condition)
      if value.isTruthy ctx.registry.rt then traceBody event body
      else traceBranches event rest otherwise

def traceArms (event : BorrowedEvent) (value : Value) :
    List (Option Expr × List PipelineCode) →
      Eval (TracedRun World) (Option BorrowedEvent × PipelineTermination)
  | [] => ok (some event, .finished)
  | (none, body) :: _ => traceBody event body
  | (some pattern, body) :: rest => do
      let patternValue ← traceExpr (ctx.evalExpr event pattern)
      if valuesMatch ctx.registry.rt value patternValue then traceBody event body
      else traceArms event value rest

end

end IrPipelineExecCtx

/-- `run_pipeline_blueprint_resolved_at`. -/
def traceRun (ctx : IrPipelineExecCtx World) : Eval (Traced World) PipelineRunResult :=
  fun traced =>
    match ctx.traceBody ctx.originalEvent.viewIn ctx.pipeline.code (traced, .empty) with
    | none => none
    | some (.error message, (traced, _)) => some (.error message, traced)
    | some (.ok (_, termination), (traced, out)) =>
        some (.ok ⟨out.outputs, !out.outputs.isEmpty, termination, out.errored⟩, traced)

/-! ## Forgetting the trace -/

section Forget

/-- The state of a run without the trace. -/
def untraced (state : TracedRun World) : RunState World := (state.1.1, state.2)

theorem forgets_lift {α : Type} {x : Eval (Traced World) α} {y : Eval (Machine World) α}
    (h : Forgets x y) : ForgetsBy (T := RunState World) untraced (onFst x) (onFst y) := by
  rintro ⟨traced, out⟩
  have hx := h traced
  unfold onFst untraced
  dsimp only
  rw [← hx]
  cases x traced with
  | none => rfl
  | some result => rfl

theorem forgets_expr {α : Type} (x : Eval (Machine World) α) :
    ForgetsBy (T := RunState World) untraced (IrPipelineExecCtx.traceExpr x) (onFst x) :=
  forgets_lift (forgets_onFst x)

namespace IrPipelineExecCtx

variable (ctx : IrPipelineExecCtx World)

theorem forgets_record (record : ErroredEventContext) :
    ForgetsBy untraced (traceRecord record : Eval (TracedRun World) Unit) (pushErrored record) :=
  fun _ => rfl

theorem traceSites_forgets (event : BorrowedEvent) (sites : List ProcessSite) :
    ForgetsBy untraced (ctx.traceSites event sites) (ctx.execSites event sites) := by
  induction sites generalizing event with
  | nil => exact forgets_ok _
  | cons site rest ih =>
      rw [traceSites, execSites]
      refine forgets_bind (forgets_lift (forgets_attempt
        (ctx.registry.traceCall_forgets _ _ _ _))) fun outcome => ?_
      rcases outcome with message | _ | next
      · exact forgets_bind (forgets_record _) fun _ => forgets_ok _
      · exact forgets_ok _
      · exact ih next

theorem traceOutput_forgets (event : BorrowedEvent) (name : String)
    (timerSlot : OutputTimerSlot) :
    ForgetsBy untraced (ctx.traceOutput event name timerSlot)
      (ctx.execOutput event name timerSlot) := by
  unfold traceOutput execOutput
  exact forgets_ite (forgets_bail _) (forgets_bind (fun _ => rfl) fun _ => forgets_ok _)

mutual

theorem traceBody_forgets (event : BorrowedEvent) : ∀ code : List PipelineCode,
    ForgetsBy untraced (ctx.traceBody event code) (ctx.execIrPipelineBody event code)
  | [] => by
      rw [traceBody, execIrPipelineBody]
      exact forgets_ok _
  | statement :: rest => by
      rw [traceBody, execIrPipelineBody]
      refine forgets_bind (traceStatement_forgets event statement) fun result => ?_
      obtain ⟨_ | next, termination⟩ := result
      · exact forgets_ok _
      · exact traceBody_forgets next rest

theorem traceStatement_forgets (event : BorrowedEvent) : ∀ statement : PipelineCode,
    ForgetsBy untraced (ctx.traceStatement event statement)
      (ctx.execPipelineStatement event statement)
  | .input _ => by
      rw [traceStatement, execPipelineStatement]
      exact forgets_ok _
  | .processChain sites => by
      rw [traceStatement, execPipelineStatement]
      exact ctx.traceSites_forgets event sites
  | .output name timerSlot => by
      rw [traceStatement, execPipelineStatement]
      exact ctx.traceOutput_forgets event name timerSlot
  | .drop => by
      rw [traceStatement, execPipelineStatement]
      exact fun _ => rfl
  | .finish => by
      rw [traceStatement, execPipelineStatement]
      exact forgets_ok _
  | .error message => by
      rw [traceStatement, execPipelineStatement]
      exact forgets_bind (forgets_expr _) fun reason =>
        forgets_bind (forgets_record _) fun _ => forgets_ok _
  | .ifChain branches none => by
      rw [traceStatement, execPipelineStatement]
      exact traceBranches_forgets event branches (forgets_ok _)
  | .ifChain branches (some elseBody) => by
      rw [traceStatement, execPipelineStatement]
      exact traceBranches_forgets event branches (traceBody_forgets event elseBody)
  | .switch discriminant arms => by
      rw [traceStatement, execPipelineStatement]
      exact forgets_bind (forgets_expr _) fun value => traceArms_forgets event value arms

theorem traceBranches_forgets (event : BorrowedEvent) :
    ∀ (branches : List (Expr × List PipelineCode))
      {x : Eval (TracedRun World) (Option BorrowedEvent × PipelineTermination)}
      {y : Eval (RunState World) (Option BorrowedEvent × PipelineTermination)},
      ForgetsBy untraced x y → ForgetsBy untraced (ctx.traceBranches event branches x)
        (ctx.execPipelineBranches event branches y)
  | [], _, _, h => by
      rw [traceBranches, execPipelineBranches]
      exact h
  | (condition, body) :: rest, _, _, h => by
      rw [traceBranches, execPipelineBranches]
      exact forgets_bind (forgets_expr _) fun value =>
        forgets_ite (traceBody_forgets event body) (traceBranches_forgets event rest h)

theorem traceArms_forgets (event : BorrowedEvent) (value : Value) :
    ∀ arms : List (Option Expr × List PipelineCode),
      ForgetsBy untraced (ctx.traceArms event value arms) (ctx.execPipelineArms event value arms)
  | [] => by
      rw [traceArms, execPipelineArms]
      exact forgets_ok _
  | (none, body) :: _ => by
      rw [traceArms, execPipelineArms]
      exact traceBody_forgets event body
  | (some pattern, body) :: rest => by
      rw [traceArms, execPipelineArms]
      exact forgets_bind (forgets_expr _) fun patternValue =>
        forgets_ite (traceBody_forgets event body) (traceArms_forgets event value rest)

end

end IrPipelineExecCtx

/-- **The trace of a pipeline changes nothing.** -/
theorem traceRun_forgets (ctx : IrPipelineExecCtx World) :
    Forgets (traceRun ctx) (runPipelineBlueprintResolvedAt ctx) := by
  rintro ⟨machine, trace⟩
  have hbody := ctx.traceBody_forgets ctx.originalEvent.viewIn ctx.pipeline.code
    ((machine, trace), .empty)
  unfold traceRun runPipelineBlueprintResolvedAt
  change _ = ctx.execIrPipelineBody _ _ (machine, .empty) at hbody
  dsimp only
  rw [← hbody]
  cases ctx.traceBody ctx.originalEvent.viewIn ctx.pipeline.code ((machine, trace), .empty) with
  | none => rfl
  | some result =>
      obtain ⟨_ | _, _⟩ := result
      · rfl
      · rfl

end Forget

/-! ## What the trace adds up to -/

/-- Nodes that only the body of the pipeline calls. -/
structure IrProcessRegistry.Rooted (registry : IrProcessRegistry World)
    (roots : List MetricNodeId) : Prop where
  forest : registry.Forest
  nodup : roots.Nodup
  apart : ∀ (parent : ℕ) (descriptor : MetricNodeDescriptor) (child : MetricNodeId),
    registry.metricNodes[parent]? = some descriptor → child ∈ descriptor.children → child ∉ roots

/-- A process site calls a root, and its body is there. -/
def IrProcessRegistry.SiteFits (registry : IrProcessRegistry World) (roots : List MetricNodeId)
    (site : ProcessSite) : Prop :=
  site.metricNode ∈ roots ∧ registry.processBodies[site.body]? ≠ none

/-- A part of the run of a pipeline, which ends with a drop or does not. -/
structure Settles (registry : IrProcessRegistry World) (roots : List MetricNodeId)
    (before after : Machine World) (trace : List (TraceEntry World)) (dropped : Bool) : Prop where
  tallies : Tallies before.2 after.2 trace
  balanced : Balanced registry trace fun _ => 0
  body : bodyDrops trace + childDrops trace roots = dropped.toNat

section Settles

variable {registry : IrProcessRegistry World} {roots : List MetricNodeId}
  {before middle after : Machine World} {trace more : List (TraceEntry World)} {dropped : Bool}

/-- The frames of processes have no drops of the body, and leave no root. -/
theorem Runs.inner (hroots : registry.Rooted roots) {node : MetricNodeId}
    {handled : Option String} {event : BorrowedEvent} {ended : Ended}
    (h : Runs registry node handled event before trace ended after) :
    ∀ entry ∈ trace, entry.isBodyDrop = false ∧
      ∀ root ∈ roots, ∀ how, entry.isLeft root how = false := by
  induction h with
  | done => exact fun _ h => absurd h List.not_mem_nil
  | fails => exact fun _ h => absurd h List.not_mem_nil
  | andThen _ _ ih ih' => exact List.forall_mem_append.mpr ⟨ih, ih'⟩
  | evaluated _ ih => exact ih
  | reached _ _ _ _ _ _ ih => exact List.forall_mem_cons.mpr ⟨⟨rfl, fun _ _ _ => rfl⟩, ih⟩
  | drop => exact List.forall_mem_singleton.mpr ⟨rfl, fun _ _ _ => rfl⟩
  | assigned =>
      intro entry hentry
      obtain ⟨key, -, rfl⟩ := List.mem_map.mp hentry
      exact ⟨rfl, fun _ _ _ => rfl⟩
  | merged =>
      intro entry hentry
      obtain ⟨key, -, rfl⟩ := List.mem_map.mp hentry
      exact ⟨rfl, fun _ _ _ => rfl⟩
  | recovered _ _ ih ih' =>
      refine List.forall_mem_append.mpr ⟨List.forall_mem_append.mpr ⟨ih, ih'⟩, ?_⟩
      exact List.forall_mem_singleton.mpr ⟨rfl, fun _ _ _ => rfl⟩
  | unrecovered _ _ _ ih ih' => exact List.forall_mem_append.mpr ⟨ih, ih'⟩
  | called _ _ _ _ hedge _ _ ih =>
      obtain ⟨descriptor, _, _, hparent, -, -, -, hchild⟩ := resolveEdge_eq_ok hedge
      have hapart := hroots.apart _ descriptor _ hparent hchild
      refine List.forall_mem_cons.mpr ⟨⟨rfl, fun _ _ _ => rfl⟩, ?_⟩
      refine List.forall_mem_append.mpr ⟨ih, List.forall_mem_singleton.mpr ⟨rfl, ?_⟩⟩
      intro root hroot how
      have hne := ne_of_mem_of_not_mem hroot hapart
      simp [TraceEntry.isLeft, Ne.symm hne]
  | internal => exact List.forall_mem_singleton.mpr ⟨rfl, fun _ _ _ => rfl⟩

namespace Settles

theorem quiet : Settles registry roots before before [] false where
  tallies := .nil
  balanced := .nil
  body := by
    rw [childDrops_eq_zero fun _ h => absurd h List.not_mem_nil]
    rfl

/-- The state of the functions does not matter. -/
theorem counters (hcounters : middle.2 = before.2)
    (h : Settles registry roots middle after trace dropped) :
    Settles registry roots before after trace dropped where
  tallies := hcounters ▸ h.tallies
  balanced := h.balanced
  body := h.body

theorem drop : Settles registry roots before before [.bodyDropped] true where
  tallies := Tallies.nil.cons fun _ _ => rfl
  balanced := Balanced.nil.cons (fun _ => rfl) fun _ _ => rfl
  body := by
    rw [childDrops_eq_zero (List.forall_mem_singleton.mpr fun _ => rfl)]
    rfl

theorem andThen (h : Settles registry roots before middle trace false)
    (h' : Settles registry roots middle after more dropped) :
    Settles registry roots before after (trace ++ more) dropped where
  tallies := h.tallies.append h'.tallies
  balanced := (h.balanced.append h'.balanced).congr fun _ => rfl
  body := by
    have hfirst := h.body
    have hsecond := h'.body
    rw [bodyDrops_append, childDrops_append, ← hsecond]
    have hnone : Bool.toNat false = 0 := rfl
    omega

/-- The frame of a process site. -/
theorem site (hroots : registry.Rooted roots) {root : MetricNodeId} (hroot : root ∈ roots)
    {event : BorrowedEvent} {ended : Ended}
    (h : Runs registry root none event (started root before) trace ended middle) :
    Settles registry roots before (settled root ended middle) (trace ++ [.left root ended])
      ended.isDropped where
  tallies := (h.tallies hroots.forest).frame
  balanced := by
    intro node descriptor hnode
    have hinner := h.balanced hroots.forest node descriptor hnode
    have hcount : descriptor.children.count root = 0 := List.count_eq_zero.mpr fun hchild =>
      hroots.apart node descriptor root hnode hchild hroot
    rw [ownDrops_append, childDrops_append, framesDropped_append, childDrops_left,
      framesDropped_left, hcount, ite_self]
    have hown : ownDrops node [(.left root ended : TraceEntry World)] = 0 := rfl
    rw [hown]
    unfold pendingAt at hinner
    simp only [eq_comm (a := node)] at hinner
    omega
  body := by
    have hinner := h.inner hroots
    have hbody : bodyDrops trace = 0 := List.countP_eq_zero.mpr fun entry hentry => by
      rw [(hinner entry hentry).1]
      exact Bool.false_ne_true
    have hchildren : childDrops trace roots = 0 := by
      refine List.sum_eq_zero fun count hcount => ?_
      obtain ⟨child, hchild, rfl⟩ := List.mem_map.mp hcount
      refine List.countP_eq_zero.mpr fun entry hentry => ?_
      rw [(hinner entry hentry).2 child hchild]
      exact Bool.false_ne_true
    have hleft : bodyDrops [(.left root ended : TraceEntry World)] = 0 := rfl
    rw [bodyDrops_append, childDrops_append, childDrops_left, hbody, hchildren, hleft,
      List.count_eq_one_of_mem hroots.nodup hroot]
    cases ended.isDropped <;> rfl

end Settles

/-- A run of the body that ends with a drop. -/
def endsDropped : Except String (Option BorrowedEvent × PipelineTermination) → Bool
  | .ok (none, .dropped) => true
  | _ => false

/-- What a computation of the body adds to the trace adds up. -/
def RunSettles (registry : IrProcessRegistry World) (roots : List MetricNodeId)
    (x : Eval (TracedRun World) (Option BorrowedEvent × PipelineTermination)) : Prop :=
  ∀ machine trace out result after trace' out',
    x ((machine, trace), out) = some (result, ((after, trace'), out')) →
    (∀ event termination, result = .ok (some event, termination) → termination = .finished) ∧
      ∃ added, trace' = trace ++ added ∧
        Settles registry roots machine after added (endsDropped result)

/-! ### The interpreter -/

theorem runSettles_stop {termination : PipelineTermination} (event : Option BorrowedEvent)
    (hevent : ∀ next, event = some next → termination = .finished)
    (hdropped : termination ≠ .dropped) :
    RunSettles registry roots (ok (event, termination)) := by
  intro machine trace out result after trace' out' h
  obtain ⟨rfl, ⟨rfl, rfl⟩, rfl⟩ : .ok (event, termination) = result ∧
      (machine = after ∧ trace = trace') ∧ out = out' := by simpa [ok] using h
  refine ⟨fun next _ heq => ?_, [], (List.append_nil _).symm, ?_⟩
  · obtain ⟨rfl, rfl⟩ := Prod.mk.inj (Except.ok.inj heq)
    exact hevent next rfl
  · have hends : endsDropped (.ok (event, termination)) = false := by
      cases event <;> cases termination <;> first | rfl | exact absurd rfl hdropped
    rw [hends]
    exact .quiet

theorem runSettles_next (event : BorrowedEvent) :
    RunSettles registry roots (ok (some event, .finished)) :=
  runSettles_stop _ (fun _ _ => rfl) fun h => nomatch h

theorem runSettles_bail (message : String) : RunSettles registry roots (bail message) := by
  intro machine trace out result after trace' out' h
  obtain ⟨rfl, ⟨rfl, rfl⟩, rfl⟩ : .error message = result ∧
      (machine = after ∧ trace = trace') ∧ out = out' := by simpa [bail] using h
  exact ⟨(fun _ _ h => by cases h), [], (List.append_nil _).symm, .quiet⟩

theorem runSettles_drop :
    RunSettles registry roots (do
      onFst (note fun _ => [.bodyDropped])
      ok (none, .dropped)) := by
  intro machine trace out result after trace' out' h
  obtain ⟨rfl, ⟨rfl, rfl⟩, rfl⟩ : .ok (none, .dropped) = result ∧
      (machine = after ∧ trace ++ [.bodyDropped] = trace') ∧ out = out' := by
    have hrun : some (Except.ok (none, PipelineTermination.dropped),
        ((machine, trace ++ [.bodyDropped]), out)) = some (result, ((after, trace'), out')) := h
    simpa using hrun
  exact ⟨(fun _ _ h => nomatch h), [.bodyDropped], rfl, .drop⟩

/-- A computation that changes the state of the functions only. -/
def KeepsCounters {α : Type} (x : Eval (Machine World) α) : Prop :=
  ∀ machine outcome after, x machine = some (outcome, after) → after.2 = machine.2

theorem keepsCounters_onFst {α : Type} (x : Eval World α) : KeepsCounters (onFst x) :=
  fun _ _ _ h => (onFst_eq_some h).2

theorem keepsCounters_errorMessage (ctx : IrPipelineExecCtx World) (event : BorrowedEvent)
    (message : Option Expr) : KeepsCounters (ctx.errorMessage event message) := by
  intro machine outcome after h
  cases message with
  | none =>
      obtain ⟨-, rfl⟩ : _ = outcome ∧ machine = after := by
        simpa [IrPipelineExecCtx.errorMessage, ok] using h
      rfl
  | some e =>
      rcases bind_eq_some h with ⟨reason, s', hfail, heq⟩ | ⟨value, s', hok, h⟩
      · obtain ⟨-, rfl⟩ := Prod.mk.inj heq
        exact keepsCounters_onFst _ _ _ _ hfail
      · obtain ⟨-, rfl⟩ : _ = outcome ∧ s' = after := by simpa [ok] using h
        exact keepsCounters_onFst _ _ _ _ hok

/-- An expression is evaluated before the rest. -/
theorem runSettles_expr {α : Type} {x : Eval (Machine World) α}
    {f : α → Eval (TracedRun World) (Option BorrowedEvent × PipelineTermination)}
    (hx : KeepsCounters x) (h : ∀ a, RunSettles registry roots (f a)) :
    RunSettles registry roots (IrPipelineExecCtx.traceExpr x >>= f) := by
  intro machine trace out result after trace' out' hrun
  rcases bind_eq_some hrun with ⟨message, ⟨⟨middle, kept⟩, out''⟩, hexpr, heq⟩ |
    ⟨a, ⟨⟨middle, kept⟩, out''⟩, hexpr, hf⟩
  · obtain ⟨hinner, rfl⟩ := onFst_eq_some (x := onFst x) hexpr
    obtain ⟨hmachine, rfl⟩ := onFst_eq_some hinner
    obtain ⟨rfl, ⟨rfl, rfl⟩, rfl⟩ : result = .error message ∧ (after = middle ∧ trace' = kept) ∧
        out' = out'' := by simpa using heq
    refine ⟨(fun _ _ h => nomatch h), [], (List.append_nil _).symm, .counters ?_ .quiet⟩
    exact hx _ _ _ hmachine
  · obtain ⟨hinner, rfl⟩ := onFst_eq_some (x := onFst x) hexpr
    obtain ⟨hmachine, rfl⟩ := onFst_eq_some hinner
    obtain ⟨hfinished, added, htrace, hsettles⟩ := h a _ _ _ result after trace' out' hf
    exact ⟨hfinished, added, htrace, .counters (hx _ _ _ hmachine) hsettles⟩

theorem runSettles_collect
    {x : Eval (TracedRun World) (Option BorrowedEvent × PipelineTermination)}
    (change : PipelineExecOut → PipelineExecOut) (h : RunSettles registry roots x) :
    RunSettles registry roots (collect change >>= fun _ => x) :=
  fun machine trace out => h machine trace (change out)

theorem runSettles_ite {p : Prop} [Decidable p]
    {x y : Eval (TracedRun World) (Option BorrowedEvent × PipelineTermination)}
    (hx : RunSettles registry roots x) (hy : RunSettles registry roots y) :
    RunSettles registry roots (if p then x else y) := by
  split
  · exact hx
  · exact hy

theorem runSettles_andThen
    {x : Eval (TracedRun World) (Option BorrowedEvent × PipelineTermination)}
    {rest : BorrowedEvent → Eval (TracedRun World) (Option BorrowedEvent × PipelineTermination)}
    (hx : RunSettles registry roots x) (hrest : ∀ event, RunSettles registry roots (rest event)) :
    RunSettles registry roots (do
      match ← x with
      | (some event, _) => rest event
      | (none, termination) => ok (none, termination)) := by
  intro machine trace out result after trace' out' h
  rcases bind_eq_some h with ⟨message, ⟨⟨middle, kept⟩, out''⟩, hfail, heq⟩ |
    ⟨⟨event, termination⟩, ⟨⟨middle, kept⟩, out''⟩, hok, h⟩
  · obtain ⟨rfl, ⟨rfl, rfl⟩, rfl⟩ : result = .error message ∧ (after = middle ∧ trace' = kept) ∧
        out' = out'' := by simpa using heq
    exact hx machine trace out _ _ _ _ hfail
  · obtain ⟨hfinished, added, rfl, hsettles⟩ := hx machine trace out _ middle kept out'' hok
    cases event with
    | some event =>
        obtain rfl := hfinished event termination rfl
        obtain ⟨hlast, more, rfl, hmore⟩ := hrest event middle _ out'' result after trace' out' h
        exact ⟨hlast, added ++ more, List.append_assoc .., hsettles.andThen hmore⟩
    | none =>
        obtain ⟨rfl, ⟨rfl, rfl⟩, rfl⟩ : .ok (none, termination) = result ∧
            (middle = after ∧ trace ++ added = trace') ∧ out'' = out' := by simpa [ok] using h
        exact ⟨hfinished, added, rfl, hsettles⟩

end Settles

namespace IrPipelineExecCtx

variable {ctx : IrPipelineExecCtx World} {roots : List MetricNodeId}

/-- A site that continues hands the event on; any other way it ends is the end of the run. -/
theorem traceSites_settles (hroots : ctx.registry.Rooted roots) (event : BorrowedEvent)
    {sites : List ProcessSite} (hsites : ∀ site ∈ sites, ctx.registry.SiteFits roots site) :
    RunSettles ctx.registry roots (ctx.traceSites event sites) := by
  induction sites generalizing event with
  | nil => exact runSettles_next event
  | cons site rest ih =>
      obtain ⟨⟨hroot, hbody⟩, hrest⟩ := List.forall_mem_cons.mp hsites
      rw [traceSites]
      intro machine trace out result after trace' out' h
      rcases bind_eq_some h with ⟨message, s', hattempt, -⟩ |
        ⟨called, ⟨⟨middle, kept⟩, out''⟩, hattempt, h⟩
      · obtain ⟨hrun, -⟩ := onFst_eq_some hattempt
        obtain ⟨_, _, -, heq⟩ := attempt_eq_some hrun
        exact nomatch heq
      · obtain ⟨hrun, rfl⟩ := onFst_eq_some hattempt
        obtain ⟨called', ⟨middle', kept'⟩, hcalled, heq⟩ := attempt_eq_some hrun
        obtain ⟨rfl, rfl, rfl⟩ : called = called' ∧ middle = middle' ∧ kept = kept' := by
          simpa using heq
        have hframe : ∃ added, kept = trace ++ added ∧
            Settles ctx.registry roots machine middle added (Ended.ofCall called).isDropped := by
          rcases traceCall_runs ctx.depth (.known site.body) site.metricNode event machine trace
            called middle kept hcalled with ⟨rfl, ⟨message, rfl⟩, hafter⟩ |
              ⟨added, ended, last, rfl, -, hruns, hended, rfl⟩
          · refine ⟨[], (List.append_nil _).symm, ?_⟩
            obtain rfl := hafter.resolve_right fun ⟨bodyId, htarget, hnone⟩ => by
              obtain rfl := ProcessTarget.known.inj htarget
              exact hbody hnone
            exact .quiet
          · refine ⟨_, rfl, ?_⟩
            rw [hended]
            exact .site hroots hroot hruns
        obtain ⟨added, rfl, hsettles⟩ := hframe
        rcases called with message | _ | next
        · have hstop := runSettles_collect
            (fun out => { out with
              errored := out.errored ++
                [ctx.record site.name (siteReason site.kind message)] })
            (@runSettles_stop _ ctx.registry roots .errored none
              (fun _ h => nomatch h) (fun h => nomatch h))
          obtain ⟨hlast, more, rfl, hmore⟩ := hstop middle _ out'' result after trace' out' h
          exact ⟨hlast, added ++ more, List.append_assoc .., hsettles.andThen hmore⟩
        · obtain ⟨rfl, ⟨rfl, rfl⟩, rfl⟩ : .ok (none, .dropped) = result ∧
              (middle = after ∧ trace ++ added = trace') ∧ out'' = out' := by simpa [ok] using h
          exact ⟨(fun _ _ h => nomatch h), added, rfl, hsettles⟩
        · obtain ⟨hlast, more, rfl, hmore⟩ :=
            ih next hrest middle _ out'' result after trace' out' h
          exact ⟨hlast, added ++ more, List.append_assoc .., hsettles.andThen hmore⟩

/-- The process sites of a body call roots. -/
def SitesFit (ctx : IrPipelineExecCtx World) (roots : List MetricNodeId)
    (sites : List ProcessSite) : Prop :=
  ∀ site ∈ sites, ctx.registry.SiteFits roots site

theorem sitesFit_append {sites more : List ProcessSite} :
    ctx.SitesFit roots (sites ++ more) ↔ ctx.SitesFit roots sites ∧ ctx.SitesFit roots more :=
  List.forall_mem_append

open Blueprint

mutual

theorem traceBody_settles (hroots : ctx.registry.Rooted roots) (event : BorrowedEvent) :
    ∀ code : List PipelineCode, ctx.SitesFit roots (codeSites code) →
      RunSettles ctx.registry roots (ctx.traceBody event code)
  | [], _ => by
      rw [traceBody]
      exact runSettles_next event
  | statement :: rest, hsites => by
      obtain ⟨hfirst, hrest⟩ := sitesFit_append.mp hsites
      rw [traceBody]
      exact runSettles_andThen (traceStatement_settles hroots event statement hfirst)
        fun next => traceBody_settles hroots next rest hrest

theorem traceStatement_settles (hroots : ctx.registry.Rooted roots) (event : BorrowedEvent) :
    ∀ statement : PipelineCode, ctx.SitesFit roots (statementSites statement) →
      RunSettles ctx.registry roots (ctx.traceStatement event statement)
  | .input _, _ => by
      rw [traceStatement]
      exact runSettles_next event
  | .processChain sites, hsites => by
      rw [traceStatement]
      exact traceSites_settles hroots event hsites
  | .output name timerSlot, _ => by
      rw [traceStatement]
      exact runSettles_ite (runSettles_bail _) (runSettles_collect _ (runSettles_next event))
  | .drop, _ => by
      rw [traceStatement]
      exact runSettles_drop
  | .finish, _ => by
      rw [traceStatement]
      exact runSettles_stop none (fun _ h => nomatch h) fun h => PipelineTermination.noConfusion h
  | .error message, _ => by
      rw [traceStatement]
      exact runSettles_expr (keepsCounters_errorMessage ctx event message) fun reason =>
        runSettles_collect _
          (runSettles_stop none (fun _ h => nomatch h) fun h => PipelineTermination.noConfusion h)
  | .ifChain branches none, hsites => by
      rw [traceStatement]
      exact traceBranches_settles hroots event branches hsites (runSettles_next event)
  | .ifChain branches (some elseBody), hsites => by
      obtain ⟨hbranches, helse⟩ := sitesFit_append.mp hsites
      rw [traceStatement]
      exact traceBranches_settles hroots event branches hbranches
        (traceBody_settles hroots event elseBody helse)
  | .switch discriminant arms, hsites => by
      rw [traceStatement]
      exact runSettles_expr (keepsCounters_onFst _) fun value =>
        traceArms_settles hroots event value arms hsites

theorem traceBranches_settles (hroots : ctx.registry.Rooted roots) (event : BorrowedEvent) :
    ∀ (branches : List (Expr × List PipelineCode))
      {x : Eval (TracedRun World) (Option BorrowedEvent × PipelineTermination)},
      ctx.SitesFit roots (branchesSites branches) → RunSettles ctx.registry roots x →
        RunSettles ctx.registry roots (ctx.traceBranches event branches x)
  | [], _, _, hx => by
      rw [traceBranches]
      exact hx
  | (condition, body) :: rest, _, hsites, hx => by
      obtain ⟨hbody, hrest⟩ := sitesFit_append.mp hsites
      rw [traceBranches]
      exact runSettles_expr (keepsCounters_onFst _) fun value =>
        runSettles_ite (traceBody_settles hroots event body hbody)
          (traceBranches_settles hroots event rest hrest hx)

theorem traceArms_settles (hroots : ctx.registry.Rooted roots) (event : BorrowedEvent)
    (value : Value) : ∀ arms : List (Option Expr × List PipelineCode),
    ctx.SitesFit roots (armsSites arms) →
      RunSettles ctx.registry roots (ctx.traceArms event value arms)
  | [], _ => by
      rw [traceArms]
      exact runSettles_next event
  | (none, body) :: _, hsites => by
      rw [traceArms]
      exact traceBody_settles hroots event body (sitesFit_append.mp hsites).1
  | (some pattern, body) :: rest, hsites => by
      obtain ⟨hbody, hrest⟩ := sitesFit_append.mp hsites
      rw [traceArms]
      exact runSettles_expr (keepsCounters_onFst _) fun patternValue =>
        runSettles_ite (traceBody_settles hroots event body hbody)
          (traceArms_settles hroots event value rest hrest)

end

/-- **The trace of a run of a pipeline adds up.** -/
theorem traceRun_settles (hroots : ctx.registry.Rooted roots)
    (hsites : ctx.SitesFit roots (codeSites ctx.pipeline.code)) {machine after : Machine World}
    {trace trace' : List (TraceEntry World)} {outcome : Except String PipelineRunResult}
    (h : traceRun ctx (machine, trace) = some (outcome, (after, trace'))) :
    ∃ added dropped, trace' = trace ++ added ∧
      Settles ctx.registry roots machine after added dropped ∧
      (dropped = true ↔ ∃ result, outcome = .ok result ∧ result.termination = .dropped) := by
  unfold traceRun at h
  cases hbody : ctx.traceBody ctx.originalEvent.viewIn ctx.pipeline.code
      ((machine, trace), .empty) with
  | none => simp [hbody] at h
  | some result =>
      obtain ⟨outcome', ⟨after', kept⟩, out⟩ := result
      obtain ⟨hfinished, added, rfl, hsettles⟩ :=
        traceBody_settles hroots _ _ hsites _ _ _ _ _ _ _ hbody
      rcases outcome' with message | ⟨event, termination⟩
      · obtain ⟨rfl, rfl, rfl⟩ : .error message = outcome ∧ after' = after ∧
            trace ++ added = trace' := by simpa [hbody] using h
        refine ⟨added, _, rfl, hsettles, (fun h => nomatch h), ?_⟩
        rintro ⟨_, hresult, -⟩
        exact nomatch hresult
      · obtain ⟨rfl, rfl, rfl⟩ : _ = outcome ∧ after' = after ∧ trace ++ added = trace' := by
          simpa [hbody] using h
        refine ⟨added, _, rfl, hsettles, fun hdropped => ⟨_, rfl, ?_⟩, ?_⟩
        · cases event <;> cases termination <;> first | rfl | exact nomatch hdropped
        · rintro ⟨_, hresult, hdropped⟩
          obtain rfl := Except.ok.inj hresult
          obtain rfl : termination = .dropped := hdropped
          cases event with
          | none => rfl
          | some event => exact nomatch hfinished event _ rfl

end IrPipelineExecCtx

end Limpid.Pipeline
