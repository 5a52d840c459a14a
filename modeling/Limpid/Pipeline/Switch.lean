import Limpid.Arms
import Limpid.Pipeline.Execution

/-!
# Which arm a switch picks

There are three switches: the expression, the statement of a process body and the statement of a
pipeline body.  Each is a loop over its arms (`exprLoop`, `processLoop`, `pipelineLoop`); the
statements compare the scrutinee with `values_match`, the expression with `values_equal`, which
says no to bytes, arrays and objects.  So the expression goes past an arm that the statements take
exactly when the scrutinee is of one of these kinds and equals a pattern that comes before the
default (`switch_forms_agree_iff`).
-/

namespace Limpid.Pipeline

open Dsl Eval Arms

/-! ## Three switches -/

/-- A switch, and where it is evaluated. -/
structure SwitchSite (World : Type) where
  registry : IrProcessRegistry World
  depth : ℕ
  event : BorrowedEvent
  scope : LocalScope
  world : World
  scrutinee : Expr
  patterns : List (Option Expr)

namespace SwitchSite

variable {World : Type} (site : SwitchSite World)

/-- The evaluator at the site. -/
def eval : Expr → Eval World Value := site.registry.evalIn site.depth site.event site.scope

/-- The values of the scrutinee and of the patterns, evaluated in order. -/
def On (target : Value) (values : List (Option Value)) : Prop :=
  ∃ next, site.eval site.scrutinee site.world = some (.ok target, next) ∧
    Yields site.eval next site.patterns values

/-- Whatever the bodies are, the value of the switch expression is that of the body of this
arm. -/
def ExprPicks (i : ℕ) : Prop :=
  ∃ after, ∀ bodies, site.eval (.switchExpr site.scrutinee (arms site.patterns bodies)) site.world =
    site.eval (bodies i) after

/-- The same of the statement of a process body. -/
def ProcessPicks
    (callProcess : String → EdgeSlot → BorrowedEvent → Eval (Machine World) (Option BorrowedEvent))
    (counters : List ProcessCounters) (i : ℕ) : Prop :=
  let evalIn := site.registry.evalIn site.depth
  ∃ after, ∀ bodies, execProcessStatement site.registry.rt evalIn callProcess site.event site.scope
      (.switch site.scrutinee (arms site.patterns bodies)) (site.world, counters) =
    execIrProcessCode site.registry.rt evalIn callProcess site.event site.scope (bodies i) after

/-- The same of the statement of a pipeline body. -/
def PipelinePicks (pipeline : PipelineBlueprint) (originalEvent : OwnedEvent)
    (outputCapture : OutputCapturePolicy) (counters : List ProcessCounters) (out : PipelineExecOut)
    (i : ℕ) : Prop :=
  let ctx : IrPipelineExecCtx World :=
    ⟨site.registry, pipeline, originalEvent, outputCapture, site.depth⟩
  ∃ after, ∀ bodies, ctx.execPipelineStatement site.event
      (.switch site.scrutinee (arms site.patterns bodies)) ((site.world, counters), out) =
    ctx.execIrPipelineBody site.event (bodies i) after

end SwitchSite

/-! ## The loops -/

section Loops

variable {World Rest : Type}

theorem bind_ok {α β : Type} {x : Eval World α} {world next : World} {a : α}
    (h : x world = some (.ok a, next)) (f : α → Eval World β) : (x >>= f) world = f a next := by
  show Eval.bind x f world = f a next
  unfold Eval.bind
  rw [h]

theorem onFst_ok {α : Type} {x : Eval World α} {world next : World} {a : α}
    (h : x world = some (.ok a, next)) (rest : Rest) :
    onFst x (world, rest) = some (.ok a, (next, rest)) := by
  simp only [onFst, h]

/-- The values of patterns do not depend on the rest of the state. -/
theorem Yields.onFst {eval : Expr → Eval World Value} {world : World}
    {patterns : List (Option Expr)} {values : List (Option Value)}
    (h : Yields eval world patterns values) (rest : Rest) :
    Yields (fun e => Pipeline.onFst (eval e)) (world, rest) patterns values := by
  induction h with
  | nil _ => exact .nil _
  | default _ ih => exact .default ih
  | pattern heval _ ih => exact .pattern (onFst_ok heval rest) ih

variable (site : SwitchSite World) (target : Value)

/-- The loop of `switch` as an expression. -/
def exprLoop : Loop site.eval (valuesEqual site.registry.rt) target Expr
    (Option (Except String Value × World)) where
  run arms := evalArms site.registry.rt site.event
    (FunctionRegistry.call site.registry.rt site.registry.funcs site.event site.depth) site.scope
    target arms
  body := site.eval
  otherwise := ok .null
  run_nil _ := rfl
  run_default _ _ _ := rfl
  run_pattern heval := by
    rw [evalArms]
    refine (bind_ok heval _).trans ?_
    split <;> rfl

variable (callProcess :
  String → EdgeSlot → BorrowedEvent → Eval (Machine World) (Option BorrowedEvent))

/-- The loop of `switch` in a process. -/
def processLoop : Loop (fun e => (onFst (site.eval e) : Eval (Machine World) Value))
    (valuesMatch site.registry.rt) target (List ProcessCode)
    (Option (Except String (ExecResult × LocalScope) × Machine World)) where
  run arms := execProcessArms site.registry.rt (site.registry.evalIn site.depth) callProcess
    site.event site.scope target arms
  body code := execIrProcessCode site.registry.rt (site.registry.evalIn site.depth) callProcess
    site.event site.scope code
  otherwise := ok (.continue site.event, site.scope)
  run_nil _ := rfl
  run_default _ _ _ := rfl
  run_pattern heval := by
    rw [execProcessArms]
    refine (bind_ok heval _).trans ?_
    split <;> rfl

variable (ctx : IrPipelineExecCtx World) (event : BorrowedEvent)

/-- The loop of `switch` in a pipeline. -/
def pipelineLoop : Loop (fun e => (onFst (ctx.evalExpr event e) : Eval (RunState World) Value))
    (valuesMatch ctx.registry.rt) target (List PipelineCode)
    (Option (Except String (Option BorrowedEvent × PipelineTermination) × RunState World)) where
  run arms := ctx.execPipelineArms event target arms
  body code := ctx.execIrPipelineBody event code
  otherwise := ok (some event, .finished)
  run_nil _ := rfl
  run_default _ _ _ := rfl
  run_pattern heval := by
    rw [IrPipelineExecCtx.execPipelineArms]
    refine (bind_ok heval _).trans ?_
    split <;> rfl

end Loops

/-! ## The arm each of them picks -/

namespace SwitchSite

variable {World : Type} {site : SwitchSite World} {target : Value} {values : List (Option Value)}

theorem exprPicks_iff (h : site.On target values) (i : ℕ) :
    site.ExprPicks i ↔ select (valuesEqual site.registry.rt) target values = some i := by
  obtain ⟨next, hscrutinee, hyields⟩ := h
  have hpicks := (exprLoop site target).picks_iff hyields (b := .boolLit true) (c := .null)
    (fun _ _ heq => nomatch heq) (fun _ _ heq => nomatch heq) i
  rw [← hpicks]
  have hrun : ∀ bodies, site.eval (.switchExpr site.scrutinee (arms site.patterns bodies))
      site.world = (exprLoop site target).run (arms site.patterns bodies) next := fun bodies => by
    show Dsl.evalExpr _ _ _ _ (.switchExpr _ _) _ = _
    rw [Dsl.evalExpr]
    exact bind_ok hscrutinee _
  unfold ExprPicks Loop.Picks
  simp only [hrun]
  rfl

theorem processPicks_iff (h : site.On target values)
    (callProcess : String → EdgeSlot → BorrowedEvent → Eval (Machine World) (Option BorrowedEvent))
    (counters : List ProcessCounters) (i : ℕ) :
    site.ProcessPicks callProcess counters i ↔
      select (valuesMatch site.registry.rt) target values = some i := by
  obtain ⟨next, hscrutinee, hyields⟩ := h
  have hpicks := (processLoop site target callProcess).picks_iff (Yields.onFst hyields counters)
    (b := [.drop]) (c := []) (fun _ _ heq => nomatch heq) (fun _ _ heq => nomatch heq) i
  rw [← hpicks]
  have hrun : ∀ bodies, execProcessStatement site.registry.rt (site.registry.evalIn site.depth)
      callProcess site.event site.scope (.switch site.scrutinee (arms site.patterns bodies))
      (site.world, counters) = (processLoop site target callProcess).run
        (arms site.patterns bodies) (next, counters) := fun bodies => by
    rw [execProcessStatement]
    exact bind_ok (onFst_ok hscrutinee counters) _
  unfold ProcessPicks Loop.Picks
  simp only [hrun]
  rfl

theorem pipelinePicks_iff (h : site.On target values) (hscope : site.scope = [])
    (pipeline : PipelineBlueprint) (originalEvent : OwnedEvent)
    (outputCapture : OutputCapturePolicy) (counters : List ProcessCounters)
    (out : PipelineExecOut) (i : ℕ) :
    site.PipelinePicks pipeline originalEvent outputCapture counters out i ↔
      select (valuesMatch site.registry.rt) target values = some i := by
  obtain ⟨next, hscrutinee, hyields⟩ := h
  have heval : site.eval = site.registry.evalIn site.depth site.event [] := by
    unfold SwitchSite.eval
    rw [hscope]
  rw [heval] at hscrutinee hyields
  let ctx : IrPipelineExecCtx World :=
    ⟨site.registry, pipeline, originalEvent, outputCapture, site.depth⟩
  have hpicks := (pipelineLoop target ctx site.event).picks_iff
    (Yields.onFst (Yields.onFst hyields counters) out)
    (b := [.drop]) (c := []) (fun _ _ heq => nomatch heq) (fun _ _ heq => nomatch heq) i
  have hrun : ∀ bodies, ctx.execPipelineStatement site.event
      (.switch site.scrutinee (arms site.patterns bodies)) ((site.world, counters), out) =
        (pipelineLoop target ctx site.event).run (arms site.patterns bodies)
          ((next, counters), out) := fun bodies => by
    rw [IrPipelineExecCtx.execPipelineStatement]
    exact bind_ok (onFst_ok (onFst_ok hscrutinee counters) out) _
  refine Iff.trans ?_ hpicks
  unfold PipelinePicks Loop.Picks
  simp only [ctx, hrun]
  rfl

end SwitchSite

/-! ## The two equalities -/

/-- Bytes, an array or an object. -/
def Value.isStructured : Value → Bool
  | .bytes _ | .array _ | .object _ => true
  | _ => false

/-- No pattern before the default is equal to a scrutinee that is bytes, an array or an object. -/
def SwitchAgrees (rt : Runtime) (target : Value) (values : List (Option Value)) : Prop :=
  Value.isStructured target = false ∨
    ∀ value, some value ∈ values.takeWhile Option.isSome → valuesMatch rt target value = false

variable (rt : Runtime) {target : Value}

theorem valuesEqual_of_plain (h : Value.isStructured target = false) :
    valuesEqual rt target = valuesMatch rt target := by
  funext value
  cases target <;> first | exact Bool.noConfusion h | (cases value <;> rfl)

theorem valuesEqual_of_structured (h : Value.isStructured target = true) (value : Value) :
    valuesEqual rt target value = false := by
  cases target <;> first | exact Bool.noConfusion h | (cases value <;> rfl)

theorem select_eq_iff (target : Value) (values : List (Option Value)) :
    select (valuesEqual rt) target values = select (valuesMatch rt) target values ↔
      SwitchAgrees rt target values := by
  cases hkind : Value.isStructured target with
  | false =>
      refine iff_of_true ?_ (Or.inl hkind)
      induction values with
      | nil => rfl
      | cons value rest ih =>
          cases value with
          | none => rfl
          | some value => rw [select, select, valuesEqual_of_plain rt hkind, ih]
  | true =>
      have hcond : SwitchAgrees rt target values ↔ ∀ value,
          some value ∈ values.takeWhile Option.isSome → valuesMatch rt target value = false :=
        or_iff_right (by rw [hkind]; simp)
      rw [hcond]
      clear hcond
      induction values with
      | nil => simp [select]
      | cons value rest ih =>
          cases value with
          | none => simp [select]
          | some value =>
              have hhere : some value ∈ (some value :: rest).takeWhile Option.isSome :=
                List.mem_cons_self
              rw [select, select, if_neg (by rw [valuesEqual_of_structured rt hkind]; simp)]
              by_cases hmatch : valuesMatch rt target value = true
              · rw [if_pos hmatch]
                refine iff_of_false ?_ fun h => absurd (h value hhere) (by rw [hmatch]; simp)
                cases select (valuesEqual rt) target rest <;> simp
              · rw [if_neg hmatch, List.takeWhile_cons_of_pos rfl]
                refine ((Option.map_injective Nat.succ_injective).eq_iff.trans ih).trans ?_
                simp [hmatch]

/-- **The expression picks the arm that the statements pick**, in every switch on these values,
exactly when no bytes, array or object is compared with its equal. -/
theorem switch_forms_agree_iff {World : Type} {expr process pipeline : SwitchSite World}
    {target : Value} {values : List (Option Value)}
    (hexpr : expr.On target values) (hprocess : process.On target values)
    (hpipeline : pipeline.On target values) (hscope : pipeline.scope = [])
    (hrt : process.registry.rt = expr.registry.rt) (hrt' : pipeline.registry.rt = expr.registry.rt)
    (callProcess : String → EdgeSlot → BorrowedEvent → Eval (Machine World) (Option BorrowedEvent))
    (counters : List ProcessCounters) (blueprint : PipelineBlueprint) (originalEvent : OwnedEvent)
    (outputCapture : OutputCapturePolicy) (out : PipelineExecOut) :
    (∀ i, (expr.ExprPicks i ↔ process.ProcessPicks callProcess counters i) ∧
        (expr.ExprPicks i ↔
          pipeline.PipelinePicks blueprint originalEvent outputCapture counters out i)) ↔
      SwitchAgrees expr.registry.rt target values := by
  simp only [SwitchSite.exprPicks_iff hexpr, SwitchSite.processPicks_iff hprocess,
    SwitchSite.pipelinePicks_iff hpipeline hscope, hrt, hrt', and_self]
  rw [← select_eq_iff]
  constructor
  · exact fun h => Option.ext h
  · exact fun h i => by rw [h]

/-! ## Examples -/

/-- A switch on the field `blob` of the workspace with one arm, `workspace.blob` again, and a
default. -/
def blobSite (rt : Runtime) (blob : Value) : SwitchSite Unit where
  registry := ⟨rt, [], [], ⟨fun _ => none, fun _ => false, fun _ => none, fun _ => none⟩⟩
  depth := 0
  event := ⟨7, 0, .v4 .localhost 514, [], [], [("blob", blob)], none⟩
  scope := []
  world := ()
  scrutinee := .ident ["workspace", "blob"]
  patterns := [some (.ident ["workspace", "blob"]), none]

theorem blobSite_on (rt : Runtime) (blob : Value) :
    (blobSite rt blob).On blob [some blob, none] :=
  ⟨(), rfl, @Yields.pattern _ _ _ _ _ () () _ _ _ _ rfl (.default (.nil ()))⟩

/-- An empty blueprint, for a run of a switch on its own. -/
def emptyBlueprint : PipelineBlueprint := ⟨"main", [], [], []⟩

theorem switch_forms_agree_text :
    Value.isStructured (.string "a") = false ∧ ∀ rt callProcess originalEvent, ∀ i,
      ((blobSite rt (.string "a")).ExprPicks i ↔
          (blobSite rt (.string "a")).ProcessPicks callProcess [] i) ∧
        ((blobSite rt (.string "a")).ExprPicks i ↔
          (blobSite rt (.string "a")).PipelinePicks emptyBlueprint originalEvent .stripAll [] .empty
            i) :=
  ⟨rfl, fun rt callProcess originalEvent =>
    (switch_forms_agree_iff (blobSite_on rt _) (blobSite_on rt _) (blobSite_on rt _) rfl rfl rfl
      callProcess [] emptyBlueprint originalEvent .stripAll .empty).mpr (Or.inl rfl)⟩

theorem switch_expr_passes_bytes :
    Value.isStructured (.bytes [255]) = true ∧ ∀ rt,
      (blobSite rt (.bytes [255])).ExprPicks 1 ∧ ¬(blobSite rt (.bytes [255])).ExprPicks 0 ∧
        (∀ callProcess, (blobSite rt (.bytes [255])).ProcessPicks callProcess [] 0) ∧
          ∀ originalEvent, (blobSite rt (.bytes [255])).PipelinePicks emptyBlueprint originalEvent
            .stripAll [] .empty 0 := by
  refine ⟨rfl, fun rt => ⟨?_, ?_, fun callProcess => ?_, fun originalEvent => ?_⟩⟩
  · exact (SwitchSite.exprPicks_iff (blobSite_on rt _) 1).mpr rfl
  · intro h
    exact absurd ((SwitchSite.exprPicks_iff (blobSite_on rt _) 0).mp h) (by
      show ¬some 1 = some 0
      decide)
  · exact (SwitchSite.processPicks_iff (blobSite_on rt _) callProcess [] 0).mpr rfl
  · exact (SwitchSite.pipelinePicks_iff (blobSite_on rt _) rfl emptyBlueprint originalEvent
      .stripAll [] .empty 0).mpr rfl

end Limpid.Pipeline
