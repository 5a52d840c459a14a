import Limpid.Pipeline.Checked
import Limpid.Pipeline.Switch

/-!
# The run of a process with its trace

The interpreter of process bodies once more, keeping a trace of what it does: every statement it
comes to, with the state before it and with the failure that the catch body around it handles;
every workspace key it writes; every catch body that runs to its end; and how every frame ends.
The failure a catch body handles is handed down with the text of the program, so a called process
gets none.

Without the trace it is the interpreter (`traceCall_forgets`).
-/

namespace Limpid.Pipeline

open Dsl Eval

/-- A statement that is about to run. -/
structure Point (World : Type) where
  node : MetricNodeId
  depth : ℕ
  handled : Option String
  event : BorrowedEvent
  scope : LocalScope
  machine : Machine World
  statement : ProcessCode

/-- How a frame ends. -/
inductive Ended where
  | continued (event : BorrowedEvent)
  | dropped
  | failed (message : String)

/-- The frame of a node is left when it has ended; a `drop` of the pipeline body is in no frame. -/
inductive TraceEntry (World : Type) where
  | reached (point : Point World)
  | wrote (key : String)
  | recovered (handled : Option String)
  | left (node : MetricNodeId) (ended : Ended)
  | bodyDropped

/-- The machine, with what has been traced. -/
abbrev Traced (World : Type) := Machine World × List (TraceEntry World)

section Code

variable {World : Type}

/-- Note entries, which may hold the state. -/
def note (entries : Machine World → List (TraceEntry World)) : Eval (Traced World) Unit :=
  fun (machine, trace) => some (.ok (), (machine, trace ++ entries machine))

/-- The workspace key that an assignment writes. -/
def assignedKeys : AssignTarget → List String
  | .workspace (key :: _) => [key]
  | _ => []

/-- The workspace keys that the value of an expression statement writes. -/
def mergedKeys : Value → List String
  | .object entries => entries.map Prod.fst
  | _ => []

variable (rt : Runtime) (evalIn : Evaluator World)
  (callProcess : String → EdgeSlot → BorrowedEvent → Eval (Traced World) (Option BorrowedEvent))
  (node : MetricNodeId) (depth : ℕ)

mutual

/-- `exec_ir_process_code`. -/
def traceCode (handled : Option String) (event : BorrowedEvent) (scope : LocalScope) :
    List ProcessCode → Eval (Traced World) (ExecResult × LocalScope)
  | [] => ok (.continue event, scope)
  | statement :: rest => do
      note fun machine => [.reached ⟨node, depth, handled, event, scope, machine, statement⟩]
      match ← traceStatement handled event scope statement with
      | (.continue event, scope) => traceCode handled event scope rest
      | (.dropped, scope) => ok (.dropped, scope)

/-- A statement of a process, traced. -/
def traceStatement (handled : Option String) (event : BorrowedEvent) (scope : LocalScope) :
    ProcessCode → Eval (Traced World) (ExecResult × LocalScope)
  | .assign target e => do
      let value ← onFst (onFst (evalIn event scope e))
      note fun _ => (assignedKeys target).map .wrote
      ok (.continue (applyAssign rt event target value), scope)
  | .letBinding name e => do
      let value ← onFst (onFst (evalIn event scope e))
      ok (.continue event, scope.bind name value)
  | .call name edgeSlot => do
      match ← callProcess name edgeSlot event with
      | some event => ok (.continue event, scope)
      | none => ok (.dropped, scope)
  | .drop => ok (.dropped, scope)
  | .error none => bail "explicit error routing"
  | .error (some e) => do
      let value ← onFst (onFst (evalIn event scope e))
      bail (valueToString rt value)
  | .ifChain branches none =>
      traceBranches handled event scope branches (ok (.continue event, scope))
  | .ifChain branches (some elseBody) =>
      traceBranches handled event scope branches (traceCode handled event scope elseBody)
  | .switch discriminant arms => do
      let value ← onFst (onFst (evalIn event scope discriminant))
      traceArms handled event scope value arms
  | .tryCatch tryBody catchBody => do
      match ← attempt (traceCode handled event scope tryBody) with
      | .ok result => ok result
      | .error message => do
          let recovered := event.workspaceSet "_error" (.string message)
          match ← traceCode (some message) recovered scope catchBody with
          | (.continue event, scope) => do
              note fun _ => [.recovered handled]
              ok (.continue (event.workspaceRemove "_error"), scope)
          | (.dropped, scope) => ok (.dropped, scope)
  | .expr e => do
      let value ← onFst (onFst (evalIn event scope e))
      let event ← ofExcept (mergeObject event value)
      note fun _ => (mergedKeys value).map .wrote
      ok (.continue event, scope)

def traceBranches (handled : Option String) (event : BorrowedEvent) (scope : LocalScope) :
    List (Expr × List ProcessCode) → Eval (Traced World) (ExecResult × LocalScope) →
      Eval (Traced World) (ExecResult × LocalScope)
  | [], otherwise => otherwise
  | (condition, body) :: rest, otherwise => do
      let value ← onFst (onFst (evalIn event scope condition))
      if value.isTruthy rt then traceCode handled event scope body
      else traceBranches handled event scope rest otherwise

def traceArms (handled : Option String) (event : BorrowedEvent) (scope : LocalScope)
    (value : Value) :
    List (Option Expr × List ProcessCode) → Eval (Traced World) (ExecResult × LocalScope)
  | [] => ok (.continue event, scope)
  | (none, body) :: _ => traceCode handled event scope body
  | (some pattern, body) :: rest => do
      let patternValue ← onFst (onFst (evalIn event scope pattern))
      if valuesMatch rt value patternValue then traceCode handled event scope body
      else traceArms handled event scope value rest

end

end Code

/-! ## Calls of processes -/

namespace IrProcessRegistry

variable {World : Type} (registry : IrProcessRegistry World)

/-- The end of a call, traced. -/
def traceFinishCall (metricNode : MetricNodeId) (x : Eval (Traced World) ExecResult) :
    Eval (Traced World) (Option BorrowedEvent) := do
  match ← attempt x with
  | .ok (.continue event) => do
      onFst (count metricNode .continued)
      note fun _ => [.left metricNode (.continued event)]
      ok (some event)
  | .ok .dropped => do
      onFst (count metricNode .drop)
      note fun _ => [.left metricNode .dropped]
      ok none
  | .error message => do
      onFst (count metricNode .error)
      note fun _ => [.left metricNode (.failed message)]
      bail message

/-- A call, traced, with what runs the body. -/
def traceCallWith (runBody : ProcessBodyCode → BorrowedEvent → Eval (Traced World) ExecResult)
    (target : ProcessTarget) (metricNode : MetricNodeId) (event : BorrowedEvent) :
    Eval (Traced World) (Option BorrowedEvent) := fun state =>
  match registry.metricNodes[metricNode]? with
  | none => bail "metric node id is out of range" state
  | some node =>
      if node.target ≠ target then bail "process body and metric node identity mismatch" state
      else if state.1.2.length ≤ metricNode then bail "process counter id is out of range" state
      else
        (do onFst (count metricNode .start)
            match target with
            | .known bodyId =>
                match registry.processBodies[bodyId]? with
                | none => bail "process body id is out of range"
                | some body => traceFinishCall metricNode (runBody body event)
            | .unknown => traceFinishCall metricNode (ok (.continue event)) :
          Eval (Traced World) (Option BorrowedEvent)) state

/-- A call from the body of another process, traced. -/
def traceCallChild (call : ProcessTarget → MetricNodeId → BorrowedEvent →
    Eval (Traced World) (Option BorrowedEvent)) (metricNode : MetricNodeId) (name : String)
    (edgeSlot : EdgeSlot) (event : BorrowedEvent) :
    Eval (Traced World) (Option BorrowedEvent) := do
  let (target, child) ← ofExcept (registry.resolveEdge metricNode name edgeSlot)
  match ← attempt (call target child event) with
  | .ok next => ok next
  | .error message => bail (processFailed message)

/-- The body of a process, traced. -/
def traceBody (depth : ℕ) (callProcess : String → EdgeSlot → BorrowedEvent →
    Eval (Traced World) (Option BorrowedEvent)) (metricNode : MetricNodeId)
    (body : ProcessBodyCode) (event : BorrowedEvent) : Eval (Traced World) ExecResult := do
  let (result, _) ← traceCode registry.rt (registry.evalIn depth) callProcess metricNode depth
    none event [] body.code
  ok result

/-- Calls nested at most so deep, traced. -/
def traceCall : ℕ → ProcessTarget → MetricNodeId → BorrowedEvent →
    Eval (Traced World) (Option BorrowedEvent)
  | 0, target, metricNode, event =>
      registry.traceCallWith (fun _ _ => diverge) target metricNode event
  | depth + 1, target, metricNode, event =>
      registry.traceCallWith (registry.traceBody (depth + 1)
        (registry.traceCallChild (traceCall depth) metricNode) metricNode) target metricNode event

end IrProcessRegistry

/-! ## Forgetting the trace -/

section Forget

variable {World S T α β : Type}

/-- With less of the state, the first computation is the second one. -/
def ForgetsBy (f : S → T) (x : Eval S α) (y : Eval T α) : Prop :=
  ∀ state, (x state).map (fun result => (result.1, f result.2)) = y (f state)

/-- Without the trace, the first computation is the second one. -/
abbrev Forgets (x : Eval (Traced World) α) (y : Eval (Machine World) α) : Prop :=
  ForgetsBy Prod.fst x y

variable {f : S → T}

theorem forgets_ok (a : α) : ForgetsBy f (ok a) (ok a) := fun _ => rfl

theorem forgets_bail (message : String) :
    ForgetsBy f (bail message : Eval S α) (bail message) := fun _ => rfl

theorem forgets_diverge : ForgetsBy f (diverge : Eval S α) diverge := fun _ => rfl

theorem forgets_ofExcept (x : Except String α) :
    ForgetsBy f (ofExcept x : Eval S α) (ofExcept x) := by
  cases x with
  | error message => exact forgets_bail message
  | ok a => exact forgets_ok a

theorem forgets_bind {x : Eval S α} {y : Eval T α} {g : α → Eval S β} {h : α → Eval T β}
    (hx : ForgetsBy f x y) (hg : ∀ a, ForgetsBy f (g a) (h a)) :
    ForgetsBy f (x >>= g) (y >>= h) := by
  intro state
  show (Eval.bind x g state).map _ = Eval.bind y h (f state)
  unfold Eval.bind
  rw [← hx state]
  cases hresult : x state with
  | none => rfl
  | some result =>
      obtain ⟨outcome, state⟩ := result
      cases outcome with
      | error message => rfl
      | ok a => exact hg a state

theorem forgets_attempt {x : Eval S α} {y : Eval T α} (h : ForgetsBy f x y) :
    ForgetsBy f (attempt x) (attempt y) := by
  intro state
  unfold attempt
  rw [← h state]
  cases x state with
  | none => rfl
  | some result => rfl

theorem forgets_ite {x x' : Eval S α} {y y' : Eval T α} {p : Prop} [Decidable p]
    (h : ForgetsBy f x y) (h' : ForgetsBy f x' y') :
    ForgetsBy f (if p then x else x') (if p then y else y') := by
  split
  · exact h
  · exact h'

theorem forgets_onFst (x : Eval (Machine World) α) : Forgets (onFst x) x := by
  rintro ⟨machine, trace⟩
  unfold onFst
  cases h : x machine with
  | none => simp only [h, Option.map_none]
  | some result => simp only [h, Option.map_some]

/-- What is only noted is forgotten. -/
theorem forgets_note {x : Eval (Traced World) β} {y : Eval (Machine World) β}
    (entries : Machine World → List (TraceEntry World)) (h : Forgets x y) :
    Forgets (note entries >>= fun _ => x) y := fun (machine, trace) =>
  h (machine, trace ++ entries machine)

variable (rt : Runtime) (evalIn : Evaluator World)
  {traced : String → EdgeSlot → BorrowedEvent → Eval (Traced World) (Option BorrowedEvent)}
  {callProcess : String → EdgeSlot → BorrowedEvent → Eval (Machine World) (Option BorrowedEvent)}
  (node : MetricNodeId) (depth : ℕ)

mutual

theorem traceCode_forgets (hcall : ∀ name slot event, Forgets (traced name slot event)
    (callProcess name slot event)) (handled : Option String) (event : BorrowedEvent)
    (scope : LocalScope) : ∀ code : List ProcessCode,
    Forgets (traceCode rt evalIn traced node depth handled event scope code)
      (execIrProcessCode rt evalIn callProcess event scope code)
  | [] => forgets_ok _
  | statement :: rest => by
      rw [traceCode, execIrProcessCode]
      refine forgets_note _ (forgets_bind
        (traceStatement_forgets hcall handled event scope statement) fun result => ?_)
      obtain ⟨_ | _, scope⟩ := result
      · exact traceCode_forgets hcall handled _ scope rest
      · exact forgets_ok _

theorem traceStatement_forgets (hcall : ∀ name slot event, Forgets (traced name slot event)
    (callProcess name slot event)) (handled : Option String) (event : BorrowedEvent)
    (scope : LocalScope) : ∀ statement : ProcessCode,
    Forgets (traceStatement rt evalIn traced node depth handled event scope statement)
      (execProcessStatement rt evalIn callProcess event scope statement)
  | .assign target e => by
      rw [traceStatement, execProcessStatement]
      exact forgets_bind (forgets_onFst _) fun value => forgets_note _ (forgets_ok _)
  | .letBinding name e => by
      rw [traceStatement, execProcessStatement]
      exact forgets_bind (forgets_onFst _) fun value => forgets_ok _
  | .call name edgeSlot => by
      rw [traceStatement, execProcessStatement]
      refine forgets_bind (hcall name edgeSlot event) fun next => ?_
      cases next with
      | none => exact forgets_ok _
      | some event => exact forgets_ok _
  | .drop => by
      rw [traceStatement, execProcessStatement]
      exact forgets_ok _
  | .error none => by
      rw [traceStatement, execProcessStatement]
      exact forgets_bail _
  | .error (some e) => by
      rw [traceStatement, execProcessStatement]
      exact forgets_bind (forgets_onFst _) fun value => forgets_bail _
  | .ifChain branches none => by
      rw [traceStatement, execProcessStatement]
      exact traceBranches_forgets hcall handled event scope branches (forgets_ok _)
  | .ifChain branches (some elseBody) => by
      rw [traceStatement, execProcessStatement]
      exact traceBranches_forgets hcall handled event scope branches
        (traceCode_forgets hcall handled event scope elseBody)
  | .switch discriminant arms => by
      rw [traceStatement, execProcessStatement]
      exact forgets_bind (forgets_onFst _) fun value =>
        traceArms_forgets hcall handled event scope value arms
  | .tryCatch tryBody catchBody => by
      rw [traceStatement, execProcessStatement]
      refine forgets_bind (forgets_attempt
        (traceCode_forgets hcall handled event scope tryBody)) fun outcome => ?_
      cases outcome with
      | ok result => exact forgets_ok result
      | error message =>
          refine forgets_bind (traceCode_forgets hcall _ _ scope catchBody) fun result => ?_
          obtain ⟨_ | _, scope⟩ := result
          · exact forgets_note _ (forgets_ok _)
          · exact forgets_ok _
  | .expr e => by
      rw [traceStatement, execProcessStatement]
      exact forgets_bind (forgets_onFst _) fun value =>
        forgets_bind (forgets_ofExcept _) fun event => forgets_note _ (forgets_ok _)

theorem traceBranches_forgets (hcall : ∀ name slot event, Forgets (traced name slot event)
    (callProcess name slot event)) (handled : Option String) (event : BorrowedEvent)
    (scope : LocalScope) : ∀ (branches : List (Expr × List ProcessCode))
    {x : Eval (Traced World) (ExecResult × LocalScope)}
    {y : Eval (Machine World) (ExecResult × LocalScope)}, Forgets x y →
    Forgets (traceBranches rt evalIn traced node depth handled event scope branches x)
      (execProcessBranches rt evalIn callProcess event scope branches y)
  | [], _, _, h => by
      rw [traceBranches, execProcessBranches]
      exact h
  | (condition, body) :: rest, _, _, h => by
      rw [traceBranches, execProcessBranches]
      exact forgets_bind (forgets_onFst _) fun value =>
        forgets_ite (traceCode_forgets hcall handled event scope body)
          (traceBranches_forgets hcall handled event scope rest h)

theorem traceArms_forgets (hcall : ∀ name slot event, Forgets (traced name slot event)
    (callProcess name slot event)) (handled : Option String) (event : BorrowedEvent)
    (scope : LocalScope) (value : Value) : ∀ arms : List (Option Expr × List ProcessCode),
    Forgets (traceArms rt evalIn traced node depth handled event scope value arms)
      (execProcessArms rt evalIn callProcess event scope value arms)
  | [] => by
      rw [traceArms, execProcessArms]
      exact forgets_ok _
  | (none, body) :: _ => by
      rw [traceArms, execProcessArms]
      exact traceCode_forgets hcall handled event scope body
  | (some pattern, body) :: rest => by
      rw [traceArms, execProcessArms]
      exact forgets_bind (forgets_onFst _) fun patternValue =>
        forgets_ite (traceCode_forgets hcall handled event scope body)
          (traceArms_forgets hcall handled event scope value rest)

end

end Forget

namespace IrProcessRegistry

variable {World : Type} (registry : IrProcessRegistry World)

theorem traceFinishCall_forgets (metricNode : MetricNodeId) {x : Eval (Traced World) ExecResult}
    {y : Eval (Machine World) ExecResult} (h : Forgets x y) :
    Forgets (traceFinishCall metricNode x) (finishCall metricNode y) := by
  refine forgets_bind (forgets_attempt h) fun outcome => ?_
  rcases outcome with message | event | _
  · exact forgets_bind (forgets_onFst _) fun _ => forgets_note _ (forgets_bail message)
  · exact forgets_bind (forgets_onFst _) fun _ => forgets_note _ (forgets_ok _)
  · exact forgets_bind (forgets_onFst _) fun _ => forgets_note _ (forgets_ok none)

theorem traceCallWith_forgets
    {traced : ProcessBodyCode → BorrowedEvent → Eval (Traced World) ExecResult}
    {runBody : ProcessBodyCode → BorrowedEvent → Eval (Machine World) ExecResult}
    (h : ∀ body event, Forgets (traced body event) (runBody body event)) (target : ProcessTarget)
    (metricNode : MetricNodeId) (event : BorrowedEvent) :
    Forgets (registry.traceCallWith traced target metricNode event)
      (registry.callWith runBody target metricNode event) := by
  rintro ⟨machine, trace⟩
  unfold traceCallWith callWith
  cases registry.metricNodes[metricNode]? with
  | none => rfl
  | some node =>
      dsimp only
      split
      · rfl
      · split
        · rfl
        · refine forgets_bind (forgets_onFst _) (fun _ => ?_) (machine, trace)
          cases target with
          | unknown => exact traceFinishCall_forgets metricNode (forgets_ok _)
          | known bodyId =>
              dsimp only
              cases registry.processBodies[bodyId]? with
              | none => exact forgets_bail _
              | some body => exact traceFinishCall_forgets metricNode (h body event)

/-- **The trace changes nothing.** -/
theorem traceCall_forgets (depth : ℕ) (target : ProcessTarget) (metricNode : MetricNodeId)
    (event : BorrowedEvent) :
    Forgets (registry.traceCall depth target metricNode event)
      (registry.call depth target metricNode event) := by
  induction depth generalizing target metricNode event with
  | zero =>
      exact registry.traceCallWith_forgets (fun _ _ => forgets_diverge) target metricNode event
  | succ depth ih =>
      rw [traceCall, call]
      refine registry.traceCallWith_forgets (fun body event => ?_) target metricNode event
      refine forgets_bind (traceCode_forgets _ _ metricNode (depth + 1) (fun name slot event => ?_)
        none event [] body.code) fun result => forgets_ok result.1
      refine forgets_bind (forgets_ofExcept _) fun found => ?_
      refine forgets_bind (forgets_attempt (ih found.1 found.2 event)) fun outcome => ?_
      cases outcome with
      | ok next => exact forgets_ok next
      | error message => exact forgets_bail _

end IrProcessRegistry

end Limpid.Pipeline
