import Limpid.Pipeline.Trace

/-!
# The shape of a run

A run of a process body, without the text of the body: what it does to the event and the counters,
what it adds to its trace and how it ends.  `Runs` has one rule for each kind of step, so that an
argument about runs is an induction on it.  A call of a process is the run of a frame, counted
when it starts and when it has ended.

Every run of the interpreter has this shape (`traceCall_runs`).
-/

namespace Limpid.Pipeline

open Dsl Eval

variable {World : Type}

namespace Ended

/-- What the caller of a process sees. -/
def returned : Ended → Ended
  | failed message => failed (processFailed message)
  | ended => ended

theorem returned_eq_continued {ended : Ended} {event : BorrowedEvent} :
    ended.returned = continued event ↔ ended = continued event := by
  cases ended with
  | failed message => exact ⟨(fun h => nomatch h), (fun h => nomatch h)⟩
  | _ => rfl

/-- What leaving a frame counts. -/
def update : Ended → ProcessCounters → ProcessCounters
  | continued _ => .continued
  | dropped => .drop
  | failed _ => .error

/-- How a body ends a frame. -/
def ofCode : Except String (ExecResult × LocalScope) → Ended
  | .ok (.continue event, _) => continued event
  | .ok (.dropped, _) => dropped
  | .error message => failed message

/-- How a call ends a frame. -/
def ofCall : Except String (Option BorrowedEvent) → Ended
  | .ok (some event) => continued event
  | .ok none => dropped
  | .error message => failed message

end Ended

/-- The counters when the frame of a node starts. -/
def started (node : MetricNodeId) (machine : Machine World) : Machine World :=
  (machine.1, machine.2.modify node .start)

/-- The counters when the frame of a node has ended. -/
def settled (node : MetricNodeId) (ended : Ended) (machine : Machine World) : Machine World :=
  (machine.1, machine.2.modify node ended.update)

/-- A call that reports no internal error. -/
def IrProcessRegistry.CallFits (registry : IrProcessRegistry World) (target : ProcessTarget)
    (node : MetricNodeId) (machine : Machine World) : Prop :=
  (∃ descriptor, registry.metricNodes[node]? = some descriptor ∧ descriptor.target = target) ∧
    node < machine.2.length ∧
    ∀ bodyId, target = .known bodyId → registry.processBodies[bodyId]? ≠ none

/-- From an event, in the frame of a node and under the failure that is handled: the trace, how
the run ends and the state after it. -/
inductive Runs (registry : IrProcessRegistry World) : MetricNodeId → Option String →
    BorrowedEvent → Machine World → List (TraceEntry World) → Ended → Machine World → Prop where
  | done {node handled event machine} :
      Runs registry node handled event machine [] (.continued event) machine
  | fails {node handled event machine message} :
      Runs registry node handled event machine [] (.failed message) machine
  | andThen {node handled event next machine middle after trace more ended} :
      Runs registry node handled event machine trace (.continued next) middle →
      Runs registry node handled next middle more ended after →
      Runs registry node handled event machine (trace ++ more) ended after
  | evaluated {node handled event world machine after trace ended} :
      Runs registry node handled event (world, machine.2) trace ended after →
      Runs registry node handled event machine trace ended after
  | reached {node handled event machine after trace ended} {point : Point World} :
      point.node = node → point.handled = handled → point.event = event →
      (∀ name edgeSlot, point.statement ≠ .call name edgeSlot) → point.statement ≠ .drop →
      Runs registry node handled event machine trace ended after →
      Runs registry node handled event machine (.reached point :: trace) ended after
  | drop {node handled event machine} {point : Point World} :
      point.node = node → point.handled = handled → point.event = event →
      point.statement = .drop →
      Runs registry node handled event machine [.reached point] .dropped machine
  | assigned {node handled event machine target value} :
      Runs registry node handled event machine ((assignedKeys target).map .wrote)
        (.continued (applyAssign registry.rt event target value)) machine
  | merged {node handled event next machine value} : mergeObject event value = .ok next →
      Runs registry node handled event machine ((mergedKeys value).map .wrote)
        (.continued next) machine
  | recovered {node handled event next machine middle after trace more message} :
      Runs registry node handled event machine trace (.failed message) middle →
      Runs registry node (some message) (event.workspaceSet "_error" (.string message)) middle
        more (.continued next) after →
      Runs registry node handled event machine (trace ++ more ++ [.recovered handled])
        (.continued (next.workspaceRemove "_error")) after
  | unrecovered {node handled event machine middle after trace more message ended} :
      Runs registry node handled event machine trace (.failed message) middle →
      Runs registry node (some message) (event.workspaceSet "_error" (.string message)) middle
        more ended after →
      (∀ next, ended ≠ .continued next) →
      Runs registry node handled event machine (trace ++ more) ended after
  | called {node handled event machine after trace ended name edgeSlot target child}
      {point : Point World} :
      point.node = node → point.handled = handled → point.event = event →
      point.statement = .call name edgeSlot →
      registry.resolveEdge node name edgeSlot = .ok (target, child) →
      registry.CallFits target child machine →
      Runs registry child none event (started child machine) trace ended after →
      Runs registry node handled event machine
        (.reached point :: (trace ++ [.left child ended])) ended.returned
        (settled child ended after)
  | internal {node handled event machine after name edgeSlot message} {point : Point World} :
      point.node = node → point.handled = handled → point.event = event →
      point.statement = .call name edgeSlot →
      (after = machine ∨ ∃ bodyId child, registry.processBodies[bodyId]? = none ∧
        registry.resolveEdge node name edgeSlot = .ok (.known bodyId, child)) →
      Runs registry node handled event machine [.reached point] (.failed message) after

/-! ## The interpreter -/

section Interpreter

variable (registry : IrProcessRegistry World)

/-- Every run of a computation adds to the trace and has a shape. -/
def RunsAs (node : MetricNodeId) (handled : Option String) (event : BorrowedEvent)
    (x : Eval (Traced World) (ExecResult × LocalScope)) : Prop :=
  ∀ machine trace outcome after trace', x (machine, trace) = some (outcome, (after, trace')) →
    ∃ added, trace' = trace ++ added ∧
      Runs registry node handled event machine added (.ofCode outcome) after

/-- What a call of a body does, as `Runs` has it after the call is reached. -/
def CallRunsAs (node : MetricNodeId) (name : String) (edgeSlot : EdgeSlot) (event : BorrowedEvent)
    (x : Eval (Traced World) (Option BorrowedEvent)) : Prop :=
  ∀ machine trace outcome after trace', x (machine, trace) = some (outcome, (after, trace')) →
    (trace' = trace ∧ (∃ message, outcome = .error message) ∧
      (after = machine ∨ ∃ bodyId child, registry.processBodies[bodyId]? = none ∧
        registry.resolveEdge node name edgeSlot = .ok (.known bodyId, child))) ∨
    ∃ added ended target child middle, trace' = trace ++ (added ++ [.left child ended]) ∧
      registry.resolveEdge node name edgeSlot = .ok (target, child) ∧
      registry.CallFits target child machine ∧
      Runs registry child none event (started child machine) added ended middle ∧
      .ofCall outcome = ended.returned ∧ after = settled child ended middle

variable {registry} {node : MetricNodeId} {handled : Option String} {event : BorrowedEvent}

theorem bind_eq_some {S α β : Type} {x : Eval S α} {f : α → Eval S β} {s : S}
    {result : Except String β × S} (h : (x >>= f) s = some result) :
    (∃ message s', x s = some (.error message, s') ∧ result = (.error message, s')) ∨
      ∃ a s', x s = some (.ok a, s') ∧ f a s' = some result := by
  change Eval.bind x f s = some result at h
  unfold Eval.bind at h
  cases hx : x s with
  | none =>
      rw [hx] at h
      exact nomatch h
  | some first =>
      obtain ⟨outcome, s'⟩ := first
      rw [hx] at h
      cases outcome with
      | error message => exact Or.inl ⟨message, s', rfl, (Option.some.inj h).symm⟩
      | ok a => exact Or.inr ⟨a, s', rfl, h⟩

theorem onFst_eq_some {S R α : Type} {x : Eval S α} {state state' : S} {rest rest' : R}
    {outcome : Except String α} (h : onFst x (state, rest) = some (outcome, (state', rest'))) :
    x state = some (outcome, state') ∧ rest' = rest := by
  unfold onFst at h
  cases hx : x state with
  | none =>
      simp only [hx] at h
      exact nomatch h
  | some result =>
      simp only [hx, Option.some.injEq, Prod.mk.injEq] at h
      obtain ⟨rfl, rfl, rfl⟩ := h
      exact ⟨rfl, rfl⟩

theorem attempt_eq_some {S α : Type} {x : Eval S α} {s : S}
    {result : Except String (Except String α) × S} (h : attempt x s = some result) :
    ∃ outcome s', x s = some (outcome, s') ∧ result = (.ok outcome, s') := by
  unfold attempt at h
  cases hx : x s with
  | none =>
      rw [hx] at h
      exact nomatch h
  | some first =>
      rw [hx] at h
      exact ⟨first.1, first.2, rfl, (Option.some.inj h).symm⟩

theorem runsAs_ok (scope : LocalScope) : RunsAs registry node handled event
    (ok (.continue event, scope)) := by
  intro machine trace outcome after trace' h
  obtain ⟨rfl, rfl, rfl⟩ : _ = outcome ∧ machine = after ∧ trace = trace' := by
    simpa [ok] using h
  exact ⟨[], (List.append_nil _).symm, .done⟩

theorem runsAs_bail (message : String) : RunsAs registry node handled event (bail message) := by
  intro machine trace outcome after trace' h
  obtain ⟨rfl, rfl, rfl⟩ : _ = outcome ∧ machine = after ∧ trace = trace' := by
    simpa [bail] using h
  exact ⟨[], (List.append_nil _).symm, .fails⟩

/-- An expression is evaluated before the rest. -/
theorem runsAs_eval {x : Eval World Value}
    {f : Value → Eval (Traced World) (ExecResult × LocalScope)}
    (h : ∀ value, RunsAs registry node handled event (f value)) :
    RunsAs registry node handled event (onFst (onFst x) >>= f) := by
  rintro ⟨world, counters⟩ trace outcome after trace' hrun
  rcases bind_eq_some hrun with ⟨message, ⟨⟨world', counters'⟩, kept⟩, hx, heq⟩ |
    ⟨value, ⟨⟨world', counters'⟩, kept⟩, hx, hf⟩
  · obtain ⟨hmachine, rfl⟩ := onFst_eq_some hx
    obtain ⟨-, rfl⟩ := onFst_eq_some hmachine
    obtain ⟨rfl, rfl, rfl⟩ : outcome = .error message ∧ after = (world', counters') ∧
        trace' = kept := by
      simpa using heq
    exact ⟨[], (List.append_nil _).symm, .evaluated .fails⟩
  · obtain ⟨hmachine, rfl⟩ := onFst_eq_some hx
    obtain ⟨-, rfl⟩ := onFst_eq_some hmachine
    obtain ⟨added, hadded, hruns⟩ := h value _ _ outcome after trace' hf
    exact ⟨added, hadded, .evaluated hruns⟩

/-- What is noted comes first in what is added. -/
theorem note_eq_some {α : Type} {entries : Machine World → List (TraceEntry World)}
    {x : Eval (Traced World) α} {machine after : Machine World}
    {trace trace' : List (TraceEntry World)} {outcome : Except String α}
    (h : (note entries >>= fun _ => x) (machine, trace) = some (outcome, (after, trace'))) :
    x (machine, trace ++ entries machine) = some (outcome, (after, trace')) := h

theorem runsAs_branch {p : Prop} [Decidable p] {x y : Eval (Traced World) (ExecResult × LocalScope)}
    (hx : RunsAs registry node handled event x) (hy : RunsAs registry node handled event y) :
    RunsAs registry node handled event (if p then x else y) := by
  split
  · exact hx
  · exact hy

/-- The body of a catch, after a try body that failed. -/
theorem runsAs_tryCatch {x : Eval (Traced World) (ExecResult × LocalScope)}
    {catchWith : String → Eval (Traced World) (ExecResult × LocalScope)}
    (hx : RunsAs registry node handled event x)
    (hcatch : ∀ message, RunsAs registry node (some message)
      (event.workspaceSet "_error" (.string message)) (catchWith message)) :
    RunsAs registry node handled event (do
      match ← attempt x with
      | .ok result => ok result
      | .error message => do
          match ← catchWith message with
          | (.continue event, scope) => do
              note fun _ => [.recovered handled]
              ok (.continue (event.workspaceRemove "_error"), scope)
          | (.dropped, scope) => ok (.dropped, scope)) := by
  intro machine trace outcome after trace' h
  rcases bind_eq_some h with ⟨message, s', hattempt, -⟩ | ⟨tried, s', hattempt, h⟩
  · obtain ⟨_, _, -, heq⟩ := attempt_eq_some hattempt
    exact nomatch heq
  · obtain ⟨tried', ⟨middle, kept⟩, htried, heq⟩ := attempt_eq_some hattempt
    obtain ⟨rfl, rfl⟩ : tried = tried' ∧ s' = (middle, kept) := by simpa using heq
    obtain ⟨added, rfl, hruns⟩ := hx machine trace tried middle kept htried
    cases tried with
    | ok result =>
        obtain ⟨rfl, rfl, rfl⟩ : _ = outcome ∧ middle = after ∧ trace ++ added = trace' := by
          simpa [ok] using h
        exact ⟨added, rfl, hruns⟩
    | error message =>
        rcases bind_eq_some h with ⟨reason, ⟨last, kept⟩, hfail, heq⟩ |
          ⟨⟨result, scope⟩, ⟨last, kept⟩, hcaught, h⟩
        · obtain ⟨more, rfl, hmore⟩ := hcatch message middle _ _ last kept hfail
          obtain ⟨rfl, rfl, rfl⟩ : outcome = .error reason ∧ after = last ∧
              trace' = trace ++ added ++ more := by simpa using heq
          exact ⟨added ++ more, List.append_assoc ..,
            .unrecovered hruns hmore (fun _ heq => nomatch heq)⟩
        · obtain ⟨more, rfl, hmore⟩ := hcatch message middle _ _ last kept hcaught
          cases result with
          | «continue» next =>
              obtain ⟨rfl, rfl, rfl⟩ : _ = outcome ∧ last = after ∧
                  trace ++ added ++ more ++ [.recovered handled] = trace' := by
                simpa [ok, note] using note_eq_some h
              exact ⟨added ++ more ++ [.recovered handled], by simp only [List.append_assoc],
                .recovered hruns hmore⟩
          | dropped =>
              obtain ⟨rfl, rfl, rfl⟩ : _ = outcome ∧ last = after ∧
                  trace ++ added ++ more = trace' := by simpa [ok] using h
              exact ⟨added ++ more, List.append_assoc ..,
                .unrecovered hruns hmore (fun _ heq => nomatch heq)⟩

/-- One statement after another. -/
theorem runsAs_andThen {x : Eval (Traced World) (ExecResult × LocalScope)}
    {rest : BorrowedEvent → LocalScope → Eval (Traced World) (ExecResult × LocalScope)}
    (hx : RunsAs registry node handled event x)
    (hrest : ∀ event scope, RunsAs registry node handled event (rest event scope)) :
    RunsAs registry node handled event (do
      match ← x with
      | (.continue event, scope) => rest event scope
      | (.dropped, scope) => ok (.dropped, scope)) := by
  intro machine trace outcome after trace' h
  rcases bind_eq_some h with ⟨message, ⟨middle, kept⟩, hfail, heq⟩ |
    ⟨⟨result, scope⟩, ⟨middle, kept⟩, hok, h⟩
  · obtain ⟨added, rfl, hruns⟩ := hx machine trace _ middle kept hfail
    obtain ⟨rfl, rfl, rfl⟩ : outcome = .error message ∧ after = middle ∧ trace' = trace ++ added :=
      by simpa using heq
    exact ⟨added, rfl, hruns⟩
  · obtain ⟨added, rfl, hruns⟩ := hx machine trace _ middle kept hok
    cases result with
    | «continue» next =>
        obtain ⟨more, rfl, hmore⟩ := hrest next scope middle _ outcome after trace' h
        exact ⟨added ++ more, List.append_assoc .., .andThen hruns hmore⟩
    | dropped =>
        obtain ⟨rfl, rfl, rfl⟩ : _ = outcome ∧ middle = after ∧ trace ++ added = trace' := by
          simpa [ok] using h
        exact ⟨added, rfl, hruns⟩

/-- The points of a statement in the frame of a node. -/
def PointsOf (node : MetricNodeId) (handled : Option String) (event : BorrowedEvent)
    (statement : ProcessCode) (point : Machine World → Point World) : Prop :=
  ∀ machine, (point machine).node = node ∧ (point machine).handled = handled ∧
    (point machine).event = event ∧ (point machine).statement = statement

variable {statement : ProcessCode} {point : Machine World → Point World}

theorem runsAs_reached {x : Eval (Traced World) (ExecResult × LocalScope)}
    (hpoint : PointsOf node handled event statement point)
    (hcall : ∀ name edgeSlot, statement ≠ .call name edgeSlot) (hdrop : statement ≠ .drop)
    (hx : RunsAs registry node handled event x) :
    RunsAs registry node handled event
      (note (fun machine => [.reached (point machine)]) >>= fun _ => x) := by
  intro machine trace outcome after trace' h
  obtain ⟨added, rfl, hruns⟩ := hx machine _ outcome after trace' (note_eq_some h)
  obtain ⟨hnode, hhandled, hevent, hstatement⟩ := hpoint machine
  exact ⟨.reached (point machine) :: added, List.append_assoc ..,
    .reached hnode hhandled hevent (hstatement ▸ hcall) (hstatement ▸ hdrop) hruns⟩

theorem runsAs_drop (hpoint : PointsOf node handled event .drop point) (scope : LocalScope) :
    RunsAs registry node handled event
      (note (fun machine => [.reached (point machine)]) >>= fun _ => ok (.dropped, scope)) := by
  intro machine trace outcome after trace' h
  obtain ⟨rfl, rfl, rfl⟩ : _ = outcome ∧ machine = after ∧
      trace ++ [.reached (point machine)] = trace' := by
    simpa [ok] using note_eq_some h
  obtain ⟨hnode, hhandled, hevent, hstatement⟩ := hpoint machine
  exact ⟨_, rfl, .drop hnode hhandled hevent hstatement⟩

theorem runsAs_call {name : String} {edgeSlot : EdgeSlot}
    {x : Eval (Traced World) (Option BorrowedEvent)}
    (hpoint : PointsOf node handled event (.call name edgeSlot) point)
    (hx : CallRunsAs registry node name edgeSlot event x) (scope : LocalScope) :
    RunsAs registry node handled event
      (note (fun machine => [.reached (point machine)]) >>= fun _ => do
        match ← x with
        | some event => ok (.continue event, scope)
        | none => ok (.dropped, scope)) := by
  intro machine trace outcome after trace' h
  obtain ⟨hnode, hhandled, hevent, hstatement⟩ := hpoint machine
  -- what the statement makes of the outcome of the call
  have hcall : ∃ called, x (machine, trace ++ [.reached (point machine)]) =
      some (called, (after, trace')) ∧ Ended.ofCode outcome = .ofCall called := by
    rcases bind_eq_some (note_eq_some h) with ⟨message, s', hfail, heq⟩ | ⟨next, s', hok, hend⟩
    · obtain ⟨rfl, rfl⟩ : outcome = .error message ∧ (after, trace') = s' := by
        simpa using heq
      exact ⟨_, hfail, rfl⟩
    · cases next with
      | none =>
          obtain ⟨rfl, rfl⟩ : _ = outcome ∧ s' = (after, trace') := by simpa [ok] using hend
          exact ⟨_, hok, rfl⟩
      | some next =>
          obtain ⟨rfl, rfl⟩ : _ = outcome ∧ s' = (after, trace') := by simpa [ok] using hend
          exact ⟨_, hok, rfl⟩
  obtain ⟨called, hrun, hended⟩ := hcall
  rcases hx machine _ called after trace' hrun with ⟨rfl, ⟨message, rfl⟩, hinternal⟩ |
    ⟨added, ended, target, child, middle, rfl, hedge, hfits, hruns, hreturned, rfl⟩
  · rw [hended]
    exact ⟨_, rfl, .internal hnode hhandled hevent hstatement hinternal⟩
  · rw [hended, hreturned]
    exact ⟨.reached (point machine) :: (added ++ [.left child ended]), List.append_assoc ..,
      .called hnode hhandled hevent hstatement hedge hfits hruns⟩

variable {evalIn : Evaluator World} {depth : ℕ}
  {callProcess : String → EdgeSlot → BorrowedEvent → Eval (Traced World) (Option BorrowedEvent)}

mutual

theorem traceCode_runsAs
    (hcall : ∀ name slot event, CallRunsAs registry node name slot event
      (callProcess name slot event)) (handled : Option String) (event : BorrowedEvent)
    (scope : LocalScope) : ∀ code : List ProcessCode, RunsAs registry node handled event
      (traceCode registry.rt evalIn callProcess node depth handled event scope code)
  | [] => by
      rw [traceCode]
      exact runsAs_ok scope
  | statement :: rest => by
      rw [traceCode]
      have hpoints : PointsOf node handled event statement fun machine =>
          (⟨node, depth, handled, event, scope, machine, statement⟩ : Point World) :=
        fun _ => ⟨rfl, rfl, rfl, rfl⟩
      have hfirst := traceStatement_runsAs hcall handled event scope statement hpoints
      exact runsAs_andThen hfirst fun next scope =>
        traceCode_runsAs hcall handled next scope rest

/-- A statement with the note that it is reached. -/
theorem traceStatement_runsAs
    (hcall : ∀ name slot event, CallRunsAs registry node name slot event
      (callProcess name slot event)) (handled : Option String) (event : BorrowedEvent)
    (scope : LocalScope) : ∀ (statement : ProcessCode) {point : Machine World → Point World},
    PointsOf node handled event statement point → RunsAs registry node handled event
      (note (fun machine => [.reached (point machine)]) >>= fun _ =>
        traceStatement registry.rt evalIn callProcess node depth handled event scope statement)
  | .assign target e, _, hpoint => by
      refine runsAs_reached hpoint (fun _ _ h => nomatch h) (fun h => nomatch h) ?_
      rw [traceStatement]
      refine runsAs_eval fun value machine trace outcome after trace' h => ?_
      obtain ⟨rfl, rfl, rfl⟩ : _ = outcome ∧ machine = after ∧
          trace ++ (assignedKeys target).map .wrote = trace' := by
        simpa [ok] using note_eq_some h
      exact ⟨_, rfl, .assigned⟩
  | .letBinding name e, _, hpoint => by
      refine runsAs_reached hpoint (fun _ _ h => nomatch h) (fun h => nomatch h) ?_
      rw [traceStatement]
      exact runsAs_eval fun value => runsAs_ok _
  | .call name edgeSlot, _, hpoint => by
      rw [traceStatement]
      exact runsAs_call hpoint (hcall name edgeSlot event) scope
  | .drop, _, hpoint => by
      rw [traceStatement]
      exact runsAs_drop hpoint scope
  | .error none, _, hpoint => by
      refine runsAs_reached hpoint (fun _ _ h => nomatch h) (fun h => nomatch h) ?_
      rw [traceStatement]
      exact runsAs_bail _
  | .error (some e), _, hpoint => by
      refine runsAs_reached hpoint (fun _ _ h => nomatch h) (fun h => nomatch h) ?_
      rw [traceStatement]
      exact runsAs_eval fun value => runsAs_bail _
  | .ifChain branches none, _, hpoint => by
      refine runsAs_reached hpoint (fun _ _ h => nomatch h) (fun h => nomatch h) ?_
      rw [traceStatement]
      exact traceBranches_runsAs hcall handled event scope branches (runsAs_ok scope)
  | .ifChain branches (some elseBody), _, hpoint => by
      refine runsAs_reached hpoint (fun _ _ h => nomatch h) (fun h => nomatch h) ?_
      rw [traceStatement]
      exact traceBranches_runsAs hcall handled event scope branches
        (traceCode_runsAs hcall handled event scope elseBody)
  | .switch discriminant arms, _, hpoint => by
      refine runsAs_reached hpoint (fun _ _ h => nomatch h) (fun h => nomatch h) ?_
      rw [traceStatement]
      exact runsAs_eval fun value => traceArms_runsAs hcall handled event scope value arms
  | .tryCatch tryBody catchBody, _, hpoint => by
      refine runsAs_reached hpoint (fun _ _ h => nomatch h) (fun h => nomatch h) ?_
      rw [traceStatement]
      exact runsAs_tryCatch (traceCode_runsAs hcall handled event scope tryBody)
        (fun message => traceCode_runsAs hcall (some message) _ scope catchBody)
  | .expr e, _, hpoint => by
      refine runsAs_reached hpoint (fun _ _ h => nomatch h) (fun h => nomatch h) ?_
      rw [traceStatement]
      refine runsAs_eval fun value => ?_
      -- the object that a bare expression gives goes into the workspace
      cases hmerge : mergeObject event value with
      | error message => exact runsAs_bail message
      | ok next =>
          intro machine trace outcome after trace' h
          change (note (fun _ => (mergedKeys value).map .wrote) >>= fun _ =>
            ok (.continue next, scope)) (machine, trace) = some (outcome, after, trace') at h
          obtain ⟨rfl, rfl, rfl⟩ : _ = outcome ∧ machine = after ∧
              trace ++ (mergedKeys value).map .wrote = trace' := by
            simpa [ok] using note_eq_some h
          exact ⟨_, rfl, .merged hmerge⟩

theorem traceBranches_runsAs
    (hcall : ∀ name slot event, CallRunsAs registry node name slot event
      (callProcess name slot event)) (handled : Option String) (event : BorrowedEvent)
    (scope : LocalScope) : ∀ (branches : List (Expr × List ProcessCode))
    {x : Eval (Traced World) (ExecResult × LocalScope)}, RunsAs registry node handled event x →
    RunsAs registry node handled event
      (traceBranches registry.rt evalIn callProcess node depth handled event scope branches x)
  | [], _, hx => by
      rw [traceBranches]
      exact hx
  | (condition, body) :: rest, _, hx => by
      rw [traceBranches]
      exact runsAs_eval fun value =>
        runsAs_branch (traceCode_runsAs hcall handled event scope body)
          (traceBranches_runsAs hcall handled event scope rest hx)

theorem traceArms_runsAs
    (hcall : ∀ name slot event, CallRunsAs registry node name slot event
      (callProcess name slot event)) (handled : Option String) (event : BorrowedEvent)
    (scope : LocalScope) (value : Value) : ∀ arms : List (Option Expr × List ProcessCode),
    RunsAs registry node handled event
      (traceArms registry.rt evalIn callProcess node depth handled event scope value arms)
  | [] => by
      rw [traceArms]
      exact runsAs_ok scope
  | (none, body) :: _ => by
      rw [traceArms]
      exact traceCode_runsAs hcall handled event scope body
  | (some pattern, body) :: rest => by
      rw [traceArms]
      exact runsAs_eval fun patternValue =>
        runsAs_branch (traceCode_runsAs hcall handled event scope body)
          (traceArms_runsAs hcall handled event scope value rest)

end

/-! ### Calls -/

variable (registry) in
/-- A call of a process: an internal error, or the run of a frame that is counted. -/
def FrameRuns (target : ProcessTarget) (node : MetricNodeId) (event : BorrowedEvent)
    (x : Eval (Traced World) (Option BorrowedEvent)) : Prop :=
  ∀ machine trace outcome after trace', x (machine, trace) = some (outcome, (after, trace')) →
    (trace' = trace ∧ (∃ message, outcome = .error message) ∧
      (after = machine ∨ ∃ bodyId, target = .known bodyId ∧
        registry.processBodies[bodyId]? = none)) ∨
    ∃ added ended middle, trace' = trace ++ (added ++ [.left node ended]) ∧
      registry.CallFits target node machine ∧
      Runs registry node none event (started node machine) added ended middle ∧
      .ofCall outcome = ended ∧ after = settled node ended middle

theorem counted_eq_some {α : Type} {update : ProcessCounters → ProcessCounters}
    {x : Eval (Traced World) α} {machine : Machine World} {trace : List (TraceEntry World)}
    {result : Except String α × Traced World}
    (h : (onFst (count node update) >>= fun _ => x) (machine, trace) = some result) :
    x ((machine.1, machine.2.modify node update), trace) = some result := h

/-- How a frame ends, and its count. -/
theorem traceFinishCall_eq_some {x : Eval (Traced World) ExecResult}
    {machine after : Machine World} {trace trace' : List (TraceEntry World)}
    {outcome : Except String (Option BorrowedEvent)}
    (h : IrProcessRegistry.traceFinishCall node x (machine, trace) =
      some (outcome, (after, trace'))) :
    ∃ result middle kept, x (machine, trace) = some (result, (middle, kept)) ∧
      Ended.ofCall outcome = .ofCode (result.map fun result => (result, [])) ∧
      after = settled node (.ofCall outcome) middle ∧
      trace' = kept ++ [.left node (.ofCall outcome)] := by
  rcases bind_eq_some h with ⟨message, s', hattempt, -⟩ | ⟨result, s', hattempt, h⟩
  · obtain ⟨_, _, -, heq⟩ := attempt_eq_some hattempt
    exact nomatch heq
  · obtain ⟨result', ⟨⟨world, counters⟩, kept⟩, hresult, heq⟩ := attempt_eq_some hattempt
    obtain ⟨rfl, rfl⟩ : result = result' ∧ s' = ((world, counters), kept) := by simpa using heq
    rcases result with message | next | _
    · obtain ⟨rfl, rfl, rfl⟩ : .error message = outcome ∧
          (world, counters.modify node .error) = after ∧
          kept ++ [.left node (.failed message)] = trace' := by
        simpa [bail] using note_eq_some (counted_eq_some h)
      exact ⟨_, _, kept, hresult, rfl, rfl, rfl⟩
    · obtain ⟨rfl, rfl, rfl⟩ : .ok (some next) = outcome ∧
          (world, counters.modify node .continued) = after ∧
          kept ++ [.left node (.continued next)] = trace' := by
        simpa [ok] using note_eq_some (counted_eq_some h)
      exact ⟨_, _, kept, hresult, rfl, rfl, rfl⟩
    · obtain ⟨rfl, rfl, rfl⟩ : .ok none = outcome ∧
          (world, counters.modify node .drop) = after ∧
          kept ++ [.left node .dropped] = trace' := by
        simpa [ok] using note_eq_some (counted_eq_some h)
      exact ⟨_, _, kept, hresult, rfl, rfl, rfl⟩

/-- The frames of a node, given how its bodies run. -/
theorem traceCallWith_runs
    {runBody : ProcessBodyCode → BorrowedEvent → Eval (Traced World) ExecResult}
    (hbody : ∀ body event machine trace result after trace',
      runBody body event (machine, trace) = some (result, (after, trace')) →
      ∃ added, trace' = trace ++ added ∧ Runs registry node none event machine added
        (.ofCode (result.map fun result => (result, []))) after)
    (target : ProcessTarget) (event : BorrowedEvent) :
    FrameRuns registry target node event (registry.traceCallWith runBody target node event) := by
  rintro ⟨world, counters⟩ trace outcome after trace' h
  unfold IrProcessRegistry.traceCallWith at h
  -- a node that is not there is an internal error, before anything is counted
  cases hnode : registry.metricNodes[node]? with
  | none =>
      obtain ⟨rfl, rfl, rfl⟩ : _ = outcome ∧ (world, counters) = after ∧ trace = trace' := by
        simpa [hnode, bail] using h
      exact Or.inl ⟨rfl, ⟨_, rfl⟩, Or.inl rfl⟩
  | some descriptor =>
      simp only [hnode] at h
      split at h
      · obtain ⟨rfl, rfl, rfl⟩ : _ = outcome ∧ (world, counters) = after ∧ trace = trace' := by
          simpa [bail] using h
        exact Or.inl ⟨rfl, ⟨_, rfl⟩, Or.inl rfl⟩
      · next htarget =>
        split at h
        · obtain ⟨rfl, rfl, rfl⟩ : _ = outcome ∧ (world, counters) = after ∧ trace = trace' := by
            simpa [bail] using h
          exact Or.inl ⟨rfl, ⟨_, rfl⟩, Or.inl rfl⟩
        · next hlength =>
          have hdescriptor : ∃ found, registry.metricNodes[node]? = some found ∧
              found.target = target := ⟨descriptor, hnode, Decidable.of_not_not htarget⟩
          have hcounted : node < counters.length := Nat.lt_of_not_le hlength
          -- the frame is entered; a target that is unknown leaves it at once
          cases target with
          | unknown =>
              obtain ⟨result, middle, kept, hresult, hended, rfl, rfl⟩ :=
                traceFinishCall_eq_some (counted_eq_some h)
              obtain ⟨rfl, rfl, rfl⟩ : _ = result ∧ started node (world, counters) = middle ∧
                  trace = kept := by simpa [ok, started] using hresult
              refine Or.inr ⟨[], _, _, rfl,
                ⟨hdescriptor, hcounted, fun _ heq => by cases heq⟩, ?_, rfl, rfl⟩
              rw [hended]
              exact .done
          | known bodyId =>
              cases hbodyId : registry.processBodies[bodyId]? with
              | none =>
                  simp only [hbodyId] at h
                  obtain ⟨rfl, -, rfl⟩ : _ = outcome ∧ _ = after ∧ trace = trace' := by
                    simpa [bail] using counted_eq_some h
                  exact Or.inl ⟨rfl, ⟨_, rfl⟩, Or.inr ⟨bodyId, rfl, hbodyId⟩⟩
              | some body =>
                  simp only [hbodyId] at h
                  obtain ⟨result, middle, kept, hresult, hended, rfl, rfl⟩ :=
                    traceFinishCall_eq_some (counted_eq_some h)
                  obtain ⟨added, rfl, hruns⟩ := hbody body event _ _ _ _ _ hresult
                  refine Or.inr ⟨added, _, _, List.append_assoc ..,
                    ⟨hdescriptor, hcounted, ?_⟩, ?_, rfl, rfl⟩
                  · intro other hother
                    obtain rfl := ProcessTarget.known.inj hother
                    rw [hbodyId]
                    exact Option.some_ne_none body
                  · rw [hended]
                    exact hruns

theorem traceCallChild_runsAs
    {call : ProcessTarget → MetricNodeId → BorrowedEvent →
      Eval (Traced World) (Option BorrowedEvent)}
    (hcall : ∀ target child event, FrameRuns registry target child event (call target child event))
    (name : String) (edgeSlot : EdgeSlot) (event : BorrowedEvent) :
    CallRunsAs registry node name edgeSlot event
      (registry.traceCallChild call node name edgeSlot event) := by
  intro machine trace outcome after trace' h
  rcases bind_eq_some h with ⟨message, s', hfail, heq⟩ | ⟨⟨target, child⟩, s', hok, h⟩
  · cases hedge : registry.resolveEdge node name edgeSlot with
    | ok found =>
        rw [hedge] at hfail
        exact nomatch hfail
    | error reason =>
        rw [hedge] at hfail
        obtain ⟨rfl, rfl⟩ : reason = message ∧ (machine, trace) = s' := by
          simpa [Eval.ofExcept, bail] using hfail
        obtain ⟨rfl, rfl, rfl⟩ : outcome = .error reason ∧ after = machine ∧ trace' = trace := by
          simpa using heq
        exact Or.inl ⟨rfl, ⟨reason, rfl⟩, Or.inl rfl⟩
  · cases hedge : registry.resolveEdge node name edgeSlot with
    | error reason =>
        rw [hedge] at hok
        exact nomatch hok
    | ok found =>
        rw [hedge] at hok
        obtain ⟨rfl, rfl⟩ : found = (target, child) ∧ (machine, trace) = s' := by
          simpa [Eval.ofExcept, ok] using hok
        rcases bind_eq_some h with ⟨message, s', hattempt, -⟩ | ⟨called, s', hattempt, h⟩
        · obtain ⟨_, _, -, heq⟩ := attempt_eq_some hattempt
          exact nomatch heq
        · obtain ⟨called', ⟨middle, kept⟩, hcalled, heq⟩ := attempt_eq_some hattempt
          obtain ⟨rfl, rfl⟩ : called = called' ∧ s' = (middle, kept) := by simpa using heq
          -- the error of the child is the caller's, with `process failed` before it
          have houtcome : Ended.ofCall outcome = (Ended.ofCall called).returned ∧
              (∀ message, called = .error message → ∃ reason, outcome = .error reason) ∧
              after = middle ∧ trace' = kept := by
            cases called with
            | error message =>
                obtain ⟨rfl, rfl, rfl⟩ : _ = outcome ∧ middle = after ∧ kept = trace' := by
                  simpa [bail] using h
                exact ⟨rfl, fun _ _ => ⟨_, rfl⟩, rfl, rfl⟩
            | ok next =>
                obtain ⟨rfl, rfl, rfl⟩ : _ = outcome ∧ middle = after ∧ kept = trace' := by
                  simpa [ok] using h
                refine ⟨?_, (fun _ heq => nomatch heq), rfl, rfl⟩
                cases next <;> rfl
          obtain ⟨hended, herror, rfl, rfl⟩ := houtcome
          rcases hcall target child event machine trace called after trace' hcalled with
            ⟨rfl, ⟨message, hmessage⟩, hinternal⟩ |
              ⟨added, ended, last, rfl, hfits, hruns, hlast, rfl⟩
          · refine Or.inl ⟨rfl, herror message hmessage, hinternal.imp_right ?_⟩
            rintro ⟨bodyId, rfl, hmissing⟩
            exact ⟨bodyId, child, hmissing, rfl⟩
          · exact Or.inr ⟨added, ended, target, child, last, rfl, rfl, hfits, hruns,
              hlast ▸ hended, rfl⟩

/-- **Runs of processes have a shape.** -/
theorem traceCall_runs (depth : ℕ) (target : ProcessTarget) (node : MetricNodeId)
    (event : BorrowedEvent) :
    FrameRuns registry target node event (registry.traceCall depth target node event) := by
  induction depth generalizing target node event with
  | zero =>
      refine traceCallWith_runs (fun body event machine trace result after trace' h => ?_)
        target event
      exact nomatch h
  | succ depth ih =>
      refine traceCallWith_runs (fun body event machine trace result after trace' h => ?_)
        target event
      have hcode : RunsAs registry node none event (traceCode registry.rt
          (registry.evalIn (depth + 1)) (registry.traceCallChild (registry.traceCall depth) node)
          node (depth + 1) none event [] body.code) :=
        traceCode_runsAs (traceCallChild_runsAs ih) none event [] body.code
      rcases bind_eq_some h with ⟨message, s', hfail, heq⟩ | ⟨⟨ended, scope⟩, s', hok, h⟩
      · obtain ⟨rfl, rfl⟩ : result = .error message ∧ (after, trace') = s' := by simpa using heq
        exact hcode machine trace _ after trace' hfail
      · obtain ⟨rfl, rfl⟩ : _ = result ∧ s' = (after, trace') := by simpa [ok] using h
        obtain ⟨added, htrace, hruns⟩ := hcode machine trace _ after trace' hok
        refine ⟨added, htrace, ?_⟩
        cases ended <;> exact hruns

end Interpreter

end Limpid.Pipeline
