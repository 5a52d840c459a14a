import Limpid.Check.NameError
import Limpid.Pipeline.BodyTrace

/-!
# The run of code that resolves

Compiled code resolves when every expression of it does, under the names that the `let`s before it
bind.  The runtime has one scope for a whole body, to which names are only added, where the
analysis has one for each branch: what is known at a statement is bound in whatever scope a run has
when it comes there.  So no statement that a run of such code reaches fails for a name
(`traceRun_emits`), in the frame of any process.

The trace records the statements a run reaches; `Emits` says what holds of the entries a
computation adds to it.
-/

namespace Limpid.Check

open Dsl Eval Pipeline

/-! ## Code -/

section Code

/-- The expressions that a statement evaluates itself. -/
def ownExprs : ProcessCode → List Expr
  | .assign _ e => [e]
  | .letBinding _ e => [e]
  | .error message => message.toList
  | .ifChain branches _ => branches.map Prod.fst
  | .switch discriminant arms => discriminant :: arms.filterMap Prod.fst
  | .expr e => [e]
  | .call _ _ | .drop | .tryCatch _ _ => []

/-- The names that a statement binds for those after it. -/
def declared : ProcessCode → Set String
  | .letBinding name _ => {name}
  | _ => ∅

variable (callable : Option String → String → Prop)

mutual

/-- The names of a list of statements are known, `let`s counting for what follows them. -/
def ResolvesCode (known : Set String) : List ProcessCode → Prop
  | [] => True
  | statement :: rest =>
      ResolvesStatement known statement ∧ ResolvesCode (declared statement ∪ known) rest

/-- The names of a statement are known. -/
def ResolvesStatement (known : Set String) : ProcessCode → Prop
  | .assign _ e => Resolves callable known e
  | .letBinding _ e => Resolves callable known e
  | .call _ _ => True
  | .drop => True
  | .error message => ∀ e ∈ message, Resolves callable known e
  | .ifChain branches none => ResolvesBranches known branches
  | .ifChain branches (some elseBody) =>
      ResolvesBranches known branches ∧ ResolvesCode known elseBody
  | .switch discriminant arms => Resolves callable known discriminant ∧ ResolvesCases known arms
  | .tryCatch tryBody catchBody => ResolvesCode known tryBody ∧ ResolvesCode known catchBody
  | .expr e => Resolves callable known e

def ResolvesBranches (known : Set String) : List (Expr × List ProcessCode) → Prop
  | [] => True
  | (condition, body) :: rest =>
      Resolves callable known condition ∧ ResolvesCode known body ∧ ResolvesBranches known rest

def ResolvesCases (known : Set String) : List (Option Expr × List ProcessCode) → Prop
  | [] => True
  | (pattern, body) :: rest =>
      (∀ e ∈ pattern, Resolves callable known e) ∧ ResolvesCode known body ∧
        ResolvesCases known rest

end

variable {callable}

theorem ResolvesBranches.conditions {known : Set String} :
    ∀ {branches : List (Expr × List ProcessCode)}, ResolvesBranches callable known branches →
      ∀ e ∈ branches.map Prod.fst, Resolves callable known e
  | [], _ => fun _ he => absurd he List.not_mem_nil
  | (_, _) :: _, h => by
      obtain ⟨hcondition, -, hrest⟩ := h
      exact List.forall_mem_cons.mpr ⟨hcondition, hrest.conditions⟩

theorem ResolvesCases.patterns {known : Set String} :
    ∀ {arms : List (Option Expr × List ProcessCode)}, ResolvesCases callable known arms →
      ∀ e ∈ arms.filterMap Prod.fst, Resolves callable known e
  | [], _ => fun _ he => absurd he List.not_mem_nil
  | (none, _) :: _, h => by
      obtain ⟨-, -, hrest⟩ := h
      exact hrest.patterns
  | (some pattern, _) :: _, h => by
      obtain ⟨hpattern, -, hrest⟩ := h
      exact List.forall_mem_cons.mpr ⟨hpattern pattern rfl, hrest.patterns⟩

/-- What a statement evaluates resolves. -/
theorem ResolvesStatement.ownExprs {known : Set String} {statement : ProcessCode}
    (h : ResolvesStatement callable known statement) :
    ∀ e ∈ ownExprs statement, Resolves callable known e := by
  intro e he
  cases statement with
  | assign target value => exact List.mem_singleton.mp he ▸ h
  | letBinding name value => exact List.mem_singleton.mp he ▸ h
  | call name slot => exact absurd he List.not_mem_nil
  | drop => exact absurd he List.not_mem_nil
  | error message => exact h e (Option.mem_toList.mp he)
  | ifChain branches elseBody =>
      cases elseBody with
      | none => exact ResolvesBranches.conditions h e he
      | some elseBody => exact h.1.conditions e he
  | switch discriminant arms =>
      rcases List.mem_cons.mp he with rfl | he
      · exact h.1
      · exact h.2.patterns e he
  | tryCatch tryBody catchBody => exact absurd he List.not_mem_nil
  | expr value => exact List.mem_singleton.mp he ▸ h

end Code

/-! ## What a computation adds to the trace -/

section Emits

variable {World S Rest α β : Type} {trace : S → List (TraceEntry World)}
  {P : TraceEntry World → Prop} {Q Q' : α → Prop} {R : β → Prop}

/-- Every entry that a computation adds is as `P` says, and its result as `Q` says. -/
def Emits (trace : S → List (TraceEntry World)) (P : TraceEntry World → Prop) (Q : α → Prop)
    (x : Eval S α) : Prop :=
  ∀ state outcome after, x state = some (outcome, after) →
    (∃ added, trace after = trace state ++ added ∧ ∀ entry ∈ added, P entry) ∧
      ∀ a, outcome = .ok a → Q a

namespace Emits

theorem quiet {x : Eval S α}
    (h : ∀ state outcome after, x state = some (outcome, after) →
      trace after = trace state ∧ ∀ a, outcome = .ok a → Q a) : Emits trace P Q x := by
  intro state outcome after hx
  obtain ⟨htrace, hresult⟩ := h state outcome after hx
  refine ⟨⟨[], ?_, fun entry hentry => absurd hentry List.not_mem_nil⟩, hresult⟩
  rw [htrace, List.append_nil]

theorem ok {a : α} (h : Q a) : Emits trace P Q (Eval.ok a) := by
  refine .quiet fun state outcome after hx => ?_
  obtain ⟨rfl, rfl⟩ := Prod.mk.inj (Option.some.inj hx)
  exact ⟨rfl, fun b hb => Except.ok.inj hb ▸ h⟩

theorem bail (message : String) : Emits trace P Q (Eval.bail message) := by
  refine .quiet fun state outcome after hx => ?_
  obtain ⟨rfl, rfl⟩ := Prod.mk.inj (Option.some.inj hx)
  exact ⟨rfl, fun b hb => by cases hb⟩

theorem diverge : Emits trace P Q (Eval.diverge : Eval S α) := by
  intro state outcome after hx
  cases hx

theorem ofExcept {x : Except String α} (h : ∀ a, x = .ok a → Q a) :
    Emits trace P Q (Eval.ofExcept x) := by
  cases x with
  | ok a => exact .ok (h a rfl)
  | error message => exact .bail message

theorem mono {x : Eval S α} (hx : Emits trace P Q x) (h : ∀ a, Q a → Q' a) :
    Emits trace P Q' x := by
  intro state outcome after hrun
  obtain ⟨htrace, hresult⟩ := hx state outcome after hrun
  exact ⟨htrace, fun a ha => h a (hresult a ha)⟩

theorem bind {x : Eval S α} {f : α → Eval S β} (hx : Emits trace P Q x)
    (hf : ∀ a, Q a → Emits trace P R (f a)) : Emits trace P R (x >>= f) := by
  intro state outcome after h
  change Eval.bind x f state = _ at h
  unfold Eval.bind at h
  cases hresult : x state with
  | none =>
      rw [hresult] at h
      cases h
  | some result =>
      obtain ⟨first, middle⟩ := result
      rw [hresult] at h
      obtain ⟨⟨added, htrace, hadded⟩, hfirst⟩ := hx state first middle hresult
      cases first with
      | error message =>
          obtain ⟨rfl, rfl⟩ := Prod.mk.inj (Option.some.inj h)
          exact ⟨⟨added, htrace, hadded⟩, fun b hb => by cases hb⟩
      | ok a =>
          obtain ⟨⟨more, htrace', hmore⟩, hsecond⟩ := hf a (hfirst a rfl) middle outcome after h
          refine ⟨⟨added ++ more, ?_, List.forall_mem_append.mpr ⟨hadded, hmore⟩⟩, hsecond⟩
          rw [htrace', htrace, List.append_assoc]

theorem attempt {x : Eval S α} (hx : Emits trace P Q x) :
    Emits trace P (fun outcome => ∀ a, outcome = .ok a → Q a) (Pipeline.attempt x) := by
  intro state outcome after h
  unfold Pipeline.attempt at h
  cases hresult : x state with
  | none =>
      rw [hresult] at h
      cases h
  | some result =>
      obtain ⟨first, middle⟩ := result
      rw [hresult] at h
      obtain ⟨rfl, rfl⟩ := Prod.mk.inj (Option.some.inj h)
      obtain ⟨htrace, hfirst⟩ := hx state first middle hresult
      exact ⟨htrace, fun b hb => Except.ok.inj hb ▸ hfirst⟩

theorem ite {p : Prop} [Decidable p] {x y : Eval S α} (hx : Emits trace P Q x)
    (hy : Emits trace P Q y) : Emits trace P Q (if p then x else y) := by
  split
  · exact hx
  · exact hy

/-- A computation on what holds the trace. -/
theorem onFst {x : Eval S α} (hx : Emits trace P Q x) :
    Emits (S := S × Rest) (fun state => trace state.1) P Q (Pipeline.onFst x) := by
  rintro ⟨state, rest⟩ outcome after h
  unfold Pipeline.onFst at h
  cases hresult : x state with
  | none =>
      simp only [hresult] at h
      cases h
  | some result =>
      obtain ⟨first, middle⟩ := result
      simp only [hresult] at h
      obtain ⟨rfl, rfl⟩ := Prod.mk.inj (Option.some.inj h)
      exact hx state first middle hresult

/-- A computation on what stands beside the trace. -/
theorem beside (x : Eval S α) :
    Emits (S := S × List (TraceEntry World)) Prod.snd P (fun _ => True) (Pipeline.onFst x) := by
  refine .quiet ?_
  rintro ⟨state, rest⟩ outcome after h
  unfold Pipeline.onFst at h
  cases hresult : x state with
  | none =>
      simp only [hresult] at h
      cases h
  | some result =>
      simp only [hresult] at h
      obtain ⟨rfl, rfl⟩ := Prod.mk.inj (Option.some.inj h)
      exact ⟨rfl, fun _ _ => trivial⟩

theorem note {entries : Machine World → List (TraceEntry World)}
    (h : ∀ machine, ∀ entry ∈ entries machine, P entry) :
    Emits (S := Traced World) Prod.snd P (fun _ => True) (Pipeline.note entries) := by
  rintro ⟨machine, before⟩ outcome after hx
  obtain ⟨rfl, rfl⟩ := Prod.mk.inj (Option.some.inj hx)
  exact ⟨⟨entries machine, rfl, h machine⟩, fun _ _ => trivial⟩

end Emits

end Emits

/-! ## Process bodies -/

section Run

variable {World : Type} {callable : Option String → String → Prop}

/-- The expressions that a reached statement evaluates do not fail for a name. -/
def PointKnows (evalIn : ℕ → Evaluator World) (point : Point World) : Prop :=
  ∀ e ∈ ownExprs point.statement, KnowsNames (evalIn point.depth point.event point.scope e)

/-- What a trace reaches, it reaches with known names. -/
def EntryKnows (evalIn : ℕ → Evaluator World) : TraceEntry World → Prop
  | .reached point => PointKnows evalIn point
  | _ => True

/-- What resolves does not fail for a name in a scope that binds the names. -/
def EvalKnows (callable : Option String → String → Prop) (evalIn : ℕ → Evaluator World) : Prop :=
  ∀ depth event scope known e, Resolves callable known e → Binds scope known →
    KnowsNames (evalIn depth event scope e)

variable {rt : Runtime} {evalIn : ℕ → Evaluator World}
  {callProcess : String → EdgeSlot → BorrowedEvent → Eval (Traced World) (Option BorrowedEvent)}
  {node : MetricNodeId} {depth : ℕ} {handled : Option String} {event : BorrowedEvent}

/-- The scope after a part of a body binds the names. -/
abbrev ScopeBinds (known : Set String) (result : ExecResult × LocalScope) : Prop :=
  Binds result.2 known

/-- A statement that binds nothing. -/
theorem Emits.undeclared {S : Type} {trace : S → List (TraceEntry World)}
    {P : TraceEntry World → Prop} {x : Eval S (ExecResult × LocalScope)} {known : Set String}
    {statement : ProcessCode} (h : declared statement = ∅)
    (hx : Emits trace P (ScopeBinds known) x) :
    Emits trace P (ScopeBinds (declared statement ∪ known)) x := by
  rw [h, Set.empty_union]
  exact hx

mutual

/-- The statements that a run of code that resolves reaches do not fail for a name, and what the
code knows is bound after it. -/
theorem traceCode_emits (heval : EvalKnows callable evalIn)
    (hcall : ∀ name slot event, Emits Prod.snd (EntryKnows evalIn) (fun _ => True)
      (callProcess name slot event)) :
    ∀ (code : List ProcessCode) (handled : Option String) {known : Set String}
      {event : BorrowedEvent} {scope : LocalScope}, ResolvesCode callable known code →
      Binds scope known → Emits Prod.snd (EntryKnows evalIn) (ScopeBinds known)
        (traceCode rt (evalIn depth) callProcess node depth handled event scope code)
  | [], _, _, _, _, _, hbinds => by
      rw [traceCode]
      exact .ok hbinds
  | statement :: rest, handled, known, event, scope, h, hbinds => by
      obtain ⟨hstatement, hrest⟩ := h
      rw [traceCode]
      refine Emits.bind (Emits.note fun machine entry hentry => ?_) fun _ _ => ?_
      · -- the statement is reached in a scope that binds what it knows
        obtain rfl := List.mem_singleton.mp hentry
        exact fun e he => heval depth event scope known e (hstatement.ownExprs e he) hbinds
      · refine (traceStatement_emits heval hcall statement handled hstatement hbinds).bind
          fun result hresult => ?_
        obtain ⟨_ | _, next⟩ := result
        · refine (traceCode_emits heval hcall rest handled hrest hresult).mono fun last hlast => ?_
          exact hlast.mono Set.subset_union_right
        · exact .ok (hresult.mono Set.subset_union_right)

theorem traceStatement_emits (heval : EvalKnows callable evalIn)
    (hcall : ∀ name slot event, Emits Prod.snd (EntryKnows evalIn) (fun _ => True)
      (callProcess name slot event)) :
    ∀ (statement : ProcessCode) (handled : Option String) {known : Set String}
      {event : BorrowedEvent} {scope : LocalScope}, ResolvesStatement callable known statement →
      Binds scope known →
        Emits Prod.snd (EntryKnows evalIn) (ScopeBinds (declared statement ∪ known))
          (traceStatement rt (evalIn depth) callProcess node depth handled event scope statement)
  | .assign target e, _, _, _, _, _, hbinds => by
      rw [traceStatement]
      refine .undeclared rfl ((Emits.beside _).bind fun value _ => ?_)
      refine Emits.bind (Emits.note fun machine entry hentry => ?_) fun _ _ => .ok hbinds
      obtain ⟨key, -, rfl⟩ := List.mem_map.mp hentry
      trivial
  | .letBinding name e, _, _, _, _, _, hbinds => by
      rw [traceStatement]
      refine (Emits.beside _).bind fun value _ => .ok ?_
      exact hbinds.bind name value
  | .call name edgeSlot, _, _, event, _, _, hbinds => by
      rw [traceStatement]
      refine .undeclared rfl ((hcall name edgeSlot event).bind fun next _ => ?_)
      cases next with
      | none => exact .ok hbinds
      | some event => exact .ok hbinds
  | .drop, _, _, _, _, _, hbinds => by
      rw [traceStatement]
      exact .undeclared rfl (.ok hbinds)
  | .error none, _, _, _, _, _, _ => by
      rw [traceStatement]
      exact .bail _
  | .error (some e), _, _, _, _, _, _ => by
      rw [traceStatement]
      exact (Emits.beside _).bind fun value _ => .bail _
  | .ifChain branches none, handled, _, _, _, h, hbinds => by
      rw [traceStatement]
      exact .undeclared rfl
        (traceBranches_emits heval hcall branches handled h hbinds (.ok hbinds))
  | .ifChain branches (some elseBody), handled, _, _, _, h, hbinds => by
      rw [traceStatement]
      exact .undeclared rfl (traceBranches_emits heval hcall branches handled h.1 hbinds
        (traceCode_emits heval hcall elseBody handled h.2 hbinds))
  | .switch discriminant arms, handled, _, _, _, h, hbinds => by
      rw [traceStatement]
      exact .undeclared rfl ((Emits.beside _).bind
        fun value _ => traceArms_emits heval hcall value arms handled h.2 hbinds)
  | .tryCatch tryBody catchBody, handled, _, _, _, h, hbinds => by
      rw [traceStatement]
      refine .undeclared rfl
        ((traceCode_emits heval hcall tryBody handled h.1 hbinds).attempt.bind
          fun outcome houtcome => ?_)
      cases outcome with
      | ok result => exact .ok (houtcome result rfl)
      | error message =>
          -- the catch body starts with the scope from before the try body
          refine (traceCode_emits heval hcall catchBody (some message) h.2 hbinds).bind
            fun result hresult => ?_
          obtain ⟨_ | _, next⟩ := result
          · refine Emits.bind (Emits.note fun machine entry hentry => ?_)
              fun _ _ => .ok hresult
            obtain rfl := List.mem_singleton.mp hentry
            trivial
          · exact .ok hresult
  | .expr e, _, _, _, _, _, hbinds => by
      rw [traceStatement]
      refine .undeclared rfl ((Emits.beside _).bind fun value _ => ?_)
      refine Emits.bind (.ofExcept fun _ _ => trivial) fun event (_ : True) => ?_
      refine Emits.bind (Emits.note fun machine entry hentry => ?_) fun _ _ => .ok hbinds
      obtain ⟨key, -, rfl⟩ := List.mem_map.mp hentry
      trivial

theorem traceBranches_emits (heval : EvalKnows callable evalIn)
    (hcall : ∀ name slot event, Emits Prod.snd (EntryKnows evalIn) (fun _ => True)
      (callProcess name slot event)) :
    ∀ (branches : List (Expr × List ProcessCode)) (handled : Option String) {known : Set String}
      {event : BorrowedEvent} {scope : LocalScope}
      {otherwise : Eval (Traced World) (ExecResult × LocalScope)},
      ResolvesBranches callable known branches → Binds scope known →
        Emits Prod.snd (EntryKnows evalIn) (ScopeBinds known) otherwise →
          Emits Prod.snd (EntryKnows evalIn) (ScopeBinds known)
            (traceBranches rt (evalIn depth) callProcess node depth handled event scope branches
              otherwise)
  | [], _, _, _, _, _, _, _, hotherwise => by
      rw [traceBranches]
      exact hotherwise
  | (condition, body) :: rest, handled, _, _, _, _, h, hbinds, hotherwise => by
      obtain ⟨-, hbody, hrest⟩ := h
      rw [traceBranches]
      exact (Emits.beside _).bind fun value _ =>
        .ite (traceCode_emits heval hcall body handled hbody hbinds)
          (traceBranches_emits heval hcall rest handled hrest hbinds hotherwise)

theorem traceArms_emits (heval : EvalKnows callable evalIn)
    (hcall : ∀ name slot event, Emits Prod.snd (EntryKnows evalIn) (fun _ => True)
      (callProcess name slot event)) (value : Value) :
    ∀ (arms : List (Option Expr × List ProcessCode)) (handled : Option String)
      {known : Set String} {event : BorrowedEvent} {scope : LocalScope},
      ResolvesCases callable known arms → Binds scope known →
        Emits Prod.snd (EntryKnows evalIn) (ScopeBinds known)
          (traceArms rt (evalIn depth) callProcess node depth handled event scope value arms)
  | [], _, _, _, _, _, hbinds => by
      rw [traceArms]
      exact .ok hbinds
  | (none, body) :: _, handled, _, _, _, h, hbinds => by
      rw [traceArms]
      exact traceCode_emits heval hcall body handled h.2.1 hbinds
  | (some pattern, body) :: rest, handled, _, _, _, h, hbinds => by
      rw [traceArms]
      exact (Emits.beside _).bind fun patternValue _ =>
        .ite (traceCode_emits heval hcall body handled h.2.1 hbinds)
          (traceArms_emits heval hcall value rest handled h.2.2 hbinds)

end

end Run

/-! ## Calls of processes -/

section Calls

variable {World : Type} {callable : Option String → String → Prop}
  {registry : IrProcessRegistry World}

/-- Bodies whose code resolves and that call one another only. -/
structure Resolved (registry : IrProcessRegistry World)
    (callable : Option String → String → Prop) (bodies : Set ProcessBodyId) : Prop where
  code : ∀ id ∈ bodies, ∀ body, registry.processBodies[id]? = some body →
    ResolvesCode callable ∅ body.code
  calls : ∀ id ∈ bodies, ∀ body, registry.processBodies[id]? = some body →
    ∀ edge ∈ body.edges, ∀ callee, edge.target = .known callee → callee ∈ bodies

/-- What a call leads to is of some bodies. -/
def LeadsTo (bodies : Set ProcessBodyId) (target : ProcessTarget) : Prop :=
  ∀ id, target = .known id → id ∈ bodies

/-- An edge that resolves is one of the body that runs at the node. -/
theorem resolveEdge_of_known {node : MetricNodeId} {descriptor : MetricNodeDescriptor}
    {bodyId : ProcessBodyId} {name : String} {edgeSlot : EdgeSlot} {target : ProcessTarget}
    {child : MetricNodeId} (hnode : registry.metricNodes[node]? = some descriptor)
    (htarget : descriptor.target = .known bodyId)
    (h : registry.resolveEdge node name edgeSlot = .ok (target, child)) :
    ∃ body, registry.processBodies[bodyId]? = some body ∧ ∃ edge ∈ body.edges,
      edge.target = target := by
  unfold IrProcessRegistry.resolveEdge at h
  simp only [hnode, htarget] at h
  cases hbody : registry.processBodies[bodyId]? with
  | none => simp [hbody] at h
  | some body =>
      cases hedge : body.edges[edgeSlot]? with
      | none => simp [hbody, hedge] at h
      | some edge =>
          simp only [hbody, hedge] at h
          split at h
          · cases h
          · split at h
            · cases h
            · obtain ⟨rfl, -⟩ := Prod.mk.inj (Except.ok.inj h)
              exact ⟨body, rfl, edge, List.mem_of_getElem? hedge, rfl⟩

theorem traceFinishCall_emits {evalIn : ℕ → Evaluator World} {node : MetricNodeId}
    {x : Eval (Traced World) ExecResult}
    (hx : Emits Prod.snd (EntryKnows evalIn) (fun _ => True) x) :
    Emits Prod.snd (EntryKnows evalIn) (fun _ => True)
      (IrProcessRegistry.traceFinishCall node x) := by
  have hnote : ∀ ended, Emits (S := Traced World) Prod.snd (EntryKnows evalIn) (fun _ => True)
      (note fun _ => [.left node ended]) := fun ended =>
    .note fun machine entry hentry => List.mem_singleton.mp hentry ▸ trivial
  unfold IrProcessRegistry.traceFinishCall
  refine hx.attempt.bind fun outcome _ => ?_
  rcases outcome with message | _ | _
  · exact (Emits.beside _).bind fun _ _ => (hnote _).bind fun _ _ => .bail _
  · exact (Emits.beside _).bind fun _ _ => (hnote _).bind fun _ _ => .ok trivial
  · exact (Emits.beside _).bind fun _ _ => (hnote _).bind fun _ _ => .ok trivial

/-- **A call of a body that resolves** reaches no statement that fails for a name, however deep
calls nest. -/
theorem traceCall_emits {bodies : Set ProcessBodyId}
    (hresolved : Resolved registry callable bodies) (heval : EvalKnows callable registry.evalIn)
    (depth : ℕ) {target : ProcessTarget} {node : MetricNodeId} {event : BorrowedEvent}
    (htarget : LeadsTo bodies target) :
    Emits Prod.snd (EntryKnows registry.evalIn) (fun _ => True)
      (registry.traceCall depth target node event) := by
  -- the node has been found to be that of the target
  have hwith : ∀ (runBody : ProcessBodyCode → BorrowedEvent → Eval (Traced World) ExecResult)
      {target : ProcessTarget} {node : MetricNodeId} {event : BorrowedEvent},
      (∀ descriptor bodyId body, registry.metricNodes[node]? = some descriptor →
        descriptor.target = target → target = .known bodyId →
          registry.processBodies[bodyId]? = some body →
            Emits Prod.snd (EntryKnows registry.evalIn) (fun _ => True) (runBody body event)) →
      Emits Prod.snd (EntryKnows registry.evalIn) (fun _ => True)
        (registry.traceCallWith runBody target node event) := by
    intro runBody target node event hbody state outcome after h
    unfold IrProcessRegistry.traceCallWith at h
    cases hnode : registry.metricNodes[node]? with
    | none =>
        simp only [hnode] at h
        exact Emits.bail _ state outcome after h
    | some descriptor =>
        simp only [hnode] at h
        split at h
        · exact Emits.bail _ state outcome after h
        · next hsame =>
          split at h
          · exact Emits.bail _ state outcome after h
          · refine Emits.bind (Emits.beside _) (fun _ _ => ?_) state outcome after h
            cases target with
            | unknown => exact traceFinishCall_emits (.ok trivial)
            | known bodyId =>
                dsimp only
                cases hfound : registry.processBodies[bodyId]? with
                | none => exact .bail _
                | some body =>
                    exact traceFinishCall_emits
                      (hbody descriptor bodyId body hnode (not_not.mp hsame) rfl hfound)
  induction depth generalizing target node event with
  | zero => exact hwith _ fun _ _ _ _ _ _ _ => .diverge
  | succ depth ih =>
      refine hwith _ fun descriptor bodyId body hnode hsame hknown hbody => ?_
      have hbodies := htarget bodyId hknown
      have hchild : ∀ name slot event, Emits Prod.snd (EntryKnows registry.evalIn)
          (fun _ => True) (registry.traceCallChild (registry.traceCall depth) node name slot
            event) := by
        intro name slot event
        unfold IrProcessRegistry.traceCallChild
        refine Emits.bind (Q := fun found => LeadsTo bodies found.1) (.ofExcept ?_) ?_
        · rintro ⟨callee, child⟩ hedge id rfl
          obtain ⟨body', hbody', edge, hmem, htarget'⟩ :=
            resolveEdge_of_known hnode (hsame.trans hknown) hedge
          rw [hbody] at hbody'
          obtain rfl := Option.some.inj hbody'
          exact hresolved.calls bodyId hbodies body hbody edge hmem id htarget'
        · rintro ⟨callee, child⟩ hcallee
          refine (ih hcallee).attempt.bind fun outcome _ => ?_
          cases outcome with
          | ok next => exact .ok trivial
          | error message => exact .bail _
      unfold IrProcessRegistry.traceBody
      refine (traceCode_emits heval hchild body.code none
        (hresolved.code bodyId hbodies body hbody) (Binds.empty [])).bind fun result _ => ?_
      exact .ok trivial

end Calls

/-! ## Pipeline bodies -/

section Pipelines

open Blueprint (codeSites statementSites branchesSites armsSites)

variable {World : Type} {callable : Option String → String → Prop}
  {ctx : IrPipelineExecCtx World} {bodies : Set ProcessBodyId}

mutual

/-- The expressions of a pipeline body, which are evaluated without a scope. -/
def pipelineExprs : List PipelineCode → List Expr
  | [] => []
  | statement :: rest => pipelineStatementExprs statement ++ pipelineExprs rest

/-- The expressions of a statement of a pipeline. -/
def pipelineStatementExprs : PipelineCode → List Expr
  | .error message => message.toList
  | .ifChain branches none => pipelineBranchesExprs branches
  | .ifChain branches (some elseBody) => pipelineBranchesExprs branches ++ pipelineExprs elseBody
  | .switch discriminant arms => discriminant :: pipelineArmsExprs arms
  | _ => []

def pipelineBranchesExprs : List (Expr × List PipelineCode) → List Expr
  | [] => []
  | (condition, body) :: rest =>
      condition :: (pipelineExprs body ++ pipelineBranchesExprs rest)

def pipelineArmsExprs : List (Option Expr × List PipelineCode) → List Expr
  | [] => []
  | (pattern, body) :: rest => pattern.toList ++ (pipelineExprs body ++ pipelineArmsExprs rest)

end

/-- The processes of sites are bodies that resolve. -/
def SitesIn (bodies : Set ProcessBodyId) (sites : List ProcessSite) : Prop :=
  ∀ site ∈ sites, site.body ∈ bodies

theorem sitesIn_append {sites more : List ProcessSite} :
    SitesIn bodies (sites ++ more) ↔ SitesIn bodies sites ∧ SitesIn bodies more :=
  List.forall_mem_append

/-- Every entry that a part of the body adds is of statements that do not fail for a name. -/
abbrev BodyEmits (ctx : IrPipelineExecCtx World) {α : Type} (x : Eval (TracedRun World) α) : Prop :=
  Emits (fun state : TracedRun World => state.1.2) (EntryKnows ctx.registry.evalIn)
    (fun _ => True) x

theorem collect_emits (change : PipelineExecOut → PipelineExecOut) :
    BodyEmits ctx (collect change : Eval (TracedRun World) Unit) := by
  refine .quiet ?_
  rintro ⟨traced, out⟩ outcome after h
  obtain ⟨rfl, rfl⟩ := Prod.mk.inj (Option.some.inj h)
  exact ⟨rfl, fun _ _ => trivial⟩

theorem traceExpr_emits {α : Type} (x : Eval (Machine World) α) :
    BodyEmits ctx (IrPipelineExecCtx.traceExpr x) :=
  .onFst (.beside x)

theorem traceSites_emits (hresolved : Resolved ctx.registry callable bodies)
    (heval : EvalKnows callable ctx.registry.evalIn) {sites : List ProcessSite}
    (hsites : SitesIn bodies sites) (event : BorrowedEvent) :
    BodyEmits ctx (ctx.traceSites event sites) := by
  induction sites generalizing event with
  | nil => exact .ok trivial
  | cons site rest ih =>
      obtain ⟨hsite, hrest⟩ := List.forall_mem_cons.mp hsites
      have hcall : Emits Prod.snd (EntryKnows ctx.registry.evalIn) (fun _ => True)
          (ctx.registry.traceCall ctx.depth (.known site.body) site.metricNode event) := by
        apply traceCall_emits hresolved heval
        exact fun id hid => ProcessTarget.known.inj hid ▸ hsite
      rw [IrPipelineExecCtx.traceSites]
      refine (Emits.onFst hcall.attempt).bind fun outcome _ => ?_
      rcases outcome with message | _ | next
      · exact (collect_emits _).bind fun _ _ => .ok trivial
      · exact .ok trivial
      · exact ih hrest next

mutual

theorem traceBody_emits (hresolved : Resolved ctx.registry callable bodies)
    (heval : EvalKnows callable ctx.registry.evalIn) :
    ∀ (code : List PipelineCode) (event : BorrowedEvent), SitesIn bodies (codeSites code) →
      BodyEmits ctx (ctx.traceBody event code)
  | [], _, _ => by
      rw [IrPipelineExecCtx.traceBody]
      exact .ok trivial
  | statement :: rest, event, hsites => by
      obtain ⟨hfirst, hrest⟩ := sitesIn_append.mp hsites
      rw [IrPipelineExecCtx.traceBody]
      refine (tracePipelineStatement_emits hresolved heval statement event hfirst).bind
        fun result _ => ?_
      obtain ⟨_ | next, termination⟩ := result
      · exact .ok trivial
      · exact traceBody_emits hresolved heval rest next hrest

theorem tracePipelineStatement_emits (hresolved : Resolved ctx.registry callable bodies)
    (heval : EvalKnows callable ctx.registry.evalIn) :
    ∀ (statement : PipelineCode) (event : BorrowedEvent),
      SitesIn bodies (statementSites statement) →
        BodyEmits ctx (ctx.traceStatement event statement)
  | .input _, _, _ | .finish, _, _ => by
      rw [IrPipelineExecCtx.traceStatement]
      exact .ok trivial
  | .processChain sites, event, hsites => by
      rw [IrPipelineExecCtx.traceStatement]
      exact traceSites_emits hresolved heval hsites event
  | .output name timerSlot, event, _ => by
      rw [IrPipelineExecCtx.traceStatement]
      exact .ite (.bail _) ((collect_emits _).bind fun _ _ => .ok trivial)
  | .drop, _, _ => by
      rw [IrPipelineExecCtx.traceStatement]
      refine Emits.bind (.onFst (Emits.note fun machine entry hentry => ?_))
        fun _ _ => .ok trivial
      exact List.mem_singleton.mp hentry ▸ trivial
  | .error message, event, _ => by
      rw [IrPipelineExecCtx.traceStatement]
      exact (traceExpr_emits _).bind fun reason _ =>
        (collect_emits _).bind fun _ _ => .ok trivial
  | .ifChain branches none, event, hsites => by
      rw [IrPipelineExecCtx.traceStatement]
      exact tracePipelineBranches_emits hresolved heval branches event hsites (.ok trivial)
  | .ifChain branches (some elseBody), event, hsites => by
      obtain ⟨hbranches, helse⟩ := sitesIn_append.mp hsites
      rw [IrPipelineExecCtx.traceStatement]
      exact tracePipelineBranches_emits hresolved heval branches event hbranches
        (traceBody_emits hresolved heval elseBody event helse)
  | .switch discriminant arms, event, hsites => by
      rw [IrPipelineExecCtx.traceStatement]
      exact (traceExpr_emits _).bind fun value _ =>
        tracePipelineArms_emits hresolved heval arms event value hsites

theorem tracePipelineBranches_emits (hresolved : Resolved ctx.registry callable bodies)
    (heval : EvalKnows callable ctx.registry.evalIn) :
    ∀ (branches : List (Expr × List PipelineCode)) (event : BorrowedEvent)
      {otherwise : Eval (TracedRun World) (Option BorrowedEvent × PipelineTermination)},
      SitesIn bodies (branchesSites branches) → BodyEmits ctx otherwise →
        BodyEmits ctx (ctx.traceBranches event branches otherwise)
  | [], _, _, _, hotherwise => by
      rw [IrPipelineExecCtx.traceBranches]
      exact hotherwise
  | (condition, body) :: rest, event, _, hsites, hotherwise => by
      obtain ⟨hbody, hrest⟩ := sitesIn_append.mp hsites
      rw [IrPipelineExecCtx.traceBranches]
      exact (traceExpr_emits _).bind fun value _ =>
        .ite (traceBody_emits hresolved heval body event hbody)
          (tracePipelineBranches_emits hresolved heval rest event hrest hotherwise)

theorem tracePipelineArms_emits (hresolved : Resolved ctx.registry callable bodies)
    (heval : EvalKnows callable ctx.registry.evalIn) :
    ∀ (arms : List (Option Expr × List PipelineCode)) (event : BorrowedEvent) (value : Value),
      SitesIn bodies (armsSites arms) → BodyEmits ctx (ctx.traceArms event value arms)
  | [], _, _, _ => by
      rw [IrPipelineExecCtx.traceArms]
      exact .ok trivial
  | (none, body) :: _, event, _, hsites => by
      rw [IrPipelineExecCtx.traceArms]
      exact traceBody_emits hresolved heval body event (sitesIn_append.mp hsites).1
  | (some pattern, body) :: rest, event, value, hsites => by
      obtain ⟨hbody, hrest⟩ := sitesIn_append.mp hsites
      rw [IrPipelineExecCtx.traceArms]
      exact (traceExpr_emits _).bind fun patternValue _ =>
        .ite (traceBody_emits hresolved heval body event hbody)
          (tracePipelineArms_emits hresolved heval rest event value hrest)

end

/-- **A run of a pipeline whose processes resolve** reaches no statement that fails for a name. -/
theorem traceRun_emits (hresolved : Resolved ctx.registry callable bodies)
    (heval : EvalKnows callable ctx.registry.evalIn)
    (hsites : SitesIn bodies (codeSites ctx.pipeline.code)) :
    Emits Prod.snd (EntryKnows ctx.registry.evalIn) (fun _ => True) (traceRun ctx) := by
  intro traced outcome after h
  unfold traceRun at h
  cases hbody : ctx.traceBody ctx.originalEvent.viewIn ctx.pipeline.code (traced, .empty) with
  | none => simp [hbody] at h
  | some result =>
      obtain ⟨ended, middle, out⟩ := result
      obtain ⟨htrace, -⟩ := traceBody_emits hresolved heval _ _ hsites _ _ _ hbody
      obtain rfl : middle = after := by
        cases ended with
        | error message => simpa [hbody] using (Prod.mk.inj (Option.some.inj (hbody ▸ h))).2
        | ok last => simpa [hbody] using (Prod.mk.inj (Option.some.inj (hbody ▸ h))).2
      exact ⟨htrace, fun _ _ => trivial⟩

end Pipelines

end Limpid.Check
