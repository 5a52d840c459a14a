import Limpid.Pipeline.Frames

/-!
# The scope of `error`

`error` is documented as bound in the immediate `catch` body and nowhere else.  The interpreter
keeps the message under the key `_error` of the workspace: it sets the key before a catch body and
removes it after one.  So the binding is right as long as nothing else touches the key, no catch
body is left inside another one, and none calls a process; `error_scoped` says this of a run, and
`error_leaks` shows a run for each of the three that breaks it.
-/

namespace Limpid.Pipeline

open Dsl Eval

variable {World : Type}

/-! ## The slot -/

/-- The workspace holds the message that is handled, and nothing under its key if there is none. -/
def Slot (handled : Option String) (event : BorrowedEvent) : Prop :=
  event.workspace.filter (fun entry => entry.1 = "_error") =
    (handled.map fun message => ("_error", Value.string message)).toList

namespace Slot

variable {handled : Option String} {event : BorrowedEvent}

theorem none_iff : Slot none event ↔ event.workspaceGet "_error" = none := by
  unfold Slot BorrowedEvent.workspaceGet
  rw [Option.map_none, Option.toList_none, List.filter_eq_nil_iff, List.lookup_eq_none_iff]
  constructor
  · exact fun h entry hentry => bne_iff_ne.mpr fun heq => h entry hentry (decide_eq_true heq.symm)
  · exact fun h entry hentry heq => bne_iff_ne.mp (h entry hentry) (of_decide_eq_true heq).symm

theorem filter_setEntry_ne {key k : String} (h : k ≠ key) (value : Value)
    (entries : List (String × Value)) :
    (BorrowedEvent.setEntry k value entries).filter (fun entry => entry.1 = key) =
      entries.filter fun entry => entry.1 = key := by
  induction entries with
  | nil => simp [BorrowedEvent.setEntry, h]
  | cons first rest ih =>
      obtain ⟨name, old⟩ := first
      rw [BorrowedEvent.setEntry]
      split
      · next heq => simp [heq, h]
      · rw [List.filter_cons, List.filter_cons, ih]

theorem filter_setEntry_self (key : String) (value : Value) (entries : List (String × Value)) :
    (BorrowedEvent.setEntry key value entries).filter (fun entry => entry.1 = key) =
      (key, value) :: (entries.filter fun entry => entry.1 = key).tail := by
  induction entries with
  | nil => simp [BorrowedEvent.setEntry]
  | cons first rest ih =>
      obtain ⟨name, old⟩ := first
      rw [BorrowedEvent.setEntry]
      split
      · next heq => simp [heq]
      · next hne =>
        rw [List.filter_cons_of_neg (by simpa using hne), ih,
          List.filter_cons_of_neg (by simpa using hne)]

theorem set_ne {key : String} (h : key ≠ "_error") (value : Value) (hslot : Slot handled event) :
    Slot handled (event.workspaceSet key value) :=
  (filter_setEntry_ne h value event.workspace).trans hslot

/-- The message of the failure that a catch body handles. -/
theorem bind (message : String) (hslot : Slot handled event) :
    Slot (some message) (event.workspaceSet "_error" (.string message)) := by
  refine (filter_setEntry_self "_error" _ event.workspace).trans ?_
  rw [hslot]
  cases handled <;> rfl

theorem unbind {message : String} (hslot : Slot (some message) event) :
    Slot none (event.workspaceRemove "_error") := by
  have herase : ∀ entries : List (String × Value),
      (entries.eraseP fun entry => entry.1 = "_error").filter (fun entry => entry.1 = "_error") =
        (entries.filter fun entry => entry.1 = "_error").tail := by
    intro entries
    induction entries with
    | nil => rfl
    | cons first rest ih =>
        by_cases hkey : first.1 = "_error"
        · simp [hkey]
        · simp [hkey, ih]
  refine (herase event.workspace).trans ?_
  rw [hslot]
  rfl

theorem get (hslot : Slot handled event) :
    event.workspaceGet "_error" = handled.map Value.string := by
  have hlookup : ∀ entries : List (String × Value), entries.lookup "_error" =
      ((entries.filter fun entry => entry.1 = "_error").head?).map Prod.snd := by
    intro entries
    induction entries with
    | nil => rfl
    | cons first rest ih =>
        obtain ⟨name, value⟩ := first
        by_cases hkey : name = "_error"
        · simp [hkey]
        · rw [List.filter_cons_of_neg (by simpa using hkey), ← ih, List.lookup_cons,
            beq_eq_false_iff_ne.mpr (Ne.symm hkey)]
  refine (hlookup event.workspace).trans ?_
  rw [hslot]
  cases handled <;> rfl

/-- The identifier, where no local binding has its name. -/
theorem resolveIdent (hslot : Slot handled event) {scope : LocalScope}
    (hscope : scope.get "error" = none) :
    resolveIdent ["error"] event scope = .ok ((handled.map Value.string).getD .null) := by
  rw [Dsl.resolveIdent, hscope]
  exact congrArg (fun found => Except.ok (found.getD Value.null)) hslot.get

end Slot
/-! ## What the statements do to the workspace -/

section Keys

variable {key : String} {event next : BorrowedEvent}

/-- A property of events that setting other keys keeps. -/
def KeptBySet (key : String) (inv : BorrowedEvent → Prop) : Prop :=
  ∀ k value event, k ≠ key → inv event → inv (event.workspaceSet k value)

theorem KeptBySet.applyAssign {inv : BorrowedEvent → Prop} (hset : KeptBySet key inv)
    (hegress : ∀ event egress, inv event → inv { event with egress := egress }) (rt : Runtime)
    {target : AssignTarget} (value : Value) (h : key ∉ assignedKeys target) (hevent : inv event) :
    inv (applyAssign rt event target value) := by
  cases target with
  | egress => exact hegress _ _ hevent
  | workspace path =>
      rcases path with _ | ⟨head, _ | ⟨second, rest⟩⟩
      · exact hevent
      · exact hset _ _ _ (fun heq => h (heq ▸ List.mem_cons_self ..)) hevent
      · exact hset _ _ _ (fun heq => h (heq ▸ List.mem_cons_self ..)) hevent

theorem KeptBySet.mergeObject {inv : BorrowedEvent → Prop} (hset : KeptBySet key inv)
    {value : Value} (h : key ∉ mergedKeys value) (hmerge : mergeObject event value = .ok next)
    (hevent : inv event) : inv next := by
  cases value with
  | object entries =>
      obtain rfl := Except.ok.inj hmerge
      change key ∉ entries.map Prod.fst at h
      clear hmerge
      induction entries generalizing event with
      | nil => exact hevent
      | cons first rest ih =>
          rw [List.map_cons, List.mem_cons, not_or] at h
          exact ih (hset _ _ _ (Ne.symm h.1) hevent) h.2
  | null => exact Except.ok.inj hmerge ▸ hevent
  | _ => exact nomatch hmerge

theorem lookup_setEntry_ne {k : String} (h : k ≠ key) (value : Value)
    (entries : List (String × Value)) :
    (BorrowedEvent.setEntry k value entries).lookup key = entries.lookup key := by
  induction entries with
  | nil => simp [BorrowedEvent.setEntry, Ne.symm h]
  | cons first rest ih =>
      obtain ⟨name, old⟩ := first
      rw [BorrowedEvent.setEntry]
      split
      · next heq => simp only [List.lookup_cons, heq, beq_eq_false_iff_ne.mpr (Ne.symm h)]
      · simp only [List.lookup_cons, ih]

theorem workspaceGet_remove_ne {k : String} (h : k ≠ key) (event : BorrowedEvent) :
    (event.workspaceRemove k).workspaceGet key = event.workspaceGet key := by
  have herase : ∀ entries : List (String × Value),
      (entries.eraseP fun entry => entry.1 = k).lookup key = entries.lookup key := by
    intro entries
    induction entries with
    | nil => rfl
    | cons first rest ih =>
        obtain ⟨name, value⟩ := first
        by_cases hname : name = k
        · simp [hname, List.lookup_cons, beq_eq_false_iff_ne.mpr (Ne.symm h)]
        · simp [hname, List.lookup_cons, ih]
  exact herase event.workspace

end Keys

/-! ## Runs -/

/-- A step that leaves the binding in order: it does not write the key, it does not leave a catch
body inside another one, and it does not call a process from a catch body. -/
def TraceEntry.Plain : TraceEntry World → Prop
  | reached point => point.handled = none ∨ ∀ name edgeSlot, point.statement ≠ .call name edgeSlot
  | wrote key => key ≠ "_error"
  | recovered handled => handled = none
  | left _ _ => True
  | bodyDropped => True

section Runs

variable {registry : IrProcessRegistry World} {node : MetricNodeId} {handled : Option String}
  {event : BorrowedEvent} {machine after : Machine World} {trace : List (TraceEntry World)}
  {ended : Ended}

theorem Slot.run (h : Runs registry node handled event machine trace ended after)
    (hplain : ∀ entry ∈ trace, entry.Plain) (hslot : Slot handled event) :
    (∀ point, .reached point ∈ trace → Slot point.handled point.event) ∧
      ∀ next, ended = .continued next → Slot handled next := by
  have hset : ∀ {handled : Option String}, KeptBySet "_error" (Slot handled) :=
    fun k value event hne hslot => hslot.set_ne hne value
  induction h with
  | done => exact ⟨fun _ h => absurd h List.not_mem_nil, fun _ h => Ended.continued.inj h ▸ hslot⟩
  | fails => exact ⟨fun _ h => absurd h List.not_mem_nil, fun _ h => nomatch h⟩
  | andThen _ _ ih ih' =>
      obtain ⟨hleft, hright⟩ := List.forall_mem_append.mp hplain
      obtain ⟨hpoints, hnext⟩ := ih hleft hslot
      obtain ⟨hpoints', hended⟩ := ih' hright (hnext _ rfl)
      refine ⟨fun point hpoint => ?_, hended⟩
      exact (List.mem_append.mp hpoint).elim (hpoints point) (hpoints' point)
  | evaluated _ ih => exact ih hplain hslot
  | reached hnode hhandled hevent _ _ _ ih =>
      obtain ⟨hpoints, hended⟩ := ih (List.forall_mem_cons.mp hplain).2 hslot
      refine ⟨fun point hpoint => ?_, hended⟩
      rcases List.mem_cons.mp hpoint with heq | hpoint
      · obtain rfl := TraceEntry.reached.inj heq
        rwa [hhandled, hevent]
      · exact hpoints point hpoint
  | drop hnode hhandled hevent _ =>
      refine ⟨fun point hpoint => ?_, fun _ h => nomatch h⟩
      obtain rfl := TraceEntry.reached.inj (List.mem_singleton.mp hpoint)
      rwa [hhandled, hevent]
  | assigned =>
      refine ⟨fun point hpoint => ?_, fun next h => ?_⟩
      · obtain ⟨_, -, heq⟩ := List.mem_map.mp hpoint
        exact nomatch heq
      · obtain rfl := Ended.continued.inj h
        refine hset.applyAssign (fun _ _ h => h) _ _ (fun hmem => ?_) hslot
        exact hplain _ (List.mem_map_of_mem hmem) rfl
  | merged hmerge =>
      refine ⟨fun point hpoint => ?_, fun next h => ?_⟩
      · obtain ⟨_, -, heq⟩ := List.mem_map.mp hpoint
        exact nomatch heq
      · obtain rfl := Ended.continued.inj h
        refine hset.mergeObject (fun hmem => ?_) hmerge hslot
        exact hplain _ (List.mem_map_of_mem hmem) rfl
  | recovered _ _ ih ih' =>
      obtain ⟨hboth, hlast⟩ := List.forall_mem_append.mp hplain
      obtain ⟨hleft, hright⟩ := List.forall_mem_append.mp hboth
      obtain ⟨hpoints, -⟩ := ih hleft hslot
      obtain ⟨hpoints', hnext⟩ := ih' hright (hslot.bind _)
      obtain rfl : _ = none := hlast _ (List.mem_singleton_self _)
      refine ⟨fun point hpoint => ?_, fun next h => ?_⟩
      · rcases List.mem_append.mp hpoint with hpoint | hpoint
        · exact (List.mem_append.mp hpoint).elim (hpoints point) (hpoints' point)
        · exact nomatch List.mem_singleton.mp hpoint
      · obtain rfl := Ended.continued.inj h
        exact (hnext _ rfl).unbind
  | unrecovered _ _ hended ih ih' =>
      obtain ⟨hleft, hright⟩ := List.forall_mem_append.mp hplain
      obtain ⟨hpoints, -⟩ := ih hleft hslot
      obtain ⟨hpoints', -⟩ := ih' hright (hslot.bind _)
      refine ⟨fun point hpoint => ?_, fun next h => absurd h (hended next)⟩
      exact (List.mem_append.mp hpoint).elim (hpoints point) (hpoints' point)
  | called hnode hhandled hevent hstatement hedge hfits _ ih =>
      obtain ⟨hfirst, hrest⟩ := List.forall_mem_cons.mp hplain
      -- a process is called outside catch bodies, so its frame starts without a message
      have hnone := hfirst.resolve_right fun h => h _ _ hstatement
      rw [hhandled] at hnone
      subst hnone
      obtain ⟨hpoints, hended⟩ := ih (List.forall_mem_append.mp hrest).1 hslot
      refine ⟨fun point hpoint => ?_, fun next h => ?_⟩
      · rcases List.mem_cons.mp hpoint with heq | hpoint
        · obtain rfl := TraceEntry.reached.inj heq
          rwa [hhandled, hevent]
        · rcases List.mem_append.mp hpoint with hpoint | hpoint
          · exact hpoints point hpoint
          · exact nomatch List.mem_singleton.mp hpoint
      · exact hended next (Ended.returned_eq_continued.mp h)
  | internal hnode hhandled hevent _ _ =>
      refine ⟨fun point hpoint => ?_, fun _ h => nomatch h⟩
      obtain rfl := TraceEntry.reached.inj (List.mem_singleton.mp hpoint)
      rwa [hhandled, hevent]

/-- A run leaves every other key that it does not write. -/
theorem workspaceGet_run {key : String} (hkey : key ≠ "_error")
    (h : Runs registry node handled event machine trace ended after)
    (hwrote : .wrote key ∉ trace) :
    ∀ next, ended = .continued next → next.workspaceGet key = event.workspaceGet key := by
  have hset : ∀ {value : Option Value}, KeptBySet key fun event => event.workspaceGet key = value :=
    fun k value event hne hget => (lookup_setEntry_ne hne value event.workspace).trans hget
  induction h with
  | done => exact fun next h => Ended.continued.inj h ▸ rfl
  | fails => exact fun _ h => nomatch h
  | andThen _ _ ih ih' =>
      rw [List.mem_append, not_or] at hwrote
      exact fun next h => (ih' hwrote.2 next h).trans (ih hwrote.1 _ rfl)
  | evaluated _ ih => exact ih hwrote
  | reached _ _ _ _ _ _ ih => exact ih fun h => hwrote (List.mem_cons_of_mem _ h)
  | drop => exact fun _ h => nomatch h
  | assigned =>
      intro next h
      obtain rfl := Ended.continued.inj h
      exact hset.applyAssign (fun _ _ h => h) _ _
        (fun hmem => hwrote (List.mem_map_of_mem hmem)) rfl
  | merged hmerge =>
      intro next h
      obtain rfl := Ended.continued.inj h
      exact hset.mergeObject (fun hmem => hwrote (List.mem_map_of_mem hmem)) hmerge rfl
  | recovered _ _ _ ih' =>
      intro next h
      obtain rfl := Ended.continued.inj h
      rw [List.mem_append, List.mem_append, not_or, not_or] at hwrote
      rw [workspaceGet_remove_ne (Ne.symm hkey), ih' hwrote.1.2 _ rfl]
      exact lookup_setEntry_ne (Ne.symm hkey) _ _
  | unrecovered _ _ hended _ _ => exact fun next h => absurd h (hended next)
  | called _ _ _ _ _ _ _ ih =>
      intro next h
      exact ih (fun h => hwrote (List.mem_cons_of_mem _ (List.mem_append_left _ h))) next
        (Ended.returned_eq_continued.mp h)
  | internal => exact fun _ h => nomatch h

end Runs

/-! ## The scope of `error` -/

/-- The run of the statement of a point, from there. -/
def IrProcessRegistry.traceAt (registry : IrProcessRegistry World) (point : Point World) :
    Eval (Traced World) (ExecResult × LocalScope) := do
  note fun machine => [.reached { point with machine }]
  traceStatement registry.rt (registry.evalIn point.depth)
    (registry.traceCallChild (registry.traceCall (point.depth - 1)) point.node) point.node
    point.depth point.handled point.event point.scope point.statement

theorem traceAt_runsAs (registry : IrProcessRegistry World) (point : Point World) :
    RunsAs registry point.node point.handled point.event (registry.traceAt point) :=
  traceStatement_runsAs
    (traceCallChild_runsAs fun target child event => traceCall_runs _ target child event)
    point.handled point.event point.scope point.statement fun _ => ⟨rfl, rfl, rfl, rfl⟩

/-- **`error` is scoped to the immediate catch body** in a run of a process whose steps leave the
binding in order: wherever a statement is reached, `error` is the message that the catch body
around it handles, or null outside of one, and a `try` statement that comes to its end has left
every key that it does not write.  The trace changes nothing. -/
theorem error_scoped {registry : IrProcessRegistry World} {depth : ℕ} {target : ProcessTarget}
    {node : MetricNodeId} {event : BorrowedEvent} {machine after : Machine World}
    {outcome : Except String (Option BorrowedEvent)} {trace : List (TraceEntry World)}
    (hevent : event.workspaceGet "_error" = none)
    (hrun : registry.traceCall depth target node event (machine, []) =
      some (outcome, (after, trace)))
    (hplain : ∀ entry ∈ trace, entry.Plain) :
    registry.call depth target node event machine = some (outcome, after) ∧
    ∀ point, .reached point ∈ trace →
      (point.scope.get "error" = none → resolveIdent ["error"] point.event point.scope =
        .ok ((point.handled.map Value.string).getD .null)) ∧
      ∀ tryBody catchBody next scope last inner, point.statement = .tryCatch tryBody catchBody →
        registry.traceAt point (point.machine, []) =
          some (.ok (.continue next, scope), (last, inner)) →
        (∀ entry ∈ inner, entry.Plain) → ∀ key, .wrote key ∉ inner →
          next.workspaceGet key = point.event.workspaceGet key := by
  constructor
  · have hforget := registry.traceCall_forgets depth target node event (machine, [])
    rw [hrun] at hforget
    exact hforget.symm
  · intro point hpoint
    have hslot : Slot point.handled point.event := by
      rcases traceCall_runs depth target node event machine [] outcome after trace hrun with
        ⟨rfl, -, -⟩ | ⟨added, ended, middle, rfl, -, hruns, -, -⟩
      · exact absurd hpoint List.not_mem_nil
      · rw [List.nil_append] at hpoint hplain
        have hbody := (List.forall_mem_append.mp hplain).1
        have hmem : .reached point ∈ added :=
          (List.mem_append.mp hpoint).resolve_right fun h => nomatch List.mem_singleton.mp h
        exact (Slot.run hruns hbody (Slot.none_iff.mpr hevent)).1 point hmem
    refine ⟨hslot.resolveIdent, ?_⟩
    intro tryBody catchBody next scope last inner hstatement hinner hinnerPlain key hwrote
    obtain ⟨added, rfl, hruns⟩ := traceAt_runsAs registry point _ [] _ last inner hinner
    by_cases hkey : key = "_error"
    · subst hkey
      have hnext := (Slot.run hruns hinnerPlain hslot).2 next rfl
      rw [hnext.get, hslot.get]
    · exact workspaceGet_run hkey hruns hwrote next rfl

/-! ### Runs that keep the scope, and runs that do not -/

/-- Processes that call no functions. -/
def bodiesOnly (rt : Runtime) (bodies : List ProcessBodyCode)
    (nodes : List MetricNodeDescriptor) : IrProcessRegistry Unit :=
  ⟨rt, bodies, nodes, ⟨fun _ => none, fun _ => false, fun _ => none, fun _ => none⟩⟩

/-- `workspace.seen = error` -/
def seeError : ProcessCode := .assign (.workspace ["seen"]) (.ident ["error"])

/-- `try { error "…" } catch { … }` -/
def failThen (message : String) (catchBody : List ProcessCode) : ProcessCode :=
  .tryCatch [.error (some (.stringLit message))] catchBody

/-- An event with a workspace. -/
def eventWith (workspace : List (String × Value)) : BorrowedEvent :=
  ⟨7, 0, .v4 .localhost 514, [], [], workspace, none⟩

/-- `try { error "down" } catch { workspace.seen = error }` -/
def caught (rt : Runtime) : IrProcessRegistry Unit :=
  bodiesOnly rt [⟨[failThen "down" [seeError]], []⟩] [⟨.known 0, []⟩]

/-- Where the catch body of `caught` reads `error`. -/
def caughtPoint : Point Unit :=
  ⟨0, 1, some "down", eventWith [("_error", .string "down")], [], ((), [⟨1, 0, 0, 0⟩]), seeError⟩

/-- The trace of a failure that is caught. -/
def caughtTrace : List (TraceEntry Unit) :=
  [.reached ⟨0, 1, none, eventWith [], [], ((), [⟨1, 0, 0, 0⟩]), failThen "down" [seeError]⟩,
    .reached ⟨0, 1, none, eventWith [], [], ((), [⟨1, 0, 0, 0⟩]),
      .error (some (.stringLit "down"))⟩,
    .reached caughtPoint, .wrote "seen", .recovered none,
    .left 0 (.continued (eventWith [("seen", .string "down")]))]

theorem error_scoped_caught :
    (eventWith []).workspaceGet "_error" = none ∧
    ∀ rt, (caught rt).call 1 (.known 0) 0 (eventWith []) ((), [⟨0, 0, 0, 0⟩]) =
        some (.ok (some (eventWith [("seen", .string "down")])), ((), [⟨1, 1, 0, 0⟩])) ∧
      resolveIdent ["error"] caughtPoint.event caughtPoint.scope = .ok (.string "down") := by
  refine ⟨rfl, fun rt => ?_⟩
  have hrun : (caught rt).traceCall 1 (.known 0) 0 (eventWith []) (((), [⟨0, 0, 0, 0⟩]), []) =
      some (.ok (some (eventWith [("seen", .string "down")])),
        (((), [⟨1, 1, 0, 0⟩]), caughtTrace)) := rfl
  have hplain : ∀ entry ∈ caughtTrace, entry.Plain := by
    simp [caughtTrace, TraceEntry.Plain, failThen, seeError, caughtPoint]
  obtain ⟨hcall, hpoints⟩ := error_scoped rfl hrun hplain
  exact ⟨hcall, (hpoints caughtPoint (by simp [caughtTrace])).1 rfl⟩

/-- The event after the run of the first process. -/
def resultOf (registry : IrProcessRegistry Unit) (event : BorrowedEvent) :
    Option BorrowedEvent :=
  let counters := registry.metricNodes.map fun _ => ⟨0, 0, 0, 0⟩
  match registry.call 2 (.known 0) 0 event ((), counters) with
  | some (.ok next, _) => next
  | _ => none

/-- A catch body inside another one takes the message of the outer one with it; a process that a
catch body calls sees the message; and what the data has under the key is seen outside of catch
bodies and lost after one. -/
theorem error_leaks :
    (∀ rt, ∃ next,
      resultOf (bodiesOnly rt [⟨[failThen "outer" [failThen "inner" [], seeError]], []⟩]
        [⟨.known 0, []⟩]) (eventWith []) = some next ∧
      next.workspaceGet "seen" = some .null) ∧
    (∀ rt, ∃ next,
      resultOf (bodiesOnly rt [⟨[failThen "outer" [.call "report" 0]], [⟨"report", .known 1⟩]⟩,
        ⟨[seeError], []⟩] [⟨.known 0, [1]⟩, ⟨.known 1, []⟩]) (eventWith []) = some next ∧
      next.workspaceGet "seen" = some (.string "outer")) ∧
    ∀ rt, ∃ next,
      resultOf (bodiesOnly rt [⟨[seeError, failThen "down" []], []⟩] [⟨.known 0, []⟩])
        (eventWith [("_error", .string "data")]) = some next ∧
      next.workspaceGet "seen" = some (.string "data") ∧ next.workspaceGet "_error" = none :=
  ⟨fun _ => ⟨_, rfl, rfl⟩, fun _ => ⟨_, rfl, rfl⟩, fun _ => ⟨_, rfl, rfl, rfl⟩⟩

end Limpid.Pipeline
