import Mathlib.Algebra.BigOperators.Group.List.Basic
import Mathlib.Algebra.GroupWithZero.Nat
import Limpid.Pipeline.Frames

/-!
# Counting frames

What a trace says about the frames of a run: how often the frame of a node was left, and how, and
how often a `drop` was executed in the frames of a node.

The counters of a run count what its trace says (`Runs.tallies`).  And the drops of a node are its
own and those of its children (`Runs.balanced`): a frame that ends with a drop has executed one or
has called a child that did.  The second needs that a node is called from one place only; in the
tables of a sealed pipeline the children of the nodes make it so (`Forest`).
-/

namespace Limpid.Pipeline

variable {World : Type}

/-! ## What a trace says -/

namespace Ended

/-- The frame was left with an event. -/
def isContinued : Ended → Bool
  | continued _ => true
  | _ => false

/-- The frame was left with a drop. -/
def isDropped : Ended → Bool
  | dropped => true
  | _ => false

/-- The frame was left with an error. -/
def isFailed : Ended → Bool
  | failed _ => true
  | _ => false

@[simp] theorem isDropped_returned (ended : Ended) :
    ended.returned.isDropped = ended.isDropped := by
  cases ended <;> rfl

theorem eq_dropped_of_isDropped {ended : Ended} (h : ended.isDropped = true) :
    ended = dropped := by
  cases ended with
  | dropped => rfl
  | continued event => exact nomatch h
  | failed message => exact nomatch h

end Ended

/-- The statement is `drop`. -/
def ProcessCode.isDrop : ProcessCode → Bool
  | drop => true
  | _ => false

namespace TraceEntry

/-- The entry leaves a frame of the node in this way. -/
def isLeft (node : MetricNodeId) (how : Ended → Bool) : TraceEntry World → Bool
  | left other ended => other = node && how ended
  | _ => false

/-- The entry is a `drop` in the body of the node. -/
def isOwnDrop (node : MetricNodeId) : TraceEntry World → Bool
  | reached point => point.node = node && point.statement.isDrop
  | _ => false

/-- The entry is a `drop` in the body of the pipeline. -/
def isBodyDrop : TraceEntry World → Bool
  | bodyDropped => true
  | _ => false

end TraceEntry

section Counts

variable (node : MetricNodeId) (trace : List (TraceEntry World))

/-- How often the frame of a node was left in one of some ways. -/
def framesLeft (how : Ended → Bool) : ℕ := trace.countP (TraceEntry.isLeft node how)

/-- How often the frame of a node ended with a drop. -/
def framesDropped : ℕ := framesLeft node trace Ended.isDropped

/-- How often a `drop` was executed in the frames of a node. -/
def ownDrops : ℕ := trace.countP (TraceEntry.isOwnDrop node)

/-- How often a `drop` of the pipeline body was executed. -/
def bodyDrops : ℕ := trace.countP TraceEntry.isBodyDrop

/-- How often the frames of some nodes ended with a drop. -/
def childDrops (children : List MetricNodeId) : ℕ :=
  (children.map fun child => framesDropped child trace).sum

end Counts

section Append

variable (node : MetricNodeId) (children : List MetricNodeId)
  (trace more : List (TraceEntry World))

theorem framesLeft_append (how : Ended → Bool) :
    framesLeft node (trace ++ more) how = framesLeft node trace how + framesLeft node more how :=
  List.countP_append

theorem framesDropped_append :
    framesDropped node (trace ++ more) = framesDropped node trace + framesDropped node more :=
  List.countP_append

theorem ownDrops_append : ownDrops node (trace ++ more) =
    ownDrops node trace + ownDrops node more :=
  List.countP_append

theorem bodyDrops_append : bodyDrops (trace ++ more) = bodyDrops trace + bodyDrops more :=
  List.countP_append

theorem childDrops_append :
    childDrops (trace ++ more) children = childDrops trace children + childDrops more children := by
  unfold childDrops
  rw [← List.sum_map_add]
  simp only [framesDropped_append]

end Append

/-- An entry is of one of the kinds that are counted, or of none. -/
theorem framesDropped_left (node other : MetricNodeId) (ended : Ended) :
    framesDropped node [(TraceEntry.left other ended : TraceEntry World)] =
      if other = node ∧ ended.isDropped then 1 else 0 := by
  by_cases h : other = node ∧ ended.isDropped = true
  · simp [framesDropped, framesLeft, TraceEntry.isLeft, h]
  · rw [if_neg h]
    simpa [framesDropped, framesLeft, TraceEntry.isLeft] using h

/-- A frame that is left with a drop is counted as often as its node is among the children. -/
theorem childDrops_left (children : List MetricNodeId) (node : MetricNodeId) (ended : Ended) :
    childDrops [(TraceEntry.left node ended : TraceEntry World)] children =
      if ended.isDropped then children.count node else 0 := by
  unfold childDrops
  induction children with
  | nil => simp
  | cons first rest ih =>
      rw [List.map_cons, List.sum_cons, ih, framesDropped_left]
      by_cases hdropped : ended.isDropped = true
      · by_cases hfirst : node = first
        · subst hfirst
          simp [hdropped, Nat.add_comm]
        · simp [hdropped, hfirst, Ne.symm hfirst]
      · simp [hdropped]

/-- What no frame leaves has no drops of frames. -/
theorem childDrops_eq_zero {trace : List (TraceEntry World)}
    (h : ∀ entry ∈ trace, ∀ node, entry.isLeft node Ended.isDropped = false)
    (children : List MetricNodeId) : childDrops trace children = 0 := by
  refine List.sum_eq_zero fun count hcount => ?_
  obtain ⟨child, -, rfl⟩ := List.mem_map.mp hcount
  refine List.countP_eq_zero.mpr fun entry hentry => ?_
  rw [h entry hentry child]
  exact Bool.false_ne_true

/-! ## The counters -/

namespace ProcessCounters

/-- Nothing is counted. -/
def zero : ProcessCounters := ⟨0, 0, 0, 0⟩

/-- The counters of a node after the frames of a trace. -/
def counted (c : ProcessCounters) (node : MetricNodeId) (trace : List (TraceEntry World)) :
    ProcessCounters where
  incoming := c.incoming + framesLeft node trace fun _ => true
  outgoing := c.outgoing + framesLeft node trace Ended.isContinued
  dropped := c.dropped + framesLeft node trace Ended.isDropped
  errored := c.errored + framesLeft node trace Ended.isFailed

theorem counted_append (c : ProcessCounters) (node : MetricNodeId)
    (trace more : List (TraceEntry World)) :
    (c.counted node trace).counted node more = c.counted node (trace ++ more) := by
  simp only [counted, framesLeft_append, Nat.add_assoc]

/-- A frame that is left ended in one way. -/
theorem framesLeft_total (node : MetricNodeId) (trace : List (TraceEntry World)) :
    (framesLeft node trace fun _ => true) = framesLeft node trace Ended.isContinued +
      framesLeft node trace Ended.isDropped + framesLeft node trace Ended.isFailed := by
  induction trace with
  | nil => rfl
  | cons entry rest ih =>
      have hcons : ∀ how, framesLeft node (entry :: rest) how =
          framesLeft node [entry] how + framesLeft node rest how := fun how =>
        framesLeft_append node [entry] rest how
      rw [hcons, hcons, hcons, hcons, ih]
      have hentry : (framesLeft node [entry] fun _ => true) =
          framesLeft node [entry] Ended.isContinued + framesLeft node [entry] Ended.isDropped +
            framesLeft node [entry] Ended.isFailed := by
        cases entry with
        | left other ended => cases ended <;> by_cases h : other = node <;>
            simp [framesLeft, TraceEntry.isLeft, Ended.isContinued, Ended.isDropped,
              Ended.isFailed, h]
        | _ => rfl
      omega

end ProcessCounters

/-- The counters after are those before with the frames of the trace counted. -/
def Tallies (before after : List ProcessCounters) (trace : List (TraceEntry World)) : Prop :=
  ∀ node, after[node]? = (before[node]?).map fun (c : ProcessCounters) => c.counted node trace

namespace Tallies

variable {before middle after : List ProcessCounters} {trace more : List (TraceEntry World)}

theorem nil : Tallies before before ([] : List (TraceEntry World)) := by
  intro node
  cases before[node]? <;> rfl

theorem append (h : Tallies before middle trace) (h' : Tallies middle after more) :
    Tallies before after (trace ++ more) := by
  intro node
  rw [h' node, h node, Option.map_map]
  congr 1
  exact funext fun c => c.counted_append node trace more

/-- An entry that leaves no frame. -/
theorem cons {entry : TraceEntry World} (hentry : ∀ node how, entry.isLeft node how = false)
    (h : Tallies before after trace) : Tallies before after (entry :: trace) := by
  intro node
  rw [h node]
  congr 1
  funext c
  simp only [ProcessCounters.counted, framesLeft, List.countP_cons_of_neg, hentry node,
    Bool.false_eq_true, not_false_eq_true]

theorem of_forall (htrace : ∀ entry ∈ trace, ∀ node how, entry.isLeft node how = false) :
    Tallies before before trace := by
  induction trace with
  | nil => exact nil
  | cons entry rest ih =>
      obtain ⟨hentry, hrest⟩ := List.forall_mem_cons.mp htrace
      exact (ih hrest).cons hentry

/-- A frame: its start and its end with what it does between. -/
theorem frame {child : MetricNodeId} {ended : Ended}
    (h : Tallies (before.modify child .start) middle trace) :
    Tallies before (middle.modify child ended.update) (trace ++ [.left child ended]) := by
  intro node
  rw [List.getElem?_modify, h node, List.getElem?_modify]
  cases before[node]? with
  | none => rfl
  | some c =>
      simp only [Option.map_eq_map, Option.map_some, Option.some.injEq]
      by_cases hnode : child = node
      · subst hnode
        simp only [if_true]
        rw [← ProcessCounters.counted_append]
        cases ended <;>
          simp [ProcessCounters.counted, ProcessCounters.start, Ended.update,
            ProcessCounters.continued, ProcessCounters.drop, ProcessCounters.error, framesLeft,
            TraceEntry.isLeft, Ended.isContinued, Ended.isDropped, Ended.isFailed] <;> omega
      · rw [← ProcessCounters.counted_append]
        simp [ProcessCounters.counted, framesLeft, TraceEntry.isLeft, hnode]

end Tallies

/-! ## Runs of processes -/

/-- The tables of a pipeline whose nodes are called from one place each, and whose edges lead to
bodies. -/
structure IrProcessRegistry.Forest (registry : IrProcessRegistry World) : Prop where
  bodies : ∀ body ∈ registry.processBodies, ∀ edge ∈ body.edges, ∀ bodyId,
    edge.target = .known bodyId → registry.processBodies[bodyId]? ≠ none
  children : ∀ (parent node : ℕ) (descriptor other : MetricNodeDescriptor) (child : MetricNodeId),
    registry.metricNodes[parent]? = some descriptor →
    registry.metricNodes[node]? = some other → child ∈ descriptor.children →
      other.children.count child = if node = parent then 1 else 0

section Runs

variable {registry : IrProcessRegistry World} {node : MetricNodeId} {handled : Option String}
  {event : BorrowedEvent} {machine after : Machine World} {trace : List (TraceEntry World)}
  {ended : Ended}

/-- An edge that resolves is one of the body of the node. -/
theorem resolveEdge_eq_ok {name : String} {edgeSlot : EdgeSlot} {target : ProcessTarget}
    {child : MetricNodeId} (h : registry.resolveEdge node name edgeSlot = .ok (target, child)) :
    ∃ descriptor body edge, registry.metricNodes[node]? = some descriptor ∧
      body ∈ registry.processBodies ∧ edge ∈ body.edges ∧ edge.target = target ∧
      child ∈ descriptor.children := by
  unfold IrProcessRegistry.resolveEdge at h
  cases hnode : registry.metricNodes[node]? with
  | none => simp [hnode] at h
  | some descriptor =>
      cases htarget : descriptor.target with
      | unknown => simp [hnode, htarget] at h
      | known bodyId =>
          cases hbody : registry.processBodies[bodyId]? with
          | none => simp [hnode, htarget, hbody] at h
          | some body =>
              cases hedge : body.edges[edgeSlot]? with
              | none => simp [hnode, htarget, hbody, hedge] at h
              | some edge =>
                  by_cases hname : edge.name = name
                  · cases hchild : descriptor.children[edgeSlot]? with
                    | none => simp [hnode, htarget, hbody, hedge, hname, hchild] at h
                    | some found =>
                        simp only [hnode, htarget, hbody, hedge, hname, hchild, ne_eq,
                          not_true_eq_false, if_false, Except.ok.injEq, Prod.mk.injEq] at h
                        obtain ⟨rfl, rfl⟩ := h
                        exact ⟨descriptor, body, edge, rfl, List.mem_of_getElem? hbody,
                          List.mem_of_getElem? hedge, rfl, List.mem_of_getElem? hchild⟩
                  · simp [hnode, htarget, hbody, hedge, hname] at h

/-- A call that has no frame changes no counter. -/
theorem IrProcessRegistry.Forest.after_eq (hforest : registry.Forest) {name : String}
    {edgeSlot : EdgeSlot}
    (h : after = machine ∨ ∃ bodyId child, registry.processBodies[bodyId]? = none ∧
      registry.resolveEdge node name edgeSlot = .ok (.known bodyId, child)) : after = machine := by
  refine h.resolve_right ?_
  rintro ⟨bodyId, child, hnone, hedge⟩
  obtain ⟨_, body, edge, -, hbody, hmem, htarget, -⟩ := resolveEdge_eq_ok hedge
  exact hforest.bodies body hbody edge hmem bodyId htarget hnone

/-- **The counters count the frames.** -/
theorem Runs.tallies (hforest : registry.Forest)
    (h : Runs registry node handled event machine trace ended after) :
    Tallies machine.2 after.2 trace := by
  induction h with
  | done => exact .nil
  | fails => exact .nil
  | andThen _ _ ih ih' => exact ih.append ih'
  | evaluated _ ih => exact ih
  | reached _ _ _ _ _ _ ih => exact ih.cons fun _ _ => rfl
  | drop => exact Tallies.nil.cons fun _ _ => rfl
  | assigned =>
      refine .of_forall fun entry hentry => ?_
      obtain ⟨key, -, rfl⟩ := List.mem_map.mp hentry
      exact fun _ _ => rfl
  | merged _ =>
      refine .of_forall fun entry hentry => ?_
      obtain ⟨key, -, rfl⟩ := List.mem_map.mp hentry
      exact fun _ _ => rfl
  | recovered _ _ ih ih' =>
      exact (ih.append ih').append (Tallies.nil.cons fun _ _ => rfl)
  | unrecovered _ _ _ ih ih' => exact ih.append ih'
  | called _ _ _ _ _ _ _ ih => exact ih.frame.cons fun _ _ => rfl
  | internal _ _ _ _ hafter =>
      obtain rfl := hforest.after_eq hafter
      exact Tallies.nil.cons fun _ _ => rfl

/-- The drops in the frames of a node, its own and those of its children, are the frames that
ended with a drop, and the one of the frame that is still open. -/
def Balanced (registry : IrProcessRegistry World) (trace : List (TraceEntry World))
    (pending : MetricNodeId → ℕ) : Prop :=
  ∀ (node : ℕ) descriptor, registry.metricNodes[node]? = some descriptor →
    ownDrops node trace + childDrops trace descriptor.children =
      framesDropped node trace + pending node

namespace Balanced

variable {more : List (TraceEntry World)} {pending others : MetricNodeId → ℕ}

theorem nil : Balanced registry [] fun _ => 0 := by
  intro node descriptor _
  rw [childDrops_eq_zero (fun _ h => absurd h List.not_mem_nil)]
  rfl

theorem append (h : Balanced registry trace pending) (h' : Balanced registry more others) :
    Balanced registry (trace ++ more) fun node => pending node + others node := by
  intro node descriptor hnode
  have hfirst := h node descriptor hnode
  have hsecond := h' node descriptor hnode
  rw [ownDrops_append, childDrops_append, framesDropped_append]
  change _ = _ + (pending node + others node)
  omega

theorem congr (h : Balanced registry trace pending) (heq : ∀ node, pending node = others node) :
    Balanced registry trace others := by
  intro node descriptor hnode
  rw [h node descriptor hnode, heq]

/-- Entries that are not counted. -/
theorem of_forall (hown : ∀ entry ∈ trace, ∀ node, entry.isOwnDrop node = false)
    (hleft : ∀ entry ∈ trace, ∀ node how, entry.isLeft node how = false) :
    Balanced registry trace fun _ => 0 := by
  intro node descriptor _
  rw [childDrops_eq_zero fun entry hentry node => hleft entry hentry node _]
  have howns : ownDrops node trace = 0 := List.countP_eq_zero.mpr fun entry hentry => by
    rw [hown entry hentry]
    exact Bool.false_ne_true
  have hframes : framesDropped node trace = 0 := List.countP_eq_zero.mpr fun entry hentry => by
    rw [hleft entry hentry]
    exact Bool.false_ne_true
  rw [howns, hframes]

theorem wrote (keys : List String) :
    Balanced registry (keys.map (@TraceEntry.wrote World)) fun _ => 0 := by
  refine of_forall (fun entry hentry => ?_) fun entry hentry => ?_
  · obtain ⟨key, -, rfl⟩ := List.mem_map.mp hentry
    exact fun _ => rfl
  · obtain ⟨key, -, rfl⟩ := List.mem_map.mp hentry
    exact fun _ _ => rfl

theorem cons {entry : TraceEntry World} (hown : ∀ node, entry.isOwnDrop node = false)
    (hleft : ∀ node how, entry.isLeft node how = false) (h : Balanced registry trace pending) :
    Balanced registry (entry :: trace) pending := by
  have hentry : Balanced registry [entry] fun _ => 0 :=
    of_forall (List.forall_mem_singleton.mpr hown) (List.forall_mem_singleton.mpr hleft)
  exact (hentry.append h).congr fun node => Nat.zero_add _

end Balanced

/-- The frame of a node that is open, which ends with a drop or does not. -/
def pendingAt (node : MetricNodeId) (dropped : Bool) : MetricNodeId → ℕ := fun other =>
  if other = node ∧ dropped then 1 else 0

theorem pendingAt_false (node : MetricNodeId) : (fun _ => 0) = pendingAt node false := by
  funext other
  simp [pendingAt]

/-- A part whose frame has not ended with a drop. -/
theorem Balanced.andThen {more : List (TraceEntry World)} {pending : MetricNodeId → ℕ}
    (h : Balanced registry trace (pendingAt node false)) (h' : Balanced registry more pending) :
    Balanced registry (trace ++ more) pending := by
  rw [← pendingAt_false] at h
  exact (h.append h').congr fun other => Nat.zero_add _

/-- A statement that is no drop. -/
theorem isOwnDrop_reached {point : Point World} (hdrop : point.statement ≠ .drop)
    (node : MetricNodeId) : (TraceEntry.reached point).isOwnDrop node = false := by
  have hkind : point.statement.isDrop = false := by
    cases hstatement : point.statement with
    | drop => exact absurd hstatement hdrop
    | _ => rfl
  simp [TraceEntry.isOwnDrop, hkind]

/-- A `drop` statement leaves the drop of its frame pending. -/
theorem balanced_drop {point : Point World} (hnode : point.node = node)
    (hdrop : point.statement = .drop) :
    Balanced registry [.reached point] (pendingAt node true) := by
  intro other descriptor _
  rw [childDrops_eq_zero (List.forall_mem_singleton.mpr fun _ => rfl)]
  by_cases hother : other = node
  · simp [ownDrops, framesDropped, framesLeft, TraceEntry.isOwnDrop, TraceEntry.isLeft, pendingAt,
      hnode, hdrop, ProcessCode.isDrop, hother]
  · simp [ownDrops, framesDropped, framesLeft, TraceEntry.isOwnDrop, TraceEntry.isLeft, pendingAt,
      hnode, hother, Ne.symm hother]

/-- A frame that is left moves its drop to the frame that called it. -/
theorem Balanced.left (hforest : registry.Forest) {parent child : MetricNodeId}
    {descriptor : MetricNodeDescriptor} (hparent : registry.metricNodes[parent]? = some descriptor)
    (hchild : child ∈ descriptor.children)
    (h : Balanced registry trace (pendingAt child ended.isDropped)) :
    Balanced registry (trace ++ [.left child ended]) (pendingAt parent ended.isDropped) := by
  intro node other hnode
  have hinner := h node other hnode
  have hcount := hforest.children parent node descriptor other child hparent hnode hchild
  rw [ownDrops_append, childDrops_append, framesDropped_append, childDrops_left,
    framesDropped_left, hcount]
  have hown : ownDrops node [(.left child ended : TraceEntry World)] = 0 := rfl
  rw [hown]
  unfold pendingAt at *
  by_cases hdropped : ended.isDropped = true
  · simp only [hdropped, and_true, if_true] at *
    by_cases hsame : node = child
    · rw [if_pos hsame] at hinner
      rw [if_pos hsame.symm]
      omega
    · rw [if_neg hsame] at hinner
      rw [if_neg (Ne.symm hsame)]
      omega
  · simp only [hdropped, Bool.false_eq_true, and_false, if_false] at *
    omega

/-- **A node's drops are its own and its children's.** -/
theorem Runs.balanced (hforest : registry.Forest)
    (h : Runs registry node handled event machine trace ended after) :
    Balanced registry trace (pendingAt node ended.isDropped) := by
  induction h with
  | @done node => exact pendingAt_false node ▸ .nil
  | @fails node => exact pendingAt_false node ▸ .nil
  | andThen _ _ ih ih' => exact ih.andThen ih'
  | evaluated _ ih => exact ih
  | reached _ _ _ _ hdrop _ ih => exact ih.cons (isOwnDrop_reached hdrop) fun _ _ => rfl
  | drop hnode _ _ hstatement => exact balanced_drop hnode hstatement
  | @assigned node => exact pendingAt_false node ▸ .wrote _
  | @merged node => exact pendingAt_false node ▸ .wrote _
  | @recovered node _ _ _ _ _ _ _ _ _ _ _ ih ih' =>
      refine (ih.andThen ih').andThen (pendingAt_false node ▸ ?_)
      exact Balanced.nil.cons (fun _ => rfl) fun _ _ => rfl
  | unrecovered _ _ _ ih ih' => exact ih.andThen ih'
  | called _ _ _ hstatement hedge _ _ ih =>
      obtain ⟨descriptor, _, _, hparent, -, -, -, hchild⟩ := resolveEdge_eq_ok hedge
      rw [Ended.isDropped_returned]
      refine (ih.left hforest hparent hchild).cons (isOwnDrop_reached ?_) fun _ _ => rfl
      rw [hstatement]
      exact fun h => nomatch h
  | @internal node _ _ _ _ _ _ _ point _ _ _ hstatement _ =>
      refine pendingAt_false node ▸ Balanced.nil.cons (isOwnDrop_reached ?_) fun _ _ => rfl
      rw [hstatement]
      exact fun h => nomatch h

end Runs

end Limpid.Pipeline
