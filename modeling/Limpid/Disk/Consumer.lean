import Limpid.Runs
import Limpid.Disk.AtLeastOnce

/-!
# The consumer of a disk queue

`run_queue_consumer` hands the events of a queue to its output and acks each one when the
output resolves its handle.  A handle resolves once, as `Delivered`, `Recovered` or `Dropped`.
An event that is `Dropped` must stay on disk: the first one wedges the consumer and is not
acked.

Two loops receive the resolutions.  The select loop holds back only the position it wedged on
and acks every later `Dropped` like any other disposition, since "the wedged front already holds
the cursor"; the drain after the loop holds back every `Dropped`.  But handles resolve in any
order, so the wedged position need not be the front of the deque: a `Dropped` before it is acked
and the cursor goes past it (`dropped_behind_cursor`).  As long as every `Dropped` the select
loop receives once wedged lies behind a position held back (`HeldAhead`), none is lost
(`dropped_replayed`).

The queue under the consumer is the one of a `Run`, so what `Run.Inv` says of it holds in every
state of the consumer.
-/

namespace Limpid.Disk

variable {Event : Type*}

/-- `AckDisposition`. -/
inductive AckDisposition where
  | delivered
  | recovered
  | dropped
deriving DecidableEq, Repr

/-- The state of `run_queue_consumer` over its queue. -/
structure Consumer (Event : Type*) where
  run : Run Event
  accepting : Bool
  wedged : Bool
  inFlight : ℕ
  /-- The select loop has been left and the remaining resolutions are drained. -/
  draining : Bool
  /-- The positions handed to the output. -/
  received : List Position
  /-- Those whose handle has not resolved. -/
  outstanding : List Position
  /-- Those that resolved as `Dropped`. -/
  dropped : List Position
  /-- Those of them that were not acked. -/
  held : List Position

/-- A move of the queue, its consumer or the output. -/
inductive ConsumerMove (Event : Type*) where
  | send (io : WriteIo) (event : Event)
  | close
  | receive
  | resolve (io : AckIo) (position : Position) (disposition : AckDisposition)
  | shutdown

/-- `record_wedge_transition_if_first` on a disk position: the flag afterwards. -/
def recordWedgeTransitionIfFirst (disposition : AckDisposition) (wedged : Bool) : Bool :=
  if disposition = .dropped ∧ wedged = false then true else wedged

namespace Consumer

variable (codec : RecordCodec Event)

/-- `receiver.ack_to`. -/
def ack (io : AckIo) (position : Position) (consumer : Consumer Event) : Consumer Event :=
  { consumer with run := consumer.run.step codec (.ackTo io position) }

/-- The cursor stays where it is, and the gauge counts the event. -/
def hold (position : Position) (consumer : Consumer Event) : Consumer Event :=
  { consumer with held := consumer.held ++ [position] }

/-- One resolution in the ack arm of the select loop. -/
def steadyAck (io : AckIo) (position : Position) (disposition : AckDisposition)
    (consumer : Consumer Event) : Consumer Event :=
  let wasWedged := consumer.wedged
  let wedged := recordWedgeTransitionIfFirst disposition consumer.wedged
  let consumer := { consumer with wedged := wedged }
  let consumer :=
    if wasWedged = false ∧ wedged = true then hold position { consumer with accepting := false }
    else ack codec io position consumer
  let inFlight := consumer.inFlight - 1
  { consumer with
    inFlight := inFlight
    draining := decide (consumer.accepting = false ∧ inFlight = 0) }

/-- One resolution in the drain after the loop. -/
def drainAck (io : AckIo) (position : Position) (disposition : AckDisposition)
    (consumer : Consumer Event) : Consumer Event :=
  let consumer :=
    { consumer with wedged := recordWedgeTransitionIfFirst disposition consumer.wedged }
  let consumer :=
    if disposition = .dropped then hold position consumer else ack codec io position consumer
  { consumer with inFlight := consumer.inFlight - 1 }

/-- The handle at `position` resolves. -/
def resolve (position : Position) (disposition : AckDisposition) (consumer : Consumer Event) :
    Consumer Event :=
  { consumer with
    outstanding := consumer.outstanding.erase position
    dropped := if disposition = .dropped then consumer.dropped ++ [position]
      else consumer.dropped }

/-- The receiving arm: an event is handed out, or a closed and empty queue ends acceptance. -/
def receive (consumer : Consumer Event) : Consumer Event :=
  let next := { consumer with run := consumer.run.step codec .tryRecv }
  match (tryReadNext codec consumer.run.queue).1 with
  | some (_, position) =>
      { next with
        inFlight := consumer.inFlight + 1
        received := consumer.received ++ [position]
        outstanding := consumer.outstanding ++ [position] }
  | none =>
      if consumer.run.queue.closed then
        { next with accepting := false, draining := decide (consumer.inFlight = 0) }
      else next

/-- The step of a move, `none` when the consumer cannot take it. -/
def step (consumer : Consumer Event) : ConsumerMove Event → Option (Consumer Event)
  | .send io event => some { consumer with run := consumer.run.step codec (.send io event) }
  | .close => some { consumer with run := consumer.run.step codec .close }
  | .receive =>
      if consumer.accepting = true ∧ consumer.draining = false then some (receive codec consumer)
      else none
  | .resolve io position disposition =>
      if position ∈ consumer.outstanding then
        if consumer.draining then
          some (drainAck codec io position disposition (resolve position disposition consumer))
        else some (steadyAck codec io position disposition (resolve position disposition consumer))
      else none
  | .shutdown =>
      if (consumer.accepting = true ∨ consumer.wedged = true) ∧ consumer.draining = false then
        some { consumer with draining := true }
      else none

/-- A consumer starting on a freshly opened queue. -/
def start (queue : DiskQueue) : Consumer Event :=
  ⟨⟨queue, [], [], [], [], []⟩, true, false, 0, false, [], [], [], []⟩

/-- A `Dropped` that the select loop receives once wedged starts behind a position held back. -/
def HeldAhead (consumer : Consumer Event) : ConsumerMove Event → Prop
  | .resolve _ position .dropped => consumer.draining = false → consumer.wedged = true →
      ∃ held ∈ consumer.held, held < position
  | _ => True

/-- The start positions in the receiver's in-flight deque. -/
def starts (consumer : Consumer Event) : List Position :=
  consumer.run.queue.receiver.inFlightPositions.map InFlight.start

/-- The invariant of the consumer: a position held back is in the deque and stays there, and
every `Dropped` is held back or behind one that is. -/
structure Inv (consumer : Consumer Event) : Prop where
  run : consumer.run.Inv codec
  received : ∀ p ∈ consumer.received, p ∈ consumer.run.handed
  outstanding_nodup : consumer.outstanding.Nodup
  outstanding_received : ∀ p ∈ consumer.outstanding, p ∈ consumer.received
  held_received : ∀ p ∈ consumer.held, p ∈ consumer.received
  held_outstanding : ∀ p ∈ consumer.held, p ∉ consumer.outstanding
  acked_received : ∀ p ∈ consumer.run.acked, p ∈ consumer.received
  acked_outstanding : ∀ p ∈ consumer.run.acked, p ∉ consumer.outstanding
  held_acked : ∀ p ∈ consumer.held, p ∉ consumer.run.acked
  dropped : ∀ p ∈ consumer.dropped, p ∈ consumer.received ∧ ∃ held ∈ consumer.held, held ≤ p

variable {codec} {consumer : Consumer Event}

/-- An in-flight position is the start of a record the acked cursor still has to read. -/
theorem record_of_start (h : consumer.run.Inv codec) {p : Position} (hp : p ∈ consumer.starts) :
    ∃ r ∈ consumer.run.unacked codec, r.start = p := by
  obtain ⟨claimed, hunacked, hbounds⟩ := h.inFlight
  have hmem : p ∈ claimed.map Record.start := by
    have hmap := congrArg (List.map Prod.fst) hbounds
    rw [List.map_map, List.map_map] at hmap
    exact hmap ▸ hp
  obtain ⟨r, hr, rfl⟩ := List.mem_map.mp hmem
  exact ⟨r, by rw [hunacked]; exact List.mem_append_left _ hr, rfl⟩

/-- What has been received and not acked is in the deque. -/
theorem Inv.mem_starts (h : consumer.Inv codec) {p : Position} (hp : p ∈ consumer.received)
    (hnot : p ∉ consumer.run.completed) : p ∈ consumer.starts := by
  have hhanded := h.received p hp
  rw [← h.run.handed_eq] at hhanded
  exact (List.mem_append.mp hhanded).resolve_left hnot

/-- Whatever has been received starts before what is received next. -/
theorem Inv.received_lt (h : consumer.Inv codec) {r : Record Event} {rest : List (Record Event)}
    (hpending : consumer.run.queue.pending codec = r :: rest) :
    ∀ p ∈ consumer.received, p < r.start := by
  intro p hp
  have hr : r ∈ consumer.run.queue.pending codec := by
    rw [hpending]
    exact List.mem_cons_self ..
  exact Position.lt_of_lt_of_le (h.run.handed_lt p (h.received p hp)) (unread_bounds hr).1

/-! ## The moves -/

/-- A step of the queue that hands nothing out and acks nothing. -/
theorem Inv.of_run (h : consumer.Inv codec) {run : Run Event} (hrun : run.Inv codec)
    (hhanded : run.handed = consumer.run.handed) (hacked : run.acked = consumer.run.acked) :
    Inv codec { consumer with run := run } :=
  { h with
    run := hrun
    received := hhanded ▸ h.received
    acked_received := hacked ▸ h.acked_received
    acked_outstanding := hacked ▸ h.acked_outstanding
    held_acked := hacked ▸ h.held_acked }

theorem inv_receive (h : consumer.Inv codec) : (receive codec consumer).Inv codec := by
  have hrun := Run.inv_tryRecv h.run
  unfold receive
  dsimp only
  cases hread : tryReadNext codec consumer.run.queue with
  | mk result next =>
      have hhanded : (consumer.run.step codec .tryRecv).handed =
          consumer.run.handed ++ (result.map Prod.snd).toList := by rw [Run.step, hread]
      cases result with
      | none =>
          have hstep := h.of_run hrun (by rw [hhanded]; exact List.append_nil _) rfl
          dsimp only
          split
          · exact { hstep with }
          · exact hstep
      | some result =>
          obtain ⟨event, position⟩ := result
          obtain ⟨-, r, hpending, -, rfl, -⟩ := tryReadNext_of_some hread
          have hlt := h.received_lt hpending
          -- positions are handed out in order, so this one is not among those before
          have hfresh : r.start ∉ consumer.received := fun hmem =>
            Position.not_lt_of_le (Position.le_refl r.start) (hlt r.start hmem)
          exact {
            run := hrun
            received := by
              intro p hp
              rw [hhanded]
              rcases List.mem_append.mp hp with hp | hp
              · exact List.mem_append_left _ (h.received p hp)
              · exact List.mem_append_right _ hp
            outstanding_nodup := by
              refine List.nodup_append.mpr ⟨h.outstanding_nodup, List.nodup_singleton _, ?_⟩
              rintro p hp q hq rfl
              rw [List.mem_singleton.mp hq] at hp
              exact hfresh (h.outstanding_received _ hp)
            outstanding_received := by
              intro p hp
              rcases List.mem_append.mp hp with hp | hp
              · exact List.mem_append_left _ (h.outstanding_received p hp)
              · exact List.mem_append_right _ hp
            held_received := fun p hp => List.mem_append_left _ (h.held_received p hp)
            held_outstanding := by
              intro p hp hmem
              rcases List.mem_append.mp hmem with hmem | hmem
              · exact h.held_outstanding p hp hmem
              · rw [List.mem_singleton.mp hmem] at hp
                exact hfresh (h.held_received _ hp)
            acked_received := fun p hp => List.mem_append_left _ (h.acked_received p hp)
            acked_outstanding := by
              intro p hp hmem
              rcases List.mem_append.mp hmem with hmem | hmem
              · exact h.acked_outstanding p hp hmem
              · rw [List.mem_singleton.mp hmem] at hp
                exact hfresh (h.acked_received _ hp)
            held_acked := h.held_acked
            dropped := fun p hp => by
              obtain ⟨hreceived, held, hheld, hle⟩ := h.dropped p hp
              exact ⟨List.mem_append_left _ hreceived, held, hheld, hle⟩ }

/-- A resolution that is acked: not a `Dropped`, or one behind a position held back. -/
theorem inv_ack (h : consumer.Inv codec) {position : Position}
    (hposition : position ∈ consumer.outstanding) (io : AckIo) {disposition : AckDisposition}
    (hahead : disposition = .dropped → ∃ held ∈ consumer.held, held < position) :
    (ack codec io position (resolve position disposition consumer)).Inv codec where
  run := Run.inv_ackTo h.run io position
  received := h.received
  outstanding_nodup := h.outstanding_nodup.erase position
  outstanding_received := fun p hp => h.outstanding_received p (List.mem_of_mem_erase hp)
  held_received := h.held_received
  held_outstanding := fun p hp hmem => h.held_outstanding p hp (List.mem_of_mem_erase hmem)
  acked_received := by
    intro p hp
    rcases List.mem_append.mp hp with hp | hp
    · exact h.acked_received p hp
    · rw [List.mem_singleton.mp hp]
      exact h.outstanding_received position hposition
  acked_outstanding := by
    intro p hp hmem
    rcases List.mem_append.mp hp with hp | hp
    · exact h.acked_outstanding p hp (List.mem_of_mem_erase hmem)
    · rw [List.mem_singleton.mp hp] at hmem
      exact h.outstanding_nodup.not_mem_erase hmem
  held_acked := by
    intro p hp hmem
    rcases List.mem_append.mp hmem with hmem | hmem
    · exact h.held_acked p hp hmem
    · rw [List.mem_singleton.mp hmem] at hp
      exact h.held_outstanding position hp hposition
  dropped := by
    intro p hp
    simp only [ack, resolve] at hp ⊢
    split at hp
    · rename_i hdropped
      rcases List.mem_append.mp hp with hp | hp
      · exact h.dropped p hp
      · obtain ⟨held, hheld, hlt⟩ := hahead hdropped
        rw [List.mem_singleton.mp hp]
        exact ⟨h.outstanding_received position hposition, held, hheld, Position.le_of_lt hlt⟩
    · exact h.dropped p hp

/-- A `Dropped` that is held back. -/
theorem inv_hold (h : consumer.Inv codec) {position : Position}
    (hposition : position ∈ consumer.outstanding) (disposition : AckDisposition) :
    (hold position (resolve position disposition consumer)).Inv codec where
  run := h.run
  received := h.received
  outstanding_nodup := h.outstanding_nodup.erase position
  outstanding_received := fun p hp => h.outstanding_received p (List.mem_of_mem_erase hp)
  held_received := by
    intro p hp
    rcases List.mem_append.mp hp with hp | hp
    · exact h.held_received p hp
    · rw [List.mem_singleton.mp hp]
      exact h.outstanding_received position hposition
  held_outstanding := by
    intro p hp hmem
    rcases List.mem_append.mp hp with hp | hp
    · exact h.held_outstanding p hp (List.mem_of_mem_erase hmem)
    · rw [List.mem_singleton.mp hp] at hmem
      exact h.outstanding_nodup.not_mem_erase hmem
  acked_received := h.acked_received
  acked_outstanding := fun p hp hmem => h.acked_outstanding p hp (List.mem_of_mem_erase hmem)
  held_acked := by
    intro p hp hmem
    rcases List.mem_append.mp hp with hp | hp
    · exact h.held_acked p hp hmem
    · rw [List.mem_singleton.mp hp] at hmem
      exact h.acked_outstanding position hmem hposition
  dropped := by
    intro p hp
    have hbefore : ∀ p ∈ consumer.dropped, p ∈ consumer.received ∧
        ∃ held ∈ consumer.held ++ [position], held ≤ p := by
      intro p hp
      obtain ⟨hreceived, held, hheld, hle⟩ := h.dropped p hp
      exact ⟨hreceived, held, List.mem_append_left _ hheld, hle⟩
    simp only [hold, resolve] at hp ⊢
    split at hp
    · rcases List.mem_append.mp hp with hp | hp
      · exact hbefore p hp
      · rw [List.mem_singleton.mp hp]
        exact ⟨h.outstanding_received position hposition, position,
          List.mem_append_right _ (List.mem_singleton_self position), Position.le_refl position⟩
    · exact hbefore p hp

/-- The select loop's ack arm: only the `Dropped` that wedges the consumer is held back. -/
theorem steadyAck_eq (io : AckIo) (position : Position) (disposition : AckDisposition)
    (consumer : Consumer Event) :
    ∃ accepting wedged inFlight draining, steadyAck codec io position disposition consumer =
      { (if disposition = .dropped ∧ consumer.wedged = false then hold position consumer
          else ack codec io position consumer) with
        accepting := accepting, wedged := wedged, inFlight := inFlight, draining := draining } := by
  unfold steadyAck recordWedgeTransitionIfFirst
  by_cases hfirst : disposition = .dropped ∧ consumer.wedged = false
  · obtain ⟨rfl, hwedged⟩ := hfirst
    simp only [hwedged, and_self, if_true]
    exact ⟨_, _, _, _, rfl⟩
  · have hnot : ¬(consumer.wedged = false ∧ consumer.wedged = true) := by simp
    simp only [if_neg hfirst, if_neg hnot]
    exact ⟨_, _, _, _, rfl⟩

theorem inv_steadyAck (h : consumer.Inv codec) {position : Position}
    (hposition : position ∈ consumer.outstanding) (io : AckIo) {disposition : AckDisposition}
    (hahead : disposition = .dropped → consumer.wedged = true →
      ∃ held ∈ consumer.held, held < position) :
    (steadyAck codec io position disposition (resolve position disposition consumer)).Inv
    codec := by
  obtain ⟨_, _, _, _, heq⟩ := steadyAck_eq io position disposition
    (resolve position disposition consumer)
  rw [heq]
  split
  · exact { inv_hold h hposition disposition with }
  · rename_i hnot
    refine { inv_ack h hposition io fun hdropped => hahead hdropped ?_ with }
    by_contra hwedged
    exact hnot ⟨hdropped, by simpa [resolve] using hwedged⟩

theorem inv_drainAck (h : consumer.Inv codec) {position : Position}
    (hposition : position ∈ consumer.outstanding) (io : AckIo) (disposition : AckDisposition) :
    (drainAck codec io position disposition (resolve position disposition consumer)).Inv codec := by
  unfold drainAck
  dsimp only
  split
  · exact { inv_hold h hposition disposition with }
  · rename_i hnot
    exact { inv_ack h hposition io fun hdropped => absurd hdropped hnot with }

theorem inv_step (h : consumer.Inv codec) {move : ConsumerMove Event} {next : Consumer Event}
    (hguard : consumer.HeldAhead move) (hstep : consumer.step codec move = some next) :
    next.Inv codec := by
  cases move with
  | send io event =>
      injection hstep with hstep
      subst hstep
      exact h.of_run (Run.inv_send h.run io event) rfl rfl
  | close =>
      injection hstep with hstep
      subst hstep
      exact h.of_run (Run.inv_close h.run) rfl rfl
  | receive =>
      rw [step] at hstep
      split at hstep
      · injection hstep with hstep
        subst hstep
        exact inv_receive h
      · cases hstep
  | resolve io position disposition =>
      rw [step] at hstep
      split at hstep
      · rename_i hposition
        split at hstep
        · injection hstep with hstep
          subst hstep
          exact inv_drainAck h hposition io disposition
        · rename_i hdraining
          injection hstep with hstep
          subst hstep
          refine inv_steadyAck h hposition io ?_
          rintro rfl hwedged
          exact hguard (by simpa using hdraining) hwedged
      · cases hstep
  | shutdown =>
      rw [step] at hstep
      split at hstep
      · injection hstep with hstep
        subst hstep
        exact { h with }
      · cases hstep

/-- **No `Dropped` event is lost** in a run whose select loop, once wedged, receives a `Dropped`
only behind a position held back: the persisted cursor never passes it, and it is returned again
on the next start. -/
theorem dropped_replayed (maxSize maxSize' : ℕ) (ops : List (Op Event))
    {consumer : Consumer Event}
    (h : Reached (fun c m c' => c.step codec m = some c') HeldAhead
      (start (createDiskQueue ((Run.start maxSize).steps codec ops).queue.dir maxSize')) consumer) :
    ∀ p ∈ consumer.dropped, loadCursor consumer.run.queue.dir ≤ p ∧
      ∀ maxSize'', ∃ n event,
        (event, p) ∈ drain codec n (createDiskQueue consumer.run.queue.dir maxSize'') := by
  have hbefore := Run.inv_reopen (Run.inv_steps (Run.inv_start codec maxSize) ops) maxSize'
  have hinv : consumer.Inv codec := by
    refine h.invariant (Inv codec) ?_ fun _ _ _ hinv hguard hstep => inv_step hinv hguard hstep
    exact {
      run := { hbefore with
        sent_unread := fun _ hsent => absurd hsent List.not_mem_nil
        confirmed_acked := fun _ hp => absurd hp List.not_mem_nil
        settled_lt := fun _ hp => absurd hp List.not_mem_nil }
      received := fun _ hp => absurd hp List.not_mem_nil
      outstanding_nodup := List.nodup_nil
      outstanding_received := fun _ hp => absurd hp List.not_mem_nil
      held_received := fun _ hp => absurd hp List.not_mem_nil
      held_outstanding := fun _ hp => absurd hp List.not_mem_nil
      acked_received := fun _ hp => absurd hp List.not_mem_nil
      acked_outstanding := fun _ hp => absurd hp List.not_mem_nil
      held_acked := fun _ hp => absurd hp List.not_mem_nil
      dropped := fun _ hp => absurd hp List.not_mem_nil }
  intro p hp
  obtain ⟨hreceived, held, hheld, hle⟩ := hinv.dropped p hp
  -- the position held back is in the deque, and the acked cursor is not past it
  have hstart : held ∈ consumer.starts := by
    refine hinv.mem_starts (hinv.held_received held hheld) fun hcompleted => ?_
    exact hinv.held_acked held hheld
      (hinv.run.confirmed_acked held (Run.mem_confirmed_of_mem_completed hcompleted))
  obtain ⟨r, hr, rfl⟩ := record_of_start hinv.run hstart
  have hacked : consumer.run.queue.ackedPosition ≤ p :=
    Position.le_trans (unread_bounds hr).1 hle
  have hstart' : p ∈ consumer.starts := by
    refine hinv.mem_starts hreceived fun hcompleted => ?_
    exact Position.not_lt_of_le hacked (hinv.run.completed_lt p hcompleted)
  obtain ⟨r', hr', rfl⟩ := record_of_start hinv.run hstart'
  refine ⟨Position.le_trans hinv.run.cursor_le hacked, fun maxSize'' => ?_⟩
  refine ⟨((createDiskQueue consumer.run.queue.dir maxSize'').pending codec).length, r'.event, ?_⟩
  rw [drain_eq_pending]
  exact List.mem_map_of_mem ((hinv.run.unacked_suffix maxSize'').subset hr')

/-! ## Two events handed out -/

section TwoEvents

/-- A segment with two records of two bytes each. -/
def twoRecords : Dir :=
  ((Dir.empty.append 0 []).append 0 (letterLine 0)).append 0 (letterLine 0)

/-- Its queue, read up to `offset`. -/
def twoRecordsQueue (offset : ℕ) (inFlight : List InFlight) : DiskQueue :=
  ⟨twoRecords, ⟨0, 0, true, 4, 0, 0⟩, ⟨0, offset, 0, 0, inFlight⟩, false⟩

/-- The consumer once it has handed both to the output. -/
def handedOut : Consumer ℕ where
  run := ⟨twoRecordsQueue 4 [⟨0, 0, 0, 2, false⟩, ⟨0, 2, 0, 4, false⟩],
    [(0, ⟨0, 0⟩), (0, ⟨0, 2⟩)], [], [⟨0, 0⟩, ⟨0, 2⟩], [], []⟩
  accepting := true
  wedged := false
  inFlight := 2
  draining := false
  received := [⟨0, 0⟩, ⟨0, 2⟩]
  outstanding := [⟨0, 0⟩, ⟨0, 2⟩]
  dropped := []
  held := []

theorem step_receive {next : DiskQueue} {event : Event} (haccepting : consumer.accepting = true)
    (hdraining : consumer.draining = false)
    (hturn : readTurn codec consumer.run.queue = .event event next) :
    consumer.step codec .receive = some { consumer with
      run := { consumer.run with
        queue := next
        handed := consumer.run.handed ++ [consumer.run.queue.readPosition] }
      inFlight := consumer.inFlight + 1
      received := consumer.received ++ [consumer.run.queue.readPosition]
      outstanding := consumer.outstanding ++ [consumer.run.queue.readPosition] } := by
  rw [step, if_pos ⟨haccepting, hdraining⟩, receive, Run.step, tryReadNext_of_event hturn]
  rfl

theorem reached_handedOut {guard : Consumer ℕ → ConsumerMove ℕ → Prop}
    (hsend : ∀ c io event, guard c (.send io event)) (hreceive : ∀ c, guard c .receive) :
    Reached (fun c m c' => step letterCodec c m = some c') guard
      (start (createDiskQueue Dir.empty 0)) handedOut := by
  let sent (queue : DiskQueue) (sent : List (ℕ × Position)) : Consumer ℕ :=
    { (start queue : Consumer ℕ) with run := ⟨queue, sent, [], [], [], []⟩ }
  have h₀ : Reached (fun c m c' => step letterCodec c m = some c') guard
      (start (createDiskQueue Dir.empty 0)) (sent (createDiskQueue Dir.empty 0) []) := .start
  have h₁ : step letterCodec (sent (createDiskQueue Dir.empty 0) []) (.send soundIo 0) =
      some (sent (openQueue ((Dir.empty.append 0 []).append 0 (letterLine 0)) 0 2)
        [(0, ⟨0, 0⟩)]) := by
    simp only [step, Run.step, sent, send_first]
    rfl
  have h₂ : step letterCodec (sent (openQueue ((Dir.empty.append 0 []).append 0 (letterLine 0)) 0 2)
      [(0, ⟨0, 0⟩)]) (.send soundIo 0) =
      some (sent (twoRecordsQueue 0 []) [(0, ⟨0, 0⟩), (0, ⟨0, 2⟩)]) := by
    have hfits := send_fits ((Dir.empty.append 0 []).append 0 (letterLine 0))
      (show 2 + (0 + 1) + 1 ≤ segmentMaxBytes by decide)
    simp only [step, Run.step, sent, hfits]
    rfl
  have h₃ : readTurn letterCodec (twoRecordsQueue 0 []) =
      .event 0 (twoRecordsQueue 2 [⟨0, 0, 0, 2, false⟩]) := rfl
  have h₄ : readTurn letterCodec (twoRecordsQueue 2 [⟨0, 0, 0, 2, false⟩]) =
      .event 0 (twoRecordsQueue 4 [⟨0, 0, 0, 2, false⟩, ⟨0, 2, 0, 4, false⟩]) := rfl
  exact (((h₀.next (hsend _ _ _) h₁).next (hsend _ _ _) h₂).next (hreceive _)
    (step_receive rfl rfl h₃)).next (hreceive _) (step_receive rfl rfl h₄)

/-- Dropped in order, both stay ahead of the cursor. -/
theorem dropped_replayed_in_order :
    ∃ consumer : Consumer ℕ, consumer.dropped = [⟨0, 0⟩, ⟨0, 2⟩] ∧
      ∀ p ∈ consumer.dropped, loadCursor consumer.run.queue.dir ≤ p ∧
        ∀ maxSize, ∃ n event,
          (event, p) ∈ drain letterCodec n (createDiskQueue consumer.run.queue.dir maxSize) := by
  have h : Reached (fun c m c' => step letterCodec c m = some c') HeldAhead
      (start (createDiskQueue Dir.empty 0)) handedOut :=
    reached_handedOut (fun _ _ _ => trivial) (fun _ => trivial)
  let io : AckIo := ⟨fun _ => true, true⟩
  let wedged : Consumer ℕ :=
    steadyAck letterCodec io ⟨0, 0⟩ .dropped (resolve ⟨0, 0⟩ .dropped handedOut)
  have hfirst : handedOut.HeldAhead (.resolve io ⟨0, 0⟩ .dropped) :=
    fun _ hwedged => absurd hwedged Bool.false_ne_true
  have hsecond : wedged.HeldAhead (.resolve io ⟨0, 2⟩ .dropped) :=
    fun _ _ => ⟨⟨0, 0⟩, List.mem_singleton_self _, Or.inr (by decide)⟩
  have h₁ := h.next hfirst
    (show step letterCodec handedOut (.resolve io ⟨0, 0⟩ .dropped) = some wedged from rfl)
  have h₂ := h₁.next hsecond
    (show step letterCodec wedged (.resolve io ⟨0, 2⟩ .dropped) = some _ from rfl)
  exact ⟨_, rfl, dropped_replayed 0 0 [] h₂⟩

/-- The second event is dropped and wedges the consumer; then the first one is dropped, acked,
and passed by the cursor. -/
theorem dropped_behind_cursor :
    ∃ consumer : Consumer ℕ,
      Reached (fun c m c' => step letterCodec c m = some c') (fun _ _ => True)
        (start (createDiskQueue Dir.empty 0)) consumer ∧
      ∃ p ∈ consumer.dropped, ¬loadCursor consumer.run.queue.dir ≤ p := by
  have h : Reached (fun c m c' => step letterCodec c m = some c') (fun _ _ => True)
      (start (createDiskQueue Dir.empty 0)) handedOut :=
    reached_handedOut (fun _ _ _ => trivial) (fun _ => trivial)
  let io : AckIo := ⟨fun _ => true, true⟩
  have h₁ := h.next trivial (show step letterCodec handedOut (.resolve io ⟨0, 2⟩ .dropped) =
    some _ from rfl)
  have h₂ := h₁.next trivial (show step letterCodec _ (.resolve io ⟨0, 0⟩ .dropped) =
    some _ from rfl)
  refine ⟨_, h₂, ⟨0, 0⟩, List.mem_cons_of_mem _ (List.mem_singleton_self _), ?_⟩
  have hcursor := loadCursor_commit io
    ((twoRecordsQueue 4 []).withInFlight [⟨0, 2, 0, 4, false⟩]) ⟨0, 2⟩
  show ¬loadCursor (commit io ((twoRecordsQueue 4 []).withInFlight [⟨0, 2, 0, 4, false⟩])
    ⟨0, 2⟩).dir ≤ ⟨0, 0⟩
  rw [hcursor]
  rintro (hle | hle)
  · exact absurd hle (by decide)
  · exact absurd hle.2 (by decide)

end TwoEvents

end Consumer

end Limpid.Disk
