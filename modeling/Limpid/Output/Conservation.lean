import Limpid.Entries
import Limpid.Runs
import Limpid.Output.Accounts

/-!
# Nothing is lost or counted twice by a batched sink

The events a sink holds are those under send, those in the batches to come and those in the
buffer, in this order, which is the order they came in.  `Inv` says that its books are in order
(`Accounts`, `Ordered`) for these events.

* `Inv.flush`, `Inv.attempt`, `Inv.drain` and `Inv.join` are the moves that settle events, and
  `Inv.goto` is for those that only carry them elsewhere.
* `batched_conservation` reads the books of a run that has ended.
-/

namespace Limpid.Output

open Queue (AckPosition AckResolution OutputMetrics QueueAckHandle)

section Sink

variable {Payload Prepared : Type*} {shared : SinkShared Payload Prepared}

/-! ## The invariant -/

/-- The events of the batch that is being sent. -/
def Actor.current : Actor Prepared → List ParkedEvent
  | .sending shippable _ _ _ => shippable
  | _ => []

/-- The batches that wait for the actor. -/
def Actor.batches : Actor Prepared → List (List ParkedEvent)
  | .flushing batches | .sending _ _ _ batches => batches
  | _ => []

/-- The batches that are left to drain. -/
def Stage.batches : Stage → List (List ParkedEvent)
  | .draining batches => batches
  | _ => []

/-- The stages in which the actor has been joined. -/
def Stage.isJoined : Stage → Bool
  | .draining _ | .done => true
  | _ => false

namespace BatchedSink

/-- What has arrived and is neither settled nor under send. -/
def waiting (s : BatchedSink Prepared) : List ParkedEvent :=
  s.actor.batches.flatten ++ s.stage.batches.flatten ++ s.batch

variable (shared) in
/-- What holds of the sink: every event it took is accounted for. -/
structure Inv (s : BatchedSink Prepared) : Prop where
  accounts : Accounts (s.actor.current ++ s.waiting) s.ledger s.received s.arrivals s.ambiguous
  ordered : Ordered shared s.arrivals s.sends s.actor.current s.waiting
  capped : ∀ batch ∈ s.actor.batches ++ s.stage.batches, batch.length ≤ max shared.batchSize 1
  sending : ∀ shippable prepared attempt batches,
    s.actor = .sending shippable prepared attempt batches →
    SendOk shared s.arrivals ⟨shippable.map ParkedEvent.id, prepared⟩
  joined : s.stage.isJoined = true → s.actor = .exited ∧ s.batch = []

theorem inv_start : (start : BatchedSink Prepared).Inv shared where
  accounts := by
    constructor <;> simp [start, waiting, Actor.current, Actor.batches, Stage.batches,
      Queue.OutputMetrics.zero]
  ordered := by constructor <;> simp [start]
  capped := by simp [start, Actor.batches, Stage.batches]
  sending := by simp [start]
  joined := by simp [start, Stage.isJoined]

variable {s t : BatchedSink Prepared}

theorem Inv.stage_batches (h : s.Inv shared) (hactor : s.actor ≠ .exited) :
    s.stage.batches = [] := by
  have hjoined := h.joined
  cases hstage : s.stage with
  | draining batches => exact absurd (hjoined (by simp [hstage, Stage.isJoined])).1 hactor
  | running | joining | done => rfl

theorem waiting_park (event : OwnedEvent) (position : AckPosition) :
    (s.park event position).waiting =
      s.waiting ++ [⟨s.arrivals.length, event, QueueAckHandle.new position⟩] := by
  simp [waiting, park]

theorem Inv.park (h : s.Inv shared) (event : OwnedEvent) (position : AckPosition)
    (hstage : s.stage.isJoined = false) : (s.park event position).Inv shared where
  accounts := by
    rw [waiting_park, ← List.append_assoc]
    exact h.accounts.park event position
  ordered := by
    rw [waiting_park]
    exact h.ordered.append event position
  capped := h.capped
  sending := fun shippable prepared attempt batches hactor =>
    (h.sending shippable prepared attempt batches hactor).append _
  joined := fun hjoined => absurd hjoined (by simp [BatchedSink.park, hstage])

/-- A move that only goes elsewhere with the same events. -/
theorem Inv.goto (h : s.Inv shared) {batch : List ParkedEvent} {actor : Actor Prepared}
    {stage : Stage} {isShuttingDown : Bool} (hcurrent : actor.current = s.actor.current)
    (hwaiting : actor.batches.flatten ++ stage.batches.flatten ++ batch = s.waiting)
    (hcapped : ∀ batch ∈ actor.batches ++ stage.batches, batch.length ≤ max shared.batchSize 1)
    (hsending : ∀ shippable prepared attempt batches,
      actor = .sending shippable prepared attempt batches → actor = s.actor)
    (hjoined : stage.isJoined = true → actor = .exited ∧ batch = []) :
    Inv shared { s with
      batch := batch, actor := actor, stage := stage, isShuttingDown := isShuttingDown } where
  accounts := by
    show Accounts (actor.current ++ (actor.batches.flatten ++ stage.batches.flatten ++ batch)) _ _
      _ _
    rw [hcurrent, hwaiting]
    exact h.accounts
  ordered := by
    show Ordered shared _ _ actor.current
      (actor.batches.flatten ++ stage.batches.flatten ++ batch)
    rw [hcurrent, hwaiting]
    exact h.ordered
  capped := hcapped
  sending := fun shippable prepared attempt batches hactor =>
    h.sending shippable prepared attempt batches
      ((hsending shippable prepared attempt batches hactor).symm.trans hactor)
  joined := hjoined

/-! ## The flush -/

/-- A batch leaves the front of what waits: some of it is settled and the rest is under send. -/
theorem Inv.flush (h : s.Inv shared) {batch : List ParkedEvent}
    {batches : List (List ParkedEvent)} (hactor : s.actor = .flushing (batch :: batches)) :
    (s.flushEvents shared batch batches).Inv shared := by
  have hcurrent : s.actor.current = [] := by rw [hactor]; rfl
  -- the batch that is flushed comes first among those that wait
  have hwaiting : s.waiting = batch ++ (batches.flatten ++ s.stage.batches.flatten ++ s.batch) := by
    simp [waiting, hactor, Actor.batches]
  have haccounts := h.accounts
  rw [hcurrent, List.nil_append, hwaiting] at haccounts
  have hordered := h.ordered
  rw [hcurrent, hwaiting] at hordered
  obtain ⟨gone, rest, ledger, hperm, hsub, hsettles, hcase⟩ := flushEvents_cases shared
    (fun parked hparked => haccounts.armed parked (List.mem_append_left _ hparked)) batches s
  have hperm' : (batch ++ (batches.flatten ++ s.stage.batches.flatten ++ s.batch)).Perm
      (gone ++ (rest ++ (batches.flatten ++ s.stage.batches.flatten ++ s.batch))) := by
    rw [← List.append_assoc gone]
    exact hperm.append_right _
  have haccounts' := haccounts.settle hsettles hperm' (hsub.append_right _)
  have hordered' := hordered.promote
    (fun parked (hparked : parked ∈ rest) => List.mem_append_left _ (hsub.subset hparked))
    (fun parked (hparked : parked ∈ batches.flatten ++ s.stage.batches.flatten ++ s.batch) =>
      List.mem_append_right _ hparked)
  have hcapped := h.capped
  simp only [hactor, Actor.batches, List.cons_append, List.mem_cons, forall_eq_or_imp] at hcapped
  have hjoined : s.stage.isJoined = true → False := by
    intro hjoined
    have hexited := (h.joined hjoined).1
    rw [hactor] at hexited
    cases hexited
  rcases hcase with ⟨rfl, heq⟩ | ⟨prepared, hprepares, heq⟩
  · rw [heq]
    exact {
      accounts := haccounts'
      ordered := hordered'
      capped := hcapped.2
      sending := fun _ _ _ _ hactor => by cases hactor
      joined := fun hstage => (hjoined hstage).elim }
  · rw [heq]
    exact {
      accounts := haccounts'
      ordered := hordered'
      capped := hcapped.2
      sending := by
        intro shippable prepared' attempt batches' hsending
        cases hsending
        have hsorted := haccounts'.sorted
        rw [List.map_append] at hsorted
        exact sendOk_of_prepares hprepares (List.pairwise_append.mp hsorted).1
          (hsub.length_le.trans hcapped.1)
          (fun parked hparked => haccounts'.known parked (List.mem_append_left _ hparked))
      joined := fun hstage => (hjoined hstage).elim }

/-- An attempt: what is under send is sent, and is settled or stays under send. -/
theorem Inv.attempt (h : s.Inv shared) {result : SendResult} {shippable : List ParkedEvent}
    {prepared : Prepared} {attempt : ℕ} {batches : List (List ParkedEvent)}
    (hactor : s.actor = .sending shippable prepared attempt batches)
    (hstep : s.attemptSend shared result shippable prepared attempt batches = some t) :
    t.Inv shared := by
  have hcurrent : s.actor.current = shippable := by rw [hactor]; rfl
  have hbatches : s.actor.batches = batches := by rw [hactor]; rfl
  have hok := h.sending shippable prepared attempt batches hactor
  have haccounts := h.accounts
  have hordered := h.ordered
  rw [hcurrent] at haccounts hordered
  have hsent := hordered.send hok haccounts.sorted
  have hcapped := h.capped
  rw [hbatches] at hcapped
  have hjoined : s.stage.isJoined = true → False := by
    intro hjoined
    have hexited := (h.joined hjoined).1
    rw [hactor] at hexited
    cases hexited
  have hwaiting : s.waiting = batches.flatten ++ s.stage.batches.flatten ++ s.batch := by
    rw [waiting, hbatches]
  rw [hwaiting] at haccounts hsent
  rcases attemptSend_cases shared
    (fun parked hparked => haccounts.armed parked (List.mem_append_left _ hparked)) hstep with
    ⟨ledger, hsettles, rfl⟩ | ⟨ledger, ambiguous, hsettles, hambiguous, rfl⟩
  · exact {
      accounts := haccounts.settle hsettles (.refl _) (List.Sublist.refl _)
      ordered := hsent
      capped := hcapped
      sending := by
        intro shippable' prepared' attempt' batches' hsending
        cases hsending
        exact hok
      joined := fun hstage => (hjoined hstage).elim }
  · exact {
      accounts := (haccounts.settle hsettles (.refl _)
        (List.sublist_append_right _ _)).addAmbiguous hambiguous
      ordered := hsent.promote (fun parked hparked => absurd hparked List.not_mem_nil)
        (fun parked hparked => hparked)
      capped := hcapped
      sending := fun _ _ _ _ hactor => by cases hactor
      joined := fun hstage => (hjoined hstage).elim }

/-! ## The shutdown -/

/-- A batch of the drain is settled, after one send at most. -/
theorem Inv.drain (h : s.Inv shared) (result : Option SendResult) {batch : List ParkedEvent}
    {batches : List (List ParkedEvent)} (hstage : s.stage = .draining (batch :: batches)) :
    Inv shared { s.flushEventsAtShutdown shared result batch with stage := .draining batches } := by
  obtain ⟨hactor, hbatch⟩ := h.joined (by rw [hstage]; rfl)
  have hcurrent : s.actor.current = [] := by rw [hactor]; rfl
  have hbatches : s.actor.batches = [] := by rw [hactor]; rfl
  have hwaiting : s.waiting = batch ++ batches.flatten := by
    simp [waiting, hbatches, hstage, Stage.batches, hbatch]
  have haccounts := h.accounts
  rw [hcurrent, List.nil_append, hwaiting] at haccounts
  have hordered := h.ordered
  rw [hcurrent, hwaiting] at hordered
  have hcapped := h.capped
  simp only [hbatches, hstage, Stage.batches, List.nil_append, List.mem_cons,
    forall_eq_or_imp] at hcapped
  have hafter : ∀ s' : BatchedSink Prepared, s'.actor = s.actor → s'.batch = s.batch →
      s'.stage = .draining batches →
      s'.actor.current ++ s'.waiting = batches.flatten ∧ s'.waiting = batches.flatten := by
    intro s' hactor' hbatch' hstage'
    simp [waiting, hactor', hcurrent, hbatches, hbatch', hbatch, hstage', Stage.batches]
  obtain ⟨ledger, hsettles, hcase⟩ := flushEventsAtShutdown_cases shared result
    (fun parked hparked => haccounts.armed parked (List.mem_append_left _ hparked)) s
  have haccounts' := haccounts.settle hsettles (.refl _) (List.sublist_append_right _ _)
  have hrest : ∀ parked ∈ batches.flatten, parked ∈ batch ++ batches.flatten :=
    fun parked hparked => List.mem_append_right _ hparked
  rcases hcase with heq | ⟨shippable, prepared, ambiguous, hsub, hprepares, hambiguous, heq⟩
  · rw [heq]
    obtain ⟨hheld, hlater⟩ := hafter { s with ledger := ledger, stage := .draining batches }
      rfl rfl rfl
    exact {
      accounts := by rw [hheld]; exact haccounts'
      ordered := by
        rw [hlater, hcurrent]
        exact hordered.promote (fun parked hparked => absurd hparked List.not_mem_nil) hrest
      capped := by
        rw [hbatches]
        exact hcapped.2
      sending := h.sending
      joined := fun _ => ⟨hactor, hbatch⟩ }
  · rw [heq]
    obtain ⟨hheld, hlater⟩ := hafter
      { s.sending shippable prepared with
        ledger := ledger, ambiguous := s.ambiguous ++ ambiguous, stage := .draining batches }
      rfl rfl rfl
    -- the one send takes its events from the front of what waits
    have hpromoted := hordered.promote
      (fun parked (hparked : parked ∈ shippable) => List.mem_append_left _ (hsub.subset hparked))
      hrest
    have hfront : (shippable ++ batches.flatten).Sublist (batch ++ batches.flatten) :=
      hsub.append_right _
    have hsorted := haccounts.sorted.sublist (hfront.map ParkedEvent.id)
    have hsorted' := hsorted
    rw [List.map_append] at hsorted'
    have hok : SendOk shared s.arrivals ⟨shippable.map ParkedEvent.id, prepared⟩ :=
      sendOk_of_prepares hprepares (List.pairwise_append.mp hsorted').1
        (hsub.length_le.trans hcapped.1)
        (fun parked hparked =>
          haccounts.known parked (List.mem_append_left _ (hsub.subset hparked)))
    exact {
      accounts := by
        rw [hheld]
        exact haccounts'.addAmbiguous hambiguous
      ordered := by
        rw [hlater]
        show Ordered shared s.arrivals _ s.actor.current _
        rw [hcurrent]
        exact (hpromoted.send hok hsorted).promote
          (fun parked hparked => absurd hparked List.not_mem_nil) fun parked hparked => hparked
      capped := by
        show ∀ batch ∈ s.actor.batches ++ batches, _
        rw [hbatches]
        exact hcapped.2
      sending := h.sending
      joined := fun _ => ⟨hactor, hbatch⟩ }

/-- The actor is joined. -/
theorem Inv.join (h : s.Inv shared) {wedged : Bool} (hstage : s.stage = .joining wedged)
    (hactor : s.actor = .exited) : (s.joined shared wedged).Inv shared := by
  have hcurrent : s.actor.current = [] := by rw [hactor]; rfl
  have hbatches : s.actor.batches = [] := by rw [hactor]; rfl
  have hwaiting : s.waiting = s.batch := by
    simp [waiting, hbatches, hstage, Stage.batches]
  unfold BatchedSink.joined
  cases wedged with
  | false =>
      refine h.goto rfl ?_ ?_ (fun _ _ _ _ _ => rfl) fun _ => ⟨hactor, rfl⟩
      · simp [hbatches, Stage.batches, hwaiting]
      · intro batch hbatch
        rw [hbatches] at hbatch
        exact length_le_of_mem_hardCappedBatches hbatch
  | true =>
      have haccounts := h.accounts
      have hordered := h.ordered
      rw [hcurrent, List.nil_append, hwaiting] at haccounts
      rw [hcurrent, hwaiting] at hordered
      have hsettles := routeShutdownBatchAmbiguous_settles shared.name shared.errorLog
        (s!"output '{shared.name}' wedged: skipping shutdown flush; parked buffer resolved via " ++
          "ambiguous DLQ (no send attempted)") haccounts.armed s.ledger
      have haccounts' := haccounts.settle hsettles (by rw [List.append_nil])
        (List.nil_sublist _)
      have hempty : s.actor.batches.flatten ++ ([] : List (List ParkedEvent)).flatten ++ [] =
          ([] : List ParkedEvent) := by
        rw [hbatches]
        rfl
      exact {
        accounts := by
          show Accounts (s.actor.current ++
            (s.actor.batches.flatten ++ ([] : List (List ParkedEvent)).flatten ++ [])) _ _ _ _
          rw [hcurrent, hempty]
          exact haccounts'
        ordered := by
          show Ordered shared _ _ s.actor.current
            (s.actor.batches.flatten ++ ([] : List (List ParkedEvent)).flatten ++ [])
          rw [hcurrent, hempty]
          exact hordered.promote (fun parked hparked => absurd hparked List.not_mem_nil)
            fun parked hparked => absurd hparked List.not_mem_nil
        capped := by
          show ∀ batch ∈ s.actor.batches ++ [], _
          simp [hbatches]
        sending := h.sending
        joined := fun _ => ⟨hactor, rfl⟩ }

theorem Inv.receive (h : s.Inv shared) (hstep : s.receiveAck = some t) : t.Inv shared := by
  unfold BatchedSink.receiveAck at hstep
  split at hstep
  · exact absurd hstep (by simp)
  · rename_i id resolution rest hchannel
    injection hstep with hstep
    subst hstep
    exact { h with accounts := h.accounts.receive hchannel }

theorem Inv.step (h : s.Inv shared) {move : SinkMove} (hstep : s.step shared move = some t) :
    t.Inv shared := by
  cases move with
  | consume event position | consumeShutdown event position =>
      simp only [BatchedSink.step] at hstep
      split at hstep
      · rename_i hstage
        injection hstep with hstep
        exact hstep ▸ h.park event position (by rw [hstage]; rfl)
      · exact absurd hstep (by simp)
  | wake =>
      -- the actor changes its mind about what it waits for; no event moves
      simp only [BatchedSink.step] at hstep
      split at hstep
      · rename_i hactor
        split at hstep
        · exact absurd hstep (by simp)
        · injection hstep with hstep
          subst hstep
          refine h.goto (by rw [hactor]; rfl) (by rw [waiting, hactor]; rfl) ?_
            (fun _ _ _ _ heq => by cases heq) fun hjoined => ?_
          · have hcapped := h.capped
            rwa [hactor] at hcapped
          · have hexited := (h.joined hjoined).1
            rw [hactor] at hexited
            cases hexited
      · exact absurd hstep (by simp)
  | take =>
      simp only [BatchedSink.step] at hstep
      split at hstep
      · rename_i hactor
        injection hstep with hstep
        subst hstep
        -- what was waiting in the buffer is now waiting in the batches of the actor
        have hbatches := h.stage_batches (by rw [hactor]; simp)
        refine h.goto (by rw [hactor]; rfl) ?_ ?_
          (fun _ _ _ _ heq => by cases heq) fun hjoined => ?_
        · simp [waiting, hactor, Actor.batches, hbatches]
        · intro batch hbatch
          rw [hbatches, List.append_nil] at hbatch
          exact length_le_of_mem_hardCappedBatches hbatch
        · have hexited := (h.joined hjoined).1
          rw [hactor] at hexited
          cases hexited
      · exact absurd hstep (by simp)
  | flush =>
      simp only [BatchedSink.step] at hstep
      split at hstep
      · rename_i hactor
        injection hstep with hstep
        subst hstep
        refine h.goto (by rw [hactor]; rfl) (by rw [waiting, hactor]; rfl) ?_
          (fun _ _ _ _ heq => by cases heq) fun hjoined => ?_
        · have hcapped := h.capped
          rwa [hactor] at hcapped
        · have hexited := (h.joined hjoined).1
          rw [hactor] at hexited
          cases hexited
      · rename_i batch batches hactor
        injection hstep with hstep
        exact hstep ▸ h.flush hactor
      · exact absurd hstep (by simp)
  | send result =>
      simp only [BatchedSink.step] at hstep
      split at hstep
      · rename_i shippable prepared attempt batches hactor
        exact h.attempt hactor hstep
      · exact absurd hstep (by simp)
  | exit =>
      simp only [BatchedSink.step] at hstep
      split at hstep
      · rename_i hactor
        split at hstep
        · injection hstep with hstep
          subst hstep
          refine h.goto (by rw [hactor]; rfl) (by rw [waiting, hactor]; rfl) ?_
            (fun _ _ _ _ heq => by cases heq) fun hjoined => ⟨rfl, (h.joined hjoined).2⟩
          have hcapped := h.capped
          rwa [hactor] at hcapped
        · exact absurd hstep (by simp)
      · exact absurd hstep (by simp)
  | signal wedged =>
      -- from here on no flush is under way that a join could miss
      simp only [BatchedSink.step] at hstep
      split at hstep
      · rename_i hstage
        injection hstep with hstep
        subst hstep
        refine h.goto rfl (by rw [waiting, hstage]; rfl) ?_ (fun _ _ _ _ _ => rfl)
          fun hjoined => by cases hjoined
        have hcapped := h.capped
        rwa [hstage] at hcapped
      · exact absurd hstep (by simp)
  | join =>
      simp only [BatchedSink.step] at hstep
      split at hstep
      · rename_i wedged hstage hactor
        injection hstep with hstep
        exact hstep ▸ h.join hstage hactor
      · exact absurd hstep (by simp)
  | drain result =>
      simp only [BatchedSink.step] at hstep
      split at hstep
      · rename_i hstage
        injection hstep with hstep
        subst hstep
        refine h.goto rfl (by rw [waiting, hstage]; rfl) ?_ (fun _ _ _ _ _ => rfl)
          fun _ => h.joined (by rw [hstage]; rfl)
        have hcapped := h.capped
        rwa [hstage] at hcapped
      · rename_i batch batches hstage
        injection hstep with hstep
        exact hstep ▸ h.drain result hstage
      · exact absurd hstep (by simp)
  | receiveAck => exact h.receive hstep

/-! ## The result -/

variable (shared) in
/-- The runs of a sink, with its consumer. -/
def Runs : BatchedSink Prepared → Prop :=
  Reached (fun s move t => s.step shared move = some t) (fun _ _ => True) start

theorem Runs.inv (h : Runs shared s) : s.Inv shared :=
  Reached.invariant (Inv shared) inv_start (fun _ _ _ hs _ hstep => hs.step hstep) h

/-- The resolutions of the event `id`. -/
def resolutions (id : ℕ) (s : BatchedSink Prepared) : List AckResolution :=
  Entries.valuesOf id s.ledger.resolved

/-- A sink that is done holds nothing. -/
theorem Inv.done (h : s.Inv shared) (hdone : s.stage = .done) :
    Accounts [] s.ledger s.received s.arrivals s.ambiguous := by
  obtain ⟨hactor, hbatch⟩ := h.joined (by rw [hdone]; rfl)
  have haccounts := h.accounts
  rwa [waiting, hactor, hdone, hbatch] at haccounts

/-- With nothing held, each event handed in has been resolved once. -/
theorem resolutions_of_accounts {ledger : Ledger} {received : List (ℕ × AckResolution)}
    {arrivals : List (OwnedEvent × AckPosition)} {ambiguous : List ℕ}
    (h : Accounts [] ledger received arrivals ambiguous) {id : ℕ} {event : OwnedEvent}
    {position : AckPosition} (hid : arrivals[id]? = some (event, position)) :
    ∃ resolution, resolution.position = position ∧ (id, resolution) ∈ ledger.resolved ∧
      Entries.valuesOf id ledger.resolved = [resolution] := by
  have honce : (Entries.keys ledger.resolved).Perm (List.range arrivals.length) := h.once
  have hmem : id ∈ Entries.keys ledger.resolved :=
    honce.mem_iff.mpr (List.mem_range.mpr (List.getElem?_eq_some_iff.mp hid).1)
  obtain ⟨⟨id', resolution⟩, hentry, rfl⟩ := List.mem_map.mp hmem
  refine ⟨resolution, ?_, hentry,
    Entries.valuesOf_of_nodup (honce.nodup_iff.mpr List.nodup_range) hentry⟩
  obtain ⟨event', hknown⟩ := h.resolved_known _ hentry
  rw [hid] at hknown
  exact (Prod.mk.inj (Option.some.inj hknown)).2.symm

/-- **Nothing is lost or counted twice.**  In a run that has ended, with the acks worked off, each
event handed in has one disposition; the sends were made in the order of arrival, in batches
within the cap; an event of a send that was given up held the cursor, where there is one; and the
counters are the numbers of the events delivered and of the others. -/
theorem batched_conservation (h : Runs shared s) (hdone : s.stage = .done)
    (hchannel : s.ledger.channel = []) :
    (∀ id event position, s.arrivals[id]? = some (event, position) →
      ∃ disposition, s.resolutions id = [⟨position, disposition⟩]) ∧
    (s.sends.map Send.ids).Pairwise Precedes ∧
    (∀ send ∈ s.sends, SendOk shared s.arrivals send) ∧
    (∀ id ∈ s.ambiguous, ∀ event position, s.arrivals[id]? = some (event, position) →
      s.resolutions id =
        [⟨position, if position = .memory then .recovered else .dropped⟩]) ∧
    s.ledger.metrics.eventsWritten =
      s.ledger.resolved.countP (fun entry => entry.2.disposition = .delivered) ∧
    s.ledger.metrics.eventsFailed =
      s.ledger.resolved.countP (fun entry => entry.2.disposition ≠ .delivered) ∧
    s.ledger.metrics.eventsWritten + s.ledger.metrics.eventsFailed = s.arrivals.length := by
  have hinv := Runs.inv h
  have haccounts := hinv.done hdone
  have hfailed : s.ledger.metrics.eventsFailed =
      s.ledger.resolved.countP (fun entry => entry.2.disposition ≠ .delivered) := by
    have hreceived : s.ledger.resolved = s.received := by
      rw [haccounts.flow, hchannel, List.append_nil]
    rw [haccounts.failed, ← hreceived]
    exact countP_not_delivered s.ledger.resolved
  refine ⟨?_, hinv.ordered.order, hinv.ordered.each, ?_, haccounts.written, hfailed, ?_⟩
  · intro id event position hid
    obtain ⟨resolution, hposition, -, hvalues⟩ := resolutions_of_accounts haccounts hid
    exact ⟨resolution.disposition, by rw [resolutions, hvalues, ← hposition]⟩
  · intro id hambiguous event position hid
    obtain ⟨resolution, hposition, -, hvalues⟩ := resolutions_of_accounts haccounts hid
    obtain ⟨resolution', hentry, hholds⟩ := haccounts.ambiguous id hambiguous
    have hnodup : (Entries.keys s.ledger.resolved).Nodup :=
      haccounts.once.nodup_iff.mpr List.nodup_range
    have hsame : resolution' = resolution :=
      List.singleton_inj.mp ((Entries.valuesOf_of_nodup hnodup hentry).symm.trans hvalues)
    rw [resolutions, hvalues, ← hposition, ← hsame]
    rw [HoldsCursor] at hholds
    rw [← hholds]
  · have hlength := haccounts.once.length_eq
    rw [List.map_nil, List.nil_append, List.length_map, List.length_range] at hlength
    rw [haccounts.written, hfailed, ← hlength]
    have hsplit := List.length_eq_countP_add_countP (l := s.ledger.resolved)
      fun entry => decide (entry.2.disposition = .delivered)
    simpa using hsplit.symm

end BatchedSink

end Sink

/-- A sink that sends the bytes of its events as they are. -/
def plainSink : SinkShared Bytes (List Bytes) where
  policy := ⟨fun event => .ok event.egress, fun payloads => .ok payloads⟩
  name := "collector"
  errorLog := none
  batchSize := 2
  maxAttempts := 5

/-- An event. -/
def probe : OwnedEvent :=
  ⟨7, 0, .v4 .localhost 514, [65], [65], [], none⟩

/-- Two events are sent together, and the collector refuses one. -/
def partialRun : List SinkMove :=
  [.consume probe .memory, .consume probe (.disk ⟨0, 0⟩), .wake, .take, .flush, .send (.ok 1),
    .flush, .signal false, .exit, .join, .drain none, .receiveAck, .receiveAck]

theorem batched_conservation_partial :
    ∃ s, partialRun.foldlM (BatchedSink.step plainSink) .start = some s ∧
      s.ledger.metrics.eventsWritten + s.ledger.metrics.eventsFailed = 2 := by
  obtain ⟨s, hs⟩ := Option.isSome_iff_exists.mp
    (show (partialRun.foldlM (BatchedSink.step plainSink) .start).isSome = true by rfl)
  have hrun : BatchedSink.Runs plainSink s := Reached.of_moves partialRun hs
  have hend : s.stage = .done ∧ s.ledger.channel = [] ∧ s.arrivals.length = 2 := by
    injection hs with hs
    rw [← hs]
    exact ⟨rfl, rfl, rfl⟩
  obtain ⟨_, _, _, _, _, _, htotal⟩ := BatchedSink.batched_conservation hrun hend.1 hend.2.1
  exact ⟨s, hs, htotal.trans hend.2.2⟩

/-- An event of a memory queue is under send when the shutdown is signalled. -/
def givenUpRun : List SinkMove :=
  [.consume probe .memory, .wake, .take, .flush, .signal false, .send .givenUp, .flush, .exit,
    .join, .drain none, .receiveAck]

/-- On a memory queue, where there is nothing to replay from, it is `Recovered`. -/
theorem given_up_recovered :
    ∃ s, BatchedSink.Runs plainSink s ∧ s.stage = .done ∧ s.ledger.channel = [] ∧
      0 ∈ s.ambiguous ∧ s.resolutions 0 = [⟨.memory, .recovered⟩] := by
  obtain ⟨s, hs⟩ := Option.isSome_iff_exists.mp
    (show (givenUpRun.foldlM (BatchedSink.step plainSink) .start).isSome = true by rfl)
  refine ⟨s, Reached.of_moves givenUpRun hs, ?_⟩
  injection hs with hs
  rw [← hs]
  exact ⟨rfl, rfl, List.mem_singleton_self 0, rfl⟩

end Limpid.Output
