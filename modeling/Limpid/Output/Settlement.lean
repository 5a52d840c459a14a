import Limpid.Output.Batched

/-!
# What a flush settles

The exits of the flush path, one lemma for each: a batch that is rendered, a send that succeeds,
the batches the buffer is cut into.  Each says which events have been settled and which remain,
in the terms of `Settles`.

The lemmas follow the calls: rendering, with the events that do not render routed to the dead
letters; a send that succeeds; the flush of a batch and its attempts; and the flush at shutdown.
-/

namespace Limpid.Output

open Queue (AckPosition AckResolution OutputMetrics QueueAckHandle)

/-! ## Batches -/

theorem batchesOf_flatten {size : ℕ} (hsize : 0 < size) (fuel : ℕ) :
    ∀ events : List ParkedEvent, events.length ≤ fuel →
      (batchesOf size fuel events).flatten = events := by
  induction fuel with
  | zero =>
      intro events hlength
      rw [List.length_eq_zero_iff.mp (Nat.le_zero.mp hlength)]
      rfl
  | succ fuel ih =>
      intro events hlength
      cases events with
      | nil => rfl
      | cons event events =>
          have hdrop : ((event :: events).drop size).length ≤ fuel := by
            rw [List.length_drop]
            simp only [List.length_cons] at hlength ⊢
            omega
          rw [batchesOf, List.flatten_cons, ih _ hdrop, List.take_append_drop]

theorem length_le_of_mem_batchesOf {size : ℕ} (fuel : ℕ) :
    ∀ events : List ParkedEvent, ∀ batch ∈ batchesOf size fuel events, batch.length ≤ size := by
  induction fuel with
  | zero =>
      intro events batch hbatch
      exact absurd hbatch (by simp [batchesOf])
  | succ fuel ih =>
      intro events batch hbatch
      cases events with
      | nil => exact absurd hbatch (by simp [batchesOf])
      | cons event events =>
          rw [batchesOf] at hbatch
          rcases List.mem_cons.mp hbatch with rfl | hbatch
          · exact List.length_take_le _ _
          · exact ih _ batch hbatch

@[simp] theorem hardCappedBatches_flatten (events : List ParkedEvent) (batchSize : ℕ) :
    (hardCappedBatches events batchSize).flatten = events :=
  batchesOf_flatten (by omega) _ events le_rfl

theorem length_le_of_mem_hardCappedBatches {events batch : List ParkedEvent} {batchSize : ℕ}
    (h : batch ∈ hardCappedBatches events batchSize) : batch.length ≤ max batchSize 1 :=
  length_le_of_mem_batchesOf _ events batch h

section Sink

variable {Payload Prepared : Type*} (shared : SinkShared Payload Prepared)
  {events : List ParkedEvent}

/-! ## Rendering -/

/-- Each event of a batch is rendered or fails; what is shippable keeps the order, with its
payloads beside it. -/
theorem renderEach_spec (batch : List ParkedEvent) :
    batch.Perm ((renderEach shared batch).2.2.map Prod.fst ++ (renderEach shared batch).2.1) ∧
    (renderEach shared batch).2.1.Sublist batch ∧
    List.Forall₂ (fun parked payload => shared.policy.render parked.event = .ok payload)
      (renderEach shared batch).2.1 (renderEach shared batch).1 := by
  induction batch with
  | nil => exact ⟨.nil, List.Sublist.slnil, .nil⟩
  | cons parked rest ih =>
      obtain ⟨hperm, hsub, hrender⟩ := ih
      cases hpayload : shared.policy.render parked.event with
      | ok payload =>
          simp only [renderEach, hpayload]
          exact ⟨(hperm.cons parked).trans List.perm_middle.symm, hsub.cons_cons parked,
            .cons hpayload hrender⟩
      | error err =>
          simp only [renderEach, hpayload]
          exact ⟨hperm.cons parked, hsub.cons parked, hrender⟩

theorem routeRenderFailures_settles (site : String) {failures : List (ParkedEvent × String)}
    (htx : ∀ failure ∈ failures, failure.1.ack.tx = true) (ledger : Ledger) :
    Settles NotDelivered (failures.map Prod.fst) ledger
      (routeRenderFailures shared site failures ledger) :=
  settles_foldl Prod.fst (fun failure hfailure ledger =>
    routeOne_settles shared.name shared.errorLog shared.name
      s!"render failed during {site}: {failure.2}" (htx failure hfailure) ledger) ledger

/-- **Rendering settles exactly the events it cannot render.** -/
theorem renderBatch_settles (site : String) {batch : List ParkedEvent}
    (htx : ∀ parked ∈ batch, parked.ack.tx = true) (ledger : Ledger) :
    ∃ failed, batch.Perm (failed ++ (renderBatch shared site batch ledger).2.1) ∧
      (renderBatch shared site batch ledger).2.1.Sublist batch ∧
      List.Forall₂ (fun parked payload => shared.policy.render parked.event = .ok payload)
        (renderBatch shared site batch ledger).2.1 (renderBatch shared site batch ledger).1 ∧
      Settles NotDelivered failed ledger (renderBatch shared site batch ledger).2.2 := by
  obtain ⟨hperm, hsub, hrender⟩ := renderEach_spec shared batch
  refine ⟨_, hperm, hsub, hrender, routeRenderFailures_settles shared site ?_ ledger⟩
  intro failure hfailure
  exact htx failure.1 (hperm.mem_iff.mpr (List.mem_append_left _ (List.mem_map_of_mem hfailure)))

/-! ## A send that succeeds -/

theorem foldl_send_delivered (htx : ∀ parked ∈ events, parked.ack.tx = true) (ledger : Ledger) :
    events.foldl (fun ledger parked => ledger.send parked.id parked.ack.resolveDelivered) ledger =
      { ledger with
        resolved := ledger.resolved ++
          events.map fun parked => (parked.id, ⟨parked.ack.position, .delivered⟩)
        channel := ledger.channel ++
          events.map fun parked => (parked.id, ⟨parked.ack.position, .delivered⟩) } := by
  induction events generalizing ledger with
  | nil => simp
  | cons parked rest ih =>
      rw [List.foldl_cons, ih fun parked h => htx parked (List.mem_cons_of_mem _ h),
        QueueAckHandle.resolveDelivered,
        QueueAckHandle.resolve_eq (htx parked (List.mem_cons_self ..))]
      simp [Ledger.send]

theorem resolveSendSuccess_settles (rejected : ℕ)
    (htx : ∀ parked ∈ events, parked.ack.tx = true) (ledger : Ledger) :
    Settles (fun _ => True) events ledger (resolveSendSuccess shared events rejected ledger) := by
  unfold resolveSendSuccess
  set written := events.length - min rejected events.length with hwritten
  have hlength : (events.take written).length = written := by
    rw [List.length_take]
    omega
  have hdelivered : Settles (fun _ => True) (events.take written) ledger
      ((events.take written).foldl
        (fun ledger parked => ledger.send parked.id parked.ack.resolveDelivered)
        { ledger with
          metrics := { ledger.metrics with
            eventsWritten := ledger.metrics.eventsWritten + written } }) := by
    rw [foldl_send_delivered fun parked h => htx parked (List.mem_of_mem_take h)]
    generalize events.take written = accepted at hlength
    refine ⟨accepted.map fun parked => (parked.id, ⟨parked.ack.position, .delivered⟩),
      rfl, rfl, ?_, fun _ _ => trivial, ?_, ?_⟩
    · rw [List.map_map]
      exact .refl _
    · simp [List.countP_map, Function.comp_def, hlength]
    · simp
  have hrejected := routeEvents_settles shared.name shared.errorLog
    "collector reported partial_success rejection"
    (fun parked (h : parked ∈ events.drop written) => htx parked (List.mem_of_mem_drop h))
  have htogether := hdelivered.trans ((hrejected _).mono fun _ _ => trivial)
  rwa [List.take_append_drop] at htogether

/-! ## The ways a flush can go -/

theorem setInRetry_settles {allowed : Queue.AckResolution → Prop} (value : ℕ) (ledger : Ledger) :
    Settles allowed [] ledger (ledger.setInRetry value) :=
  .of_eq rfl rfl rfl rfl

theorem countRetry_settles {allowed : Queue.AckResolution → Prop} (ledger : Ledger) :
    Settles allowed [] ledger ledger.countRetry :=
  .of_eq rfl rfl rfl rfl

/-- The payloads of `events` are what was prepared. -/
def Prepares (shared : SinkShared Payload Prepared) (events : List ParkedEvent)
    (prepared : Prepared) : Prop :=
  ∃ payloads, shared.policy.prepare payloads = .ok prepared ∧
    List.Forall₂ (fun parked payload => shared.policy.render parked.event = .ok payload)
      events payloads

/-- `HoldsCursor` for each event that was settled so. -/
theorem holdsCursor_of_settles {before after : Ledger}
    (h : Settles HoldsCursor events before after) :
    ∀ id ∈ events.map ParkedEvent.id, ∃ resolution, (id, resolution) ∈ after.resolved ∧
      HoldsCursor resolution := by
  intro id hid
  obtain ⟨parked, hparked, rfl⟩ := List.mem_map.mp hid
  exact exists_of_settles h hparked

variable {s t : BatchedSink Prepared}

/-- `flush_events` settles what it can before the retry loop; what is left is prepared. -/
theorem flushEvents_cases {batch : List ParkedEvent}
    (htx : ∀ parked ∈ batch, parked.ack.tx = true) (batches : List (List ParkedEvent))
    (s : BatchedSink Prepared) :
    ∃ gone rest ledger, batch.Perm (gone ++ rest) ∧ rest.Sublist batch ∧
      Settles NotDelivered gone s.ledger ledger ∧
      ((rest = [] ∧ s.flushEvents shared batch batches =
          { s with ledger := ledger, actor := .flushing batches }) ∨
        ∃ prepared, Prepares shared rest prepared ∧ s.flushEvents shared batch batches =
          { s with ledger := ledger, actor := .sending rest prepared 0 batches }) := by
  obtain ⟨failed, hperm, hsub, hrender, hsettles⟩ :=
    renderBatch_settles shared "batch flush" htx s.ledger
  unfold BatchedSink.flushEvents
  generalize renderBatch shared "batch flush" batch s.ledger = rendered at *
  obtain ⟨payloads, shippable, ledger⟩ := rendered
  dsimp only at hperm hsub hrender hsettles ⊢
  cases payloads with
  | nil =>
      have hempty : shippable = [] := List.forall₂_nil_right_iff.mp hrender
      exact ⟨failed, shippable, ledger, hperm, hsub, hsettles, .inl ⟨hempty, rfl⟩⟩
  | cons payload payloads =>
      cases hprepare : shared.policy.prepare (payload :: payloads) with
      | ok prepared =>
          exact ⟨failed, shippable, ledger, hperm, hsub, hsettles,
            .inr ⟨prepared, ⟨_, hprepare, hrender⟩, by simp⟩⟩
      | error e =>
          have hrouted := hsettles.trans (routeEvents_settles shared.name shared.errorLog
            s!"flush failed: {e}" (fun parked h => htx parked (hsub.subset h)) ledger)
          refine ⟨failed ++ shippable, [], _, ?_, List.nil_sublist _, hrouted,
            .inl ⟨rfl, by simp⟩⟩
          rw [List.append_nil]
          exact hperm

/-- An attempt settles the whole batch, unless it fails and is to be retried. -/
theorem attemptSend_cases {result : SendResult} {shippable : List ParkedEvent}
    (htx : ∀ parked ∈ shippable, parked.ack.tx = true) {prepared : Prepared} {attempt : ℕ}
    {batches : List (List ParkedEvent)}
    (hstep : s.attemptSend shared result shippable prepared attempt batches = some t) :
    (∃ ledger, Settles (fun _ => True) [] s.ledger ledger ∧
      t = { s.sending shippable prepared with
        ledger := ledger, actor := .sending shippable prepared (attempt + 1) batches }) ∨
    ∃ ledger ambiguous, Settles (fun _ => True) shippable s.ledger ledger ∧
      (∀ id ∈ ambiguous, ∃ resolution, (id, resolution) ∈ ledger.resolved ∧
        HoldsCursor resolution) ∧
      t = { s.sending shippable prepared with
        ledger := ledger, ambiguous := s.ambiguous ++ ambiguous, actor := .flushing batches } := by
  have hgiveUp : ∀ ledger : Ledger, Settles (fun _ => True) [] s.ledger ledger →
      ∀ reason, Settles (fun _ => True) shippable s.ledger
        (routeEvents shared.name shared.errorLog reason shippable ledger) :=
    fun ledger h reason => h.trans
      ((routeEvents_settles shared.name shared.errorLog reason htx ledger).mono fun _ _ => trivial)
  unfold BatchedSink.attemptSend at hstep
  cases result with
  | ok rejected =>
      injection hstep with hstep
      refine .inr ⟨_, [], (setInRetry_settles 0 s.ledger).trans
        (resolveSendSuccess_settles shared rejected htx _), by simp, ?_⟩
      rw [← hstep, List.append_nil]
      rfl
  | err message =>
      -- the attempts may be used up, and the sink may be shutting down
      dsimp only at hstep
      split at hstep
      · injection hstep with hstep
        refine .inr ⟨_, [], hgiveUp _ ((countRetry_settles s.ledger).trans (setInRetry_settles 0 _))
          s!"flush failed after {attempt + 1} attempts: {message}", by simp, ?_⟩
        rw [← hstep, List.append_nil]
        rfl
      · split at hstep
        · injection hstep with hstep
          refine .inr ⟨_, [], hgiveUp _ (((countRetry_settles s.ledger).trans
            (setInRetry_settles 1 _)).trans (setInRetry_settles 0 _))
            s!"flush failed after {attempt + 1} attempts: {message}", by simp, ?_⟩
          rw [← hstep, List.append_nil]
          rfl
        · injection hstep with hstep
          exact .inl ⟨_, (countRetry_settles s.ledger).trans (setInRetry_settles 1 _), hstep.symm⟩
  | givenUp =>
      -- the request may have arrived, so the events are recovered and not sent again
      dsimp only at hstep
      split at hstep
      · injection hstep with hstep
        have hrouted := routeShutdownBatchAmbiguous_settles shared.name shared.errorLog
          "shutdown cancelled in-flight send (collapsed retry budget)" htx (s.ledger.setInRetry 0)
        refine .inr ⟨_, shippable.map ParkedEvent.id,
          (setInRetry_settles 0 s.ledger).trans (hrouted.mono fun _ _ => trivial),
          holdsCursor_of_settles hrouted, hstep.symm⟩
      · exact absurd hstep (by simp)

/-- The flush at shutdown settles the whole batch, whatever comes of its one attempt. -/
theorem flushEventsAtShutdown_cases (result : Option SendResult) {batch : List ParkedEvent}
    (htx : ∀ parked ∈ batch, parked.ack.tx = true) (s : BatchedSink Prepared) :
    ∃ ledger, Settles (fun _ => True) batch s.ledger ledger ∧
      (s.flushEventsAtShutdown shared result batch = { s with ledger := ledger } ∨
        ∃ shippable prepared ambiguous, shippable.Sublist batch ∧
          Prepares shared shippable prepared ∧
          (∀ id ∈ ambiguous, ∃ resolution, (id, resolution) ∈ ledger.resolved ∧
            HoldsCursor resolution) ∧
          s.flushEventsAtShutdown shared result batch =
            { s.sending shippable prepared with
              ledger := ledger, ambiguous := s.ambiguous ++ ambiguous }) := by
  obtain ⟨failed, hperm, hsub, hrender, hsettles⟩ :=
    renderBatch_settles shared "shutdown flush" htx s.ledger
  unfold BatchedSink.flushEventsAtShutdown
  generalize renderBatch shared "shutdown flush" batch s.ledger = rendered at *
  obtain ⟨payloads, shippable, ledger⟩ := rendered
  dsimp only at hperm hsub hrender hsettles ⊢
  have htx' : ∀ parked ∈ shippable, parked.ack.tx = true :=
    fun parked h => htx parked (hsub.subset h)
  have htogether : ∀ {allowed : Queue.AckResolution → Prop} {after : Ledger},
      Settles allowed shippable ledger after → Settles (fun _ => True) batch s.ledger after :=
    fun h => ((hsettles.mono fun _ _ => trivial).trans (h.mono fun _ _ => trivial)).perm hperm.symm
  cases payloads with
  | nil =>
      -- no event has rendered, so there is nothing to send
      have hempty : shippable = [] := List.forall₂_nil_right_iff.mp hrender
      rw [hempty, List.append_nil] at hperm
      exact ⟨ledger, (hsettles.mono fun _ _ => trivial).perm hperm.symm, .inl rfl⟩
  | cons payload payloads =>
      -- what cannot be prepared is routed as a whole
      cases hprepare : shared.policy.prepare (payload :: payloads) with
      | error e =>
          exact ⟨_, htogether (routeShutdownBatch_settles shared.name shared.errorLog
            s!"transport error: {e}" htx' ledger), .inl (by simp)⟩
      | ok prepared =>
          have hprepares : Prepares shared shippable prepared := ⟨_, hprepare, hrender⟩
          rcases result with _ | ⟨rejected | message | _⟩
          · exact ⟨_, htogether (routeShutdownBatch_settles shared.name shared.errorLog
              "shutdown flush deadline exhausted before send attempt" htx' ledger),
              .inl (by simp)⟩
          · exact ⟨_, htogether (resolveSendSuccess_settles shared rejected htx' ledger),
              .inr ⟨shippable, prepared, [], hsub, hprepares, by simp, by
                simp [BatchedSink.sending]⟩⟩
          · exact ⟨_, htogether (routeShutdownBatch_settles shared.name shared.errorLog
              s!"transport error: {message}" htx' ledger),
              .inr ⟨shippable, prepared, [], hsub, hprepares, by simp, by
                simp [BatchedSink.sending]⟩⟩
          · have hrouted := routeShutdownBatchAmbiguous_settles shared.name shared.errorLog
              "deadline exceeded after 3s during shutdown flush" htx' ledger
            exact ⟨_, htogether hrouted, .inr ⟨shippable, prepared, shippable.map ParkedEvent.id,
              hsub, hprepares, holdsCursor_of_settles hrouted, by
                simp [BatchedSink.sending]⟩⟩

end Sink

end Limpid.Output
