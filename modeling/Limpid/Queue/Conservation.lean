import Limpid.Queue.Consumer

/-!
# What a queue consumer keeps

`Inv` is the invariant of `run_queue_consumer`.  The numbers of the events handed out, batched and
queued are those given so far, in order; a live handle has its sender and has sent nothing; a
handle that has ended has sent once; what was sent is worked off, in a batch, in the channel, or
lost with it; and the in-flight count is the number of live handles plus the resolutions on their
way.

* `finish_cases`, `steadyAck_cases` and `drainAck_cases` say what a step can do.  The break out of
  the ack arm drops the rest of its batch, and the count is why nothing is left there.
* `Inv.step` keeps the invariant, one lemma for each move that does more than set a flag.
-/

namespace Limpid.Queue

open Disk (Position AckDisposition)

namespace QueueConsumer

/-! ## The invariant -/

/-- What holds in each phase. -/
def PhaseOk (s : QueueConsumer) : Prop :=
  match s.phase with
  | .select => s.batch = [] ∧ s.ackBatch = [] ∧ s.ackTx = true ∧
      (s.accepting = true ∨ s.inFlight ≠ 0)
  | .handing consuming => s.ackBatch = [] ∧ s.ackTx = true ∧ s.accepting = true ∧
      (consuming = false → s.batch ≠ [])
  | .acking => s.batch = [] ∧ s.ackBatch ≠ [] ∧ s.ackTx = true
  | .draining _ => s.batch = [] ∧ s.ackBatch = [] ∧ s.ackTx = true ∧ s.closed = true
  | .shuttingDown => s.batch = [] ∧ s.ackBatch = [] ∧ s.ackTx = true
  | .finalDrain => s.batch = [] ∧ s.ackBatch = [] ∧ s.ackTx = false
  | .finalAcking => s.batch = [] ∧ s.ackBatch ≠ [] ∧ s.ackTx = false
  | .stopped => s.batch = [] ∧ s.ackBatch = [] ∧ s.ackTx = false ∧ s.channel = [] ∧ s.live = []
  | .aborted => s.ackBatch = [] ∧ s.ackTx = false

/-- What holds of a consumer: every event is in one place. -/
structure Inv (s : QueueConsumer) : Prop where
  numbered : (s.handedOut ++ s.batch ++ s.queue).map Prod.fst = List.range s.nextId
  armed : ∀ entry ∈ s.live, entry.2.tx = true
  live_position : ∀ entry ∈ s.live, (entry.1, entry.2.position) ∈ s.handedOut
  sent_position : ∀ message ∈ s.sent, (message.1, message.2.position) ∈ s.handedOut
  once : (s.live.map Prod.fst ++ s.sent.map Prod.fst).Perm (s.handedOut.map Prod.fst)
  flow : s.sent = s.received ++ s.ackBatch ++ s.channel ++ s.lost
  kept : s.phase ≠ .aborted → s.lost = []
  count : s.phase ≠ .aborted →
    s.inFlight = s.live.length + s.ackBatch.length + s.channel.length
  phase : s.PhaseOk

theorem inv_start (backend : QueueBackendKind) (metrics : OutputMetrics) :
    (start backend metrics).Inv := by
  constructor <;> simp [start, PhaseOk]

variable {s t : QueueConsumer}

/-- An event numbered by a send that lands. -/
theorem Inv.enqueue (h : s.Inv) (position : Position) : (s.enqueue position).Inv :=
  { h with
    numbered := by
      have hnumbered := h.numbered
      simp only [List.map_append] at hnumbered
      simp only [QueueConsumer.enqueue, List.map_append, List.map_cons, List.map_nil,
        ← List.append_assoc, hnumbered, List.range_succ] }

theorem eraseP_of_find {live : List (ℕ × QueueAckHandle)} {id : ℕ}
    {entry : ℕ × QueueAckHandle} (h : live.find? (·.1 == id) = some entry) :
    ∃ before after, live = before ++ entry :: after ∧ entry.1 = id ∧
      live.eraseP (·.1 == id) = before ++ after := by
  obtain ⟨hid, before, after, rfl, hbefore⟩ := List.find?_eq_some_iff_append.mp h
  refine ⟨before, after, rfl, by simpa using hid, ?_⟩
  rw [List.eraseP_append_right _ (by simpa using hbefore), List.eraseP_cons]
  simp [hid]

/-- What the end of a handle can do: the handle goes, and one resolution at its position is
sent. -/
theorem finish_cases (h : s.Inv) {id : ℕ} {how : HandleEnd} (hstep : s.finish id how = some t) :
    ∃ before handle after, s.live = before ++ (id, handle) :: after ∧
      t = deliver [(id, ⟨handle.position, how.disposition⟩)]
        { s with live := before ++ after } := by
  obtain ⟨⟨id', handle⟩, hfind, rfl⟩ := Option.map_eq_some_iff.mp hstep
  obtain ⟨before, after, hlive, rfl, herase⟩ := eraseP_of_find hfind
  have htx : handle.tx = true := h.armed (id', handle) (by simp [hlive])
  refine ⟨before, handle, after, hlive, ?_⟩
  rw [QueueAckHandle.finish_eq htx, herase]
  rfl

theorem Inv.finish (h : s.Inv) {id : ℕ} {how : HandleEnd} (hstep : s.finish id how = some t) :
    t.Inv := by
  obtain ⟨before, handle, after, hlive, rfl⟩ := finish_cases h hstep
  have hsub : ∀ entry ∈ before ++ after, entry ∈ s.live := by
    intro entry hentry
    rw [hlive]
    exact List.mem_append.mpr ((List.mem_append.mp hentry).imp_right (List.mem_cons_of_mem _))
  -- the number moves from the live handles to the resolutions sent
  have honce : ((before ++ after).map Prod.fst ++ (s.sent.map Prod.fst ++ [id])).Perm
      (s.handedOut.map Prod.fst) := by
    refine List.Perm.trans ?_ h.once
    rw [hlive, ← List.append_assoc]
    refine (List.perm_append_singleton id _).trans ?_
    simp only [List.map_append, List.map_cons, List.append_assoc, List.cons_append]
    exact List.perm_middle.symm
  have hsent : ∀ message ∈ s.sent ++ [(id, ⟨handle.position, how.disposition⟩)],
      ((message.1, message.2.position) : ℕ × AckPosition) ∈ s.handedOut := by
    intro message hmessage
    rcases List.mem_append.mp hmessage with hmessage | hmessage
    · exact h.sent_position message hmessage
    · rw [List.mem_singleton.mp hmessage]
      exact h.live_position (id, handle) (by simp [hlive])
  by_cases haborted : s.phase = .aborted
  · -- the resolution is refused
    have hdeliver : deliver [(id, ⟨handle.position, how.disposition⟩)]
        { s with live := before ++ after } =
        { s with
          live := before ++ after
          sent := s.sent ++ [(id, ⟨handle.position, how.disposition⟩)]
          lost := s.lost ++ [(id, ⟨handle.position, how.disposition⟩)] } := by
      simp [deliver, ackRx, haborted]
    rw [hdeliver]
    exact {
      numbered := h.numbered
      armed := fun entry hentry => h.armed entry (hsub entry hentry)
      live_position := fun entry hentry => h.live_position entry (hsub entry hentry)
      sent_position := hsent
      once := by simpa using honce
      flow := by
        show s.sent ++ _ = _
        rw [h.flow, List.append_assoc]
      kept := fun hphase => absurd haborted hphase
      count := fun hphase => absurd haborted hphase
      phase := by
        have hphase := h.phase
        simp only [PhaseOk, haborted] at hphase ⊢
        exact hphase }
  · have hphase : s.phase ≠ .stopped := by
      intro hstopped
      have hok := h.phase
      simp [PhaseOk, hstopped, hlive] at hok
    have hrx : s.ackRx = true := by
      unfold ackRx
      split <;> simp_all
    have hdeliver : deliver [(id, ⟨handle.position, how.disposition⟩)]
        { s with live := before ++ after } =
        { s with
          live := before ++ after
          sent := s.sent ++ [(id, ⟨handle.position, how.disposition⟩)]
          channel := s.channel ++ [(id, ⟨handle.position, how.disposition⟩)] } := by
      have hrx' : ackRx { s with
          live := before ++ after
          sent := s.sent ++ [(id, ⟨handle.position, how.disposition⟩)] } = true := hrx
      simp only [deliver, hrx', if_true]
    rw [hdeliver]
    exact {
      numbered := h.numbered
      armed := fun entry hentry => h.armed entry (hsub entry hentry)
      live_position := fun entry hentry => h.live_position entry (hsub entry hentry)
      sent_position := hsent
      once := by simpa using honce
      flow := by
        show s.sent ++ _ = s.received ++ s.ackBatch ++ (s.channel ++ _) ++ s.lost
        rw [h.flow, h.kept haborted]
        simp
      kept := h.kept
      -- one live handle less, one resolution on its way more
      count := by
        intro _
        have hcount := h.count haborted
        simp only [hlive, List.length_append, List.length_cons, List.length_nil] at hcount ⊢
        omega
      phase := by
        have hok := h.phase
        unfold PhaseOk at hok ⊢
        split <;> simp_all }

/-- `allow_abort_drop` leaves the handle its sender. -/
theorem Inv.markAbortDrop (h : s.Inv) (id : ℕ) : (s.markAbortDrop id).Inv := by
  have hmark : ∀ entry ∈ (s.markAbortDrop id).live, ∃ old ∈ s.live,
      entry.1 = old.1 ∧ entry.2.tx = old.2.tx ∧ entry.2.position = old.2.position := by
    intro entry hentry
    obtain ⟨old, hold, rfl⟩ := List.mem_map.mp hentry
    refine ⟨old, hold, ?_⟩
    split <;> exact ⟨rfl, rfl, rfl⟩
  have hids : (s.markAbortDrop id).live.map Prod.fst = s.live.map Prod.fst := by
    simp only [QueueConsumer.markAbortDrop, List.map_map]
    refine List.map_congr_left fun entry _ => ?_
    simp only [Function.comp]
    split <;> rfl
  exact {
    numbered := h.numbered
    armed := by
      intro entry hentry
      obtain ⟨old, hold, _, htx, _⟩ := hmark entry hentry
      exact htx.trans (h.armed old hold)
    live_position := by
      intro entry hentry
      obtain ⟨old, hold, hid, _, hposition⟩ := hmark entry hentry
      rw [hid, hposition]
      exact h.live_position old hold
    sent_position := h.sent_position
    once := by
      rw [hids]
      exact h.once
    flow := h.flow
    kept := h.kept
    count := by
      intro hphase
      rw [show (s.markAbortDrop id).live.length = s.live.length from List.length_map _]
      exact h.count hphase
    phase := by
      have hok := h.phase
      simp only [PhaseOk, QueueConsumer.markAbortDrop] at hok ⊢
      split <;> simp_all }

/-! ## The moves of the consumer -/

/-- What the ack arm can do with a resolution: it is worked off, and the loop is left exactly when
events are no longer accepted and the count is zero. -/
theorem steadyAck_cases (id : ℕ) (resolution : AckResolution) (rest : List (ℕ × AckResolution))
    (s : QueueConsumer) :
    ∃ accepting wedged metrics acked, (s.accepting = false → accepting = false) ∧
      (accepting = false ∧ s.inFlight - 1 = 0 ∧
        steadyAck id resolution rest s = { s with
          accepting := accepting, wedged := wedged, metrics := metrics, acked := acked
          inFlight := s.inFlight - 1, received := s.received ++ [(id, resolution)]
          phase := .shuttingDown, ackBatch := [] } ∨
      (accepting = true ∨ s.inFlight - 1 ≠ 0) ∧
        steadyAck id resolution rest s = { s with
          accepting := accepting, wedged := wedged, metrics := metrics, acked := acked
          inFlight := s.inFlight - 1, received := s.received ++ [(id, resolution)]
          phase := if rest = [] then .select else .acking, ackBatch := rest }) := by
  have hexit (accepting : Bool) : ¬(accepting = false ∧ s.inFlight - 1 = 0) →
      accepting = true ∨ s.inFlight - 1 ≠ 0 := by
    cases accepting <;> simp
  unfold steadyAck
  by_cases hfirst : (!s.wedged && (settle id resolution s).wedged) = true
  · by_cases hzero : s.inFlight - 1 = 0
    · refine ⟨false, (settle id resolution s).wedged, (settle id resolution s).metrics, s.acked,
        fun _ => rfl, .inl ⟨rfl, hzero, ?_⟩⟩
      simp only [hfirst, if_true]
      exact if_pos ⟨trivial, hzero⟩
    · refine ⟨false, (settle id resolution s).wedged, (settle id resolution s).metrics, s.acked,
        fun _ => rfl, .inr ⟨.inr hzero, ?_⟩⟩
      simp only [hfirst, if_true]
      exact if_neg fun hboth => hzero hboth.2
  · refine ⟨s.accepting, (settle id resolution s).wedged, (settle id resolution s).metrics,
      s.acked ++ [(id, resolution.position)], fun h => h, ?_⟩
    by_cases hboth : s.accepting = false ∧ s.inFlight - 1 = 0
    · refine .inl ⟨hboth.1, hboth.2, ?_⟩
      simp only [if_neg hfirst]
      exact if_pos hboth
    · refine .inr ⟨hexit _ hboth, ?_⟩
      simp only [if_neg hfirst]
      exact if_neg hboth

/-- What the pass after the loop can do with a resolution. -/
theorem drainAck_cases (id : ℕ) (resolution : AckResolution) (rest : List (ℕ × AckResolution))
    (s : QueueConsumer) :
    ∃ wedged metrics acked, drainAck id resolution rest s = { s with
      wedged := wedged, metrics := metrics, acked := acked
      inFlight := s.inFlight - 1, received := s.received ++ [(id, resolution)]
      phase := if rest = [] then .finalDrain else .finalAcking, ackBatch := rest } := by
  unfold drainAck
  refine ⟨(settle id resolution s).wedged, (settle id resolution s).metrics,
    if resolution.isDroppedOnDisk then s.acked else s.acked ++ [(id, resolution.position)], ?_⟩
  cases resolution.isDroppedOnDisk <;> rfl

theorem Inv.ack (h : s.Inv) (hstep : s.ack = some t) : t.Inv := by
  have hok := h.phase
  unfold QueueConsumer.ack at hstep
  split at hstep
  · rename_i id resolution rest hphase hbatch
    injection hstep with hstep
    have hcount := h.count (by simp [hphase])
    have hflow := h.flow
    rw [hbatch] at hcount hflow
    rw [List.length_cons] at hcount
    have hlost := h.kept (by simp [hphase])
    simp only [PhaseOk, hphase] at hok
    obtain ⟨accepting, wedged, metrics, acked, -, hcase⟩ := steadyAck_cases id resolution rest s
    rcases hcase with ⟨-, hzero, heq⟩ | ⟨hstay, heq⟩
    · -- the count says that nothing is left of the batch
      have hrest : rest = [] := List.length_eq_zero_iff.mp (by omega)
      have hlive : s.live = [] := List.length_eq_zero_iff.mp (by omega)
      have hchannel : s.channel = [] := List.length_eq_zero_iff.mp (by omega)
      rw [← hstep, heq]
      exact { h with
        flow := by
          simp only [hflow, hrest, hchannel, hlost]
          simp
        kept := fun _ => hlost
        count := fun _ => by simp [hzero, hlive, hchannel]
        phase := by simp [PhaseOk, hok] }
    · rw [← hstep, heq]
      exact { h with
        flow := by
          simp only [hflow]
          simp
        kept := fun _ => hlost
        count := fun _ => by dsimp only; omega
        phase := by
          by_cases hrest : rest = []
          · simpa [PhaseOk, hrest, hok] using hstay
          · simp [PhaseOk, hrest, hok] }
  · rename_i id resolution rest hphase hbatch
    injection hstep with hstep
    have hcount := h.count (by simp [hphase])
    have hflow := h.flow
    rw [hbatch] at hcount hflow
    rw [List.length_cons] at hcount
    have hlost := h.kept (by simp [hphase])
    simp only [PhaseOk, hphase] at hok
    obtain ⟨wedged, metrics, acked, heq⟩ := drainAck_cases id resolution rest s
    rw [← hstep, heq]
    exact { h with
      flow := by
        simp only [hflow]
        simp
      kept := fun _ => hlost
      count := fun _ => by dsimp only; omega
      phase := by by_cases hrest : rest = [] <;> simp [PhaseOk, hrest, hok] }
  · exact absurd hstep (by simp)

theorem Inv.receiveAcks (h : s.Inv) {n : ℕ} (hstep : s.receiveAcks n = some t) : t.Inv := by
  have hok := h.phase
  -- a batch taken from the channel is still on its way
  have htake : ∀ phase, s.phase ≠ .aborted → s.ackBatch = [] → n ≠ 0 →
      takeAcks n phase s = some t →
      (∀ ackBatch, ackBatch ≠ [] → PhaseOk { s with
        ackBatch := ackBatch, channel := s.channel.drop n, phase := phase }) →
      phase ≠ .aborted → t.Inv := by
    intro phase haborted hbatch hn hstep hphase hphase'
    unfold takeAcks at hstep
    split at hstep
    · rename_i hle
      injection hstep with hstep
      subst hstep
      have hcount := h.count haborted
      have hflow := h.flow
      have hne : s.channel.take n ≠ [] := by
        intro hnil
        have hlength := congrArg List.length hnil
        rw [List.length_take, List.length_nil] at hlength
        omega
      rw [hbatch] at hcount hflow
      exact { h with
        flow := by
          simp only [hflow, List.append_assoc, List.nil_append, List.take_append_drop]
        kept := fun _ => h.kept haborted
        count := fun _ => by
          simp only [hcount, List.length_take, List.length_drop, List.length_nil]
          omega
        phase := hphase _ hne }
    · exact absurd hstep (by simp)
  unfold QueueConsumer.receiveAcks at hstep
  split at hstep
  · rename_i hphase
    simp only [PhaseOk, hphase] at hok
    split at hstep
    · split at hstep
      · rename_i hclosed
        have htx : s.ackTx = false := hclosed.2.1
        rw [hok.2.2.1] at htx
        exact absurd htx (by simp)
      · exact absurd hstep (by simp)
    · rename_i hn
      exact htake .acking (by simp [hphase]) hok.2.1 hn hstep
        (fun ackBatch hne => ⟨hok.1, hne, hok.2.2.1⟩) (by simp)
  · rename_i hphase
    simp only [PhaseOk, hphase] at hok
    split at hstep
    · split at hstep
      · rename_i hclosed
        injection hstep with hstep
        subst hstep
        -- every handle that is alive has its sender, so none is
        have hlive : s.live = [] := by
          refine List.eq_nil_iff_forall_not_mem.mpr fun entry hentry => ?_
          have htx := List.all_eq_true.mp hclosed.2.2 entry hentry
          simp [h.armed entry hentry] at htx
        exact { h with
          kept := fun _ => h.kept (by simp [hphase])
          count := fun _ => h.count (by simp [hphase])
          phase := ⟨hok.1, hok.2.1, hclosed.2.1, hclosed.1, hlive⟩ }
      · exact absurd hstep (by simp)
    · rename_i hn
      exact htake .finalAcking (by simp [hphase]) hok.2.1 hn hstep
        (fun ackBatch hne => ⟨hok.1, hne, hok.2.2⟩) (by simp)
  · exact absurd hstep (by simp)

theorem Inv.receiveMany (h : s.Inv) {n : ℕ} (hstep : s.receiveMany n = some t) : t.Inv := by
  have hok := h.phase
  unfold QueueConsumer.receiveMany at hstep
  split at hstep
  · rename_i hselect
    obtain ⟨hphase, haccepting⟩ := hselect
    simp only [PhaseOk, hphase] at hok
    have hlost := h.kept (by simp [hphase])
    have hcount := h.count (by simp [hphase])
    split at hstep
    · split at hstep
      · injection hstep with hstep
        subst hstep
        exact { h with
          kept := fun _ => hlost
          count := fun _ => hcount
          phase := by
            by_cases hzero : s.inFlight = 0
            · simp [PhaseOk, hzero, hok.1, hok.2.1, hok.2.2.1]
            · simp [PhaseOk, hzero, hok.1, hok.2.1, hok.2.2.1] }
      · exact absurd hstep (by simp)
    · split at hstep
      · rename_i hn hle
        injection hstep with hstep
        subst hstep
        have hnumbered := h.numbered
        rw [hok.1, List.append_nil, ← List.take_append_drop n s.queue] at hnumbered
        have hne : s.queue.take n ≠ [] := by
          intro hnil
          have hlength := congrArg List.length hnil
          rw [List.length_take, List.length_nil] at hlength
          omega
        exact { h with
          numbered := by rw [List.append_assoc]; exact hnumbered
          kept := fun _ => hlost
          count := fun _ => hcount
          phase := ⟨hok.2.1, hok.2.2.1, haccepting, fun _ => hne⟩ }
      · exact absurd hstep (by simp)
  · exact absurd hstep (by simp)

/-- A fresh handle is alive, has its sender and has sent nothing. -/
theorem Inv.hand (h : s.Inv) {entry : ℕ × AckPosition} (haborted : s.phase ≠ .aborted)
    {batch queue : List (ℕ × AckPosition)} {phase : Phase}
    (hrest : s.batch ++ s.queue = entry :: (batch ++ queue))
    (hok : PhaseOk { hand entry s with batch := batch, queue := queue, phase := phase }) :
    Inv { hand entry s with batch := batch, queue := queue, phase := phase } where
  numbered := by
    have hnumbered := h.numbered
    rw [List.append_assoc, hrest] at hnumbered
    simpa [QueueConsumer.hand] using hnumbered
  armed := by
    intro old hold
    rcases List.mem_append.mp hold with hold | hold
    · exact h.armed old hold
    · rw [List.mem_singleton.mp hold]
      rfl
  live_position := by
    intro old hold
    rcases List.mem_append.mp hold with hold | hold
    · exact List.mem_append_left _ (h.live_position old hold)
    · rw [List.mem_singleton.mp hold]
      exact List.mem_append_right _ (List.mem_singleton_self entry)
  sent_position := fun message hmessage =>
    List.mem_append_left _ (h.sent_position message hmessage)
  once := by
    have hnew : (QueueConsumer.hand entry s).live.map Prod.fst =
        s.live.map Prod.fst ++ [entry.1] := by
      simp [QueueConsumer.hand]
    have hout : (QueueConsumer.hand entry s).handedOut.map Prod.fst =
        s.handedOut.map Prod.fst ++ [entry.1] := by
      simp [QueueConsumer.hand]
    show ((QueueConsumer.hand entry s).live.map Prod.fst ++ s.sent.map Prod.fst).Perm
      ((QueueConsumer.hand entry s).handedOut.map Prod.fst)
    rw [hnew, hout]
    refine List.Perm.trans ?_ (h.once.append_right [entry.1])
    rw [List.append_assoc, List.append_assoc]
    exact (List.perm_append_comm).append_left _
  flow := h.flow
  kept := fun _ => h.kept haborted
  count := by
    intro _
    have hcount := h.count haborted
    simp only [QueueConsumer.hand, List.length_append, List.length_cons, List.length_nil]
    omega
  phase := hok

theorem Inv.handOut (h : s.Inv) (hstep : s.handOut = some t) : t.Inv := by
  have hok := h.phase
  unfold QueueConsumer.handOut at hstep
  split at hstep
  · rename_i entry rest hphase hbatch
    injection hstep with hstep
    subst hstep
    simp only [PhaseOk, hphase] at hok
    refine h.hand (by simp [hphase]) (by rw [hbatch]; rfl) ?_
    exact ⟨hok.1, hok.2.1, hok.2.2.1, by simp⟩
  · exact absurd hstep (by simp)

theorem Inv.drain (h : s.Inv) (hstep : s.drain = some t) : t.Inv := by
  have hok := h.phase
  unfold QueueConsumer.drain at hstep
  split at hstep
  · rename_i entry rest hphase hqueue
    injection hstep with hstep
    subst hstep
    simp only [PhaseOk, hphase] at hok
    refine h.hand (by simp [hphase]) (by simp [QueueConsumer.hand, hok.1, hqueue]) ?_
    exact ⟨hok.1, hok.2.1, hok.2.2.1, hok.2.2.2⟩
  · rename_i hphase hqueue
    simp only [PhaseOk, hphase] at hok
    split at hstep
    · injection hstep with hstep
      subst hstep
      exact { h with
        kept := fun _ => h.kept (by simp [hphase])
        count := fun _ => h.count (by simp [hphase])
        phase := ⟨hok.1, hok.2.1, hok.2.2.1⟩ }
    · exact absurd hstep (by simp)
  · exact absurd hstep (by simp)

/-- A move that only goes to another phase and keeps what is needed there. -/
theorem Inv.goto (h : s.Inv) (haborted : s.phase ≠ .aborted) {phase : Phase} {closed ackTx : Bool}
    (hok : PhaseOk { s with phase := phase, closed := closed, ackTx := ackTx }) :
    Inv { s with phase := phase, closed := closed, ackTx := ackTx } :=
  { h with
    kept := fun _ => h.kept haborted
    count := fun _ => h.count haborted
    phase := hok }

theorem Inv.returned (h : s.Inv) (hstep : s.returned = some t) : t.Inv := by
  have hok := h.phase
  unfold QueueConsumer.returned at hstep
  split at hstep <;> rename_i hphase
  · injection hstep with hstep
    subst hstep
    simp only [PhaseOk, hphase] at hok
    refine h.goto (by simp [hphase]) ?_
    by_cases hbatch : s.batch = [] <;> simp [PhaseOk, hbatch, hok.1, hok.2.1, hok.2.2.1]
  · injection hstep with hstep
    subst hstep
    simp only [PhaseOk, hphase] at hok
    exact h.goto (by simp [hphase]) hok
  · injection hstep with hstep
    subst hstep
    simp only [PhaseOk, hphase] at hok
    exact h.goto (by simp [hphase]) ⟨hok.1, hok.2.1, rfl⟩
  · exact absurd hstep (by simp)

theorem Inv.takeShutdown (h : s.Inv) (hstep : s.takeShutdown = some t) : t.Inv := by
  have hok := h.phase
  unfold QueueConsumer.takeShutdown at hstep
  split at hstep
  · rename_i hselect
    have hphase := hselect.1
    simp only [PhaseOk, hphase] at hok
    have haborted : s.phase ≠ .aborted := by simp [hphase]
    split at hstep
    · injection hstep with hstep
      subst hstep
      exact h.goto haborted ⟨hok.1, hok.2.1, hok.2.2.1⟩
    · split at hstep <;> injection hstep with hstep <;> subst hstep
      · exact h.goto haborted ⟨hok.1, hok.2.1, hok.2.2.1, rfl⟩
      · exact h.goto haborted ⟨hok.1, hok.2.1, hok.2.2.1⟩
  · exact absurd hstep (by simp)

/-- Cancelled at an await point the consumer holds no acks it has not worked off. -/
theorem Inv.abort (h : s.Inv) (hstep : s.abort = some t) : t.Inv := by
  have hok := h.phase
  unfold QueueConsumer.abort at hstep
  split at hstep
  · exact absurd hstep (by simp)
  · exact absurd hstep (by simp)
  · exact absurd hstep (by simp)
  · exact absurd hstep (by simp)
  · rename_i hacking hfinal hstopped haborted
    injection hstep with hstep
    subst hstep
    refine { h with
      kept := fun hne => absurd rfl hne
      count := fun hne => absurd rfl hne
      phase := ⟨?_, rfl⟩ }
    unfold PhaseOk at hok
    split at hok <;> simp_all

theorem Inv.step (h : s.Inv) {move : ConsumerMove} (hstep : s.step move = some t) : t.Inv := by
  have hok := h.phase
  cases move with
  | reserve =>
      simp only [QueueConsumer.step] at hstep
      split at hstep
      · exact absurd hstep (by simp)
      · injection hstep with hstep
        subst hstep
        exact { h with }
  | send position =>
      simp only [QueueConsumer.step] at hstep
      split at hstep
      · exact absurd hstep (by simp)
      · injection hstep with hstep
        exact hstep ▸ h.enqueue position
  | closeQueue =>
      simp only [QueueConsumer.step] at hstep
      split at hstep
      · injection hstep with hstep
        subst hstep
        refine { h with phase := ?_ }
        unfold PhaseOk at hok ⊢
        split <;> simp_all
      · exact absurd hstep (by simp)
  | signalShutdown =>
      injection hstep with hstep
      subst hstep
      exact { h with }
  | finish id how => exact h.finish hstep
  | allowAbortDrop id =>
      injection hstep with hstep
      exact hstep ▸ h.markAbortDrop id
  | returned => exact h.returned hstep
  | takeShutdown => exact h.takeShutdown hstep
  | receiveAcks n => exact h.receiveAcks hstep
  | ack => exact h.ack hstep
  | receiveMany n => exact h.receiveMany hstep
  | handOut => exact h.handOut hstep
  | drain => exact h.drain hstep
  | abort => exact h.abort hstep

end QueueConsumer

end Limpid.Queue
