import Limpid.Entries
import Limpid.Runs
import Limpid.Queue.Conservation

/-!
# Every event handed out is settled once

What the invariant of the consumer says of its runs.

* `settle_step`: once no more events are taken, every move that works something off leaves less
  to work off, so the consumer cannot run on for ever.
* `own_move`: nor does it wait while every handle has ended.
* `exactly_one_disposition` puts the parts together.  A consumer whose task is cancelled does not
  hear what the handles that outlive it send (`cancelled_receives_nothing`).
-/

namespace Limpid.Queue

open Disk (Position AckDisposition)

namespace QueueConsumer

variable {s t : QueueConsumer}

/-! ## The end of a run -/

/-- No more events are taken from the queue, except by the drain of a memory queue. -/
def Stopping (s : QueueConsumer) : Prop :=
  match s.phase with
  | .select | .acking => s.accepting = false
  | .handing _ | .aborted => False
  | _ => True

/-- How many stages are ahead. -/
def rank : Phase → ℕ
  | .draining true => 4
  | .select | .acking | .draining false => 3
  | .shuttingDown => 2
  | .finalDrain | .finalAcking => 1
  | .handing _ | .stopped | .aborted => 0

/-- What is left to work off.  An event weighs less the further it is: queued, in a handle, in
the channel, in a batch of acks. -/
def work (s : QueueConsumer) : ℕ :=
  6 * s.permits + 5 * s.queue.length + 3 * s.live.length + 2 * s.channel.length +
    s.ackBatch.length + rank s.phase

theorem settle_finish (h : s.Inv) (hs : s.Stopping) {id : ℕ} {how : HandleEnd}
    (hstep : s.finish id how = some t) : t.Stopping ∧ t.work < s.work := by
  obtain ⟨before, handle, after, hlive, rfl⟩ := finish_cases h hstep
  have hrx : s.ackRx = true := by
    have hok := h.phase
    unfold ackRx
    split
    · rename_i hphase
      simp [PhaseOk, hphase, hlive] at hok
    · rename_i hphase
      simp [Stopping, hphase] at hs
    · rfl
  have hrx' : ackRx { s with
      live := before ++ after
      sent := s.sent ++ [(id, ⟨handle.position, how.disposition⟩)] } = true := hrx
  simp only [deliver, hrx', if_true]
  refine ⟨hs, ?_⟩
  simp only [work, hlive, List.length_append, List.length_cons, List.length_nil]
  omega

theorem settle_receiveAcks (h : s.Inv) (hs : s.Stopping) {n : ℕ}
    (hstep : s.receiveAcks n = some t) : t.Stopping ∧ t.work < s.work := by
  have htake : ∀ phase, takeAcks n phase s = some t → n ≠ 0 → s.ackBatch = [] →
      rank phase = rank s.phase →
      (∀ ackBatch channel, Stopping { s with
        ackBatch := ackBatch, channel := channel, phase := phase }) →
      t.Stopping ∧ t.work < s.work := by
    intro phase hstep hn hbatch hrank hstopping
    unfold takeAcks at hstep
    split at hstep
    · rename_i hle
      injection hstep with hstep
      subst hstep
      refine ⟨hstopping _ _, ?_⟩
      simp only [work, hbatch, hrank, List.length_take, List.length_drop, List.length_nil]
      omega
    · exact absurd hstep (by simp)
  have hok := h.phase
  unfold QueueConsumer.receiveAcks at hstep
  split at hstep <;> rename_i hphase
  · simp only [PhaseOk, hphase] at hok
    simp only [Stopping, hphase] at hs
    split at hstep
    · split at hstep
      · injection hstep with hstep
        subst hstep
        exact ⟨trivial, by simp [work, rank, hphase]⟩
      · exact absurd hstep (by simp)
    · rename_i hn
      exact htake .acking hstep hn hok.2.1 (by simp [rank, hphase]) fun _ _ => hs
  · simp only [PhaseOk, hphase] at hok
    split at hstep
    · split at hstep
      · injection hstep with hstep
        subst hstep
        exact ⟨trivial, by simp [work, rank, hphase]⟩
      · exact absurd hstep (by simp)
    · rename_i hn
      exact htake .finalAcking hstep hn hok.2.1 (by simp [rank, hphase]) fun _ _ => trivial
  · exact absurd hstep (by simp)

theorem settle_ack (hs : s.Stopping) (hstep : s.ack = some t) :
    t.Stopping ∧ t.work < s.work := by
  unfold QueueConsumer.ack at hstep
  split at hstep
  · rename_i id resolution rest hphase hbatch
    injection hstep with hstep
    simp only [Stopping, hphase] at hs
    obtain ⟨accepting, wedged, metrics, acked, hfalse, hcase⟩ :=
      steadyAck_cases id resolution rest s
    rcases hcase with ⟨-, -, heq⟩ | ⟨-, heq⟩
    · rw [← hstep, heq]
      refine ⟨trivial, ?_⟩
      simp only [work, rank, hphase, hbatch, List.length_cons, List.length_nil]
      omega
    · rw [← hstep, heq]
      by_cases hrest : rest = []
      · refine ⟨by simpa [Stopping, hrest] using hfalse hs, ?_⟩
        simp only [work, rank, hphase, hbatch, hrest, if_true, List.length_cons]
        omega
      · refine ⟨by simpa [Stopping, hrest] using hfalse hs, ?_⟩
        simp only [work, rank, hphase, hbatch, if_neg hrest, List.length_cons]
        omega
  · rename_i id resolution rest hphase hbatch
    injection hstep with hstep
    obtain ⟨wedged, metrics, acked, heq⟩ := drainAck_cases id resolution rest s
    rw [← hstep, heq]
    by_cases hrest : rest = []
    · refine ⟨by simp [Stopping, hrest], ?_⟩
      simp only [work, rank, hphase, hbatch, hrest, if_true, List.length_cons]
      omega
    · refine ⟨by simp [Stopping, hrest], ?_⟩
      simp only [work, rank, hphase, hbatch, if_neg hrest, List.length_cons]
      omega
  · exact absurd hstep (by simp)

theorem settle_returned (hs : s.Stopping) (hstep : s.returned = some t) :
    t.Stopping ∧ t.work < s.work := by
  unfold QueueConsumer.returned at hstep
  split at hstep <;> rename_i hphase
  · simp [Stopping, hphase] at hs
  · injection hstep with hstep
    subst hstep
    exact ⟨trivial, by simp [work, rank, hphase]⟩
  · injection hstep with hstep
    subst hstep
    exact ⟨trivial, by simp [work, rank, hphase]⟩
  · exact absurd hstep (by simp)

theorem settle_takeShutdown (hs : s.Stopping) (hstep : s.takeShutdown = some t) :
    t.Stopping ∧ t.work < s.work := by
  unfold QueueConsumer.takeShutdown at hstep
  split at hstep
  · rename_i hselect
    obtain ⟨hphase, -, haccepting⟩ := hselect
    -- a consumer that stops accepting takes the signal only when wedged
    have hwedged : s.wedged = true := by
      simp only [Stopping, hphase] at hs
      simpa [hs] using haccepting
    rw [if_pos hwedged] at hstep
    injection hstep with hstep
    subst hstep
    exact ⟨trivial, by simp [work, rank, hphase]⟩
  · exact absurd hstep (by simp)

theorem settle_drain (hstep : s.drain = some t) :
    t.Stopping ∧ t.work < s.work := by
  unfold QueueConsumer.drain at hstep
  split at hstep
  · rename_i entry rest hphase hqueue
    injection hstep with hstep
    subst hstep
    refine ⟨trivial, ?_⟩
    simp only [work, rank, hand, hphase, hqueue, List.length_append, List.length_cons,
      List.length_nil]
    omega
  · rename_i hphase hqueue
    split at hstep
    · injection hstep with hstep
      subst hstep
      exact ⟨trivial, by simp [work, rank, hphase]⟩
    · exact absurd hstep (by simp)
  · exact absurd hstep (by simp)

/-- **Each settling move of a stopping consumer leaves it less to work off.** -/
theorem settle_step (h : s.Inv) (hs : s.Stopping) {move : ConsumerMove}
    (hmove : move.settles = true) (hstep : s.step move = some t) :
    t.Stopping ∧ t.work < s.work := by
  cases move with
  | reserve | closeQueue | signalShutdown | allowAbortDrop | abort =>
      exact absurd hmove (by simp [ConsumerMove.settles, ConsumerMove.own])
  | send position =>
      simp only [QueueConsumer.step] at hstep
      split at hstep
      · exact absurd hstep (by simp)
      · rename_i hpermits
        injection hstep with hstep
        subst hstep
        refine ⟨hs, ?_⟩
        simp only [work, enqueue, List.length_append, List.length_cons, List.length_nil]
        omega
  | finish id how => exact settle_finish h hs hstep
  | returned => exact settle_returned hs hstep
  | takeShutdown => exact settle_takeShutdown hs hstep
  | receiveAcks n => exact settle_receiveAcks h hs hstep
  | ack => exact settle_ack hs hstep
  | receiveMany n =>
      simp only [QueueConsumer.step, QueueConsumer.receiveMany] at hstep
      split at hstep
      · rename_i hselect
        simp [Stopping, hselect.1, hselect.2] at hs
      · exact absurd hstep (by simp)
  | handOut =>
      simp only [QueueConsumer.step, QueueConsumer.handOut] at hstep
      split at hstep
      · rename_i hphase _
        simp [Stopping, hphase] at hs
      · exact absurd hstep (by simp)
  | drain => exact settle_drain hstep

/-- **A stopping consumer waits for nothing but handles that are alive and sends with a
permit.** -/
theorem own_move (h : s.Inv) (hs : s.Stopping) (hstopped : s.phase ≠ .stopped)
    (hlive : s.live = []) (hpermits : s.permits = 0) :
    ∃ move : ConsumerMove, move.own = true ∧ (s.step move).isSome = true := by
  have hok := h.phase
  have htake : s.channel ≠ [] → ∀ phase, (takeAcks 1 phase s).isSome = true := by
    intro hchannel phase
    have hlength : 1 ≤ s.channel.length := List.length_pos_iff.mpr hchannel
    simp [takeAcks, ackRecvBatchMax, hlength]
  cases hphase : s.phase with
  | select =>
      simp only [PhaseOk, hphase] at hok
      simp only [Stopping, hphase] at hs
      -- the count says that there are acks to come
      have hcount := h.count (by simp [hphase])
      have hchannel : s.channel ≠ [] := by
        intro hchannel
        rw [hlive, hok.2.1, hchannel] at hcount
        simp [hs, hcount] at hok
      exact ⟨.receiveAcks 1, rfl, by
        simpa [QueueConsumer.step, QueueConsumer.receiveAcks, hphase] using htake hchannel .acking⟩
  | handing consuming => simp [Stopping, hphase] at hs
  | acking =>
      simp only [PhaseOk, hphase] at hok
      obtain ⟨entry, rest, hbatch⟩ := List.exists_cons_of_ne_nil hok.2.1
      exact ⟨.ack, rfl, by simp [QueueConsumer.step, QueueConsumer.ack, hphase, hbatch]⟩
  | draining consuming =>
      simp only [PhaseOk, hphase] at hok
      cases consuming with
      | true =>
          exact ⟨.returned, rfl, by simp [QueueConsumer.step, QueueConsumer.returned, hphase]⟩
      | false =>
          refine ⟨.drain, rfl, ?_⟩
          cases hqueue : s.queue with
          | nil =>
              simp [QueueConsumer.step, QueueConsumer.drain, QueueEnded, hphase, hqueue, hpermits,
                hok.2.2.2]
          | cons entry rest => simp [QueueConsumer.step, QueueConsumer.drain, hphase, hqueue]
  | shuttingDown =>
      exact ⟨.returned, rfl, by simp [QueueConsumer.step, QueueConsumer.returned, hphase]⟩
  | finalDrain =>
      simp only [PhaseOk, hphase] at hok
      -- the channel is closed once the handles are gone, so the receive returns
      by_cases hchannel : s.channel = []
      · have hclosed : s.ChannelClosed := ⟨hchannel, hok.2.2, by simp [hlive]⟩
        exact ⟨.receiveAcks 0, rfl, by
          simp [QueueConsumer.step, QueueConsumer.receiveAcks, hphase, hclosed]⟩
      · exact ⟨.receiveAcks 1, rfl, by
          simpa [QueueConsumer.step, QueueConsumer.receiveAcks, hphase] using
            htake hchannel .finalAcking⟩
  | finalAcking =>
      simp only [PhaseOk, hphase] at hok
      obtain ⟨entry, rest, hbatch⟩ := List.exists_cons_of_ne_nil hok.2.1
      exact ⟨.ack, rfl, by simp [QueueConsumer.step, QueueConsumer.ack, hphase, hbatch]⟩
  | stopped => exact absurd hphase hstopped
  | aborted => simp [Stopping, hphase] at hs

/-! ## The result -/

/-- The resolutions that the handle of event `id` has sent. -/
def resolutions (id : ℕ) (s : QueueConsumer) : List AckResolution :=
  Entries.valuesOf id s.sent

/-- The runs of a consumer, with everything that happens around it. -/
def Runs (backend : QueueBackendKind) (metrics : OutputMetrics) : QueueConsumer → Prop :=
  Reached (fun s move t => s.step move = some t) (fun _ _ => True) (start backend metrics)

variable {backend : QueueBackendKind} {metrics : OutputMetrics}

theorem Runs.inv (h : Runs backend metrics s) : s.Inv :=
  Reached.invariant Inv (inv_start backend metrics) (fun _ _ _ hs _ hstep => hs.step hstep) h

/-- An event handed out has a live handle that has sent nothing, or one that has ended and sent
one resolution. -/
theorem Inv.resolutions_eq (h : s.Inv) {id : ℕ} {position : AckPosition}
    (hmem : (id, position) ∈ s.handedOut) :
    (id ∈ s.live.map Prod.fst ∧ s.resolutions id = []) ∨
      (id ∉ s.live.map Prod.fst ∧
        ∃ disposition, s.resolutions id = [⟨position, disposition⟩]) := by
  have hhanded : (Entries.keys s.handedOut).Nodup := by
    have hnodup : ((s.handedOut ++ s.batch ++ s.queue).map Prod.fst).Nodup :=
      h.numbered ▸ List.nodup_range
    rw [List.map_append, List.map_append, List.append_assoc] at hnodup
    exact hnodup.of_append_left
  have hnodup := h.once.nodup_iff.mpr hhanded
  have hid : id ∈ s.live.map Prod.fst ++ s.sent.map Prod.fst :=
    h.once.mem_iff.mpr (List.mem_map_of_mem hmem)
  by_cases hlive : id ∈ s.live.map Prod.fst
  · exact .inl ⟨hlive, Entries.valuesOf_eq_nil (List.disjoint_of_nodup_append hnodup hlive)⟩
  · refine .inr ⟨hlive, ?_⟩
    obtain ⟨⟨id', resolution⟩, hmessage, rfl⟩ :=
      List.mem_map.mp ((List.mem_append.mp hid).resolve_left hlive)
    have hposition : [position] = [resolution.position] :=
      (Entries.valuesOf_of_nodup hhanded hmem).symm.trans
        (Entries.valuesOf_of_nodup hhanded (h.sent_position _ hmessage))
    refine ⟨resolution.disposition, ?_⟩
    rw [List.singleton_inj.mp hposition]
    exact Entries.valuesOf_of_nodup hnodup.of_append_right hmessage

/-- A consumer that stops has seen every handle end. -/
theorem Inv.stopped (h : s.Inv) (hphase : s.phase = .stopped) :
    s.live = [] ∧ s.inFlight = 0 ∧ s.received = s.sent := by
  have hok := h.phase
  simp only [PhaseOk, hphase] at hok
  obtain ⟨-, hbatch, -, hchannel, hlive⟩ := hok
  have hcount := h.count (by simp [hphase])
  have hflow := h.flow
  rw [hlive, hbatch, hchannel] at hcount
  rw [hbatch, hchannel, h.kept (by simp [hphase])] at hflow
  exact ⟨hlive, hcount, by simpa using hflow.symm⟩

/-- **Every event handed out gets exactly one disposition.**  The handle of an event sends one
resolution, at the event's position.  It is in the channel or worked off unless the task of the
consumer was cancelled before the handle ended.  The in-flight count is what is alive or on its
way, so it is zero when the consumer stops; and a consumer that takes no more events cannot run
on for ever, nor wait while every handle has ended. -/
theorem exactly_one_disposition (h : Runs backend metrics s) :
    (∀ id position, (id, position) ∈ s.handedOut →
      (id ∈ s.live.map Prod.fst ∧ s.resolutions id = []) ∨
        (id ∉ s.live.map Prod.fst ∧
          ∃ disposition, s.resolutions id = [⟨position, disposition⟩])) ∧
    s.sent = s.received ++ s.ackBatch ++ s.channel ++ s.lost ∧
    (s.phase ≠ .aborted → s.lost = [] ∧
      s.inFlight = s.live.length + s.ackBatch.length + s.channel.length) ∧
    (s.phase = .stopped → s.live = [] ∧ s.inFlight = 0 ∧ s.received = s.sent) ∧
    (s.Stopping →
      Acc (fun t s => ∃ move : ConsumerMove, move.settles = true ∧ s.step move = some t) s ∧
      (s.phase ≠ .stopped → s.live = [] → s.permits = 0 →
        ∃ move : ConsumerMove, move.own = true ∧ (s.step move).isSome = true)) := by
  have hinv := Runs.inv h
  refine ⟨fun id position hmem => hinv.resolutions_eq hmem, hinv.flow,
    fun haborted => ⟨hinv.kept haborted, hinv.count haborted⟩, hinv.stopped, fun hs => ⟨?_, ?_⟩⟩
  · refine acc_of_measure (fun s => s.Inv ∧ s.Stopping) work ?_ ⟨hinv, hs⟩
    rintro s move t ⟨hs, hstopping⟩ ⟨hmove, hstep⟩
    obtain ⟨hnext, hless⟩ := settle_step hs hstopping hmove hstep
    exact ⟨⟨hs.step hstep, hnext⟩, hless⟩
  · exact fun hstopped hlive hpermits => own_move hinv hs hstopped hlive hpermits

/-- An event is handed out, parked and delivered, and the shutdown is waited for. -/
def deliveredRun : List ConsumerMove :=
  [.reserve, .send ⟨0, 0⟩, .receiveMany 1, .handOut, .returned, .signalShutdown, .takeShutdown,
    .drain, .finish 0 .resolveDelivered, .returned, .receiveAcks 1, .ack, .receiveAcks 0]

theorem exactly_one_disposition_delivered :
    ∃ s, deliveredRun.foldlM step (start .memory .zero) = some s ∧ s.phase = .stopped ∧
      s.resolutions 0 = [⟨.memory, .delivered⟩] ∧ s.inFlight = 0 := by
  obtain ⟨s, hs⟩ := Option.isSome_iff_exists.mp
    (show (deliveredRun.foldlM step (start .memory .zero)).isSome = true by decide)
  have hrun : Runs .memory .zero s := Reached.of_moves deliveredRun hs
  obtain ⟨_, _, _, hstopped, _⟩ := exactly_one_disposition hrun
  have hphase : s.phase = .stopped := by
    injection hs with hs
    rw [← hs]
  refine ⟨s, hs, hphase, ?_, (hstopped hphase).2.1⟩
  injection hs with hs
  rw [← hs]
  rfl

/-- An event is handed out and parked, the task of the consumer is cancelled, and the handle is
dropped. -/
def cancelledRun : List ConsumerMove :=
  [.reserve, .send ⟨0, 0⟩, .receiveMany 1, .handOut, .returned, .abort, .finish 0 .drop]

/-- A handle that outlives the task of the consumer is not heard. -/
theorem cancelled_receives_nothing :
    ∃ s, Runs .memory .zero s ∧ (0, .memory) ∈ s.handedOut ∧ s.live = [] ∧
      s.received ++ s.ackBatch ++ s.channel = [] := by
  obtain ⟨s, hs⟩ := Option.isSome_iff_exists.mp
    (show (cancelledRun.foldlM step (start .memory .zero)).isSome = true by decide)
  refine ⟨s, Reached.of_moves cancelledRun hs, ?_⟩
  injection hs with hs
  rw [← hs]
  decide

end QueueConsumer

end Limpid.Queue
