import Limpid.Queue.Ack

/-!
# The queue consumer

`run_queue_consumer` as a transition system: the consumer, the senders of its queue, the output
with the handles it holds, and the shutdown signal, interleaved in any order.  An event is known
by its number, so that two events of a memory queue, which share a position, are told apart.

Cancelling the task that runs the consumer drops the receiving end of the ack channel with it.
The handle in hand is dropped with the call that holds it, which here is the handle ending just
before the cancellation.

The `select!` is taken to pick any arm that is ready; the code polls them in order.
-/

namespace Limpid.Queue

open Disk (Position AckDisposition)

/-- The kind of a queue. -/
inductive QueueBackendKind where
  | memory
  | disk
deriving DecidableEq, Repr

/-- The position a receiver of the kind gives an event stored at `position`. -/
def QueueBackendKind.ackPosition (position : Position) : QueueBackendKind → AckPosition
  | .memory => .memory
  | .disk => .disk position

/-- `RECV_BATCH_MAX`. -/
def recvBatchMax : ℕ := 64
def ackRecvBatchMax : ℕ := 64

/-- Where the consumer is.  `consuming` tells that a call of the output is awaited. -/
inductive Phase where
  /-- At the `select!` of the loop. -/
  | select
  /-- In the receiving arm, handing a batch out. -/
  | handing (consuming : Bool)
  /-- In the ack arm. -/
  | acking
  /-- Draining a memory queue on shutdown. -/
  | draining (consuming : Bool)
  /-- Awaiting `writer.shutdown` or `writer.shutdown_wedged`. -/
  | shuttingDown
  /-- In the drain of the ack channel: receiving, or in its pass over a batch. -/
  | finalDrain
  | finalAcking
  | stopped
  /-- The task was cancelled. -/
  | aborted
deriving DecidableEq, Repr

/-- The queue, its consumer and the handles that are out. -/
structure QueueConsumer where
  backend : QueueBackendKind
  /-- The queue: what it holds, its sends that have a permit, and whether it is closed. -/
  queue : List (ℕ × AckPosition)
  nextId : ℕ
  permits : ℕ
  closed : Bool
  /-- A terminal change of the shutdown watch. -/
  shutdown : Bool
  phase : Phase
  accepting : Bool
  wedged : Bool
  inFlight : ℕ
  batch : List (ℕ × AckPosition)
  ackBatch : List (ℕ × AckResolution)
  /-- Whether the consumer still has its own `ack_tx`. -/
  ackTx : Bool
  channel : List (ℕ × AckResolution)
  metrics : OutputMetrics
  /-- The calls of `receiver.ack_to`. -/
  acked : List (ℕ × AckPosition)
  /-- The handles that have not ended. -/
  live : List (ℕ × QueueAckHandle)
  /-- What happened: the events handed out, what handles have sent, the resolutions the consumer
  has worked off, and those sent to a channel that no longer had a receiver. -/
  handedOut : List (ℕ × AckPosition)
  sent : List (ℕ × AckResolution)
  received : List (ℕ × AckResolution)
  lost : List (ℕ × AckResolution)

/-- A move of the senders, the consumer or the output. -/
inductive ConsumerMove where
  /-- The senders of the queue: a permit, a send with one, and the last sender going. -/
  | reserve
  | send (position : Position)
  | closeQueue
  | signalShutdown
  /-- The output: a handle ends or is marked, and the awaited call returns. -/
  | finish (id : ℕ) (how : HandleEnd)
  | allowAbortDrop (id : ℕ)
  | returned
  /-- The consumer. -/
  | takeShutdown
  | receiveAcks (n : ℕ)
  | ack
  | receiveMany (n : ℕ)
  | handOut
  | drain
  | abort
deriving DecidableEq, Repr

/-- The consumer's own moves, the return of the call it awaits among them. -/
def ConsumerMove.own : ConsumerMove → Bool
  | .returned | .takeShutdown | .receiveAcks _ | .ack | .receiveMany _ | .handOut | .drain => true
  | _ => false

/-- The moves that work something off: the consumer's own, the end of a handle, and a send that
has its permit. -/
def ConsumerMove.settles : ConsumerMove → Bool
  | .finish _ _ | .send _ => true
  | move => move.own

namespace QueueConsumer

/-- `ack_rx` is there until the consumer returns or is cancelled. -/
def ackRx (s : QueueConsumer) : Bool :=
  match s.phase with
  | .stopped | .aborted => false
  | _ => true

/-- The receiving end reports the channel closed: it is empty and every sender is gone. -/
def ChannelClosed (s : QueueConsumer) : Prop :=
  s.channel = [] ∧ s.ackTx = false ∧ s.live.all (fun entry => !entry.2.tx) = true

/-- The receiver observes `None`. -/
def QueueEnded (s : QueueConsumer) : Prop :=
  s.closed = true ∧ s.queue = [] ∧ s.permits = 0

instance (s : QueueConsumer) : Decidable s.ChannelClosed := by
  unfold ChannelClosed
  infer_instance

instance (s : QueueConsumer) : Decidable s.QueueEnded := by
  unfold QueueEnded
  infer_instance

/-! ## The senders and the output -/

/-- A send lands in the queue. -/
def enqueue (position : Position) (s : QueueConsumer) : QueueConsumer :=
  { s with
    permits := s.permits - 1
    queue := s.queue ++ [(s.nextId, s.backend.ackPosition position)]
    nextId := s.nextId + 1 }

/-- What a handle sends arrives in the channel, or is refused when the receiver is gone. -/
def deliver (messages : List (ℕ × AckResolution)) (s : QueueConsumer) : QueueConsumer :=
  let s := { s with sent := s.sent ++ messages }
  if s.ackRx then { s with channel := s.channel ++ messages }
  else { s with lost := s.lost ++ messages }

/-- A handle is resolved or dropped. -/
def finish (id : ℕ) (how : HandleEnd) (s : QueueConsumer) : Option QueueConsumer :=
  (s.live.find? (·.1 == id)).map fun entry =>
    deliver ((entry.2.finish how).map (Prod.mk id))
      { s with live := s.live.eraseP (·.1 == id) }

/-- A handle may be dropped without a disposition. -/
def markAbortDrop (id : ℕ) (s : QueueConsumer) : QueueConsumer :=
  { s with live := s.live.map fun entry =>
      if entry.1 == id then (entry.1, entry.2.allowAbortDrop) else entry }

/-- The call of the output that the consumer awaits returns, `Ok` or `Err`. -/
def returned (s : QueueConsumer) : Option QueueConsumer :=
  match s.phase with
  | .handing true =>
      some { s with phase := if s.batch = [] then .select else .handing false }
  | .draining true => some { s with phase := .draining false }
  | .shuttingDown => some { s with phase := .finalDrain, ackTx := false }
  | _ => none

/-! ## The consumer -/

/-- The shutdown arm of the loop. -/
def takeShutdown (s : QueueConsumer) : Option QueueConsumer :=
  if s.phase = .select ∧ s.shutdown = true ∧ (s.accepting = true ∨ s.wedged = true) then
    if s.wedged then some { s with phase := .shuttingDown }
    else
      match s.backend with
      | .memory => some { s with closed := true, phase := .draining false }
      | .disk => some { s with phase := .shuttingDown }
  else none

/-- A batch of acks moves from the channel to the consumer. -/
def takeAcks (n : ℕ) (phase : Phase) (s : QueueConsumer) : Option QueueConsumer :=
  if n ≤ ackRecvBatchMax ∧ n ≤ s.channel.length then
    some { s with ackBatch := s.channel.take n, channel := s.channel.drop n, phase := phase }
  else none

/-- `ack_rx.recv_many`, in the loop and in the drain after it. -/
def receiveAcks (n : ℕ) (s : QueueConsumer) : Option QueueConsumer :=
  match s.phase with
  | .select =>
      if n = 0 then
        -- "ack channel closed while consumer was active"
        if s.ChannelClosed then some { s with phase := .shuttingDown } else none
      else takeAcks n .acking s
  | .finalDrain =>
      if n = 0 then
        if s.ChannelClosed then some { s with phase := .stopped } else none
      else takeAcks n .finalAcking s
  | _ => none

/-- What both passes do with a resolution before the cursor is looked at. -/
def settle (id : ℕ) (resolution : AckResolution) (s : QueueConsumer) : QueueConsumer :=
  let metrics := handleAckDisposition resolution.disposition s.metrics
  let wedge := recordWedgeTransitionIfFirst resolution s.wedged metrics
  { s with
    metrics := wedge.2
    wedged := wedge.1
    inFlight := s.inFlight - 1
    received := s.received ++ [(id, resolution)] }

/-- The queue takes an ack. -/
def ackTo (id : ℕ) (position : AckPosition) (s : QueueConsumer) : QueueConsumer :=
  { s with acked := s.acked ++ [(id, position)] }

/-- One resolution in the ack arm of the loop. -/
def steadyAck (id : ℕ) (resolution : AckResolution) (rest : List (ℕ × AckResolution))
    (s : QueueConsumer) : QueueConsumer :=
  let wasWedged := s.wedged
  let s := { settle id resolution s with ackBatch := rest }
  let s :=
    if !wasWedged && s.wedged then { s with accepting := false }
    else ackTo id resolution.position s
  if s.accepting = false ∧ s.inFlight = 0 then
    -- `break 'consumer` drops what is left of the batch
    { s with phase := .shuttingDown, ackBatch := [] }
  else { s with phase := if rest = [] then .select else .acking }

/-- One resolution in the drain after the loop. -/
def drainAck (id : ℕ) (resolution : AckResolution) (rest : List (ℕ × AckResolution))
    (s : QueueConsumer) : QueueConsumer :=
  let s := { settle id resolution s with ackBatch := rest }
  let s := if resolution.isDroppedOnDisk then s else ackTo id resolution.position s
  { s with phase := if rest = [] then .finalDrain else .finalAcking }

/-- The consumer takes the next ack of its batch. -/
def ack (s : QueueConsumer) : Option QueueConsumer :=
  match s.phase, s.ackBatch with
  | .acking, (id, resolution) :: rest => some (steadyAck id resolution rest s)
  | .finalAcking, (id, resolution) :: rest => some (drainAck id resolution rest s)
  | _, _ => none

/-- `receiver.recv_many`. -/
def receiveMany (n : ℕ) (s : QueueConsumer) : Option QueueConsumer :=
  if s.phase = .select ∧ s.accepting = true then
    if n = 0 then
      if s.QueueEnded then
        some { s with
          accepting := false
          phase := if s.inFlight = 0 then .shuttingDown else .select }
      else none
    else if n ≤ recvBatchMax ∧ n ≤ s.queue.length then
      some { s with
        batch := s.queue.take n, queue := s.queue.drop n, phase := .handing false }
    else none
  else none

/-- A handle is made for the event, which goes to the output. -/
def hand (entry : ℕ × AckPosition) (s : QueueConsumer) : QueueConsumer :=
  { s with
    live := s.live ++ [(entry.1, QueueAckHandle.new entry.2)]
    inFlight := s.inFlight + 1
    handedOut := s.handedOut ++ [entry] }

/-- `writer.consume` on the next event of the batch. -/
def handOut (s : QueueConsumer) : Option QueueConsumer :=
  match s.phase, s.batch with
  | .handing false, entry :: rest =>
      some { hand entry s with batch := rest, phase := .handing true }
  | _, _ => none

/-- `receiver.recv` in the drain of a memory queue, and `writer.consume_shutdown` on its event. -/
def drain (s : QueueConsumer) : Option QueueConsumer :=
  match s.phase, s.queue with
  | .draining false, entry :: rest =>
      some { hand entry s with queue := rest, phase := .draining true }
  | .draining false, [] =>
      if s.QueueEnded then some { s with phase := .shuttingDown } else none
  | _, _ => none

/-- The task is cancelled.  It is suspended then, and neither ack pass has an await point. -/
def abort (s : QueueConsumer) : Option QueueConsumer :=
  match s.phase with
  | .acking | .finalAcking | .stopped | .aborted => none
  | _ => some { s with phase := .aborted, ackTx := false }

/-- The step of a move, `none` when it cannot be taken. -/
def step (s : QueueConsumer) : ConsumerMove → Option QueueConsumer
  | .reserve => if s.closed then none else some { s with permits := s.permits + 1 }
  | .send position => if s.permits = 0 then none else some (enqueue position s)
  | .closeQueue => if s.permits = 0 then some { s with closed := true } else none
  | .signalShutdown => some { s with shutdown := true }
  | .finish id how => finish id how s
  | .allowAbortDrop id => some (markAbortDrop id s)
  | .returned => returned s
  | .takeShutdown => takeShutdown s
  | .receiveAcks n => receiveAcks n s
  | .ack => ack s
  | .receiveMany n => receiveMany n s
  | .handOut => handOut s
  | .drain => drain s
  | .abort => abort s

/-- A consumer that has just been started. -/
def start (backend : QueueBackendKind) (metrics : OutputMetrics) : QueueConsumer where
  backend := backend
  queue := []
  nextId := 0
  permits := 0
  closed := false
  shutdown := false
  phase := .select
  accepting := true
  wedged := false
  inFlight := 0
  batch := []
  ackBatch := []
  ackTx := true
  channel := []
  metrics := metrics
  acked := []
  live := []
  handedOut := []
  sent := []
  received := []
  lost := []

end QueueConsumer

end Limpid.Queue
