import Limpid.Output.Dlq

/-!
# The batched sink

`BatchedSink` is the buffer and the flusher actor that the batched outputs share.  The consumer
parks events in the buffer; the actor takes the whole buffer when it wakes and flushes it in
batches, each with its own retries; `shutdown` and `shutdown_wedged` signal the actor, join it and
settle what is left.

The actor wakes at any time: its timer is one of the triggers.  The permits of `consume` only delay
it and are left out, and so is the wait between two attempts.
-/

namespace Limpid.Output

open Queue (AckPosition AckResolution OutputMetrics QueueAckHandle handleAckDisposition)

/-- What the transports differ in, the send itself apart. -/
structure BatchSinkPolicy (Payload Prepared : Type*) where
  render : OwnedEvent → Except String Payload
  prepare : List Payload → Except String Prepared

/-- The part of `SinkShared` that stays as it is. -/
structure SinkShared (Payload Prepared : Type*) where
  policy : BatchSinkPolicy Payload Prepared
  name : String
  errorLog : ErrorLog
  batchSize : ℕ
  maxAttempts : ℕ

/-- Where the flusher actor is. -/
inductive Actor (Prepared : Type*) where
  /-- At its `select!`. -/
  | idle
  /-- Woken, and not shutting down when it looked. -/
  | awake
  | flushing (batches : List (List ParkedEvent))
  /-- In the retry loop of `flush_events`, with the batches that come after. -/
  | sending (shippable : List ParkedEvent) (prepared : Prepared) (attempt : ℕ)
      (batches : List (List ParkedEvent))
  | exited

/-- Where the caller is. -/
inductive Stage where
  | running
  /-- In `shutdown`, or `shutdown_wedged`, joining the actor. -/
  | joining (wedged : Bool)
  | draining (batches : List (List ParkedEvent))
  | done

/-- One call of `policy.send`: what it sends, and for which events. -/
structure Send (Prepared : Type*) where
  ids : List ℕ
  prepared : Prepared

/-- `BatchedSink` with the actor behind it. -/
structure BatchedSink (Prepared : Type*) where
  batch : List ParkedEvent
  actor : Actor Prepared
  isShuttingDown : Bool
  stage : Stage
  ledger : Ledger
  /-- The events handed in. -/
  arrivals : List (OwnedEvent × AckPosition)
  sends : List (Send Prepared)
  /-- The events of a send that was given up while it ran. -/
  ambiguous : List ℕ
  /-- The resolutions that the queue consumer has worked off. -/
  received : List (ℕ × AckResolution)

/-- How a call of `policy.send` ends.  It is given up when the shutdown is signalled, or when the
deadline of the shutdown has elapsed. -/
inductive SendResult where
  | ok (rejected : ℕ)
  | err (message : String)
  | givenUp

/-- A move of the sink or of its actor. -/
inductive SinkMove where
  | consume (event : OwnedEvent) (position : AckPosition)
  | consumeShutdown (event : OwnedEvent) (position : AckPosition)
  /-- The actor. -/
  | wake
  | take
  | flush
  | send (result : SendResult)
  | exit
  /-- `shutdown` or `shutdown_wedged`; a batch whose turn comes after the deadline is not sent. -/
  | signal (wedged : Bool)
  | join
  | drain (result : Option SendResult)
  /-- The ack arm of the queue consumer. -/
  | receiveAck

/-- The batches `hard_capped_batches` yields in `fuel` rounds. -/
def batchesOf (size : ℕ) : ℕ → List ParkedEvent → List (List ParkedEvent)
  | 0, _ => []
  | _ + 1, [] => []
  | fuel + 1, event :: events =>
      (event :: events).take size :: batchesOf size fuel ((event :: events).drop size)

/-- A batch has an event, so there are no more of them than events. -/
def hardCappedBatches (events : List ParkedEvent) (batchSize : ℕ) : List (List ParkedEvent) :=
  batchesOf (max batchSize 1) events.length events

section Sink

variable {Payload Prepared : Type*} (shared : SinkShared Payload Prepared)

/-- The loop of `render_batch`: payloads, what is shippable, and the failures. -/
def renderEach : List ParkedEvent →
    List Payload × List ParkedEvent × List (ParkedEvent × String)
  | [] => ([], [], [])
  | parked :: rest =>
      let (payloads, shippable, failures) := renderEach rest
      match shared.policy.render parked.event with
      | .ok payload => (payload :: payloads, parked :: shippable, failures)
      | .error err => (payloads, shippable, (parked, err) :: failures)

/-- The events that do not render go to the dead letters. -/
def routeRenderFailures (site : String) (failures : List (ParkedEvent × String))
    (ledger : Ledger) : Ledger :=
  failures.foldl (fun ledger (parked, err) =>
    let (ledger, outcome) := routeEventToDlq shared.name shared.errorLog
      s!"render failed during {site}: {err}" parked.event ledger
    resolveAckFromDlqOutcome parked outcome ledger) ledger

/-- The payloads of a batch, without the events that do not render. -/
def renderBatch (site : String) (batch : List ParkedEvent) (ledger : Ledger) :
    List Payload × List ParkedEvent × Ledger :=
  let (payloads, shippable, failures) := renderEach shared batch
  (payloads, shippable, routeRenderFailures shared site failures ledger)

/-- The events that were accepted come first: the receiver does not say which it refused. -/
def resolveSendSuccess (shippable : List ParkedEvent) (rejected : ℕ) (ledger : Ledger) : Ledger :=
  let count := shippable.length
  let rejected := min rejected count
  let written := count - rejected
  let ledger := { ledger with
    metrics := { ledger.metrics with eventsWritten := ledger.metrics.eventsWritten + written } }
  let ledger := (shippable.take written).foldl (fun ledger parked =>
    ledger.send parked.id parked.ack.resolveDelivered) ledger
  routeEvents shared.name shared.errorLog "collector reported partial_success rejection"
    (shippable.drop written) ledger

namespace Ledger

/-- The gauge of events in retry. -/
def setInRetry (value : ℕ) (ledger : Ledger) : Ledger :=
  { ledger with metrics := { ledger.metrics with inRetry := value } }

/-- A retry is counted. -/
def countRetry (ledger : Ledger) : Ledger :=
  { ledger with metrics := { ledger.metrics with retries := ledger.metrics.retries + 1 } }

end Ledger

namespace BatchedSink

/-- The event and its handle go to the end of the buffer. -/
def park (event : OwnedEvent) (position : AckPosition) (s : BatchedSink Prepared) :
    BatchedSink Prepared :=
  { s with
    batch := s.batch ++ [⟨s.arrivals.length, event, QueueAckHandle.new position⟩]
    arrivals := s.arrivals ++ [(event, position)] }

/-- `flush_events` up to its retry loop. -/
def flushEvents (batch : List ParkedEvent) (batches : List (List ParkedEvent))
    (s : BatchedSink Prepared) : BatchedSink Prepared :=
  let (payloads, shippable, ledger) := renderBatch shared "batch flush" batch s.ledger
  if payloads.isEmpty then { s with ledger := ledger, actor := .flushing batches }
  else
    match shared.policy.prepare payloads with
    | .error e =>
        { s with
          ledger := routeEvents shared.name shared.errorLog s!"flush failed: {e}" shippable ledger
          actor := .flushing batches }
    | .ok prepared => { s with ledger := ledger, actor := .sending shippable prepared 0 batches }

/-- A call of `policy.send` is made. -/
def sending (shippable : List ParkedEvent) (prepared : Prepared) (s : BatchedSink Prepared) :
    BatchedSink Prepared :=
  { s with sends := s.sends ++ [⟨shippable.map ParkedEvent.id, prepared⟩] }

/-- The retry loop is left with an error of the transport. -/
def giveUp (attempt : ℕ) (finalErr : String) (shippable : List ParkedEvent)
    (batches : List (List ParkedEvent)) (s : BatchedSink Prepared) : BatchedSink Prepared :=
  { s with
    ledger := routeEvents shared.name shared.errorLog
      s!"flush failed after {attempt} attempts: {finalErr}" shippable (s.ledger.setInRetry 0)
    actor := .flushing batches }

/-- One attempt in the retry loop of `flush_events`. -/
def attemptSend (result : SendResult) (shippable : List ParkedEvent) (prepared : Prepared)
    (attempt : ℕ) (batches : List (List ParkedEvent)) (s : BatchedSink Prepared) :
    Option (BatchedSink Prepared) :=
  let s := sending shippable prepared s
  match result with
  | .ok rejected =>
      some { s with
        ledger := resolveSendSuccess shared shippable rejected (s.ledger.setInRetry 0)
        actor := .flushing batches }
  | .err message =>
      let attempt := attempt + 1
      let s := { s with ledger := s.ledger.countRetry }
      if shared.maxAttempts ≤ attempt then some (giveUp shared attempt message shippable batches s)
      else
        let s := { s with ledger := s.ledger.setInRetry 1 }
        if s.isShuttingDown then some (giveUp shared attempt message shippable batches s)
        else some { s with actor := .sending shippable prepared attempt batches }
  | .givenUp =>
      if s.isShuttingDown then
        some { s with
          ledger := routeShutdownBatchAmbiguousToDlq shared.name shared.errorLog
            "shutdown cancelled in-flight send (collapsed retry budget)" shippable
            (s.ledger.setInRetry 0)
          ambiguous := s.ambiguous ++ shippable.map ParkedEvent.id
          actor := .flushing batches }
      else none

/-- `flush_events_at_shutdown`, the stage apart.  Without a result the deadline has passed before
the attempt. -/
def flushEventsAtShutdown (result : Option SendResult) (batch : List ParkedEvent)
    (s : BatchedSink Prepared) : BatchedSink Prepared :=
  let (payloads, shippable, ledger) := renderBatch shared "shutdown flush" batch s.ledger
  if payloads.isEmpty then { s with ledger := ledger }
  else
    match shared.policy.prepare payloads with
    | .error e =>
        { s with
          ledger := routeShutdownBatchToDlq shared.name shared.errorLog s!"transport error: {e}"
            shippable ledger }
    | .ok prepared =>
        match result with
        | none =>
            { s with
              ledger := routeShutdownBatchToDlq shared.name shared.errorLog
                "shutdown flush deadline exhausted before send attempt" shippable ledger }
        | some (.ok rejected) =>
            { sending shippable prepared s with
              ledger := resolveSendSuccess shared shippable rejected ledger }
        | some (.err message) =>
            { sending shippable prepared s with
              ledger := routeShutdownBatchToDlq shared.name shared.errorLog
                s!"transport error: {message}" shippable ledger }
        | some .givenUp =>
            { sending shippable prepared s with
              ledger := routeShutdownBatchAmbiguousToDlq shared.name shared.errorLog
                "deadline exceeded after 3s during shutdown flush" shippable ledger
              ambiguous := s.ambiguous ++ shippable.map ParkedEvent.id }

/-- The actor is joined, and what is left in the buffer is drained, or settled when wedged. -/
def joined (wedged : Bool) (s : BatchedSink Prepared) : BatchedSink Prepared :=
  if wedged then
    { s with
      batch := []
      ledger := routeShutdownBatchAmbiguousToDlq shared.name shared.errorLog
        (s!"output '{shared.name}' wedged: skipping shutdown flush; parked buffer resolved via " ++
          "ambiguous DLQ (no send attempted)") s.batch s.ledger
      stage := .done }
  else { s with batch := [], stage := .draining (hardCappedBatches s.batch shared.batchSize) }

/-- The queue consumer works off the first resolution in the channel. -/
def receiveAck (s : BatchedSink Prepared) : Option (BatchedSink Prepared) :=
  match s.ledger.channel with
  | [] => none
  | (id, resolution) :: rest =>
      some { s with
        ledger := { s.ledger with
          channel := rest
          metrics := handleAckDisposition resolution.disposition s.ledger.metrics }
        received := s.received ++ [(id, resolution)] }

/-- The step of a move, `none` when it cannot be taken. -/
def step (s : BatchedSink Prepared) : SinkMove → Option (BatchedSink Prepared)
  | .consume event position | .consumeShutdown event position =>
      match s.stage with
      | .running => some (park event position s)
      | _ => none
  | .wake =>
      match s.actor with
      | .idle => if s.isShuttingDown then none else some { s with actor := .awake }
      | _ => none
  | .take =>
      match s.actor with
      | .awake =>
          some { s with
            batch := []
            actor := .flushing (hardCappedBatches s.batch shared.batchSize) }
      | _ => none
  | .flush =>
      match s.actor with
      | .flushing [] => some { s with actor := .idle }
      | .flushing (batch :: batches) => some (flushEvents shared batch batches s)
      | _ => none
  | .send result =>
      match s.actor with
      | .sending shippable prepared attempt batches =>
          attemptSend shared result shippable prepared attempt batches s
      | _ => none
  | .exit =>
      match s.actor with
      | .idle => if s.isShuttingDown then some { s with actor := .exited } else none
      | _ => none
  | .signal wedged =>
      match s.stage with
      | .running => some { s with isShuttingDown := true, stage := .joining wedged }
      | _ => none
  | .join =>
      match s.stage, s.actor with
      | .joining wedged, .exited => some (joined shared wedged s)
      | _, _ => none
  | .drain result =>
      match s.stage with
      | .draining [] => some { s with stage := .done }
      | .draining (batch :: batches) =>
          some { flushEventsAtShutdown shared result batch s with stage := .draining batches }
      | _ => none
  | .receiveAck => receiveAck s

/-- A sink that has just been made, its actor spawned. -/
def start : BatchedSink Prepared where
  batch := []
  actor := .idle
  isShuttingDown := false
  stage := .running
  ledger := ⟨.zero, [], [], []⟩
  arrivals := []
  sends := []
  ambiguous := []
  received := []

end BatchedSink

end Sink

end Limpid.Output
