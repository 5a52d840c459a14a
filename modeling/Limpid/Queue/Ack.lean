import Limpid.Disk.Consumer

/-!
# Ack handles

An output gets a `QueueAckHandle` with each event and settles the event through it.  The handle
is not `Clone` and the `resolve_*` methods take it by value, so it ends once: in one of them, or
by being dropped.  Each way to end runs `Drop` last, and the one-shot guarantee rests on the
sender being taken: a method that has sent leaves nothing for `Drop` to send.

The `debug_assert!` in `Drop` is compiled out of a release build, which is the one modelled.

* `QueueAckHandle.finish_eq` says what a handle that still has its sender sends, whichever way
  it ends: one resolution, at its own position.
-/

namespace Limpid.Queue

open Disk (Position AckDisposition)

/-- Where an event was in its queue. -/
inductive AckPosition where
  | memory
  | disk (position : Position)
deriving DecidableEq, Repr

/-- What the ack channel carries. -/
structure AckResolution where
  position : AckPosition
  disposition : AckDisposition
deriving DecidableEq, Repr

/-- The metrics of an output that sending and settling an event move. -/
structure OutputMetrics where
  eventsWritten : ℕ
  eventsFailed : ℕ
  eventsWedged : ℕ
  eventsErroredUnwritable : ℕ
  retries : ℕ
  inRetry : ℕ
deriving DecidableEq, Repr

/-- Nothing is counted. -/
def OutputMetrics.zero : OutputMetrics := ⟨0, 0, 0, 0, 0, 0⟩

/-- `handle_ack_disposition`: the output itself has counted the other two. -/
def handleAckDisposition (disposition : AckDisposition) (metrics : OutputMetrics) :
    OutputMetrics :=
  match disposition with
  | .delivered | .recovered => metrics
  | .dropped => { metrics with eventsFailed := metrics.eventsFailed + 1 }

/-- A disposition that must hold the cursor of a disk queue. -/
def AckResolution.isDroppedOnDisk (resolution : AckResolution) : Bool :=
  match resolution.disposition, resolution.position with
  | .dropped, .disk _ => true
  | _, _ => false

/-- `record_wedge_transition_if_first`: the flag and the counters afterwards. -/
def recordWedgeTransitionIfFirst (resolution : AckResolution) (wedged : Bool)
    (metrics : OutputMetrics) : Bool × OutputMetrics :=
  if resolution.isDroppedOnDisk && !wedged then
    (true, { metrics with eventsWedged := metrics.eventsWedged + 1 })
  else (wedged, metrics)

/-- `QueueAckHandle`. -/
structure QueueAckHandle where
  /-- Whether the sender is still there to be taken. -/
  tx : Bool
  position : AckPosition
  resolved : Bool
deriving DecidableEq, Repr

/-- How a handle can end. -/
inductive HandleEnd where
  | resolveDelivered
  | resolveRecovered
  | resolveDropped
  | drop
deriving DecidableEq, Repr

/-- The disposition that a way to end sends. -/
def HandleEnd.disposition : HandleEnd → AckDisposition
  | .resolveDelivered => .delivered
  | .resolveRecovered => .recovered
  | .resolveDropped | .drop => .dropped

namespace QueueAckHandle

/-- `QueueAckHandle::new`. -/
def new (position : AckPosition) : QueueAckHandle :=
  ⟨true, position, false⟩

/-- `self.tx.take()` and, where there was a sender, a send on it. -/
def takeAndSend (disposition : AckDisposition) (handle : QueueAckHandle) :
    QueueAckHandle × List AckResolution :=
  if handle.tx then ({ handle with tx := false }, [⟨handle.position, disposition⟩])
  else (handle, [])

/-- The drop of a handle: what is not resolved is sent as dropped. -/
def drop (handle : QueueAckHandle) : List AckResolution :=
  (handle.takeAndSend .dropped).2

/-- The `resolve_*` methods: mark, send, and at the end of the method `Drop`. -/
def resolve (disposition : AckDisposition) (handle : QueueAckHandle) : List AckResolution :=
  let taken := takeAndSend disposition { handle with resolved := true }
  taken.2 ++ taken.1.drop

/-- `resolve_delivered`. -/
def resolveDelivered (handle : QueueAckHandle) : List AckResolution :=
  handle.resolve .delivered

/-- `resolve_recovered`. -/
def resolveRecovered (handle : QueueAckHandle) : List AckResolution :=
  handle.resolve .recovered

/-- `resolve_dropped`. -/
def resolveDropped (handle : QueueAckHandle) : List AckResolution :=
  handle.resolve .dropped

/-- `allow_abort_drop`. -/
def allowAbortDrop (handle : QueueAckHandle) : QueueAckHandle :=
  { handle with resolved := true }

/-- What a handle sends by ending as it does. -/
def finish (how : HandleEnd) (handle : QueueAckHandle) : List AckResolution :=
  match how with
  | .resolveDelivered => handle.resolveDelivered
  | .resolveRecovered => handle.resolveRecovered
  | .resolveDropped => handle.resolveDropped
  | .drop => handle.drop

variable {handle : QueueAckHandle}

theorem resolve_eq (h : handle.tx = true) (disposition : AckDisposition) :
    handle.resolve disposition = [⟨handle.position, disposition⟩] := by
  simp [resolve, takeAndSend, drop, h]

/-- **A handle sends exactly one resolution, however it ends.** -/
theorem finish_eq (h : handle.tx = true) (how : HandleEnd) :
    handle.finish how = [⟨handle.position, how.disposition⟩] := by
  cases how with
  | resolveDelivered => exact resolve_eq h .delivered
  | resolveRecovered => exact resolve_eq h .recovered
  | resolveDropped => exact resolve_eq h .dropped
  | drop => simp [finish, drop, takeAndSend, HandleEnd.disposition, h]

end QueueAckHandle

end Limpid.Queue
