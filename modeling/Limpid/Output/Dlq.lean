import Limpid.Queue.Ack
import Limpid.Pipeline.Worker

/-!
# Routing to the error log

What an output does with an event it cannot deliver (`modules/mod.rs`).  A record goes to the
error log, if there is one, and the handle is resolved by what came of it: a write that failed on
a disk queue is `Dropped`, so that the cursor holds; everything else is `Recovered`, since there
is nothing to replay from.  `events_failed` is counted where the disposition is decided: here for
`Recovered`, and by the consumer when a `Dropped` reaches it.

* `Settles` says what routing a list of events comes to: each handle resolves once, at its own
  position, and the counters move with the dispositions.
* `Settles.trans` and `settles_foldl` put it together from one event at a time.
-/

namespace Limpid.Output

open Queue (AckPosition AckResolution OutputMetrics QueueAckHandle)
open Pipeline (ErroredEventContext OutputEvent Recorded)
open Disk (AckDisposition)

/-- An event in an output, with its handle.  The number is its place among the events handed
in. -/
structure ParkedEvent where
  id : ℕ
  event : OwnedEvent
  ack : QueueAckHandle

/-- What settling events leaves behind: the metrics, the error log, and what the handles have sent
with what of it is still in the ack channel. -/
structure Ledger where
  metrics : OutputMetrics
  recorded : List Recorded
  resolved : List (ℕ × AckResolution)
  channel : List (ℕ × AckResolution)

/-- The error log, if there is one: whether it takes a record after those it has been handed. -/
abbrev ErrorLog := Option (List Recorded → ErroredEventContext → Bool)

/-- `DlqRouteOutcome`. -/
inductive DlqRouteOutcome where
  | recovered
  | dropped
deriving DecidableEq, Repr

namespace Ledger

/-- A failed event is counted. -/
def countFailed (ledger : Ledger) : Ledger :=
  { ledger with
    metrics := { ledger.metrics with eventsFailed := ledger.metrics.eventsFailed + 1 } }

/-- What a handle sends. -/
def send (id : ℕ) (resolutions : List AckResolution) (ledger : Ledger) : Ledger :=
  { ledger with
    resolved := ledger.resolved ++ resolutions.map (Prod.mk id)
    channel := ledger.channel ++ resolutions.map (Prod.mk id) }

end Ledger

section Routing

variable (outputName : String) (errorLog : ErrorLog)

/-- A record for the error log, and what came of it. -/
def writeRecord (site reason : String) (event : OwnedEvent) (ledger : Ledger) :
    Ledger × DlqRouteOutcome :=
  match errorLog with
  | some takes =>
      let record := .output "" site reason outputName (OutputEvent.fromOwned event)
      let written := takes ledger.recorded record
      let ledger := { ledger with recorded := ledger.recorded ++ [⟨record, written⟩] }
      if written then (ledger, .recovered)
      else
        ({ ledger with
            metrics := { ledger.metrics with
              eventsErroredUnwritable := ledger.metrics.eventsErroredUnwritable + 1 } },
          .dropped)
  | none => (ledger, .recovered)

/-- `resolve_ack_from_dlq_outcome`. -/
def resolveAckFromDlqOutcome (parked : ParkedEvent) (outcome : DlqRouteOutcome)
    (ledger : Ledger) : Ledger :=
  match outcome, parked.ack.position with
  | .recovered, _ | .dropped, .memory =>
      ledger.countFailed.send parked.id parked.ack.resolveRecovered
  | .dropped, .disk _ => ledger.send parked.id parked.ack.resolveDropped

/-- `route_event_to_dlq`. -/
def routeEventToDlq (reason : String) (event : OwnedEvent) (ledger : Ledger) :
    Ledger × DlqRouteOutcome :=
  writeRecord outputName errorLog outputName reason event ledger

/-- `route_event_to_dlq` and then `resolve_ack_from_dlq_outcome`, for each event. -/
def routeEvents (reason : String) (events : List ParkedEvent) (ledger : Ledger) : Ledger :=
  events.foldl (fun ledger parked =>
    let (ledger, outcome) := routeEventToDlq outputName errorLog reason parked.event ledger
    resolveAckFromDlqOutcome parked outcome ledger) ledger

/-- `route_shutdown_batch_to_dlq`. -/
def routeShutdownBatchToDlq (flushErr : String) (events : List ParkedEvent) (ledger : Ledger) :
    Ledger :=
  events.foldl (fun ledger parked =>
    let (ledger, outcome) := writeRecord outputName errorLog s!"{outputName} shutdown"
      s!"shutdown flush failed: {flushErr}" parked.event ledger
    resolveAckFromDlqOutcome parked outcome ledger) ledger

/-- As `routeShutdownBatchToDlq`, but `Dropped` whatever came of the record. -/
def routeShutdownBatchAmbiguousToDlq (flushErr : String) (events : List ParkedEvent)
    (ledger : Ledger) : Ledger :=
  events.foldl (fun ledger parked =>
    let (ledger, _) := writeRecord outputName errorLog s!"{outputName} shutdown"
      s!"shutdown flush failed after send-boundary (ambiguous wire state): {flushErr}"
      parked.event ledger
    resolveAckFromDlqOutcome parked .dropped ledger) ledger

end Routing

/-! ## What settling comes to -/

/-- The handle of each event of `events` has resolved once, at its position, in a way that
`allowed` permits, and the counters have moved with the dispositions. -/
structure Settles (allowed : AckResolution → Prop) (events : List ParkedEvent)
    (before after : Ledger) : Prop where
  sent : ∃ new : List (ℕ × AckResolution),
    after.resolved = before.resolved ++ new ∧ after.channel = before.channel ++ new ∧
    (new.map fun entry => (entry.1, entry.2.position)).Perm
      (events.map fun parked => (parked.id, parked.ack.position)) ∧
    (∀ entry ∈ new, allowed entry.2) ∧
    after.metrics.eventsWritten = before.metrics.eventsWritten +
      new.countP (fun entry => entry.2.disposition = .delivered) ∧
    after.metrics.eventsFailed = before.metrics.eventsFailed +
      new.countP (fun entry => entry.2.disposition = .recovered)

section Settles

variable {allowed : AckResolution → Prop} {events more : List ParkedEvent}
  {before between after : Ledger}

theorem Settles.refl (ledger : Ledger) : Settles allowed [] ledger ledger :=
  ⟨[], by simp⟩

theorem Settles.trans (h₁ : Settles allowed events before between)
    (h₂ : Settles allowed more between after) : Settles allowed (events ++ more) before after := by
  obtain ⟨new₁, hresolved₁, hchannel₁, hperm₁, hallowed₁, hwritten₁, hfailed₁⟩ := h₁.sent
  obtain ⟨new₂, hresolved₂, hchannel₂, hperm₂, hallowed₂, hwritten₂, hfailed₂⟩ := h₂.sent
  refine ⟨new₁ ++ new₂, ?_, ?_, ?_, ?_, ?_, ?_⟩
  · rw [hresolved₂, hresolved₁, List.append_assoc]
  · rw [hchannel₂, hchannel₁, List.append_assoc]
  · rw [List.map_append, List.map_append]
    exact hperm₁.append hperm₂
  · intro entry hentry
    exact (List.mem_append.mp hentry).elim (hallowed₁ entry) (hallowed₂ entry)
  · rw [hwritten₂, hwritten₁, List.countP_append, Nat.add_assoc]
  · rw [hfailed₂, hfailed₁, List.countP_append, Nat.add_assoc]

theorem Settles.mono {allowed' : AckResolution → Prop} (h : Settles allowed events before after)
    (himp : ∀ resolution, allowed resolution → allowed' resolution) :
    Settles allowed' events before after := by
  obtain ⟨new, hresolved, hchannel, hperm, hallowed, hcounts⟩ := h.sent
  exact ⟨new, hresolved, hchannel, hperm, fun entry hentry => himp _ (hallowed entry hentry),
    hcounts⟩

theorem Settles.perm (h : Settles allowed events before after) (hperm : events.Perm more) :
    Settles allowed more before after := by
  obtain ⟨new, hresolved, hchannel, hperm', hrest⟩ := h.sent
  exact ⟨new, hresolved, hchannel, hperm'.trans (hperm.map _), hrest⟩

/-- A loop over items settles their events when its body settles each one. -/
theorem settles_foldl {Item : Type*} {body : Ledger → Item → Ledger} (parked : Item → ParkedEvent)
    {items : List Item}
    (hbody : ∀ item ∈ items, ∀ ledger, Settles allowed [parked item] ledger (body ledger item))
    (ledger : Ledger) : Settles allowed (items.map parked) ledger (items.foldl body ledger) := by
  induction items generalizing ledger with
  | nil => exact .refl ledger
  | cons item rest ih =>
      exact (hbody item (List.mem_cons_self ..) ledger).trans
        (ih (fun item hitem => hbody item (List.mem_cons_of_mem _ hitem)) _)

/-- What only the error log has seen changes nothing here. -/
theorem Settles.of_eq (hresolved : between.resolved = before.resolved)
    (hchannel : between.channel = before.channel)
    (hwritten : between.metrics.eventsWritten = before.metrics.eventsWritten)
    (hfailed : between.metrics.eventsFailed = before.metrics.eventsFailed) :
    Settles allowed [] before between :=
  ⟨[], by simp [hresolved, hchannel, hwritten, hfailed]⟩

/-- The resolution of an event that was settled. -/
theorem exists_of_settles (hs : Settles allowed events before after) {parked : ParkedEvent}
    (hparked : parked ∈ events) : ∃ resolution, (parked.id, resolution) ∈ after.resolved ∧
      allowed resolution := by
  obtain ⟨new, hresolved, -, hperm, hallowed, -⟩ := hs.sent
  have hmem := hperm.mem_iff.mpr
    (List.mem_map_of_mem (f := fun parked : ParkedEvent => (parked.id, parked.ack.position))
    hparked)
  obtain ⟨entry, hentry, heq⟩ := List.mem_map.mp hmem
  obtain ⟨id, resolution⟩ := entry
  refine ⟨resolution, ?_, hallowed _ hentry⟩
  rw [← (Prod.mk.inj heq).1, hresolved]
  exact List.mem_append_right _ hentry

end Settles

section Routing

variable {outputName : String} {errorLog : ErrorLog} {parked : ParkedEvent}
  {events : List ParkedEvent}

theorem writeRecord_settles {allowed : AckResolution → Prop} (site reason : String)
    (event : OwnedEvent) (ledger : Ledger) :
    Settles allowed [] ledger (writeRecord outputName errorLog site reason event ledger).1 := by
  unfold writeRecord
  split
  · dsimp only
    split <;> exact .of_eq rfl rfl rfl rfl
  · exact .refl ledger

/-- An event that was not delivered. -/
def NotDelivered (resolution : AckResolution) : Prop :=
  resolution.disposition ≠ .delivered

/-- The cursor is held where there is one: `Dropped` on a disk queue, `Recovered` in memory. -/
def HoldsCursor (resolution : AckResolution) : Prop :=
  resolution.disposition = if resolution.position = .memory then .recovered else .dropped

theorem settles_recovered {allowed : AckResolution → Prop} (htx : parked.ack.tx = true)
    (hallowed : allowed ⟨parked.ack.position, .recovered⟩) (ledger : Ledger) :
    Settles allowed [parked] ledger
      (ledger.countFailed.send parked.id parked.ack.resolveRecovered) := by
  refine ⟨[(parked.id, ⟨parked.ack.position, .recovered⟩)], ?_⟩
  rw [QueueAckHandle.resolveRecovered, QueueAckHandle.resolve_eq htx]
  simp [Ledger.send, Ledger.countFailed, hallowed]

theorem settles_dropped {allowed : AckResolution → Prop} (htx : parked.ack.tx = true)
    (hallowed : allowed ⟨parked.ack.position, .dropped⟩) (ledger : Ledger) :
    Settles allowed [parked] ledger (ledger.send parked.id parked.ack.resolveDropped) := by
  refine ⟨[(parked.id, ⟨parked.ack.position, .dropped⟩)], ?_⟩
  rw [QueueAckHandle.resolveDropped, QueueAckHandle.resolve_eq htx]
  simp [Ledger.send, hallowed]

theorem resolveAck_settles (htx : parked.ack.tx = true) (outcome : DlqRouteOutcome)
    (ledger : Ledger) :
    Settles NotDelivered [parked] ledger (resolveAckFromDlqOutcome parked outcome ledger) := by
  unfold resolveAckFromDlqOutcome
  split
  · exact settles_recovered htx (by simp [NotDelivered]) ledger
  · exact settles_recovered htx (by simp [NotDelivered]) ledger
  · exact settles_dropped htx (by simp [NotDelivered]) ledger

theorem resolveAck_dropped_settles (htx : parked.ack.tx = true) (ledger : Ledger) :
    Settles HoldsCursor [parked] ledger (resolveAckFromDlqOutcome parked .dropped ledger) := by
  unfold resolveAckFromDlqOutcome
  cases hposition : parked.ack.position with
  | memory => exact settles_recovered htx (by simp [HoldsCursor, hposition]) ledger
  | disk position => exact settles_dropped htx (by simp [HoldsCursor, hposition]) ledger

variable (outputName errorLog)

/-- A record and the disposition that follows from it. -/
theorem routeOne_settles (site reason : String) (htx : parked.ack.tx = true) (ledger : Ledger) :
    Settles NotDelivered [parked] ledger
      (resolveAckFromDlqOutcome parked
        (writeRecord outputName errorLog site reason parked.event ledger).2
        (writeRecord outputName errorLog site reason parked.event ledger).1) :=
  (writeRecord_settles site reason parked.event ledger).trans (resolveAck_settles htx _ _)

theorem routeEvents_settles (reason : String) (htx : ∀ parked ∈ events, parked.ack.tx = true)
    (ledger : Ledger) :
    Settles NotDelivered events ledger (routeEvents outputName errorLog reason events ledger) := by
  have h := settles_foldl id (fun parked hparked ledger =>
    routeOne_settles outputName errorLog outputName reason (htx parked hparked) ledger) ledger
  rwa [List.map_id] at h

theorem routeShutdownBatch_settles (flushErr : String)
    (htx : ∀ parked ∈ events, parked.ack.tx = true) (ledger : Ledger) :
    Settles NotDelivered events ledger
      (routeShutdownBatchToDlq outputName errorLog flushErr events ledger) := by
  have h := settles_foldl id (fun parked hparked ledger =>
    routeOne_settles outputName errorLog s!"{outputName} shutdown"
      s!"shutdown flush failed: {flushErr}" (htx parked hparked) ledger) ledger
  rwa [List.map_id] at h

theorem routeShutdownBatchAmbiguous_settles (flushErr : String)
    (htx : ∀ parked ∈ events, parked.ack.tx = true) (ledger : Ledger) :
    Settles HoldsCursor events ledger
      (routeShutdownBatchAmbiguousToDlq outputName errorLog flushErr events ledger) := by
  have h := settles_foldl id (fun parked hparked ledger =>
    (@writeRecord_settles outputName errorLog HoldsCursor
      s!"{outputName} shutdown"
      s!"shutdown flush failed after send-boundary (ambiguous wire state): {flushErr}"
      parked.event ledger).trans (resolveAck_dropped_settles (htx parked hparked) _)) ledger
  rwa [List.map_id] at h

end Routing

end Limpid.Output
