import Limpid.Event
import Limpid.Ltp.Frame

/-!
# LTP hops

What a node adds to an event that passes through it.  The output (`modules/output/ltp.rs`) sends
the stamps of the event with one for its own node, and writes the time of departure into that one.
The input (`modules/input/ltp.rs`) refuses an event that has been here before, has made too many
hops, or whose metadata would become too long, and adds a stamp for its own node to the others.

`metadata` are called `msg`, after the protobuf message.  The peer metrics are left out.
-/

namespace Limpid

open Dsl

/-! ## Keys -/

/-- `Uuid::as_bytes`. -/
def Uuid.asBytes (key : Uuid) : Bytes := Wire.toBe 16 key.toNat

/-- `Uuid::from_bytes`, of 16 bytes. -/
def Uuid.fromBytes (bytes : Bytes) : Uuid := BitVec.ofNat 128 (Wire.ofBe bytes)

/-- The variant is RFC 4122 and the version 7. -/
def Uuid.IsV7 (key : Uuid) : Prop := key.extractLsb' 62 2 = 2#2 ∧ key.extractLsb' 76 4 = 7#4

instance (key : Uuid) : Decidable key.IsV7 := inferInstanceAs (Decidable (_ ∧ _))

/-! ## Clocks -/

/-- `UnixNanos`. -/
abbrev UnixNanos := Int64

/-- `UnixNanos::from_datetime`. -/
def UnixNanos.fromDatetime (instant : Timestamp) : UnixNanos :=
  Int64.ofInt (max Int64.minValue.toInt (min instant Int64.maxValue.toInt))

/-- `UnixNanos::to_wire_u64`: times before the epoch are 0. -/
def UnixNanos.toWireU64 (nanos : UnixNanos) : UInt64 :=
  if nanos < 0 then 0 else nanos.toUInt64

/-- `ClockSample`. -/
structure ClockSample where
  utc : Timestamp
  unixNanos : UnixNanos

/-- `ltp_stamps`. -/
def OwnedEvent.stamps (event : OwnedEvent) : List Ltp.HopStamp := event.ltpStamps.getD []

/-- `Event::from_ltp_parts`. -/
def OwnedEvent.fromLtpParts (key : Uuid) (receivedAt : Timestamp) (source : Net.SocketAddr)
    (payload : Bytes) (stamps : List Ltp.HopStamp) : OwnedEvent where
  key := key
  receivedAt := receivedAt
  source := source
  ingress := payload
  egress := payload
  workspace := []
  ltpStamps := if stamps = [] then none else some stamps

namespace Ltp

/-! ## Sending -/

/-- The metadata of an event on its way out, and which stamp is that of the node. -/
structure WorkingEventMeta where
  msg : LtpMeta
  localStamp : ℕ

/-- `working_event_meta`: the stamp the input has added is used, if there is one. -/
def workingEventMeta (nodeId : String) (event : OwnedEvent) : WorkingEventMeta :=
  let arrivalUnixNano := (UnixNanos.fromDatetime event.receivedAt).toWireU64
  let reusesPendingLocal := event.stamps.getLast?.any fun stamp =>
    stamp.nodeId = nodeId && stamp.departureUnixNano = 0
  let stamps :=
    if reusesPendingLocal then event.stamps
    else event.stamps ++ [⟨nodeId, arrivalUnixNano, 0⟩]
  ⟨⟨event.key.asBytes, stamps⟩, stamps.length - 1⟩

/-- The metadata with the time of departure. -/
def WorkingEventMeta.departed (working : WorkingEventMeta) (departureUnixNano : UInt64) : LtpMeta :=
  { working.msg with
    stamps := working.msg.stamps.modify working.localStamp fun stamp =>
      { stamp with departureUnixNano := departureUnixNano } }

/-- `event_frame`. -/
def eventFrame {δ : Type} (codec : Message LtpMeta δ) (working : WorkingEventMeta)
    (now : UnixNanos) (payload : Bytes) : Except (FrameError δ) Bytes :=
  encodeFrame codec (working.departed now.toWireU64) payload

/-! ## Receiving -/

/-- What becomes of a frame. -/
inductive FrameDecision where
  | forward (event : OwnedEvent)
  | dropCycle
  | dropMaxHops
  | dropMetadataTooLarge

/-- `event_from_frame`.  The length is checked with a time of departure, which takes its place in
the metadata only when it is not 0. -/
def eventFromFrame {δ : Type} (codec : Message LtpMeta δ) (msg : LtpMeta) (payload : Bytes)
    (source : Net.SocketAddr) (nodeId : String) (maxHops : ℕ) (now : ClockSample) :
    Except String FrameDecision :=
  if msg.key.length ≠ 16 then .error "LTP event key must be exactly 16 bytes"
  else
    let key := Uuid.fromBytes msg.key
    if ¬ key.IsV7 then .error "LTP event key must be an RFC 4122 UUIDv7"
    else if msg.stamps.any fun stamp => stamp.nodeId = nodeId then .ok .dropCycle
    else if maxHops ≤ msg.stamps.length then .ok .dropMaxHops
    else
      let stamp : HopStamp := ⟨nodeId, now.unixNanos.toWireU64, 1⟩
      if maxMetaLen < codec.encodedLen { msg with stamps := msg.stamps ++ [stamp] } then
        .ok .dropMetadataTooLarge
      else
        .ok (.forward (.fromLtpParts key now.utc source payload
          (msg.stamps ++ [{ stamp with departureUnixNano := 0 }])))

end Ltp

end Limpid
