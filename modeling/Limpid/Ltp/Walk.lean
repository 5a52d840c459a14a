import Mathlib.Algebra.GroupWithZero.Nat
import Limpid.Ltp.Hop
import Limpid.Ltp.Stream

/-!
# Walks of an event

An event that was created on one node walks through others.  The frame that a node sends carries
one stamp for each node visited, in order (`Visited`), so a node that has been visited refuses the
event, and so does one that allows fewer hops.

The length of the metadata is checked by the node that receives an event, before the time of its
departure is known.  In protobuf a number of fixed width is as long as any other unless it is 0,
and then it is left out; so the time that is put in for the check makes the metadata as long as
they will ever be (`encodedLen_departed_le`).
-/

namespace Limpid.Ltp

open Limpid.Wire

/-! ## Lengths in protobuf -/

/-- Bytes of a number in groups of seven bits. -/
def varintLen (n : ℕ) : ℕ := if n < 128 then 1 else 1 + varintLen (n / 128)

/-- A field of bytes: a tag, the length and the bytes, or nothing if there are none. -/
def bytesLen (length : ℕ) : ℕ := if length = 0 then 0 else 1 + varintLen length + length

/-- A field of eight bytes: a tag and the bytes, or nothing if they are 0. -/
def fixed64Len (n : UInt64) : ℕ := if n = 0 then 0 else 9

/-- `encoded_len` of a stamp. -/
def HopStamp.encodedLen (stamp : HopStamp) : ℕ :=
  bytesLen stamp.nodeId.utf8ByteSize + fixed64Len stamp.arrivalUnixNano +
    fixed64Len stamp.departureUnixNano

/-- A stamp as a field: unlike bytes it is never left out. -/
def HopStamp.fieldLen (stamp : HopStamp) : ℕ :=
  1 + varintLen stamp.encodedLen + stamp.encodedLen

/-- `encoded_len` of the metadata. -/
def LtpMeta.encodedLen (msg : LtpMeta) : ℕ :=
  bytesLen msg.key.length + (msg.stamps.map HopStamp.fieldLen).sum

theorem varintLen_of_lt {n : ℕ} (h : n < 128) : varintLen n = 1 := by
  rw [varintLen, if_pos h]

theorem varintLen_mono {m n : ℕ} (h : m ≤ n) : varintLen m ≤ varintLen n := by
  induction n using Nat.strongRecOn generalizing m with
  | ind n ih =>
      unfold varintLen
      split
      · split <;> omega
      · next hm =>
          have hn : ¬ n < 128 := by omega
          rw [if_neg hn]
          have hdiv := ih (n / 128) (by omega) (Nat.div_le_div_right h)
          omega

/-- No time of departure is longer than the one used in the check. -/
theorem encodedLen_departed_le (nodeId : String) (arrival departure : UInt64) :
    (HopStamp.mk nodeId arrival departure).encodedLen ≤
      (HopStamp.mk nodeId arrival 1).encodedLen := by
  unfold HopStamp.encodedLen
  apply Nat.add_le_add_left
  show fixed64Len departure ≤ 9
  unfold fixed64Len
  split <;> omega

theorem fieldLen_departed_le (nodeId : String) (arrival departure : UInt64) :
    (HopStamp.mk nodeId arrival departure).fieldLen ≤ (HopStamp.mk nodeId arrival 1).fieldLen := by
  have hlen := encodedLen_departed_le nodeId arrival departure
  have hvarint := varintLen_mono hlen
  unfold HopStamp.fieldLen
  omega

/-- What the frames rely on in the codec: the lengths of protobuf. -/
structure Message.Protobuf {δ : Type} (codec : Message LtpMeta δ) : Prop where
  encodedLen : ∀ msg, codec.encodedLen msg = msg.encodedLen
  length_encodeRaw : ∀ msg, codec.encodedLen msg = (codec.encodeRaw msg).length

/-! ## Stamps -/

theorem toWireU64_ne_zero {nanos : UnixNanos} (h : 0 < nanos) : nanos.toWireU64 ≠ 0 := by
  have hle : ¬ nanos < 0 := Int64.not_lt.mpr (Int64.le_of_lt h)
  unfold UnixNanos.toWireU64
  rw [if_neg hle]
  intro hzero
  have hnanos : nanos = 0 := by
    rw [← Int64.toInt64_toUInt64 nanos, hzero]
    rfl
  exact absurd (hnanos ▸ h) (by decide)

theorem fromBytes_asBytes (key : Uuid) : Uuid.fromBytes key.asBytes = key := by
  unfold Uuid.fromBytes Uuid.asBytes
  rw [ofBe_toBe (by have := key.isLt; exact this)]
  exact BitVec.ofNat_toNat _ _

theorem length_asBytes (key : Uuid) : key.asBytes.length = 16 := length_toBe _ _

/-- The last of some stamps can be changed alone. -/
theorem modify_last (earlier : List HopStamp) (stamp : HopStamp) (f : HopStamp → HopStamp) :
    (earlier ++ [stamp]).modify ((earlier ++ [stamp]).length - 1) f = earlier ++ [f stamp] := by
  induction earlier with
  | nil => rfl
  | cons first earlier ih =>
      have hlength : (first :: earlier ++ [stamp]).length - 1 =
          ((earlier ++ [stamp]).length - 1) + 1 := by
        simp only [List.cons_append, List.length_cons, List.length_append]
        omega
      rw [hlength, List.cons_append, List.modify_succ_cons, ih]
      rfl

/-- The stamps of some nodes, in order, all departed. -/
structure Visited (ids : List String) (stamps : List HopStamp) : Prop where
  nodeIds : stamps.map HopStamp.nodeId = ids
  departed : ∀ stamp ∈ stamps, stamp.departureUnixNano ≠ 0

/-- The event is on a node, after visiting some others: on the node where it was created it has no
stamps yet. -/
inductive OnNode (ids : List String) (nodeId : String) : List HopStamp → Prop where
  | created (h : ids = []) : OnNode ids nodeId []
  | arrived {earlier : List HopStamp} (arrival : UInt64) (hne : ids ≠ [])
    (h : Visited ids earlier) :
      OnNode ids nodeId (earlier ++ [⟨nodeId, arrival, 0⟩])

/-- The stamp that is waiting for a departure gets it. -/
theorem departed_pending {nodeId : String} {event : OwnedEvent} {earlier : List HopStamp}
    {arrival : UInt64} (h : event.stamps = earlier ++ [⟨nodeId, arrival, 0⟩]) (departure : UInt64) :
    (workingEventMeta nodeId event).departed departure =
      ⟨event.key.asBytes, earlier ++ [⟨nodeId, arrival, departure⟩]⟩ := by
  have hreuses : ((earlier ++ [HopStamp.mk nodeId arrival 0]).getLast?.any fun stamp =>
      stamp.nodeId = nodeId && stamp.departureUnixNano = 0) = true := by
    simp [List.getLast?_append]
  unfold workingEventMeta WorkingEventMeta.departed
  rw [h]
  simp only [hreuses, ↓reduceIte]
  rw [modify_last]

/-- What a node sends. -/
theorem departed_onNode {ids : List String} {nodeId : String} {event : OwnedEvent}
    (h : OnNode ids nodeId event.stamps) :
    ∃ earlier arrival, Visited ids earlier ∧
      ∀ departure, (workingEventMeta nodeId event).departed departure =
        ⟨event.key.asBytes, earlier ++ [⟨nodeId, arrival, departure⟩]⟩ := by
  generalize hstamps : event.stamps = stamps at h
  cases h with
  | created hids =>
      subst hids
      refine ⟨[], (UnixNanos.fromDatetime event.receivedAt).toWireU64,
        ⟨rfl, fun _ hmem => absurd hmem List.not_mem_nil⟩, fun departure => ?_⟩
      unfold workingEventMeta WorkingEventMeta.departed
      rw [hstamps]
      rfl
  | arrived arrival _ hvisited =>
      exact ⟨_, arrival, hvisited, departed_pending hstamps⟩

theorem Visited.append {ids : List String} {earlier : List HopStamp} (h : Visited ids earlier)
    (nodeId : String) (arrival : UInt64) {departure : UInt64} (hne : departure ≠ 0) :
    Visited (ids ++ [nodeId]) (earlier ++ [⟨nodeId, arrival, departure⟩]) := by
  refine ⟨by rw [List.map_append, h.nodeIds]; rfl, fun stamp hmem => ?_⟩
  rcases List.mem_append.mp hmem with hmem | hmem
  · exact h.departed stamp hmem
  · rw [List.mem_singleton.mp hmem]
    exact hne

/-! ## Frames on the way -/

/-- The node and how many hops it allows. -/
structure Node where
  nodeId : String
  maxHops : ℕ

section Walks

variable {δ : Type} (codec : Message LtpMeta δ)

/-- The frame that a node sends for an event, after the epoch, arrives as metadata and a payload:
it is somewhere on the connection, and what is encoded decodes to itself. -/
inductive Arrives (a : Node) (event : OwnedEvent) (msg : LtpMeta) : Bytes → Prop where
  | intro {now : UnixNanos} {frame later : Bytes} {reader rest : Reader} {raw : RawFrame}
      (afterEpoch : 0 < now)
      (sent : eventFrame codec (workingEventMeta a.nodeId event) now event.egress = .ok frame)
      (lossless : codec.decode (codec.encodeRaw
          ((workingEventMeta a.nodeId event).departed now.toWireU64)) =
        .ok ((workingEventMeta a.nodeId event).departed now.toWireU64))
      (arrived : reader.flatten = frame ++ later)
      (read : readFrame reader = .ok (some (raw, rest)))
      (decoded : codec.decode raw.metadata = .ok msg) :
      Arrives a event msg raw.payload

/-- A node passes an event on with its key and its stamps. -/
structure Carried (event event' : OwnedEvent) : Prop where
  key : event'.key = event.key
  ltpStamps : event'.ltpStamps = event.ltpStamps

/-- The event is on a node, after it was on the nodes before. -/
inductive Walk : List Node → Node → OwnedEvent → Prop where
  | created (a : Node) {event : OwnedEvent} (key : event.key.IsV7)
      (ltpStamps : event.ltpStamps = none) : Walk [] a event
  | processed {before : List Node} {a : Node} {event event' : OwnedEvent}
      (walk : Walk before a event) (carried : Carried event event') : Walk before a event'
  | hop {before : List Node} {a b : Node} {event event' : OwnedEvent} {msg : LtpMeta}
      {payload : Bytes} {source : Net.SocketAddr} {now : ClockSample}
      (walk : Walk before a event) (arrives : Arrives codec a event msg payload)
      (forwarded : eventFromFrame codec msg payload source b.nodeId b.maxHops now =
        .ok (.forward event')) : Walk (before ++ [a]) b event'

variable {codec}

/-- What arrives is what was sent. -/
theorem Arrives.eq_departed (hcodec : codec.Protobuf) {a : Node} {event : OwnedEvent}
    {msg : LtpMeta} {payload : Bytes} (h : Arrives codec a event msg payload) :
    ∃ now : UnixNanos, 0 < now ∧
      msg = (workingEventMeta a.nodeId event).departed now.toWireU64 := by
  obtain ⟨hnow, hsent, hlossless, harrived, hread, hdecoded⟩ := h
  obtain ⟨hencodable, rfl⟩ := (@encodeFrame_eq_ok _ codec hcodec.length_encodeRaw
    (_, event.egress) _).mp hsent
  obtain ⟨hbounds, hflatten⟩ := readFrame_eq_some hread
  rw [harrived] at hflatten
  obtain ⟨hraw, -⟩ :=
    image_append_inj (hencodable.inBounds hcodec.length_encodeRaw) hbounds hflatten
  refine ⟨_, hnow, ?_⟩
  rw [← hraw] at hdecoded
  exact Except.ok.inj (hdecoded.symm.trans hlossless)

/-- When an event is forwarded, and with which stamps. -/
theorem eventFromFrame_eq_forward {msg : LtpMeta} {key : Uuid} (hkey : msg.key = key.asBytes)
    (hv7 : key.IsV7) {payload : Bytes} {source : Net.SocketAddr} {nodeId : String} {maxHops : ℕ}
    {now : ClockSample} {event : OwnedEvent} :
    eventFromFrame codec msg payload source nodeId maxHops now = .ok (.forward event) ↔
      (nodeId ∉ msg.stamps.map HopStamp.nodeId ∧ msg.stamps.length < maxHops ∧
        codec.encodedLen { msg with
          stamps := msg.stamps ++ [⟨nodeId, now.unixNanos.toWireU64, 1⟩] } ≤ maxMetaLen) ∧
      event = .fromLtpParts key now.utc source payload
        (msg.stamps ++ [⟨nodeId, now.unixNanos.toWireU64, 0⟩]) := by
  have hany : (msg.stamps.any fun stamp => stamp.nodeId = nodeId) =
      decide (nodeId ∈ msg.stamps.map HopStamp.nodeId) := by
    rw [Bool.eq_iff_iff, List.any_eq_true, decide_eq_true_iff, List.mem_map]
    simp only [decide_eq_true_iff]
  unfold eventFromFrame
  rw [hkey, if_neg (not_not.mpr (length_asBytes key)), fromBytes_asBytes, if_neg (not_not.mpr hv7),
    hany]
  by_cases hcycle : nodeId ∈ msg.stamps.map HopStamp.nodeId
  · rw [decide_eq_true hcycle, if_pos rfl]
    exact iff_of_false (by simp) fun h => h.1.1 hcycle
  rw [decide_eq_false hcycle, if_neg Bool.false_ne_true]
  by_cases hhops : maxHops ≤ msg.stamps.length
  · rw [if_pos hhops]
    exact iff_of_false (by simp) fun h => absurd h.1.2.1 (Nat.not_lt.mpr hhops)
  rw [if_neg hhops]
  dsimp only
  split
  · next hlong =>
      exact iff_of_false (by simp) fun h => absurd h.1.2.2 (Nat.not_le.mpr (hkey ▸ hlong))
  · next hshort =>
      simp only [Except.ok.injEq, FrameDecision.forward.injEq]
      rw [eq_comm]
      refine (and_iff_right ⟨hcycle, Nat.lt_of_not_le hhops, ?_⟩).symm
      exact Nat.le_of_not_lt hshort

theorem stamps_fromLtpParts (key : Uuid) (receivedAt : Dsl.Timestamp) (source : Net.SocketAddr)
    (payload : Bytes) (earlier : List HopStamp) (stamp : HopStamp) :
    (OwnedEvent.fromLtpParts key receivedAt source payload (earlier ++ [stamp])).stamps =
      earlier ++ [stamp] := by
  unfold OwnedEvent.stamps OwnedEvent.fromLtpParts
  dsimp only
  rw [if_neg (by simp)]
  rfl

/-- What holds of an event on a node, after it was on the nodes before. -/
structure SafeOn (before : List Node) (a : Node) (event : OwnedEvent) : Prop where
  key : event.key.IsV7
  onNode : OnNode (before.map Node.nodeId) a.nodeId event.stamps
  once : ((before ++ [a]).map Node.nodeId).Nodup
  bounded : before ≠ [] → (before ++ [a]).length ≤ a.maxHops

/-- The metadata that arrive from a node. -/
theorem SafeOn.arrives {before : List Node} {a : Node} {event : OwnedEvent} {msg : LtpMeta}
    {payload : Bytes} (h : SafeOn before a event) (hcodec : codec.Protobuf)
    (harrives : Arrives codec a event msg payload) :
    msg.key = event.key.asBytes ∧ Visited ((before ++ [a]).map Node.nodeId) msg.stamps := by
  obtain ⟨now, hnow, hmsg⟩ := harrives.eq_departed hcodec
  obtain ⟨earlier, arrival, hvisited, hdeparted⟩ := departed_onNode h.onNode
  rw [hdeparted] at hmsg
  rw [hmsg, List.map_append]
  exact ⟨rfl, hvisited.append a.nodeId arrival (toWireU64_ne_zero hnow)⟩

theorem Visited.length_eq {ids : List String} {stamps : List HopStamp} (h : Visited ids stamps) :
    stamps.length = ids.length := by
  rw [← h.nodeIds, List.length_map]

/-- **Every walk is safe.** -/
theorem Walk.safe (hcodec : codec.Protobuf) {before : List Node} {a : Node} {event : OwnedEvent}
    (h : Walk codec before a event) : SafeOn before a event := by
  induction h with
  | created a key ltpStamps =>
      refine ⟨key, ?_, List.nodup_singleton _, fun h => absurd rfl h⟩
      unfold OwnedEvent.stamps
      rw [ltpStamps]
      exact .created rfl
  | processed walk carried ih =>
      refine ⟨carried.key ▸ ih.key, ?_, ih.once, ih.bounded⟩
      have hstamps := ih.onNode
      unfold OwnedEvent.stamps at hstamps ⊢
      rwa [carried.ltpStamps]
  | @hop before a b event event' msg payload source now walk arrives forwarded ih =>
      obtain ⟨hkey, hvisited⟩ := ih.arrives hcodec arrives
      obtain ⟨⟨hnew, hhops, -⟩, rfl⟩ := (eventFromFrame_eq_forward hkey ih.key).mp forwarded
      rw [hvisited.nodeIds] at hnew
      rw [hvisited.length_eq, List.length_map] at hhops
      refine ⟨ih.key, ?_, ?_, fun _ => ?_⟩
      · rw [stamps_fromLtpParts]
        exact .arrived _ (by simp) hvisited
      · rw [List.map_append, List.nodup_append]
        refine ⟨ih.once, List.nodup_singleton _, fun id hid id' hid' => ?_⟩
        rintro rfl
        exact hnew (List.mem_singleton.mp hid' ▸ hid)
      · rw [List.length_append, List.length_singleton]
        exact hhops

/-- What a node forwards it can send: the metadata are not too long then. -/
theorem encodedLen_forwarded_le (hcodec : codec.Protobuf) {msg : LtpMeta} {key : Uuid}
    (hkey : msg.key = key.asBytes) (hv7 : key.IsV7) {payload : Bytes} {source : Net.SocketAddr}
    {b : Node} {now : ClockSample} {event event' : OwnedEvent}
    (hforwarded : eventFromFrame codec msg payload source b.nodeId b.maxHops now =
      .ok (.forward event)) (hcarried : Carried event event') (departure : UInt64) :
    codec.encodedLen ((workingEventMeta b.nodeId event').departed departure) ≤ maxMetaLen := by
  obtain ⟨⟨-, -, hlen⟩, rfl⟩ := (eventFromFrame_eq_forward hkey hv7).mp hforwarded
  have hstamps : event'.stamps =
      msg.stamps ++ [⟨b.nodeId, now.unixNanos.toWireU64, 0⟩] := by
    rw [OwnedEvent.stamps, hcarried.ltpStamps]
    exact stamps_fromLtpParts _ _ _ _ _ _
  have hkey' : event'.key.asBytes = msg.key := by
    rw [hcarried.key, hkey]
    rfl
  rw [hcodec.encodedLen] at hlen ⊢
  rw [departed_pending hstamps, hkey']
  refine le_trans ?_ hlen
  have hfield := fieldLen_departed_le b.nodeId now.unixNanos.toWireU64 departure
  simp only [LtpMeta.encodedLen, List.map_append, List.sum_append, List.map_cons, List.map_nil,
    List.sum_cons, List.sum_nil]
  omega

theorem eventFrame_ne_metaTooLarge {working : WorkingEventMeta} {departure : UnixNanos}
    (h : codec.encodedLen (working.departed departure.toWireU64) ≤ maxMetaLen) (payload : Bytes)
    (length : ℕ) : eventFrame codec working departure payload ≠ .error (.metaTooLarge length) := by
  unfold eventFrame encodeFrame encodeMessageFrame
  dsimp only
  rw [if_neg (Nat.not_lt.mpr h)]
  split
  · simp
  · simp

/-- **Hop and loop safety.**  In a walk no node is visited twice, and no more nodes than the last
one allows.  On its way from there the event has one stamp for each node visited, in order, and a
receiver forwards it if and only if it is not one of them, allows one more, and its own stamp fits.
Then the metadata of its next frame fit too. -/
theorem walk_safe (hcodec : codec.Protobuf) {before : List Node} {a : Node} {event : OwnedEvent}
    (hwalk : Walk codec before a event) :
    ((before ++ [a]).map Node.nodeId).Nodup ∧
      (before ≠ [] → (before ++ [a]).length ≤ a.maxHops) ∧
      OnNode (before.map Node.nodeId) a.nodeId event.stamps ∧
      ∀ msg payload, Arrives codec a event msg payload →
        Visited ((before ++ [a]).map Node.nodeId) msg.stamps ∧
        ∀ (b : Node) (source : Net.SocketAddr) (now : ClockSample),
          ((∃ event', eventFromFrame codec msg payload source b.nodeId b.maxHops now =
              .ok (.forward event')) ↔
            b.nodeId ∉ (before ++ [a]).map Node.nodeId ∧ (before ++ [a]).length < b.maxHops ∧
              LtpMeta.encodedLen { msg with
                stamps := msg.stamps ++ [⟨b.nodeId, now.unixNanos.toWireU64, 1⟩] } ≤
                  maxMetaLen) ∧
          ∀ event' carried, eventFromFrame codec msg payload source b.nodeId b.maxHops now =
              .ok (.forward event') → Carried event' carried →
            ∀ departure payload' length, eventFrame codec (workingEventMeta b.nodeId carried)
              departure payload' ≠ .error (.metaTooLarge length) := by
  have hsafe := hwalk.safe hcodec
  refine ⟨hsafe.once, hsafe.bounded, hsafe.onNode, fun msg payload harrives => ?_⟩
  obtain ⟨hkey, hvisited⟩ := hsafe.arrives hcodec harrives
  refine ⟨hvisited, fun b source now => ⟨?_, ?_⟩⟩
  · rw [← hcodec.encodedLen, ← hvisited.nodeIds, ← List.length_map, ← hvisited.length_eq]
    constructor
    · rintro ⟨event', hforward⟩
      exact ((eventFromFrame_eq_forward hkey hsafe.key).mp hforward).1
    · intro h
      exact ⟨_, (eventFromFrame_eq_forward hkey hsafe.key).mpr ⟨h, rfl⟩⟩
  · intro event' carried hforward hcarried departure payload' length
    exact eventFrame_ne_metaTooLarge
      (encodedLen_forwarded_le hcodec hkey hsafe.key hforward hcarried _) payload' length

/-- What fits is sent and arrives. -/
theorem arrives_of_fits (hcodec : codec.Protobuf) (a : Node) (event : OwnedEvent)
    {now : UnixNanos} (hnow : 0 < now) {msg : LtpMeta}
    (hmsg : (workingEventMeta a.nodeId event).departed now.toWireU64 = msg)
    (hlossless : codec.decode (codec.encodeRaw msg) = .ok msg)
    (hmeta : codec.encodedLen msg ≤ maxMetaLen) (hpayload : event.egress.length ≤ maxPayloadLen) :
    Arrives codec a event msg event.egress := by
  subst hmsg
  have hencodable : Encodable codec (_, event.egress) := ⟨hmeta, hpayload⟩
  have hsent := (encodeFrame_eq_ok hcodec.length_encodeRaw).mpr ⟨hencodable, rfl⟩
  obtain ⟨rest, hread, -⟩ := readFrame_of_image (hencodable.inBounds hcodec.length_encodeRaw)
    (rfl : [image (rawFrame codec (_, event.egress))].flatten = image _ ++ [])
  exact .intro hnow hsent hlossless (rfl : _ = _ ++ []) hread hlossless

end Walks

/-! ## The encoding of metadata -/

/-- A number in groups of seven bits. -/
def varint (n : ℕ) : Bytes :=
  if n < 128 then [UInt8.ofNat n] else UInt8.ofNat (n % 128 + 128) :: varint (n / 128)

/-- A field of bytes, left out when it is empty. -/
def bytesField (tag : UInt8) (bytes : Bytes) : Bytes :=
  if bytes.length = 0 then [] else tag :: (varint bytes.length ++ bytes)

/-- A field of eight bytes, left out when it is zero. -/
def fixed64Field (tag : UInt8) (n : UInt64) : Bytes :=
  if n = 0 then [] else tag :: (toBe 8 n.toNat).reverse

/-- A stamp as it is encoded. -/
def HopStamp.encodeRaw (stamp : HopStamp) : Bytes :=
  bytesField 10 stamp.nodeId.toUTF8.data.toList ++ fixed64Field 17 stamp.arrivalUnixNano ++
    fixed64Field 25 stamp.departureUnixNano

/-- The metadata as it is encoded. -/
def LtpMeta.encodeRaw (msg : LtpMeta) : Bytes :=
  bytesField 10 msg.key ++ msg.stamps.flatMap fun stamp =>
    18 :: (varint stamp.encodedLen ++ stamp.encodeRaw)

theorem length_varint (n : ℕ) : (varint n).length = varintLen n := by
  induction n using Nat.strongRecOn with
  | ind n ih =>
      unfold varint varintLen
      split
      · rfl
      · next h => rw [List.length_cons, ih (n / 128) (by omega), Nat.add_comm]

theorem length_bytesField (tag : UInt8) (bytes : Bytes) :
    (bytesField tag bytes).length = bytesLen bytes.length := by
  unfold bytesField bytesLen
  split
  · rfl
  · rw [List.length_cons, List.length_append, length_varint]
    omega

theorem length_fixed64Field (tag : UInt8) (n : UInt64) :
    (fixed64Field tag n).length = fixed64Len n := by
  unfold fixed64Field fixed64Len
  split
  · rfl
  · rw [List.length_cons, List.length_reverse, length_toBe]

theorem HopStamp.length_encodeRaw (stamp : HopStamp) :
    stamp.encodeRaw.length = stamp.encodedLen := by
  unfold HopStamp.encodeRaw HopStamp.encodedLen
  rw [List.length_append, List.length_append, length_bytesField, length_fixed64Field,
    length_fixed64Field]
  rfl

theorem LtpMeta.length_encodeRaw (msg : LtpMeta) : msg.encodeRaw.length = msg.encodedLen := by
  have hfield : ∀ stamp : HopStamp,
      (18 :: (varint stamp.encodedLen ++ stamp.encodeRaw)).length = stamp.fieldLen := by
    intro stamp
    rw [List.length_cons, List.length_append, length_varint, stamp.length_encodeRaw,
      HopStamp.fieldLen]
    omega
  unfold LtpMeta.encodeRaw LtpMeta.encodedLen
  rw [List.length_append, length_bytesField, List.length_flatMap, List.map_congr_left]
  exact fun stamp _ => hfield stamp

/-- A codec that can decode one message. -/
def codecOf (known : LtpMeta) : Message LtpMeta Unit where
  encodedLen := LtpMeta.encodedLen
  encodeRaw := LtpMeta.encodeRaw
  decode bytes := if bytes = known.encodeRaw then .ok known else .error ()

theorem codecOf_protobuf (known : LtpMeta) : (codecOf known).Protobuf :=
  ⟨fun _ => rfl, fun msg => msg.length_encodeRaw.symm⟩

/-! ## An example -/

/-- A node that sends. -/
def edge : Node := ⟨"edge", 16⟩

/-- A node that receives and forwards. -/
def hub : Node := ⟨"hub", 16⟩

/-- An event that was created on the edge. -/
def createdEvent : OwnedEvent where
  key := 0x0190a000000070008000000000000001
  receivedAt := 1
  source := .v4 .localhost 514
  ingress := [65]
  egress := [65]
  workspace := []
  ltpStamps := none

/-- Its metadata on the way to the hub. -/
def createdMeta : LtpMeta := ⟨createdEvent.key.asBytes, [⟨"edge", 1, 2⟩]⟩

/-- The event on the hub. -/
def receivedEvent : OwnedEvent where
  key := createdEvent.key
  receivedAt := 3
  source := .v4 .localhost 6514
  ingress := [65]
  egress := [65]
  workspace := []
  ltpStamps := some [⟨"edge", 1, 2⟩, ⟨"hub", 3, 0⟩]

theorem fieldLen_le {stamp : HopStamp} (h : stamp.nodeId.utf8ByteSize < 100) :
    stamp.fieldLen ≤ 128 := by
  have hbytes : bytesLen stamp.nodeId.utf8ByteSize ≤ stamp.nodeId.utf8ByteSize + 2 := by
    unfold bytesLen
    rw [varintLen_of_lt (by omega)]
    split <;> omega
  have hfixed : ∀ n, fixed64Len n ≤ 9 := by
    intro n
    unfold fixed64Len
    split <;> omega
  have harrival := hfixed stamp.arrivalUnixNano
  have hdeparture := hfixed stamp.departureUnixNano
  have hlen : stamp.encodedLen ≤ 120 := by
    unfold HopStamp.encodedLen
    omega
  unfold HopStamp.fieldLen
  rw [varintLen_of_lt (by omega)]
  omega

theorem walk_safe_hub :
    (codecOf createdMeta).Protobuf ∧ Walk (codecOf createdMeta) [edge] hub receivedEvent ∧
      (([edge] ++ [hub]).map Node.nodeId).Nodup ∧ ([edge] ++ [hub]).length ≤ hub.maxHops ∧
      OnNode ["edge"] "hub" receivedEvent.stamps := by
  have hcodec := codecOf_protobuf createdMeta
  have hkey : createdEvent.key.IsV7 := by decide
  have hlossless : (codecOf createdMeta).decode ((codecOf createdMeta).encodeRaw createdMeta) =
      .ok createdMeta := if_pos rfl
  have hkeyLen : bytesLen createdMeta.key.length ≤ 18 := by
    show bytesLen createdEvent.key.asBytes.length ≤ 18
    rw [length_asBytes, bytesLen, varintLen_of_lt (by decide)]
    decide
  have hedge := @fieldLen_le ⟨"edge", 1, 2⟩ (by decide)
  have hhub := @fieldLen_le ⟨"hub", 3, 1⟩ (by decide)
  have hsent : (codecOf createdMeta).encodedLen createdMeta ≤ maxMetaLen := by
    show bytesLen createdMeta.key.length + (HopStamp.fieldLen ⟨"edge", 1, 2⟩ + 0) ≤ 64 * 1024
    omega
  have hstamped : (codecOf createdMeta).encodedLen { createdMeta with
      stamps := createdMeta.stamps ++ [⟨"hub", 3, 1⟩] } ≤ maxMetaLen := by
    show bytesLen createdMeta.key.length + (HopStamp.fieldLen ⟨"edge", 1, 2⟩ +
      (HopStamp.fieldLen ⟨"hub", 3, 1⟩ + 0)) ≤ 64 * 1024
    omega
  have harrives : Arrives (codecOf createdMeta) edge createdEvent createdMeta [65] :=
    arrives_of_fits hcodec edge createdEvent (by decide : (0 : UnixNanos) < 2) rfl hlossless hsent
      (by decide)
  have hforwarded : eventFromFrame (codecOf createdMeta) createdMeta [65] (.v4 .localhost 6514)
      hub.nodeId hub.maxHops ⟨3, 3⟩ = .ok (.forward receivedEvent) :=
    (eventFromFrame_eq_forward rfl hkey).mpr ⟨⟨by decide, by decide, hstamped⟩, rfl⟩
  have hwalk : Walk (codecOf createdMeta) [edge] hub receivedEvent :=
    .hop (.created edge hkey rfl) harrives hforwarded
  obtain ⟨honce, hbounded, honNode, -⟩ := walk_safe hcodec hwalk
  exact ⟨hcodec, hwalk, honce, hbounded (List.cons_ne_nil _ _), honNode⟩

end Limpid.Ltp
