import Limpid.Dsl.ValueJson
import Limpid.Event
import Limpid.Net.Display

/-!
# Events as JSON

`event.rs`: the form in which an event is kept in a disk queue, in the error log and in a tap, and
how it is read back.  An address is written as its text and a port, and read by putting the two
together with a colon and parsing a socket address; that is not how a socket address with an IPv6
address is written, so an event from such a source is not read back, while every other event
within the limits is (`restored_iff_v4`).

The `uuid` crate is a parameter, as the `base64` crate is.
-/

namespace Limpid

open Dsl Net Decimal

/-! ## Identities -/

namespace Uuid

/-- `get_version_num`. -/
def versionNum (key : Uuid) : ℕ := (key.extractLsb' 76 4).toNat

/-- The variant of RFC 4122: the two leading bits of the ninth byte are `10`. -/
def isRfc4122 (key : Uuid) : Bool := key.extractLsb' 62 2 = 2#2

end Uuid

/-- What the event codec uses of the `uuid` and `base64` crates. -/
structure Codecs where
  hyphenated : Uuid → String
  parseStr : String → Option Uuid
  base64 : Base64

/-! ## Encoding -/

section Codec

variable (rt : Runtime) (codecs : Codecs)

/-- `bytes_to_json`. -/
def bytesToJson (data : Bytes) : Json :=
  match String.fromUTF8? ⟨data.toArray⟩ with
  | some s => .string s
  | none => ((valueToJson rt codecs.base64 (.bytes data)).toOption).getD .null

/-- A stamp of a hop. -/
def stampToJson (stamp : Ltp.HopStamp) : Json :=
  .object
    [("node_id", .string stamp.nodeId),
      ("arrival_unix_nano", .number (.posInt stamp.arrivalUnixNano)),
      ("departure_unix_nano", .number (.posInt stamp.departureUnixNano))]

namespace OwnedEvent

/-- The stamps, where there are any. -/
def stampsField (event : OwnedEvent) : List (String × Json) :=
  match event.ltpStamps with
  | some stamps => [("ltp_stamps", .array (stamps.map stampToJson))]
  | none => []

/-- A workspace that has no JSON form is left out. -/
def workspaceField (includeWorkspace : Bool) (event : OwnedEvent) : List (String × Json) :=
  if includeWorkspace ∧ event.workspace ≠ [] then
    [("workspace",
      ((valueToJson rt codecs.base64 (.object event.workspace)).toOption).getD (.object []))]
  else []

/-- `to_json_value_with`, with or without the workspace. -/
def toJsonValueWith (includeWorkspace : Bool) (event : OwnedEvent) : Json :=
  .object
    ([("key", .string (codecs.hyphenated event.key)),
        ("received_at", .number (.ofInt ((timestampNanos event.receivedAt).getD 0))),
        ("source", .object
          [("ip", .string (String.ofList event.source.ip.display)),
            ("port", .number (.posInt event.source.port.toUInt64))]),
        ("ingress", bytesToJson rt codecs event.ingress),
        ("egress", bytesToJson rt codecs event.egress)] ++
      (event.stampsField ++ event.workspaceField rt codecs includeWorkspace))

/-- `to_json_value`. -/
def toJsonValue (event : OwnedEvent) : Json := event.toJsonValueWith rt codecs true

end OwnedEvent

/-! ## Decoding -/

/-- `json_to_bytes`. -/
def jsonToBytes (v : Json) : Option Bytes :=
  match v.asString with
  | some s => some s.toUTF8.data.toList
  | none =>
      match jsonToValue rt codecs.base64 v with
      | .ok (.bytes data) => some data
      | _ => none

/-- The identity of the event, or a fresh one if it has none. -/
def keyOfJson (fresh : Uuid) (v : Json) : Option Uuid :=
  match v.get "key" with
  | some (.string raw) => do
      let parsed ← codecs.parseStr raw
      if parsed.versionNum ≠ 7 ∨ parsed.isRfc4122 = false ∨ codecs.hyphenated parsed ≠ raw then
        none
      else some parsed
  | some _ => none
  | none => some fresh

/-- The source address of an event, read back. -/
def sourceOfJson (v : Json) : Option SocketAddr := do
  let source ← v.get "source"
  let ip ← source.get "ip"
  let ip ← ip.asString
  let port ← source.get "port"
  let port ← port.asUInt
  if UInt16.size ≤ port.toNat then none
  else parseSocketAddr (ip.toList ++ ':' :: formatNat port.toNat)

/-- A stamp of a hop, read back. -/
def stampOfJson (v : Json) : Option Ltp.HopStamp := do
  let nodeId ← v.get "node_id"
  let nodeId ← nodeId.asString
  let arrival ← v.get "arrival_unix_nano"
  let arrival ← arrival.asUInt
  let departure ← v.get "departure_unix_nano"
  let departure ← departure.asUInt
  some ⟨nodeId, arrival, departure⟩

/-- The stamps of the event; no stamps and none at all are the same. -/
def stampsOfJson (v : Json) : Option (Option (List Ltp.HopStamp)) :=
  match v.get "ltp_stamps" with
  | none => some none
  | some (.array stamps) => do
      let stamps ← stamps.mapM stampOfJson
      some (if stamps = [] then none else some stamps)
  | some _ => none

/-- A workspace that cannot be read is empty. -/
def workspaceOfJson (v : Json) : Map :=
  match v.get "workspace" with
  | some workspace =>
      match jsonToValue rt codecs.base64 workspace with
      | .ok (.object map) => map
      | _ => []
  | none => []

/-- `from_json_value`. -/
def OwnedEvent.fromJsonValue (fresh : Uuid) (v : Json) : Option OwnedEvent := do
  let key ← keyOfJson codecs fresh v
  let ingress ← v.get "ingress"
  let ingress ← jsonToBytes rt codecs ingress
  let source ← sourceOfJson v
  let receivedAt ← v.get "received_at"
  let receivedAt ← receivedAt.asInt
  let stamps ← stampsOfJson v
  some
    { key := key
      receivedAt := receivedAt.toInt
      source := source
      ingress := ingress
      egress := ((v.get "egress").bind (jsonToBytes rt codecs)).getD ingress
      workspace := workspaceOfJson rt codecs v
      ltpStamps := stamps }

end Codec

/-! ## Round trips -/

/-- What replay needs of an event is the same. -/
structure Restores (event restored : OwnedEvent) : Prop where
  key : restored.key = event.key
  receivedAt : restored.receivedAt = event.receivedAt
  source : restored.source = event.source
  ingress : restored.ingress = event.ingress
  egress : restored.egress = event.egress
  stamps : restored.ltpStamps.getD [] = event.ltpStamps.getD []

/-- The events an input makes: a version 7 key and a time that fits. -/
structure OwnedEvent.WellFormed (event : OwnedEvent) : Prop where
  version : event.key.versionNum = 7
  variant : event.key.isRfc4122 = true
  receivedAt : Int64.minValue.toInt ≤ event.receivedAt ∧
    event.receivedAt ≤ Int64.maxValue.toInt

/-- The crates read back what they write of the event. -/
structure Codecs.ReadsBack (codecs : Codecs) (event : OwnedEvent) : Prop where
  key : codecs.parseStr (codecs.hyphenated event.key) = some event.key
  bytes : ∀ data ∈ [event.ingress, event.egress],
    codecs.base64.decode (codecs.base64.encode data) = .ok data

section RoundTrip

variable {rt : Runtime} {codecs : Codecs} {event : OwnedEvent}

/-- Text and other bytes are read back. -/
theorem jsonToBytes_bytesToJson {data : Bytes}
    (hdata : codecs.base64.decode (codecs.base64.encode data) = .ok data) :
    jsonToBytes rt codecs (bytesToJson rt codecs data) = some data := by
  unfold bytesToJson
  split
  · next s hs =>
      unfold String.fromUTF8? at hs
      split at hs
      · obtain rfl := Option.some.inj hs
        rfl
      · exact absurd hs (by simp)
  · -- the marker object, which is no string
    show (match jsonToValue rt codecs.base64
        (.object [(bytesMarkerKey, .string (codecs.base64.encode data))]) with
      | .ok (.bytes data) => some data
      | _ => none) = some data
    rw [jsonToValue, if_pos rfl, hdata]

variable (rt) in
theorem keyOfJson_toJson (hevent : event.WellFormed) (hcodecs : codecs.ReadsBack event)
    (fresh : Uuid) : keyOfJson codecs fresh (event.toJsonValue rt codecs) = some event.key := by
  have hget : (event.toJsonValue rt codecs).get "key" =
      some (.string (codecs.hyphenated event.key)) := rfl
  unfold keyOfJson
  rw [hget]
  simp [hcodecs.key, hevent.version, hevent.variant]

variable (rt codecs event) in
theorem sourceOfJson_toJson :
    sourceOfJson (event.toJsonValue rt codecs) =
      parseSocketAddr (event.source.ip.display ++ ':' :: formatNat event.source.port.toNat) := by
  have hport : ¬ UInt16.size ≤ event.source.port.toUInt64.toNat := by
    have hlt : event.source.port.toNat < UInt16.size := event.source.port.toNat_lt
    simpa using hlt
  show (if UInt16.size ≤ event.source.port.toUInt64.toNat then none else parseSocketAddr
    ((String.ofList event.source.ip.display).toList ++
      ':' :: formatNat event.source.port.toUInt64.toNat)) = _
  rw [if_neg hport, String.toList_ofList]
  simp

theorem stampOfJson_stampToJson (stamp : Ltp.HopStamp) :
    stampOfJson (stampToJson stamp) = some stamp := rfl

theorem mapM_stampOfJson (stamps : List Ltp.HopStamp) :
    (stamps.map stampToJson).mapM stampOfJson = some stamps := by
  induction stamps with
  | nil => rfl
  | cons stamp rest ih =>
      rw [List.map_cons, List.mapM_cons, stampOfJson_stampToJson, ih]
      rfl

variable (rt codecs event) in
/-- The stamps are read back, up to the difference between none and an empty list. -/
theorem stampsOfJson_toJson :
    ∃ stamps, stampsOfJson (event.toJsonValue rt codecs) = some stamps ∧
      stamps.getD [] = event.ltpStamps.getD [] := by
  cases hstamps : event.ltpStamps with
  | none =>
      have hget : (event.toJsonValue rt codecs).get "ltp_stamps" = none := by
        have hfield : event.stampsField = [] := by
          unfold OwnedEvent.stampsField
          rw [hstamps]
        show (event.stampsField ++ event.workspaceField rt codecs true).lookup "ltp_stamps" = none
        rw [hfield, List.nil_append, OwnedEvent.workspaceField]
        split <;> rfl
      exact ⟨none, by unfold stampsOfJson; rw [hget], rfl⟩
  | some stamps =>
      have hget : (event.toJsonValue rt codecs).get "ltp_stamps" =
          some (.array (stamps.map stampToJson)) := by
        show (event.stampsField ++ event.workspaceField rt codecs true).lookup "ltp_stamps" = _
        unfold OwnedEvent.stampsField
        rw [hstamps]
        rfl
      refine ⟨if stamps = [] then none else some stamps, ?_, ?_⟩
      · unfold stampsOfJson
        rw [hget]
        dsimp only
        rw [mapM_stampOfJson]
        rfl
      · split
        · next hnil => rw [hnil]; rfl
        · rfl

variable (rt) in
/-- An event is read back exactly if its source is. -/
theorem fromJsonValue_toJsonValue (hevent : event.WellFormed) (hcodecs : codecs.ReadsBack event)
    (fresh : Uuid) :
    ∃ stamps, stamps.getD [] = event.ltpStamps.getD [] ∧
      OwnedEvent.fromJsonValue rt codecs fresh (event.toJsonValue rt codecs) =
        (parseSocketAddr
          (event.source.ip.display ++ ':' :: formatNat event.source.port.toNat)).map fun source =>
            { event with
              source := source
              workspace := workspaceOfJson rt codecs (event.toJsonValue rt codecs)
              ltpStamps := stamps } := by
  obtain ⟨stamps, hstamps, hsame⟩ := stampsOfJson_toJson rt codecs event
  have hkey := keyOfJson_toJson rt hevent hcodecs fresh
  have hsource := sourceOfJson_toJson rt codecs event
  have hingress : jsonToBytes rt codecs (bytesToJson rt codecs event.ingress) =
      some event.ingress := jsonToBytes_bytesToJson (hcodecs.bytes _ (by simp))
  have hegress : jsonToBytes rt codecs (bytesToJson rt codecs event.egress) =
      some event.egress := jsonToBytes_bytesToJson (hcodecs.bytes _ (by simp))
  have hgetIngress : (event.toJsonValue rt codecs).get "ingress" =
      some (bytesToJson rt codecs event.ingress) := rfl
  have hgetEgress : (event.toJsonValue rt codecs).get "egress" =
      some (bytesToJson rt codecs event.egress) := rfl
  have hgetReceived : (event.toJsonValue rt codecs).get "received_at" =
      some (.number (.ofInt ((timestampNanos event.receivedAt).getD 0))) := rfl
  have hreceived : (Json.number (.ofInt ((timestampNanos event.receivedAt).getD 0))).asInt =
      some (Int64.ofInt event.receivedAt) := by
    rw [timestampNanos, if_pos hevent.receivedAt]
    exact JsonNumber.asInt_ofInt _
  have hround : (Int64.ofInt event.receivedAt).toInt = event.receivedAt :=
    Int64.toInt_ofInt_of_le hevent.receivedAt.1 (lt_of_le_of_lt hevent.receivedAt.2 (by decide))
  refine ⟨stamps, hsame, ?_⟩
  unfold OwnedEvent.fromJsonValue
  simp only [hkey, hgetIngress, hingress, hsource, hgetReceived, hreceived, hstamps, hgetEgress,
    hegress, hround, Option.bind_eq_bind, Option.bind_some, Option.getD_some]
  cases parseSocketAddr
    (event.source.ip.display ++ ':' :: formatNat event.source.port.toNat) <;> rfl

/-- **Events from IPv4 sources are read back, the others are not.** -/
theorem restored_iff_v4 (rt : Runtime) (codecs : Codecs) (fresh : Uuid) (event : OwnedEvent)
    (hevent : event.WellFormed) (hcodecs : codecs.ReadsBack event) :
    (∃ restored, OwnedEvent.fromJsonValue rt codecs fresh (event.toJsonValue rt codecs) =
        some restored ∧ Restores event restored) ↔
      ∃ ip port, event.source = .v4 ip port := by
  obtain ⟨stamps, hstamps, hread⟩ := fromJsonValue_toJsonValue rt hevent hcodecs fresh
  cases hsource : event.source with
  | v4 ip port =>
      have hparse : parseSocketAddr (event.source.ip.display ++
          ':' :: formatNat event.source.port.toNat) = some (.v4 ip port) := by
        rw [hsource]
        exact parse_display_v4 ip port
      rw [hparse] at hread
      refine iff_of_true ⟨_, hread, rfl, rfl, hsource.symm, rfl, rfl, hstamps⟩ ⟨ip, port, rfl⟩
  | v6 ip port flowinfo scopeId =>
      have hparse : parseSocketAddr (event.source.ip.display ++
          ':' :: formatNat event.source.port.toNat) = none := by
        rw [hsource]
        exact parse_display_v6 ip _
      rw [hparse] at hread
      refine iff_of_false ?_ ?_
      · rintro ⟨restored, hrestored, -⟩
        rw [hread] at hrestored
        exact absurd hrestored (by simp)
      · rintro ⟨ip, port, h⟩
        exact absurd h (by simp)

end RoundTrip

/-! ## Examples -/

/-- A key of the seventh version. -/
def sampleKey : Uuid := 0x01890a5dac96774bbcceb302099a8057

/-- An event with a byte that is no text. -/
def sampleEvent (source : SocketAddr) : OwnedEvent where
  key := sampleKey
  receivedAt := 1700000000000000000
  source := source
  ingress := [255]
  egress := [65]
  workspace := [("severity", .int 3)]
  ltpStamps := some [⟨"edge", 1, 2⟩]

/-- The crates on the sample event. -/
def sampleCodecs : Codecs where
  hyphenated key := if key = sampleKey then "01890a5d-ac96-774b-bcce-b302099a8057" else ""
  parseStr raw := if raw = "01890a5d-ac96-774b-bcce-b302099a8057" then some sampleKey else none
  base64 :=
    { encode := fun data => if data = [255] then "/w==" else "QQ=="
      decode := fun text =>
        if text = "/w==" then .ok [255]
        else if text = "QQ==" then .ok [65]
        else .error "Invalid padding" }

theorem wellFormed_sampleEvent (source : SocketAddr) : (sampleEvent source).WellFormed where
  version := by show sampleKey.versionNum = 7; decide
  variant := by show sampleKey.isRfc4122 = true; decide
  receivedAt := by show _ ≤ (1700000000000000000 : ℤ) ∧ (1700000000000000000 : ℤ) ≤ _; decide

/-- `127.0.0.1:514`. -/
def loopbackV4 : SocketAddr := .v4 .localhost 514

theorem restored_loopbackV4 :
    (sampleEvent loopbackV4).WellFormed ∧ ∀ rt fresh, ∃ restored,
      OwnedEvent.fromJsonValue rt sampleCodecs fresh
          ((sampleEvent loopbackV4).toJsonValue rt sampleCodecs) = some restored ∧
        Restores (sampleEvent loopbackV4) restored := by
  refine ⟨wellFormed_sampleEvent loopbackV4, fun rt fresh => ?_⟩
  have hcodecs : sampleCodecs.ReadsBack (sampleEvent loopbackV4) := by
    refine ⟨rfl, fun data hdata => ?_⟩
    simp only [sampleEvent, List.mem_cons, List.not_mem_nil, or_false] at hdata
    rcases hdata with rfl | rfl <;> rfl
  exact (restored_iff_v4 rt sampleCodecs fresh (sampleEvent loopbackV4)
    (wellFormed_sampleEvent loopbackV4) hcodecs).mpr ⟨_, _, rfl⟩

/-- `[::1]:514`. -/
def loopbackV6 : SocketAddr := .v6 ⟨#v[0, 0, 0, 0, 0, 0, 0, 1]⟩ 514 0 0

theorem lost_loopbackV6 :
    (sampleEvent loopbackV6).WellFormed ∧ ∀ rt codecs fresh,
      OwnedEvent.fromJsonValue rt codecs fresh
        ((sampleEvent loopbackV6).toJsonValue rt codecs) = none := by
  refine ⟨wellFormed_sampleEvent loopbackV6, fun rt codecs fresh => ?_⟩
  have hsource := sourceOfJson_toJson rt codecs (sampleEvent loopbackV6)
  rw [show (sampleEvent loopbackV6).source = loopbackV6 from rfl] at hsource
  have hnone : sourceOfJson ((sampleEvent loopbackV6).toJsonValue rt codecs) = none :=
    hsource.trans (parse_display_v6 ⟨#v[0, 0, 0, 0, 0, 0, 0, 1]⟩ _)
  simp [OwnedEvent.fromJsonValue, hnone]

end Limpid
