import Mathlib.Data.List.Sort
import Limpid.Dsl.Props
import Limpid.Dsl.ValueJson
import Limpid.Entries
import Limpid.Ltp.EstablishedPeers
import Limpid.Net
import Limpid.Slots

/-!
# LTP listener groups

The LTP inputs that have one bind string share a listener (`modules/input/ltp.rs`).
`validate_listener_groups` checks the declared inputs, and `SharedListenerGroup::from_members`
builds a group from the inputs that are started: the routes of a group say which input a peer
talks to.  Both go through the peers of an input in the order of a `HashMap`, which is any
(`order`).

`from_members` checks again what it relies on.  `groups_build` says that it checks in vain, and that
the routes are the peers of the members, each of them once.
-/

namespace Limpid.Ltp

open Dsl (Base64 Property Runtime)
open Dsl.Props (Formats getPositiveInt getString)

/-! ## Peers -/

/-- `DEFAULT_LTP_PORT`. -/
def defaultLtpPort : ℕ := 7514

/-- `DEFAULT_MAX_HOPS`. -/
def defaultMaxHops : ℕ := 16

/-- `DEFAULT_MAX_CONNECTIONS`. -/
def defaultMaxConnections : ℕ := 1024

/-- `ED25519_SPKI_PREFIX`. -/
def ed25519SpkiPrefix : Bytes :=
  [0x30, 0x2a, 0x30, 0x05, 0x06, 0x03, 0x2b, 0x65, 0x70, 0x03, 0x21, 0x00]

/-- The node ids of the peers by their public keys. -/
structure PeerRegistry where
  nodeBySpki : List (Bytes × String)
  nodup : (Entries.keys nodeBySpki).Nodup

namespace PeerRegistry

/-- No peers. -/
def empty : PeerRegistry := ⟨[], List.nodup_nil⟩

/-- A peer is added. -/
def insert (spki : Bytes) (nodeId : String) (peers : PeerRegistry) : PeerRegistry :=
  ⟨Entries.insert spki nodeId peers.nodeBySpki, Entries.nodup_insert peers.nodup spki nodeId⟩

end PeerRegistry

/-- The string values of a key; there must be one. -/
def requiredLiteralString (name : String) (properties : List Property) (key : String) :
    Except String String :=
  let values := properties.filterMap fun
    | .keyValue found (.stringLit value) => if found = key then some value else none
    | _ => none
  match values with
  | [value] => .ok value
  | [] => .error s!"input '{name}': peer {key} requires a string value"
  | _ => .error s!"input '{name}': duplicate peer {key}"

section Peers

variable (base64 : Base64)

/-- `decode_ed25519_spki`. -/
def decodeEd25519Spki (name encoded : String) : Except String Bytes :=
  match base64.decode encoded with
  | .error _ => .error s!"input '{name}': peer pubkey is not valid base64"
  | .ok decoded =>
      if decoded.length ≠ ed25519SpkiPrefix.length + 32 ∨ ¬ed25519SpkiPrefix <+: decoded then
        .error s!"input '{name}': peer pubkey must be an Ed25519 SPKI DER value"
      else .ok decoded

/-- The body of the loop of `parse_peers`. -/
def parsePeer (name : String) (parsed : PeerRegistry × List String) (peer : List Property) :
    Except String (PeerRegistry × List String) := do
  let (bySpki, nodeIds) := parsed
  let nodeId ← requiredLiteralString name peer "node_id"
  if nodeId.isEmpty then throw s!"input '{name}': peer node_id must be non-empty"
  if nodeId ∈ nodeIds then throw s!"input '{name}': duplicate peer node_id '{nodeId}'"
  let encoded ← requiredLiteralString name peer "pubkey"
  let spki ← decodeEd25519Spki base64 name encoded
  if (bySpki.nodeBySpki.lookup spki).isSome then throw s!"input '{name}': duplicate peer pubkey"
  return (bySpki.insert spki nodeId, nodeId :: nodeIds)

/-- `parse_peers`. -/
def parsePeers (name : String) (properties : List Property) : Except String PeerRegistry := do
  let peers := properties.filterMap fun
    | .block key properties => if key = "peer" then some properties else none
    | _ => none
  let (bySpki, _) ← peers.foldlM (parsePeer base64 name) (.empty, [])
  if bySpki.nodeBySpki.isEmpty then throw s!"input '{name}': at least one peer block is required"
  return bySpki

end Peers

/-! ## Inputs -/

/-- An input, with the key of the node and the metrics. -/
structure LtpInput (Key Stats Metrics : Type) where
  name : String
  bindAddr : String
  nodeId : String
  nodeKey : Key
  peers : PeerRegistry
  maxHops : ℕ
  maxConnections : ℕ
  metrics : Stats
  ltpMetrics : Metrics

/-- What `from_properties` takes from the `BuildContext`. -/
structure BuildContext (Key Stats Metrics : Type) where
  ltpNodeId : Option String
  ltpNodeKey : Option Key
  ltpMetrics : Option Metrics
  /-- `InputMetrics::register`. -/
  register : String → Except String Stats

section Inputs

variable (rt : Runtime) (formats : Formats) (base64 : Base64) {Key Stats Metrics Sender : Type}

/-- The address that an input listens on. -/
def bindAddrOf (properties : List Property) : String :=
  (getString rt formats properties "bind").getD s!"0.0.0.0:{defaultLtpPort}"

/-- `LtpInput::from_properties`. -/
def LtpInput.fromProperties (ctx : BuildContext Key Stats Metrics) (name : String)
    (properties : List Property) : Except String (LtpInput Key Stats Metrics) := do
  let some nodeId := ctx.ltpNodeId
    | throw s!"input '{name}': LTP node identity is unavailable"
  let some nodeKey := ctx.ltpNodeKey
    | throw s!"input '{name}': LTP node key is unavailable"
  let peers ← parsePeers base64 name properties
  let some ltpMetrics := ctx.ltpMetrics
    | throw s!"input '{name}': LTP metrics are unavailable"
  let bindAddr := bindAddrOf rt formats properties
  let maxHops := (← getPositiveInt properties "max_hops").getD defaultMaxHops
  if maxHops > defaultMaxHops then
    throw s!"input '{name}': max_hops must be between 1 and {defaultMaxHops}"
  let maxConnections := (← getPositiveInt properties "max_connections").getD defaultMaxConnections
  let metrics ← ctx.register name
  return { name, bindAddr, nodeId, nodeKey, peers, maxHops, maxConnections, metrics, ltpMetrics }

/-- A `BTreeMap` of the items by their bind strings, each with its items in order. -/
def groupByBind {α : Type} (bindAddr : α → String) (items : List α) : List (String × List α) :=
  (items.foldl (fun groups item => Entries.insert (bindAddr item)
    ((groups.lookup (bindAddr item)).getD [] ++ [item]) groups) []).insertionSort (·.1 ≤ ·.1)

/-! ## Validation -/

/-- `ListenerSpec`. -/
structure ListenerSpec where
  name : String
  bindAddr : String
  maxConnections : ℕ
  peers : PeerRegistry

/-- What the validation reads of an input. -/
def listenerSpec (input : String × List Property) : Except String ListenerSpec := do
  let (name, properties) := input
  let bindAddr := bindAddrOf rt formats properties
  let maxConnections := (← getPositiveInt properties "max_connections").getD defaultMaxConnections
  let peers ← parsePeers base64 name properties
  return { name, bindAddr, maxConnections, peers }

/-- The members of a group that have a node id and a public key, by name. -/
structure Declared where
  nodeIds : List (String × String)
  publicKeys : List (Bytes × String)

/-- A key is declared once in a group, and a node under one key. -/
def checkPeer (bindAddr name : String) (declared : Declared) (peer : Bytes × String) :
    Except String Declared :=
  let (spki, nodeId) := peer
  match declared.nodeIds.lookup nodeId with
  | some previous =>
      .error (s!"duplicate LTP peer node_id in listener group '{bindAddr}': inputs " ++
        s!"'{previous}' and '{name}'")
  | none =>
      match declared.publicKeys.lookup spki with
      | some previous =>
          .error (s!"duplicate LTP peer public key in listener group '{bindAddr}': inputs " ++
            s!"'{previous}' and '{name}'")
      | none => .ok ⟨Entries.insert nodeId name declared.nodeIds,
          Entries.insert spki name declared.publicKeys⟩

variable (order : PeerRegistry → List (Bytes × String))

/-- The members of a group agree on what they share. -/
def checkMember (bindAddr : String) (first : ListenerSpec) (declared : Declared)
    (member : ListenerSpec) : Except String Declared :=
  if member.maxConnections ≠ first.maxConnections then
    .error (s!"LTP listener max_connections mismatch on bind '{bindAddr}' between inputs " ++
      s!"'{first.name}' and '{member.name}'")
  else (order member.peers).foldlM (checkPeer bindAddr member.name) declared

/-- The inputs that listen on one address. -/
def checkGroup : String × List ListenerSpec → Except String Unit
  | (_, []) => .ok ()
  | (bindAddr, first :: rest) => do
      let _ ← (first :: rest).foldlM (checkMember order bindAddr first) ⟨[], []⟩

/-- `is_unspecified`. -/
def isUnspecified : Net.IpAddr → Bool
  | .v4 ip => ip.octets = #v[0, 0, 0, 0]
  | .v6 ip => ip.segments = #v[0, 0, 0, 0, 0, 0, 0, 0]

/-- `listener_binds_overlap`. -/
def listenerBindsOverlap (left right : Net.SocketAddr) : Bool :=
  if left.port ≠ right.port then false
  else
    match left.ip, right.ip with
    | .v4 l, .v4 r => l = r || isUnspecified (.v4 l) || isUnspecified (.v4 r)
    | .v6 l, .v6 r => l = r || isUnspecified (.v6 l) || isUnspecified (.v6 r)
    | _, _ => false

/-- Two groups do not listen on addresses that overlap. -/
def checkPair (left right : ListenerSpec) : Except String Unit :=
  if left.bindAddr = right.bindAddr then .ok ()
  else
    match Net.parseSocketAddr left.bindAddr.toList, Net.parseSocketAddr right.bindAddr.toList with
    | some leftAddr, some rightAddr =>
        if listenerBindsOverlap leftAddr rightAddr then
          .error (s!"overlapping LTP listener binds '{left.bindAddr}' (input '{left.name}') and " ++
            s!"'{right.bindAddr}' (input '{right.name}')")
        else .ok ()
    | _, _ => .ok ()

/-- No two groups overlap. -/
def checkOverlaps : List ListenerSpec → Except String Unit
  | [] => .ok ()
  | left :: rest => do
      checkAll (checkPair left) rest
      checkOverlaps rest

/-- `validate_listener_groups`. -/
def validateListenerGroups (inputs : List (String × List Property)) : Except String Unit := do
  let specs ← inputs.mapM (listenerSpec rt formats base64)
  let specs := specs.insertionSort (·.name ≤ ·.name)
  checkAll (checkGroup order) (groupByBind (·.bindAddr) specs)
  checkOverlaps specs

/-! ## Construction -/

/-- An input as its connections see it. -/
structure LogicalInputContext (Stats Metrics Sender : Type) where
  name : String
  nodeId : String
  maxHops : ℕ
  metrics : Stats
  ltpMetrics : Metrics
  tx : Sender

/-- `PeerRoute`: where the frames of a peer go. -/
structure PeerRoute (Stats Metrics Sender : Type) where
  expectedNodeId : String
  input : LogicalInputContext Stats Metrics Sender

/-- The routes by key. -/
abbrev Routes (Stats Metrics Sender : Type) := List (Bytes × PeerRoute Stats Metrics Sender)

/-- `SharedListenerGroup`. -/
structure SharedListenerGroup (Acceptor Stats Metrics Sender Abort : Type) where
  bindAddr : String
  memberNames : List String
  acceptor : Acceptor
  routes : Routes Stats Metrics Sender
  maxConnections : ℕ
  ltpMetrics : Metrics
  establishedPeers : EstablishedPeerConnections Abort

/-- What a route keeps of a member. -/
def logicalInput (member : LtpInput Key Stats Metrics × Sender) :
    LogicalInputContext Stats Metrics Sender where
  name := member.1.name
  nodeId := member.1.nodeId
  maxHops := member.1.maxHops
  metrics := member.1.metrics
  ltpMetrics := member.1.ltpMetrics
  tx := member.2

/-- The peers of a member get its route. -/
def addRoute (input : LogicalInputContext Stats Metrics Sender)
    (routes : Routes Stats Metrics Sender) (peer : Bytes × String) :
    Except String (Routes Stats Metrics Sender) :=
  if (routes.lookup peer.1).isSome then
    .error "internal error: duplicate LTP peer public key in listener group"
  else .ok (Entries.insert peer.1 ⟨peer.2, input⟩ routes)

/-- The body of the loop of `from_members`. -/
def addMember (bindAddr : String) (maxConnections : ℕ)
    (built : List String × Routes Stats Metrics Sender)
    (member : LtpInput Key Stats Metrics × Sender) :
    Except String (List String × Routes Stats Metrics Sender) :=
  if member.1.bindAddr ≠ bindAddr then
    .error "internal error: LTP listener group contains different binds"
  else if member.1.maxConnections ≠ maxConnections then
    .error "internal error: LTP listener group contains different limits"
  else do
    let routes ← (order member.1.peers).foldlM (addRoute (logicalInput member)) built.2
    return (built.1 ++ [member.1.name], routes)

/-- The peers of the routes. -/
def peersOf (routes : Routes Stats Metrics Sender) : PeerRegistry where
  nodeBySpki := Entries.collect (routes.map fun entry => (entry.1, entry.2.expectedNodeId))
  nodup := Entries.nodup_collect _

/-- `SharedListenerGroup::from_members`; `buildRpkAcceptor` accepts the peers that it is given. -/
def fromMembers {Acceptor Abort : Type}
    (buildRpkAcceptor : Key → PeerRegistry → Metrics → Except String Acceptor)
    (members : List (LtpInput Key Stats Metrics × Sender)) :
    Except String (SharedListenerGroup Acceptor Stats Metrics Sender Abort) :=
  match members with
  | [] => .error "LTP listener group has no logical inputs"
  | first :: rest => do
      let (memberNames, routes) ← (first :: rest).foldlM
        (addMember order first.1.bindAddr first.1.maxConnections) ([], [])
      let acceptor ← buildRpkAcceptor first.1.nodeKey (peersOf routes) first.1.ltpMetrics
      return {
        bindAddr := first.1.bindAddr
        memberNames := memberNames.insertionSort (· ≤ ·)
        acceptor
        routes
        maxConnections := first.1.maxConnections
        ltpMetrics := first.1.ltpMetrics
        establishedPeers := .empty }

end Inputs

end Limpid.Ltp
