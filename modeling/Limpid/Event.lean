import Limpid.Dsl.Ast
import Limpid.Ltp.Frame
import Limpid.Net

/-!
# Events

`event.rs`: an event as it is kept between pipelines (`OwnedEvent`) and as one pipeline sees it
(`BorrowedEvent`).  The drop-fired ack of an event is not part of this; the inputs that use it
model it themselves.  A workspace outside a pipeline is a hash map: its entries are listed in some
order, each key once.
-/

namespace Limpid

open Limpid.Dsl Limpid.Net

/-- `uuid::Uuid`, most significant byte first. -/
abbrev Uuid := BitVec 128

/-- `OwnedEvent`, without what no modelled function reads. -/
structure OwnedEvent where
  key : Uuid
  receivedAt : Timestamp
  source : SocketAddr
  ingress : Bytes
  egress : Bytes
  workspace : List (String × OwnedValue)
  ltpStamps : Option (List Ltp.HopStamp)

/-- `BorrowedEvent`: an event in the arena of a pipeline. -/
structure BorrowedEvent where
  key : Uuid
  receivedAt : Timestamp
  source : SocketAddr
  ingress : Bytes
  egress : Bytes
  workspace : List (String × Value)
  ltpStamps : Option (List Ltp.HopStamp)

/-- `view_in`: the event with its values in the arena. -/
def OwnedEvent.viewIn (event : OwnedEvent) : BorrowedEvent where
  key := event.key
  receivedAt := event.receivedAt
  source := event.source
  ingress := event.ingress
  egress := event.egress
  workspace := event.workspace.map fun (key, value) => (key, value.viewIn)
  ltpStamps := event.ltpStamps

namespace BorrowedEvent

/-- `to_owned`. -/
def toOwned (event : BorrowedEvent) : OwnedEvent where
  key := event.key
  receivedAt := event.receivedAt
  source := event.source
  ingress := event.ingress
  egress := event.egress
  workspace := event.workspace.foldl (fun (map : Map) (key, value) =>
    map.insert key value.toOwnedValue) []
  ltpStamps := event.ltpStamps

/-- `to_owned_without_workspace`: the copy for an output that does not read it. -/
def toOwnedWithoutWorkspace (event : BorrowedEvent) : OwnedEvent :=
  { event.toOwned with workspace := [] }

/-- `workspace_get`. -/
def workspaceGet (key : String) (event : BorrowedEvent) : Option Value :=
  event.workspace.lookup key

/-- `workspace_set`: the first entry of the key is replaced, or a new one comes last. -/
def setEntry (key : String) (value : Value) : List (String × Value) → List (String × Value)
  | [] => [(key, value)]
  | (k, v) :: rest => if k = key then (k, value) :: rest else (k, v) :: setEntry key value rest

/-- `workspace_set`: the key keeps its place if it is there. -/
def workspaceSet (key : String) (value : Value) (event : BorrowedEvent) : BorrowedEvent :=
  { event with workspace := setEntry key value event.workspace }

/-- `workspace_remove`: the first entry of the key. -/
def workspaceRemove (key : String) (event : BorrowedEvent) : BorrowedEvent :=
  { event with workspace := event.workspace.eraseP fun entry => entry.1 = key }

end BorrowedEvent

end Limpid
