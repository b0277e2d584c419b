import SharedWorld.Identity
import SharedWorld.Wire.Word
import SharedWorld.Packet.Kind

/-! # Packets

What client and server say to each other.
-/

namespace SharedWorld

/-- How a character looks; each part names an asset of the client. -/
structure Appearance where
  hair : String := ""
  body : String := ""
  clothesTop : String := ""
  clothesBottom : String := ""
  feet : String := ""
  deriving DecidableEq, Repr, Inhabited

/-- The server's snapshot of one entity at one time of the game clock. -/
structure EntityUpdate where
  entity : EntityId := .unassigned
  player : PlayerId := .none
  world : String := ""
  time : UInt64 := 0
  type : EntityType := .unknown
  data : Bytes := []
  deriving DecidableEq, Repr

/-- A client's report on its own entity. It names its player, for a datagram has no connection. -/
structure OwnUpdate where
  player : PlayerId := .none
  entity : EntityId := .unassigned
  time : UInt64 := 0
  type : EntityType := .unknown
  data : Bytes := []
  deriving DecidableEq, Repr

inductive Packet
  | loadWorld (world : String)
  | worldLoaded
  | entityUpdate (update : EntityUpdate)
  | setPlayer (player : PlayerId)
  | probe (player : PlayerId)
  | ownUpdate (update : OwnUpdate)
  | joined (player : PlayerId) (world : String)
  | left (player : PlayerId) (world : String)
  | removeEntity (entity : EntityId) (world : String)
  | setDetails (entity : EntityId) (world : String) (appearance : Appearance)
  | authenticate (user : String) (password : String)
  | requestPassword (user : String)
  | sendPassword (user : String) (password : String)
  | say (message : String)
  | relayChat (user : String) (message : String) (time : UInt64)
  deriving DecidableEq, Repr

namespace Packet

def kind : Packet → PacketKind
  | loadWorld .. => .loadWorld
  | worldLoaded => .worldLoaded
  | entityUpdate .. => .entityUpdate
  | setPlayer .. => .setPlayer
  | probe .. => .probe
  | ownUpdate .. => .ownUpdate
  | joined .. => .joined
  | left .. => .left
  | removeEntity .. => .removeEntity
  | setDetails .. => .setDetails
  | authenticate .. => .authenticate
  | requestPassword .. => .requestPassword
  | sendPassword .. => .sendPassword
  | say .. => .say
  | relayChat .. => .relayChat

def isVital (p : Packet) : Bool := p.kind.isVital

/-- Packets that may arrive as datagrams from a client say who sent them. -/
def sender? : Packet → Option PlayerId
  | probe player => some player
  | ownUpdate update => some update.player
  | _ => none

/-- A packet of the given kind with every field empty. -/
def blank : PacketKind → Packet
  | .loadWorld => loadWorld ""
  | .worldLoaded => worldLoaded
  | .entityUpdate => entityUpdate {}
  | .setPlayer => setPlayer .none
  | .probe => probe .none
  | .ownUpdate => ownUpdate {}
  | .joined => joined .none ""
  | .left => left .none ""
  | .removeEntity => removeEntity .unassigned ""
  | .setDetails => setDetails .unassigned "" {}
  | .authenticate => authenticate "" ""
  | .requestPassword => requestPassword ""
  | .sendPassword => sendPassword "" ""
  | .say => say ""
  | .relayChat => relayChat "" "" 0

end Packet

end SharedWorld
