import SharedWorld.Character.Basic
import SharedWorld.Link.Route
import SharedWorld.Packet.Codec
import SharedWorld.Text.Quoted
import SharedWorld.World.Config

/-! # Worlds

The authoritative state of one world, and how it speaks to its members.
-/

namespace SharedWorld

/-- A player in a world, with the routes on which it is reached. -/
structure Member where
  player : PlayerId
  name : String
  connection : ConnectionId
  address : Option Address
  character : EntityId
  deriving DecidableEq, Repr

structure World where
  name : String
  spawn : Position
  sync : SyncConfig
  islands : List Island
  presence : Presence
  characters : Table EntityId Character := ∅
  members : Table PlayerId Member := ∅

namespace World

/-- A world takes one entity number for itself. -/
def create (config : WorldConfig) (sync : SyncConfig) (ids : EntityIds) : World × EntityIds :=
  let sync := sync.validated
  let (id, ids) := ids.take
  ({ name := config.name, spawn := config.spawn, sync
     islands := config.islands.mapIdx Island.ofConfig
     presence := .create id .world .none sync.worldBroadcast }, ids)

def systemName : String := "System"

def playerCharacterType : String := "player"

/-- Frames that cannot be encoded at all count as fitting: they never leave. -/
def fitsDatagram (p : Packet) : Bool :=
  match p.encode with
  | .ok frame => frame.length ≤ maxDatagram
  | .error _ => true

/-- The stream for packets that must arrive, else the datagram address if there is one. -/
def routeTo (m : Member) (reliable : Bool) : Option Route :=
  if reliable then some (.stream m.connection) else m.address.map .datagram

def sendAll (w : World) (p : Packet) (except : Option PlayerId) (delay : UInt64) (force : Bool) :
    List Envelope :=
  let reliable := p.isVital || force || !fitsDatagram p
  (w.members.values.filter fun m => some m.player ≠ except).filterMap fun m =>
    (routeTo m reliable).map fun target => { target, packet := p, delay }

/-- A chat line to the members, stamped with the wall-clock time in milliseconds. -/
def sendChat (w : World) (message user : String) (except : Option PlayerId) (wall : UInt64) :
    List Envelope :=
  w.sendAll (.relayChat user message wall) except 0 false

def sendDetails (w : World) (entity : EntityId) : List Envelope :=
  match w.characters.get? entity with
  | none => []
  | some c => w.sendAll (.setDetails entity w.name c.appearance) none 0 false

def tileData (w : World) : Bytes := TileLog.writeAll (w.islands.map (·.log))

def characterOf? (w : World) (player : PlayerId) : Option Character := do
  w.characters.get? (← w.members.get? player).character

def setPlot (w : World) (island layer : Nat) (x y : UInt32) (plot : Plot) (time : UInt64) :
    Except WorldError (World × UInt64) :=
  match w.islands[island]? with
  | none => .error (.islandNotFound island)
  | some i => do
    let (i, time) ← i.setPlot layer x y plot time
    return ({ w with islands := w.islands.set island i }, time)

def summary (w : World) : String :=
  "World \x7b name: " ++ Text.quoted w.name ++ s!", islands: {w.islands.length}" ++
    s!", characters: {w.characters.size}, members: {w.members.size} \x7d"

end World

end SharedWorld
