import SharedWorld.Link.Route
import SharedWorld.Login.Error

/-! # The roster

Which connections wait for a login, and which player is logged in on which connection.
-/

namespace SharedWorld

structure Player where
  connection : ConnectionId
  id : PlayerId := .none
  name : String := ""
  address : Option Address := none
  world : Option String := none
  deriving DecidableEq, Repr

namespace Player

def isAuthenticated (p : Player) : Bool := p.id.isPlayer

end Player

structure Roster where
  pending : Table ConnectionId Player := ∅
  players : Table PlayerId Player := ∅
  byConnection : Table ConnectionId PlayerId := ∅

namespace Roster

def addPending (r : Roster) (c : ConnectionId) : Roster :=
  { r with pending := r.pending.insert c { connection := c } }

def authenticate (r : Roster) (c : ConnectionId) (id : PlayerId) (name : String) :
    Except LoginError (Roster × Player) :=
  if r.players.contains id then .error (.alreadyConnected id)
  else match r.pending.get? c with
  | none => .error (.unknownConnection c)
  | some player =>
    let player := { player with id, name }
    .ok ({ pending := r.pending.erase c, players := r.players.insert id player,
           byConnection := r.byConnection.insert c id }, player)

def get? (r : Roster) (id : PlayerId) : Option Player := r.players.get? id

def onConnection? (r : Roster) (c : ConnectionId) : Option Player := do
  r.players.get? (← r.byConnection.get? c)

/-- A vital packet comes from its stream's player, any other from the player that it names. -/
def sender? (r : Roster) (p : Packet) (source : Route) : Option Player :=
  if p.isVital then
    match source with
    | .stream c => r.onConnection? c <|> r.pending.get? c
    | .datagram _ => none
  else do r.players.get? (← p.sender?)

/-- Remembers a player's datagram address, and says whether it is a new one. -/
def link (r : Roster) (id : PlayerId) (a : Address) : Except LoginError (Roster × Bool) :=
  match r.get? id with
  | none => .error (.playerNotFound id)
  | some player =>
    if player.address = some a then .ok (r, false)
    else .ok ({ r with players := r.players.insert id { player with address := some a } }, true)

def setWorld (r : Roster) (id : PlayerId) (world : Option String) : Except LoginError Roster :=
  match r.get? id with
  | none => .error (.playerNotFound id)
  | some player => .ok { r with players := r.players.insert id { player with world } }

def remove (r : Roster) (c : ConnectionId) : Option Player × Roster :=
  match r.pending.get? c with
  | some player => (some player, { r with pending := r.pending.erase c })
  | none =>
    match r.byConnection.get? c with
    | none => (none, r)
    | some id => (r.players.get? id,
        { r with players := r.players.erase id, byConnection := r.byConnection.erase c })

end Roster

end SharedWorld
