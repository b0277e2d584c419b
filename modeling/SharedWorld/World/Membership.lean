import SharedWorld.Login.Roster
import SharedWorld.World.Basic

/-! # Coming and going

Players enter and leave a world, and characters appear in it and vanish from it. A
refused operation changes nothing and sends nothing.
-/

namespace SharedWorld

namespace World

def insertCharacter (w : World) (c : Character) : World × List Envelope :=
  let w := { w with characters := w.characters.insert c.presence.entity c }
  (w, w.sendDetails c.presence.entity)

def newCharacter (w : World) (entity : EntityId) (player : PlayerId) (position : Position)
    (type : String) : Character :=
  { presence := .create entity .character player w.sync.characterBroadcast, position, type }

/-- The members hear of the new character first; the newcomer is only told to load the world. -/
def addPlayer (w : World) (ids : EntityIds) (p : Player) (entity : Option EntityId) :
    Except WorldError (Step World (EntityId × EntityIds)) :=
  if w.members.contains p.id then .error (.playerAlreadyInWorld p.id w.name)
  else
    let (id, ids) := match entity with
      | some id => (id, ids)
      | none => ids.take
    let (w, sent) := w.insertCharacter (w.newCharacter id p.id w.spawn playerCharacterType)
    let m : Member :=
      { player := p.id, name := p.name, connection := p.connection, address := p.address,
        character := id }
    .ok { state := { w with members := w.members.insert p.id m }
          sent := sent ++ [{ target := .stream p.connection, packet := .loadWorld w.name }]
          value := (id, ids) }

def addCharacter (w : World) (ids : EntityIds) (position : Position) (type : String) :
    Step World (EntityId × EntityIds) :=
  let (id, ids) := ids.take
  let (state, sent) := w.insertCharacter (w.newCharacter id .none position type)
  { state, sent, value := (id, ids) }

/-- The removal notice goes out twice, the second time delayed. -/
def removeEntity (w : World) (entity : EntityId) : Except WorldError (World × List Envelope) :=
  if w.characters.contains entity then
    let w := { w with characters := w.characters.erase entity }
    let notice := Packet.removeEntity entity w.name
    .ok (w, w.sendAll notice none 0 false ++ w.sendAll notice none w.sync.removeResendDelay false)
  else .error (.entityNotFound entity)

def removePlayer (w : World) (player : PlayerId) (wall : UInt64) :
    Except WorldError (Step World Member) :=
  match w.members.get? player with
  | none => .error (.playerNotInWorld player)
  | some m =>
    let w := { w with members := w.members.erase player }
    let sent := w.sendAll (.left player w.name) (some player) 0 false ++
      w.sendChat ("Player \x60" ++ m.name ++ "\x60 has left this world.") systemName
        (some player) wall
    match w.removeEntity m.character with
    | .ok (w, removal) => .ok { state := w, sent := sent ++ removal, value := m }
    | .error _ => .ok { state := w, sent, value := m }

def setAddress (w : World) (player : PlayerId) (a : Address) : Except WorldError World :=
  match w.members.get? player with
  | none => .error (.playerNotInWorld player)
  | some m => .ok { w with members := w.members.insert player { m with address := some a } }

end World

end SharedWorld
