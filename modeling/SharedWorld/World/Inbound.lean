import SharedWorld.World.Basic

/-! # Packets from members

What a world does with the packets of its members. A refused packet changes nothing
and sends nothing.
-/

namespace SharedWorld

namespace World

def member (w : World) (player : PlayerId) : Except WorldError Member :=
  match w.members.get? player with
  | some m => .ok m
  | none => .error (.playerNotInWorld player)

/-- A member that has loaded the world is announced, and hears of everything there is. -/
def worldLoaded (w : World) (player : PlayerId) (wall : UInt64) :
    Except WorldError (World × List Envelope) := do
  let m ← w.member player
  let joined := w.sendAll (.joined player w.name) none 0 false
  let w := { w with characters := w.characters.modify m.character Character.rearm }
  let details := w.characters.keys.flatMap w.sendDetails
  let greeting := w.sendChat ("Player \x60" ++ m.name ++ "\x60 has joined this world.") systemName
    (some player) wall
  return (w, joined ++ details ++ greeting)

/-- Moves a member's own character, and says whether the report was taken. -/
def ownUpdate (w : World) (player : PlayerId) (u : OwnUpdate) :
    Except WorldError (World × Bool) := do
  let m ← w.member player
  if u.entity ≠ m.character then throw (.notOwner player u.entity)
  let report ← PositionReport.ofBlob u.data
  if report.world ≠ w.name then return (w, false)
  match w.characters.get? u.entity with
  | none => throw (.entityNotFound u.entity)
  | some c =>
    match c.presence.accept? u.time with
    | none => return (w, false)
    | some presence =>
      let c := { c with presence, position := report.position }
      return ({ w with characters := w.characters.insert u.entity c }, true)

def say (w : World) (player : PlayerId) (message : String) (wall : UInt64) :
    Except WorldError (List Envelope) := do
  let m ← w.member player
  return w.sendChat message m.name (some player) wall

def handle (w : World) (player : PlayerId) (p : Packet) (wall : UInt64) :
    Except WorldError (World × List Envelope) :=
  match p with
  | .worldLoaded => w.worldLoaded player wall
  | .ownUpdate u => return ((← w.ownUpdate player u).1, [])
  | .say message => return (w, ← w.say player message wall)
  | _ => .ok (w, [])

end World

end SharedWorld
