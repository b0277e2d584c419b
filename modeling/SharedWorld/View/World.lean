import SharedWorld.Tile.View
import SharedWorld.View.Character

/-! # Views of a world

A client's copy of one world, kept up to date by packets that may be late, repeated
or for another world.
-/

namespace SharedWorld

structure ChatLine where
  user : String
  message : String
  time : UInt64
  deriving DecidableEq, Repr

structure WorldView where
  name : String
  localPlayer : PlayerId
  characters : Table EntityId CharacterView := ∅
  /-- Appearances that arrived before their character. -/
  pending : Table EntityId Appearance := ∅
  tiles : TileView := {}
  lastWorldUpdate : UInt64 := 0
  /-- Oldest first. -/
  chat : List ChatLine := []

namespace WorldView

inductive Outcome
  | applied | stale | otherWorld
  deriving DecidableEq, Repr

def Outcome.name : Outcome → String
  | applied => "Applied"
  | stale => "Stale"
  | otherWorld => "OtherWorld"

def applyCharacter (v : WorldView) (u : EntityUpdate) :
    Except WorldError (Outcome × WorldView) := do
  let known := v.characters.get? u.entity
  if known.any (u.time ≤ ·.lastUpdate) then return (.stale, v)
  let data ← CharacterData.ofBlob u.data
  let c := { known.getD { entity := u.entity } with lastUpdate := u.time }.apply data
  let c := { c with appearance := v.pending.get? u.entity <|> c.appearance }
  return (.applied, { v with
    characters := v.characters.insert u.entity c, pending := v.pending.erase u.entity })

def applyUpdate (v : WorldView) (u : EntityUpdate) : Except WorldError (Outcome × WorldView) :=
  if u.world ≠ v.name then .ok (.otherWorld, v)
  else match u.type with
  | .world =>
    if u.time ≤ v.lastWorldUpdate then .ok (.stale, v)
    else do
      let (tiles, _) ← v.tiles.apply u.data
      return (.applied, { v with tiles, lastWorldUpdate := u.time })
  | .character => v.applyCharacter u
  | .unknown => .error (.unsupportedEntityType .unknown)

def removeEntity (v : WorldView) (entity : EntityId) (world : String) : Bool × WorldView :=
  if world ≠ v.name then (false, v)
  else (v.characters.contains entity, { v with
    characters := v.characters.erase entity, pending := v.pending.erase entity })

def setDetails (v : WorldView) (entity : EntityId) (world : String) (a : Appearance) : WorldView :=
  if world ≠ v.name then v
  else if v.characters.contains entity then
    { v with characters := v.characters.modify entity fun c => { c with appearance := some a } }
  else { v with pending := v.pending.insert entity a }

def handle (v : WorldView) : Packet → Except WorldError WorldView
  | .entityUpdate u => return (← v.applyUpdate u).2
  | .removeEntity e w => .ok (v.removeEntity e w).2
  | .setDetails e w a => .ok (v.setDetails e w a)
  | .relayChat user message time => .ok { v with chat := v.chat ++ [⟨user, message, time⟩] }
  | _ => .ok v

/-- Moves every character on by `frame` milliseconds; undefined where a tween is. -/
def tick (v : WorldView) (frame : Float32) : Option WorldView :=
  if v.characters.values.all fun c => (c.advance frame).isSome then
    some { v with characters := v.characters.map fun c => (c.advance frame).getD c }
  else none

def localCharacter? (v : WorldView) : Option CharacterView :=
  v.characters.values.find? fun c => c.player = v.localPlayer ∧ c.player.isPlayer

end WorldView

end SharedWorld
