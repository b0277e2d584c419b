import SharedWorld.Character.Blob
import SharedWorld.Character.Presence
import SharedWorld.Packet.Basic

/-! # Characters

A character as the server holds it.
-/

namespace SharedWorld

structure Character where
  presence : Presence
  position : Position
  type : String
  appearance : Appearance := {}
  /-- Clients glide to the next position they hear of instead of jumping. -/
  glide : Bool := true
  deriving DecidableEq

namespace Character

def data (c : Character) : CharacterData := ⟨c.presence.player, c.glide, c.position, c.type⟩

def tick (c : Character) (frame : Micros) : Character :=
  { c with presence := c.presence.tick frame }

def afterBroadcast (c : Character) : Character :=
  { c with presence := c.presence.afterBroadcast, glide := true }

/-- Arms the next broadcast and lets it place the character at once. -/
def rearm (c : Character) : Character :=
  { c with presence := { c.presence with armed := true }, glide := false }

def snapshot (c : Character) (world : String) (now : Micros) : EntityUpdate :=
  { entity := c.presence.entity, player := c.presence.player, world, time := now,
    type := c.presence.type, data := c.data.toBlob }

end Character

end SharedWorld
