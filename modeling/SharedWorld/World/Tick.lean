import SharedWorld.Clock
import SharedWorld.World.Basic

/-! # World ticks

A tick lets time pass for every entity and broadcasts those that are due, first the
tiles, then the characters in the order of their numbers.
-/

namespace SharedWorld

namespace World

def tileUpdate (w : World) (now : Micros) : EntityUpdate :=
  { entity := w.presence.entity, player := .none, world := w.name, time := now, type := .world,
    data := w.tileData }

/-- What a character broadcasts once the frame has passed, when it is due. -/
def announce (w : World) (now : Micros) (c : Character) : List Envelope :=
  if c.presence.isDue then
    w.sendAll (.entityUpdate (c.snapshot w.name now)) c.presence.excluded? 0 c.presence.armed
  else []

def settle (c : Character) : Character := if c.presence.isDue then c.afterBroadcast else c

def tick (w : World) (clock : Clock) : World × List Envelope :=
  let presence := w.presence.tick clock.frame
  let characters := w.characters.map (·.tick clock.frame)
  let tiles := if presence.isDue then
    w.sendAll (.entityUpdate (w.tileUpdate clock.total)) none 0 presence.armed else []
  ({ w with
     presence := if presence.isDue then presence.afterBroadcast else presence
     characters := characters.map settle },
   tiles ++ characters.values.flatMap (w.announce clock.total))

end World

end SharedWorld
