import SharedWorld.Identity
import SharedWorld.Micros

/-! # Presence

Who an entity is, whose it is, and when the server tells the clients about it.
-/

namespace SharedWorld

structure Presence where
  entity : EntityId
  type : EntityType
  player : PlayerId
  /-- The time of the newest update taken from the owner. -/
  lastUpdate : UInt64 := 0
  interval : Micros
  elapsed : Micros := 0
  broadcasting : Bool := true
  /-- The next broadcast goes to the owner too, and on the stream. -/
  armed : Bool := true
  deriving DecidableEq, Repr

namespace Presence

def create (entity : EntityId) (type : EntityType) (player : PlayerId) (intervalMillis : UInt64) :
    Presence :=
  { entity, type, player, interval := Micros.ofMillis intervalMillis }

def tick (p : Presence) (frame : Micros) : Presence :=
  { p with elapsed := p.elapsed.plus frame }

def isDue (p : Presence) : Bool := p.broadcasting && decide (p.interval ≤ p.elapsed)

def afterBroadcast (p : Presence) : Presence := { p with elapsed := 0, armed := false }

/-- The owner is left out of every broadcast that is not armed. -/
def excluded? (p : Presence) : Option PlayerId :=
  if p.player.isPlayer && !p.armed then some p.player else none

/-- Takes an update only when it is newer than all before. -/
def accept? (p : Presence) (time : UInt64) : Option Presence :=
  if time ≤ p.lastUpdate then none else some { p with lastUpdate := time }

end Presence

end SharedWorld
