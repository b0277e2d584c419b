import SharedWorld.Position
import SharedWorld.Tile.Island

/-! # World configuration

What a world starts with, and how often it speaks.
-/

namespace SharedWorld

structure WorldConfig where
  name : String := "farm"
  spawn : Position := ⟨0, 0⟩
  islands : List IslandConfig := [{}]
  deriving DecidableEq

/-- Delays and intervals in milliseconds. -/
structure SyncConfig where
  removeResendDelay : UInt64 := 100
  characterBroadcast : UInt64 := 50
  worldBroadcast : UInt64 := 1000
  deriving DecidableEq, Repr

namespace SyncConfig

def validated (c : SyncConfig) : SyncConfig :=
  { c with
    characterBroadcast := if c.characterBroadcast = 0 then 1 else c.characterBroadcast
    worldBroadcast := if c.worldBroadcast = 0 then 1 else c.worldBroadcast }

end SyncConfig

end SharedWorld
