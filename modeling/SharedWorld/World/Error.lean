import SharedWorld.Identity
import SharedWorld.Wire.Error

/-! # World errors

Why a world, or the set of worlds, refuses an operation.
-/

namespace SharedWorld

inductive WorldError
  | worldNotFound (name : String)
  | duplicateWorld (name : String)
  | playerNotInWorld (player : PlayerId)
  | playerAlreadyInWorld (player : PlayerId) (world : String)
  | entityNotFound (entity : EntityId)
  | notOwner (player : PlayerId) (entity : EntityId)
  | unsupportedEntityType (type : EntityType)
  | islandNotFound (island : Nat)
  | tileOutOfBounds (island layer : Nat) (x y : UInt32)
  | trailingData (remaining : Nat)
  | malformedData (cause : WireError)
  deriving DecidableEq, Repr

namespace WorldError

def message : WorldError → String
  | worldNotFound name => "world \x60" ++ name ++ "\x60 not found"
  | duplicateWorld name => "world \x60" ++ name ++ "\x60 already exists"
  | playerNotInWorld player => "player " ++ player.text ++ " is not in a world"
  | playerAlreadyInWorld player world =>
    "player " ++ player.text ++ " is already in world \x60" ++ world ++ "\x60"
  | entityNotFound entity => "entity " ++ entity.text ++ " not found"
  | notOwner player entity => "player " ++ player.text ++ " may not update entity " ++ entity.text
  | unsupportedEntityType type => "cannot create entity of type " ++ type.name
  | islandNotFound island => s!"island {island} not found"
  | tileOutOfBounds island layer x y =>
    s!"tile ({x.toNat}, {y.toNat}) on layer {layer} is outside island {island}"
  | trailingData remaining => s!"{remaining} trailing bytes after entity data"
  | malformedData cause => "malformed entity data: " ++ cause.message

end WorldError

end SharedWorld
