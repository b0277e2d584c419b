import SharedWorld.Position
import SharedWorld.Wire.Field
import SharedWorld.World.Error

/-! # Character data

What an entity update carries about a character: the server's snapshot, and a
client's report of where its own character stands.
-/

namespace SharedWorld

def Record.ofBlob (ts : List FieldType) (blob : Bytes) : Except WorldError (Record ts) :=
  match Record.read ts blob with
  | (.error e, _) => .error (.malformedData e)
  | (.ok r, []) => .ok r
  | (.ok _, rest) => .error (.trailingData rest.length)

structure CharacterData where
  player : PlayerId
  glide : Bool
  position : Position
  type : String
  deriving DecidableEq

namespace CharacterData

open FieldType in
@[reducible] def layout : List FieldType := [u32, flag, i32, i32, text]

def toBlob (d : CharacterData) : Bytes :=
  Record.write layout
    (d.player.val, d.glide, Fixed.ofFloat d.position.x, Fixed.ofFloat d.position.y, d.type, ())

def ofBlob (blob : Bytes) : Except WorldError CharacterData := do
  let (p, glide, x, y, type, ()) ← Record.ofBlob layout blob
  return ⟨⟨p⟩, glide, ⟨Fixed.toFloat x, Fixed.toFloat y⟩, type⟩

end CharacterData

/-- Where a client says its character stands, and in which world. -/
structure PositionReport where
  player : PlayerId
  world : String
  position : Position
  deriving DecidableEq

namespace PositionReport

open FieldType in
@[reducible] def layout : List FieldType := [u32, text, i32, i32]

def toBlob (d : PositionReport) : Bytes :=
  Record.write layout
    (d.player.val, d.world, Fixed.ofFloat d.position.x, Fixed.ofFloat d.position.y, ())

def ofBlob (blob : Bytes) : Except WorldError PositionReport := do
  let (p, world, x, y, ()) ← Record.ofBlob layout blob
  return ⟨⟨p⟩, world, ⟨Fixed.toFloat x, Fixed.toFloat y⟩⟩

end PositionReport

end SharedWorld
