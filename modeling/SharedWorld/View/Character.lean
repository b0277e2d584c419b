import SharedWorld.Character.Blob
import SharedWorld.Packet.Basic
import SharedWorld.Tween

/-! # Views of characters

A character as a client sees it: where it is drawn, and where it is going.
-/

namespace SharedWorld

structure CharacterView where
  entity : EntityId
  player : PlayerId := .none
  type : String := ""
  appearance : Option Appearance := none
  lastUpdate : UInt64 := 0
  position : Position := ⟨0, 0⟩
  tween : Option PositionTween := none
  placed : Bool := false
  deriving DecidableEq

namespace CharacterView

/-- Milliseconds that a glide to a new position takes. -/
def glideTime : UInt64 := 100

def target (c : CharacterView) : Position := (c.tween.map (·.target)).getD c.position

/-- The first data places the character; later data moves it there, unless told to jump. -/
def apply (c : CharacterView) (d : CharacterData) : CharacterView :=
  let c := { c with player := d.player, type := d.type }
  if c.placed && d.glide then
    { c with tween := some (.ofMillis c.position d.position glideTime) }
  else
    { c with position := d.position, tween := none, placed := true }

/-- Moves on by `frame` milliseconds; undefined where the tween is. -/
def advance (c : CharacterView) (frame : Float32) : Option CharacterView :=
  match c.tween with
  | none => some c
  | some t => do
    let (t, position, done) ← t.advance frame
    return { c with position, tween := if done then none else some t }

end CharacterView

end SharedWorld
