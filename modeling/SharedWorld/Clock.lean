import SharedWorld.Micros

/-! # The game clock

Every tick moves the total strictly forward, whatever instant it is given.
-/

namespace SharedWorld

structure Clock where
  total : Micros := 0
  frame : Micros := 0
  frames : UInt64 := 0
  deriving DecidableEq, Repr

namespace Clock

/-- A tick at an instant in nanoseconds since the start; earlier instants count as the start. -/
def tickAt (c : Clock) (now : Int) : Clock :=
  let elapsed := Micros.ofNat (now.toNat / 1000)
  let total := if c.total + 1 ≤ elapsed then elapsed else c.total + 1
  { total, frame := total - c.total, frames := c.frames + 1 }

end Clock

end SharedWorld
