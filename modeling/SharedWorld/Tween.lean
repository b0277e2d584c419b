import SharedWorld.Position

/-! # Tweens

Timed straight-line movement of one coordinate, and of two together.
-/

namespace SharedWorld

structure Tween where
  start : Float32
  stop : Float32
  total : Float32
  current : Float32 := 0
  deriving DecidableEq

namespace Tween

def ofMillis (start stop : Float32) (duration : UInt64) : Tween :=
  { start, stop, total := duration.toFloat32 }

/-- The nearest value between the bounds. There is none when a bound is NaN or they are reversed. -/
def clamp (v lo hi : Float32) : Option Float32 :=
  if lo ≤ hi then some (if v < lo then lo else if hi < v then hi else v) else none

/-- The value after `frame` more milliseconds, and whether the end is reached. -/
def advance (t : Tween) (frame : Float32) : Option (Tween × Float32 × Bool) :=
  let t := { t with current := t.current + frame }
  if t.total ≤ 0 ∨ t.total ≤ t.current then some (t, t.stop, true)
  else
    let v := t.start + (t.stop - t.start) * (t.current / t.total)
    let (lo, hi) := if t.start ≤ t.stop then (t.start, t.stop) else (t.stop, t.start)
    (clamp v lo hi).map fun v => (t, v, false)

end Tween

structure PositionTween where
  x : Tween
  y : Tween
  deriving DecidableEq

namespace PositionTween

def ofMillis (start stop : Position) (duration : UInt64) : PositionTween :=
  ⟨.ofMillis start.x stop.x duration, .ofMillis start.y stop.y duration⟩

def target (t : PositionTween) : Position := ⟨t.x.stop, t.y.stop⟩

def advance (t : PositionTween) (frame : Float32) : Option (PositionTween × Position × Bool) := do
  let (tx, x, xDone) ← t.x.advance frame
  let (ty, y, yDone) ← t.y.advance frame
  return (⟨tx, ty⟩, ⟨x, y⟩, xDone && yDone)

end PositionTween

end SharedWorld
