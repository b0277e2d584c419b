/-! # Positions

Coordinates are single-precision floats. On the wire they are whole ten-thousandths.
-/

namespace SharedWorld

structure Position where
  x : Float32
  y : Float32
  deriving DecidableEq

instance : Inhabited Position := ⟨⟨0, 0⟩⟩

namespace Fixed

def scale : Float32 := 10000

/-- Truncates toward zero and stops at the ends of the 32-bit range; NaN becomes zero. -/
def ofFloat (v : Float32) : Int32 :=
  let scaled := v * scale
  if scaled < 0 then
    Int32.ofInt (-min (-scaled).toUInt32.toNat 2147483648)
  else
    Int32.ofNat (min scaled.toUInt32.toNat 2147483647)

def toFloat (n : Int32) : Float32 :=
  let magnitude := (UInt32.ofNat n.toInt.natAbs).toFloat32
  (if n < 0 then -magnitude else magnitude) / scale

end Fixed

end SharedWorld
