import SharedWorld.Link.Error
import SharedWorld.Wire.Word

/-! # Pipes

The write half of a stream, and what it does to the frames that are written to it.
-/

namespace SharedWorld

structure Pipe where
  /-- How many bytes go in before the pipe breaks. -/
  limit : Option Nat := none
  flushFails : Bool := false
  /-- Takes no byte, and does not fail either. -/
  stalled : Bool := false
  written : Bytes := []
  flushes : Nat := 0
  deriving DecidableEq, Repr

namespace Pipe

/-- The part of a frame that still goes in. -/
def accepted (p : Pipe) (frame : Bytes) : Bytes :=
  match p.limit with
  | some limit => frame.take (limit - p.written.length)
  | none => frame

/-- Writes a whole frame and flushes. A frame that breaks the pipe is written in part. -/
def writeFrame (p : Pipe) (frame : Bytes) : Except LinkError Unit × Pipe :=
  let taken := p.accepted frame
  let q := { p with written := p.written ++ taken }
  if taken.length < frame.length then (.error (.sendFailed "broken pipe"), q)
  else
    (if p.flushFails then .error (.sendFailed "flush failed") else .ok (),
      { q with flushes := p.flushes + 1 })

end Pipe

end SharedWorld
