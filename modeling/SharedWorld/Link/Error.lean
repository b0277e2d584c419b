import SharedWorld.Wire.Error

/-! # Link errors

Why a frame does not make it from one side to the other.
-/

namespace SharedWorld

inductive LinkError
  /-- The stream ended after this many bytes of a size field. -/
  | sizeCut (read : Nat)
  /-- The stream ended inside a frame of this size. -/
  | frameCut (size : Nat)
  | receiveFailed (cause : String)
  | sendFailed (cause : String)
  | wire (cause : WireError)
  | datagramTooLarge (size max : Nat)
  | stopped
  | disconnected
  deriving DecidableEq, Repr

namespace LinkError

def message : LinkError → String
  | sizeCut read => s!"connection closed mid-frame: {read} of 4 size bytes read"
  | frameCut size => s!"connection closed mid-frame: frame of {size} bytes truncated"
  | receiveFailed cause => "receive failed: " ++ cause
  | sendFailed cause => "send failed: " ++ cause
  | wire cause => cause.message
  | datagramTooLarge size max => s!"datagram of {size} bytes exceeds maximum {max}"
  | stopped => "transport shut down"
  | disconnected => "not connected"

end LinkError

end SharedWorld
