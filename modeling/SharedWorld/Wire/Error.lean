import SharedWorld.Packet.Kind

/-! # Wire errors

Why bytes are not a frame, a packet or a field.
-/

namespace SharedWorld

inductive WireError
  | unknownPacket (tag : UInt8)
  | unknownEntityType (tag : UInt8)
  | unexpectedEnd (needed remaining : Nat)
  | trailingBytes (kind : PacketKind) (remaining : Nat)
  | frameSizeMismatch (declared actual : Nat)
  | frameTooSmall (size : Nat)
  | frameTooLarge (size max : Nat)
  | invalidText
  deriving DecidableEq, Repr

namespace WireError

def message : WireError → String
  | unknownPacket tag => s!"unknown packet type tag {tag.toNat}"
  | unknownEntityType tag => s!"unknown entity type tag {tag.toNat}"
  | unexpectedEnd needed remaining =>
    s!"unexpected end of payload: needed {needed} bytes, {remaining} remaining"
  | trailingBytes kind remaining => s!"{remaining} trailing bytes after {kind.name} payload"
  | frameSizeMismatch declared actual =>
    s!"frame size mismatch: header declares {declared} bytes, {actual} available"
  | frameTooSmall size => s!"frame size {size} is smaller than the frame header"
  | frameTooLarge size max => s!"frame size {size} exceeds maximum {max}"
  | invalidText => "string field is not valid UTF-8"

end WireError

end SharedWorld
