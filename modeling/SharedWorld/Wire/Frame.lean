import SharedWorld.Wire.Word
import SharedWorld.Wire.Error

/-! # Frames

A frame is its own size in four bytes, a tag byte and a payload.
-/

namespace SharedWorld

namespace Frame

def headerSize : Nat := 5

def maxSize : Nat := 10240000

def checkSize (size : Nat) : Except WireError Nat :=
  if size < headerSize then .error (.frameTooSmall size)
  else if size > maxSize then .error (.frameTooLarge size maxSize)
  else .ok size

def declaredSize (sizeField : Bytes) : Except WireError Nat := checkSize (Word.decode sizeField)

def encode (tag : UInt8) (payload : Bytes) : Except WireError Bytes :=
  let size := headerSize + payload.length
  if size > maxSize then .error (.frameTooLarge size maxSize)
  else .ok (Word.encode 4 size ++ tag :: payload)

def decode : Bytes → Except WireError (UInt8 × Bytes)
  | a :: b :: c :: d :: tag :: payload => do
    let declared ← declaredSize [a, b, c, d]
    let actual := headerSize + payload.length
    if declared = actual then .ok (tag, payload)
    else .error (.frameSizeMismatch declared actual)
  | bs => .error (.unexpectedEnd headerSize bs.length)

end Frame

end SharedWorld
