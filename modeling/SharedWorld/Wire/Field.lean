import SharedWorld.Identity
import SharedWorld.Text.Utf8
import SharedWorld.Wire.Error

/-! # Typed fields

Each field type has one writer and one reader. A record is a list of fields, read
and written in order. A reader hands back the unread bytes also when it fails.
-/

namespace SharedWorld

def Reader (α : Type) := Bytes → Except WireError α × Bytes

namespace Reader

variable {α β : Type} {r : Reader α} {f : α → Reader β} {bs rest : Bytes} {a : α} {e : WireError}
  {n : Nat}

instance : Monad Reader where
  pure a := fun bs => (.ok a, bs)
  bind r f := fun bs =>
    match r bs with
    | (.ok a, rest) => f a rest
    | (.error e, rest) => (.error e, rest)

theorem bind_of_ok (h : r bs = (.ok a, rest)) : (r >>= f) bs = f a rest := by
  simp only [Bind.bind, h]

theorem bind_of_error (h : r bs = (.error e, rest)) : (r >>= f) bs = (.error e, rest) := by
  simp only [Bind.bind, h]

def fail (e : WireError) : Reader α := fun bs => (.error e, bs)

/-- The next `n` bytes, or nothing at all. -/
def take (n : Nat) : Reader Bytes := fun bs =>
  let head := bs.take n
  if head.length = n then (.ok head, bs.drop n) else (.error (.unexpectedEnd n bs.length), bs)

theorem take_of_le (h : n ≤ bs.length) : take n bs = (.ok (bs.take n), bs.drop n) := by
  simp [take, h]

theorem take_of_lt (h : bs.length < n) : take n bs = (.error (.unexpectedEnd n bs.length), bs) := by
  have : bs.length ≠ n := by omega
  simp [take, List.take_of_length_le (Nat.le_of_lt h), this]

def word (n : Nat) : Reader Nat := do
  return Word.decode (← take n)

end Reader

inductive FieldType
  | u8 | u16 | u32 | u64 | i32 | flag | text | blob | entityType
  deriving DecidableEq, Repr

namespace FieldType

@[reducible] def Value : FieldType → Type
  | u8 => UInt8
  | u16 => UInt16
  | u32 => UInt32
  | u64 => UInt64
  | i32 => Int32
  | flag => Bool
  | text => String
  | blob => Bytes
  | entityType => EntityType

def maxLength : Nat := UInt32.size - 1

/-- Text cut or padded with zero bytes to the declared length. -/
def writeText (declared : Nat) (s : String) : Bytes :=
  let body := Text.utf8 (Text.fitting declared s)
  Word.encode 4 declared ++ (body ++ List.replicate (declared - body.length) 0)

def write : (t : FieldType) → t.Value → Bytes
  | u8, v => Word.encode 1 v.toNat
  | u16, v => Word.encode 2 v.toNat
  | u32, v => Word.encode 4 v.toNat
  | u64, v => Word.encode 8 v.toNat
  | i32, v => Word.encode 4 v.toUInt32.toNat
  | flag, v => [if v then 1 else 0]
  | text, s => writeText (min s.utf8ByteSize maxLength) s
  | blob, bs =>
    let body := bs.take maxLength
    Word.encode 4 body.length ++ body
  | entityType, t => [t.tag]

/-- A text field ends at its first zero byte; what follows is skipped. -/
def readText : Reader String := do
  let body ← Reader.take (← Reader.word 4)
  match Text.ofUtf8? (body.takeWhile (· ≠ 0)) with
  | some s => pure s
  | none => Reader.fail .invalidText

def read : (t : FieldType) → Reader t.Value
  | u8 => return UInt8.ofNat (← Reader.word 1)
  | u16 => return UInt16.ofNat (← Reader.word 2)
  | u32 => return UInt32.ofNat (← Reader.word 4)
  | u64 => return UInt64.ofNat (← Reader.word 8)
  | i32 => return (UInt32.ofNat (← Reader.word 4)).toInt32
  | flag => return (← Reader.word 1) ≠ 0
  | text => readText
  | blob => do Reader.take (← Reader.word 4)
  | entityType => do
    let tag := UInt8.ofNat (← Reader.word 1)
    match EntityType.ofTag? tag with
    | some t => pure t
    | none => Reader.fail (.unknownEntityType tag)

end FieldType

/-- One value for each field of a layout. -/
@[reducible] def Record : List FieldType → Type
  | [] => Unit
  | t :: ts => t.Value × Record ts

namespace Record

def write : (ts : List FieldType) → Record ts → Bytes
  | [], _ => []
  | t :: ts, (v, vs) => t.write v ++ write ts vs

def read : (ts : List FieldType) → Reader (Record ts)
  | [] => pure ()
  | t :: ts => do
    let v ← t.read
    let vs ← read ts
    return (v, vs)

end Record

end SharedWorld
