import SharedWorld.Wire.Word

/-! # Hexadecimal text

Two lower-case digits stand for a byte; both cases are read.
-/

namespace SharedWorld

namespace Text

def hexDigit (n : Nat) : Char := Char.ofNat (if n < 10 then 48 + n else 87 + n)

def hexValue? (c : Char) : Option Nat :=
  if '0' ≤ c ∧ c ≤ '9' then some (c.toNat - 48)
  else if 'a' ≤ c ∧ c ≤ 'f' then some (c.toNat - 87)
  else if 'A' ≤ c ∧ c ≤ 'F' then some (c.toNat - 55)
  else none

theorem hexValue?_hexDigit {n : Nat} (h : n < 16) : hexValue? (hexDigit n) = some n := by
  have : ∀ k : Fin 16, hexValue? (hexDigit k) = some k.val := by decide
  exact this ⟨n, h⟩

def hexPair (b : UInt8) : List Char := [hexDigit (b.toNat / 16), hexDigit (b.toNat % 16)]

def hex (bs : Bytes) : String := String.ofList (bs.flatMap hexPair)

/-- Reads pairs of digits onto the bytes already read. -/
def readHex : List Char → Bytes → Option Bytes
  | [], acc => some acc.reverse
  | [_], _ => none
  | c :: d :: cs, acc =>
    match hexValue? c, hexValue? d with
    | some m, some n => readHex cs (UInt8.ofNat (m * 16 + n) :: acc)
    | _, _ => none

def ofHex? (s : String) : Option Bytes := readHex s.toList []

theorem readHex_hexPair (bs acc : Bytes) :
    readHex (bs.flatMap hexPair) acc = some (acc.reverse ++ bs) := by
  induction bs generalizing acc with
  | nil => simp [readHex]
  | cons b bs ih =>
    have hb := b.toNat_lt
    have hm := hexValue?_hexDigit (show b.toNat / 16 < 16 by omega)
    have hn := hexValue?_hexDigit (show b.toNat % 16 < 16 by omega)
    have hv : b.toNat / 16 * 16 + b.toNat % 16 = b.toNat := by omega
    simp [hexPair, readHex, hm, hn, hv, ih]

theorem ofHex?_hex (bs : Bytes) : ofHex? (hex bs) = some bs := by
  simp [ofHex?, hex, readHex_hexPair]

end Text

end SharedWorld
