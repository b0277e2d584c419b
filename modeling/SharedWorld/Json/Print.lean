import SharedWorld.Decimal.Shortest
import SharedWorld.Text.Hex

/-! # Printing JSON

Compact text: no blanks, fields in the order given.
-/

namespace SharedWorld.Json

namespace Print

def escape (c : Char) : List Char :=
  match c with
  | '"' => ['\\', '"']
  | '\\' => ['\\', '\\']
  | '\x08' => ['\\', 'b']
  | '\x0c' => ['\\', 'f']
  | '\n' => ['\\', 'n']
  | '\x0d' => ['\\', 'r']
  | '\t' => ['\\', 't']
  | c =>
    if c.toNat < 0x20 then
      ['\\', 'u', '0', '0', Text.hexDigit (c.toNat / 16), Text.hexDigit (c.toNat % 16)]
    else [c]

def string (s : String) : String := "\"" ++ String.ofList (s.toList.flatMap escape) ++ "\""

def list (items : List String) : String := "[" ++ ",".intercalate items ++ "]"

def object (fields : List (String × String)) : String :=
  "\x7b" ++ ",".intercalate (fields.map fun f => string f.1 ++ ":" ++ f.2) ++ "\x7d"

/-- A bit pattern of a float: infinities and NaN have no number, zero keeps its sign. -/
def float (layout : Decimal.Layout) (mantissaBits exponentBits bits : Nat) : String :=
  let sign := 1 <<< (mantissaBits + exponentBits)
  let magnitude := bits % sign
  let body :=
    if magnitude ≥ ((1 <<< exponentBits) - 1) <<< mantissaBits then "null"
    else if magnitude = 0 then "0.0"
    else
      let d := (Decimal.Binary.ofBits mantissaBits exponentBits magnitude).shortest
      layout.render (Decimal.trim 400 d)
  if bits ≥ sign ∧ body ≠ "null" then "-" ++ body else body

def float32 (v : Float32) : String := float ⟨-5, 13⟩ 23 8 v.toBits.toNat

def float64 (v : Float) : String := float ⟨-4, 16⟩ 52 11 v.toBits.toNat

end Print

end SharedWorld.Json
