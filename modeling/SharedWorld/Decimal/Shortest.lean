/-! # Shortest decimals

The fewest digits that read back as a binary float, found on exact integers. A float
is `mantissa * 2 ^ exponent`; the numbers that round to it lie between the midpoints
to its neighbours.
-/

namespace SharedWorld.Decimal

/-- A positive binary float. Its lower neighbour is closer when the mantissa starts a binade. -/
structure Binary where
  mantissa : Nat
  exponent : Int
  startsBinade : Bool
  deriving DecidableEq, Repr

/-- Digits with the power of ten of the last one. -/
structure Digits where
  coefficient : Nat
  power : Int
  deriving DecidableEq, Repr

namespace Binary

/-- The float of a nonzero finite bit pattern without its sign. -/
def ofBits (mantissaBits exponentBits bits : Nat) : Binary :=
  let fraction := bits % (1 <<< mantissaBits)
  let biased := bits >>> mantissaBits
  let bias : Int := (1 <<< (exponentBits - 1) : Nat) - 1 + mantissaBits
  if biased = 0 then ⟨fraction, 1 - bias, false⟩
  else ⟨(1 <<< mantissaBits) + fraction, biased - bias, fraction = 0 ∧ biased > 1⟩

/-- Four times the value and its two midpoints, over a common denominator. -/
def scaled (b : Binary) : Nat × Nat × Nat × Nat :=
  let up := (b.exponent - 2).toNat
  let low := 4 * b.mantissa - (if b.startsBinade then 1 else 2)
  (low <<< up, (4 * b.mantissa) <<< up, (4 * b.mantissa + 2) <<< up,
    1 <<< (2 - b.exponent).toNat)

/-- Whether `num / den` reads back as the float: midpoints do when the mantissa is even. -/
def holds (b : Binary) (num den : Nat) : Bool :=
  let (low, _, high, d) := b.scaled
  if b.mantissa % 2 = 0 then low * den ≤ num * d ∧ num * d ≤ high * den
  else low * den < num * d ∧ num * d < high * den

/-- The nearest point of the grid of the given power of ten that reads back, the even one of two. -/
def onGrid? (b : Binary) (power : Int) : Option Nat :=
  let (_, value, _, d) := b.scaled
  let up := Nat.pow 10 power.toNat
  let down := Nat.pow 10 (-power).toNat
  let num := value * down
  let den := d * up
  let floor := num / den
  let below := floor > 0 && b.holds (floor * up) down
  let above := b.holds ((floor + 1) * up) down
  let twice := 2 * (num - floor * den)
  if below ∧ (!above ∨ twice < den ∨ (twice = den ∧ floor % 2 = 0)) then some floor
  else if above then some (floor + 1)
  else none

/-- Tries finer and finer grids. -/
def search (b : Binary) : Nat → Int → Digits
  | 0, power => ⟨0, power⟩
  | n + 1, power =>
    match b.onGrid? power with
    | some c => ⟨c, power⟩
    | none => search b n (power - 1)

/-- A power of ten that is at least the value's own, from the count of its binary digits. -/
def topPower (b : Binary) : Int :=
  let bits : Int := b.mantissa.log2 + 1 + b.exponent
  bits * 30103 / 100000 + 1

def shortest (b : Binary) : Digits := b.search 30 b.topPower

end Binary

def trim : Nat → Digits → Digits
  | 0, d => d
  | n + 1, d =>
    if d.coefficient % 10 = 0 ∧ d.coefficient ≠ 0 then trim n ⟨d.coefficient / 10, d.power + 1⟩
    else d

/-- Where a number is written with a plain point: the point's place, counted from the first digit. -/
structure Layout where
  minPoint : Int
  maxPoint : Int
  deriving DecidableEq, Repr

namespace Layout

def zeros (n : Nat) : String := String.ofList (List.replicate n '0')

/-- Plain with at least one digit on each side of the point, else with a signed exponent. -/
def render (l : Layout) (d : Digits) : String :=
  let digits := toString d.coefficient
  let point := d.power + digits.length
  if l.minPoint ≤ point ∧ point ≤ l.maxPoint then
    if point ≤ 0 then "0." ++ zeros (-point).toNat ++ digits
    else if point < digits.length then
      String.ofList (digits.toList.take point.toNat) ++ "." ++
        String.ofList (digits.toList.drop point.toNat)
    else digits ++ zeros (point - digits.length).toNat ++ ".0"
  else
    let e := point - 1
    let mark := if e < 0 then "e-" else "e+"
    let fraction := digits.toList.drop 1
    String.ofList (digits.toList.take 1) ++
      (if fraction.isEmpty then "" else "." ++ String.ofList fraction) ++ mark ++ toString e.natAbs

end Layout

end SharedWorld.Decimal
