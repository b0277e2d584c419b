import SharedWorld.Json.Scan

/-! # JSON numbers

A number without fraction and exponent that fits 64 bits is an integer. Any other is
a float, made from as many leading digits as 64 bits hold and one power of ten.
-/

namespace SharedWorld.Json

inductive Number
  | natural (n : UInt64)
  /-- The negative of a number from 1 to 2^63. -/
  | negative (magnitude : UInt64)
  | float (v : Float)

namespace Number

def toFloat : Number → Float
  | natural n => n.toFloat
  | negative n => -n.toFloat
  | float v => v

def toFloat32 : Number → Float32
  | natural n => n.toFloat32
  | negative n => -n.toFloat32
  | float v => v.toFloat32

def pow10 (e : Nat) : Float := Float.ofScientific 1 false e

def maxPow10 : Nat := 308

/-- Scales by a power of ten in steps that a float can hold; three steps take any value to zero. -/
def scale : Nat → Float → Int → Except Fault Float
  | 0, v, _ => .ok v
  | n + 1, v, e =>
    if e.natAbs ≤ maxPow10 then
      if 0 ≤ e then
        let w := v * pow10 e.natAbs
        if w.isInf then .error .badSyntax else .ok w
      else .ok (v / pow10 e.natAbs)
    else if v == 0 then .ok v
    else if 0 ≤ e then .error .badSyntax
    else scale n (v / pow10 maxPow10) (e + maxPow10)

def ofParts (positive : Bool) (digits : Nat) (e : Int) : Except Fault Number := do
  let v ← scale 4 (UInt64.ofNat digits).toFloat e
  return float (if positive then v else -v)

def maxExponent : Nat := 2147483647

def digitValue (c : Char) : Nat := c.toNat - '0'.toNat

/-- Appends digits while the value fits 64 bits. Returns the value and how many were taken. -/
def accumulate : Nat → List Char → Nat × Nat
  | acc, [] => (acc, 0)
  | acc, c :: cs =>
    let next := acc * 10 + digitValue c
    if next < UInt64.size then
      let (v, n) := accumulate next cs
      (v, n + 1)
    else (acc, 0)

def exponent (positive : Bool) (digits : Nat) (start : Int) (cs : List Char) :
    Except Fault (Number × List Char) := do
  let (up, cs) := match cs with
    | '+' :: r => (true, r)
    | '-' :: r => (false, r)
    | _ => (true, cs)
  let ds := cs.takeWhile Char.isDigit
  let rest := cs.dropWhile Char.isDigit
  if ds.isEmpty then throw (if rest.isEmpty then .endOfText else .badSyntax)
  let e := ds.foldl (fun e c => min (e * 10 + digitValue c) (maxExponent + 1)) 0
  if e > maxExponent then
    if digits ≠ 0 ∧ up then throw .badSyntax
    else return (float (if positive then 0 else -0), rest)
  return (← ofParts positive digits (if up then start + e else start - e), rest)

/-- The digits after the point, at least one. -/
def fraction (positive : Bool) (digits : Nat) (start : Int) (cs : List Char) :
    Except Fault (Number × List Char) := do
  let ds := cs.takeWhile Char.isDigit
  let rest := cs.dropWhile Char.isDigit
  if ds.isEmpty then throw (if rest.isEmpty then .endOfText else .badSyntax)
  let (digits, taken) := accumulate digits ds
  let start := start - taken
  match rest with
  | c :: r =>
    if c = 'e' ∨ c = 'E' then exponent positive digits start r
    else return (← ofParts positive digits start, rest)
  | [] => return (← ofParts positive digits start, rest)

def integer (positive : Bool) (digits : Nat) : Number :=
  let n := UInt64.ofNat digits
  if positive then natural n
  else if digits = 0 ∨ digits > UInt64.size / 2 then float (-n.toFloat)
  else negative n

/-- A number after its sign. -/
def read (positive : Bool) (cs : List Char) : Except Fault (Number × List Char) := do
  let ds := cs.takeWhile Char.isDigit
  let rest := cs.dropWhile Char.isDigit
  match ds with
  | [] => throw (if rest.isEmpty then .endOfText else .badSyntax)
  | '0' :: _ :: _ => throw .badSyntax
  | _ =>
    let (digits, taken) := accumulate 0 ds
    let dropped := ds.length - taken
    match rest with
    | '.' :: r => fraction positive digits dropped r
    | c :: r =>
      if c = 'e' ∨ c = 'E' then exponent positive digits dropped r
      else if dropped = 0 then return (integer positive digits, rest)
      else return (← ofParts positive digits dropped, rest)
    | [] =>
      if dropped = 0 then return (integer positive digits, rest)
      else return (← ofParts positive digits dropped, rest)

end Number

namespace Scan

def number : Scan Number := do
  if (← peek) = '-' then
    skip
    fun cs => Number.read false cs
  else fun cs => Number.read true cs

/-- Digits that must be there; here the end of the text is no excuse. -/
def skipDigits : Scan Unit := fun cs =>
  if (cs.takeWhile Char.isDigit).isEmpty then .error .badSyntax
  else .ok ((), cs.dropWhile Char.isDigit)

def skipExponent : Scan Unit := do
  modify fun cs => match cs with
    | '+' :: r => r
    | '-' :: r => r
    | _ => cs
  skipDigits

/-- A number whose value does not matter. -/
def skipNumber : Scan Unit := do
  if (← peek) = '-' then skip
  match ← get with
  | '0' :: d :: _ => if d.isDigit then throw .badSyntax
  | _ => pure ()
  skipDigits
  match ← get with
  | '.' :: _ =>
    skip
    skipDigits
  | _ => pure ()
  match ← get with
  | c :: _ =>
    if c = 'e' ∨ c = 'E' then
      skip
      skipExponent
  | [] => pure ()

end Scan

end SharedWorld.Json
