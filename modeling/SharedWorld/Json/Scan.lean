import SharedWorld.Text.Hex

/-! # Scanning JSON

A scanner reads from the front of the text and stops at the first fault. A fault is
one of three kinds: the text is not JSON, it is JSON of the wrong shape, or it ends
too soon.
-/

namespace SharedWorld.Json

inductive Fault
  | badSyntax | badData | endOfText
  deriving DecidableEq, Repr

abbrev Scan := StateT (List Char) (Except Fault)

namespace Scan

variable {α : Type}

def isBlank (c : Char) : Bool := c = ' ' || c = '\n' || c = '\t' || c = '\x0d'

/-- The next character that is not blank, left in place. -/
def peek : Scan Char := fun cs =>
  match cs.dropWhile isBlank with
  | [] => .error .endOfText
  | c :: r => .ok (c, c :: r)

def skip : Scan Unit := modify List.tail

def word : List Char → Scan Unit
  | [], cs => .ok ((), cs)
  | _ :: _, [] => .error .endOfText
  | w :: ws, c :: cs => if w = c then word ws cs else .error .badSyntax

def literal (c : Char) : Scan Unit := do
  skip
  match c with
  | 'n' => word ['u', 'l', 'l']
  | 't' => word ['r', 'u', 'e']
  | _ => word ['a', 'l', 's', 'e']

/-- Four hexadecimal digits. Too few bytes for them end the text. -/
def hex4 : List Char → Except Fault (Nat × List Char)
  | a :: b :: c :: d :: r =>
    match Text.hexValue? a, Text.hexValue? b, Text.hexValue? c, Text.hexValue? d with
    | some a, some b, some c, some d => .ok (((a * 16 + b) * 16 + c) * 16 + d, r)
    | _, _, _, _ => .error .badSyntax
  | cs => .error (if (String.ofList cs).utf8ByteSize ≥ 4 then .badSyntax else .endOfText)

def isHighSurrogate (n : Nat) : Bool := 0xd800 ≤ n ∧ n < 0xdc00

def isLowSurrogate (n : Nat) : Bool := 0xdc00 ≤ n ∧ n < 0xe000

/-- The character of a unicode escape; surrogates come in pairs. -/
def unicode (cs : List Char) : Except Fault (Char × List Char) := do
  let (n, r) ← hex4 cs
  if isLowSurrogate n then throw .badSyntax
  if isHighSurrogate n then
    match r with
    | [] => throw .endOfText
    | '\\' :: [] => throw .endOfText
    | '\\' :: 'u' :: r =>
      let (m, r) ← hex4 r
      if isLowSurrogate m then
        return (Char.ofNat (0x10000 + (n - 0xd800) * 0x400 + (m - 0xdc00)), r)
      else throw .badSyntax
    | _ => throw .badSyntax
  else return (Char.ofNat n, r)

def simpleEscape? : Char → Option Char
  | '"' => some '"'
  | '\\' => some '\\'
  | '/' => some '/'
  | 'b' => some '\x08'
  | 'f' => some '\x0c'
  | 'n' => some '\n'
  | 'r' => some '\x0d'
  | 't' => some '\t'
  | _ => none

/-- The rest of a string after its opening quote. `escape` reads what follows a backslash and u. -/
def quoted (escape : List Char → Except Fault (Char × List Char)) :
    Nat → List Char → List Char → Except Fault (String × List Char)
  | 0, _, _ => .error .endOfText
  | _, _, [] => .error .endOfText
  | n + 1, acc, c :: cs =>
    if c = '"' then .ok (String.ofList acc.reverse, cs)
    else if c = '\\' then
      match cs with
      | [] => .error .endOfText
      | 'u' :: cs => do
        let (c, cs) ← escape cs
        quoted escape n (c :: acc) cs
      | e :: cs =>
        match simpleEscape? e with
        | some c => quoted escape n (c :: acc) cs
        | none => .error .badSyntax
    else if c.toNat < 0x20 then .error .badSyntax
    else quoted escape n (c :: acc) cs

def string : Scan String := do
  skip
  fun cs => quoted unicode (cs.length + 1) [] cs

/-- A string whose value does not matter; its unicode escapes need not pair up. -/
def skipString : Scan Unit := do
  skip
  fun cs => do
    let (_, cs) ← quoted (fun cs => do return ('?', (← hex4 cs).2)) (cs.length + 1) [] cs
    return ((), cs)

end Scan

end SharedWorld.Json
