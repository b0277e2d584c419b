import SharedWorld.Text.Hex

/-! # Socket addresses

Reading a host and a port from text. Names are not looked up, except for the name of
this host itself.
-/

namespace SharedWorld

inductive Host
  | v4 (bytes : List UInt8)
  | v6 (groups : List UInt16) (scope : UInt32)
  deriving DecidableEq, Repr

namespace Host

def isV4 : Host → Bool
  | v4 _ => true
  | v6 _ _ => false

def isMapped : Host → Bool
  | v4 _ => false
  | v6 groups _ => groups.take 6 = [0, 0, 0, 0, 0, 0xffff]

def isLoopback : Host → Bool
  | v4 (first :: _) => first = 127
  | v4 [] => false
  | v6 groups _ => groups = [0, 0, 0, 0, 0, 0, 0, 1]

def isUnspecified : Host → Bool
  | v4 bytes => bytes.all (· = 0)
  | v6 groups _ => groups.all (· = 0)

def inBase? (base : Nat) (cs : List Char) : Option Nat := do
  if cs.isEmpty then none
  cs.foldlM (fun n c => do
    let d ← Text.hexValue? c
    if d < base then some (n * base + d) else none) 0

def decimal? (cs : List Char) : Option Nat := inBase? 10 cs

/-- Hexadecimal after `0x`, octal after another leading zero, else decimal. -/
def number? : List Char → Option Nat
  | '0' :: 'x' :: ds => inBase? 16 ds
  | '0' :: 'X' :: ds => inBase? 16 ds
  | '0' :: d :: ds => inBase? 8 (d :: ds)
  | ds => decimal? ds

/-- Bytes from numbers: each takes one byte, and the last takes all the room that is left. -/
def fill? : Nat → List Nat → Option (List UInt8)
  | 0, _ => none
  | _, [] => none
  | room, [last] => if last < Word.size room then some (Word.encode room last) else none
  | room + 1, n :: ns => if n < 256 then (fill? room ns).map (UInt8.ofNat n :: ·) else none

def splitOn (sep : Char) : List Char → List (List Char)
  | [] => [[]]
  | c :: cs =>
    match splitOn sep cs with
    | [] => [[c]]
    | part :: parts => if c = sep then [] :: part :: parts else (c :: part) :: parts

/-- One to four numbers in any base, divided by points. -/
def v4Bytes? (cs : List Char) : Option (List UInt8) := do
  fill? 4 (← (splitOn '.' cs).mapM number?)

/-- One to three digits without a leading zero, at most 255. -/
def byte? (cs : List Char) : Option UInt8 :=
  if cs.length > 3 || (cs.length > 1 && cs.head? = some '0') then none
  else do
    let n ← decimal? cs
    if n ≤ 255 then some (UInt8.ofNat n) else none

/-- Exactly four plain bytes. -/
def dotted? (cs : List Char) : Option (List UInt8) := do
  let bytes ← (splitOn '.' cs).mapM byte?
  if bytes.length = 4 then some bytes else none

/-- One to four hexadecimal digits. -/
def group? (cs : List Char) : Option UInt16 :=
  if cs.length > 4 then none else (inBase? 16 cs).map UInt16.ofNat

/-- Groups divided by colons; the last one may be written as four bytes. -/
def groups? : List (List Char) → Option (List UInt16)
  | [] => some []
  | [last] =>
    match dotted? last with
    | some [a, b, c, d] => some [a.toUInt16 * 256 + b.toUInt16, c.toUInt16 * 256 + d.toUInt16]
    | _ => (group? last).map ([·])
  | part :: parts => return (← group? part) :: (← groups? parts)

/-- The text around the first double colon. -/
def aroundGap? : List Char → Option (List Char × List Char)
  | [] => none
  | ':' :: ':' :: rest => some ([], rest)
  | c :: rest => (aroundGap? rest).map fun (before, after) => (c :: before, after)

def side? (cs : List Char) : Option (List UInt16) :=
  if cs.isEmpty then some [] else groups? (splitOn ':' cs)

/-- Eight groups, of which one run of zeros may be left out. -/
def v6Groups? (cs : List Char) : Option (List UInt16) :=
  match aroundGap? cs with
  | none => do
    let gs ← side? cs
    if gs.length = 8 then some gs else none
  | some (before, after) => do
    if before.contains '.' then none
    let front ← side? before
    let back ← side? after
    if front.length + back.length ≤ 7 then
      some (front ++ List.replicate (8 - front.length - back.length) 0 ++ back)
    else none

def v6? (cs : List Char) : Option Host :=
  match splitOn '%' cs with
  | [groups] => return v6 (← v6Groups? groups) 0
  | [groups, scope] => do
    let n ← decimal? scope
    if n < UInt32.size then return v6 (← v6Groups? groups) (UInt32.ofNat n) else none
  | _ => none

/-- A host that stands without brackets. -/
def ofText? (cs : List Char) : Option Host :=
  if cs.map Char.toLower = "localhost".toList then some (v4 [127, 0, 0, 1])
  else
    match v4Bytes? cs with
    | some bytes => some (v4 bytes)
    | none => v6? cs

end Host

structure SocketAddress where
  host : Host
  port : UInt16
  deriving DecidableEq, Repr

namespace SocketAddress

/-- The text before and after the last colon. -/
def atLastColon? : List Char → Option (List Char × List Char)
  | [] => none
  | c :: cs =>
    match atLastColon? cs with
    | some (host, port) => some (c :: host, port)
    | none => if c = ':' then some ([], cs) else none

def port? (cs : List Char) : Option UInt16 := do
  let n ← Host.decimal? cs
  if n < UInt16.size then some (UInt16.ofNat n) else none

/-- A port that may have a plus sign. -/
def signedPort? : List Char → Option UInt16
  | '+' :: cs => port? cs
  | cs => port? cs

/-- Only a port without a sign follows a host in brackets. -/
def ofText? (s : String) : Option SocketAddress := do
  match ← atLastColon? s.toList with
  | ('[' :: host, port) =>
    if host.getLast? = some ']' then return ⟨← Host.v6? host.dropLast, ← port? port⟩ else none
  | (host, port) => return ⟨← Host.ofText? host, ← signedPort? port⟩

end SocketAddress

end SharedWorld
