import SharedWorld.Json.Number

/-! # Reading JSON by shape

Scanners for the values that a configuration is made of. A structure may be written
as an object or as the list of its fields in order.
-/

namespace SharedWorld.Json

namespace Scan

variable {α σ : Type}

inductive Nest
  | list | object

def skipKey : Scan Unit := do
  if (← peek) ≠ '"' then throw .badSyntax
  skipString
  if (← peek) ≠ ':' then throw .badSyntax
  skip

def skipNested : Nat → List Nest → Bool → Scan Unit
  | 0, _, _ => throw .endOfText
  | n + 1, outer, true => do
    let c ← peek
    match c with
    | '"' =>
      skipString
      skipNested n outer false
    | '[' =>
      skip
      if (← peek) = ']' then
        skip
        skipNested n outer false
      else skipNested n (.list :: outer) true
    | '\x7b' =>
      skip
      if (← peek) = '\x7d' then
        skip
        skipNested n outer false
      else
        skipKey
        skipNested n (.object :: outer) true
    | c =>
      if c = 'n' ∨ c = 't' ∨ c = 'f' then
        literal c
        skipNested n outer false
      else if c = '-' ∨ c.isDigit then
        skipNumber
        skipNested n outer false
      else throw .badSyntax
  | _ + 1, [], false => pure ()
  | n + 1, nest :: outer, false => do
    let c ← peek
    skip
    match nest, c with
    | .list, ',' => skipNested n (nest :: outer) true
    | .object, ',' =>
      skipKey
      skipNested n (nest :: outer) true
    | .list, ']' => skipNested n outer false
    | .object, '\x7d' => skipNested n outer false
    | _, _ => throw .badSyntax

def skipValue : Scan Unit := do
  skipNested ((← get).length + 1) [] true

/-- Fails at a value of another shape: as bad data if it starts like JSON. -/
def wrongShape : Scan α := do
  let c ← peek
  match c with
  | '"' => discard string
  | '[' => pure ()
  | '\x7b' => pure ()
  | c =>
    if c = 'n' ∨ c = 't' ∨ c = 'f' then literal c
    else if c = '-' ∨ c.isDigit then discard number
    else throw .badSyntax
  throw .badData

def text : Scan String := do
  if (← peek) = '"' then string else wrongShape

def anyNumber : Scan Number := do
  let c ← peek
  if c = '-' ∨ c.isDigit then number else wrongShape

/-- An integer from zero up to the limit. -/
def natural (limit : Nat) : Scan Nat := do
  match ← anyNumber with
  | .natural n => if n.toNat ≤ limit then return n.toNat else throw .badData
  | _ => throw .badData

def u32 : Scan UInt32 := return UInt32.ofNat (← natural (UInt32.size - 1))

def u64 : Scan UInt64 := return UInt64.ofNat (← natural (UInt64.size - 1))

/-- Whether a list goes on, past the comma that then follows. -/
def hasElement (first : Bool) : Scan Bool := do
  let c ← peek
  if c = ']' then return false
  if first then return true
  if c ≠ ',' then throw .badSyntax
  skip
  if (← peek) = ']' then throw .badSyntax
  return true

def endList : Scan Unit := do
  if (← peek) = ']' then skip else throw .badSyntax

def elements (elem : Scan α) : Nat → Bool → List α → Scan (List α)
  | 0, _, _ => throw .endOfText
  | n + 1, first, acc => do
    if ← hasElement first then elements elem n false ((← elem) :: acc)
    else return acc.reverse

def list (elem : Scan α) : Scan (List α) := do
  if (← peek) = '[' then
    skip
    let as ← elements elem ((← get).length + 1) true []
    endList
    return as
  else wrongShape

/-- A field of a structure: reading it yields the change that it makes. -/
structure Field (σ : Type) where
  name : String
  required : Bool := false
  read : Scan (σ → σ)

def Field.of (name : String) (value : Scan α) (set : α → σ → σ) : Field σ where
  name
  read := return set (← value)

/-- Whether an object goes on, past the comma that then follows. -/
def hasKey (first : Bool) : Scan Bool := do
  let c ← peek
  if c = '\x7d' then return false
  if first then
    if c = '"' then return true else throw .badSyntax
  if c ≠ ',' then throw .badSyntax
  skip
  if (← peek) = '"' then return true else throw .badSyntax

def colon : Scan Unit := do
  if (← peek) = ':' then skip else throw .badSyntax

/-- Unknown keys are skipped, known keys may appear once. -/
def members (fields : List (Field σ)) : Nat → Bool → List String → σ → Scan σ
  | 0, _, _, _ => throw .endOfText
  | n + 1, first, seen, s => do
    if ← hasKey first then
      let key ← string
      match fields.find? (·.name = key) with
      | none =>
        colon
        skipValue
        members fields n false seen s
      | some f =>
        if seen.contains key then throw .badData
        colon
        let change ← f.read
        members fields n false (key :: seen) (change s)
    else if fields.all fun f => !f.required || seen.contains f.name then return s
    else throw .badData

def positional : List (Field σ) → Bool → σ → Scan σ
  | [], _, s => pure s
  | f :: fs, first, s => do
    if ← hasElement first then
      let change ← f.read
      positional fs false (change s)
    else if f.required then throw .badData
    else positional fs first s

def object (fields : List (Field σ)) (init : σ) : Scan σ := do
  match ← peek with
  | '[' =>
    skip
    let s ← positional fields true init
    endList
    return s
  | '\x7b' =>
    skip
    let s ← members fields ((← get).length + 1) true [] init
    skip
    return s
  | _ => wrongShape

/-- One of the given names, as a string or as the only key of an object whose value is null. -/
def choice (options : List (String × α)) : Scan α := do
  match ← peek with
  | '"' => pick (← string)
  | '\x7b' =>
    skip
    if (← peek) ≠ '"' then throw .badSyntax
    let a ← pick (← string)
    colon
    if (← peek) = 'n' then literal 'n' else wrongShape
    if (← peek) = '\x7d' then skip else throw .badSyntax
    return a
  | _ => throw .badSyntax
where
  pick (name : String) : Scan α :=
    match options.lookup name with
    | some a => pure a
    | none => throw .badData

def whole (value : Scan α) (s : String) : Except Fault α := do
  let (a, rest) ← value s.toList
  if (rest.dropWhile isBlank).isEmpty then return a else throw .badSyntax

end Scan

end SharedWorld.Json
