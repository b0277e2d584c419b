import SharedWorld.Table

/-! # Identities

Players, entities and connections are numbered. Zero stands for "no player" and
"no entity".
-/

namespace SharedWorld

structure PlayerId where
  val : UInt32
  deriving DecidableEq, Repr

structure EntityId where
  val : UInt32
  deriving DecidableEq, Repr

structure ConnectionId where
  val : UInt64
  deriving DecidableEq, Repr

namespace PlayerId

def none : PlayerId := ⟨0⟩

def isPlayer (p : PlayerId) : Bool := p.val ≠ 0

def text (p : PlayerId) : String := "P-" ++ toString p.val.toNat

instance : Inhabited PlayerId := ⟨none⟩

instance : Key PlayerId :=
  Key.ofRank PlayerId.val UInt32.lt_irrefl UInt32.lt_trans fun {a b} h₁ h₂ => by
    cases a; cases b
    congr
    exact UInt32.le_antisymm (UInt32.not_lt.mp h₂) (UInt32.not_lt.mp h₁)

end PlayerId

namespace EntityId

def unassigned : EntityId := ⟨0⟩

def isAssigned (e : EntityId) : Bool := e.val ≠ 0

def text (e : EntityId) : String := "E-" ++ toString e.val.toNat

instance : Inhabited EntityId := ⟨unassigned⟩

instance : Key EntityId :=
  Key.ofRank EntityId.val UInt32.lt_irrefl UInt32.lt_trans fun {a b} h₁ h₂ => by
    cases a; cases b
    congr
    exact UInt32.le_antisymm (UInt32.not_lt.mp h₂) (UInt32.not_lt.mp h₁)

end EntityId

namespace ConnectionId

def text (c : ConnectionId) : String := "conn-" ++ toString c.val.toNat

instance : Inhabited ConnectionId := ⟨⟨0⟩⟩

instance : Key ConnectionId :=
  Key.ofRank ConnectionId.val UInt64.lt_irrefl UInt64.lt_trans fun {a b} h₁ h₂ => by
    cases a; cases b
    congr
    exact UInt64.le_antisymm (UInt64.not_lt.mp h₂) (UInt64.not_lt.mp h₁)

end ConnectionId

/-- Hands out entity numbers one after another. The count goes on where the numbers start again. -/
structure EntityIds where
  next : Nat := 1
  deriving DecidableEq, Repr

namespace EntityIds

def take (ids : EntityIds) : EntityId × EntityIds := (⟨UInt32.ofNat ids.next⟩, ⟨ids.next + 1⟩)

end EntityIds

inductive EntityType
  | unknown | world | character
  deriving DecidableEq, Repr, Inhabited

namespace EntityType

def tag : EntityType → UInt8
  | unknown => 0
  | world => 1
  | character => 2

def ofTag? : UInt8 → Option EntityType
  | 0 => some unknown
  | 1 => some world
  | 2 => some character
  | _ => none

def name : EntityType → String
  | unknown => "Unknown"
  | world => "World"
  | character => "Character"

theorem ofTag?_eq_some_iff {b : UInt8} {t : EntityType} : ofTag? b = some t ↔ b = t.tag := by
  constructor
  · unfold ofTag?
    split <;> rintro ⟨⟩ <;> rfl
  · rintro rfl
    cases t <;> rfl

end EntityType

end SharedWorld
