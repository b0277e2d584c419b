/-! # Mailboxes

Items that one side pushes and the other drains. A flag tells the draining side
whether there is anything to lock the mailbox for.
-/

namespace SharedWorld

structure Mailbox (α : Type) where
  items : List α := []
  pending : Bool := false
  deriving DecidableEq, Repr

namespace Mailbox

variable {α : Type}

def push (m : Mailbox α) (a : α) : Mailbox α := { items := m.items ++ [a], pending := true }

def take (m : Mailbox α) : List α × Mailbox α := (m.items, {})

/-- Looks at the flag first, and takes only when it is up. -/
def drain (m : Mailbox α) : List α × Mailbox α := if m.pending then m.take else ([], m)

def size (m : Mailbox α) : Nat := m.items.length

end Mailbox

end SharedWorld
