import SharedWorld.Link.Route

/-! # The courier

Sends frames to registered streams and to datagram addresses, at once or when a delay
has passed. Times and delays are in milliseconds.
-/

namespace SharedWorld

structure Delivery where
  target : Route
  frame : Bytes
  deriving DecidableEq, Repr

structure Held where
  due : Nat
  delivery : Delivery
  deriving DecidableEq, Repr

structure Courier where
  streams : List ConnectionId := []
  /-- In the order in which they leave: earlier dues first, then in the order of sending. -/
  held : List Held := []
  deriving DecidableEq, Repr

namespace Courier

def register (c : Courier) (id : ConnectionId) : Courier :=
  { c with streams := id :: c.streams.filter (· ≠ id) }

def unregister (c : Courier) (id : ConnectionId) : Courier :=
  { c with streams := c.streams.filter (· ≠ id) }

/-- Frames to unknown streams and oversized datagrams are dropped. -/
def accepts (c : Courier) (d : Delivery) : Bool :=
  match d.target with
  | .stream id => c.streams.contains id
  | .datagram _ => d.frame.length ≤ maxDatagram

def insertHeld (h : Held) : List Held → List Held
  | [] => [h]
  | g :: gs => if g.due ≤ h.due then g :: insertHeld h gs else h :: g :: gs

/-- Returns what leaves at once. -/
def send (c : Courier) (now delay : Nat) (d : Delivery) : Courier × List Delivery :=
  if delay = 0 then (c, if c.accepts d then [d] else [])
  else ({ c with held := insertHeld ⟨now + delay, d⟩ c.held }, [])

def flush (c : Courier) (now : Nat) : Courier × List Delivery :=
  let due := c.held.takeWhile (·.due ≤ now)
  ({ c with held := c.held.drop due.length }, (due.map (·.delivery)).filter c.accepts)

end Courier

end SharedWorld
