import SharedWorld.Packet.Basic

/-! # Routes

Where packets come from and go to: a connection's stream, or a datagram address.
-/

namespace SharedWorld

structure Address where
  text : String
  deriving DecidableEq, Repr, Inhabited

inductive Route
  | stream (connection : ConnectionId)
  | datagram (address : Address)
  deriving DecidableEq, Repr

namespace Route

def connection? : Route → Option ConnectionId
  | stream c => some c
  | datagram _ => none

def address? : Route → Option Address
  | stream _ => none
  | datagram a => some a

end Route

/-- A packet to send, after a delay in milliseconds. -/
structure Envelope where
  target : Route
  packet : Packet
  delay : UInt64 := 0
  deriving DecidableEq, Repr

/-- The longest frame that fits a datagram. -/
def maxDatagram : Nat := 65507

/-- What an operation leaves behind: the new state, the packets sent in order, and its answer. -/
structure Step (σ α : Type) where
  state : σ
  sent : List Envelope
  value : α

end SharedWorld
