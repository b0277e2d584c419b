import SharedWorld.Link.Courier
import SharedWorld.Link.Hub
import SharedWorld.Link.Mailbox
import SharedWorld.Server

/-! # The simulation

A server with its connections. Whatever the network brings waits for the next step;
what the server sends goes through a courier. Times are in nanoseconds since the start.
-/

namespace SharedWorld

namespace Server

def apply (s : Server) (wall : UInt64) : NetworkEvent → Server × List Envelope
  | .added c _ => (s.connect c, [])
  | .removed c => s.disconnect c wall
  | .packet p source => s.receive p source wall

def applyAll (s : Server) (wall : UInt64) : List NetworkEvent → Server × List Envelope
  | [] => (s, [])
  | e :: es =>
    let (s, first) := s.apply wall e
    let (s, rest) := s.applyAll wall es
    (s, first ++ rest)

end Server

namespace Courier

/-- The streams of a courier are those of the connections. -/
def track (c : Courier) : NetworkEvent → Courier
  | .added id _ => c.register id
  | .removed id => c.unregister id
  | .packet _ _ => c

/-- Sends packets in order, but for those that fit no frame. -/
def post (c : Courier) (now : Nat) : List Envelope → Courier × List Delivery
  | [] => (c, [])
  | e :: es =>
    match e.packet.encode with
    | .error _ => c.post now es
    | .ok frame =>
      let (c, first) := c.send now e.delay.toNat ⟨e.target, frame⟩
      let (c, rest) := c.post now es
      (c, first ++ rest)

end Courier

structure Simulation where
  server : Server
  clock : Clock := {}
  hub : Hub := {}
  events : Mailbox NetworkEvent := {}
  courier : Courier := {}

namespace Simulation

def observe (s : Simulation) (x : Happening) : Simulation :=
  let (hub, events) := s.hub.poll x
  { s with
    hub, events := events.foldl .push s.events, courier := events.foldl .track s.courier }

def milliseconds (now : Nat) : Nat := now / 1000000

/-- One tick: time moves, what has been observed is handled, and the worlds speak. -/
def step (s : Simulation) (now : Nat) (wall : UInt64) : Simulation × List Delivery :=
  let clock := s.clock.tickAt now
  let (observed, events) := s.events.drain
  let (server, answers) := s.server.applyAll wall observed
  let (server, news) := server.tick clock
  let (courier, deliveries) := s.courier.post (milliseconds now) (answers ++ news)
  ({ s with server, clock, events, courier }, deliveries)

def flush (s : Simulation) (now : Nat) : Simulation × List Delivery :=
  let (courier, deliveries) := s.courier.flush (milliseconds now)
  ({ s with courier }, deliveries)

def isConnected (s : Simulation) (c : ConnectionId) : Bool := s.courier.streams.contains c

end Simulation

end SharedWorld
