import SharedWorld.Link.Endpoint
import SharedWorld.Link.Inbound
import SharedWorld.Packet.Codec

/-! # The hub

Turns what happens on the network into events of connections. A connection that ends
is only marked; the sweep after every happening removes it and tells so.
-/

namespace SharedWorld

inductive NetworkEvent
  | added (connection : ConnectionId) (peer : Address)
  | removed (connection : ConnectionId)
  | packet (packet : Packet) (source : Route)
  deriving DecidableEq, Repr

inductive Happening
  | accepted (connection : ConnectionId) (peer : Address)
  | received (connection : ConnectionId) (packet : Packet)
  | closed (connection : ConnectionId)
  | sendFailed (connection : ConnectionId)
  | datagram (bytes : Bytes) (source : Address)
  | idle
  deriving DecidableEq, Repr

namespace Happening

/-- What the stream of a connection brings: packets up to its end or its first fault. -/
def ofStream (c : ConnectionId) (s : Inbound) : List Happening :=
  decodable s.frames.1 ++ [closed c]
where
  decodable : List Bytes → List Happening
    | [] => []
    | frame :: frames =>
      match Packet.decode frame with
      | .ok p => received c p :: decodable frames
      | .error _ => []

end Happening

structure Hub where
  endpoints : Endpoints := {}

namespace Hub

def sweep (h : Hub) : Hub × List NetworkEvent :=
  let (closed, endpoints) := h.endpoints.sweep
  ({ endpoints }, closed.map fun e => .removed e.id)

/-- Before the sweep. -/
def react (h : Hub) : Happening → Hub × List NetworkEvent
  | .accepted c peer =>
    let endpoints := h.endpoints.insert { id := c, peer }
    match endpoints.activate c with
    | .ok endpoints => ({ endpoints }, [.added c peer])
    | .error _ => ({ endpoints }, [])
  | .received c p => (h, if h.endpoints.isActive c then [.packet p (.stream c)] else [])
  | .closed c => ({ endpoints := (h.endpoints.mark c).2 }, [])
  | .sendFailed c => ({ endpoints := (h.endpoints.mark c).2 }, [])
  | .datagram bytes source =>
    (h, match Packet.decode bytes with
      | .ok p => [.packet p (.datagram source)]
      | .error _ => [])
  | .idle => (h, [])

def poll (h : Hub) (x : Happening) : Hub × List NetworkEvent :=
  let (h, events) := h.react x
  let (h, removals) := h.sweep
  (h, events ++ removals)

end Hub

end SharedWorld
