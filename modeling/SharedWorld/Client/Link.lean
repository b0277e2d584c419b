import SharedWorld.Client.Connect
import SharedWorld.Link.Error
import SharedWorld.Link.Mailbox
import SharedWorld.Link.Route
import SharedWorld.Packet.Codec

/-! # Client links

A client's end of its connection. Packets that arrive wait in a mailbox for the game to
take them; a link that was lost brings nothing more.
-/

namespace SharedWorld

structure ClientLink where
  /-- Where the server's datagrams come from. -/
  server : SocketAddress
  connected : Bool := true
  inbox : Mailbox Packet := {}
  deriving DecidableEq, Repr

namespace ClientLink

def ofConnection (c : Connection) : ClientLink := { server := c.serverDatagram }

/-- A frame from the stream. One that does not decode ends the connection. -/
def onFrame (l : ClientLink) (frame : Bytes) : ClientLink :=
  if l.connected then
    match Packet.decode frame with
    | .ok p => { l with inbox := l.inbox.push p }
    | .error _ => { l with connected := false }
  else l

/-- Datagrams that come from elsewhere or do not decode are dropped. -/
def onDatagram (l : ClientLink) (data : Bytes) (source : SocketAddress) : ClientLink :=
  if l.connected ∧ source = l.server then
    match Packet.decode data with
    | .ok p => { l with inbox := l.inbox.push p }
    | .error _ => l
  else l

def close (l : ClientLink) : ClientLink := { l with connected := false }

def drain (l : ClientLink) : List Packet × ClientLink :=
  let (packets, inbox) := l.inbox.drain
  (packets, { l with inbox })

/-- Whether a packet can be sent: it must fit a frame, and a datagram if it is not vital. -/
def check (l : ClientLink) (p : Packet) : Except LinkError Unit :=
  if !l.connected then .error .disconnected
  else
    match p.encode with
    | .error e => .error (.wire e)
    | .ok frame =>
      if !p.isVital ∧ frame.length > maxDatagram then
        .error (.datagramTooLarge frame.length maxDatagram)
      else .ok ()

end ClientLink

end SharedWorld
