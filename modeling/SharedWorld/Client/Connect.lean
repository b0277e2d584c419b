import SharedWorld.Config.Settings
import SharedWorld.Link.Network
import SharedWorld.Text.Quoted

/-! # Connecting

A client needs an address for each of the server's sockets, a stream to the server
and a datagram socket of its own.
-/

namespace SharedWorld

inductive ConnectError
  | invalidAddress (text : String)
  | unreachable (address : String)
  deriving DecidableEq, Repr

namespace ConnectError

def message : ConnectError → String
  | invalidAddress text => "cannot resolve address " ++ Text.quoted text
  | unreachable address => "failed to connect to " ++ address

end ConnectError

structure Connection where
  serverStream : SocketAddress
  serverDatagram : SocketAddress
  ownDatagram : SocketAddress
  polling : Polling
  deriving DecidableEq, Repr

namespace ClientConfig

def resolve (text : String) : Except ConnectError SocketAddress :=
  match SocketAddress.ofText? text with
  | some a => .ok a
  | none => .error (.invalidAddress text)

/-- Both of the server's addresses are resolved before anything is opened. -/
def connect (config : ClientConfig) (network : Network) : Except ConnectError Connection := do
  let config := config.validated
  let serverStream ← resolve config.serverStream
  let serverDatagram ← resolve config.serverDatagram
  if !network.reaches serverStream then throw (.unreachable config.serverStream)
  match network.bind? config.ownDatagram with
  | none => throw (.unreachable config.ownDatagram)
  | some ownDatagram => return { serverStream, serverDatagram, ownDatagram, polling := config.polling }

end ClientConfig

end SharedWorld
