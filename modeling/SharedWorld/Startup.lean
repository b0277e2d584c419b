import SharedWorld.Config.Settings
import SharedWorld.Link.Network
import SharedWorld.Server

/-! # Startup

A server starts when its two sockets can be bound and its worlds can be built.
-/

namespace SharedWorld

inductive StartError
  | bind (address : String)
  | world (cause : WorldError)
  deriving DecidableEq, Repr

structure RunningServer where
  stream : SocketAddress
  datagram : SocketAddress
  pacing : PacerConfig
  server : Server

namespace ServerConfig

/-- Sockets are bound before the worlds are looked at. -/
def start (config : ServerConfig) (network : Network) : Except StartError RunningServer := do
  let config := config.validated
  match network.bind? config.streamAddress, network.bind? config.datagramAddress with
  | none, _ => throw (.bind config.streamAddress)
  | _, none => throw (.bind config.datagramAddress)
  | some stream, some datagram =>
    match Atlas.create config.worlds config.startingWorld config.sync with
    | .error e => throw (.world e)
    | .ok atlas => return { stream, datagram, pacing := config.pacing, server := { atlas } }

end ServerConfig

end SharedWorld
