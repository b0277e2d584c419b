import SharedWorld.Link.Polling
import SharedWorld.Pacer.Config
import SharedWorld.World.Config

/-! # Settings

What a server and a client are started with.
-/

namespace SharedWorld

structure ServerConfig where
  streamAddress : String := "0.0.0.0:7777"
  datagramAddress : String := "0.0.0.0:7778"
  startingWorld : String := "farm"
  /-- In milliseconds. -/
  pollTimeout : UInt64 := 5
  tickRate : UInt32 := 30
  removeResendDelay : UInt64 := 100
  worlds : List WorldConfig := [{}]

namespace ServerConfig

def pacing (c : ServerConfig) : PacerConfig := PacerConfig.validated { rate := c.tickRate }

def polling (c : ServerConfig) : Polling := .ofMillis c.pollTimeout

def sync (c : ServerConfig) : SyncConfig := { removeResendDelay := c.removeResendDelay }

def validated (c : ServerConfig) : ServerConfig :=
  { c with
    pollTimeout := if c.pollTimeout = 0 then 1 else c.pollTimeout
    tickRate := c.pacing.rate }

end ServerConfig

structure ClientConfig where
  serverStream : String := "127.0.0.1:7777"
  serverDatagram : String := "127.0.0.1:7778"
  /-- Port 0 takes any free port. -/
  ownDatagram : String := "0.0.0.0:0"
  /-- In milliseconds. -/
  pollTimeout : UInt64 := 5
  deriving DecidableEq, Repr

namespace ClientConfig

def polling (c : ClientConfig) : Polling := .ofMillis c.pollTimeout

def validated (c : ClientConfig) : ClientConfig :=
  { c with pollTimeout := if c.pollTimeout = 0 then 1 else c.pollTimeout }

end ClientConfig

end SharedWorld
