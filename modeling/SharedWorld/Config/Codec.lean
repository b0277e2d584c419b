import SharedWorld.Config.Settings
import SharedWorld.Json.Print
import SharedWorld.Json.Shape

/-! # Configuration as JSON

Every structure is written with its fields in order. When one is read, a missing
field keeps its default; only a position must be complete.
-/

namespace SharedWorld

open Json

namespace Json.Print

def u32 (n : UInt32) : String := toString n.toNat

def u64 (n : UInt64) : String := toString n.toNat

end Json.Print

namespace Position

def scan : Scan Position :=
  .object
    [ { Scan.Field.of "x" Scan.anyNumber fun n p => { p with x := n.toFloat32 } with required := true },
      { Scan.Field.of "y" Scan.anyNumber fun n p => { p with y := n.toFloat32 } with required := true } ]
    ⟨0, 0⟩

def toJson (p : Position) : String :=
  Print.object [("x", Print.float32 p.x), ("y", Print.float32 p.y)]

end Position

namespace IslandConfig

def scan : Scan IslandConfig :=
  .object
    [ .of "layers" (Scan.natural (UInt64.size - 1)) fun n c => { c with layers := n },
      .of "width" Scan.u32 fun n c => { c with width := n },
      .of "height" Scan.u32 fun n c => { c with height := n } ]
    {}

def toJson (c : IslandConfig) : String :=
  Print.object
    [("layers", toString c.layers), ("width", Print.u32 c.width), ("height", Print.u32 c.height)]

end IslandConfig

namespace WorldConfig

def scan : Scan WorldConfig :=
  .object
    [ .of "name" Scan.text fun s c => { c with name := s },
      .of "spawn" Position.scan fun p c => { c with spawn := p },
      .of "islands" (.list IslandConfig.scan) fun is c => { c with islands := is } ]
    {}

def toJson (c : WorldConfig) : String :=
  Print.object
    [ ("name", Print.string c.name), ("spawn", c.spawn.toJson),
      ("islands", Print.list (c.islands.map IslandConfig.toJson)) ]

end WorldConfig

namespace SyncConfig

def scan : Scan SyncConfig :=
  .object
    [ .of "removeResendDelayMs" Scan.u64 fun n c => { c with removeResendDelay := n },
      .of "characterBroadcastMs" Scan.u64 fun n c => { c with characterBroadcast := n },
      .of "worldBroadcastMs" Scan.u64 fun n c => { c with worldBroadcast := n } ]
    {}

def toJson (c : SyncConfig) : String :=
  Print.object
    [ ("removeResendDelayMs", Print.u64 c.removeResendDelay),
      ("characterBroadcastMs", Print.u64 c.characterBroadcast),
      ("worldBroadcastMs", Print.u64 c.worldBroadcast) ]

end SyncConfig

namespace PacerConfig

def scan : Scan PacerConfig :=
  .object
    [ .of "tickRateHz" Scan.u32 fun n c => { c with rate := n },
      .of "policy" (.choice (LatePolicy.all.map fun p => (p.name, p))) fun p c =>
        { c with policy := p },
      .of "budgetWarnThreshold" Scan.anyNumber fun n c => { c with warnThreshold := n.toFloat },
      .of "initialJitterUs" Scan.u64 fun n c => { c with jitter := n } ]
    {}

def toJson (c : PacerConfig) : String :=
  Print.object
    [ ("tickRateHz", Print.u32 c.rate), ("policy", Print.string c.policy.name),
      ("budgetWarnThreshold", Print.float64 c.warnThreshold),
      ("initialJitterUs", Print.u64 c.jitter) ]

end PacerConfig

namespace ServerConfig

def scan : Scan ServerConfig :=
  .object
    [ .of "tcpAddr" Scan.text fun s c => { c with streamAddress := s },
      .of "udpAddr" Scan.text fun s c => { c with datagramAddress := s },
      .of "startingWorld" Scan.text fun s c => { c with startingWorld := s },
      .of "pollTimeoutMs" Scan.u64 fun n c => { c with pollTimeout := n },
      .of "tickRateHz" Scan.u32 fun n c => { c with tickRate := n },
      .of "removeResendDelayMs" Scan.u64 fun n c => { c with removeResendDelay := n },
      .of "worlds" (.list WorldConfig.scan) fun ws c => { c with worlds := ws } ]
    {}

def toJson (c : ServerConfig) : String :=
  Print.object
    [ ("tcpAddr", Print.string c.streamAddress), ("udpAddr", Print.string c.datagramAddress),
      ("startingWorld", Print.string c.startingWorld), ("pollTimeoutMs", Print.u64 c.pollTimeout),
      ("tickRateHz", Print.u32 c.tickRate),
      ("removeResendDelayMs", Print.u64 c.removeResendDelay),
      ("worlds", Print.list (c.worlds.map WorldConfig.toJson)) ]

def ofJson (s : String) : Except Fault ServerConfig := return (← Scan.whole scan s).validated

end ServerConfig

namespace ClientConfig

def scan : Scan ClientConfig :=
  .object
    [ .of "serverTcpAddr" Scan.text fun s c => { c with serverStream := s },
      .of "serverUdpAddr" Scan.text fun s c => { c with serverDatagram := s },
      .of "clientUdpAddr" Scan.text fun s c => { c with ownDatagram := s },
      .of "pollTimeoutMs" Scan.u64 fun n c => { c with pollTimeout := n } ]
    {}

def toJson (c : ClientConfig) : String :=
  Print.object
    [ ("serverTcpAddr", Print.string c.serverStream),
      ("serverUdpAddr", Print.string c.serverDatagram),
      ("clientUdpAddr", Print.string c.ownDatagram), ("pollTimeoutMs", Print.u64 c.pollTimeout) ]

def ofJson (s : String) : Except Fault ClientConfig := return (← Scan.whole scan s).validated

end ClientConfig

end SharedWorld
