import SharedWorld.Config.Codec
import SharedWorld.Pacer.Basic
import SharedWorld.Simulation
import SharedWorld.Startup
import Std.Async.Signal
import Std.Async.TCP
import Std.Async.Timer
import Std.Async.UDP

/-! # The program

Runs a server on the sockets of this host until it is interrupted. The one argument is
the path of a configuration; without it the defaults hold.
-/

namespace SharedWorld

open Std.Async

namespace SocketAddress

def toNet? (a : SocketAddress) : Option Std.Net.SocketAddress :=
  match a.host with
  | .v4 [b₀, b₁, b₂, b₃] => some (.v4 ⟨.ofParts b₀ b₁ b₂ b₃, a.port⟩)
  | .v6 [g₀, g₁, g₂, g₃, g₄, g₅, g₆, g₇] _ =>
    some (.v6 ⟨.ofParts g₀ g₁ g₂ g₃ g₄ g₅ g₆ g₇, a.port⟩)
  | _ => none

end SocketAddress

namespace Program

structure Sockets where
  listener : TCP.Socket.Server
  datagrams : UDP.Socket

/-- What the sockets bring, until the simulation observes it. -/
abbrev Inbox := IO.Ref (Mailbox Happening)

abbrev Streams := IO.Ref (Table ConnectionId TCP.Socket.Client)

def address (text : String) : IO Std.Net.SocketAddress :=
  match (SocketAddress.ofText? text).bind SocketAddress.toNet? with
  | some a => return a
  | none => throw (.userError "not an address")

def bind (text : String) (socket : Std.Net.SocketAddress → IO Unit) : IO Unit := do
  try socket (← address text)
  catch e => throw (.userError ("failed to bind \"" ++ text ++ "\": " ++ toString e))

def Sockets.open (config : ServerConfig) : IO Sockets := do
  let listener ← TCP.Socket.Server.mk
  bind config.streamAddress fun a => do
    listener.bind a
    listener.listen 1024
  let datagrams ← UDP.Socket.mk
  bind config.datagramAddress datagrams.bind
  return { listener, datagrams }

def readBytes (stream : TCP.Socket.Client) (n : Nat) : Async ByteArray := do
  let mut bytes := ByteArray.empty
  while bytes.size < n do
    match ← stream.recv? (min (n - bytes.size) 65536).toUInt64 with
    | some more => bytes := bytes ++ more
    | none => return bytes
  return bytes

/-- The next packet, or nothing at the end of the stream or a fault. -/
def readPacket? (stream : TCP.Socket.Client) : Async (Option Packet) := do
  let sizeField := (← readBytes stream 4).toList
  match Frame.declaredSize sizeField with
  | .error _ => return none
  | .ok size =>
    let body ← readBytes stream (size - 4)
    return (Packet.decode (sizeField ++ body.toList)).toOption

def follow (inbox : Inbox) (c : ConnectionId) (stream : TCP.Socket.Client) : Async Unit := do
  try
    while true do
      match ← readPacket? stream with
      | some p => inbox.modify (·.push (.received c p))
      | none => break
  catch _ => pure ()
  inbox.modify (·.push (.closed c))

def acceptAll (inbox : Inbox) (streams : Streams) (listener : TCP.Socket.Server) : Async Unit := do
  let mut next : UInt64 := 1
  while true do
    try
      let stream ← listener.accept
      let peer ← stream.getPeerName
      stream.noDelay
      inbox.modify (·.push (.accepted ⟨next⟩ ⟨toString peer⟩))
      streams.modify (·.insert ⟨next⟩ stream)
      background (follow inbox ⟨next⟩ stream)
    catch _ => pure ()
    next := next + 1

def receiveAll (inbox : Inbox) (socket : UDP.Socket) : Async Unit := do
  while true do
    try
      let (bytes, source) ← socket.recv 65536
      if let some source := source then
        inbox.modify (·.push (.datagram bytes.toList ⟨toString source⟩))
    catch _ => pure ()

/-- Starts a sending without waiting for its end. A stream on which one fails is reported. -/
def deliver (inbox : Inbox) (streams : Streams) (sockets : Sockets) (d : Delivery) : IO Unit := do
  let frame := d.frame.toByteArray
  match d.target with
  | .stream c =>
    if let some stream := (← streams.get).get? c then
      let sending : Async Unit := do
        try stream.send frame
        catch _ => inbox.modify (·.push (.sendFailed c))
      discard sending.toIO
  | .datagram target =>
    let sending : Async Unit := do
      try sockets.datagrams.send frame (some (← address target.text))
      catch _ => pure ()
    discard sending.toIO

/-- Shuts those of the streams whose connections have ended. -/
def closeEnded (s : Simulation) (streams : Streams)
    (known : Table ConnectionId TCP.Socket.Client) : IO Unit := do
  for (c, stream) in known.entries do
    if !s.isConnected c then
      streams.modify (·.erase c)
      let closing : Async Unit := try stream.shutdown catch _ => pure ()
      discard closing.toIO

def wallClock : IO UInt64 := do
  return (← Std.Time.Timestamp.now).toMillisecondsSinceUnixEpoch.val.toNat.toUInt64

/-- Ticks and delivers until the signal comes. Returns the number of ticks. -/
def run (config : ServerConfig) (r : RunningServer) (sockets : Sockets) : IO Nat := do
  let inbox : Inbox ← IO.mkRef {}
  let streams : Streams ← IO.mkRef ∅
  let interrupt ← (← Signal.Waiter.mk .sigint false).wait
  discard (acceptAll inbox streams sockets.listener).toIO
  discard (receiveAll inbox sockets.datagrams).toIO
  let start ← IO.monoNanosNow
  let pause := max 1 (config.polling.timeout / Pacer.millisecond)
  let mut pacer := Pacer.start r.pacing 0 ((← IO.rand 0 (r.pacing.jitter.toNat - 1)) * 1000)
  let mut simulation : Simulation := { server := r.server }
  while !(← IO.hasFinished interrupt) do
    -- A stream becomes known after its connection, so each known one has been observed.
    let known ← streams.get
    let happenings ← inbox.modifyGet Mailbox.drain
    let observed := happenings.foldl .observe (simulation.observe .idle)
    closeEnded observed streams known
    let now := (← IO.monoNanosNow) - start
    let (flushed, due) := observed.flush now
    simulation := flushed
    due.forM (deliver inbox streams sockets)
    if pacer.due ≤ now then
      pacer := (pacer.wake now).1
      let (stepped, sent) := simulation.step now (← wallClock)
      simulation := stepped
      sent.forM (deliver inbox streams sockets)
    IO.sleep (min pause ((pacer.due - now) / Pacer.millisecond + 1)).toUInt32
  return pacer.ticks

def load : List String → IO ServerConfig
  | [] => return {}
  | path :: _ => do
    let text ←
      try IO.FS.readFile path
      catch e => throw (.userError ("failed to read config " ++ path ++ ": " ++ toString e))
    match ServerConfig.ofJson text with
    | .ok config => return config
    | .error _ => throw (.userError "invalid config")

def serve (args : List String) : IO Unit := do
  let config := (← load args).validated
  let sockets ← Sockets.open config
  let network : Network := { reaches := fun _ => false, binds := fun _ => true }
  match config.start network with
  | .error (.bind text) => throw (.userError ("failed to bind \"" ++ text ++ "\""))
  | .error (.world e) => throw (.userError e.message)
  | .ok r =>
    let stream ← sockets.listener.getSockName
    let datagram ← sockets.datagrams.getSockName
    IO.println s!"server running, streams at {stream}, datagrams at {datagram}"
    let ticks ← run config r sockets
    IO.println s!"server stopped after {ticks} ticks"

end Program

end SharedWorld

def main (args : List String) : IO UInt32 := do
  try
    SharedWorld.Program.serve args
    return 0
  catch e =>
    IO.eprintln ("server failed: " ++ toString e)
    return 1
