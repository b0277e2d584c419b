import SharedWorld.Client.Link
import SharedWorld.Login.Error
import SharedWorld.Login.Password
import SharedWorld.Micros
import SharedWorld.View.World

/-! # Client sessions

A client asks for its stored password, logs in, probes the datagram way until it is
placed in a world, and then keeps a view of that world. Instants are nanoseconds since
the session started.
-/

namespace SharedWorld

inductive LoginPhase
  | requestingHash | authenticating | probing | inWorld | rejected
  deriving DecidableEq, Repr

namespace LoginPhase

def name : LoginPhase → String
  | requestingHash => "RequestingHash"
  | authenticating => "Authenticating"
  | probing => "Probing"
  | inWorld => "InWorld"
  | rejected => "Rejected"

end LoginPhase

inductive SessionError
  | login (cause : LoginError)
  | link (cause : LinkError)
  deriving DecidableEq, Repr

namespace SessionError

def message : SessionError → String
  | login cause => cause.message
  | link cause => cause.message

end SessionError

structure ClientSession where
  link : ClientLink
  user : String
  password : String
  /-- New passwords are stored under this salt. -/
  salt : Bytes
  phase : LoginPhase := .requestingHash
  player : PlayerId := .none
  world : Option WorldView := none
  lastFrame : Int := 0
  lastProbe : Option Int := none
  lastMove : UInt64 := 0

namespace ClientSession

/-- What an operation sends before it ends or fails. -/
structure Outcome (α : Type) where
  session : ClientSession
  sent : List Packet := []
  result : Except SessionError α

/-- Sends one packet and leaves the session as `next`, or as `failed` if it cannot be sent. -/
def sendOr (s : ClientSession) (p : Packet) (failed next : ClientSession) : Outcome Unit :=
  match s.link.check p with
  | .ok () => { session := next, sent := [p], result := .ok () }
  | .error e => { session := failed, result := .error (.link e) }

def send (s : ClientSession) (p : Packet) : Outcome Unit := s.sendOr p s s

/-- The first packet asks for the stored password. -/
def start (link : ClientLink) (user password : String) (salt : Bytes) : Outcome Unit :=
  let s : ClientSession := { link, user, password, salt }
  s.send (.requestPassword user)

/-- What to log in with: a new user registers, a known one must have the password. -/
def credential? (s : ClientSession) (stored : String) : Option String :=
  if stored = "" then some (Password.store s.salt s.password)
  else if Password.fits s.password stored then some stored
  else none

def onStored (s : ClientSession) (user stored : String) : Outcome Unit :=
  if user ≠ s.user ∨ s.phase ≠ .requestingHash then { session := s, result := .ok () }
  else
    match s.credential? stored with
    | none =>
      { session := { s with phase := .rejected }
        result := .error (.login (.wrongPassword s.user)) }
    | some password =>
      s.sendOr (.authenticate s.user password) s { s with phase := .authenticating }

def handle (s : ClientSession) (p : Packet) : Outcome Unit :=
  match p with
  | .sendPassword user stored => s.onStored user stored
  | .setPlayer player =>
    { session := { s with player, phase := .probing, lastProbe := none }, result := .ok () }
  | .loadWorld name =>
    let s := { s with world := some { name, localPlayer := s.player }, phase := .inWorld }
    s.send .worldLoaded
  | p =>
    let world := s.world.map fun w => (w.handle p).toOption.getD w
    { session := { s with world }, result := .ok () }

/-- Handles packets in order up to the first failure; the rest are lost. -/
def handleAll (s : ClientSession) : List Packet → Outcome Unit
  | [] => { session := s, result := .ok () }
  | p :: ps =>
    let first := s.handle p
    match first.result with
    | .error _ => first
    | .ok () =>
      let rest := first.session.handleAll ps
      { rest with sent := first.sent ++ rest.sent }

/-- Nanoseconds between two probes. -/
def probeInterval : Nat := 100000000

def probeDue (s : ClientSession) (now : Int) : Bool :=
  s.phase = .probing && s.lastProbe.all fun last => probeInterval ≤ (now - last).toNat

def probe (s : ClientSession) (now : Int) : Outcome Unit :=
  if s.probeDue now then s.sendOr (.probe s.player) s { s with lastProbe := some now }
  else { session := s, result := .ok () }

/-- A span of nanoseconds in milliseconds, by way of seconds. -/
def frameMillis (span : Nat) : Float32 :=
  let seconds := (UInt64.ofNat (span / 1000000000)).toFloat32 +
    (UInt32.ofNat (span % 1000000000)).toFloat32 / 1000000000
  seconds * 1000

/-- Lets the view move on; undefined where the view is. -/
def advance (s : ClientSession) (now : Int) : Option ClientSession :=
  let frame := frameMillis (now - s.lastFrame).toNat
  match s.world with
  | none => some { s with lastFrame := now }
  | some w => (w.tick frame).map fun w => { s with lastFrame := now, world := some w }

/-- Handles what has arrived, probes if it is time to, and lets the view move on. -/
def update (s : ClientSession) (now : Int) : Option (Outcome Nat) :=
  let (received, link) := s.link.drain
  let handled := { s with link }.handleAll received
  match handled.result with
  | .error e => some { session := handled.session, sent := handled.sent, result := .error e }
  | .ok () =>
    let probed := handled.session.probe now
    let sent := handled.sent ++ probed.sent
    match probed.result with
    | .error e => some { session := probed.session, sent, result := .error e }
    | .ok () => (probed.session.advance now).map fun session =>
      { session, sent, result := .ok received.length }

def localEntity? (s : ClientSession) : Option EntityId := do
  return (← (← s.world).localCharacter?).entity

/-- Later than every move before, whatever the time says. -/
def moveTime (s : ClientSession) (now : Nat) : UInt64 :=
  max (Micros.ofNat (now / 1000)) (s.lastMove + 1)

def report (s : ClientSession) (world : WorldView) (entity : EntityId) (position : Position)
    (time : UInt64) : OwnUpdate :=
  { player := s.player, entity, time, type := .character,
    data := PositionReport.toBlob { player := s.player, world := world.name, position } }

/-- Reports a move of the own character, if there is one. -/
def move (s : ClientSession) (position : Position) (now : Nat) : Outcome Bool :=
  match s.world, s.localEntity? with
  | some world, some entity =>
    let time := s.moveTime now
    let s := { s with lastMove := time }
    let out := s.send (.ownUpdate (s.report world entity position time))
    { session := out.session, sent := out.sent, result := out.result.map fun _ => true }
  | _, _ => { session := s, result := .ok false }

def chat (s : ClientSession) (message : String) : Outcome Unit := s.send (.say message)

def shutdown (s : ClientSession) : ClientSession := { s with link := s.link.close }

end ClientSession

end SharedWorld
