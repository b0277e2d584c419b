import SharedWorld.Atlas
import SharedWorld.Login.Accounts

/-! # The server

Turns connections, packets and ticks into changes of the roster, the accounts and the
worlds, and into packets to send. Nothing here can fail: what is refused is dropped.
-/

namespace SharedWorld

inductive ServerError
  | login (cause : LoginError)
  | world (cause : WorldError)
  deriving DecidableEq, Repr

namespace ServerError

def message : ServerError → String
  | login cause => cause.message
  | world cause => cause.message

end ServerError

structure Server where
  roster : Roster := {}
  atlas : Atlas
  accounts : Accounts := {}

namespace Server

def reply (c : ConnectionId) (p : Packet) : List Envelope := [{ target := .stream c, packet := p }]

def connect (s : Server) (c : ConnectionId) : Server :=
  { s with roster := s.roster.addPending c }

def disconnect (s : Server) (c : ConnectionId) (wall : UInt64) : Server × List Envelope :=
  match s.roster.remove c with
  | (none, roster) => ({ s with roster }, [])
  | (some player, roster) =>
    let s := { s with roster }
    if player.isAuthenticated then
      let out := s.atlas.removePlayer player.id wall
      ({ s with atlas := out.state }, out.sent)
    else (s, [])

def authenticate (s : Server) (c : ConnectionId) (user password : String) :
    Server × List Envelope :=
  match s.accounts.login user password with
  | .error _ => (s, [])
  | .ok (accounts, id) =>
    let s := { s with accounts }
    match s.roster.authenticate c id user with
    | .error _ => (s, [])
    | .ok (roster, _) => ({ s with roster }, reply c (.setPlayer id))

/-- Both records of where a player has been placed. The roster does not answer for its own. -/
def recordWorld (s : Server) (id : PlayerId) (world : String) : Server :=
  { s with
    accounts := s.accounts.setWorld id world
    roster := (s.roster.setWorld id (some world)).toOption.getD s.roster }

def place (s : Server) (id : PlayerId) : Server × List Envelope :=
  match s.roster.get? id with
  | none => (s, [])
  | some player =>
    match s.atlas.addPlayer player (s.accounts.world? id) with
    | .error _ => (s, [])
    | .ok out => ({ s with atlas := out.state }.recordWorld id out.value.1, out.sent)

/-- The first probe puts the player in a world; later ones only tell a new address. -/
def probe (s : Server) (id : PlayerId) (source : Route) : Server × List Envelope :=
  match source with
  | .stream _ => (s, [])
  | .datagram address =>
    match s.roster.link id address with
    | .error _ => (s, [])
    | .ok (roster, changed) =>
      let s := { s with roster }
      if (s.atlas.index.get? id).isSome then
        (if changed then { s with atlas := s.atlas.setAddress id address } else s, [])
      else s.place id

def receive (s : Server) (p : Packet) (source : Route) (wall : UInt64) : Server × List Envelope :=
  match s.roster.sender? p source with
  | none => (s, [])
  | some player =>
    match p with
    | .requestPassword user =>
      (s, reply player.connection (.sendPassword user ((s.accounts.password? user).getD "")))
    | .authenticate user password =>
      if player.isAuthenticated then (s, []) else s.authenticate player.connection user password
    | p =>
      if !player.isAuthenticated then (s, [])
      else match p with
      | .probe _ => s.probe player.id source
      | p =>
        match s.atlas.route player.id p wall with
        | .error _ => (s, [])
        | .ok (atlas, sent) => ({ s with atlas }, sent)

def transfer (s : Server) (id : PlayerId) (destination : String) (wall : UInt64) :
    Step Server (Except ServerError EntityId) :=
  match s.roster.get? id with
  | none => ⟨s, [], .error (.login (.playerNotFound id))⟩
  | some player =>
    let out := s.atlas.transfer player destination wall
    let s := { s with atlas := out.state }
    match out.value with
    | .error e => ⟨s, out.sent, .error (.world e)⟩
    | .ok entity =>
      match s.roster.setWorld id (some destination) with
      | .error e => ⟨s, out.sent, .error (.login e)⟩
      | .ok roster =>
        let s := { s with roster }
        ⟨{ s with accounts := s.accounts.setWorld id destination }, out.sent, .ok entity⟩

def tick (s : Server) (clock : Clock) : Server × List Envelope :=
  let (atlas, sent) := s.atlas.tick clock
  ({ s with atlas }, sent)

end Server

end SharedWorld
