import SharedWorld.World.Inbound
import SharedWorld.World.Membership
import SharedWorld.World.Tick

/-! # The atlas

All worlds of a server by name, and an index of which player is in which.
-/

namespace SharedWorld

structure Atlas where
  worlds : Table String World := ∅
  index : Table PlayerId String := ∅
  starting : String
  ids : EntityIds := {}

namespace Atlas

def create (configs : List WorldConfig) (starting : String) (sync : SyncConfig) :
    Except WorldError Atlas := do
  let atlas ← configs.foldlM (fun (a : Atlas) config =>
    if a.worlds.contains config.name then throw (.duplicateWorld config.name)
    else
      let (w, ids) := World.create config sync a.ids
      return { a with worlds := a.worlds.insert config.name w, ids }) { starting }
  if atlas.worlds.contains starting then return atlas else throw (.worldNotFound starting)

def worldOf? (a : Atlas) (player : PlayerId) : Option World := do
  a.worlds.get? (← a.index.get? player)

def enter (a : Atlas) (p : Player) (world : String) (entity : Option EntityId) :
    Except WorldError (Step Atlas EntityId) :=
  match a.worlds.get? world with
  | none => .error (.worldNotFound world)
  | some w => do
    let s ← w.addPlayer a.ids p entity
    let (id, ids) := s.value
    return { state := { a with worlds := a.worlds.insert world s.state,
                               index := a.index.insert p.id world, ids }
             sent := s.sent, value := id }

/-- The world a player is placed in: the preferred one if it exists, else the starting world. -/
def placement (a : Atlas) : Option String → String
  | some name => if a.worlds.contains name then name else a.starting
  | none => a.starting

def addPlayer (a : Atlas) (p : Player) (preferred : Option String) :
    Except WorldError (Step Atlas (String × EntityId)) :=
  match a.index.get? p.id with
  | some current => .error (.playerAlreadyInWorld p.id current)
  | none => do
    let name := a.placement preferred
    let s ← a.enter p name none
    return { state := s.state, sent := s.sent, value := (name, s.value) }

/-- The index forgets the player even when the world does not know it. -/
def removePlayer (a : Atlas) (player : PlayerId) (wall : UInt64) :
    Step Atlas (Except WorldError Member) :=
  match a.index.get? player with
  | none => ⟨a, [], .error (.playerNotInWorld player)⟩
  | some name =>
    let a := { a with index := a.index.erase player }
    match a.worlds.get? name with
    | none => ⟨a, [], .error (.worldNotFound name)⟩
    | some w =>
      match w.removePlayer player wall with
      | .error e => ⟨a, [], .error e⟩
      | .ok s => ⟨{ a with worlds := a.worlds.insert name s.state }, s.sent, .ok s.value⟩

/-- Leaves one world and enters another, with the same character number. -/
def transfer (a : Atlas) (p : Player) (destination : String) (wall : UInt64) :
    Step Atlas (Except WorldError EntityId) :=
  if !a.worlds.contains destination then ⟨a, [], .error (.worldNotFound destination)⟩
  else
    let out := a.removePlayer p.id wall
    match out.value with
    | .error e => ⟨out.state, out.sent, .error e⟩
    | .ok m =>
      match out.state.enter p destination (some m.character) with
      | .error e => ⟨out.state, out.sent, .error e⟩
      | .ok s => ⟨s.state, out.sent ++ s.sent, .ok s.value⟩

def route (a : Atlas) (player : PlayerId) (p : Packet) (wall : UInt64) :
    Except WorldError (Atlas × List Envelope) :=
  match a.index.get? player with
  | none => .error (.playerNotInWorld player)
  | some name =>
    match a.worlds.get? name with
    | none => .error (.playerNotInWorld player)
    | some w => do
      let (w, sent) ← w.handle player p wall
      return ({ a with worlds := a.worlds.insert name w }, sent)

def setAddress (a : Atlas) (player : PlayerId) (address : Address) : Atlas :=
  match a.index.get? player with
  | none => a
  | some name =>
    match a.worlds.get? name with
    | none => a
    | some w =>
      match w.setAddress player address with
      | .error _ => a
      | .ok w => { a with worlds := a.worlds.insert name w }

def tick (a : Atlas) (clock : Clock) : Atlas × List Envelope :=
  let ticked := a.worlds.map fun w => w.tick clock
  ({ a with worlds := ticked.map (·.1) }, ticked.values.flatMap (·.2))

end Atlas

end SharedWorld
