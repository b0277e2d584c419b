import SharedWorld.Link.Route

/-! # Endpoints

A connection's life runs through four phases, one after another. The registry tracks
the connections of a server and sweeps out those marked for removal.
-/

namespace SharedWorld

inductive Phase
  | connecting | active | pendingRemoval | closed
  deriving DecidableEq, Repr

namespace Phase

def all : List Phase := [connecting, active, pendingRemoval, closed]

def isActive (p : Phase) : Bool := p = active

def next? : Phase → Option Phase
  | connecting => some active
  | active => some pendingRemoval
  | pendingRemoval => some closed
  | closed => none

def canBecome (p q : Phase) : Bool := p.next? = some q

def name : Phase → String
  | connecting => "Connecting"
  | active => "Active"
  | pendingRemoval => "PendingRemoval"
  | closed => "Closed"

end Phase

inductive EndpointError
  | unknownConnection (connection : ConnectionId)
  | invalidTransition (connection : ConnectionId) (source target : Phase)
  deriving DecidableEq, Repr

namespace EndpointError

def message : EndpointError → String
  | unknownConnection c => "unknown connection " ++ c.text
  | invalidTransition c source target =>
    "endpoint " ++ c.text ++ " cannot move from " ++ source.name ++ " to " ++ target.name

end EndpointError

structure Endpoint where
  id : ConnectionId
  peer : Address
  phase : Phase := .connecting
  deriving DecidableEq, Repr

namespace Endpoint

def become (e : Endpoint) (p : Phase) : Except EndpointError Endpoint :=
  if e.phase.canBecome p then .ok { e with phase := p }
  else .error (.invalidTransition e.id e.phase p)

end Endpoint

structure Endpoints where
  table : Table ConnectionId Endpoint := ∅

namespace Endpoints

def insert (es : Endpoints) (e : Endpoint) : Endpoints := ⟨es.table.insert e.id e⟩

def get? (es : Endpoints) (c : ConnectionId) : Option Endpoint := es.table.get? c

def activate (es : Endpoints) (c : ConnectionId) : Except EndpointError Endpoints :=
  match es.get? c with
  | none => .error (.unknownConnection c)
  | some e => return ⟨es.table.insert c (← e.become .active)⟩

/-- Marks an active connection for removal, and says whether it did. -/
def mark (es : Endpoints) (c : ConnectionId) : Bool × Endpoints :=
  match es.get? c with
  | none => (false, es)
  | some e =>
    match e.become .pendingRemoval with
    | .ok e => (true, ⟨es.table.insert c e⟩)
    | .error _ => (false, es)

/-- Closes and drops every marked connection, in the order of their numbers. -/
def sweep (es : Endpoints) : List Endpoint × Endpoints :=
  let marked := es.table.values.filter (·.phase = .pendingRemoval)
  (marked.map fun e => { e with phase := .closed },
    ⟨marked.foldl (fun t e => t.erase e.id) es.table⟩)

def isActive (es : Endpoints) (c : ConnectionId) : Bool := (es.get? c).any (·.phase.isActive)

end Endpoints

end SharedWorld
