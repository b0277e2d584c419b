import SharedWorld.Link.Courier
import SharedWorld.Link.Pipe
import SharedWorld.Packet.Codec

/-! # The outbox

A courier with a pipe for every stream. Each pipe has a lane of its own, so one that
stalls or breaks holds up no other.
-/

namespace SharedWorld

structure Lane where
  connection : ConnectionId
  pipe : Pipe
  /-- Frames that the pipe has not taken yet. -/
  waiting : List Bytes := []
  /-- No further frame will come, so the lane closes when nothing waits. -/
  released : Bool := false
  failed : Bool := false
  deriving DecidableEq, Repr

namespace Lane

def isOpen (l : Lane) : Bool := !l.failed && (!l.released || !l.waiting.isEmpty)

def enqueue (l : Lane) (frame : Bytes) : Lane :=
  if l.failed then l else { l with waiting := l.waiting ++ [frame] }

/-- Writes frames up to the first fault. A stalled pipe takes empty frames only, and no frame
passes another. -/
def writeAll (p : Pipe) : List Bytes → Except LinkError (List Bytes) × Pipe
  | [] => (.ok [], p)
  | frame :: frames =>
    if p.stalled ∧ frame ≠ [] then (.ok (frame :: frames), p)
    else
      match p.writeFrame frame with
      | (.ok (), p) => writeAll p frames
      | (.error e, p) => (.error e, p)

/-- Writes what waits. A fault closes the lane for good. -/
def run (l : Lane) : Lane × Option LinkError :=
  match writeAll l.pipe l.waiting with
  | (.ok waiting, pipe) => ({ l with pipe, waiting }, none)
  | (.error e, pipe) => ({ l with pipe, waiting := [], failed := true }, some e)

end Lane

structure Outbox where
  courier : Courier := {}
  /-- In the order of registration, closed ones as well. -/
  lanes : List Lane := []
  now : Nat := 0
  stopped : Bool := false
  deriving DecidableEq, Repr

namespace Outbox

/-- What left the outbox, and which streams broke. -/
structure Activity where
  datagrams : List (Address × Bytes) := []
  failures : List (ConnectionId × LinkError) := []
  deriving DecidableEq, Repr

def releaseLane (id : ConnectionId) (l : Lane) : Lane :=
  if l.connection = id then { l with released := true } else l

def register (o : Outbox) (id : ConnectionId) (pipe : Pipe) : Except LinkError Outbox :=
  if o.stopped then .error .stopped
  else .ok { o with
    courier := o.courier.register id
    lanes := o.lanes.map (releaseLane id) ++ [{ connection := id, pipe }] }

def unregister (o : Outbox) (id : ConnectionId) : Except LinkError Outbox :=
  if o.stopped then .error .stopped
  else .ok { o with
    courier := o.courier.unregister id, lanes := o.lanes.map (releaseLane id) }

/-- A stream's frame waits on its one lane that is not released. -/
def enqueue (lanes : List Lane) (d : Delivery) : List Lane :=
  lanes.map fun l => if d.target = .stream l.connection ∧ !l.released then l.enqueue d.frame else l

def runLane (id : ConnectionId) : List Lane → List Lane × Option LinkError
  | [] => ([], none)
  | l :: ls =>
    if l.connection = id ∧ !l.released then
      let (l, fault) := l.run
      (l :: ls, fault)
    else
      let (ls, fault) := runLane id ls
      (l :: ls, fault)

def runLanes (lanes : List Lane) :
    List ConnectionId → List Lane × List (ConnectionId × LinkError)
  | [] => (lanes, [])
  | id :: ids =>
    let (lanes, fault) := runLane id lanes
    let (lanes, faults) := runLanes lanes ids
    (lanes, (fault.map fun e => (id, e)).toList ++ faults)

/-- All frames are on their lanes before any lane writes. The lanes write in the order in which
they got their first frame. -/
def deliverAll (o : Outbox) (ds : List Delivery) : Outbox × Activity :=
  let woken := (ds.filterMap fun d => d.target.connection?).eraseDups
  let (lanes, failures) := runLanes (ds.foldl enqueue o.lanes) woken
  let datagrams := ds.filterMap fun d => d.target.address?.map fun a => (a, d.frame)
  ({ o with lanes }, { datagrams, failures })

def sendFrame (o : Outbox) (target : Route) (frame : Bytes) (delay : Nat) :
    Except LinkError (Outbox × Activity) :=
  if o.stopped then .error .stopped
  else
    let (courier, ds) := o.courier.send o.now delay ⟨target, frame⟩
    .ok ({ o with courier }.deliverAll ds)

/-- A packet that fits no frame is refused first. -/
def send (o : Outbox) (target : Route) (p : Packet) (delay : Nat) :
    Except LinkError (Outbox × Activity) :=
  match p.encode with
  | .error e => .error (.wire e)
  | .ok frame => o.sendFrame target frame delay

def advance (o : Outbox) (time : Nat) : Outbox × Activity :=
  let o := { o with now := o.now + time }
  let (courier, ds) := o.courier.flush o.now
  { o with courier }.deliverAll ds

/-- Held frames are lost; lanes finish what they have. -/
def stop (o : Outbox) : Outbox :=
  { o with
    courier := {}, stopped := true, lanes := o.lanes.map fun l => { l with released := true } }

end Outbox

end SharedWorld
