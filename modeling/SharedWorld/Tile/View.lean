import SharedWorld.Tile.Entry
import SharedWorld.World.Error

/-! # Views of tiles

A client's knowledge of the islands, fed by change logs.
-/

namespace SharedWorld

/-- The writes applied so far, newest first, and the time of the newest log entry seen. -/
structure IslandView where
  lastKnown : Option UInt64 := none
  writes : TileLog := []
  deriving DecidableEq, Repr, Inhabited

namespace IslandView

def plot (v : IslandView) (layer : UInt8) (x y : UInt32) : Plot :=
  match v.writes.find? fun w => w.layer = layer ∧ w.x = x ∧ w.y = y with
  | some w => w.plot
  | none => emptyPlot

def isFresh (v : IslandView) (w : TileWrite) : Bool := v.lastKnown.all (· < w.time)

/-- The entries up to the first one already known. -/
def fresh (v : IslandView) (log : TileLog) : TileLog := log.takeWhile v.isFresh

def replay (v : IslandView) (log : TileLog) : IslandView :=
  match v.fresh log with
  | [] => v
  | newest :: older => { lastKnown := some newest.time, writes := newest :: older ++ v.writes }

end IslandView

structure TileView where
  islands : List IslandView := []
  deriving DecidableEq, Repr, Inhabited

namespace TileView

def island? (v : TileView) (i : Nat) : Option IslandView := v.islands[i]?

/-- The islands, grown to at least `n`. -/
def grown (v : TileView) (n : Nat) : List IslandView :=
  v.islands ++ List.replicate (n - v.islands.length) default

/-- Applies every log to its own island, or nothing at all. Returns how many entries were new. -/
def apply (v : TileView) (data : Bytes) : Except WorldError (TileView × Nat) :=
  match TileLog.readAll data with
  | (.error e, _) => .error (.malformedData e)
  | (.ok logs, []) =>
    let islands := v.grown logs.length
    let fed := islands.zip logs
    .ok (⟨fed.map (fun (i, log) => i.replay log) ++ islands.drop logs.length⟩,
      (fed.flatMap fun (i, log) => i.fresh log).length)
  | (.ok _, rest) => .error (.trailingData rest.length)

end TileView

end SharedWorld
