import SharedWorld.Tile.Entry
import SharedWorld.World.Error

/-! # Islands

A grid of tiles in layers, with the log of every write to it.
-/

namespace SharedWorld

structure IslandConfig where
  layers : Nat := 5
  width : UInt32 := 32
  height : UInt32 := 32
  deriving DecidableEq, Repr

structure Island where
  index : Nat
  layers : Nat
  width : UInt32
  height : UInt32
  tiles : Array Plot
  log : TileLog
  deriving DecidableEq, Repr

namespace Island

def maxLayers : Nat := 256

def ofConfig (index : Nat) (config : IslandConfig) : Island :=
  let layers := min config.layers maxLayers
  { index, layers, width := config.width, height := config.height, log := [],
    tiles := .replicate (layers * config.width.toNat * config.height.toNat) emptyPlot }

/-- The place of a tile in the grid: x runs fastest, then y, then the layer. -/
def offset? (i : Island) (layer : Nat) (x y : UInt32) : Option Nat :=
  if layer < i.layers ∧ x < i.width ∧ y < i.height then
    some (layer * (i.width.toNat * i.height.toNat) + y.toNat * i.width.toNat + x.toNat)
  else none

def plot? (i : Island) (layer : Nat) (x y : UInt32) : Option Plot := do
  i.tiles[← i.offset? layer x y]?

/-- A write that is not newer than the log is moved just past its newest entry. -/
def logTime (log : TileLog) (time : UInt64) : UInt64 :=
  match log with
  | [] => time
  | newest :: _ =>
    if time ≤ newest.time then UInt64.ofNat (min (newest.time.toNat + 1) (UInt64.size - 1)) else time

def setPlot (i : Island) (layer : Nat) (x y : UInt32) (plot : Plot) (time : UInt64) :
    Except WorldError (Island × UInt64) :=
  match i.offset? layer x y with
  | none => .error (.tileOutOfBounds i.index layer x y)
  | some k =>
    let time := logTime i.log time
    let entry : TileWrite := { layer := UInt8.ofNat layer, x, y, time, plot }
    .ok ({ i with tiles := i.tiles.setIfInBounds k plot, log := entry :: i.log }, time)

end Island

end SharedWorld
