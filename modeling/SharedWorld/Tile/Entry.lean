import SharedWorld.Wire.Field

/-! # Tile writes

One change of one tile, and change logs as bytes: a count of islands, then for each
a count of entries and the entries themselves, newest first.
-/

namespace SharedWorld

abbrev Plot := UInt16

def emptyPlot : Plot := 65535

structure TileWrite where
  layer : UInt8
  x : UInt32
  y : UInt32
  time : UInt64
  plot : Plot
  deriving DecidableEq, Repr

namespace TileWrite

open FieldType in
@[reducible] def layout : List FieldType := [u8, u32, u32, u64, u16]

def write (w : TileWrite) : Bytes := Record.write layout (w.layer, w.x, w.y, w.time, w.plot, ())

def read : Reader TileWrite := do
  let (layer, x, y, time, plot, ()) ← Record.read layout
  return { layer, x, y, time, plot }

end TileWrite

/-- Runs a reader `n` times. -/
def Reader.times {α : Type} (r : Reader α) : Nat → List α → Reader (List α)
  | 0, acc, bs => (.ok acc.reverse, bs)
  | n + 1, acc, bs =>
    match r bs with
    | (.ok a, rest) => times r n (a :: acc) rest
    | (.error e, rest) => (.error e, rest)

/-- The writes to one island, newest first. -/
abbrev TileLog := List TileWrite

namespace TileLog

def write (log : TileLog) : Bytes := Word.encode 4 log.length ++ log.flatMap TileWrite.write

def read : Reader TileLog := do TileWrite.read.times (← Reader.word 4) []

def writeAll (logs : List TileLog) : Bytes := Word.encode 4 logs.length ++ logs.flatMap write

def readAll : Reader (List TileLog) := do read.times (← Reader.word 4) []

end TileLog

end SharedWorld
