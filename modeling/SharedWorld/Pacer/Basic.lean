import SharedWorld.Pacer.Config

/-! # The pacer

Says when the next tick is due and keeps count of the late ones. Times are in
nanoseconds, and counts are words of 64 bits.
-/

namespace SharedWorld

/-- A count is the number that its word holds. -/
instance natOfCount : Coe UInt64 Nat := ⟨UInt64.toNat⟩

structure Pacer where
  policy : LatePolicy
  length : Nat
  due : Nat
  ticks : UInt64 := 0
  overruns : UInt64 := 0
  skipped : UInt64 := 0
  deriving DecidableEq, Repr

/-- What the simulation learns about a tick. Ticks are numbered from 1. -/
structure Tick where
  number : UInt64
  length : Nat
  late : Bool
  skipped : UInt64
  deriving DecidableEq, Repr

namespace Pacer

/-- The first tick is due one tick and the jitter from now. -/
def start (config : PacerConfig) (now jitter : Nat) : Pacer :=
  let config := config.validated
  { policy := config.policy, length := config.duration, due := now + config.duration + jitter }

/-- A tick is late by more than a tenth of its length. -/
def isLate (p : Pacer) (now : Nat) : Bool := p.length / 10 < now - p.due

/-- The whole ticks that a late wake-up has missed, as many of them as a word holds. -/
def missed (p : Pacer) (now : Nat) : UInt64 :=
  match p.policy with
  | .skip => if p.isLate now then .ofNat ((now - p.due) / p.length) else 0
  | .drop => 0

def nextDue (p : Pacer) (now : Nat) : Nat :=
  match p.policy with
  | .skip => now + p.length
  | .drop => p.due + p.length

def wake (p : Pacer) (now : Nat) : Pacer × Tick :=
  let late := p.isLate now
  let skipped := p.missed now
  ({ p with
     due := p.nextDue now
     ticks := p.ticks + 1
     overruns := if late then p.overruns + 1 else p.overruns
     skipped := p.skipped + skipped },
   { number := p.ticks + 1, length := p.length, late, skipped })

def millisecond : Nat := 1000000

/-- Timers fire at whole milliseconds. -/
def firing (p : Pacer) (now : Nat) : Nat :=
  max now ((p.due + (millisecond - 1)) / millisecond * millisecond)

/-- Sleeps until the tick is due. Returns the time of the wake-up as well. -/
def wait (p : Pacer) (now : Nat) : Nat × Pacer × Tick := (p.firing now, p.wake (p.firing now))

/-- Gives up at a time limit, and then nothing has happened but the time. -/
def waitUntil (p : Pacer) (now limit : Nat) : Nat × Pacer × Option Tick :=
  if p.firing now ≤ limit then
    let (time, p, tick) := p.wait now
    (time, p, some tick)
  else (limit, p, none)

end Pacer

end SharedWorld
