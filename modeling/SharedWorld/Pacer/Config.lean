import SharedWorld.Decimal.Shortest

/-! # Pacing configuration

How often the simulation ticks, and what happens when a tick comes late.
-/

namespace SharedWorld

inductive LatePolicy
  /-- Count the missed ticks and go on from now. -/
  | skip
  /-- Keep the cadence. -/
  | drop
  deriving DecidableEq, Repr

namespace LatePolicy

def all : List LatePolicy := [skip, drop]

def name : LatePolicy → String
  | skip => "skip"
  | drop => "drop"

end LatePolicy

structure PacerConfig where
  /-- Ticks per second. -/
  rate : UInt32 := 30
  policy : LatePolicy := .skip
  /-- The share of a tick above which the simulation counts as slow. -/
  warnThreshold : Float := 0.8
  /-- The first tick may come this many microseconds later. -/
  jitter : UInt64 := 2000

namespace PacerConfig

def maxRate : UInt32 := 240

/-- Rates go from 1 to 240, the threshold from 0 to 1. -/
def validated (c : PacerConfig) : PacerConfig :=
  { c with
    rate := if c.rate < 1 then 1 else if maxRate < c.rate then maxRate else c.rate
    warnThreshold :=
      if c.warnThreshold < 0 then 0 else if 1 < c.warnThreshold then 1 else c.warnThreshold }

/-- The whole number nearest to `num / den`, the even one of two. -/
def nearest (num den : Nat) : Nat :=
  let floor := num / den
  let twice := 2 * (num % den)
  if twice < den ∨ (twice = den ∧ floor % 2 = 0) then floor else floor + 1

/-- The nanoseconds of a positive number of seconds. -/
def nanoseconds (seconds : Float) : Nat :=
  let b := Decimal.Binary.ofBits 52 11 seconds.toBits.toNat
  nearest ((b.mantissa <<< b.exponent.toNat) * 1000000000) (1 <<< (-b.exponent).toNat)

/-- The length of a tick in nanoseconds. -/
def duration (c : PacerConfig) : Nat :=
  nanoseconds (1 / (if c.rate = 0 then 1 else c.rate).toFloat)

end PacerConfig

end SharedWorld
