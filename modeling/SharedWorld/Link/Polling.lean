/-! # Polling

How long the network waits for activity before it sweeps.
-/

namespace SharedWorld

structure Polling where
  /-- In nanoseconds. -/
  timeout : Nat := 5000000
  deriving DecidableEq, Repr

namespace Polling

def ofMillis (ms : UInt64) : Polling := ⟨ms.toNat * 1000000⟩

def validated (p : Polling) : Polling := if p.timeout = 0 then ⟨1000000⟩ else p

end Polling

end SharedWorld
