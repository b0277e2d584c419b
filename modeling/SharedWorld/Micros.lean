/-! # Microseconds

Elapsed game time in 64 bits. Sums and conversions stop at the largest value.
-/

namespace SharedWorld

abbrev Micros := UInt64

namespace Micros

def limit : Nat := UInt64.size - 1

def ofNat (n : Nat) : Micros := UInt64.ofNat (min n limit)

def ofMillis (ms : UInt64) : Micros := ofNat (ms.toNat * 1000)

def plus (a b : Micros) : Micros := ofNat (a.toNat + b.toNat)

@[simp] theorem toNat_ofNat (n : Nat) : (ofNat n).toNat = min n limit := by
  have : min n limit < 2 ^ 64 := by simp only [limit, UInt64.size]; omega
  rw [ofNat, UInt64.toNat_ofNat', Nat.mod_eq_of_lt this]

theorem toNat_ofMillis (ms : UInt64) : (ofMillis ms).toNat = min (ms.toNat * 1000) limit :=
  toNat_ofNat _

theorem toNat_plus (a b : Micros) : (plus a b).toNat = min (a.toNat + b.toNat) limit :=
  toNat_ofNat _

end Micros

end SharedWorld
