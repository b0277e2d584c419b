/-! # Words on the wire

Fixed-width unsigned integers, most significant byte first.
-/

namespace SharedWorld

abbrev Bytes := List UInt8

namespace Word

def size : Nat → Nat
  | 0 => 1
  | n + 1 => size n * 256

/-- The low `n` bytes of `v`, most significant first. -/
def encode : Nat → Nat → Bytes
  | 0, _ => []
  | n + 1, v => UInt8.ofNat (v / size n) :: encode n v

def decode (bs : Bytes) : Nat := bs.foldl (fun acc b => acc * 256 + b.toNat) 0

@[simp] theorem size_zero : size 0 = 1 := rfl

theorem size_succ (n : Nat) : size (n + 1) = size n * 256 := rfl

theorem size_pos (n : Nat) : 0 < size n := by
  induction n with
  | zero => simp
  | succ n ih =>
    rw [size_succ]
    omega

theorem size_add (m n : Nat) : size (m + n) = size m * size n := by
  induction n with
  | zero => simp
  | succ n ih => rw [← Nat.add_assoc, size_succ, size_succ, ih, Nat.mul_assoc]

@[simp] theorem length_encode (n v : Nat) : (encode n v).length = n := by
  induction n with
  | zero => rfl
  | succ n ih => simp [encode, ih]

theorem foldl_append_digits (acc : Nat) (bs : Bytes) :
    bs.foldl (fun acc b => acc * 256 + b.toNat) acc = acc * size bs.length + decode bs := by
  induction bs generalizing acc with
  | nil => simp [decode]
  | cons b bs ih =>
    rw [decode, List.foldl_cons, List.foldl_cons, ih, ih (0 * 256 + b.toNat), Nat.add_mul,
      List.length_cons, size_succ, Nat.mul_comm (size bs.length) 256, Nat.mul_assoc,
      Nat.zero_mul, Nat.zero_add, Nat.add_assoc]

theorem decode_cons (b : UInt8) (bs : Bytes) :
    decode (b :: bs) = b.toNat * size bs.length + decode bs := by
  rw [decode, List.foldl_cons, foldl_append_digits]
  simp

theorem decode_lt (bs : Bytes) : decode bs < size bs.length := by
  induction bs with
  | nil => simp [decode]
  | cons b bs ih =>
    rw [decode_cons, List.length_cons, size_succ]
    have : b.toNat * size bs.length ≤ 255 * size bs.length :=
      Nat.mul_le_mul_right _ (Nat.le_of_lt_succ b.toNat_lt)
    omega

theorem decode_encode (n v : Nat) : decode (encode n v) = v % size n := by
  induction n with
  | zero => simp [encode, decode, Nat.mod_one]
  | succ n ih =>
    rw [encode, decode_cons, ih, length_encode, size_succ, Nat.mod_mul]
    have : (UInt8.ofNat (v / size n)).toNat = v / size n % 256 := by simp
    rw [this, Nat.mul_comm]
    omega

theorem encode_mod (n v : Nat) : encode n (v % size n) = encode n v := by
  suffices h : ∀ m, n ≤ m → encode n (v % size m) = encode n v from h n (Nat.le_refl n)
  induction n with
  | zero => intros; rfl
  | succ n ih =>
    intro m hm
    rw [encode, encode, ih m (by omega)]
    congr 1
    obtain ⟨k, rfl⟩ : ∃ k, m = n + (k + 1) := ⟨m - n - 1, by omega⟩
    rw [size_add, Nat.mod_mul_right_div_self, size_succ]
    apply UInt8.toNat_inj.mp
    simp

theorem encode_decode (bs : Bytes) : encode bs.length (decode bs) = bs := by
  induction bs with
  | nil => rfl
  | cons b bs ih =>
    rw [List.length_cons, encode, decode_cons]
    have hpos := size_pos bs.length
    congr 1
    · rw [Nat.mul_comm, Nat.mul_add_div hpos, Nat.div_eq_of_lt (decode_lt bs)]
      simp
    · rw [← encode_mod, Nat.mul_comm, Nat.mul_add_mod, Nat.mod_eq_of_lt (decode_lt bs), ih]

end Word

end SharedWorld
