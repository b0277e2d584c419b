import SharedWorld.Wire.Word

/-! # BLAKE3

The hash of a byte string in 32 bytes. The input is cut into chunks of 1024 bytes,
each hashed block by block, and the chunks are joined in a binary tree whose left
side is always full.
-/

namespace SharedWorld.Blake3

abbrev Chain := Vector UInt32 8

abbrev Block := Vector UInt32 16

def iv : Chain :=
  #v[0x6a09e667, 0xbb67ae85, 0x3c6ef372, 0xa54ff53a,
    0x510e527f, 0x9b05688c, 0x1f83d9ab, 0x5be0cd19]

def rotate (w : UInt32) (n : UInt32) : UInt32 := (w >>> n) ||| (w <<< (32 - n))

def mix (s : Block) (a b c d : Fin 16) (x y : UInt32) : Block :=
  let va := s[a] + s[b] + x
  let vd := rotate (s[d] ^^^ va) 16
  let vc := s[c] + vd
  let vb := rotate (s[b] ^^^ vc) 12
  let va := va + vb + y
  let vd := rotate (vd ^^^ va) 8
  let vc := vc + vd
  let vb := rotate (vb ^^^ vc) 7
  (((s.set a va).set b vb).set c vc).set d vd

/-- First the columns, then the diagonals. -/
def round (s m : Block) : Block :=
  let s := mix s 0 4 8 12 m[0] m[1]
  let s := mix s 1 5 9 13 m[2] m[3]
  let s := mix s 2 6 10 14 m[4] m[5]
  let s := mix s 3 7 11 15 m[6] m[7]
  let s := mix s 0 5 10 15 m[8] m[9]
  let s := mix s 1 6 11 12 m[10] m[11]
  let s := mix s 2 7 8 13 m[12] m[13]
  mix s 3 4 9 14 m[14] m[15]

def permute (m : Block) : Block :=
  #v[m[2], m[6], m[3], m[10], m[7], m[0], m[4], m[13],
    m[1], m[11], m[12], m[5], m[9], m[14], m[15], m[8]]

def rounds : Nat → Block → Block → Block
  | 0, s, _ => s
  | n + 1, s, m => rounds n (round s m) (permute m)

namespace Flag

def chunkStart : UInt32 := 1

def chunkEnd : UInt32 := 2

def parent : UInt32 := 4

def root : UInt32 := 8

end Flag

/-- A compression that is ready to run, as an inner node or as the root. -/
structure Node where
  chain : Chain
  block : Block
  counter : Nat
  length : Nat
  flags : UInt32

namespace Node

def compress (n : Node) (flags : UInt32) : Chain :=
  let s : Block := n.chain ++
    #v[iv[0], iv[1], iv[2], iv[3],
      UInt32.ofNat n.counter, UInt32.ofNat (n.counter >>> 32), UInt32.ofNat n.length, flags]
  let s := rounds 7 s n.block
  #v[s[0] ^^^ s[8], s[1] ^^^ s[9], s[2] ^^^ s[10], s[3] ^^^ s[11],
    s[4] ^^^ s[12], s[5] ^^^ s[13], s[6] ^^^ s[14], s[7] ^^^ s[15]]

def toChain (n : Node) : Chain := n.compress n.flags

def toRoot (n : Node) : Chain := n.compress (n.flags ||| Flag.root)

def join (l r : Chain) : Node where
  chain := iv
  block := l ++ r
  counter := 0
  length := 64
  flags := Flag.parent

end Node

def wordAt (bs : Array UInt8) (i : Nat) : UInt32 :=
  let byte (k : Nat) := (bs[4 * i + k]?.getD 0).toUInt32
  byte 0 ||| (byte 1 <<< 8) ||| (byte 2 <<< 16) ||| (byte 3 <<< 24)

/-- Sixteen words, least significant byte first, with zeros past the end. -/
def blockOf (bs : Bytes) : Block :=
  let bytes := bs.toArray
  Vector.ofFn fun i => wordAt bytes i.val

/-- The last block of a chunk, after the chain of all before it. -/
def chunk (counter : Nat) (chain : Chain) (start : UInt32) (bs : Bytes) : Node :=
  if bs.length ≤ 64 then
    { chain, block := blockOf bs, counter, length := bs.length, flags := start ||| Flag.chunkEnd }
  else
    let n : Node :=
      { chain, block := blockOf (bs.take 64), counter, length := 64, flags := start }
    chunk counter n.toChain 0 (bs.drop 64)
termination_by bs.length
decreasing_by simp; omega

/-- The length of the left side: the largest full tree that leaves something for the right. -/
def leftLength (n : Nat) : Nat := 1024 <<< ((n - 1) / 1024).log2

theorem leftLength_pos (n : Nat) : 0 < leftLength n := by
  have := Nat.two_pow_pos ((n - 1) / 1024).log2
  rw [leftLength, Nat.shiftLeft_eq]
  omega

theorem leftLength_lt {n : Nat} (h : 1024 < n) : leftLength n < n := by
  have hne : (n - 1) / 1024 ≠ 0 := by omega
  have := Nat.log2_self_le hne
  rw [leftLength, Nat.shiftLeft_eq]
  omega

def tree (counter : Nat) (bs : Bytes) : Node :=
  if h : bs.length ≤ 1024 then chunk counter iv Flag.chunkStart bs
  else
    let k := leftLength bs.length
    .join (tree counter (bs.take k)).toChain (tree (counter + k / 1024) (bs.drop k)).toChain
termination_by bs.length
decreasing_by
  · have := leftLength_lt (Nat.lt_of_not_le h)
    rw [List.length_take]
    omega
  · have := leftLength_pos bs.length
    rw [List.length_drop]
    omega

def wordBytes (w : UInt32) : Bytes :=
  [w.toUInt8, (w >>> 8).toUInt8, (w >>> 16).toUInt8, (w >>> 24).toUInt8]

def digest (bs : Bytes) : Bytes := (tree 0 bs).toRoot.toList.flatMap wordBytes

end SharedWorld.Blake3
