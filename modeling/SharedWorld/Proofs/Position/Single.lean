import SharedWorld.Proofs.Position.Rounding

/-! # Floats with all their bits

Away from zero and from the ends of the exponents a float has a mantissa of 24 bits whose first
one is set. What an operation on such floats gives is known up to half of its last bit.
-/

namespace SharedWorld

namespace Single

open Float.Model Float.Model.UnpackedFloat Rounding

variable {f g : Float32} {sign : Sign} {m num den s : Nat} {e : Int} {acc : Accuracy}

/-- The float has this sign, this mantissa and this exponent. -/
structure Normal (f : Float32) (sign : Sign) (m : Nat) (e : Int) : Prop where
  lower : 2 ^ 23 ≤ m
  upper : m < 2 ^ 24
  low : -149 ≤ e
  high : e ≤ 104
  eq : ∃ hm, f.toModel = .pack (.finite sign m e hm)

/-- The float has this mantissa or, if that takes a bit too many, what the carry makes of it. -/
def Rounded (f : Float32) (sign : Sign) (m : Nat) (e : Int) : Prop :=
  Normal f sign m e ∨ m = 2 ^ 24 ∧ Normal f sign (2 ^ 23) (e + 1)

theorem Rounded.normal (h : Rounded f sign m e) (hm : m < 2 ^ 24) : Normal f sign m e := by
  obtain h | ⟨rfl, -⟩ := h
  · exact h
  · exact absurd hm (Nat.lt_irrefl _)

theorem Rounded.carry (h : Rounded f sign (2 ^ 24) e) : Normal f sign (2 ^ 23) (e + 1) := by
  obtain h | ⟨-, h⟩ := h
  · exact absurd h.upper (Nat.lt_irrefl _)
  · exact h

theorem Normal.inj (hf : Normal f sign m e) (hg : Normal g sign m e) : f = g := by
  obtain ⟨_, _, _, _, _, hf⟩ := hf
  obtain ⟨_, _, _, _, _, hg⟩ := hg
  cases f
  cases g
  congr
  exact hf.trans hg.symm

theorem unpack_pack_finite (hm : 0 < m) (hl : 2 ^ 23 ≤ m) (hu : m < 2 ^ 24) (he : -149 ≤ e)
    (he' : e ≤ 104) :
    unpack .binary32 (pack .binary32 (.finite sign m e hm)) = .finite sign m e hm := by
  obtain ⟨b, hb⟩ : ∃ b : Nat, e + 150 = b := ⟨_, (Int.toNat_of_nonneg (by omega)).symm⟩
  have hbias : (e + (Format.binary32.exponentBias : Int) + (23 : Nat)).toNat = b := by
    simp only [Format.exponentBias]
    omega
  have hlog : m.log2 + 1 = Format.binary32.mantissaBits := by
    rw [(Nat.log2_eq_iff (Nat.ne_of_gt hm)).mpr ⟨hl, hu⟩]
    rfl
  have hpack : pack .binary32 (.finite sign m e hm) =
      packComponents .binary32 sign (BitVec.ofNat 8 b) (BitVec.ofNat 23 m) := by
    unfold UnpackedFloat.pack
    dsimp only
    rw [hbias, if_neg (by omega), if_pos hlog]
  have hnat : (BitVec.ofNat 8 b).toNat = b := by
    rw [BitVec.toNat_ofNat, Nat.mod_eq_of_lt (by omega)]
  have hmant : (1#1 ++ BitVec.ofNat 23 m).toNat = m := by
    rw [BitVec.toNat_append, ← Nat.shiftLeft_add_eq_or_of_lt (BitVec.isLt _), BitVec.toNat_ofNat]
    simp only [BitVec.toNat_ofNat, Nat.shiftLeft_eq]
    omega
  have hmax : BitVec.ofNat 8 b ≠ -1#8 := by
    intro h
    have h : b = 255 := hnat.symm.trans (congrArg BitVec.toNat h)
    omega
  have hmin : BitVec.ofNat 8 b ≠ 0#8 := by
    intro h
    have h : b = 0 := hnat.symm.trans (congrArg BitVec.toNat h)
    omega
  rw [hpack]
  unfold UnpackedFloat.unpack
  simp only [unpackMantissa_packComponents, unpackExponent_packComponents,
    unpackSign_packComponents, Sign.ofBitVec_toBitVec]
  rw [if_neg hmax, if_neg hmin]
  simp only [hmant, hnat]
  congr 1
  simp only [Format.exponentBias]
  omega

theorem Normal.unpack (h : Normal f sign m e) : ∃ hm, f.toModel.unpack = .finite sign m e hm := by
  obtain ⟨hl, hu, he, he', hm, hf⟩ := h
  rw [hf]
  exact ⟨hm, unpack_pack_finite hm hl hu he he'⟩

theorem Normal.unique {sign' : Sign} {m' : Nat} {e' : Int} (h : Normal f sign m e)
    (h' : Normal f sign' m' e') : m = m' ∧ e = e' := by
  obtain ⟨hm, hu⟩ := h.unpack
  obtain ⟨hm', hu'⟩ := h'.unpack
  rw [hu] at hu'
  injection hu' with _ hmm hee
  exact ⟨hmm, hee⟩

theorem Normal.neg (h : Normal f sign m e) : Normal (-f) (-sign) m e := by
  obtain ⟨hm, hu⟩ := h.unpack
  refine ⟨h.lower, h.upper, h.low, h.high, hm, ?_⟩
  change Float32.Model.pack f.toModel.unpack.neg = _
  rw [hu]
  rfl

theorem Rounded.neg (h : Rounded f sign m e) : Rounded (-f) (-sign) m e := by
  obtain h | ⟨hm, h⟩ := h
  · exact Or.inl h.neg
  · exact Or.inr ⟨hm, h.neg⟩

theorem exists_rounded (hf : f.toModel = .pack (roundWithAccuracy .binary32 sign m e acc))
    (hd : 0 < den) (h : Located (m * den) den num acc) (hl : 2 ^ (23 + s) ≤ m)
    (hu : m < 2 ^ (24 + s)) (he : -149 ≤ e + s) (he' : e + s ≤ 103) :
    ∃ r, Nearest r num (2 ^ s * den) ∧ Rounded f sign r (e + s) := by
  obtain ⟨r, hn, hr, ⟨hlt, hpos, hround⟩ | ⟨heq, hpos, hround⟩⟩ :=
    exists_roundWithAccuracy hd h hl hu he sign
  · exact ⟨r, hn, Or.inl ⟨hr, hlt, he, by omega, hpos, hf.trans (congrArg _ hround)⟩⟩
  · exact ⟨r, hn, Or.inr ⟨heq, by omega, by omega, by omega, by omega, hpos,
      hf.trans (congrArg _ hround)⟩⟩

section Conversion

variable {n : UInt32} {l : Nat}

theorem toModel_toFloat32 (hl : 2 ^ l ≤ n.toNat) (hu : n.toNat < 2 ^ (l + 1)) :
    n.toFloat32.toModel =
      .pack (roundWithAccuracy .binary32 .positive (n.toNat * 2 ^ (23 - l)) (-(23 - l : Nat))
        .exact) := by
  have hpos : 0 < n.toNat := Nat.lt_of_lt_of_le (Nat.two_pow_pos l) hl
  have hc : compare (n.toNat : Int) 0 = .gt := Int.compare_eq_gt.mpr (by omega)
  have hlog : n.toNat.log2 = l := (Nat.log2_eq_iff (Nat.ne_of_gt hpos)).mpr ⟨hl, hu⟩
  have ht : Format.binary32.targetExponent (totalExponent n.toNat 0) =
      max ((l : Int) - 23) (-149) := by
    simp only [Format.targetExponent, totalExponent, Format.mantissaBits, Format.minExponent, hlog]
    omega
  have hs : (-max ((l : Int) - 23) (-149)).toNat = 23 - l := by omega
  change Float32.Model.pack (UnpackedFloat.normalize .binary32 n.toNat 0 .positive) = _
  simp only [UnpackedFloat.normalize, UnpackedFloat.round, hc, ht, decreaseExponent, Int.zero_sub,
    hs, Int.toNat_natCast, Nat.shiftLeft_eq]

theorem normal_toFloat32 (hpos : 0 < n.toNat) (hlt : n.toNat < 2 ^ 24) :
    Normal n.toFloat32 .positive (n.toNat * 2 ^ (23 - n.toNat.log2))
      (-(23 - n.toNat.log2 : Nat)) := by
  have hlow := Nat.log2_self_le (Nat.ne_of_gt hpos)
  have hup := Nat.lt_log2_self (n := n.toNat)
  have hlog := (Nat.log2_lt (Nat.ne_of_gt hpos)).mpr hlt
  have hf := toModel_toFloat32 hlow hup
  let j := 23 - n.toNat.log2
  have hl : 2 ^ 23 ≤ n.toNat * 2 ^ j := by
    calc 2 ^ 23 = 2 ^ n.toNat.log2 * 2 ^ j := by rw [← Nat.pow_add]; congr 1; omega
      _ ≤ n.toNat * 2 ^ j := Nat.mul_le_mul_right _ hlow
  have hu : n.toNat * 2 ^ j < 2 ^ 24 := by
    calc n.toNat * 2 ^ j < 2 ^ (n.toNat.log2 + 1) * 2 ^ j :=
          Nat.mul_lt_mul_of_pos_right hup (Nat.two_pow_pos j)
      _ = 2 ^ 24 := by rw [← Nat.pow_add]; congr 1; omega
  obtain ⟨r, hr, hround⟩ := exists_rounded hf Nat.one_pos (Nat.mul_one _).symm (s := 0) hl hu
    (by omega) (by omega)
  have hr : Nearest r (n.toNat * 2 ^ j * 1) 1 := by rwa [Nat.mul_one]
  obtain rfl := hr.eq_of_mul Nat.one_pos
  simpa using hround.normal hu

theorem exists_rounded_toFloat32 (hl : 2 ^ (23 + s) ≤ n.toNat) (hu : n.toNat < 2 ^ (24 + s))
    (hs : s ≤ 103) :
    ∃ r, Nearest r n.toNat (2 ^ s) ∧ Rounded n.toFloat32 .positive r s := by
  have hf := toModel_toFloat32 hl (by rwa [Nat.add_right_comm])
  rw [Nat.sub_eq_zero_of_le (Nat.le_add_right 23 s), Nat.pow_zero, Nat.mul_one] at hf
  obtain ⟨r, hr, hround⟩ := exists_rounded hf Nat.one_pos (Nat.mul_one _).symm hl hu
    (by omega) (by omega)
  exact ⟨r, by rwa [Nat.mul_one] at hr, by simpa using hround⟩

end Conversion

/-- The whole part of a mantissa at an exponent. -/
def whole (m : Nat) (e : Int) : Nat := m * 2 ^ e.toNat / 2 ^ (-e).toNat

theorem whole_natCast (m k : Nat) : whole m k = m * 2 ^ k := by
  rw [whole, Int.toNat_natCast, Int.toNat_neg_natCast, Nat.pow_zero, Nat.div_one]

theorem whole_neg_natCast (m j : Nat) : whole m (-j) = m / 2 ^ j := by
  rw [whole, Int.neg_neg, Int.toNat_natCast, Int.toNat_neg_natCast, Nat.pow_zero, Nat.mul_one]

theorem whole_carry (m : Nat) (e : Int) : whole m (e + 1) = whole (2 * m) e := by
  obtain ⟨k, rfl | rfl⟩ := e.eq_nat_or_neg
  · rw [← Int.natCast_succ, whole_natCast, whole_natCast, Nat.pow_succ']
    ring
  · cases k with
    | zero => simp [whole, Nat.mul_comm]
    | succ j =>
      have hj : -((j + 1 : Nat) : Int) + 1 = -j := by omega
      rw [hj, whole_neg_natCast, whole_neg_natCast, Nat.pow_succ',
        Nat.mul_div_mul_left _ _ Nat.two_pos]

theorem Normal.toNat_toUInt32 (h : Normal f .positive m e) :
    f.toUInt32.toNat = min (whole m e) (UInt32.size - 1) := by
  obtain ⟨hm, hu⟩ := h.unpack
  have hr : roundToInt .positive m e = whole m e := by
    have he : (0 - (e - e.toNat)).toNat = (-e).toNat := by omega
    simp only [roundToInt, decreaseExponent, shiftToExponent, Sign.apply, he, Int.sub_zero,
      mantissa_shiftRight, mantissa_ofMantissaAndAccuracy, Nat.shiftLeft_eq]
    rfl
  change (UInt32.ofNatClamp
    (UnpackedFloat.toInt 0 (UInt32.size - 1) f.toModel.unpack).toNat).toNat = _
  rw [hu]
  simp only [UnpackedFloat.toInt, hr, Int.toNat_natCast, UInt32.ofNatClamp]
  split <;> rw [UInt32.toNat_ofNatLT] <;> omega

theorem Rounded.toNat_toUInt32 (h : Rounded f .positive m e) :
    f.toUInt32.toNat = min (whole m e) (UInt32.size - 1) := by
  obtain h | ⟨rfl, h⟩ := h
  · exact h.toNat_toUInt32
  · rw [h.toNat_toUInt32, whole_carry, ← Nat.pow_succ']

theorem Normal.lt_zero_iff (h : Normal f sign m e) : f < 0 ↔ sign = .negative := by
  obtain ⟨hm, hu⟩ := h.unpack
  have h0 : (0 : Float32).toModel.unpack = .zero .positive := rfl
  change decide (f.toModel < (0 : Float32).toModel) = true ↔ _
  rw [decide_eq_true_iff]
  change UnpackedFloat.lt f.toModel.unpack (0 : Float32).toModel.unpack = true ↔ _
  rw [hu, h0]
  cases sign
  · exact ⟨fun _ => rfl, fun _ => rfl⟩
  · constructor <;> rintro ⟨⟩

theorem Rounded.lt_zero_iff (h : Rounded f sign m e) : f < 0 ↔ sign = .negative := by
  obtain h | ⟨-, h⟩ := h <;> exact h.lt_zero_iff

end Single

end SharedWorld
