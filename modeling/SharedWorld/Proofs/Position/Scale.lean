import SharedWorld.Proofs.Position.Single

/-! # Dividing by the scale and multiplying with it

Between a number on the wire and its float stands a factor of ten thousand. A quotient by it is
known up to 5000 at the last bit, a product with it up to half of its last bit.
-/

namespace SharedWorld

namespace Fixed

open Float.Model Float.Model.UnpackedFloat Rounding Single

variable {f : Float32} {sign : Sign} {a b m : Nat} {e k : Int}

theorem unpack_scale : ∃ hm, scale.toModel.unpack = .finite .positive 10240000 (-10) hm :=
  ⟨by decide, rfl⟩

theorem toModel_div_scale (h : Normal f sign a k) (hk : -125 ≤ k) :
    (f / scale).toModel = .pack (roundWithAccuracy .binary32 sign (a * 2 ^ 24 / 10240000)
      (k - 14) (accuracyOfFraction (a * 2 ^ 24 % 10240000) 10240000)) := by
  obtain ⟨hm, hu⟩ := h.unpack
  obtain ⟨hs, hscale⟩ := unpack_scale
  have hlog : a.log2 = 23 := (Nat.log2_eq_iff (Nat.ne_of_gt hm)).mpr ⟨h.lower, h.upper⟩
  have ht : min (k - -10) (Format.binary32.targetExponent
      (totalExponent a k - totalExponent 10240000 (-10))) = k - 14 := by
    have hs : Nat.log2 10240000 = 23 := by decide
    simp only [Format.targetExponent, totalExponent, Format.mantissaBits, Format.minExponent, hlog,
      hs]
    omega
  have hshift : (k - -10 - (k - 14)).toNat = 24 := by omega
  have hsign : sign / .positive = sign := by cases sign <;> rfl
  change Float32.Model.pack (UnpackedFloat.div .binary32 f.toModel.unpack
    scale.toModel.unpack) = _
  rw [hu, hscale]
  simp only [UnpackedFloat.div, divCore, ht, hshift, hsign, Nat.shiftLeft_eq]

theorem toModel_mul_scale (h : Normal f sign b k) :
    (f * scale).toModel =
      .pack (roundWithAccuracy .binary32 sign (b * 10240000) (k - 10) .exact) := by
  obtain ⟨hm, hu⟩ := h.unpack
  obtain ⟨hs, hscale⟩ := unpack_scale
  have hsign : sign * .positive = sign := by cases sign <;> rfl
  change Float32.Model.pack (UnpackedFloat.mul .binary32 f.toModel.unpack
    scale.toModel.unpack) = _
  rw [hu, hscale]
  simp only [UnpackedFloat.mul, hsign, Int.sub_eq_add_neg]

/-- Two whole numbers are this close to each other. -/
def Within (d x y : Nat) : Prop := x ≤ y + d ∧ y ≤ x + d

theorem normal_div_scale_of_lt (h : Normal f sign a k) (hk : -125 ≤ k) (ha : a < 10240000) :
    ∃ b, Normal (f / scale) sign b (k - 14) ∧ Within 5000 (a * 2 ^ 14) (b * 10000) := by
  have hl := h.lower
  have hh := h.high
  obtain ⟨b, ⟨hb, hb', -⟩, hround⟩ := exists_rounded (s := 0) (toModel_div_scale h hk) (by decide)
    (located_accuracyOfFraction _ (by decide)) (by omega) (by omega) (by omega) (by omega)
  obtain hn | ⟨rfl, -⟩ := hround
  · refine ⟨b, by simpa using hn, ?_⟩
    unfold Within
    omega
  · omega

theorem normal_div_scale_of_le (h : Normal f sign a k) (hk : -125 ≤ k) (ha : 10240000 ≤ a) :
    ∃ b, Normal (f / scale) sign b (k - 13) ∧ Within 5000 (a * 2 ^ 13) (b * 10000) := by
  have hu := h.upper
  have hh := h.high
  obtain ⟨b, ⟨hb, hb', -⟩, hround⟩ := exists_rounded (s := 1) (toModel_div_scale h hk) (by decide)
    (located_accuracyOfFraction _ (by decide)) (by omega) (by omega) (by omega) (by omega)
  have he : k - 14 + (1 : Nat) = k - 13 := by omega
  rw [he] at hround
  obtain hn | ⟨rfl, -⟩ := hround
  · refine ⟨b, hn, ?_⟩
    unfold Within
    omega
  · omega

theorem rounded_mul_scale_of_le (h : Normal f sign b k) (hk : -125 ≤ k) (hk' : k ≤ 80)
    (hb : b ≤ 13743895) : ∃ r, Rounded (f * scale) sign r (k + 13) ∧
      Within (2 ^ 12) (b * 10000) (r * 2 ^ 13) ∧ (b * 10000 = r * 2 ^ 13 + 2 ^ 12 → r % 2 = 0) := by
  have hl := h.lower
  have hlow : 2 ^ 46 ≤ b * 10240000 := by omega
  have hup : b * 10240000 < 2 ^ 47 := by omega
  obtain ⟨r, ⟨hr, hr', heven⟩, hround⟩ := exists_rounded (s := 23) (toModel_mul_scale h) Nat.one_pos
    (Nat.mul_one _).symm hlow hup (by omega) (by omega)
  have he : k - 10 + (23 : Nat) = k + 13 := by omega
  refine ⟨r, by rwa [he] at hround, ?_, fun ht => heven (by omega)⟩
  unfold Within
  omega

theorem rounded_mul_scale_of_lt (h : Normal f sign b k) (hk : -125 ≤ k) (hk' : k ≤ 80)
    (hb : 13743895 < b) : ∃ r, Rounded (f * scale) sign r (k + 14) ∧
      Within (2 ^ 13) (b * 10000) (r * 2 ^ 14) := by
  have hu := h.upper
  have hlow : 2 ^ 47 ≤ b * 10240000 := by omega
  have hup : b * 10240000 < 2 ^ 48 := by omega
  obtain ⟨r, ⟨hr, hr', -⟩, hround⟩ := exists_rounded (s := 24) (toModel_mul_scale h) Nat.one_pos
    (Nat.mul_one _).symm hlow hup (by omega) (by omega)
  have he : k - 10 + (24 : Nat) = k + 14 := by omega
  refine ⟨r, by rwa [he] at hround, ?_⟩
  unfold Within
  omega

theorem eq_of_within {x : Nat} (h : Within 4096 (a * 10000) x) (h' : Within 5000 x (b * 10000)) :
    a = b := by
  unfold Within at h h'
  omega

theorem rounded_div_mul_scale (h : Normal f sign a k) (hk : -100 ≤ k) (hk' : k ≤ 80)
    (ha : a < 10240000) : Rounded (f / scale * scale) sign a k := by
  have hl := h.lower
  obtain ⟨b, hb, hab, hab'⟩ := normal_div_scale_of_lt h (by omega) ha
  obtain rfl | hlt : b = 13743895 ∨ 13743895 < b := by omega
  · obtain ⟨r, hr, ⟨hbr, hbr'⟩, -⟩ :=
      rounded_mul_scale_of_le hb (by omega) (by omega) (Nat.le_refl _)
    obtain rfl : a = 2 ^ 23 := by omega
    obtain rfl : r = 2 ^ 24 := by omega
    have hc := hr.carry
    rw [show k - 14 + 13 + 1 = k by omega] at hc
    exact Or.inl hc
  · obtain ⟨r, hr, hbr, hbr'⟩ := rounded_mul_scale_of_lt hb (by omega) (by omega) hlt
    obtain rfl : r = a := by omega
    rwa [show k - 14 + 14 = k by omega] at hr

theorem exists_rounded_div_mul_scale (h : Normal f sign a k) (hk : -100 ≤ k) (hk' : k ≤ 80)
    (ha : 10240000 ≤ a) : ∃ r b, Normal (f / scale) sign b (k - 13) ∧
      Rounded (f / scale * scale) sign r k ∧ Within 5000 (a * 2 ^ 13) (b * 10000) ∧
      Within 4096 (b * 10000) (r * 2 ^ 13) ∧ (b * 10000 = r * 2 ^ 13 + 4096 → r % 2 = 0) := by
  have hu := h.upper
  obtain ⟨b, hb, hab⟩ := normal_div_scale_of_le h (by omega) ha
  have hle : b ≤ 13743895 := by
    unfold Within at hab
    omega
  obtain ⟨r, hr, hbr, heven⟩ := rounded_mul_scale_of_le hb (by omega) (by omega) hle
  rw [show k - 13 + 13 = k by omega] at hr
  exact ⟨r, b, hb, hr, hab, hbr, heven⟩

def clamp : Sign → Nat → Int32
  | .negative, n => Int32.ofInt (-min n 2147483648)
  | .positive, n => Int32.ofNat (min n 2147483647)

theorem ofFloat_of_rounded (h : Rounded (f * scale) sign m e) :
    ofFloat f = clamp sign (whole m e) := by
  have hlt := h.lt_zero_iff
  unfold ofFloat
  cases sign with
  | negative =>
    dsimp only
    rw [if_pos (hlt.mpr rfl), h.neg.toNat_toUInt32, clamp]
    congr 2
    have : UInt32.size - 1 = 4294967295 := rfl
    omega
  | positive =>
    dsimp only
    rw [if_neg (by simp [hlt]), h.toNat_toUInt32, clamp]
    congr 1
    have : UInt32.size - 1 = 4294967295 := rfl
    omega

end Fixed

end SharedWorld
