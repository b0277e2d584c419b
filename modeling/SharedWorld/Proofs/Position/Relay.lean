import SharedWorld.Proofs.Position.Scale

/-! # Positions that are passed on

A position that was read off the wire and is written again is not always the same: the product
with the scale may fall just short of the whole number that it came from, and what is written is
cut, not rounded. It is then one ten-thousandth nearer to zero, and stays there.
-/

namespace SharedWorld

namespace Fixed

open Float.Model.UnpackedFloat Rounding Single

variable {n : Int32} {sign : Sign} {a b m r s : Nat} {k : Int}

def sgn (n : Int32) : Sign := if n < 0 then .negative else .positive

/-- The number as a float, not yet divided by the scale. -/
def numerator (n : Int32) : Float32 :=
  let magnitude := (UInt32.ofNat n.toInt.natAbs).toFloat32
  if n < 0 then -magnitude else magnitude

theorem toFloat_eq (n : Int32) : toFloat n = numerator n / scale := rfl

theorem natAbs_le (n : Int32) : n.toInt.natAbs ≤ 2 ^ 31 := by
  have h₁ := n.le_toInt
  have h₂ := n.toInt_lt
  omega

theorem toNat_magnitude (n : Int32) : (UInt32.ofNat n.toInt.natAbs).toNat = n.toInt.natAbs :=
  UInt32.toNat_ofNat_of_lt' (Nat.lt_of_le_of_lt (natAbs_le n) (by decide))

theorem rounded_numerator (h : Rounded (UInt32.ofNat n.toInt.natAbs).toFloat32 .positive m k) :
    Rounded (numerator n) (sgn n) m k := by
  unfold numerator sgn
  split
  · exact h.neg
  · exact h

def shift (m : Nat) : Nat := 23 - m.log2

theorem shift_le (m : Nat) : shift m ≤ 23 := Nat.sub_le ..

theorem normal_numerator_small (hpos : 0 < n.toInt.natAbs) (hlt : n.toInt.natAbs < 2 ^ 24) :
    Normal (numerator n) (sgn n) (n.toInt.natAbs * 2 ^ shift n.toInt.natAbs)
      (-shift n.toInt.natAbs) := by
  rw [← toNat_magnitude] at hpos hlt
  have hn := normal_toFloat32 hpos hlt
  rw [toNat_magnitude] at hn
  exact (rounded_numerator (Or.inl hn)).normal hn.upper

theorem rounded_numerator_large (hl : 2 ^ (23 + s) ≤ n.toInt.natAbs)
    (hu : n.toInt.natAbs < 2 ^ (24 + s)) (hs : s ≤ 103) :
    ∃ r, Nearest r n.toInt.natAbs (2 ^ s) ∧ Rounded (numerator n) (sgn n) r s := by
  rw [← toNat_magnitude] at hl hu
  obtain ⟨r, hr, hn⟩ := exists_rounded_toFloat32 hl hu hs
  rw [toNat_magnitude] at hr
  exact ⟨r, hr, rounded_numerator hn⟩

theorem toInt_clamp (sign : Sign) (m : Nat) : (clamp sign m).toInt =
    match sign with
    | .negative => -(min m 2147483648 : Nat)
    | .positive => (min m 2147483647 : Nat) := by
  cases sign with
  | negative => exact Int32.toInt_ofInt_of_le (by omega) (by omega)
  | positive => exact Int32.toInt_ofNat_of_lt (by omega)

theorem lt_zero_iff : n < 0 ↔ n.toInt < 0 := Int32.lt_iff_toInt_lt

theorem clamp_sgn (n : Int32) : clamp (sgn n) n.toInt.natAbs = n := by
  rw [← Int32.toInt_inj, toInt_clamp]
  have hle := natAbs_le n
  have hlt := n.toInt_lt
  unfold sgn
  by_cases h : n < 0
  · rw [if_pos h]
    rw [lt_zero_iff] at h
    dsimp only
    omega
  · rw [if_neg h]
    rw [lt_zero_iff] at h
    dsimp only
    omega

theorem clamp_eq (sign : Sign) (hpos : 0 < m) (hm : m ≤ 2 ^ 31) :
    ((clamp sign m).toInt.natAbs = m ∧ sgn (clamp sign m) = sign) ∨
      (m = 2 ^ 31 ∧ sign = .positive) := by
  unfold sgn
  simp only [lt_zero_iff, toInt_clamp]
  cases sign with
  | negative =>
    left
    dsimp only
    rw [if_pos (by omega)]
    exact ⟨by omega, rfl⟩
  | positive =>
    dsimp only
    rw [if_neg (by omega)]
    by_cases hm' : m = 2 ^ 31
    · exact Or.inr ⟨hm', rfl⟩
    · exact Or.inl ⟨by omega, rfl⟩

theorem normal_numerator_clamp (sign : Sign) {k : Nat} (hl : 2 ^ 23 ≤ r) (hu : r < 2 ^ 24)
    (hk : k ≤ 8) (hm : r * 2 ^ k ≤ 2 ^ 31) :
    Normal (numerator (clamp sign (r * 2 ^ k))) sign r k := by
  have hpow := Nat.two_pow_pos k
  have hlow : 2 ^ (23 + k) ≤ r * 2 ^ k := by
    rw [Nat.pow_add]
    exact Nat.mul_le_mul_right _ hl
  have hup : r * 2 ^ k < 2 ^ (24 + k) := by
    rw [Nat.pow_add]
    exact Nat.mul_lt_mul_of_pos_right hu hpow
  obtain ⟨habs, hsgn⟩ | ⟨hmax, rfl⟩ :=
    clamp_eq sign (Nat.lt_of_lt_of_le (Nat.two_pow_pos _) hlow) hm
  · obtain ⟨r', hr, hround⟩ := rounded_numerator_large (by rwa [habs]) (by rwa [habs]) (by omega)
    rw [habs] at hr
    obtain rfl := hr.eq_of_mul hpow
    rw [hsgn] at hround
    exact hround.normal hu
  · -- One less is written, and it is rounded up to the same float.
    have hk' : ¬ k ≤ 7 := by
      intro h
      have := Nat.mul_le_mul_left r (Nat.pow_le_pow_right Nat.two_pos h)
      omega
    obtain rfl : k = 8 := by omega
    obtain rfl : r = 2 ^ 23 := by omega
    have habs : (clamp .positive (2 ^ 23 * 2 ^ 8)).toInt.natAbs = 2147483647 := by
      rw [toInt_clamp]
      rfl
    obtain ⟨r', ⟨hr, hr', -⟩, hround⟩ := rounded_numerator_large (s := 7) (by rw [habs]; decide)
      (by rw [habs]; decide) (by decide)
    rw [habs] at hr hr'
    obtain rfl : r' = 2 ^ 24 := by omega
    exact hround.carry

/-- The mantissa of the number is so far above the product of its quotient with the scale that
this product is rounded to the mantissa below. -/
structure Creeps (m : Nat) : Prop where
  small : m < 2 ^ 23
  long : 10240000 ≤ m * 2 ^ shift m
  above : 4096 < m * 2 ^ shift m * 2 ^ 13 % 10000
  below : m * 2 ^ shift m * 2 ^ 13 % 10000 < 5000

instance (m : Nat) : Decidable (Creeps m) :=
  decidable_of_iff (m < 2 ^ 23 ∧ 10240000 ≤ m * 2 ^ shift m ∧
      4096 < m * 2 ^ shift m * 2 ^ 13 % 10000 ∧ m * 2 ^ shift m * 2 ^ 13 % 10000 < 5000)
    ⟨fun ⟨h₁, h₂, h₃, h₄⟩ => ⟨h₁, h₂, h₃, h₄⟩, fun ⟨h₁, h₂, h₃, h₄⟩ => ⟨h₁, h₂, h₃, h₄⟩⟩

theorem one_le_shift (hpos : 0 < m) (hlt : m < 2 ^ 23) : 1 ≤ shift m := by
  have := (Nat.log2_lt (Nat.ne_of_gt hpos)).mpr hlt
  unfold shift
  omega

theorem Creeps.pos (h : Creeps m) : 0 < m := by
  have := h.long
  apply Nat.pos_of_ne_zero
  rintro rfl
  omega

theorem Creeps.shift_pred (h : Creeps m) : shift (m - 1) = shift m ∧ 0 < m - 1 := by
  have hne : m ≠ 0 := Nat.ne_of_gt h.pos
  have hlog := (Nat.log2_lt hne).mpr h.small
  have hl := Nat.log2_self_le hne
  have hu := Nat.lt_log2_self (n := m)
  have hpow : 2 ^ m.log2 * 2 ^ shift m = 2 ^ 23 := by
    unfold shift
    rw [← Nat.pow_add]
    congr 1
    omega
  have hlt : 2 ^ m.log2 < m := by
    apply Nat.lt_of_mul_lt_mul_right (a := 2 ^ shift m)
    have := h.long
    omega
  have hpos := Nat.two_pow_pos m.log2
  have hpred : (m - 1).log2 = m.log2 := (Nat.log2_eq_iff (by omega)).mpr (by omega)
  exact ⟨by rw [shift, shift, hpred], by omega⟩

theorem eq_of_within_pow {j t : Nat} (hj : 1 ≤ j) (hj' : j ≤ 23)
    (h : Within 904 (2 ^ j * 2 ^ 13) (t * 10000)) : j = 21 := by
  unfold Within at h
  interval_cases j <;> omega

/-- No two numbers in a row creep. Their mantissas are `2 ^ j` apart, and no multiple of the scale
is near enough to that, but for one `j` that leaves only numbers of one digit. -/
theorem not_creeps_pred (h : Creeps m) : ¬ Creeps (m - 1) := by
  rintro ⟨-, hl', ha', hb'⟩
  have hj := one_le_shift h.pos h.small
  obtain ⟨hshift, -⟩ := h.shift_pred
  rw [hshift, Nat.sub_one_mul] at hl' ha' hb'
  obtain ⟨-, hl, ha, hb⟩ := h
  have hpos := Nat.two_pow_pos (shift m)
  obtain ⟨t, ht⟩ : ∃ t, m * 2 ^ shift m * 2 ^ 13 / 10000 =
      (m * 2 ^ shift m - 2 ^ shift m) * 2 ^ 13 / 10000 + t := Nat.exists_eq_add_of_le (by omega)
  have hdiff : Within 904 (2 ^ shift m * 2 ^ 13) (t * 10000) := by
    constructor <;> apply Nat.le_of_not_lt <;> omega
  have hshift := eq_of_within_pow hj (shift_le m) hdiff
  rw [hshift] at hl hl' ha hb ha' hb'
  have hlog : m.log2 = 2 := by
    unfold shift at hshift
    omega
  have hm := Nat.lt_log2_self (n := m)
  rw [hlog] at hm
  interval_cases m <;> omega

theorem div_eq_of_le_succ {d : Nat} (hd : 1 < d) (hl : m * d ≤ r) (hu : r ≤ m * d + 1) :
    r / d = m := by
  have hsucc : (m + 1) * d = m * d + d := Nat.succ_mul ..
  exact Nat.div_eq_of_lt_le (by omega) (by omega)

theorem div_eq_pred {d : Nat} (hm : 0 < m) (h : m * d = r + 1) : r / d = m - 1 := by
  have hpred : (m - 1) * d = m * d - d := Nat.sub_one_mul ..
  have hd : 0 < d := by
    apply Nat.pos_of_ne_zero
    rintro rfl
    omega
  refine Nat.div_eq_of_lt_le (by omega) ?_
  rw [Nat.sub_add_cancel hm]
  omega

theorem creeps_cases_of_within (hpos : 0 < m) (hlt : m < 2 ^ 23) (ha : 10240000 ≤ m * 2 ^ shift m)
    (hab : Within 5000 (m * 2 ^ shift m * 2 ^ 13) (b * 10000))
    (hbr : Within 4096 (b * 10000) (r * 2 ^ 13))
    (heven : b * 10000 = r * 2 ^ 13 + 4096 → r % 2 = 0) :
    (Creeps m ∧ m * 2 ^ shift m = r + 1) ∨
      (¬ Creeps m ∧ m * 2 ^ shift m ≤ r ∧ r ≤ m * 2 ^ shift m + 1) := by
  -- A mantissa with a bit to spare is even, so it is not one above an even one.
  obtain ⟨c, htwo⟩ : ∃ c, m * 2 ^ shift m = 2 * c := by
    obtain ⟨j, hj⟩ := Nat.exists_eq_add_of_le (one_le_shift hpos hlt)
    exact ⟨m * 2 ^ j, by rw [hj, Nat.pow_add, Nat.mul_left_comm, Nat.pow_one]⟩
  have hcreeps : Creeps m ↔ 4096 < 2 * c * 2 ^ 13 % 10000 ∧ 2 * c * 2 ^ 13 % 10000 < 5000 := by
    rw [← htwo]
    exact ⟨fun h => ⟨h.above, h.below⟩, fun h => ⟨hlt, ha, h.1, h.2⟩⟩
  rw [hcreeps]
  rw [htwo] at hab ⊢
  obtain ⟨hab, hba⟩ := hab
  obtain ⟨hbr, hrb⟩ := hbr
  clear htwo ha hcreeps hpos hlt
  have hdiv := Nat.div_add_mod (2 * c * 2 ^ 13) 10000
  have hmod := Nat.mod_lt (2 * c * 2 ^ 13) (show 10000 > 0 by decide)
  generalize 2 * c * 2 ^ 13 / 10000 = q at hdiv
  generalize 2 * c * 2 ^ 13 % 10000 = d at hdiv hmod ⊢
  obtain h | ⟨hl, hu⟩ : 2 * c = r + 1 ∨ (2 * c ≤ r ∧ r ≤ 2 * c + 1) := by omega
  · obtain rfl : q = b := by omega
    exact Or.inl ⟨by omega, h⟩
  · refine Or.inr ⟨fun h => ?_, hl, hu⟩
    obtain rfl : q = b := by omega
    omega

theorem ofFloat_toFloat_of_lt (hlt : n.toInt.natAbs < 2 ^ 23) :
    (Creeps n.toInt.natAbs ∧ ofFloat (toFloat n) = clamp (sgn n) (n.toInt.natAbs - 1)) ∨
      (¬ Creeps n.toInt.natAbs ∧ ofFloat (toFloat n) = n) := by
  obtain h0 | hpos := Nat.eq_zero_or_pos n.toInt.natAbs
  · obtain rfl : n = 0 := Int32.toInt_inj.mp (Int.natAbs_eq_zero.mp h0)
    exact Or.inr ⟨fun h => absurd h.pos (Nat.lt_irrefl _), by decide +kernel⟩
  have hnum := normal_numerator_small hpos (by omega)
  have hshift := one_le_shift hpos hlt
  have hshift' := shift_le n.toInt.natAbs
  have hpow : 1 < 2 ^ shift n.toInt.natAbs := Nat.one_lt_two_pow (Nat.ne_of_gt hshift)
  have hwhole : ∀ r, Rounded (toFloat n * scale) (sgn n) r (-shift n.toInt.natAbs) →
      ofFloat (toFloat n) = clamp (sgn n) (r / 2 ^ shift n.toInt.natAbs) := by
    intro r hr
    rw [ofFloat_of_rounded hr, whole_neg_natCast]
  obtain ha | ha := Nat.lt_or_ge (n.toInt.natAbs * 2 ^ shift n.toInt.natAbs) 10240000
  · have hr := rounded_div_mul_scale hnum (by omega) (by omega) ha
    refine Or.inr ⟨fun h => absurd h.long (Nat.not_le_of_lt ha), ?_⟩
    rw [hwhole _ hr, Nat.mul_div_cancel _ (by omega), clamp_sgn]
  · obtain ⟨r, b, -, hr, hab, hbr, heven⟩ :=
      exists_rounded_div_mul_scale hnum (by omega) (by omega) ha
    obtain ⟨hc, h⟩ | ⟨hc, hl, hu⟩ := creeps_cases_of_within hpos hlt ha hab hbr heven
    · exact Or.inl ⟨hc, by rw [hwhole r hr, div_eq_pred hpos h]⟩
    · exact Or.inr ⟨hc, by rw [hwhole r hr, div_eq_of_le_succ hpow hl hu, clamp_sgn]⟩

theorem Creeps.toFloat_ne {n' : Int32} (h : Creeps n.toInt.natAbs)
    (h' : n'.toInt.natAbs = n.toInt.natAbs - 1) : toFloat n' ≠ toFloat n := by
  intro heq
  obtain ⟨hshift, hpos'⟩ := h.shift_pred
  have hlt := h.small
  have hle := one_le_shift h.pos hlt
  have hle' := shift_le n.toInt.natAbs
  have hnum := normal_numerator_small h.pos (by omega)
  have hnum' := normal_numerator_small (n := n') (by omega) (by omega)
  rw [h', hshift, Nat.sub_one_mul] at hnum'
  obtain ⟨b, hb, hab, -⟩ := normal_div_scale_of_le hnum (by omega) h.long
  obtain ha | ha := Nat.lt_or_ge
    (n.toInt.natAbs * 2 ^ shift n.toInt.natAbs - 2 ^ shift n.toInt.natAbs) 10240000
  · obtain ⟨b', hb', -⟩ := normal_div_scale_of_lt hnum' (by omega) ha
    rw [← toFloat_eq, heq] at hb'
    have := (hb'.unique hb).2
    omega
  · obtain ⟨b', hb', -, hab'⟩ := normal_div_scale_of_le hnum' (by omega) ha
    rw [← toFloat_eq, heq] at hb'
    obtain rfl := (hb'.unique hb).1
    have := Nat.pow_le_pow_right Nat.two_pos hle
    omega

theorem exists_normal_numerator_large (hle : 2 ^ 23 ≤ n.toInt.natAbs) :
    ∃ a k : Nat, Normal (numerator n) (sgn n) a k ∧ (k ≤ 7 ∨ k = 8 ∧ a = 2 ^ 23) := by
  have hmax := natAbs_le n
  have hl := Nat.log2_self_le (n := n.toInt.natAbs) (by omega)
  have hu := Nat.lt_log2_self (n := n.toInt.natAbs)
  have hlog := (Nat.le_log2 (n := n.toInt.natAbs) (by omega)).mpr hle
  have hlog' : n.toInt.natAbs.log2 < 32 := (Nat.log2_lt (by omega)).mpr (by omega)
  obtain ⟨s, hs⟩ := Nat.exists_eq_add_of_le hlog
  rw [hs] at hl hu
  obtain ⟨r, ⟨hr, hr'⟩, hround⟩ :=
    rounded_numerator_large hl (by rwa [Nat.add_right_comm] at hu) (by omega)
  obtain hs' | rfl : s ≤ 7 ∨ s = 8 := by omega
  · obtain hn | ⟨rfl, hn⟩ := hround
    · exact ⟨r, s, hn, Or.inl hs'⟩
    · exact ⟨2 ^ 23, s + 1, hn, by omega⟩
  · obtain rfl : r = 2 ^ 23 := by omega
    exact ⟨2 ^ 23, 8, hround.normal (by decide), Or.inr ⟨rfl, rfl⟩⟩

theorem toFloat_ofFloat_of_le (hle : 2 ^ 23 ≤ n.toInt.natAbs) :
    toFloat (ofFloat (toFloat n)) = toFloat n := by
  obtain ⟨a, k, hnum, hk⟩ := exists_normal_numerator_large hle
  have hl := hnum.lower
  have hu := hnum.upper
  have hpow : k ≤ 7 → 2 ^ k ≤ 2 ^ 7 := Nat.pow_le_pow_right Nat.two_pos
  obtain ha | ha := Nat.lt_or_ge a 10240000
  · have hr := rounded_div_mul_scale hnum (by omega) (by omega) ha
    have hm : a * 2 ^ k ≤ 2 ^ 31 := by
      obtain hk | ⟨rfl, rfl⟩ := hk
      · exact Nat.le_trans (Nat.mul_le_mul (Nat.le_of_lt hu) (hpow hk)) (by decide)
      · decide
    have ho : ofFloat (toFloat n) = clamp (sgn n) (a * 2 ^ k) := by
      rw [toFloat_eq, ofFloat_of_rounded hr, whole_natCast]
    rw [ho, toFloat_eq, toFloat_eq, (normal_numerator_clamp (sgn n) hl hu (by omega) hm).inj hnum]
  · obtain ⟨r, b, hdiv, hr, hab, hbr, -⟩ :=
      exists_rounded_div_mul_scale hnum (by omega) (by omega) ha
    have hk : k ≤ 7 := by omega
    obtain ⟨hl', hu'⟩ : 10240000 ≤ r ∧ r ≤ 2 ^ 24 := by
      unfold Within at hab hbr
      omega
    have hm : r * 2 ^ k ≤ 2 ^ 31 := Nat.le_trans (Nat.mul_le_mul hu' (hpow hk)) (by decide)
    have ho : ofFloat (toFloat n) = clamp (sgn n) (r * 2 ^ k) := by
      rw [toFloat_eq, ofFloat_of_rounded hr, whole_natCast]
    rw [ho]
    obtain hlt | rfl := Nat.lt_or_eq_of_le hu'
    · have hn := normal_numerator_clamp (sgn n) (by omega) hlt (by omega) hm
      obtain ⟨c, hc, hrc⟩ := normal_div_scale_of_le hn (by omega) hl'
      obtain rfl := eq_of_within hbr hrc
      exact hc.inj hdiv
    · -- The carry is divided as a mantissa of its own, and has the same quotient.
      have hcarry : 2 ^ 24 * 2 ^ k = 2 ^ 23 * 2 ^ (k + 1) := by
        rw [Nat.pow_succ' (n := k), ← Nat.mul_assoc, ← Nat.pow_succ]
      rw [hcarry] at hm ⊢
      have hn := normal_numerator_clamp (sgn n) (Nat.le_refl _) (by decide) (by omega) hm
      obtain ⟨c, hc, hrc⟩ := normal_div_scale_of_lt hn (by omega) (by decide)
      obtain rfl := eq_of_within hbr hrc
      rw [show ((k + 1 : Nat) : Int) - 14 = k - 13 by omega] at hc
      exact hc.inj hdiv

/-- The number that is written for a position when it was read as this number. -/
def relayed (n : Int32) : Int32 := ofFloat (toFloat n)

theorem toInt_clamp_pred (hpos : 0 < n.toInt.natAbs) :
    (clamp (sgn n) (n.toInt.natAbs - 1)).toInt = n.toInt - n.toInt.sign := by
  have hle := natAbs_le n
  rw [toInt_clamp]
  unfold sgn
  by_cases h : n < 0
  · rw [if_pos h]
    rw [lt_zero_iff] at h
    rw [Int.sign_eq_neg_one_of_neg h]
    dsimp only
    omega
  · rw [if_neg h]
    rw [lt_zero_iff] at h
    rw [Int.sign_eq_one_of_pos (by omega)]
    dsimp only
    omega

theorem toInt_relayed (hlt : n.toInt.natAbs < 2 ^ 23) : (relayed n).toInt =
    if Creeps n.toInt.natAbs then n.toInt - n.toInt.sign else n.toInt := by
  unfold relayed
  obtain ⟨hc, he⟩ | ⟨hc, he⟩ := ofFloat_toFloat_of_lt hlt
  · rw [if_pos hc, he, toInt_clamp_pred hc.pos]
  · rw [if_neg hc, he]

theorem Creeps.natAbs_relayed (h : Creeps n.toInt.natAbs) :
    (relayed n).toInt.natAbs = n.toInt.natAbs - 1 := by
  have hpos := h.pos
  rw [toInt_relayed h.small, if_pos h]
  obtain h | h := Int.lt_or_gt_of_ne (Int.natAbs_pos.mp hpos)
  · rw [Int.sign_eq_neg_one_of_neg h]
    omega
  · rw [Int.sign_eq_one_of_pos h]
    omega

theorem relayed_eq_of_not_creeps (hlt : n.toInt.natAbs < 2 ^ 23) (h : ¬ Creeps n.toInt.natAbs) :
    relayed n = n := by
  rw [← Int32.toInt_inj, toInt_relayed hlt, if_neg h]

theorem toFloat_relayed_eq_iff (n : Int32) :
    toFloat (relayed n) = toFloat n ↔ ¬ Creeps n.toInt.natAbs := by
  constructor
  · exact fun heq h => h.toFloat_ne h.natAbs_relayed heq
  · intro h
    obtain hlt | hle := Nat.lt_or_ge n.toInt.natAbs (2 ^ 23)
    · rw [relayed_eq_of_not_creeps hlt h]
    · exact toFloat_ofFloat_of_le hle

theorem relayed_relayed (n : Int32) : relayed (relayed n) = relayed n := by
  obtain h | h := Decidable.em (Creeps n.toInt.natAbs)
  · have habs := h.natAbs_relayed
    have hlt := h.small
    refine relayed_eq_of_not_creeps (by omega) ?_
    rw [habs]
    exact not_creeps_pred h
  · have heq := (toFloat_relayed_eq_iff n).mpr h
    exact congrArg ofFloat heq

end Fixed

end SharedWorld
