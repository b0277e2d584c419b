import Mathlib
import SharedWorld.Position

/-! # Rounding in single precision

A mantissa that lost bits keeps two of what it lost. They are enough to round it: what comes out
is never farther than one half from the value that was meant, and below it by one half only when
it is even.
-/

namespace SharedWorld

namespace Rounding

open Float.Model Float.Model.UnpackedFloat

variable {em : ExtendedMantissa} {num den m s : Nat} {e : Int} {acc : Accuracy} {sign : Sign}

def Located (start width num : Nat) : Accuracy → Prop
  | .exact => num = start
  | .inexact .lt => start < num ∧ 2 * num < 2 * start + width
  | .inexact .eq => 2 * num = 2 * start + width
  | .inexact .gt => 2 * start + width < 2 * num ∧ num < start + width

/-- The mantissa is the whole part of the fraction, and its bits tell of the rest. -/
structure Represents (em : ExtendedMantissa) (num den : Nat) : Prop where
  pos : 0 < den
  located : Located (em.mantissa * den) den num em.accuracy

theorem represents_ofMantissaAndAccuracy (hd : 0 < den) (h : Located (m * den) den num acc) :
    Represents (.ofMantissaAndAccuracy m acc) num den := by
  match acc with
  | .exact | .inexact .lt | .inexact .eq | .inexact .gt => exact ⟨hd, h⟩

theorem located_accuracyOfFraction (num : Nat) (h : 0 < den) :
    Located (num / den * den) den num (accuracyOfFraction (num % den) den) := by
  have hm := Nat.div_add_mod' num den
  have hlt := Nat.mod_lt num h
  unfold accuracyOfFraction
  split
  · simp only [Located]
    omega
  · cases hc : compare (2 * (num % den)) den with
    | lt =>
      rw [Nat.compare_eq_lt] at hc
      simp only [Located]
      omega
    | eq =>
      rw [Nat.compare_eq_eq] at hc
      simp only [Located]
      omega
    | gt =>
      rw [Nat.compare_eq_gt] at hc
      simp only [Located]
      omega

theorem Represents.shiftRightOne (h : Represents em num den) :
    Represents em.shiftRightOne num (2 * den) := by
  obtain ⟨mantissa, roundBit, stickyBit⟩ := em
  obtain ⟨hd, h⟩ := h
  refine ⟨Nat.mul_pos Nat.two_pos hd, ?_⟩
  have hm : mantissa * den = mantissa / 2 * (2 * den) + mantissa % 2 * den := by
    conv_lhs => rw [← Nat.div_add_mod mantissa 2]
    ring
  dsimp only at h
  rw [hm] at h
  unfold ExtendedMantissa.shiftRightOne
  dsimp only
  -- The bit that leaves the mantissa says in which half the number is.
  obtain hb | hb := Nat.mod_two_eq_zero_or_one mantissa <;> rw [hb] at h ⊢ <;>
    cases roundBit <;> cases stickyBit <;>
    simp only [Located, ExtendedMantissa.accuracy] at h ⊢ <;> simp <;> omega

theorem Represents.shiftRight (h : Represents em num den) (s : Nat) :
    Represents (em >>> s) num (2 ^ s * den) := by
  induction s with
  | zero =>
    rw [Nat.pow_zero, Nat.one_mul]
    exact h
  | succ s ih =>
    rw [Nat.pow_succ', Nat.mul_assoc]
    exact ih.shiftRightOne

/-- A whole number nearest to the fraction, an even one when the next one is as near. -/
structure Nearest (m num den : Nat) : Prop where
  below : 2 * (m * den) ≤ 2 * num + den
  above : 2 * num ≤ 2 * (m * den) + den
  even : 2 * num = 2 * (m * den) + den → m % 2 = 0

theorem Nearest.eq_of_mul {r : Nat} (h : Nearest r (m * den) den) (hd : 0 < den) : r = m := by
  obtain ⟨below, above, -⟩ := h
  have hlt : r * den < (m + 1) * den := by
    rw [Nat.add_mul]
    omega
  have hgt : m * den < (r + 1) * den := by
    rw [Nat.add_mul]
    omega
  have := Nat.lt_of_mul_lt_mul_right hlt
  have := Nat.lt_of_mul_lt_mul_right hgt
  omega

theorem Represents.nearest (h : Represents em num den) : Nearest em.roundedMantissa num den := by
  obtain ⟨hd, h⟩ := h
  have hup : (em.mantissa + 1) * den = em.mantissa * den + den := Nat.succ_mul ..
  unfold ExtendedMantissa.roundedMantissa
  match ha : em.accuracy with
  | .exact | .inexact .lt | .inexact .gt =>
    rw [ha] at h
    simp only [Located] at h
    refine ⟨?_, ?_, fun ht => ?_⟩ <;> simp only [Accuracy.roundToNearestEven] at * <;> omega
  | .inexact .eq =>
    rw [ha] at h
    simp only [Located] at h
    obtain hb | hb := Nat.mod_two_eq_zero_or_one em.mantissa <;>
      refine ⟨?_, ?_, fun ht => ?_⟩ <;>
      simp only [Accuracy.roundToNearestEven, hb, Nat.add_zero] at * <;> omega

theorem le_roundedMantissa (em : ExtendedMantissa) :
    em.mantissa ≤ em.roundedMantissa ∧ em.roundedMantissa ≤ em.mantissa + 1 := by
  unfold ExtendedMantissa.roundedMantissa
  match em.accuracy with
  | .exact | .inexact .lt | .inexact .eq | .inexact .gt =>
    simp only [Accuracy.roundToNearestEven]
    omega

theorem mantissa_shiftRight (em : ExtendedMantissa) (s : Nat) :
    (em >>> s).mantissa = em.mantissa / 2 ^ s := by
  induction s with
  | zero => exact (Nat.div_one _).symm
  | succ s ih =>
    rw [Nat.pow_succ, ← Nat.div_div_eq_div_mul, ← ih]
    rfl

theorem mantissa_ofMantissaAndAccuracy (m : Nat) (acc : Accuracy) :
    (ExtendedMantissa.ofMantissaAndAccuracy m acc).mantissa = m := by
  match acc with
  | .exact | .inexact .lt | .inexact .eq | .inexact .gt => rfl

theorem shiftToTargetExponent_eq (acc : Accuracy) (hl : 2 ^ (23 + s) ≤ m)
    (hu : m < 2 ^ (24 + s)) (he : -149 ≤ e + s) : shiftToTargetExponent .binary32 m e acc =
      (ExtendedMantissa.ofMantissaAndAccuracy m acc >>> s, e + s) := by
  have hlog : m.log2 = 23 + s := by
    rw [Nat.log2_eq_iff (Nat.ne_of_gt (Nat.lt_of_lt_of_le (Nat.two_pow_pos _) hl))]
    exact ⟨hl, by rwa [Nat.add_right_comm]⟩
  have ht : Format.binary32.targetExponent (totalExponent m e) = e + s := by
    simp only [Format.targetExponent, totalExponent, Format.mantissaBits, Format.minExponent, hlog]
    omega
  simp only [shiftToTargetExponent, shiftToExponent, ht]
  rw [show (e + s - e).toNat = s by omega]

theorem finite_of_pos (out : ExtendedMantissa × Int) {r : Nat} {e' : Int}
    (hm : out.1.mantissa = r) (he : out.2 = e') (hr : 0 < r) :
    (if hz : out.1.mantissa = 0 then zero sign
      else finite sign out.1.mantissa out.2 (Nat.pos_of_ne_zero hz)) = finite sign r e' hr := by
  subst hm he
  exact dif_neg (Nat.ne_of_gt hr)

/-- What is rounded keeps 24 bits, of a whole number nearest to it. If that number needs one bit
more, then only the first bit of it is set. -/
theorem exists_roundWithAccuracy (hd : 0 < den) (h : Located (m * den) den num acc)
    (hl : 2 ^ (23 + s) ≤ m) (hu : m < 2 ^ (24 + s)) (he : -149 ≤ e + s) (sign : Sign) :
    ∃ r, Nearest r num (2 ^ s * den) ∧ 2 ^ 23 ≤ r ∧
      ((r < 2 ^ 24 ∧ ∃ hr, roundWithAccuracy .binary32 sign m e acc = .finite sign r (e + s) hr) ∨
        (r = 2 ^ 24 ∧ ∃ hr, roundWithAccuracy .binary32 sign m e acc =
          .finite sign (2 ^ 23) (e + s + 1) hr)) := by
  let em := ExtendedMantissa.ofMantissaAndAccuracy m acc >>> s
  have hem : em.mantissa = m / 2 ^ s := by
    rw [mantissa_shiftRight, mantissa_ofMantissaAndAccuracy]
  have hlow : 2 ^ 23 ≤ em.mantissa := by
    rw [hem, Nat.le_div_iff_mul_le (Nat.two_pow_pos s), ← Nat.pow_add]
    exact hl
  have hhigh : em.mantissa < 2 ^ 24 := by
    rw [hem, Nat.div_lt_iff_lt_mul (Nat.two_pow_pos s), ← Nat.pow_add]
    exact hu
  obtain ⟨hr, hr'⟩ := le_roundedMantissa em
  have hle : 2 ^ 23 ≤ em.roundedMantissa := hlow.trans hr
  refine ⟨em.roundedMantissa, ((represents_ofMantissaAndAccuracy hd h).shiftRight s).nearest, hle,
    ?_⟩
  unfold roundWithAccuracy
  rw [shiftToTargetExponent_eq acc hl hu he]
  let out := shiftToTargetExponent .binary32 em.roundedMantissa (e + s) .exact
  obtain hlt | heq : em.roundedMantissa < 2 ^ 24 ∨ em.roundedMantissa = 2 ^ 24 := by omega
  · have hs : out = _ := shiftToTargetExponent_eq (s := 0) (e := e + s) .exact hle hlt
      (by omega)
    refine Or.inl ⟨hlt, Nat.lt_of_lt_of_le (by decide) hle, finite_of_pos out ?_ ?_ _⟩
    · rw [hs, mantissa_shiftRight, mantissa_ofMantissaAndAccuracy, Nat.pow_zero, Nat.div_one]
    · rw [hs]
      omega
  · have hs : out = _ := shiftToTargetExponent_eq (s := 1) (e := e + s) .exact
      (Nat.le_of_eq heq.symm) (heq.trans_lt (by decide)) (by omega)
    refine Or.inr ⟨heq, by decide, finite_of_pos out ?_ ?_ _⟩
    · rw [hs, mantissa_shiftRight, mantissa_ofMantissaAndAccuracy, heq]
      rfl
    · rw [hs]
      omega

end Rounding

end SharedWorld
