import Mathlib.Data.List.TakeWhile
import SharedWorld.Text.Utf8

/-! # Text and zero bytes

A text field ends at its first zero byte. In UTF-8 a zero byte is always a NUL, so the bytes
before the first zero byte are those of the text before its first NUL.
-/

namespace SharedWorld

namespace Text

/-- The text before its first NUL. -/
def untilNul (s : String) : String := String.ofList (s.toList.takeWhile (· ≠ '\x00'))

def IsUtf8 (bs : Bytes) : Prop := ByteArray.IsValidUTF8 ⟨bs.toArray⟩

theorem isUtf8_iff {bs : Bytes} : IsUtf8 bs ↔ ∃ s, bs = utf8 s := by
  constructor
  · intro h
    exact ⟨String.ofByteArray ⟨bs.toArray⟩ h, rfl⟩
  · rintro ⟨s, rfl⟩
    exact s.isValidUTF8

theorem zero_mem_utf8EncodeChar_iff {c : Char} :
    (0 : UInt8) ∈ String.utf8EncodeChar c ↔ c = '\x00' := by
  constructor
  · intro h
    have hv : c.val.toNat = 0 := by
      have h := List.mem_map_of_mem (f := UInt8.toNat) h
      unfold String.utf8EncodeChar at h
      dsimp only at h
      -- One byte is the code itself; in the longer forms every byte has its highest bit set.
      split at h
      · simp only [List.map_cons, List.map_nil, UInt8.toNat_ofNat', List.mem_singleton,
          UInt8.toNat_zero] at h
        omega
      · split at h <;> (try split at h) <;>
          simp only [List.map_cons, List.map_nil, UInt8.toNat_ofNat', List.mem_cons,
            List.not_mem_nil, or_false, UInt8.toNat_zero] at h <;> omega
    exact Char.ext (UInt32.toNat_inj.mp hv)
  · rintro rfl
    decide

theorem utf8_eq_flatMap (s : String) : utf8 s = s.toList.flatMap String.utf8EncodeChar := by
  rw [utf8, ← s.utf8Encode_toList, List.utf8Encode, List.data_toByteArray]

theorem takeWhile_flatMap_utf8EncodeChar (cs : List Char) :
    (cs.flatMap String.utf8EncodeChar).takeWhile (· ≠ 0) =
      (cs.takeWhile (· ≠ '\x00')).flatMap String.utf8EncodeChar := by
  induction cs with
  | nil => rfl
  | cons c cs ih =>
    by_cases hc : c = '\x00'
    · subst hc
      rfl
    · have hb : ∀ b ∈ String.utf8EncodeChar c, decide (b ≠ 0) = true := by
        intro b hb
        simp only [decide_eq_true_eq]
        rintro rfl
        exact hc (zero_mem_utf8EncodeChar_iff.mp hb)
      rw [List.flatMap_cons, List.takeWhile_append_of_pos hb, ih,
        List.takeWhile_cons_of_pos (by simpa using hc), List.flatMap_cons]

theorem takeWhile_utf8 (s : String) : (utf8 s).takeWhile (· ≠ 0) = utf8 (untilNul s) := by
  rw [utf8_eq_flatMap, utf8_eq_flatMap, untilNul, String.toList_ofList,
    takeWhile_flatMap_utf8EncodeChar]

theorem zero_mem_utf8_iff {s : String} : 0 ∈ utf8 s ↔ '\x00' ∈ s.toList := by
  simp only [utf8_eq_flatMap, List.mem_flatMap, zero_mem_utf8EncodeChar_iff, exists_eq_right]

theorem takeWhile_ne_eq_self_iff {α : Type} [DecidableEq α] {z : α} {as : List α} :
    as.takeWhile (· ≠ z) = as ↔ z ∉ as := by
  simp only [List.takeWhile_eq_self_iff, decide_eq_true_eq]
  constructor
  · intro h hz
    exact h z hz rfl
  · rintro h a ha rfl
    exact h ha

theorem not_mem_takeWhile_ne {α : Type} [DecidableEq α] (z : α) (as : List α) :
    z ∉ as.takeWhile (· ≠ z) := by
  intro h
  simpa using List.mem_takeWhile_imp h

theorem untilNul_eq_self_iff {s : String} : untilNul s = s ↔ '\x00' ∉ s.toList := by
  rw [← takeWhile_ne_eq_self_iff, untilNul, ← String.toList_inj, String.toList_ofList]

end Text

end SharedWorld
