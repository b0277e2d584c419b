import Mathlib.Algebra.Ring.Nat
import Mathlib.Data.List.Chain
import Mathlib.Data.List.Induction
import Mathlib.Order.Bounds.Basic
import SharedWorld.Clock

/-! # What a clock shows

A clock may be given its instants in any order. Its total is the least number that has grown by a
microsecond at every tick and has never been behind the instant of one, so it is a maximum over
the whole history. The frames of the ticks add up to it.
-/

namespace SharedWorld

namespace Clock

variable {nows : List Int} {now : Int} {c : Clock} {m : Nat}

/-- The microseconds from the start to an instant in nanoseconds, none to an earlier one. -/
def micros (now : Int) : Nat := now.toNat / 1000

def after (nows : List Int) : Clock := nows.foldl tickAt {}

def readings (nows : List Int) : List Clock := nows.scanl tickAt {}

/-- All instants can be shown in 64 bits, with a microsecond more for every tick. -/
def Shown (nows : List Int) : Prop := ∀ now ∈ nows, micros now + nows.length < UInt64.size

/-- What the total cannot be below: a microsecond for each tick, and each instant with a
microsecond for each tick after it. -/
inductive Floor (nows : List Int) : Nat → Prop
  | ticks : Floor nows nows.length
  | instant {i : Nat} {now : Int} (h : nows[i]? = some now) :
      Floor nows (micros now + (nows.length - (i + 1)))

/-! ## One tick -/

theorem toNat_total_tickAt (hc : c.total.toNat + 1 < UInt64.size) (hn : micros now < UInt64.size) :
    (c.tickAt now).total.toNat = max (micros now) (c.total.toNat + 1) := by
  have hsucc : (c.total + 1).toNat = c.total.toNat + 1 := by
    rw [UInt64.toNat_add]
    exact Nat.mod_eq_of_lt hc
  have helapsed : (Micros.ofNat (micros now)).toNat = micros now := by
    rw [Micros.toNat_ofNat]
    exact Nat.min_eq_left (Nat.le_sub_one_of_lt hn)
  change (if c.total + 1 ≤ Micros.ofNat (micros now) then Micros.ofNat (micros now)
    else c.total + 1).toNat = _
  split
  · next hle =>
    rw [UInt64.le_iff_toNat_le, hsucc, helapsed] at hle
    rw [helapsed, Nat.max_eq_left hle]
  · next hlt =>
    rw [UInt64.le_iff_toNat_le, hsucc, helapsed] at hlt
    rw [hsucc, Nat.max_eq_right (Nat.le_of_not_le hlt)]

theorem total_lt_tickAt (hc : c.total.toNat + 1 < UInt64.size) (hn : micros now < UInt64.size) :
    c.total < (c.tickAt now).total := by
  rw [UInt64.lt_iff_toNat_lt, toNat_total_tickAt hc hn]
  omega

theorem toNat_frame_tickAt (h : c.total < (c.tickAt now).total) :
    c.total.toNat + (c.tickAt now).frame.toNat = (c.tickAt now).total.toNat := by
  change c.total.toNat + ((c.tickAt now).total - c.total).toNat = _
  rw [UInt64.toNat_sub_of_le _ _ (UInt64.le_of_lt h)]
  exact Nat.add_sub_cancel' (Nat.le_of_lt (UInt64.lt_iff_toNat_lt.mp h))

/-! ## All ticks -/

theorem after_concat : after (nows ++ [now]) = (after nows).tickAt now := by
  simp [after]

theorem readings_concat :
    readings (nows ++ [now]) = readings nows ++ [(after nows).tickAt now] := by
  simp [readings, after, List.scanl_append]

theorem Shown.of_concat (h : Shown (nows ++ [now])) : Shown nows := by
  intro earlier he
  have := h earlier (List.mem_append_left _ he)
  rw [List.length_append] at this
  omega

theorem floor_concat_iff :
    Floor (nows ++ [now]) m ↔ m = micros now ∨ ∃ m', Floor nows m' ∧ m = m' + 1 := by
  constructor
  · rintro (_ | @⟨i, earlier, h⟩)
    · exact Or.inr ⟨_, .ticks, by simp⟩
    · rw [List.length_append, List.length_singleton]
      rcases Nat.lt_trichotomy i nows.length with hi | rfl | hi
      · rw [List.getElem?_append_left hi] at h
        exact Or.inr ⟨_, .instant h, by omega⟩
      · rw [List.getElem?_concat_length] at h
        cases h
        exact Or.inl (by omega)
      · rw [List.getElem?_eq_none (by simpa using Nat.succ_le_of_lt hi)] at h
        cases h
  · rintro (rfl | ⟨m', hm', rfl⟩)
    · have h : (nows ++ [now])[nows.length]? = some now := List.getElem?_concat_length
      simpa using Floor.instant h
    · cases hm' with
      | ticks =>
        have hf : Floor (nows ++ [now]) _ := .ticks
        simpa using hf
      | @instant i earlier h =>
        obtain ⟨hi, -⟩ := List.getElem?_eq_some_iff.mp h
        have h' : (nows ++ [now])[i]? = some earlier := by
          rw [List.getElem?_append_left hi, h]
        have hf := Floor.instant h'
        rw [List.length_append, List.length_singleton] at hf
        rwa [show micros earlier + (nows.length - (i + 1)) + 1 =
          micros earlier + (nows.length + 1 - (i + 1)) by omega]

theorem Shown.succ_lt (h : Shown (nows ++ [now])) (hm : Floor nows m) : m + 1 < UInt64.size := by
  cases hm with
  | ticks =>
    have := h now (List.mem_append_right _ (List.mem_singleton_self _))
    rw [List.length_append, List.length_singleton] at this
    omega
  | instant hi =>
    have := h _ (List.mem_append_left _ (List.mem_of_getElem? hi))
    rw [List.length_append, List.length_singleton] at this
    omega

theorem Shown.micros_lt (h : Shown (nows ++ [now])) : micros now < UInt64.size :=
  Nat.lt_of_le_of_lt (Nat.le_add_right _ _)
    (h now (List.mem_append_right _ (List.mem_singleton_self _)))

theorem isGreatest_total (h : Shown nows) :
    IsGreatest {m | Floor nows m} (after nows).total.toNat := by
  induction nows using List.reverseRecOn with
  | nil =>
    refine ⟨.ticks, ?_⟩
    rintro m (_ | h)
    · exact Nat.zero_le _
    · cases h
  | append_singleton nows now ih =>
    obtain ⟨hmem, hmax⟩ := ih h.of_concat
    rw [after_concat, toNat_total_tickAt (h.succ_lt hmem) h.micros_lt]
    constructor
    · apply floor_concat_iff.mpr
      rcases Nat.le_total (micros now) ((after nows).total.toNat + 1) with hle | hle
      · exact Or.inr ⟨_, hmem, Nat.max_eq_right hle⟩
      · exact Or.inl (Nat.max_eq_left hle)
    · intro m hm
      obtain rfl | ⟨m', hm', rfl⟩ := floor_concat_iff.mp hm
      · exact Nat.le_max_left _ _
      · exact Nat.le_trans (Nat.succ_le_succ (hmax hm')) (Nat.le_max_right _ _)

theorem lt_total_concat (h : Shown (nows ++ [now])) :
    (after nows).total < ((after nows).tickAt now).total :=
  total_lt_tickAt (h.succ_lt (isGreatest_total h.of_concat).1) h.micros_lt

theorem toNat_frames_after (h : Shown nows) : (after nows).frames.toNat = nows.length := by
  induction nows using List.reverseRecOn with
  | nil => rfl
  | append_singleton nows now ih =>
    rw [after_concat, List.length_append, List.length_singleton]
    change ((after nows).frames + 1).toNat = _
    rw [UInt64.toNat_add, ih h.of_concat]
    exact Nat.mod_eq_of_lt (h.succ_lt .ticks)

theorem tail_readings_concat :
    (readings (nows ++ [now])).tail = (readings nows).tail ++ [(after nows).tickAt now] := by
  rw [readings_concat, List.tail_append_of_ne_nil]
  simp [readings]

theorem sum_frames (h : Shown nows) :
    ((readings nows).tail.map (·.frame.toNat)).sum = (after nows).total.toNat := by
  induction nows using List.reverseRecOn with
  | nil => rfl
  | append_singleton nows now ih =>
    rw [tail_readings_concat, List.map_append, List.sum_append, ih h.of_concat, after_concat]
    simpa using toNat_frame_tickAt (lt_total_concat h)

theorem isChain_readings (h : Shown nows) :
    (readings nows).IsChain fun c c' => c.total < c'.total := by
  induction nows using List.reverseRecOn with
  | nil => simp [readings]
  | append_singleton nows now ih =>
    rw [readings_concat]
    apply List.IsChain.append (ih h.of_concat) (List.isChain_singleton _)
    intro c hc c' hc'
    have hlast : (readings nows).getLast? = some (after nows) := List.getLast?_scanl
    rw [hlast] at hc
    cases hc
    cases hc'
    exact lt_total_concat h

/-- After ticks at any instants the total is the greatest of the number of ticks and, for each
instant, its microseconds and one more for each tick that came after it. The frames of the ticks
add up to the total, which every tick has moved forward. -/
theorem total_of_instants (h : ∀ now ∈ nows, micros now + nows.length < UInt64.size) :
    IsGreatest {m | Floor nows m} (after nows).total.toNat ∧
      (after nows).frames.toNat = nows.length ∧
      ((readings nows).tail.map (·.frame.toNat)).sum = (after nows).total.toNat ∧
      (readings nows).IsChain fun c c' => c.total < c'.total :=
  ⟨isGreatest_total h, toNat_frames_after h, sum_frames h, isChain_readings h⟩

def jumps : List Int := [10000000, 3000000, -1, 10000000]

theorem total_of_instants_jumps :
    (∀ now ∈ jumps, micros now + jumps.length < UInt64.size) ∧ (after jumps).total = 10003 ∧
      IsGreatest {m | Floor jumps m} 10003 ∧
      (readings jumps).tail.map (·.frame) = [10000, 1, 1, 1] ∧
      (readings jumps).IsChain fun c c' => c.total < c'.total := by
  have hshown : ∀ now ∈ jumps, micros now + jumps.length < UInt64.size := by decide
  have htotal : (after jumps).total = 10003 := by decide
  obtain ⟨hgreatest, -, -, hchain⟩ := total_of_instants hshown
  rw [htotal] at hgreatest
  exact ⟨hshown, htotal, hgreatest, by decide, hchain⟩

end Clock

end SharedWorld
