import Mathlib.Tactic.Ring
import SharedWorld.Pacer.Basic

/-! # The accounts of a pacer

A pacer is woken again and again, each time at or after its deadline, and waits for a tick may be
given up. One policy keeps the cadence of the first deadline, whatever the lateness. The other
counts the ticks that were missed and goes on from now, and then ticks and missed ticks together
never run ahead of the time. The counts are words, and are exact until one of them is full.
-/

namespace SharedWorld

namespace Pacer

variable {p p₀ : Pacer} {policy : LatePolicy} {d created jitter now limit : Nat}

/-- A pacer whose first tick is due one tick and the jitter after it was created. -/
def fresh (policy : LatePolicy) (d created jitter : Nat) : Pacer :=
  { policy, length := d, due := created + d + jitter }

theorem start_eq (config : PacerConfig) (now jitter : Nat) :
    start config now jitter = fresh config.policy config.validated.duration now jitter :=
  rfl

/-- A tick, with the deadline that it was waited for and the time of the wake-up. -/
structure Beat where
  due : Nat
  time : Nat
  tick : Tick

def beat (p : Pacer) (now : Nat) : Beat := ⟨p.due, now, (p.wake now).2⟩

variable {b : Beat} {bs : List Beat}

/-- What has become of a pacer, and the ticks that it has given, the newest first. -/
inductive Course (p₀ : Pacer) : List Beat → Pacer → Prop
  | start : Course p₀ [] p₀
  | wake {bs : List Beat} {p : Pacer} {now : Nat} (h : Course p₀ bs p) (hd : p.due ≤ now) :
      Course p₀ (p.beat now :: bs) (p.wake now).1
  | giveUp {bs : List Beat} {p : Pacer} {now limit : Nat} (h : Course p₀ bs p)
      (hn : (p.waitUntil now limit).2.2 = none) : Course p₀ bs (p.waitUntil now limit).2.1

/-! ## One wait -/

@[simp] theorem due_beat : (p.beat now).due = p.due := rfl

@[simp] theorem time_beat : (p.beat now).time = now := rfl

@[simp] theorem tick_beat : (p.beat now).tick =
    { number := p.ticks + 1, length := p.length, late := p.isLate now, skipped := p.missed now } :=
  rfl

@[simp] theorem due_wake : (p.wake now).1.due = p.nextDue now := rfl

@[simp] theorem ticks_wake : (p.wake now).1.ticks = p.ticks + 1 := rfl

@[simp] theorem overruns_wake : (p.wake now).1.overruns =
    if p.isLate now then p.overruns + 1 else p.overruns := rfl

@[simp] theorem skipped_wake : (p.wake now).1.skipped = p.skipped + p.missed now := rfl

theorem isLate_iff : p.isLate now = true ↔ p.length < 10 * (now - p.due) := by
  unfold isLate
  rw [decide_eq_true_eq]
  omega

theorem missed_mul_le (p : Pacer) (now : Nat) :
    (p.missed now).toNat * p.length ≤ now - p.due := by
  unfold missed
  split
  · split
    · rw [UInt64.toNat_ofNat']
      exact (Nat.mul_le_mul_right _ (Nat.mod_le _ _)).trans (Nat.div_mul_le_self _ _)
    · simp
  · simp

theorem missed_of_drop (h : p.policy = .drop) : p.missed now = 0 := by
  simp [missed, h]

theorem nextDue_of_drop (h : p.policy = .drop) : p.nextDue now = p.due + p.length := by
  simp [nextDue, h]

theorem nextDue_of_skip (h : p.policy = .skip) : p.nextDue now = now + p.length := by
  simp [nextDue, h]

theorem due_le_firing (p : Pacer) (now : Nat) : p.due ≤ p.firing now := by
  unfold firing millisecond
  omega

theorem waitUntil_eq_self (h : (p.waitUntil now limit).2.2 = none) :
    (p.waitUntil now limit).2.1 = p := by
  unfold waitUntil at h ⊢
  split at h
  · cases h
  · next hl => rw [if_neg hl]

/-! ## Courses -/

/-- Waits that were given up are as if they had not been. -/
theorem Course.induct {P : List Beat → Pacer → Prop} (h₀ : P [] p₀)
    (h₁ : ∀ bs p now, Course p₀ bs p → p.due ≤ now → P bs p →
      P (p.beat now :: bs) (p.wake now).1)
    (h : Course p₀ bs p) : P bs p := by
  induction h with
  | start => exact h₀
  | wake h hd ih => exact h₁ _ _ _ h hd ih
  | giveUp h hn ih => rwa [waitUntil_eq_self hn]

theorem Course.constant (h : Course p₀ bs p) : p.policy = p₀.policy ∧ p.length = p₀.length :=
  h.induct (P := fun _ p => p.policy = p₀.policy ∧ p.length = p₀.length) ⟨rfl, rfl⟩
    fun _ _ _ _ _ ih => ih

def skips (bs : List Beat) : Nat := (bs.map fun b => b.tick.skipped.toNat).sum

/-- What the pacer has counted is what its ticks have said. -/
structure Counted (d : Nat) (bs : List Beat) (p : Pacer) : Prop where
  /-- Ticks are numbered 1, 2, 3 and so on. -/
  numbers : bs.reverse.map (·.tick.number) = (List.range' 1 bs.length).map .ofNat
  lengths : ∀ b ∈ bs, b.tick.length = d
  /-- No tick comes before its deadline. -/
  due_le : ∀ b ∈ bs, b.due ≤ b.time
  /-- A tick is late that comes more than a tenth of a tick after its deadline. -/
  late_iff : ∀ b ∈ bs, b.tick.late = true ↔ d < 10 * (b.time - b.due)
  ticks : p.ticks = .ofNat bs.length
  overruns : p.overruns = .ofNat (bs.countP (·.tick.late))
  skipped : p.skipped = .ofNat (skips bs)

/-- The same as numbers: no count has run past its word. -/
structure Exact (bs : List Beat) (p : Pacer) : Prop where
  numbers : bs.reverse.map (·.tick.number.toNat) = List.range' 1 bs.length
  ticks : p.ticks.toNat = bs.length
  overruns : p.overruns.toNat = bs.countP (·.tick.late)
  skipped : p.skipped.toNat = skips bs

theorem Counted.wake (h : Counted p.length bs p) (hd : p.due ≤ now) :
    Counted p.length (p.beat now :: bs) (p.wake now).1 where
  numbers := by
    rw [List.reverse_cons, List.map_append, h.numbers, List.length_cons, List.range'_1_concat]
    simp [h.ticks, UInt64.ofNat_add, UInt64.add_comm]
  lengths := List.forall_mem_cons.mpr ⟨rfl, h.lengths⟩
  due_le := List.forall_mem_cons.mpr ⟨hd, h.due_le⟩
  late_iff := List.forall_mem_cons.mpr ⟨isLate_iff, h.late_iff⟩
  ticks := by simp [h.ticks, UInt64.ofNat_add]
  overruns := by
    rw [List.countP_cons, UInt64.ofNat_add, ← h.overruns, overruns_wake, tick_beat]
    cases p.isLate now <;> simp
  skipped := by simp [h.skipped, skips, UInt64.ofNat_add, UInt64.add_comm]

theorem Counted.exact (h : Counted d bs p) (hticks : bs.length < UInt64.size)
    (hskips : skips bs < UInt64.size) : Exact bs p where
  numbers := by
    have hn := congrArg (List.map UInt64.toNat) h.numbers
    rw [List.map_map, List.map_map] at hn
    refine hn.trans ((List.map_congr_left fun k hk => ?_).trans (List.map_id _))
    have hk := (List.mem_range'_1.mp hk).2
    exact UInt64.toNat_ofNat_of_lt' (by omega)
  ticks := by rw [h.ticks, UInt64.toNat_ofNat_of_lt' hticks]
  overruns := by
    rw [h.overruns, UInt64.toNat_ofNat_of_lt' (List.countP_le_length.trans_lt hticks)]
  skipped := by rw [h.skipped, UInt64.toNat_ofNat_of_lt' hskips]

section Fresh

variable (h : Course (fresh policy d created jitter) bs p)

include h

theorem Course.counted : Counted d bs p := by
  suffices hs : Counted p.length bs p by rwa [h.constant.2] at hs
  apply h.induct (P := fun bs p => Counted p.length bs p)
  · exact ⟨rfl, nofun, nofun, nofun, rfl, rfl, rfl⟩
  · intro bs p now _ hd hc
    exact hc.wake hd

/-! ### Keeping the cadence -/

theorem Course.due_of_drop (hp : policy = .drop) :
    p.due = created + d + jitter + bs.length * d := by
  apply h.induct (P := fun bs p => p.due = created + d + jitter + bs.length * d)
  · simp [fresh]
  · intro bs p now h hd ih
    obtain ⟨hpolicy, hlength⟩ := h.constant
    rw [due_wake, nextDue_of_drop (hpolicy.trans hp), ih, hlength, List.length_cons,
      Nat.succ_mul, Nat.add_assoc]
    rfl

theorem Course.deadlines_of_drop (hp : policy = .drop) :
    bs.reverse.map (·.due) = (List.range bs.length).map (created + d + jitter + · * d) := by
  apply h.induct (P := fun bs _ =>
    bs.reverse.map (·.due) = (List.range bs.length).map (created + d + jitter + · * d))
  · rfl
  · intro bs p now h hd ih
    rw [List.reverse_cons, List.map_append, ih, List.length_cons, List.range_succ]
    simp [h.due_of_drop hp]

theorem Course.due_beat_of_drop (hp : policy = .drop) : bs.length < UInt64.size →
    ∀ b ∈ bs, b.due = created + d + jitter + (b.tick.number.toNat - 1) * d := by
  apply h.induct (P := fun bs _ => bs.length < UInt64.size →
    ∀ b ∈ bs, b.due = created + d + jitter + (b.tick.number.toNat - 1) * d)
  · exact fun _ => nofun
  · intro bs p now h hd ih hlength
    rw [List.length_cons] at hlength
    refine List.forall_mem_cons.mpr ⟨?_, ih (Nat.lt_of_succ_lt hlength)⟩
    have hnumber : (p.beat now).tick.number.toNat = bs.length + 1 := by
      rw [tick_beat, h.counted.ticks]
      change (UInt64.ofNat bs.length + UInt64.ofNat 1).toNat = _
      rw [← UInt64.ofNat_add, UInt64.toNat_ofNat_of_lt' hlength]
    rw [due_beat, hnumber, Nat.add_sub_cancel, h.due_of_drop hp]

theorem Course.skipped_of_drop (hp : policy = .drop) : p.skipped = 0 := by
  apply h.induct (P := fun _ p => p.skipped = 0) rfl
  intro bs p now h hd ih
  rw [skipped_wake, ih, missed_of_drop (h.constant.1.trans hp), UInt64.add_zero]

/-! ### Going on from now -/

theorem Course.due_of_skip (hp : policy = .skip) : ∀ b ∈ bs.head?, p.due = b.time + d := by
  apply h.induct (P := fun bs p => ∀ b ∈ bs.head?, p.due = b.time + d)
  · exact nofun
  · rintro bs p now h hd ih b ⟨⟩
    obtain ⟨hpolicy, hlength⟩ := h.constant
    rw [due_wake, nextDue_of_skip (hpolicy.trans hp), hlength]
    rfl

/-- Before each deadline there is room for the ticks so far, those that were skipped, and one
more. The lateness of a tick makes room for those that it skips. -/
theorem Course.le_due_of_skip (hp : policy = .skip) :
    created + (bs.length + skips bs + 1) * d ≤ p.due := by
  apply h.induct (P := fun bs p => created + (bs.length + skips bs + 1) * d ≤ p.due)
  · simp [fresh, skips]
  · intro bs p now h hd ih
    obtain ⟨hpolicy, hlength⟩ := h.constant
    have hlength : p.length = d := hlength
    have hmissed := p.missed_mul_le now
    rw [hlength] at hmissed
    have hskips : skips (p.beat now :: bs) = (p.missed now).toNat + skips bs := by
      simp [skips]
    rw [due_wake, nextDue_of_skip (hpolicy.trans hp), hlength, hskips, List.length_cons]
    calc created + (bs.length + 1 + ((p.missed now).toNat + skips bs) + 1) * d
        = created + (bs.length + skips bs + 1) * d + (p.missed now).toNat * d + d := by ring
      _ ≤ p.due + (now - p.due) + d := by omega
      _ = now + d := by omega

/-- In any course of a pacer, with any waits given up, the ticks are numbered in order and the
counts are those of the ticks, exactly so while their words hold them. Keeping the cadence, each
tick is due as many lengths after the first deadline as there were ticks before it, and none is
skipped. Going on from now, the next tick is due one length after the last wake-up, and the ticks
with those that were skipped fit in the time since the pacer was created. -/
theorem accounts_of_course :
    Counted d bs p ∧
      (bs.length < UInt64.size → skips bs < UInt64.size → Exact bs p) ∧
      (policy = .drop → p.due = created + d + jitter + bs.length * d ∧ p.skipped = 0 ∧
        bs.reverse.map (·.due) = (List.range bs.length).map (created + d + jitter + · * d) ∧
        (bs.length < UInt64.size →
          ∀ b ∈ bs, b.due = created + d + jitter + (b.tick.number.toNat - 1) * d)) ∧
      (policy = .skip → ∀ b ∈ bs.head?, p.due = b.time + d ∧
        created + (bs.length + skips bs) * d ≤ b.time) ∧
      ∀ now limit, p.due ≤ p.firing now ∧
        ((p.waitUntil now limit).2.2 = none → (p.waitUntil now limit).2.1 = p) := by
  refine ⟨h.counted, h.counted.exact, ?_, ?_, ?_⟩
  · intro hp
    exact ⟨h.due_of_drop hp, h.skipped_of_drop hp, h.deadlines_of_drop hp, h.due_beat_of_drop hp⟩
  · intro hp b hb
    have hdue := h.due_of_skip hp b hb
    have hle := h.le_due_of_skip hp
    rw [hdue, Nat.succ_mul] at hle
    exact ⟨hdue, by omega⟩
  · intro now limit
    exact ⟨p.due_le_firing now, waitUntil_eq_self⟩

end Fresh

def roused (policy : LatePolicy) : Pacer := ((fresh policy 50000000 0 0).wake 50000000).1

def stalled (policy : LatePolicy) : List Beat :=
  [(roused policy).beat 225000000, (fresh policy 50000000 0 0).beat 50000000]

theorem course_stalled (policy : LatePolicy) :
    Course (fresh policy 50000000 0 0) (stalled policy) ((roused policy).wake 225000000).1 := by
  have hfirst : Course (fresh policy 50000000 0 0) _ (roused policy) := .wake .start (Nat.le_refl _)
  have hnone : ((roused policy).waitUntil 60000000 70000000).2.2 = none := by
    cases policy <;> decide
  have hwaiting := hfirst.giveUp hnone
  rw [waitUntil_eq_self hnone] at hwaiting
  exact hwaiting.wake (by cases policy <;> decide)

/-- A wait is given up, and the next tick comes late. One policy skips two ticks and starts anew,
and the other keeps to the deadlines. -/
theorem accounts_of_course_stall :
    start { rate := 20 } 0 0 = fresh .skip 50000000 0 0 ∧
      (let p := ((roused .skip).wake 225000000).1
       Exact (stalled .skip) p ∧ p.overruns = 1 ∧ p.skipped = 2 ∧ p.due = 275000000 ∧
        0 + (2 + 2) * 50000000 ≤ 225000000) ∧
      (let p := ((roused .drop).wake 225000000).1
       Exact (stalled .drop) p ∧ p.overruns = 1 ∧ p.skipped = 0 ∧ p.due = 150000000 ∧
        (stalled .drop).reverse.map (·.due) = [50000000, 100000000]) := by
  obtain ⟨hcounted, hexact, -, hskip, -⟩ := accounts_of_course (course_stalled .skip)
  obtain ⟨hcounted', hexact', hdrop, -, -⟩ := accounts_of_course (course_stalled .drop)
  obtain ⟨hdue, hfits⟩ := hskip rfl _ rfl
  obtain ⟨hdue', hskipped, hdeadlines, -⟩ := hdrop rfl
  exact ⟨by decide +kernel,
    ⟨hexact (by decide) (by decide), hcounted.overruns, hcounted.skipped, hdue, hfits⟩,
    hexact' (by decide) (by decide), hcounted'.overruns, hskipped, hdue', hdeadlines⟩

end Pacer

end SharedWorld
