import SharedWorld.Micros
import SharedWorld.Tile.Island
import SharedWorld.Tile.View

/-! # Islands and their logs

Each place of the grid holds what the newest entry of the log put on its tile. The times
of a log grow, as long as they stay below the largest one.
-/

namespace SharedWorld

/-- A view that has taken in a whole log. -/
def IslandView.ofLog (log : TileLog) : IslandView := ⟨log.head?.map (·.time), log⟩

theorem IslandView.plot_ofLog_cons (w : TileWrite) (log : TileLog) (layer : UInt8) (x y : UInt32) :
    (ofLog (w :: log)).plot layer x y =
      if w.layer = layer ∧ w.x = x ∧ w.y = y then w.plot else (ofLog log).plot layer x y := by
  by_cases h : w.layer = layer ∧ w.x = x ∧ w.y = y
  · simp [plot, ofLog, h]
  · simp only [plot, ofLog, List.find?_cons, decide_eq_false h, if_neg h]

namespace TileLog

/-- Newest first. Times grow unless they have reached the largest one. -/
def Timed (log : TileLog) : Prop :=
  log.Pairwise fun newer older => older.time < newer.time ∨ older.time.toNat = UInt64.size - 1

def Bounded (log : TileLog) : Prop := ∀ w ∈ log, w.time.toNat < UInt64.size - 1

theorem Timed.descending {log : TileLog} (h : log.Timed) (hb : log.Bounded) :
    log.Pairwise fun newer older => older.time < newer.time := by
  refine List.Pairwise.imp_of_mem (fun {newer older} _ ho hr => ?_) h
  exact hr.resolve_right (Nat.ne_of_lt (hb older ho))

end TileLog

namespace Island

variable {i i' : Island} {layer layer' k : Nat} {x x' y y' : UInt32} {plot : Plot}
  {time logged : UInt64}

theorem offset?_eq_some_iff : i.offset? layer x y = some k ↔
    (layer < i.layers ∧ x.toNat < i.width.toNat ∧ y.toNat < i.height.toNat) ∧
      layer * (i.width.toNat * i.height.toNat) + y.toNat * i.width.toNat + x.toNat = k := by
  simp only [offset?, Option.ite_none_right_eq_some, Option.some.injEq, UInt32.lt_iff_toNat_lt]

theorem digits_injective {n a a' b b' : Nat} (hb : b < n) (hb' : b' < n)
    (h : a * n + b = a' * n + b') : a = a' ∧ b = b' := by
  have ha : (a * n + b) / n = a := by
    rw [Nat.mul_comm, Nat.mul_add_div (by omega), Nat.div_eq_of_lt hb, Nat.add_zero]
  have ha' : (a' * n + b') / n = a' := by
    rw [Nat.mul_comm, Nat.mul_add_div (by omega), Nat.div_eq_of_lt hb', Nat.add_zero]
  have : a = a' := by rw [← ha, h, ha']
  subst this
  exact ⟨rfl, by omega⟩

theorem digits_lt {n m a b : Nat} (ha : a < m) (hb : b < n) : a * n + b < m * n := by
  have : (a + 1) * n ≤ m * n := Nat.mul_le_mul_right n ha
  rw [Nat.succ_mul] at this
  omega

theorem offset_lt (h : i.offset? layer x y = some k) :
    k < i.layers * (i.height.toNat * i.width.toNat) := by
  obtain ⟨⟨hl, hx, hy⟩, rfl⟩ := offset?_eq_some_iff.mp h
  rw [Nat.mul_comm i.width.toNat, Nat.add_assoc]
  exact digits_lt hl (digits_lt hy hx)

theorem offset_injective (h : i.offset? layer x y = some k) (h' : i.offset? layer' x' y' = some k) :
    layer = layer' ∧ x = x' ∧ y = y' := by
  obtain ⟨⟨-, hx, hy⟩, rfl⟩ := offset?_eq_some_iff.mp h
  obtain ⟨⟨-, hx', hy'⟩, he⟩ := offset?_eq_some_iff.mp h'
  rw [Nat.mul_comm i.width.toNat, Nat.add_assoc, Nat.add_assoc] at he
  obtain ⟨hl, he⟩ := digits_injective (digits_lt hy' hx') (digits_lt hy hx) he
  obtain ⟨hy, hx⟩ := digits_injective hx' hx he
  exact ⟨hl.symm, (UInt32.toNat_inj.mp hx).symm, (UInt32.toNat_inj.mp hy).symm⟩

structure Sound (i : Island) : Prop where
  layers : i.layers ≤ maxLayers
  size : i.tiles.size = i.layers * (i.height.toNat * i.width.toNat)
  /-- The grid is what the log says. -/
  plots : ∀ layer x y k, i.offset? layer x y = some k →
    i.tiles[k]? = some ((IslandView.ofLog i.log).plot (UInt8.ofNat layer) x y)
  times : i.log.Timed

theorem sound_ofConfig (index : Nat) (config : IslandConfig) : (ofConfig index config).Sound where
  layers := Nat.min_le_right ..
  size := by
    rw [← Nat.mul_assoc, Nat.mul_right_comm]
    exact Array.size_replicate
  plots layer x y k h := by
    have := offset_lt h
    rw [← Nat.mul_assoc, Nat.mul_right_comm] at this
    exact Array.getElem?_replicate.trans (if_pos this)
  times := .nil

theorem le_logTime (w : TileWrite) (log : TileLog) (time : UInt64) :
    w.time ≤ logTime (w :: log) time ∧
      (w.time < logTime (w :: log) time ∨ w.time.toNat = UInt64.size - 1) := by
  have hlt : w.time.toNat < UInt64.size := w.time.toNat_lt
  unfold logTime
  dsimp only
  split
  · next h =>
    have hn : (UInt64.ofNat (min (w.time.toNat + 1) (UInt64.size - 1))).toNat =
        min (w.time.toNat + 1) (UInt64.size - 1) := Micros.toNat_ofNat _
    simp only [UInt64.le_iff_toNat_le, UInt64.lt_iff_toNat_lt, hn]
    omega
  · next h =>
    have := UInt64.not_le.mp h
    exact ⟨UInt64.le_of_lt this, Or.inl this⟩

theorem timed_cons_logTime {log : TileLog} (h : log.Timed) {w : TileWrite}
    (hw : w.time = logTime log time) : TileLog.Timed (w :: log) := by
  refine .cons (fun older ho => ?_) h
  rw [hw]
  cases log with
  | nil => cases ho
  | cons newest log =>
    obtain ⟨hle, hlt⟩ := le_logTime newest log time
    rcases List.mem_cons.mp ho with rfl | ho
    · exact hlt
    · exact ((List.pairwise_cons.mp h).1 older ho).imp_left fun h => UInt64.lt_of_lt_of_le h hle

theorem setPlot_eq_ok (h : i.setPlot layer x y plot time = .ok (i', logged)) :
    ∃ k, i.offset? layer x y = some k ∧ logged = logTime i.log time ∧
      i' = { i with
        tiles := i.tiles.setIfInBounds k plot
        log := { layer := UInt8.ofNat layer, x, y, time := logged, plot } :: i.log } := by
  unfold setPlot at h
  split at h
  · cases h
  · next k hk =>
    cases h
    exact ⟨k, hk, rfl, rfl⟩

theorem sound_setPlot (hi : i.Sound) (h : i.setPlot layer x y plot time = .ok (i', logged)) :
    i'.Sound := by
  obtain ⟨k, hk, rfl, rfl⟩ := setPlot_eq_ok h
  refine ⟨hi.layers, ?_, fun layer' x' y' k' h' => ?_, timed_cons_logTime hi.times rfl⟩
  · rw [Array.size_setIfInBounds]
    exact hi.size
  have h' : i.offset? layer' x' y' = some k' := h'
  rw [IslandView.plot_ofLog_cons, Array.getElem?_setIfInBounds]
  by_cases hkk : k = k'
  · subst hkk
    obtain ⟨rfl, rfl, rfl⟩ := offset_injective hk h'
    simp [hi.size, offset_lt hk]
  · rw [if_neg hkk, hi.plots _ _ _ _ h', if_neg]
    rintro ⟨hl, rfl, rfl⟩
    -- Layers are told apart by their bytes, because there are at most 256.
    have hlt := (offset?_eq_some_iff.mp hk).1.1
    have hlt' := (offset?_eq_some_iff.mp h').1.1
    have hm : i.layers ≤ 256 := hi.layers
    have hl := UInt8.toNat_inj.mpr hl
    rw [UInt8.toNat_ofNat', UInt8.toNat_ofNat', Nat.mod_eq_of_lt (by omega),
      Nat.mod_eq_of_lt (by omega)] at hl
    subst hl
    rw [hk] at h'
    exact hkk (Option.some.inj h')

theorem plot?_eq (hi : i.Sound) (h : (i.offset? layer x y).isSome) :
    i.plot? layer x y = some ((IslandView.ofLog i.log).plot (UInt8.ofNat layer) x y) := by
  obtain ⟨k, hk⟩ := Option.isSome_iff_exists.mp h
  rw [← hi.plots layer x y k hk, plot?, hk]
  rfl

end Island

end SharedWorld
