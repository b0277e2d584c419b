import Mathlib.Data.List.Induction
import SharedWorld.Proofs.Tile.Island

/-! # The grid and the log of an island

Whatever is asked of a new island, with any arguments, its grid stays the image of its log:
each tile shows the newest entry that is to it. A request outside the island changes neither,
and one inside is logged with a layer that fits its byte.
-/

namespace SharedWorld

/-- What the newest entry for a tile put there. -/
def TileLog.shown (log : TileLog) (layer : Nat) (x y : UInt32) : Plot :=
  match log.find? fun w => w.layer.toNat = layer ∧ w.x = x ∧ w.y = y with
  | some w => w.plot
  | none => emptyPlot

theorem IslandView.plot_ofLog_eq_shown (log : TileLog) {layer : Nat} (h : layer < UInt8.size)
    (x y : UInt32) : (ofLog log).plot (UInt8.ofNat layer) x y = log.shown layer x y := by
  have hp : (fun w : TileWrite => decide (w.layer = UInt8.ofNat layer ∧ w.x = x ∧ w.y = y)) =
      fun w => decide (w.layer.toNat = layer ∧ w.x = x ∧ w.y = y) := by
    funext w
    rw [decide_eq_decide, ← UInt8.toNat_inj, UInt8.toNat_ofNat_of_lt' h]
  rw [plot, ofLog, hp]
  rfl

def IslandConfig.Has (config : IslandConfig) (layer : Nat) (x y : UInt32) : Prop :=
  layer < min config.layers Island.maxLayers ∧ x < config.width ∧ y < config.height

instance (config : IslandConfig) (layer : Nat) (x y : UInt32) : Decidable (config.Has layer x y) :=
  inferInstanceAs (Decidable (_ ∧ _))

namespace Island

/-- The arguments of a write. -/
structure Request where
  layer : Nat
  x : UInt32
  y : UInt32
  plot : Plot
  time : UInt64

def write (i : Island) (r : Request) : Island :=
  match i.setPlot r.layer r.x r.y r.plot r.time with
  | .ok (i', _) => i'
  | .error _ => i

def layerByte? (layer : Nat) : Option UInt8 :=
  if layer < UInt8.size then some (UInt8.ofNat layer) else none

/-- A write that changes the island as it goes: it checks the bounds and then the byte of the
layer, and changes the tile before it logs that. -/
def writeInPlace (i : Island) (r : Request) : Island × Except WorldError UInt64 :=
  match i.offset? r.layer r.x r.y, layerByte? r.layer with
  | some k, some layer =>
    let time := logTime i.log r.time
    let i := { i with tiles := i.tiles.setIfInBounds k r.plot }
    ({ i with log := { layer, x := r.x, y := r.y, time, plot := r.plot } :: i.log }, .ok time)
  | _, _ => (i, .error (.tileOutOfBounds i.index r.layer r.x r.y))

def wordOffset (i : Island) (layer : Nat) (x y : UInt32) : UInt64 :=
  UInt64.ofNat layer * (i.width.toUInt64 * i.height.toUInt64) + y.toUInt64 * i.width.toUInt64 +
    x.toUInt64

variable {i : Island} {config : IslandConfig} {rs : List Request} {r : Request} {layer k : Nat}
  {x y : UInt32} {plot : Plot} {time : UInt64}

theorem toNat_wordOffset (h : i.offset? layer x y = some k) (hk : k < UInt64.size) :
    (i.wordOffset layer x y).toNat = k := by
  obtain ⟨-, rfl⟩ := offset?_eq_some_iff.mp h
  rw [← UInt64.toNat_ofNat_of_lt' hk]
  simp [wordOffset]

theorem setPlot_of_some (h : i.offset? layer x y = some k) : i.setPlot layer x y plot time =
    .ok ({ i with
      tiles := i.tiles.setIfInBounds k plot
      log := { layer := UInt8.ofNat layer, x, y, time := logTime i.log time, plot } :: i.log },
      logTime i.log time) := by
  rw [setPlot, h]

theorem setPlot_of_none (h : i.offset? layer x y = none) :
    i.setPlot layer x y plot time = .error (.tileOutOfBounds i.index layer x y) := by
  rw [setPlot, h]

/-- With at most 256 layers, the byte of the layer is never what a request fails for. -/
theorem writeInPlace_eq (hl : i.layers ≤ maxLayers) (r : Request) : i.writeInPlace r =
    match i.setPlot r.layer r.x r.y r.plot r.time with
    | .ok (i', time) => (i', .ok time)
    | .error e => (i, .error e) := by
  unfold writeInPlace
  cases hk : i.offset? r.layer r.x r.y with
  | none => rw [setPlot_of_none hk]
  | some k =>
    have hlt : r.layer < UInt8.size := Nat.lt_of_lt_of_le (offset?_eq_some_iff.mp hk).1.1 hl
    rw [setPlot_of_some hk, layerByte?, if_pos hlt]

/-- An island that has come from the configuration by these requests. -/
structure Comes (config : IslandConfig) (rs : List Request) (i : Island) : Prop where
  sound : i.Sound
  layers : i.layers = min config.layers maxLayers
  width : i.width = config.width
  height : i.height = config.height
  /-- The requests for tiles that the island has are logged, and no others. -/
  logged : i.log.map (fun w => (w.layer.toNat, w.x, w.y, w.plot)) =
    ((rs.filter fun r => config.Has r.layer r.x r.y).map fun r =>
      (r.layer, r.x, r.y, r.plot)).reverse

theorem Comes.has_iff (h : Comes config rs i) :
    config.Has layer x y ↔ ∃ k, i.offset? layer x y = some k := by
  simp [offset?, IslandConfig.Has, h.layers, h.width, h.height]

theorem Comes.not_has_iff (h : Comes config rs i) :
    ¬ config.Has layer x y ↔ i.offset? layer x y = none := by
  rw [h.has_iff, ← Option.isSome_iff_exists, Option.not_isSome_iff_eq_none]

theorem Comes.layer_lt (h : Comes config rs i) (hk : i.offset? layer x y = some k) :
    layer < UInt8.size :=
  Nat.lt_of_lt_of_le (offset?_eq_some_iff.mp hk).1.1 h.sound.layers

theorem comes_ofConfig (index : Nat) (config : IslandConfig) :
    Comes config [] (ofConfig index config) :=
  ⟨sound_ofConfig index config, rfl, rfl, rfl, rfl⟩

theorem Comes.write (h : Comes config rs i) (r : Request) : Comes config (rs ++ [r]) (i.write r) := by
  unfold Island.write
  by_cases hr : config.Has r.layer r.x r.y
  · obtain ⟨k, hk⟩ := h.has_iff.mp hr
    rw [setPlot_of_some hk]
    refine ⟨sound_setPlot h.sound (setPlot_of_some hk), h.layers, h.width, h.height, ?_⟩
    rw [List.map_cons, h.logged, UInt8.toNat_ofNat_of_lt' (h.layer_lt hk)]
    simp [hr]
  · rw [setPlot_of_none (h.not_has_iff.mp hr)]
    refine ⟨h.sound, h.layers, h.width, h.height, ?_⟩
    rw [h.logged]
    simp [hr]

theorem comes_of_writes (index : Nat) (config : IslandConfig) (rs : List Request) :
    Comes config rs (rs.foldl Island.write (ofConfig index config)) := by
  induction rs using List.reverseRecOn with
  | nil => exact comes_ofConfig index config
  | append_singleton rs r ih =>
    rw [List.foldl_append]
    exact ih.write r

theorem Comes.plot?_eq (h : Comes config rs i) (hk : i.offset? layer x y = some k) :
    i.plot? layer x y = some (i.log.shown layer x y) := by
  rw [Island.plot?_eq h.sound (Option.isSome_of_eq_some hk),
    IslandView.plot_ofLog_eq_shown _ (h.layer_lt hk)]

/-- The grid and the log say the same, and both say what was asked for. -/
structure Tallies (config : IslandConfig) (rs : List Request) (i : Island) : Prop where
  /-- Each tile has a place in the grid, and words of 64 bits suffice to compute it. -/
  place : ∀ layer x y, config.Has layer x y → ∃ k, i.offset? layer x y = some k ∧
    k < i.tiles.size ∧ (i.wordOffset layer x y).toNat = k
  apart : ∀ layer x y layer' x' y' k, i.offset? layer x y = some k →
    i.offset? layer' x' y' = some k → layer = layer' ∧ x = x' ∧ y = y'
  refused : ∀ r : Request, (∃ e, i.setPlot r.layer r.x r.y r.plot r.time = .error e) ↔
    min config.layers 256 ≤ r.layer ∨ config.width ≤ r.x ∨ config.height ≤ r.y
  /-- A write that goes step by step, and one that is refused changes nothing. -/
  inPlace : ∀ r : Request, i.writeInPlace r =
    match i.setPlot r.layer r.x r.y r.plot r.time with
    | .ok (i', time) => (i', .ok time)
    | .error e => (i, .error e)
  /-- The requests for tiles that the island has are logged, newest first, and no others. -/
  logged : i.log.map (fun w => (w.layer.toNat, w.x, w.y, w.plot)) =
    ((rs.filter fun r => config.Has r.layer r.x r.y).map fun r =>
      (r.layer, r.x, r.y, r.plot)).reverse
  shown : ∀ layer x y, i.plot? layer x y =
    if config.Has layer x y then some (i.log.shown layer x y) else none

/-- A grid that a word can measure is the image of the log, whatever has been asked for. -/
theorem tallies_of_writes (index : Nat) (config : IslandConfig) (rs : List Request)
    (hsize : min config.layers 256 * config.width.toNat * config.height.toNat < UInt64.size) :
    Tallies config rs (rs.foldl write (ofConfig index config)) := by
  have h := comes_of_writes index config rs
  generalize rs.foldl write (ofConfig index config) = i at h
  have hw : i.tiles.size < UInt64.size := by
    rwa [h.sound.size, h.layers, h.width, h.height, Nat.mul_comm config.height.toNat,
      ← Nat.mul_assoc]
  refine ⟨fun layer x y hh => ?_, fun _ _ _ _ _ _ _ => offset_injective, fun r => ?_,
    writeInPlace_eq h.sound.layers, h.logged, fun layer x y => ?_⟩
  · obtain ⟨k, hk⟩ := h.has_iff.mp hh
    have hlt : k < i.tiles.size := by
      rw [h.sound.size]
      exact offset_lt hk
    exact ⟨k, hk, hlt, toNat_wordOffset hk (Nat.lt_trans hlt hw)⟩
  · have hn : ¬ config.Has r.layer r.x r.y ↔
        min config.layers 256 ≤ r.layer ∨ config.width ≤ r.x ∨ config.height ≤ r.y := by
      simp only [IslandConfig.Has, maxLayers, not_and_or, Nat.not_lt, UInt32.not_lt]
    rw [← hn, h.not_has_iff]
    constructor
    · rintro ⟨e, he⟩
      cases hk : i.offset? r.layer r.x r.y with
      | none => rfl
      | some k =>
        rw [setPlot_of_some hk] at he
        cases he
    · exact fun hk => ⟨_, setPlot_of_none hk⟩
  · split
    · next hh =>
      obtain ⟨k, hk⟩ := h.has_iff.mp hh
      exact h.plot?_eq hk
    · next hh =>
      rw [plot?, h.not_has_iff.mp hh]
      rfl

theorem tallies_of_writes_capped :
    let config : IslandConfig := ⟨300, 1, 1⟩
    let rs : List Request := [⟨255, 0, 0, 7, 10⟩, ⟨256, 0, 0, 8, 11⟩, ⟨255, 0, 0, 9, 3⟩]
    min config.layers 256 * config.width.toNat * config.height.toNat < UInt64.size ∧
      Tallies config rs (rs.foldl write (ofConfig 0 config)) ∧
      (rs.foldl write (ofConfig 0 config)).plot? 255 0 0 = some 9 ∧
      (rs.foldl write (ofConfig 0 config)).plot? 256 0 0 = none := by
  intro config rs
  exact ⟨by decide, tallies_of_writes 0 config rs (by decide), by decide +kernel, by decide +kernel⟩

end Island

end SharedWorld
