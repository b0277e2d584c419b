import Mathlib.Data.List.TakeWhile
import SharedWorld.Proofs.Tile.Catchup

/-! # What a view takes from a log

A log may come from anywhere, with its times in any order and any of them repeated. A view
takes the longest front that is newer than what it knows, writes it oldest first, and takes
nothing when the same log comes again. It passes over nothing newer if the times descend.
-/

namespace SharedWorld

namespace TileWrite

def On (w : TileWrite) (layer : UInt8) (x y : UInt32) : Prop := w.layer = layer ∧ w.x = x ∧ w.y = y

instance (w : TileWrite) (layer : UInt8) (x y : UInt32) : Decidable (w.On layer x y) :=
  inferInstanceAs (Decidable (_ ∧ _))

end TileWrite

namespace IslandView

variable {v : IslandView} {k j : Option UInt64} {log newer older : TileLog} {w : TileWrite}
  {layer : UInt8} {x y : UInt32}

def put (v : IslandView) (w : TileWrite) : IslandView := { v with writes := w :: v.writes }

/-- A replay that changes the view as it goes: it counts what to take, writes that oldest first,
and remembers the time at the head of the log. Returns what it wrote, in this order. -/
def replayInPlace (v : IslandView) (log : TileLog) : IslandView × List TileWrite :=
  let count := (log.takeWhile v.isFresh).length
  let applied := (log.take count).reverse
  let v := applied.foldl put v
  match log.head? with
  | some newest => (if 0 < count then { v with lastKnown := some newest.time } else v, applied)
  | none => (v, applied)

theorem foldl_put (v : IslandView) (log : TileLog) :
    log.reverse.foldl put v = { v with writes := log ++ v.writes } := by
  rw [List.foldl_reverse]
  induction log with
  | nil => rfl
  | cons w log ih => rw [List.foldr_cons, ih, put, List.cons_append]

theorem replayInPlace_eq (v : IslandView) (log : TileLog) :
    v.replayInPlace log = (v.replay log, (v.fresh log).reverse) := by
  have ht : log.take (v.fresh log).length = v.fresh log :=
    (List.prefix_iff_eq_take.mp (List.takeWhile_prefix _)).symm
  unfold replayInPlace
  dsimp only
  rw [← fresh, ht, foldl_put]
  cases log with
  | nil => rfl
  | cons newest older =>
    by_cases h : v.isFresh newest
    · simp [replay, fresh, List.takeWhile_cons_of_pos h]
    · simp [replay, fresh, List.takeWhile_cons_of_neg h]

theorem plot_of_none (h : ∀ w' ∈ newer, ¬ w'.On layer x y) :
    plot ⟨k, newer ++ older⟩ layer x y = plot ⟨j, older⟩ layer x y := by
  have hn : newer.find? (fun w' => w'.layer = layer ∧ w'.x = x ∧ w'.y = y) = none :=
    List.find?_eq_none.mpr fun w' hw' hd => h w' hw' (of_decide_eq_true hd)
  simp only [plot, List.find?_append]
  rw [hn, Option.none_or]

theorem plot_of_first (h : ∀ w' ∈ newer, ¬ w'.On w.layer w.x w.y) :
    plot ⟨k, newer ++ w :: older⟩ w.layer w.x w.y = w.plot := by
  rw [plot_of_none (j := k) h]
  simp [plot]

theorem lastKnown_replay (v : IslandView) (log : TileLog) :
    (v.replay log).lastKnown = ((v.fresh log).head?.map (·.time)).or v.lastKnown := by
  unfold replay
  split <;> next h => simp [h]

theorem writes_replay (v : IslandView) (log : TileLog) :
    (v.replay log).writes = v.fresh log ++ v.writes := by
  unfold replay
  split <;> next h => simp [h]

theorem plot_replay (v : IslandView) (log : TileLog) (layer : UInt8) (x y : UInt32) :
    (v.replay log).plot layer x y = plot ⟨v.lastKnown, v.fresh log ++ v.writes⟩ layer x y := by
  simp only [plot, writes_replay]

theorem isFresh_of_mem (h : w ∈ v.fresh log) : v.isFresh w :=
  List.mem_takeWhile_imp h

theorem prefix_fresh {front : TileLog} (hp : front <+: log) (h : ∀ w ∈ front, v.isFresh w) :
    front <+: v.fresh log := by
  obtain ⟨rest, rfl⟩ := hp
  rw [fresh, List.takeWhile_append_of_pos h]
  exact List.prefix_append ..

theorem fresh_replay (v : IslandView) (log : TileLog) : (v.replay log).fresh log = [] := by
  apply fresh_eq_nil
  obtain ha | ⟨he, hf⟩ := abreast_replay_or v log
  · -- The head of a log is not newer than itself.
    intro newest hn hfresh
    have := isFresh_iff.mp hfresh newest.time (by rw [ha, hn]; rfl)
    exact UInt64.lt_irrefl _ this
  · rwa [he]

theorem le_lastKnown_replay {known : UInt64} (h : known ∈ v.lastKnown) :
    ∃ known' ∈ (v.replay log).lastKnown, known ≤ known' := by
  rw [lastKnown_replay]
  cases hf : v.fresh log with
  | nil => exact ⟨known, h, UInt64.le_refl known⟩
  | cons newest older =>
    have hn : v.isFresh newest := isFresh_of_mem (hf ▸ List.mem_cons_self)
    exact ⟨newest.time, rfl, UInt64.le_of_lt (isFresh_iff.mp hn known h)⟩

theorem fresh_eq_filter (h : log.Pairwise fun newer older => older.time < newer.time) :
    v.fresh log = log.filter v.isFresh := by
  induction h with
  | nil => rfl
  | @cons newest older hn _ ih =>
    rw [fresh] at ih
    by_cases hf : v.isFresh newest
    · rw [fresh, List.takeWhile_cons_of_pos hf, List.filter_cons_of_pos hf, ih]
    · rw [fresh, List.takeWhile_cons_of_neg hf, List.filter_cons_of_neg hf, eq_comm,
        List.filter_eq_nil_iff]
      intro w hw hw'
      apply hf
      rw [isFresh_iff] at hw' ⊢
      exact fun known hk => UInt64.lt_trans (hw' known hk) (hn w hw)

/-- What a view takes from a log, and what it is then. -/
structure Replays (v : IslandView) (log taken : TileLog) (v' : IslandView) : Prop where
  front : taken <+: log
  newer : ∀ w ∈ taken, ∀ known ∈ v.lastKnown, known < w.time
  longest : ∀ front, front <+: log → (∀ w ∈ front, ∀ known ∈ v.lastKnown, known < w.time) →
    front <+: taken
  whole : v.lastKnown = none → taken = log
  /-- Where several entries are to one tile, the earliest of the log stays. -/
  touched : ∀ newer w older, taken = newer ++ w :: older →
    (∀ w' ∈ newer, ¬ w'.On w.layer w.x w.y) → v'.plot w.layer w.x w.y = w.plot
  untouched : ∀ layer x y, (∀ w ∈ taken, ¬ w.On layer x y) →
    v'.plot layer x y = v.plot layer x y
  lastKnown : v'.lastKnown = (taken.head?.map (·.time)).or v.lastKnown
  grows : ∀ known ∈ v.lastKnown, ∃ known' ∈ v'.lastKnown, known ≤ known'
  again : v'.replay log = v' ∧ v'.replayInPlace log = (v', [])
  descending : (log.Pairwise fun newer older => older.time < newer.time) →
    taken = log.filter fun w => v.lastKnown.all (· < w.time)

/-- A replay of any log on any view, written oldest first. -/
theorem replays_of_log (v : IslandView) (log : TileLog) :
    ∃ taken, v.replayInPlace log = (v.replay log, taken.reverse) ∧
      v.Replays log taken (v.replay log) := by
  refine ⟨v.fresh log, replayInPlace_eq v log, ?_⟩
  constructor
  case front => exact List.takeWhile_prefix _
  case newer => exact fun w hw => isFresh_iff.mp (isFresh_of_mem hw)
  case longest => exact fun front hp hf => prefix_fresh hp fun w hw => isFresh_iff.mpr (hf w hw)
  case whole =>
    intro hk
    rw [fresh, List.takeWhile_eq_self_iff]
    exact fun w _ => isFresh_iff.mpr (by simp [hk])
  case touched =>
    intro newer w older ht hn
    rw [plot_replay, ht, List.append_assoc]
    exact plot_of_first hn
  case untouched =>
    intro layer x y hn
    rw [plot_replay]
    exact plot_of_none hn
  case lastKnown => exact lastKnown_replay v log
  case grows => exact fun known hk => le_lastKnown_replay hk
  case again =>
    have hf := fresh_replay v log
    have hs := replay_eq_self hf
    refine ⟨hs, ?_⟩
    rw [replayInPlace_eq, hs, hf, List.reverse_nil]
  case descending => exact fresh_eq_filter

/-- A view that knows the time 5 is given a log whose times go up and down and repeat. -/
example :
    let v : IslandView := { lastKnown := some 5 }
    let log : TileLog := [⟨0, 1, 1, 6, 10⟩, ⟨0, 1, 1, 9, 20⟩, ⟨0, 2, 1, 6, 30⟩, ⟨0, 3, 1, 5, 40⟩,
      ⟨0, 3, 1, 8, 50⟩]
    let v' := v.replay log
    v'.lastKnown = some 6 ∧ v'.plot 0 1 1 = 10 ∧ v'.plot 0 2 1 = 30 ∧ v'.plot 0 3 1 = emptyPlot := by
  decide

end IslandView

end SharedWorld
