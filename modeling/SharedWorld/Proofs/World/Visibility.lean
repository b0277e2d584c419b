import SharedWorld.Proofs.Tile.Catchup
import SharedWorld.Proofs.World.Islands
import SharedWorld.Proofs.World.Broadcasts

/-! # Seeing a write

A view that has been given the change logs of a world takes exactly one entry from them
after a further write, as long as the largest time has not been logged on that island. From
then on the log repeats the largest time, and no view takes any further write to the island.
-/

namespace SharedWorld

namespace World

variable {ms : List (Moment World Event)} {w w' : World} {n layer : Nat} {x y : UInt32}
  {plot : Plot} {time logged : UInt64}

def entryOf (layer : Nat) (x y : UInt32) (plot : Plot) (logged : UInt64) : TileWrite :=
  { layer := UInt8.ofNat layer, x, y, time := logged, plot }

theorem logs_write {i i' : Island} (h : i.setPlot layer x y plot time = .ok (i', logged)) :
    logged = Island.logTime i.log time ∧
      { w with islands := w.islands.set n i' }.logs =
        w.logs.set n (entryOf layer x y plot logged :: i.log) := by
  obtain ⟨k, -, ht, rfl⟩ := Island.setPlot_eq_ok h
  exact ⟨ht, List.map_set⟩

theorem ordered_change (ho : ∀ log ∈ w.logs, log.Ordered) (h : w.Change w') :
    ∀ log ∈ w'.logs, log.Ordered := by
  cases h with
  | write hi h =>
    obtain ⟨ht, hlogs⟩ := logs_write h
    intro log hlog
    rw [hlogs] at hlog
    rcases List.mem_or_eq_of_mem_set hlog with hlog | rfl
    · exact ho log hlog
    · exact TileLog.ordered_cons_logTime (ho _ (List.mem_map_of_mem (List.mem_of_getElem? hi))) ht
  | _ => exact ho

theorem ordered_of_freely (h : freely.Run ms w) : ∀ log ∈ w.logs, log.Ordered := by
  apply h.invariant (I := fun w => ∀ log ∈ w.logs, log.Ordered)
  · rintro _ ⟨config, sync, ids, rfl⟩ log hlog
    obtain ⟨i, hi, rfl⟩ := List.mem_map.mp hlog
    obtain ⟨n, hn, rfl⟩ := List.mem_mapIdx.mp hi
    exact .nil
  · exact fun w e ho => ordered_change ho (change_step w e)

/-- The worlds of a run, from its start to where it has come. -/
def Passed (ms : List (Moment World Event)) (w u : World) : Prop := u = w ∨ ∃ m ∈ ms, m.state = u

theorem grow_of_passed (h : freely.Run ms w) {u : World} (hu : Passed ms w u) :
    TileLog.Grow u.logs w.logs := by
  rcases hu with rfl | ⟨m, hm, rfl⟩
  · exact .refl _
  · exact h.related (R := fun s s' => TileLog.Grow s.logs s'.logs) .trans grow_step hm

/-- A view is given the change logs of any worlds of a run, in any order, those of the last
among them. The next write to an island shows as one new entry, with a time after all others,
unless the island has logged the largest time: then the write shows to no such view. -/
theorem write_seen (h : freely.Run ms w) {us : List World} (hus : ∀ u ∈ us, Passed ms w u)
    (hw : w ∈ us) (hset : w.setPlot n layer x y plot time = .ok (w', logged))
    (hc : TileLog.Counted w'.logs) :
    ∃ i v iv, w.islands[n]? = some i ∧ TileView.feed {} (us.map tileData) = .ok v ∧
      v.island? n = some iv ∧
      (i.log.Bounded → (∀ older ∈ i.log, older.time < logged) ∧
        v.apply w'.tileData =
          .ok (⟨v.islands.set n (iv.record (entryOf layer x y plot logged))⟩, 1)) ∧
      (¬ i.log.Bounded → logged.toNat = UInt64.size - 1 ∧ v.apply w'.tileData = .ok (v, 0)) := by
  obtain ⟨i, i', hi, hplot, rfl⟩ := setPlot_eq_ok hset
  obtain ⟨ht, hlogs⟩ := logs_write (w := w) (n := n) hplot
  have ho := ordered_of_freely h
  have hc' : TileLog.Counted w.logs := hc.of_grow (grow_write hi hplot)
  have hlots : ∀ lot ∈ us.map logs, TileLog.Stages lot w.logs ∧ TileLog.Counted lot := by
    intro lot hlot
    obtain ⟨u, hu, rfl⟩ := List.mem_map.mp hlot
    have hg := grow_of_passed h (hus u hu)
    exact ⟨hg.stages ho, hc'.of_grow hg⟩
  obtain ⟨v, hv, ha⟩ := (TileView.behind_nil w.logs).feed hlots (List.mem_map_of_mem hw)
  have hs : TileLog.Stages w.logs w.logs := (TileLog.Grow.refl _).stages ho
  have hlog : w.logs[n]? = some i.log := by simp [logs, hi]
  have hoi := ho _ (List.mem_of_getElem? hlog)
  obtain ⟨iv, hiv, hai⟩ := ha.island hlog
  rw [hlogs] at hc
  have happly := ha.apply_set hs hlog hiv hc
  refine ⟨i, v, iv, hi, by rw [← hv, List.map_map]; rfl, hiv, fun hb => ?_, fun hb => ?_⟩
  · have hlt := hoi.lt_logTime hb time
    rw [← ht] at hlt
    rw [hai.fresh_newer hlt, hai.replay_newer hlt, ← hlogs] at happly
    exact ⟨hlt, happly⟩
  · obtain ⟨newest, hn, he, hmax⟩ := hoi.logTime_repeats hb time
    rw [← ht] at he hmax
    have hf := hai.fresh_repeated (w := entryOf layer x y plot logged) hn he
    have hself : v.islands.set n iv = v.islands := by
      obtain ⟨hn, rfl⟩ := List.getElem?_eq_some_iff.mp hiv
      exact List.set_getElem_self hn
    rw [hf, IslandView.replay_eq_self hf, hself, ← hlogs] at happly
    exact ⟨hmax, happly⟩

def garden : List (Moment World Event) × World :=
  freely.play [] (World.create { islands := [⟨2, 2, 2⟩] } {} {}).1 [
    .setPlot 0 0 1 1 7 10,
    .setPlot 0 1 0 1 9 5]

theorem run_garden : freely.Run garden.1 garden.2 :=
  .play (.start ⟨_, _, _, rfl⟩) ⟨trivial, trivial, trivial⟩

theorem write_seen_garden :
    ∃ w' v iv, garden.2.setPlot 0 0 0 0 8 3 = .ok (w', 12) ∧
      TileView.feed {} ([garden.2, (World.create { islands := [⟨2, 2, 2⟩] } {} {}).1,
        garden.2].map tileData) = .ok v ∧ v.island? 0 = some iv ∧
      v.apply w'.tileData = .ok (⟨v.islands.set 0 (iv.record (entryOf 0 0 0 8 12))⟩, 1) := by
  have hus : ∀ u ∈ [garden.2, (World.create { islands := [⟨2, 2, 2⟩] } {} {}).1, garden.2],
      Passed garden.1 garden.2 u := by
    intro u hu
    simp only [List.mem_cons, List.not_mem_nil, or_false] at hu
    rcases hu with rfl | rfl | rfl
    · exact Or.inl rfl
    · exact Or.inr ⟨_, List.mem_cons_of_mem _ List.mem_cons_self, rfl⟩
    · exact Or.inl rfl
  obtain ⟨w', hset, hc⟩ : ∃ w', garden.2.setPlot 0 0 0 0 8 3 = .ok (w', 12) ∧
      TileLog.Counted w'.logs := ⟨_, rfl, by decide +kernel, by decide +kernel⟩
  have hb : ∀ i ∈ garden.2.islands[0]?, i.log.Bounded := by
    unfold TileLog.Bounded
    decide +kernel
  obtain ⟨i, v, iv, hi, hv, hiv, hseen, -⟩ :=
    write_seen run_garden hus List.mem_cons_self hset hc
  exact ⟨w', v, iv, hset, hv, hiv, (hseen (hb i hi)).2⟩

/-- An island that has been written at the largest time. -/
def lateGarden : List (Moment World Event) × World :=
  freely.play [] (World.create { islands := [⟨1, 1, 1⟩] } {} {}).1 [
    .setPlot 0 0 0 0 7 18446744073709551615]

/-- The next write logs the same time again, and a view that has all of the log before it
takes nothing: it keeps showing 7 where the island has 8. -/
theorem write_unseen : ∃ w' v, freely.Run lateGarden.1 lateGarden.2 ∧
    lateGarden.2.setPlot 0 0 0 0 8 0 = .ok (w', 18446744073709551615) ∧
    (∃ i ∈ lateGarden.2.islands, ∃ older ∈ i.log, older.time = 18446744073709551615) ∧
    TileView.feed {} [lateGarden.2.tileData] = .ok v ∧ v.apply w'.tileData = .ok (v, 0) ∧
    (v.island? 0).map (·.plot 0 0 0) = some 7 ∧
    w'.islands[0]?.bind (·.plot? 0 0 0) = some 8 := by
  refine ⟨_, ⟨[.ofLog [entryOf 0 0 0 7 18446744073709551615]]⟩,
    .play (.start ⟨_, _, _, rfl⟩) ⟨trivial, trivial⟩, rfl, ?_, ?_, ?_, ?_, ?_⟩
  all_goals decide +kernel

end World

end SharedWorld
