import SharedWorld.Proofs.Tile.Replay
import SharedWorld.Proofs.World.Characters

/-! # The islands of a world

Only a write to a tile changes the islands, and it puts one entry at the head of one
log. So the logs of a run grow, and every grid stays what its log says.
-/

namespace SharedWorld

namespace World

variable {w w' : World} {ms : List (Moment World Event)}

def logs (w : World) : List TileLog := w.islands.map (·.log)

theorem grow_write {n layer : Nat} {x y : UInt32} {plot : Plot} {time logged : UInt64}
    {i i' : Island} (hi : w.islands[n]? = some i)
    (h : i.setPlot layer x y plot time = .ok (i', logged)) :
    TileLog.Grow w.logs { w with islands := w.islands.set n i' }.logs := by
  obtain ⟨k, -, -, rfl⟩ := Island.setPlot_eq_ok h
  refine ⟨by simp [logs], fun j log log' hj hj' => ?_⟩
  obtain ⟨a, ha, rfl⟩ := Option.map_eq_some_iff.mp (List.getElem?_map ▸ hj)
  obtain ⟨b, hb, rfl⟩ := Option.map_eq_some_iff.mp (List.getElem?_map ▸ hj')
  by_cases hjn : n = j
  · subst hjn
    rw [hi] at ha
    cases ha
    rw [List.getElem?_set_self (List.getElem?_eq_some_iff.mp hi).1] at hb
    cases hb
    exact List.suffix_cons _ _
  · rw [List.getElem?_set_ne hjn, ha] at hb
    cases hb
    exact List.suffix_refl _

theorem grow_change (h : w.Change w') : TileLog.Grow w.logs w'.logs := by
  cases h with
  | write hi h => exact grow_write hi h
  | _ => exact .refl _

theorem grow_step (w : World) (e : Event) : TileLog.Grow w.logs (w.step e).1.logs :=
  grow_change (change_step w e)

theorem grow_of_mem (h : system.Run ms w) {m : Moment World Event} (hm : m ∈ ms) :
    TileLog.Grow m.state.logs w.logs :=
  h.related (R := fun s s' => TileLog.Grow s.logs s'.logs) .trans grow_step hm

theorem grow_of_ticks (h : system.Run ms w) {m m' : Moment World Event} (hm : m ∈ ms)
    (hm' : m' ∈ ms) {clock clock' : Clock} (hc : m.event = .tick clock)
    (hc' : m'.event = .tick clock') (hlt : clock.total < clock'.total) :
    TileLog.Grow m.state.logs m'.state.logs := by
  have hg := h.pairwise_related (R := fun s s' => TileLog.Grow s.logs s'.logs) .trans grow_step
  obtain ⟨j, hj, rfl⟩ := List.getElem_of_mem hm
  obtain ⟨i, hi, rfl⟩ := List.getElem_of_mem hm'
  have hij := later_of_total_lt h (List.getElem?_eq_getElem hj) (List.getElem?_eq_getElem hi)
    hc hc' hlt
  exact List.pairwise_iff_getElem.mp hg i j hi hj hij

def Charted (w : World) : Prop := ∀ i ∈ w.islands, i.Sound

theorem charted_of_starts (h : system.Starts w) : w.Charted := by
  obtain ⟨config, sync, ids, rfl⟩ := h
  intro i hi
  obtain ⟨n, hn, rfl⟩ := List.mem_mapIdx.mp hi
  exact Island.sound_ofConfig n _

theorem Charted.change (h : w.Charted) (hc : w.Change w') : w'.Charted := by
  cases hc with
  | write hi hs =>
    intro j hj
    rcases List.mem_or_eq_of_mem_set hj with hj | rfl
    · exact h j hj
    · exact Island.sound_setPlot (h _ (List.mem_of_getElem? hi)) hs
  | _ => exact h

theorem charted_of_mem (h : system.Run ms w) {m : Moment World Event} (hm : m ∈ ms) :
    m.state.Charted :=
  h.invariant_of_mem (fun _ => charted_of_starts) (fun w e h => h.change (change_step w e)) hm

end World

end SharedWorld
