import SharedWorld.Proofs.Tile.Codec
import SharedWorld.Proofs.Tile.Island

/-! # Replaying change logs

A log grows at its head. A view that has taken in a log takes from a grown one exactly
what is new, because the entries after these are not newer than what it knows.
-/

namespace SharedWorld

namespace TileLog

/-- Logs of the same islands, each grown at its head. -/
structure Grow (old new : List TileLog) : Prop where
  length : old.length = new.length
  suffix : ∀ (i : Nat) (log log' : TileLog), old[i]? = some log → new[i]? = some log' → log <:+ log'

theorem Grow.refl (logs : List TileLog) : Grow logs logs :=
  ⟨rfl, fun i log log' h h' => by rw [h] at h'; cases h'; exact List.suffix_refl log⟩

theorem Grow.trans {a b c : List TileLog} (hab : Grow a b) (hbc : Grow b c) : Grow a c := by
  refine ⟨hab.length.trans hbc.length, fun i log log' h h' => ?_⟩
  have hi : i < b.length := hab.length ▸ (List.getElem?_eq_some_iff.mp h).1
  have hb := List.getElem?_eq_getElem hi
  exact (hab.suffix i log b[i] h hb).trans (hbc.suffix i b[i] log' hb h')

theorem grow_replicate (logs : List TileLog) : Grow (List.replicate logs.length []) logs := by
  refine ⟨List.length_replicate, fun i log log' h _ => ?_⟩
  rw [(List.mem_replicate.mp (List.mem_of_getElem? h)).2]
  exact List.nil_suffix

end TileLog

namespace IslandView

variable {newer older log log' : TileLog}

theorem fresh_ofLog (h : (newer ++ older).Pairwise fun a b => b.time < a.time) :
    (ofLog older).fresh (newer ++ older) = newer := by
  have ha := (List.pairwise_append.mp h).2.2
  have hn : ∀ w ∈ newer, (ofLog older).isFresh w := by
    intro w hw
    cases older with
    | nil => rfl
    | cons known older => exact decide_eq_true (ha w hw known List.mem_cons_self)
  rw [fresh, List.takeWhile_append_of_pos hn]
  cases older with
  | nil => exact List.append_nil newer
  | cons known older =>
    -- The newest entry known is not newer than itself.
    have : (ofLog (known :: older)).isFresh known = false :=
      decide_eq_false (UInt64.lt_irrefl known.time)
    rw [List.takeWhile_cons_of_neg (by rw [this]; exact Bool.false_ne_true), List.append_nil]

theorem replay_ofLog (h : log'.Pairwise fun a b => b.time < a.time) (hs : log <:+ log') :
    (ofLog log).replay log' = ofLog log' := by
  obtain ⟨newer, rfl⟩ := hs
  rw [replay, fresh_ofLog h]
  cases newer with
  | nil => rfl
  | cons newest newer => rfl

end IslandView

namespace TileView

variable {v : TileView} {logs logs' : List TileLog}

def ofLogs (logs : List TileLog) : TileView := ⟨logs.map IslandView.ofLog⟩

theorem grown_ofLogs (h : logs.length = logs'.length) :
    (ofLogs logs).grown logs'.length = logs.map IslandView.ofLog := by
  simp [grown, ofLogs, h]

theorem grown_nil (n : Nat) : grown {} n = (List.replicate n []).map IslandView.ofLog := by
  rw [List.map_replicate]
  rfl

theorem map_replay (hg : TileLog.Grow logs logs')
    (ht : ∀ log ∈ logs', log.Pairwise fun a b => b.time < a.time) :
    ((logs.map IslandView.ofLog).zip logs').map (fun (i, log) => i.replay log) =
      logs'.map IslandView.ofLog := by
  refine List.ext_getElem (by simp [hg.length]) fun i h h' => ?_
  rw [List.length_map] at h'
  have hi : i < logs.length := hg.length ▸ h'
  have hs := hg.suffix i _ _ (List.getElem?_eq_getElem hi) (List.getElem?_eq_getElem h')
  simp [IslandView.replay_ofLog (ht _ (List.getElem_mem h')) hs]

/-- A view with the knowledge of older logs is brought up to date by newer ones. -/
theorem apply_writeAll (hv : v.grown logs'.length = logs.map IslandView.ofLog)
    (hg : TileLog.Grow logs logs') (ht : ∀ log ∈ logs', log.Pairwise fun a b => b.time < a.time)
    (hc : logs'.length < UInt32.size) (hl : ∀ log ∈ logs', log.length < UInt32.size) :
    ∃ n, v.apply (TileLog.writeAll logs') = .ok (ofLogs logs', n) := by
  unfold apply
  rw [TileLog.readAll_writeAll hc hl]
  dsimp only
  rw [hv, map_replay hg ht, List.drop_of_length_le (by simp [hg.length]), List.append_nil]
  exact ⟨_, rfl⟩

end TileView

end SharedWorld
