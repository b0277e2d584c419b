import SharedWorld.Proofs.View.Replication
import SharedWorld.Proofs.World.Islands

/-! # Replicated tiles

A view that is fed any of the packets of a world, in any order and any number of times,
has the tiles that the world had at the newest broadcast among them. An older broadcast
is stale, and a newer one carries logs that have grown from those already taken in.
-/

namespace SharedWorld

namespace World

variable {w w' : World} {ms : List (Moment World Event)} {m : Moment World Event}
  {u : EntityUpdate}

/-- Times of writes stay below the largest one, and counts fit into 32 bits. -/
structure Bounded (w : World) : Prop where
  islands : w.logs.length < UInt32.size
  entries : ∀ log ∈ w.logs, log.length < UInt32.size
  times : ∀ log ∈ w.logs, log.Bounded

theorem Bounded.of_grow (h : w'.Bounded) (hg : TileLog.Grow w.logs w'.logs) : w.Bounded := by
  have grown : ∀ log ∈ w.logs, ∃ log' ∈ w'.logs, log <:+ log' := by
    intro log hl
    obtain ⟨i, hi, rfl⟩ := List.getElem_of_mem hl
    have hi' : i < w'.logs.length := hg.length ▸ hi
    exact ⟨_, List.getElem_mem hi', hg.suffix i _ _ (List.getElem?_eq_getElem hi)
      (List.getElem?_eq_getElem hi')⟩
  refine ⟨hg.length ▸ h.islands, fun log hl => ?_, fun log hl e he => ?_⟩
  · obtain ⟨log', hl', hs⟩ := grown log hl
    exact Nat.lt_of_le_of_lt hs.length_le (h.entries log' hl')
  · obtain ⟨log', hl', hs⟩ := grown log hl
    exact h.times log' hl' e (hs.subset he)

/-- At this moment the world sends out its tiles with this update. -/
def Broadcasts (m : Moment World Event) (u : EntityUpdate) : Prop :=
  u.type = .world ∧ ∃ e ∈ system.sent m, e.packet = .entityUpdate u

theorem tick_of_broadcasts (h : system.Run ms w) (hm : m ∈ ms) (hb : Broadcasts m u) :
    ∃ clock, m.event = .tick clock ∧ u = m.state.tileUpdate clock.total := by
  obtain ⟨ht, e, he, hu⟩ := hb
  obtain ⟨clock, hc, ⟨-, rfl⟩ | ⟨k, c, hk, -, rfl⟩⟩ := update_of_mem_sent he hu
  · exact ⟨clock, hc, rfl⟩
  · have hk := (keyed_of_mem h hm k c hk).2
    exact absurd (ht.symm.trans hk) nofun

end World

namespace WorldView

def Event.tiles? : Event → Option EntityUpdate
  | .packet (.entityUpdate u) => if u.type = .world then some u else none
  | _ => none

variable {ms : List (Moment World World.Event)} {w : World} {v v' : WorldView}
  {u : EntityUpdate} {us : List EntityUpdate} {e : Event} {es : List Event}

theorem Event.tiles?_eq_some_iff :
    e.tiles? = some u ↔ e = .packet (.entityUpdate u) ∧ u.type = .world := by
  constructor
  · intro h
    unfold tiles? at h
    split at h
    · split at h <;> cases h
      exact ⟨rfl, by assumption⟩
    · cases h
  · rintro ⟨rfl, h⟩
    exact if_pos h

theorem tiles_of_takes {p : Packet} (h : v.Takes p v') (hp : Event.tiles? (.packet p) = none) :
    v'.name = v.name ∧ v'.tiles = v.tiles ∧ v'.lastWorldUpdate = v.lastWorldUpdate := by
  cases h with
  | tiles _ ht =>
    rw [Event.tiles?_eq_some_iff.mpr ⟨rfl, ht⟩] at hp
    cases hp
  | _ => exact ⟨rfl, rfl, rfl⟩

theorem tiles_kept (h : e.tiles? = none) (hv : v.step e = some v') :
    v'.name = v.name ∧ v'.tiles = v.tiles ∧ v'.lastWorldUpdate = v.lastWorldUpdate := by
  cases e with
  | frame millis =>
    change v.tick millis = some v' at hv
    unfold tick at hv
    split at hv <;> cases hv
    exact ⟨rfl, rfl, rfl⟩
  | packet p =>
    cases hv
    exact tiles_of_takes (v.takes_receive p) h

theorem receive_stale (hw : u.world = v.name) (ht : u.type = .world)
    (hs : u.time ≤ v.lastWorldUpdate) : v.receive (.entityUpdate u) = v := by
  simp only [receive, handle, applyUpdate, hw, ht, hs, ne_eq, not_true_eq_false, if_false, if_true]
  rfl

theorem receive_newer {tiles : TileView} {n : Nat} (hw : u.world = v.name)
    (ht : u.type = .world) (hs : v.lastWorldUpdate < u.time)
    (ha : v.tiles.apply u.data = .ok (tiles, n)) :
    v.receive (.entityUpdate u) = { v with tiles, lastWorldUpdate := u.time } := by
  simp only [receive, handle, applyUpdate, hw, ht, UInt64.not_le.mpr hs, ha, ne_eq,
    not_true_eq_false, if_false]
  rfl

/-- After these updates the tiles are those of the newest one. -/
structure Follows (ms : List (Moment World World.Event)) (w : World) (us : List EntityUpdate)
    (v : WorldView) : Prop where
  name : v.name = w.name
  newest : ∀ u ∈ us, u.time ≤ v.lastWorldUpdate
  tiles : v.lastWorldUpdate = 0 ∧ v.tiles = {} ∨
    ∃ u ∈ us, ∃ m ∈ ms, World.Broadcasts m u ∧ v.lastWorldUpdate = u.time ∧
      v.tiles = .ofLogs m.state.logs

theorem apply_of_follows (h : World.system.Run ms w) (hw : w.Bounded) (hv : v.Follows ms w us)
    {m : Moment World World.Event} (hm : m ∈ ms) (hu : World.Broadcasts m u)
    (hs : v.lastWorldUpdate < u.time) :
    ∃ n, v.tiles.apply u.data = .ok (.ofLogs m.state.logs, n) := by
  obtain ⟨clock, hc, rfl⟩ := World.tick_of_broadcasts h hm hu
  obtain ⟨hi, hl, ht⟩ := hw.of_grow (World.grow_of_mem h hm)
  have hd : ∀ log ∈ m.state.logs, log.Pairwise fun a b => b.time < a.time := by
    intro log hlog
    obtain ⟨i, hi, rfl⟩ := List.mem_map.mp hlog
    exact (World.charted_of_mem h hm i hi).times.descending (ht _ hlog)
  obtain ⟨-, hn⟩ | ⟨u', -, m', hm', hu', hlast, hn⟩ := hv.tiles
  · rw [hn]
    exact TileView.apply_writeAll (TileView.grown_nil _) (TileLog.grow_replicate _) hd hi hl
  · obtain ⟨clock', hc', rfl⟩ := World.tick_of_broadcasts h hm' hu'
    rw [hlast] at hs
    have hg := World.grow_of_ticks h hm' hm hc' hc hs
    rw [hn]
    exact TileView.apply_writeAll (TileView.grown_ofLogs hg.length) hg hd hi hl

theorem follows_receive (h : World.system.Run ms w) (hw : w.Bounded) (hv : v.Follows ms w us)
    {m : Moment World World.Event} (hm : m ∈ ms) (hu : World.Broadcasts m u) :
    (v.receive (.entityUpdate u)).Follows ms w (u :: us) := by
  obtain ⟨clock, -, rfl⟩ := World.tick_of_broadcasts h hm hu
  have hname : (m.state.tileUpdate clock.total).world = v.name :=
    (World.name_of_mem h hm).trans hv.name.symm
  by_cases hs : (m.state.tileUpdate clock.total).time ≤ v.lastWorldUpdate
  · rw [receive_stale hname rfl hs]
    refine ⟨hv.name, fun u hu => ?_, hv.tiles.imp_right ?_⟩
    · rcases List.mem_cons.mp hu with rfl | hu
      · exact hs
      · exact hv.newest u hu
    · rintro ⟨u, hu, hr⟩
      exact ⟨u, List.mem_cons_of_mem _ hu, hr⟩
  · have hs := UInt64.not_le.mp hs
    obtain ⟨n, ha⟩ := apply_of_follows h hw hv hm hu hs
    rw [receive_newer hname rfl hs ha]
    refine ⟨hv.name, fun u hu => ?_, Or.inr ⟨_, List.mem_cons_self, m, hm, hu, rfl, rfl⟩⟩
    rcases List.mem_cons.mp hu with rfl | hu
    · exact UInt64.le_refl _
    · exact UInt64.le_trans (hv.newest u hu) (UInt64.le_of_lt hs)

theorem follows_run (h : World.system.Run ms w) (hw : w.Bounded) (hes : Fed ms es)
    (hv : v.Follows ms w us) (hr : v.run es = some v') :
    v'.Follows ms w ((es.filterMap Event.tiles?).reverse ++ us) := by
  induction es generalizing v us with
  | nil =>
    cases hr
    exact hv
  | cons e es ih =>
    obtain ⟨v₁, h₁, hr⟩ := Option.bind_eq_some_iff.mp hr
    have hes' : Fed ms es := fun p hp => hes p (List.mem_cons_of_mem _ hp)
    cases ht : e.tiles? with
    | none =>
      obtain ⟨hn, htiles, hlast⟩ := tiles_kept ht h₁
      rw [List.filterMap_cons_none ht]
      exact ih hes' ⟨hn ▸ hv.name, hlast ▸ hv.newest, hlast ▸ htiles ▸ hv.tiles⟩ hr
    | some u =>
      obtain ⟨rfl, htype⟩ := Event.tiles?_eq_some_iff.mp ht
      cases h₁
      obtain ⟨m, hm, hsent⟩ := hes _ List.mem_cons_self
      rw [List.filterMap_cons_some ht, List.reverse_cons, List.append_assoc]
      exact ih hes' (follows_receive h hw hv hm ⟨htype, hsent⟩) hr

/-- Once a broadcast has arrived, the tiles of a view are those of the world at the newest
broadcast that has. A clock moves on from zero at each tick, so a broadcast has a positive time. -/
theorem tiles_of_fed (h : World.system.Run ms w) (hw : w.Bounded)
    {player : PlayerId} (hes : Fed ms es)
    (hv : run { name := w.name, localPlayer := player } es = some v)
    {m : Moment World World.Event} (hm : m ∈ ms) (hu : World.Broadcasts m u) (hpos : 0 < u.time)
    (hue : .packet (.entityUpdate u) ∈ es)
    (hnew : ∀ u', .packet (.entityUpdate u') ∈ es → u'.type = .world → u'.time ≤ u.time)
    {n : Nat} {i : Island} (hi : m.state.islands[n]? = some i) :
    ∃ iv, v.tiles.island? n = some iv ∧ iv.lastKnown = i.log.head?.map (·.time) ∧
      ∀ layer x y, (i.offset? layer x y).isSome →
        i.plot? layer x y = some (iv.plot (UInt8.ofNat layer) x y) := by
  have hf : v.Follows ms w ((es.filterMap Event.tiles?).reverse ++ []) :=
    follows_run h hw hes ⟨rfl, nofun, Or.inl ⟨rfl, rfl⟩⟩ hv
  rw [List.append_nil] at hf
  obtain ⟨clock, hc, rfl⟩ := World.tick_of_broadcasts h hm hu
  have hlast := hf.newest (m.state.tileUpdate clock.total) (List.mem_reverse.mpr
    (List.mem_filterMap.mpr ⟨_, hue, Event.tiles?_eq_some_iff.mpr ⟨rfl, rfl⟩⟩))
  obtain ⟨hz, -⟩ | ⟨u', hu', m', hm', hb, ht, hn⟩ := hf.tiles
  · rw [hz] at hlast
    exact absurd hpos (UInt64.not_lt.mpr hlast)
  obtain ⟨e, he, hu'⟩ := List.mem_filterMap.mp (List.mem_reverse.mp hu')
  obtain ⟨rfl, htype⟩ := Event.tiles?_eq_some_iff.mp hu'
  have hle := hnew u' he htype
  obtain ⟨clock', hc', rfl⟩ := World.tick_of_broadcasts h hm' hb
  obtain ⟨j, hj, rfl⟩ := List.getElem_of_mem hm
  obtain ⟨j', hj', rfl⟩ := List.getElem_of_mem hm'
  -- The view stands at a tick with the total of the newest broadcast, so at that very tick.
  rw [ht] at hlast
  have hjj := World.tick_unique h (List.getElem?_eq_getElem hj) (List.getElem?_eq_getElem hj')
    hc hc' (UInt64.le_antisymm hlast hle)
  subst hjj
  refine ⟨.ofLog i.log, ?_, rfl, fun layer x y hin => ?_⟩
  · simp [hn, TileView.island?, TileView.ofLogs, World.logs, hi]
  · exact Island.plot?_eq (World.charted_of_mem h hm i (List.mem_of_getElem? hi)) hin

def planting : List (Moment World World.Event) × World :=
  World.system.play [] (World.create { islands := [⟨2, 2, 2⟩] } {} {}).1 [
    .addPlayer ⟨2⟩ { connection := ⟨1⟩, id := ⟨1⟩, name := "ann", address := some ⟨"a"⟩ } none,
    .setPlot 0 0 1 1 7 10,
    .tick { total := 1000000, frame := 1000000 },
    .setPlot 0 0 1 1 8 10,
    .setPlot 0 1 0 1 9 5,
    .tick { total := 2000000, frame := 1000000 }]

theorem run_planting : World.system.Run planting.1 planting.2 := by
  refine .play (.start ⟨_, _, _, rfl⟩) ⟨?_, ?_, ?_, ?_, ?_, ?_, trivial⟩ <;>
    simp [World.system, World.Event.clock?]

def plantingTwice : List Packet :=
  let sent := (planting.1.flatMap World.system.sent).map (·.packet)
  sent ++ sent.reverse

theorem tiles_of_fed_twice :
    ∃ m i v iv, planting.1.head? = some m ∧ m.state.islands[0]? = some i ∧
      run { name := planting.2.name, localPlayer := ⟨1⟩ } (plantingTwice.map .packet) = some v ∧
      v.tiles.island? 0 = some iv ∧ iv.lastKnown = i.log.head?.map (·.time) ∧
      ∀ layer x y, (i.offset? layer x y).isSome →
        i.plot? layer x y = some (iv.plot (UInt8.ofNat layer) x y) := by
  have hv := run_packets { name := planting.2.name, localPlayer := ⟨1⟩ } plantingTwice
  have hf : Fed planting.1 (plantingTwice.map .packet) := by
    intro p hp
    obtain ⟨p', hp', hp⟩ := List.mem_map.mp hp
    cases hp
    have hp' : p ∈ (planting.1.flatMap World.system.sent).map (·.packet) := by
      rcases List.mem_append.mp hp' with hp' | hp'
      · exact hp'
      · exact List.mem_reverse.mp hp'
    obtain ⟨e, he, rfl⟩ := List.mem_map.mp hp'
    obtain ⟨m, hm, he⟩ := List.mem_flatMap.mp he
    exact ⟨m, hm, e, he, rfl⟩
  have hnew : ∀ u ∈ (plantingTwice.map .packet).filterMap Event.tiles?, u.time ≤ 2000000 := by
    decide +kernel
  let m := planting.1.head (by decide +kernel)
  have hm : m ∈ planting.1 := List.head_mem _
  have hu : ∃ e ∈ World.system.sent m, e.packet = .entityUpdate (m.state.tileUpdate 2000000) := by
    decide +kernel
  have hi : (m.state.islands[0]?).isSome := by decide +kernel
  obtain ⟨i, hi⟩ := Option.isSome_iff_exists.mp hi
  have hue : Packet.entityUpdate (m.state.tileUpdate 2000000) ∈ plantingTwice := by
    obtain ⟨e, he, hp⟩ := hu
    exact List.mem_append_left _ (List.mem_map.mpr ⟨e, List.mem_flatMap.mpr ⟨m, hm, he⟩, hp⟩)
  have hw : planting.2.Bounded :=
    ⟨by decide +kernel, by decide +kernel, by unfold TileLog.Bounded; decide +kernel⟩
  obtain ⟨iv, hiv⟩ := tiles_of_fed run_planting hw hf hv hm ⟨rfl, hu⟩ (by decide)
    (List.mem_map_of_mem hue) (fun u hu ht => hnew u (List.mem_filterMap.mpr ⟨_, hu, if_pos ht⟩)) hi
  exact ⟨m, i, _, iv, List.head?_eq_some_head _, hi, hv, hiv⟩

end WorldView

end SharedWorld
