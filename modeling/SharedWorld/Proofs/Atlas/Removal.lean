import SharedWorld.Proofs.Atlas.Stay
import SharedWorld.Proofs.View.Appearance

/-! # Late removal notices

The second notice that a character is gone is delayed, and a character that is transferred
keeps its number. A notice that arrives after the character has come back takes its
appearance away from a view. So a view that has taken everything sent to it knows the
appearance of exactly those characters that are there, except where the last word on a
character that is there is such a notice.
-/

namespace SharedWorld

namespace Atlas

variable {a : Atlas} {q : PlayerId} {W : String} {w : World} {m : Member}
  {c : ConnectionId} {e k : EntityId} {later past : List (Moment Atlas Event)}

theorem live_of_lasts (h : system.Run (later ++ past) a) (hn : Unmoved q later)
    (hs : a.Seats W q c e) (hw : a.worlds.get? W = some w)
    (hl : Lasts (fun x => x.packet.Describes k W ∨ x.packet.Shows k W)
      (fun x => x.delay = 0 ∧ x.packet = .removeEntity k W)
      (system.stream c later)) : w.Live k := by
  refine stay_induction (c := c) (I := fun w told =>
    Lasts (fun x => x.packet.Describes k W ∨ x.packet.Shows k W)
      (fun x => x.delay = 0 ∧ x.packet = .removeEntity k W) told → w.Live k)
    ?own ?other ?start h hn hs hw hl
  case start => exact fun _ _ _ _ _ => False.elim
  case own =>
    rintro w ev told hname hkeyed ⟨m, hm, hc, -⟩ hp - hI hl
    rcases lasts_append_iff.mp hl with hl | ⟨hl, hr⟩
    · obtain ⟨x, hx, ht⟩ := hl.exists_mem
      exact (World.live_of_tells hkeyed (mem_onStream_iff.mp hx).1 ht).2.1
    · refine ((World.reports_step hm hp).gone k (hI hl)).resolve_right fun hx => ?_
      exact hr _ (mem_onStream_iff.mpr ⟨hx, by rw [hc]⟩) ⟨rfl, by rw [hname]⟩
  case other =>
    intro w v ev told hname hkeyed hI hl
    rcases lasts_append_iff.mp hl with hl | ⟨hl, -⟩
    · obtain ⟨x, hx, ht⟩ := hl.exists_mem
      exact absurd (World.live_of_tells hkeyed (mem_onStream_iff.mp hx).1 ht).1.symm hname
    · exact hI hl

theorem prompt_of_tells (h : system.Run (later ++ past) a) (hn : Unmoved q later)
    (hs : a.Seats W q c e) (hw : a.worlds.get? W = some w) :
    ∀ x ∈ system.stream c later,
      x.packet.Describes k W ∨ x.packet.Shows k W → x.delay = 0 := by
  refine stay_induction (c := c)
    (I := fun _ told => ∀ x ∈ told, x.packet.Describes k W ∨ x.packet.Shows k W → x.delay = 0)
    ?own ?other ?start h hn hs hw
  case start => exact fun _ _ _ _ _ => nofun
  case own =>
    intro w ev told hname hkeyed hseats hp _ hI x hx ht
    rcases List.mem_append.mp hx with hx | hx
    · exact hI x hx ht
    · exact (World.live_of_tells hkeyed (mem_onStream_iff.mp hx).1 ht).2.2
  case other =>
    intro w v ev told hname hkeyed hI x hx ht
    rcases List.mem_append.mp hx with hx | hx
    · exact hI x hx ht
    · exact (World.live_of_tells hkeyed (mem_onStream_iff.mp hx).1 ht).2.2

/-- A player that has loaded its world has been told of every character in it, and told again
after each notice that the character is gone. -/
theorem lasts_of_live (h : system.Run (later ++ past) a) (hn : Unmoved q later)
    (hs : a.Seats W q c e) (hw : a.worlds.get? W = some w)
    {l : Moment Atlas Event} {wall : UInt64} (hl : l ∈ later)
    (he : l.event = .route q .worldLoaded wall) (hk : w.Live k) :
    Lasts (·.packet.Describes k W) (·.packet = .removeEntity k W) (system.stream c later) := by
  obtain ⟨later, before, rfl⟩ := List.append_of_mem hl
  obtain ⟨hn, hb⟩ := List.forall_mem_append.mp hn
  rw [List.append_assoc] at h
  have hstay := stay_induction (c := c) (I := fun w told => w.Live k →
      Lasts (·.packet.Describes k W) (·.packet = .removeEntity k W)
        (onStream c (system.sent l) ++ told))
    ?own ?other ?start h hn hs hw hk
  case own =>
    rintro w ev told hname hkeyed ⟨m, hm, hc, -⟩ hp - hI hk
    have quiet : ∀ x ∈ onStream c (w.step ev).2, ¬ x.packet = .removeEntity k W :=
      fun x hx hr => (World.gone_of_removal (mem_onStream_iff.mp hx).1 hr).2 hk
    rw [← List.append_assoc]
    refine lasts_append_iff.mpr ?_
    rcases (World.reports_step hm hp).come k hk with hk | ⟨look, hx⟩
    · exact Or.inr ⟨hI hk, quiet⟩
    · rw [hc, hname] at hx
      exact Or.inl (lasts_of_mem (mem_onStream_iff.mpr ⟨hx, rfl⟩) ⟨look, rfl⟩ quiet)
  case other =>
    intro w v ev told hname hkeyed hI hk
    rw [← List.append_assoc]
    refine lasts_append_iff.mpr (Or.inr ⟨hI hk, fun x hx hr => hname ?_⟩)
    exact (World.gone_of_removal (mem_onStream_iff.mp hx).1 hr).1.symm
  case start =>
    intro s w hs hw hseats hk
    obtain ⟨s₀, ev⟩ := l
    obtain rfl : ev = .route q .worldLoaded wall := he
    cases hs with
    | step _ hs _ =>
    have hv := valid_of_run hs
    obtain ⟨-, w₀, hw₀, m, hm, hc, -⟩ := seats_before hv
      (List.forall_mem_singleton.mpr (List.forall_mem_cons.mp hb).1) ⟨w, hw, hseats⟩
    obtain ⟨hworlds, hsent⟩ := step_route hv hw₀ hm .worldLoaded wall
    have hw : (s₀.step (.route q .worldLoaded wall)).1.worlds.get? W = some w := hw
    rw [hworlds, Table.get?_insert_self] at hw
    obtain rfl := Option.some.inj hw
    obtain ⟨look, hx⟩ := World.details_worldLoaded hm hk
    rw [hc, hv.filed.name hw₀] at hx
    have hsent : system.sent ⟨s₀, .route q .worldLoaded wall⟩ = _ := hsent
    rw [List.append_nil, hsent]
    exact lasts_of_mem (mem_onStream_iff.mpr ⟨hx, rfl⟩) ⟨look, rfl⟩
      fun x hx hr => (World.gone_of_removal (mem_onStream_iff.mp hx).1 hr).2 hk
  rw [System.stream_append, System.stream, List.append_assoc]
  exact lasts_append_iff.mpr (Or.inl hstay)

/-- A view made afresh during the stay, before the player has loaded the world, takes all that
its stream is told from then on, each late notice at any point after it was sent. It then knows
how each character looks that is there and has been described again after its late notices,
and it holds no character that is not there. -/
theorem appearance_of_arrives (h : system.Run (later ++ past) a) (hn : Unmoved q later)
    (hm : a.member? W q = some m) (hw : a.worlds.get? W = some w)
    (hl : ∃ l ∈ later, ∃ wall, l.event = .route q .worldLoaded wall) {ds : List Envelope}
    (hd : Arrives (system.stream m.connection later) ds) :
    ∃ v, WorldView.run { name := W, localPlayer := q } (ds.map fun x => .packet x.packet) =
        some v ∧
      (∀ k, (v.appearance? k).isSome ↔ w.Live k ∧ ∀ before x after, ds = before ++ x :: after →
        x.delay ≠ 0 → x.packet = .removeEntity k W → ∃ y ∈ after, y.packet.Describes k W) ∧
      ∀ k, v.Holds k → w.Live k := by
  have hs : a.Seats W q m.connection m.character := seats_iff.mpr ⟨m, hm, rfl, rfl⟩
  have prompt (k : EntityId) := prompt_of_tells (k := k) h hn hs hw
  have live {k : EntityId} {D : Envelope → Prop}
      (hD : ∀ x, D x → x.packet.Describes k W ∨ x.packet.Shows k W)
      (hlast : Lasts D (fun x => x.delay = 0 ∧ x.packet = .removeEntity k W)
        (system.stream m.connection later)) : w.Live k :=
    live_of_lasts h hn hs hw (hlast.imp hD fun _ => id)
  have hv := WorldView.run_packets { name := W, localPlayer := q } (ds.map (·.packet))
  rw [List.map_map] at hv
  refine ⟨_, hv, fun k => ?_, fun k hk => ?_⟩
  · rw [WorldView.appearance?_run hv rfl, or_iff_left (fun h => absurd h.1 nofun),
      hd.lasts_iff_late (fun x hx hdx => prompt k x hx (Or.inl hdx))
        fun x hx => Packet.ne_removeEntity_of_tells (Or.inl hx)]
    refine and_congr_left fun _ => ⟨live fun _ => Or.inl, fun hk => ?_⟩
    obtain ⟨l, hl, wall, he⟩ := hl
    exact (lasts_of_live h hn hs hw hl he hk).imp (fun _ => id) fun _ => And.right
  · obtain hlast | ⟨hk, -⟩ := WorldView.holds_run hv rfl hk
    · have hlast := (hd.lasts_iff_late (fun x hx hdx => prompt k x hx (Or.inr hdx))
        fun x hx => Packet.ne_removeEntity_of_tells (Or.inr hx)).mp hlast
      exact live (fun _ => Or.inr) hlast.1
    · cases hk

def arrival : Moment Atlas Event :=
  ⟨ofWorlds [{ islands := [] }] "farm",
    .addPlayer { connection := ⟨1⟩, id := ⟨1⟩, name := "ann" } none⟩

def visit : List (Moment Atlas Event) × Atlas :=
  system.play [] (system.step arrival.state arrival.event).1 [
    .route ⟨1⟩ .worldLoaded 0,
    .addPlayer { connection := ⟨2⟩, id := ⟨2⟩, name := "bob" } none,
    .transfer { connection := ⟨2⟩, id := ⟨2⟩, name := "bob" } "farm" 0,
    .tick { total := 50000, frame := 50000 }]

theorem run_visit : system.Run (visit.1 ++ [arrival]) visit.2 :=
  System.Run.resume (.step _ (.start (starts_ofWorlds (by decide +kernel))) trivial) (admitsAll ..)

theorem unmoved_visit : Unmoved ⟨1⟩ visit.1 :=
  unmoved_of_enters (by decide +kernel)

theorem loaded_visit : ∃ l ∈ visit.1, ∃ wall, l.event = .route ⟨1⟩ .worldLoaded wall := by
  have h : visit.1[3]? =
      some ⟨(system.step arrival.state arrival.event).1, .route ⟨1⟩ .worldLoaded 0⟩ := rfl
  exact ⟨_, List.mem_of_getElem? h, 0, rfl⟩

def annTold : List Envelope := system.stream ⟨1⟩ visit.1

theorem appearance_of_arrives_visit :
    ∃ v w, visit.2.worlds.get? "farm" = some w ∧
      WorldView.run { name := "farm", localPlayer := ⟨1⟩ } (annTold.map fun x => .packet x.packet) =
        some v ∧
      (∀ k, (v.appearance? k).isSome ↔ w.Live k ∧ ∀ before x after,
        annTold = before ++ x :: after → x.delay ≠ 0 → x.packet = .removeEntity k "farm" →
          ∃ y ∈ after, y.packet.Describes k "farm") ∧
      ∀ k, v.Holds k → w.Live k := by
  have hm : (visit.2.member? "farm" ⟨1⟩).map (·.connection) = some ⟨1⟩ := by decide +kernel
  obtain ⟨m, hm, hc⟩ := Option.map_eq_some_iff.mp hm
  obtain ⟨w, hw, -⟩ := Option.bind_eq_some_iff.mp hm
  have hd : Arrives (system.stream m.connection visit.1) annTold := by
    rw [hc]
    exact .in_order _
  obtain ⟨v, hv, h⟩ := appearance_of_arrives run_visit unmoved_visit hm hw loaded_visit hd
  exact ⟨v, w, hw, hv, h⟩

/-- The late notice of Bob's transfer arrives last. It takes away his character, which has come
back and has been described and seen. -/
theorem appearance_lost :
    system.Run (visit.1 ++ [arrival]) visit.2 ∧
      (∃ p, p.id = ⟨1⟩ ∧ Loads arrival p "farm") ∧ Unmoved ⟨1⟩ visit.1 ∧
      (∃ l ∈ visit.1, ∃ wall, l.event = .route ⟨1⟩ .worldLoaded wall) ∧
      (visit.2.member? "farm" ⟨1⟩).map (·.connection) = some ⟨1⟩ ∧
      ∃ ds v w, Arrives annTold ds ∧
        WorldView.run { name := "farm", localPlayer := ⟨1⟩ } (ds.map fun x => .packet x.packet) =
          some v ∧
        visit.2.worlds.get? "farm" = some w ∧ w.Live ⟨3⟩ ∧ v.appearance? ⟨3⟩ = none ∧
        ¬ v.Holds ⟨3⟩ := by
  have hload : Loads arrival { connection := ⟨1⟩, id := ⟨1⟩, name := "ann" } "farm" :=
    ⟨rfl, [], by decide +kernel⟩
  have hw : (visit.2.worlds.get? "farm").map (fun w => decide (w.Live ⟨3⟩)) = some true := by
    decide +kernel
  obtain ⟨w, hw, hk⟩ := Option.map_eq_some_iff.mp hw
  have hv := WorldView.run_packets { name := "farm", localPlayer := ⟨1⟩ }
    ((annTold.filter (·.delay = 0) ++ annTold.filter (·.delay ≠ 0)).map (·.packet))
  rw [List.map_map] at hv
  exact ⟨run_visit, ⟨_, rfl, hload⟩, unmoved_visit, loaded_visit, by decide +kernel, _, _, w,
    .late_last annTold, hv, hw, of_decide_eq_true hk, by decide +kernel, by decide +kernel⟩

end Atlas

end SharedWorld
