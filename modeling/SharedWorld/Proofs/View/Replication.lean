import SharedWorld.Proofs.View.Run
import SharedWorld.Proofs.World.Characters

/-! # Replicated characters

A view that is fed any of the packets that a world has sent, in any order and any number
of times, holds each character as it was at one tick of the world. The tick is told by
the time of the character's newest update.
-/

namespace SharedWorld

namespace World

def Announces (m : Moment World Event) (k : EntityId) (total : Micros) : Prop :=
  ∃ clock e u, m.event = .tick clock ∧ clock.total = total ∧ e ∈ system.sent m ∧
    e.packet = .entityUpdate u ∧ u.type = .character ∧ u.entity = k

variable {w : World} {ms : List (Moment World Event)}

theorem announces_of_mem_sent (h : system.Run ms w) {m : Moment World Event} (hm : m ∈ ms)
    {e : Envelope} {u : EntityUpdate} (he : e ∈ system.sent m) (hu : e.packet = .entityUpdate u)
    (ht : u.type = .character) :
    Announces m u.entity u.time ∧
      ∃ s, m.state.characters.get? u.entity = some s ∧ u.data = s.data.toBlob := by
  obtain ⟨clock, hc, ⟨-, rfl⟩ | ⟨k, s, hs, -, rfl⟩⟩ := update_of_mem_sent he hu
  · cases ht
  · have hk := (keyed_of_mem h hm k s hs).1
    refine ⟨⟨clock, e, _, hc, rfl, he, hu, ht, rfl⟩, s, ?_, rfl⟩
    rw [← hs]
    exact congrArg _ hk

end World

namespace WorldView

variable {ms : List (Moment World World.Event)} {w : World} {v v' : WorldView}

/-- Every character shows the data of a tick at which it was announced. -/
def Traces (ms : List (Moment World World.Event)) (v : WorldView) : Prop :=
  ∀ k c, v.characters.get? k = some c → ∃ m ∈ ms, World.Announces m k c.lastUpdate ∧
    ∃ s d, m.state.characters.get? k = some s ∧ CharacterData.ofBlob s.data.toBlob = .ok d ∧
      c.Shows d

/-- What a view may be given: packets that the world has sent, and frames. -/
def Fed (ms : List (Moment World World.Event)) (es : List Event) : Prop :=
  ∀ p, .packet p ∈ es → ∃ m ∈ ms, ∃ e ∈ World.system.sent m, e.packet = p

theorem Traces.of_sameCourse (ht : v.Traces ms)
    (h : ∀ k c, v'.characters.get? k = some c →
      ∃ c₀, v.characters.get? k = some c₀ ∧ c₀.SameCourse c) : v'.Traces ms := by
  intro k c hc
  obtain ⟨c₀, hc₀, hs⟩ := h k c hc
  obtain ⟨m, hm, ha, s, d, hs', hd, hv⟩ := ht k c₀ hc₀
  exact ⟨m, hm, hs.lastUpdate ▸ ha, s, d, hs', hd, hv.of_sameCourse hs⟩

theorem traces_receive (h : World.system.Run ms w) (ht : v.Traces ms) {p : Packet}
    (hp : ∃ m ∈ ms, ∃ e ∈ World.system.sent m, e.packet = p) : (v.receive p).Traces ms := by
  intro k c hc
  obtain ⟨u, d, rfl, hu, rfl, hd, rfl⟩ | ⟨c₀, hc₀, hs⟩ := character_of_takes (v.takes_receive p) hc
  · obtain ⟨m, hm, e, he, hu'⟩ := hp
    obtain ⟨ha, s, hs, hb⟩ := World.announces_of_mem_sent h hm he hu' hu
    obtain ⟨hv, hl⟩ := v.shows_refreshed u d
    exact ⟨m, hm, hl ▸ ha, s, d, hs, hb ▸ hd, hv⟩
  · obtain ⟨m, hm, ha, s, d, hs', hd, hv⟩ := ht k c₀ hc₀
    exact ⟨m, hm, hs.lastUpdate ▸ ha, s, d, hs', hd, hv.of_sameCourse hs⟩

theorem traces_run (h : World.system.Run ms w) {es : List Event} (hes : Fed ms es)
    (ht : v.Traces ms) (hv : v.run es = some v') : v'.Traces ms := by
  induction es generalizing v with
  | nil =>
    cases hv
    exact ht
  | cons e es ih =>
    obtain ⟨v₁, h₁, hv⟩ := Option.bind_eq_some_iff.mp hv
    refine ih (fun p hp => hes p (List.mem_cons_of_mem _ hp)) ?_ hv
    cases e with
    | packet p =>
      cases h₁
      exact traces_receive h ht (hes p List.mem_cons_self)
    | frame millis => exact ht.of_sameCourse fun k c hc => character_of_tick h₁ hc

/-- Each character of a view fed by a world stands as it stood at exactly one tick. -/
theorem character_of_fed (h : World.system.Run ms w) {player : PlayerId} {es : List Event}
    (hes : Fed ms es) (hv : run { name := w.name, localPlayer := player } es = some v)
    {k : EntityId} {c : CharacterView} (hc : v.characters.get? k = some c) :
    ∃ (i : Nat) (m : _) (s : Character) (d : CharacterData), ms[i]? = some m ∧
      World.Announces m k c.lastUpdate ∧
      (∀ (j : Nat) (m' : _), ms[j]? = some m' → World.Announces m' k c.lastUpdate → j = i) ∧
      m.state.characters.get? k = some s ∧ CharacterData.ofBlob s.data.toBlob = .ok d ∧
      c.player = d.player ∧ c.type = d.type ∧ c.target = d.position := by
  have hn : Traces ms { name := w.name, localPlayer := player } := fun k c hc => nomatch hc
  obtain ⟨m, hm, ha, s, d, hs, hd, hp, ht, hg⟩ := traces_run h hes hn hv k c hc
  obtain ⟨i, hi, rfl⟩ := List.getElem_of_mem hm
  refine ⟨i, ms[i], s, d, List.getElem?_eq_getElem hi, ha, fun j m' hj ha' => ?_, hs, hd, hp, ht,
    hg⟩
  obtain ⟨clock, -, -, hc, ht, -⟩ := ha
  obtain ⟨clock', -, -, hc', ht', -⟩ := ha'
  exact World.tick_unique h hj (List.getElem?_eq_getElem hi) hc' hc (ht'.trans ht.symm)

/-- A player arrives, is seen, walks, is seen again and leaves. -/
def visit : List (Moment World World.Event) × World :=
  World.system.play [] (World.create {} {} {}).1 [
    .addPlayer ⟨2⟩ { connection := ⟨1⟩, id := ⟨1⟩, name := "ann" } none,
    .tick { total := 50000, frame := 50000 },
    .packet ⟨1⟩ (.ownUpdate
      ⟨⟨1⟩, ⟨2⟩, 7, .character, PositionReport.toBlob ⟨⟨1⟩, "farm", ⟨3, 4⟩⟩⟩) 0,
    .packet ⟨1⟩ .worldLoaded 0,
    .tick { total := 100000, frame := 50000 },
    .removeEntity ⟨2⟩]

theorem run_visit : World.system.Run visit.1 visit.2 := by
  refine .play (.start ⟨_, _, _, rfl⟩) ⟨?_, ?_, ?_, ?_, ?_, ?_, trivial⟩ <;>
    simp [World.system, World.Event.clock?]

def visitBackwards : List Event :=
  (visit.1.flatMap fun m => (World.system.sent m).map fun e => .packet e.packet) ++ [.frame 16]

theorem character_of_fed_backwards :
    ∃ v c, run { name := visit.2.name, localPlayer := ⟨1⟩ } visitBackwards = some v ∧
      v.characters.get? ⟨2⟩ = some c ∧ c.target = ⟨3, 4⟩ ∧
      ∃ (i : Nat) (m : _) (s : Character) (d : CharacterData), visit.1[i]? = some m ∧
        World.Announces m ⟨2⟩ c.lastUpdate ∧
        (∀ (j : Nat) (m' : _), visit.1[j]? = some m' →
          World.Announces m' ⟨2⟩ c.lastUpdate → j = i) ∧
        m.state.characters.get? ⟨2⟩ = some s ∧ CharacterData.ofBlob s.data.toBlob = .ok d ∧
        c.player = d.player ∧ c.type = d.type ∧ c.target = d.position := by
  have hf : Fed visit.1 visitBackwards := by
    intro p hp
    simp only [visitBackwards, List.mem_append, List.mem_flatMap, List.mem_map] at hp
    obtain ⟨m, hm, e, he, hp⟩ | hp := hp
    · cases hp
      exact ⟨m, hm, e, he, rfl⟩
    · cases List.mem_singleton.mp hp
  have hc : ((run { name := visit.2.name, localPlayer := ⟨1⟩ } visitBackwards).bind
      fun v => (v.characters.get? ⟨2⟩).map (·.target)) = some ⟨3, 4⟩ := by decide +kernel
  obtain ⟨v, hv, hc⟩ := Option.bind_eq_some_iff.mp hc
  obtain ⟨c, hc, ht⟩ := Option.map_eq_some_iff.mp hc
  exact ⟨v, c, hv, hc, ht, character_of_fed run_visit hf hv hc⟩

end WorldView

end SharedWorld
