import SharedWorld.Proofs.View.Appearance
import SharedWorld.Proofs.World.Removal

/-! # The end of a character in a view

A view may take old packets about a character after the first notice that it is gone. The
delayed notice clears it away again, and whatever the world has sent since the removal does not
bring it back.
-/

namespace SharedWorld

namespace WorldView

variable {v v' : WorldView} {k : EntityId} {p : Packet} {e : Event} {es : List Event}

/-- The view has neither the character nor details that wait for it. -/
structure Lacks (v : WorldView) (k : EntityId) : Prop where
  character : v.characters.get? k = none
  pending : v.pending.get? k = none

theorem lacks_iff : v.Lacks k ↔ ¬ v.Holds k ∧ v.appearance? k = none := by
  rw [Holds, Option.not_isSome_iff_eq_none]
  constructor
  · rintro ⟨hc, hp⟩
    exact ⟨hc, by simp [appearance?, hc, hp]⟩
  · rintro ⟨hc, ha⟩
    refine ⟨hc, ?_⟩
    simpa [appearance?, hc] using ha

theorem lacks_receive_removeEntity (v : WorldView) (k : EntityId) :
    (v.receive (.removeEntity k v.name)).Lacks k := by
  rw [receive_removeEntity]
  constructor <;> simp [Table.get?_erase]

theorem lacks_step (h : v.Lacks k) (hv : v.step e = some v')
    (he : ∀ p, e = .packet p → ¬ p.Describes k v.name ∧ ¬ p.Shows k v.name) : v'.Lacks k := by
  cases e with
  | packet p =>
    cases hv
    obtain ⟨hd, hs⟩ := he p rfl
    obtain ⟨hc, ha⟩ := lacks_iff.mp h
    refine lacks_iff.mpr ⟨fun hh => ?_, Option.not_isSome_iff_eq_none.mp fun hh => ?_⟩
    · exact (holds_receive hh).elim hs fun hh => hc hh.1
    · rw [appearance?_receive, ha] at hh
      exact hh.elim hd fun hh => nomatch hh.1
  | frame millis =>
    refine ⟨by rw [get?_tick hv, h.character]; rfl, ?_⟩
    change v.tick millis = some v' at hv
    unfold tick at hv
    split at hv <;> cases hv
    exact h.pending

theorem lacks_run (h : v.Lacks k) (hv : v.run es = some v')
    (hes : ∀ p, .packet p ∈ es → ¬ p.Describes k v.name ∧ ¬ p.Shows k v.name) : v'.Lacks k := by
  induction es generalizing v with
  | nil =>
    cases hv
    exact h
  | cons e es ih =>
    obtain ⟨v₁, h₁, hv⟩ := Option.bind_eq_some_iff.mp hv
    refine ih (lacks_step h h₁ fun p hp => hes p (hp ▸ List.mem_cons_self)) hv fun p hp => ?_
    rw [name_step h₁]
    exact hes p (List.mem_cons_of_mem _ hp)

end WorldView

namespace World

variable {w : World} {k : EntityId} {l : Moment World Event} {p : Packet}
  {later past : List (Moment World Event)}

theorem entity?_of_tells {W : String} (h : p.Describes k W ∨ p.Shows k W) :
    p.entity? = some k := by
  obtain ⟨look, rfl⟩ | ⟨u, rfl, -, rfl, -⟩ := h <;> rfl

theorem packet_of_mem_notices {delay : UInt64} {x : Envelope} (hx : x ∈ w.notices k delay) :
    x.packet = .removeEntity k w.name := by
  obtain ⟨m, -, rfl⟩ := List.mem_map.mp hx
  rfl

/-- When a character is removed and its number is not given out again, each member is sent two
notices, one at once and one delayed, and nothing else about it any more. A view may have taken
anything before the delayed notice. If all that it takes afterwards of the character was sent
since the removal, it has neither the character nor details of it. -/
theorem forgotten_of_removal (h : freely.Run (later ++ l :: past) w) (hl : Removes l k)
    (hfree : ∀ s ∈ w :: later.map (·.state), ¬ s.Bears k) :
    let v := (freely.step l.state l.event).1
    let sent := freely.sentAll (later ++ [l])
    about k sent = v.notices k 0 ++ v.notices k v.sync.removeResendDelay ∧
      (∀ q m, v.members.get? q = some m →
        (∀ q' m', v.members.get? q' = some m' → m'.connection = m.connection → q' = q) →
        about k (freely.stream m.connection (later ++ [l])) =
          [⟨.stream m.connection, .removeEntity k v.name, 0⟩,
            ⟨.stream m.connection, .removeEntity k v.name, v.sync.removeResendDelay⟩]) ∧
      ∀ (u u' : WorldView) before after, u.name = v.name →
        u.run (before ++ .packet (.removeEntity k v.name) :: after) = some u' →
        (∀ p, .packet p ∈ after → p.Describes k v.name ∨ p.Shows k v.name →
          ∃ x ∈ sent, x.packet = p) →
        u'.Lacks k := by
  intro v sent
  have habout := about_sentAll h hl hfree
  refine ⟨habout, fun q m => about_stream h hl hfree, fun u u' before after hn hu hafter => ?_⟩
  rw [WorldView.run_append] at hu
  obtain ⟨u₁, h₁, hu⟩ := Option.bind_eq_some_iff.mp hu
  have hn₁ : u₁.name = v.name := (WorldView.name_run h₁).trans hn
  have hu : (u₁.receive (.removeEntity k v.name)).run after = some u' := hu
  rw [← hn₁] at hu hafter
  refine WorldView.lacks_run (u₁.lacks_receive_removeEntity k) hu fun p hp => not_or.mp fun ht => ?_
  -- What is sent since the removal about the character are notices of it.
  rw [WorldView.name_receive] at ht
  obtain ⟨x, hx, rfl⟩ := hafter p hp ht
  have hne := Packet.ne_removeEntity_of_tells ht
  have hx : x ∈ v.notices k 0 ++ v.notices k v.sync.removeResendDelay :=
    habout ▸ mem_about_iff.mpr ⟨hx, entity?_of_tells ht⟩
  rw [hn₁] at hne
  exact hne ((List.mem_append.mp hx).elim packet_of_mem_notices packet_of_mem_notices)

def gathering : List (Moment World Event) × World :=
  freely.play [] (World.create { islands := [] } {} {}).1 [
    .addPlayer ⟨2⟩ { connection := ⟨1⟩, id := ⟨1⟩, name := "ann" } none,
    .addPlayer ⟨3⟩ { connection := ⟨2⟩, id := ⟨2⟩, name := "bob" } none,
    .packet ⟨1⟩ .worldLoaded 0,
    .tick { total := 50000, frame := 50000 }]

def departure : Moment World Event := ⟨gathering.2, .removePlayer ⟨2⟩ 0⟩

/-- Ann loads the farm once more after Bob has left, and is seen again. -/
def aftermath : List (Moment World Event) × World :=
  freely.play [] (freely.step departure.state departure.event).1 [
    .packet ⟨1⟩ .worldLoaded 0, .tick { total := 100000, frame := 50000 }]

theorem run_aftermath : freely.Run (aftermath.1 ++ departure :: gathering.1) aftermath.2 := by
  have hg : freely.Run gathering.1 gathering.2 := by
    exact .play (.start ⟨_, _, _, rfl⟩) ⟨trivial, trivial, trivial, trivial, trivial⟩
  exact (System.Run.step departure.event hg trivial).resume ⟨trivial, trivial, trivial⟩

theorem removes_departure : Removes departure ⟨3⟩ := by
  have hm : (departure.state.members.get? ⟨2⟩).map (·.character) = some ⟨3⟩ := by decide +kernel
  obtain ⟨m, hm, hk⟩ := Option.map_eq_some_iff.mp hm
  exact ⟨by decide +kernel, Or.inr ⟨⟨2⟩, 0, m, rfl, hm, hk⟩⟩

def misled : List WorldView.Event :=
  let old := (freely.sentAll gathering.1).map fun x => .packet x.packet
  old ++ .packet (.removeEntity ⟨3⟩ "farm") :: .frame 16 :: old.reverse

def corrected : List WorldView.Event :=
  (freely.sentAll aftermath.1).map (fun x => .packet x.packet) ++ [.frame 16]

theorem forgotten_of_removal_departure :
    about ⟨3⟩ (freely.stream ⟨1⟩ (aftermath.1 ++ [departure])) =
        [⟨.stream ⟨1⟩, .removeEntity ⟨3⟩ "farm", 0⟩, ⟨.stream ⟨1⟩, .removeEntity ⟨3⟩ "farm", 100⟩] ∧
      ∃ u u', WorldView.run { name := "farm", localPlayer := ⟨1⟩ } misled = some u ∧
        u.Holds ⟨3⟩ ∧ u.run (.packet (.removeEntity ⟨3⟩ "farm") :: corrected) = some u' ∧
        u'.Lacks ⟨3⟩ := by
  have hfree : ∀ s ∈ aftermath.2 :: aftermath.1.map (·.state), ¬ s.Bears ⟨3⟩ := by
    unfold Bears
    decide +kernel
  obtain ⟨-, hstream, hview⟩ := forgotten_of_removal run_aftermath removes_departure hfree
  have hm : ((freely.step departure.state departure.event).1.members.get? ⟨1⟩).map
      (·.connection) = some ⟨1⟩ := by decide +kernel
  obtain ⟨m, hm, hc⟩ := Option.map_eq_some_iff.mp hm
  have hu : ((WorldView.run { name := "farm", localPlayer := ⟨1⟩ } misled).bind fun u =>
      (u.run (.packet (.removeEntity ⟨3⟩ "farm") :: corrected)).map fun _ => decide (u.Holds ⟨3⟩)) =
      some true := by decide +kernel
  obtain ⟨u, hu, hu'⟩ := Option.bind_eq_some_iff.mp hu
  obtain ⟨u', hu', hholds⟩ := Option.map_eq_some_iff.mp hu'
  have halone : ∀ x ∈ (freely.step departure.state departure.event).1.members.entries,
      x.1 = ⟨1⟩ := by decide +kernel
  have hd : (freely.step departure.state departure.event).1.name = "farm" ∧
      (freely.step departure.state departure.event).1.sync.removeResendDelay = 100 := by
    decide +kernel
  have hrun : WorldView.run { name := "farm", localPlayer := ⟨1⟩ }
      (misled ++ .packet (.removeEntity ⟨3⟩ "farm") :: corrected) = some u' := by
    rw [WorldView.run_append, hu]
    exact hu'
  refine ⟨?_, u, u', hu, of_decide_eq_true hholds, hu',
    hview _ u' _ _ (by decide +kernel) hrun fun p hp _ => ?_⟩
  · have hq := hstream ⟨1⟩ m hm fun q' m' hm' _ => halone _ (Table.get?_eq_some_iff.mp hm')
    rwa [hc, hd.1, hd.2] at hq
  · rcases List.mem_append.mp hp with hp | hp
    · obtain ⟨x, hx, hp⟩ := List.mem_map.mp hp
      cases hp
      obtain ⟨l, hl, hx⟩ := System.mem_sentAll_iff.mp hx
      exact ⟨x, System.mem_sentAll_iff.mpr ⟨l, List.mem_append_left _ hl, hx⟩, rfl⟩
    · cases List.mem_singleton.mp hp

end World

end SharedWorld
