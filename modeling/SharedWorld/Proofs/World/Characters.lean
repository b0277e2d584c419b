import SharedWorld.Proofs.World.Run

/-! # The characters of a world

An event makes a character under its own number, or leaves who it is and whose it is
alone. So every character of a run is stored under its own number.
-/

namespace SharedWorld

namespace World

variable {w w' : World} {k : EntityId} {c' : Character}

/-- How a character comes to stand in a table after an event. -/
def Descends (w : World) (k : EntityId) (c' : Character) : Prop :=
  (∃ player position type, c' = w.newCharacter k player position type) ∨
    ∃ c, w.characters.get? k = some c ∧ c.SameIdentity c'

theorem Descends.kept (h : w.characters.get? k = some c') : w.Descends k c' :=
  Or.inr ⟨c', h, .refl c'⟩

theorem descends_modify {k' : EntityId} {f : Character → Character}
    (hf : ∀ c : Character, c.SameIdentity (f c)) (h : (w.characters.modify k' f).get? k = some c') :
    w.Descends k c' := by
  rw [Table.get?_modify] at h
  split at h
  · obtain ⟨c, hc, rfl⟩ := Option.map_eq_some_iff.mp h
    exact Or.inr ⟨c, hc, hf c⟩
  · exact .kept h

theorem descends_erase {k' : EntityId} (h : (w.characters.erase k').get? k = some c') :
    w.Descends k c' :=
  .kept (Table.get?_erase_eq_some_iff.mp h).2

theorem descends_create {k' : EntityId} {player : PlayerId} {position : Position} {type : String}
    (h : (w.characters.insert k' (w.newCharacter k' player position type)).get? k = some c') :
    w.Descends k c' := by
  obtain ⟨rfl, rfl⟩ | ⟨-, h⟩ := Table.get?_insert_eq_some_iff.mp h
  · exact Or.inl ⟨player, position, type, rfl⟩
  · exact .kept h

theorem sameIdentity_settle_tick (c : Character) (frame : Micros) :
    c.SameIdentity (settle (c.tick frame)) := by
  unfold settle
  split <;> exact ⟨rfl, rfl, rfl⟩

theorem descends_change (h : w.Change w') (hc : w'.characters.get? k = some c') :
    w.Descends k c' := by
  cases h with
  | nothing => exact .kept hc
  | enter => exact descends_create hc
  | appear => exact descends_create hc
  | alter _ hf => exact descends_modify hf hc
  | vanish => exact descends_erase hc
  | leave => exact descends_erase hc
  | readdress => exact .kept hc
  | write => exact .kept hc
  | tick clock =>
    have hc : ((w.characters.map (·.tick clock.frame)).map settle).get? k = some c' := hc
    rw [Table.get?_map, Table.get?_map, Option.map_map] at hc
    obtain ⟨c, hk, rfl⟩ := Option.map_eq_some_iff.mp hc
    exact Or.inr ⟨c, hk, sameIdentity_settle_tick c clock.frame⟩

def Keyed (w : World) : Prop :=
  ∀ k c, w.characters.get? k = some c → c.presence.entity = k ∧ c.presence.type = .character

theorem keyed_step (e : Event) (h : w.Keyed) : (w.step e).1.Keyed := by
  intro k c' hc'
  obtain ⟨player, position, type, rfl⟩ | ⟨c, hc, hi⟩ := descends_change (change_step w e) hc'
  · exact ⟨rfl, rfl⟩
  · rw [hi.entity, hi.type]
    exact h k c hc

theorem keyed_of_starts (h : system.Starts w) : w.Keyed := by
  obtain ⟨config, sync, ids, rfl⟩ := h
  intro k c hc
  cases hc

theorem keyed_of_freely {ms : List (Moment World Event)} (h : freely.Run ms w) : w.Keyed :=
  System.Run.invariant (S := freely) (fun _ => keyed_of_starts) (fun _ => keyed_step) h

theorem keyed_of_mem {ms : List (Moment World Event)} (h : system.Run ms w)
    {m : Moment World Event} (hm : m ∈ ms) : m.state.Keyed :=
  h.invariant_of_mem (fun _ => keyed_of_starts) (fun _ => keyed_step) hm

end World

end SharedWorld
