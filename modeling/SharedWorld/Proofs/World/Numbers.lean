import SharedWorld.Proofs.World.Gate

/-! # The numbers of a world

A world and its characters bear numbers. An event gives a number to a character only when it
brings one in. As long as that number is new to the world, every member keeps the character
that it came with.
-/

namespace SharedWorld

namespace World

variable {w : World} {e : EntityId} {ev : Event}

/-- The number is that of the world itself or of one of its characters. -/
def Bears (w : World) (e : EntityId) : Prop := w.presence.entity = e ∨ w.Live e

def numbers (w : World) : List EntityId :=
  w.presence.entity :: w.characters.values.map (·.presence.entity)

def Event.brings? : Event → Option EntityId
  | .addPlayer ids _ entity => some (entity.getD ids.take.1)
  | .addCharacter ids _ _ => some ids.take.1
  | _ => none

/-- Every member has its character. -/
def Homed (w : World) : Prop :=
  ∀ q m, w.members.get? q = some m →
    ∃ c, w.characters.get? m.character = some c ∧ c.presence.player = q

theorem numbers_characters (h : w.Keyed) :
    w.characters.values.map (·.presence.entity) = w.characters.keys := by
  rw [Table.values, Table.keys, List.map_map]
  refine List.map_congr_left fun x hx => ?_
  exact (h x.1 x.2 (Table.get?_eq_some_iff.mpr hx)).1

theorem mem_numbers_iff (h : w.Keyed) : e ∈ w.numbers ↔ w.Bears e := by
  rw [numbers, List.mem_cons, numbers_characters h, Table.mem_keys_iff, @eq_comm _ e]
  rfl

theorem nodup_numbers (h : w.Keyed) (hown : ¬ w.Live w.presence.entity) : w.numbers.Nodup := by
  rw [numbers, List.nodup_cons, numbers_characters h, Table.mem_keys_iff]
  exact ⟨hown, w.characters.nodup_keys⟩

theorem entity_step (w : World) (ev : Event) :
    (w.step ev).1.presence.entity = w.presence.entity := by
  have h := change_step w ev
  generalize (w.step ev).1 = w' at h
  cases h with
  | tick clock =>
    change (if _ then _ else _ : Presence).entity = _
    split <;> rfl
  | _ => rfl

theorem live_step (h : (w.step ev).1.Live e) : w.Live e ∨ ev.brings? = some e := by
  have hmakes := makes_step w ev
  generalize (w.step ev).1 = w' at hmakes h
  have inserted {k : EntityId} {c : Character} (h : ((w.characters.insert k c).get? e).isSome)
      (hk : ev.brings? = some k) : w.Live e ∨ ev.brings? = some e := by
    rw [Table.get?_insert] at h
    split at h
    · next he => exact Or.inr (he ▸ hk)
    · exact Or.inl h
  cases hmakes with
  | nothing | readdress | write => exact Or.inl h
  | enter => exact inserted h rfl
  | appear => exact inserted h rfl
  | edit | load | report => exact Or.inl (live_modify.mp h)
  | leave | vanish => exact Or.inl (Table.isSome_of_erase h)
  | tick clock => exact Or.inl ((live_tick clock).mp h)

theorem bears_step (h : (w.step ev).1.Bears e) : w.Bears e ∨ ev.brings? = some e := by
  rcases h with h | h
  · exact Or.inl (Or.inl ((entity_step w ev).symm.trans h))
  · exact (live_step h).imp_left Or.inr

theorem spares_of_homed (h : w.Homed) (hn : ∀ k, ev.brings? = some k → ¬ w.Live k)
    (hv : ∀ k, ev ≠ .removeEntity k) {q : PlayerId} {m : Member}
    (hm : w.members.get? q = some m) (hq : ev.moves? ≠ some q) : ev.Spares w m.character := by
  obtain ⟨c, hc, hp⟩ := h q m hm
  have hlive : w.Live m.character := Option.isSome_of_eq_some hc
  cases ev with
  | addPlayer => exact fun he => hn _ rfl (he ▸ hlive)
  | addCharacter => exact fun he => hn _ rfl (he ▸ hlive)
  | removePlayer player =>
    intro m' hm' he
    obtain ⟨c', hc', hp'⟩ := h player m' hm'
    obtain rfl : c' = c := Option.some.inj (hc'.symm.trans (he ▸ hc))
    exact hq (congrArg some (hp'.symm.trans hp))
  | removeEntity k => exact absurd rfl (hv k)
  | _ => trivial

theorem homed_step (h : w.Homed) (hn : ∀ k, ev.brings? = some k → ¬ w.Live k)
    (hv : ∀ k, ev ≠ .removeEntity k) : (w.step ev).1.Homed := by
  have kept {q : PlayerId} {m : Member} (hm : w.members.get? q = some m)
      (hq : ev.moves? ≠ some q) : ∃ c, (w.step ev).1.characters.get? m.character = some c ∧
        c.presence.player = q := by
    obtain ⟨c, hc, hp⟩ := h q m hm
    obtain ⟨c', hc', hi, -⟩ := spared_step (spares_of_homed h hn hv hm hq) hc
    exact ⟨c', hc', hi.player.trans hp⟩
  have hmakes := makes_step w ev
  generalize (w.step ev).1 = w' at hmakes kept ⊢
  intro q m hm
  cases hmakes with
  | nothing => exact h q m hm
  | @enter ids p entity hp =>
    obtain ⟨rfl, rfl⟩ | ⟨hne, hm⟩ := Table.get?_insert_eq_some_iff.mp hm
    · exact ⟨_, Table.get?_insert_self .., rfl⟩
    · exact kept hm fun he => hne (Option.some.inj he).symm
  | leave hp =>
    obtain ⟨hne, hm⟩ := Table.get?_erase_eq_some_iff.mp hm
    exact kept hm fun he => hne (Option.some.inj he).symm
  | @readdress p m₀ hp a =>
    obtain ⟨rfl, rfl⟩ | ⟨-, hm⟩ := Table.get?_insert_eq_some_iff.mp hm
    · exact h _ m₀ hp
    · exact h q m hm
  | vanish k => exact absurd rfl (hv k)
  | _ => exact kept hm nofun

end World

end SharedWorld
