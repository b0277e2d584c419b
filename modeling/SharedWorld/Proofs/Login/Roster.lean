import SharedWorld.Login.Roster

/-! # The roster stays in order

As long as no connection is added twice, a connection either waits for a login or has one
player, and the tables of players and of connections are inverse to each other.
-/

namespace SharedWorld

namespace Roster

variable {r r' : Roster} {c c' : ConnectionId} {id : PlayerId} {name : String}
  {pl pl' : Player} {a : Address} {p : Packet} {source : Route}

structure Sound (r : Roster) : Prop where
  waiting : ∀ c pl, r.pending.get? c = some pl →
    pl = { connection := c } ∧ r.byConnection.get? c = none
  placed : ∀ id pl, r.players.get? id = some pl →
    pl.id = id ∧ r.byConnection.get? pl.connection = some id
  held : ∀ c id, r.byConnection.get? c = some id →
    ∃ pl, r.players.get? id = some pl ∧ pl.connection = c

theorem sound_new : Sound {} := ⟨nofun, nofun, nofun⟩

/-- Whether the roster remembers a connection. -/
def Uses (r : Roster) (c : ConnectionId) : Prop :=
  (r.pending.get? c).isSome ∨ (r.byConnection.get? c).isSome

theorem sound_addPending (h : r.Sound) (hc : ¬ r.Uses c) : (r.addPending c).Sound := by
  refine ⟨fun c' pl hp => ?_, h.placed, h.held⟩
  obtain ⟨rfl, rfl⟩ | ⟨-, hp⟩ := Table.get?_insert_eq_some_iff.mp hp
  · exact ⟨rfl, Option.not_isSome_iff_eq_none.mp fun hs => hc (Or.inr hs)⟩
  · exact h.waiting c' pl hp

theorem uses_addPending (h : (r.addPending c).Uses c') : c' = c ∨ r.Uses c' := by
  rcases h with h | h
  · rw [addPending, Table.get?_insert] at h
    split at h
    · exact Or.inl ‹_›
    · exact Or.inr (Or.inl h)
  · exact Or.inr (Or.inr h)

theorem authenticate_eq_ok (h : r.authenticate c id name = .ok (r', pl)) :
    r.players.get? id = none ∧ ∃ waiting, r.pending.get? c = some waiting ∧
      pl = { waiting with id, name } ∧
      r' = { pending := r.pending.erase c
             players := r.players.insert id pl
             byConnection := r.byConnection.insert c id } := by
  unfold authenticate at h
  split at h
  · cases h
  next hn =>
  split at h
  · cases h
  next waiting hw =>
  cases h
  exact ⟨Option.not_isSome_iff_eq_none.mp hn, waiting, hw, rfl, rfl⟩

theorem sound_authenticate (h : r.Sound) (ha : r.authenticate c id name = .ok (r', pl)) :
    r'.Sound := by
  obtain ⟨hn, waiting, hw, rfl, rfl⟩ := authenticate_eq_ok ha
  obtain ⟨rfl, hc⟩ := h.waiting c waiting hw
  refine ⟨fun c' pl hp => ?_, fun id' pl hp => ?_, fun c' id' hp => ?_⟩
  · obtain ⟨hne, hp⟩ := Table.get?_erase_eq_some_iff.mp hp
    rw [Table.get?_insert, if_neg hne]
    exact h.waiting c' pl hp
  · obtain ⟨rfl, rfl⟩ | ⟨-, hp⟩ := Table.get?_insert_eq_some_iff.mp hp
    · exact ⟨rfl, Table.get?_insert_self ..⟩
    · obtain ⟨hi, hb⟩ := h.placed id' pl hp
      refine ⟨hi, Table.get?_insert_eq_some_iff.mpr (Or.inr ⟨?_, hb⟩)⟩
      rintro rfl
      rw [hc] at hb
      cases hb
  · obtain ⟨rfl, rfl⟩ | ⟨-, hp⟩ := Table.get?_insert_eq_some_iff.mp hp
    · exact ⟨_, Table.get?_insert_self .., rfl⟩
    · obtain ⟨pl, hl, hpc⟩ := h.held c' id' hp
      refine ⟨pl, Table.get?_insert_eq_some_iff.mpr (Or.inr ⟨?_, hl⟩), hpc⟩
      rintro rfl
      rw [hn] at hl
      cases hl

theorem uses_authenticate (h : r.authenticate c id name = .ok (r', pl)) (hu : r'.Uses c') :
    r.Uses c' := by
  obtain ⟨-, waiting, hw, -, rfl⟩ := authenticate_eq_ok h
  rcases hu with hu | hu
  · exact Or.inl (Table.isSome_of_erase hu)
  · rw [Table.get?_insert] at hu
    split at hu
    · next he =>
      rw [he]
      exact Or.inl (Option.isSome_of_eq_some hw)
    · exact Or.inr hu

theorem sound_insert (h : r.Sound) (hp : r.players.get? id = some pl) (hi : pl'.id = pl.id)
    (hc : pl'.connection = pl.connection) :
    Sound { r with players := r.players.insert id pl' } := by
  refine ⟨h.waiting, fun id' pl₁ h₁ => ?_, fun c' id' hb => ?_⟩
  · obtain ⟨rfl, rfl⟩ | ⟨-, h₁⟩ := Table.get?_insert_eq_some_iff.mp h₁
    · rw [hi, hc]
      exact h.placed id' pl hp
    · exact h.placed id' pl₁ h₁
  · obtain ⟨pl₁, h₁, hc₁⟩ := h.held c' id' hb
    rw [Table.get?_insert]
    split
    · next he =>
      rw [he, hp] at h₁
      cases h₁
      exact ⟨pl', rfl, hc.trans hc₁⟩
    · exact ⟨pl₁, h₁, hc₁⟩

theorem link_eq_ok {changed : Bool} (h : r.link id a = .ok (r', changed)) :
    ∃ pl, r.players.get? id = some pl ∧
      (pl.address = some a ∧ r' = r ∧ changed = false ∨
        r' = { r with players := r.players.insert id { pl with address := some a } } ∧
          changed = true) := by
  unfold link get? at h
  split at h
  · cases h
  next pl hp =>
  split at h <;> cases h
  · exact ⟨pl, hp, Or.inl ⟨by assumption, rfl, rfl⟩⟩
  · exact ⟨pl, hp, Or.inr ⟨rfl, rfl⟩⟩

theorem setWorld_of_get? {world : Option String} (h : r.players.get? id = some pl) :
    r.setWorld id world = .ok { r with players := r.players.insert id { pl with world } } := by
  unfold setWorld get?
  rw [h]

theorem remove_cases (h : r.Sound) (c : ConnectionId) :
    r.pending.get? c = some { connection := c } ∧
        r.remove c = (some { connection := c }, { r with pending := r.pending.erase c }) ∨
      (∃ pl, r.players.get? pl.id = some pl ∧ pl.connection = c ∧ r.remove c = (some pl,
        { r with players := r.players.erase pl.id, byConnection := r.byConnection.erase c })) ∨
      ¬ r.Uses c ∧ r.remove c = (none, r) := by
  unfold remove
  split
  · next pl hp =>
    obtain ⟨rfl, -⟩ := h.waiting c pl hp
    exact Or.inl ⟨hp, rfl⟩
  next hn =>
  split
  · next hb =>
    refine Or.inr (Or.inr ⟨?_, rfl⟩)
    rintro (hu | hu)
    · rw [hn] at hu
      cases hu
    · rw [hb] at hu
      cases hu
  · next id hb =>
    obtain ⟨pl, hp, hc⟩ := h.held c id hb
    obtain ⟨rfl, -⟩ := h.placed id pl hp
    exact Or.inr (Or.inl ⟨pl, hp, hc, by rw [hp]⟩)

theorem sound_remove (h : r.Sound) (c : ConnectionId) : (r.remove c).2.Sound := by
  obtain ⟨-, hr⟩ | ⟨pl, hp, rfl, hr⟩ | ⟨-, hr⟩ := remove_cases h c
  · rw [hr]
    exact ⟨fun c' pl hp => h.waiting c' pl (Table.get?_erase_eq_some_iff.mp hp).2, h.placed,
      h.held⟩
  · rw [hr]
    refine ⟨fun c' pl' hp' => ?_, fun id' pl' hp' => ?_, fun c' id' hb => ?_⟩
    · obtain ⟨hpl, hn⟩ := h.waiting c' pl' hp'
      refine ⟨hpl, ?_⟩
      rw [Table.get?_erase, hn]
      split <;> rfl
    · obtain ⟨hne, hp'⟩ := Table.get?_erase_eq_some_iff.mp hp'
      obtain ⟨hi, hb⟩ := h.placed id' pl' hp'
      refine ⟨hi, Table.get?_erase_eq_some_iff.mpr ⟨fun he => ?_, hb⟩⟩
      rw [he, (h.placed _ pl hp).2] at hb
      exact hne (Option.some.inj hb).symm
    · obtain ⟨hne, hb⟩ := Table.get?_erase_eq_some_iff.mp hb
      obtain ⟨pl', hp', hc'⟩ := h.held c' id' hb
      refine ⟨pl', Table.get?_erase_eq_some_iff.mpr ⟨?_, hp'⟩, hc'⟩
      rintro rfl
      rw [hp] at hp'
      cases hp'
      exact hne hc'.symm
  · rw [hr]
    exact h

theorem uses_remove (h : r.Sound) (hu : (r.remove c).2.Uses c') : r.Uses c' := by
  obtain ⟨-, hr⟩ | ⟨pl, -, -, hr⟩ | ⟨-, hr⟩ := remove_cases h c
  · rw [hr] at hu
    exact hu.imp_left Table.isSome_of_erase
  · rw [hr] at hu
    exact hu.imp_right Table.isSome_of_erase
  · rw [hr] at hu
    exact hu

/-- Who a packet comes from. Its stream decides for a vital packet, and the player that it
names for any other. -/
theorem sender?_eq_some (h : r.Sound) (hs : r.sender? p source = some pl) :
    (p.isVital = true ∧ ∃ c, source = .stream c ∧ pl.connection = c ∧
        (r.players.get? pl.id = some pl ∧ r.byConnection.get? c = some pl.id ∨
          r.pending.get? c = some pl ∧ pl = { connection := c })) ∨
      p.isVital = false ∧ p.sender? = some pl.id ∧ r.players.get? pl.id = some pl := by
  unfold sender? at hs
  split at hs
  · next hv =>
    refine Or.inl ⟨hv, ?_⟩
    split at hs
    · next c =>
      refine ⟨c, rfl, ?_⟩
      cases hc : r.onConnection? c with
      | some pl' =>
        rw [hc] at hs
        cases hs
        obtain ⟨id, hb, hp⟩ := Option.bind_eq_some_iff.mp hc
        obtain ⟨rfl, -⟩ := h.placed id pl hp
        obtain ⟨pl', hp', hc'⟩ := h.held c pl.id hb
        rw [hp] at hp'
        cases hp'
        exact ⟨hc', Or.inl ⟨hp, hb⟩⟩
      | none =>
        rw [hc] at hs
        have hs : r.pending.get? c = some pl := hs
        obtain ⟨rfl, -⟩ := h.waiting c pl hs
        exact ⟨rfl, Or.inr ⟨hs, rfl⟩⟩
    · cases hs
  · next hv =>
    obtain ⟨id, hi, hp⟩ := Option.bind_eq_some_iff.mp hs
    obtain ⟨rfl, -⟩ := h.placed id pl hp
    exact Or.inr ⟨Bool.not_eq_true _ ▸ hv, hi, hp⟩

end Roster

end SharedWorld
