import SharedWorld.Proofs.Atlas.Run

/-! # Whose characters are in the worlds

A character that has a player is the character of that player as a member. So a player who
leaves takes its character along, and nothing in the worlds bears its number any more.
-/

namespace SharedWorld

namespace World

variable {w w' : World}

/-- Characters that have a player are the characters of members. -/
def Owned (w : World) : Prop :=
  ∀ k c, w.characters.get? k = some c → c.presence.player.isPlayer →
    ∃ m, w.members.get? c.presence.player = some m ∧ m.character = k

theorem owned_create (config : WorldConfig) (sync : SyncConfig) (ids : EntityIds) :
    (create config sync ids).1.Owned := by
  intro k c hk
  cases hk

theorem Owned.alter (h : w.Owned) {characters : Table EntityId Character}
    (hc : ∀ k c', characters.get? k = some c' →
      ∃ c, w.characters.get? k = some c ∧ c'.presence.player = c.presence.player) :
    Owned { w with characters } := by
  intro k c' hk hp
  obtain ⟨c, hk, he⟩ := hc k c' hk
  rw [he] at hp ⊢
  exact h k c hk hp

theorem Owned.change (h : w.Owned) (hw : w.Change w') : w'.Owned := by
  cases hw with
  | nothing => exact h
  | enter p e hn =>
    intro k c hk hp
    obtain ⟨rfl, rfl⟩ | ⟨-, hk⟩ := Table.get?_insert_eq_some_iff.mp hk
    · exact ⟨memberOf p k, Table.get?_insert_self .., rfl⟩
    · obtain ⟨m, hm, he⟩ := h k c hk hp
      refine ⟨m, Table.get?_insert_eq_some_iff.mpr (Or.inr ⟨fun hpe => ?_, hm⟩), he⟩
      rw [hpe, hn] at hm
      cases hm
  | appear =>
    intro k c hk hp
    obtain ⟨rfl, rfl⟩ | ⟨-, hk⟩ := Table.get?_insert_eq_some_iff.mp hk
    · cases hp
    · exact h k c hk hp
  | alter e hf =>
    refine h.alter fun k c' hk => ?_
    rw [Table.get?_modify] at hk
    split at hk
    · obtain ⟨c, hc, rfl⟩ := Option.map_eq_some_iff.mp hk
      exact ⟨c, hc, (hf c).player⟩
    · exact ⟨c', hk, rfl⟩
  | vanish e => exact h.alter fun k c' hk => ⟨c', (Table.get?_erase_eq_some_iff.mp hk).2, rfl⟩
  | @leave p m hm =>
    intro k c hk hp
    obtain ⟨hne, hk⟩ := Table.get?_erase_eq_some_iff.mp hk
    obtain ⟨m', hm', he⟩ := h k c hk hp
    refine ⟨m', Table.get?_erase_eq_some_iff.mpr ⟨fun hpe => hne ?_, hm'⟩, he⟩
    rw [hpe, hm] at hm'
    cases hm'
    exact he.symm
  | @readdress p m hm address =>
    intro k c hk hp
    obtain ⟨m', hm', he⟩ := h k c hk hp
    by_cases hpe : c.presence.player = p
    · rw [hpe, hm] at hm'
      cases hm'
      refine ⟨{ m with address := some address }, ?_, he⟩
      rw [hpe]
      exact Table.get?_insert_self ..
    · exact ⟨m', Table.get?_insert_eq_some_iff.mpr (Or.inr ⟨hpe, hm'⟩), he⟩
  | write => exact h
  | tick clock =>
    intro k c' hk hp
    have hk : ((w.characters.map (·.tick clock.frame)).map settle).get? k = some c' := hk
    rw [Table.get?_map, Table.get?_map, Option.map_map] at hk
    obtain ⟨c, hc, rfl⟩ := Option.map_eq_some_iff.mp hk
    have he := (sameIdentity_settle_tick c clock.frame).player
    simp only [Function.comp_apply] at hp ⊢
    rw [he] at hp ⊢
    exact h k c hc hp

end World

namespace Atlas

variable {a : Atlas}

def Owned (ws : Table String World) : Prop := ∀ V w, ws.get? V = some w → w.Owned

theorem Owned.insert {ws : Table String World} (h : Owned ws) {w : World} (hw : w.Owned)
    (W : String) : Owned (ws.insert W w) := by
  intro V v hv
  obtain ⟨-, rfl⟩ | ⟨-, hv⟩ := Table.get?_insert_eq_some_iff.mp hv
  · exact hw
  · exact h V v hv

theorem Owned.step (ho : Owned a.worlds) (h : a.Sound) (e : Event) :
    Owned (a.step e).1.worlds := by
  have := perform_induction (I := fun ws _ => Owned ws) a.worlds (a.acts e)
    (fun ws sent x w _ hw ho => ho.insert ((ho _ w hw).change (World.change_step w x.2)) x.1) [] ho
  rwa [perform_acts h] at this

theorem owned_of_create {configs : List WorldConfig} {starting : String} {sync : SyncConfig}
    (h : create configs starting sync = .ok a) : Owned a.worlds := by
  obtain ⟨b, hb, h⟩ := Except.bind_eq_ok_iff.mp h
  have ho : Owned b.worlds := by
    refine Except.foldlM_induction (I := fun b => Owned b.worlds) (fun b config b' hb h => ?_) hb
      nofun
    split at h <;> cases h
    exact hb.insert (World.owned_create config sync b.ids) _
  split at h <;> cases h
  exact ho

theorem Owned.not_mem (h : Owned a.worlds) {q : PlayerId} (hn : ∀ V, a.member? V q = none)
    {V : String} {w : World} (hw : a.worlds.get? V = some w) {k : EntityId} {c : Character}
    (hc : w.characters.get? k = some c) (hp : c.presence.player.isPlayer) :
    c.presence.player ≠ q := by
  rintro rfl
  obtain ⟨m, hm, -⟩ := h V w hw k c hc hp
  have := hn V
  rw [member?, hw] at this
  rw [show w.members.get? c.presence.player = none from this] at hm
  cases hm

end Atlas

end SharedWorld
