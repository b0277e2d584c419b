import SharedWorld.Proofs.World.Notices

/-! # The gate of a character

A character remembers the time of the newest report taken from its owner. Only making the
character anew or taking it away loses that time, and only such an event can make two members
share it.
-/

namespace SharedWorld

namespace World

variable {w : World} {k : EntityId} {c : Character} {q : PlayerId} {ev : Event}

/-- The event neither makes the character anew nor takes it away. -/
def Event.Spares (w : World) (k : EntityId) : Event → Prop
  | .addPlayer ids _ entity => entity.getD ids.take.1 ≠ k
  | .addCharacter ids _ _ => ids.take.1 ≠ k
  | .removePlayer player _ => ∀ m, w.members.get? player = some m → m.character ≠ k
  | .removeEntity entity => entity ≠ k
  | _ => True

def Sole (w : World) (k : EntityId) (q : PlayerId) : Prop :=
  ∀ p m, w.members.get? p = some m → m.character = k → p = q

theorem spared_modify {f : Character → Character} {k' : EntityId}
    (hi : ∀ c : Character, c.SameIdentity (f c))
    (hf : k = k' → c.presence.lastUpdate ≤ (f c).presence.lastUpdate)
    (hc : w.characters.get? k = some c) : ∃ c', (w.characters.modify k' f).get? k = some c' ∧
      c.SameIdentity c' ∧ c.presence.lastUpdate ≤ c'.presence.lastUpdate := by
  rw [Table.get?_modify, hc]
  split
  · next hk => exact ⟨f c, rfl, hi c, hf hk⟩
  · exact ⟨c, rfl, .refl c, UInt64.le_refl _⟩

theorem spared_step (hs : ev.Spares w k) (hc : w.characters.get? k = some c) :
    ∃ c', (w.step ev).1.characters.get? k = some c' ∧
      c.SameIdentity c' ∧ c.presence.lastUpdate ≤ c'.presence.lastUpdate := by
  have h := makes_step w ev
  generalize (w.step ev).1 = w' at h ⊢
  have same {t : Table EntityId Character} (ht : t.get? k = w.characters.get? k) :
      ∃ c', t.get? k = some c' ∧
        c.SameIdentity c' ∧ c.presence.lastUpdate ≤ c'.presence.lastUpdate :=
    ⟨c, ht.trans hc, .refl c, UInt64.le_refl _⟩
  cases h with
  | enter hn => exact same (by rw [Table.get?_insert, if_neg (Ne.symm hs)])
  | appear => exact same (by rw [Table.get?_insert, if_neg (Ne.symm hs)])
  | leave hm => exact same (by rw [Table.get?_erase, if_neg (Ne.symm (hs _ hm))])
  | vanish => exact same (by rw [Table.get?_erase, if_neg (Ne.symm hs)])
  | edit => exact spared_modify (fun _ => ⟨rfl, rfl, rfl⟩) (fun _ => UInt64.le_refl _) hc
  | load => exact spared_modify (fun _ => ⟨rfl, rfl, rfl⟩) (fun _ => UInt64.le_refl _) hc
  | report position hm hu hc₀ ht =>
    refine spared_modify (fun _ => ⟨rfl, rfl, rfl⟩) (fun hk => ?_) hc
    rw [← hk, hc] at hc₀
    obtain rfl := Option.some.inj hc₀
    exact UInt64.le_of_lt ht
  | tick clock =>
    refine ⟨settle (c.tick clock.frame), ?_, sameIdentity_settle_tick c clock.frame, ?_⟩
    · change ((w.characters.map (·.tick clock.frame)).map settle).get? k = _
      simp [hc]
    · unfold settle
      split <;> exact UInt64.le_refl _
  | nothing | readdress | write => exact same rfl

theorem sole_step (h : w.Sole k q) (hs : ev.Spares w k) : (w.step ev).1.Sole k q := by
  have hmakes := makes_step w ev
  generalize (w.step ev).1 = w' at hmakes ⊢
  intro p' m' hm' hk
  cases hmakes with
  | enter hn =>
    obtain ⟨rfl, rfl⟩ | ⟨-, hm'⟩ := Table.get?_insert_eq_some_iff.mp hm'
    · exact absurd hk hs
    · exact h p' m' hm' hk
  | leave hm => exact h p' m' (Table.get?_erase_eq_some_iff.mp hm').2 hk
  | @readdress p m hm a =>
    obtain ⟨rfl, rfl⟩ | ⟨-, hm'⟩ := Table.get?_insert_eq_some_iff.mp hm'
    · exact h _ m hm hk
    · exact h p' m' hm' hk
  | _ => exact h p' m' hm' hk

end World

end SharedWorld
