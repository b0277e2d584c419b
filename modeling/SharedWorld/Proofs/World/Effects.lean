import SharedWorld.World.Inbound
import SharedWorld.World.Membership
import SharedWorld.World.Tick

/-! # What operations change in a world

One equation for each operation: which records it replaces, and under which guards.
Everything that an equation does not name is unchanged.
-/

namespace SharedWorld

theorem Except.bind_eq_ok_iff {ε α β : Type} {x : Except ε α} {f : α → Except ε β} {b : β} :
    x >>= f = .ok b ↔ ∃ a, x = .ok a ∧ f a = .ok b := by
  cases x with
  | error e =>
    constructor
    · rintro ⟨⟩
    · rintro ⟨a, ⟨⟩, _⟩
  | ok a =>
    constructor
    · intro h
      exact ⟨a, rfl, h⟩
    · rintro ⟨_, ⟨⟩, h⟩
      exact h

theorem Except.foldlM_induction {ε α β : Type} {I : β → Prop} {f : β → α → Except ε β}
    (hf : ∀ b a b', I b → f b a = .ok b' → I b') {as : List α} {b b' : β}
    (h : as.foldlM f b = .ok b') (hb : I b) : I b' := by
  induction as generalizing b with
  | nil =>
    cases h
    exact hb
  | cons a as ih =>
    rw [List.foldlM_cons] at h
    obtain ⟨b₁, h₁, h⟩ := Except.bind_eq_ok_iff.mp h
    exact ih h (hf b a b₁ hb h₁)

namespace Character

def moved (c : Character) (time : UInt64) (position : Position) : Character :=
  { c with presence := { c.presence with lastUpdate := time }, position }

/-- Two states of one character. -/
structure SameIdentity (c c' : Character) : Prop where
  entity : c'.presence.entity = c.presence.entity
  type : c'.presence.type = c.presence.type
  player : c'.presence.player = c.presence.player

theorem SameIdentity.refl (c : Character) : c.SameIdentity c := ⟨rfl, rfl, rfl⟩

end Character

namespace World

variable {w w' : World} {p : PlayerId} {sent : List Envelope} {wall : UInt64}

def memberOf (p : Player) (character : EntityId) : Member :=
  { player := p.id, name := p.name, connection := p.connection, address := p.address, character }

theorem member_eq_ok_iff {m : Member} : w.member p = .ok m ↔ w.members.get? p = some m := by
  unfold member
  cases w.members.get? p <;> simp

theorem addPlayer_eq_ok {ids : EntityIds} {p : Player} {entity : Option EntityId}
    {s : Step World (EntityId × EntityIds)} (h : w.addPlayer ids p entity = .ok s) :
    w.members.get? p.id = none ∧
      s.value = entity.elim ids.take (·, ids) ∧
      s.state = { w with
        characters := w.characters.insert s.value.1
          (w.newCharacter s.value.1 p.id w.spawn playerCharacterType)
        members := w.members.insert p.id (memberOf p s.value.1) } := by
  unfold addPlayer at h
  split at h
  · cases h
  · next hc =>
    cases h
    refine ⟨by simpa [Table.contains_eq] using hc, ?_⟩
    cases entity <;> exact ⟨rfl, rfl⟩

theorem sent_addPlayer {ids : EntityIds} {p : Player} {entity : Option EntityId}
    {s : Step World (EntityId × EntityIds)} (h : w.addPlayer ids p entity = .ok s) :
    s.sent = (w.insertCharacter (w.newCharacter s.value.1 p.id w.spawn playerCharacterType)).2 ++
      [{ target := .stream p.connection, packet := .loadWorld w.name }] := by
  unfold addPlayer at h
  split at h
  · cases h
  · cases h
    rfl

theorem addPlayer_isOk {p : Player} (ids : EntityIds) (entity : Option EntityId)
    (h : w.members.get? p.id = none) : ∃ s, w.addPlayer ids p entity = .ok s := by
  unfold addPlayer
  rw [if_neg (by simp [Table.contains_eq, h])]
  exact ⟨_, rfl⟩

theorem removeEntity_eq_ok {e : EntityId} (h : w.removeEntity e = .ok (w', sent)) :
    (w.characters.get? e).isSome ∧ w' = { w with characters := w.characters.erase e } := by
  unfold removeEntity at h
  split at h
  · next hc =>
    cases h
    exact ⟨hc, rfl⟩
  · cases h

theorem removeEntity_isOk {e : EntityId} (h : (w.characters.get? e).isSome) :
    ∃ sent, w.removeEntity e = .ok ({ w with characters := w.characters.erase e }, sent) := by
  unfold removeEntity
  rw [Table.contains_eq, if_pos h]
  exact ⟨_, rfl⟩

theorem removePlayer_eq_ok {s : Step World Member} (h : w.removePlayer p wall = .ok s) :
    w.members.get? p = some s.value ∧
      s.state = { w with
        members := w.members.erase p
        characters := w.characters.erase s.value.character } := by
  unfold removePlayer at h
  split at h
  · cases h
  · next m hm =>
    dsimp only at h
    split at h
    · next hr =>
      cases h
      exact ⟨hm, (removeEntity_eq_ok hr).2⟩
    · next hr =>
      cases h
      refine ⟨hm, ?_⟩
      -- There was no character to remove, so removing it changes nothing.
      have hn : w.characters.get? m.character = none := by
        refine Option.not_isSome_iff_eq_none.mp fun hs => ?_
        obtain ⟨_, ho⟩ := removeEntity_isOk (w := { w with members := w.members.erase p }) hs
        rw [ho] at hr
        cases hr
      dsimp only
      rw [Table.erase_eq_self hn]

theorem removePlayer_isOk {m : Member} (wall : UInt64) (h : w.members.get? p = some m) :
    ∃ s, w.removePlayer p wall = .ok s ∧ s.value = m := by
  unfold removePlayer
  rw [h]
  dsimp only
  split <;> exact ⟨_, rfl, rfl⟩

theorem setAddress_eq_ok {a : Address} (h : w.setAddress p a = .ok w') :
    ∃ m, w.members.get? p = some m ∧
      w' = { w with members := w.members.insert p { m with address := some a } } := by
  unfold setAddress at h
  split at h
  · cases h
  · next m hm =>
    cases h
    exact ⟨m, hm, rfl⟩

theorem setAddress_isOk {m : Member} (a : Address) (h : w.members.get? p = some m) :
    ∃ w', w.setAddress p a = .ok w' := by
  unfold setAddress
  rw [h]
  exact ⟨_, rfl⟩

theorem setPlot_eq_ok {island layer : Nat} {x y : UInt32} {plot : Plot} {time logged : UInt64}
    (h : w.setPlot island layer x y plot time = .ok (w', logged)) :
    ∃ i i', w.islands[island]? = some i ∧ i.setPlot layer x y plot time = .ok (i', logged) ∧
      w' = { w with islands := w.islands.set island i' } := by
  unfold setPlot at h
  split at h
  · cases h
  · next i hi =>
    obtain ⟨⟨i', t⟩, hs, ho⟩ := Except.bind_eq_ok_iff.mp h
    cases ho
    exact ⟨i, i', hi, hs, rfl⟩

theorem worldLoaded_eq_ok (h : w.worldLoaded p wall = .ok (w', sent)) :
    ∃ m, w.members.get? p = some m ∧
      w' = { w with characters := w.characters.modify m.character Character.rearm } := by
  obtain ⟨m, hm, ho⟩ := Except.bind_eq_ok_iff.mp h
  cases ho
  exact ⟨m, member_eq_ok_iff.mp hm, rfl⟩

theorem ownUpdate_eq_ok {u : OwnUpdate} {taken : Bool} (h : w.ownUpdate p u = .ok (w', taken)) :
    ∃ m, w.members.get? p = some m ∧ u.entity = m.character ∧
      (taken = false ∧ w' = w ∨
        taken = true ∧ ∃ report c, PositionReport.ofBlob u.data = .ok report ∧
          report.world = w.name ∧ w.characters.get? m.character = some c ∧
          c.presence.lastUpdate < u.time ∧
          w' = { w with
            characters := w.characters.modify m.character (·.moved u.time report.position) }) := by
  obtain ⟨m, hm, h⟩ := Except.bind_eq_ok_iff.mp h
  dsimp only at h
  refine ⟨m, member_eq_ok_iff.mp hm, ?_⟩
  by_cases hne : u.entity ≠ m.character
  · rw [if_pos hne] at h
    cases h
  have he := Decidable.not_not.mp hne
  rw [if_neg hne, he] at h
  refine ⟨he, ?_⟩
  obtain ⟨report, hr, h⟩ := Except.bind_eq_ok_iff.mp h
  by_cases hw : report.world ≠ w.name
  · rw [if_pos hw] at h
    cases h
    exact Or.inl ⟨rfl, rfl⟩
  rw [if_neg hw] at h
  split at h
  · cases h
  next c hc =>
  unfold Presence.accept? at h
  by_cases ht : u.time ≤ c.presence.lastUpdate
  · rw [if_pos ht] at h
    cases h
    exact Or.inl ⟨rfl, rfl⟩
  · rw [if_neg ht] at h
    cases h
    refine Or.inr ⟨rfl, report, c, hr, Decidable.not_not.mp hw, hc, UInt64.not_le.mp ht, ?_⟩
    rw [← Table.insert_eq_modify hc]
    rfl

/-- The only packets that change a world are a member's report on its own character and its
word that it has loaded the world. -/
theorem handle_eq_ok {k : Packet} (h : w.handle p k wall = .ok (w', sent)) :
    w' = w ∨
      (∃ m, k = .worldLoaded ∧ w.members.get? p = some m ∧
        w' = { w with characters := w.characters.modify m.character Character.rearm }) ∨
      ∃ u m report c, k = .ownUpdate u ∧ w.members.get? p = some m ∧ u.entity = m.character ∧
        PositionReport.ofBlob u.data = .ok report ∧ report.world = w.name ∧
        w.characters.get? m.character = some c ∧ c.presence.lastUpdate < u.time ∧
        w' = { w with
          characters := w.characters.modify m.character (·.moved u.time report.position) } := by
  unfold handle at h
  split at h
  · obtain ⟨m, hm, rfl⟩ := worldLoaded_eq_ok h
    exact Or.inr (Or.inl ⟨m, rfl, hm, rfl⟩)
  · next u =>
    obtain ⟨⟨v, taken⟩, hu, ho⟩ := Except.bind_eq_ok_iff.mp h
    cases ho
    obtain ⟨m, hm, he, ⟨-, rfl⟩ | ⟨-, report, c, hr, hw, hc, ht, rfl⟩⟩ := ownUpdate_eq_ok hu
    · exact Or.inl rfl
    · exact Or.inr (Or.inr ⟨u, m, report, c, rfl, hm, he, hr, hw, hc, ht, rfl⟩)
  · obtain ⟨said, -, ho⟩ := Except.bind_eq_ok_iff.mp h
    cases ho
    exact Or.inl rfl
  · cases h
    exact Or.inl rfl

theorem members_handle {k : Packet} (h : w.handle p k wall = .ok (w', sent)) :
    w'.members = w.members := by
  obtain rfl | ⟨m, -, -, rfl⟩ | ⟨u, m, report, c, -, -, -, -, -, -, -, rfl⟩ := handle_eq_ok h <;>
    rfl

end World

end SharedWorld
