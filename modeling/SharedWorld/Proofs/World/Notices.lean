import SharedWorld.Proofs.World.Characters

/-! # What members hear of the characters

Whatever a world says of a character it says while the character is there, and a notice that
a character is gone is only sent when it is gone. A member that stays through an event is
told on its stream of every character that came with it, and of every one that went.
-/

namespace SharedWorld

namespace World

def Live (w : World) (k : EntityId) : Prop := (w.characters.get? k).isSome

instance (w : World) (k : EntityId) : Decidable (w.Live k) := inferInstanceAs (Decidable (_ = true))

def Event.moves? : Event → Option PlayerId
  | .addPlayer _ p _ => some p.id
  | .removePlayer player _ => some player
  | _ => none

/-- What an event may send: a packet and its delay. -/
inductive Sends (w w' : World) : Packet → UInt64 → Prop
  | details {k : EntityId} {c : Character} (hk : w'.characters.get? k = some c) :
      Sends w w' (.setDetails k w.name c.appearance) 0
  | tiles (now : Micros) : Sends w w' (.entityUpdate (w.tileUpdate now)) 0
  | update {k : EntityId} {c : Character} (frame now : Micros)
      (hc : w.characters.get? k = some c) (hk : w'.Live k) :
      Sends w w' (.entityUpdate ((c.tick frame).snapshot w.name now)) 0
  | removed {k : EntityId} (delay : UInt64) (hw : w.Live k) (hk : ¬ w'.Live k) :
      Sends w w' (.removeEntity k w.name) delay
  | load : Sends w w' (.loadWorld w.name) 0
  | joined (player : PlayerId) : Sends w w' (.joined player w.name) 0
  | left (player : PlayerId) : Sends w w' (.left player w.name) 0
  | chat (user message : String) (time : UInt64) : Sends w w' (.relayChat user message time) 0

variable {w w' : World} {k : EntityId} {x : Envelope} {sent : List Envelope} {wall : UInt64}
  {player : PlayerId} {ev : Event}

theorem mem_sendAll_stream {p : Packet} (hp : p.isVital) {m : Member}
    (hm : w.members.get? player = some m) (delay : UInt64) (force : Bool) :
    { target := .stream m.connection, packet := p, delay } ∈ w.sendAll p none delay force := by
  refine mem_sendAll.mpr ⟨m, Table.mem_values_iff.mpr ⟨player, hm⟩, nofun, _, ?_, rfl⟩
  rw [hp]
  rfl

theorem sends_of_mem_sendAll {p : Packet} {except : Option PlayerId} {delay : UInt64}
    {force : Bool} {v : World} (hp : w.Sends w' p delay) (h : x ∈ v.sendAll p except delay force) :
    w.Sends w' x.packet x.delay := by
  obtain ⟨hk, hd⟩ := eq_of_mem_sendAll h
  rw [hk, hd]
  exact hp

theorem sends_of_mem_sendDetails {v : World} (hn : v.name = w.name)
    (hc : v.characters = w'.characters) (h : x ∈ v.sendDetails k) :
    w.Sends w' x.packet x.delay := by
  unfold sendDetails at h
  split at h
  · cases h
  · next c hk =>
    refine sends_of_mem_sendAll ?_ h
    rw [hn]
    exact .details (hc ▸ hk)

theorem sends_removeEntity {v : World} (hn : v.name = w.name)
    (hc : v.characters = w.characters) (h : v.removeEntity k = .ok (w', sent)) (hx : x ∈ sent) :
    w.Sends w' x.packet x.delay := by
  unfold removeEntity at h
  split at h
  · next hk =>
    cases h
    have hp (delay : UInt64) : w.Sends { v with characters := v.characters.erase k }
        (.removeEntity k v.name) delay := by
      rw [hn]
      exact .removed delay (by rw [Live, ← hc]; exact hk) (by simp [Live, Table.get?_erase])
    rcases List.mem_append.mp hx with hx | hx <;> exact sends_of_mem_sendAll (hp _) hx
  · cases h

theorem sends_removePlayer {s : Step World Member} (h : w.removePlayer player wall = .ok s)
    (hx : x ∈ s.sent) : w.Sends s.state x.packet x.delay := by
  unfold removePlayer at h
  split at h
  · cases h
  next m hm =>
  dsimp only at h
  have hsaid {v : World} (hx : x ∈ v.sendAll (.left player w.name) (some player) 0 false ++
      v.sendChat ("Player \x60" ++ m.name ++ "\x60 has left this world.") systemName
        (some player) wall) : w.Sends s.state x.packet x.delay := by
    rcases List.mem_append.mp hx with hx | hx
    · exact sends_of_mem_sendAll (.left player) hx
    · exact sends_of_mem_sendAll (.chat ..) hx
  split at h
  · next hr =>
    cases h
    rcases List.mem_append.mp hx with hx | hx
    · exact hsaid hx
    · refine sends_removeEntity ?_ ?_ hr hx <;> rfl
  · cases h
    exact hsaid hx

theorem sends_addPlayer {ids : EntityIds} {p : Player} {entity : Option EntityId}
    {s : Step World (EntityId × EntityIds)} (h : w.addPlayer ids p entity = .ok s)
    (hx : x ∈ s.sent) : w.Sends s.state x.packet x.delay := by
  obtain ⟨-, -, hs⟩ := addPlayer_eq_ok h
  rw [sent_addPlayer h] at hx
  rcases List.mem_append.mp hx with hx | hx
  · refine sends_of_mem_sendDetails ?_ ?_ hx
    · rfl
    · rw [hs]
      rfl
  · rw [List.mem_singleton.mp hx]
    exact .load

theorem sends_handle {p : Packet} (h : w.handle player p wall = .ok (w', sent)) (hx : x ∈ sent) :
    w.Sends w' x.packet x.delay := by
  unfold handle at h
  split at h
  · obtain ⟨m, -, ho⟩ := Except.bind_eq_ok_iff.mp h
    cases ho
    rcases List.mem_append.mp hx with hx | hx
    · rcases List.mem_append.mp hx with hx | hx
      · exact sends_of_mem_sendAll (.joined player) hx
      · obtain ⟨k, -, hx⟩ := List.mem_flatMap.mp hx
        refine sends_of_mem_sendDetails ?_ ?_ hx <;> rfl
    · exact sends_of_mem_sendAll (.chat ..) hx
  · obtain ⟨_, -, ho⟩ := Except.bind_eq_ok_iff.mp h
    cases ho
    cases hx
  · obtain ⟨said, hs, ho⟩ := Except.bind_eq_ok_iff.mp h
    cases ho
    obtain ⟨m, -, ho⟩ := Except.bind_eq_ok_iff.mp hs
    cases ho
    exact sends_of_mem_sendAll (.chat ..) hx
  · cases h
    cases hx

theorem live_tick (clock : Clock) : (w.tick clock).1.Live k ↔ w.Live k := by
  change (((w.characters.map (·.tick clock.frame)).map settle).get? k).isSome ↔ _
  simp [Live]

theorem sends_tick {clock : Clock} (hx : x ∈ (w.tick clock).2) :
    w.Sends (w.tick clock).1 x.packet x.delay := by
  rcases List.mem_append.mp hx with hx | hx
  · split at hx
    · exact sends_of_mem_sendAll (.tiles clock.total) hx
    · cases hx
  · obtain ⟨c', hc', hx⟩ := List.mem_flatMap.mp hx
    obtain ⟨k, hk⟩ := Table.mem_values_iff.mp hc'
    rw [Table.get?_map] at hk
    obtain ⟨c, hc, rfl⟩ := Option.map_eq_some_iff.mp hk
    unfold announce at hx
    split at hx
    · have hl := (live_tick clock).mpr (Option.isSome_of_eq_some hc)
      exact sends_of_mem_sendAll (.update clock.frame clock.total hc hl) hx
    · cases hx

theorem sends_step (hx : x ∈ (w.step ev).2) : w.Sends (w.step ev).1 x.packet x.delay := by
  have keep {α : Type} {r : Except WorldError α} {f : α → World × List Envelope}
      (hr : ∀ a, r = .ok a → ∀ x ∈ (f a).2, w.Sends (f a).1 x.packet x.delay) :
      ∀ x ∈ (w.orKeep r f).2, w.Sends (w.orKeep r f).1 x.packet x.delay :=
    orKeep_induction (P := fun out => ∀ x ∈ out.2, w.Sends out.1 x.packet x.delay) nofun hr
  cases ev with
  | addPlayer ids p entity => exact keep (fun _ hs _ => sends_addPlayer hs) x hx
  | addCharacter ids position type => refine sends_of_mem_sendDetails ?_ ?_ hx <;> rfl
  | edit => cases hx
  | removePlayer player wall => exact keep (fun _ hs _ => sends_removePlayer hs) x hx
  | removeEntity entity => exact keep (fun _ hs _ => sends_removeEntity rfl rfl hs) x hx
  | setAddress player a => exact keep (fun _ _ _ hx => absurd hx List.not_mem_nil) x hx
  | packet player p wall => exact keep (fun _ hs _ => sends_handle hs) x hx
  | setPlot island layer x y plot time =>
    exact keep (fun _ _ _ hx => absurd hx List.not_mem_nil) _ hx
  | tick clock => exact sends_tick hx

theorem live_of_tells (h : w.Keyed) {world : String} (hx : x ∈ (w.step ev).2)
    (ht : x.packet.Describes k world ∨ x.packet.Shows k world) :
    world = w.name ∧ (w.step ev).1.Live k ∧ x.delay = 0 := by
  have hs := sends_step hx
  obtain ⟨target, p, delay⟩ := x
  rcases ht with ⟨a, rfl⟩ | ⟨u, rfl, ht, rfl, rfl⟩
  · cases hs with
    | details hk => exact ⟨rfl, Option.isSome_of_eq_some hk, rfl⟩
  · cases hs with
    | tiles now => cases ht
    | update frame now hc hk =>
      have he := (h _ _ hc).1
      rw [← he] at hk
      exact ⟨rfl, hk, rfl⟩

theorem gone_of_removal {world : String} (hx : x ∈ (w.step ev).2)
    (hr : x.packet = .removeEntity k world) : world = w.name ∧ ¬ (w.step ev).1.Live k := by
  have hs := sends_step hx
  rw [hr] at hs
  cases hs with
  | removed delay hw hk => exact ⟨rfl, hk⟩

/-- What a stream is told of the characters that come and go. -/
structure Reports (w w' : World) (sent : List Envelope) (c : ConnectionId) : Prop where
  come : ∀ k, w'.Live k → w.Live k ∨
    ∃ a, { target := .stream c, packet := .setDetails k w.name a } ∈ sent
  gone : ∀ k, w.Live k → w'.Live k ∨
    { target := .stream c, packet := .removeEntity k w.name } ∈ sent

variable {c : ConnectionId} {m : Member}

theorem reports_of_live_iff (h : ∀ k, w'.Live k ↔ w.Live k) : w.Reports w' sent c :=
  ⟨fun k hk => Or.inl ((h k).mp hk), fun k hk => Or.inl ((h k).mpr hk)⟩

theorem live_modify {f : Character → Character} {k' : EntityId} :
    Live { w with characters := w.characters.modify k' f } k ↔ w.Live k := by
  simp [Live]

theorem mem_sendDetails {ch : Character} (hm : w.members.get? player = some m)
    (hk : w.characters.get? k = some ch) :
    { target := .stream m.connection, packet := .setDetails k w.name ch.appearance } ∈
      w.sendDetails k := by
  unfold sendDetails
  rw [hk]
  exact mem_sendAll_stream rfl hm 0 false

theorem reports_insertCharacter {ch : Character} (hm : w.members.get? player = some m)
    (h : w'.characters = (w.insertCharacter ch).1.characters)
    (hs : (w.insertCharacter ch).2 ⊆ sent) : w.Reports w' sent m.connection := by
  have hc (k : EntityId) : w'.characters.get? k =
      if k = ch.presence.entity then some ch else w.characters.get? k := by
    rw [h]
    exact Table.get?_insert ..
  constructor
  · intro k hk
    by_cases he : k = ch.presence.entity
    · subst he
      refine Or.inr ⟨ch.appearance, hs ?_⟩
      exact mem_sendDetails (w := (w.insertCharacter ch).1) hm (Table.get?_insert_self ..)
    · rw [Live, hc, if_neg he] at hk
      exact Or.inl hk
  · intro k hk
    rw [Live, hc]
    split
    · exact Or.inl rfl
    · exact Or.inl hk

theorem reports_removeEntity {v : World} (hn : v.name = w.name)
    (hc : v.characters = w.characters) (hm : v.members.get? player = some m) {e : EntityId}
    {removal : List Envelope} (h : v.removeEntity e = .ok (w', removal)) (hs : removal ⊆ sent) :
    w.Reports w' sent m.connection := by
  obtain ⟨-, hw⟩ := removeEntity_eq_ok h
  have hlive (k : EntityId) : w'.Live k ↔ k ≠ e ∧ w.Live k := by
    rw [hw, Live, Live, ← hc, Table.get?_erase]
    split <;> simp [*]
  constructor
  · intro k hk
    exact Or.inl ((hlive k).mp hk).2
  · intro k hk
    by_cases he : k = e
    · subst he
      refine Or.inr (hs ?_)
      unfold removeEntity at h
      split at h
      · cases h
        rw [← hn]
        exact List.mem_append_left _ (mem_sendAll_stream rfl hm 0 false)
      · cases h
    · exact Or.inl ((hlive k).mpr ⟨he, hk⟩)

theorem reports_removePlayer {q : PlayerId} {s : Step World Member}
    (hm : w.members.get? player = some m) (hne : player ≠ q)
    (h : w.removePlayer q wall = .ok s) : w.Reports s.state s.sent m.connection := by
  unfold removePlayer at h
  split at h
  · cases h
  dsimp only at h
  split at h
  · next hr =>
    cases h
    have hm : ({ w with members := w.members.erase q } : World).members.get? player = some m := by
      rw [Table.get?_erase, if_neg hne, hm]
    refine reports_removeEntity ?_ ?_ hm hr (List.subset_append_right ..) <;> rfl
  · cases h
    exact reports_of_live_iff fun _ => .rfl

theorem reports_step (hm : w.members.get? player = some m) (hp : ev.moves? ≠ some player) :
    w.Reports (w.step ev).1 (w.step ev).2 m.connection := by
  have keep {α : Type} {r : Except WorldError α} {f : α → World × List Envelope}
      (hr : ∀ a, r = .ok a → w.Reports (f a).1 (f a).2 m.connection) :
      w.Reports (w.orKeep r f).1 (w.orKeep r f).2 m.connection :=
    orKeep_induction (P := fun out => w.Reports out.1 out.2 m.connection)
      (reports_of_live_iff fun _ => .rfl) hr
  cases ev with
  | addPlayer ids p entity =>
    refine keep fun s hs => ?_
    obtain ⟨-, -, hst⟩ := addPlayer_eq_ok hs
    have hc : s.state.characters = (w.insertCharacter
        (w.newCharacter s.value.1 p.id w.spawn playerCharacterType)).1.characters := by
      rw [hst]
      rfl
    refine reports_insertCharacter hm hc ?_
    rw [sent_addPlayer hs]
    exact List.subset_append_left ..
  | addCharacter ids position type =>
    exact reports_insertCharacter hm rfl (List.Subset.refl _)
  | edit => exact reports_of_live_iff fun _ => live_modify
  | removePlayer p wall =>
    have hne : player ≠ p := fun he => hp (by rw [he]; rfl)
    exact keep fun s hs => reports_removePlayer hm hne hs
  | removeEntity entity =>
    exact keep fun s hs => reports_removeEntity rfl rfl hm hs (List.Subset.refl _)
  | setAddress player a =>
    refine keep fun s hs => ?_
    obtain ⟨m, -, rfl⟩ := setAddress_eq_ok hs
    exact reports_of_live_iff fun _ => .rfl
  | packet player p wall =>
    refine keep fun s hs => ?_
    refine reports_of_live_iff fun k => ?_
    obtain h | ⟨_, -, -, h⟩ | ⟨_, _, _, _, -, -, -, -, -, -, -, h⟩ := handle_eq_ok hs <;>
      rw [id, h]
    · exact live_modify
    · exact live_modify
  | setPlot island layer x y plot time =>
    refine keep fun s hs => ?_
    obtain ⟨_, _, -, -, h⟩ := setPlot_eq_ok hs
    dsimp only
    rw [h]
    exact reports_of_live_iff fun _ => .rfl
  | tick clock => exact reports_of_live_iff fun _ => live_tick clock

theorem worldLoaded_of_member (hm : w.members.get? player = some m) (wall : UInt64) :
    ∃ v joined greeting, w.worldLoaded player wall =
        .ok (v, joined ++ v.characters.keys.flatMap v.sendDetails ++ greeting) ∧
      v.name = w.name ∧ v.members = w.members := by
  unfold worldLoaded
  rw [member_eq_ok_iff.mpr hm]
  exact ⟨_, _, _, rfl, rfl, rfl⟩

theorem details_worldLoaded (hm : w.members.get? player = some m)
    (hk : (w.step (.packet player .worldLoaded wall)).1.Live k) :
    ∃ a, { target := .stream m.connection, packet := .setDetails k w.name a } ∈
      (w.step (.packet player .worldLoaded wall)).2 := by
  obtain ⟨v, joined, greeting, ho, hn, hv⟩ := worldLoaded_of_member hm wall
  have hs : w.step (.packet player .worldLoaded wall) =
      (v, joined ++ v.characters.keys.flatMap v.sendDetails ++ greeting) := by
    change w.orKeep (w.worldLoaded player wall) id = _
    rw [ho]
    rfl
  rw [hs] at hk ⊢
  obtain ⟨ch, hc⟩ := Option.isSome_iff_exists.mp hk
  refine ⟨ch.appearance, List.mem_append_left _ (List.mem_append_right _ ?_)⟩
  refine List.mem_flatMap.mpr ⟨k, Table.mem_keys_iff.mpr hk, ?_⟩
  rw [← hn]
  exact mem_sendDetails (hv ▸ hm) hc

def Seats (w : World) (player : PlayerId) (c : ConnectionId) (k : EntityId) : Prop :=
  ∃ m, w.members.get? player = some m ∧ m.connection = c ∧ m.character = k

theorem seats_step (h : w.Seats player c k) (hp : ev.moves? ≠ some player) :
    (w.step ev).1.Seats player c k := by
  obtain ⟨m, hm, hc, hk⟩ := h
  have hmakes := makes_step w ev
  generalize (w.step ev).1 = w' at hmakes ⊢
  cases hmakes with
  | @enter ids p entity hn =>
    have hne : player ≠ p.id := fun he => hp (by rw [he]; rfl)
    exact ⟨m, by rw [Table.get?_insert, if_neg hne, hm], hc, hk⟩
  | @leave p wall m₀ hm₀ =>
    have hne : player ≠ p := fun he => hp (by rw [he]; rfl)
    exact ⟨m, by rw [Table.get?_erase, if_neg hne, hm], hc, hk⟩
  | @readdress p m₀ hm₀ a =>
    by_cases he : player = p
    · subst he
      obtain rfl : m₀ = m := Option.some.inj (hm₀.symm.trans hm)
      exact ⟨_, Table.get?_insert_self .., hc, hk⟩
    · exact ⟨m, by rw [Table.get?_insert, if_neg he, hm], hc, hk⟩
  | _ => exact ⟨m, hm, hc, hk⟩

end World

end SharedWorld
