import SharedWorld.Proofs.Packet.Topics
import SharedWorld.Proofs.World.Notices

/-! # Whom a world speaks to

A world speaks about itself only, and only to members that an event neither brings in nor
takes out. The one packet for a newcomer is the one that tells it to load the world.
-/

namespace SharedWorld

def Member.Gets (m : Member) (x : Envelope) : Prop :=
  x.target = .stream m.connection ∨ ∃ a, m.address = some a ∧ x.target = .datagram a

namespace World

variable {w w' : World} {ev : Event} {x : Envelope} {p : Packet} {player : PlayerId}
  {wall : UInt64} {sent : List Envelope}

/-- What an event may send to whom. -/
inductive Informs (w : World) (ev : Event) : Envelope → Prop
  | news {q : PlayerId} {m : Member} {x : Envelope} (hm : w.members.get? q = some m)
      (hq : ev.moves? ≠ some q) (hx : m.Gets x) (hp : x.packet.NewsOf w.name) : Informs w ev x
  | load {ids : EntityIds} {p : Player} {entity : Option EntityId}
      (he : ev = .addPlayer ids p entity) :
      Informs w ev { target := .stream p.connection, packet := .loadWorld w.name }

def Stays (w : World) (ev : Event) (v : World) : Prop :=
  ∀ q m, v.members.get? q = some m → w.members.get? q = some m ∧ ev.moves? ≠ some q

theorem stays_of_moves?_eq_none {v : World} (h : v.members = w.members) (he : ev.moves? = none) :
    w.Stays ev v := by
  intro q m hm
  rw [he]
  exact ⟨h ▸ hm, nofun⟩

theorem gets_of_routeTo {m : Member} {reliable : Bool} {t : Route}
    (h : routeTo m reliable = some t) (p : Packet) (delay : UInt64) :
    m.Gets { target := t, packet := p, delay } := by
  unfold routeTo at h
  split at h
  · cases h
    exact Or.inl rfl
  · obtain ⟨a, ha, rfl⟩ := Option.map_eq_some_iff.mp h
    exact Or.inr ⟨a, ha, rfl⟩

theorem informs_of_mem_sendAll {v : World} (hv : w.Stays ev v) (hp : p.NewsOf w.name)
    {except : Option PlayerId} {delay : UInt64} {force : Bool}
    (h : x ∈ v.sendAll p except delay force) : w.Informs ev x := by
  obtain ⟨m, hm, -, t, ht, rfl⟩ := mem_sendAll.mp h
  obtain ⟨q, hq⟩ := Table.mem_values_iff.mp hm
  obtain ⟨hq, hstay⟩ := hv q m hq
  exact .news hq hstay (gets_of_routeTo ht p delay) hp

theorem informs_of_mem_sendDetails {v : World} (hv : w.Stays ev v) (hn : v.name = w.name)
    {k : EntityId} (h : x ∈ v.sendDetails k) : w.Informs ev x := by
  unfold sendDetails at h
  split at h
  · cases h
  · refine informs_of_mem_sendAll hv (Packet.newsOf_of_world? ?_) h
    rw [← hn]
    rfl

theorem informs_removeEntity {v : World} (hv : w.Stays ev v) (hn : v.name = w.name) {k : EntityId}
    (h : v.removeEntity k = .ok (w', sent)) (hx : x ∈ sent) : w.Informs ev x := by
  unfold removeEntity at h
  split at h
  · cases h
    have hp : (Packet.removeEntity k v.name).NewsOf w.name :=
      Packet.newsOf_of_world? (by rw [← hn]; rfl)
    rcases List.mem_append.mp hx with hx | hx <;> exact informs_of_mem_sendAll hv hp hx
  · cases h

theorem informs_removePlayer {s : Step World Member} (h : w.removePlayer player wall = .ok s)
    (hx : x ∈ s.sent) : w.Informs (.removePlayer player wall) x := by
  unfold removePlayer at h
  split at h
  · cases h
  dsimp only at h
  have hv : w.Stays (.removePlayer player wall) { w with members := w.members.erase player } := by
    intro q m hm
    obtain ⟨hne, hm⟩ := Table.get?_erase_eq_some_iff.mp hm
    exact ⟨hm, fun he => hne (Option.some.inj he).symm⟩
  have hleft : (Packet.left player w.name).NewsOf w.name := Packet.newsOf_of_world? rfl
  split at h <;> cases h
  · next hr =>
    rcases List.mem_append.mp hx with hx | hx
    · rcases List.mem_append.mp hx with hx | hx
      · exact informs_of_mem_sendAll hv hleft hx
      · exact informs_of_mem_sendAll hv (Packet.newsOf_relayChat ..) hx
    · exact informs_removeEntity hv rfl hr hx
  · rcases List.mem_append.mp hx with hx | hx
    · exact informs_of_mem_sendAll hv hleft hx
    · exact informs_of_mem_sendAll hv (Packet.newsOf_relayChat ..) hx

theorem informs_addPlayer {ids : EntityIds} {p : Player} {entity : Option EntityId}
    {s : Step World (EntityId × EntityIds)} (h : w.addPlayer ids p entity = .ok s)
    (hx : x ∈ s.sent) : w.Informs (.addPlayer ids p entity) x := by
  obtain ⟨hn, -, -⟩ := addPlayer_eq_ok h
  rw [sent_addPlayer h] at hx
  rcases List.mem_append.mp hx with hx | hx
  · refine informs_of_mem_sendDetails (v := (w.insertCharacter _).1)
      (fun q m hm => ⟨hm, fun he => ?_⟩) rfl hx
    have hm : w.members.get? q = some m := hm
    rw [← Option.some.inj he, hn] at hm
    cases hm
  · rw [List.mem_singleton.mp hx]
    exact .load rfl

theorem informs_handle (h : w.handle player p wall = .ok (w', sent)) (hx : x ∈ sent) :
    w.Informs (.packet player p wall) x := by
  have hv {v : World} (h : v.members = w.members) : w.Stays (.packet player p wall) v :=
    stays_of_moves?_eq_none h rfl
  unfold handle at h
  split at h
  · obtain ⟨m, -, ho⟩ := Except.bind_eq_ok_iff.mp h
    cases ho
    rcases List.mem_append.mp hx with hx | hx
    · rcases List.mem_append.mp hx with hx | hx
      · exact informs_of_mem_sendAll (hv rfl) (Packet.newsOf_of_world? rfl) hx
      · obtain ⟨k, -, hx⟩ := List.mem_flatMap.mp hx
        refine informs_of_mem_sendDetails (hv ?_) ?_ hx <;> rfl
    · refine informs_of_mem_sendAll (hv ?_) (Packet.newsOf_relayChat ..) hx
      rfl
  · obtain ⟨_, -, ho⟩ := Except.bind_eq_ok_iff.mp h
    cases ho
    cases hx
  · obtain ⟨said, hs, ho⟩ := Except.bind_eq_ok_iff.mp h
    cases ho
    obtain ⟨m, -, ho⟩ := Except.bind_eq_ok_iff.mp hs
    cases ho
    exact informs_of_mem_sendAll (hv rfl) (Packet.newsOf_relayChat ..) hx
  · cases h
    cases hx

theorem informs_tick {clock : Clock} (hx : x ∈ (w.tick clock).2) : w.Informs (.tick clock) x := by
  have hv : w.Stays (.tick clock) w := stays_of_moves?_eq_none rfl rfl
  rcases List.mem_append.mp hx with hx | hx
  · split at hx
    · exact informs_of_mem_sendAll hv (Packet.newsOf_of_world? rfl) hx
    · cases hx
  · obtain ⟨c, -, hx⟩ := List.mem_flatMap.mp hx
    unfold announce at hx
    split at hx
    · exact informs_of_mem_sendAll hv (Packet.newsOf_of_world? rfl) hx
    · cases hx

theorem informs_step (hx : x ∈ (w.step ev).2) : w.Informs ev x := by
  have keep {α : Type} {r : Except WorldError α} {f : α → World × List Envelope}
      (hr : ∀ a, r = .ok a → ∀ x ∈ (f a).2, w.Informs ev x) :
      ∀ x ∈ (w.orKeep r f).2, w.Informs ev x :=
    orKeep_induction (P := fun out => ∀ x ∈ out.2, w.Informs ev x) nofun hr
  cases ev with
  | addPlayer ids p entity => exact keep (fun _ hs _ => informs_addPlayer hs) x hx
  | addCharacter ids position type =>
    refine informs_of_mem_sendDetails (stays_of_moves?_eq_none ?_ rfl) ?_ hx <;> rfl
  | edit => cases hx
  | removePlayer player wall => exact keep (fun _ hs _ => informs_removePlayer hs) x hx
  | removeEntity entity =>
    refine keep (fun _ hs _ => informs_removeEntity (stays_of_moves?_eq_none ?_ rfl) ?_ hs) x hx <;>
      rfl
  | setAddress player a => exact keep (fun _ _ _ hx => absurd hx List.not_mem_nil) x hx
  | packet player p wall => exact keep (fun _ hs _ => informs_handle hs) x hx
  | setPlot island layer x y plot time =>
    exact keep (fun _ _ _ hx => absurd hx List.not_mem_nil) _ hx
  | tick clock => exact informs_tick hx

end World

end SharedWorld
