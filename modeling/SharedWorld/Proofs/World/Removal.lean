import SharedWorld.Proofs.Delivery
import SharedWorld.Proofs.Packet.Topics
import SharedWorld.Proofs.World.Numbers

/-! # Removal notices

When a character is taken out of a world, each member is sent two notices of it, the second one
delayed. They are the last packets about its number, unless that is given out again.
-/

namespace SharedWorld

def about (k : EntityId) (sent : List Envelope) : List Envelope :=
  sent.filter (·.packet.entity? = some k)

theorem about_append (k : EntityId) (xs ys : List Envelope) :
    about k (xs ++ ys) = about k xs ++ about k ys :=
  List.filter_append ..

theorem about_onStream (k : EntityId) (c : ConnectionId) (sent : List Envelope) :
    about k (onStream c sent) = onStream c (about k sent) := by
  simp only [about, onStream, List.filter_filter, Bool.and_comm]

theorem mem_about_iff {k : EntityId} {sent : List Envelope} {x : Envelope} :
    x ∈ about k sent ↔ x ∈ sent ∧ x.packet.entity? = some k := by
  simp [about]

namespace World

variable {w : World} {k : EntityId} {ev : Event} {x : Envelope} {l : Moment World Event}
  {later past : List (Moment World Event)}

def notices (w : World) (k : EntityId) (delay : UInt64) : List Envelope :=
  w.members.values.map fun m =>
    { target := .stream m.connection, packet := .removeEntity k w.name, delay }

/-- At this moment the character is taken out of the world, alone or with its player. -/
def Removes (l : Moment World Event) (k : EntityId) : Prop :=
  l.state.Live k ∧ (l.event = .removeEntity k ∨ ∃ q wall m,
    l.event = .removePlayer q wall ∧ l.state.members.get? q = some m ∧ m.character = k)

theorem sendAll_removeEntity (w : World) (k : EntityId) (delay : UInt64) :
    w.sendAll (.removeEntity k w.name) none delay false = w.notices k delay := by
  have ht : w.members.values.filter (fun m => some m.player ≠ none) = w.members.values :=
    List.filter_eq_self.mpr fun m _ => rfl
  rw [sendAll, ht, notices, ← List.filterMap_eq_map]
  rfl

theorem removeEntity_of_live (h : w.Live k) :
    ∃ v, w.removeEntity k = .ok (v, v.notices k 0 ++ v.notices k v.sync.removeResendDelay) := by
  have hc : w.characters.contains k := h
  refine ⟨{ w with characters := w.characters.erase k }, ?_⟩
  rw [removeEntity, if_pos hc, ← sendAll_removeEntity, ← sendAll_removeEntity]

theorem about_notices (w : World) (k : EntityId) (delay : UInt64) :
    about k (w.notices k delay) = w.notices k delay := by
  refine List.filter_eq_self.mpr fun x hx => ?_
  obtain ⟨m, -, rfl⟩ := List.mem_map.mp hx
  exact decide_eq_true rfl

theorem about_sendAll {p : Packet} (hp : p.entity? = none) (w : World)
    (except : Option PlayerId) (delay : UInt64) (force : Bool) :
    about k (w.sendAll p except delay force) = [] := by
  refine List.filter_eq_nil_iff.mpr fun x hx => ?_
  rw [(eq_of_mem_sendAll hx).1, hp]
  nofun

theorem removePlayer_of_live {q : PlayerId} {m : Member} (hm : w.members.get? q = some m)
    (h : w.Live m.character) (wall : UInt64) : ∃ v said,
      w.removePlayer q wall = .ok ⟨v, said ++ (v.notices m.character 0 ++
        v.notices m.character v.sync.removeResendDelay), m⟩ ∧ about m.character said = [] := by
  obtain ⟨v, hv⟩ := removeEntity_of_live (w := { w with members := w.members.erase q }) h
  unfold removePlayer
  rw [hm]
  dsimp only
  rw [hv]
  refine ⟨v, _, rfl, ?_⟩
  rw [about_append, about_sendAll rfl, sendChat, about_sendAll rfl]
  rfl

theorem about_removal (h : Removes l k) :
    let v := (freely.step l.state l.event).1
    about k (freely.sent l) = v.notices k 0 ++ v.notices k v.sync.removeResendDelay := by
  obtain ⟨w, ev⟩ := l
  obtain ⟨hl, rfl | ⟨q, wall, m, rfl, hm, rfl⟩⟩ := h
  · obtain ⟨v, hv⟩ := removeEntity_of_live hl
    have ho : freely.step w (.removeEntity k) =
        (v, v.notices k 0 ++ v.notices k v.sync.removeResendDelay) := by
      simp [freely, system, step, orKeep, hv]
    simp only [System.sent, ho, about_append, about_notices]
  · obtain ⟨v, said, hv, hs⟩ := removePlayer_of_live hm hl wall
    have ho : freely.step w (.removePlayer q wall) = (v, said ++
        (v.notices m.character 0 ++ v.notices m.character v.sync.removeResendDelay)) := by
      simp [freely, system, step, orKeep, hv]
    simp only [System.sent, ho, about_append, about_notices, hs, List.nil_append]

/-- A world speaks of an entity only while it is there, or when it has just gone. -/
theorem bears_of_about (h : w.Keyed) (hx : x ∈ about k (w.step ev).2) :
    (w.step ev).1.Bears k ∨ w.Live k := by
  obtain ⟨hx, hk⟩ := mem_about_iff.mp hx
  have hs := sends_step hx
  obtain ⟨target, p, delay⟩ := x
  have he := entity_step w ev
  cases hs with
  | details hc =>
    cases hk
    exact Or.inl (Or.inr (Option.isSome_of_eq_some hc))
  | tiles => exact Or.inl (Or.inl (he.trans (Option.some.inj hk)))
  | update frame now hc =>
    refine Or.inr ?_
    rw [← Option.some.inj hk]
    exact Option.isSome_of_eq_some ((h _ _ hc).1 ▸ hc)
  | removed delay hw =>
    cases hk
    exact Or.inr hw
  | load | joined | left | chat => cases hk

/-- The notices of a removal are all that is said of the entity from then on, as long as its
number is not given out again. -/
theorem about_sentAll (h : freely.Run (later ++ l :: past) w) (hl : Removes l k)
    (hfree : ∀ s ∈ w :: later.map (·.state), ¬ s.Bears k) :
    let v := (freely.step l.state l.event).1
    about k (freely.sentAll (later ++ [l])) =
      v.notices k 0 ++ v.notices k v.sync.removeResendDelay := by
  induction later generalizing w with
  | nil => exact about_removal hl
  | cons l' later ih =>
    cases h with
    | @step _ s ev h =>
    obtain ⟨hw, hs⟩ := List.forall_mem_cons.mp hfree
    have hquiet : about k (freely.sent ⟨s, ev⟩) = [] := by
      refine List.eq_nil_iff_forall_not_mem.mpr fun x hx => ?_
      rcases bears_of_about (keyed_of_freely h) hx with hb | hb
      · exact hw hb
      · exact hs s List.mem_cons_self (Or.inr hb)
    rw [List.cons_append, System.sentAll, about_append, hquiet, List.append_nil]
    exact ih h hs

theorem onStream_notices {q : PlayerId} {m : Member} (hm : w.members.get? q = some m)
    (hq : ∀ q' m', w.members.get? q' = some m' → m'.connection = m.connection → q' = q)
    (k : EntityId) (delay : UInt64) : onStream m.connection (w.notices k delay) =
      [{ target := .stream m.connection, packet := .removeEntity k w.name, delay }] := by
  rw [onStream, notices, List.filter_map, Table.filter_values hm (decide_eq_true rfl)]
  · rfl
  · intro q' m' hm' hc
    exact hq q' m' hm' (Route.stream.inj (of_decide_eq_true hc))

theorem about_stream (h : freely.Run (later ++ l :: past) w) (hl : Removes l k)
    (hfree : ∀ s ∈ w :: later.map (·.state), ¬ s.Bears k) {q : PlayerId} {m : Member} :
    let v := (freely.step l.state l.event).1
    v.members.get? q = some m →
      (∀ q' m', v.members.get? q' = some m' → m'.connection = m.connection → q' = q) →
      about k (freely.stream m.connection (later ++ [l])) =
        [⟨.stream m.connection, .removeEntity k v.name, 0⟩,
          ⟨.stream m.connection, .removeEntity k v.name, v.sync.removeResendDelay⟩] := by
  intro v hm hq
  rw [← System.onStream_sentAll, about_onStream, about_sentAll h hl hfree, onStream_append,
    onStream_notices hm hq, onStream_notices hm hq]
  rfl

end World

end SharedWorld
