import SharedWorld.Proofs.Delivery
import SharedWorld.Proofs.World.Broadcasts
import SharedWorld.Proofs.World.Notices

/-! # Chat in a world

Vital packets go out on streams, and a chat line is vital. So each member but the one who speaks
is sent the line once, on its own stream and without delay.
-/

namespace SharedWorld

def Streams (sent : List Envelope) : Prop :=
  ∀ x ∈ sent, x.packet.isVital → ∃ c, x.target = .stream c

namespace Streams

theorem nil : Streams [] := nofun

theorem append {xs ys : List Envelope} (hx : Streams xs) (hy : Streams ys) : Streams (xs ++ ys) :=
  List.forall_mem_append.mpr ⟨hx, hy⟩

theorem sendAll {w : World} {p : Packet} {except : Option PlayerId} {delay : UInt64}
    {force : Bool} : Streams (w.sendAll p except delay force) := by
  intro x hx hv
  obtain ⟨m, -, -, t, ht, rfl⟩ := World.mem_sendAll.mp hx
  have hv : p.isVital := hv
  rw [World.routeTo, hv] at ht
  cases ht
  exact ⟨m.connection, rfl⟩

theorem sendDetails {w : World} {k : EntityId} : Streams (w.sendDetails k) := by
  unfold World.sendDetails
  split
  · exact nil
  · exact sendAll

end Streams

namespace World

variable {w w' : World} {sent : List Envelope} {player q : PlayerId} {m : Member} {wall : UInt64}
  {c : ConnectionId} {message user : String} {except : Option PlayerId}

theorem streams_removeEntity {k : EntityId} (h : w.removeEntity k = .ok (w', sent)) :
    Streams sent := by
  unfold removeEntity at h
  split at h <;> cases h
  exact .append .sendAll .sendAll

theorem streams_removePlayer {s : Step World Member} (h : w.removePlayer player wall = .ok s) :
    Streams s.sent := by
  unfold removePlayer at h
  split at h
  · cases h
  dsimp only at h
  split at h <;> cases h
  · next hr => exact .append (.append .sendAll .sendAll) (streams_removeEntity hr)
  · exact .append .sendAll .sendAll

theorem streams_addPlayer {ids : EntityIds} {p : Player} {entity : Option EntityId}
    {s : Step World (EntityId × EntityIds)} (h : w.addPlayer ids p entity = .ok s) :
    Streams s.sent := by
  rw [sent_addPlayer h]
  refine .append .sendDetails fun x hx _ => ?_
  rw [List.mem_singleton.mp hx]
  exact ⟨p.connection, rfl⟩

theorem streams_handle {p : Packet} (h : w.handle player p wall = .ok (w', sent)) :
    Streams sent := by
  unfold handle at h
  split at h
  · obtain ⟨m, -, ho⟩ := Except.bind_eq_ok_iff.mp h
    cases ho
    refine .append (.append .sendAll fun x hx => ?_) .sendAll
    obtain ⟨k, -, hx⟩ := List.mem_flatMap.mp hx
    exact Streams.sendDetails x hx
  · obtain ⟨_, -, ho⟩ := Except.bind_eq_ok_iff.mp h
    cases ho
    exact .nil
  · obtain ⟨said, hs, ho⟩ := Except.bind_eq_ok_iff.mp h
    cases ho
    obtain ⟨m, -, ho⟩ := Except.bind_eq_ok_iff.mp hs
    cases ho
    exact .sendAll
  · cases h
    exact .nil

theorem streams_tick (w : World) (clock : Clock) : Streams (w.tick clock).2 := by
  refine .append ?_ fun x hx => ?_
  · split
    · exact .sendAll
    · exact .nil
  · obtain ⟨c, -, hx⟩ := List.mem_flatMap.mp hx
    unfold announce at hx
    split at hx
    · exact Streams.sendAll x hx
    · cases hx

theorem streams_step (w : World) (ev : Event) : Streams (w.step ev).2 := by
  have keep {α : Type} {r : Except WorldError α} {f : α → World × List Envelope}
      (hr : ∀ a, r = .ok a → Streams (f a).2) : Streams (w.orKeep r f).2 :=
    orKeep_induction (P := fun out => Streams out.2) .nil hr
  cases ev with
  | addPlayer ids p entity => exact keep fun _ hs => streams_addPlayer hs
  | addCharacter ids position type => exact .sendDetails
  | edit => exact .nil
  | removePlayer player wall => exact keep fun _ hs => streams_removePlayer hs
  | removeEntity entity => exact keep fun _ hs => streams_removeEntity hs
  | setAddress player a => exact keep fun _ _ => .nil
  | packet player p wall => exact keep fun _ hs => streams_handle hs
  | setPlot island layer x y plot time => exact keep fun _ _ => .nil
  | tick clock => exact streams_tick w clock

theorem prompt_of_chat {ev : Event} {x : Envelope} {time : UInt64} (hx : x ∈ (w.step ev).2)
    (hp : x.packet = .relayChat user message time) :
    (∃ c, x.target = .stream c) ∧ x.delay = 0 := by
  refine ⟨streams_step w ev x hx (by rw [hp]; rfl), ?_⟩
  have hsends := sends_step hx
  rw [hp] at hsends
  generalize x.delay = delay at hsends
  cases hsends
  rfl

theorem onStream_sendChat (c : ConnectionId) :
    onStream c (w.sendChat message user except wall) =
      (w.members.values.filter fun m => m.connection = c ∧ some m.player ≠ except).map fun m =>
        { target := .stream m.connection, packet := .relayChat user message wall } := by
  rw [sendChat, sendAll_of_reliable rfl, onStream, List.filter_map, List.filter_filter]
  congr 2
  funext m
  simp

theorem onStream_sendChat_member (hm : w.members.get? q = some m) (hq : some m.player ≠ except)
    (hc : ∀ q' m', w.members.get? q' = some m' → m'.connection = m.connection → q' = q) :
    onStream m.connection (w.sendChat message user except wall) =
      [{ target := .stream m.connection, packet := .relayChat user message wall }] := by
  rw [onStream_sendChat, Table.filter_values hm (by simpa using hq)]
  · rfl
  · intro q' m' hm' hp
    exact hc q' m' hm' (of_decide_eq_true hp).1

theorem onStream_sendChat_eq_nil
    (h : ∀ q m, w.members.get? q = some m → m.connection = c → some m.player = except) :
    onStream c (w.sendChat message user except wall) = [] := by
  rw [onStream_sendChat, List.map_eq_nil_iff, List.filter_eq_nil_iff]
  intro m hm hp
  obtain ⟨q, hq⟩ := Table.mem_values_iff.mp hm
  obtain ⟨hc, hne⟩ := of_decide_eq_true hp
  exact hne (h q m hq hc)

end World

end SharedWorld
