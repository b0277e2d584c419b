import SharedWorld.Proofs.Run
import SharedWorld.Proofs.World.Effects

/-! # Runs of a world

The events of a world are its operations, with any arguments, and changes made to a
character from outside. A refused operation changes nothing. Ticks follow a clock
whose total grows. Only ticks send entity updates: the tiles when the world is due,
and each character that is due.
-/

namespace SharedWorld

structure CharacterEdit where
  position : Option Position := none
  type : Option String := none
  appearance : Option Appearance := none
  glide : Option Bool := none
  armed : Option Bool := none
  broadcasting : Option Bool := none

def Character.edit (c : Character) (e : CharacterEdit) : Character :=
  { position := e.position.getD c.position
    type := e.type.getD c.type
    appearance := e.appearance.getD c.appearance
    glide := e.glide.getD c.glide
    presence := { c.presence with
      armed := e.armed.getD c.presence.armed
      broadcasting := e.broadcasting.getD c.presence.broadcasting } }

namespace World

/-- Worlds share the count of entity numbers, so an event brings it as it stands. -/
inductive Event
  | addPlayer (ids : EntityIds) (p : Player) (entity : Option EntityId)
  | addCharacter (ids : EntityIds) (position : Position) (type : String)
  | edit (entity : EntityId) (e : CharacterEdit)
  | removePlayer (player : PlayerId) (wall : UInt64)
  | removeEntity (entity : EntityId)
  | setAddress (player : PlayerId) (address : Address)
  | packet (player : PlayerId) (p : Packet) (wall : UInt64)
  | setPlot (island layer : Nat) (x y : UInt32) (plot : Plot) (time : UInt64)
  | tick (clock : Clock)

/-- What an operation leaves behind, or the world as it was. -/
def orKeep {α : Type} (w : World) (r : Except WorldError α) (f : α → World × List Envelope) :
    World × List Envelope :=
  match r with
  | .ok a => f a
  | .error _ => (w, [])

def step (w : World) : Event → World × List Envelope
  | .addPlayer ids p entity => w.orKeep (w.addPlayer ids p entity) fun s => (s.state, s.sent)
  | .addCharacter ids position type =>
    let s := w.addCharacter ids position type
    (s.state, s.sent)
  | .edit entity e => ({ w with characters := w.characters.modify entity (·.edit e) }, [])
  | .removePlayer player wall => w.orKeep (w.removePlayer player wall) fun s => (s.state, s.sent)
  | .removeEntity entity => w.orKeep (w.removeEntity entity) id
  | .setAddress player a => w.orKeep (w.setAddress player a) (·, [])
  | .packet player p wall => w.orKeep (w.handle player p wall) id
  | .setPlot island layer x y plot time =>
    w.orKeep (w.setPlot island layer x y plot time) fun out => (out.1, [])
  | .tick clock => w.tick clock

def Event.clock? : Event → Option Clock
  | .tick clock => some clock
  | _ => none

def system : System World Event where
  Starts w := ∃ config sync ids, w = (World.create config sync ids).1
  Admits ms e := ∀ m ∈ ms, ∀ earlier ∈ m.event.clock?, ∀ clock ∈ e.clock?,
    earlier.total < clock.total
  step := step

/-- The runs of a world whose ticks follow any clock. -/
def freely : System World Event := { system with Admits := fun _ _ => True }

/-- What an event makes of a world. -/
inductive Change (w : World) : World → Prop
  | nothing : Change w w
  | enter (p : Player) (k : EntityId) (hn : w.members.get? p.id = none) : Change w { w with
      characters := w.characters.insert k (w.newCharacter k p.id w.spawn playerCharacterType)
      members := w.members.insert p.id (memberOf p k) }
  | appear (k : EntityId) (position : Position) (type : String) : Change w { w with
      characters := w.characters.insert k (w.newCharacter k .none position type) }
  | alter (k : EntityId) {f : Character → Character} (hf : ∀ c : Character, c.SameIdentity (f c)) :
      Change w { w with characters := w.characters.modify k f }
  | vanish (k : EntityId) : Change w { w with characters := w.characters.erase k }
  | leave {p : PlayerId} {m : Member} (hm : w.members.get? p = some m) : Change w { w with
      members := w.members.erase p
      characters := w.characters.erase m.character }
  | readdress {p : PlayerId} {m : Member} (hm : w.members.get? p = some m) (a : Address) :
      Change w { w with members := w.members.insert p { m with address := some a } }
  | write {n layer : Nat} {x y : UInt32} {plot : Plot} {time logged : UInt64} {i i' : Island}
      (hi : w.islands[n]? = some i) (h : i.setPlot layer x y plot time = .ok (i', logged)) :
      Change w { w with islands := w.islands.set n i' }
  | tick (clock : Clock) : Change w (w.tick clock).1

variable {w w' : World} {sent : List Envelope}

theorem orKeep_induction {α : Type} {P : World × List Envelope → Prop}
    {r : Except WorldError α} {f : α → World × List Envelope} (h₀ : P (w, []))
    (h₁ : ∀ a, r = .ok a → P (f a)) : P (w.orKeep r f) := by
  cases r with
  | error e => exact h₀
  | ok a => exact h₁ a rfl

/-- What each event makes of a world. A refused one makes nothing. -/
inductive Makes (w : World) : Event → World → Prop
  | nothing (e : Event) : Makes w e w
  | enter {ids : EntityIds} {p : Player} {entity : Option EntityId}
      (hn : w.members.get? p.id = none) : Makes w (.addPlayer ids p entity) { w with
        characters := w.characters.insert (entity.getD ids.take.1)
          (w.newCharacter (entity.getD ids.take.1) p.id w.spawn playerCharacterType)
        members := w.members.insert p.id (memberOf p (entity.getD ids.take.1)) }
  | appear (ids : EntityIds) (position : Position) (type : String) :
      Makes w (.addCharacter ids position type) { w with
        characters := w.characters.insert ids.take.1
          (w.newCharacter ids.take.1 .none position type) }
  | edit (k : EntityId) (e : CharacterEdit) : Makes w (.edit k e) { w with
      characters := w.characters.modify k (·.edit e) }
  | leave {p : PlayerId} {wall : UInt64} {m : Member} (hm : w.members.get? p = some m) :
      Makes w (.removePlayer p wall) { w with
        members := w.members.erase p
        characters := w.characters.erase m.character }
  | vanish (k : EntityId) : Makes w (.removeEntity k) { w with
      characters := w.characters.erase k }
  | readdress {p : PlayerId} {m : Member} (hm : w.members.get? p = some m) (a : Address) :
      Makes w (.setAddress p a) { w with
        members := w.members.insert p { m with address := some a } }
  | load {p : PlayerId} {wall : UInt64} {m : Member} (hm : w.members.get? p = some m) :
      Makes w (.packet p .worldLoaded wall) { w with
        characters := w.characters.modify m.character Character.rearm }
  | report {p : PlayerId} {u : OwnUpdate} {wall : UInt64} {m : Member} {c : Character}
      (position : Position) (hm : w.members.get? p = some m) (hu : u.entity = m.character)
      (hc : w.characters.get? m.character = some c) (ht : c.presence.lastUpdate < u.time) :
      Makes w (.packet p (.ownUpdate u) wall) { w with
        characters := w.characters.modify m.character (·.moved u.time position) }
  | write {n layer : Nat} {x y : UInt32} {plot : Plot} {time logged : UInt64} {i i' : Island}
      (hi : w.islands[n]? = some i) (h : i.setPlot layer x y plot time = .ok (i', logged)) :
      Makes w (.setPlot n layer x y plot time) { w with islands := w.islands.set n i' }
  | tick (clock : Clock) : Makes w (.tick clock) (w.tick clock).1

theorem makes_step (w : World) (e : Event) : w.Makes e (w.step e).1 := by
  have keep {α : Type} {r : Except WorldError α} {f : α → World × List Envelope}
      (hr : ∀ a, r = .ok a → w.Makes e (f a).1) : w.Makes e (w.orKeep r f).1 :=
    orKeep_induction (P := fun out => w.Makes e out.1) (.nothing e) hr
  cases e with
  | addPlayer ids p entity =>
    refine keep fun s hs => ?_
    obtain ⟨hn, hv, hs⟩ := addPlayer_eq_ok hs
    have hk : s.value.1 = entity.getD ids.take.1 := by
      rw [hv]
      cases entity <;> rfl
    rw [hs, hk]
    exact .enter hn
  | addCharacter ids position type => exact .appear ids position type
  | edit entity e => exact .edit entity e
  | removePlayer player wall =>
    refine keep fun s hs => ?_
    obtain ⟨hm, hs⟩ := removePlayer_eq_ok hs
    rw [hs]
    exact .leave hm
  | removeEntity entity =>
    refine keep fun s hs => ?_
    obtain ⟨-, hs⟩ := removeEntity_eq_ok hs
    rw [id, hs]
    exact .vanish entity
  | setAddress player a =>
    refine keep fun s hs => ?_
    obtain ⟨m, hm, rfl⟩ := setAddress_eq_ok hs
    exact .readdress hm a
  | packet player p wall =>
    refine keep fun s hs => ?_
    obtain h | ⟨m, rfl, hm, h⟩ | ⟨u, m, report, c, rfl, hm, hu, -, -, hc, ht, h⟩ :=
      handle_eq_ok hs <;> rw [id, h]
    · exact .nothing _
    · exact .load hm
    · exact .report report.position hm hu hc ht
  | setPlot island layer x y plot time =>
    refine keep fun s hs => ?_
    obtain ⟨i, i', hi, hp, hs⟩ := setPlot_eq_ok hs
    rw [hs]
    exact .write hi hp
  | tick clock => exact .tick clock

theorem change_step (w : World) (e : Event) : w.Change (w.step e).1 := by
  have h := makes_step w e
  generalize (w.step e).1 = w' at h
  cases h with
  | nothing => exact .nothing
  | enter hn => exact .enter _ _ hn
  | appear => exact .appear ..
  | edit k e => exact .alter k fun c => ⟨rfl, rfl, rfl⟩
  | leave hm => exact .leave hm
  | vanish k => exact .vanish k
  | readdress hm a => exact .readdress hm a
  | @load p wall m hm => exact .alter m.character fun c => ⟨rfl, rfl, rfl⟩
  | @report p u wall m c position => exact .alter m.character fun c => ⟨rfl, rfl, rfl⟩
  | write hi h => exact .write hi h
  | tick clock => exact .tick clock

theorem name_change (h : w.Change w') : w.name = w'.name := by
  cases h <;> rfl

theorem name_of_mem {ms : List (Moment World Event)} (h : system.Run ms w)
    {m : Moment World Event} (hm : m ∈ ms) : m.state.name = w.name :=
  h.related (R := fun s s' => s.name = s'.name) .trans
    (fun s e => name_change (change_step s e)) hm

theorem mem_sendAll {p : Packet} {except : Option PlayerId} {delay : UInt64} {force : Bool}
    {e : Envelope} : e ∈ w.sendAll p except delay force ↔
      ∃ m ∈ w.members.values, some m.player ≠ except ∧
        ∃ t, routeTo m (p.isVital || force || !fitsDatagram p) = some t ∧
          e = { target := t, packet := p, delay } := by
  simp only [sendAll, List.mem_filterMap, List.mem_filter, Option.map_eq_some_iff, and_assoc,
    decide_eq_true_eq, ne_eq, @eq_comm _ e]

theorem eq_of_mem_sendAll {p : Packet} {except : Option PlayerId} {delay : UInt64}
    {force : Bool} {e : Envelope} (h : e ∈ w.sendAll p except delay force) :
    e.packet = p ∧ e.delay = delay := by
  obtain ⟨_, _, _, _, _, rfl⟩ := mem_sendAll.mp h
  exact ⟨rfl, rfl⟩

end World

/-- The entity update that a packet carries. -/
def Packet.update? : Packet → Option EntityUpdate
  | .entityUpdate u => some u
  | _ => none

def Packet.Describes (p : Packet) (k : EntityId) (world : String) : Prop :=
  ∃ a, p = .setDetails k world a

def Packet.Shows (p : Packet) (k : EntityId) (world : String) : Prop :=
  ∃ u, p = .entityUpdate u ∧ u.type = .character ∧ u.entity = k ∧ u.world = world

theorem Packet.ne_removeEntity_of_tells {p : Packet} {k : EntityId} {world : String}
    (h : p.Describes k world ∨ p.Shows k world) : p ≠ .removeEntity k world := by
  rintro rfl
  obtain ⟨look, h⟩ | ⟨u, h, -⟩ := h <;> cases h

/-- Packets none of which is an entity update. -/
def Quiet (sent : List Envelope) : Prop := ∀ e ∈ sent, e.packet.update? = none

namespace Quiet

theorem nil : Quiet [] := fun _ h => nomatch h

theorem append {xs ys : List Envelope} (hx : Quiet xs) (hy : Quiet ys) : Quiet (xs ++ ys) := by
  intro e he
  rcases List.mem_append.mp he with h | h
  · exact hx e h
  · exact hy e h

theorem sendAll {w : World} {p : Packet} {except : Option PlayerId} {delay : UInt64}
    {force : Bool} (hp : p.update? = none) : Quiet (w.sendAll p except delay force) := by
  intro e he
  rw [(World.eq_of_mem_sendAll he).1, hp]

theorem sendDetails (w : World) (entity : EntityId) : Quiet (w.sendDetails entity) := by
  unfold World.sendDetails
  split
  · exact nil
  · exact sendAll rfl

end Quiet

namespace World

variable {w w' : World} {sent : List Envelope}

theorem quiet_removeEntity {e : EntityId} (h : w.removeEntity e = .ok (w', sent)) : Quiet sent := by
  unfold removeEntity at h
  split at h
  · cases h
    exact .append (.sendAll rfl) (.sendAll rfl)
  · cases h

theorem quiet_removePlayer {p : PlayerId} {wall : UInt64} {s : Step World Member}
    (h : w.removePlayer p wall = .ok s) : Quiet s.sent := by
  unfold removePlayer at h
  split at h
  · cases h
  dsimp only at h
  split at h
  · next hr =>
    cases h
    exact .append (.append (.sendAll rfl) (.sendAll rfl)) (quiet_removeEntity hr)
  · cases h
    exact .append (.sendAll rfl) (.sendAll rfl)

theorem quiet_addPlayer {ids : EntityIds} {p : Player} {entity : Option EntityId}
    {s : Step World (EntityId × EntityIds)} (h : w.addPlayer ids p entity = .ok s) :
    Quiet s.sent := by
  unfold addPlayer at h
  split at h
  · cases h
  · cases h
    exact .append (.sendDetails _ _) fun e he => by rw [List.mem_singleton.mp he]; rfl

theorem quiet_handle {player : PlayerId} {p : Packet} {wall : UInt64}
    (h : w.handle player p wall = .ok (w', sent)) : Quiet sent := by
  unfold handle at h
  split at h
  · obtain ⟨m, -, ho⟩ := Except.bind_eq_ok_iff.mp h
    cases ho
    refine .append (.append (.sendAll rfl) fun e he => ?_) (.sendAll rfl)
    obtain ⟨k, -, he⟩ := List.mem_flatMap.mp he
    exact Quiet.sendDetails _ k e he
  · obtain ⟨_, -, ho⟩ := Except.bind_eq_ok_iff.mp h
    cases ho
    exact .nil
  · obtain ⟨said, hs, ho⟩ := Except.bind_eq_ok_iff.mp h
    cases ho
    obtain ⟨m, -, ho⟩ := Except.bind_eq_ok_iff.mp hs
    cases ho
    exact .sendAll rfl
  · cases h
    exact .nil

theorem quiet_step {e : Event} (h : e.clock? = none) : Quiet (w.step e).2 := by
  have keep {α : Type} {r : Except WorldError α} {f : α → World × List Envelope}
      (hr : ∀ a, r = .ok a → Quiet (f a).2) : Quiet (w.orKeep r f).2 :=
    orKeep_induction (P := fun out => Quiet out.2) .nil hr
  cases e with
  | addPlayer ids p entity => exact keep fun _ hs => quiet_addPlayer hs
  | addCharacter ids position type => exact .sendDetails _ _
  | edit => exact .nil
  | removePlayer player wall => exact keep fun _ hs => quiet_removePlayer hs
  | removeEntity entity => exact keep fun _ hs => quiet_removeEntity hs
  | setAddress player a => exact keep fun _ _ => .nil
  | packet player p wall => exact keep fun _ hs => quiet_handle hs
  | setPlot island layer x y plot time => exact keep fun _ _ => .nil
  | tick clock => cases h

theorem update_of_mem_tick {clock : Clock} {e : Envelope} {u : EntityUpdate}
    (he : e ∈ (w.tick clock).2) (hu : e.packet = .entityUpdate u) :
    ((w.presence.tick clock.frame).isDue ∧ u = w.tileUpdate clock.total) ∨
      ∃ k c, w.characters.get? k = some c ∧ (c.tick clock.frame).presence.isDue ∧
        u = (c.tick clock.frame).snapshot w.name clock.total := by
  rcases List.mem_append.mp he with he | he
  · split at he
    · next hd =>
      rw [(eq_of_mem_sendAll he).1] at hu
      exact Or.inl ⟨hd, (Packet.entityUpdate.inj hu).symm⟩
    · cases he
  · obtain ⟨c', hc', he⟩ := List.mem_flatMap.mp he
    obtain ⟨k, hk⟩ := Table.mem_values_iff.mp hc'
    rw [Table.get?_map] at hk
    obtain ⟨c, hc, rfl⟩ := Option.map_eq_some_iff.mp hk
    unfold announce at he
    split at he
    · next hd =>
      rw [(eq_of_mem_sendAll he).1] at hu
      exact Or.inr ⟨k, c, hc, hd, (Packet.entityUpdate.inj hu).symm⟩
    · cases he

theorem update_of_mem_sent {m : Moment World Event} {e : Envelope} {u : EntityUpdate}
    (he : e ∈ system.sent m) (hu : e.packet = .entityUpdate u) :
    ∃ clock, m.event = .tick clock ∧
      (((m.state.presence.tick clock.frame).isDue ∧ u = m.state.tileUpdate clock.total) ∨
        ∃ k c, m.state.characters.get? k = some c ∧ (c.tick clock.frame).presence.isDue ∧
          u = (c.tick clock.frame).snapshot m.state.name clock.total) := by
  cases hc : m.event.clock? with
  | none =>
    have := quiet_step hc e he
    rw [hu] at this
    cases this
  | some clock =>
    obtain ⟨w, ev⟩ := m
    cases ev <;> cases hc
    exact ⟨clock, rfl, update_of_mem_tick he hu⟩

section Order

variable {ms : List (Moment World Event)} {m m' : Moment World Event} {i j : Nat}
  {clock clock' : Clock}

theorem total_lt (h : system.Run ms w) (hi : ms[i]? = some m) (hj : ms[j]? = some m')
    (hm : m.event = .tick clock) (hm' : m'.event = .tick clock') (hij : i < j) :
    clock'.total < clock.total := by
  have hp := h.pairwise_admitted
    (Q := fun a b => ∀ earlier ∈ a.clock?, ∀ clock ∈ b.clock?, earlier.total < clock.total)
    fun ha => ha
  obtain ⟨hli, rfl⟩ := List.getElem?_eq_some_iff.mp hi
  obtain ⟨hlj, rfl⟩ := List.getElem?_eq_some_iff.mp hj
  exact List.pairwise_iff_getElem.mp hp i j hli hlj hij clock' (by rw [hm']; rfl)
    clock (by rw [hm]; rfl)

/-- Ticks of a run are told apart by their totals. -/
theorem tick_unique (h : system.Run ms w) (hi : ms[i]? = some m) (hj : ms[j]? = some m')
    (hm : m.event = .tick clock) (hm' : m'.event = .tick clock')
    (ht : clock.total = clock'.total) : i = j := by
  rcases Nat.lt_trichotomy i j with hlt | he | hlt
  · exact absurd (ht ▸ total_lt h hi hj hm hm' hlt) (UInt64.lt_irrefl _)
  · exact he
  · exact absurd (ht ▸ total_lt h hj hi hm' hm hlt) (UInt64.lt_irrefl _)

theorem later_of_total_lt (h : system.Run ms w) (hi : ms[i]? = some m) (hj : ms[j]? = some m')
    (hm : m.event = .tick clock) (hm' : m'.event = .tick clock')
    (ht : clock.total < clock'.total) : j < i := by
  rcases Nat.lt_trichotomy i j with hlt | rfl | hlt
  · exact absurd (total_lt h hi hj hm hm' hlt) (UInt64.lt_asymm ht)
  · rw [hi] at hj
    cases hj
    rw [hm] at hm'
    cases hm'
    exact absurd ht (UInt64.lt_irrefl _)
  · exact hlt

end Order

end World

end SharedWorld
