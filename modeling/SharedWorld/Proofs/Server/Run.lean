import SharedWorld.Server
import SharedWorld.Proofs.Atlas.Members
import SharedWorld.Proofs.Login.Accounts
import SharedWorld.Proofs.Login.Roster
import SharedWorld.Proofs.Run

/-! # Runs of a server

A server starts with new worlds and any accounts. Connections come and go, packets arrive
from any source, players are sent to other worlds, and ticks pass, in any order. A
connection is never added twice.
-/

namespace SharedWorld

namespace Server

inductive Event
  | connect (c : ConnectionId)
  | disconnect (c : ConnectionId) (wall : UInt64)
  | receive (k : Packet) (source : Route) (wall : UInt64)
  | transfer (player : PlayerId) (destination : String) (wall : UInt64)
  | tick (clock : Clock)

def Event.connects? : Event → Option ConnectionId
  | .connect c => some c
  | _ => none

def step (s : Server) : Event → Server × List Envelope
  | .connect c => (s.connect c, [])
  | .disconnect c wall => s.disconnect c wall
  | .receive k source wall => s.receive k source wall
  | .transfer player destination wall =>
    let out := s.transfer player destination wall
    (out.state, out.sent)
  | .tick clock => s.tick clock

def system : System Server Event where
  Starts s := ∃ configs starting sync atlas accounts,
    Atlas.create configs starting sync = .ok atlas ∧ accounts.Reached ∧ s = { atlas, accounts }
  Admits ms e := ∀ c ∈ e.connects?, ∀ m ∈ ms, m.event.connects? ≠ some c
  step := step

variable {s s' : Server} {c c' : ConnectionId} {id : PlayerId} {k : Packet} {source : Route}
  {wall : UInt64} {user password world : String}

section Cases

theorem authenticate_cases (s : Server) (c : ConnectionId) (user password : String) :
    (s.authenticate c user password).1 = s ∨
      ∃ accounts id, s.accounts.login user password = .ok (accounts, id) ∧
        ((s.authenticate c user password).1 = { s with accounts } ∨
          ∃ roster pl, s.roster.authenticate c id user = .ok (roster, pl) ∧
            (s.authenticate c user password).1 = { s with accounts, roster }) := by
  unfold authenticate
  split
  · exact Or.inl rfl
  next accounts id hl =>
  refine Or.inr ⟨accounts, id, hl, ?_⟩
  dsimp only
  split
  · exact Or.inl rfl
  · next roster pl ha => exact Or.inr ⟨roster, pl, ha, rfl⟩

theorem recordWorld_eq {pl : Player} (h : s.roster.players.get? id = some pl) :
    s.recordWorld id world = { s with
      accounts := s.accounts.setWorld id world
      roster := { s.roster with
        players := s.roster.players.insert id { pl with world := some world } } } := by
  unfold recordWorld
  rw [Roster.setWorld_of_get? h]
  rfl

theorem transfer_eq {pl : Player} (hp : s.roster.players.get? id = some pl) (wall : UInt64) :
    s.transfer id world wall =
      let out := s.atlas.transfer pl world wall
      match out.value with
      | .error e => ⟨{ s with atlas := out.state }, out.sent, .error (.world e)⟩
      | .ok k => ⟨{ s with atlas := out.state }.recordWorld id world, out.sent, .ok k⟩ := by
  have hget : s.roster.get? id = some pl := hp
  unfold transfer recordWorld
  rw [hget]
  dsimp only
  cases (s.atlas.transfer pl world wall).value with
  | error e => rfl
  | ok k =>
    rw [Roster.setWorld_of_get? hp]
    rfl

theorem place_cases (s : Server) (id : PlayerId) :
    (s.place id).1 = s ∨ ∃ pl preferred out, s.roster.players.get? id = some pl ∧
      s.atlas.addPlayer pl preferred = .ok out ∧
        (s.place id).1 = { s with atlas := out.state }.recordWorld id out.value.1 := by
  unfold place Roster.get?
  split
  · exact Or.inl rfl
  next pl hp =>
  split
  · exact Or.inl rfl
  · next out ho => exact Or.inr ⟨pl, _, out, hp, ho, rfl⟩

theorem probe_cases (s : Server) (id : PlayerId) (source : Route) :
    (s.probe id source).1 = s ∨
      ∃ a roster changed, source = .datagram a ∧ s.roster.link id a = .ok (roster, changed) ∧
        ((s.atlas.index.get? id).isSome ∧ (s.probe id source).1 = { s with
            roster, atlas := if changed then s.atlas.setAddress id a else s.atlas } ∨
          s.atlas.index.get? id = none ∧ (s.probe id source).1 = ({ s with roster }.place id).1) := by
  unfold probe
  split
  · exact Or.inl rfl
  next a =>
  split
  · exact Or.inl rfl
  next roster changed hl =>
  refine Or.inr ⟨a, roster, changed, rfl, hl, ?_⟩
  dsimp only
  split
  · next hi =>
    refine Or.inl ⟨hi, ?_⟩
    cases changed <;> rfl
  · next hi => exact Or.inr ⟨Option.not_isSome_iff_eq_none.mp hi, rfl⟩

theorem receive_cases (s : Server) (k : Packet) (source : Route) (wall : UInt64) :
    (s.receive k source wall).1 = s ∨ ∃ pl, s.roster.sender? k source = some pl ∧
      ((∃ user password, k = .authenticate user password ∧ pl.isAuthenticated = false ∧
          (s.receive k source wall).1 = (s.authenticate pl.connection user password).1) ∨
        (∃ id, k = .probe id ∧ pl.isAuthenticated = true ∧
          (s.receive k source wall).1 = (s.probe pl.id source).1) ∨
        ∃ atlas sent, (∀ id, k ≠ .probe id) ∧ pl.isAuthenticated = true ∧
          s.atlas.route pl.id k wall = .ok (atlas, sent) ∧
          (s.receive k source wall).1 = { s with atlas }) := by
  unfold receive
  split
  · exact Or.inl rfl
  next pl hs =>
  split
  · exact Or.inl rfl
  · next user password =>
    split
    · exact Or.inl rfl
    · next ha => exact Or.inr ⟨pl, hs, Or.inl ⟨user, password, rfl, Bool.not_eq_true _ ▸ ha, rfl⟩⟩
  · split
    · exact Or.inl rfl
    next ha =>
    have ha : pl.isAuthenticated = true := by simpa using ha
    split
    · exact Or.inr ⟨pl, hs, Or.inr (Or.inl ⟨_, rfl, ha, rfl⟩)⟩
    · next hk =>
      split
      · exact Or.inl rfl
      · next atlas sent hr =>
        exact Or.inr ⟨pl, hs, Or.inr (Or.inr ⟨atlas, sent, fun id he => hk id he, ha, hr, rfl⟩)⟩

theorem transfer_cases (h : s.atlas.Sound) (id : PlayerId) (world : String) (wall : UInt64) :
    (s.transfer id world wall).state = s ∨ ∃ pl e atlas,
      s.roster.players.get? id = some pl ∧ s.atlas.Settles atlas pl world e ∧ atlas.Sound ∧
        (s.transfer id world wall).state = { s with atlas }.recordWorld id world := by
  cases hp : s.roster.players.get? id with
  | none =>
    have hget : s.roster.get? id = none := hp
    exact Or.inl (by rw [transfer, hget])
  | some pl =>
    rw [transfer_eq hp]
    obtain ⟨e, ho⟩ | ⟨V, m, -, ho, hs, hsound⟩ := Atlas.transfer_cases h pl world wall
    · exact Or.inl (by rw [ho])
    · refine Or.inr ⟨pl, m.character, _, rfl, hs, hsound, ?_⟩
      dsimp only
      rw [ho]

end Cases

section Order

structure Sound (s : Server) : Prop where
  roster : s.roster.Sound
  atlas : s.atlas.Sound

/-- The roster and the atlas are in order, no connection is new, and no account is lost. -/
structure Succeeds (s s' : Server) : Prop where
  sound : s'.Sound
  uses : ∀ c, s'.roster.Uses c → s.roster.Uses c
  size : s.accounts.size ≤ s'.accounts.size

theorem Sound.succeeds (h : s.Sound) : s.Succeeds s := ⟨h, fun _ hc => hc, Nat.le_refl _⟩

theorem Sound.succeeds_atlas (h : s.Sound) {atlas : Atlas} (ha : atlas.Sound) :
    s.Succeeds { s with atlas } :=
  ⟨⟨h.roster, ha⟩, fun _ hc => hc, Nat.le_refl _⟩

theorem Sound.succeeds_recordWorld (h : s.Sound) {atlas : Atlas} (ha : atlas.Sound) {pl : Player}
    (hp : s.roster.players.get? id = some pl) (world : String) :
    s.Succeeds ({ s with atlas }.recordWorld id world) := by
  rw [recordWorld_eq (s := { s with atlas }) hp]
  exact ⟨⟨Roster.sound_insert h.roster hp rfl rfl, ha⟩, fun _ hc => hc,
    Nat.le_of_eq Accounts.size_setWorld.symm⟩

theorem Sound.succeeds_authenticate (h : s.Sound) (c : ConnectionId) (user password : String) :
    s.Succeeds (s.authenticate c user password).1 := by
  obtain hr | ⟨accounts, id, hl, hr | ⟨roster, pl, ha, hr⟩⟩ :=
    authenticate_cases s c user password <;> rw [hr]
  · exact h.succeeds
  · exact ⟨⟨h.roster, h.atlas⟩, fun _ hc => hc, Accounts.size_login hl⟩
  · exact ⟨⟨Roster.sound_authenticate h.roster ha, h.atlas⟩, fun _ => Roster.uses_authenticate ha,
      Accounts.size_login hl⟩

theorem Sound.succeeds_place (h : s.Sound) (id : PlayerId) : s.Succeeds (s.place id).1 := by
  obtain hr | ⟨pl, preferred, out, hp, ha, hr⟩ := place_cases s id <;> rw [hr]
  · exact h.succeeds
  · exact h.succeeds_recordWorld (Atlas.addPlayer_eq_ok h.atlas ha).2 hp _

theorem Sound.succeeds_probe (h : s.Sound) (id : PlayerId) (source : Route) :
    s.Succeeds (s.probe id source).1 := by
  obtain hr | ⟨a, roster, changed, -, hl, hr⟩ := probe_cases s id source
  · rw [hr]
    exact h.succeeds
  have hroster : s.Succeeds { s with roster } := by
    obtain ⟨pl, hp, ⟨-, rfl, -⟩ | ⟨rfl, -⟩⟩ := Roster.link_eq_ok hl
    · exact h.succeeds
    · exact ⟨⟨Roster.sound_insert h.roster hp rfl rfl, h.atlas⟩, fun _ hc => hc, Nat.le_refl _⟩
  obtain ⟨-, hr⟩ | ⟨-, hr⟩ := hr <;> rw [hr]
  · refine ⟨⟨hroster.sound.roster, ?_⟩, hroster.uses, Nat.le_refl _⟩
    dsimp only
    split
    · obtain ⟨ha, hids⟩ := Atlas.readdresses_setAddress h.atlas id a
      exact Atlas.sound_of_readdresses h.atlas ha hids
    · exact h.atlas
  · obtain ⟨hs, hu, hn⟩ := hroster.sound.succeeds_place id
    exact ⟨hs, fun c hc => hroster.uses c (hu c hc), hn⟩

theorem Sound.succeeds_receive (h : s.Sound) (k : Packet) (source : Route) (wall : UInt64) :
    s.Succeeds (s.receive k source wall).1 := by
  obtain hr | ⟨pl, -, ⟨user, password, -, -, hr⟩ | ⟨id, -, -, hr⟩ | ⟨atlas, sent, -, -, ha, hr⟩⟩ :=
    receive_cases s k source wall <;> rw [hr]
  · exact h.succeeds
  · exact h.succeeds_authenticate pl.connection user password
  · exact h.succeeds_probe pl.id source
  · obtain ⟨W, w, w', -, -, -, rfl⟩ := Atlas.route_eq_ok ha
    exact h.succeeds_atlas (Atlas.sound_of_keeps h.atlas (Atlas.keeps_route ha) rfl)

theorem Sound.succeeds_disconnect (h : s.Sound) (c : ConnectionId) (wall : UInt64) :
    s.Succeeds (s.disconnect c wall).1 := by
  have hroster := Roster.sound_remove h.roster c
  have huses : ∀ c', (s.roster.remove c).2.Uses c' → s.roster.Uses c' :=
    fun c' => Roster.uses_remove h.roster
  unfold disconnect
  split
  · next hr =>
    rw [hr] at hroster huses
    exact ⟨⟨hroster, h.atlas⟩, huses, Nat.le_refl _⟩
  next hr =>
  rw [hr] at hroster huses
  dsimp only
  split
  · exact ⟨⟨hroster, (Atlas.leaves_removePlayer h.atlas _ wall).2⟩, huses, Nat.le_refl _⟩
  · exact ⟨⟨hroster, h.atlas⟩, huses, Nat.le_refl _⟩

theorem Sound.succeeds_transfer (h : s.Sound) (id : PlayerId) (world : String) (wall : UInt64) :
    s.Succeeds (s.transfer id world wall).state := by
  obtain hr | ⟨pl, e, atlas, hp, -, ha, hr⟩ := transfer_cases h.atlas id world wall <;> rw [hr]
  · exact h.succeeds
  · exact h.succeeds_recordWorld ha hp world

theorem Sound.step (h : s.Sound) {e : Event} (hc : ∀ c ∈ e.connects?, ¬ s.roster.Uses c) :
    (s.step e).1.Sound ∧ s.accounts.size ≤ (s.step e).1.accounts.size ∧
      ∀ c, (s.step e).1.roster.Uses c → e.connects? = some c ∨ s.roster.Uses c := by
  have keep {s' : Server} (hs : s.Succeeds s') :
      s'.Sound ∧ s.accounts.size ≤ s'.accounts.size ∧
        ∀ c, s'.roster.Uses c → e.connects? = some c ∨ s.roster.Uses c :=
    ⟨hs.sound, hs.size, fun c hc => Or.inr (hs.uses c hc)⟩
  cases e with
  | connect c =>
    refine ⟨⟨Roster.sound_addPending h.roster (hc c rfl), h.atlas⟩, Nat.le_refl _,
      fun c' hu => ?_⟩
    exact (Roster.uses_addPending hu).imp_left fun he => by rw [he]; rfl
  | disconnect c wall => exact keep (h.succeeds_disconnect c wall)
  | receive k source wall => exact keep (h.succeeds_receive k source wall)
  | transfer id world wall => exact keep (h.succeeds_transfer id world wall)
  | tick clock =>
    exact keep (h.succeeds_atlas (Atlas.sound_of_keeps h.atlas (Atlas.keeps_tick _ clock) rfl))

theorem sound_of_starts (h : system.Starts s) : s.Sound := by
  obtain ⟨configs, starting, sync, atlas, accounts, ha, -, rfl⟩ := h
  obtain ⟨hv, hs⟩ := Atlas.vacant_of_create ha
  exact ⟨Roster.sound_new, hv.sound hs⟩

theorem fresh_of_admits {ms : List (Moment Server Event)} {e : Event} (ha : system.Admits ms e)
    (hu : ∀ c, s.roster.Uses c → ∃ m ∈ ms, m.event.connects? = some c) :
    ∀ c ∈ e.connects?, ¬ s.roster.Uses c := by
  intro c hc huse
  obtain ⟨m, hm, he⟩ := hu c huse
  exact ha c hc m hm he

theorem sound_of_run {ms : List (Moment Server Event)} (h : system.Run ms s) :
    s.Sound ∧ ∀ c, s.roster.Uses c → ∃ m ∈ ms, m.event.connects? = some c := by
  induction h with
  | start h =>
    refine ⟨sound_of_starts h, fun c hc => ?_⟩
    obtain ⟨configs, starting, sync, atlas, accounts, -, -, rfl⟩ := h
    rcases hc with hc | hc <;> cases hc
  | @step ms s e _ ha ih =>
    obtain ⟨hs, hu⟩ := ih
    obtain ⟨hs', -, hu'⟩ := hs.step (fresh_of_admits ha hu)
    refine ⟨hs', fun c hc => ?_⟩
    rcases hu' c hc with he | huse
    · exact ⟨_, List.mem_cons_self, he⟩
    · obtain ⟨m, hm, he⟩ := hu c huse
      exact ⟨m, List.mem_cons_of_mem _ hm, he⟩

end Order

def ofWorlds (configs : List WorldConfig) (starting : String) : Server :=
  { atlas := (Atlas.create configs starting {}).toOption.getD { starting } }

theorem starts_ofWorlds {configs : List WorldConfig} {starting : String}
    (h : (Atlas.create configs starting {}).toOption.isSome) :
    system.Starts (ofWorlds configs starting) := by
  unfold ofWorlds
  cases ha : Atlas.create configs starting {} with
  | error e =>
    rw [ha] at h
    cases h
  | ok atlas => exact ⟨configs, starting, {}, atlas, {}, ha, .new, rfl⟩

end Server

end SharedWorld
