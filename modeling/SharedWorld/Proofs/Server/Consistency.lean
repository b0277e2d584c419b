import SharedWorld.Proofs.Server.Run

/-! # Where everybody is

The roster, the accounts, the index and the worlds each keep a part of where a player is.
Logins, probes, transfers and lost connections change these parts one after another, and
leave them in agreement.
-/

namespace SharedWorld

structure Member.Matches (m : Member) (pl : Player) : Prop where
  player : m.player = pl.id
  connection : m.connection = pl.connection
  name : m.name = pl.name
  address : m.address = pl.address

namespace Server

variable {s : Server} {c : ConnectionId} {id q : PlayerId} {W : String} {wall : UInt64}
  {accounts : Accounts} {roster : Roster} {atlas : Atlas} {pl : Player}

structure Agrees (s : Server) : Prop where
  accounts : s.accounts.Sound
  known : ∀ q pl, s.roster.players.get? q = some pl →
    q.isPlayer ∧ ∃ name, s.accounts.names.get? q = some name
  present : ∀ W q m, s.atlas.member? W q = some m →
    ∃ pl, s.roster.players.get? q = some pl ∧ m.Matches pl ∧ pl.world = some W ∧
      s.accounts.world? q = some W
  absent : ∀ q pl, s.roster.players.get? q = some pl → (∀ W, s.atlas.member? W q = none) →
    pl.world = none

theorem Agrees.keeps (h : s.Agrees) (ha : s.atlas.Keeps atlas) : Agrees { s with atlas } :=
  ⟨h.accounts, h.known, fun W q m hm => h.present W q m (ha.member W q ▸ hm),
    fun q pl hp hn => h.absent q pl hp fun W => ha.member W q ▸ hn W⟩

theorem Agrees.login (h : s.Agrees) {user password : String}
    (hl : s.accounts.login user password = .ok (accounts, id))
    (hs : accounts.size < UInt32.size) : Agrees { s with accounts } := by
  refine ⟨Accounts.sound_login h.accounts hl hs, fun q pl hp => ?_, fun W q m hm => ?_, h.absent⟩
  · obtain ⟨hq, name, hn⟩ := h.known q pl hp
    exact ⟨hq, name, (Accounts.login_kept h.accounts hl hs hn).1⟩
  · obtain ⟨pl, hp, hmp, hw, ha⟩ := h.present W q m hm
    obtain ⟨-, name, hn⟩ := h.known q pl hp
    exact ⟨pl, hp, hmp, hw, (Accounts.login_kept h.accounts hl hs hn).2.trans ha⟩

theorem Agrees.enroll (h : s.Agrees) (hr : s.roster.Sound) {name : String}
    (ha : s.roster.authenticate c id name = .ok (roster, pl)) (hid : id.isPlayer)
    (hname : s.accounts.names.get? id = some name) : Agrees { s with roster } := by
  obtain ⟨hn, waiting, hw, rfl, rfl⟩ := Roster.authenticate_eq_ok ha
  obtain ⟨rfl, -⟩ := hr.waiting c waiting hw
  refine ⟨h.accounts, fun q pl hp => ?_, fun W q m hm => ?_, fun q pl hp hno => ?_⟩
  · obtain ⟨rfl, -⟩ | ⟨-, hp⟩ := Table.get?_insert_eq_some_iff.mp hp
    · exact ⟨hid, name, hname⟩
    · exact h.known q pl hp
  · obtain ⟨pl, hp, hrest⟩ := h.present W q m hm
    refine ⟨pl, Table.get?_insert_eq_some_iff.mpr (Or.inr ⟨?_, hp⟩), hrest⟩
    rintro rfl
    rw [hn] at hp
    cases hp
  · obtain ⟨-, rfl⟩ | ⟨-, hp⟩ := Table.get?_insert_eq_some_iff.mp hp
    · rfl
    · exact h.absent q pl hp hno

theorem Agrees.forget (h : s.Agrees) (hp : roster.players = s.roster.players.erase id)
    (ha : s.atlas.Leaves atlas id) : Agrees { s with roster, atlas } := by
  refine ⟨h.accounts, fun q pl hq => ?_, fun W q m hm => ?_, fun q pl hq hno => ?_⟩
  · rw [hp] at hq
    exact h.known q pl (Table.get?_erase_eq_some_iff.mp hq).2
  · have hm := (ha.member W q).symm.trans hm
    split at hm
    · cases hm
    next hne =>
    obtain ⟨pl, hq, hrest⟩ := h.present W q m hm
    exact ⟨pl, by rw [hp]; exact Table.get?_erase_eq_some_iff.mpr ⟨hne, hq⟩, hrest⟩
  · rw [hp] at hq
    obtain ⟨hne, hq⟩ := Table.get?_erase_eq_some_iff.mp hq
    refine h.absent q pl hq fun W => ?_
    have := (ha.member W q).symm.trans (hno W)
    rwa [if_neg hne] at this

theorem Agrees.readdress (h : s.Agrees) {a : Address} (hp : s.roster.players.get? id = some pl)
    (ha : s.atlas.Readdresses atlas id a) : Agrees { s with
      atlas
      roster := { s.roster with
        players := s.roster.players.insert id { pl with address := some a } } } := by
  refine ⟨h.accounts, fun q pl' hq => ?_, fun W q m hm => ?_, fun q pl' hq hno => ?_⟩
  · obtain ⟨rfl, -⟩ | ⟨-, hq⟩ := Table.get?_insert_eq_some_iff.mp hq
    · exact h.known q pl hp
    · exact h.known q pl' hq
  · have hm' := (ha.member W q).symm.trans hm
    split at hm'
    · next he =>
      subst he
      obtain ⟨m, hm₀, rfl⟩ := Option.map_eq_some_iff.mp hm'
      obtain ⟨pl', hp', hmatch, hw, hrest⟩ := h.present W q m hm₀
      rw [hp] at hp'
      cases hp'
      exact ⟨_, Table.get?_insert_self .., ⟨hmatch.player, hmatch.connection, hmatch.name, rfl⟩,
        hw, hrest⟩
    · next hne =>
      obtain ⟨pl', hq, hrest⟩ := h.present W q m hm'
      exact ⟨pl', Table.get?_insert_eq_some_iff.mpr (Or.inr ⟨hne, hq⟩), hrest⟩
  · have hno' (W : String) : s.atlas.member? W q = none := by
      have := (ha.member W q).symm.trans (hno W)
      split at this
      · exact Option.map_eq_none_iff.mp this
      · exact this
    obtain ⟨rfl, rfl⟩ | ⟨-, hq⟩ := Table.get?_insert_eq_some_iff.mp hq
    · exact h.absent q pl hp hno'
    · exact h.absent q pl' hq hno'

theorem Agrees.settle (h : s.Agrees) (hr : s.roster.Sound) {e : EntityId}
    (hp : s.roster.players.get? id = some pl) (ha : s.atlas.Settles atlas pl W e) :
    ({ s with atlas }.recordWorld id W).Agrees := by
  rw [recordWorld_eq (s := { s with atlas }) hp]
  obtain ⟨rfl, -⟩ := hr.placed id pl hp
  refine ⟨Accounts.sound_setWorld h.accounts, fun q pl' hq => ?_, fun V q m hm => ?_,
    fun q pl' hq hno => ?_⟩
  · rw [Accounts.names_setWorld]
    obtain ⟨rfl, -⟩ | ⟨-, hq⟩ := Table.get?_insert_eq_some_iff.mp hq
    · exact h.known pl.id pl hp
    · exact h.known q pl' hq
  · have hm := (ha.member V q).symm.trans hm
    split at hm
    · next he =>
      split at hm <;> cases hm
      next hV =>
      subst he hV
      obtain ⟨-, name, hn⟩ := h.known pl.id pl hp
      exact ⟨_, Table.get?_insert_self .., ⟨rfl, rfl, rfl, rfl⟩, rfl,
        Accounts.world?_setWorld_self h.accounts (Option.isSome_of_eq_some hn)⟩
    · next hne =>
      obtain ⟨pl', hq, hmatch, hw, hacc⟩ := h.present V q m hm
      exact ⟨pl', Table.get?_insert_eq_some_iff.mpr (Or.inr ⟨hne, hq⟩), hmatch, hw,
        (Accounts.world?_setWorld_ne h.accounts hne).trans hacc⟩
  · obtain ⟨rfl, -⟩ | ⟨hne, hq⟩ := Table.get?_insert_eq_some_iff.mp hq
    · have := (ha.member W pl.id).symm.trans (hno W)
      rw [if_pos rfl, if_pos rfl] at this
      cases this
    · refine h.absent q pl' hq fun V => ?_
      have := (ha.member V q).symm.trans (hno V)
      rwa [if_neg hne] at this

theorem Agrees.authenticate (h : s.Agrees) (hr : s.roster.Sound) {user password : String}
    (hs : (s.authenticate c user password).1.accounts.size < UInt32.size) :
    (s.authenticate c user password).1.Agrees := by
  obtain ho | ⟨accounts, id, hl, ho | ⟨roster, pl, ha, ho⟩⟩ :=
    authenticate_cases s c user password <;> rw [ho] at hs ⊢
  · exact h
  · exact h.login hl hs
  · have hlogin := h.login hl hs
    obtain ⟨hname, hid⟩ := Accounts.names_of_login hlogin.accounts hl
    exact hlogin.enroll hr ha hid hname

theorem Agrees.place (h : s.Agrees) (hs : s.Sound) (id : PlayerId) : (s.place id).1.Agrees := by
  obtain ho | ⟨pl, preferred, out, hp, ha, ho⟩ := place_cases s id <;> rw [ho]
  · exact h
  · exact h.settle hs.roster hp (Atlas.addPlayer_eq_ok hs.atlas ha).1

theorem Agrees.probe (h : s.Agrees) (hs : s.Sound) (id : PlayerId) (source : Route) :
    (s.probe id source).1.Agrees := by
  obtain ho | ⟨a, roster, changed, -, hl, ho⟩ := probe_cases s id source
  · rw [ho]
    exact h
  obtain ⟨pl, hp, ⟨-, rfl, rfl⟩ | ⟨rfl, rfl⟩⟩ := Roster.link_eq_ok hl
  · obtain ⟨-, ho⟩ | ⟨-, ho⟩ := ho <;> rw [ho]
    · exact h
    · exact h.place hs id
  · obtain ⟨-, ho⟩ | ⟨hi, ho⟩ := ho <;> rw [ho]
    · exact h.readdress hp (Atlas.readdresses_setAddress hs.atlas id a).1
    · -- In no world there is no address to change.
      have hstay : s.atlas.Readdresses s.atlas id a := by
        refine ⟨rfl, fun _ => rfl, rfl, fun V q => ?_⟩
        split
        · next hq => rw [hq, hs.atlas.member?_eq_none_of_index hi]; rfl
        · rfl
      exact (h.readdress hp hstay).place
        ⟨Roster.sound_insert hs.roster hp rfl rfl, hs.atlas⟩ id

theorem Agrees.receive (h : s.Agrees) (hs : s.Sound) (k : Packet) (source : Route)
    (wall : UInt64) (hsize : (s.receive k source wall).1.accounts.size < UInt32.size) :
    (s.receive k source wall).1.Agrees := by
  obtain ho | ⟨pl, -, ⟨user, password, -, -, ho⟩ | ⟨id, -, -, ho⟩ | ⟨atlas, sent, -, -, ha, ho⟩⟩ :=
    receive_cases s k source wall <;> rw [ho] at hsize ⊢
  · exact h
  · exact h.authenticate hs.roster hsize
  · exact h.probe hs pl.id source
  · exact h.keeps (Atlas.keeps_route ha)

theorem Agrees.disconnect (h : s.Agrees) (hs : s.Sound) (c : ConnectionId) (wall : UInt64) :
    (s.disconnect c wall).1.Agrees := by
  unfold Server.disconnect
  obtain ⟨-, hr⟩ | ⟨pl, hp, -, hr⟩ | ⟨-, hr⟩ := Roster.remove_cases hs.roster c <;> rw [hr]
  · exact ⟨h.accounts, h.known, h.present, h.absent⟩
  · have hid : pl.isAuthenticated = true := (h.known pl.id pl hp).1
    dsimp only
    rw [if_pos hid]
    exact h.forget rfl (Atlas.leaves_removePlayer hs.atlas pl.id wall).1
  · exact h

theorem Agrees.transfer (h : s.Agrees) (hs : s.Sound) (id : PlayerId) (world : String)
    (wall : UInt64) : (s.transfer id world wall).state.Agrees := by
  obtain ho | ⟨pl, e, atlas, hp, ha, -, ho⟩ := transfer_cases hs.atlas id world wall <;> rw [ho]
  · exact h
  · exact h.settle hs.roster hp ha

theorem Agrees.step (h : s.Agrees) (hs : s.Sound) (e : Event)
    (hsize : (s.step e).1.accounts.size < UInt32.size) : (s.step e).1.Agrees := by
  cases e with
  | connect c => exact ⟨h.accounts, h.known, h.present, h.absent⟩
  | disconnect c wall => exact h.disconnect hs c wall
  | receive k source wall => exact h.receive hs k source wall hsize
  | transfer id world wall => exact h.transfer hs id world wall
  | tick clock => exact h.keeps (Atlas.keeps_tick _ clock)

theorem agrees_of_starts (h : system.Starts s) (hsize : s.accounts.size < UInt32.size) :
    s.Agrees := by
  obtain ⟨configs, starting, sync, atlas, accounts, ha, hacc, rfl⟩ := h
  refine ⟨Accounts.sound_of_reached hacc hsize, nofun, fun W q m hm => ?_, nofun⟩
  rw [(Atlas.vacant_of_create ha).1.2.2] at hm
  cases hm

theorem agrees_of_run {ms : List (Moment Server Event)} (h : system.Run ms s)
    (hsize : s.accounts.size < UInt32.size) : s.Agrees := by
  induction h with
  | start h => exact agrees_of_starts h hsize
  | @step ms s e h ha ih =>
    obtain ⟨hs, hu⟩ := sound_of_run h
    have hle := (hs.step (fresh_of_admits ha hu)).2.1
    exact (ih (Nat.lt_of_le_of_lt hle hsize)).step hs e hsize

/-- The copies of where everybody is agree. -/
structure Consistent (s : Server) : Prop where
  indexed : ∀ q W, (s.atlas.member? W q).isSome ↔ s.atlas.index.get? q = some W
  present : ∀ W q m, s.atlas.member? W q = some m →
    ∃ pl, s.roster.get? q = some pl ∧ pl.id = q ∧ pl.isAuthenticated ∧ m.Matches pl ∧
      pl.world = some W ∧ s.accounts.world? q = some W
  absent : ∀ q pl, s.roster.get? q = some pl → pl.isAuthenticated →
    (∀ W, s.atlas.member? W q = none) → pl.world = none

/-- As long as there are fewer accounts than numbers for players, every state that a server
reaches is consistent. -/
theorem consistent_of_run {ms : List (Moment Server Event)} (h : system.Run ms s)
    (hsize : s.accounts.size < UInt32.size) : s.Consistent := by
  obtain ⟨hs, -⟩ := sound_of_run h
  have ha := agrees_of_run h hsize
  refine ⟨fun q W => (hs.atlas.index_iff q W).symm, fun W q m hm => ?_,
    fun q pl hp _ => ha.absent q pl hp⟩
  obtain ⟨pl, hp, hmatch, hw, hacc⟩ := ha.present W q m hm
  obtain ⟨rfl, -⟩ := hs.roster.placed q pl hp
  exact ⟨pl, hp, rfl, (ha.known pl.id pl hp).1, hmatch, hw, hacc⟩

/-- Two players log in and enter. One is sent to another world and probes from a new address,
and the other one leaves. -/
def comings : List (Moment Server Event) × Server :=
  system.play [] (ofWorlds [{ islands := [] }, { name := "cave", islands := [] }] "farm") [
    .connect ⟨1⟩,
    .receive (.authenticate "ann" "x") (.stream ⟨1⟩) 0,
    .receive (.probe ⟨1⟩) (.datagram ⟨"a"⟩) 0,
    .connect ⟨2⟩,
    .receive (.authenticate "bob" "y") (.stream ⟨2⟩) 0,
    .receive (.probe ⟨2⟩) (.datagram ⟨"b"⟩) 0,
    .transfer ⟨1⟩ "cave" 0,
    .receive (.probe ⟨1⟩) (.datagram ⟨"c"⟩) 0,
    .disconnect ⟨2⟩ 0,
    .tick { total := 50000, frame := 50000 }]

theorem run_comings : system.Run comings.1 comings.2 := by
  refine .play (.start (starts_ofWorlds (by decide +kernel)))
    ⟨?_, ?_, ?_, ?_, ?_, ?_, ?_, ?_, ?_, ?_, trivial⟩ <;>
    simp [system, Event.connects?]

theorem consistent_of_run_comings :
    (comings.2.atlas.member? "cave" ⟨1⟩).bind (·.address) = some ⟨"c"⟩ ∧
      comings.2.accounts.size = 2 ∧ comings.2.Consistent :=
  ⟨by decide +kernel, by decide +kernel, consistent_of_run run_comings (by decide +kernel)⟩

end Server

end SharedWorld
