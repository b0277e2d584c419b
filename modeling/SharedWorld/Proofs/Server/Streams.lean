import SharedWorld.Proofs.Atlas.Authority
import SharedWorld.Proofs.Server.Run

/-! # What a stream can do to others

Packets on a stream act for the player who is logged in on it. The one exception is a
report on a character, which acts for the player that it names, on a stream as on the
datagram socket. It can move that player's character, and do nothing else.
-/

namespace SharedWorld

/-- What the packets of its player make of a character. Its number, its player, its type and its
appearance stay. -/
inductive Character.Touched (c : Character) : Packet → Character → Prop
  | armed : c.Touched .worldLoaded c.rearm
  | moved (u : OwnUpdate) (position : Position) :
    c.Touched (.ownUpdate u) (c.moved u.time position)

namespace Atlas

variable {a a' : Atlas} {p q : PlayerId} {k : Packet} {wall : UInt64} {sent : List Envelope}

def characterOf? (a : Atlas) (player : PlayerId) : Option Character :=
  (a.worldOf? player).bind (·.characterOf? player)

/-- Another member of the player's world has the same character. -/
def Shares (a : Atlas) (player : PlayerId) : Prop :=
  ∃ V q m m', q ≠ player ∧ a.member? V q = some m ∧ a.member? V player = some m' ∧
    m.character = m'.character

theorem not_shares (h : a.Sound) (hids : a.ids.next ≤ UInt32.size) (p : PlayerId) :
    ¬ a.Shares p := by
  rintro ⟨V, q, m, m', hne, hm, hm', hc⟩
  exact hne (h.apart hids V q m V p m' hm hm' hc)

theorem characterOf?_of_member {W : String} {w : World} {m : Member} (hi : a.index.get? p = some W)
    (hw : a.worlds.get? W = some w) (hm : w.members.get? p = some m) :
    a.characterOf? p = w.characters.get? m.character := by
  simp [characterOf?, worldOf?, World.characterOf?, hi, hw, hm]

theorem get?_handle {w w' : World} {m : Member} (hm : w.members.get? q = some m)
    (h : w.handle q k wall = .ok (w', sent)) (e : EntityId) :
    w'.characters.get? e = w.characters.get? e ∨
      e = m.character ∧ ∃ c c', w.characters.get? e = some c ∧ w'.characters.get? e = some c' ∧
        c.Touched k c' := by
  obtain rfl | ⟨m', rfl, hm', rfl⟩ | ⟨u, m', report, c, rfl, hm', -, -, -, hc, -, rfl⟩ :=
    World.handle_eq_ok h
  · exact Or.inl rfl
  · obtain rfl : m = m' := Option.some.inj (hm.symm.trans hm')
    rw [Table.get?_modify]
    split
    · next he =>
      cases hc : w.characters.get? e with
      | none => exact Or.inl rfl
      | some c => exact Or.inr ⟨he, c, c.rearm, rfl, rfl, .armed⟩
    · exact Or.inl rfl
  · obtain rfl : m = m' := Option.some.inj (hm.symm.trans hm')
    rw [Table.get?_modify]
    split
    · next he =>
      rw [he, hc]
      exact Or.inr ⟨rfl, c, _, rfl, rfl, .moved u report.position⟩
    · exact Or.inl rfl

theorem characterOf?_route (h : a.Sound) (hr : a.route q k wall = .ok (a', sent)) (hne : p ≠ q) :
    a'.characterOf? p = a.characterOf? p ∨
      a.Shares p ∧ ∃ c c', a.characterOf? p = some c ∧ a'.characterOf? p = some c' ∧
        c.Touched k c' := by
  obtain ⟨W, w, w', hq, hw, hh, rfl⟩ := route_eq_ok hr
  cases hp : a.index.get? p with
  | none => exact Or.inl (by simp [characterOf?, worldOf?, hp])
  | some V =>
    by_cases hV : V = W
    · subst hV
      obtain ⟨_, m, hw₁, hwm, hm⟩ := h.member_of_index hq
      rw [hw] at hw₁
      cases hw₁
      obtain ⟨_, m', hw₂, hwm', hm'⟩ := h.member_of_index hp
      rw [hw] at hw₂
      cases hw₂
      have hwm₁ : w'.members.get? p = some m' := by rw [World.members_handle hh, hwm']
      have hc : ({ a with worlds := a.worlds.insert V w' } : Atlas).characterOf? p =
          w'.characters.get? m'.character :=
        characterOf?_of_member hp (Table.get?_insert_self ..) hwm₁
      rw [characterOf?_of_member hp hw hwm', hc]
      rcases get?_handle hwm hh m'.character with hsame | ⟨he, ht⟩
      · exact Or.inl hsame
      · exact Or.inr ⟨⟨V, q, m, m', hne.symm, hm, hm', he.symm⟩, ht⟩
    · exact Or.inl (by simp [characterOf?, worldOf?, hp, Table.get?_insert, hV])

theorem route_ownUpdate_cases {u : OwnUpdate} (hr : a.route q (.ownUpdate u) wall = .ok (a', sent)) :
    a' = a ∨ ∃ W w m c report, a.Accepts q u W w m c report ∧ a' = { a with
      worlds := a.worlds.insert W (w.move c m.character u.time report.position) } := by
  by_cases h : ∃ W w m c report, a.Accepts q u W w m c report
  · obtain ⟨W, w, m, c, report, h⟩ := h
    have ho := route_of_accepts h wall
    rw [hr] at ho
    cases ho
    exact Or.inr ⟨W, w, m, c, report, h, rfl⟩
  · have hs := step_of_not_accepts h wall
    rw [step, hr] at hs
    cases hs
    exact Or.inl rfl

theorem characterOf?_of_accepts {u : OwnUpdate} {W : String} {w : World} {m : Member}
    {c : Character} {report : PositionReport} (h : a.Accepts p u W w m c report) :
    a.characterOf? p = some c ∧
      ({ a with
        worlds := a.worlds.insert W (w.move c m.character u.time report.position) } : Atlas
        ).characterOf? p = some (c.moved u.time report.position) := by
  constructor
  · rw [characterOf?_of_member h.index h.world h.accepts.member, h.accepts.there]
  · refine Eq.trans (characterOf?_of_member h.index (Table.get?_insert_self ..) h.accepts.member) ?_
    exact Table.get?_insert_self ..

end Atlas

namespace Server

variable {s : Server} {c : ConnectionId} {k : Packet} {p : PlayerId} {wall : UInt64}
  {pl : Player}

theorem sender_on_stream (h : s.roster.Sound) (hs : s.roster.sender? k (.stream c) = some pl)
    (ha : pl.isAuthenticated = true) (hk : ∀ id, k ≠ .probe id) :
    s.roster.onConnection? c = some pl ∨
      ∃ u, k = .ownUpdate u ∧ u.player = pl.id ∧ s.roster.players.get? pl.id = some pl := by
  obtain ⟨-, c', hc, -, ⟨hp, hb⟩ | ⟨-, rfl⟩⟩ | ⟨-, hn, hp⟩ := Roster.sender?_eq_some h hs
  · cases hc
    exact Or.inl (by simp [Roster.onConnection?, hb, hp])
  · cases ha
  · refine Or.inr ?_
    unfold Packet.sender? at hn
    split at hn
    · next id => exact absurd rfl (hk id)
    · next u => exact ⟨u, rfl, Option.some.inj hn, hp⟩
    · cases hn

theorem address_authenticate (h : s.roster.Sound) (c : ConnectionId) (user password : String)
    (p : PlayerId) : ((s.authenticate c user password).1.roster.get? p).bind (·.address) =
      (s.roster.get? p).bind (·.address) := by
  obtain ho | ⟨accounts, id, -, ho | ⟨roster, pl, ha, ho⟩⟩ :=
    authenticate_cases s c user password <;> rw [ho]
  obtain ⟨hn, waiting, hw, rfl, rfl⟩ := Roster.authenticate_eq_ok ha
  obtain ⟨rfl, -⟩ := h.waiting c waiting hw
  rw [Roster.get?, Table.get?_insert]
  split
  · next hp => rw [hp, Roster.get?, hn]; rfl
  · rfl

theorem atlas_authenticate (s : Server) (c : ConnectionId) (user password : String) :
    (s.authenticate c user password).1.atlas = s.atlas := by
  obtain ho | ⟨accounts, id, -, ho | ⟨roster, pl, -, ho⟩⟩ :=
    authenticate_cases s c user password <;> rw [ho]

/-- A packet on a stream leaves the worlds and all addresses alone, or some world handles it
for its sender. -/
theorem receive_stream_cases (h : s.roster.Sound) (k : Packet) (c : ConnectionId) (wall : UInt64) :
    (s.receive k (.stream c) wall).1.atlas = s.atlas ∧
        (∀ p, ((s.receive k (.stream c) wall).1.roster.get? p).bind (·.address) =
          (s.roster.get? p).bind (·.address)) ∨
      ∃ pl atlas sent, s.atlas.route pl.id k wall = .ok (atlas, sent) ∧
        (s.receive k (.stream c) wall).1 = { s with atlas } ∧
        (s.roster.onConnection? c = some pl ∨
          ∃ u, k = .ownUpdate u ∧ u.player = pl.id ∧ s.roster.players.get? pl.id = some pl) := by
  obtain ho | ⟨pl, hs, ⟨user, password, -, -, ho⟩ | ⟨id, -, -, ho⟩ |
    ⟨atlas, sent, hk, ha, hr, ho⟩⟩ := receive_cases s k (.stream c) wall <;> rw [ho]
  · exact Or.inl ⟨rfl, fun _ => rfl⟩
  · exact Or.inl ⟨atlas_authenticate s pl.connection user password,
      address_authenticate h pl.connection user password⟩
  · exact Or.inl ⟨rfl, fun _ => rfl⟩
  · exact Or.inr ⟨pl, atlas, sent, hr, rfl, sender_on_stream h hs ha hk⟩

/-- What a packet on a stream leaves of a player who is not logged in on that stream. -/
structure Spares (s : Server) (k : Packet) (c : ConnectionId) (p : PlayerId) (s' : Server) :
    Prop where
  member : ∀ W, s'.atlas.member? W p = s.atlas.member? W p
  address : (s'.roster.get? p).bind (·.address) = (s.roster.get? p).bind (·.address)
  /-- The character is moved by a report that names the player and that the player's world
  accepts, or is touched along with that of another member who has the same one. -/
  character : s'.atlas.characterOf? p = s.atlas.characterOf? p ∨
    (∃ u W w m ch report, k = .ownUpdate u ∧ u.player = p ∧
      s.atlas.Accepts p u W w m ch report ∧ s.atlas.characterOf? p = some ch ∧
      s'.atlas.characterOf? p = some (ch.moved u.time report.position)) ∨
    s.atlas.Shares p ∧ ∃ ch ch', s.atlas.characterOf? p = some ch ∧
      s'.atlas.characterOf? p = some ch' ∧ ch.Touched k ch'
  apart : s.atlas.ids.next ≤ UInt32.size → ¬ s.atlas.Shares p
  /-- Before a login nothing in any world changes but the character of such a report. -/
  stranger : s.roster.onConnection? c = none → s'.atlas = s.atlas ∨
    ∃ u W w m ch report, k = .ownUpdate u ∧ (s.roster.get? u.player).isSome ∧
      s.atlas.Accepts u.player u W w m ch report ∧
      s'.atlas = { s.atlas with
        worlds := s.atlas.worlds.insert W (w.move ch m.character u.time report.position) }

/-- A packet on a stream leaves all of a player who is not logged in on it alone, except that a
report can move the character of the player that it names. -/
theorem receive_stream {ms : List (Moment Server Event)} (h : system.Run ms s)
    (k : Packet) (wall : UInt64) (hp : (s.roster.onConnection? c).map (·.id) ≠ some p) :
    s.Spares k c p (s.receive k (.stream c) wall).1 := by
  obtain ⟨hs, -⟩ := sound_of_run h
  have hshare (hids : s.atlas.ids.next ≤ UInt32.size) := Atlas.not_shares hs.atlas hids p
  obtain ⟨ha, hr⟩ | ⟨pl, atlas, sent, hr, ho, hpl⟩ := receive_stream_cases hs.roster k c wall
  · exact ⟨fun W => by rw [ha], hr p, Or.inl (by rw [ha]), hshare, fun _ => Or.inl ha⟩
  rw [ho]
  refine ⟨fun W => (Atlas.keeps_route hr).member W p, rfl, ?_, hshare, fun hc => ?_⟩
  · by_cases hne : p = pl.id
    · obtain hc | ⟨u, rfl, hu, -⟩ := hpl
      · rw [hc] at hp
        exact absurd (congrArg some hne.symm) hp
      · subst hne
        obtain rfl | ⟨W, w, m, ch, report, ha, rfl⟩ := Atlas.route_ownUpdate_cases hr
        · exact Or.inl rfl
        · exact Or.inr (Or.inl ⟨u, W, w, m, ch, report, rfl, hu, ha,
            Atlas.characterOf?_of_accepts ha⟩)
    · exact (Atlas.characterOf?_route hs.atlas hr hne).imp_right Or.inr
  · obtain hc' | ⟨u, rfl, hu, hp⟩ := hpl
    · rw [hc] at hc'
      cases hc'
    · obtain rfl | ⟨W, w, m, ch, report, ha, rfl⟩ := Atlas.route_ownUpdate_cases hr
      · exact Or.inl rfl
      · rw [← hu] at hp ha
        exact Or.inr ⟨u, W, w, m, ch, report, rfl, Option.isSome_of_eq_some hp, ha, rfl⟩

def strangers : List (Moment Server Event) × Server :=
  system.play [] (ofWorlds [{ islands := [] }] "farm") [
    .connect ⟨1⟩,
    .receive (.authenticate "ann" "x") (.stream ⟨1⟩) 0,
    .receive (.probe ⟨1⟩) (.datagram ⟨"a"⟩) 0,
    .connect ⟨2⟩,
    .receive (.authenticate "bob" "y") (.stream ⟨2⟩) 0,
    .receive (.probe ⟨2⟩) (.datagram ⟨"b"⟩) 0,
    .connect ⟨3⟩]

theorem run_strangers : system.Run strangers.1 strangers.2 := by
  refine .play (.start (starts_ofWorlds (by decide +kernel)))
    ⟨?_, ?_, ?_, ?_, ?_, ?_, ?_, trivial⟩ <;>
    simp [system, Event.connects?]

def forged : Packet :=
  .ownUpdate ⟨⟨1⟩, ⟨2⟩, 7, .character, PositionReport.toBlob ⟨⟨1⟩, "farm", ⟨3, 4⟩⟩⟩

theorem receive_stream_forged :
    let s' := (strangers.2.receive forged (.stream ⟨3⟩) 0).1
    (strangers.2.roster.onConnection? ⟨3⟩).map (·.id) ≠ some ⟨1⟩ ∧
      (strangers.2.roster.onConnection? ⟨3⟩).map (·.id) ≠ some ⟨2⟩ ∧
      strangers.2.atlas.characterOf? ⟨2⟩ ≠ none ∧
      strangers.2.Spares forged ⟨3⟩ ⟨1⟩ s' ∧ strangers.2.Spares forged ⟨3⟩ ⟨2⟩ s' :=
  have h₁ : (strangers.2.roster.onConnection? ⟨3⟩).map (·.id) ≠ some ⟨1⟩ := by decide +kernel
  have h₂ : (strangers.2.roster.onConnection? ⟨3⟩).map (·.id) ≠ some ⟨2⟩ := by decide +kernel
  ⟨h₁, h₂, by decide +kernel, receive_stream run_strangers forged 0 h₁,
    receive_stream run_strangers forged 0 h₂⟩

/-- Before a login a stream can move the character of a player who is logged in elsewhere. -/
theorem character_moved_before_login :
    system.Run strangers.1 strangers.2 ∧ strangers.2.roster.onConnection? ⟨3⟩ = none ∧
      (strangers.2.atlas.characterOf? ⟨1⟩).map (·.position) = some ⟨0, 0⟩ ∧
      ((strangers.2.receive forged (.stream ⟨3⟩) 0).1.atlas.characterOf? ⟨1⟩).map (·.position) =
        some ⟨3, 4⟩ :=
  ⟨run_strangers, by decide +kernel, by decide +kernel, by decide +kernel⟩

end Server

end SharedWorld
