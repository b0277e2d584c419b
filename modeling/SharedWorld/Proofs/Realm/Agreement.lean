import SharedWorld.Proofs.Realm.Invariant

/-! # Sessions and the server agree

As long as the server has not removed a connection, the session on it and the server agree on
who is logged in there. No two sessions share a player. A session that has no order to load a
world on its way to it is in the world that the server has its player in.
-/

namespace SharedWorld

namespace Realm

variable {n : Realm} {c c' : ConnectionId} {stream : ConnectionId → List Envelope}
  {peer peer' : Peer} {ms : List (Moment Realm Event)}

/-- The server has the session's player on its connection, under the name of its user. -/
structure Admitted (s : Server) (c : ConnectionId) (session : ClientSession) (pl : Player) :
    Prop where
  player : s.roster.get? session.player = some pl
  id : pl.id = session.player
  connection : pl.connection = c
  onConnection : s.roster.onConnection? c = some pl
  name : pl.name = session.user

/-- No world has a NUL in its name, where a client would cut it short. -/
def PlainNames (s : Server) : Prop :=
  ∀ V, (s.atlas.worlds.get? V).isSome → '\x00' ∉ V.toList

/-- The session shows the world that the server has its player in. -/
def Placed (s : Server) (session : ClientSession) : Prop :=
  ∃ v, session.world = some v ∧ s.atlas.index.get? session.player = some v.name ∧
    v.localPlayer = session.player

theorem Attuned.placed {s : Server} (h : Attuned s.roster c (stream c) peer) (hg : s.Guided stream)
    (hs : s.atlas.Sound) (hplain : PlainNames s) {pl : Player} (ha : Admitted s c peer.session pl)
    (hi : peer.session.phase = .inWorld) (hn : ∀ W, .loadWorld W ∉ peer.inFlight) :
    Placed s peer.session := by
  obtain ⟨known, hrecalls, harrived⟩ := h.recalls
  obtain ⟨loads, ho, hlast⟩ := hg.players _ pl ha.player
  have hnames : arrived (stream c) =
      .setPlayer peer.session.player :: (loads.map Text.untilNul).map .loadWorld := by
    rw [arrived, ← ha.connection, ho, List.map_cons, List.map_map, List.map_map]
    rfl
  rw [hnames] at harrived
  cases hrecalls with
  | nothing hp =>
    rw [hi] at hp
    cases hp
  | name hp =>
    rw [hi] at hp
    cases hp
  | @world before v hp hv hq =>
    -- All that comes after the name is a world to load, and none is on its way.
    have hnil : peer.inFlight.filter (·.isOrder) = [] := by
      refine List.eq_nil_iff_forall_not_mem.mpr fun p hp => ?_
      have hmem : p ∈ (loads.map Text.untilNul).map Packet.loadWorld := by
        rw [(List.cons.inj harrived).2]
        exact List.mem_append_right _ hp
      obtain ⟨W, -, rfl⟩ := List.mem_map.mp hmem
      exact hn W (List.mem_filter.mp hp).1
    rw [hnil, List.append_nil] at harrived
    have hinj : Function.Injective Packet.loadWorld := fun _ _ => Packet.loadWorld.inj
    have hloads : loads.map Text.untilNul = before ++ [v.name] :=
      List.map_injective_iff.mpr hinj (List.cons.inj harrived).2
    have hname : (s.atlas.index.get? peer.session.player).map Text.untilNul = some v.name := by
      rw [← hlast, ← List.getLast?_map, hloads, List.getLast?_concat]
    obtain ⟨V, hV, hcut⟩ := Option.map_eq_some_iff.mp hname
    obtain ⟨w, -, hw, -⟩ := hs.member_of_index hV
    rw [Text.untilNul_eq_self_iff.mpr (hplain V (Option.isSome_of_eq_some hw))] at hcut
    exact ⟨v, hv, hcut ▸ hV, hq⟩

theorem admitsAll_of_nodup {es : List Event} (hn : (es.filterMap (·.connects?)).Nodup)
    (hd : ∀ c ∈ es.filterMap (·.connects?), ∀ m ∈ ms, m.event.connects? ≠ some c) :
    system.AdmitsAll ms n es := by
  induction es generalizing ms n with
  | nil => trivial
  | cons e es ih =>
    cases hc : e.connects? with
    | none =>
      rw [List.filterMap_cons_none hc] at hn hd
      refine ⟨fun c he => ?_, ih hn fun c hmem m hm => ?_⟩
      · rw [hc] at he
        cases he
      · rcases List.mem_cons.mp hm with rfl | hm
        · rw [hc]
          exact nofun
        · exact hd c hmem m hm
    | some c₀ =>
      rw [List.filterMap_cons_some hc] at hn hd
      obtain ⟨hnot, hn⟩ := List.nodup_cons.mp hn
      refine ⟨fun c he => ?_, ih hn fun c hmem m hm => ?_⟩
      · rw [hc] at he
        exact hd c (List.mem_cons.mpr (Or.inl (Option.some.inj he).symm))
      · rcases List.mem_cons.mp hm with rfl | hm
        · rw [hc]
          rintro ⟨⟩
          exact hnot hmem
        · exact hd c (List.mem_cons_of_mem _ hmem) m hm

def halls : Server := .ofWorlds [{ islands := [] }, { name := "cave", islands := [] }] "farm"

theorem starts_halls : system.Starts { server := halls } := by
  refine ⟨halls, Server.starts_ofWorlds (by decide +kernel), fun V hV => ?_, rfl⟩
  have hkeys : halls.atlas.worlds.keys = ["cave", "farm"] := by decide +kernel
  rw [← Table.mem_keys_iff, hkeys, List.mem_cons, List.mem_singleton] at hV
  rcases hV with rfl | rfl
  · exact ⟨_, Packet.encode_eq_ok_iff.mpr ⟨by decide, rfl⟩⟩
  · exact ⟨_, Packet.encode_eq_ok_iff.mpr ⟨by decide, rfl⟩⟩

end Realm

end SharedWorld
