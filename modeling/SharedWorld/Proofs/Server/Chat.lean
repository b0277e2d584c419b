import SharedWorld.Proofs.Client.Chat
import SharedWorld.Proofs.Server.Orders
import SharedWorld.Proofs.World.Chat

/-! # Chat on a server

What a player says goes at once to the streams of all others who are in its world, once to each
of them, and to nobody else. On a stream every chat line comes after a world to load.
-/

namespace SharedWorld

namespace Atlas

variable {a : Atlas} {e : Event} {x : Envelope}

theorem exists_world_of_sent (h : a.Valid) (hx : x ∈ (a.step e).2) :
    ∃ (w : World) (ev : World.Event), x ∈ (w.step ev).2 := by
  have hall := perform_induction
    (I := fun _ sent => ∀ x ∈ sent, ∃ (w : World) (ev : World.Event), x ∈ (w.step ev).2)
    a.worlds (a.acts e)
    (fun _ _ y w _ _ hI => List.forall_mem_append.mpr ⟨hI, fun x hx => ⟨w, y.2, hx⟩⟩)
    [] (List.forall_mem_nil _)
  rw [perform_acts h.sound e] at hall
  exact hall x hx

end Atlas

namespace Server

variable {s : Server} {e : Event} {c : ConnectionId} {q : PlayerId} {pl : Player} {x : Envelope}
  {out : Server × List Envelope} {ms : List (Moment Server Event)} {text V : String}
  {source : Route} {wall : UInt64} {m : Member}

theorem prompt_of_word (h : s.Steady) (hm : s.Makes e out) (hx : x ∈ out.2)
    (hw : x.packet.isWord) : (∃ c, x.target = .stream c) ∧ x.delay = 0 := by
  obtain ho | hl := (Bool.or_eq_true ..).mp hw
  · have horders := orders_makes h hm hx ho
    exact ⟨horders.target, horders.delay⟩
  obtain hanswers | ⟨ea, hs, -⟩ := sent_cases hm
  · cases hanswers x hx <;> cases hl
  rw [hs] at hx
  obtain ⟨w, ev, hx⟩ := Atlas.exists_world_of_sent h.valid hx
  cases hp : x.packet with
  | relayChat => exact World.prompt_of_chat hx hp
  | _ =>
    rw [hp] at hl
    cases hl

theorem loaded_of_run (h : system.Run ms s) (c : ConnectionId) :
    Packet.Loaded ((system.stream c ms).map (·.packet)) := by
  apply Packet.loaded_of_forall
  intro before p after he hline
  obtain ⟨xs, ys, hsplit, rfl, hys⟩ := List.map_eq_append_iff.mp he
  obtain ⟨x, zs, rfl, rfl, rfl⟩ := List.map_eq_cons_iff.mp hys
  have hnews : x.packet.isNews := by
    cases hp : x.packet with
    | relayChat => rfl
    | _ => exact absurd (by rw [hp]; rfl) hline
  obtain ⟨W, hlast, -⟩ := loaded_before_news h c xs zs x hsplit hnews
  have hmem := List.mem_of_getLast? hlast
  obtain ⟨y, hy, hload⟩ := List.mem_filterMap.mp hmem
  exact List.any_eq_true.mpr ⟨y.packet, List.mem_map_of_mem hy, Option.isSome_of_eq_some hload⟩

theorem Steady.eq_of_member (h : s.Steady) {V' : String} {q' : PlayerId} {m' : Member}
    (hm : s.atlas.member? V q = some m) (hm' : s.atlas.member? V' q' = some m')
    (hc : m.connection = m'.connection) : q = q' := by
  obtain ⟨-, pl, hp, hmatch⟩ := h.fits V q m hm
  obtain ⟨-, pl', hp', hmatch'⟩ := h.fits V' q' m' hm'
  refine h.sound.roster.eq_of_connection hp hp' ?_
  rw [← hmatch.connection, ← hmatch'.connection, hc]

theorem Steady.speaker (h : s.Steady) (hs : s.roster.sender? (.say text) source = some pl)
    (hV : s.atlas.index.get? pl.id = some V) : s.roster.players.get? pl.id = some pl ∧
      pl.isAuthenticated ∧ ∃ w m, s.atlas.worlds.get? V = some w ∧
        w.members.get? pl.id = some m ∧ m.Matches pl := by
  obtain ⟨w, m, hw, hwm, hm⟩ := h.sound.atlas.member_of_index hV
  obtain ⟨hid, pl', hp', hmatch⟩ := h.fits V pl.id m hm
  obtain ⟨-, c, -, -, ⟨hp, -⟩ | ⟨-, rfl⟩⟩ | ⟨hv, -⟩ := Roster.sender?_eq_some h.sound.roster hs
  · rw [hp] at hp'
    cases hp'
    exact ⟨hp, hid, w, m, hw, hwm, hmatch⟩
  · cases hid
  · cases hv

theorem receive_say (h : s.Steady) (hs : s.roster.sender? (.say text) source = some pl)
    (hV : s.atlas.index.get? pl.id = some V) (wall : UInt64) :
    ∃ w, s.atlas.worlds.get? V = some w ∧
      (s.receive (.say text) source wall).2 = w.sendChat text pl.name (some pl.id) wall := by
  obtain ⟨-, hid, w, m, hw, hm, hmatch⟩ := h.speaker hs hV
  refine ⟨w, hw, ?_⟩
  have hroute : s.atlas.route pl.id (.say text) wall =
      .ok ({ s.atlas with worlds := s.atlas.worlds.insert V w },
        w.sendChat text pl.name (some pl.id) wall) := by
    simp [Atlas.route, hV, hw, World.handle, World.say, World.member, hm, hmatch.name]
  simp [receive, hs, hid, hroute]

theorem onStream_say (h : s.Steady) (hs : s.roster.sender? (.say text) source = some pl)
    (hV : s.atlas.index.get? pl.id = some V) (wall : UInt64) :
    (∀ q m, s.atlas.member? V q = some m → q ≠ pl.id →
      onStream m.connection (s.receive (.say text) source wall).2 =
        [{ target := .stream m.connection, packet := .relayChat pl.name text wall }]) ∧
      ∀ c, (∀ q m, s.atlas.member? V q = some m → m.connection = c → q = pl.id) →
        onStream c (s.receive (.say text) source wall).2 = [] := by
  obtain ⟨w, hw, hsent⟩ := receive_say h hs hV wall
  have hget (q : PlayerId) : s.atlas.member? V q = w.members.get? q := by
    rw [Atlas.member?, hw]
    rfl
  have hplayer {q : PlayerId} {m : Member} (hm : w.members.get? q = some m) : m.player = q := by
    obtain ⟨-, pl', hp', hmatch⟩ := h.fits V q m ((hget q).trans hm)
    exact hmatch.player.trans (h.sound.roster.placed q pl' hp').1
  rw [hsent]
  constructor
  · intro q m hm hne
    rw [hget] at hm
    refine World.onStream_sendChat_member hm (fun he => hne ?_) fun q' m' hm' hc => ?_
    · rw [← hplayer hm]
      exact Option.some.inj he
    · exact h.eq_of_member ((hget q').trans hm') ((hget q).trans hm) hc
  · intro c hc
    refine World.onStream_sendChat_eq_nil fun q m hm he => ?_
    rw [hplayer hm, hc q m ((hget q).trans hm) he]

end Server

end SharedWorld
