import SharedWorld.Proofs.Realm.Attunement

/-! # Clients stay in step

Whatever comes to the server, what it orders goes to those who are logged in, or to those whose
login it answers. So a client that was in step before an event is in step after it, and all
clients are in every state of a run.
-/

namespace SharedWorld

namespace Realm

variable {n : Realm} {e : Event} {c : ConnectionId} {peer peer' : Peer} {s : Server}
  {ask : Server.Event} {out : Server × List Envelope} {sent : List Envelope}
  {stream : ConnectionId → List Envelope} {user password : String} {wall : UInt64}
  {ms : List (Moment Realm Event)}

theorem orders_prompt (hd : ∀ x ∈ sent, x.packet.isOrder → x.delay = 0) :
    (prompt c sent).filter (·.isOrder) = orders (onStream c sent) :=
  filter_prompt hd

theorem Attuned.quiet_of_early (h : Attuned s.roster c (stream c) peer) (hg : s.Guided stream)
    (ho : ∀ x ∈ out.2, x.packet.isOrder → s.Orders ask x)
    (hl : ∀ user password wall, ask = .receive (.authenticate user password) (.stream c) wall →
      peer.session.phase.isEarly = false) (he : peer.session.phase.isEarly) :
    orders (onStream c out.2) = [] := by
  rw [orders_eq_nil_iff]
  intro x hx
  obtain ⟨hx, ht⟩ := mem_onStream_iff.mp hx
  by_contra hn
  cases ho x hx (Bool.not_eq_false _ ▸ hn) with
  | welcome =>
    cases ht
    rw [hl _ _ _ rfl] at he
    cases he
  | load hp =>
    cases ht
    obtain ⟨loads, ho, -⟩ := hg.players _ _ hp
    rw [(h.early he).1] at ho
    cases ho

/-- The server does its part: what it orders goes to those whose login it answers, and to those
who are logged in. -/
theorem Attuned.tell (h : Attuned s.roster c (stream c) peer) (hs : s.Steady) (hg : s.Guided stream)
    (hv : ∀ V, (s.atlas.worlds.get? V).isSome → (Packet.loadWorld V).HasFrame)
    (hm : s.Makes ask out)
    (hl : ∀ user password wall, ask = .receive (.authenticate user password) (.stream c) wall →
      user = peer.session.user ∧ peer.session.phase.isEarly = false) :
    Attuned out.1.roster c (stream c ++ onStream c out.2)
      (peer.receive (Packet.frames (prompt c out.2))) := by
  have horders {x : Envelope} (hx : x ∈ out.2) (ho : x.packet.isOrder) : s.Orders ask x :=
    Server.orders_makes hs hm hx ho
  have hframed : ∀ p ∈ prompt c out.2, p.isOrder → p.HasFrame := by
    intro p hp ho
    obtain ⟨x, hx, rfl⟩ := List.mem_map.mp hp
    have hx := (mem_onStream_iff.mp (List.mem_filter.mp hx).1).1
    cases horders hx ho with
    | welcome q => exact Packet.hasFrame_setPlayer q
    | load _ hV => exact hv _ hV
  refine ⟨h.tidy, h.plain, ?_, ?_, h.lost, ?_, h.logins, ?_⟩
  · intro frame hframe
    rcases List.mem_append.mp hframe with hframe | hframe
    · exact h.legible frame hframe
    · exact Packet.decode_of_mem_frames hframe
  · obtain ⟨known, hr, hknown⟩ := h.recalls
    refine ⟨known, hr, ?_⟩
    have hflight : (peer.receive (Packet.frames (prompt c out.2))).inFlight =
        peer.inFlight ++ Packet.read (Packet.frames (prompt c out.2)) := by
      simp [Peer.inFlight, Peer.receive]
    rw [hflight, List.filter_append, Packet.orders_read_frames hframed,
      orders_prompt fun x hx ho => (horders hx ho).delay, arrived_append, hknown, List.append_assoc]
    rfl
  · intro he
    obtain ⟨hnone, hquiet⟩ := h.early he
    refine ⟨?_, hquiet⟩
    rw [orders_append, hnone, List.nil_append]
    exact h.quiet_of_early hg (fun x => horders) (fun _ _ _ ha => (hl _ _ _ ha).2) he
  · intro q pl hp hc
    rcases Server.named_makes hm hp with ⟨pl₀, hp₀, hc₀, hn₀⟩ | ⟨password, wall, he⟩
    · rw [← hn₀]
      exact h.named q pl₀ hp₀ (hc₀.trans hc)
    · rw [hc] at he
      exact (hl _ _ _ he).1

theorem login_of_asks
    (ha : n.asks e = some (.receive (.authenticate user password) (.stream c) wall))
    (hp : (n.prepare e).peers.get? c = some peer') : ∃ peer, n.peers.get? c = some peer ∧
      peer'.session = peer.session ∧ .authenticate user password ∈ Packet.read peer.outgoing := by
  unfold asks at ha
  split at ha
  · cases ha
  · obtain ⟨peer, hpeer, ha⟩ := Option.bind_eq_some_iff.mp ha
    obtain ⟨frame, hframe, ha⟩ := Option.bind_eq_some_iff.mp ha
    obtain ⟨p, hdecode, ha⟩ := Option.bind_eq_some_iff.mp ha
    cases ha
    refine ⟨peer, hpeer, ?_, ?_⟩
    · rw [prepare, get?_alter, if_pos rfl, hpeer] at hp
      cases hp
      rfl
    · exact List.mem_filterMap.mpr ⟨frame, List.mem_of_mem_head? hframe, hdecode⟩
  · next p c' wall' =>
    split at ha
    · cases ha
    · next hc =>
      cases ha
      have hp : n.peers.get? c = some peer' := hp
      rw [Table.contains_eq, hp] at hc
      exact absurd rfl hc
  · next hstream =>
    cases ha
    exact absurd rfl (hstream _ _ _)
  · cases ha

theorem Clear.step (h : n.Clear) (ho : ∀ x ∈ (n.outcome e).2, x.packet.isOrder →
    (∃ c, x.target = .stream c) ∧ x.delay = 0) : (n.step e).1.Clear := by
  refine forall_underway_step h fun x hx hcarrier frame hf => noOrder_of_encode hf ?_
  refine Bool.eq_false_iff.mpr fun hox => ?_
  obtain ⟨⟨c, hc⟩, hd⟩ := ho x hx hox
  obtain hd' | ⟨a, ha⟩ := hcarrier
  · exact hd' hd
  · rw [hc] at ha
    cases ha

theorem Attuned.step (hrun : Server.system.Run (served ms) n.server)
    (hv : ∀ V, (n.server.atlas.worlds.get? V).isSome → (Packet.loadWorld V).HasFrame)
    (h : ∀ peer, n.peers.get? c = some peer → Attuned n.server.roster c (streamed c ms) peer)
    (hprepared : Attuned n.server.roster c (streamed c ms) peer)
    (hp : (n.prepare e).peers.get? c = some peer) :
    Attuned (n.outcome e).1.roster c (streamed c (⟨n, e⟩ :: ms))
      (peer.receive (Packet.frames (prompt c (n.outcome e).2))) := by
  rw [streamed_cons]
  rcases served_cons n e ms with ⟨-, -, ho⟩ | ⟨ask, ha, -, ho⟩ <;> rw [ho]
  · simpa [prompt, onStream, Packet.frames, Peer.receive] using hprepared
  have hs := Server.steady_of_run hrun
  have hg : n.server.Guided fun c => streamed c ms := Server.guided_of_run hrun
  refine hprepared.tell hs hg hv (Server.makes_step hs.sound hs.valid ask) ?_
  rintro user password wall rfl
  obtain ⟨peer₀, hp₀, hsession, hmem⟩ := login_of_asks ha hp
  rw [hsession]
  refine ⟨(h peer₀ hp₀).logins user password hmem, Bool.eq_false_iff.mpr fun he => ?_⟩
  cases ((h peer₀ hp₀).early he).2 _ hmem

/-- All clients are in step with the server. -/
structure InStep (n : Realm) (stream : ConnectionId → List Envelope) : Prop where
  clear : n.Clear
  framed : ∀ V, (n.server.atlas.worlds.get? V).isSome → (Packet.loadWorld V).HasFrame
  attuned : ∀ c peer, n.peers.get? c = some peer → Attuned n.server.roster c (stream c) peer

theorem attuned_of_fresh (hrun : Server.system.Run (served ms) n.server)
    (hc : ∀ m ∈ ms, m.event.connects? ≠ some c) {server : SocketAddress} {salt : Bytes}
    (hj : Peer.join server user password salt = some peer) :
    Attuned n.server.roster c (streamed c ms) peer := by
  have hfresh := connects_of_served hc
  have hnil : streamed c ms = [] := Server.stream_eq_nil hrun hfresh
  rw [hnil]
  refine attuned_join hj fun q pl hp he => ?_
  obtain ⟨hs, huses⟩ := Server.sound_of_run hrun
  obtain ⟨m, hm, hconnects⟩ := huses c (he ▸ hs.roster.uses hp)
  exact hfresh m hm hconnects

theorem InStep.step (h : n.InStep fun c => streamed c ms)
    (hrun : Server.system.Run (served ms) n.server)
    (ha : ∀ c ∈ e.connects?, ∀ m ∈ ms, m.event.connects? ≠ some c) :
    (n.step e).1.InStep fun c => streamed c (⟨n, e⟩ :: ms) := by
  have hs := Server.steady_of_run hrun
  constructor
  · refine h.clear.step fun x hx ho => ?_
    rcases served_cons n e ms with ⟨-, -, hout⟩ | ⟨ask, -, -, hout⟩ <;> rw [hout] at hx
    · cases hx
    · have horders := Server.orders_makes hs (Server.makes_step hs.sound hs.valid ask) hx ho
      exact ⟨horders.target, horders.delay⟩
  · intro V hV
    refine h.framed V ?_
    rw [step_server] at hV
    rcases served_cons n e ms with ⟨-, -, hout⟩ | ⟨ask, -, -, hout⟩ <;> rw [hout] at hV
    · exact hV
    · rwa [Server.worlds_makes hs (Server.makes_step hs.sound hs.valid ask)] at hV
  · intro c peer' hp
    rw [step_server]
    rw [Realm.step, get?_post] at hp
    obtain ⟨peer, hprepared, rfl⟩ := Option.map_eq_some_iff.mp hp
    refine Attuned.step hrun h.framed (h.attuned c) ?_ hprepared
    rcases prepare_cases hprepared with ⟨server, user, password, salt, rfl, hj⟩ | ⟨peer₀, hp₀, ht⟩
    · exact attuned_of_fresh hrun (ha c rfl) hj
    · exact (h.attuned c peer₀ hp₀).turn (Server.ordered_of_run hrun c) h.clear ht

theorem inStep_of_run (h : system.Run ms n) : n.InStep fun c => streamed c ms := by
  induction h with
  | start h =>
    obtain ⟨server, -, hworlds, rfl⟩ := h
    refine ⟨⟨nofun, nofun⟩, hworlds, fun c peer hp => ?_⟩
    rw [Table.get?_empty] at hp
    cases hp
  | @step ms n e h ha ih => exact ih.step (run_served h) ha

theorem connected_of_run (h : system.Run ms n) (hc : ∀ m ∈ ms, m.event ≠ .close c)
    (hp : n.peers.get? c = some peer) : peer.session.link.connected := by
  induction h generalizing peer with
  | start h =>
    obtain ⟨server, -, -, rfl⟩ := h
    rw [Table.get?_empty] at hp
    cases hp
  | @step ms n e h ha ih =>
    change ((n.step e).1.peers.get? c) = some peer at hp
    rw [Realm.step, get?_post] at hp
    obtain ⟨peer₁, hprepared, rfl⟩ := Option.map_eq_some_iff.mp hp
    rcases prepare_cases hprepared with ⟨server, user, password, salt, -, hj⟩ | ⟨peer₀, hp₀, ht⟩
    · rw [Peer.join_eq hj]
      rfl
    · have hup := ih (fun m hm => hc m (List.mem_cons_of_mem _ hm)) hp₀
      have he : e ≠ .close c := hc ⟨n, e⟩ List.mem_cons_self
      have hnext : peer₁.session.link.connected :=
        ((inStep_of_run h).attuned c peer₀ hp₀).connected_of_turn ht he hup
      exact hnext

end Realm

end SharedWorld
