import SharedWorld.Proofs.Realm.Run

/-! # Clients in step with the server

What a session has heard so far and what is still under way to it are, together, all that the
server has ordered on its stream. A login is on its way only for the session's own user, and
once it is, the session has left the first phases for good. So what the server knows of a
connection is what its session asked for.
-/

namespace SharedWorld

namespace ClientLink

theorem drain_eq {l : ClientLink} (ht : l.inbox.pending = false → l.inbox.items = []) :
    ∃ link, l.drain = (l.inbox.items, link) ∧ link.connected = l.connected ∧
      link.inbox.items = [] := by
  cases hp : l.inbox.pending with
  | true =>
    exact ⟨{ l with inbox := {} }, by simp [drain, Mailbox.drain, Mailbox.take, hp], rfl, rfl⟩
  | false => exact ⟨l, by simp [drain, Mailbox.drain, hp, ht hp], rfl, ht hp⟩

end ClientLink

/-- The frame holds a packet, and no order. -/
def NoOrder (frame : Bytes) : Prop := ∃ p, Packet.decode frame = .ok p ∧ p.isOrder = false

theorem noOrder_of_encode {p : Packet} {frame : Bytes} (hf : p.encode = .ok frame)
    (ho : p.isOrder = false) : NoOrder frame := by
  refine ⟨_, Packet.decode_of_encode hf, ?_⟩
  rw [Packet.isOrder_mapText, ho]

theorem NoOrder.orders_read {frame : Bytes} (h : NoOrder frame) :
    (Packet.read [frame]).filter (·.isOrder) = [] := by
  obtain ⟨p, hd, ho⟩ := h
  rw [Packet.read_cons_of_ok hd, List.filter_cons_of_neg (by simp [ho])]
  rfl

namespace Peer

theorem mem_read_send {peer : Peer} (session : ClientSession) {sent : List Packet} {p : Packet}
    (h : p ∈ Packet.read (peer.send session sent).outgoing) :
    p ∈ Packet.read peer.outgoing ∨ ∃ p₀ ∈ sent, p = p₀.mapText Text.untilNul := by
  rw [send, Packet.read_append] at h
  rcases List.mem_append.mp h with h | h
  · exact Or.inl h
  · obtain ⟨p₀, hp₀, rfl⟩ := Packet.exists_of_mem_read_frames h
    exact Or.inr ⟨p₀, (List.mem_filter.mp hp₀).1, rfl⟩

theorem join_eq {server : SocketAddress} {user password : String} {salt : Bytes} {peer : Peer}
    (hj : join server user password salt = some peer) :
    let session : ClientSession := { link := { server }, user, password, salt }
    peer = ({ session } : Peer).send session [.requestPassword user] := by
  intro session
  unfold join ClientSession.start ClientSession.send at hj
  rcases session.sendOr_cases (.requestPassword user) session session with ⟨-, ho⟩ | ⟨e, -, ho⟩
  · rw [ho] at hj
    exact (Option.some.inj hj).symm
  · rw [ho] at hj
    cases hj

/-- The session takes its inbox, and leaves this link behind. -/
def take (peer : Peer) (link : ClientLink) : Peer :=
  let taking : ClientSession := { peer.session with link }
  let out := taking.handleAll peer.session.link.inbox.items
  { peer with lost := peer.lost ++ taking.leftover peer.session.link.inbox.items }.send
    out.session out.sent

theorem filter_flight {f : Packet → Bool} {lost items taken left rest : List Packet}
    (hl : ∀ p ∈ lost, f p → items = []) (hs : items = taken ++ left) :
    (lost ++ items ++ rest).filter f = taken.filter f ++ (lost ++ left ++ rest).filter f := by
  by_cases hitems : items = []
  · obtain ⟨rfl, rfl⟩ := List.append_eq_nil_iff.mp (hs.symm.trans hitems)
    simp [hitems]
  · -- Nothing has been lost as long as there is something to take.
    have hlost : lost.filter f = [] :=
      List.filter_eq_nil_iff.mpr fun p hp hf => hitems (hl p hp hf)
    simp [hs, hlost]

theorem send_send (peer : Peer) (s s' : ClientSession) (ps qs : List Packet) :
    (peer.send s ps).send s' qs = peer.send s' (ps ++ qs) := by
  simp [send, Packet.frames]

end Peer

namespace Realm

variable {n : Realm} {e : Event} {roster : Roster} {c : ConnectionId} {told : List Envelope}
  {peer peer' : Peer}

/-- The orders among what a client has been told, as it reads them. -/
def arrived (told : List Envelope) : List Packet := (orders told).map (·.mapText Text.untilNul)

theorem arrived_append (xs ys : List Envelope) :
    arrived (xs ++ ys) = arrived xs ++ arrived ys := by
  rw [arrived, orders_append, List.map_append]
  rfl

/-- A client in step with the roster and with what it has been told on its stream. -/
structure Attuned (roster : Roster) (c : ConnectionId) (told : List Envelope) (peer : Peer) :
    Prop where
  tidy : peer.session.link.inbox.pending = false → peer.session.link.inbox.items = []
  plain : ∀ p ∈ peer.session.link.inbox.items, p.mapText Text.untilNul = p
  legible : ∀ frame ∈ peer.incoming, ∃ p, Packet.decode frame = .ok p
  recalls : ∃ heard, peer.session.Recalls heard ∧
    arrived told = heard ++ peer.inFlight.filter (·.isOrder)
  lost : ∀ p ∈ peer.lost, p.isOrder →
    peer.session.link.connected = false ∧ peer.session.link.inbox.items = []
  early : peer.session.phase.isEarly →
    orders told = [] ∧ ∀ p ∈ Packet.read peer.outgoing, p.isLogin = false
  logins : ∀ user password, .authenticate user password ∈ Packet.read peer.outgoing →
    user = peer.session.user
  named : ∀ q pl, roster.players.get? q = some pl → pl.connection = c →
    pl.name = peer.session.user

section Clients

theorem Attuned.relink (h : Attuned roster c told peer) (link : ClientLink)
    (incoming : List Bytes) (ht : link.inbox.pending = false → link.inbox.items = [])
    (hp : ∀ p ∈ link.inbox.items, p.mapText Text.untilNul = p)
    (hi : ∀ frame ∈ incoming, ∃ p, Packet.decode frame = .ok p)
    (ho : ({ peer.relink link with incoming } : Peer).inFlight.filter (·.isOrder) =
      peer.inFlight.filter (·.isOrder))
    (hl : ∀ p ∈ peer.lost, p.isOrder → link.connected = false ∧ link.inbox.items = []) :
    Attuned roster c told { peer.relink link with incoming } := by
  obtain ⟨heard, hr, horders⟩ := h.recalls
  refine ⟨ht, hp, hi, ⟨heard, hr.relink link, ?_⟩, hl, h.early, h.logins, h.named⟩
  rw [ho]
  exact horders

theorem Attuned.push (h : Attuned roster c told peer) (hc : peer.session.link.connected)
    {p : Packet} (hp : p.mapText Text.untilNul = p) (incoming : List Bytes)
    (hi : ∀ frame ∈ incoming, ∃ p, Packet.decode frame = .ok p)
    (ho : (p :: Packet.read incoming).filter (·.isOrder) =
      (Packet.read peer.incoming).filter (·.isOrder)) :
    let link := peer.session.link
    Attuned roster c told
      { peer.relink { link with inbox := link.inbox.push p } with incoming } := by
  intro link
  refine h.relink { link with inbox := link.inbox.push p } incoming ?_ ?_ hi ?_ ?_
  · intro hpending
    cases hpending
  · intro p' hp'
    rcases List.mem_append.mp hp' with hp' | hp'
    · exact h.plain p' hp'
    · rw [List.mem_singleton.mp hp', hp]
  · have hbefore : ∀ qs, peer.lost ++ (link.inbox.items ++ [p]) ++ qs =
        peer.lost ++ link.inbox.items ++ (p :: qs) := by simp
    change (peer.lost ++ (link.inbox.items ++ [p]) ++ Packet.read incoming).filter (·.isOrder) = _
    rw [hbefore, List.filter_append, ho, ← List.filter_append]
    rfl
  · intro p' hp' ho'
    rw [(h.lost p' hp' ho').1] at hc
    cases hc

theorem Attuned.arrive (h : Attuned roster c told peer) : Attuned roster c told peer.arrive := by
  unfold Peer.arrive
  split
  · exact h
  next frame incoming hin =>
  split
  · next hc =>
    obtain ⟨p, hd⟩ := h.legible frame (by simp [hin])
    rw [ClientLink.onFrame, if_pos hc, hd]
    refine h.push hc (Packet.mapText_of_decode hd) incoming ?_ ?_
    · intro frame' hframe'
      exact h.legible frame' (by simp [hin, hframe'])
    · rw [hin, Packet.read_cons_of_ok hd]
  · exact h

theorem Attuned.hear (h : Attuned roster c told peer) {data : Bytes} {source : SocketAddress}
    (hd : source = peer.session.link.server → NoOrder data) :
    Attuned roster c told (peer.relink (peer.session.link.onDatagram data source)) := by
  unfold ClientLink.onDatagram
  split
  · next hc =>
    obtain ⟨p, hp, ho⟩ := hd hc.2
    rw [hp]
    refine h.push hc.1 (Packet.mapText_of_decode hp) peer.incoming h.legible ?_
    rw [List.filter_cons_of_neg (by simp [ho])]
  · exact h

theorem Attuned.close (h : Attuned roster c told peer) :
    Attuned roster c told (peer.relink peer.session.link.close) := by
  refine h.relink _ _ h.tidy h.plain h.legible rfl ?_
  intro p hp ho
  exact ⟨rfl, (h.lost p hp ho).2⟩

theorem Attuned.receive (h : Attuned roster c told peer) {frame : Bytes} (hf : NoOrder frame) :
    Attuned roster c told (peer.receive [frame]) := by
  refine h.relink peer.session.link (peer.incoming ++ [frame]) h.tidy h.plain ?_ ?_ h.lost
  · intro frame' hframe'
    rcases List.mem_append.mp hframe' with hframe' | hframe'
    · exact h.legible frame' hframe'
    · obtain ⟨p, hd, -⟩ := hf
      rw [List.mem_singleton.mp hframe']
      exact ⟨p, hd⟩
  · simp [Peer.inFlight, Peer.relink, hf.orders_read]

theorem Attuned.deliver (h : Attuned roster c told peer) :
    Attuned roster c told { peer with outgoing := peer.outgoing.tail } := by
  have hsub : ∀ p ∈ Packet.read peer.outgoing.tail, p ∈ Packet.read peer.outgoing :=
    fun p hp => (List.Sublist.filterMap _ (List.tail_sublist _)).subset hp
  refine ⟨h.tidy, h.plain, h.legible, h.recalls, h.lost, fun he => ?_,
    fun user password hm => ?_, h.named⟩
  · obtain ⟨ho, hl⟩ := h.early he
    exact ⟨ho, fun p hp => hl p (hsub p hp)⟩
  · exact h.logins user password (hsub _ hm)

theorem Attuned.early_send (h : Attuned roster c told peer) {session : ClientSession}
    {sent : List Packet} (hs : session.phase.isEarly →
      peer.session.phase.isEarly ∧ ∀ p ∈ sent, p.isLogin = false) (he : session.phase.isEarly) :
    orders told = [] ∧
      ∀ p ∈ Packet.read (peer.send session sent).outgoing, p.isLogin = false := by
  obtain ⟨hphase, hquiet⟩ := hs he
  obtain ⟨hnone, hout⟩ := h.early hphase
  constructor
  · exact hnone
  · intro p hp
    rcases Peer.mem_read_send session hp with hp | ⟨p₀, hp₀, rfl⟩
    · exact hout p hp
    · rw [Packet.isLogin_mapText, hquiet p₀ hp₀]

theorem Attuned.login_send (h : Attuned roster c told peer) (session : ClientSession)
    {sent : List Packet} (hs : ∀ user password, .authenticate user password ∈ sent →
      Text.untilNul user = peer.session.user) {user password : String}
    (hm : .authenticate user password ∈ Packet.read (peer.send session sent).outgoing) :
    user = peer.session.user := by
  rcases Peer.mem_read_send session hm with hm | ⟨p₀, hp₀, he⟩
  · exact h.logins user password hm
  · obtain ⟨user₀, password₀, rfl, hu⟩ := Packet.authenticate_of_mapText he.symm
    rw [hu, hs user₀ password₀ hp₀]

theorem Attuned.speak (h : Attuned roster c told peer) {session : ClientSession}
    {sent : List Packet} (hs : peer.session.Resembles session)
    (hl : ∀ p ∈ sent, p.isLogin = false) : Attuned roster c told (peer.send session sent) := by
  obtain ⟨heard, hr, horders⟩ := h.recalls
  constructor
  · rw [Peer.send, hs.link]
    exact h.tidy
  · rw [Peer.send, hs.link]
    exact h.plain
  · exact h.legible
  · refine ⟨heard, hr.of_resembles hs, ?_⟩
    rw [Peer.send, Peer.inFlight, hs.link]
    exact horders
  · rw [Peer.send, hs.link]
    exact h.lost
  · exact h.early_send fun he => ⟨hs.phase ▸ he, hl⟩
  · intro user password hm
    rw [Peer.send, hs.user]
    refine h.login_send session ?_ hm
    intro user password hp
    cases hl _ hp
  · rw [Peer.send, hs.user]
    exact h.named

/-- A session follows the orders in its inbox up to the first failure, and the others are still
those that it has not heard. -/
theorem Attuned.taken (h : Attuned roster c told peer) (ho : Packet.Ordered (orders told))
    (link : ClientLink) :
    let items := peer.session.link.inbox.items
    let taking : ClientSession := { peer.session with link }
    ∃ heard taken, items = taken ++ taking.leftover items ∧
      (taking.handleAll items).session.Recalls (heard ++ taken.filter (·.isOrder)) ∧
      arrived told = heard ++ peer.inFlight.filter (·.isOrder) ∧
      arrived told = heard ++ taken.filter (·.isOrder) ++
        (peer.lost ++ taking.leftover items ++ Packet.read peer.incoming).filter (·.isOrder) := by
  intro items taking
  obtain ⟨heard, hr, horders⟩ := h.recalls
  have hsplits {taken left : List Packet} (hs : items = taken ++ left) :
      arrived told = heard ++ taken.filter (·.isOrder) ++
        (peer.lost ++ left ++ Packet.read peer.incoming).filter (·.isOrder) := by
    rw [horders, List.append_assoc]
    congr 1
    exact Peer.filter_flight (fun p hp ho => (h.lost p hp ho).2) hs
  have ho : Packet.Ordered (arrived told) := ho.mapText Text.untilNul
  rw [hsplits (List.append_nil items).symm] at ho
  obtain ⟨taken, hsplit, hr'⟩ := ClientSession.recalls_handleAll (hr.relink link) ho
  exact ⟨heard, taken, hsplit, hr', horders, hsplits hsplit⟩

/-- What a session does not come to holds no orders as long as its link is up: then it can only
fail to log in. -/
theorem Attuned.isOrder_of_leftover (h : Attuned roster c told peer)
    (ho : Packet.Ordered (orders told)) {link : ClientLink} (hup : link.connected) {p : Packet}
    (hp : p ∈ ({ peer.session with link } : ClientSession).leftover
      peer.session.link.inbox.items) : p.isOrder = false := by
  obtain ⟨heard, taken, hsplit, -, hbefore, -⟩ := h.taken ho link
  have hearly : peer.session.phase.isEarly :=
    ClientSession.isEarly_of_leftover (s := { peer.session with link }) hup (List.ne_nil_of_mem hp)
  have hnone : arrived told = [] := by
    rw [arrived, (h.early hearly).1]
    rfl
  rw [hbefore] at hnone
  have hflight := List.filter_eq_nil_iff.mp (List.append_eq_nil_iff.mp hnone).2
  have hitem : p ∈ peer.session.link.inbox.items := by
    rw [hsplit]
    exact List.mem_append_right _ hp
  simpa using hflight p (List.mem_append_left _ (List.mem_append_right _ hitem))

theorem Attuned.take (h : Attuned roster c told peer) (ho : Packet.Ordered (orders told))
    {link : ClientLink} (hc : link.connected = peer.session.link.connected)
    (hempty : link.inbox.items = []) : Attuned roster c told (peer.take link) := by
  let items := peer.session.link.inbox.items
  let taking : ClientSession := { peer.session with link }
  let handled := (taking.handleAll items).session
  obtain ⟨hl, huser, hearly, hlogin⟩ := taking.answers_handleAll items
  have hnil : handled.link.inbox.items = [] := by rw [hl, hempty]
  obtain ⟨heard, taken, -, hr, -, hafter⟩ := h.taken ho link
  constructor
  · intro _
    exact hnil
  · intro p hp
    have hp : p ∈ handled.link.inbox.items := hp
    rw [hnil] at hp
    cases hp
  · exact h.legible
  · refine ⟨_, hr, ?_⟩
    have hflight : (peer.take link).inFlight =
        peer.lost ++ taking.leftover items ++ handled.link.inbox.items ++
          Packet.read peer.incoming := rfl
    rw [hflight, hnil, List.append_nil]
    exact hafter
  · intro p hp hpo
    refine ⟨?_, hnil⟩
    change handled.link.connected = false
    rw [hl]
    rcases List.mem_append.mp hp with hp | hp
    · exact hc.trans (h.lost p hp hpo).1
    · by_contra hup
      rw [h.isOrder_of_leftover ho (Bool.not_eq_false _ ▸ hup) hp] at hpo
      cases hpo
  · exact h.early_send hearly
  · intro user password hm
    change user = handled.user
    rw [huser]
    refine h.login_send handled ?_ hm
    intro user password hp
    obtain ⟨rfl, stored, hstored⟩ := hlogin user password hp
    -- The session logs in for a user whom the server could name.
    have hplain := h.plain _ hstored
    rw [Packet.mapText, Packet.sendPassword.injEq] at hplain
    exact hplain.1
  · intro q pl hp hc
    change pl.name = handled.user
    rw [huser]
    exact h.named q pl hp hc

theorem Attuned.exists_take (h : Attuned roster c told peer) {now : Int}
    (hu : peer.update now = some peer') : ∃ link session sent,
      link.connected = peer.session.link.connected ∧ link.inbox.items = [] ∧
      (peer.take link).session.Resembles session ∧ (∀ p ∈ sent, p.isLogin = false) ∧
      peer' = (peer.take link).send session sent := by
  obtain ⟨link, hdrain, hc, hempty⟩ := ClientLink.drain_eq h.tidy
  unfold Peer.update at hu
  rw [hdrain] at hu
  obtain ⟨out, hout, rfl⟩ := Option.map_eq_some_iff.mp hu
  obtain ⟨hs, sent, hsent, hl⟩ := ClientSession.update_resembles hdrain hout
  refine ⟨link, out.session, sent, hc, hempty, hs, hl, ?_⟩
  rw [Peer.take, Peer.send_send, hsent]
  rfl

theorem attuned_join {server : SocketAddress} {user password : String} {salt : Bytes}
    (hj : Peer.join server user password salt = some peer)
    (hn : ∀ q pl, roster.players.get? q = some pl → pl.connection ≠ c) :
    Attuned roster c [] peer := by
  let session : ClientSession := { link := { server }, user, password, salt }
  have hpeer : peer = ({ session } : Peer).send session [.requestPassword user] := Peer.join_eq hj
  have hquiet : ∀ p ∈ Packet.read peer.outgoing, p.isLogin = false := by
    intro p hp
    rw [hpeer] at hp
    rcases Peer.mem_read_send session hp with hp | ⟨p₀, hp₀, rfl⟩
    · cases hp
    · rw [Packet.isLogin_mapText, List.mem_singleton.mp hp₀]
      rfl
  have hlogins : ∀ user' password', .authenticate user' password' ∈ Packet.read peer.outgoing →
      user' = peer.session.user := by
    intro user' password' hm
    cases hquiet _ hm
  subst hpeer
  refine ⟨fun _ => rfl, nofun, nofun, ⟨[], .nothing rfl, rfl⟩, nofun, fun _ => ⟨rfl, hquiet⟩,
    hlogins, ?_⟩
  intro q pl hp hc
  exact absurd hc (hn q pl hp)

def Clear (n : Realm) : Prop := (∀ y ∈ n.held, NoOrder y.2) ∧ ∀ frame ∈ n.airborne, NoOrder frame

theorem Attuned.turn (h : Attuned roster c told peer) (ho : Packet.Ordered (orders told))
    (hn : n.Clear) (ht : n.Turns e c peer peer') : Attuned roster c told peer' := by
  cases ht with
  | stays => exact h
  | arrives => exact h.arrive
  | hears data source hd => exact h.hear fun hs => hn.2 data (hd hs)
  | receives hf => exact h.receive (hn.1 _ hf)
  | updates _ hu =>
    obtain ⟨link, session, sent, hc, hempty, hs, hl, rfl⟩ := h.exists_take hu
    exact (h.take ho hc hempty).speak hs hl
  | speaks hs _ hl => exact h.speak hs hl
  | closes => exact h.close
  | delivers => exact h.deliver

theorem Attuned.connected_of_turn (h : Attuned roster c told peer) (ht : n.Turns e c peer peer')
    (he : e ≠ .close c) (hc : peer.session.link.connected) : peer'.session.link.connected := by
  cases ht with
  | stays | receives | delivers => exact hc
  | arrives =>
    unfold Peer.arrive
    split
    · exact hc
    next frame incoming hin =>
    obtain ⟨p, hd⟩ := h.legible frame (by simp [hin])
    rw [if_pos hc, ClientLink.onFrame, if_pos hc, hd]
    exact hc
  | hears =>
    unfold ClientLink.onDatagram
    split
    · split <;> exact hc
    · exact hc
  | updates _ hu =>
    obtain ⟨link, session, sent, hlink, -, hs, -, rfl⟩ := h.exists_take hu
    have htaken : (peer.take link).session.link = link :=
      (ClientSession.answers_handleAll _ _).link
    change session.link.connected
    rw [hs.link, htaken, hlink, hc]
  | @speaks session _ hs =>
    change session.link.connected
    rw [hs.link, hc]
  | closes hclose => exact absurd hclose he

end Clients

end Realm

end SharedWorld
