import SharedWorld.Proofs.Realm.Invariant
import SharedWorld.Proofs.Server.Chat

/-! # Clients hear what they are told

The words on a stream are its orders and its chat lines. Those that a session has heard and those
that are still under way to it are, together, all words that the server has sent on the stream, in
the order in which it sent them. What the session has heard it has written into its chat log, line
by line.
-/

namespace SharedWorld

def NoWord (frame : Bytes) : Prop := ∃ p, Packet.decode frame = .ok p ∧ p.isWord = false

theorem NoWord.words_read {frame : Bytes} (h : NoWord frame) :
    (Packet.read [frame]).filter (·.isWord) = [] := by
  obtain ⟨p, hd, hw⟩ := h
  rw [Packet.read_cons_of_ok hd, List.filter_cons_of_neg (by simp [hw])]
  rfl

namespace Packet

variable {p : Packet} {ps : List Packet}

@[simp] theorem isWord_mapText (f : String → String) (p : Packet) :
    (p.mapText f).isWord = p.isWord := by
  cases p <;> rfl

theorem line?_mapText (f : String → String) (h : p.line? = none) : (p.mapText f).line? = none := by
  cases p <;> first | rfl | cases h

theorem noWord_of_encode {frame : Bytes} (hf : p.encode = .ok frame) (hw : p.isWord = false) :
    NoWord frame := by
  refine ⟨_, decode_of_encode hf, ?_⟩
  rw [isWord_mapText, hw]

theorem words_read_frames (ps : List Packet) :
    (read (frames ps)).filter (·.isWord) = read (frames (ps.filter (·.isWord))) := by
  induction ps with
  | nil => rfl
  | cons p ps ih =>
    cases hw : p.isWord with
    | false =>
      rw [List.filter_cons_of_neg (by simp [hw]), ← ih]
      rcases read_frames_cons p ps with ⟨-, hr⟩ | ⟨-, hr⟩ <;> rw [hr]
      exact List.filter_cons_of_neg (by simp [hw])
    | true =>
      rw [List.filter_cons_of_pos hw]
      rcases read_frames_cons p ps with ⟨⟨e, he⟩, hr⟩ | ⟨⟨frame, hf⟩, hr⟩ <;> rw [hr]
      · rw [ih]
        simp [frames, he, Except.toOption]
      · rw [List.filter_cons_of_pos (by simp [hw]), ih, ← read_cons_of_ok (decode_of_encode hf)]
        simp [frames, hf, Except.toOption]

/-- Worlds to load are not lost on the way. -/
theorem Loaded.read_frames (h : Loaded ps) (hf : ∀ p ∈ ps, p.isOrder → p.HasFrame) :
    Loaded (read (frames (ps.filter (·.isWord)))) := by
  induction ps with
  | nil => trivial
  | cons p ps ih =>
    obtain ⟨hp, hps⟩ := List.forall_mem_cons.mp hf
    have later (hrest : Loaded ps) : p.line? = none →
        Loaded (read (frames ((p :: ps).filter (·.isWord)))) := by
      intro hline
      cases hw : p.isWord with
      | false =>
        rw [List.filter_cons_of_neg (by simp [hw])]
        exact ih hrest hps
      | true =>
        rw [List.filter_cons_of_pos hw]
        rcases read_frames_cons p (ps.filter (·.isWord)) with ⟨-, hr⟩ | ⟨-, hr⟩ <;> rw [hr]
        · exact ih hrest hps
        · exact Or.inr ⟨line?_mapText _ hline, ih hrest hps⟩
    obtain hload | ⟨hline, hrest⟩ := h
    · have ho : p.isOrder := by
        by_contra ho
        rw [loads?_of_not_isOrder (Bool.not_eq_true _ ▸ ho)] at hload
        cases hload
      obtain ⟨frame, hf⟩ := hp ho
      rw [List.filter_cons_of_pos (isWord_of_isOrder ho)]
      rcases read_frames_cons p (ps.filter (·.isWord)) with ⟨⟨e, he⟩, -⟩ | ⟨-, hr⟩
      · rw [hf] at he
        cases he
      · rw [hr]
        exact Or.inl (by simpa using hload)
    · exact later hrest hline

end Packet

namespace Peer

/-- What the session adds to its chat log when it takes its inbox. -/
def appends (peer : Peer) : List ChatLine :=
  let (received, link) := peer.session.link.drain
  ({ peer.session with link } : ClientSession).appends received

end Peer

namespace Realm

variable {n : Realm} {e : Event} {c c' : ConnectionId} {words : List Packet}
  {added : List ChatLine} {peer peer' : Peer} {roster : Roster} {told sent : List Envelope}

/-- How far a client has come with the words on its stream, and what it has added to its log. -/
structure Follows (words : List Packet) (added : List ChatLine) (peer : Peer) : Prop where
  heard : ∃ heard, words = heard ++ peer.inFlight.filter (·.isWord) ∧
    peer.session.chat? = Packet.chat? heard ∧ added = heard.filterMap Packet.line?
  lost : ∀ p ∈ peer.lost, p.isWord →
    peer.session.link.connected = false ∧ peer.session.link.inbox.items = []

section Clients

theorem Follows.congr (h : Follows words added peer)
    (hc : peer'.session.chat? = peer.session.chat?)
    (hf : peer'.inFlight.filter (·.isWord) = peer.inFlight.filter (·.isWord))
    (hl : ∀ p ∈ peer'.lost, p.isWord →
      peer'.session.link.connected = false ∧ peer'.session.link.inbox.items = []) :
    Follows words added peer' := by
  obtain ⟨heard, hwords, hchat, hadded⟩ := h.heard
  exact ⟨⟨heard, by rw [hf, hwords], by rw [hc, hchat], hadded⟩, hl⟩

theorem Follows.push (h : Follows words added peer) (hc : peer.session.link.connected)
    (p : Packet) (incoming : List Bytes)
    (hw : (p :: Packet.read incoming).filter (·.isWord) =
      (Packet.read peer.incoming).filter (·.isWord)) :
    let link := peer.session.link
    Follows words added
      { peer.relink { link with inbox := link.inbox.push p } with incoming } := by
  intro link
  refine h.congr rfl ?_ fun q hq hqw => ?_
  · have hbefore : ∀ qs, peer.lost ++ (link.inbox.items ++ [p]) ++ qs =
        peer.lost ++ link.inbox.items ++ (p :: qs) := by simp
    change (peer.lost ++ (link.inbox.items ++ [p]) ++ Packet.read incoming).filter (·.isWord) = _
    rw [hbefore, List.filter_append, hw, ← List.filter_append]
    rfl
  · rw [(h.lost q hq hqw).1] at hc
    cases hc

theorem Follows.arrive (h : Follows words added peer)
    (hlegible : ∀ frame ∈ peer.incoming, ∃ p, Packet.decode frame = .ok p) :
    Follows words added peer.arrive := by
  unfold Peer.arrive
  split
  · exact h
  next frame incoming hin =>
  split
  · next hc =>
    obtain ⟨p, hd⟩ := hlegible frame (by simp [hin])
    rw [ClientLink.onFrame, if_pos hc, hd]
    refine h.push hc p incoming ?_
    rw [hin, Packet.read_cons_of_ok hd]
  · exact h

theorem Follows.hear (h : Follows words added peer) {data : Bytes} {source : SocketAddress}
    (hd : source = peer.session.link.server → NoWord data) :
    Follows words added (peer.relink (peer.session.link.onDatagram data source)) := by
  unfold ClientLink.onDatagram
  split
  · next hc =>
    obtain ⟨p, hp, hw⟩ := hd hc.2
    rw [hp]
    refine h.push hc.1 p peer.incoming ?_
    rw [List.filter_cons_of_neg (by simp [hw])]
  · exact h

theorem Follows.receive (h : Follows words added peer) {frame : Bytes} (hf : NoWord frame) :
    Follows words added (peer.receive [frame]) := by
  refine h.congr rfl ?_ h.lost
  simp [Peer.inFlight, Peer.receive, hf.words_read]

theorem Follows.speak (h : Follows words added peer) {session : ClientSession}
    (sent : List Packet) (hl : session.link = peer.session.link)
    (hc : session.chat? = peer.session.chat?) :
    Follows words added (peer.send session sent) := by
  refine h.congr hc ?_ ?_
  · rw [Peer.send, Peer.inFlight, hl]
    rfl
  · rw [Peer.send, hl]
    exact h.lost

/-- A session writes the lines that it comes to into its log, and what it does not come to holds
no words as long as its link is up. -/
theorem Follows.take (h : Follows words added peer) (hloaded : Packet.Loaded words)
    (hearly : peer.session.phase.isEarly → words = []) {link : ClientLink}
    (hc : link.connected = peer.session.link.connected) (hempty : link.inbox.items = []) :
    Follows words
      (added ++ ({ peer.session with link } : ClientSession).appends peer.session.link.inbox.items)
      (peer.take link) := by
  let items := peer.session.link.inbox.items
  let taking : ClientSession := { peer.session with link }
  obtain ⟨heard, hwords, hchat, hadded⟩ := h.heard
  have hsplits {taken left : List Packet} (hs : items = taken ++ left) :
      words = heard ++ taken.filter (·.isWord) ++
        (peer.lost ++ left ++ Packet.read peer.incoming).filter (·.isWord) := by
    rw [hwords, List.append_assoc]
    congr 1
    exact Peer.filter_flight (fun p hp hw => (h.lost p hp hw).2) hs
  have hfits := hloaded
  rw [hsplits (List.append_nil items).symm] at hfits
  obtain ⟨taken, hsplit, htaken, hadds⟩ :=
    ClientSession.chat?_handleAll (s := taking) hchat hfits
  have hlink : (peer.take link).session.link = link := (taking.answers_handleAll items).link
  have hflight : (peer.take link).inFlight =
      peer.lost ++ taking.leftover items ++ Packet.read peer.incoming := by
    rw [Peer.inFlight, hlink, hempty, List.append_nil]
    rfl
  refine ⟨⟨heard ++ taken.filter (·.isWord), ?_, htaken, ?_⟩, fun p hp hw => ?_⟩
  · rw [hflight]
    exact hsplits hsplit
  · rw [List.filterMap_append, Packet.filterMap_line?_filter, hadded, hadds]
  · rw [hlink]
    refine ⟨?_, hempty⟩
    rcases List.mem_append.mp hp with hp | hp
    · exact hc.trans (h.lost p hp hw).1
    · by_contra hup
      have hleft : taking.leftover items ≠ [] := List.ne_nil_of_mem hp
      have hphase : taking.phase.isEarly :=
        ClientSession.isEarly_of_leftover (Bool.not_eq_false _ ▸ hup) hleft
      have hnone := hearly hphase
      rw [hsplits hsplit] at hnone
      have hquiet := List.filter_eq_nil_iff.mp (List.append_eq_nil_iff.mp hnone).2
      exact hquiet p (List.mem_append_left _ (List.mem_append_right _ hp)) hw

theorem Follows.update (h : Follows words added peer) (hloaded : Packet.Loaded words)
    (hearly : peer.session.phase.isEarly → words = [])
    (htidy : peer.session.link.inbox.pending = false → peer.session.link.inbox.items = [])
    {now : Int} (hu : peer.update now = some peer') :
    Follows words (added ++ peer.appends) peer' := by
  obtain ⟨link, hdrain, hc, hempty⟩ := ClientLink.drain_eq htidy
  unfold Peer.update at hu
  rw [hdrain] at hu
  obtain ⟨out, hout, rfl⟩ := Option.map_eq_some_iff.mp hu
  have htake := h.take hloaded hearly hc hempty
  have hlink : out.session.link = (peer.take link).session.link :=
    (ClientSession.update_resembles hdrain hout).1.link
  rw [Peer.appends, hdrain]
  refine htake.congr (ClientSession.chat?_update hdrain hout) ?_ ?_
  · dsimp only [Peer.inFlight, Peer.send]
    rw [hlink]
    rfl
  · dsimp only [Peer.send]
    rw [hlink]
    exact htake.lost

end Clients

section Steps

/-- No word is held back, and none flies about. -/
def Hushed (n : Realm) : Prop := (∀ y ∈ n.held, NoWord y.2) ∧ ∀ frame ∈ n.airborne, NoWord frame

def appends (n : Realm) (c : ConnectionId) : Event → List ChatLine
  | .update c' _ => if c' = c then (n.peers.get? c).elim [] (·.appends) else []
  | _ => []

theorem appends_eq_nil (h : ∀ now, e = .update c now → n.peers.get? c = none) :
    n.appends c e = [] := by
  unfold appends
  split
  · next c' now =>
    split
    · next hc =>
      subst hc
      rw [h now rfl]
      rfl
    · rfl
  · rfl

theorem Follows.turn (h : Follows words added peer) (ha : Attuned roster c told peer)
    (hn : n.Hushed) (he : ∀ now, e ≠ .update c now) (ht : n.Turns e c peer peer') :
    Follows words added peer' := by
  cases ht with
  | stays => exact h
  | arrives => exact h.arrive ha.legible
  | hears data source hd => exact h.hear fun hs => hn.2 data (hd hs)
  | receives hf => exact h.receive (hn.1 _ hf)
  | updates hupdate => exact absurd hupdate (he _)
  | @speaks _ sent hs hc => exact h.speak sent hs.link hc
  | closes =>
    refine h.congr rfl rfl ?_
    intro p hlost hw
    exact ⟨rfl, (h.lost p hlost hw).2⟩
  | delivers => exact h.congr rfl rfl h.lost

theorem Follows.prepare
    (h : ∀ peer, n.peers.get? c = some peer → Follows words added peer)
    (ha : ∀ peer, n.peers.get? c = some peer → Attuned roster c told peer)
    (hn : n.Hushed) (hloaded : Packet.Loaded words) (hearly : orders told = [] → words = [])
    (he : e.connects? ≠ some c) (hp : (n.prepare e).peers.get? c = some peer') :
    Follows words (added ++ n.appends c e) peer' := by
  by_cases hupdate : ∃ now, e = .update c now
  · obtain ⟨now, rfl⟩ := hupdate
    have hp : (n.alter c fun peer => peer.update now).peers.get? c = some peer' := hp
    rw [get?_alter, if_pos rfl] at hp
    obtain ⟨peer, hp₀, hu⟩ := Option.bind_eq_some_iff.mp hp
    have happends : n.appends c (.update c now) = peer.appends := by
      simp [Realm.appends, hp₀]
    rw [happends]
    exact (h peer hp₀).update hloaded (fun hphase => hearly ((ha peer hp₀).early hphase).1)
      (ha peer hp₀).tidy hu
  · have hother : ∀ now, e ≠ .update c now := fun now hev => hupdate ⟨now, hev⟩
    rw [appends_eq_nil fun now hev => absurd hev (hother now), List.append_nil]
    obtain ⟨server, user, password, salt, rfl, -⟩ | ⟨peer, hp₀, ht⟩ := prepare_cases hp
    · exact absurd rfl he
    · exact (h peer hp₀).turn (ha peer hp₀) hn hother ht

theorem Follows.tell (h : Follows words added peer)
    (hd : ∀ x ∈ sent, x.packet.isWord → x.delay = 0) :
    Follows (words ++
        Packet.read (Packet.frames (((onStream c sent).map (·.packet)).filter (·.isWord))))
      added (peer.receive (Packet.frames (prompt c sent))) := by
  obtain ⟨heard, hwords, hchat, hadded⟩ := h.heard
  refine ⟨⟨heard, ?_, hchat, hadded⟩, h.lost⟩
  have hflight : (peer.receive (Packet.frames (prompt c sent))).inFlight =
      peer.inFlight ++ Packet.read (Packet.frames (prompt c sent)) := by
    simp [Peer.inFlight, Peer.receive]
  rw [hflight, List.filter_append, Packet.words_read_frames, filter_prompt hd, hwords,
    List.append_assoc]

end Steps

end Realm

end SharedWorld
