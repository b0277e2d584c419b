import SharedWorld.Proofs.Realm.Agreement
import SharedWorld.Proofs.Realm.Hearing

/-! # Clients agree on the chat

The words on a stream are numbered by the moments that sent them. Each client adds the lines on
its stream to its log, one after the other, and a line that is said at one moment has the same
number on all streams. So the logs of two clients hold the lines that they share in one order.
-/

namespace SharedWorld

namespace Realm

variable {n : Realm} {e : Event} {c c' : ConnectionId} {peer peer' : Peer} {p : Player}
  {ms later past : List (Moment Realm Event)} {l : Moment Realm Event} {q : PlayerId}
  {text V : String} {wall : UInt64} {ws : List (Nat × Packet)} {k : Nat}

/-- The orders and chat lines that a moment puts on a stream, as they are read there. -/
def said (c : ConnectionId) (m : Moment Realm Event) : List Packet :=
  Packet.read (Packet.frames
    (((onStream c (m.state.outcome m.event).2).map (·.packet)).filter (·.isWord)))

/-- All of them so far, each with the number of moments before the one that sent it. -/
def words (c : ConnectionId) : List (Moment Realm Event) → List (Nat × Packet)
  | [] => []
  | m :: ms => words c ms ++ (said c m).map (ms.length, ·)

/-- All lines that a client has ever added to its log. -/
def appended (c : ConnectionId) : List (Moment Realm Event) → List ChatLine
  | [] => []
  | m :: ms => appended c ms ++ m.state.appends c m.event

def lines (ws : List (Nat × Packet)) : List (Nat × ChatLine) :=
  ws.filterMap fun w => w.2.line?.map (w.1, ·)

/-- The lines since the last world to load. -/
def kept (ws : List (Nat × Packet)) : List (Nat × ChatLine) :=
  lines (ws.rtakeWhile (·.2.loads?.isNone))

section Numbers

theorem lt_length_of_mem_words {w : Nat × Packet} (h : w ∈ words c ms) : w.1 < ms.length := by
  induction ms with
  | nil => cases h
  | cons m ms ih =>
    rcases List.mem_append.mp h with h | h
    · exact Nat.lt_succ_of_lt (ih h)
    · obtain ⟨p, -, rfl⟩ := List.mem_map.mp h
      exact Nat.lt_succ_self _

theorem pairwise_words (c : ConnectionId) (ms : List (Moment Realm Event)) :
    (words c ms).Pairwise (·.1 ≤ ·.1) := by
  induction ms with
  | nil => exact .nil
  | cons m ms ih =>
    refine List.pairwise_append.mpr ⟨ih, ?_, fun w hw w' hw' => ?_⟩
    · exact List.pairwise_map.mpr (List.pairwise_of_forall fun _ _ => Nat.le_refl _)
    · obtain ⟨p, -, rfl⟩ := List.mem_map.mp hw'
      exact Nat.le_of_lt (lt_length_of_mem_words hw)

theorem words_at (c : ConnectionId) (later : List (Moment Realm Event)) (l : Moment Realm Event)
    (past : List (Moment Realm Event)) :
    (words c (later ++ l :: past)).filter (·.1 = past.length) =
      (said c l).map (past.length, ·) := by
  induction later with
  | nil =>
    have hpast : (words c past).filter (·.1 = past.length) = [] := by
      refine List.filter_eq_nil_iff.mpr fun w hw he => ?_
      exact Nat.ne_of_lt (lt_length_of_mem_words hw) (of_decide_eq_true he)
    have hnow : ((said c l).map (past.length, ·)).filter (·.1 = past.length) =
        (said c l).map (past.length, ·) := by
      refine List.filter_eq_self.mpr fun w hw => ?_
      obtain ⟨p, -, rfl⟩ := List.mem_map.mp hw
      exact decide_eq_true rfl
    rw [List.nil_append, words, List.filter_append, hpast, hnow, List.nil_append]
  | cons m later ih =>
    have hlater : ((said c m).map ((later ++ l :: past).length, ·)).filter (·.1 = past.length) =
        [] := by
      refine List.filter_eq_nil_iff.mpr fun w hw he => ?_
      obtain ⟨p, -, rfl⟩ := List.mem_map.mp hw
      have he : (later ++ l :: past).length = past.length := of_decide_eq_true he
      simp at he
      omega
    rw [List.cons_append, words, List.filter_append, ih, hlater, List.append_nil]

theorem map_words_cons (c : ConnectionId) (m : Moment Realm Event)
    (ms : List (Moment Realm Event)) :
    (words c (m :: ms)).map (·.2) = (words c ms).map (·.2) ++ said c m := by
  simp [words, Function.comp_def]

theorem map_words (c : ConnectionId) (ms : List (Moment Realm Event)) :
    (words c ms).map (·.2) =
      Packet.read (Packet.frames
        (((streamed c ms).map (·.packet)).filter (·.isWord))) := by
  induction ms with
  | nil => rfl
  | cons m ms ih =>
    rw [map_words_cons, ih, streamed_cons, said, ← Packet.read_append]
    simp [Packet.frames]

theorem lines_filter (ws : List (Nat × Packet)) (k : Nat) :
    (lines ws).filter (·.1 = k) = lines (ws.filter (·.1 = k)) := by
  induction ws with
  | nil => rfl
  | cons w ws ih =>
    cases hl : w.2.line? <;> by_cases hw : w.1 = k <;> simp_all [lines]

theorem map_lines (ws : List (Nat × Packet)) :
    (lines ws).map (·.2) = (ws.map (·.2)).filterMap Packet.line? := by
  rw [lines, List.map_filterMap, List.filterMap_map]
  refine List.filterMap_congr fun w _ => ?_
  cases hl : w.2.line? <;> simp [hl]

theorem map_kept (ws : List (Nat × Packet)) :
    (kept ws).map (·.2) = Packet.log (ws.map (·.2)) := by
  rw [kept, map_lines, Packet.log, List.rtakeWhile, List.rtakeWhile, ← List.map_reverse,
    List.takeWhile_map, ← List.map_reverse]
  rfl

theorem pairwise_lines (h : ws.Pairwise (·.1 ≤ ·.1)) : (lines ws).Pairwise (·.1 ≤ ·.1) := by
  refine List.Pairwise.filterMap _ (fun w w' hle a ha b hb => ?_) h
  obtain ⟨_, -, rfl⟩ := Option.map_eq_some_iff.mp ha
  obtain ⟨_, -, rfl⟩ := Option.map_eq_some_iff.mp hb
  exact hle

theorem pairwise_kept (h : ws.Pairwise (·.1 ≤ ·.1)) : (kept ws).Pairwise (·.1 ≤ ·.1) :=
  pairwise_lines (h.sublist (List.rtakeWhile_suffix _ _).sublist)

/-- Two lines that both lists hold come in the same order in both. -/
def Agree (xs ys : List (Nat × ChatLine)) : Prop :=
  ∀ a b, a ∈ xs → b ∈ xs → a ∈ ys → b ∈ ys → a.1 ≠ b.1 → ([a, b].Sublist xs ↔ [a, b].Sublist ys)

theorem sublist_iff_lt {xs : List (Nat × ChatLine)} (h : xs.Pairwise (·.1 ≤ ·.1))
    {a b : Nat × ChatLine} (ha : a ∈ xs) (hb : b ∈ xs) (hne : a.1 ≠ b.1) :
    [a, b].Sublist xs ↔ a.1 < b.1 := by
  constructor
  · intro hs
    have hle := (List.pairwise_cons.mp (h.sublist hs)).1 b (List.mem_singleton_self b)
    omega
  · intro hlt
    obtain ⟨before, after, rfl⟩ := List.append_of_mem ha
    obtain ⟨-, hafter, hbefore⟩ := List.pairwise_append.mp h
    rcases List.mem_append.mp hb with hb | hb
    · have hle := hbefore b hb a List.mem_cons_self
      omega
    · rcases List.mem_cons.mp hb with rfl | hb
      · exact absurd rfl hne
      · exact ((List.singleton_sublist.mpr hb).cons_cons a).trans (List.sublist_append_right ..)

theorem agree_of_pairwise {xs ys : List (Nat × ChatLine)} (hx : xs.Pairwise (·.1 ≤ ·.1))
    (hy : ys.Pairwise (·.1 ≤ ·.1)) : Agree xs ys := by
  intro a b hax hbx hay hby hne
  rw [sublist_iff_lt hx hax hbx hne, sublist_iff_lt hy hay hby hne]

end Numbers

section Runs

theorem Hushed.step (h : n.Hushed) (hw : ∀ x ∈ (n.outcome e).2, x.packet.isWord →
    (∃ c, x.target = .stream c) ∧ x.delay = 0) : (n.step e).1.Hushed := by
  refine forall_underway_step h fun x hx hcarrier frame hf => Packet.noWord_of_encode hf ?_
  refine Bool.eq_false_iff.mpr fun hxw => ?_
  obtain ⟨⟨c, hc⟩, hd⟩ := hw x hx hxw
  obtain hd' | ⟨a, ha⟩ := hcarrier
  · exact hd' hd
  · rw [hc] at ha
    cases ha

theorem orders_fit_of_run (h : system.Run ms n) (c : ConnectionId) :
    ∀ x ∈ streamed c ms, x.packet.isOrder → x.packet.HasFrame := by
  induction h with
  | start => exact List.forall_mem_nil _
  | @step ms n e h ha ih =>
    have hrun := run_served h
    have hs := Server.steady_of_run hrun
    rw [streamed_cons]
    refine List.forall_mem_append.mpr ⟨ih, fun x hx ho => ?_⟩
    have hx := (mem_onStream_iff.mp hx).1
    rcases served_cons n e ms with ⟨-, -, hout⟩ | ⟨ask, -, -, hout⟩ <;> rw [hout] at hx
    · cases hx
    · cases Server.orders_makes hs (Server.makes_step hs.sound hs.valid ask) hx ho with
      | welcome q => exact Packet.hasFrame_setPlayer q
      | load _ hV => exact (inStep_of_run h).framed _ hV

theorem loaded_words (h : system.Run ms n) (c : ConnectionId) :
    Packet.Loaded ((words c ms).map (·.2)) := by
  rw [map_words]
  refine (Server.loaded_of_run (run_served h) c).read_frames fun p hp ho => ?_
  obtain ⟨x, hx, rfl⟩ := List.mem_map.mp hp
  exact orders_fit_of_run h c x hx ho

theorem words_eq_nil (h : system.Run ms n) (ho : orders (streamed c ms) = []) :
    (words c ms).map (·.2) = [] := by
  have hnone : ∀ p ∈ (streamed c ms).map (·.packet), p.isOrder = false := by
    intro p hp
    obtain ⟨x, hx, rfl⟩ := List.mem_map.mp hp
    exact orders_eq_nil_iff.mp ho x hx
  have hlines := (Server.loaded_of_run (run_served h) c).line?_eq_none fun p hp =>
    Packet.loads?_of_not_isOrder (hnone p hp)
  have hwords : ((streamed c ms).map (·.packet)).filter (·.isWord) = [] := by
    refine List.filter_eq_nil_iff.mpr fun p hp => ?_
    simp [Packet.isWord, hnone p hp, hlines p hp]
  rw [map_words, hwords]
  rfl

theorem absent_of_fresh (h : system.Run ms n) (hc : ∀ m ∈ ms, m.event.connects? ≠ some c) :
    n.peers.get? c = none ∧ (words c ms).map (·.2) = [] ∧ appended c ms = [] := by
  have hstreamed : streamed c ms = [] := Server.stream_eq_nil (run_served h) (connects_of_served hc)
  suffices hpeer : n.peers.get? c = none ∧ appended c ms = [] by
    refine ⟨hpeer.1, ?_, hpeer.2⟩
    rw [map_words, hstreamed]
    rfl
  clear hstreamed
  induction h with
  | start h =>
    obtain ⟨server, -, -, rfl⟩ := h
    exact ⟨rfl, rfl⟩
  | @step ms n e h ha ih =>
    obtain ⟨he, hms⟩ := List.forall_mem_cons.mp hc
    obtain ⟨hnone, hadded⟩ := ih hms
    refine ⟨?_, by rw [appended, hadded, appends_eq_nil fun _ _ => hnone]; rfl⟩
    change (n.step e).1.peers.get? c = none
    rw [Realm.step, get?_post, Option.map_eq_none_iff]
    refine Option.eq_none_iff_forall_ne_some.mpr fun peer hp => ?_
    obtain ⟨server, user, password, salt, rfl, -⟩ | ⟨peer₀, hp₀, -⟩ := prepare_cases hp
    · exact he rfl
    · rw [hnone] at hp₀
      cases hp₀

theorem follows_of_run (h : system.Run ms n) : n.Hushed ∧ ∀ c peer, n.peers.get? c = some peer →
    Follows ((words c ms).map (·.2)) (appended c ms) peer := by
  induction h with
  | start h =>
    obtain ⟨server, -, -, rfl⟩ := h
    refine ⟨⟨List.forall_mem_nil _, List.forall_mem_nil _⟩, fun c peer hp => ?_⟩
    rw [Table.get?_empty] at hp
    cases hp
  | @step ms n e h ha ih =>
    obtain ⟨hn, hfollows⟩ := ih
    have hs := Server.steady_of_run (run_served h)
    have hprompt : ∀ x ∈ (n.outcome e).2, x.packet.isWord →
        (∃ c, x.target = .stream c) ∧ x.delay = 0 := by
      intro x hx hw
      rcases served_cons n e ms with ⟨-, -, hout⟩ | ⟨ask, -, -, hout⟩ <;> rw [hout] at hx
      · cases hx
      · exact Server.prompt_of_word hs (Server.makes_step hs.sound hs.valid ask) hx hw
    refine ⟨hn.step hprompt, fun c peer' hp => ?_⟩
    change (n.step e).1.peers.get? c = some peer' at hp
    rw [Realm.step, get?_post] at hp
    obtain ⟨peer, hprepared, rfl⟩ := Option.map_eq_some_iff.mp hp
    rw [map_words_cons, said, appended]
    refine Follows.tell ?_ fun x hx hw => (hprompt x hx hw).2
    by_cases he : e.connects? = some c
    · obtain ⟨hnone, hwords, hadded⟩ := absent_of_fresh h (ha c he)
      rw [hwords, hadded, appends_eq_nil fun _ _ => hnone, List.append_nil]
      obtain ⟨server, user, password, salt, -, hj⟩ | ⟨peer₀, hp₀, -⟩ := prepare_cases hprepared
      · rw [Peer.join_eq hj]
        exact ⟨⟨[], rfl, rfl, rfl⟩, List.forall_mem_nil _⟩
      · rw [hnone] at hp₀
        cases hp₀
    · exact Follows.prepare (hfollows c) ((inStep_of_run h).attuned c) hn (loaded_words h c)
        (words_eq_nil h) he hprepared

theorem plain_of_run (h : system.Run ms n) (hp : n.peers.get? c = some peer)
    (hq : n.server.roster.players.get? q = some p) (hc : p.connection = c) :
    Text.untilNul p.name = p.name := by
  induction h generalizing peer q p with
  | start h =>
    obtain ⟨server, -, -, rfl⟩ := h
    cases hp
  | @step ms n e h ha ih =>
    have hrun := run_served h
    obtain ⟨hs, huses⟩ := Server.sound_of_run hrun
    change (n.step e).1.peers.get? c = some peer at hp
    rw [Realm.step, get?_post] at hp
    obtain ⟨peer₁, hprepared, -⟩ := Option.map_eq_some_iff.mp hp
    have before {p₀ : Player} (hq₀ : n.server.roster.players.get? q = some p₀)
        (hc₀ : p₀.connection = c) : Text.untilNul p₀.name = p₀.name := by
      rcases prepare_cases hprepared with ⟨server, user, password, salt, rfl, -⟩ | ⟨peer₀, hp₀, -⟩
      · obtain ⟨m, hm, hconnects⟩ := huses c (hc₀ ▸ hs.roster.uses hq₀)
        exact absurd hconnects (connects_of_served (ha c rfl) m hm)
      · exact ih hp₀ hq₀ hc₀
    change (n.step e).1.server.roster.players.get? q = some p at hq
    rw [step_server] at hq
    rcases served_cons n e ms with ⟨-, -, hout⟩ | ⟨ask, hask, -, hout⟩ <;> rw [hout] at hq
    · exact before hq hc
    · have hmakes := Server.makes_step hs (Server.valid_of_run hrun) ask
      rcases Server.named_makes hmakes hq with ⟨p₀, hq₀, hc₀, hn₀⟩ | ⟨password, wall, rfl⟩
      · rw [← hn₀]
        exact before hq₀ (hc₀.trans hc)
      · rw [hc] at hask
        obtain ⟨peer₀, -, -, hmem⟩ := login_of_asks hask hprepared
        exact (Packet.authenticate.inj (Packet.mapText_of_mem_read hmem)).1

end Runs

section Agreement

/-- At this moment the server takes a text as said by a player, who is in this world, and the
line fits a frame. -/
structure Says (m : Moment Realm Event) (p : Player) (V text : String) (wall : UInt64) : Prop where
  asks : ∃ source, m.state.asks m.event = some (.receive (.say text) source wall) ∧
    m.state.server.roster.sender? (.say text) source = some p
  index : m.state.server.atlas.index.get? p.id = some V
  fits : ∃ frame, (Packet.relayChat p.name text wall).encode = .ok frame

theorem Says.onStream (hs : Says l p V text wall) (h : l.state.server.Steady) :
    (∀ q m, l.state.server.atlas.member? V q = some m → q ≠ p.id →
      said m.connection l = [.relayChat (Text.untilNul p.name) (Text.untilNul text) wall]) ∧
      ∀ c, (∀ q m, l.state.server.atlas.member? V q = some m → m.connection = c → q = p.id) →
        said c l = [] := by
  obtain ⟨source, hask, hsender⟩ := hs.asks
  obtain ⟨hothers, hnobody⟩ := Server.onStream_say h hsender hs.index wall
  have hout : l.state.outcome l.event = l.state.server.receive (.say text) source wall := by
    rw [outcome, hask]
    rfl
  constructor
  · intro q m hm hne
    rw [said, hout, hothers q m hm hne]
    obtain ⟨⟨e, he⟩, -⟩ | ⟨-, hr⟩ := Packet.read_frames_cons (.relayChat p.name text wall) []
    · obtain ⟨frame, hf⟩ := hs.fits
      rw [hf] at he
      cases he
    · exact hr
  · intro c hc
    rw [said, hout, hnobody c hc]
    rfl

/-- What has become of the words on a client's stream: the client has heard the first of them, and
the others are still under way. It has added the lines that it has heard to its log, one after
the other, and the log holds those since the last world to load. Nothing is lost on a link that is
up, and it is up until the client closes it. -/
structure Keeps (c : ConnectionId) (ms : List (Moment Realm Event)) (peer : Peer)
    (heard : List (Nat × Packet)) : Prop where
  words : ∃ rest, words c ms = heard ++ rest ∧
    rest.map (·.2) = peer.inFlight.filter (·.isWord)
  all : (∀ p ∈ peer.inFlight, p.isWord = false) → heard = Realm.words c ms
  appended : appended c ms = (lines heard).map (·.2)
  log : peer.session.log = (kept heard).map (·.2)
  lost : peer.session.link.connected → ∀ p ∈ peer.lost, p.isWord = false
  connected : (∀ m ∈ ms, m.event ≠ .close c) → peer.session.link.connected

/-- The line that is said at the moment with number `k` comes once on the stream of everybody
else in the world, and on no other stream. -/
structure Spreads (ms : List (Moment Realm Event)) (k : Nat) (a : Atlas) (p : Player) (V : String)
    (line : ChatLine) : Prop where
  others : ∀ q m, a.member? V q = some m → q ≠ p.id →
    (lines (words m.connection ms)).filter (·.1 = k) = [(k, line)]
  nobody : ∀ c, (∀ q m, a.member? V q = some m → m.connection = c → q = p.id) →
    (lines (words c ms)).filter (·.1 = k) = []
  sender : (lines (words p.connection ms)).filter (·.1 = k) = []

theorem keeps_of_run (h : system.Run ms n) (hp : n.peers.get? c = some peer) :
    ∃ heard, Keeps c ms peer heard := by
  have hfollows := (follows_of_run h).2 c peer hp
  obtain ⟨heard, hwords, hchat, hadded⟩ := hfollows.heard
  obtain ⟨ws, rest, hsplit, rfl, hrest⟩ := List.map_eq_append_iff.mp hwords
  refine ⟨ws, ⟨rest, hsplit, hrest⟩, fun hquiet => ?_, ?_, ?_, fun hup p hlost => ?_,
    fun hc => connected_of_run h hc hp⟩
  · have hnone : peer.inFlight.filter (·.isWord) = [] :=
      List.filter_eq_nil_iff.mpr fun p hp => by simp [hquiet p hp]
    rw [hsplit, List.map_eq_nil_iff.mp (hrest.trans hnone), List.append_nil]
  · rw [hadded, map_lines]
  · have hloaded := loaded_words h c
    rw [hsplit, List.map_append] at hloaded
    rw [map_kept, ClientSession.log, hchat, hloaded.of_append.getD_chat?]
  · refine Bool.eq_false_iff.mpr fun hw => ?_
    have hdown := (hfollows.lost p hlost hw).1
    rw [hup] at hdown
    cases hdown

theorem Says.spreads (hs : Says l p V text wall) (h : system.Run ms n)
    (hms : ms = later ++ l :: past) :
    Spreads ms past.length l.state.server.atlas p V
      ⟨Text.untilNul p.name, Text.untilNul text, wall⟩ := by
  subst hms
  have hsteady := Server.steady_of_run (run_served h.past.1)
  obtain ⟨hothers, hnobody⟩ := hs.onStream hsteady
  have hlines (c : ConnectionId) : (lines (words c (later ++ l :: past))).filter
      (·.1 = past.length) = lines ((said c l).map (past.length, ·)) := by
    rw [lines_filter, words_at]
  constructor
  · intro q m hm hne
    rw [hlines, hothers q m hm hne]
    rfl
  · intro c hc
    rw [hlines, hnobody c hc]
    rfl
  · rw [hlines, hnobody]
    · rfl
    · intro q m hm he
      obtain ⟨source, -, hsender⟩ := hs.asks
      obtain ⟨-, -, w, m', hw, hwm, hmatch⟩ := hsteady.speaker hsender hs.index
      have hm' : l.state.server.atlas.member? V p.id = some m' := by
        rw [Atlas.member?, hw]
        exact hwm
      exact hsteady.eq_of_member hm hm' (he.trans hmatch.connection.symm)

/-- Each line that is said in a world comes once on the stream of every other member, and on no
other stream. Every client adds the lines on its stream to its log, once each and in their order,
as far as it has come: the log starts anew when the client is told to load a world, and nothing is
lost while the link is up. Any two clients that hold two lines hold them in the same order. -/
theorem chat_agreement (h : system.Run ms n) :
    (∀ later l past, ms = later ++ l :: past → ∀ p V text wall, Says l p V text wall →
      Spreads ms past.length l.state.server.atlas p V
          ⟨Text.untilNul p.name, Text.untilNul text, wall⟩ ∧
        ∀ peer, l.state.peers.get? p.connection = some peer →
          p.name = peer.session.user ∧ Text.untilNul p.name = p.name) ∧
      ∃ heard : ConnectionId → List (Nat × Packet),
        (∀ c peer, n.peers.get? c = some peer → Keeps c ms peer (heard c)) ∧
          ∀ c c', Agree (lines (heard c)) (lines (heard c')) ∧
            Agree (kept (heard c)) (kept (heard c')) := by
  constructor
  · intro later l past hms p V text wall hs
    refine ⟨hs.spreads h hms, fun peer hp => ?_⟩
    have hpast : system.Run past l.state := by
      subst hms
      exact h.past.1
    obtain ⟨source, -, hsender⟩ := hs.asks
    have hsteady := Server.steady_of_run (run_served hpast)
    have hplayer := (hsteady.speaker hsender hs.index).1
    exact ⟨((inStep_of_run hpast).attuned _ peer hp).named p.id p hplayer rfl,
      plain_of_run hpast hp hplayer rfl⟩
  · have hchoose (c : ConnectionId) : ∃ heard : List (Nat × Packet),
        (∀ peer, n.peers.get? c = some peer → Keeps c ms peer heard) ∧
          heard.Pairwise (·.1 ≤ ·.1) := by
      cases hp : n.peers.get? c with
      | none => exact ⟨[], fun peer he => absurd he (Option.some_ne_none _).symm, .nil⟩
      | some peer =>
        obtain ⟨heard, hk⟩ := keeps_of_run h hp
        obtain ⟨rest, hwords, -⟩ := hk.words
        refine ⟨heard, ?_, ?_⟩
        · rintro _ ⟨⟩
          exact hk
        · have hall := pairwise_words c ms
          rw [hwords] at hall
          exact (List.pairwise_append.mp hall).1
    choose heard hkeeps hpairwise using hchoose
    refine ⟨heard, hkeeps, fun c c' => ⟨?_, ?_⟩⟩
    · exact agree_of_pairwise (pairwise_lines (hpairwise c)) (pairwise_lines (hpairwise c'))
    · exact agree_of_pairwise (pairwise_kept (hpairwise c)) (pairwise_kept (hpairwise c'))

/-- Three clients log in and are placed in one world. One of them enters it and says two things. -/
def parlour : List (Moment Realm Event) × Realm :=
  let door : SocketAddress := ⟨.v4 [127, 0, 0, 1], 9⟩
  let logIn (c : ConnectionId) (q : PlayerId) : List Event :=
    [.deliver c 0, .arrive c, .update c 0, .deliver c 0, .arrive c, .update c 0,
      .server (.receive (.probe q) (.datagram ⟨"a"⟩) 0)]
  system.play [] { server := halls } ([
      .join ⟨1⟩ door "ann" "" [], .join ⟨2⟩ door "bob" "" [], .join ⟨3⟩ door "cat" "" []] ++
    logIn ⟨1⟩ ⟨1⟩ ++ logIn ⟨2⟩ ⟨2⟩ ++ logIn ⟨3⟩ ⟨3⟩ ++
    [.arrive ⟨1⟩, .update ⟨1⟩ 0, .chat ⟨1⟩ "hi\x00!", .chat ⟨1⟩ "bye", .deliver ⟨1⟩ 0])

def gossip : List (Moment Realm Event) × Realm :=
  system.play parlour.1 parlour.2 (.deliver ⟨1⟩ 7 :: .deliver ⟨1⟩ 8 ::
    (List.replicate 9 (.arrive ⟨2⟩) ++ [.update ⟨2⟩ 0] ++
      List.replicate 8 (.arrive ⟨3⟩) ++ [.update ⟨3⟩ 0]))

theorem run_parlour : system.Run parlour.1 parlour.2 :=
  .play (.start starts_halls) (admitsAll_of_nodup (by decide) nofun)

theorem run_gossip : system.Run gossip.1 gossip.2 :=
  run_parlour.play (admitsAll_of_nodup (by decide) nofun)

theorem says_parlour : ∃ ann, ann.name = "ann" ∧
    Says ⟨parlour.2, .deliver ⟨1⟩ 7⟩ ann "farm" "hi" 7 := by
  have hnext : (parlour.2.peers.get? ⟨1⟩).bind (fun ann => ann.outgoing.head?.bind fun frame =>
      (Packet.decode frame).toOption) = some (.say "hi") := by decide +kernel
  have hsender : (parlour.2.server.roster.sender? (.say "hi") (.stream ⟨1⟩)).map (fun p =>
      (p.name, parlour.2.server.atlas.index.get? p.id)) = some ("ann", some "farm") := by
    decide +kernel
  generalize parlour = m at *
  obtain ⟨ann, ha, hann⟩ := Option.map_eq_some_iff.mp hsender
  obtain ⟨hname, hindex⟩ := Prod.mk.inj hann
  refine ⟨ann, hname, ⟨.stream ⟨1⟩, ?_, ha⟩, hindex, ?_⟩
  · obtain ⟨peer, hp, hnext⟩ := Option.bind_eq_some_iff.mp hnext
    obtain ⟨frame, hf, hd⟩ := Option.bind_eq_some_iff.mp hnext
    simp [asks, hp, hf, hd]
  · rw [hname]
    exact ⟨_, Packet.encode_eq_ok_iff.mpr ⟨by decide, rfl⟩⟩

theorem chat_agreement_gossip : ∃ later past ann bob cat, ∃ heard : ConnectionId → _,
    gossip.1 = later ++ ⟨parlour.2, .deliver ⟨1⟩ 7⟩ :: past ∧
      Says ⟨parlour.2, .deliver ⟨1⟩ 7⟩ ann "farm" "hi" 7 ∧
      Spreads gossip.1 past.length parlour.2.server.atlas ann "farm" ⟨"ann", "hi", 7⟩ ∧
      gossip.2.peers.get? ⟨2⟩ = some bob ∧ gossip.2.peers.get? ⟨3⟩ = some cat ∧
      Keeps ⟨2⟩ gossip.1 bob (heard ⟨2⟩) ∧ Keeps ⟨3⟩ gossip.1 cat (heard ⟨3⟩) ∧
      (bob.session.log.map (·.message)).drop 1 = ["hi", "bye"] ∧
      bob.session.log = cat.session.log ∧ Agree (kept (heard ⟨2⟩)) (kept (heard ⟨3⟩)) := by
  have hlogs : (gossip.2.peers.get? ⟨2⟩).bind (fun bob => (gossip.2.peers.get? ⟨3⟩).map fun cat =>
      ((bob.session.log.map (·.message)).drop 1, decide (bob.session.log = cat.session.log))) =
        some (["hi", "bye"], true) := by decide +kernel
  obtain ⟨later, hsplit⟩ : ∃ later,
      gossip.1 = later ++ ⟨parlour.2, .deliver ⟨1⟩ 7⟩ :: parlour.1 :=
    ⟨_, by rw [gossip, System.play, System.play_append]⟩
  obtain ⟨ann, hname, hsays⟩ := says_parlour
  have hrun := run_gossip
  generalize gossip = m at *
  generalize parlour = m₀ at *
  obtain ⟨bob, hb, hlogs⟩ := Option.bind_eq_some_iff.mp hlogs
  obtain ⟨cat, hc, hlogs⟩ := Option.map_eq_some_iff.mp hlogs
  obtain ⟨hbob, hcat⟩ := Prod.mk.inj hlogs
  obtain ⟨hspreads, heard, hkeeps, hagree⟩ := chat_agreement hrun
  refine ⟨later, m₀.1, ann, bob, cat, heard, hsplit, hsays, ?_, hb, hc, hkeeps ⟨2⟩ bob hb,
    hkeeps ⟨3⟩ cat hc, hbob, of_decide_eq_true hcat, (hagree ⟨2⟩ ⟨3⟩).2⟩
  have hann := (hspreads later _ m₀.1 hsplit ann "farm" "hi" 7 hsays).1
  have hplain {s : String} (hs : '\x00' ∉ s.toList) : Text.untilNul s = s :=
    Text.untilNul_eq_self_iff.mpr hs
  rwa [hname, hplain (by decide), hplain (by decide)] at hann

end Agreement

end Realm

end SharedWorld
