import SharedWorld.Proofs.Client.Chat
import SharedWorld.Proofs.Packet.Frames
import SharedWorld.Proofs.Server.Orders

/-! # Runs of a realm

A realm is one server with any number of clients, and all that is under way between them. The
stream of a client keeps its packets in order, both ways. A delayed packet is written to its
stream at some later time, and a datagram may come late, more than once, or never.
-/

namespace SharedWorld

/-- A client, and what is under way on its stream in both directions. -/
structure Peer where
  session : ClientSession
  outgoing : List Bytes := []
  incoming : List Bytes := []
  /-- What the session took from its inbox without coming to it: it stops at the first failure. -/
  lost : List Packet := []

namespace Peer

/-- What was sent to the session and has had no effect on it. -/
def inFlight (peer : Peer) : List Packet :=
  peer.lost ++ peer.session.link.inbox.items ++ Packet.read peer.incoming

def relink (peer : Peer) (link : ClientLink) : Peer :=
  { peer with session := { peer.session with link } }

def send (peer : Peer) (session : ClientSession) (sent : List Packet) : Peer :=
  { peer with session, outgoing := peer.outgoing ++ Packet.frames (sent.filter (·.isVital)) }

def join (server : SocketAddress) (user password : String) (salt : Bytes) : Option Peer :=
  let out := ClientSession.start { server } user password salt
  match out.result with
  | .error _ => none
  | .ok () => some (send { session := out.session } out.session out.sent)

def receive (peer : Peer) (fs : List Bytes) : Peer := { peer with incoming := peer.incoming ++ fs }

def arrive (peer : Peer) : Peer :=
  match peer.incoming with
  | [] => peer
  | frame :: incoming =>
    if peer.session.link.connected then
      { peer.relink (peer.session.link.onFrame frame) with incoming }
    else peer

def update (peer : Peer) (now : Int) : Option Peer :=
  let (received, link) := peer.session.link.drain
  (peer.session.update now).map fun out =>
    { peer.send out.session out.sent with
      lost := peer.lost ++ ({ peer.session with link } : ClientSession).leftover received }

end Peer

structure Realm where
  server : Server
  peers : Table ConnectionId Peer := ∅
  /-- Delayed frames, each for a stream. -/
  held : List (ConnectionId × Bytes) := []
  /-- All datagrams that the server has sent. -/
  airborne : List Bytes := []

namespace Realm

inductive Event
  /-- A client connects and asks for its stored password. -/
  | join (c : ConnectionId) (server : SocketAddress) (user password : String) (salt : Bytes)
  /-- The next frame on its stream comes to a client. -/
  | arrive (c : ConnectionId)
  | datagram (c : ConnectionId) (data : Bytes) (source : SocketAddress)
  /-- A delayed frame is written to its stream. -/
  | release (k : Nat)
  | update (c : ConnectionId) (now : Int)
  | move (c : ConnectionId) (position : Position) (now : Nat)
  | chat (c : ConnectionId) (message : String)
  /-- A client loses its link, or closes it. -/
  | close (c : ConnectionId)
  /-- The next frame on a client's stream comes to the server. -/
  | deliver (c : ConnectionId) (wall : UInt64)
  /-- Whatever else comes to the server: datagrams, packets of strangers, transfers, ticks, and
  the news that a connection is lost. -/
  | server (e : Server.Event)

def Event.connects? : Event → Option ConnectionId
  | .join c .. => some c
  | .server e => e.connects?
  | _ => none

def alter (n : Realm) (c : ConnectionId) (f : Peer → Option Peer) : Realm :=
  match n.peers.get? c with
  | none => n
  | some peer =>
    match f peer with
    | none => { n with peers := n.peers.erase c }
    | some peer => { n with peers := n.peers.insert c peer }

/-- What an event asks of the server. The stream of a client brings nothing but the client's own
frames. -/
def asks (n : Realm) : Event → Option Server.Event
  | .join c .. => some (.connect c)
  | .deliver c wall => do
    let peer ← n.peers.get? c
    let p ← (Packet.decode (← peer.outgoing.head?)).toOption
    return .receive p (.stream c) wall
  | .server (.receive p (.stream c) wall) =>
    if n.peers.contains c then none else some (.receive p (.stream c) wall)
  | .server e => some e
  | _ => none

/-- What an event makes of the clients. A datagram comes from the server's address only if the
server has sent it. -/
def prepare (n : Realm) : Event → Realm
  | .join c server user password salt =>
    match Peer.join server user password salt with
    | none => n
    | some peer => { n with peers := n.peers.insert c peer }
  | .arrive c => n.alter c fun peer => some peer.arrive
  | .datagram c data source => n.alter c fun peer =>
      let link := peer.session.link
      if source = link.server ∧ data ∉ n.airborne then some peer
      else some (peer.relink (link.onDatagram data source))
  | .release k =>
    match n.held[k]? with
    | none => n
    | some (c, frame) =>
      { n.alter c fun peer => some (peer.receive [frame]) with held := n.held.eraseIdx k }
  | .update c now => n.alter c fun peer => peer.update now
  | .move c position now => n.alter c fun peer =>
      let out := peer.session.move position now
      some (peer.send out.session out.sent)
  | .chat c message => n.alter c fun peer =>
      let out := peer.session.chat message
      some (peer.send out.session out.sent)
  | .close c => n.alter c fun peer => some (peer.relink peer.session.link.close)
  | .deliver c _ => n.alter c fun peer => some { peer with outgoing := peer.outgoing.tail }
  | .server _ => n

def outcome (n : Realm) (e : Event) : Server × List Envelope :=
  match n.asks e with
  | none => (n.server, [])
  | some ask => n.server.step ask

/-- A packet of the server goes on its way, if it fits a frame. -/
def dispatch (n : Realm) (x : Envelope) : Realm :=
  match x.packet.encode, x.target with
  | .error _, _ => n
  | .ok frame, .datagram _ => { n with airborne := frame :: n.airborne }
  | .ok frame, .stream c =>
    if x.delay = 0 then n.alter c fun peer => some (peer.receive [frame])
    else { n with held := (c, frame) :: n.held }

def post (n : Realm) (sent : List Envelope) : Realm := sent.foldl dispatch n

def step (n : Realm) (e : Event) : Realm × List Envelope :=
  ({ n.prepare e with server := (n.outcome e).1 }.post (n.outcome e).2, (n.outcome e).2)

/-- At first there are no clients. The name of every world fits a frame. -/
def system : System Realm Event where
  Starts n := ∃ server, Server.system.Starts server ∧
    (∀ V, (server.atlas.worlds.get? V).isSome → (Packet.loadWorld V).HasFrame) ∧ n = { server }
  Admits ms e := ∀ c ∈ e.connects?, ∀ m ∈ ms, m.event.connects? ≠ some c
  step := step

variable {n : Realm} {e : Event} {c c' : ConnectionId} {ms : List (Moment Realm Event)}
  {sent : List Envelope} {frame : Bytes} {x : Envelope} {ask : Server.Event} {peer peer' : Peer}

section Clients

theorem get?_alter (n : Realm) (c c' : ConnectionId) (f : Peer → Option Peer) :
    (n.alter c f).peers.get? c' =
      if c' = c then (n.peers.get? c).bind f else n.peers.get? c' := by
  unfold alter
  cases hp : n.peers.get? c with
  | none =>
    dsimp only
    split
    · next he => rw [he, hp, Option.bind_none]
    · rfl
  | some peer =>
    cases hf : f peer <;> simp [hf, Table.get?_erase, Table.get?_insert]

theorem alter_eq (n : Realm) (c : ConnectionId) (f : Peer → Option Peer) :
    (n.alter c f).server = n.server ∧ (n.alter c f).held = n.held ∧
      (n.alter c f).airborne = n.airborne := by
  unfold alter
  split
  · exact ⟨rfl, rfl, rfl⟩
  · split <;> exact ⟨rfl, rfl, rfl⟩

/-- What an event can make of a client that was there before. -/
inductive Turns (n : Realm) (e : Event) (c : ConnectionId) (peer : Peer) : Peer → Prop
  | stays : Turns n e c peer peer
  | arrives : Turns n e c peer peer.arrive
  | hears (data : Bytes) (source : SocketAddress)
      (hd : source = peer.session.link.server → data ∈ n.airborne) :
      Turns n e c peer (peer.relink (peer.session.link.onDatagram data source))
  | receives {frame : Bytes} (hf : (c, frame) ∈ n.held) : Turns n e c peer (peer.receive [frame])
  | updates {peer' : Peer} {now : Int} (he : e = .update c now)
      (hu : peer.update now = some peer') : Turns n e c peer peer'
  | speaks {session : ClientSession} {sent : List Packet} (hs : peer.session.Resembles session)
      (hc : session.chat? = peer.session.chat?) (hl : ∀ p ∈ sent, p.isLogin = false) :
      Turns n e c peer (peer.send session sent)
  | closes (he : e = .close c) : Turns n e c peer (peer.relink peer.session.link.close)
  | delivers : Turns n e c peer { peer with outgoing := peer.outgoing.tail }

theorem turns_of_alter {f : Peer → Option Peer} (h : (n.alter c' f).peers.get? c = some peer')
    (hf : c = c' → ∀ peer, f peer = some peer' → n.Turns e c peer peer') :
    ∃ peer, n.peers.get? c = some peer ∧ n.Turns e c peer peer' := by
  rw [get?_alter] at h
  split at h
  · next he =>
    subst he
    obtain ⟨peer, hp, hpeer⟩ := Option.bind_eq_some_iff.mp h
    exact ⟨peer, hp, hf rfl peer hpeer⟩
  · exact ⟨peer', h, .stays⟩

theorem prepare_cases (h : (n.prepare e).peers.get? c = some peer') :
    (∃ server user password salt, e = .join c server user password salt ∧
        Peer.join server user password salt = some peer') ∨
      ∃ peer, n.peers.get? c = some peer ∧ n.Turns e c peer peer' := by
  cases e with
  | join c' server user password salt =>
    simp only [prepare] at h
    split at h
    · exact Or.inr ⟨peer', h, .stays⟩
    · next joined hj =>
      rcases Table.get?_insert_eq_some_iff.mp h with ⟨rfl, rfl⟩ | ⟨-, h⟩
      · exact Or.inl ⟨server, user, password, salt, rfl, hj⟩
      · exact Or.inr ⟨peer', h, .stays⟩
  | arrive =>
    refine Or.inr (turns_of_alter h ?_)
    rintro - peer ⟨⟩
    exact .arrives
  | datagram c' data source =>
    refine Or.inr (turns_of_alter h ?_)
    intro _ peer hf
    dsimp only at hf
    split at hf <;> cases hf
    · exact .stays
    · next hd => exact .hears data source fun hs => by_contra fun hn => hd ⟨hs, hn⟩
  | release k =>
    simp only [prepare] at h
    split at h
    · exact Or.inr ⟨peer', h, .stays⟩
    next c' frame hk =>
    refine Or.inr (turns_of_alter h ?_)
    rintro rfl peer ⟨⟩
    exact .receives (List.mem_of_getElem? hk)
  | update c' now =>
    refine Or.inr (turns_of_alter h ?_)
    rintro rfl peer hu
    exact .updates rfl hu
  | move c' position now =>
    refine Or.inr (turns_of_alter h ?_)
    rintro - peer ⟨⟩
    obtain ⟨hs, hsent⟩ := peer.session.move_resembles position now
    exact .speaks hs (peer.session.chat?_move position now) hsent
  | chat c' message =>
    refine Or.inr (turns_of_alter h ?_)
    rintro - peer ⟨⟩
    obtain ⟨hs, hsent⟩ := peer.session.send_resembles (.say message)
    have hsame : (peer.session.chat message).session = peer.session := hs
    refine .speaks ?_ (congrArg _ hsame) ?_
    · rw [hsame]
      exact .refl _
    · intro p hp
      rw [hsent p hp]
      rfl
  | close c' =>
    refine Or.inr (turns_of_alter h ?_)
    rintro rfl peer ⟨⟩
    exact .closes rfl
  | deliver =>
    refine Or.inr (turns_of_alter h ?_)
    rintro - peer ⟨⟩
    exact .delivers
  | server => exact Or.inr ⟨peer', h, .stays⟩

theorem prepare_eq (n : Realm) (e : Event) : (n.prepare e).server = n.server ∧
    (∀ y ∈ (n.prepare e).held, y ∈ n.held) ∧ (n.prepare e).airborne = n.airborne := by
  have altered (c : ConnectionId) (f : Peer → Option Peer) : (n.alter c f).server = n.server ∧
      (∀ y ∈ (n.alter c f).held, y ∈ n.held) ∧ (n.alter c f).airborne = n.airborne := by
    obtain ⟨hs, hh, ha⟩ := n.alter_eq c f
    exact ⟨hs, fun y hy => hh ▸ hy, ha⟩
  have same : n.server = n.server ∧ (∀ y ∈ n.held, y ∈ n.held) ∧ n.airborne = n.airborne :=
    ⟨rfl, fun _ => id, rfl⟩
  cases e with
  | join =>
    simp only [prepare]
    split <;> exact same
  | release k =>
    simp only [prepare]
    split
    · exact same
    · next c frame _ =>
      obtain ⟨hs, -, ha⟩ := altered c fun peer => some (peer.receive [frame])
      exact ⟨hs, fun y => List.mem_of_mem_eraseIdx, ha⟩
  | server => exact same
  | _ => exact altered _ _

end Clients

section Post

/-- The packets for a stream that are not delayed. -/
def prompt (c : ConnectionId) (sent : List Envelope) : List Packet :=
  ((onStream c sent).filter (·.delay = 0)).map (·.packet)

theorem prompt_singleton (c : ConnectionId) (x : Envelope) :
    prompt c [x] = if x.target = .stream c ∧ x.delay = 0 then [x.packet] else [] := by
  by_cases ht : x.target = .stream c <;> by_cases hd : x.delay = 0 <;>
    simp [prompt, onStream, ht, hd]

theorem filter_prompt {f : Packet → Bool} (hd : ∀ x ∈ sent, f x.packet → x.delay = 0) :
    (prompt c sent).filter f = ((onStream c sent).map (·.packet)).filter f := by
  rw [prompt, List.filter_map, List.filter_map, List.filter_filter]
  congr 1
  refine List.filter_congr fun x hx => ?_
  cases hf : f x.packet with
  | false => simp [hf]
  | true => simp [hf, hd x (mem_onStream_iff.mp hx).1 hf]

theorem get?_dispatch (n : Realm) (x : Envelope) (c : ConnectionId) :
    (n.dispatch x).peers.get? c =
      (n.peers.get? c).map (·.receive (Packet.frames (prompt c [x]))) := by
  have same : n.peers.get? c = (n.peers.get? c).map (·.receive []) := by
    cases n.peers.get? c <;> simp [Peer.receive]
  unfold dispatch
  split
  · next he =>
    have hnil : Packet.frames (prompt c [x]) = [] := by
      rw [prompt_singleton]
      split <;> simp [Packet.frames, he, Except.toOption]
    rw [hnil]
    exact same
  · next ht =>
    rw [prompt_singleton, ht, if_neg (by simp)]
    exact same
  · next frame c' hf ht =>
    have hone : Packet.frames [x.packet] = [frame] := by
      simp [Packet.frames, hf, Except.toOption]
    split
    · next hd =>
      rw [get?_alter, prompt_singleton, ht]
      by_cases hc : c = c'
      · subst hc
        rw [if_pos rfl, if_pos ⟨rfl, hd⟩, hone]
        cases n.peers.get? c <;> rfl
      · rw [if_neg hc, if_neg fun h => hc (Route.stream.inj h.1).symm]
        exact same
    · next hd =>
      rw [prompt_singleton, if_neg fun h => hd h.2]
      exact same

theorem get?_post (n : Realm) (sent : List Envelope) (c : ConnectionId) :
    (n.post sent).peers.get? c =
      (n.peers.get? c).map (·.receive (Packet.frames (prompt c sent))) := by
  induction sent generalizing n with
  | nil =>
    cases hp : n.peers.get? c <;>
      simp [post, hp, prompt, onStream, Packet.frames, Peer.receive]
  | cons x sent ih =>
    have hp : prompt c (x :: sent) = prompt c [x] ++ prompt c sent := by
      have hx : x :: sent = [x] ++ sent := rfl
      rw [hx, prompt, onStream_append, List.filter_append, List.map_append]
      rfl
    have hstep : (n.post (x :: sent)) = (n.dispatch x).post sent := rfl
    rw [hstep, ih, get?_dispatch, Option.map_map, hp]
    congr 1
    funext peer
    simp [Peer.receive, Packet.frames]

theorem dispatch_eq (n : Realm) (x : Envelope) : (n.dispatch x).server = n.server ∧
    (∀ y ∈ (n.dispatch x).held, y ∈ n.held ∨ x.delay ≠ 0 ∧ x.packet.encode = .ok y.2) ∧
      ∀ frame ∈ (n.dispatch x).airborne, frame ∈ n.airborne ∨
        (∃ a, x.target = .datagram a) ∧ x.packet.encode = .ok frame := by
  unfold dispatch
  split
  · exact ⟨rfl, fun _ => Or.inl, fun _ => Or.inl⟩
  · next frame a hf ht =>
    refine ⟨rfl, fun _ => Or.inl, ?_⟩
    rintro frame' (_ | ⟨_, h⟩)
    · exact Or.inr ⟨⟨a, ht⟩, hf⟩
    · exact Or.inl h
  · next frame c hf ht =>
    split
    · obtain ⟨hs, hh, ha⟩ := n.alter_eq c fun peer => some (peer.receive [frame])
      exact ⟨hs, fun y hy => Or.inl (hh ▸ hy), fun f hf => Or.inl (ha ▸ hf)⟩
    · next hd =>
      refine ⟨rfl, ?_, fun _ => Or.inl⟩
      rintro y (_ | ⟨_, h⟩)
      · exact Or.inr ⟨hd, hf⟩
      · exact Or.inl h

theorem post_eq (n : Realm) (sent : List Envelope) : (n.post sent).server = n.server ∧
    (∀ y ∈ (n.post sent).held, y ∈ n.held ∨
      ∃ x ∈ sent, x.delay ≠ 0 ∧ x.packet.encode = .ok y.2) ∧
    ∀ frame ∈ (n.post sent).airborne, frame ∈ n.airborne ∨
      ∃ x ∈ sent, (∃ a, x.target = .datagram a) ∧ x.packet.encode = .ok frame := by
  induction sent generalizing n with
  | nil => exact ⟨rfl, fun _ => Or.inl, fun _ => Or.inl⟩
  | cons x sent ih =>
    obtain ⟨hs, hh, ha⟩ := ih (n.dispatch x)
    obtain ⟨hs', hh', ha'⟩ := n.dispatch_eq x
    refine ⟨hs.trans hs', fun y hy => ?_, fun frame hf => ?_⟩
    · rcases hh y hy with hy | ⟨x', hx', h⟩
      · exact (hh' y hy).imp_right fun h => ⟨x, List.mem_cons_self, h⟩
      · exact Or.inr ⟨x', List.mem_cons_of_mem _ hx', h⟩
    · rcases ha frame hf with hf | ⟨x', hx', h⟩
      · exact (ha' frame hf).imp_right fun h => ⟨x, List.mem_cons_self, h⟩
      · exact Or.inr ⟨x', List.mem_cons_of_mem _ hx', h⟩

/-- What holds of all that is delayed or sent as a datagram holds of all that is held back or
flies about. -/
theorem forall_underway_step {P : Bytes → Prop}
    (h : (∀ y ∈ n.held, P y.2) ∧ ∀ frame ∈ n.airborne, P frame)
    (hs : ∀ x ∈ (n.outcome e).2, x.delay ≠ 0 ∨ (∃ a, x.target = .datagram a) →
      ∀ frame, x.packet.encode = .ok frame → P frame) :
    (∀ y ∈ (n.step e).1.held, P y.2) ∧ ∀ frame ∈ (n.step e).1.airborne, P frame := by
  obtain ⟨-, hheld, hair⟩ := n.prepare_eq e
  obtain ⟨-, hheld', hair'⟩ :=
    post_eq { n.prepare e with server := (n.outcome e).1 } (n.outcome e).2
  constructor
  · intro y hy
    rcases hheld' y hy with hy | ⟨x, hx, hd, hf⟩
    · exact h.1 y (hheld y hy)
    · exact hs x hx (Or.inl hd) y.2 hf
  · intro frame hframe
    rcases hair' frame hframe with hframe | ⟨x, hx, ha, hf⟩
    · exact h.2 frame (hair ▸ hframe)
    · exact hs x hx (Or.inr ha) frame hf

end Post

section Service

/-- The moments of the server in a run of its realm. -/
def served (ms : List (Moment Realm Event)) : List (Moment Server Server.Event) :=
  ms.filterMap fun m => (m.state.asks m.event).map (⟨m.state.server, ·⟩)

/-- What the server has sent on a stream. -/
def streamed (c : ConnectionId) (ms : List (Moment Realm Event)) : List Envelope :=
  Server.system.stream c (served ms)

@[simp] theorem step_server (n : Realm) (e : Event) : (n.step e).1.server = (n.outcome e).1 :=
  (post_eq _ _).1

theorem connects_of_asks (h : n.asks e = some ask) : ask.connects? = e.connects? := by
  unfold asks at h
  split at h
  · cases h
    rfl
  · obtain ⟨peer, -, h⟩ := Option.bind_eq_some_iff.mp h
    obtain ⟨frame, -, h⟩ := Option.bind_eq_some_iff.mp h
    obtain ⟨p, -, h⟩ := Option.bind_eq_some_iff.mp h
    cases h
    rfl
  · split at h <;> cases h
    rfl
  · cases h
    rfl
  · cases h

theorem connects_of_served (hc : ∀ m ∈ ms, m.event.connects? ≠ some c) :
    ∀ m ∈ served ms, m.event.connects? ≠ some c := by
  intro m hm
  obtain ⟨m', hm', he⟩ := List.mem_filterMap.mp hm
  obtain ⟨ask, ha, rfl⟩ := Option.map_eq_some_iff.mp he
  rw [connects_of_asks ha]
  exact hc m' hm'

theorem served_cons (n : Realm) (e : Event) (ms : List (Moment Realm Event)) :
    n.asks e = none ∧ served (⟨n, e⟩ :: ms) = served ms ∧ n.outcome e = (n.server, []) ∨
      ∃ ask, n.asks e = some ask ∧ served (⟨n, e⟩ :: ms) = ⟨n.server, ask⟩ :: served ms ∧
        n.outcome e = n.server.step ask := by
  unfold served outcome
  cases ha : n.asks e with
  | none => simp [ha]
  | some ask => simp [ha]

theorem streamed_cons (n : Realm) (e : Event) (ms : List (Moment Realm Event)) (c : ConnectionId) :
    streamed c (⟨n, e⟩ :: ms) = streamed c ms ++ onStream c (n.outcome e).2 := by
  unfold streamed
  rcases served_cons n e ms with ⟨-, hs, ho⟩ | ⟨ask, -, hs, ho⟩ <;> rw [hs, ho]
  · simp [onStream]
  · rfl

theorem run_served (h : system.Run ms n) : Server.system.Run (served ms) n.server := by
  induction h with
  | start h =>
    obtain ⟨server, hs, -, rfl⟩ := h
    exact .start hs
  | @step ms n e h ha ih =>
    change Server.system.Run (served (⟨n, e⟩ :: ms)) (n.step e).1.server
    rw [step_server]
    rcases served_cons n e ms with ⟨-, hs, ho⟩ | ⟨ask, hask, hs, ho⟩ <;> rw [hs, ho]
    · exact ih
    · refine .step ask ih fun c hc => connects_of_served ?_
      rw [connects_of_asks hask] at hc
      exact ha c hc

end Service

end Realm

end SharedWorld
