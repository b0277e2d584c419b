import SharedWorld.Client.Session
import SharedWorld.Proofs.Packet.RoundTrip
import SharedWorld.Proofs.Packet.Topics
import SharedWorld.Proofs.View.Run

/-! # What a session makes of its packets

A session asks to log in once it knows its stored password, and it follows the orders of the
server: it takes the number that it is given, and the world that it was told last to load. Of
all other packets only its view of that world learns.
-/

namespace SharedWorld

namespace WorldView

variable {v v' : WorldView}

def title (v : WorldView) : String × PlayerId := (v.name, v.localPlayer)

theorem title_receive (v : WorldView) (p : Packet) : (v.receive p).title = v.title := by
  have h := v.takes_receive p
  generalize v.receive p = v' at h
  cases h <;> rfl

theorem title_tick {frame : Float32} (h : v.tick frame = some v') : v'.title = v.title := by
  unfold tick at h
  split at h <;> cases h
  rfl

theorem getD_handle (v : WorldView) (p : Packet) :
    (v.handle p).toOption.getD v = v.receive p := by
  unfold receive
  cases v.handle p <;> rfl

end WorldView

namespace LoginPhase

def isEarly : LoginPhase → Bool
  | requestingHash | rejected => true
  | _ => false

def isSettled : LoginPhase → Bool
  | probing | inWorld => true
  | _ => false

end LoginPhase

namespace Packet

theorem exists_encode_worldLoaded : ∃ frame, worldLoaded.encode = .ok frame :=
  ⟨_, encode_eq_ok_iff.mpr ⟨by decide, rfl⟩⟩

end Packet

namespace ClientSession

variable {s s' t : ClientSession} {p : Packet} {ps : List Packet} {heard : List Packet}

/-- The same login, and views of the same world. -/
structure Resembles (s s' : ClientSession) : Prop where
  link : s'.link = s.link
  user : s'.user = s.user
  phase : s'.phase = s.phase
  player : s'.player = s.player
  view : s'.world.map (·.title) = s.world.map (·.title)

theorem Resembles.refl (s : ClientSession) : s.Resembles s := ⟨rfl, rfl, rfl, rfl, rfl⟩

theorem Resembles.trans (h : s.Resembles s') (h' : s'.Resembles t) : s.Resembles t :=
  ⟨h'.link.trans h.link, h'.user.trans h.user, h'.phase.trans h.phase, h'.player.trans h.player,
    h'.view.trans h.view⟩

theorem check_eq_ok_iff {l : ClientLink} : l.check p = .ok () ↔ l.connected ∧
    ∃ frame, p.encode = .ok frame ∧ (p.isVital ∨ frame.length ≤ maxDatagram) := by
  unfold ClientLink.check
  cases hc : l.connected <;> cases he : p.encode <;> simp [or_iff_not_imp_left]

theorem sendOr_cases (s : ClientSession) (p : Packet) (failed next : ClientSession) :
    (s.link.check p = .ok () ∧
        s.sendOr p failed next = { session := next, sent := [p], result := .ok () }) ∨
      ∃ e, s.link.check p = .error e ∧
        s.sendOr p failed next = { session := failed, result := .error (.link e) } := by
  unfold sendOr
  cases s.link.check p with
  | ok => exact Or.inl ⟨rfl, rfl⟩
  | error e => exact Or.inr ⟨e, rfl, rfl⟩

/-- What a packet makes of a session, and what is sent for it. -/
inductive Handles (s : ClientSession) : Packet → Outcome Unit → Prop
  | ignores {p : Packet} {s' : ClientSession} (hp : p.isOrder = false) (hs : s.Resembles s') :
      Handles s p { session := s', result := .ok () }
  | rejects {stored : String} (hp : s.phase = .requestingHash) :
      Handles s (.sendPassword s.user stored)
        { session := { s with phase := .rejected }
          result := .error (.login (.wrongPassword s.user)) }
  | logsIn {stored password : String} (hp : s.phase = .requestingHash) :
      Handles s (.sendPassword s.user stored)
        { session := { s with phase := .authenticating }, sent := [.authenticate s.user password]
          result := .ok () }
  | fails {stored : String} {e : SessionError} (hp : s.phase = .requestingHash) :
      Handles s (.sendPassword s.user stored) { session := s, result := .error e }
  | named (q : PlayerId) : Handles s (.setPlayer q)
      { session := { s with player := q, phase := .probing, lastProbe := none }, result := .ok () }
  | loads (W : String) : Handles s (.loadWorld W)
      { session := { s with
          world := some { name := W, localPlayer := s.player }, phase := .inWorld }
        sent := [.worldLoaded], result := .ok () }
  | loadsAlone (W : String) {e : SessionError} (hc : s.link.connected = false) :
      Handles s (.loadWorld W)
        { session := { s with
            world := some { name := W, localPlayer := s.player }, phase := .inWorld }
          result := .error e }

theorem handles_onStored (s : ClientSession) (user stored : String) :
    s.Handles (.sendPassword user stored) (s.onStored user stored) := by
  unfold onStored
  split
  · exact .ignores rfl (.refl s)
  next h =>
  obtain ⟨hu, hp⟩ := not_or.mp h
  obtain rfl := Decidable.not_not.mp hu
  have hp := Decidable.not_not.mp hp
  split
  · exact .rejects hp
  next password _ =>
  obtain ⟨-, ho⟩ | ⟨e, -, ho⟩ :=
    s.sendOr_cases (.authenticate s.user password) s { s with phase := .authenticating } <;> rw [ho]
  · exact .logsIn hp
  · exact .fails hp

theorem handles_handle (s : ClientSession) (p : Packet) : s.Handles p (s.handle p) := by
  unfold handle
  split
  · exact handles_onStored s _ _
  · exact .named _
  · next W =>
    dsimp only
    obtain ⟨-, ho⟩ | ⟨e, hc, ho⟩ := sendOr_cases
      { s with world := some { name := W, localPlayer := s.player }, phase := .inWorld }
      .worldLoaded _ _ <;> rw [send, ho]
    · exact .loads W
    · refine .loadsAlone W (Bool.eq_false_iff.mpr fun hconn => ?_)
      obtain ⟨frame, hf⟩ := Packet.exists_encode_worldLoaded
      rw [check_eq_ok_iff.mpr ⟨hconn, frame, hf, Or.inl rfl⟩] at hc
      cases hc
  · next hstored hname hload =>
    refine .ignores ?_ ⟨rfl, rfl, rfl, rfl, ?_⟩
    · cases p with
      | setPlayer q => exact absurd rfl (hname q)
      | loadWorld W => exact absurd rfl (hload W)
      | _ => rfl
    · dsimp only
      rw [Option.map_map]
      congr 1
      funext v
      rw [Function.comp_apply, WorldView.getD_handle, WorldView.title_receive]

/-- What the orders that a session has followed have made of it. -/
inductive Recalls (s : ClientSession) : List Packet → Prop
  | nothing (hp : s.phase.isSettled = false) : Recalls s []
  | name (hp : s.phase = .probing) : Recalls s [.setPlayer s.player]
  | world (loads : List String) {v : WorldView} (hp : s.phase = .inWorld) (hv : s.world = some v)
      (hq : v.localPlayer = s.player) :
      Recalls s (.setPlayer s.player :: (loads ++ [v.name]).map .loadWorld)

theorem Recalls.of_resembles (h : s.Recalls heard) (hs : s.Resembles s') : s'.Recalls heard := by
  cases h with
  | nothing hp => exact .nothing (by rw [hs.phase, hp])
  | name hp =>
    rw [← hs.player]
    exact .name (by rw [hs.phase, hp])
  | world loads hp hv hq =>
    have hview := hs.view
    rw [hv] at hview
    obtain ⟨v', hv', htitle⟩ := Option.map_eq_some_iff.mp hview
    obtain ⟨hname, hlocal⟩ := Prod.mk.inj htitle
    have hworld : s'.Recalls (.setPlayer s'.player :: (loads ++ [v'.name]).map .loadWorld) :=
      .world loads (by rw [hs.phase, hp]) hv' (by rw [hlocal, hq, hs.player])
    rwa [hname, hs.player] at hworld

theorem Recalls.relink (h : s.Recalls heard) (link : ClientLink) :
    ({ s with link } : ClientSession).Recalls heard := by
  cases h with
  | nothing hp => exact .nothing hp
  | name hp => exact .name hp
  | world loads hp hv hq => exact .world loads hp hv hq

theorem Recalls.player {q : PlayerId} {rest : List Packet}
    (h : s.Recalls (.setPlayer q :: rest)) : s.player = q := by
  cases h <;> rfl

theorem recalls_handle (h : s.Recalls heard) {rest : List Packet}
    (ho : Packet.Ordered (heard ++ [p].filter (·.isOrder) ++ rest)) :
    (s.handle p).session.Recalls (heard ++ [p].filter (·.isOrder)) := by
  have hhandles := s.handles_handle p
  generalize s.handle p = out at hhandles
  cases hhandles with
  | ignores hp hs =>
    rw [List.filter_cons_of_neg (by simp [hp]), List.filter_nil, List.append_nil]
    exact h.of_resembles hs
  | rejects hp | logsIn hp | fails hp =>
    rw [List.filter_cons_of_neg (by simp [Packet.isOrder]), List.filter_nil, List.append_nil]
    cases h with
    | nothing => exact .nothing (by simp [hp, LoginPhase.isSettled])
    | name h => cases hp.symm.trans h
    | world _ h => cases hp.symm.trans h
  | named q =>
    rw [List.filter_cons_of_pos rfl, List.filter_nil] at ho ⊢
    obtain rfl : heard = [] := Packet.eq_nil_of_ordered (by simpa using ho)
    exact .name rfl
  | loads W | loadsAlone W =>
    rw [List.filter_cons_of_pos rfl, List.filter_nil] at ho ⊢
    obtain ⟨q, loads, rfl⟩ := Packet.exists_loads_of_ordered (by simpa using ho)
    have hworld : ∀ t : ClientSession, t.phase = .inWorld → t.player = q →
        t.world = some { name := W, localPlayer := q } →
        t.Recalls (.setPlayer q :: loads.map .loadWorld ++ [.loadWorld W]) := by
      rintro t hphase rfl hw
      have := Recalls.world loads hphase hw rfl
      simpa using this
    exact hworld _ rfl h.player (by rw [h.player])

/-- The packets that a session does not come to, for it stops at the first failure. -/
def leftover (s : ClientSession) : List Packet → List Packet
  | [] => []
  | p :: ps =>
    match (s.handle p).result with
    | .error _ => ps
    | .ok () => (s.handle p).session.leftover ps

theorem recalls_handleAll {rest : List Packet} (h : s.Recalls heard)
    (ho : Packet.Ordered (heard ++ ps.filter (·.isOrder) ++ rest)) :
    ∃ taken, ps = taken ++ s.leftover ps ∧
      (s.handleAll ps).session.Recalls (heard ++ taken.filter (·.isOrder)) := by
  induction ps generalizing s heard with
  | nil => exact ⟨[], rfl, by simpa [handleAll] using h⟩
  | cons p ps ih =>
    have hsplit : (p :: ps).filter (·.isOrder) =
        [p].filter (·.isOrder) ++ ps.filter (·.isOrder) := List.filter_append [p] ps
    rw [hsplit] at ho
    have hp : (s.handle p).session.Recalls (heard ++ [p].filter (·.isOrder)) :=
      recalls_handle h (by simpa using ho)
    cases hres : (s.handle p).result with
    | error e => exact ⟨[p], by simp [leftover, hres], by simpa [handleAll, hres] using hp⟩
    | ok _ =>
      obtain ⟨taken, hps, hr⟩ := ih hp (by simpa using ho)
      simp only [handleAll, leftover, hres]
      refine ⟨p :: taken, by rw [List.cons_append, ← hps], ?_⟩
      have htaken : (p :: taken).filter (·.isOrder) =
          [p].filter (·.isOrder) ++ taken.filter (·.isOrder) := List.filter_append [p] taken
      rw [htaken, ← List.append_assoc]
      exact hr

/-- What packets leave alone in a session, and when it sends a login. -/
structure Answers (s : ClientSession) (ps : List Packet) (out : Outcome Unit) : Prop where
  link : out.session.link = s.link
  user : out.session.user = s.user
  early : out.session.phase.isEarly → s.phase.isEarly ∧ ∀ p ∈ out.sent, p.isLogin = false
  login : ∀ user password, .authenticate user password ∈ out.sent →
    user = s.user ∧ ∃ stored, .sendPassword s.user stored ∈ ps

theorem answers_handle (s : ClientSession) (p : Packet) : s.Answers [p] (s.handle p) := by
  have h := s.handles_handle p
  generalize s.handle p = out at h
  cases h with
  | ignores _ hs => exact ⟨hs.link, hs.user, fun he => ⟨hs.phase ▸ he, nofun⟩, nofun⟩
  | rejects hp => exact ⟨rfl, rfl, fun _ => ⟨by rw [hp]; rfl, nofun⟩, nofun⟩
  | fails hp => exact ⟨rfl, rfl, fun he => ⟨he, nofun⟩, nofun⟩
  | @logsIn stored password hp =>
    refine ⟨rfl, rfl, nofun, fun user password' hm => ?_⟩
    cases List.mem_singleton.mp hm
    exact ⟨rfl, stored, List.mem_singleton_self _⟩
  | named => exact ⟨rfl, rfl, nofun, nofun⟩
  | loads =>
    refine ⟨rfl, rfl, nofun, fun user password hm => ?_⟩
    cases List.mem_singleton.mp hm
  | loadsAlone => exact ⟨rfl, rfl, nofun, nofun⟩

theorem answers_handleAll (s : ClientSession) (ps : List Packet) :
    s.Answers ps (s.handleAll ps) := by
  induction ps generalizing s with
  | nil => exact ⟨rfl, rfl, fun he => ⟨he, nofun⟩, nofun⟩
  | cons p ps ih =>
    obtain ⟨hl, hu, he, ha⟩ := s.answers_handle p
    have first (user password : String) (hm : .authenticate user password ∈ (s.handle p).sent) :
        user = s.user ∧ ∃ stored, .sendPassword s.user stored ∈ p :: ps := by
      obtain ⟨hu, stored, hs⟩ := ha user password hm
      exact ⟨hu, stored, List.mem_cons.mpr (Or.inl (List.mem_singleton.mp hs))⟩
    unfold handleAll
    dsimp only
    split
    · exact ⟨hl, hu, he, first⟩
    obtain ⟨hl', hu', he', ha'⟩ := ih (s.handle p).session
    refine ⟨hl'.trans hl, hu'.trans hu, fun hearly => ?_, fun user password hm => ?_⟩
    · obtain ⟨hearly, hsent⟩ := he' hearly
      obtain ⟨hearly, hsent'⟩ := he hearly
      exact ⟨hearly, List.forall_mem_append.mpr ⟨hsent', hsent⟩⟩
    · rcases List.mem_append.mp hm with hm | hm
      · exact first user password hm
      · obtain ⟨huser, stored, hs⟩ := ha' user password hm
        rw [hu] at huser hs
        exact ⟨huser, stored, List.mem_cons_of_mem _ hs⟩

theorem isEarly_of_error (hc : s.link.connected) {e : SessionError}
    (h : (s.handle p).result = .error e) : s.phase.isEarly := by
  have hh := s.handles_handle p
  generalize s.handle p = out at hh h
  cases hh with
  | ignores | logsIn | named | loads => cases h
  | rejects hp | fails hp => rw [hp]; rfl
  | loadsAlone _ hd =>
    rw [hc] at hd
    cases hd

theorem isEarly_of_leftover (hc : s.link.connected) (h : s.leftover ps ≠ []) :
    s.phase.isEarly := by
  induction ps generalizing s with
  | nil => exact absurd rfl h
  | cons p ps ih =>
    obtain ⟨hl, -, he, -⟩ := s.answers_handle p
    unfold leftover at h
    split at h
    · next herr => exact isEarly_of_error hc herr
    · exact (he (ih (by rw [hl, hc]) h)).1

section Operations

variable {now : Int}

theorem probe_resembles (s : ClientSession) (now : Int) : s.Resembles (s.probe now).session ∧
    ∀ p ∈ (s.probe now).sent, p.isLogin = false := by
  unfold probe
  split
  · obtain ⟨-, ho⟩ | ⟨e, -, ho⟩ :=
      s.sendOr_cases (.probe s.player) s { s with lastProbe := some now } <;> rw [ho]
    · refine ⟨⟨rfl, rfl, rfl, rfl, rfl⟩, fun p hp => ?_⟩
      rw [List.mem_singleton.mp hp]
      rfl
    · exact ⟨.refl s, nofun⟩
  · exact ⟨.refl s, nofun⟩

theorem advance_resembles (h : s.advance now = some s') : s.Resembles s' := by
  unfold advance at h
  dsimp only at h
  split at h
  · cases h
    exact ⟨rfl, rfl, rfl, rfl, rfl⟩
  · next v hv =>
    obtain ⟨v', htick, rfl⟩ := Option.map_eq_some_iff.mp h
    exact ⟨rfl, rfl, rfl, rfl, by simp [hv, WorldView.title_tick htick]⟩

theorem update_resembles {received : List Packet} {link : ClientLink} {out : Outcome Nat}
    (hd : s.link.drain = (received, link)) (h : s.update now = some out) :
    let handled := ({ s with link } : ClientSession).handleAll received
    handled.session.Resembles out.session ∧
      ∃ sent, out.sent = handled.sent ++ sent ∧ ∀ p ∈ sent, p.isLogin = false := by
  intro handled
  unfold update at h
  rw [hd] at h
  dsimp only at h
  split at h
  · cases h
    exact ⟨.refl _, [], (List.append_nil _).symm, nofun⟩
  obtain ⟨hprobe, hsent⟩ := handled.session.probe_resembles now
  split at h
  · cases h
    exact ⟨hprobe, _, rfl, hsent⟩
  · obtain ⟨s', hs', rfl⟩ := Option.map_eq_some_iff.mp h
    exact ⟨hprobe.trans (advance_resembles hs'), _, rfl, hsent⟩

theorem send_resembles (s : ClientSession) (p : Packet) :
    (s.send p).session = s ∧ ∀ q ∈ (s.send p).sent, q = p := by
  unfold send
  obtain ⟨-, ho⟩ | ⟨e, -, ho⟩ := s.sendOr_cases p s s <;> rw [ho]
  · exact ⟨rfl, fun q hq => List.mem_singleton.mp hq⟩
  · exact ⟨rfl, nofun⟩

theorem move_resembles (s : ClientSession) (position : Position) (now : Nat) :
    s.Resembles (s.move position now).session ∧
      ∀ p ∈ (s.move position now).sent, p.isLogin = false := by
  unfold move
  split
  · dsimp only
    obtain ⟨hs, hsent⟩ := send_resembles { s with lastMove := s.moveTime now }
      (.ownUpdate (report { s with lastMove := s.moveTime now } _ _ position (s.moveTime now)))
    rw [hs]
    refine ⟨⟨rfl, rfl, rfl, rfl, rfl⟩, fun p hp => ?_⟩
    rw [hsent p hp]
    rfl
  · exact ⟨.refl s, nofun⟩

end Operations

end ClientSession

end SharedWorld
