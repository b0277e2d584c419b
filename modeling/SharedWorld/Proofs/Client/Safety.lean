import SharedWorld.Proofs.Client.Deeds

/-! # What a session does, whatever it is sent

One inversion says what a session can make of a packet, a frame or a move while its packets can be
sent, and the promises of a whole session follow from it: whatever arrives in whatever order, and
whenever the frames come, it logs in at most once, loads the worlds it is told to, does not probe
too often and keeps its moves in order.
-/

namespace SharedWorld

namespace Packet

/-- The time of a reported move. -/
def moveTime? : Packet → Option UInt64
  | ownUpdate u => some u.time
  | _ => none

end Packet

namespace ClientSession

variable {s s' t : ClientSession} {p : Packet} {ps : List Packet} {d : Deed} {ds : List Deed}
  {k : Cause} {c : Call} {cs : List Call} {sent : List Packet}

section Steps

/-- What a session makes of what it comes to, while it can send. -/
inductive Acts (s : ClientSession) : Cause → ClientSession → List Packet → Prop
  | ignores {p : Packet} {s' : ClientSession} (hp : p.isOrder = false)
      (hu : ∀ stored, p = .sendPassword s.user stored → s.phase ≠ .requestingHash)
      (hs : s.Continues s') : Acts s (.packet p) s' []
  | rejects {stored : String} (hp : s.phase = .requestingHash) :
      Acts s (.packet (.sendPassword s.user stored)) { s with phase := .rejected } []
  | logsIn {stored password : String} (hp : s.phase = .requestingHash) :
      Acts s (.packet (.sendPassword s.user stored)) { s with phase := .authenticating }
        [.authenticate s.user password]
  | named (q : PlayerId) : Acts s (.packet (.setPlayer q))
      { s with player := q, phase := .probing, lastProbe := none } []
  | loads (W : String) : Acts s (.packet (.loadWorld W))
      { s with world := some { name := W, localPlayer := s.player }, phase := .inWorld }
      [.worldLoaded]
  | waits (now : Int) : Acts s (.frame now) s []
  | probes {now : Int} (hp : s.phase = .probing)
      (hl : ∀ last ∈ s.lastProbe, last + probeInterval ≤ now) :
      Acts s (.frame now) { s with lastProbe := some now } [.probe s.player]
  | stays (position : Position) (now : Nat) : Acts s (.move position now) s []
  | moves {position : Position} {now : Nat} {u : OwnUpdate} (hu : s.lastMove < u.time) :
      Acts s (.move position now) { s with lastMove := u.time } [.ownUpdate u]

@[simp] theorem Outcome.sends_map {α β : Type} (out : Outcome α) (f : α → β) :
    ({ out with result := out.result.map f } : Outcome β).sends = out.sends := by
  obtain ⟨_, _, (_ | _) | _⟩ := out <;> rfl

theorem sendOr_of_sends {failed next : ClientSession} (h : (s.sendOr p failed next).sends) :
    s.sendOr p failed next = { session := next, sent := [p], result := .ok () } := by
  obtain ⟨-, ho⟩ | ⟨e, -, ho⟩ := s.sendOr_cases p failed next
  · exact ho
  · rw [ho] at h
    cases h

theorem acts_onStored {user stored : String} (h : (s.onStored user stored).sends) :
    s.Acts (.packet (.sendPassword user stored)) (s.onStored user stored).session
      (s.onStored user stored).sent := by
  unfold onStored at h ⊢
  split
  · next hc =>
    refine .ignores rfl ?_ (.refl s)
    rintro _ ⟨⟩
    simpa using hc
  next hc =>
  obtain ⟨rfl, hp⟩ : user = s.user ∧ s.phase = .requestingHash := by simpa using hc
  rw [if_neg hc] at h
  cases hcred : s.credential? stored with
  | none => exact .rejects hp
  | some password =>
    simp only [hcred] at h ⊢
    rw [sendOr_of_sends h]
    exact .logsIn hp

theorem acts_handle (h : (s.handle p).sends) :
    s.Acts (.packet p) (s.handle p).session (s.handle p).sent := by
  unfold handle at h ⊢
  split at h
  · exact acts_onStored h
  · exact .named _
  · next W =>
    dsimp only [send] at h ⊢
    rw [sendOr_of_sends h]
    exact .loads W
  · next hstored hname hload =>
    refine .ignores ?_ (fun stored hp => absurd hp (hstored _ stored))
      ⟨rfl, rfl, rfl, rfl, Option.isSome_map⟩
    cases p with
    | setPlayer q => exact absurd rfl (hname q)
    | loadWorld W => exact absurd rfl (hload W)
    | _ => rfl

theorem acts_probe {now : Int} (h : (s.probe now).sends) :
    s.Acts (.frame now) (s.probe now).session (s.probe now).sent := by
  unfold probe at h ⊢
  split
  · next hdue =>
    rw [if_pos hdue] at h
    rw [sendOr_of_sends h]
    simp only [probeDue, Bool.and_eq_true, decide_eq_true_eq, Option.all_eq_true] at hdue
    refine .probes hdue.1 fun last hlast => ?_
    have hspan := hdue.2 last hlast
    simp only [probeInterval] at hspan ⊢
    omega
  · exact .waits now

theorem lt_moveTime (h : s.lastMove + 1 ≠ 0) (now : Nat) : s.lastMove < s.moveTime now := by
  have hlt : s.lastMove < s.lastMove + 1 := by grind
  change _ < if Micros.ofNat (now / 1000) ≤ s.lastMove + 1 then _ else Micros.ofNat (now / 1000)
  split
  · exact hlt
  · grind

theorem acts_move {position : Position} {now : Nat} (hx : s.exhausted = false)
    (h : (s.move position now).sends) :
    s.Acts (.move position now) (s.move position now).session (s.move position now).sent := by
  obtain ho | ⟨he, u, hu, ho⟩ := s.move_cases position now
  · rw [ho]
    exact .stays position now
  · have hlast : s.lastMove + 1 ≠ 0 := by simpa [exhausted, he] using hx
    rw [ho, Outcome.sends_map, send] at h
    rw [ho, send, sendOr_of_sends h]
    exact .moves (hu ▸ lt_moveTime hlast now)

theorem acts_of_sends (ht : d.timely) (h : d.sends) :
    d.state.Acts d.cause d.next d.sent := by
  obtain ⟨s, c⟩ := d
  cases c with
  | packet p => exact acts_handle h
  | frame now => exact acts_probe h
  | move position now =>
    refine acts_move (by simpa [Deed.timely] using ht) ?_
    simpa [Deed.sends, Deed.outcome, act] using h

end Steps

section Courses

/-- Deeds one after the other, while the session can send. -/
inductive Course : ClientSession → List Deed → Prop
  | nil {s : ClientSession} : Course s []
  | cons {s : ClientSession} {d : Deed} {ds : List Deed} (hs : s.Continues d.state)
      (ha : d.state.Acts d.cause d.next d.sent) (h : Course d.next ds) : Course s (d :: ds)

theorem Chain.course (h : Chain s ds) (hsends : ∀ d ∈ ds, d.sends) : Course s ds := by
  induction h with
  | nil => exact .nil
  | cons hs ht _ ih =>
    obtain ⟨hd, hds⟩ := List.forall_mem_cons.mp hsends
    exact .cons hs (acts_of_sends ht hd) (ih hds)

theorem Course.acts (h : Course s ds) : ∀ d ∈ ds, d.state.Acts d.cause d.next d.sent := by
  induction h with
  | nil => exact List.forall_mem_nil _
  | cons _ ha _ ih => exact List.forall_mem_cons.mpr ⟨ha, ih⟩

theorem Course.of_append {ds' : List Deed} (h : Course s (ds ++ ds')) : Course s ds := by
  induction ds generalizing s with
  | nil => exact .nil
  | cons d ds ih =>
    cases h with
    | cons hs ha h => exact .cons hs ha (ih h)

theorem Course.of_infix {stretch : List Deed} (h : Course s ds) (hds : stretch <:+: ds) :
    ∃ s', Course s' stretch := by
  obtain ⟨pre, post, rfl⟩ := hds
  induction pre generalizing s with
  | nil => exact ⟨s, h.of_append⟩
  | cons d pre ih =>
    cases h with
    | cons _ _ h => exact ih h

end Courses

section Logins

theorem Acts.user (h : s.Acts k s' sent) : s'.user = s.user := by
  cases h with
  | ignores _ _ hs => exact hs.user
  | _ => rfl

theorem Acts.requesting (h : s.Acts k s' sent) (hp : s'.phase = .requestingHash) :
    s.phase = .requestingHash ∧ k.answers s.user = false ∧ ∀ q ∈ sent, q.isLogin = false := by
  cases h with
  | rejects | logsIn | named | loads => cases hp
  | @ignores p s' _ hu hs =>
    have hp := hs.phase.symm.trans hp
    refine ⟨hp, ?_, nofun⟩
    cases p with
    | sendPassword user stored =>
      refine decide_eq_false ?_
      rintro rfl
      exact hu stored rfl hp
    | _ => rfl
  | waits | stays => exact ⟨hp, rfl, nofun⟩
  | probes | moves => exact ⟨hp, rfl, fun q hq => List.mem_singleton.mp hq ▸ rfl⟩

theorem Acts.login (h : s.Acts k s' sent) {q : Packet} (hq : q ∈ sent) (hl : q.isLogin) :
    s.phase = .requestingHash ∧ ∃ stored password,
      k = .packet (.sendPassword s.user stored) ∧ q = .authenticate s.user password := by
  cases h with
  | logsIn hp =>
    obtain rfl := List.mem_singleton.mp hq
    exact ⟨hp, _, _, rfl, rfl⟩
  | loads | probes | moves =>
    obtain rfl := List.mem_singleton.mp hq
    cases hl
  | _ => cases hq

theorem Acts.length_le (h : s.Acts k s' sent) : sent.length ≤ 1 := by
  cases h <;> simp

theorem Course.of_mem (h : Course s ds) (hd : d ∈ ds) :
    d.state.user = s.user ∧ (d.state.phase = .requestingHash → s.phase = .requestingHash) := by
  induction h with
  | nil => cases hd
  | cons hs ha _ ih =>
    rw [← hs.user, ← hs.phase]
    obtain rfl | hd := List.mem_cons.mp hd
    · exact ⟨rfl, id⟩
    · obtain ⟨hu, hp⟩ := ih hd
      exact ⟨hu.trans ha.user, fun h => (ha.requesting (hp h)).1⟩

theorem Course.pairwise_requesting (h : Course s ds) :
    ds.Pairwise fun d e => e.state.phase = .requestingHash → d.next.phase = .requestingHash := by
  induction h with
  | nil => exact .nil
  | cons _ _ h ih => exact .cons (fun e he => (h.of_mem he).2) ih

theorem Course.countP_isLogin_le (h : Course s ds) :
    (ds.flatMap Deed.sent).countP (·.isLogin) ≤ 1 := by
  induction h with
  | nil => exact Nat.zero_le _
  | @cons _ d ds _ ha h ih =>
    rw [List.flatMap_cons, List.countP_append]
    by_cases hd : d.next.phase = .requestingHash
    · have hsent : d.sent.countP (·.isLogin) = 0 :=
        List.countP_eq_zero.mpr fun q hq => by simp [(ha.requesting hd).2.2 q hq]
      omega
    · have hrest : (ds.flatMap Deed.sent).countP (·.isLogin) = 0 := by
        refine List.countP_eq_zero.mpr fun q hq hl => hd ?_
        obtain ⟨e, he, hq⟩ := List.mem_flatMap.mp hq
        exact (h.of_mem he).2 ((h.acts e he).login hq hl).1
      have hfirst : d.sent.countP (·.isLogin) ≤ d.sent.length := List.countP_le_length
      have hlength := ha.length_le
      omega

end Logins

section Probes

theorem Acts.probe {q : PlayerId} (h : s.Acts k s' sent) (hq : .probe q ∈ sent) :
    s.phase = .probing ∧ ∃ now, k = .frame now ∧ s'.lastProbe = some now ∧
      ∀ last ∈ s.lastProbe, last + probeInterval ≤ now := by
  cases h with
  | probes hp hl => exact ⟨hp, _, rfl, rfl, hl⟩
  | _ => simp at hq

theorem Acts.lastProbe (h : s.Acts k s' sent) (hk : k.names = false) {last : Int}
    (hl : s.lastProbe = some last) : ∃ last', s'.lastProbe = some last' ∧ last ≤ last' := by
  cases h with
  | ignores _ _ hs => exact ⟨last, hs.lastProbe.trans hl, Int.le_refl _⟩
  | named => cases hk
  | @probes now hp hdue =>
    have := hdue last hl
    exact ⟨now, rfl, by omega⟩
  | _ => exact ⟨last, hl, Int.le_refl _⟩

/-- Until a player is named, the next probe is one interval after the last. -/
theorem Course.add_probeInterval_le {mid : List Deed} {e : Deed} {last now : Int}
    (h : Course s (mid ++ [e])) (hmid : ∀ m ∈ mid, m.cause.names = false)
    (hl : s.lastProbe = some last) (he : e.ProbesAt now) : last + probeInterval ≤ now := by
  induction mid generalizing s last with
  | nil =>
    obtain ⟨hc, q, hq⟩ := he
    cases h with
    | cons hs ha _ =>
      obtain ⟨-, now', hnow, -, hdue⟩ := ha.probe hq
      cases hc.symm.trans hnow
      exact hdue last (hs.lastProbe.trans hl)
  | cons m mid ih =>
    cases h with
    | cons hs ha h =>
      obtain ⟨hm, hmid⟩ := List.forall_mem_cons.mp hmid
      obtain ⟨last', hl', hle⟩ := ha.lastProbe hm (hs.lastProbe.trans hl)
      have := ih h hmid hl'
      omega

theorem Course.spaced {mid : List Deed} {e : Deed} {now now' : Int} (h : Course s ds)
    (hds : d :: mid ++ [e] <:+: ds) (hmid : ∀ m ∈ mid, m.cause.names = false)
    (hd : d.ProbesAt now) (he : e.ProbesAt now') : now + probeInterval ≤ now' := by
  obtain ⟨t, h⟩ := h.of_infix hds
  obtain ⟨hc, q, hq⟩ := hd
  cases h with
  | cons _ ha h =>
    obtain ⟨-, last, hlast, hl, -⟩ := ha.probe hq
    cases hc.symm.trans hlast
    exact h.add_probeInterval_le hmid hl he

end Probes

section Moves

theorem Acts.moveTimes (h : s.Acts k s' sent) :
    (sent.filterMap Packet.moveTime? = [] ∧ s'.lastMove = s.lastMove) ∨
      sent.filterMap Packet.moveTime? = [s'.lastMove] ∧ s.lastMove < s'.lastMove := by
  cases h with
  | moves hu => exact Or.inr ⟨rfl, hu⟩
  | ignores _ _ hs => exact Or.inl ⟨rfl, hs.lastMove⟩
  | _ => exact Or.inl ⟨rfl, rfl⟩

theorem Course.pairwise_moveTimes (h : Course s ds) :
    (s.lastMove :: (ds.flatMap Deed.sent).filterMap Packet.moveTime?).Pairwise (· < ·) := by
  induction h with
  | nil => exact List.pairwise_singleton _ _
  | @cons s d ds hs ha _ ih =>
    rw [List.flatMap_cons, List.filterMap_append, ← hs.lastMove]
    obtain ⟨hsent, hlast⟩ | ⟨hsent, hlast⟩ := ha.moveTimes
    · rwa [hsent, ← hlast]
    · rw [hsent]
      refine .cons (List.forall_mem_cons.mpr ⟨hlast, fun t ht => ?_⟩) ih
      exact UInt64.lt_trans hlast (List.rel_of_pairwise_cons ih ht)

end Moves

section Replicas

def Replica (s : ClientSession) : Prop := s.phase = .inWorld → s.world.isSome

theorem Replica.of_continues (h : s.Replica) (hs : s.Continues s') : s'.Replica := fun hp => by
  rw [hs.world, h (hs.phase.symm.trans hp)]

theorem Replica.of_resembles (h : s.Replica) (hs : s.Resembles s') : s'.Replica := fun hp => by
  rw [← Option.isSome_map (f := WorldView.title), hs.view, Option.isSome_map,
    h (hs.phase.symm.trans hp)]

theorem replica_act (h : s.Replica) (k : Cause) : (s.act k).session.Replica := by
  cases k with
  | packet p =>
    have hp := s.handles_handle p
    simp only [act]
    generalize s.handle p = out at hp
    cases hp with
    | ignores _ hs => exact h.of_resembles hs
    | fails => exact h
    | loads | loadsAlone => exact fun _ => rfl
    | _ =>
      intro hphase
      cases hphase
  | frame now => exact h.of_resembles (s.probe_resembles now).1
  | move position now => exact h.of_resembles (s.move_resembles position now).1

theorem Chain.replica (h : Chain s ds) (hs : s.Replica) :
    ∀ d ∈ ds, d.state.Replica ∧ d.next.Replica := by
  induction h with
  | nil => exact List.forall_mem_nil _
  | @cons _ d _ hs' _ _ ih =>
    have hd := hs.of_continues hs'
    have hnext : d.next.Replica := replica_act hd d.cause
    exact List.forall_mem_cons.mpr ⟨⟨hd, hnext⟩, ih hnext⟩

theorem replica_call (h : s.Replica) (hc : s.call c = some (s', sent)) : s'.Replica := by
  -- A frame after the call sees what the call has left.
  have hchain : Chain s (s.deeds c ++ [⟨s', .frame 0⟩]) := by
    refine chain_deeds (fun t _ ht => ?_) fun hn => ?_
    · cases hc.symm.trans ht
      exact .cons (.refl _) rfl .nil
    · cases hc.symm.trans hn
  exact (hchain.replica h _ (List.mem_append_right _ (List.mem_singleton_self _))).1

theorem replica_play (h : s.Replica) (hp : s.play cs = some (s', sent)) : s'.Replica := by
  induction cs generalizing s sent with
  | nil =>
    cases hp
    exact h
  | cons c cs ih =>
    obtain ⟨s₁, first, rest, hc, hcs, -⟩ := exists_of_play_cons hp
    exact ih (replica_call h hc) hcs

end Replicas

section Safety

/-- What can be relied on in all that the session of a user does. -/
structure Safe (user : String) (ds : List Deed) : Prop where
  /-- A login answers the stored password of the user, and only while that is asked for. -/
  login : ∀ d ∈ ds, ∀ q ∈ d.sent, q.isLogin → d.state.phase = .requestingHash ∧
    ∃ stored password, d.cause = .packet (.sendPassword user stored) ∧
      q = .authenticate user password
  once : (ds.flatMap Deed.sent).countP (·.isLogin) ≤ 1
  /-- The first stored password of the user is the only one that may be answered. -/
  first : ds.Pairwise fun d e => d.cause.answers user → ∀ q ∈ e.sent, q.isLogin = false
  rejected : ds.Pairwise fun d e => d.next.phase = .rejected → ∀ q ∈ e.sent, q.isLogin = false
  loaded : ∀ d ∈ ds, d.sent.count .worldLoaded = d.cause.loads.toNat
  probing : ∀ d ∈ ds, (∃ q, .probe q ∈ d.sent) → d.state.phase = .probing ∧
    ∃ now, d.ProbesAt now
  /-- Two probes with no player named between them are an interval apart. -/
  spaced : ∀ d mid e (now now' : Int), d :: mid ++ [e] <:+: ds →
    (∀ m ∈ mid, m.cause.names = false) → d.ProbesAt now → e.ProbesAt now' →
    now + probeInterval ≤ now'
  replica : ∀ d ∈ ds, (d.state.phase = .inWorld → d.state.world.isSome) ∧
    (d.next.phase = .inWorld → d.next.world.isSome)
  ordered : ((ds.flatMap Deed.sent).filterMap Packet.moveTime?).Pairwise (· < ·)

theorem Acts.count_worldLoaded (h : s.Acts k s' sent) :
    sent.count .worldLoaded = k.loads.toNat := by
  cases h with
  | @ignores p _ hp =>
    cases p with
    | loadWorld => cases hp
    | _ => rfl
  | _ => rfl

theorem safe_of_course (h : Course s ds) (hr : ∀ d ∈ ds, d.state.Replica ∧ d.next.Replica) :
    Safe s.user ds where
  login d hd q hq hl := by
    rw [← (h.of_mem hd).1]
    exact (h.acts d hd).login hq hl
  once := h.countP_isLogin_le
  first := h.pairwise_requesting.imp_of_mem fun hd he hphase hans => by
    refine fun q hq => Bool.eq_false_iff.mpr fun hl => ?_
    have hnext := hphase ((h.acts _ he).login hq hl).1
    rw [← (h.of_mem hd).1, ((h.acts _ hd).requesting hnext).2.1] at hans
    cases hans
  rejected := h.pairwise_requesting.imp_of_mem fun _ he hphase hr => by
    refine fun q hq => Bool.eq_false_iff.mpr fun hl => ?_
    cases hr.symm.trans (hphase ((h.acts _ he).login hq hl).1)
  loaded d hd := (h.acts d hd).count_worldLoaded
  probing := by
    rintro d hd ⟨q, hq⟩
    obtain ⟨hp, now, hc, -, -⟩ := (h.acts d hd).probe hq
    exact ⟨hp, now, hc, q, hq⟩
  spaced _ _ _ _ _ := h.spaced
  replica := hr
  ordered := h.pairwise_moveTimes.of_cons

/-- A session is safe whatever packets it finds, in whatever order, and whenever its frames and
its moves come. It stops where a call does not return, and moves return as long as the clock is far
from its end (`not_exhausted_of_play`). -/
theorem safe_of_calls (link : ClientLink) (user password : String) (salt : Bytes)
    (cs : List Call) :
    let s := (start link user password salt).session
    (∀ s' sent, s.play cs = some (s', sent) →
      sent = (s.trace cs).flatMap Deed.sent ∧ (s'.phase = .inWorld → s'.world.isSome)) ∧
    ((∀ d ∈ s.trace cs, d.sends) → Safe user (s.trace cs)) := by
  rw [start, (send_resembles _ _).1]
  intro s
  have hs : s.Replica := nofun
  have hchain := s.chain_trace cs
  refine ⟨fun s' sent hp => ⟨sent_play hp, replica_play hs hp⟩, fun hsends => ?_⟩
  exact safe_of_course (hchain.course hsends) (hchain.replica hs)

/-- What has arrived when a frame comes. -/
def arrived (ps : List Packet) : ClientLink :=
  { server := ⟨.v4 [127, 0, 0, 1], 9000⟩, inbox := { items := ps, pending := true } }

def firstDay : List Call :=
  let seen (time : UInt64) : Packet := .entityUpdate {
    entity := ⟨3⟩, player := ⟨1⟩, world := "farm", time, type := .character
    data := (CharacterData.mk ⟨1⟩ true ⟨1, 2⟩ "player").toBlob }
  [.update (arrived [seen 1, .sendPassword "bob" "", .sendPassword "ann" ""]) 0,
    .update (arrived [.sendPassword "ann" "", .setPlayer ⟨1⟩]) 10,
    .update (arrived []) 50000000, .update (arrived []) 100000010,
    .update (arrived [.loadWorld "farm", seen 2]) 90000000,
    .move (arrived []) ⟨1, 2⟩ 300000, .move (arrived []) ⟨3, 2⟩ 300000]

theorem safe_of_calls_firstDay :
    let s := (start (arrived []) "ann" "" []).session
    (∃ s' sent, s.play firstDay = some (s', sent) ∧ s'.world.isSome ∧
      sent = (s.trace firstDay).flatMap Deed.sent ∧
      sent.map (·.kind) = [.authenticate, .probe, .probe, .worldLoaded, .ownUpdate, .ownUpdate]) ∧
    Safe "ann" (s.trace firstDay) := by
  intro s
  obtain ⟨hplay, hsafe⟩ := safe_of_calls (arrived []) "ann" "" [] firstDay
  refine ⟨?_, hsafe (by decide +kernel)⟩
  have hp : (s.play firstDay).map (fun out => out.1.phase) = some .inWorld := by decide +kernel
  obtain ⟨⟨s', sent⟩, hp, hphase⟩ := Option.map_eq_some_iff.mp hp
  obtain ⟨hsent, hworld⟩ := hplay s' sent hp
  refine ⟨s', sent, hp, hworld hphase, hsent, ?_⟩
  rw [hsent]
  decide +kernel

end Safety

end ClientSession

end SharedWorld
