import SharedWorld.Proofs.Atlas.Audience
import SharedWorld.Proofs.Server.Run

/-! # The acts of a server

What an event does to the roster, to the accounts and to the atlas, and what it sends. There
is one case for each way in which an event can take effect, and the atlas takes at most one of
its own events in each.
-/

namespace SharedWorld

namespace Roster

variable {r : Roster} {c c' : ConnectionId} {q : PlayerId} {pl pl' : Player} {name : String}

def abandon (r : Roster) (c : ConnectionId) : Roster := { r with pending := r.pending.erase c }

def newcomer (c : ConnectionId) (q : PlayerId) (name : String) : Player :=
  { connection := c, id := q, name }

def enroll (r : Roster) (c : ConnectionId) (q : PlayerId) (name : String) : Roster :=
  { pending := r.pending.erase c
    players := r.players.insert q (newcomer c q name)
    byConnection := r.byConnection.insert c q }

def forget (r : Roster) (pl : Player) : Roster :=
  { r with players := r.players.erase pl.id, byConnection := r.byConnection.erase pl.connection }

def amend (r : Roster) (pl : Player) : Roster := { r with players := r.players.insert pl.id pl }

theorem uses_addPending_iff : (r.addPending c).Uses c' ↔ c' = c ∨ r.Uses c' := by
  simp only [Uses, addPending, Table.get?_insert]
  split <;> simp [*]

theorem uses_abandon_iff (h : r.Sound) (hc : r.pending.get? c = some { connection := c }) :
    (r.abandon c).Uses c' ↔ c' ≠ c ∧ r.Uses c' := by
  simp only [Uses, abandon, Table.get?_erase]
  split
  · next he => simp [he, (h.waiting c _ hc).2]
  · simp [*]

theorem uses_enroll_iff (hc : r.pending.get? c = some { connection := c }) :
    (r.enroll c q name).Uses c' ↔ r.Uses c' := by
  simp only [Uses, enroll, Table.get?_erase, Table.get?_insert]
  split
  · next he => simp [he, hc]
  · rfl

theorem uses_forget_iff (h : r.Sound) (hp : r.players.get? pl.id = some pl) :
    (r.forget pl).Uses c' ↔ c' ≠ pl.connection ∧ r.Uses c' := by
  simp only [Uses, forget, Table.get?_erase]
  split
  · next he =>
    have hn : r.pending.get? pl.connection = none := by
      refine Option.eq_none_iff_forall_ne_some.mpr fun pl' hpl' => ?_
      have := (h.waiting _ _ hpl').2
      rw [(h.placed _ _ hp).2] at this
      cases this
    simp [he, hn]
  · simp [*]

theorem Sound.uses (h : r.Sound) (hp : r.players.get? q = some pl) : r.Uses pl.connection :=
  Or.inr (Option.isSome_of_eq_some (h.placed q pl hp).2)

theorem Sound.eq_of_connection (h : r.Sound) {q' : PlayerId} (hp : r.players.get? q = some pl)
    (hp' : r.players.get? q' = some pl') (hc : pl.connection = pl'.connection) : q = q' := by
  have hb := (h.placed q pl hp).2
  rw [hc, (h.placed q' pl' hp').2] at hb
  exact (Option.some.inj hb).symm

end Roster

namespace Server

variable {s : Server} {e : Event} {c : ConnectionId} {out : Server × List Envelope} {pl : Player}

def Event.ends? : Event → Option ConnectionId
  | .disconnect c _ => some c
  | _ => none

/-- The worlds without a player who goes. One without a number is in none of them. -/
def without (s : Server) (pl : Player) (wall : UInt64) : Atlas × List Envelope :=
  if pl.isAuthenticated then s.atlas.step (.removePlayer pl.id wall) else (s.atlas, [])

/-- What an event makes of a server, and what it sends. -/
inductive Makes (s : Server) : Event → Server × List Envelope → Prop
  | nothing {e : Event} (hc : e.connects? = none) (he : ∀ c, e.ends? = some c → ¬ s.roster.Uses c) :
      Makes s e (s, [])
  | connects (c : ConnectionId) : Makes s (.connect c) (s.connect c, [])
  | abandons {c : ConnectionId} {wall : UInt64}
      (hc : s.roster.pending.get? c = some { connection := c }) :
      Makes s (.disconnect c wall) ({ s with roster := s.roster.abandon c }, [])
  | departs {pl : Player} {wall : UInt64} (hp : s.roster.players.get? pl.id = some pl) :
      Makes s (.disconnect pl.connection wall)
        ({ s with roster := s.roster.forget pl, atlas := (s.without pl wall).1 },
          (s.without pl wall).2)
  | answers {c : ConnectionId} {user : String} {wall : UInt64} (hc : s.roster.Uses c)
      (stored : String) : Makes s (.receive (.requestPassword user) (.stream c) wall)
        (s, reply c (.sendPassword user stored))
  | registers {c : ConnectionId} {user password : String} {wall : UInt64} {accounts : Accounts}
      {q : PlayerId} (hl : s.accounts.login user password = .ok (accounts, q)) :
      Makes s (.receive (.authenticate user password) (.stream c) wall) ({ s with accounts }, [])
  | enrolls {c : ConnectionId} {user password : String} {wall : UInt64} {accounts : Accounts}
      {q : PlayerId} (hl : s.accounts.login user password = .ok (accounts, q))
      (hn : s.roster.players.get? q = none)
      (hc : s.roster.pending.get? c = some { connection := c }) :
      Makes s (.receive (.authenticate user password) (.stream c) wall)
        ({ s with accounts, roster := s.roster.enroll c q user }, reply c (.setPlayer q))
  | readdresses {pl : Player} {address : Address} {wall : UInt64}
      (hp : s.roster.players.get? pl.id = some pl) (hid : pl.isAuthenticated) :
      Makes s (.receive (.probe pl.id) (.datagram address) wall) ({ s with
        roster := s.roster.amend { pl with address := some address }
        atlas := s.atlas.setAddress pl.id address }, [])
  | places {pl newcomer : Player} {address : Address} {wall : UInt64} {preferred : Option String}
      {world : String} {k : EntityId} (hp : s.roster.players.get? pl.id = some pl)
      (hid : pl.isAuthenticated) (hnew : newcomer = { pl with address := some address })
      (hs : s.atlas.Settles (s.atlas.step (.addPlayer newcomer preferred)).1 newcomer world k)
      (hl : ∃ before, (s.atlas.step (.addPlayer newcomer preferred)).2 =
        before ++ [Atlas.loading newcomer world]) :
      Makes s (.receive (.probe pl.id) (.datagram address) wall) ({ s with
        accounts := s.accounts.setWorld pl.id world
        roster := s.roster.amend { newcomer with world := some world }
        atlas := (s.atlas.step (.addPlayer newcomer preferred)).1 },
        (s.atlas.step (.addPlayer newcomer preferred)).2)
  | routes {pl : Player} {p : Packet} {source : Route} {wall : UInt64}
      (hp : s.roster.players.get? pl.id = some pl) : Makes s (.receive p source wall)
        ({ s with atlas := (s.atlas.step (.route pl.id p wall)).1 },
          (s.atlas.step (.route pl.id p wall)).2)
  | transfers {pl : Player} {world : String} {wall : UInt64} {k : EntityId}
      (hp : s.roster.players.get? pl.id = some pl) (hm : ∃ V, (s.atlas.member? V pl.id).isSome)
      (hs : s.atlas.Settles (s.atlas.step (.transfer pl world wall)).1 pl world k)
      (hl : ∃ before, (s.atlas.step (.transfer pl world wall)).2 =
        before ++ [Atlas.loading pl world]) :
      Makes s (.transfer pl.id world wall) ({ s with
        accounts := s.accounts.setWorld pl.id world
        roster := s.roster.amend { pl with world := some world }
        atlas := (s.atlas.step (.transfer pl world wall)).1 },
        (s.atlas.step (.transfer pl world wall)).2)
  | ticks (clock : Clock) : Makes s (.tick clock)
      ({ s with atlas := (s.atlas.step (.tick clock)).1 }, (s.atlas.step (.tick clock)).2)

section Inversion

variable {k : Packet} {source : Route} {wall : UInt64}

theorem makes_disconnect (h : s.Sound) (c : ConnectionId) (wall : UInt64) :
    s.Makes (.disconnect c wall) (s.disconnect c wall) := by
  unfold disconnect
  obtain ⟨hc, hr⟩ | ⟨pl, hp, rfl, hr⟩ | ⟨hc, hr⟩ := Roster.remove_cases h.roster c <;> rw [hr]
  · exact .abandons hc
  · have hmakes : s.Makes (.disconnect pl.connection wall) _ := .departs hp
    unfold without at hmakes
    dsimp only
    split
    · next ha =>
      rw [if_pos ha] at hmakes
      exact hmakes
    · next ha =>
      rw [if_neg ha] at hmakes
      exact hmakes
  · refine .nothing rfl fun c' he => ?_
    cases he
    exact hc

theorem uses_of_sender (h : s.Sound) (hv : k.isVital = true)
    (hs : s.roster.sender? k source = some pl) :
    source = .stream pl.connection ∧ s.roster.Uses pl.connection := by
  obtain ⟨-, c, rfl, rfl, ⟨-, hb⟩ | ⟨hp, -⟩⟩ | ⟨hv', -⟩ := Roster.sender?_eq_some h.roster hs
  · exact ⟨rfl, Or.inr (Option.isSome_of_eq_some hb)⟩
  · exact ⟨rfl, Or.inl (Option.isSome_of_eq_some hp)⟩
  · rw [hv] at hv'
    cases hv'

theorem player_of_sender (h : s.Sound) (hs : s.roster.sender? k source = some pl)
    (ha : pl.isAuthenticated = true) : s.roster.players.get? pl.id = some pl := by
  obtain ⟨-, c, -, -, ⟨hp, -⟩ | ⟨-, rfl⟩⟩ | ⟨-, -, hp⟩ := Roster.sender?_eq_some h.roster hs
  · exact hp
  · cases ha
  · exact hp

theorem makes_authenticate (h : s.Sound) (c : ConnectionId) (user password : String)
    (wall : UInt64) : s.Makes (.receive (.authenticate user password) (.stream c) wall)
      (s.authenticate c user password) := by
  unfold authenticate
  split
  · exact .nothing rfl nofun
  next accounts q hl =>
  dsimp only
  split
  · exact .registers hl
  next roster pl ha =>
  obtain ⟨hn, waiting, hw, rfl, rfl⟩ := Roster.authenticate_eq_ok ha
  obtain ⟨rfl, -⟩ := h.roster.waiting c waiting hw
  exact .enrolls hl hn hw

theorem insert_amend (r : Roster) (pl : Player) (world : Option String) :
    (r.amend pl).players.insert pl.id { pl with world } = (r.amend { pl with world }).players := by
  refine Table.ext_get? fun q => ?_
  simp only [Roster.amend, Table.get?_insert]
  split <;> rfl

theorem makes_place (h : s.Sound) (hv : s.atlas.Valid) (hp : s.roster.players.get? pl.id = some pl)
    (hid : pl.isAuthenticated) (hi : s.atlas.index.get? pl.id = none) {address : Address}
    {newcomer : Player} (hnew : newcomer = { pl with address := some address }) (wall : UInt64) :
    s.Makes (.receive (.probe pl.id) (.datagram address) wall)
      (({ s with roster := s.roster.amend newcomer } : Server).place newcomer.id) := by
  have hnid : newcomer.id = pl.id := by rw [hnew]
  let preferred := s.accounts.world? newcomer.id
  let world := s.atlas.placement preferred
  obtain ⟨out, henter, hout⟩ :=
    Atlas.addPlayer_of_none (p := newcomer) h.atlas (by rw [hnid, hi]) preferred
  have hstep : s.atlas.step (.addPlayer newcomer preferred) = (out.state, out.sent) := by
    simp only [Atlas.step, hout]
  have hs : s.atlas.Settles (s.atlas.step (.addPlayer newcomer preferred)).1 newcomer world
      out.value := by
    rw [hstep]
    exact (Atlas.addPlayer_eq_ok h.atlas hout).1
  have hl : ∃ before, (s.atlas.step (.addPlayer newcomer preferred)).2 =
      before ++ [Atlas.loading newcomer world] := by
    rw [hstep]
    exact Atlas.last_of_enter hv.filed henter
  have hmakes : s.Makes (.receive (.probe pl.id) (.datagram address) wall) _ :=
    .places hp hid hnew hs hl
  have hget : (s.roster.amend newcomer).players.get? newcomer.id = some newcomer :=
    Table.get?_insert_self ..
  rw [hstep, ← hnid] at hmakes
  unfold place Roster.get?
  rw [hget]
  dsimp only
  rw [hout]
  dsimp only
  rw [recordWorld_eq (s := { s with roster := s.roster.amend newcomer, atlas := out.state }) hget]
  dsimp only
  rw [insert_amend, ← hnid]
  exact hmakes

theorem makes_probe (h : s.Sound) (hv : s.atlas.Valid) (hp : s.roster.players.get? pl.id = some pl)
    (hid : pl.isAuthenticated) (source : Route) (wall : UInt64) :
    s.Makes (.receive (.probe pl.id) source wall) (s.probe pl.id source) := by
  unfold probe
  split
  · exact .nothing rfl nofun
  next address =>
  split
  · exact .nothing rfl nofun
  next roster changed hl =>
  obtain ⟨pl', hp', hroster⟩ := Roster.link_eq_ok hl
  obtain rfl : pl' = pl := Option.some.inj (hp'.symm.trans hp)
  dsimp only
  split
  · obtain ⟨-, rfl, rfl⟩ | ⟨rfl, rfl⟩ := hroster
    · exact .nothing rfl nofun
    · exact .readdresses hp hid
  next hi =>
  have hi := Option.not_isSome_iff_eq_none.mp hi
  let newcomer : Player := { pl' with address := some address }
  -- An address that is linked already is linked again.
  obtain rfl : roster = s.roster.amend newcomer := by
    obtain ⟨ha, rfl, -⟩ | ⟨rfl, -⟩ := hroster
    · have he : newcomer = pl' := by
        simp only [newcomer, ← ha]
      rw [he, Roster.amend, Table.insert_eq_self hp]
    · rfl
  exact makes_place h hv hp hid hi rfl wall

theorem makes_receive (h : s.Sound) (hv : s.atlas.Valid) (k : Packet) (source : Route)
    (wall : UInt64) : s.Makes (.receive k source wall) (s.receive k source wall) := by
  unfold receive
  split
  · exact .nothing rfl nofun
  next pl hs =>
  split
  · obtain ⟨rfl, hc⟩ := uses_of_sender h rfl hs
    exact .answers hc _
  · obtain ⟨rfl, hc⟩ := uses_of_sender h rfl hs
    split
    · exact .nothing rfl nofun
    · exact makes_authenticate h pl.connection _ _ wall
  · split
    · exact .nothing rfl nofun
    next ha =>
    have ha : pl.isAuthenticated = true := by simpa using ha
    have hp := player_of_sender h hs ha
    split
    · next q _ _ =>
      obtain ⟨hv, -⟩ | ⟨-, hq, -⟩ := Roster.sender?_eq_some h.roster hs
      · cases hv
      · obtain rfl : q = pl.id := Option.some.inj hq
        exact makes_probe h hv hp ha source wall
    · have hroutes : s.Makes (.receive k source wall) _ := .routes hp
      simp only [Atlas.step] at hroutes
      split
      · next hr =>
        rw [hr] at hroutes
        exact hroutes
      · next hr =>
        rw [hr] at hroutes
        exact hroutes

theorem makes_transfer (h : s.Sound) (hv : s.atlas.Valid) (q : PlayerId) (world : String)
    (wall : UInt64) : s.Makes (.transfer q world wall)
      ((s.transfer q world wall).state, (s.transfer q world wall).sent) := by
  cases hp : s.roster.players.get? q with
  | none =>
    have hget : s.roster.get? q = none := hp
    rw [transfer, hget]
    exact .nothing rfl (by simp [Event.ends?])
  | some pl =>
    rw [transfer_eq hp]
    obtain ⟨rfl, -⟩ := h.roster.placed q pl hp
    obtain ⟨err, ho⟩ | ⟨V, m, hm, ho, hs, -⟩ := Atlas.transfer_cases h.atlas pl world wall
    · rw [ho]
      exact .nothing rfl (by simp [Event.ends?])
    · have hW : (s.atlas.worlds.get? world).isSome := by
        by_contra hW
        have hW := Option.not_isSome_iff_eq_none.mp hW
        simp [Atlas.transfer, Table.contains_eq, hW] at ho
      have hhome : s.atlas.home? pl.id = some (V, m) :=
        Atlas.home?_eq_some_iff.mpr ⟨h.atlas.index_of_member hm, hm⟩
      obtain ⟨out, -, henter, ht⟩ := Atlas.transfer_of_home h.atlas hW hhome wall
      obtain ⟨before, hbefore⟩ :=
        Atlas.last_of_enter (hv.filed.removePlayer h.atlas pl.id wall) henter
      have hl : ∃ before, (s.atlas.step (.transfer pl world wall)).2 =
          before ++ [Atlas.loading pl world] :=
        ⟨(s.atlas.removePlayer pl.id wall).sent ++ before, by
          rw [Atlas.step, ht, hbefore, List.append_assoc]⟩
      have hmakes : s.Makes (.transfer pl.id world wall) _ :=
        .transfers hp ⟨V, Option.isSome_of_eq_some hm⟩ hs hl
      dsimp only
      rw [ho]
      dsimp only
      rw [recordWorld_eq (s := { s with atlas := (s.atlas.transfer pl world wall).state }) hp]
      exact hmakes

theorem makes_step (h : s.Sound) (hv : s.atlas.Valid) (e : Event) : s.Makes e (s.step e) := by
  cases e with
  | connect c => exact .connects c
  | disconnect c wall => exact makes_disconnect h c wall
  | receive k source wall => exact makes_receive h hv k source wall
  | transfer q world wall => exact makes_transfer h hv q world wall
  | tick clock => exact .ticks clock

end Inversion

section Validity

theorem atlas_makes (hm : s.Makes e out) :
    out.1.atlas = s.atlas ∨ ∃ ea, out.1.atlas = (s.atlas.step ea).1 := by
  cases hm with
  | nothing | connects | abandons | answers | registers | enrolls => exact Or.inl rfl
  | departs =>
    dsimp only [without]
    split
    · exact Or.inr ⟨_, rfl⟩
    · exact Or.inl rfl
  | @readdresses pl address => exact Or.inr ⟨.setAddress pl.id address, rfl⟩
  | places | routes | transfers | ticks => exact Or.inr ⟨_, rfl⟩

theorem valid_makes (h : s.atlas.Valid) (hm : s.Makes e out) : out.1.atlas.Valid := by
  obtain ha | ⟨ea, ha⟩ := atlas_makes hm <;> rw [ha]
  · exact h
  · exact h.step ea

theorem valid_of_run {ms : List (Moment Server Event)} (h : system.Run ms s) : s.atlas.Valid := by
  induction h with
  | start h =>
    obtain ⟨configs, starting, sync, atlas, accounts, ha, -, rfl⟩ := h
    exact Atlas.valid_of_create ha
  | @step ms s e h _ ih => exact valid_makes ih (makes_step (sound_of_run h).1 ih e)

end Validity

end Server

end SharedWorld
