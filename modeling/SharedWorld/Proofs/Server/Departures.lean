import SharedWorld.Proofs.Atlas.Owners
import SharedWorld.Proofs.Delivery
import SharedWorld.Proofs.Server.Acts
import SharedWorld.Proofs.Server.Consistency

/-! # Who is spoken to, and who is gone

A server only speaks to connections that are open, and to the addresses of players who are
logged in. Who leaves is forgotten everywhere at once, so nothing is sent to a connection when
it is lost or at any time after.
-/

namespace SharedWorld

namespace Server

variable {s s' : Server} {e : Event} {c : ConnectionId} {q : PlayerId} {pl : Player} {x : Envelope}
  {out : Server × List Envelope} {ms later past : List (Moment Server Event)}
  {l : Moment Server Event}

section Steadiness

def Fits (roster : Roster) (atlas : Atlas) : Prop :=
  ∀ W q m, atlas.member? W q = some m →
    q.isPlayer ∧ ∃ pl, roster.players.get? q = some pl ∧ m.Matches pl

/-- What holds in every state of a run. -/
structure Steady (s : Server) : Prop where
  sound : s.Sound
  valid : s.atlas.Valid
  owned : Atlas.Owned s.atlas.worlds
  fits : Fits s.roster s.atlas

theorem Fits.keeps {roster : Roster} {a a' : Atlas} (h : Fits roster a) (ha : a.Keeps a') :
    Fits roster a' :=
  fun W q m hm => h W q m (ha.member W q ▸ hm)

theorem Fits.enroll {roster : Roster} {a : Atlas} (h : Fits roster a)
    (hn : roster.players.get? q = none) (c : ConnectionId) (name : String) :
    Fits (roster.enroll c q name) a := by
  intro W q' m hm
  obtain ⟨hid, pl, hp, hmatch⟩ := h W q' m hm
  refine ⟨hid, pl, Table.get?_insert_eq_some_iff.mpr (Or.inr ⟨fun he => ?_, hp⟩), hmatch⟩
  rw [he, hn] at hp
  cases hp

theorem Fits.forget {roster : Roster} {a a' : Atlas} (h : Fits roster a)
    (ha : ∀ W q m, a'.member? W q = some m → q ≠ pl.id ∧ a.member? W q = some m) :
    Fits (roster.forget pl) a' := by
  intro W q m hm
  obtain ⟨hne, hm⟩ := ha W q m hm
  obtain ⟨hid, pl', hp, hmatch⟩ := h W q m hm
  exact ⟨hid, pl', Table.get?_erase_eq_some_iff.mpr ⟨hne, hp⟩, hmatch⟩

theorem Fits.amend {roster : Roster} {a a' : Atlas} (h : Fits roster a)
    (ha : ∀ W q m, a'.member? W q = some m →
      q = pl.id ∧ q.isPlayer ∧ m.Matches pl ∨ q ≠ pl.id ∧ a.member? W q = some m) :
    Fits (roster.amend pl) a' := by
  intro W q m hm
  obtain ⟨rfl, hid, hmatch⟩ | ⟨hne, hm⟩ := ha W q m hm
  · exact ⟨hid, pl, Table.get?_insert_self .., hmatch⟩
  · obtain ⟨hid, pl', hp, hmatch⟩ := h W q m hm
    exact ⟨hid, pl', Table.get?_insert_eq_some_iff.mpr (Or.inr ⟨hne, hp⟩), hmatch⟩

theorem Fits.settle {roster : Roster} {a a' : Atlas} (h : Fits roster a) {newcomer : Player}
    {world : String} {k : EntityId} (hid : newcomer.isAuthenticated)
    (ha : a.Settles a' newcomer world k) :
    Fits (roster.amend { newcomer with world := some world }) a' := by
  refine h.amend fun W q m hm => ?_
  rw [ha.member] at hm
  split at hm
  · next hq =>
    split at hm <;> cases hm
    exact Or.inl ⟨hq, hq ▸ hid, rfl, rfl, rfl, rfl⟩
  · next hne => exact Or.inr ⟨hne, hm⟩

theorem Steady.without (h : s.Steady) (pl : Player) (wall : UInt64) :
    s.atlas.Leaves (s.without pl wall).1 pl.id := by
  unfold Server.without
  split
  · exact (Atlas.leaves_removePlayer h.sound.atlas pl.id wall).1
  next hid =>
  have hn (W : String) : s.atlas.member? W pl.id = none :=
    Option.eq_none_iff_forall_ne_some.mpr fun m hm => hid (h.fits W pl.id m hm).1
  have hi : s.atlas.index.get? pl.id = none :=
    Option.eq_none_iff_forall_ne_some.mpr fun W hW => by
      obtain ⟨_, m, -, -, hm⟩ := h.sound.atlas.member_of_index hW
      rw [hn] at hm
      cases hm
  refine ⟨rfl, fun _ => rfl, (Table.erase_eq_self hi).symm, fun W q => ?_⟩
  split
  · next hq => rw [hq, hn]
  · rfl

theorem fits_makes (h : s.Steady) (hm : s.Makes e out) : Fits out.1.roster out.1.atlas := by
  cases hm with
  | nothing | connects | abandons | answers | registers => exact h.fits
  | @departs pl wall hp =>
    refine h.fits.forget fun W q m hm => ?_
    rw [(h.without pl wall).member] at hm
    split at hm
    · cases hm
    · next hne => exact ⟨hne, hm⟩
  | enrolls _ hn => exact h.fits.enroll hn _ _
  | @readdresses pl address _ hp hid =>
    refine h.fits.amend fun W q m hm => ?_
    rw [(Atlas.readdresses_setAddress h.sound.atlas pl.id address).1.member] at hm
    split at hm
    · next hq =>
      obtain ⟨m₀, hm₀, rfl⟩ := Option.map_eq_some_iff.mp hm
      obtain ⟨-, pl', hp', hmatch⟩ := h.fits W q m₀ hm₀
      rw [hq, hp] at hp'
      cases hp'
      exact Or.inl ⟨hq, hq ▸ hid, hmatch.player, hmatch.connection, hmatch.name, rfl⟩
    · next hne => exact Or.inr ⟨hne, hm⟩
  | places hp hid hnew hs _ =>
    subst hnew
    exact h.fits.settle hid hs
  | transfers hp hm hs _ =>
    obtain ⟨V, hm⟩ := hm
    obtain ⟨m, hm⟩ := Option.isSome_iff_exists.mp hm
    exact h.fits.settle (h.fits V _ m hm).1 hs
  | routes => exact h.fits.keeps (Atlas.keeps_step h.valid rfl nofun)
  | ticks => exact h.fits.keeps (Atlas.keeps_step h.valid rfl nofun)

theorem owned_makes (h : s.Steady) (hm : s.Makes e out) : Atlas.Owned out.1.atlas.worlds := by
  obtain ha | ⟨ea, ha⟩ := atlas_makes hm <;> rw [ha]
  · exact h.owned
  · exact h.owned.step h.sound.atlas ea

theorem steady_of_run (h : system.Run ms s) : s.Steady := by
  induction h with
  | start h =>
    have hs := sound_of_starts h
    obtain ⟨configs, starting, sync, atlas, accounts, ha, -, rfl⟩ := h
    refine ⟨hs, Atlas.valid_of_create ha, Atlas.owned_of_create ha, fun W q m hm => ?_⟩
    rw [(Atlas.vacant_of_create ha).1.2.2] at hm
    cases hm
  | @step ms s e h ha ih =>
    have hmakes := makes_step ih.sound ih.valid e
    exact ⟨(sound_of_run (.step e h ha)).1, valid_makes ih.valid hmakes, owned_makes ih hmakes,
      fits_makes ih hmakes⟩

end Steadiness

section Audience

/-- What a server may send in an event, and to whom. -/
inductive Tells (s s' : Server) : Envelope → Prop
  | answer {c : ConnectionId} (hc : s'.roster.Uses c) (user stored : String) :
      Tells s s' { target := .stream c, packet := .sendPassword user stored }
  | welcome {c : ConnectionId} {q : PlayerId} {name : String}
      (hp : s'.roster.players.get? q = some (Roster.newcomer c q name)) :
      Tells s s' { target := .stream c, packet := .setPlayer q }
  | news {V : String} {pl : Player} {m : Member} {x : Envelope}
      (hm : s.atlas.member? V pl.id = some m) (hid : pl.isAuthenticated) (hmatch : m.Matches pl)
      (hp : s.roster.players.get? pl.id = some pl) (hp' : s'.roster.players.get? pl.id = some pl)
      (hx : m.Gets x) (hn : x.packet.NewsOf V) : Tells s s' x
  | load {q : PlayerId} {pl : Player} {V : String} (hp : s'.roster.players.get? q = some pl)
      (hV : (s.atlas.worlds.get? V).isSome) : Tells s s' (Atlas.loading pl V)

theorem Steady.tells (h : s.Steady) {ea : Atlas.Event} (hx : x ∈ (s.atlas.step ea).2)
    (hkeep : ∀ q pl, ea.moves? ≠ some q → s.roster.players.get? q = some pl →
      s'.roster.players.get? q = some pl)
    (hload : ∀ p, ea.enters? = some p →
      ∃ q pl, s'.roster.players.get? q = some pl ∧ pl.connection = p.connection) :
    s.Tells s' x := by
  cases Atlas.informs_step h.valid hx with
  | @news V q m _ hm hq hget hn =>
    obtain ⟨hid, pl, hp, hmatch⟩ := h.fits V q m hm
    obtain ⟨rfl, -⟩ := h.sound.roster.placed q pl hp
    exact .news hm hid hmatch hp (hkeep pl.id pl hq hp) hget hn
  | @load p V he hV =>
    obtain ⟨q, pl, hp, hc⟩ := hload p he
    have hload : Atlas.loading p V = Atlas.loading pl V := by
      rw [Atlas.loading, Atlas.loading, hc]
    rw [hload]
    exact .load hp hV

theorem tells_makes (h : s.Steady) (hm : s.Makes e out) (hx : x ∈ out.2) :
    s.Tells out.1 x := by
  cases hm with
  | nothing | connects | abandons | registers | readdresses => cases hx
  | answers hc stored =>
    rw [List.mem_singleton.mp hx]
    exact .answer hc _ stored
  | enrolls hl hn hc =>
    rw [List.mem_singleton.mp hx]
    exact .welcome (Table.get?_insert_self ..)
  | @departs pl wall hp =>
    unfold Server.without at hx
    split at hx
    · refine h.tells hx (fun q pl' hq hp' => ?_) nofun
      exact Table.get?_erase_eq_some_iff.mpr ⟨fun he => hq (congrArg some he.symm), hp'⟩
    · cases hx
  | @places pl newcomer _ _ _ world _ hp hid hnew =>
    subst hnew
    refine h.tells hx (fun q pl' hq hp' => ?_) fun p he => ?_
    · refine Table.get?_insert_eq_some_iff.mpr (Or.inr ⟨fun he => hq ?_, hp'⟩)
      rw [he]
      rfl
    · cases he
      exact ⟨_, _, Table.get?_insert_self .., rfl⟩
  | routes hp => exact h.tells hx (fun _ _ _ hp' => hp') nofun
  | transfers =>
    refine h.tells hx (fun q pl' hq hp' => ?_) fun p he => ?_
    · refine Table.get?_insert_eq_some_iff.mpr (Or.inr ⟨fun he => hq ?_, hp'⟩)
      rw [he]
      rfl
    · cases he
      exact ⟨_, _, Table.get?_insert_self .., rfl⟩
  | ticks => exact h.tells hx (fun _ _ _ hp' => hp') nofun

end Audience

section Departure

/-- The connection has been added and has not been removed since. -/
def Open (c : ConnectionId) : List (Moment Server Event) → Prop
  | [] => False
  | m :: ms => m.event.connects? = some c ∨ Open c ms ∧ m.event.ends? ≠ some c

theorem uses_makes (h : s.Steady) (hm : s.Makes e out) (c : ConnectionId) :
    out.1.roster.Uses c ↔ e.connects? = some c ∨ s.roster.Uses c ∧ e.ends? ≠ some c := by
  cases hm with
  | nothing hc he =>
    simp only [hc, reduceCtorEq, false_or]
    exact ⟨fun hu => ⟨hu, fun hends => he c hends hu⟩, And.left⟩
  | connects c' =>
    rw [connect, Roster.uses_addPending_iff]
    simp [Event.connects?, Event.ends?, eq_comm]
  | abandons hc =>
    rw [Roster.uses_abandon_iff h.sound.roster hc]
    simp [Event.connects?, Event.ends?, eq_comm, and_comm]
  | departs hp =>
    rw [Roster.uses_forget_iff h.sound.roster hp]
    simp [Event.connects?, Event.ends?, eq_comm, and_comm]
  | enrolls hl hn hc =>
    rw [Roster.uses_enroll_iff hc]
    simp [Event.connects?, Event.ends?]
  | _ => simp [Event.connects?, Event.ends?, Roster.Uses, Roster.amend]

theorem uses_iff_open (h : system.Run ms s) (c : ConnectionId) :
    s.roster.Uses c ↔ Open c ms := by
  induction h with
  | start h =>
    obtain ⟨configs, starting, sync, atlas, accounts, -, -, rfl⟩ := h
    simp [Roster.Uses, Open]
  | @step ms s e h _ ih =>
    have hs := steady_of_run h
    have huses := uses_makes hs (makes_step hs.sound hs.valid e) c
    rw [ih] at huses
    exact huses

/-- Whoever is spoken to on a stream has it open, and whoever is spoken to at an address is
logged in and has that address. -/
theorem tells_present (h : system.Run (later ++ l :: past) s) (hx : x ∈ system.sent l) :
    (∃ c, x.target = .stream c ∧ Open c (l :: past)) ∨
      ∃ a pl, x.target = .datagram a ∧ pl.isAuthenticated ∧ pl.address = some a ∧
        l.state.roster.get? pl.id = some pl ∧
        (system.step l.state l.event).1.roster.get? pl.id = some pl := by
  obtain ⟨hpast, ha⟩ := h.past
  have hs := steady_of_run hpast
  have hnext : system.Run (l :: past) (system.step l.state l.event).1 := .step l.event hpast ha
  have hs' := (steady_of_run hnext).sound.roster
  have hopen {c : ConnectionId} (hc : (system.step l.state l.event).1.roster.Uses c) :
      Open c (l :: past) :=
    (uses_iff_open hnext c).mp hc
  cases tells_makes hs (makes_step hs.sound hs.valid l.event) hx with
  | @answer c hc => exact Or.inl ⟨c, rfl, hopen hc⟩
  | @welcome c q name hp => exact Or.inl ⟨c, rfl, hopen (hs'.uses hp)⟩
  | @news V pl m _ hm hid hmatch hp hp' hget _ =>
    obtain ht | ⟨a, ha, ht⟩ := hget
    · rw [hmatch.connection] at ht
      exact Or.inl ⟨pl.connection, ht, hopen (hs'.uses hp')⟩
    · exact Or.inr ⟨a, pl, ht, hid, hmatch.address ▸ ha, hp, hp'⟩
  | @load q pl V hp => exact Or.inl ⟨pl.connection, rfl, hopen (hs'.uses hp)⟩

theorem not_open_of_ends (h : system.Run (later ++ l :: past) s)
    (hc : ∃ m ∈ past, m.event.connects? = some c) (hl : l.event.connects? = none)
    (he : l.event.ends? = some c) : ¬ Open c (later ++ l :: past) := by
  induction later generalizing s with
  | nil =>
    rintro (ho | ⟨-, ho⟩)
    · rw [hl] at ho
      cases ho
    · exact ho he
  | cons m later ih =>
    cases h with
    | step e h ha =>
    rintro (ho | ⟨ho, -⟩)
    · -- A connection is added once only.
      obtain ⟨m', hm', hc⟩ := hc
      refine ha c ho m' (List.mem_append_right _ (List.mem_cons_of_mem _ hm')) hc
    · exact ih h ho

theorem ne_stream_of_ends (h : system.Run (later ++ l :: past) s)
    (hc : ∃ m ∈ past, m.event.connects? = some c) (hl : l.event.connects? = none)
    (he : l.event.ends? = some c) {m : Moment Server Event} (hm : m ∈ later ++ [l])
    (hx : x ∈ system.sent m) : x.target ≠ .stream c := by
  intro ht
  have hsplit : ∃ before between mid, later ++ l :: past = before ++ m :: between ∧
      m :: between = mid ++ l :: past := by
    rcases List.mem_append.mp hm with hm | hm
    · obtain ⟨before, mid, rfl⟩ := List.append_of_mem hm
      exact ⟨before, mid ++ l :: past, m :: mid, by simp, by simp⟩
    · obtain rfl := List.mem_singleton.mp hm
      exact ⟨later, past, [], rfl, rfl⟩
  obtain ⟨before, between, mid, hms, hmid⟩ := hsplit
  rw [hms] at h
  have hrun : system.Run (m :: between) (system.step m.state m.event).1 :=
    .step m.event h.past.1 h.past.2
  obtain ⟨c', hc', ho⟩ | ⟨a, _, ha, -⟩ := tells_present h hx
  · rw [ht] at hc'
    cases hc'
    rw [hmid] at hrun ho
    exact not_open_of_ends hrun hc hl he ho
  · rw [ht] at ha
    cases ha

structure Forgets (s : Server) (q : PlayerId) : Prop where
  players : s.roster.players.get? q = none
  connections : ∀ c, s.roster.byConnection.get? c ≠ some q
  pending : ∀ c pl, s.roster.pending.get? c = some pl → pl.id.isPlayer → pl.id ≠ q
  index : s.atlas.index.get? q = none
  members : ∀ W, s.atlas.member? W q = none
  characters : ∀ W w k ch, s.atlas.worlds.get? W = some w → w.characters.get? k = some ch →
    ch.presence.player.isPlayer → ch.presence.player ≠ q

theorem Steady.forgets (h : s.Steady) (hp : s.roster.players.get? q = none) : s.Forgets q := by
  have hm (W : String) : s.atlas.member? W q = none := by
    refine Option.eq_none_iff_forall_ne_some.mpr fun m hm => ?_
    obtain ⟨-, pl, hp', -⟩ := h.fits W q m hm
    rw [hp] at hp'
    cases hp'
  refine ⟨hp, fun c hb => ?_, fun c pl hw hid => ?_, ?_, hm, fun W w k ch hw hk => ?_⟩
  · obtain ⟨pl, hp', -⟩ := h.sound.roster.held c q hb
    rw [hp] at hp'
    cases hp'
  · rw [(h.sound.roster.waiting c pl hw).1] at hid
    cases hid
  · refine Option.eq_none_iff_forall_ne_some.mpr fun W hW => ?_
    obtain ⟨_, m, -, -, hm'⟩ := h.sound.atlas.member_of_index hW
    rw [hm] at hm'
    cases hm'
  · exact h.owned.not_mem hm hw hk

theorem players_of_disconnect (h : s.Steady) {wall : UInt64}
    (hp : s.roster.onConnection? c = some pl) :
    (s.step (.disconnect c wall)).1.roster.players.get? pl.id = none := by
  obtain ⟨q, hb, hp⟩ := Option.bind_eq_some_iff.mp hp
  obtain ⟨rfl, -⟩ := h.sound.roster.placed q pl hp
  have hmakes := makes_step h.sound h.valid (.disconnect c wall)
  generalize s.step (.disconnect c wall) = out at hmakes
  cases hmakes with
  | nothing hc he => exact absurd (Or.inr (Option.isSome_of_eq_some hb)) (he c rfl)
  | abandons hc =>
    rw [(h.sound.roster.waiting c _ hc).2] at hb
    cases hb
  | @departs pl' _ hp' =>
    rw [(h.sound.roster.placed _ _ hp').2] at hb
    exact (Table.get?_erase ..).trans (if_pos (Option.some.inj hb).symm)

/-- Whatever is sent in an event goes to a connection that is open after it, or to the address
that a player has who is logged in. So nothing is sent to a connection when it is lost or at
any time after, and the player who was on it is forgotten in every table. -/
theorem silent_after_disconnect (h : system.Run (later ++ l :: past) s) :
    let s' := (system.step l.state l.event).1
    (∀ x ∈ system.sent l, (∃ c, x.target = .stream c ∧ Open c (l :: past)) ∨
        ∃ a pl, x.target = .datagram a ∧ pl.isAuthenticated ∧ pl.address = some a ∧
          l.state.roster.get? pl.id = some pl ∧ s'.roster.get? pl.id = some pl) ∧
      ∀ c wall, l.event = .disconnect c wall →
        ((∃ m ∈ past, m.event.connects? = some c) →
            ∀ m ∈ later ++ [l], ∀ x ∈ system.sent m, x.target ≠ .stream c) ∧
          ¬ s'.roster.Uses c ∧
          ∀ pl, l.state.roster.onConnection? c = some pl → s'.Forgets pl.id := by
  obtain ⟨hpast, ha⟩ := h.past
  have hs := steady_of_run hpast
  have hnext : system.Run (l :: past) (system.step l.state l.event).1 := .step l.event hpast ha
  refine ⟨fun x hx => tells_present h hx, fun c wall he => ⟨fun hc m hm x hx => ?_, ?_,
    fun pl hp => ?_⟩⟩
  · refine ne_stream_of_ends h hc ?_ ?_ hm hx <;> rw [he] <;> rfl
  · have huses := uses_makes hs (makes_step hs.sound hs.valid l.event) c
    rw [he] at huses ⊢
    intro hu
    obtain ho | ⟨-, ho⟩ := huses.mp hu
    · cases ho
    · exact ho rfl
  · refine (steady_of_run hnext).forgets ?_
    rw [he]
    exact players_of_disconnect hs hp

theorem silent_after_disconnect_comings : ∃ later l past, comings.1 = later ++ l :: past ∧
    l.event = .disconnect ⟨2⟩ 0 ∧ (l.state.roster.onConnection? ⟨2⟩).map (·.name) = some "bob" ∧
      (∀ m ∈ later ++ [l], ∀ x ∈ system.sent m, x.target ≠ .stream ⟨2⟩) ∧
      (system.step l.state l.event).1.Forgets ⟨2⟩ := by
  obtain ⟨later, l, past, hms, he, hp, hc⟩ : ∃ later l past, comings.1 = later ++ l :: past ∧
      l.event = .disconnect ⟨2⟩ 0 ∧ (l.state.roster.onConnection? ⟨2⟩).map (fun pl =>
        (pl.id, pl.name)) = some (⟨2⟩, "bob") ∧ ∃ m ∈ past, m.event.connects? = some ⟨2⟩ := by
    exact ⟨[_], _, _, rfl, rfl, by decide +kernel, _,
      .tail _ (.tail _ (.tail _ (.tail _ (.head _)))), rfl⟩
  obtain ⟨pl, hpl, hname⟩ := Option.map_eq_some_iff.mp hp
  obtain ⟨hid, hname⟩ := Prod.mk.inj hname
  have h : system.Run (later ++ l :: past) comings.2 := hms ▸ run_comings
  obtain ⟨hsilent, -, hforgets⟩ := (silent_after_disconnect h).2 ⟨2⟩ 0 he
  exact ⟨later, l, past, hms, he, by rw [hpl, Option.map_some, hname], hsilent hc,
    hid ▸ hforgets pl hpl⟩

end Departure

end Server

end SharedWorld
