import SharedWorld.Proofs.Atlas.Transfer
import SharedWorld.Proofs.Server.Departures

/-! # A transfer happens as a whole or not at all

Whoever is in a world is on the roster, and whoever is on the roster has an account, however many
accounts there are. So once a player has been taken out of its world, it can be let into the other
one, and both records of it can be written.
-/

namespace SharedWorld

namespace Server

variable {s s' : Server} {e : Event} {q : PlayerId} {pl : Player} {V W : String} {m : Member}
  {out : Server × List Envelope} {ms : List (Moment Server Event)} {wall : UInt64}

section Records

/-- The players on the roster have accounts. -/
structure Recorded (s : Server) : Prop where
  accounts : s.accounts.Closed
  known : ∀ q, (s.roster.players.get? q).isSome → (s.accounts.names.get? q).isSome

theorem Recorded.amend (h : s.Recorded) (hp : s.roster.players.get? pl.id = some pl)
    {settled : Player} (hid : settled.id = pl.id) :
    ∀ q, ((s.roster.amend settled).players.get? q).isSome →
      (s.accounts.names.get? q).isSome := by
  intro q hq
  rw [Roster.amend, Table.get?_insert, hid] at hq
  split at hq
  · next he =>
    rw [he]
    exact h.known _ (Option.isSome_of_eq_some hp)
  · exact h.known q hq

theorem Recorded.makes (h : s.Recorded) (hm : s.Makes e out) : out.1.Recorded := by
  cases hm with
  | nothing | connects | abandons | answers | routes | ticks => exact ⟨h.accounts, h.known⟩
  | departs => exact ⟨h.accounts, fun q hq => h.known q (Table.isSome_of_erase hq)⟩
  | registers hl =>
    exact ⟨h.accounts.login hl, fun q hq => Accounts.isSome_names_login hl (h.known q hq)⟩
  | enrolls hl =>
    refine ⟨h.accounts.login hl, fun q hq => ?_⟩
    simp only [Roster.enroll, Table.get?_insert] at hq
    split at hq
    · next he =>
      rw [he]
      exact h.accounts.isSome_names hl
    · exact Accounts.isSome_names_login hl (h.known q hq)
  | readdresses hp => exact ⟨h.accounts, h.amend hp rfl⟩
  | @places _ _ _ _ _ world _ hp _ hnew =>
    subst hnew
    refine ⟨h.accounts.setWorld _ world, ?_⟩
    rw [Accounts.names_setWorld]
    exact h.amend hp rfl
  | @transfers _ world _ _ hp =>
    refine ⟨h.accounts.setWorld _ world, ?_⟩
    rw [Accounts.names_setWorld]
    exact h.amend hp rfl

theorem recorded_of_run (h : system.Run ms s) : s.Recorded := by
  induction h with
  | start h =>
    obtain ⟨configs, starting, sync, atlas, accounts, -, ha, rfl⟩ := h
    exact ⟨Accounts.closed_of_reached ha, nofun⟩
  | step e h _ ih =>
    have hs := steady_of_run h
    exact ih.makes (makes_step hs.sound hs.valid e)

theorem atlas_of_run (h : system.Run ms s) : ∃ ms', Atlas.system.Run ms' s.atlas := by
  induction h with
  | start h =>
    obtain ⟨configs, starting, sync, atlas, accounts, ha, -, rfl⟩ := h
    exact ⟨[], .start ⟨configs, starting, sync, ha⟩⟩
  | @step ms s e h _ ih =>
    obtain ⟨ms', ih⟩ := ih
    have hs := steady_of_run h
    have hmakes : s.Makes e (system.step s e) := makes_step hs.sound hs.valid e
    obtain ha | ⟨ea, ha⟩ := atlas_makes hmakes <;> rw [ha]
    · exact ⟨ms', ih⟩
    · exact ⟨_, .step ea ih trivial⟩

end Records

/-- A player has been sent to a world. It was in some world before, and is there now with the same
character and name, and nowhere else. Its old world has nothing of it, the roster, the accounts
and the index say where it is, and everything else is as it was. -/
structure Moved (s s' : Server) (q : PlayerId) (V W : String) (m : Member) : Prop where
  before : s.atlas.member? V q = some m
  after : ∃ m', s'.atlas.member? W q = some m' ∧ m'.character = m.character ∧ m'.name = m.name
  elsewhere : ∀ U, U ≠ W → s'.atlas.member? U q = none
  arrived : ∃ w ch, s'.atlas.worlds.get? W = some w ∧ w.characters.get? m.character = some ch ∧
    ch.presence.entity = m.character ∧ ch.presence.player = q
  left : V ≠ W → ∀ v, s'.atlas.worlds.get? V = some v → ¬ v.Live m.character
  roster : ∃ pl, s.roster.get? q = some pl ∧
    s'.roster = s.roster.amend { pl with world := some W }
  accounts : s'.accounts = s.accounts.setWorld q W ∧ s'.accounts.world? q = some W
  index : s'.atlas.index = s.atlas.index.insert q W
  others : ∀ U, U ≠ V → U ≠ W → s'.atlas.worlds.get? U = s.atlas.worlds.get? U
  alike : ∀ U w, s.atlas.worlds.get? U = some w →
    ∃ w', s'.atlas.worlds.get? U = some w' ∧ w.AlikeBut q m.character w'
  /-- While the numbers of entities last, the character replaces none. -/
  vacant : s.atlas.ids.next ≤ UInt32.size → V ≠ W →
    ∀ w, s.atlas.worlds.get? W = some w → ¬ w.Live m.character

theorem transfer_refused (h : s.Sound) (wall : UInt64) (hn : s.roster.get? q = none ∨
    s.atlas.worlds.get? W = none ∨ ∀ V, s.atlas.member? V q = none) :
    ∃ e, s.transfer q W wall = ⟨s, [], .error e⟩ := by
  unfold transfer
  cases hp : s.roster.get? q with
  | none => exact ⟨_, rfl⟩
  | some pl =>
    obtain ⟨rfl, -⟩ := h.roster.placed q pl hp
    obtain ⟨e, he⟩ := Atlas.transfer_refuses h.atlas wall (hn.resolve_left (by simp [hp]))
    simp [he]

theorem transfer_of_member (h : s.Sound) (hp : s.roster.get? pl.id = some pl)
    (hW : (s.atlas.worlds.get? W).isSome) (hm : s.atlas.member? V pl.id = some m)
    (wall : UInt64) :
    s.transfer pl.id W wall = {
      state := {
        atlas := (s.atlas.transfer pl W wall).state
        roster := s.roster.amend { pl with world := some W }
        accounts := s.accounts.setWorld pl.id W }
      sent := (s.atlas.transfer pl W wall).sent
      value := .ok m.character } := by
  obtain ⟨hv, -⟩ := Atlas.value_transfer h.atlas hW hm wall
  rw [transfer_eq hp]
  simp only [hv]
  rw [recordWorld_eq (s := { s with atlas := (s.atlas.transfer pl W wall).state }) hp]
  rfl

theorem moved_transfer (h : system.Run ms s) (hp : s.roster.get? pl.id = some pl)
    (hW : (s.atlas.worlds.get? W).isSome) (hm : s.atlas.member? V pl.id = some m)
    (wall : UInt64) : s.Moved (s.transfer pl.id W wall).state pl.id V W m := by
  have hs := steady_of_run h
  have hr := recorded_of_run h
  have hmoves := Atlas.moves_transfer hs.sound.atlas hW hm wall
  obtain ⟨-, pl', hp', hmatch⟩ := hs.fits V pl.id m hm
  obtain rfl : pl' = pl := Option.some.inj (hp'.symm.trans hp)
  rw [transfer_of_member hs.sound hp hW hm wall]
  constructor
  case before => exact hm
  case after =>
    refine ⟨World.memberOf pl' m.character, ?_, rfl, hmatch.name.symm⟩
    simp [hmoves.settles.member]
  case elsewhere =>
    intro U hU
    simp [hmoves.settles.member, hU]
  case arrived =>
    obtain ⟨w, hw, hk⟩ := hmoves.arrived
    exact ⟨w, _, hw, hk, rfl, rfl⟩
  case left => exact hmoves.left
  case roster => exact ⟨pl', hp, rfl⟩
  case accounts =>
    exact ⟨rfl, hr.accounts.world?_setWorld_self (hr.known _ (Option.isSome_of_eq_some hp))⟩
  case index => exact hmoves.settles.index
  case others => exact hmoves.others
  case alike => exact hmoves.alike
  case vacant =>
    intro hids hne w hw hk
    obtain ⟨ms', hatlas⟩ := atlas_of_run h
    have hn := Atlas.numbered_of_run hatlas hids
    obtain ⟨v, hv, hvm⟩ := Option.bind_eq_some_iff.mp hm
    obtain ⟨ch, hch, -⟩ := hn.homed hv _ _ hvm
    exact hne (hn.apart hv hw (Or.inr (Option.isSome_of_eq_some hch)) (Or.inr hk))

/-- In every state that a server reaches, a transfer fails just when nobody is to be sent, or from
nowhere or to nowhere. It then leaves everything as it was and sends nothing. Otherwise it moves
the player, and nothing else. -/
theorem transfer_all_or_nothing (h : system.Run ms s) (q : PlayerId) (W : String)
    (wall : UInt64) :
    let out := s.transfer q W wall
    ((∃ e, out.value = .error e) ↔ s.roster.get? q = none ∨ s.atlas.worlds.get? W = none ∨
        ∀ V, s.atlas.member? V q = none) ∧
      (∀ e, out.value = .error e → out.state = s ∧ out.sent = []) ∧
      ∀ k, out.value = .ok k → ∃ V m, m.character = k ∧ s.Moved out.state q V W m := by
  intro out
  have hs := (steady_of_run h).sound
  by_cases hn : s.roster.get? q = none ∨ s.atlas.worlds.get? W = none ∨
      ∀ V, s.atlas.member? V q = none
  · obtain ⟨e, he⟩ : ∃ e, out = ⟨s, [], .error e⟩ := transfer_refused hs wall hn
    rw [he]
    exact ⟨⟨fun _ => hn, fun _ => ⟨e, rfl⟩⟩, fun _ _ => ⟨rfl, rfl⟩, nofun⟩
  · simp only [not_or, not_forall] at hn
    obtain ⟨hp, hW, V, hm⟩ := hn
    obtain ⟨pl, hp⟩ := Option.ne_none_iff_exists'.mp hp
    obtain ⟨rfl, -⟩ := hs.roster.placed q pl hp
    obtain ⟨m, hm⟩ := Option.ne_none_iff_exists'.mp hm
    have hW := Option.isSome_iff_ne_none.mpr hW
    have hv : out.value = .ok m.character :=
      congrArg Step.value (transfer_of_member hs hp hW hm wall)
    rw [hv]
    refine ⟨⟨nofun, ?_⟩, nofun, ?_⟩
    · rintro (hn | hn | hn)
      · simp [hn] at hp
      · simp [hn] at hW
      · simp [hn V] at hm
    · rintro k ⟨⟩
      exact ⟨V, m, rfl, moved_transfer h hp hW hm wall⟩

theorem transfer_all_or_nothing_comings :
    (∃ V m, m.character = ⟨3⟩ ∧
        comings.2.Moved (comings.2.transfer ⟨1⟩ "farm" 7).state ⟨1⟩ V "farm" m) ∧
      (comings.2.transfer ⟨2⟩ "farm" 7).state = comings.2 ∧
      (comings.2.transfer ⟨1⟩ "moon" 7).sent = [] := by
  obtain ⟨-, -, hfarm⟩ := transfer_all_or_nothing run_comings ⟨1⟩ "farm" 7
  obtain ⟨hbob, hgone, -⟩ := transfer_all_or_nothing run_comings ⟨2⟩ "farm" 7
  obtain ⟨hmoon, hnowhere, -⟩ := transfer_all_or_nothing run_comings ⟨1⟩ "moon" 7
  refine ⟨hfarm ⟨3⟩ ?_, ?_, ?_⟩
  · decide +kernel
  · obtain ⟨e, he⟩ := hbob.mpr (Or.inl (by decide +kernel))
    exact (hgone e he).1
  · have hW : (comings.2.atlas.worlds.get? "moon").isSome = false := by decide +kernel
    obtain ⟨e, he⟩ := hmoon.mpr (Or.inr (Or.inl (by simpa using hW)))
    exact (hnowhere e he).2

end Server

end SharedWorld
