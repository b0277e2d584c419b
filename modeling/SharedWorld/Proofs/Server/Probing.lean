import SharedWorld.Proofs.Server.Loading
import SharedWorld.Proofs.Server.Transfer

/-! # What probes bring about

A client repeats its probe until it is heard. The first probe puts its player into a world, and
one from a new address tells the roster and the world of it. After that the same probe changes
nothing, so a client is told to load a world just as often as its player is put into one.
-/

namespace SharedWorld

namespace System

variable {σ ε : Type} {S : System σ ε} {s : σ}

/-- Events that change nothing and send nothing may come in any number. -/
theorem play_of_still {es : List ε} (h : ∀ e ∈ es, S.step s e = (s, [])) :
    (S.play [] s es).2 = s ∧ S.sentAll (S.play [] s es).1 = [] := by
  have hplay : (S.play [] s es).2 = s ∧ ∀ m ∈ (S.play [] s es).1, S.sent m = [] := by
    induction es with
    | nil => exact ⟨rfl, List.forall_mem_nil _⟩
    | cons e es ih =>
      obtain ⟨he, hes⟩ := List.forall_mem_cons.mp h
      obtain ⟨hstate, hsent⟩ := ih hes
      rw [play, he, play_append]
      refine ⟨hstate, fun m hm => ?_⟩
      rcases List.mem_append.mp hm with hm | hm
      · exact hsent m hm
      · rw [List.mem_singleton.mp hm, sent, he]
  refine ⟨hplay.1, List.eq_nil_iff_forall_not_mem.mpr fun x hx => ?_⟩
  obtain ⟨m, hm, hx⟩ := mem_sentAll_iff.mp hx
  simp [hplay.2 m hm] at hx

end System

def loads (told : List Envelope) : List String := told.filterMap (·.packet.loads?)

@[simp] theorem loads_append (xs ys : List Envelope) : loads (xs ++ ys) = loads xs ++ loads ys :=
  List.filterMap_append ..

theorem loads_eq_nil_iff {xs : List Envelope} :
    loads xs = [] ↔ ∀ x ∈ xs, x.packet.loads? = none :=
  List.filterMap_eq_nil_iff

namespace World

theorem loads_sendDetails (w : World) (k : EntityId) : loads (w.sendDetails k) = [] := by
  refine loads_eq_nil_iff.mpr fun x hx => ?_
  unfold sendDetails at hx
  split at hx
  · cases hx
  · rw [(eq_of_mem_sendAll hx).1]
    rfl

end World

namespace Atlas

variable {a : Atlas} {p : Player} {V W : String} {m : Member}

theorem loads_enter (hf : Filed a.worlds) {entity : Option EntityId} {s : Step Atlas EntityId}
    (h : a.enter p W entity = .ok s) : loads s.sent = [W] := by
  unfold enter at h
  split at h
  · cases h
  next w hw =>
  obtain ⟨s₁, h₁, ho⟩ := Except.bind_eq_ok_iff.mp h
  cases ho
  rw [World.sent_addPlayer h₁, loads_append, hf.name hw, World.insertCharacter,
    World.loads_sendDetails]
  rfl

theorem loads_of_stays (h : a.Valid) {e : Event} (he : e.enters? = none) :
    loads (a.step e).2 = [] :=
  loads_eq_nil_iff.mpr fun _ hx =>
    Packet.loads?_of_not_isOrder (Packet.isOrder_of_isNews (Server.isNews_of_stays h he hx))

theorem loads_addPlayer (h : a.Valid) (hi : a.index.get? p.id = none)
    (preferred : Option String) :
    loads (a.step (.addPlayer p preferred)).2 = [a.placement preferred] := by
  obtain ⟨s, henter, hs⟩ := addPlayer_of_none h.sound hi preferred
  simp [step, hs, loads_enter h.filed henter]

theorem loads_transfer (h : a.Valid) (hW : (a.worlds.get? W).isSome)
    (hm : a.member? V p.id = some m) (wall : UInt64) :
    loads (a.transfer p W wall).sent = [W] := by
  have hh : a.home? p.id = some (V, m) :=
    home?_eq_some_iff.mpr ⟨h.sound.index_of_member hm, hm⟩
  obtain ⟨s, -, henter, ht⟩ := transfer_of_home h.sound hW hh wall
  have hleft : loads (a.removePlayer p.id wall).sent = [] :=
    loads_of_stays h (e := .removePlayer p.id wall) rfl
  rw [ht, loads_append, hleft, loads_enter (h.filed.removePlayer h.sound p.id wall) henter]
  rfl

theorem loads_onStream (h : a.Valid) {e : Event} (he : e.enters? = some p)
    (c : ConnectionId) : loads (onStream c (a.step e).2) =
      if p.connection = c then loads (a.step e).2 else [] := by
  have hload {x : Envelope} (hx : x ∈ (a.step e).2) :
      x.packet.loads? = none ∨ x.target = .stream p.connection := by
    obtain hn | ⟨V, rfl⟩ := Server.isNews_or_loading h he hx
    · exact Or.inl (Packet.loads?_of_not_isOrder (Packet.isOrder_of_isNews hn))
    · exact Or.inr rfl
  split
  · next hc =>
    subst hc
    rw [loads, loads, onStream, List.filterMap_filter]
    refine List.filterMap_congr fun x hx => ?_
    obtain hn | ht := hload hx
    · simp [hn]
    · simp [ht]
  · next hc =>
    refine loads_eq_nil_iff.mpr fun x hx => ?_
    obtain ⟨hx, ht⟩ := mem_onStream_iff.mp hx
    refine (hload hx).resolve_right fun ht' => hc ?_
    exact Route.stream.inj (ht'.symm.trans ht)

end Atlas

namespace Server

variable {s : Server} {e : Event} {c : ConnectionId} {q : PlayerId} {pl : Player} {a : Address}
  {W : String} {wall : UInt64} {out : Server × List Envelope} {ms : List (Moment Server Event)}

section Repeats

/-- Where a probe finds its player, or puts it: where it is, or else in the world that is
remembered, if there is one, or else in the starting world. -/
inductive Lands (s : Server) (q : PlayerId) : String → Prop
  | stays {W : String} (hi : s.atlas.index.get? q = some W) : Lands s q W
  | returns {W : String} (hi : s.atlas.index.get? q = none) (hr : s.accounts.world? q = some W)
      (hW : (s.atlas.worlds.get? W).isSome) : Lands s q W
  | starts (hi : s.atlas.index.get? q = none)
      (hr : ∀ W, s.accounts.world? q = some W → s.atlas.worlds.get? W = none) :
      Lands s q s.atlas.starting

/-- Nothing is left to do for a probe from this address. -/
def Settled (s : Server) (q : PlayerId) (a : Address) : Prop :=
  ∀ pl, s.roster.get? q = some pl → pl.isAuthenticated →
    pl.address = some a ∧ (s.atlas.index.get? q).isSome

theorem link_of_get? {r : Roster} (hp : r.players.get? pl.id = some pl) (a : Address) :
    r.link pl.id a =
      .ok (r.amend { pl with address := some a }, decide (pl.address ≠ some a)) := by
  unfold Roster.link Roster.get?
  rw [hp]
  dsimp only
  split
  · next ha =>
    have he : { pl with address := some a } = pl := by simp only [← ha]
    simp [he, ha, Roster.amend, Table.insert_eq_self hp]
  · next ha => simp [ha, Roster.amend]

theorem lands_placement (hi : s.atlas.index.get? q = none) :
    s.Lands q (s.atlas.placement (s.accounts.world? q)) := by
  unfold Atlas.placement
  split
  · next W hr =>
    split
    · next hW => exact .returns hi hr hW
    · next hW =>
      refine .starts hi fun V hV => ?_
      obtain rfl : W = V := Option.some.inj (hr.symm.trans hV)
      simpa [Table.contains_eq] using hW
  · next hr =>
    refine .starts hi fun V hV => ?_
    simp [hr] at hV

theorem receive_probe (h : s.roster.Sound) (hp : s.roster.get? q = some pl) (a : Address)
    (wall : UInt64) : s.receive (.probe q) (.datagram a) wall =
      if pl.isAuthenticated then s.probe q (.datagram a) else (s, []) := by
  obtain ⟨rfl, -⟩ := h.placed q pl hp
  have hs : s.roster.sender? (.probe pl.id) (.datagram a) = some pl := hp
  simp only [receive, hs]
  cases pl.isAuthenticated <;> rfl

theorem receive_of_settled (h : s.roster.Sound) (hs : s.Settled q a) (wall : UInt64) :
    s.receive (.probe q) (.datagram a) wall = (s, []) := by
  cases hp : s.roster.get? q with
  | none =>
    have hs : s.roster.sender? (.probe q) (.datagram a) = none := hp
    simp [receive, hs]
  | some pl =>
    rw [receive_probe h hp]
    split
    · next hid =>
      obtain ⟨ha, hi⟩ := hs pl hp hid
      obtain ⟨rfl, -⟩ := h.placed q pl hp
      have he : { pl with address := some a } = pl := by simp only [← ha]
      simp [probe, link_of_get? hp, ha, hi, he, Roster.amend, Table.insert_eq_self hp]
    · rfl

theorem probe_lands (h : s.Sound) (hp : s.roster.players.get? pl.id = some pl) (a : Address) :
    let s' := (s.probe pl.id (.datagram a)).1
    ∃ W pl', s.Lands pl.id W ∧ s'.atlas.index.get? pl.id = some W ∧
      s'.roster.get? pl.id = some pl' ∧ pl'.address = some a := by
  intro s'
  let newcomer : Player := { pl with address := some a }
  have hget : (s.roster.amend newcomer).players.get? pl.id = some newcomer :=
    Table.get?_insert_self ..
  cases hi : s.atlas.index.get? pl.id with
  | some W =>
    refine ⟨W, newcomer, .stays hi, ?_, ?_, rfl⟩ <;>
      simp only [s', probe, link_of_get? hp, hi, Option.isSome_some, if_true]
    · split
      · rw [(Atlas.readdresses_setAddress h.atlas pl.id a).1.index]
        exact hi
      · exact hi
    · split <;> exact hget
  | none =>
    obtain ⟨out, -, hout⟩ := Atlas.addPlayer_of_none (p := newcomer) h.atlas hi
      (s.accounts.world? pl.id)
    obtain ⟨hsettles, -⟩ := Atlas.addPlayer_eq_ok h.atlas hout
    have hs' : s' = { s with roster := s.roster.amend newcomer, atlas := out.state }.recordWorld
        pl.id (s.atlas.placement (s.accounts.world? pl.id)) := by
      simp only [s', probe, link_of_get? hp, hi, Option.isSome_none, Bool.false_eq_true, if_false,
        place, Roster.get?, hget, hout, newcomer]
    rw [hs', recordWorld_eq (s := { s with roster := s.roster.amend newcomer, atlas := out.state })
      hget]
    refine ⟨_, _, lands_placement hi, ?_, Table.get?_insert_self .., rfl⟩
    have hix : out.state.index = _ := hsettles.index
    simp [hix, newcomer]

theorem settled_receive (h : s.Sound) (q : PlayerId) (a : Address) (wall : UInt64) :
    (s.receive (.probe q) (.datagram a) wall).1.Settled q a := by
  cases hp : s.roster.get? q with
  | none =>
    have hs : s.roster.sender? (.probe q) (.datagram a) = none := hp
    simp [receive, hs, Settled, hp]
  | some pl =>
    rw [receive_probe h.roster hp]
    split
    · obtain ⟨rfl, -⟩ := h.roster.placed q pl hp
      obtain ⟨W, pl', -, hi, hp', ha⟩ := probe_lands h hp a
      rintro pl₁ hp₁ -
      obtain rfl : pl' = pl₁ := Option.some.inj (hp'.symm.trans hp₁)
      exact ⟨ha, Option.isSome_of_eq_some hi⟩
    · next hid =>
      intro pl' hp' hid'
      obtain rfl : pl = pl' := Option.some.inj (hp.symm.trans hp')
      exact absurd hid' hid

end Repeats

section Loads

def home? (s : Server) (c : ConnectionId) : Option String := do
  let pl ← s.roster.onConnection? c
  s.atlas.index.get? pl.id

def places (c : ConnectionId) (l : Moment Server Event) : Bool :=
  (l.state.home? c).isNone && ((l.state.step l.event).1.home? c).isSome

def moves (c : ConnectionId) (l : Moment Server Event) : Bool :=
  match l.event with
  | .transfer q W wall => (l.state.roster.get? q).any (·.connection = c) &&
      (l.state.transfer q W wall).value.isOk
  | _ => false

theorem home?_of_player (h : s.roster.Sound) (hp : s.roster.players.get? q = some pl) :
    s.home? pl.connection = s.atlas.index.get? q := by
  obtain ⟨rfl, hb⟩ := h.placed q pl hp
  simp [home?, Roster.onConnection?, hb, hp]

theorem home?_amend (h : s.roster.Sound) (hp : s.roster.players.get? pl.id = some pl)
    {s' : Server} {settled : Player} (hr : s'.roster = s.roster.amend settled)
    (hid : settled.id = pl.id) :
    s'.home? pl.connection = s'.atlas.index.get? pl.id := by
  simp [home?, Roster.onConnection?, hr, Roster.amend, (h.placed _ pl hp).2, hid]

theorem exists_player_of_home (h : s.roster.Sound) (hh : s.home? c = some W) :
    ∃ q pl, s.roster.players.get? q = some pl ∧ pl.connection = c := by
  obtain ⟨pl, hc, -⟩ := Option.bind_eq_some_iff.mp hh
  obtain ⟨q, hb, -⟩ := Option.bind_eq_some_iff.mp hc
  obtain ⟨pl, hp, hpc⟩ := h.held c q hb
  exact ⟨q, pl, hp, hpc⟩

theorem lastLoad?_of_home (h : system.Run ms s) (hh : s.home? c = some W) :
    lastLoad? (system.stream c ms) = some W := by
  have hr := (steady_of_run h).sound.roster
  obtain ⟨q, pl, hp, rfl⟩ := exists_player_of_home hr hh
  rw [home?_of_player hr hp] at hh
  exact ((guided_of_run h).lastLoad? hp).trans hh

theorem home_of_quiet (h : system.Run ms s) (ha : system.Admits ms e)
    (hq : loads (onStream c (s.step e).2) = [])
    (hh : (s.step e).1.home? c = some W) : (s.home? c).isSome := by
  have hs := steady_of_run h
  have hnext : system.Run (⟨s, e⟩ :: ms) (s.step e).1 := .step e h ha
  have hlast : lastLoad? (system.stream c ms) = some W := by
    have hl := lastLoad?_of_home hnext hh
    have hnone : ∀ x ∈ onStream c (system.sent ⟨s, e⟩), x.packet.loads? = none :=
      loads_eq_nil_iff.mp hq
    rwa [System.stream, lastLoad?_append_of_forall hnone] at hl
  have hr' := (steady_of_run hnext).sound.roster
  have huse : (s.step e).1.roster.Uses c := by
    obtain ⟨q, pl, hp, rfl⟩ := exists_player_of_home hr' hh
    exact hr'.uses hp
  obtain hc | ⟨hw | hb, -⟩ := (uses_makes hs (makes_step hs.sound hs.valid e) c).mp huse
  · -- A new connection has been told nothing.
    rw [stream_eq_nil h fun m hm => ha c hc m hm] at hlast
    cases hlast
  · -- A connection that waits has been told to load nothing.
    have horders := (guided_of_run h).waiting c hw
    rw [lastLoad?, ← filterMap_loads?_orders, horders] at hlast
    cases hlast
  · obtain ⟨q, hb⟩ := Option.isSome_iff_exists.mp hb
    obtain ⟨pl, hp, rfl⟩ := hs.sound.roster.held c q hb
    rw [home?_of_player hs.sound.roster hp, ← (guided_of_run h).lastLoad? hp, hlast]
    rfl

theorem eq_of_loads {xs : List Envelope} {V : String} (h : loads xs = [V])
    (hl : ∃ before, xs = before ++ [Atlas.loading pl W]) : V = W := by
  obtain ⟨before, rfl⟩ := hl
  have hlast := congrArg List.getLast? h
  simpa [loads, Atlas.loading, Packet.loads?, eq_comm] using hlast

inductive Brings (s : Server) : Event → Player → String → Prop
  | probe {pl : Player} {a : Address} {wall : UInt64} {W : String}
      (hp : s.roster.players.get? pl.id = some pl) (hi : s.atlas.index.get? pl.id = none) :
      Brings s (.receive (.probe pl.id) (.datagram a) wall) pl W
  | transfer {pl : Player} {W : String} {wall : UInt64}
      (hp : s.roster.players.get? pl.id = some pl)
      (hi : (s.atlas.index.get? pl.id).isSome) : Brings s (.transfer pl.id W wall) pl W

theorem loads_makes (h : s.Steady) (hm : s.Makes e out) :
    loads out.2 = [] ∨ ∃ pl W, s.Brings e pl W ∧ out.1.home? pl.connection = some W ∧
      ∀ c, loads (onStream c out.2) = if pl.connection = c then [W] else [] := by
  cases hm with
  | nothing | connects | abandons | registers | readdresses | answers | enrolls => exact Or.inl rfl
  | departs =>
    unfold without
    split
    · exact Or.inl (Atlas.loads_of_stays h.valid rfl)
    · exact Or.inl rfl
  | routes | ticks => exact Or.inl (Atlas.loads_of_stays h.valid rfl)
  | @places pl newcomer address wall preferred W k hp hid hnew hs hl =>
    subst hnew
    have hi : s.atlas.index.get? pl.id = none := by
      refine Option.eq_none_iff_forall_ne_some.mpr fun V hV => ?_
      simp [Atlas.step, Atlas.addPlayer, hV] at hl
    have hloads := Atlas.loads_addPlayer (p := { pl with address := some address }) h.valid hi
      preferred
    refine Or.inr ⟨pl, W, .probe hp hi, ?_, fun c => ?_⟩
    · refine Eq.trans (home?_amend h.sound.roster hp rfl rfl) ?_
      exact (congrArg (·.get? pl.id) hs.index).trans (Table.get?_insert_self ..)
    · rw [Atlas.loads_onStream h.valid rfl, hloads, eq_of_loads hloads hl]
  | @transfers pl W wall k hp hm hs hl =>
    obtain ⟨V, hm⟩ := hm
    obtain ⟨m, hm⟩ := Option.isSome_iff_exists.mp hm
    have hW : (s.atlas.worlds.get? W).isSome := by
      obtain ⟨w, hw, -⟩ := Option.bind_eq_some_iff.mp
        ((hs.member W pl.id).trans (by rw [if_pos rfl, if_pos rfl]))
      rw [← hs.worlds, hw]
      rfl
    have hloads : loads (s.atlas.step (.transfer pl W wall)).2 = [W] :=
      Atlas.loads_transfer h.valid hW hm wall
    have hi := Option.isSome_of_eq_some (h.sound.atlas.index_of_member hm)
    refine Or.inr ⟨pl, W, .transfer hp hi, ?_, fun c => ?_⟩
    · refine Eq.trans (home?_amend h.sound.roster hp rfl rfl) ?_
      exact (congrArg (·.get? pl.id) hs.index).trans (Table.get?_insert_self ..)
    · rw [Atlas.loads_onStream h.valid rfl, hloads]

theorem isOk_transfer_iff (h : s.Steady) (q : PlayerId) (W : String) (wall : UInt64) :
    (s.transfer q W wall).value.isOk ↔ loads (s.transfer q W wall).sent ≠ [] := by
  by_cases hn : s.roster.get? q = none ∨ s.atlas.worlds.get? W = none ∨
      ∀ V, s.atlas.member? V q = none
  · obtain ⟨e, he⟩ := transfer_refused h.sound wall hn
    simp [he, loads, Except.isOk, Except.toBool]
  · simp only [not_or, not_forall] at hn
    obtain ⟨hp, hW, V, hm⟩ := hn
    obtain ⟨pl, hp⟩ := Option.ne_none_iff_exists'.mp hp
    obtain ⟨rfl, -⟩ := h.sound.roster.placed q pl hp
    obtain ⟨m, hm⟩ := Option.ne_none_iff_exists'.mp hm
    have hW := Option.isSome_iff_ne_none.mpr hW
    simp [transfer_of_member h.sound hp hW hm wall, Atlas.loads_transfer h.valid hW hm wall,
      Except.isOk, Except.toBool]

theorem moves_iff (h : s.Steady) (c : ConnectionId) (e : Event) :
    moves c ⟨s, e⟩ ↔ ∃ pl W wall, e = .transfer pl.id W wall ∧
      s.roster.players.get? pl.id = some pl ∧ pl.connection = c ∧ loads (s.step e).2 ≠ [] := by
  constructor
  · intro hm
    cases e with
    | transfer q W wall =>
      simp only [moves, Bool.and_eq_true, Option.any_eq_true] at hm
      obtain ⟨⟨pl, hp, hc⟩, hok⟩ := hm
      obtain ⟨rfl, -⟩ := h.sound.roster.placed q pl hp
      exact ⟨pl, W, wall, rfl, hp, of_decide_eq_true hc, (isOk_transfer_iff h _ W wall).mp hok⟩
    | _ => cases hm
  · rintro ⟨pl, W, wall, rfl, hp, hc, hl⟩
    have hp : s.roster.get? pl.id = some pl := hp
    simp [moves, hp, hc, (isOk_transfer_iff h pl.id W wall).mpr hl]

theorem loads_onStream_eq_nil {sent : List Envelope} (h : loads sent = [])
    (c : ConnectionId) : loads (onStream c sent) = [] :=
  loads_eq_nil_iff.mpr fun x hx => loads_eq_nil_iff.mp h x (mem_onStream_iff.mp hx).1

theorem loads_step (h : system.Run ms s) (ha : system.Admits ms e) (c : ConnectionId) :
    (loads (onStream c (s.step e).2)).length =
      (places c ⟨s, e⟩).toNat + (moves c ⟨s, e⟩).toNat := by
  have hs := steady_of_run h
  have hmakes : s.Makes e (s.step e) := makes_step hs.sound hs.valid e
  -- Where nothing is told, nobody is placed.
  have quiet (hq : loads (onStream c (s.step e).2) = []) : places c ⟨s, e⟩ = false := by
    refine Bool.eq_false_iff.mpr fun hpl => ?_
    obtain ⟨hn, hh⟩ := Bool.and_eq_true_iff.mp hpl
    obtain ⟨W, hh⟩ := Option.isSome_iff_exists.mp hh
    obtain ⟨V, hV⟩ := Option.isSome_iff_exists.mp (home_of_quiet h ha hq hh)
    simp [hV] at hn
  obtain hnone | ⟨pl, W, hb, hhome, hloads⟩ := loads_makes hs hmakes
  · have hq := loads_onStream_eq_nil hnone c
    have hmoves : moves c ⟨s, e⟩ = false := by
      refine Bool.eq_false_iff.mpr fun hm => ?_
      obtain ⟨_, _, _, _, _, _, hl⟩ := (moves_iff hs c e).mp hm
      exact hl hnone
    simp [hq, quiet hq, hmoves]
  specialize hloads c
  by_cases hc : pl.connection = c
  · subst hc
    rw [if_pos rfl] at hloads
    rw [hloads]
    cases hb with
    | probe hp hi => simp [places, moves, home?_of_player hs.sound.roster hp, hi, hhome]
    | @transfer _ _ wall hp hi =>
      have hmoves : moves pl.connection ⟨s, .transfer pl.id W wall⟩ = true := by
        refine (moves_iff hs _ _).mpr ⟨pl, W, wall, rfl, hp, rfl, fun hl => ?_⟩
        rw [loads_onStream_eq_nil hl] at hloads
        cases hloads
      have hplaces : places pl.connection ⟨s, .transfer pl.id W wall⟩ = false := by
        simp [places, home?_of_player hs.sound.roster hp, Option.isNone_eq_false_iff.mpr hi]
      simp [hmoves, hplaces]
  · rw [if_neg hc] at hloads
    have hmoves : moves c ⟨s, e⟩ = false := by
      refine Bool.eq_false_iff.mpr fun hm => ?_
      obtain ⟨pl', W', wall, rfl, hp', hc', -⟩ := (moves_iff hs c e).mp hm
      generalize hid : pl'.id = q at hb
      cases hb with
      | transfer hp =>
        rw [hid] at hp'
        obtain rfl : pl = pl' := Option.some.inj (hp.symm.trans hp')
        exact hc hc'
    simp [hloads, quiet hloads, hmoves]

/-- In every state that a server reaches, a probe that comes once more from the same address
changes nothing and sends nothing, however often it comes. The first one of a player has put the
player into a world, unless it was in one, and its address is known to the roster and the world.
So a client is told to load a world once for each time that its player is placed or sent. -/
theorem probes_once (h : system.Run ms s) :
    (∀ q a wall, let s' := (s.receive (.probe q) (.datagram a) wall).1
      (∀ walls : List UInt64,
        let out := system.play [] s' (walls.map (.receive (.probe q) (.datagram a) ·))
        out.2 = s' ∧ system.sentAll out.1 = []) ∧
      ∀ pl, s.roster.get? q = some pl → pl.isAuthenticated →
        ∃ W m pl', s.Lands q W ∧ s'.atlas.index.get? q = some W ∧
          s'.atlas.member? W q = some m ∧ m.address = some a ∧
          s'.roster.get? q = some pl' ∧ pl'.address = some a) ∧
      ∀ c, (loads (system.stream c ms)).length = ms.countP (places c) + ms.countP (moves c) := by
  have hs := steady_of_run h
  refine ⟨fun q a wall => ?_, fun c => ?_⟩
  · intro s'
    have hnext : s'.Steady := steady_of_run (.step (.receive (.probe q) (.datagram a) wall) h nofun)
    constructor
    · intro walls
      refine System.play_of_still fun e he => ?_
      obtain ⟨wall', -, rfl⟩ := List.mem_map.mp he
      exact receive_of_settled hnext.sound.roster (settled_receive hs.sound q a wall) wall'
    · intro pl hp hid
      have hs' : s' = (s.probe q (.datagram a)).1 := by
        simp only [s', receive_probe hs.sound.roster hp, hid, if_true]
      obtain ⟨rfl, -⟩ := hs.sound.roster.placed q pl hp
      obtain ⟨W, pl', hlands, hi, hp', ha⟩ := probe_lands hs.sound hp a
      rw [← hs'] at hi hp'
      obtain ⟨_, m, -, -, hm⟩ := hnext.sound.atlas.member_of_index hi
      obtain ⟨-, pl₁, hp₁, hmatch⟩ := hnext.fits W pl.id m hm
      obtain rfl : pl₁ = pl' := Option.some.inj (hp₁.symm.trans hp')
      exact ⟨W, m, pl₁, hlands, hi, hm, hmatch.address.trans ha, hp', ha⟩
  · induction h with
    | start => rfl
    | @step ms s e h ha ih =>
      have hstep := loads_step h ha c
      rw [System.stream, loads_append, List.length_append, ih (steady_of_run h),
        List.countP_cons, List.countP_cons]
      change _ + (loads (onStream c (s.step e).2)).length = _
      rw [hstep]
      cases places c ⟨s, e⟩ <;> cases moves c ⟨s, e⟩ <;> simp <;> omega

theorem probes_once_comings :
    let s' := (comings.2.receive (.probe ⟨1⟩) (.datagram ⟨"d"⟩) 0).1
    let again := system.play [] s' ([5, 9].map (.receive (.probe ⟨1⟩) (.datagram ⟨"d"⟩) ·))
    again.2 = s' ∧ system.sentAll again.1 = [] ∧
      (∃ m, s'.atlas.member? "cave" ⟨1⟩ = some m ∧ m.address = some ⟨"d"⟩) ∧
      loads (system.stream ⟨1⟩ comings.1) = ["farm", "cave"] ∧
      comings.1.countP (places ⟨1⟩) + comings.1.countP (moves ⟨1⟩) = 2 := by
  intro s' again
  obtain ⟨hprobes, hcount⟩ := probes_once run_comings
  obtain ⟨hstill, hlands⟩ := hprobes ⟨1⟩ ⟨"d"⟩ 0
  obtain ⟨hstate, hsent⟩ := hstill [5, 9]
  have hloads : loads (system.stream ⟨1⟩ comings.1) = ["farm", "cave"] := by decide +kernel
  refine ⟨hstate, hsent, ?_, hloads, ?_⟩
  · have hp : (comings.2.roster.get? ⟨1⟩).map (·.isAuthenticated) = some true := by
      decide +kernel
    obtain ⟨pl, hp, hid⟩ := Option.map_eq_some_iff.mp hp
    obtain ⟨W, m, -, -, hi, hm, ha, -⟩ := hlands pl hp hid
    have hcave : s'.atlas.index.get? ⟨1⟩ = some "cave" := by decide +kernel
    obtain rfl : W = "cave" := Option.some.inj (hi.symm.trans hcave)
    exact ⟨m, hm, ha⟩
  · rw [← hcount, hloads]
    rfl

end Loads

end Server

end SharedWorld
