import SharedWorld.Proofs.Login.Roster
import SharedWorld.Proofs.Run

/-! # The roster as a directory of players

However connections come, log in and go, the three tables of the roster tell one story, a
packet is taken for its sender's only, and a refused operation leaves everything as it was.
-/

namespace SharedWorld

namespace Roster

/-- The operations of a roster. -/
inductive Act
  | addPending (c : ConnectionId)
  | authenticate (c : ConnectionId) (id : PlayerId) (name : String)
  | link (id : PlayerId) (a : Address)
  | setWorld (id : PlayerId) (world : Option String)
  | remove (c : ConnectionId)

def Act.adds? : Act → Option ConnectionId
  | .addPending c => some c
  | _ => none

def Act.logsIn? : Act → Option PlayerId
  | .authenticate _ id _ => some id
  | _ => none

/-- A login that changes the roster as it goes. It takes the connection off those that wait
before it knows that it was one of them, but not before it knows that the player is free. -/
def authenticateInPlace (r : Roster) (c : ConnectionId) (id : PlayerId) (name : String) :
    Roster × Except LoginError Player :=
  if r.players.contains id then (r, .error (.alreadyConnected id))
  else
    let rest := { r with pending := r.pending.erase c }
    match r.pending.get? c with
    | none => (rest, .error (.unknownConnection c))
    | some player =>
      let player := { player with id, name }
      ({ rest with players := rest.players.insert id player,
                   byConnection := rest.byConnection.insert c id }, .ok player)

def act (r : Roster) : Act → Roster × Option LoginError
  | .addPending c => (r.addPending c, none)
  | .authenticate c id name =>
    match r.authenticateInPlace c id name with
    | (r', .ok _) => (r', none)
    | (r', .error e) => (r', some e)
  | .link id a =>
    match r.link id a with
    | .ok (r', _) => (r', none)
    | .error e => (r, some e)
  | .setWorld id world =>
    match r.setWorld id world with
    | .ok r' => (r', none)
    | .error e => (r, some e)
  | .remove c => ((r.remove c).2, none)

/-- The runs of a roster. No connection is added twice, and only players log in. -/
def directory : System Roster Act where
  Starts r := r = {}
  Admits ms a := (∀ c ∈ a.adds?, ∀ m ∈ ms, c ∉ m.event.adds?) ∧ ∀ id ∈ a.logsIn?, id.isPlayer
  step r a := ((r.act a).1, [])

theorem authenticateInPlace_eq (r : Roster) (c : ConnectionId) (id : PlayerId) (name : String) :
    r.authenticateInPlace c id name =
      match r.authenticate c id name with
      | .ok (r', pl) => (r', .ok pl)
      | .error e => (r, .error e) := by
  unfold authenticateInPlace authenticate
  split
  · rfl
  · cases hw : r.pending.get? c with
    | none => simp [Table.erase_eq_self hw]
    | some waiting => rfl

/-- Why an operation is refused. -/
inductive Refuses (r : Roster) : Act → LoginError → Prop
  | taken {id : PlayerId} (c : ConnectionId) (name : String) (h : (r.players.get? id).isSome) :
      Refuses r (.authenticate c id name) (.alreadyConnected id)
  | unknown {c : ConnectionId} {id : PlayerId} (name : String) (hn : r.players.get? id = none)
      (hc : r.pending.get? c = none) :
      Refuses r (.authenticate c id name) (.unknownConnection c)
  | unlinked {id : PlayerId} (a : Address) (hn : r.players.get? id = none) :
      Refuses r (.link id a) (.playerNotFound id)
  | unplaced {id : PlayerId} (world : Option String) (hn : r.players.get? id = none) :
      Refuses r (.setWorld id world) (.playerNotFound id)

inductive Makes (r : Roster) : Act → Roster → Prop
  | waits (c : ConnectionId) : Makes r (.addPending c) (r.addPending c)
  | enters {c : ConnectionId} {id : PlayerId} {name : String} {r' : Roster} {pl : Player}
      (h : r.authenticate c id name = .ok (r', pl)) : Makes r (.authenticate c id name) r'
  | amends {a : Act} {id : PlayerId} {pl : Player} (pl' : Player)
      (hp : r.players.get? id = some pl) (hi : pl'.id = pl.id)
      (hc : pl'.connection = pl.connection) :
      Makes r a { r with players := r.players.insert id pl' }
  | stays {id : PlayerId} {a : Address} {pl : Player} (hp : r.players.get? id = some pl)
      (ha : pl.address = some a) : Makes r (.link id a) r
  | leaves (c : ConnectionId) : Makes r (.remove c) (r.remove c).2

variable {ms : List (Moment Roster Act)} {r r' : Roster} {c c' : ConnectionId} {id : PlayerId}
  {pl pl' : Player} {a : Act} {e : LoginError}

theorem act_cases (r : Roster) (a : Act) :
    (∃ e, r.Refuses a e ∧ r.act a = (r, some e)) ∨ ∃ r', r.Makes a r' ∧ r.act a = (r', none) := by
  cases a with
  | addPending c => exact Or.inr ⟨_, .waits c, rfl⟩
  | remove c => exact Or.inr ⟨_, .leaves c, rfl⟩
  | authenticate c id name =>
    rw [act, authenticateInPlace_eq]
    cases ha : r.authenticate c id name with
    | ok out => exact Or.inr ⟨out.1, .enters ha, rfl⟩
    | error e =>
      refine Or.inl ⟨e, ?_, rfl⟩
      unfold authenticate at ha
      split at ha
      · next ht => cases ha; exact .taken c name ht
      · next hn =>
        split at ha <;> cases ha
        next hw => exact .unknown name (Option.not_isSome_iff_eq_none.mp hn) hw
  | link id addr =>
    cases hp : r.players.get? id with
    | none => exact Or.inl ⟨_, .unlinked addr hp, by simp [act, link, get?, hp]⟩
    | some pl =>
      right
      by_cases ha : pl.address = some addr
      · exact ⟨r, .stays hp ha, by simp [act, link, get?, hp, ha]⟩
      · exact ⟨_, .amends { pl with address := some addr } hp rfl rfl,
          by simp [act, link, get?, hp, ha]⟩
  | setWorld id world =>
    cases hp : r.players.get? id with
    | none => exact Or.inl ⟨_, .unplaced world hp, by simp [act, setWorld, get?, hp]⟩
    | some pl =>
      exact Or.inr ⟨_, .amends { pl with world } hp rfl rfl, by rw [act, setWorld_of_get? hp]⟩

theorem refuses_of_act (h : (r.act a).2 = some e) : r.Refuses a e ∧ (r.act a).1 = r := by
  obtain ⟨e', he, hr⟩ | ⟨r', -, hr⟩ := act_cases r a <;> rw [hr] at h ⊢ <;> cases h
  exact ⟨he, rfl⟩

/-- Who asks for a player that is there already is refused, and waits on. -/
example :
    let before : Roster := [Act.addPending ⟨1⟩, .addPending ⟨2⟩,
      .authenticate ⟨1⟩ ⟨7⟩ "ann"].foldl (fun r a => (r.act a).1) {}
    let (after, refusal) := before.act (.authenticate ⟨2⟩ ⟨7⟩ "bob")
    refusal = some (.alreadyConnected ⟨7⟩) ∧ (after.pending.get? ⟨2⟩).isSome := by
  decide +kernel

structure Kept (ms : List (Moment Roster Act)) (r : Roster) : Prop where
  sound : r.Sound
  added : ∀ c, r.Uses c → ∃ m ∈ ms, c ∈ m.event.adds?
  players : ∀ id pl, r.players.get? id = some pl → id.isPlayer

theorem Kept.makes (h : Kept ms r) (ha : directory.Admits ms a) (hm : r.Makes a r') :
    Kept (⟨r, a⟩ :: ms) r' := by
  have hs := h.sound
  have hid := h.players
  have hadd : ∀ c, r.Uses c → ∃ m ∈ ⟨r, a⟩ :: ms, c ∈ m.event.adds? := by
    intro c hc
    obtain ⟨m, hm, hc⟩ := h.added c hc
    exact ⟨m, List.mem_cons_of_mem _ hm, hc⟩
  cases hm with
  | waits c =>
    have hc : ¬ r.Uses c := by
      intro hu
      obtain ⟨m, hm, hc⟩ := h.added c hu
      exact ha.1 c rfl m hm hc
    refine ⟨sound_addPending hs hc, fun c' hu => ?_, hid⟩
    rcases uses_addPending hu with rfl | hu
    · exact ⟨_, List.mem_cons_self, rfl⟩
    · exact hadd c' hu
  | enters h =>
    refine ⟨sound_authenticate hs h, fun c' hu => hadd c' (uses_authenticate h hu), ?_⟩
    obtain ⟨-, waiting, -, -, rfl⟩ := authenticate_eq_ok h
    intro id' pl' hp
    obtain ⟨rfl, -⟩ | ⟨-, hp⟩ := Table.get?_insert_eq_some_iff.mp hp
    · exact ha.2 _ rfl
    · exact hid id' pl' hp
  | amends pl' hp hi hc =>
    refine ⟨sound_insert hs hp hi hc, hadd, fun id' pl' hp' => ?_⟩
    obtain ⟨rfl, -⟩ | ⟨-, hp'⟩ := Table.get?_insert_eq_some_iff.mp hp'
    · exact hid _ _ hp
    · exact hid id' pl' hp'
  | stays => exact ⟨hs, hadd, hid⟩
  | leaves c =>
    refine ⟨sound_remove hs c, fun c' hu => hadd c' (uses_remove hs hu), fun id' pl' hp' => ?_⟩
    obtain ⟨-, hr⟩ | ⟨pl, -, -, hr⟩ | ⟨-, hr⟩ := remove_cases hs c <;> rw [hr] at hp'
    · exact hid id' pl' hp'
    · exact hid id' pl' (Table.get?_erase_eq_some_iff.mp hp').2
    · exact hid id' pl' hp'

theorem kept_of_run (h : directory.Run ms r) : Kept ms r := by
  induction h with
  | start h =>
    cases h
    exact ⟨sound_new, nofun, nofun⟩
  | @step ms r a _ ha ih =>
    change Kept _ (r.act a).1
    obtain ⟨e, -, hr⟩ | ⟨r', hm, hr⟩ := act_cases r a <;> rw [hr]
    · refine ⟨ih.sound, fun c hc => ?_, ih.players⟩
      obtain ⟨m, hm, hc⟩ := ih.added c hc
      exact ⟨m, List.mem_cons_of_mem _ hm, hc⟩
    · exact ih.makes ha hm

/-- Everything about a connection is forgotten, and nothing else. -/
structure Forgets (r : Roster) (c : ConnectionId) (out : Option Player × Roster) : Prop where
  pending : ∀ c', out.2.pending.get? c' = if c' = c then none else r.pending.get? c'
  byConnection : ∀ c', out.2.byConnection.get? c' = if c' = c then none else r.byConnection.get? c'
  players : ∀ id pl, out.2.players.get? id = some pl ↔
    r.players.get? id = some pl ∧ pl.connection ≠ c
  /-- Whoever was on the connection is handed back. -/
  answer : ∀ pl, out.1 = some pl ↔
    r.pending.get? c = some pl ∨ ∃ id, r.players.get? id = some pl ∧ pl.connection = c

theorem Sound.connection_iff (h : r.Sound) (hp : r.players.get? id = some pl) :
    pl.connection = c ↔ r.byConnection.get? c = some id := by
  constructor
  · rintro rfl
    exact (h.placed id pl hp).2
  · intro hb
    obtain ⟨pl', hp', hc⟩ := h.held c id hb
    rw [hp] at hp'
    cases hp'
    exact hc

theorem Sound.apart (h : r.Sound) (hb : r.byConnection.get? c = some id) :
    r.pending.get? c = none := by
  cases hw : r.pending.get? c with
  | none => rfl
  | some waiting =>
    rw [(h.waiting c waiting hw).2] at hb
    cases hb

theorem Sound.forgets (h : r.Sound) (c : ConnectionId) : r.Forgets c (r.remove c) := by
  -- Without an entry for the connection, no player is on it.
  have hne (hb : r.byConnection.get? c = none) {id : PlayerId} {pl : Player}
      (hp : r.players.get? id = some pl) : pl.connection ≠ c := by
    rw [ne_eq, h.connection_iff hp, hb]
    nofun
  obtain ⟨hp, hr⟩ | ⟨pl, hp, hc, hr⟩ | ⟨hu, hr⟩ := remove_cases h c <;> rw [hr]
  · have hb := (h.waiting c _ hp).2
    refine ⟨fun c' => Table.get?_erase .., fun c' => ?_, fun id pl => ?_, fun pl => ?_⟩
    · rw [← Table.get?_erase, Table.erase_eq_self hb]
    · exact ⟨fun hpl => ⟨hpl, hne hb hpl⟩, fun hpl => hpl.1⟩
    · rw [hp]
      exact ⟨Or.inl, fun hpl => hpl.resolve_right fun ⟨id, hpl, hc⟩ => hne hb hpl hc⟩
  · have hb := (h.connection_iff hp).mp hc
    have hw := h.apart hb
    refine ⟨fun c' => ?_, fun c' => Table.get?_erase .., fun id pl' => ?_, fun pl' => ?_⟩
    · rw [← Table.get?_erase, Table.erase_eq_self hw]
    · rw [Table.get?_erase_eq_some_iff, and_comm]
      apply and_congr_right
      intro hp'
      rw [ne_eq, ne_eq, h.connection_iff hp', hb, Option.some.injEq, eq_comm]
    · rw [hw]
      constructor
      · rintro ⟨⟩
        exact Or.inr ⟨pl.id, hp, hc⟩
      · rintro (hp' | ⟨id, hp', hc'⟩)
        · cases hp'
        · rw [h.connection_iff hp', hb] at hc'
          cases hc'
          rw [← hp, hp']
  · have hw : r.pending.get? c = none :=
      Option.not_isSome_iff_eq_none.mp fun hw => hu (Or.inl hw)
    have hb : r.byConnection.get? c = none :=
      Option.not_isSome_iff_eq_none.mp fun hb => hu (Or.inr hb)
    refine ⟨fun c' => ?_, fun c' => ?_, fun id pl => ?_, fun pl => ?_⟩
    · rw [← Table.get?_erase, Table.erase_eq_self hw]
    · rw [← Table.get?_erase, Table.erase_eq_self hb]
    · exact ⟨fun hpl => ⟨hpl, hne hb hpl⟩, fun hpl => hpl.1⟩
    · rw [hw]
      refine ⟨nofun, ?_⟩
      rintro (hp | ⟨id, hp, hc⟩)
      · cases hp
      · exact absurd hc (hne hb hp)

theorem Sound.onStream_eq_some_iff (h : r.Sound) :
    (r.onConnection? c <|> r.pending.get? c) = some pl ↔
      pl.connection = c ∧ (r.players.get? pl.id = some pl ∨ r.pending.get? c = some pl) := by
  cases hb : r.byConnection.get? c with
  | none =>
    have hn : r.onConnection? c = none := by simp [onConnection?, hb]
    rw [hn]
    change r.pending.get? c = some pl ↔ _
    constructor
    · intro hp
      rw [(h.waiting c pl hp).1]
      exact ⟨rfl, Or.inr ((h.waiting c pl hp).1 ▸ hp)⟩
    · rintro ⟨hc, hp | hp⟩
      · rw [h.connection_iff hp, hb] at hc
        cases hc
      · exact hp
  | some id =>
    obtain ⟨pl', hp', hc'⟩ := h.held c id hb
    obtain ⟨rfl, -⟩ := h.placed id pl' hp'
    have hs : r.onConnection? c = some pl' := by simp [onConnection?, hb, hp']
    rw [hs, h.apart hb]
    constructor
    · rintro ⟨⟩
      exact ⟨hc', Or.inl hp'⟩
    · rintro ⟨hc, hp | hp⟩
      · rw [h.connection_iff hp, hb] at hc
        rw [← hp, ← Option.some.inj hc, hp']
        rfl
      · cases hp

/-- The tables of a roster tell one story. -/
structure Orderly (r : Roster) : Prop where
  named : ∀ id pl, r.players.get? id = some pl → pl.id = id ∧ pl.isAuthenticated
  /-- No connection both waits for a login and has a player. -/
  apart : ∀ c, (r.pending.get? c).isSome → r.byConnection.get? c = none
  inverse : ∀ c id, r.byConnection.get? c = some id ↔
    ∃ pl, r.players.get? id = some pl ∧ pl.connection = c
  alone : ∀ id id' pl pl', r.players.get? id = some pl → r.players.get? id' = some pl' →
    pl.connection = pl'.connection → id = id'
  /-- A vital packet is its stream's: the player's there, or whoever waits there. -/
  vital : ∀ p source, p.isVital = true → ∀ pl, r.sender? p source = some pl ↔
    source = .stream pl.connection ∧
      (r.players.get? pl.id = some pl ∨ r.pending.get? pl.connection = some pl)
  /-- Any other packet is the player's that it names, who is logged in. -/
  other : ∀ p source, p.isVital = false → ∀ pl, r.sender? p source = some pl ↔
    p.sender? = some pl.id ∧ r.players.get? pl.id = some pl ∧ pl.isAuthenticated
  removal : ∀ c, r.Forgets c (r.remove c)
  /-- A refused operation changes nothing. -/
  refusal : ∀ a e, (r.act a).2 = some e → r.Refuses a e ∧ (r.act a).1 = r

theorem orderly_of_run (h : directory.Run ms r) : r.Orderly where
  named := by
    intro id pl hp
    have hk := kept_of_run h
    obtain ⟨rfl, -⟩ := hk.sound.placed id pl hp
    exact ⟨rfl, hk.players _ pl hp⟩
  apart := by
    intro c hw
    obtain ⟨waiting, hw⟩ := Option.isSome_iff_exists.mp hw
    exact ((kept_of_run h).sound.waiting c waiting hw).2
  inverse := by
    intro c id
    have hs := (kept_of_run h).sound
    constructor
    · exact hs.held c id
    · rintro ⟨pl, hp, rfl⟩
      exact (hs.placed id pl hp).2
  alone := by
    intro id id' pl pl' hp hp' hc
    have hs := (kept_of_run h).sound
    rw [hs.connection_iff hp, (hs.placed id' pl' hp').2] at hc
    exact (Option.some.inj hc).symm
  vital := by
    intro p source hv pl
    unfold sender?
    rw [if_pos hv]
    cases source with
    | stream c =>
      dsimp only
      rw [(kept_of_run h).sound.onStream_eq_some_iff, Route.stream.injEq]
      constructor
      · rintro ⟨rfl, hp⟩
        exact ⟨rfl, hp⟩
      · rintro ⟨rfl, hp⟩
        exact ⟨rfl, hp⟩
    | datagram a => simp
  other := by
    intro p source hv pl
    have hk := kept_of_run h
    unfold sender?
    rw [if_neg (by simp [hv]), Option.bind_eq_bind, Option.bind_eq_some_iff]
    constructor
    · rintro ⟨id, hi, hp⟩
      obtain ⟨rfl, -⟩ := hk.sound.placed id pl hp
      exact ⟨hi, hp, hk.players _ pl hp⟩
    · rintro ⟨hi, hp, -⟩
      exact ⟨pl.id, hi, hp⟩
  removal := (kept_of_run h).sound.forgets
  refusal := fun _ _ => refuses_of_act

def reception : List (Moment Roster Act) × Roster :=
  directory.play [] {} [
    .addPending ⟨1⟩,
    .addPending ⟨2⟩,
    .authenticate ⟨1⟩ ⟨7⟩ "ann",
    .authenticate ⟨2⟩ ⟨7⟩ "ann",
    .authenticate ⟨2⟩ ⟨8⟩ "bob",
    .link ⟨8⟩ ⟨"b"⟩,
    .remove ⟨1⟩]

theorem orderly_of_run_reception :
    directory.Run reception.1 reception.2 ∧ reception.2.Orderly := by
  have h : directory.Run reception.1 reception.2 := by
    refine .play (.start rfl) ⟨?_, ?_, ?_, ?_, ?_, ?_, ?_, trivial⟩ <;>
      simp [directory, Act.adds?, Act.logsIn?, PlayerId.isPlayer]
  exact ⟨h, orderly_of_run h⟩

end Roster

end SharedWorld
