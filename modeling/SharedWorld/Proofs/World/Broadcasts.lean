import Mathlib.Data.List.Basic
import SharedWorld.Proofs.World.Characters

/-! # What a tick broadcasts of a character

A character that is due is sent once to every member that is to hear of it, by the routes that
its flags and the length of the update choose. One flag says that the owner is to hear of it
too, on the stream, the other that clients are not to glide to where it stands. A flag tells
the newest act on the character that set it either way, and a broadcast resets both.
-/

namespace SharedWorld

/-- At some moment `P` was true, and `Q` has not been since. The newest moment stands first. -/
def Since {σ ε : Type} (P Q : Moment σ ε → Prop) (ms : List (Moment σ ε)) : Prop :=
  ∃ later l past, ms = later ++ l :: past ∧ P l ∧ ∀ l' ∈ later, ¬ Q l'

theorem since_cons_iff {σ ε : Type} {P Q : Moment σ ε → Prop} {m : Moment σ ε}
    {ms : List (Moment σ ε)} : Since P Q (m :: ms) ↔ P m ∨ ¬ Q m ∧ Since P Q ms := by
  constructor
  · rintro ⟨later, l, past, h, hl, hlater⟩
    cases later with
    | nil =>
      cases h
      exact Or.inl hl
    | cons m' later =>
      cases h
      obtain ⟨hm, hlater⟩ := List.forall_mem_cons.mp hlater
      exact Or.inr ⟨hm, later, l, past, rfl, hl, hlater⟩
  · rintro (hm | ⟨hm, later, l, past, rfl, hl, hlater⟩)
    · exact ⟨[], m, ms, rfl, hm, nofun⟩
    · exact ⟨m :: later, l, past, rfl, hl, List.forall_mem_cons.mpr ⟨hm, hlater⟩⟩

def Packet.shown? : Packet → Option EntityId
  | .entityUpdate u => if u.type = .character then some u.entity else none
  | _ => none

def Packet.Overflows (p : Packet) : Prop :=
  ∃ frame, p.encode = .ok frame ∧ maxDatagram < frame.length

def copies (k : EntityId) (sent : List Envelope) : List Envelope :=
  sent.filter (·.packet.shown? = some k)

theorem copies_append (k : EntityId) (xs ys : List Envelope) :
    copies k (xs ++ ys) = copies k xs ++ copies k ys :=
  List.filter_append ..

def Character.owner? (c : Character) : Option PlayerId :=
  if c.presence.player.isPlayer then some c.presence.player else none

namespace World

variable {w : World} {k : EntityId} {c c' : Character} {clock : Clock} {p : Packet}
  {ms : List (Moment World Event)} {ev : Event}

theorem member_of_freely (h : freely.Run ms w) {q : PlayerId} {m : Member}
    (hm : w.members.get? q = some m) : m.player = q := by
  induction h generalizing q m with
  | start h =>
    obtain ⟨config, sync, ids, rfl⟩ := h
    cases hm
  | @step ms w e _ _ ih =>
    have hmakes := makes_step w e
    have hm : (w.step e).1.members.get? q = some m := hm
    generalize (w.step e).1 = w' at hmakes hm
    cases hmakes with
    | enter =>
      obtain ⟨rfl, rfl⟩ | ⟨-, hm⟩ := Table.get?_insert_eq_some_iff.mp hm
      · rfl
      · exact ih hm
    | leave => exact ih (Table.get?_erase_eq_some_iff.mp hm).2
    | @readdress p m₀ hm₀ a =>
      obtain ⟨rfl, rfl⟩ | ⟨-, hm⟩ := Table.get?_insert_eq_some_iff.mp hm
      · change m₀.player = q
        exact ih hm₀
      · exact ih hm
    | _ => exact ih hm

theorem pairwise_members (h : freely.Run ms w) :
    w.members.values.Pairwise fun m m' => m.player.val < m'.player.val := by
  apply List.pairwise_map.mpr
  apply w.members.sorted.imp_of_mem
  intro e e' he he' hlt
  rw [member_of_freely h (Table.get?_eq_some_iff.mpr he),
    member_of_freely h (Table.get?_eq_some_iff.mpr he')]
  exact of_decide_eq_true hlt

/-! ## Whom an update goes to -/

def others (w : World) (c : Character) : List Member :=
  w.members.values.filter fun m => some m.player ≠ c.owner?

/-- How the update of a character goes out. An armed one goes to every member on its stream.
Any other goes to the members but the owner: on the streams when it overflows a datagram, else
to the members that have an address. -/
inductive FansOut (w : World) (c : Character) (p : Packet) : List Envelope → Prop
  | armed (ha : c.presence.armed = true) : FansOut w c p
      (w.members.values.map fun m => { target := .stream m.connection, packet := p })
  | long (ha : c.presence.armed = false) (hp : p.Overflows) : FansOut w c p
      ((w.others c).map fun m => { target := .stream m.connection, packet := p })
  | short (ha : c.presence.armed = false) (hp : ¬ p.Overflows) : FansOut w c p
      ((w.others c).filterMap fun m =>
        m.address.map fun a => { target := .datagram a, packet := p })

theorem fitsDatagram_eq_false_iff : fitsDatagram p = false ↔ p.Overflows := by
  unfold fitsDatagram Packet.Overflows
  cases p.encode <;> simp

theorem sendAll_of_reliable {except : Option PlayerId} {force : Bool}
    (hr : (p.isVital || force || !fitsDatagram p) = true) : w.sendAll p except 0 force =
      (w.members.values.filter fun m => some m.player ≠ except).map fun m =>
        { target := .stream m.connection, packet := p } := by
  unfold sendAll
  rw [hr]
  simp [routeTo]

theorem sendAll_of_not_reliable {except : Option PlayerId} {force : Bool}
    (hr : (p.isVital || force || !fitsDatagram p) = false) : w.sendAll p except 0 force =
      (w.members.values.filter fun m => some m.player ≠ except).filterMap fun m =>
        m.address.map fun a => { target := .datagram a, packet := p } := by
  unfold sendAll
  rw [hr]
  simp [routeTo, Function.comp_def]

theorem fansOut_announce (hd : c.presence.isDue = true) (now : Micros) :
    w.FansOut c (.entityUpdate (c.snapshot w.name now)) (w.announce now c) := by
  unfold announce
  rw [if_pos hd]
  generalize hp : Packet.entityUpdate (c.snapshot w.name now) = p
  have hv : p.isVital = false := by rw [← hp]; rfl
  cases ha : c.presence.armed with
  | true =>
    have hex : c.presence.excluded? = none := by simp [Presence.excluded?, ha]
    rw [sendAll_of_reliable (by rw [Bool.or_true, Bool.true_or]), hex]
    have hall : (w.members.values.filter fun m => decide (some m.player ≠ none)) =
        w.members.values :=
      List.filter_eq_self.mpr fun m _ => decide_eq_true nofun
    rw [hall]
    exact .armed ha
  | false =>
    have hex : c.presence.excluded? = c.owner? := by simp [Presence.excluded?, ha, Character.owner?]
    rw [hex]
    cases hf : fitsDatagram p with
    | false =>
      rw [sendAll_of_reliable (by simp [hf])]
      exact .long ha (fitsDatagram_eq_false_iff.mp hf)
    | true =>
      rw [sendAll_of_not_reliable (by simp [hv, hf])]
      apply FansOut.short ha
      intro ho
      rw [fitsDatagram_eq_false_iff.mpr ho] at hf
      cases hf

/-! ## The copies of one character -/

/-- The character as the next tick finds it, when it is due then. -/
def due? (w : World) (clock : Clock) (k : EntityId) : Option Character :=
  ((w.characters.get? k).map (·.tick clock.frame)).filter (·.presence.isDue)

theorem filter_sendAll (q : Packet → Bool) (w : World) (p : Packet) (except : Option PlayerId)
    (delay : UInt64) (force : Bool) : (w.sendAll p except delay force).filter (q ·.packet) =
      if q p = true then w.sendAll p except delay force else [] := by
  split
  · next hp =>
    apply List.filter_eq_self.mpr
    intro x hx
    rwa [(eq_of_mem_sendAll hx).1]
  · next hp =>
    apply List.filter_eq_nil_iff.mpr
    intro x hx
    rwa [(eq_of_mem_sendAll hx).1]

theorem copies_sendAll (k : EntityId) (w : World) (p : Packet) (except : Option PlayerId)
    (delay : UInt64) (force : Bool) : copies k (w.sendAll p except delay force) =
      if p.shown? = some k then w.sendAll p except delay force else [] := by
  unfold copies
  rw [filter_sendAll (fun p => decide (p.shown? = some k))]
  simp only [decide_eq_true_eq]

theorem copies_announce (hc : c.presence.type = .character) (now : Micros) :
    copies k (w.announce now c) = if c.presence.entity = k then w.announce now c else [] := by
  unfold announce
  split
  · rw [copies_sendAll]
    simp only [Packet.shown?, Character.snapshot, hc, if_true, Option.some.injEq]
  · simp [copies]

theorem flatMap_ite {α β : Type} (f : α → List β) (q : α → Prop) [DecidablePred q]
    (xs : List α) :
    (xs.flatMap fun x => if q x then f x else []) = (xs.filter (q ·)).flatMap f := by
  induction xs with
  | nil => rfl
  | cons x xs ih =>
    rw [List.flatMap_cons, ih, List.filter_cons]
    by_cases hx : q x <;> simp [hx]

theorem filter_entity (hw : w.Keyed) (k : EntityId) :
    w.characters.values.filter (·.presence.entity = k) = (w.characters.get? k).toList := by
  cases hk : w.characters.get? k with
  | none =>
    apply List.filter_eq_nil_iff.mpr
    intro c hc he
    obtain ⟨k', hk'⟩ := Table.mem_values_iff.mp hc
    rw [← of_decide_eq_true he, (hw k' c hk').1, hk'] at hk
    cases hk
  | some c =>
    apply Table.filter_values hk (decide_eq_true (hw k c hk).1)
    intro k' b hb he
    rw [← (hw k' b hb).1]
    exact of_decide_eq_true he

theorem flatMap_announce (w : World) (clock : Clock) (k : EntityId) :
    ((w.characters.get? k).toList.flatMap fun c =>
        w.announce clock.total (c.tick clock.frame)) =
      (w.due? clock k).toList.flatMap (w.announce clock.total) := by
  unfold due?
  cases w.characters.get? k with
  | none => rfl
  | some c =>
    rw [Option.map_some, Option.filter_some]
    cases hd : (c.tick clock.frame).presence.isDue with
    | false => simp [announce, hd]
    | true => simp

theorem copies_tick (hw : w.Keyed) (clock : Clock) (k : EntityId) : copies k (w.tick clock).2 =
    (w.due? clock k).toList.flatMap (w.announce clock.total) := by
  have htiles : copies k (if (w.presence.tick clock.frame).isDue then
      w.sendAll (.entityUpdate (w.tileUpdate clock.total)) none 0
        (w.presence.tick clock.frame).armed else []) = [] := by
    split
    · rw [copies_sendAll, if_neg (by simp [Packet.shown?, tileUpdate])]
    · rfl
  have hown : ∀ c ∈ w.characters.values,
      copies k (w.announce clock.total (c.tick clock.frame)) =
        if c.presence.entity = k then w.announce clock.total (c.tick clock.frame) else [] := by
    intro c hc
    obtain ⟨k', hk'⟩ := Table.mem_values_iff.mp hc
    have htype : (c.tick clock.frame).presence.type = .character := (hw k' c hk').2
    exact copies_announce htype clock.total
  unfold tick
  rw [copies_append, htiles, List.nil_append, Table.values_map, List.flatMap_map, copies,
    List.filter_flatMap]
  calc w.characters.values.flatMap
        (fun c => copies k (w.announce clock.total (c.tick clock.frame)))
    _ = w.characters.values.flatMap (fun c => if c.presence.entity = k then
          w.announce clock.total (c.tick clock.frame) else []) := List.flatMap_congr hown
    _ = (w.characters.get? k).toList.flatMap (fun c =>
          w.announce clock.total (c.tick clock.frame)) := by rw [flatMap_ite, filter_entity hw]
    _ = (w.due? clock k).toList.flatMap (w.announce clock.total) := flatMap_announce w clock k

/-! ## What the flags remember -/

/-- What can happen to the flags of a character. -/
inductive Act
  | create | load | edit (e : CharacterEdit) | broadcast

def Act.armed? : Act → Option Bool
  | create | load => some true
  | edit e => e.armed
  | broadcast => some false

def Act.glide? : Act → Option Bool
  | create | broadcast => some true
  | load => some false
  | edit e => e.glide

def act? (k : EntityId) (l : Moment World Event) : Option Act :=
  match l.event with
  | .addPlayer ids p entity =>
    if l.state.members.get? p.id = none ∧ entity.getD ids.take.1 = k then some .create else none
  | .addCharacter ids _ _ => if ids.take.1 = k then some .create else none
  | .edit k' e => if k' = k then some (.edit e) else none
  | .packet player .worldLoaded _ =>
    if (l.state.members.get? player).map (·.character) = some k then some .load else none
  | .tick clock => if (l.state.due? clock k).isSome then some .broadcast else none
  | _ => none

/-- How a character comes out of an event, with the act on it that this was. -/
inductive Becomes (w : World) (k : EntityId) : Event → Option Act → Character → Prop
  | create {ev : Event} (hn : ev.clock? = none) (player : PlayerId) (position : Position)
      (type : String) :
      Becomes w k ev (some .create) (w.newCharacter k player position type)
  | load {ev : Event} {c : Character} (hn : ev.clock? = none) (hc : w.characters.get? k = some c) :
      Becomes w k ev (some .load) c.rearm
  | edit {ev : Event} {c : Character} (hn : ev.clock? = none) (hc : w.characters.get? k = some c)
      (e : CharacterEdit) : Becomes w k ev (some (.edit e)) (c.edit e)
  | report {ev : Event} {c : Character} (hn : ev.clock? = none) (hc : w.characters.get? k = some c)
      (time : UInt64) (position : Position) : Becomes w k ev none (c.moved time position)
  | keep {ev : Event} {c : Character} (hn : ev.clock? = none)
      (hc : w.characters.get? k = some c) : Becomes w k ev none c
  | broadcast {clock : Clock} {c : Character} (hc : w.characters.get? k = some c)
      (hd : (c.tick clock.frame).presence.isDue = true) :
      Becomes w k (.tick clock) (some .broadcast) (c.tick clock.frame).afterBroadcast
  | wait {clock : Clock} {c : Character} (hc : w.characters.get? k = some c)
      (hd : (c.tick clock.frame).presence.isDue = false) :
      Becomes w k (.tick clock) none (c.tick clock.frame)

theorem becomes_tick (hc : (w.tick clock).1.characters.get? k = some c') :
    w.Becomes k (.tick clock) (act? k ⟨w, .tick clock⟩) c' := by
  have hc : ((w.characters.map (·.tick clock.frame)).map settle).get? k = some c' := hc
  rw [Table.get?_map, Table.get?_map, Option.map_map] at hc
  obtain ⟨c, hk, rfl⟩ := Option.map_eq_some_iff.mp hc
  simp only [act?, due?, hk, Option.map_some, Option.filter_some, Function.comp_apply, settle]
  cases hd : (c.tick clock.frame).presence.isDue with
  | true => exact .broadcast hk hd
  | false => exact .wait hk hd

theorem becomes_of_makes (h : w.Makes ev w') (hn : ev.clock? = none)
    (ha : act? k ⟨w, ev⟩ = none) (hc : w'.characters.get? k = some c') :
    w.Becomes k ev none c' := by
  have insert {k' : EntityId} {c : Character} (hne : k' ≠ k)
      (hc : (w.characters.insert k' c).get? k = some c') : w.Becomes k ev none c' := by
    rw [Table.get?_insert, if_neg hne.symm] at hc
    exact .keep hn hc
  have modify {k' : EntityId} {f : Character → Character} (hne : k' ≠ k)
      (hc : (w.characters.modify k' f).get? k = some c') : w.Becomes k ev none c' := by
    rw [Table.get?_modify, if_neg hne.symm] at hc
    exact .keep hn hc
  cases h with
  | nothing => exact .keep hn hc
  | enter hfree =>
    apply insert _ hc
    rintro rfl
    simp [act?, hfree] at ha
  | appear =>
    apply insert _ hc
    rintro rfl
    simp [act?] at ha
  | edit =>
    apply modify _ hc
    rintro rfl
    simp [act?] at ha
  | leave => exact .keep hn (Table.get?_erase_eq_some_iff.mp hc).2
  | vanish => exact .keep hn (Table.get?_erase_eq_some_iff.mp hc).2
  | readdress => exact .keep hn hc
  | load hm =>
    apply modify _ hc
    rintro rfl
    simp [act?, hm] at ha
  | @report p u wall m c position =>
    have hc : (w.characters.modify m.character (·.moved u.time position)).get? k = some c' := hc
    rw [Table.get?_modify] at hc
    split at hc
    · obtain ⟨c, hk, rfl⟩ := Option.map_eq_some_iff.mp hc
      exact .report hn hk u.time position
    · exact .keep hn hc
  | write => exact .keep hn hc
  | tick clock => cases hn

theorem characters_worldLoaded {player : PlayerId} {wall : UInt64} {m : Member}
    (hm : w.members.get? player = some m) :
    (w.step (.packet player .worldLoaded wall)).1.characters =
      w.characters.modify m.character Character.rearm := by
  change (w.orKeep (w.worldLoaded player wall) id).1.characters = _
  unfold worldLoaded
  rw [member_eq_ok_iff.mpr hm]
  rfl

theorem becomes_of_act? {a : Act} (hn : ev.clock? = none) (ha : act? k ⟨w, ev⟩ = some a)
    (hc : (w.step ev).1.characters.get? k = some c') : w.Becomes k ev (some a) c' := by
  have create {player : PlayerId} {position : Position} {type : String}
      (hc : (w.characters.insert k (w.newCharacter k player position type)).get? k = some c') :
      w.Becomes k ev (some .create) c' := by
    rw [Table.get?_insert_self] at hc
    cases hc
    exact .create hn player position type
  cases ev with
  | addPlayer ids p entity =>
    obtain ⟨⟨hfree, hk⟩, ⟨⟩⟩ := Option.ite_none_right_eq_some.mp ha
    obtain ⟨s, hs⟩ := addPlayer_isOk ids entity hfree
    obtain ⟨-, hv, hst⟩ := addPlayer_eq_ok hs
    have hk : s.value.1 = k := by
      rw [← hk, hv]
      cases entity <;> rfl
    simp only [step, hs, orKeep, hst, hk] at hc
    exact create hc
  | addCharacter ids position type =>
    obtain ⟨hk, ⟨⟩⟩ := Option.ite_none_right_eq_some.mp ha
    cases hk
    exact create hc
  | edit k' e =>
    obtain ⟨rfl, ⟨⟩⟩ := Option.ite_none_right_eq_some.mp ha
    have hc : (w.characters.modify k' (·.edit e)).get? k' = some c' := hc
    rw [Table.get?_modify, if_pos rfl] at hc
    obtain ⟨c, hk, rfl⟩ := Option.map_eq_some_iff.mp hc
    exact .edit hn hk e
  | packet player p wall =>
    cases p with
    | worldLoaded =>
      obtain ⟨hk, ⟨⟩⟩ := Option.ite_none_right_eq_some.mp ha
      obtain ⟨m, hm, rfl⟩ := Option.map_eq_some_iff.mp hk
      rw [characters_worldLoaded hm, Table.get?_modify, if_pos rfl] at hc
      obtain ⟨c, hk, rfl⟩ := Option.map_eq_some_iff.mp hc
      exact .load hn hk
    | _ => cases ha
  | tick clock => cases hn
  | _ => cases ha

theorem becomes_step (hc : (w.step ev).1.characters.get? k = some c') :
    w.Becomes k ev (act? k ⟨w, ev⟩) c' := by
  cases hn : ev.clock? with
  | some clock =>
    cases ev <;> cases hn
    exact becomes_tick hc
  | none =>
    cases ha : act? k ⟨w, ev⟩ with
    | none => exact becomes_of_makes (makes_step w ev) hn ha hc
    | some a => exact becomes_of_act? hn ha hc

/-- How the flags of a character come out of an event. -/
inductive Turns (w : World) (k : EntityId) (c' : Character) : Option Act → Prop
  | create (ha : c'.presence.armed = true) (hg : c'.glide = true) : Turns w k c' (some .create)
  | keep {c : Character} {a : Option Act} (hc : w.characters.get? k = some c)
      (ha : c'.presence.armed = (a.bind Act.armed?).getD c.presence.armed)
      (hg : c'.glide = (a.bind Act.glide?).getD c.glide) : Turns w k c' a

theorem turns_step (hc : (w.step ev).1.characters.get? k = some c') :
    w.Turns k c' (act? k ⟨w, ev⟩) := by
  have h := becomes_step hc
  generalize act? k ⟨w, ev⟩ = a at h ⊢
  cases h with
  | create => exact .create rfl rfl
  | load _ hk | edit _ hk | report _ hk | keep _ hk => exact .keep hk rfl rfl
  | broadcast hk | wait hk => exact .keep hk rfl rfl

/-- At the moment an act on the character sets the flag to the value. -/
def Sets (k : EntityId) (flag? : Act → Option Bool) (b : Bool) (l : Moment World Event) : Prop :=
  (act? k l).bind flag? = some b

theorem flag_eq_iff_since (flag : Character → Bool) {flag? : Act → Option Bool}
    (hflag : ∀ {w : World} {a : Option Act} {c' : Character}, w.Turns k c' a →
      a.bind flag? = some (flag c') ∨
        a.bind flag? = none ∧ ∃ c, w.characters.get? k = some c ∧ flag c = flag c')
    (h : freely.Run ms w) (hc : w.characters.get? k = some c) (b : Bool) :
    flag c = b ↔ Since (Sets k flag? b) (Sets k flag? !b) ms := by
  induction h generalizing c with
  | start h =>
    obtain ⟨config, sync, ids, rfl⟩ := h
    cases hc
  | @step ms w ev _ _ ih =>
    rw [since_cons_iff, Sets, Sets]
    obtain hs | ⟨hs, c₀, hc₀, he⟩ := hflag (turns_step hc)
    · rw [hs, Option.some.injEq, Option.some.injEq]
      cases flag c <;> cases b <;> simp
    · rw [hs, ← he, ih hc₀]
      simp

theorem eq_getD_cases {a? : Option Bool} {b b' : Bool} (h : b' = a?.getD b) :
    a? = some b' ∨ a? = none ∧ b = b' := by
  cases a? with
  | none => exact Or.inr ⟨rfl, h.symm⟩
  | some a => exact Or.inl (congrArg some h.symm)

theorem armed_eq_iff_since (h : freely.Run ms w) (hc : w.characters.get? k = some c) (b : Bool) :
    c.presence.armed = b ↔ Since (Sets k Act.armed? b) (Sets k Act.armed? !b) ms := by
  apply flag_eq_iff_since (·.presence.armed) _ h hc
  intro w a c' ht
  cases ht with
  | create ha => exact Or.inl (congrArg some ha.symm)
  | keep hc ha => exact (eq_getD_cases ha).imp_right fun ⟨hn, he⟩ => ⟨hn, _, hc, he⟩

theorem glide_eq_iff_since (h : freely.Run ms w) (hc : w.characters.get? k = some c) (b : Bool) :
    c.glide = b ↔ Since (Sets k Act.glide? b) (Sets k Act.glide? !b) ms := by
  apply flag_eq_iff_since (·.glide) _ h hc
  intro w a c' ht
  cases ht with
  | create _ hg => exact Or.inl (congrArg some hg.symm)
  | keep hc _ hg => exact (eq_getD_cases hg).imp_right fun ⟨hn, he⟩ => ⟨hn, _, hc, he⟩

/-- What a tick after any run sends of a character: nothing when the character is not due, else
one update to each member that is to hear of it, in the order of the players' numbers. The
update is armed when the newest act on that flag armed the character, and places it at once when
the newest act on the other flag asked for that. A broadcast is itself an act on both. -/
theorem broadcasts_of_run (h : freely.Run ms w) (clock : Clock) (k : EntityId) :
    (w.members.values.Pairwise fun m m' => m.player.val < m'.player.val) ∧
      (w.due? clock k = none → copies k (w.tick clock).2 = []) ∧
      ∀ c, w.due? clock k = some c →
        w.FansOut c (.entityUpdate (c.snapshot w.name clock.total)) (copies k (w.tick clock).2) ∧
        (c.presence.armed = true ↔ Since (Sets k Act.armed? true) (Sets k Act.armed? false) ms) ∧
        (c.glide = false ↔ Since (Sets k Act.glide? false) (Sets k Act.glide? true) ms) := by
  have hcopies := copies_tick (keyed_of_freely h) clock k
  refine ⟨pairwise_members h, ?_, ?_⟩
  · intro hd
    rw [hcopies, hd]
    rfl
  · intro c hd
    rw [hd, Option.toList_some, List.flatMap_singleton] at hcopies
    rw [hcopies]
    obtain ⟨hc, hdue⟩ := Option.filter_eq_some_iff.mp hd
    obtain ⟨c, hk, rfl⟩ := Option.map_eq_some_iff.mp hc
    exact ⟨fansOut_announce hdue clock.total, armed_eq_iff_since h hk true,
      glide_eq_iff_since h hk false⟩

/-- Ann is on the farm with character 2, which a first tick has sent, and Bob has come since. -/
def dusk : List (Moment World Event) × World :=
  let ann : Player := { connection := ⟨1⟩, id := ⟨1⟩, name := "ann" }
  let bob : Player := { connection := ⟨2⟩, id := ⟨2⟩, name := "bob", address := some ⟨"b"⟩ }
  let created := World.create { islands := [] } {} {}
  freely.play [] created.1 [.addPlayer created.2 ann none, .tick ⟨50000, 50000, 1⟩,
    .addPlayer created.2.take.2 bob none]

theorem broadcasts_of_run_dusk : freely.Run dusk.1 dusk.2 ∧
    ∃ c c', dusk.2.due? ⟨100000, 50000, 2⟩ ⟨2⟩ = some c ∧ c.presence.armed = false ∧
      dusk.2.due? ⟨100000, 50000, 2⟩ ⟨3⟩ = some c' ∧ c'.presence.armed = true ∧
      dusk.2.FansOut c (.entityUpdate (c.snapshot dusk.2.name 100000))
        (copies ⟨2⟩ (dusk.2.tick ⟨100000, 50000, 2⟩).2) ∧
      ¬ Since (Sets ⟨2⟩ Act.armed? true) (Sets ⟨2⟩ Act.armed? false) dusk.1 ∧
      Since (Sets ⟨3⟩ Act.armed? true) (Sets ⟨3⟩ Act.armed? false) dusk.1 := by
  have hstart : freely.Starts (World.create { islands := [] } {} {}).1 := ⟨_, _, _, rfl⟩
  have hrun : freely.Run dusk.1 dusk.2 :=
    (System.Run.start hstart).play ⟨trivial, trivial, trivial, trivial⟩
  obtain ⟨c, hc⟩ := Option.isSome_iff_exists.mp
    (show (dusk.2.due? ⟨100000, 50000, 2⟩ ⟨2⟩).isSome by decide +kernel)
  obtain ⟨c', hc'⟩ := Option.isSome_iff_exists.mp
    (show (dusk.2.due? ⟨100000, 50000, 2⟩ ⟨3⟩).isSome by decide +kernel)
  have ha : (dusk.2.due? ⟨100000, 50000, 2⟩ ⟨2⟩).map (·.presence.armed) = some false := by
    decide +kernel
  have ha' : (dusk.2.due? ⟨100000, 50000, 2⟩ ⟨3⟩).map (·.presence.armed) = some true := by
    decide +kernel
  rw [hc, Option.map_some, Option.some.injEq] at ha
  rw [hc', Option.map_some, Option.some.injEq] at ha'
  obtain ⟨hfan, harmed, -⟩ := (broadcasts_of_run hrun ⟨100000, 50000, 2⟩ ⟨2⟩).2.2 c hc
  obtain ⟨-, harmed', -⟩ := (broadcasts_of_run hrun ⟨100000, 50000, 2⟩ ⟨3⟩).2.2 c' hc'
  refine ⟨hrun, c, c', hc, ha, hc', ha', hfan, fun hs => ?_, harmed'.mp ha'⟩
  rw [harmed.mpr hs] at ha
  cases ha

end World

end SharedWorld
