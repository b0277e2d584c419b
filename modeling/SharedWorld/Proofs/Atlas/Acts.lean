import Mathlib.Data.List.Basic
import SharedWorld.Proofs.Atlas.Members
import SharedWorld.Proofs.World.Run

/-! # The acts of an atlas

The events of an atlas are its operations, with any arguments, and what is done to one of its
worlds from outside. A refused operation changes nothing. Each event comes down to a few
events of single worlds, its acts, done one after another.
-/

namespace SharedWorld

namespace Atlas

inductive Event
  | addPlayer (p : Player) (preferred : Option String)
  | transfer (p : Player) (destination : String) (wall : UInt64)
  | removePlayer (player : PlayerId) (wall : UInt64)
  | route (player : PlayerId) (k : Packet) (wall : UInt64)
  | setAddress (player : PlayerId) (address : Address)
  | addCharacter (world : String) (position : Position) (type : String)
  | setPlot (world : String) (island layer : Nat) (x y : UInt32) (plot : Plot) (time : UInt64)
  | tick (clock : Clock)

def addCharacter (a : Atlas) (world : String) (position : Position) (type : String) :
    Atlas × List Envelope :=
  match a.worlds.get? world with
  | none => (a, [])
  | some w =>
    let s := w.addCharacter a.ids position type
    ({ a with worlds := a.worlds.insert world s.state, ids := s.value.2 }, s.sent)

def setPlot (a : Atlas) (world : String) (island layer : Nat) (x y : UInt32) (plot : Plot)
    (time : UInt64) : Atlas :=
  match a.worlds.get? world with
  | none => a
  | some w =>
    match w.setPlot island layer x y plot time with
    | .ok (w, _) => { a with worlds := a.worlds.insert world w }
    | .error _ => a

def step (a : Atlas) : Event → Atlas × List Envelope
  | .addPlayer p preferred =>
    match a.addPlayer p preferred with
    | .ok s => (s.state, s.sent)
    | .error _ => (a, [])
  | .transfer p destination wall =>
    let out := a.transfer p destination wall
    (out.state, out.sent)
  | .removePlayer player wall =>
    let out := a.removePlayer player wall
    (out.state, out.sent)
  | .route player k wall =>
    match a.route player k wall with
    | .ok out => out
    | .error _ => (a, [])
  | .setAddress player address => (a.setAddress player address, [])
  | .addCharacter world position type => a.addCharacter world position type
  | .setPlot world island layer x y plot time => (a.setPlot world island layer x y plot time, [])
  | .tick clock => a.tick clock

def system : System Atlas Event where
  Starts a := ∃ configs starting sync, create configs starting sync = .ok a
  Admits _ _ := True
  step := step

abbrev Act : Type := String × World.Event

/-- What an event of one world makes of all of them. -/
def act (ws : Table String World) (x : Act) : Table String World × List Envelope :=
  match ws.get? x.1 with
  | none => (ws, [])
  | some w => (ws.insert x.1 (w.step x.2).1, (w.step x.2).2)

def perform (ws : Table String World) : List Act → Table String World × List Envelope
  | [] => (ws, [])
  | x :: xs =>
    let out := act ws x
    let rest := perform out.1 xs
    (rest.1, out.2 ++ rest.2)

def home? (a : Atlas) (player : PlayerId) : Option (String × Member) := do
  let world ← a.index.get? player
  let m ← a.member? world player
  return (world, m)

/-- What an event does to single worlds, in order. -/
def acts (a : Atlas) : Event → List Act
  | .addPlayer p preferred =>
    match a.index.get? p.id with
    | none => [(a.placement preferred, .addPlayer a.ids p none)]
    | some _ => []
  | .transfer p destination wall =>
    match a.worlds.get? destination, a.home? p.id with
    | some _, some (world, m) =>
      [(world, .removePlayer p.id wall), (destination, .addPlayer a.ids p (some m.character))]
    | _, _ => []
  | .removePlayer player wall => (a.index.get? player).toList.map (·, .removePlayer player wall)
  | .route player k wall => (a.index.get? player).toList.map (·, .packet player k wall)
  | .setAddress player address =>
    (a.index.get? player).toList.map (·, .setAddress player address)
  | .addCharacter world position type => [(world, .addCharacter a.ids position type)]
  | .setPlot world island layer x y plot time => [(world, .setPlot island layer x y plot time)]
  | .tick clock => a.worlds.keys.map (·, .tick clock)

variable {a : Atlas} {ws : Table String World} {w : World} {W : String} {p : Player}
  {q : PlayerId} {ev : World.Event} {sent : List Envelope}

theorem act_of_get? (hw : ws.get? W = some w) :
    act ws (W, ev) = (ws.insert W (w.step ev).1, (w.step ev).2) := by
  unfold act
  rw [hw]

theorem get?_act (ws : Table String World) (V W : String) (ev : World.Event) :
    (act ws (W, ev)).1.get? V =
      if V = W then (ws.get? V).map fun w => (w.step ev).1 else ws.get? V := by
  by_cases hV : V = W
  · subst hV
    rw [if_pos rfl]
    cases hw : ws.get? V with
    | none => simp [act, hw]
    | some w => simp [act, hw]
  · rw [if_neg hV]
    unfold act
    split
    · rfl
    · rw [Table.get?_insert, if_neg hV]

theorem sent_act (ws : Table String World) (W : String) (ev : World.Event) :
    (act ws (W, ev)).2 = (ws.get? W).elim [] fun w => (w.step ev).2 := by
  unfold act
  split <;> next hw => rw [hw]; rfl

theorem perform_singleton (x : Act) : perform ws [x] = act ws x := by
  simp [perform]

/-- What each act keeps is kept by all of them. -/
theorem perform_induction {I : Table String World → List Envelope → Prop}
    (ws : Table String World) (xs : List Act)
    (h₁ : ∀ ws sent x w, x ∈ xs → ws.get? x.1 = some w → I ws sent →
      I (ws.insert x.1 (w.step x.2).1) (sent ++ (w.step x.2).2))
    (sent : List Envelope) (h₀ : I ws sent) : I (perform ws xs).1 (sent ++ (perform ws xs).2) := by
  induction xs generalizing ws sent with
  | nil => simpa [perform] using h₀
  | cons x xs ih =>
    have hx : I (act ws x).1 (sent ++ (act ws x).2) := by
      cases hw : ws.get? x.1 with
      | none => simpa [act, hw] using h₀
      | some w => simpa [act, hw] using h₁ ws sent x w List.mem_cons_self hw h₀
    have := ih _ (fun ws sent y w hy => h₁ ws sent y w (List.mem_cons_of_mem _ hy)) _ hx
    simpa [perform] using this

theorem act_enter {entity : Option EntityId} {s : Step Atlas EntityId}
    (h : a.enter p W entity = .ok s) :
    act a.worlds (W, .addPlayer a.ids p entity) = (s.state.worlds, s.sent) := by
  unfold enter at h
  split at h
  · cases h
  next w hw =>
  obtain ⟨s₁, h₁, ho⟩ := Except.bind_eq_ok_iff.mp h
  cases ho
  rw [act_of_get? hw]
  simp [World.step, World.orKeep, h₁]

theorem act_removePlayer (h : a.Sound) (hi : a.index.get? q = some W) (wall : UInt64) :
    act a.worlds (W, .removePlayer q wall) =
      ((a.removePlayer q wall).state.worlds, (a.removePlayer q wall).sent) := by
  obtain ⟨w, m, hw, hm, -⟩ := h.member_of_index hi
  obtain ⟨s, hs, -⟩ := World.removePlayer_isOk wall hm
  rw [act_of_get? hw]
  simp [World.step, World.orKeep, removePlayer, hi, hw, hs]

theorem perform_each (ws : Table String World) (ev : World.Event) {names : List String}
    (hn : names.Nodup) :
    (∀ V, (perform ws (names.map (·, ev))).1.get? V =
        if V ∈ names then (ws.get? V).map fun w => (w.step ev).1 else ws.get? V) ∧
      (perform ws (names.map (·, ev))).2 =
        names.flatMap fun V => (ws.get? V).elim [] fun w => (w.step ev).2 := by
  induction names generalizing ws with
  | nil => simp [perform]
  | cons U names ih =>
    obtain ⟨hU, hn⟩ := List.nodup_cons.mp hn
    obtain ⟨hg, hs⟩ := ih (act ws (U, ev)).1 hn
    constructor
    · intro V
      change (perform (act ws (U, ev)).1 (names.map (·, ev))).1.get? V = _
      rw [hg, get?_act]
      by_cases hV : V = U
      · subst hV
        simp [hU]
      · simp [hV]
    · change (act ws (U, ev)).2 ++ (perform (act ws (U, ev)).1 (names.map (·, ev))).2 = _
      rw [hs, sent_act, List.flatMap_cons]
      congr 1
      refine List.flatMap_congr fun V hV => ?_
      rw [get?_act, if_neg fun he => hU (by rw [← he]; exact hV)]

theorem perform_tick (a : Atlas) (clock : Clock) :
    perform a.worlds (a.worlds.keys.map (·, .tick clock)) =
      ((a.tick clock).1.worlds, (a.tick clock).2) := by
  obtain ⟨hg, hs⟩ := perform_each a.worlds (.tick clock) a.worlds.nodup_keys
  refine Prod.ext (Table.ext_get? fun V => ?_) ?_
  · rw [hg]
    change _ = ((a.worlds.map fun w => w.tick clock).map (·.1)).get? V
    rw [Table.get?_map, Table.get?_map, Option.map_map]
    split
    · rfl
    · next hV =>
      have hn := Option.not_isSome_iff_eq_none.mp (mt Table.mem_keys_iff.mpr hV)
      rw [hn]
      rfl
  · rw [hs]
    change _ = (a.worlds.map fun w => w.tick clock).values.flatMap (·.2)
    rw [Table.values_map, List.flatMap_map, Table.flatMap_values]
    rfl

theorem home?_eq_some_iff {m : Member} :
    a.home? q = some (W, m) ↔ a.index.get? q = some W ∧ a.member? W q = some m := by
  constructor
  · intro h
    obtain ⟨V, hi, h⟩ := Option.bind_eq_some_iff.mp h
    obtain ⟨m', hm, h⟩ := Option.bind_eq_some_iff.mp h
    cases h
    exact ⟨hi, hm⟩
  · rintro ⟨hi, hm⟩
    simp [home?, hi, hm]

/-- Which acts an event comes down to. -/
inductive Does (a : Atlas) : Event → Act → Prop
  | enter {p : Player} (preferred : Option String) :
      Does a (.addPlayer p preferred) (a.placement preferred, .addPlayer a.ids p none)
  | depart {p : Player} {V W : String} {m : Member} {wall : UInt64}
      (hh : a.home? p.id = some (V, m)) : Does a (.transfer p W wall) (V, .removePlayer p.id wall)
  | arrive {p : Player} {V W : String} {m : Member} {wall : UInt64}
      (hh : a.home? p.id = some (V, m)) :
      Does a (.transfer p W wall) (W, .addPlayer a.ids p (some m.character))
  | leave {q : PlayerId} {wall : UInt64} (V : String) :
      Does a (.removePlayer q wall) (V, .removePlayer q wall)
  | packet {q : PlayerId} {k : Packet} {wall : UInt64} (V : String) :
      Does a (.route q k wall) (V, .packet q k wall)
  | readdress {q : PlayerId} {address : Address} (V : String) :
      Does a (.setAddress q address) (V, .setAddress q address)
  | appear {V : String} {position : Position} {type : String} :
      Does a (.addCharacter V position type) (V, .addCharacter a.ids position type)
  | write {V : String} {island layer : Nat} {x y : UInt32} {plot : Plot} {time : UInt64} :
      Does a (.setPlot V island layer x y plot time) (V, .setPlot island layer x y plot time)
  | tick {clock : Clock} (V : String) : Does a (.tick clock) (V, .tick clock)

theorem does_of_mem {e : Event} {x : Act} (hx : x ∈ a.acts e) : a.Does e x := by
  cases e with
  | addPlayer p preferred =>
    simp only [acts] at hx
    split at hx
    · obtain rfl := List.mem_singleton.mp hx
      exact .enter preferred
    · cases hx
  | transfer p W wall =>
    simp only [acts] at hx
    split at hx
    · next hh =>
      rcases List.mem_cons.mp hx with rfl | hx
      · exact .depart hh
      · obtain rfl := List.mem_singleton.mp hx
        exact .arrive hh
    · cases hx
  | removePlayer =>
    obtain ⟨V, -, rfl⟩ := List.mem_map.mp hx
    exact .leave V
  | route =>
    obtain ⟨V, -, rfl⟩ := List.mem_map.mp hx
    exact .packet V
  | setAddress =>
    obtain ⟨V, -, rfl⟩ := List.mem_map.mp hx
    exact .readdress V
  | addCharacter =>
    obtain rfl := List.mem_singleton.mp hx
    exact .appear
  | setPlot =>
    obtain rfl := List.mem_singleton.mp hx
    exact .write
  | tick =>
    obtain ⟨V, -, rfl⟩ := List.mem_map.mp hx
    exact .tick V

theorem placement_exists (h : a.Sound) (preferred : Option String) :
    (a.worlds.get? (a.placement preferred)).isSome := by
  unfold placement
  split
  · split
    · next hc => exact hc
    · exact h.starting
  · exact h.starting

theorem addPlayer_of_none (h : a.Sound) (hi : a.index.get? p.id = none)
    (preferred : Option String) :
    ∃ s, a.enter p (a.placement preferred) none = .ok s ∧ a.addPlayer p preferred =
      .ok { state := s.state, sent := s.sent, value := (a.placement preferred, s.value) } := by
  obtain ⟨s, hs⟩ := enter_isOk none (placement_exists h preferred)
    (h.member?_eq_none_of_index hi _)
  refine ⟨s, hs, ?_⟩
  unfold addPlayer
  rw [hi]
  dsimp only
  rw [hs]
  rfl

theorem transfer_of_home (h : a.Sound) (hW : (a.worlds.get? W).isSome) {V : String} {m : Member}
    (hh : a.home? p.id = some (V, m)) (wall : UInt64) :
    ∃ s, (a.removePlayer p.id wall).state.ids = a.ids ∧
      (a.removePlayer p.id wall).state.enter p W (some m.character) = .ok s ∧
      a.transfer p W wall = ⟨s.state, (a.removePlayer p.id wall).sent ++ s.sent, .ok s.value⟩ := by
  obtain ⟨hi, hm⟩ := home?_eq_some_iff.mp hh
  obtain ⟨hn, -⟩ | ⟨V', m', hm', hv, hids, hl⟩ := removePlayer_cases h p.id wall
  · rw [hi] at hn
    cases hn
  obtain rfl : V' = V := by
    rw [h.index_of_member hm'] at hi
    exact Option.some.inj hi
  obtain rfl : m' = m := Option.some.inj (hm'.symm.trans hm)
  have hgone : (a.removePlayer p.id wall).state.member? W p.id = none := by
    rw [hl.member, if_pos rfl]
  obtain ⟨s, hs⟩ := enter_isOk (some m'.character) (by rw [hl.worlds]; exact hW) hgone
  refine ⟨s, hids, hs, ?_⟩
  unfold transfer
  rw [Table.contains_eq, hW, Bool.not_true, if_neg Bool.false_ne_true]
  dsimp only
  rw [hv]
  dsimp only
  rw [hs]

theorem transfer_refused (h : a.Sound) (wall : UInt64)
    (hn : a.worlds.get? W = none ∨ a.home? p.id = none) :
    a.acts (.transfer p W wall) = [] ∧ a.step (.transfer p W wall) = (a, []) := by
  cases hW : a.worlds.get? W with
  | none => simp [acts, step, hW, transfer, Table.contains_eq]
  | some w =>
    have hh : a.home? p.id = none := hn.resolve_left (by simp [hW])
    obtain ⟨-, ho⟩ | ⟨V, m, hm, -⟩ := removePlayer_cases h p.id wall
    · simp [acts, step, hW, hh, transfer, Table.contains_eq, ho]
    · rw [home?_eq_some_iff.mpr ⟨h.index_of_member hm, hm⟩] at hh
      cases hh

/-- The event does to the worlds, and sends, what its acts do and send. -/
def Performs (a : Atlas) (e : Event) : Prop :=
  perform a.worlds (a.acts e) = ((a.step e).1.worlds, (a.step e).2)

theorem perform_at_home (h : a.Sound) {out : Table String World × List Envelope}
    (hn : a.index.get? q = none → out = (a.worlds, []))
    (hs : ∀ V w, a.index.get? q = some V → a.worlds.get? V = some w →
      out = (a.worlds.insert V (w.step ev).1, (w.step ev).2)) :
    perform a.worlds ((a.index.get? q).toList.map (·, ev)) = out := by
  cases hi : a.index.get? q with
  | none => exact (hn hi).symm
  | some V =>
    obtain ⟨w, -, hw, -⟩ := h.member_of_index hi
    rw [hs V w hi hw]
    exact (perform_singleton _).trans (act_of_get? hw)

theorem performs_addPlayer (h : a.Sound) (p : Player) (preferred : Option String) :
    a.Performs (.addPlayer p preferred) := by
  unfold Performs
  cases hi : a.index.get? p.id with
  | none =>
    obtain ⟨s, hs, ha⟩ := addPlayer_of_none h hi preferred
    simp [acts, step, hi, ha, perform_singleton, act_enter hs]
  | some V => simp [acts, step, hi, perform, addPlayer]

theorem performs_transfer (h : a.Sound) (p : Player) (W : String) (wall : UInt64) :
    a.Performs (.transfer p W wall) := by
  unfold Performs
  by_cases hn : a.worlds.get? W = none ∨ a.home? p.id = none
  · obtain ⟨hacts, ho⟩ := transfer_refused h wall hn
    rw [hacts, ho]
    rfl
  obtain ⟨hW, hh⟩ := not_or.mp hn
  obtain ⟨w, hW⟩ := Option.ne_none_iff_exists'.mp hW
  obtain ⟨⟨V, m⟩, hh⟩ := Option.ne_none_iff_exists'.mp hh
  obtain ⟨s, hids, hs, ht⟩ := transfer_of_home h (Option.isSome_of_eq_some hW) hh wall
  have he := act_enter hs
  rw [hids] at he
  simp only [acts, hW, hh, perform, act_removePlayer h (home?_eq_some_iff.mp hh).1, he, step, ht,
    List.append_nil]

theorem performs_removePlayer (h : a.Sound) (q : PlayerId) (wall : UInt64) :
    a.Performs (.removePlayer q wall) := by
  apply perform_at_home h
  · intro hi
    simp [step, removePlayer, hi]
  · intro V w hi hw
    rw [← act_of_get? hw, act_removePlayer h hi]
    rfl

theorem performs_route (h : a.Sound) (q : PlayerId) (k : Packet) (wall : UInt64) :
    a.Performs (.route q k wall) := by
  apply perform_at_home h
  · intro hi
    simp [step, route, hi]
  · intro V w hi hw
    simp only [step, route, hi, hw, World.step]
    cases w.handle q k wall with
    | error err => simp [World.orKeep, bind, Except.bind, Table.insert_eq_self hw]
    | ok out => simp [World.orKeep, bind, Except.bind, pure, Except.pure]

theorem performs_setAddress (h : a.Sound) (q : PlayerId) (address : Address) :
    a.Performs (.setAddress q address) := by
  apply perform_at_home h
  · intro hi
    simp [step, setAddress, hi]
  · intro V w hi hw
    simp only [step, setAddress, hi, hw, World.step]
    cases w.setAddress q address with
    | error err => simp [World.orKeep, Table.insert_eq_self hw]
    | ok out => simp [World.orKeep]

theorem performs_addCharacter (a : Atlas) (W : String) (position : Position) (type : String) :
    a.Performs (.addCharacter W position type) := by
  simp only [Performs, acts, perform_singleton, step, addCharacter, act]
  cases a.worlds.get? W <;> rfl

theorem performs_setPlot (a : Atlas) (W : String) (island layer : Nat) (x y : UInt32) (plot : Plot)
    (time : UInt64) : a.Performs (.setPlot W island layer x y plot time) := by
  simp only [Performs, acts, perform_singleton, step, setPlot, act]
  cases hw : a.worlds.get? W with
  | none => rfl
  | some w =>
    simp only [World.step]
    cases w.setPlot island layer x y plot time with
    | error err => simp [World.orKeep, Table.insert_eq_self hw]
    | ok out => simp [World.orKeep]

theorem perform_acts (h : a.Sound) (e : Event) :
    perform a.worlds (a.acts e) = ((a.step e).1.worlds, (a.step e).2) := by
  cases e with
  | addPlayer p preferred => exact performs_addPlayer h p preferred
  | transfer p W wall => exact performs_transfer h p W wall
  | removePlayer q wall => exact performs_removePlayer h q wall
  | route q k wall => exact performs_route h q k wall
  | setAddress q address => exact performs_setAddress h q address
  | addCharacter W position type => exact performs_addCharacter a W position type
  | setPlot W island layer x y plot time => exact performs_setPlot a W island layer x y plot time
  | tick clock => exact perform_tick a clock

end Atlas

end SharedWorld
