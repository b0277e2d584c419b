import SharedWorld.Proofs.Atlas.Run
import SharedWorld.Proofs.Delivery
import SharedWorld.Proofs.World.Gate

/-! # Staying in a world

A player that is in a world has been in it since it was last told to load one. All that time
nothing moves the player or, while the numbers of entities last, touches its character. So
what the events of the world keep under these conditions, between the world and what the
player's stream has been told, holds for the whole stay.
-/

namespace SharedWorld

namespace Atlas

variable {a : Atlas} {e : Event} {p : Player} {q : PlayerId} {W : String} {w : World}
  {c : ConnectionId} {k : EntityId} {later past : List (Moment Atlas Event)}

/-- At this moment the player is brought into the world. It is told last of all to load it. -/
def Loads (l : Moment Atlas Event) (p : Player) (W : String) : Prop :=
  l.event.enters? = some p ∧ ∃ before, system.sent l = before ++ [loading p W]

/-- At none of these moments is the player brought into a world. -/
def Unmoved (q : PlayerId) (ms : List (Moment Atlas Event)) : Prop :=
  ∀ l ∈ ms, ∀ p W, p.id = q → ¬ Loads l p W

theorem unmoved_of_enters {ms : List (Moment Atlas Event)}
    (h : ∀ l ∈ ms, ∀ p ∈ l.event.enters?, p.id ≠ q) : Unmoved q ms :=
  fun l hl p _ hp hloads => h l hl p hloads.1 hp

theorem moves_acts {x : Act} (hx : x ∈ a.acts e) (hq : x.2.moves? = some q) :
    e.moves? = some q := by
  cases does_of_mem hx with
  | enter | depart | arrive | leave => exact hq
  | _ => cases hq

def Seats (a : Atlas) (W : String) (q : PlayerId) (c : ConnectionId) (k : EntityId) : Prop :=
  ∃ w, a.worlds.get? W = some w ∧ w.Seats q c k

theorem seats_iff : a.Seats W q c k ↔
    ∃ m, a.member? W q = some m ∧ m.connection = c ∧ m.character = k := by
  constructor
  · rintro ⟨w, hw, m, hm, h⟩
    exact ⟨m, by rw [member?, hw]; exact hm, h⟩
  · rintro ⟨m, hm, h⟩
    obtain ⟨w, hw, hm⟩ := Option.bind_eq_some_iff.mp hm
    exact ⟨w, hw, m, hm, h⟩

theorem seats_before (h : a.Valid) (hn : Unmoved q [⟨a, e⟩])
    (hs : (a.step e).1.Seats W q c k) :
    (∀ x ∈ a.acts e, x.2.moves? ≠ some q) ∧ a.Seats W q c k := by
  have stays (he : e.moves? ≠ some q) : ∀ x ∈ a.acts e, x.2.moves? ≠ some q :=
    fun x hx hq => he (moves_acts hx hq)
  obtain ⟨hmakes, -, -⟩ := makes_step h e
  have hn := hn _ List.mem_cons_self
  unfold Loads system System.sent at hn
  dsimp only at hn
  rw [seats_iff] at hs ⊢
  obtain ⟨m, hm, hc, hk⟩ := hs
  generalize a.step e = out at hmakes hm hn
  cases hmakes with
  | refused hacts =>
    rw [hacts]
    exact ⟨nofun, m, hm, hc, hk⟩
  | @settles _ p V c a' before he hset =>
    have hne : q ≠ p.id := fun hq => hn p V hq.symm ⟨he, before, rfl⟩
    rw [hset.member, if_neg hne] at hm
    refine ⟨stays fun hq => hne ?_, m, hm, hc, hk⟩
    rw [moves_of_enters he] at hq
    exact (Option.some.inj hq).symm
  | @leaves q' wall a' sent hl =>
    rw [hl.member] at hm
    split at hm
    · cases hm
    · next hne => exact ⟨stays fun hq => hne (Option.some.inj hq).symm, m, hm, hc, hk⟩
  | readdresses hr =>
    refine ⟨stays nofun, ?_⟩
    rw [hr.member] at hm
    split at hm
    · obtain ⟨m₀, hm₀, rfl⟩ := Option.map_eq_some_iff.mp hm
      exact ⟨m₀, hm₀, hc, hk⟩
    · exact ⟨m, hm, hc, hk⟩
  | keeps he hkeeps =>
    rw [hkeeps.member] at hm
    exact ⟨stays (he ▸ nofun), m, hm, hc, hk⟩

/-- Acts that move others leave the character alone, for numbers are not used twice. -/
theorem spares_acts (h : a.Valid) (hids : a.ids.next < UInt32.size) (hs : a.Seats W q c k)
    {x : Act} (hx : x ∈ a.acts e) (hq : x.2.moves? ≠ some q) {w : World} (hw : w.Sole k q) :
    x.2.Spares w k := by
  obtain ⟨m, hm, -, rfl⟩ := seats_iff.mp hs
  have fresh : a.ids.take.1 ≠ m.character := by
    intro he
    have hlt := h.sound.numbered (Nat.le_of_lt hids) W q m hm
    rw [← he] at hlt
    have hnum : a.ids.take.1.val.toNat = a.ids.next := UInt32.toNat_ofNat_of_lt' hids
    omega
  have away {p : PlayerId} (hp : some p ≠ some q) : ∀ m', w.members.get? p = some m' →
      m'.character ≠ m.character :=
    fun m' hm' hk => hp (congrArg some (hw p m' hm' hk))
  cases does_of_mem hx with
  | enter | appear => exact fresh
  | depart | leave => exact away hq
  | @arrive p V W m' wall hh =>
    intro hk
    obtain ⟨-, hm'⟩ := home?_eq_some_iff.mp hh
    exact hq (congrArg some (h.sound.apart (Nat.le_of_lt hids) _ _ _ _ _ _ hm' hm hk))
  | packet | readdress | write | tick => trivial

theorem Sound.sole (h : a.Sound) (hids : a.ids.next < UInt32.size) (hs : a.Seats W q c k)
    (hw : a.worlds.get? W = some w) : w.Sole k q := by
  intro p m hm hk
  obtain ⟨m₀, hm₀, -, hk₀⟩ := seats_iff.mp hs
  have hm : a.member? W p = some m := by
    rw [member?, hw]
    exact hm
  exact h.apart (Nat.le_of_lt hids) _ _ _ _ _ _ hm hm₀ (hk.trans hk₀.symm)

section Event

variable {I : World → List Envelope → Prop} {told sent : List Envelope}

/-- What stands while the acts of one event are done: the worlds are filed, and the player sits in
its own, of which what is kept is true. -/
structure Stands (I : World → List Envelope → Prop) (a : Atlas) (W : String) (q : PlayerId)
    (c : ConnectionId) (k : EntityId) (told : List Envelope) (ws : Table String World)
    (sent : List Envelope) : Prop where
  filed : Filed ws
  here : ∃ w, ws.get? W = some w ∧ w.Seats q c k ∧ (a.ids.next < UInt32.size → w.Sole k q) ∧
    I w (told ++ onStream c sent)

variable
  (own : ∀ (w : World) (ev : World.Event) told, w.name = W → w.Keyed → w.Seats q c k →
    ev.moves? ≠ some q → (a.ids.next < UInt32.size → ev.Spares w k) → I w told →
    I (w.step ev).1 (told ++ onStream c (w.step ev).2))
  (other : ∀ w (v : World) (ev : World.Event) told, v.name ≠ W → v.Keyed → I w told →
    I w (told ++ onStream c (v.step ev).2))
  (h : a.Valid) (hs : a.Seats W q c k) (hmoves : ∀ x ∈ a.acts e, x.2.moves? ≠ some q)

include own other h hs hmoves

theorem Stands.act {ws : Table String World} (hi : Stands I a W q c k told ws sent) {x : Act}
    (hx : x ∈ a.acts e) {v : World} (hv : ws.get? x.1 = some v) :
    Stands I a W q c k told (ws.insert x.1 (v.step x.2).1) (sent ++ (v.step x.2).2) := by
  obtain ⟨hf, w, hw, hseats, hsole, hI⟩ := hi
  refine ⟨hf.act hv x.2, ?_⟩
  rw [onStream_append, ← List.append_assoc]
  by_cases hx₁ : x.1 = W
  · obtain rfl : v = w := Option.some.inj (hv.symm.trans (hx₁ ▸ hw))
    have hspares (hlt : a.ids.next < UInt32.size) : x.2.Spares v k :=
      spares_acts h hlt hs hx (hmoves x hx) (hsole hlt)
    have hown := own v x.2 _ ((hf.name hv).trans hx₁) (hf.keyed hv) hseats (hmoves x hx) hspares hI
    exact ⟨(v.step x.2).1, by rw [hx₁, Table.get?_insert_self],
      World.seats_step hseats (hmoves x hx),
      fun hlt => World.sole_step (hsole hlt) (hspares hlt), hown⟩
  · have hother := other w v x.2 _ (fun hn => hx₁ ((hf.name hv).symm.trans hn)) (hf.keyed hv) hI
    exact ⟨w, by rw [Table.get?_insert, if_neg (Ne.symm hx₁), hw], hseats, hsole, hother⟩

theorem stay_step (hw : a.worlds.get? W = some w) (hI : I w told) :
    ∃ w', (a.step e).1.worlds.get? W = some w' ∧ I w' (told ++ onStream c (a.step e).2) := by
  obtain ⟨w₀, hw₀, hseats⟩ := id hs
  obtain rfl : w₀ = w := Option.some.inj (hw₀.symm.trans hw)
  have hacts : Stands I a W q c k told (perform a.worlds (a.acts e)).1
      ([] ++ (perform a.worlds (a.acts e)).2) := by
    apply perform_induction (I := Stands I a W q c k told)
    · intro ws sent x v hx hv hi
      exact hi.act own other h hs hmoves hx hv
    · exact ⟨h.filed, w₀, hw, hseats, fun hlt => h.sound.sole hlt hs hw, by simpa [onStream] using hI⟩
  rw [perform_acts h.sound] at hacts
  obtain ⟨-, w', hw', -, -, hI'⟩ := hacts
  exact ⟨w', hw', hI'⟩

end Event

/-- What the world's own events keep, and those of other worlds, holds all through a stay. -/
theorem stay_induction {I : World → List Envelope → Prop}
    (own : ∀ (w : World) (ev : World.Event) told, w.name = W → w.Keyed → w.Seats q c k →
      ev.moves? ≠ some q → (a.ids.next < UInt32.size → ev.Spares w k) → I w told →
      I (w.step ev).1 (told ++ onStream c (w.step ev).2))
    (other : ∀ w (v : World) (ev : World.Event) told, v.name ≠ W → v.Keyed → I w told →
      I w (told ++ onStream c (v.step ev).2))
    (start : ∀ s w, system.Run past s → s.worlds.get? W = some w → w.Seats q c k → I w [])
    (h : system.Run (later ++ past) a) (hn : Unmoved q later) (hs : a.Seats W q c k)
    (hw : a.worlds.get? W = some w) : I w (system.stream c later) := by
  induction later generalizing a w with
  | nil =>
    obtain ⟨w', hw', hseats⟩ := hs
    obtain rfl : w' = w := Option.some.inj (hw'.symm.trans hw)
    exact start a w' h hw hseats
  | cons l later ih =>
    cases h with
    | @step _ s e h ha =>
    obtain ⟨hl, hn⟩ := List.forall_mem_cons.mp hn
    have hvalid := valid_of_run h
    obtain ⟨hmoves, hs₀⟩ := seats_before hvalid (List.forall_mem_singleton.mpr hl) hs
    obtain ⟨w₀, hw₀, -⟩ := id hs₀
    -- Numbers that last until now have lasted before.
    have hids := (makes_step hvalid e).2.2
    have own₀ (w : World) (ev : World.Event) (told : List Envelope) (hname : w.name = W)
        (hkeyed : w.Keyed) (hseats : w.Seats q c k) (hp : ev.moves? ≠ some q)
        (hspares : s.ids.next < UInt32.size → ev.Spares w k) :=
      own w ev told hname hkeyed hseats hp fun hlt => hspares (Nat.lt_of_le_of_lt hids hlt)
    have hbefore := ih own₀ h hn hs₀ hw₀
    obtain ⟨w', hw', hI⟩ := stay_step own₀ other hvalid hs₀ hmoves hw₀ hbefore
    have hw : (s.step e).1.worlds.get? W = some w := hw
    obtain rfl : w' = w := Option.some.inj (hw'.symm.trans hw)
    exact hI

end Atlas

end SharedWorld
