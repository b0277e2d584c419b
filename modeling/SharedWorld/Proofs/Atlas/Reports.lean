import SharedWorld.Proofs.Atlas.Stay

/-! # The reports of a player

A report that is taken puts the player's character where the report says. While the player
stays in its world, each report that is taken is newer than those taken before. Being brought
into a world makes the character anew under its old number, and then an old report about that
world is taken again.
-/

namespace SharedWorld

theorem World.step_ownUpdate {w w' : World} {q : PlayerId} {u : OwnUpdate} {taken : Bool}
    (h : w.ownUpdate q u = .ok (w', taken)) (wall : UInt64) :
    (w.step (.packet q (.ownUpdate u) wall)).1 = w' := by
  simp [step, handle, h, orKeep, bind, Except.bind, pure, Except.pure]

namespace Atlas

variable {a : Atlas} {q : PlayerId} {u u₁ u₂ : OwnUpdate} {w : World}
  {l l₁ l₂ : Moment Atlas Event} {later between past : List (Moment Atlas Event)}

/-- At this moment the player's report is taken. -/
def Takes (l : Moment Atlas Event) (q : PlayerId) (u : OwnUpdate) : Prop :=
  (∃ wall, l.event = .route q (.ownUpdate u) wall) ∧
    ∃ w w', l.state.worldOf? q = some w ∧ w.ownUpdate q u = .ok (w', true)

theorem Takes.before (h : Takes l q u) : ∃ W w c ch, l.state.worlds.get? W = some w ∧
    w.Seats q c u.entity ∧ w.characters.get? u.entity = some ch ∧
    ch.presence.lastUpdate < u.time := by
  obtain ⟨-, w, w', hw, ho⟩ := h
  obtain ⟨W, -, hw⟩ := Option.bind_eq_some_iff.mp hw
  obtain ⟨m, hm, he, ⟨hf, -⟩ | ⟨-, report, ch, -, -, hch, ht, -⟩⟩ := World.ownUpdate_eq_ok ho
  · cases hf
  · exact ⟨W, w, m.connection, ch, hw, ⟨m, hm, rfl, he.symm⟩, he ▸ hch, ht⟩

theorem Takes.after (h : Takes l q u) (hv : l.state.Valid) {W : String} {c : ConnectionId}
    {k : EntityId} (hs : l.state.Seats W q c k)
    (hw : (l.state.step l.event).1.worlds.get? W = some w) :
    u.entity = k ∧ ∃ ch, w.characters.get? k = some ch ∧ ch.presence.lastUpdate = u.time := by
  obtain ⟨⟨wall, he⟩, w₀, w', hw₀, ho⟩ := h
  obtain ⟨V, hi, hw₀⟩ := Option.bind_eq_some_iff.mp hw₀
  obtain ⟨v, hv', m, hm, -, rfl⟩ := hs
  have hm' : l.state.member? W q = some m := by
    rw [member?, hv']
    exact hm
  obtain rfl : W = V := by
    rw [hv.sound.index_of_member hm'] at hi
    exact Option.some.inj hi
  obtain rfl : v = w₀ := Option.some.inj (hv'.symm.trans hw₀)
  rw [he, (step_route hv hw₀ hm _ wall).1, World.step_ownUpdate ho, Table.get?_insert_self] at hw
  obtain rfl := Option.some.inj hw
  obtain ⟨m', hm', hu, ⟨hf, -⟩ | ⟨-, report, ch, -, -, hch, -, rfl⟩⟩ := World.ownUpdate_eq_ok ho
  · cases hf
  obtain rfl : m' = m := Option.some.inj (hm'.symm.trans hm)
  refine ⟨hu, ch.moved u.time report.position, ?_, rfl⟩
  rw [Table.get?_modify, if_pos rfl, hch]
  rfl

/-- Of two reports that are taken in one stay, the later one is newer. -/
theorem time_lt_of_takes (h : system.Run (later ++ l₂ :: between ++ l₁ :: past) a)
    (hids : a.ids.next < UInt32.size) (h₁ : Takes l₁ q u₁) (h₂ : Takes l₂ q u₂)
    (hn : Unmoved q between) : u₁.entity = u₂.entity ∧ u₁.time < u₂.time := by
  rw [List.append_assoc, List.cons_append] at h
  have hlt : l₂.state.ids.next < UInt32.size :=
    Nat.lt_of_le_of_lt (ids_of_mem h (List.mem_append_right _ List.mem_cons_self)) hids
  obtain ⟨W, w, c, ch, hw, hseats, hch, ht⟩ := h₂.before
  have hstay := stay_induction (I := fun w _ => u₁.entity = u₂.entity ∧
      ∃ ch, w.characters.get? u₂.entity = some ch ∧ u₁.time ≤ ch.presence.lastUpdate)
    ?own ?other ?start h.past.1 hn ⟨w, hw, hseats⟩ hw
  case own =>
    rintro w ev told - - - - hspares ⟨he, ch, hch, ht⟩
    obtain ⟨ch', hch', -, hle⟩ := World.spared_step (hspares hlt) hch
    exact ⟨he, ch', hch', UInt64.le_trans ht hle⟩
  case other => exact fun _ _ _ _ _ _ hI => hI
  case start =>
    intro s w hs hw hseats
    obtain ⟨s₀, e⟩ := l₁
    cases hs with
    | step _ hs _ =>
    have hv := valid_of_run hs
    have hl : Unmoved q [⟨s₀, e⟩] := by
      refine unmoved_of_enters (List.forall_mem_singleton.mpr fun p hp => ?_)
      obtain ⟨⟨wall, rfl⟩, -⟩ := h₁
      cases hp
    obtain ⟨he, ch, hch, ht⟩ := h₁.after hv (seats_before hv hl ⟨w, hw, hseats⟩).2 hw
    exact ⟨he, ch, hch, ht ▸ UInt64.le_refl _⟩
  obtain ⟨he, ch', hch', hle⟩ := hstay
  obtain rfl : ch' = ch := Option.some.inj (hch'.symm.trans hch)
  exact ⟨he, UInt64.lt_of_le_of_lt hle ht⟩

theorem takes_of_taken (wall : UInt64)
    (h : ((a.worldOf? q).bind fun w => (w.ownUpdate q u).toOption.map (·.2)) = some true) :
    Takes ⟨a, .route q (.ownUpdate u) wall⟩ q u := by
  obtain ⟨w, hw, h⟩ := Option.bind_eq_some_iff.mp h
  cases ho : w.ownUpdate q u with
  | error err =>
    rw [ho] at h
    cases h
  | ok out =>
    obtain ⟨w', taken⟩ := out
    rw [ho] at h
    cases h
    exact ⟨⟨wall, rfl⟩, w, w', hw, ho⟩

def walker : Player := { connection := ⟨1⟩, id := ⟨1⟩, name := "ann" }

def farmReport (time : UInt64) (position : Position) : OwnUpdate :=
  ⟨⟨1⟩, ⟨3⟩, time, .character, PositionReport.toBlob ⟨⟨1⟩, "farm", position⟩⟩

def entry : Moment Atlas Event :=
  ⟨ofWorlds [{ islands := [] }, { name := "barn", islands := [] }] "farm", .addPlayer walker none⟩

def seventh : Moment Atlas Event :=
  ⟨(system.step entry.state entry.event).1, .route ⟨1⟩ (.ownUpdate (farmReport 7 ⟨3, 4⟩)) 0⟩

def ninth : Moment Atlas Event :=
  ⟨(system.step seventh.state seventh.event).1, .route ⟨1⟩ (.ownUpdate (farmReport 9 ⟨5, 6⟩)) 0⟩

theorem run_walk :
    system.Run [ninth, seventh, entry] (system.step ninth.state ninth.event).1 :=
  .step _ (.step _ (.step _ (.start (starts_ofWorlds (by decide +kernel))) trivial) trivial) trivial

theorem takes_seventh : Takes seventh ⟨1⟩ (farmReport 7 ⟨3, 4⟩) :=
  takes_of_taken 0 (by decide +kernel)

theorem takes_ninth : Takes ninth ⟨1⟩ (farmReport 9 ⟨5, 6⟩) :=
  takes_of_taken 0 (by decide +kernel)

theorem time_lt_of_takes_walk :
    Takes seventh ⟨1⟩ (farmReport 7 ⟨3, 4⟩) ∧ Takes ninth ⟨1⟩ (farmReport 9 ⟨5, 6⟩) ∧
      (farmReport 7 ⟨3, 4⟩).entity = (farmReport 9 ⟨5, 6⟩).entity ∧
      (farmReport 7 ⟨3, 4⟩).time < (farmReport 9 ⟨5, 6⟩).time := by
  have h : system.Run ([] ++ ninth :: [] ++ seventh :: [entry]) _ := run_walk
  exact ⟨takes_seventh, takes_ninth,
    time_lt_of_takes h (by decide +kernel) takes_seventh takes_ninth nofun⟩

def detour : List (Moment Atlas Event) × Atlas :=
  system.play [] (system.step ninth.state ninth.event).1 [
    .transfer walker "barn" 0, .transfer walker "farm" 0]

def eighth : Moment Atlas Event :=
  ⟨detour.2, .route ⟨1⟩ (.ownUpdate (farmReport 8 ⟨1, 2⟩)) 0⟩

/-- The walker is never removed, and keeps its character, but the older report is taken. -/
theorem older_report_taken :
    system.Run (eighth :: detour.1 ++ [ninth, seventh, entry])
        (system.step eighth.state eighth.event).1 ∧
      (∀ l ∈ eighth :: detour.1 ++ [ninth, seventh, entry], ∀ wall,
        l.event ≠ .removePlayer ⟨1⟩ wall) ∧
      Takes ninth ⟨1⟩ (farmReport 9 ⟨5, 6⟩) ∧ Takes eighth ⟨1⟩ (farmReport 8 ⟨1, 2⟩) ∧
      (((system.step eighth.state eighth.event).1.worldOf? ⟨1⟩).bind
        (·.characterOf? ⟨1⟩)).map (·.position) = some ⟨1, 2⟩ := by
  refine ⟨.step _ (run_walk.resume (admitsAll ..)) trivial, fun l hl wall he => ?_, takes_ninth,
    takes_of_taken 0 (by decide +kernel), by decide +kernel⟩
  simp only [detour, System.play, List.mem_cons, List.cons_append, List.nil_append,
    List.not_mem_nil, or_false] at hl
  rcases hl with rfl | rfl | rfl | rfl | rfl | rfl <;> cases he

end Atlas

end SharedWorld
