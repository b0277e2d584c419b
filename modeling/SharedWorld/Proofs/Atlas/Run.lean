import SharedWorld.Proofs.Atlas.Acts
import SharedWorld.Proofs.World.Characters

/-! # Runs of an atlas

What every world keeps at its own events holds in all runs of an atlas, for an event only does
its acts. In particular the atlas stays sound, its worlds stay filed, and what happens to the
index and the members can be read off the event.
-/

namespace SharedWorld

namespace Atlas

variable {a b : Atlas} {ms : List (Moment Atlas Event)} {e : Event} {p : Player} {q : PlayerId}
  {W : String}

/-- Worlds are stored under their names, and their characters under their numbers. -/
structure Filed (ws : Table String World) : Prop where
  name : ∀ {V w}, ws.get? V = some w → w.name = V
  keyed : ∀ {V w}, ws.get? V = some w → w.Keyed

theorem Filed.insert {ws : Table String World} (h : Filed ws) {w : World} (hn : w.name = W)
    (hk : w.Keyed) : Filed (ws.insert W w) := by
  constructor <;> intro V v hv <;> rw [Table.get?_insert_eq_some_iff] at hv <;>
    obtain ⟨rfl, rfl⟩ | ⟨-, hv⟩ := hv
  · exact hn
  · exact h.name hv
  · exact hk
  · exact h.keyed hv

theorem Filed.act {ws : Table String World} (h : Filed ws) {w : World} (hw : ws.get? W = some w)
    (ev : World.Event) : Filed (ws.insert W (w.step ev).1) := by
  refine h.insert ?_ (World.keyed_step ev (h.keyed hw))
  rw [← World.name_change (World.change_step w ev), h.name hw]

structure Valid (a : Atlas) : Prop where
  sound : a.Sound
  filed : Filed a.worlds

theorem valid_of_create {configs : List WorldConfig} {starting : String} {sync : SyncConfig}
    (h : create configs starting sync = .ok a) : a.Valid := by
  obtain ⟨hv, hs⟩ := vacant_of_create h
  refine ⟨hv.sound hs, ?_⟩
  obtain ⟨b, hb, h⟩ := Except.bind_eq_ok_iff.mp h
  have hf : Filed b.worlds := by
    refine Except.foldlM_induction (I := fun b => Filed b.worlds) (fun b config b' hb h => ?_) hb
      ⟨nofun, nofun⟩
    split at h <;> cases h
    exact hb.insert rfl (World.keyed_of_starts ⟨config, sync, b.ids, rfl⟩)
  split at h <;> cases h
  exact hf

def Event.enters? : Event → Option Player
  | .addPlayer p _ => some p
  | .transfer p _ _ => some p
  | _ => none

def Event.moves? : Event → Option PlayerId
  | .removePlayer player _ => some player
  | e => e.enters?.map (·.id)

theorem moves_of_enters (h : e.enters? = some p) : e.moves? = some p.id := by
  cases e <;> cases h <;> rfl

def loading (p : Player) (world : String) : Envelope :=
  { target := .stream p.connection, packet := .loadWorld world }

/-- What an event makes of the index and the members, and the last packet it sends. -/
inductive Makes (a : Atlas) : Event → Atlas × List Envelope → Prop
  | refused {e : Event} (h : a.acts e = []) : Makes a e (a, [])
  | settles {e : Event} {p : Player} {W : String} {c : EntityId} {a' : Atlas}
      {before : List Envelope} (he : e.enters? = some p) (h : a.Settles a' p W c) :
      Makes a e (a', before ++ [loading p W])
  | leaves {q : PlayerId} {wall : UInt64} {a' : Atlas} {sent : List Envelope}
      (h : a.Leaves a' q) : Makes a (.removePlayer q wall) (a', sent)
  | readdresses {q : PlayerId} {address : Address} {a' : Atlas}
      (h : a.Readdresses a' q address) : Makes a (.setAddress q address) (a', [])
  | keeps {e : Event} {a' : Atlas} {sent : List Envelope} (he : e.moves? = none)
      (h : a.Keeps a') : Makes a e (a', sent)

theorem last_of_enter (hf : Filed a.worlds) {entity : Option EntityId} {s : Step Atlas EntityId}
    (h : a.enter p W entity = .ok s) : ∃ before, s.sent = before ++ [loading p W] := by
  unfold enter at h
  split at h
  · cases h
  next w hw =>
  obtain ⟨s₁, h₁, ho⟩ := Except.bind_eq_ok_iff.mp h
  cases ho
  have hs := World.sent_addPlayer h₁
  rw [hf.name hw] at hs
  exact ⟨_, hs⟩

theorem Filed.removePlayer (hf : Filed a.worlds) (h : a.Sound) (q : PlayerId) (wall : UInt64) :
    Filed (a.removePlayer q wall).state.worlds := by
  cases hi : a.index.get? q with
  | none => simpa [Atlas.removePlayer, hi] using hf
  | some V =>
    obtain ⟨w, m, hw, -, -⟩ := h.member_of_index hi
    have ha := act_removePlayer h hi wall
    rw [act_of_get? hw] at ha
    rw [← (Prod.mk.inj ha).1]
    exact hf.act hw _

theorem makes_keeps (h : a.Sound) {sent : List Envelope} (he : e.moves? = none) (hk : a.Keeps b)
    (hids : a.ids.next ≤ b.ids.next) :
    a.Makes e (b, sent) ∧ b.Sound ∧ a.ids.next ≤ b.ids.next :=
  ⟨.keeps he hk, h.of_alters hk hids h.index_iff fun _ _ m hm => ⟨m, hm, rfl⟩, hids⟩

theorem makes_addPlayer (h : a.Valid) (p : Player) (preferred : Option String) :
    let out := a.step (.addPlayer p preferred)
    a.Makes (.addPlayer p preferred) out ∧ out.1.Sound ∧ a.ids.next ≤ out.1.ids.next := by
  cases hi : a.index.get? p.id with
  | some V =>
    have ho : a.step (.addPlayer p preferred) = (a, []) := by simp [step, addPlayer, hi]
    rw [ho]
    exact ⟨.refused (by simp [acts, hi]), h.sound, Nat.le_refl _⟩
  | none =>
    obtain ⟨s, hs, ha⟩ := addPlayer_of_none h.sound hi preferred
    obtain ⟨hsettle, hsound⟩ := addPlayer_eq_ok h.sound ha
    obtain ⟨before, hb⟩ := last_of_enter h.filed hs
    obtain ⟨-, -, -, -, hids, -⟩ := enter_eq_ok hs
    have ho : a.step (.addPlayer p preferred) =
        (s.state, before ++ [loading p (a.placement preferred)]) := by simp [step, ha, hb]
    rw [ho]
    refine ⟨.settles rfl hsettle, hsound, ?_⟩
    rw [hids]
    exact Nat.le_succ _

theorem makes_transfer (h : a.Valid) (p : Player) (W : String) (wall : UInt64) :
    let out := a.step (.transfer p W wall)
    a.Makes (.transfer p W wall) out ∧ out.1.Sound ∧ a.ids.next ≤ out.1.ids.next := by
  by_cases hn : a.worlds.get? W = none ∨ a.home? p.id = none
  · obtain ⟨hacts, ho⟩ := transfer_refused h.sound wall hn
    rw [ho]
    exact ⟨.refused hacts, h.sound, Nat.le_refl _⟩
  obtain ⟨hW, hh⟩ := not_or.mp hn
  obtain ⟨⟨V, m⟩, hh⟩ := Option.ne_none_iff_exists'.mp hh
  obtain ⟨s, hids, hs, ht⟩ := transfer_of_home h.sound (Option.isSome_iff_ne_none.mpr hW) hh wall
  obtain ⟨before, hb⟩ := last_of_enter (h.filed.removePlayer h.sound p.id wall) hs
  obtain ⟨-, -, -, -, hids', -⟩ := enter_eq_ok hs
  obtain ⟨err, ho⟩ | ⟨V', m', -, -, hsettle, hsound⟩ := transfer_cases h.sound p W wall
  · rw [ht] at ho
    cases congrArg Step.value ho
  rw [ht] at hsettle hsound
  have ho : a.step (.transfer p W wall) =
      (s.state, ((a.removePlayer p.id wall).sent ++ before) ++ [loading p W]) := by
    simp [step, ht, hb]
  rw [ho]
  refine ⟨.settles rfl hsettle, hsound, ?_⟩
  rw [hids', ← hids]
  exact Nat.le_refl _

theorem makes_step (h : a.Valid) (e : Event) :
    a.Makes e (a.step e) ∧ (a.step e).1.Sound ∧ a.ids.next ≤ (a.step e).1.ids.next := by
  cases e with
  | addPlayer p preferred => exact makes_addPlayer h p preferred
  | transfer p W wall => exact makes_transfer h p W wall
  | removePlayer player wall =>
    obtain ⟨hl, hs⟩ := leaves_removePlayer h.sound player wall
    refine ⟨.leaves hl, hs, ?_⟩
    obtain ⟨-, ho⟩ | ⟨-, -, -, -, hids, -⟩ := removePlayer_cases h.sound player wall
    · simp [step, ho]
    · simp [step, hids]
  | route player k wall =>
    simp only [step]
    split
    · next out hr =>
      have hids : out.1.ids = a.ids := by
        obtain ⟨W, w, w', -, -, -, ho⟩ := route_eq_ok hr
        rw [ho]
      exact makes_keeps h.sound rfl (keeps_route hr) (Nat.le_of_eq (congrArg _ hids.symm))
    · exact makes_keeps h.sound rfl (.refl a) (Nat.le_refl _)
  | setAddress player address =>
    obtain ⟨hr, hids⟩ := readdresses_setAddress h.sound player address
    exact ⟨.readdresses hr, sound_of_readdresses h.sound hr hids, Nat.le_of_eq (congrArg _ hids.symm)⟩
  | addCharacter W position type =>
    simp only [step, addCharacter]
    split
    · exact makes_keeps h.sound rfl (.refl a) (Nat.le_refl _)
    · next w hw =>
      have hm : (w.addCharacter a.ids position type).state.members = w.members := rfl
      exact makes_keeps h.sound rfl (keeps_insert hw hm _) (Nat.le_succ _)
  | setPlot W island layer x y plot time =>
    simp only [step, setPlot]
    split
    · exact makes_keeps h.sound rfl (.refl a) (Nat.le_refl _)
    next w hw =>
    split
    · next w' t hp =>
      have hm : w'.members = w.members := by
        obtain ⟨i, i', -, -, rfl⟩ := World.setPlot_eq_ok hp
        rfl
      exact makes_keeps h.sound rfl (keeps_insert hw hm _) (Nat.le_refl _)
    · exact makes_keeps h.sound rfl (.refl a) (Nat.le_refl _)
  | tick clock => exact makes_keeps h.sound rfl (keeps_tick a clock) (Nat.le_refl _)

/-- Only those whom an event moves or tells a new address change as members. -/
theorem keeps_step (h : a.Valid) (he : e.moves? = none)
    (hr : ∀ q address, e ≠ .setAddress q address) : a.Keeps (a.step e).1 := by
  have hmakes := (makes_step h e).1
  generalize a.step e = out at hmakes
  cases hmakes with
  | refused => exact .refl a
  | settles hen =>
    rw [moves_of_enters hen] at he
    cases he
  | leaves => cases he
  | @readdresses q address => exact absurd rfl (hr q address)
  | keeps _ h => exact h

theorem Filed.perform {ws : Table String World} (hf : Filed ws) (xs : List Act) :
    Filed (perform ws xs).1 :=
  perform_induction (I := fun ws _ => Filed ws) ws xs (fun _ _ x _ _ hw h => h.act hw x.2) [] hf

theorem Valid.step (h : a.Valid) (e : Event) : (a.step e).1.Valid := by
  refine ⟨(makes_step h e).2.1, ?_⟩
  have := h.filed.perform (a.acts e)
  rwa [perform_acts h.sound e] at this

theorem valid_of_starts (h : system.Starts a) : a.Valid := by
  obtain ⟨configs, starting, sync, h⟩ := h
  exact valid_of_create h

theorem valid_of_run (h : system.Run ms a) : a.Valid :=
  h.invariant (fun _ => valid_of_starts) fun _ e ha => ha.step e

theorem valid_of_mem (h : system.Run ms a) {l : Moment Atlas Event} (hl : l ∈ ms) :
    l.state.Valid :=
  h.invariant_of_mem (fun _ => valid_of_starts) (fun _ e ha => ha.step e) hl

theorem ids_of_mem (h : system.Run ms a) {l : Moment Atlas Event} (hl : l ∈ ms) :
    l.state.ids.next ≤ a.ids.next :=
  (h.related (R := fun s t => s.Valid → t.Valid ∧ s.ids.next ≤ t.ids.next)
    (fun h₁ h₂ hs => ⟨(h₂ (h₁ hs).1).1, Nat.le_trans (h₁ hs).2 (h₂ (h₁ hs).1).2⟩)
    (fun _ e hs => ⟨hs.step e, (makes_step hs e).2.2⟩) hl (valid_of_mem h hl)).2

theorem step_route (h : a.Valid) {w : World} {m : Member} (hw : a.worlds.get? W = some w)
    (hm : w.members.get? q = some m) (p : Packet) (wall : UInt64) :
    (a.step (.route q p wall)).1.worlds =
        a.worlds.insert W (w.step (.packet q p wall)).1 ∧
      (a.step (.route q p wall)).2 = (w.step (.packet q p wall)).2 := by
  have hi : a.index.get? q = some W := h.sound.index_of_member (by rw [member?, hw]; exact hm)
  have hp := perform_acts h.sound (.route q p wall)
  rw [acts, hi] at hp
  exact Prod.mk.inj (hp.symm.trans ((perform_singleton _).trans (act_of_get? hw)))

def ofWorlds (configs : List WorldConfig) (starting : String) : Atlas :=
  (create configs starting {}).toOption.getD { starting }

theorem starts_ofWorlds {configs : List WorldConfig} {starting : String}
    (h : (create configs starting {}).toOption.isSome) :
    system.Starts (ofWorlds configs starting) := by
  unfold ofWorlds
  cases ha : create configs starting {} with
  | error e =>
    rw [ha] at h
    cases h
  | ok a => exact ⟨configs, starting, {}, ha⟩

theorem admitsAll (ms : List (Moment Atlas Event)) (a : Atlas) (es : List Event) :
    system.AdmitsAll ms a es := by
  induction es generalizing ms a with
  | nil => trivial
  | cons e es ih => exact ⟨trivial, ih _ _⟩

end Atlas

end SharedWorld
