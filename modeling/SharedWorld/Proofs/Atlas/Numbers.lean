import Mathlib.Data.List.Nodup
import SharedWorld.Proofs.Atlas.Owners
import SharedWorld.Proofs.World.Numbers

/-! # Numbers, members and characters

While the numbers of entities last, no two entities of an atlas bear the same number, and each
member has its character. The one place where an entity is without a world is the middle of a
transfer; no world bears its number then, so the player can always be let in again.
-/

namespace SharedWorld

namespace Atlas

variable {a : Atlas} {ws : Table String World} {w : World} {W : String} {next next' : Nat}
  {e : EntityId} {q : PlayerId} {ev : World.Event}

/-- All the numbers that are in use, world by world. -/
def numbers (a : Atlas) : List EntityId := a.worlds.values.flatMap World.numbers

def Unborne (ws : Table String World) (e : EntityId) : Prop :=
  ∀ V w, ws.get? V = some w → ¬ w.Bears e

/-- Entities are told apart by their numbers, all of which were handed out before the next
one, and members have their characters. -/
structure Numbered (ws : Table String World) (next : Nat) : Prop where
  pos : 0 < next
  bound : ∀ {V w e}, ws.get? V = some w → w.Bears e → e.isAssigned ∧ e.val.toNat < next
  own : ∀ {V w}, ws.get? V = some w → ¬ w.Live w.presence.entity
  apart : ∀ {V V' w w' e}, ws.get? V = some w → ws.get? V' = some w' →
    w.Bears e → w'.Bears e → V = V'
  homed : ∀ {V w}, ws.get? V = some w → w.Homed

theorem Numbered.mono (h : Numbered ws next) (hle : next ≤ next') : Numbered ws next' where
  pos := Nat.lt_of_lt_of_le h.pos hle
  bound hw he := ⟨(h.bound hw he).1, Nat.lt_of_lt_of_le (h.bound hw he).2 hle⟩
  own := h.own
  apart := h.apart
  homed := h.homed

theorem toNat_take {ids : EntityIds} (hs : ids.next < UInt32.size) :
    ids.take.1.val.toNat = ids.next :=
  UInt32.toNat_ofNat_of_lt' hs

theorem Numbered.take {ids : EntityIds} (h : Numbered ws ids.next)
    (hs : ids.next < UInt32.size) : Unborne ws ids.take.1 ∧ ids.take.1.isAssigned := by
  constructor
  · intro V w hw hb
    have hlt := (h.bound hw hb).2
    rw [toNat_take hs] at hlt
    exact Nat.lt_irrefl _ hlt
  · refine decide_eq_true fun h₀ => ?_
    have hn := toNat_take hs
    rw [h₀] at hn
    exact absurd h.pos (hn ▸ Nat.lt_irrefl 0)

theorem get?_of_act {V : String} {v : World} (hv : (act ws (W, ev)).1.get? V = some v) :
    ∃ u, ws.get? V = some u ∧ (V = W ∧ v = (u.step ev).1 ∨ v = u) := by
  rw [get?_act] at hv
  split at hv
  · obtain ⟨u, hu, rfl⟩ := Option.map_eq_some_iff.mp hv
    exact ⟨u, hu, Or.inl ⟨by assumption, rfl⟩⟩
  · exact ⟨v, hv, Or.inr rfl⟩

theorem bears_act {V : String} {v : World} (hv : (act ws (W, ev)).1.get? V = some v)
    (hb : v.Bears e) :
    (∃ u, ws.get? V = some u ∧ u.Bears e) ∨ V = W ∧ ev.brings? = some e := by
  obtain ⟨u, hu, ⟨hV, rfl⟩ | rfl⟩ := get?_of_act hv
  · exact (World.bears_step hb).imp (fun hb => ⟨u, hu, hb⟩) fun hb => ⟨hV, hb⟩
  · exact Or.inl ⟨v, hu, hb⟩

theorem Numbered.act (h : Numbered ws next) (hle : next ≤ next')
    (hn : ∀ e, ev.brings? = some e → Unborne ws e ∧ e.isAssigned ∧ e.val.toNat < next')
    (hv : ∀ k, ev ≠ .removeEntity k) : Numbered (act ws (W, ev)).1 next' := by
  refine ⟨Nat.lt_of_lt_of_le h.pos hle, fun {V v e} hw hb => ?_, fun {V v} hw => ?_,
    fun {V V' v v' e} hw hw' hb hb' => ?_, fun {V v} hw => ?_⟩
  · obtain ⟨u, hu, hb⟩ | ⟨-, hb⟩ := bears_act hw hb
    · exact ⟨(h.bound hu hb).1, Nat.lt_of_lt_of_le (h.bound hu hb).2 hle⟩
    · exact (hn e hb).2
  · obtain ⟨u, hu, ⟨-, rfl⟩ | rfl⟩ := get?_of_act hw
    · rw [World.entity_step]
      intro hl
      obtain hl | hb := World.live_step hl
      · exact h.own hu hl
      · exact (hn _ hb).1 V u hu (Or.inl rfl)
    · exact h.own hu
  · obtain ⟨u, hu, hb⟩ | ⟨rfl, hb⟩ := bears_act hw hb <;>
      obtain ⟨u', hu', hb'⟩ | ⟨rfl, hb'⟩ := bears_act hw' hb'
    · exact h.apart hu hu' hb hb'
    · exact absurd hb ((hn e hb').1 V u hu)
    · exact absurd hb' ((hn e hb).1 V' u' hu')
    · rfl
  · obtain ⟨u, hu, ⟨-, rfl⟩ | rfl⟩ := get?_of_act hw
    · exact World.homed_step (h.homed hu)
        (fun k hb hl => (hn k hb).1 V u hu (Or.inr hl)) hv
    · exact h.homed hu

theorem Numbered.perform (h : Numbered ws next) (xs : List Act)
    (hx : ∀ x ∈ xs, x.2.brings? = none ∧ ∀ k, x.2 ≠ .removeEntity k) :
    Numbered (perform ws xs).1 next := by
  induction xs generalizing ws with
  | nil => exact h
  | cons x xs ih =>
    obtain ⟨hx, hxs⟩ := List.forall_mem_cons.mp hx
    refine ih (h.act (Nat.le_refl _) (fun e hb => ?_) hx.2) hxs
    rw [hx.1] at hb
    cases hb

theorem Numbered.act_take {ids : EntityIds} (h : Numbered ws ids.next)
    (hs : ids.next < UInt32.size) (hb : ev.brings? = some ids.take.1) :
    Numbered (Atlas.act ws (W, ev)).1 (ids.next + 1) := by
  refine h.act (Nat.le_succ _) (fun e he => ?_) fun k he => ?_
  · obtain rfl : ids.take.1 = e := Option.some.inj (hb.symm.trans he)
    obtain ⟨hn, ha⟩ := h.take hs
    refine ⟨hn, ha, ?_⟩
    rw [toNat_take hs]
    exact Nat.lt_succ_self _
  · rw [he] at hb
    cases hb

/-- A player who has left takes the number of its character out of all worlds. -/
theorem unborne_removePlayer (h : Numbered ws next) (hw : ws.get? W = some w)
    {m : Member} (hm : w.members.get? q = some m) (wall : UInt64) :
    Unborne (act ws (W, .removePlayer q wall)).1 m.character := by
  obtain ⟨c, hc, -⟩ := h.homed hw q m hm
  have hlive : w.Live m.character := Option.isSome_of_eq_some hc
  intro V v hv hb
  obtain ⟨u, hu, hb'⟩ | ⟨-, hb'⟩ := bears_act hv hb
  · obtain rfl := h.apart hu hw hb' (Or.inr hlive)
    obtain rfl : u = w := Option.some.inj (hu.symm.trans hw)
    rw [act_of_get? hw, Table.get?_insert_self] at hv
    obtain rfl := Option.some.inj hv
    obtain ⟨s, hs, rfl⟩ := World.removePlayer_isOk wall hm
    have hgone : ¬ (u.step (.removePlayer q wall)).1.Live s.value.character := by
      simp [World.step, World.orKeep, hs, World.Live, (World.removePlayer_eq_ok hs).2,
        Table.get?_erase]
    rcases hb with hb | hb
    · rw [World.entity_step] at hb
      exact h.own hw (hb ▸ hlive)
    · exact hgone hb
  · cases hb'

theorem ne_removeEntity_of_does {x : Act} {e : Event} (h : a.Does e x) (k : EntityId) :
    x.2 ≠ .removeEntity k := by
  cases h <;> nofun

theorem Numbered.transfer (hn : Numbered a.worlds a.ids.next) {p : Player}
    {V : String} {m : Member} (hh : a.home? p.id = some (V, m)) (W : String) (wall : UInt64) :
    Numbered (Atlas.perform a.worlds
      [(V, .removePlayer p.id wall), (W, .addPlayer a.ids p (some m.character))]).1
      a.ids.next := by
  obtain ⟨-, hm⟩ := home?_eq_some_iff.mp hh
  obtain ⟨w, hw, hm⟩ := Option.bind_eq_some_iff.mp hm
  obtain ⟨c, hc, -⟩ := hn.homed hw p.id m hm
  have hbound := hn.bound hw (Or.inr (Option.isSome_of_eq_some hc))
  have hleft : Numbered (Atlas.act a.worlds (V, .removePlayer p.id wall)).1 a.ids.next :=
    hn.act (Nat.le_refl _) nofun nofun
  refine hleft.act (Nat.le_refl _) (fun e he => ?_) nofun
  obtain rfl := Option.some.inj he
  exact ⟨unborne_removePlayer hn hw hm wall, hbound⟩

theorem Numbered.step (h : a.Valid) (hn : Numbered a.worlds a.ids.next) (e : Event)
    (hs : (a.step e).1.ids.next ≤ UInt32.size) :
    Numbered (a.step e).1.worlds (a.step e).1.ids.next := by
  have hp : (Atlas.perform a.worlds (a.acts e)).1 = (a.step e).1.worlds :=
    congrArg Prod.fst (perform_acts h.sound e)
  have hle := (makes_step h e).2.2
  -- Most events bring no character in.
  have quiet (hq : ∀ x, a.Does e x → x.2.brings? = none) :
      Numbered (a.step e).1.worlds (a.step e).1.ids.next := by
    rw [← hp]
    refine (hn.perform (a.acts e) fun x hx => ?_).mono hle
    exact ⟨hq x (does_of_mem hx), ne_removeEntity_of_does (does_of_mem hx)⟩
  cases e with
  | addPlayer p preferred =>
    cases hi : a.index.get? p.id with
    | some V =>
      have ho : a.step (.addPlayer p preferred) = (a, []) := by simp [Atlas.step, addPlayer, hi]
      rw [ho]
      exact hn
    | none =>
      obtain ⟨s, hent, ha⟩ := addPlayer_of_none h.sound hi preferred
      obtain ⟨-, -, -, -, hids, -⟩ := enter_eq_ok hent
      have hids : (a.step (.addPlayer p preferred)).1.ids = a.ids.take.2 := by
        simp only [Atlas.step, ha]
        exact hids
      rw [hids] at hs ⊢
      rw [← hp, acts, hi, perform_singleton]
      exact hn.act_take hs rfl
  | addCharacter W position type =>
    cases hw : a.worlds.get? W with
    | none =>
      have ho : a.step (.addCharacter W position type) = (a, []) := by
        simp [Atlas.step, addCharacter, hw]
      rw [ho]
      exact hn
    | some w =>
      have hids : (a.step (.addCharacter W position type)).1.ids = a.ids.take.2 := by
        simp [Atlas.step, addCharacter, hw, World.addCharacter]
      rw [hids] at hs ⊢
      rw [← hp, acts, perform_singleton]
      exact hn.act_take hs rfl
  | transfer p W wall =>
    by_cases hr : a.worlds.get? W = none ∨ a.home? p.id = none
    · rw [(transfer_refused h.sound wall hr).2]
      exact hn
    obtain ⟨hW, hh⟩ := not_or.mp hr
    obtain ⟨w, hW⟩ := Option.ne_none_iff_exists'.mp hW
    obtain ⟨⟨V, m⟩, hh⟩ := Option.ne_none_iff_exists'.mp hh
    have hacts : a.acts (.transfer p W wall) =
        [(V, .removePlayer p.id wall), (W, .addPlayer a.ids p (some m.character))] := by
      simp only [acts, hW, hh]
    rw [← hp, hacts]
    exact (hn.transfer hh W wall).mono hle
  | removePlayer | route | setAddress | setPlot | tick =>
    exact quiet fun x hx => by cases hx; rfl

theorem bears_create {config : WorldConfig} {sync : SyncConfig} {ids : EntityIds}
    (h : (World.create config sync ids).1.Bears e) : ids.take.1 = e :=
  h.resolve_right nofun

theorem Numbered.create {ids : EntityIds} (h : Numbered ws ids.next)
    (hs : ids.next < UInt32.size) (hW : ws.get? W = none) (config : WorldConfig)
    (sync : SyncConfig) :
    Numbered (ws.insert W (World.create config sync ids).1) (ids.next + 1) := by
  obtain ⟨hn, ha⟩ := h.take hs
  refine ⟨Nat.succ_pos _, fun {V v e} hw hb => ?_, fun {V v} hw => ?_,
    fun {V V' v v' e} hw hw' hb hb' => ?_, fun {V v} hw => ?_⟩
  · obtain ⟨rfl, rfl⟩ | ⟨-, hw⟩ := Table.get?_insert_eq_some_iff.mp hw
    · obtain rfl := bears_create hb
      refine ⟨ha, ?_⟩
      rw [toNat_take hs]
      exact Nat.lt_succ_self _
    · exact ⟨(h.bound hw hb).1, Nat.lt_succ_of_lt (h.bound hw hb).2⟩
  · obtain ⟨rfl, rfl⟩ | ⟨-, hw⟩ := Table.get?_insert_eq_some_iff.mp hw
    · nofun
    · exact h.own hw
  · obtain ⟨hV, rfl⟩ | ⟨-, h₁⟩ := Table.get?_insert_eq_some_iff.mp hw <;>
      obtain ⟨hV', rfl⟩ | ⟨-, h₂⟩ := Table.get?_insert_eq_some_iff.mp hw'
    · exact hV.trans hV'.symm
    · obtain rfl := bears_create hb
      exact absurd hb' (hn V' v' h₂)
    · obtain rfl := bears_create hb'
      exact absurd hb (hn V v h₁)
    · exact h.apart h₁ h₂ hb hb'
  · obtain ⟨rfl, rfl⟩ | ⟨-, hw⟩ := Table.get?_insert_eq_some_iff.mp hw
    · nofun
    · exact h.homed hw

theorem numbered_of_create {configs : List WorldConfig} {starting : String} {sync : SyncConfig}
    (h : create configs starting sync = .ok a) (hs : a.ids.next ≤ UInt32.size) :
    Numbered a.worlds a.ids.next := by
  obtain ⟨b, hb, h⟩ := Except.bind_eq_ok_iff.mp h
  have hn : b.ids.next ≤ UInt32.size → Numbered b.worlds b.ids.next := by
    refine Except.foldlM_induction (I := fun b => b.ids.next ≤ UInt32.size →
      Numbered b.worlds b.ids.next) (fun b config b' hI h => ?_) hb
      fun _ => ⟨Nat.one_pos, nofun, nofun, nofun, nofun⟩
    split at h
    · cases h
    · next hc =>
      cases h
      intro hs
      exact (hI (Nat.le_of_succ_le hs)).create hs (by simpa [Table.contains_eq] using hc)
        config sync
  split at h <;> cases h
  exact hn hs

theorem numbered_of_run {ms : List (Moment Atlas Event)} (h : system.Run ms a)
    (hs : a.ids.next ≤ UInt32.size) : Numbered a.worlds a.ids.next := by
  induction h with
  | start h =>
    obtain ⟨configs, starting, sync, h⟩ := h
    exact numbered_of_create h hs
  | step e h _ ih =>
    have hv := valid_of_run h
    exact (ih (Nat.le_trans (makes_step hv e).2.2 hs)).step hv e hs

theorem owned_of_run {ms : List (Moment Atlas Event)} (h : system.Run ms a) :
    Owned a.worlds := by
  induction h with
  | start h =>
    obtain ⟨configs, starting, sync, h⟩ := h
    exact owned_of_create h
  | step e h _ ih => exact ih.step (valid_of_run h).sound e

theorem mem_numbers_iff (h : Filed a.worlds) :
    e ∈ a.numbers ↔ ∃ V w, a.worlds.get? V = some w ∧ w.Bears e := by
  simp only [numbers, List.mem_flatMap, Table.mem_values_iff]
  constructor
  · rintro ⟨w, ⟨V, hw⟩, he⟩
    exact ⟨V, w, hw, (World.mem_numbers_iff (h.keyed hw)).mp he⟩
  · rintro ⟨V, w, hw, he⟩
    exact ⟨w, ⟨V, hw⟩, (World.mem_numbers_iff (h.keyed hw)).mpr he⟩

theorem Numbered.nodup (h : Numbered a.worlds next) (hf : Filed a.worlds) : a.numbers.Nodup := by
  rw [numbers, Table.flatMap_values, List.nodup_flatMap]
  constructor
  · intro V _
    cases hw : a.worlds.get? V with
    | none => exact .nil
    | some w => exact World.nodup_numbers (hf.keyed hw) (h.own hw)
  · refine a.worlds.nodup_keys.imp fun {V V'} hne e he he' => hne ?_
    dsimp only at he he'
    cases hw : a.worlds.get? V with
    | none => simp [hw] at he
    | some w =>
      cases hw' : a.worlds.get? V' with
      | none => simp [hw'] at he'
      | some w' =>
        rw [hw] at he
        rw [hw'] at he'
        exact h.apart hw hw' ((World.mem_numbers_iff (hf.keyed hw)).mp he)
          ((World.mem_numbers_iff (hf.keyed hw')).mp he')

/-- Index, members, characters and numbers fit together. -/
structure Coherent (a : Atlas) : Prop where
  index : ∀ q W, a.index.get? q = some W ↔ ∃ w, a.worlds.get? W = some w ∧ w.members.contains q
  homed : ∀ W w, a.worlds.get? W = some w → w.Homed
  owned : ∀ W w, a.worlds.get? W = some w → w.Owned
  distinct : a.numbers.Nodup
  assigned : ∀ e ∈ a.numbers, e.isAssigned

theorem coherent_of_numbered (h : a.Valid) (hn : Numbered a.worlds next)
    (ho : Owned a.worlds) : a.Coherent := by
  refine ⟨fun q W => ?_, fun _ _ => hn.homed, ho, hn.nodup h.filed, fun e he => ?_⟩
  · rw [h.sound.index_iff, member?]
    cases a.worlds.get? W with
    | none => simp
    | some w => simp [Table.contains_eq]
  · obtain ⟨V, w, hw, hb⟩ := (mem_numbers_iff h.filed).mp he
    exact (hn.bound hw hb).1

theorem removePlayer_of_index (h : a.Sound) (hi : a.index.get? q = some W) (wall : UInt64) :
    ∃ m, a.member? W q = some m ∧ (a.removePlayer q wall).value = .ok m ∧
      a.Leaves (a.removePlayer q wall).state q := by
  obtain ⟨hn, -⟩ | ⟨V, m, hm, hr, -, hl⟩ := removePlayer_cases h q wall
  · rw [hi] at hn
    cases hn
  · obtain rfl : W = V := Option.some.inj (hi.symm.trans (h.index_of_member hm))
    exact ⟨m, hm, hr, hl⟩

/-- While the numbers last, an atlas is coherent. So whom the index knows can be taken out, and
whoever has been taken out can be let in again, with the same character, wherever there is a
world. -/
theorem coherent_of_run {ms : List (Moment Atlas Event)} (h : system.Run ms a)
    (hs : a.ids.next ≤ UInt32.size) :
    a.Coherent ∧
      (∀ q W wall, a.index.get? q = some W →
        ∃ m, a.member? W q = some m ∧ (a.removePlayer q wall).value = .ok m) ∧
      ∀ (p : Player) V W wall, a.index.get? p.id = some V → (a.worlds.get? W).isSome →
        ∃ m s, a.member? V p.id = some m ∧
          (a.removePlayer p.id wall).state.enter p W (some m.character) = .ok s ∧
          (a.transfer p W wall).value = .ok m.character := by
  have hv := valid_of_run h
  refine ⟨coherent_of_numbered hv (numbered_of_run h hs) (owned_of_run h),
    fun q W wall hi => ?_, fun p V W wall hi hW => ?_⟩
  · obtain ⟨m, hm, hr, -⟩ := removePlayer_of_index hv.sound hi wall
    exact ⟨m, hm, hr⟩
  · obtain ⟨m, hm, hr, hl⟩ := removePlayer_of_index hv.sound hi wall
    obtain ⟨s, hs⟩ := enter_isOk (p := p) (W := W) (some m.character)
      (by rw [hl.worlds]; exact hW) (by rw [hl.member, if_pos rfl])
    obtain ⟨w, -, -, hvalue, -⟩ := enter_eq_ok hs
    refine ⟨m, s, hm, hs, ?_⟩
    simp only [transfer, Table.contains_eq, hW, hr, hs, hvalue]
    rfl

def visitor : Player := { connection := ⟨1⟩, id := ⟨1⟩, name := "ann" }

def resident : Player := { connection := ⟨2⟩, id := ⟨2⟩, name := "bob" }

def bustle : List (Moment Atlas Event) × Atlas :=
  system.play [] (ofWorlds [{ islands := [] }, { name := "barn", islands := [] }] "farm") [
    .addPlayer visitor none, .addPlayer resident (some "barn"), .transfer visitor "barn" 0,
    .addCharacter "barn" ⟨1, 2⟩ "sheep", .removePlayer ⟨2⟩ 0, .transfer visitor "farm" 0]

theorem run_bustle : system.Run bustle.1 bustle.2 :=
  .play (.start (starts_ofWorlds (by decide +kernel))) (admitsAll ..)

theorem coherent_of_run_bustle :
    bustle.2.ids.next ≤ UInt32.size ∧ bustle.2.numbers = [⟨2⟩, ⟨5⟩, ⟨1⟩, ⟨3⟩] ∧
      bustle.2.Coherent ∧ bustle.2.index.get? ⟨1⟩ = some "farm" ∧
      ∃ m, bustle.2.member? "farm" ⟨1⟩ = some m ∧
        (bustle.2.removePlayer ⟨1⟩ 0).value = .ok m := by
  have hs : bustle.2.ids.next ≤ UInt32.size := by decide +kernel
  have hi : bustle.2.index.get? ⟨1⟩ = some "farm" := by decide +kernel
  obtain ⟨hc, hr, -⟩ := coherent_of_run run_bustle hs
  exact ⟨hs, by decide +kernel, hc, hi, hr _ _ 0 hi⟩

end Atlas

end SharedWorld
