import SharedWorld.View.World
import SharedWorld.Proofs.World.Effects

/-! # Runs of a view

A view takes packets and frames. A packet that it refuses leaves it as it was; a frame
in which a tween is undefined ends the run. The lemmas say what a packet changes and
that gliding never changes where a character is going.
-/

namespace SharedWorld

namespace WorldView

inductive Event
  | packet (p : Packet)
  | frame (millis : Float32)

def receive (v : WorldView) (p : Packet) : WorldView :=
  match v.handle p with
  | .ok v => v
  | .error _ => v

def step (v : WorldView) : Event → Option WorldView
  | .packet p => some (v.receive p)
  | .frame millis => v.tick millis

def run (v : WorldView) (es : List Event) : Option WorldView := es.foldlM step v

variable {v v' : WorldView} {u : EntityUpdate} {e : Event} {es : List Event}

theorem run_packets (v : WorldView) (ps : List Packet) :
    v.run (ps.map .packet) = some (ps.foldl receive v) := by
  induction ps generalizing v with
  | nil => rfl
  | cons p ps ih => exact ih (v.receive p)

theorem run_append (v : WorldView) (es es' : List Event) :
    v.run (es ++ es') = (v.run es).bind (·.run es') :=
  List.foldlM_append

theorem run_concat (v : WorldView) (es : List Event) (e : Event) :
    v.run (es ++ [e]) = (v.run es).bind (·.step e) := by
  simp [run]

def refreshed (v : WorldView) (u : EntityUpdate) (d : CharacterData) : CharacterView :=
  let c := CharacterView.apply
    { (v.characters.get? u.entity).getD { entity := u.entity } with lastUpdate := u.time } d
  { c with appearance := v.pending.get? u.entity <|> c.appearance }

inductive Answers (v : WorldView) (u : EntityUpdate) :
    Except WorldError (Outcome × WorldView) → Prop
  | elsewhere (hw : u.world ≠ v.name) : Answers v u (.ok (.otherWorld, v))
  | untyped (hw : u.world = v.name) (ht : u.type = .unknown) :
      Answers v u (.error (.unsupportedEntityType .unknown))
  | staleTiles (hw : u.world = v.name) (ht : u.type = .world) (hs : u.time ≤ v.lastWorldUpdate) :
      Answers v u (.ok (.stale, v))
  | badTiles {e : WorldError} (hw : u.world = v.name) (ht : u.type = .world)
      (hn : v.lastWorldUpdate < u.time) (ha : v.tiles.apply u.data = .error e) :
      Answers v u (.error e)
  | tiles {tiles : TileView} {n : Nat} (hw : u.world = v.name) (ht : u.type = .world)
      (hn : v.lastWorldUpdate < u.time) (ha : v.tiles.apply u.data = .ok (tiles, n)) :
      Answers v u (.ok (.applied, { v with tiles, lastWorldUpdate := u.time }))
  | staleCharacter {c : CharacterView} (hw : u.world = v.name) (ht : u.type = .character)
      (hc : v.characters.get? u.entity = some c) (hs : u.time ≤ c.lastUpdate) :
      Answers v u (.ok (.stale, v))
  | badCharacter {e : WorldError} (hw : u.world = v.name) (ht : u.type = .character)
      (hn : ∀ c ∈ v.characters.get? u.entity, c.lastUpdate < u.time)
      (hd : CharacterData.ofBlob u.data = .error e) : Answers v u (.error e)
  | character {d : CharacterData} (hw : u.world = v.name) (ht : u.type = .character)
      (hn : ∀ c ∈ v.characters.get? u.entity, c.lastUpdate < u.time)
      (hd : CharacterData.ofBlob u.data = .ok d) : Answers v u (.ok (.applied, { v with
        characters := v.characters.insert u.entity (v.refreshed u d)
        pending := v.pending.erase u.entity }))

theorem answers_applyCharacter (hw : u.world = v.name) (ht : u.type = .character) :
    v.Answers u (v.applyCharacter u) := by
  unfold applyCharacter
  dsimp only
  by_cases hs : (v.characters.get? u.entity).any (u.time ≤ ·.lastUpdate)
  · rw [if_pos hs]
    obtain ⟨c, hc, hs⟩ := Option.any_eq_true _ _ |>.mp hs
    exact .staleCharacter hw ht hc (of_decide_eq_true hs)
  · rw [if_neg hs]
    have hn : ∀ c ∈ v.characters.get? u.entity, c.lastUpdate < u.time := fun c hc => by
      rw [Option.mem_def.mp hc] at hs
      exact UInt64.not_le.mp (by simpa using hs)
    cases hd : CharacterData.ofBlob u.data with
    | error e => exact .badCharacter hw ht hn hd
    | ok d => exact .character hw ht hn hd

theorem answers_applyUpdate (v : WorldView) (u : EntityUpdate) : v.Answers u (v.applyUpdate u) := by
  unfold applyUpdate
  by_cases hw : u.world ≠ v.name
  · rw [if_pos hw]
    exact .elsewhere hw
  rw [if_neg hw]
  have hw := Decidable.not_not.mp hw
  split
  · next ht =>
    by_cases hs : u.time ≤ v.lastWorldUpdate
    · rw [if_pos hs]
      exact .staleTiles hw ht hs
    · rw [if_neg hs]
      have hn := UInt64.not_le.mp hs
      cases ha : v.tiles.apply u.data with
      | error e => exact .badTiles hw ht hn ha
      | ok out => exact .tiles hw ht hn ha
  · next ht => exact answers_applyCharacter hw ht
  · next ht => exact .untyped hw ht

/-- What a packet makes of a view. Only packets about the view's own world reach it, and only
updates that are newer than what it knows. -/
inductive Takes (v : WorldView) : Packet → WorldView → Prop
  | nothing (p : Packet) : Takes v p v
  | tiles {u : EntityUpdate} {tiles : TileView} {n : Nat} (hw : u.world = v.name)
      (ht : u.type = .world) (hn : v.lastWorldUpdate < u.time)
      (ha : v.tiles.apply u.data = .ok (tiles, n)) :
      Takes v (.entityUpdate u) { v with tiles, lastWorldUpdate := u.time }
  | character {u : EntityUpdate} {d : CharacterData} (hw : u.world = v.name)
      (ht : u.type = .character) (hn : ∀ c ∈ v.characters.get? u.entity, c.lastUpdate < u.time)
      (hd : CharacterData.ofBlob u.data = .ok d) : Takes v (.entityUpdate u) { v with
        characters := v.characters.insert u.entity (v.refreshed u d)
        pending := v.pending.erase u.entity }
  | removed (k : EntityId) : Takes v (.removeEntity k v.name) { v with
      characters := v.characters.erase k, pending := v.pending.erase k }
  | details {k : EntityId} (hc : v.characters.contains k) (a : Appearance) :
      Takes v (.setDetails k v.name a) { v with
        characters := v.characters.modify k fun c => { c with appearance := some a } }
  | pending {k : EntityId} (hc : v.characters.contains k = false) (a : Appearance) :
      Takes v (.setDetails k v.name a) { v with pending := v.pending.insert k a }
  | chat (user message : String) (time : UInt64) :
      Takes v (.relayChat user message time) { v with chat := v.chat ++ [⟨user, message, time⟩] }

theorem takes_applyUpdate {o : Outcome} (h : v.applyUpdate u = .ok (o, v')) :
    v.Takes (.entityUpdate u) v' := by
  have ha := v.answers_applyUpdate u
  rw [h] at ha
  cases ha with
  | elsewhere | staleTiles | staleCharacter => exact .nothing _
  | tiles hw ht hn ha => exact .tiles hw ht hn ha
  | character hw ht hn hd => exact .character hw ht hn hd

theorem takes_receive (v : WorldView) (p : Packet) : v.Takes p (v.receive p) := by
  unfold receive
  split
  case h_2 => exact .nothing p
  next v' hv =>
  unfold handle at hv
  split at hv
  · obtain ⟨⟨o, v''⟩, ha, hv⟩ := Except.bind_eq_ok_iff.mp hv
    cases hv
    exact takes_applyUpdate ha
  · next k world =>
    cases hv
    by_cases hw : world = v.name
    · subst hw
      rw [removeEntity, if_neg (not_not_intro rfl)]
      exact .removed k
    · rw [removeEntity, if_pos hw]
      exact .nothing _
  · next k world a =>
    cases hv
    by_cases hw : world = v.name
    · subst hw
      rw [setDetails, if_neg (not_not_intro rfl)]
      split
      · next hc => exact .details hc a
      · next hc => exact .pending (Bool.not_eq_true _ ▸ hc) a
    · rw [setDetails, if_pos hw]
      exact .nothing _
  · cases hv
    exact .chat ..
  · cases hv
    exact .nothing p

theorem name_receive (v : WorldView) (p : Packet) : (v.receive p).name = v.name := by
  have h := v.takes_receive p
  generalize v.receive p = v' at h
  cases h <;> rfl

theorem name_step (h : v.step e = some v') : v'.name = v.name := by
  cases e with
  | packet p =>
    cases h
    exact name_receive v p
  | frame millis =>
    change v.tick millis = some v' at h
    unfold tick at h
    split at h <;> cases h
    rfl

theorem name_run (h : v.run es = some v') : v'.name = v.name := by
  induction es generalizing v with
  | nil =>
    cases h
    rfl
  | cons e es ih =>
    obtain ⟨v₁, h₁, h⟩ := Option.bind_eq_some_iff.mp h
    exact (ih h).trans (name_step h₁)

end WorldView

theorem Tween.advance_eq_some {t t' : Tween} {frame value : Float32} {done : Bool}
    (h : t.advance frame = some (t', value, done)) :
    t'.stop = t.stop ∧ (done = true → value = t.stop) := by
  unfold Tween.advance at h
  dsimp only at h
  split at h
  · cases h
    exact ⟨rfl, fun _ => rfl⟩
  · obtain ⟨x, -, ho⟩ := Option.map_eq_some_iff.mp h
    cases ho
    exact ⟨rfl, nofun⟩

theorem PositionTween.advance_eq_some {t t' : PositionTween} {frame : Float32}
    {position : Position} {done : Bool} (h : t.advance frame = some (t', position, done)) :
    t'.target = t.target ∧ (done = true → position = t.target) := by
  obtain ⟨⟨tx, x, xd⟩, hx, h⟩ := Option.bind_eq_some_iff.mp h
  obtain ⟨⟨ty, y, yd⟩, hy, h⟩ := Option.bind_eq_some_iff.mp h
  cases h
  obtain ⟨hsx, hvx⟩ := Tween.advance_eq_some hx
  obtain ⟨hsy, hvy⟩ := Tween.advance_eq_some hy
  refine ⟨by simp [target, hsx, hsy], fun hd => ?_⟩
  obtain ⟨hxd, hyd⟩ := Bool.and_eq_true_iff.mp hd
  rw [hvx hxd, hvy hyd, target]

namespace CharacterView

variable {c c' : CharacterView} {d : CharacterData}

/-- The view agrees with the data: whose character it is, of which type, and where it goes. -/
structure Shows (c : CharacterView) (d : CharacterData) : Prop where
  player : c.player = d.player
  type : c.type = d.type
  target : c.target = d.position

theorem shows_apply (c : CharacterView) (d : CharacterData) : (c.apply d).Shows d := by
  unfold apply
  dsimp only
  split <;> exact ⟨rfl, rfl, rfl⟩

theorem lastUpdate_apply (c : CharacterView) (d : CharacterData) :
    (c.apply d).lastUpdate = c.lastUpdate := by
  unfold apply
  dsimp only
  split <;> rfl

structure SameCourse (c c' : CharacterView) : Prop where
  player : c'.player = c.player
  type : c'.type = c.type
  lastUpdate : c'.lastUpdate = c.lastUpdate
  target : c'.target = c.target

theorem Shows.of_sameCourse (h : c.Shows d) (hc : c.SameCourse c') : c'.Shows d :=
  ⟨hc.player.trans h.player, hc.type.trans h.type, hc.target.trans h.target⟩

theorem sameCourse_advance {frame : Float32} (h : c.advance frame = some c') :
    c.SameCourse c' := by
  unfold advance at h
  split at h
  · cases h
    exact ⟨rfl, rfl, rfl, rfl⟩
  next t ht =>
  obtain ⟨⟨t', position, done⟩, ha, h⟩ := Option.bind_eq_some_iff.mp h
  cases h
  refine ⟨rfl, rfl, rfl, ?_⟩
  obtain ⟨hs, hd⟩ := PositionTween.advance_eq_some ha
  -- A tween that ends leaves the character standing exactly where it was going.
  cases done with
  | true => simp [target, ht, hd]
  | false => simp [target, ht, hs]

end CharacterView

namespace WorldView

variable {v v' : WorldView}

theorem shows_refreshed (v : WorldView) (u : EntityUpdate) (d : CharacterData) :
    (v.refreshed u d).Shows d ∧ (v.refreshed u d).lastUpdate = u.time := by
  obtain ⟨hp, ht, hg⟩ := CharacterView.shows_apply
    { (v.characters.get? u.entity).getD { entity := u.entity } with lastUpdate := u.time } d
  exact ⟨⟨hp, ht, hg⟩, CharacterView.lastUpdate_apply _ d⟩

theorem get?_tick {frame : Float32} (h : v.tick frame = some v') (k : EntityId) :
    v'.characters.get? k = (v.characters.get? k).bind (·.advance frame) := by
  unfold tick at h
  split at h
  · next ha =>
    cases h
    rw [Table.get?_map]
    cases hc : v.characters.get? k with
    | none => rfl
    | some c =>
      have hs := List.all_eq_true.mp ha c (Table.mem_values_iff.mpr ⟨k, hc⟩)
      obtain ⟨c', hc'⟩ := Option.isSome_iff_exists.mp hs
      simp [hc']
  · cases h

theorem advance_of_tick {frame : Float32} (h : v.tick frame = some v') {k : EntityId}
    {c : CharacterView} (hc : v.characters.get? k = some c) :
    ∃ c', c.advance frame = some c' ∧ v'.characters.get? k = some c' := by
  have hg := get?_tick h k
  rw [hc] at hg
  unfold tick at h
  split at h
  · next ha =>
    have hs := List.all_eq_true.mp ha c (Table.mem_values_iff.mpr ⟨k, hc⟩)
    obtain ⟨c', hc'⟩ := Option.isSome_iff_exists.mp hs
    exact ⟨c', hc', hg.trans hc'⟩
  · cases h

theorem character_of_takes {p : Packet} (h : v.Takes p v') {k : EntityId} {c : CharacterView}
    (hc : v'.characters.get? k = some c) :
    (∃ u d, p = .entityUpdate u ∧ u.type = .character ∧ u.entity = k ∧
        CharacterData.ofBlob u.data = .ok d ∧ c = v.refreshed u d) ∨
      ∃ c₀, v.characters.get? k = some c₀ ∧ c₀.SameCourse c := by
  have kept {c} (h : v.characters.get? k = some c) :
      ∃ c₀, v.characters.get? k = some c₀ ∧ c₀.SameCourse c :=
    ⟨c, h, rfl, rfl, rfl, rfl⟩
  cases h with
  | character hw ht hn hd =>
    obtain ⟨rfl, rfl⟩ | ⟨-, hc⟩ := Table.get?_insert_eq_some_iff.mp hc
    · exact Or.inl ⟨_, _, rfl, ht, rfl, hd, rfl⟩
    · exact Or.inr (kept hc)
  | removed k' => exact Or.inr (kept (Table.get?_erase_eq_some_iff.mp hc).2)
  | details _ a =>
    rw [Table.get?_modify] at hc
    split at hc
    · obtain ⟨c₀, hc₀, rfl⟩ := Option.map_eq_some_iff.mp hc
      exact Or.inr ⟨c₀, hc₀, rfl, rfl, rfl, rfl⟩
    · exact Or.inr (kept hc)
  | _ => exact Or.inr (kept hc)

theorem character_of_tick {frame : Float32} (h : v.tick frame = some v') {k : EntityId}
    {c : CharacterView} (hc : v'.characters.get? k = some c) :
    ∃ c₀, v.characters.get? k = some c₀ ∧ c₀.SameCourse c := by
  rw [get?_tick h] at hc
  obtain ⟨c₀, hc₀, ha⟩ := Option.bind_eq_some_iff.mp hc
  exact ⟨c₀, hc₀, CharacterView.sameCourse_advance ha⟩

end WorldView

end SharedWorld
