import SharedWorld.Proofs.Tile.Language
import SharedWorld.Proofs.View.Run

/-! # What an update leaves alone

An update is answered at one of eight points, and the view is changed at two of them only. All
else leaves the whole view as it was, also when the view is changed in place and the data turn
out to be bad on the way.
-/

namespace SharedWorld

namespace Table

variable {κ α : Type} [Key κ] [DecidableEq κ]

/-- A table that has a value under the key, this one if there was none. -/
def ensure (t : Table κ α) (k : κ) (a : α) : Table κ α := if t.contains k then t else t.insert k a

theorem modify_ensure (t : Table κ α) (k : κ) (a : α) (f : α → α) :
    (t.ensure k a).modify k f = t.insert k (f ((t.get? k).getD a)) := by
  unfold ensure
  rw [contains_eq]
  cases h : t.get? k with
  | none => exact modify_insert t k a f
  | some b => exact (insert_eq_modify h f).symm

end Table

namespace WorldView

/-- A character's update that changes the view as it goes: the character is there before it has
any data, and is changed in one field after the other. -/
def applyCharacterInPlace (v : WorldView) (u : EntityUpdate) :
    WorldView × Except WorldError Outcome :=
  if (v.characters.get? u.entity).any (u.time ≤ ·.lastUpdate) then (v, .ok .stale)
  else
    match CharacterData.ofBlob u.data with
    | .error e => (v, .error e)
    | .ok data =>
      let v := { v with characters := v.characters.ensure u.entity { entity := u.entity } }
      let v := { v with characters :=
        v.characters.modify u.entity fun c => { c with lastUpdate := u.time } }
      let v := { v with characters := v.characters.modify u.entity (·.apply data) }
      match v.pending.get? u.entity with
      | none => (v, .ok .applied)
      | some a =>
        let v := { v with pending := v.pending.erase u.entity }
        ({ v with characters :=
          v.characters.modify u.entity fun c => { c with appearance := some a } }, .ok .applied)

def updateInPlace (v : WorldView) (u : EntityUpdate) : WorldView × Except WorldError Outcome :=
  if u.world ≠ v.name then (v, .ok .otherWorld)
  else
    match u.type with
    | .world =>
      if u.time ≤ v.lastWorldUpdate then (v, .ok .stale)
      else
        match v.tiles.applyInPlace u.data with
        | (tiles, .error e) => ({ v with tiles }, .error e)
        | (tiles, .ok _) =>
          let v := { v with tiles }
          ({ v with lastWorldUpdate := u.time }, .ok .applied)
    | .character => v.applyCharacterInPlace u
    | .unknown => (v, .error (.unsupportedEntityType .unknown))

theorem applyCharacterInPlace_eq (v : WorldView) (u : EntityUpdate) :
    v.applyCharacterInPlace u = match v.applyCharacter u with
      | .ok (o, v') => (v', .ok o)
      | .error e => (v, .error e) := by
  unfold applyCharacterInPlace applyCharacter
  dsimp only
  split
  · rfl
  cases CharacterData.ofBlob u.data with
  | error e => rfl
  | ok data =>
    dsimp only
    rw [Table.modify_ensure, Table.modify_insert]
    cases hp : v.pending.get? u.entity with
    | none =>
      dsimp only
      rw [Table.erase_eq_self hp]
      rfl
    | some a =>
      dsimp only
      rw [Table.modify_insert]
      rfl

/-- No point of failure is reached after the first change to the view. -/
theorem updateInPlace_eq (v : WorldView) (u : EntityUpdate) :
    v.updateInPlace u = match v.applyUpdate u with
      | .ok (o, v') => (v', .ok o)
      | .error e => (v, .error e) := by
  unfold updateInPlace applyUpdate
  split
  · rfl
  cases u.type with
  | unknown => rfl
  | character => exact applyCharacterInPlace_eq v u
  | world =>
    dsimp only
    split
    · rfl
    rw [TileView.applyInPlace_eq]
    cases v.tiles.apply u.data <;> rfl

/-- Two views that differ in one character and its pending appearance at most. -/
structure OnlyCharacter (v : WorldView) (k : EntityId) (v' : WorldView) : Prop where
  characters : ∀ k', k' ≠ k → v'.characters.get? k' = v.characters.get? k'
  pending : ∀ k', k' ≠ k → v'.pending.get? k' = v.pending.get? k'
  rest : v' = { v with characters := v'.characters, pending := v'.pending }

structure OnlyTiles (v v' : WorldView) : Prop where
  newer : v.lastWorldUpdate < v'.lastWorldUpdate
  rest : v' = { v with tiles := v'.tiles, lastWorldUpdate := v'.lastWorldUpdate }

/-- What an update with this answer may have changed in a view. -/
structure Confined (v : WorldView) (u : EntityUpdate) (answer : Except WorldError Outcome)
    (v' : WorldView) : Prop where
  refused : answer ≠ .ok .applied → v' = v
  character : answer = .ok .applied → u.type = .character → v.OnlyCharacter u.entity v'
  tiles : answer = .ok .applied → u.type = .world → v.OnlyTiles v'

/-- A view that is changed in place ends up as one that is replaced: an update that is refused, at
whatever point, leaves it as it was, and one that is applied changes what it is about. -/
theorem updateInPlace_confined (v : WorldView) (u : EntityUpdate) :
    (v.updateInPlace u = match v.applyUpdate u with
      | .ok (o, v') => (v', .ok o)
      | .error e => (v, .error e)) ∧
    v.Confined u (v.updateInPlace u).2 (v.updateInPlace u).1 := by
  refine ⟨updateInPlace_eq v u, ?_⟩
  rw [updateInPlace_eq]
  have h := v.answers_applyUpdate u
  generalize v.applyUpdate u = answer at h
  cases h with
  | elsewhere | untyped | staleTiles | badTiles | staleCharacter | badCharacter =>
    exact ⟨fun _ => rfl, nofun, nofun⟩
  | tiles _ ht hn _ =>
    refine ⟨fun ho => (ho rfl).elim, fun _ ht' => ?_, fun _ _ => ⟨hn, rfl⟩⟩
    rw [ht] at ht'
    cases ht'
  | character _ ht _ _ =>
    refine ⟨fun ho => (ho rfl).elim, fun _ _ => ⟨fun k hk => ?_, fun k hk => ?_, rfl⟩,
      fun _ ht' => ?_⟩
    · rw [Table.get?_insert, if_neg hk]
    · rw [Table.get?_erase, if_neg hk]
    · rw [ht] at ht'
      cases ht'

end WorldView

end SharedWorld
