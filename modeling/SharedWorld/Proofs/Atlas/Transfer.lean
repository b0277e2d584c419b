import SharedWorld.Proofs.Atlas.Numbers

/-! # What a transfer changes

A transfer first takes the player out of one world and then brings it into another one, or back
into the same. Nothing refuses the second half once the first is done. Besides the player and
its character, everything in both worlds stays, and all other worlds stay as they are.
-/

namespace SharedWorld

namespace World

variable {w w' w'' : World} {q : PlayerId} {k : EntityId} {m : Member} {wall : UInt64}

/-- The same world, but for one member and one character. -/
structure AlikeBut (q : PlayerId) (k : EntityId) (w w' : World) : Prop where
  rest : w' = { w with members := w'.members, characters := w'.characters }
  members : ∀ p, p ≠ q → w'.members.get? p = w.members.get? p
  characters : ∀ e, e ≠ k → w'.characters.get? e = w.characters.get? e

theorem AlikeBut.refl (w : World) : w.AlikeBut q k w := ⟨rfl, fun _ _ => rfl, fun _ _ => rfl⟩

theorem AlikeBut.trans (h : w.AlikeBut q k w') (h' : w'.AlikeBut q k w'') :
    w.AlikeBut q k w'' where
  rest := by rw [h'.rest, h.rest]
  members p hp := (h'.members p hp).trans (h.members p hp)
  characters e he := (h'.characters e he).trans (h.characters e he)

theorem step_removePlayer (hm : w.members.get? q = some m) (wall : UInt64) :
    (w.step (.removePlayer q wall)).1 = { w with
      members := w.members.erase q
      characters := w.characters.erase m.character } := by
  obtain ⟨s, hs, rfl⟩ := removePlayer_isOk wall hm
  simp [step, orKeep, hs, (removePlayer_eq_ok hs).2]

theorem step_addPlayer {p : Player} (hn : w.members.get? p.id = none) (ids : EntityIds)
    (k : EntityId) :
    (w.step (.addPlayer ids p (some k))).1 = { w with
      members := w.members.insert p.id (memberOf p k)
      characters := w.characters.insert k
        (w.newCharacter k p.id w.spawn playerCharacterType) } := by
  obtain ⟨s, hs⟩ := addPlayer_isOk ids (some k) hn
  obtain ⟨-, hv, hst⟩ := addPlayer_eq_ok hs
  simp [step, orKeep, hs, hst, hv]

theorem alikeBut_removePlayer (hm : w.members.get? q = some m) (wall : UInt64) :
    w.AlikeBut q m.character (w.step (.removePlayer q wall)).1 := by
  rw [step_removePlayer hm]
  constructor
  · rfl
  · intro p hp
    simp [Table.get?_erase, hp]
  · intro e he
    simp [Table.get?_erase, he]

theorem alikeBut_addPlayer {p : Player} (hn : w.members.get? p.id = none) (ids : EntityIds)
    (k : EntityId) : w.AlikeBut p.id k (w.step (.addPlayer ids p (some k))).1 := by
  rw [step_addPlayer hn]
  constructor
  · rfl
  · intro q hq
    simp [Table.get?_insert, hq]
  · intro e he
    simp [Table.get?_insert, he]

end World

namespace Atlas

variable {a a' : Atlas} {p : Player} {q : PlayerId} {V W : String} {k : EntityId} {m : Member}
  {wall : UInt64}

/-- The player has gone from one world to another with its character, and has left nothing
behind. Nobody else has noticed. -/
structure Moves (a a' : Atlas) (p : Player) (V W : String) (k : EntityId) : Prop where
  settles : a.Settles a' p W k
  ids : a'.ids = a.ids
  others : ∀ U, U ≠ V → U ≠ W → a'.worlds.get? U = a.worlds.get? U
  alike : ∀ U w, a.worlds.get? U = some w →
    ∃ w', a'.worlds.get? U = some w' ∧ w.AlikeBut p.id k w'
  left : V ≠ W → ∀ w, a'.worlds.get? V = some w → ¬ w.Live k
  arrived : ∃ w, a'.worlds.get? W = some w ∧
    w.characters.get? k = some (w.newCharacter k p.id w.spawn World.playerCharacterType)

theorem transfer_refuses (h : a.Sound) (wall : UInt64)
    (hn : a.worlds.get? W = none ∨ ∀ V, a.member? V p.id = none) :
    ∃ e, a.transfer p W wall = ⟨a, [], .error e⟩ := by
  obtain he | ⟨V, m, hm, hv, -⟩ := transfer_cases h p W wall
  · exact he
  exfalso
  rcases hn with hW | hn
  · simp [transfer, Table.contains_eq, hW] at hv
  · rw [hn V] at hm
    cases hm

theorem get?_transfer (h : a.Sound) (hW : (a.worlds.get? W).isSome)
    (hh : a.home? p.id = some (V, m)) (wall : UInt64) (U : String) :
    let left := if U = V then
        (a.worlds.get? U).map fun w => (w.step (.removePlayer p.id wall)).1
      else a.worlds.get? U
    (a.transfer p W wall).state.worlds.get? U =
      if U = W then left.map fun w => (w.step (.addPlayer a.ids p (some m.character))).1
      else left := by
  obtain ⟨w, hW⟩ := Option.isSome_iff_exists.mp hW
  have hacts := (Prod.mk.inj (perform_acts h (.transfer p W wall))).1
  simp only [acts, hW, hh, perform] at hacts
  change _ = (a.transfer p W wall).state.worlds at hacts
  rw [← hacts, get?_act, get?_act]

section Home

variable (h : a.Sound) (hW : (a.worlds.get? W).isSome) (hm : a.member? V p.id = some m)

include h hm

theorem home?_of_member : a.home? p.id = some (V, m) :=
  home?_eq_some_iff.mpr ⟨h.index_of_member hm, hm⟩

include hW

theorem value_transfer (wall : UInt64) :
    (a.transfer p W wall).value = .ok m.character ∧ (a.transfer p W wall).state.ids = a.ids := by
  obtain ⟨s, hids, henter, ht⟩ := transfer_of_home h hW (home?_of_member h hm) wall
  obtain ⟨-, -, -, hv, hids', -⟩ := enter_eq_ok henter
  rw [ht]
  exact ⟨congrArg _ hv, hids'.trans hids⟩

theorem settles_transfer (wall : UInt64) :
    a.Settles (a.transfer p W wall).state p W m.character := by
  obtain ⟨hvalue, -⟩ := value_transfer h hW hm wall
  obtain ⟨e, he⟩ | ⟨V', m', -, hv, hs, -⟩ := transfer_cases h p W wall
  · rw [he] at hvalue
    cases hvalue
  · rw [hvalue] at hv
    rwa [Except.ok.inj hv]

theorem alike_transfer (wall : UInt64) {U : String} {w : World} (hU : a.worlds.get? U = some w) :
    ∃ w', (a.transfer p W wall).state.worlds.get? U = some w' ∧
      w.AlikeBut p.id m.character w' := by
  have hget := get?_transfer h hW (home?_of_member h hm) wall U
  obtain ⟨v, hV, hvm⟩ := Option.bind_eq_some_iff.mp hm
  by_cases hUV : U = V
  · subst hUV
    obtain rfl : v = w := Option.some.inj (hV.symm.trans hU)
    have hleft := World.alikeBut_removePlayer hvm wall
    by_cases hUW : U = W
    · subst hUW
      have hgone : (v.step (.removePlayer p.id wall)).1.members.get? p.id = none := by
        simp [World.step_removePlayer hvm, Table.get?_erase]
      exact ⟨_, by simpa [hU] using hget,
        hleft.trans (World.alikeBut_addPlayer hgone a.ids m.character)⟩
    · exact ⟨_, by simpa [hU, hUW] using hget, hleft⟩
  by_cases hUW : U = W
  · subst hUW
    have hn : w.members.get? p.id = none := by
      simpa [member?, hU] using h.member?_eq_none (h.index_of_member hm) hUV
    exact ⟨_, by simpa [hU, hUV] using hget, World.alikeBut_addPlayer hn a.ids m.character⟩
  · exact ⟨w, by simpa [hU, hUV, hUW] using hget, .refl w⟩

theorem not_live_transfer (wall : UInt64) (hne : V ≠ W) {w : World}
    (hw : (a.transfer p W wall).state.worlds.get? V = some w) : ¬ w.Live m.character := by
  obtain ⟨v, hV, hvm⟩ := Option.bind_eq_some_iff.mp hm
  rw [get?_transfer h hW (home?_of_member h hm) wall V] at hw
  simp only [hne, if_true, if_false, hV, Option.map_some, Option.some.injEq] at hw
  rw [← hw, World.step_removePlayer hvm]
  simp [World.Live, Table.get?_erase]

theorem arrived_transfer (wall : UInt64) :
    ∃ w, (a.transfer p W wall).state.worlds.get? W = some w ∧ w.characters.get? m.character =
      some (w.newCharacter m.character p.id w.spawn World.playerCharacterType) := by
  have hget := get?_transfer h hW (home?_of_member h hm) wall W
  obtain ⟨v, hV, hvm⟩ := Option.bind_eq_some_iff.mp hm
  by_cases hWV : W = V
  · subst hWV
    have hgone : (v.step (.removePlayer p.id wall)).1.members.get? p.id = none := by
      simp [World.step_removePlayer hvm, Table.get?_erase]
    refine ⟨_, by simpa [hV] using hget, ?_⟩
    rw [World.step_addPlayer hgone, World.step_removePlayer hvm]
    simp [World.newCharacter]
  · obtain ⟨w, hw⟩ := Option.isSome_iff_exists.mp hW
    have hn : w.members.get? p.id = none := by
      simpa [member?, hw] using h.member?_eq_none (h.index_of_member hm) hWV
    refine ⟨_, by simpa [hw, hWV] using hget, ?_⟩
    rw [World.step_addPlayer hn]
    simp [World.newCharacter]

theorem moves_transfer (wall : UInt64) :
    a.Moves (a.transfer p W wall).state p V W m.character where
  settles := settles_transfer h hW hm wall
  ids := (value_transfer h hW hm wall).2
  others U hUV hUW := by
    simpa [hUV, hUW] using get?_transfer h hW (home?_of_member h hm) wall U
  alike _ _ := alike_transfer h hW hm wall
  left hne _ := not_live_transfer h hW hm wall hne
  arrived := arrived_transfer h hW hm wall

end Home

end Atlas

end SharedWorld
