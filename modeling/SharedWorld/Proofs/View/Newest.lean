import Mathlib.Data.List.Induction
import Mathlib.Data.List.MinMax
import SharedWorld.Proofs.View.Appearance

/-! # The newest update of a character

As long as a view is not told that a character is gone, it shows the character by the newest
update that has arrived, the first of these if there are several. What else arrives does not
matter, and neither does how the characters glide in the meantime.
-/

namespace SharedWorld

namespace WorldView

def Event.informs? (W : String) (k : EntityId) : Event → Option (EntityUpdate × CharacterData)
  | .packet (.entityUpdate u) =>
    if u.world = W ∧ u.type = .character ∧ u.entity = k then
      (CharacterData.ofBlob u.data).toOption.map (u, ·)
    else none
  | _ => none

def news (W : String) (k : EntityId) (es : List Event) : List (EntityUpdate × CharacterData) :=
  es.filterMap (Event.informs? W k)

/-- The newest of them, the first if there are several. -/
def newest? (W : String) (k : EntityId) (es : List Event) : Option (EntityUpdate × CharacterData) :=
  (news W k es).argmax (·.1.time.toNat)

variable {v v' : WorldView} {u : EntityUpdate} {d : CharacterData} {k : EntityId} {W : String}
  {c : CharacterView} {p : Packet} {e : Event} {es : List Event}

theorem Event.informs?_eq_some_iff : e.informs? W k = some (u, d) ↔
    e = .packet (.entityUpdate u) ∧ u.world = W ∧ u.type = .character ∧ u.entity = k ∧
      CharacterData.ofBlob u.data = .ok d := by
  constructor
  · intro h
    unfold informs? at h
    split at h
    · split at h
      · next hu =>
        obtain ⟨d', hd, hp⟩ := Option.map_eq_some_iff.mp h
        cases hp
        obtain ⟨hw, ht, he⟩ := hu
        refine ⟨rfl, hw, ht, he, ?_⟩
        cases ho : CharacterData.ofBlob u.data with
        | error => rw [ho] at hd; cases hd
        | ok => rw [ho] at hd; cases hd; rfl
      · cases h
    · cases h
  · rintro ⟨rfl, hw, ht, he, hd⟩
    simp [informs?, hw, ht, he, hd, Except.toOption]

theorem news_concat (W : String) (k : EntityId) (es : List Event) (e : Event) :
    news W k (es ++ [e]) = news W k es ++ (e.informs? W k).toList := by
  rw [news, List.filterMap_append, news]
  cases h : e.informs? W k <;> simp [h]

theorem newest?_of_none (h : e.informs? W k = none) : newest? W k (es ++ [e]) = newest? W k es := by
  rw [newest?, news_concat, h, Option.toList_none, List.append_nil, newest?]

theorem newest?_of_some (h : e.informs? W k = some (u, d)) :
    newest? W k (es ++ [e]) = (newest? W k es).elim (some (u, d)) fun x =>
      if x.1.time < u.time then some (u, d) else some x := by
  rw [newest?, news_concat, h, Option.toList_some, List.argmax_concat, newest?]
  cases (news W k es).argmax (·.1.time.toNat) <;> rfl

theorem newest?_eq_none_iff : newest? W k es = none ↔ news W k es = [] :=
  List.argmax_eq_none

theorem applyUpdate_stale (hw : u.world = v.name) (ht : u.type = .character)
    (hc : v.characters.get? u.entity = some c) (hs : u.time ≤ c.lastUpdate) :
    v.applyUpdate u = .ok (.stale, v) := by
  simp only [applyUpdate, applyCharacter, hw, ht, hc, hs, ne_eq, not_true_eq_false, if_false,
    Option.any_some, decide_true, if_true]
  rfl

theorem applyUpdate_newer (hw : u.world = v.name) (ht : u.type = .character)
    (hn : ∀ c ∈ v.characters.get? u.entity, c.lastUpdate < u.time)
    (hd : CharacterData.ofBlob u.data = .ok d) :
    v.applyUpdate u = .ok (.applied, { v with
      characters := v.characters.insert u.entity (v.refreshed u d)
      pending := v.pending.erase u.entity }) := by
  have hs : ¬ (v.characters.get? u.entity).any (u.time ≤ ·.lastUpdate) := by
    cases hc : v.characters.get? u.entity with
    | none => nofun
    | some c => simpa using hn c hc
  simp only [applyUpdate, applyCharacter, hw, ht, hs, hd, ne_eq, not_true_eq_false, if_false]
  rfl

theorem informs_of_applied (ht : u.type = .character) (h : v.applyUpdate u = .ok (.applied, v')) :
    ∃ d, Event.informs? v.name u.entity (.packet (.entityUpdate u)) = some (u, d) := by
  have ha := v.answers_applyUpdate u
  rw [h] at ha
  cases ha with
  | tiles _ ht' => cases ht.symm.trans ht'
  | @character d hw _ _ hd => exact ⟨d, Event.informs?_eq_some_iff.mpr ⟨rfl, hw, ht, rfl, hd⟩⟩

/-- The view holds the character just as this newest update has it, or neither is there. -/
abbrev Reflects (c : Option CharacterView) (x : Option (EntityUpdate × CharacterData)) : Prop :=
  Option.Rel (fun c x => c.lastUpdate = x.1.time ∧ c.Shows x.2) c x

theorem Reflects.of_sameCourse {o o' : Option CharacterView}
    {x : Option (EntityUpdate × CharacterData)} (h : Reflects o x)
    (hs : Option.Rel CharacterView.SameCourse o o') : Reflects o' x := by
  cases hs with
  | none => exact h
  | some hs =>
    cases h with
    | some h => exact .some ⟨hs.lastUpdate.trans h.1, h.2.of_sameCourse hs⟩

theorem sameCourse_refl (o : Option CharacterView) : Option.Rel CharacterView.SameCourse o o := by
  cases o with
  | none => exact .none
  | some c => exact .some ⟨rfl, rfl, rfl, rfl⟩

theorem sameCourse_step (h : v.step e = some v') (he : e.informs? v.name k = none)
    (hr : e ≠ .packet (.removeEntity k v.name)) :
    Option.Rel CharacterView.SameCourse (v.characters.get? k) (v'.characters.get? k) := by
  cases e with
  | frame millis =>
    cases hc : v.characters.get? k with
    | none =>
      rw [get?_tick h, hc]
      exact .none
    | some c =>
      obtain ⟨c', ha, hc'⟩ := advance_of_tick h hc
      rw [hc']
      exact .some (CharacterView.sameCourse_advance ha)
  | packet p =>
    cases h
    have ht := v.takes_receive p
    generalize v.receive p = v' at ht
    cases ht with
    | nothing | tiles | pending | chat => exact sameCourse_refl _
    | removed k' =>
      have hk : k ≠ k' := fun hk => hr (by rw [hk])
      rw [Table.get?_erase, if_neg hk]
      exact sameCourse_refl _
    | details hc a =>
      rw [Table.get?_modify]
      split
      · cases v.characters.get? k with
        | none => exact .none
        | some c => exact .some ⟨rfl, rfl, rfl, rfl⟩
      · exact sameCourse_refl _
    | @character u d hw ht hn hd =>
      have hk : k ≠ u.entity := by
        rintro rfl
        rw [Event.informs?_eq_some_iff.mpr ⟨rfl, hw, ht, rfl, hd⟩] at he
        cases he
      rw [Table.get?_insert, if_neg hk]
      exact sameCourse_refl _

theorem reflects_step (hx : Reflects (v.characters.get? k) (newest? v.name k es))
    (h : v.step e = some v') (hr : e ≠ .packet (.removeEntity k v.name)) :
    Reflects (v'.characters.get? k) (newest? v.name k (es ++ [e])) := by
  cases he : e.informs? v.name k with
  | none =>
    rw [newest?_of_none he]
    exact hx.of_sameCourse (sameCourse_step h he hr)
  | some x =>
    obtain ⟨u, d⟩ := x
    obtain ⟨rfl, hw, ht, rfl, hd⟩ := Event.informs?_eq_some_iff.mp he
    rw [newest?_of_some he]
    cases h
    have applied (hn : ∀ c ∈ v.characters.get? u.entity, c.lastUpdate < u.time) :
        Reflects ((v.receive (.entityUpdate u)).characters.get? u.entity) (some (u, d)) := by
      have hv := applyUpdate_newer hw ht hn hd
      obtain ⟨hs, hl⟩ := v.shows_refreshed u d
      simp only [receive, handle, hv, bind, Except.bind, pure, Except.pure, Table.get?_insert_self]
      exact .some ⟨hl, hs⟩
    cases hc : v.characters.get? u.entity with
    | none =>
      rw [hc] at hx applied
      generalize newest? v.name u.entity es = x at hx
      cases hx
      exact applied fun c hc => absurd hc (Option.not_mem_none c)
    | some c =>
      rw [hc] at hx applied
      generalize newest? v.name u.entity es = o at hx
      cases hx with
      | some hx =>
      rw [Option.elim_some]
      split
      · next hlt =>
        refine applied fun c' hc' => ?_
        rw [← Option.mem_some.mp hc', hx.1]
        exact hlt
      · next hle =>
        have hs : u.time ≤ c.lastUpdate := hx.1 ▸ UInt64.not_lt.mp hle
        simp only [receive, handle, applyUpdate_stale hw ht hc hs, bind, Except.bind, pure,
          Except.pure, hc]
        exact .some hx

def Applies (v : WorldView) (es : List Event) (k : EntityId) : Prop :=
  ∃ before u after v₁ v₂, es = before ++ .packet (.entityUpdate u) :: after ∧
    v.run before = some v₁ ∧ u.type = .character ∧ u.entity = k ∧
    v₁.applyUpdate u = .ok (.applied, v₂)

theorem reflects_run (hv : v.run es = some v') (hn : v.characters.get? k = none)
    (hr : .packet (.removeEntity k v.name) ∉ es) :
    Reflects (v'.characters.get? k) (newest? v.name k es) := by
  induction es using List.reverseRecOn generalizing v' with
  | nil =>
    cases hv
    rw [hn]
    exact .none
  | append_singleton es e ih =>
    rw [run_concat] at hv
    obtain ⟨v₁, h₁, hv⟩ := Option.bind_eq_some_iff.mp hv
    obtain ⟨hes, he⟩ := not_or.mp (mt List.mem_append.mpr hr)
    have hx := ih h₁ hes
    rw [← name_run h₁] at hx he ⊢
    exact reflects_step hx hv fun h => he (List.mem_singleton.mpr h.symm)

theorem applies_iff (hv : v.run es = some v') (hn : v.characters.get? k = none)
    (hr : .packet (.removeEntity k v.name) ∉ es) : v.Applies es k ↔ news v.name k es ≠ [] := by
  constructor
  · rintro ⟨before, u, after, v₁, v₂, rfl, h₁, ht, rfl, ha⟩
    obtain ⟨d, hi⟩ := informs_of_applied ht ha
    rw [name_run h₁] at hi
    exact List.ne_nil_of_mem (List.mem_filterMap.mpr
      ⟨_, List.mem_append_right _ List.mem_cons_self, hi⟩)
  · intro hnews
    obtain ⟨⟨u, d⟩, rest, hcons⟩ := List.exists_cons_of_ne_nil hnews
    obtain ⟨before, e, after, rfl, hbefore, hi, -⟩ := List.filterMap_eq_cons_iff.mp hcons
    obtain ⟨rfl, hw, ht, rfl, hd⟩ := Event.informs?_eq_some_iff.mp hi
    obtain ⟨v₁, h₁, -⟩ := Option.bind_eq_some_iff.mp ((run_append ..).symm.trans hv)
    have hx := reflects_run h₁ hn fun hmem => hr (List.mem_append_left _ hmem)
    rw [newest?_eq_none_iff.mpr (List.filterMap_eq_nil_iff.mpr hbefore)] at hx
    generalize hc : v₁.characters.get? u.entity = o at hx
    cases hx
    exact ⟨before, u, after, v₁, _, rfl, h₁, ht, rfl,
      applyUpdate_newer (hw.trans (name_run h₁).symm) ht (hc ▸ nofun) hd⟩

/-- A view that is not told of a removal holds a character exactly when some update of it was
applied, and holds it then just as the newest one that has arrived has it, the first of these. -/
theorem newest_of_run (hv : v.run es = some v') (hn : v.characters.get? k = none)
    (hr : .packet (.removeEntity k v.name) ∉ es) :
    (v'.Holds k ↔ v.Applies es k) ∧
      Option.Rel (fun c x => c.lastUpdate = x.1.time ∧ c.Shows x.2) (v'.characters.get? k)
        (newest? v.name k es) := by
  have hx := reflects_run hv hn hr
  refine ⟨?_, hx⟩
  rw [applies_iff hv hn hr, Holds, ne_eq, ← newest?_eq_none_iff]
  generalize v'.characters.get? k = o at hx ⊢
  generalize newest? v.name k es = x at hx ⊢
  cases hx <;> simp

def sighting (time : UInt64) (world : String) (position : Position) : EntityUpdate :=
  { entity := ⟨3⟩, player := ⟨2⟩, world, time, type := .character
    data := (CharacterData.mk ⟨2⟩ true position "player").toBlob }

def glimpses : List Event := [
  .packet (.setDetails ⟨3⟩ "farm" {}), .packet (.entityUpdate (sighting 5 "farm" ⟨1, 1⟩)),
  .frame 16, .packet (.entityUpdate { sighting 12 "farm" ⟨8, 8⟩ with data := [] }),
  .packet (.entityUpdate (sighting 9 "farm" ⟨3, 4⟩)), .frame 50,
  .packet (.removeEntity ⟨3⟩ "barn"), .packet (.entityUpdate (sighting 20 "barn" ⟨7, 7⟩)),
  .packet (.entityUpdate (sighting 7 "farm" ⟨2, 2⟩)), .frame 200,
  .packet (.entityUpdate (sighting 9 "farm" ⟨6, 6⟩)), .packet (.removeEntity ⟨2⟩ "farm")]

theorem newest_of_run_glimpses :
    ∃ v c, run { name := "farm", localPlayer := ⟨1⟩ } glimpses = some v ∧
      .packet (.removeEntity ⟨3⟩ "farm") ∉ glimpses ∧ v.characters.get? ⟨3⟩ = some c ∧
      c.lastUpdate = 9 ∧ c.player = ⟨2⟩ ∧ c.target = ⟨3, 4⟩ := by
  have hr : .packet (.removeEntity ⟨3⟩ "farm") ∉ glimpses := by simp [glimpses]
  have hv : (run { name := "farm", localPlayer := ⟨1⟩ } glimpses).isSome := by decide +kernel
  obtain ⟨v, hv⟩ := Option.isSome_iff_exists.mp hv
  obtain ⟨-, hx⟩ := newest_of_run (k := ⟨3⟩) hv rfl hr
  have hn : (newest? "farm" ⟨3⟩ glimpses).map (fun x => (x.1.time, x.2.player, x.2.position)) =
      some (9, ⟨2⟩, ⟨3, 4⟩) := by decide +kernel
  obtain ⟨⟨u, d⟩, hn, hd⟩ := Option.map_eq_some_iff.mp hn
  generalize hc : v.characters.get? ⟨3⟩ = o at hx
  rw [hn] at hx
  cases hx with
  | @some c _ hx =>
    obtain ⟨ht, hp, hg⟩ : u.time = 9 ∧ d.player = ⟨2⟩ ∧ d.position = ⟨3, 4⟩ := by simpa using hd
    exact ⟨v, c, hv, hr, hc, hx.1.trans ht, hx.2.player.trans hp, hx.2.target.trans hg⟩

end WorldView

end SharedWorld
