import Mathlib.Data.List.DropRight
import SharedWorld.Proofs.View.Appearance

/-! # Which details a view shows

Details may come before their character, after it, and again after it was removed. Wherever the
view keeps them, a character looks as the last details say that have come since it was removed
last.
-/

namespace SharedWorld

namespace CharacterView

theorem entity_apply (c : CharacterView) (d : CharacterData) : (c.apply d).entity = c.entity := by
  unfold apply
  dsimp only
  split <;> rfl

theorem advance_keeps {c c' : CharacterView} {frame : Float32} (h : c.advance frame = some c') :
    c'.entity = c.entity ∧ c'.appearance = c.appearance := by
  unfold advance at h
  split at h
  · cases h
    exact ⟨rfl, rfl⟩
  · obtain ⟨_, -, h⟩ := Option.bind_eq_some_iff.mp h
    cases h
    exact ⟨rfl, rfl⟩

end CharacterView

namespace WorldView

variable {v v' : WorldView} {e : Event} {es : List Event} {k : EntityId} {W : String} {p : Packet}
  {a : Appearance}

def Event.details? (k : EntityId) (W : String) : Event → Option Appearance
  | .packet (.setDetails k' W' a) => if k' = k ∧ W' = W then some a else none
  | _ => none

def Event.removes (k : EntityId) (W : String) : Event → Bool
  | .packet p => p = .removeEntity k W
  | .frame _ => false

/-- The last details of the character since it was removed last. -/
def told? (k : EntityId) (W : String) (es : List Event) : Option Appearance :=
  ((es.rtakeWhile (!·.removes k W)).filterMap (·.details? k W)).getLast?

/-- How the view shows the character, or would show it if it came now. -/
def shown? (v : WorldView) (k : EntityId) : Option Appearance :=
  match v.characters.get? k with
  | some c => c.appearance
  | none => v.pending.get? k

/-- Characters stand under their own numbers, and no details wait for one that is there. -/
structure Tidy (v : WorldView) : Prop where
  keyed : ∀ k c, v.characters.get? k = some c → c.entity = k
  apart : ∀ k, (v.characters.get? k).isSome → v.pending.get? k = none

section Told

theorem told?_concat_of_removes (h : e.removes k W) : told? k W (es ++ [e]) = none := by
  rw [told?, List.rtakeWhile_concat_neg _ _ _ (by simp [h])]
  rfl

theorem told?_concat (h : e.removes k W = false) :
    told? k W (es ++ [e]) = (e.details? k W <|> told? k W es) := by
  rw [told?, List.rtakeWhile_concat_pos _ _ _ (by simp [h]), List.filterMap_append]
  cases hd : e.details? k W <;> simp [hd, told?]

end Told

section Order

theorem Tidy.shown?_eq (h : v.Tidy) (k : EntityId) : v.shown? k = v.appearance? k := by
  unfold shown? appearance?
  cases hc : v.characters.get? k with
  | none => simp
  | some c => simp [h.apart k (by simp [hc])]

theorem entity_refreshed (h : v.Tidy) (u : EntityUpdate) (d : CharacterData) :
    (v.refreshed u d).entity = u.entity := by
  unfold refreshed
  dsimp only
  rw [CharacterView.entity_apply]
  cases hc : v.characters.get? u.entity with
  | none => rfl
  | some c => exact h.keyed _ c hc

theorem Tidy.takes (h : v.Tidy) (ht : v.Takes p v') : v'.Tidy := by
  cases ht with
  | nothing => exact h
  | tiles => exact ⟨h.keyed, h.apart⟩
  | chat => exact ⟨h.keyed, h.apart⟩
  | @character u d =>
    constructor
    · intro k c hc
      obtain ⟨rfl, rfl⟩ | ⟨-, hc⟩ := Table.get?_insert_eq_some_iff.mp hc
      · exact entity_refreshed h u d
      · exact h.keyed k c hc
    · intro k hk
      simp only [Table.get?_insert, Table.get?_erase] at hk ⊢
      split
      · rfl
      · next hne => exact h.apart k (by simpa [hne] using hk)
  | removed k' =>
    constructor
    · intro k c hc
      exact h.keyed k c (Table.get?_erase_eq_some_iff.mp hc).2
    · intro k hk
      simp only [Table.get?_erase]
      split
      · rfl
      · exact h.apart k (Table.isSome_of_erase hk)
  | details _ a =>
    constructor
    · intro k c hc
      rw [Table.get?_modify] at hc
      split at hc
      · obtain ⟨c₀, hc₀, rfl⟩ := Option.map_eq_some_iff.mp hc
        exact h.keyed k c₀ hc₀
      · exact h.keyed k c hc
    · intro k hk
      exact h.apart k (by simpa using hk)
  | @pending k' hn a =>
    constructor
    · exact h.keyed
    · intro k hk
      rw [Table.get?_insert, if_neg]
      · exact h.apart k hk
      · rintro rfl
        rw [Table.contains_eq, hk] at hn
        cases hn

theorem Tidy.tick {frame : Float32} (h : v.Tidy) (ht : v.tick frame = some v') :
    v'.Tidy ∧ ∀ k, v'.shown? k = v.shown? k := by
  have hpending : v'.pending = v.pending := by
    unfold WorldView.tick at ht
    split at ht <;> cases ht
    rfl
  refine ⟨⟨fun k c hc => ?_, fun k hk => ?_⟩, fun k => ?_⟩
  · rw [get?_tick ht] at hc
    obtain ⟨c₀, hc₀, ha⟩ := Option.bind_eq_some_iff.mp hc
    exact (CharacterView.advance_keeps ha).1.trans (h.keyed k c₀ hc₀)
  · rw [hpending]
    refine h.apart k ?_
    rw [get?_tick ht] at hk
    exact Option.isSome_of_isSome_bind hk
  · unfold shown?
    cases hc : v.characters.get? k with
    | none => simp [get?_tick ht, hc, hpending]
    | some c =>
      obtain ⟨c', ha, hc'⟩ := advance_of_tick ht hc
      simp [hc', (CharacterView.advance_keeps ha).2]

theorem Tidy.receive (h : v.Tidy) (p : Packet) : (v.receive p).Tidy ∧
    ∀ k, (v.receive p).shown? k = if (Event.packet p).removes k v.name then none
      else ((Event.packet p).details? k v.name <|> v.shown? k) := by
  have ht := h.takes (v.takes_receive p)
  refine ⟨ht, fun k => ?_⟩
  rw [ht.shown?_eq, h.shown?_eq]
  by_cases hr : p = .removeEntity k v.name
  · subst hr
    simp [Event.removes, receive_removeEntity, appearance?, Table.get?_erase]
  rw [if_neg (by simpa [Event.removes] using hr)]
  by_cases hd : p.Describes k v.name
  · obtain ⟨a, rfl⟩ := hd
    rw [appearance?_setDetails]
    split
    · next hc => simp [Event.details?, h.apart k hc]
    · simp [Event.details?]
  · have hnone : (Event.packet p).details? k v.name = none := by
      cases p <;> simp only [Event.details?]
      rw [if_neg]
      rintro ⟨rfl, rfl⟩
      exact hd ⟨_, rfl⟩
    rw [appearance?_of_takes (v.takes_receive p) hr hd, hnone]
    rfl

theorem Tidy.step (h : v.Tidy) (hs : v.step e = some v') : v'.Tidy ∧
    ∀ k, v'.shown? k = if e.removes k v.name then none
      else (e.details? k v.name <|> v.shown? k) := by
  cases e with
  | packet p =>
    cases hs
    exact h.receive p
  | frame millis =>
    obtain ⟨ht, hshown⟩ := h.tick hs
    exact ⟨ht, fun k => by simpa [Event.removes, Event.details?] using hshown k⟩

end Order

/-- However details, updates, removals and frames come to a new view, it stays tidy, and shows
each character as the last details say since the character was removed last. -/
theorem details_of_run {localPlayer : PlayerId}
    (h : run { name := W, localPlayer } es = some v) :
    v.Tidy ∧ ∀ k, v.shown? k = told? k W es := by
  induction es using List.reverseRecOn generalizing v with
  | nil =>
    cases h
    exact ⟨⟨nofun, nofun⟩, fun k => rfl⟩
  | append_singleton es e ih =>
    rw [run_concat] at h
    obtain ⟨v₁, h₁, h⟩ := Option.bind_eq_some_iff.mp h
    obtain ⟨ht, hshown⟩ := ih h₁
    obtain ⟨ht', hshown'⟩ := ht.step h
    have hname : v₁.name = W := name_run h₁
    refine ⟨ht', fun k => ?_⟩
    rw [hshown' k, hname, hshown k]
    cases hr : e.removes k W with
    | true => simp [told?_concat_of_removes hr]
    | false => simp [told?_concat hr]

def wardrobe : List Event :=
  let seen (time : UInt64) (world : String) : Event := .packet (.entityUpdate {
    entity := ⟨3⟩, player := ⟨2⟩, world, time, type := .character
    data := (CharacterData.mk ⟨2⟩ true ⟨1, 2⟩ "player").toBlob })
  let described (world hair : String) : Event := .packet (.setDetails ⟨3⟩ world { hair })
  [described "farm" "braids", seen 5 "farm", described "farm" "bun", .frame 16,
    .packet (.removeEntity ⟨3⟩ "farm"), described "barn" "wig", described "farm" "hat",
    .packet (.removeEntity ⟨3⟩ "barn"), seen 9 "barn", seen 9 "farm", .frame 50,
    .packet (.setDetails ⟨4⟩ "farm" {}), .packet (.removeEntity ⟨4⟩ "farm")]

theorem details_of_run_wardrobe :
    ∃ v, run { name := "farm", localPlayer := ⟨1⟩ } wardrobe = some v ∧ v.Holds ⟨3⟩ ∧
      v.Tidy ∧ v.shown? ⟨3⟩ = some { hair := "hat" } ∧ v.shown? ⟨4⟩ = none := by
  have hv : (run { name := "farm", localPlayer := ⟨1⟩ } wardrobe).map
      (fun v => decide (v.Holds ⟨3⟩)) = some true := by decide +kernel
  obtain ⟨v, hv, hh⟩ := Option.map_eq_some_iff.mp hv
  obtain ⟨ht, hshown⟩ := details_of_run hv
  refine ⟨v, hv, of_decide_eq_true hh, ht, ?_, ?_⟩
  · rw [hshown]
    decide +kernel
  · rw [hshown]
    decide +kernel

end WorldView

end SharedWorld
