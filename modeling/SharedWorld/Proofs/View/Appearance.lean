import SharedWorld.Proofs.Delivery
import SharedWorld.Proofs.View.Run
import SharedWorld.Proofs.World.Run

/-! # Appearances in a view

A view knows how a character looks once it has taken the details, until it is told that the
character is gone. It holds a character once it has taken an update, until then.
-/

namespace SharedWorld

namespace WorldView

def appearance? (v : WorldView) (k : EntityId) : Option Appearance :=
  v.pending.get? k <|> (v.characters.get? k).bind (·.appearance)

def Holds (v : WorldView) (k : EntityId) : Prop := (v.characters.get? k).isSome

instance (v : WorldView) (k : EntityId) : Decidable (v.Holds k) :=
  inferInstanceAs (Decidable (_ = true))

variable {v v' : WorldView} {k : EntityId} {p : Packet} {W : String}

theorem receive_removeEntity (v : WorldView) (k : EntityId) :
    v.receive (.removeEntity k v.name) =
      { v with characters := v.characters.erase k, pending := v.pending.erase k } := by
  simp [receive, handle, removeEntity]

theorem appearance?_setDetails (v : WorldView) (k : EntityId) (a : Appearance) :
    (v.receive (.setDetails k v.name a)).appearance? k =
      if v.characters.contains k then v.pending.get? k <|> some a else some a := by
  have hr : v.receive (.setDetails k v.name a) = v.setDetails k v.name a := rfl
  rw [hr, setDetails, if_neg (not_not_intro rfl)]
  split
  · next hc =>
    obtain ⟨c, hc⟩ := Option.isSome_iff_exists.mp hc
    simp [appearance?, Table.get?_modify, hc]
  · simp [appearance?]

theorem appearance?_refreshed (v : WorldView) (u : EntityUpdate) (d : CharacterData) :
    (v.refreshed u d).appearance = v.appearance? u.entity := by
  have ha (c : CharacterView) : (c.apply d).appearance = c.appearance := by
    unfold CharacterView.apply
    dsimp only
    split <;> rfl
  unfold refreshed appearance?
  dsimp only
  rw [ha]
  cases v.characters.get? u.entity <;> rfl

theorem appearance?_of_takes (h : v.Takes p v') (hr : p ≠ .removeEntity k v.name)
    (hd : ¬ p.Describes k v.name) : v'.appearance? k = v.appearance? k := by
  cases h with
  | nothing => rfl
  | tiles => rfl
  | chat => rfl
  | removed k' =>
    have hk : k ≠ k' := fun he => hr (by rw [he])
    simp only [appearance?, Table.get?_erase, if_neg hk]
  | details hc a =>
    have hk : k ≠ _ := fun he => hd ⟨a, by rw [he]⟩
    simp only [appearance?, Table.get?_modify, if_neg hk]
  | pending hc a =>
    have hk : k ≠ _ := fun he => hd ⟨a, by rw [he]⟩
    simp only [appearance?, Table.get?_insert, if_neg hk]
  | @character u d hw ht hn hc =>
    by_cases hk : k = u.entity
    · rw [hk, ← appearance?_refreshed v u d]
      simp [appearance?, Table.get?_erase]
    · simp only [appearance?, Table.get?_erase, Table.get?_insert, if_neg hk]

theorem appearance?_receive (v : WorldView) (p : Packet) (k : EntityId) :
    ((v.receive p).appearance? k).isSome ↔ p.Describes k v.name ∨
      (v.appearance? k).isSome ∧ p ≠ .removeEntity k v.name := by
  by_cases hd : p.Describes k v.name
  · obtain ⟨a, rfl⟩ := id hd
    rw [appearance?_setDetails]
    split <;> simp [hd]
  · by_cases hr : p = .removeEntity k v.name
    · subst hr
      simp [receive_removeEntity, appearance?, Table.get?_erase, hd]
    · rw [appearance?_of_takes (v.takes_receive p) hr hd]
      simp [hd, hr]

theorem holds_receive (h : (v.receive p).Holds k) :
    p.Shows k v.name ∨ v.Holds k ∧ p ≠ .removeEntity k v.name := by
  by_cases hr : p = .removeEntity k v.name
  · rw [hr, receive_removeEntity] at h
    simp [Holds, Table.get?_erase] at h
  · have ht := v.takes_receive p
    generalize v.receive p = v' at h ht
    cases ht with
    | nothing | tiles | chat | pending => exact Or.inr ⟨h, hr⟩
    | removed k' => exact Or.inr ⟨Table.isSome_of_erase h, hr⟩
    | details hc a =>
      rw [Holds, Table.isSome_get?_modify] at h
      exact Or.inr ⟨h, hr⟩
    | @character u d hw ht hn hc =>
      by_cases hk : k = u.entity
      · exact Or.inl ⟨u, rfl, ht, hk.symm, hw⟩
      · rw [Holds, Table.get?_insert, if_neg hk] at h
        exact Or.inr ⟨h, hr⟩

section Run

variable {ds : List Envelope}

theorem appearance?_run (hv : v.run (ds.map fun x => .packet x.packet) = some v')
    (hn : v.name = W) : (v'.appearance? k).isSome ↔
      Lasts (·.packet.Describes k W) (·.packet = .removeEntity k W) ds ∨
        (v.appearance? k).isSome ∧ ∀ x ∈ ds, x.packet ≠ .removeEntity k W := by
  induction ds generalizing v with
  | nil =>
    cases hv
    simp [Lasts]
  | cons x ds ih =>
    have hv : (v.receive x.packet).run (ds.map fun x => .packet x.packet) = some v' := hv
    rw [ih hv ((name_receive v x.packet).trans hn), appearance?_receive, hn, Lasts,
      List.forall_mem_cons]
    simp only [or_and_right, or_assoc, and_assoc]

theorem holds_run (hv : v.run (ds.map fun x => .packet x.packet) = some v') (hn : v.name = W)
    (h : v'.Holds k) :
    Lasts (·.packet.Shows k W) (·.packet = .removeEntity k W) ds ∨
      v.Holds k ∧ ∀ x ∈ ds, x.packet ≠ .removeEntity k W := by
  induction ds generalizing v with
  | nil =>
    cases hv
    exact Or.inr ⟨h, nofun⟩
  | cons x ds ih =>
    have hv : (v.receive x.packet).run (ds.map fun x => .packet x.packet) = some v' := hv
    rw [Lasts, List.forall_mem_cons]
    rcases ih hv ((name_receive v x.packet).trans hn) with hl | ⟨hx, hr⟩
    · exact Or.inl (Or.inl hl)
    rcases holds_receive hx with hs | ⟨hv, hx⟩
    · exact Or.inl (Or.inr ⟨hn ▸ hs, hr⟩)
    · exact Or.inr ⟨hv, hn ▸ hx, hr⟩

end Run

end WorldView

end SharedWorld
