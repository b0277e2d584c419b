import SharedWorld.Proofs.Atlas.Run
import SharedWorld.Proofs.World.Audience

/-! # Whom the worlds speak to

Every packet that an event of an atlas sends is news of a world for one of its members, who is
not moved by the event, or tells a newcomer which world to load.
-/

namespace SharedWorld

namespace World

variable {w : World} {q : PlayerId} {m : Member} {ev : Event}

theorem member_of_step (hm : (w.step ev).1.members.get? q = some m) (hq : ev.moves? ≠ some q) :
    w.members.get? q = some m ∨ ∃ address, ev = .setAddress q address := by
  have hmakes := makes_step w ev
  generalize (w.step ev).1 = w' at hmakes hm
  cases hmakes with
  | @enter ids p entity hn =>
    obtain ⟨rfl, -⟩ | ⟨-, hm⟩ := Table.get?_insert_eq_some_iff.mp hm
    · exact absurd rfl hq
    · exact Or.inl hm
  | leave => exact Or.inl (Table.get?_erase_eq_some_iff.mp hm).2
  | readdress _ address =>
    obtain ⟨rfl, -⟩ | ⟨-, hm⟩ := Table.get?_insert_eq_some_iff.mp hm
    · exact Or.inr ⟨address, rfl⟩
    · exact Or.inl hm
  | _ => exact Or.inl hm

end World

namespace Atlas

variable {a : Atlas} {e : Event} {x : Envelope}

/-- What an event may send to whom. -/
inductive Informs (a : Atlas) (e : Event) : Envelope → Prop
  | news {V : String} {q : PlayerId} {m : Member} {x : Envelope} (hm : a.member? V q = some m)
      (hq : e.moves? ≠ some q) (hx : m.Gets x) (hp : x.packet.NewsOf V) : Informs a e x
  | load {p : Player} {V : String} (he : e.enters? = some p)
      (hV : (a.worlds.get? V).isSome) : Informs a e (loading p V)

theorem moves?_of_does {V : String} {ev : World.Event} (h : a.Does e (V, ev)) :
    ev.moves? = e.moves? := by
  cases h <;> rfl

theorem enters?_of_does {V : String} {ids : EntityIds} {p : Player} {entity : Option EntityId}
    (h : a.Does e (V, .addPlayer ids p entity)) : e.enters? = some p := by
  cases h <;> rfl

/-- While the acts are done: members are those of before, but for whom the event moves. -/
structure Halfway (a : Atlas) (e : Event) (ws : Table String World) (sent : List Envelope) :
    Prop where
  filed : Filed ws
  worlds : ∀ {V w}, ws.get? V = some w → (a.worlds.get? V).isSome
  member : ∀ {V w q m}, ws.get? V = some w → w.members.get? q = some m → e.moves? ≠ some q →
    a.member? V q = some m
  informs : ∀ x ∈ sent, a.Informs e x

theorem Halfway.act (hr : ∀ q address, e ≠ .setAddress q address) {ws : Table String World}
    {sent : List Envelope} {y : Act} {w : World} (hy : y ∈ a.acts e)
    (hw : ws.get? y.1 = some w) (h : a.Halfway e ws sent) :
    a.Halfway e (ws.insert y.1 (w.step y.2).1) (sent ++ (w.step y.2).2) := by
  obtain ⟨V, ev⟩ := y
  have hdoes := does_of_mem hy
  have hmoves := moves?_of_does hdoes
  refine ⟨h.filed.act hw ev, fun {U v} hv => ?_, fun {U v q m} hv hm hq => ?_, fun x hx => ?_⟩
  · obtain ⟨rfl, -⟩ | ⟨-, hv⟩ := Table.get?_insert_eq_some_iff.mp hv
    · exact h.worlds hw
    · exact h.worlds hv
  · obtain ⟨rfl, rfl⟩ | ⟨-, hv⟩ := Table.get?_insert_eq_some_iff.mp hv
    · obtain hm | ⟨address, rfl⟩ := World.member_of_step hm (hmoves ▸ hq)
      · exact h.member hw hm hq
      · cases hdoes
        exact absurd rfl (hr q address)
    · exact h.member hv hm hq
  · rcases List.mem_append.mp hx with hx | hx
    · exact h.informs x hx
    have hname : w.name = V := h.filed.name hw
    cases World.informs_step hx with
    | news hm hq hget hp =>
      have hq : e.moves? ≠ some _ := hmoves ▸ hq
      exact .news (h.member hw hm hq) hq hget (hname ▸ hp)
    | load he =>
      subst he
      rw [hname]
      exact .load (enters?_of_does hdoes) (h.worlds hw)

theorem informs_step (h : a.Valid) (hx : x ∈ (a.step e).2) : a.Informs e x := by
  by_cases hr : ∃ q address, e = .setAddress q address
  · obtain ⟨q, address, rfl⟩ := hr
    cases hx
  have hr : ∀ q address, e ≠ .setAddress q address := fun q address he => hr ⟨q, address, he⟩
  have hstart : a.Halfway e a.worlds [] := by
    refine ⟨h.filed, Option.isSome_of_eq_some, fun {V w q m} hw hm _ => ?_, nofun⟩
    rw [member?, hw]
    exact hm
  have hend := perform_induction (I := a.Halfway e) a.worlds (a.acts e)
    (fun ws sent y w hy hw h => h.act hr hy hw) [] hstart
  rw [perform_acts h.sound e] at hend
  exact hend.informs x hx

end Atlas

end SharedWorld
