import SharedWorld.Login.Accounts

/-! # Accounts keep players apart

While there are fewer accounts than numbers, every account has a number of its own, and
the two tables of a store are inverse to each other. So what is recorded about one player
says nothing about another.
-/

namespace SharedWorld

namespace Accounts

variable {a a' : Accounts} {name password world : String} {p q : PlayerId}

inductive Reached : Accounts → Prop
  | new : Reached {}
  | login {a a' : Accounts} {name password : String} {p : PlayerId} (h : Reached a)
      (hl : a.login name password = .ok (a', p)) : Reached a'
  | setWorld {a : Accounts} (p : PlayerId) (world : String) (h : Reached a) :
      Reached (a.setWorld p world)

theorem login_eq_ok (h : a.login name password = .ok (a', p)) :
    (a' = a ∧ ∃ account, a.byName.get? name = some account ∧ account.player = p) ∨
      a.byName.get? name = none ∧ p = ⟨a.lastId + 1⟩ ∧
        a' = { byName := a.byName.insert name { player := p, password }
               names := a.names.insert p name
               lastId := a.lastId + 1 } := by
  unfold login at h
  split at h
  · cases h
  split at h
  · next account ha =>
    split at h <;> cases h
    exact Or.inl ⟨rfl, account, ha, rfl⟩
  · next ha =>
    cases h
    exact Or.inr ⟨ha, rfl, rfl⟩

@[simp] theorem names_setWorld : (a.setWorld p world).names = a.names := by
  unfold setWorld
  split <;> rfl

@[simp] theorem lastId_setWorld : (a.setWorld p world).lastId = a.lastId := by
  unfold setWorld
  split <;> rfl

@[simp] theorem size_setWorld : (a.setWorld p world).size = a.size := by
  unfold setWorld
  split
  · rfl
  · exact Table.size_modify ..

theorem get?_setWorld (n : String) : (a.setWorld p world).byName.get? n =
    if a.names.get? p = some n then (a.byName.get? n).map ({ · with world := some world })
    else a.byName.get? n := by
  unfold setWorld
  split
  · next h => simp [h]
  · next m h =>
    rw [Table.get?_modify, h]
    simp only [Option.some.injEq, eq_comm]

theorem size_login (h : a.login name password = .ok (a', p)) : a.size ≤ a'.size := by
  obtain ⟨rfl, -⟩ | ⟨hn, -, rfl⟩ := login_eq_ok h
  · exact Nat.le_refl _
  · exact Nat.le_of_lt (Nat.lt_of_lt_of_eq (Nat.lt_succ_self _) (Table.size_insert hn _).symm)

structure Sound (a : Accounts) : Prop where
  last : a.lastId.toNat = a.size
  named : ∀ n account, a.byName.get? n = some account →
    a.names.get? account.player = some n ∧ account.player.isPlayer ∧
      account.player.val.toNat ≤ a.size
  registered : ∀ p n, a.names.get? p = some n →
    ∃ account, a.byName.get? n = some account ∧ account.player = p

theorem sound_new : Sound {} := ⟨rfl, nofun, nofun⟩

theorem sound_setWorld (h : a.Sound) : (a.setWorld p world).Sound := by
  refine ⟨by simp [h.last], fun n account hn => ?_, fun q n hq => ?_⟩
  · rw [names_setWorld, size_setWorld]
    rw [get?_setWorld] at hn
    split at hn
    · obtain ⟨account, ha, rfl⟩ := Option.map_eq_some_iff.mp hn
      exact h.named n account ha
    · exact h.named n account hn
  · rw [names_setWorld] at hq
    obtain ⟨account, ha, rfl⟩ := h.registered q n hq
    rw [get?_setWorld, ha]
    split <;> exact ⟨_, rfl, rfl⟩

theorem get?_next (h : a.Sound) (hs : a.size + 1 < UInt32.size) :
    a.names.get? ⟨a.lastId + 1⟩ = none ∧ (a.lastId + 1).toNat = a.size + 1 := by
  have hlast : (a.lastId + 1).toNat = a.size + 1 := by
    rw [UInt32.toNat_add, h.last]
    exact Nat.mod_eq_of_lt hs
  refine ⟨?_, hlast⟩
  cases hn : a.names.get? ⟨a.lastId + 1⟩ with
  | none => rfl
  | some n =>
    obtain ⟨account, ha, hp⟩ := h.registered _ n hn
    have := (h.named n account ha).2.2
    rw [hp, hlast] at this
    omega

theorem sound_login (h : a.Sound) (hl : a.login name password = .ok (a', p))
    (hs : a'.size < UInt32.size) : a'.Sound := by
  obtain ⟨rfl, -⟩ | ⟨hn, rfl, rfl⟩ := login_eq_ok hl
  · exact h
  have hsize := Table.size_insert hn { player := ⟨a.lastId + 1⟩, password }
  unfold size at hs
  rw [hsize] at hs
  obtain ⟨hfree, hlast⟩ := get?_next h hs
  have hle : a.size ≤ (a.byName.insert name { player := ⟨a.lastId + 1⟩, password }).size :=
    Nat.le_of_lt (Nat.lt_of_lt_of_eq (Nat.lt_succ_self _) hsize.symm)
  refine ⟨hlast.trans hsize.symm, fun n account ha => ?_, fun q n hq => ?_⟩
  · obtain ⟨rfl, rfl⟩ | ⟨-, ha⟩ := Table.get?_insert_eq_some_iff.mp ha
    · refine ⟨Table.get?_insert_self .., ?_, Nat.le_of_eq (hlast.trans hsize.symm)⟩
      refine decide_eq_true fun hz : a.lastId + 1 = 0 => ?_
      rw [hz] at hlast
      exact absurd hlast (Nat.succ_ne_zero _).symm
    · obtain ⟨hp, hi, hn⟩ := h.named n account ha
      refine ⟨Table.get?_insert_eq_some_iff.mpr (Or.inr ⟨?_, hp⟩), hi, Nat.le_trans hn hle⟩
      intro he
      rw [he, hfree] at hp
      cases hp
  · obtain ⟨rfl, rfl⟩ | ⟨-, hq⟩ := Table.get?_insert_eq_some_iff.mp hq
    · exact ⟨_, Table.get?_insert_self .., rfl⟩
    · obtain ⟨account, ha, rfl⟩ := h.registered q n hq
      refine ⟨account, Table.get?_insert_eq_some_iff.mpr (Or.inr ⟨?_, ha⟩), rfl⟩
      rintro rfl
      rw [ha] at hn
      cases hn

theorem sound_of_reached (h : a.Reached) (hs : a.size < UInt32.size) : a.Sound := by
  induction h with
  | new => exact sound_new
  | login h hl ih => exact sound_login (ih (Nat.lt_of_le_of_lt (size_login hl) hs)) hl hs
  | setWorld p world h ih => exact sound_setWorld (ih (size_setWorld ▸ hs))

theorem names_of_login (h : a'.Sound) (hl : a.login name password = .ok (a', p)) :
    a'.names.get? p = some name ∧ p.isPlayer := by
  obtain ⟨rfl, account, ha, rfl⟩ | ⟨-, -, rfl⟩ := login_eq_ok hl
  · obtain ⟨hn, hp, -⟩ := h.named name account ha
    exact ⟨hn, hp⟩
  · have := h.named name _ (Table.get?_insert_self ..)
    exact ⟨this.1, this.2.1⟩

theorem login_kept (h : a.Sound) (hl : a.login name password = .ok (a', p))
    (hs : a'.size < UInt32.size) {n : String} (hq : a.names.get? q = some n) :
    a'.names.get? q = some n ∧ a'.world? q = a.world? q := by
  obtain ⟨rfl, -⟩ | ⟨hn, rfl, rfl⟩ := login_eq_ok hl
  · exact ⟨hq, rfl⟩
  have hsize := Table.size_insert hn { player := ⟨a.lastId + 1⟩, password }
  unfold size at hs
  rw [hsize] at hs
  have hne : q ≠ ⟨a.lastId + 1⟩ := by
    rintro rfl
    rw [(get?_next h hs).1] at hq
    cases hq
  have hnn : n ≠ name := by
    rintro rfl
    obtain ⟨account, ha, -⟩ := h.registered q n hq
    rw [ha] at hn
    cases hn
  have hq' : (a.names.insert ⟨a.lastId + 1⟩ name).get? q = some n := by
    rw [Table.get?_insert, if_neg hne, hq]
  refine ⟨hq', ?_⟩
  simp [world?, hq', hq, Table.get?_insert, hnn]

/-- However many accounts there are, the number of each has a name, and each name an account. -/
structure Closed (a : Accounts) : Prop where
  named : ∀ n account, a.byName.get? n = some account → (a.names.get? account.player).isSome
  registered : ∀ p n, a.names.get? p = some n → (a.byName.get? n).isSome

theorem Sound.closed (h : a.Sound) : a.Closed where
  named n account ha := Option.isSome_of_eq_some (h.named n account ha).1
  registered p n hp := by
    obtain ⟨account, ha, -⟩ := h.registered p n hp
    exact Option.isSome_of_eq_some ha

theorem isSome_names_login (hl : a.login name password = .ok (a', p))
    (hq : (a.names.get? q).isSome) : (a'.names.get? q).isSome := by
  obtain ⟨rfl, -⟩ | ⟨-, rfl, rfl⟩ := login_eq_ok hl
  · exact hq
  · rw [Table.get?_insert]
    split
    · rfl
    · exact hq

theorem Closed.login (h : a.Closed) (hl : a.login name password = .ok (a', p)) : a'.Closed := by
  have hkept {q : PlayerId} := isSome_names_login (q := q) hl
  obtain ⟨rfl, -⟩ | ⟨hn, rfl, rfl⟩ := login_eq_ok hl
  · exact h
  constructor
  · intro n account ha
    obtain ⟨rfl, rfl⟩ | ⟨-, ha⟩ := Table.get?_insert_eq_some_iff.mp ha
    · simp
    · exact hkept (h.named n account ha)
  · intro q n hq
    rw [Table.get?_insert]
    split
    · rfl
    · next hne =>
      obtain ⟨-, rfl⟩ | ⟨-, hq⟩ := Table.get?_insert_eq_some_iff.mp hq
      · exact absurd rfl hne
      · exact h.registered q n hq

theorem Closed.setWorld (h : a.Closed) (p : PlayerId) (world : String) :
    (a.setWorld p world).Closed := by
  constructor
  · intro n account ha
    rw [names_setWorld]
    rw [get?_setWorld] at ha
    split at ha
    · obtain ⟨known, hk, rfl⟩ := Option.map_eq_some_iff.mp ha
      exact h.named n known hk
    · exact h.named n account ha
  · intro q n hq
    rw [names_setWorld] at hq
    rw [get?_setWorld]
    split
    · simpa using h.registered q n hq
    · exact h.registered q n hq

theorem closed_of_reached (h : a.Reached) : a.Closed := by
  induction h with
  | new => exact ⟨nofun, nofun⟩
  | login _ hl ih => exact ih.login hl
  | setWorld p world _ ih => exact ih.setWorld p world

theorem Closed.isSome_names (h : a.Closed) (hl : a.login name password = .ok (a', p)) :
    (a'.names.get? p).isSome := by
  obtain ⟨rfl, account, ha, rfl⟩ | ⟨-, rfl, rfl⟩ := login_eq_ok hl
  · exact h.named name account ha
  · simp

theorem Closed.world?_setWorld_self (h : a.Closed) (hp : (a.names.get? p).isSome) :
    (a.setWorld p world).world? p = some world := by
  obtain ⟨n, hn⟩ := Option.isSome_iff_exists.mp hp
  obtain ⟨account, ha⟩ := Option.isSome_iff_exists.mp (h.registered p n hn)
  simp [world?, get?_setWorld, hn, ha]

theorem world?_setWorld_self (h : a.Sound) (hp : (a.names.get? p).isSome) :
    (a.setWorld p world).world? p = some world :=
  h.closed.world?_setWorld_self hp

theorem world?_setWorld_ne (h : a.Sound) (hne : q ≠ p) :
    (a.setWorld p world).world? q = a.world? q := by
  unfold world?
  rw [names_setWorld]
  cases hq : a.names.get? q with
  | none => rfl
  | some n =>
    rw [Option.bind_eq_bind, Option.bind_some, Option.bind_eq_bind, Option.bind_some,
      get?_setWorld, if_neg]
    -- Two numbers with one name belong to one account.
    intro hp
    obtain ⟨account, ha, rfl⟩ := h.registered q n hq
    obtain ⟨account', ha', rfl⟩ := h.registered p n hp
    rw [ha] at ha'
    cases ha'
    exact hne rfl

end Accounts

end SharedWorld
