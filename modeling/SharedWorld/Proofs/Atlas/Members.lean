import SharedWorld.Atlas
import SharedWorld.Proofs.World.Effects

/-! # The members of an atlas

What the operations of an atlas do to its index and to the members of its worlds, and the
invariant that they keep: the index tells the one world that a player is in, and no two
members share a character while the numbers of entities last.
-/

namespace SharedWorld

namespace Atlas

variable {a a' b : Atlas} {p : Player} {q : PlayerId} {W : String} {e : EntityId}
  {entity : Option EntityId} {k : Packet} {wall : UInt64} {sent : List Envelope}

def member? (a : Atlas) (world : String) (player : PlayerId) : Option Member :=
  (a.worlds.get? world).bind (·.members.get? player)

/-- The same worlds, with this index and these members. -/
structure Alters (a a' : Atlas) (index : Table PlayerId String)
    (member : String → PlayerId → Option Member) : Prop where
  starting : a'.starting = a.starting
  worlds : ∀ V, (a'.worlds.get? V).isSome = (a.worlds.get? V).isSome
  index : a'.index = index
  member : ∀ V q, a'.member? V q = member V q

abbrev Keeps (a a' : Atlas) : Prop := Alters a a' a.index a.member?

abbrev Leaves (a a' : Atlas) (player : PlayerId) : Prop :=
  Alters a a' (a.index.erase player) fun V q => if q = player then none else a.member? V q

/-- The player is in this world and in no other. -/
abbrev Settles (a a' : Atlas) (p : Player) (world : String) (character : EntityId) : Prop :=
  Alters a a' (a.index.insert p.id world) fun V q =>
    if q = p.id then if V = world then some (World.memberOf p character) else none
    else a.member? V q

abbrev Readdresses (a a' : Atlas) (player : PlayerId) (address : Address) : Prop :=
  Alters a a' a.index fun V q =>
    if q = player then (a.member? V q).map ({ · with address := some address })
    else a.member? V q

theorem Keeps.refl (a : Atlas) : a.Keeps a := ⟨rfl, fun _ => rfl, rfl, fun _ _ => rfl⟩

theorem alters_insert {w : World} (hw : a.worlds.get? W = some w) (w' : World)
    (index : Table PlayerId String) (ids : EntityIds) :
    Alters a { a with worlds := a.worlds.insert W w', index, ids } index fun V q =>
      if V = W then w'.members.get? q else a.member? V q := by
  refine ⟨rfl, fun V => ?_, rfl, fun V q => ?_⟩
  · rw [Table.get?_insert]
    split
    · next h => rw [h, hw]; rfl
    · rfl
  · rw [member?, Table.get?_insert]
    split <;> rfl

/-- The index is right, and characters are told apart. -/
structure Sound (a : Atlas) : Prop where
  starting : (a.worlds.get? a.starting).isSome
  index_iff : ∀ q W, a.index.get? q = some W ↔ (a.member? W q).isSome
  numbered : a.ids.next ≤ UInt32.size → ∀ V q m, a.member? V q = some m →
    m.character.val.toNat < a.ids.next
  apart : a.ids.next ≤ UInt32.size → ∀ V q m V' q' m', a.member? V q = some m →
    a.member? V' q' = some m' → m.character = m'.character → q = q'

theorem Sound.index_of_member (h : a.Sound) {m : Member} (hm : a.member? W q = some m) :
    a.index.get? q = some W :=
  (h.index_iff q W).mpr (Option.isSome_of_eq_some hm)

theorem Sound.member_of_index (h : a.Sound) (hi : a.index.get? q = some W) :
    ∃ w m, a.worlds.get? W = some w ∧ w.members.get? q = some m ∧ a.member? W q = some m := by
  obtain ⟨m, hm⟩ := Option.isSome_iff_exists.mp ((h.index_iff q W).mp hi)
  obtain ⟨w, hw, hwm⟩ := Option.bind_eq_some_iff.mp hm
  exact ⟨w, m, hw, hwm, hm⟩

theorem Sound.member?_eq_none (h : a.Sound) {V : String} (hi : a.index.get? q = some W)
    (hne : V ≠ W) : a.member? V q = none := by
  cases hm : a.member? V q with
  | none => rfl
  | some m =>
    rw [h.index_of_member hm] at hi
    exact absurd (Option.some.inj hi) hne

theorem Sound.member?_eq_none_of_index (h : a.Sound) (hi : a.index.get? q = none) (V : String) :
    a.member? V q = none := by
  cases hm : a.member? V q with
  | none => rfl
  | some m =>
    rw [h.index_of_member hm] at hi
    cases hi

section Preservation

variable {index : Table PlayerId String} {member : String → PlayerId → Option Member}

/-- Members may go, or change in everything but their characters. -/
theorem Sound.of_alters (h : a.Sound) (ha : Alters a a' index member)
    (hids : a.ids.next ≤ a'.ids.next)
    (hi : ∀ q W, index.get? q = some W ↔ (member W q).isSome)
    (hm : ∀ V q m, member V q = some m →
      ∃ m₀, a.member? V q = some m₀ ∧ m.character = m₀.character) : a'.Sound := by
  refine ⟨by rw [ha.starting, ha.worlds]; exact h.starting,
    fun q W => by rw [ha.index, ha.member]; exact hi q W,
    fun hs V q m hq => ?_, fun hs V q m V' q' m' hq hq' he => ?_⟩
  · rw [ha.member] at hq
    obtain ⟨m₀, hm₀, hc⟩ := hm V q m hq
    rw [hc]
    exact Nat.lt_of_lt_of_le (h.numbered (Nat.le_trans hids hs) V q m₀ hm₀) hids
  · rw [ha.member] at hq hq'
    obtain ⟨m₀, hm₀, hc⟩ := hm V q m hq
    obtain ⟨m₀', hm₀', hc'⟩ := hm V' q' m' hq'
    exact h.apart (Nat.le_trans hids hs) V q m₀ V' q' m₀' hm₀ hm₀' (by rw [← hc, ← hc', he])

theorem sound_of_keeps (h : a.Sound) (ha : a.Keeps a') (hids : a'.ids = a.ids) : a'.Sound :=
  h.of_alters ha (Nat.le_of_eq (by rw [hids])) h.index_iff fun _ _ m hm => ⟨m, hm, rfl⟩

theorem sound_of_leaves (h : a.Sound) (ha : a.Leaves a' q) (hids : a'.ids = a.ids) :
    a'.Sound := by
  refine h.of_alters ha (Nat.le_of_eq (by rw [hids])) (fun q' W => ?_) fun V q' m hm => ?_
  · rw [Table.get?_erase]
    split
    · simp
    · exact h.index_iff q' W
  · split at hm
    · cases hm
    · exact ⟨m, hm, rfl⟩

theorem sound_of_readdresses {address : Address} (h : a.Sound) (ha : a.Readdresses a' q address)
    (hids : a'.ids = a.ids) : a'.Sound := by
  refine h.of_alters ha (Nat.le_of_eq (by rw [hids])) (fun q' W => ?_) fun V q' m hm => ?_
  · rw [h.index_iff]
    split
    · rw [Option.isSome_map]
    · rfl
  · split at hm
    · obtain ⟨m₀, hm₀, rfl⟩ := Option.map_eq_some_iff.mp hm
      exact ⟨m₀, hm₀, rfl⟩
    · exact ⟨m, hm, rfl⟩

theorem sound_of_settles (h : a.Sound) (ha : a.Settles a' p W e)
    (hids : a.ids.next ≤ a'.ids.next)
    (he : a'.ids.next ≤ UInt32.size → e.val.toNat < a'.ids.next ∧
      ∀ V q m, a.member? V q = some m → m.character = e → q = p.id) : a'.Sound := by
  have cases_member {V q m} (hm : a'.member? V q = some m) :
      q = p.id ∧ m.character = e ∨ q ≠ p.id ∧ a.member? V q = some m := by
    rw [ha.member] at hm
    split at hm
    · split at hm <;> cases hm
      exact Or.inl ⟨by assumption, rfl⟩
    · exact Or.inr ⟨by assumption, hm⟩
  refine ⟨by rw [ha.starting, ha.worlds]; exact h.starting, fun q V => ?_,
    fun hs V q m hm => ?_, fun hs V q m V' q' m' hm hm' hc => ?_⟩
  · rw [ha.index, ha.member, Table.get?_insert]
    split
    · by_cases hV : V = W
      · simp [hV]
      · simp [hV, Ne.symm hV]
    · exact h.index_iff q V
  · obtain ⟨-, rfl⟩ | ⟨-, hm⟩ := cases_member hm
    · exact (he hs).1
    · exact Nat.lt_of_lt_of_le (h.numbered (Nat.le_trans hids hs) V q m hm) hids
  · obtain ⟨rfl, rfl⟩ | ⟨hq, hm⟩ := cases_member hm <;>
      obtain ⟨rfl, hc'⟩ | ⟨hq', hm'⟩ := cases_member hm'
    · rfl
    · exact absurd ((he hs).2 V' q' m' hm' hc.symm) hq'
    · exact absurd ((he hs).2 V q m hm (hc.trans hc')) hq
    · exact h.apart (Nat.le_trans hids hs) V q m V' q' m' hm hm' hc

def Vacant (starting : String) (a : Atlas) : Prop :=
  a.index = ∅ ∧ a.starting = starting ∧ ∀ V q, a.member? V q = none

theorem vacant_of_create {configs : List WorldConfig} {starting : String} {sync : SyncConfig}
    (h : create configs starting sync = .ok a) :
    a.Vacant starting ∧ (a.worlds.get? starting).isSome := by
  obtain ⟨b, hb, h⟩ := Except.bind_eq_ok_iff.mp h
  have hv : Vacant starting b := by
    refine Except.foldlM_induction (fun b config b' hb h => ?_) hb ⟨rfl, rfl, fun _ _ => rfl⟩
    obtain ⟨hi, hs, hm⟩ := hb
    split at h <;> cases h
    refine ⟨hi, hs, fun V q => ?_⟩
    rw [member?, Table.get?_insert]
    split
    · rfl
    · exact hm V q
  split at h <;> cases h
  exact ⟨hv, by assumption⟩

theorem Vacant.sound {starting : String} (h : a.Vacant starting)
    (hs : (a.worlds.get? starting).isSome) : a.Sound := by
  obtain ⟨hi, rfl, hm⟩ := h
  refine ⟨hs, fun q W => ?_, fun _ V q m hq => ?_, fun _ V q m _ _ _ hq => ?_⟩
  · rw [hi, hm]
    simp
  · rw [hm] at hq
    cases hq
  · rw [hm] at hq
    cases hq

end Preservation

section Operations

theorem enter_eq_ok {s : Step Atlas EntityId} (h : a.enter p W entity = .ok s) :
    ∃ w, a.worlds.get? W = some w ∧ w.members.get? p.id = none ∧
      s.value = (entity.elim a.ids.take (·, a.ids)).1 ∧
      s.state.ids = (entity.elim a.ids.take (·, a.ids)).2 ∧
      Alters a s.state (a.index.insert p.id W) fun V q =>
        if V = W ∧ q = p.id then some (World.memberOf p s.value) else a.member? V q := by
  unfold enter at h
  split at h
  · cases h
  next w hw =>
  obtain ⟨s₁, h₁, ho⟩ := Except.bind_eq_ok_iff.mp h
  cases ho
  obtain ⟨hn, hv, hs⟩ := World.addPlayer_eq_ok h₁
  refine ⟨w, hw, hn, by rw [← hv], by rw [← hv], ?_⟩
  obtain ⟨hst, hws, hi, hm⟩ :=
    alters_insert hw s₁.state (a.index.insert p.id W) s₁.value.2
  refine ⟨hst, hws, hi, fun V q => ?_⟩
  rw [hm V q, hs]
  by_cases hV : V = W
  · subst hV
    rw [if_pos rfl, Table.get?_insert]
    by_cases hq : q = p.id
    · rw [if_pos hq, if_pos ⟨rfl, hq⟩]
    · rw [if_neg hq, if_neg (fun hc => hq hc.2), member?, hw]
      rfl
  · rw [if_neg hV, if_neg (fun hc => hV hc.1)]

theorem enter_isOk (entity : Option EntityId) (hW : (a.worlds.get? W).isSome)
    (hn : a.member? W p.id = none) : ∃ s, a.enter p W entity = .ok s := by
  obtain ⟨w, hw⟩ := Option.isSome_iff_exists.mp hW
  rw [member?, hw] at hn
  obtain ⟨s, hs⟩ := World.addPlayer_isOk a.ids entity hn
  unfold enter
  rw [hw]
  dsimp only
  rw [hs]
  exact ⟨_, rfl⟩

theorem addPlayer_eq_ok (h : a.Sound) {preferred : Option String}
    {s : Step Atlas (String × EntityId)} (ha : a.addPlayer p preferred = .ok s) :
    a.Settles s.state p s.value.1 s.value.2 ∧ s.state.Sound := by
  unfold addPlayer at ha
  split at ha
  · cases ha
  next hi =>
  obtain ⟨s₁, h₁, ho⟩ := Except.bind_eq_ok_iff.mp ha
  cases ho
  obtain ⟨w, hw, hn, hv, hids, hst, hws, hix, hm⟩ := enter_eq_ok h₁
  have hs : a.Settles s₁.state p (a.placement preferred) s₁.value := by
    refine ⟨hst, hws, hix, fun V q => ?_⟩
    rw [hm V q]
    by_cases hq : q = p.id
    · rw [if_pos hq]
      by_cases hV : V = a.placement preferred
      · rw [if_pos ⟨hV, hq⟩, if_pos hV]
      · rw [if_neg (fun hc => hV hc.1), if_neg hV, hq, h.member?_eq_none_of_index hi]
    · rw [if_neg (fun hc => hq hc.2), if_neg hq]
  have hnext : s₁.state.ids.next = a.ids.next + 1 := by
    rw [hids]
    rfl
  dsimp only
  refine ⟨hs, sound_of_settles h hs (by omega) fun hsize => ?_⟩
  rw [hnext] at hsize ⊢
  have he : s₁.value.val.toNat = a.ids.next := by
    rw [hv]
    exact UInt32.toNat_ofNat_of_lt' hsize
  refine ⟨by omega, fun V q m hm hc => ?_⟩
  have := h.numbered (Nat.le_of_succ_le hsize) V q m hm
  rw [hc, he] at this
  exact absurd this (Nat.lt_irrefl _)

theorem removePlayer_cases (h : a.Sound) (q : PlayerId) (wall : UInt64) :
    a.index.get? q = none ∧
        a.removePlayer q wall = ⟨a, [], .error (.playerNotInWorld q)⟩ ∨
      ∃ V m, a.member? V q = some m ∧ (a.removePlayer q wall).value = .ok m ∧
        (a.removePlayer q wall).state.ids = a.ids ∧ a.Leaves (a.removePlayer q wall).state q := by
  cases hi : a.index.get? q with
  | none =>
    refine Or.inl ⟨rfl, ?_⟩
    unfold removePlayer
    rw [hi]
  | some V =>
    obtain ⟨w, m, hw, hwm, hm⟩ := h.member_of_index hi
    obtain ⟨s, hs, rfl⟩ := World.removePlayer_isOk wall hwm
    obtain ⟨-, hst⟩ := World.removePlayer_eq_ok hs
    have ho : a.removePlayer q wall =
        ⟨{ a with index := a.index.erase q, worlds := a.worlds.insert V s.state }, s.sent,
          .ok s.value⟩ := by
      unfold removePlayer
      rw [hi]
      dsimp only
      rw [hw]
      dsimp only
      rw [hs]
    rw [ho]
    refine Or.inr ⟨V, s.value, hm, rfl, rfl, ?_⟩
    obtain ⟨hs₁, hs₂, hs₃, hs₄⟩ := alters_insert hw s.state (a.index.erase q) a.ids
    refine ⟨hs₁, hs₂, hs₃, fun V' q' => ?_⟩
    rw [hs₄ V' q', hst]
    by_cases hV : V' = V
    · subst hV
      rw [if_pos rfl, Table.get?_erase, member?, hw]
      rfl
    · rw [if_neg hV]
      split
      · next hq => rw [hq, h.member?_eq_none hi hV]
      · rfl

theorem leaves_removePlayer (h : a.Sound) (q : PlayerId) (wall : UInt64) :
    a.Leaves (a.removePlayer q wall).state q ∧ (a.removePlayer q wall).state.Sound := by
  obtain ⟨hi, ho⟩ | ⟨V, m, -, -, hids, hl⟩ := removePlayer_cases h q wall
  · rw [ho]
    refine ⟨⟨rfl, fun _ => rfl, (Table.erase_eq_self hi).symm, fun V q' => ?_⟩, h⟩
    split
    · next hq => rw [hq, h.member?_eq_none_of_index hi]
    · rfl
  · exact ⟨hl, sound_of_leaves h hl hids⟩

/-- A transfer does nothing, or the player settles in the other world with its character. -/
theorem transfer_cases (h : a.Sound) (p : Player) (W : String) (wall : UInt64) :
    (∃ e, a.transfer p W wall = ⟨a, [], .error e⟩) ∨
      ∃ V m, a.member? V p.id = some m ∧ (a.transfer p W wall).value = .ok m.character ∧
        a.Settles (a.transfer p W wall).state p W m.character ∧
        (a.transfer p W wall).state.Sound := by
  unfold transfer
  by_cases hW : a.worlds.contains W
  case neg => exact Or.inl ⟨.worldNotFound W, by simp [hW]⟩
  rw [hW, Bool.not_true, if_neg Bool.false_ne_true]
  obtain ⟨-, ho⟩ | ⟨V, m, hm, ho, hids, hl⟩ := removePlayer_cases h p.id wall
  · exact Or.inl ⟨_, by rw [ho]⟩
  have hgone : (a.removePlayer p.id wall).state.member? W p.id = none := by
    rw [hl.member, if_pos rfl]
  obtain ⟨s, hs⟩ := enter_isOk (some m.character) (by rw [hl.worlds]; exact hW) hgone
  obtain ⟨w, -, -, hv, hids', hst, hws, hix, hmem⟩ := enter_eq_ok hs
  have hsettle : a.Settles s.state p W m.character := by
    refine ⟨hst.trans hl.starting, fun V => (hws V).trans (hl.worlds V), ?_, fun V q => ?_⟩
    · rw [hix, hl.index]
      refine Table.ext_get? fun q => ?_
      rw [Table.get?_insert, Table.get?_insert, Table.get?_erase]
      split <;> rfl
    · rw [hmem V q, hv, hl.member]
      by_cases hq : q = p.id
      · simp [hq]
      · simp [hq]
  have hnext : s.state.ids.next = a.ids.next := by
    rw [hids']
    exact congrArg EntityIds.next hids
  refine Or.inr ⟨V, m, hm, ?_⟩
  dsimp only
  rw [ho]
  dsimp only
  rw [hs]
  dsimp only
  refine ⟨congrArg Except.ok hv, hsettle, sound_of_settles h hsettle (by omega) fun hsize => ?_⟩
  rw [hnext] at hsize ⊢
  exact ⟨h.numbered hsize V p.id m hm, fun V' q m' hm' hc =>
    h.apart hsize V' q m' V p.id m hm' hm hc⟩

theorem route_eq_ok (h : a.route q k wall = .ok (a', sent)) :
    ∃ W w w', a.index.get? q = some W ∧ a.worlds.get? W = some w ∧
      w.handle q k wall = .ok (w', sent) ∧ a' = { a with worlds := a.worlds.insert W w' } := by
  unfold route at h
  split at h
  · cases h
  next W hi =>
  split at h
  · cases h
  next w hw =>
  obtain ⟨⟨w', sent'⟩, hh, ho⟩ := Except.bind_eq_ok_iff.mp h
  cases ho
  exact ⟨W, w, w', hi, hw, hh, rfl⟩

theorem keeps_insert {w w' : World} (hw : a.worlds.get? W = some w)
    (hm : w'.members = w.members) (ids : EntityIds) :
    a.Keeps { a with worlds := a.worlds.insert W w', ids } := by
  obtain ⟨hst, hws, hi, hmem⟩ := alters_insert hw w' a.index ids
  refine ⟨hst, hws, hi, fun V q => ?_⟩
  rw [hmem V q]
  split
  · next hV => rw [hm, member?, hV, hw]; rfl
  · rfl

theorem keeps_route (h : a.route q k wall = .ok (a', sent)) : a.Keeps a' := by
  obtain ⟨W, w, w', -, hw, hh, rfl⟩ := route_eq_ok h
  exact keeps_insert hw (World.members_handle hh) a.ids

theorem readdresses_setAddress (h : a.Sound) (q : PlayerId) (address : Address) :
    a.Readdresses (a.setAddress q address) q address ∧ (a.setAddress q address).ids = a.ids := by
  cases hi : a.index.get? q with
  | none =>
    have ho : a.setAddress q address = a := by
      unfold setAddress
      rw [hi]
    rw [ho]
    refine ⟨⟨rfl, fun _ => rfl, rfl, fun V q' => ?_⟩, rfl⟩
    split
    · next hq => rw [hq, h.member?_eq_none_of_index hi]; rfl
    · rfl
  | some V =>
    obtain ⟨w, m, hw, hwm, hm⟩ := h.member_of_index hi
    obtain ⟨w', hw'⟩ := World.setAddress_isOk address hwm
    have ho : a.setAddress q address = { a with worlds := a.worlds.insert V w' } := by
      unfold setAddress
      rw [hi]
      dsimp only
      rw [hw]
      dsimp only
      rw [hw']
    obtain ⟨m', hm', hst⟩ := World.setAddress_eq_ok hw'
    rw [hwm] at hm'
    cases hm'
    rw [ho]
    refine ⟨?_, rfl⟩
    obtain ⟨hs₁, hs₂, hs₃, hs₄⟩ := alters_insert hw w' a.index a.ids
    refine ⟨hs₁, hs₂, hs₃, fun V' q' => ?_⟩
    rw [hs₄ V' q', hst]
    by_cases hV : V' = V
    · subst hV
      rw [if_pos rfl, Table.get?_insert]
      split
      · next hq => rw [hq, hm]; rfl
      · rw [member?, hw]; rfl
    · rw [if_neg hV]
      split
      · next hq => rw [hq, h.member?_eq_none hi hV]; rfl
      · rfl

theorem keeps_tick (a : Atlas) (clock : Clock) : a.Keeps (a.tick clock).1 := by
  have hw (V : String) : (a.tick clock).1.worlds.get? V =
      (a.worlds.get? V).map fun w => (w.tick clock).1 := by
    change (((a.worlds.map fun w => w.tick clock).map (·.1)).get? V) = _
    rw [Table.get?_map, Table.get?_map, Option.map_map]
    rfl
  refine ⟨rfl, fun V => ?_, rfl, fun V q => ?_⟩
  · rw [hw, Option.isSome_map]
  · rw [member?, member?, hw]
    cases a.worlds.get? V <;> rfl

end Operations

end Atlas

end SharedWorld
