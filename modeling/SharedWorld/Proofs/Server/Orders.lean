import SharedWorld.Proofs.Server.Loading

/-! # Where orders come from

An order is for a stream: the answer to a login on it, or a world to load for the player who is
logged in on it. So all the orders on a stream are a name followed by worlds to load, and who
is logged in bears the name that the login on its stream gave.
-/

namespace SharedWorld

namespace Server

variable {s : Server} {e : Event} {c : ConnectionId} {q : PlayerId} {pl : Player} {x : Envelope}
  {out : Server × List Envelope} {ms : List (Moment Server Event)}

/-- What an event may order. -/
inductive Orders (s : Server) : Event → Envelope → Prop
  | welcome {c : ConnectionId} {user password : String} {wall : UInt64} (q : PlayerId) :
      Orders s (.receive (.authenticate user password) (.stream c) wall)
        { target := .stream c, packet := .setPlayer q }
  | load {e : Event} {q : PlayerId} {pl : Player} {V : String}
      (hp : s.roster.players.get? q = some pl) (hV : (s.atlas.worlds.get? V).isSome) :
      Orders s e (Atlas.loading pl V)

theorem orders_makes (h : s.Steady) (hm : s.Makes e out) (hx : x ∈ out.2)
    (ho : x.packet.isOrder) : s.Orders e x := by
  obtain hanswers | ⟨ea, hs, hentrant⟩ := sent_cases hm
  · cases hanswers x hx with
    | stored => cases ho
    | welcome q => exact .welcome q
  rw [hs] at hx
  cases Atlas.informs_step h.valid hx with
  | news _ _ _ hn =>
    rw [Packet.isOrder_of_isNews hn.1] at ho
    cases ho
  | @load p V he hV =>
    obtain ⟨pl, hp, hc⟩ := hentrant p he
    have hload : Atlas.loading p V = Atlas.loading pl V := by
      simp only [Atlas.loading, hc]
    rw [hload]
    exact .load hp hV

theorem Orders.target (h : s.Orders e x) : ∃ c, x.target = .stream c := by
  cases h with
  | @welcome c => exact ⟨c, rfl⟩
  | @load _ _ pl => exact ⟨pl.connection, rfl⟩

theorem Orders.delay (h : s.Orders e x) : x.delay = 0 := by
  cases h <;> rfl

theorem worlds_makes (h : s.Steady) (hm : s.Makes e out) (V : String) :
    (out.1.atlas.worlds.get? V).isSome = (s.atlas.worlds.get? V).isSome := by
  cases hm with
  | nothing | connects | abandons | answers | registers | enrolls => rfl
  | @departs pl wall => exact (h.without pl wall).worlds V
  | @readdresses pl address =>
    exact (Atlas.readdresses_setAddress h.sound.atlas pl.id address).1.worlds V
  | places _ _ _ hs => exact hs.worlds V
  | transfers _ _ hs => exact hs.worlds V
  | @routes pl p _ wall =>
    exact (Atlas.keeps_step h.valid (e := .route pl.id p wall) rfl nofun).worlds V
  | ticks clock => exact (Atlas.keeps_step h.valid (e := .tick clock) rfl nofun).worlds V

theorem named_makes (hm : s.Makes e out) (hp : out.1.roster.players.get? q = some pl) :
    (∃ pl₀, s.roster.players.get? q = some pl₀ ∧ pl₀.connection = pl.connection ∧
        pl₀.name = pl.name) ∨
      ∃ password wall,
        e = .receive (.authenticate pl.name password) (.stream pl.connection) wall := by
  have amended {pl₁ pl₂ : Player} (hp₁ : s.roster.players.get? pl₁.id = some pl₁)
      (hp : (s.roster.players.insert pl₁.id pl₂).get? q = some pl)
      (hc : pl₂.connection = pl₁.connection) (hn : pl₂.name = pl₁.name) :
      ∃ pl₀, s.roster.players.get? q = some pl₀ ∧ pl₀.connection = pl.connection ∧
        pl₀.name = pl.name := by
    rcases Table.get?_insert_eq_some_iff.mp hp with ⟨rfl, rfl⟩ | ⟨-, hp⟩
    · exact ⟨pl₁, hp₁, hc.symm, hn.symm⟩
    · exact ⟨pl, hp, rfl, rfl⟩
  cases hm with
  | departs => exact Or.inl ⟨pl, (Table.get?_erase_eq_some_iff.mp hp).2, rfl, rfl⟩
  | @enrolls c user password wall =>
    rcases Table.get?_insert_eq_some_iff.mp hp with ⟨-, rfl⟩ | ⟨-, hp⟩
    · exact Or.inr ⟨password, wall, rfl⟩
    · exact Or.inl ⟨pl, hp, rfl, rfl⟩
  | readdresses hp₁ => exact Or.inl (amended hp₁ hp rfl rfl)
  | places hp₁ _ hnew =>
    subst hnew
    exact Or.inl (amended hp₁ hp rfl rfl)
  | transfers hp₁ => exact Or.inl (amended hp₁ hp rfl rfl)
  | _ => exact Or.inl ⟨pl, hp, rfl, rfl⟩

theorem ordered_of_run (h : system.Run ms s) (c : ConnectionId) :
    Packet.Ordered (SharedWorld.orders (system.stream c ms)) := by
  induction h with
  | start => exact Or.inl rfl
  | @step ms s e h ha ih =>
    have hnext : system.Run (⟨s, e⟩ :: ms) (s.step e).1 := .step e h ha
    by_cases hu : (s.step e).1.roster.Uses c
    · have hg := guided_of_run hnext
      rcases hu with hw | hb
      · exact Or.inl (hg.waiting c hw)
      · obtain ⟨q, hb⟩ := Option.isSome_iff_exists.mp hb
        obtain ⟨pl, hp, rfl⟩ := (steady_of_run hnext).sound.roster.held c q hb
        obtain ⟨loads, ho, -⟩ := hg.players q pl hp
        exact Or.inr ⟨q, loads, ho⟩
    · have hnil : onStream c (system.sent ⟨s, e⟩) = [] := by
        refine List.eq_nil_iff_forall_not_mem.mpr fun x hx => hu ?_
        obtain ⟨hx, ht⟩ := mem_onStream_iff.mp hx
        have hrun : system.Run ([] ++ ⟨s, e⟩ :: ms) (s.step e).1 := hnext
        rcases tells_present hrun hx with ⟨c', hc, ho⟩ | ⟨a, _, ha, -⟩
        · rw [ht] at hc
          cases hc
          exact (uses_iff_open hnext c).mpr ho
        · rw [ht] at ha
          cases ha
      rw [System.stream, hnil, List.append_nil]
      exact ih

end Server

end SharedWorld
