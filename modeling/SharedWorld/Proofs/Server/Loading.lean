import SharedWorld.Proofs.Server.Departures

/-! # What a stream is told to load

On its stream a client is first told who it is and then which worlds to load, one after the
other. The last of them is always the world that its player is in, so whatever a world says to
a client comes after the client was told to load that world, and before it is told to load
another one.
-/

namespace SharedWorld

theorem split_of_append_eq {α : Type} {xs ys before after : List α} {x : α}
    (h : xs ++ ys = before ++ x :: after) :
    (∃ rest, xs = before ++ x :: rest) ∨ ∃ mid, before = xs ++ mid ∧ ys = mid ++ x :: after := by
  obtain ⟨mid, hbefore, hys⟩ | ⟨rest, hxs, hafter⟩ := List.append_eq_append_iff.mp h
  · exact Or.inr ⟨mid, hbefore, hys⟩
  cases rest with
  | nil => exact Or.inr ⟨[], by simpa using hxs.symm, by simpa using hafter.symm⟩
  | cons y rest =>
    cases hafter
    exact Or.inl ⟨rest, hxs⟩

section Orders

variable {xs ys : List Envelope}

def orders (told : List Envelope) : List Packet := (told.map (·.packet)).filter (·.isOrder)

def lastLoad? (told : List Envelope) : Option String := (told.filterMap (·.packet.loads?)).getLast?

@[simp] theorem orders_append : orders (xs ++ ys) = orders xs ++ orders ys := by
  simp [orders]

theorem orders_eq_nil_iff : orders xs = [] ↔ ∀ x ∈ xs, x.packet.isOrder = false := by
  simp [orders, List.filter_eq_nil_iff]

theorem orders_of_loads (h : ∀ x ∈ xs, x.packet.isOrder → ∃ W, x.packet = .loadWorld W) :
    orders xs = (xs.filterMap (·.packet.loads?)).map .loadWorld := by
  induction xs with
  | nil => rfl
  | cons x xs ih =>
    have ih := ih fun y hy => h y (List.mem_cons_of_mem _ hy)
    cases ho : x.packet.isOrder with
    | false =>
      have hcons : orders (x :: xs) = orders xs := by simp [orders, ho]
      rw [hcons, ih, List.filterMap_cons, Packet.loads?_of_not_isOrder ho]
    | true =>
      obtain ⟨W, hW⟩ := h x List.mem_cons_self ho
      have hcons : orders (x :: xs) = .loadWorld W :: orders xs := by
        simp [orders, hW, Packet.isOrder]
      rw [hcons, ih, List.filterMap_cons, hW]
      rfl

theorem filterMap_loads?_orders (xs : List Envelope) :
    (orders xs).filterMap Packet.loads? = xs.filterMap (·.packet.loads?) := by
  induction xs with
  | nil => rfl
  | cons x xs ih =>
    cases ho : x.packet.isOrder with
    | false =>
      have hcons : orders (x :: xs) = orders xs := by simp [orders, ho]
      rw [hcons, ih, List.filterMap_cons, Packet.loads?_of_not_isOrder ho]
    | true =>
      have hcons : orders (x :: xs) = x.packet :: orders xs := by simp [orders, ho]
      rw [hcons, List.filterMap_cons, List.filterMap_cons, ih]

theorem lastLoad?_append_of_forall (h : ∀ y ∈ ys, y.packet.loads? = none) :
    lastLoad? (xs ++ ys) = lastLoad? xs := by
  rw [lastLoad?, List.filterMap_append, List.filterMap_eq_nil_iff.mpr h, List.append_nil]
  rfl

end Orders

namespace Server

variable {s s' : Server} {e : Event} {c : ConnectionId} {q : PlayerId} {pl : Player} {x : Envelope}
  {out : Server × List Envelope} {ms : List (Moment Server Event)} {sent : List Envelope}
  {told : ConnectionId → List Envelope}

/-- What the server says for itself. -/
inductive Answers : Event → Envelope → Prop
  | stored {c : ConnectionId} {user : String} {wall : UInt64} (password : String) :
      Answers (.receive (.requestPassword user) (.stream c) wall)
        { target := .stream c, packet := .sendPassword user password }
  | welcome {c : ConnectionId} {user password : String} {wall : UInt64} (q : PlayerId) :
      Answers (.receive (.authenticate user password) (.stream c) wall)
        { target := .stream c, packet := .setPlayer q }

theorem sent_cases (hm : s.Makes e out) : (∀ x ∈ out.2, Answers e x) ∨
    ∃ ea, out.2 = (s.atlas.step ea).2 ∧ ∀ p, ea.enters? = some p →
      ∃ pl, s.roster.players.get? p.id = some pl ∧ pl.connection = p.connection := by
  cases hm with
  | nothing | connects | abandons | registers | readdresses => exact Or.inl (List.forall_mem_nil _)
  | answers hc stored =>
    refine Or.inl fun x hx => ?_
    rw [List.mem_singleton.mp hx]
    exact .stored stored
  | enrolls =>
    refine Or.inl fun x hx => ?_
    rw [List.mem_singleton.mp hx]
    exact .welcome _
  | @departs pl wall =>
    unfold Server.without
    split
    · exact Or.inr ⟨_, rfl, nofun⟩
    · exact Or.inl (List.forall_mem_nil _)
  | places hp hid hnew =>
    subst hnew
    refine Or.inr ⟨_, rfl, fun p he => ?_⟩
    cases he
    exact ⟨_, hp, rfl⟩
  | routes | ticks => exact Or.inr ⟨_, rfl, nofun⟩
  | transfers hp =>
    refine Or.inr ⟨_, rfl, fun p he => ?_⟩
    cases he
    exact ⟨_, hp, rfl⟩

/-- News on a stream is of the world that the stream's player is in, and comes in an event that
tells the stream of no world to load. -/
theorem news_on_stream (h : s.Steady) (hm : s.Makes e out) (hx : x ∈ out.2)
    (ht : x.target = .stream c) (hn : x.packet.isNews) :
    ∃ q pl V, s.roster.players.get? q = some pl ∧ pl.connection = c ∧
      s.atlas.index.get? q = some V ∧ x.packet.NewsOf V ∧
      ∀ y ∈ out.2, y.target = .stream c → y.packet.loads? = none := by
  obtain hquiet | ⟨ea, hs, hentrant⟩ := sent_cases hm
  · cases hquiet x hx <;> cases hn
  rw [hs] at hx ⊢
  cases Atlas.informs_step h.valid hx with
  | load => cases hn
  | @news V q m _ hm hq hget hp =>
  obtain ⟨-, pl, hpl, hmatch⟩ := h.fits V q m hm
  have hc : pl.connection = c := by
    obtain hget | ⟨a, -, hget⟩ := hget <;> rw [ht] at hget <;> cases hget
    exact hmatch.connection.symm
  refine ⟨q, pl, V, hpl, hc, h.sound.atlas.index_of_member hm, hp, fun y hy hyt => ?_⟩
  cases Atlas.informs_step h.valid hy with
  | news _ _ _ hp => exact Packet.loads?_of_not_isOrder (Packet.isOrder_of_isNews hp.1)
  | @load p V' he =>
    -- Only who is brought into a world is told to load it, and hears nothing else.
    obtain ⟨pl', hpl', hc'⟩ := hentrant p he
    cases hyt
    obtain rfl := h.sound.roster.eq_of_connection hpl hpl' (hc.trans hc'.symm)
    exact absurd (Atlas.moves_of_enters he) hq

/-- Who waits has no orders. Who is logged in has been told its number and then to load some
worlds, of which the last is the one that the player is in. -/
structure Guided (s : Server) (told : ConnectionId → List Envelope) : Prop where
  waiting : ∀ c, (s.roster.pending.get? c).isSome → orders (told c) = []
  players : ∀ q pl, s.roster.players.get? q = some pl → ∃ loads : List String,
    orders (told pl.connection) = .setPlayer q :: loads.map .loadWorld ∧
      loads.getLast? = s.atlas.index.get? q

theorem Guided.keep (h : s.Guided told) (ho : ∀ x ∈ sent, x.packet.isOrder = false)
    (hw : ∀ c, (s'.roster.pending.get? c).isSome →
      (s.roster.pending.get? c).isSome ∨ told c = [])
    (hp : ∀ q pl', s'.roster.players.get? q = some pl' →
      ∃ pl, s.roster.players.get? q = some pl ∧ pl'.connection = pl.connection ∧
        s'.atlas.index.get? q = s.atlas.index.get? q) :
    s'.Guided fun c => told c ++ onStream c sent := by
  have hnone (c : ConnectionId) : orders (told c ++ onStream c sent) = orders (told c) := by
    rw [orders_append, orders_eq_nil_iff.mpr fun x hx => ho x (mem_onStream_iff.mp hx).1,
      List.append_nil]
  constructor
  · intro c hc
    rw [hnone]
    obtain hc | hc := hw c hc
    · exact h.waiting c hc
    · rw [hc]
      rfl
  · intro q pl' hpl'
    obtain ⟨pl, hpl, hc, hi⟩ := hp q pl' hpl'
    rw [hnone, hc, hi]
    exact h.players q pl hpl

theorem orders_of_others {newcomer : Player}
    (hx : ∀ x ∈ sent, x.packet.isNews ∨ ∃ V, x = Atlas.loading newcomer V)
    (hne : c ≠ newcomer.connection) : orders (onStream c sent) = [] := by
  rw [orders_eq_nil_iff]
  intro x hxc
  obtain ⟨hxs, ht⟩ := mem_onStream_iff.mp hxc
  obtain hn | ⟨V, rfl⟩ := hx x hxs
  · exact Packet.isOrder_of_isNews hn
  · cases ht
    exact absurd rfl hne

theorem orders_eq_loads {newcomer : Player}
    (hx : ∀ x ∈ sent, x.packet.isNews ∨ ∃ V, x = Atlas.loading newcomer V) (c : ConnectionId) :
    orders (onStream c sent) =
      ((onStream c sent).filterMap (·.packet.loads?)).map .loadWorld := by
  refine orders_of_loads fun x hxc hox => ?_
  obtain hn | ⟨V, rfl⟩ := hx x (mem_onStream_iff.mp hxc).1
  · rw [Packet.isOrder_of_isNews hn] at hox
    cases hox
  · exact ⟨V, rfl⟩

theorem Guided.load (h : s.Guided told) (hr : s.roster.Sound) {world : String}
    {newcomer settled : Player} (hp : s.roster.players.get? pl.id = some pl)
    (hid : settled.id = pl.id) (hc : newcomer.connection = pl.connection)
    (hc' : settled.connection = pl.connection)
    (hroster : s'.roster = s.roster.amend settled)
    (hindex : s'.atlas.index = s.atlas.index.insert pl.id world)
    (hx : ∀ x ∈ sent, x.packet.isNews ∨ ∃ V, x = Atlas.loading newcomer V)
    (hl : ∃ before, sent = before ++ [Atlas.loading newcomer world]) :
    s'.Guided fun c => told c ++ onStream c sent := by
  have hothers {c : ConnectionId} (hne : c ≠ pl.connection) :
      orders (told c ++ onStream c sent) = orders (told c) := by
    rw [orders_append, orders_of_others hx (hc ▸ hne), List.append_nil]
  constructor
  · intro c hw
    rw [hroster] at hw
    have hw : (s.roster.pending.get? c).isSome := hw
    rw [hothers, h.waiting c hw]
    rintro rfl
    obtain ⟨pl', hpl'⟩ := Option.isSome_iff_exists.mp hw
    have := (hr.waiting _ pl' hpl').2
    rw [(hr.placed _ _ hp).2] at this
    cases this
  · intro q pl' hpl'
    rw [hroster, Roster.amend, hid] at hpl'
    rw [hindex, Table.get?_insert]
    obtain ⟨rfl, rfl⟩ | ⟨hne, hpl'⟩ := Table.get?_insert_eq_some_iff.mp hpl'
    · obtain ⟨loads, ho, -⟩ := h.players _ pl hp
      refine ⟨loads ++ (onStream pl.connection sent).filterMap (·.packet.loads?), ?_, ?_⟩
      · rw [hc', orders_append, ho, orders_eq_loads hx, List.map_append]
        rfl
      · obtain ⟨before, rfl⟩ := hl
        have hlast : onStream pl.connection [Atlas.loading newcomer world] =
            [Atlas.loading newcomer world] := by
          simp [onStream, Atlas.loading, hc]
        rw [if_pos rfl, onStream_append, hlast, List.filterMap_append, ← List.append_assoc]
        exact List.getLast?_concat
    · rw [if_neg hne, hothers]
      · exact h.players q pl' hpl'
      · exact fun he => hne (hr.eq_of_connection hpl' hp he)

theorem Guided.enroll (hg : s.Guided told) (hr : s.roster.Sound)
    (hn : s.roster.players.get? q = none) (hi : s.atlas.index.get? q = none)
    (hc : s.roster.pending.get? c = some { connection := c }) (accounts : Accounts)
    (name : String) :
    Guided { s with accounts, roster := s.roster.enroll c q name }
      fun c' => told c' ++ onStream c' (reply c (.setPlayer q)) := by
  have hwait := hg.waiting c (Option.isSome_of_eq_some hc)
  have hothers {c' : ConnectionId} (hne : c' ≠ c) : onStream c' (reply c (.setPlayer q)) = [] := by
    simp [onStream, reply, Ne.symm hne]
  constructor
  · intro c' hw
    have hne : c' ≠ c := by
      rintro rfl
      simp [Roster.enroll, Table.get?_erase] at hw
    rw [hothers hne, List.append_nil]
    exact hg.waiting c' (Table.isSome_of_erase hw)
  · intro q' pl' hp
    rcases Table.get?_insert_eq_some_iff.mp hp with ⟨rfl, rfl⟩ | ⟨-, hp'⟩
    · refine ⟨[], ?_, hi.symm⟩
      rw [Roster.newcomer, orders_append, hwait]
      simp [orders, onStream, reply, Packet.isOrder]
    · rw [hothers, List.append_nil]
      · exact hg.players q' pl' hp'
      · rintro rfl
        clear hp
        have hb := (hr.placed q' pl' hp').2
        rw [(hr.waiting _ _ hc).2] at hb
        cases hb

theorem isNews_of_stays {a : Atlas} {ea : Atlas.Event} (h : a.Valid) (he : ea.enters? = none)
    (hx : x ∈ (a.step ea).2) : x.packet.isNews := by
  cases Atlas.informs_step h hx with
  | news _ _ _ hp => exact hp.1
  | load hen =>
    rw [he] at hen
    cases hen

theorem isNews_or_loading {a : Atlas} {ea : Atlas.Event} {p : Player} (h : a.Valid)
    (he : ea.enters? = some p) (hx : x ∈ (a.step ea).2) :
    x.packet.isNews ∨ ∃ V, x = Atlas.loading p V := by
  cases Atlas.informs_step h hx with
  | news _ _ _ hp => exact Or.inl hp.1
  | @load _ V hen =>
    rw [he] at hen
    cases hen
    exact Or.inr ⟨V, rfl⟩

theorem Guided.step (hg : s.Guided told) (h : s.Steady) (hm : s.Makes e out)
    (hfresh : ∀ c, e.connects? = some c → told c = []) :
    out.1.Guided fun c => told c ++ onStream c out.2 := by
  have same (q : PlayerId) (pl : Player) (hp : s.roster.players.get? q = some pl) :
      ∃ pl', s.roster.players.get? q = some pl' ∧ pl.connection = pl'.connection ∧
        s.atlas.index.get? q = s.atlas.index.get? q := ⟨pl, hp, rfl, rfl⟩
  have news {ea : Atlas.Event} (he : ea.enters? = none) :
      ∀ x ∈ (s.atlas.step ea).2, x.packet.isOrder = false :=
    fun x hx => Packet.isOrder_of_isNews (isNews_of_stays h.valid he hx)
  cases hm with
  | nothing | registers => exact hg.keep (List.forall_mem_nil _) (fun _ => Or.inl) same
  | connects c =>
    refine hg.keep (List.forall_mem_nil _) (fun c' hw => ?_) same
    rw [connect, Roster.addPending, Table.get?_insert] at hw
    split at hw
    · next he => exact Or.inr (hfresh c' (by rw [he]; rfl))
    · exact Or.inl hw
  | abandons => exact hg.keep (List.forall_mem_nil _) (fun c' hw => Or.inl (Table.isSome_of_erase hw)) same
  | answers =>
    refine hg.keep (fun x hx => ?_) (fun _ => Or.inl) same
    rw [List.mem_singleton.mp hx]
    rfl
  | @departs pl wall hp =>
    refine hg.keep (fun x hx => ?_) (fun _ => Or.inl) fun q pl' hp' => ?_
    · unfold Server.without at hx
      split at hx
      · exact news rfl x hx
      · cases hx
    · obtain ⟨hne, hp'⟩ := Table.get?_erase_eq_some_iff.mp hp'
      refine ⟨pl', hp', rfl, ?_⟩
      dsimp only
      rw [(h.without pl wall).index, Table.get?_erase, if_neg hne]
  | enrolls _ hn hc => exact hg.enroll h.sound.roster hn (h.forgets hn).index hc _ _
  | @readdresses pl address _ hp =>
    refine hg.keep (List.forall_mem_nil _) (fun _ => Or.inl) fun q pl' hp' => ?_
    have hi : (s.atlas.setAddress pl.id address).index = s.atlas.index :=
      (Atlas.readdresses_setAddress h.sound.atlas pl.id address).1.index
    obtain ⟨rfl, rfl⟩ | ⟨-, hp'⟩ := Table.get?_insert_eq_some_iff.mp hp'
    · exact ⟨pl, hp, rfl, by rw [hi]⟩
    · exact ⟨pl', hp', rfl, by rw [hi]⟩
  | places hp hid hnew hs hl =>
    subst hnew
    refine hg.load h.sound.roster hp ?_ ?_ ?_ rfl hs.index
      (fun x hx => isNews_or_loading h.valid rfl hx) hl <;> rfl
  | @routes pl p source wall hp =>
    refine hg.keep (news rfl) (fun _ => Or.inl) fun q pl' hp' => ⟨pl', hp', rfl, ?_⟩
    rw [(Atlas.keeps_step h.valid (e := .route pl.id p wall) rfl (by simp)).index]
  | transfers hp hm hs hl =>
    refine hg.load h.sound.roster hp ?_ ?_ ?_ rfl hs.index
      (fun x hx => isNews_or_loading h.valid rfl hx) hl <;> rfl
  | ticks clock =>
    refine hg.keep (news rfl) (fun _ => Or.inl) fun q pl' hp' => ⟨pl', hp', rfl, ?_⟩
    rw [(Atlas.keeps_step h.valid (e := .tick clock) rfl (by simp)).index]

theorem stream_eq_nil (h : system.Run ms s) (hc : ∀ m ∈ ms, m.event.connects? ≠ some c) :
    system.stream c ms = [] := by
  induction h with
  | start => rfl
  | @step ms s e h ha ih =>
    rw [System.stream, ih fun m hm => hc m (List.mem_cons_of_mem _ hm), List.nil_append]
    refine List.eq_nil_iff_forall_not_mem.mpr fun x hx => ?_
    obtain ⟨hx, ht⟩ := mem_onStream_iff.mp hx
    have hrun : system.Run ([] ++ ⟨s, e⟩ :: ms) (s.step e).1 := .step e h ha
    obtain ⟨c', hc', ho⟩ | ⟨a, _, ha, -⟩ := tells_present hrun hx
    · rw [ht] at hc'
      cases hc'
      obtain ⟨m, hm, hcm⟩ : ∃ m ∈ (⟨s, e⟩ : Moment Server Event) :: ms,
          m.event.connects? = some c := (sound_of_run hrun).2 c ((uses_iff_open hrun c).mpr ho)
      exact hc m hm hcm
    · rw [ht] at ha
      cases ha

theorem guided_of_run (h : system.Run ms s) : s.Guided fun c => system.stream c ms := by
  induction h with
  | start h =>
    obtain ⟨configs, starting, sync, atlas, accounts, -, -, rfl⟩ := h
    exact ⟨fun _ _ => rfl, nofun⟩
  | @step ms s e h ha ih =>
    have hs := steady_of_run h
    exact ih.step hs (makes_step hs.sound hs.valid e) fun c hc =>
      stream_eq_nil h fun m hm => ha c hc m hm

theorem Guided.lastLoad? (h : s.Guided told) (hp : s.roster.players.get? q = some pl) :
    lastLoad? (told pl.connection) = s.atlas.index.get? q := by
  obtain ⟨loads, ho, hlast⟩ := h.players q pl hp
  have hloads : (loads.map Packet.loadWorld).filterMap Packet.loads? = loads := by
    rw [List.filterMap_map]
    exact List.filterMap_some
  rw [SharedWorld.lastLoad?, ← filterMap_loads?_orders, ho, List.filterMap_cons]
  simp only [Packet.loads?]
  rw [hloads, hlast]

/-- News on a stream comes after an order to load a world, and is of the last such world. -/
theorem loaded_before_news (h : system.Run ms s) (c : ConnectionId) (before after : List Envelope)
    (x : Envelope) (hx : system.stream c ms = before ++ x :: after) (hn : x.packet.isNews) :
    ∃ W, SharedWorld.lastLoad? before = some W ∧ ∀ V, x.packet.world? = some V → V = W := by
  induction h generalizing after with
  | start => simp [System.stream] at hx
  | @step ms s e h ha ih =>
    rw [System.stream] at hx
    obtain ⟨rest, hms⟩ | ⟨mid, hbefore, hmid⟩ := split_of_append_eq hx
    · exact ih rest hms
    -- The packet is one of the event, and comes after all that was sent before.
    have hmem {y : Envelope} (hy : y ∈ mid ∨ y = x) :
        y ∈ (s.step e).2 ∧ y.target = .stream c := by
      refine mem_onStream_iff.mp (?_ : y ∈ onStream c (system.sent ⟨s, e⟩))
      rw [hmid]
      rcases hy with hy | rfl
      · exact List.mem_append_left _ hy
      · exact List.mem_append_right _ List.mem_cons_self
    have hs := steady_of_run h
    obtain ⟨hxs, ht⟩ := hmem (Or.inr rfl)
    obtain ⟨q, pl, V, hp, rfl, hi, hof, hloads⟩ :=
      news_on_stream hs (makes_step hs.sound hs.valid e) hxs ht hn
    refine ⟨V, ?_, hof.2⟩
    rw [hbefore, lastLoad?_append_of_forall, (guided_of_run h).lastLoad? hp, hi]
    exact fun y hy => hloads y (hmem (Or.inl hy)).1 (hmem (Or.inl hy)).2

theorem loaded_before_news_comings :
    (system.stream ⟨1⟩ comings.1).map (fun x => (x.packet.loads?, x.packet.world?)) =
        [(none, none), (some "farm", none), (none, some "farm"), (some "cave", none),
          (none, some "cave")] ∧
      ∀ before x after, system.stream ⟨1⟩ comings.1 = before ++ x :: after → x.packet.isNews →
        ∃ W, SharedWorld.lastLoad? before = some W ∧ ∀ V, x.packet.world? = some V → V = W :=
  ⟨by decide +kernel, fun before x after => loaded_before_news run_comings ⟨1⟩ before after x⟩

end Server

end SharedWorld
