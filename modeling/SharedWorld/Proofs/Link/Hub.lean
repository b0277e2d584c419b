import SharedWorld.Link.Hub

/-! # The events of a connection

Between two happenings a hub tracks open connections only. The first end of one removes it, and
what its stream still brings is not told any more. So the events of a connection are its
arrival, the packets it brought before its first end, and its removal, whatever happens to the
others.
-/

namespace SharedWorld

def Happening.connection? : Happening → Option ConnectionId
  | .accepted c _ | .received c _ | .closed c | .sendFailed c => some c
  | .datagram .. | .idle => none

def Happening.accepts? : Happening → Option ConnectionId
  | .accepted c _ => some c
  | _ => none

def Happening.Ends (c : ConnectionId) (x : Happening) : Prop := x = .closed c ∨ x = .sendFailed c

instance (c : ConnectionId) (x : Happening) : Decidable (x.Ends c) :=
  inferInstanceAs (Decidable (_ ∨ _))

def Happening.brings? (c : ConnectionId) : Happening → Option Packet
  | .received d p => if d = c then some p else none
  | _ => none

def NetworkEvent.connection? : NetworkEvent → Option ConnectionId
  | .added c _ | .removed c => some c
  | .packet _ source => source.connection?

def NetworkEvent.onlyOf (c : ConnectionId) (events : List NetworkEvent) : List NetworkEvent :=
  events.filter (·.connection? = some c)

namespace Hub

open NetworkEvent (onlyOf)

def run (h : Hub) : List Happening → Hub × List NetworkEvent
  | [] => (h, [])
  | x :: xs =>
    let (h, first) := h.poll x
    let (h, rest) := h.run xs
    (h, first ++ rest)

/-- No connection number is given out twice. -/
def Fresh (xs : List Happening) : Prop := (xs.filterMap (·.accepts?)).Nodup

instance (xs : List Happening) : Decidable (Fresh xs) := inferInstanceAs (Decidable (List.Nodup _))

/-- Every tracked connection is active, under its own number. -/
def Settled (h : Hub) : Prop :=
  ∀ c e, h.endpoints.get? c = some e → e.id = c ∧ e.phase = .active

def tracks (h : Hub) (c : ConnectionId) : Bool := (h.endpoints.get? c).isSome

variable {h h' : Hub} {c d : ConnectionId} {e : Endpoint} {x : Happening} {xs ys : List Happening}
  {p : Packet} {peer : Address}

theorem settled_empty : Settled {} := by
  intro c e he
  cases he

theorem sweep_of_settled (hs : h.Settled) : h.sweep = (h, []) := by
  have hm : h.endpoints.table.values.filter (·.phase = .pendingRemoval) = [] := by
    refine List.filter_eq_nil_iff.mpr fun e he hp => ?_
    obtain ⟨c, hc⟩ := Table.mem_values_iff.mp he
    rw [decide_eq_true_eq, (hs c e hc).2] at hp
    cases hp
  rw [sweep, Endpoints.sweep, hm]
  rfl

theorem sweep_marked (hs : h.Settled) (he : e.phase = .pendingRemoval) (hc : e.id = c) :
    sweep ⟨⟨h.endpoints.table.insert c e⟩⟩ =
      (⟨⟨h.endpoints.table.erase c⟩⟩, [.removed c]) := by
  have hm : (h.endpoints.table.insert c e).values.filter (·.phase = .pendingRemoval) = [e] := by
    refine Table.filter_values (k := c) (Table.get?_insert_self ..) (decide_eq_true he) ?_
    intro d e' he' hp
    obtain ⟨rfl, -⟩ | ⟨-, he'⟩ := Table.get?_insert_eq_some_iff.mp he'
    · rfl
    · rw [decide_eq_true_eq, (hs d e' he').2] at hp
      cases hp
  have hcut : (h.endpoints.table.insert c e).erase c = h.endpoints.table.erase c := by
    refine Table.ext_get? fun d => ?_
    rw [Table.get?_erase, Table.get?_erase]
    split
    · rfl
    · next hd => rw [Table.get?_insert, if_neg hd]
  subst hc
  simp only [sweep, Endpoints.sweep, hm, List.map_cons, List.map_nil, List.foldl_cons,
    List.foldl_nil, hcut]

theorem react_accepted (h : Hub) (c : ConnectionId) (peer : Address) :
    h.react (.accepted c peer) =
      (⟨⟨h.endpoints.table.insert c ⟨c, peer, .active⟩⟩⟩, [.added c peer]) := by
  have htwice : (h.endpoints.table.insert c ⟨c, peer, .connecting⟩).insert c ⟨c, peer, .active⟩ =
      h.endpoints.table.insert c ⟨c, peer, .active⟩ := by
    refine Table.ext_get? fun d => ?_
    simp only [Table.get?_insert]
    split <;> rfl
  simp only [react, Endpoints.insert, Endpoints.activate, Endpoints.get?, Table.get?_insert_self,
    Endpoint.become, Phase.canBecome, Phase.next?, decide_true, if_true, bind, Except.bind, pure,
    Except.pure, htwice]

theorem settled_insert (hs : h.Settled) (c : ConnectionId) (peer : Address) :
    Settled ⟨⟨h.endpoints.table.insert c ⟨c, peer, .active⟩⟩⟩ := by
  intro d e he
  obtain ⟨rfl, rfl⟩ | ⟨-, he⟩ := Table.get?_insert_eq_some_iff.mp he
  · exact ⟨rfl, rfl⟩
  · exact hs d e he

theorem poll_accepted (hs : h.Settled) : h.poll (.accepted c peer) =
    (⟨⟨h.endpoints.table.insert c ⟨c, peer, .active⟩⟩⟩, [.added c peer]) := by
  simp only [poll, react_accepted, sweep_of_settled (settled_insert hs c peer), List.append_nil]

theorem poll_received (hs : h.Settled) : h.poll (.received c p) =
    (h, if h.tracks c then [.packet p (.stream c)] else []) := by
  have ha : h.endpoints.isActive c = h.tracks c := by
    unfold Endpoints.isActive tracks
    cases he : h.endpoints.get? c with
    | none => rfl
    | some e =>
      rw [Option.any_some, Phase.isActive, (hs c e he).2]
      rfl
  simp only [poll, react, ha, sweep_of_settled hs, List.append_nil]

theorem mark_of_settled (hs : h.Settled) : (h.endpoints.mark c).2 =
    match h.endpoints.get? c with
    | none => h.endpoints
    | some e => ⟨h.endpoints.table.insert c { e with phase := .pendingRemoval }⟩ := by
  unfold Endpoints.mark
  cases he : h.endpoints.get? c with
  | none => rfl
  | some e =>
    simp only [Endpoint.become, Phase.canBecome, (hs c e he).2, Phase.next?, decide_true, if_true]

theorem react_ends (hx : x.Ends c) : h.react x = ({ endpoints := (h.endpoints.mark c).2 }, []) := by
  obtain rfl | rfl := hx <;> rfl

theorem poll_ends (hs : h.Settled) (hx : x.Ends c) : h.poll x =
    if h.tracks c then (⟨⟨h.endpoints.table.erase c⟩⟩, [.removed c]) else (h, []) := by
  simp only [poll, react_ends hx, mark_of_settled hs, List.nil_append]
  unfold tracks
  cases he : h.endpoints.get? c with
  | none => exact sweep_of_settled hs
  | some e => exact sweep_marked hs rfl (hs c e he).1

theorem poll_datagram (hs : h.Settled) (bytes : Bytes) (source : Address) :
    (h.poll (.datagram bytes source)).1 = h ∧
      onlyOf c (h.poll (.datagram bytes source)).2 = [] := by
  simp only [poll, react, sweep_of_settled hs, List.append_nil, true_and]
  split <;> rfl

theorem poll_idle (hs : h.Settled) : h.poll .idle = (h, []) := by
  simp only [poll, react, sweep_of_settled hs, List.append_nil]

/-- What a happening means to one connection: whether it is tracked from then on, and its events. -/
def meets (c : ConnectionId) (tracked : Bool) : Happening → Bool × List NetworkEvent
  | .accepted d peer => if d = c then (true, [.added c peer]) else (tracked, [])
  | .received d p => (tracked, if d = c ∧ tracked then [.packet p (.stream c)] else [])
  | .closed d | .sendFailed d => if d = c ∧ tracked then (false, [.removed c]) else (tracked, [])
  | .datagram .. | .idle => (tracked, [])

theorem tracks_insert (t : Table ConnectionId Endpoint) (d : ConnectionId) (e : Endpoint) :
    tracks ⟨⟨t.insert d e⟩⟩ c = if d = c then true else tracks ⟨⟨t⟩⟩ c := by
  simp only [tracks, Endpoints.get?, Table.get?_insert, eq_comm (a := c)]
  split <;> rfl

theorem tracks_erase (t : Table ConnectionId Endpoint) (d : ConnectionId) :
    tracks ⟨⟨t.erase d⟩⟩ c = if d = c then false else tracks ⟨⟨t⟩⟩ c := by
  simp only [tracks, Endpoints.get?, Table.get?_erase, eq_comm (a := c)]
  split <;> rfl

theorem poll_ends_at (hs : h.Settled) (hx : x.Ends d) :
    ((h.poll x).1.tracks c, onlyOf c (h.poll x).2) =
      if d = c ∧ h.tracks c then (false, [.removed c]) else (h.tracks c, []) := by
  rw [poll_ends hs hx]
  by_cases hd : d = c
  · subst hd
    cases ht : h.tracks d with
    | false => simp [onlyOf, ht]
    | true => simp [onlyOf, tracks_erase, NetworkEvent.connection?]
  · cases ht : h.tracks d with
    | false => simp [onlyOf, hd]
    | true => simp [onlyOf, tracks_erase, NetworkEvent.connection?, hd]

theorem poll_at (hs : h.Settled) (c : ConnectionId) (x : Happening) :
    ((h.poll x).1.tracks c, onlyOf c (h.poll x).2) = meets c (h.tracks c) x := by
  cases x with
  | accepted d peer =>
    rw [poll_accepted hs, tracks_insert, meets]
    by_cases hd : d = c
    · simp [onlyOf, NetworkEvent.connection?, hd]
    · simp [onlyOf, NetworkEvent.connection?, hd]
  | received d p =>
    rw [poll_received hs, meets]
    by_cases hd : d = c
    · subst hd
      cases h.tracks d <;> simp [onlyOf, NetworkEvent.connection?, Route.connection?]
    · cases h.tracks d <;> simp [onlyOf, NetworkEvent.connection?, Route.connection?, hd]
  | closed d => exact poll_ends_at hs (Or.inl rfl)
  | sendFailed d => exact poll_ends_at hs (Or.inr rfl)
  | datagram bytes source =>
    obtain ⟨hh, he⟩ := poll_datagram (c := c) hs bytes source
    rw [hh, he, meets]
  | idle =>
    rw [poll_idle hs]
    rfl

theorem settled_poll (hs : h.Settled) (x : Happening) : (h.poll x).1.Settled := by
  have hends {d : ConnectionId} (hx : x.Ends d) : (h.poll x).1.Settled := by
    rw [poll_ends hs hx]
    split
    · intro c e he
      exact hs c e (Table.get?_erase_eq_some_iff.mp he).2
    · exact hs
  cases x with
  | accepted d peer =>
    rw [poll_accepted hs]
    exact settled_insert hs d peer
  | received d p =>
    rw [poll_received hs]
    exact hs
  | closed d => exact hends (Or.inl rfl)
  | sendFailed d => exact hends (Or.inr rfl)
  | datagram bytes source =>
    rw [(poll_datagram (c := ⟨0⟩) hs bytes source).1]
    exact hs
  | idle =>
    rw [poll_idle hs]
    exact hs

/-- What a row of happenings means to one connection. -/
def lifetime (c : ConnectionId) : Bool → List Happening → Bool × List NetworkEvent
  | tracked, [] => (tracked, [])
  | tracked, x :: xs =>
    let (tracked, first) := meets c tracked x
    let (tracked, rest) := lifetime c tracked xs
    (tracked, first ++ rest)

theorem lifetime_cons {tracked still : Bool} {first : List NetworkEvent}
    (hx : meets c tracked x = (still, first)) (xs : List Happening) :
    lifetime c tracked (x :: xs) = ((lifetime c still xs).1, first ++ (lifetime c still xs).2) := by
  rw [lifetime, hx]

theorem lifetime_append (c : ConnectionId) (tracked : Bool) (xs ys : List Happening) :
    lifetime c tracked (xs ++ ys) =
      let r := lifetime c tracked xs
      ((lifetime c r.1 ys).1, r.2 ++ (lifetime c r.1 ys).2) := by
  induction xs generalizing tracked with
  | nil => rfl
  | cons x xs ih =>
    rw [List.cons_append, lifetime_cons rfl, lifetime_cons rfl, ih]
    simp only [List.append_assoc]

theorem settled_run (hs : h.Settled) (xs : List Happening) : (h.run xs).1.Settled := by
  induction xs generalizing h with
  | nil => exact hs
  | cons x xs ih => exact ih (settled_poll hs x)

theorem run_at (hs : h.Settled) (c : ConnectionId) (xs : List Happening) :
    ((h.run xs).1.tracks c, onlyOf c (h.run xs).2) = lifetime c (h.tracks c) xs := by
  induction xs generalizing h with
  | nil => rfl
  | cons x xs ih =>
    have hrest := ih (settled_poll hs x)
    rw [lifetime_cons (poll_at hs c x).symm, ← hrest]
    exact congrArg (Prod.mk _) (List.filter_append ..)

theorem meets_of_ne (hx : x.connection? ≠ some c) (tracked : Bool) :
    meets c tracked x = (tracked, []) := by
  cases x with
  | datagram | idle => rfl
  | accepted d | received d | closed d | sendFailed d =>
    have hd : d ≠ c := fun h => hx (congrArg some h)
    simp [meets, hd]

theorem lifetime_filter (c : ConnectionId) (tracked : Bool) (xs : List Happening) :
    lifetime c tracked (xs.filter (·.connection? = some c)) = lifetime c tracked xs := by
  induction xs generalizing tracked with
  | nil => rfl
  | cons x xs ih =>
    rw [List.filter_cons]
    split
    · rw [lifetime_cons rfl, lifetime_cons rfl, ih]
    · next hx =>
      rw [lifetime_cons (meets_of_ne (by simpa using hx) tracked), ih]
      rfl

theorem lifetime_of_not_accepted (hxs : ∀ x ∈ xs, x.accepts? ≠ some c) :
    lifetime c false xs = (false, []) := by
  induction xs with
  | nil => rfl
  | cons x xs ih =>
    obtain ⟨hx, hxs⟩ := List.forall_mem_cons.mp hxs
    have hm : meets c false x = (false, []) := by
      cases x with
      | accepted d peer =>
        have hd : d ≠ c := fun h => hx (congrArg some h)
        simp [meets, hd]
      | _ => simp [meets]
    rw [lifetime_cons hm, ih hxs]
    rfl

theorem meets_of_tracked (hx : x.accepts? ≠ some c) (he : ¬ x.Ends c) : meets c true x =
    (true, ((x.brings? c).map fun p => .packet p (.stream c)).toList) := by
  cases x with
  | accepted d peer =>
    have hd : d ≠ c := fun h => hx (congrArg some h)
    simp [meets, Happening.brings?, hd]
  | received d p => by_cases hd : d = c <;> simp [meets, Happening.brings?, hd]
  | closed d =>
    have hd : d ≠ c := fun h => he (Or.inl (congrArg _ h))
    simp [meets, Happening.brings?, hd]
  | sendFailed d =>
    have hd : d ≠ c := fun h => he (Or.inr (congrArg _ h))
    simp [meets, Happening.brings?, hd]
  | datagram | idle => rfl

/-- The packets that the stream brings before the first end of the connection. -/
def brought (c : ConnectionId) (xs : List Happening) : List NetworkEvent :=
  ((xs.takeWhile (¬ ·.Ends c)).filterMap (·.brings? c)).map fun p => .packet p (.stream c)

theorem lifetime_of_tracked (hxs : ∀ x ∈ xs, x.accepts? ≠ some c) : lifetime c true xs =
    if ∃ x ∈ xs, x.Ends c then (false, brought c xs ++ [.removed c]) else (true, brought c xs) := by
  induction xs with
  | nil => simp [lifetime, brought]
  | cons x xs ih =>
    obtain ⟨hx, hxs⟩ := List.forall_mem_cons.mp hxs
    by_cases he : x.Ends c
    · have hm : meets c true x = (false, [.removed c]) := by
        obtain rfl | rfl := he <;> simp [meets]
      rw [lifetime_cons hm, lifetime_of_not_accepted hxs, if_pos ⟨x, List.mem_cons_self, he⟩]
      simp [brought, he]
    · have hiff : (∃ y ∈ x :: xs, y.Ends c) ↔ ∃ y ∈ xs, y.Ends c := by simp [he]
      have hb : brought c (x :: xs) =
          ((x.brings? c).map fun p => .packet p (.stream c)).toList ++ brought c xs := by
        rw [brought, brought, List.takeWhile_cons_of_pos (by simpa using he), List.filterMap_cons]
        cases x.brings? c <;> rfl
      rw [lifetime_cons (meets_of_tracked hx he), ih hxs, hb]
      simp only [hiff]
      split <;> simp only [List.append_assoc]

section Fresh

variable {before after : List Happening}

theorem not_accepted_of_fresh (hf : Fresh (before ++ .accepted c peer :: after)) :
    (∀ x ∈ before, x.accepts? ≠ some c) ∧ ∀ x ∈ after, x.accepts? ≠ some c := by
  have hf : ((before.filterMap (·.accepts?)) ++ c :: after.filterMap (·.accepts?)).Nodup := by
    simpa [Fresh, Happening.accepts?] using hf
  obtain ⟨-, hafter, hapart⟩ := List.nodup_append.mp hf
  constructor
  · intro x hx hc
    exact hapart c (List.mem_filterMap.mpr ⟨x, hx, hc⟩) c List.mem_cons_self rfl
  · intro x hx hc
    exact (List.nodup_cons.mp hafter).1 (List.mem_filterMap.mpr ⟨x, hx, hc⟩)

theorem lifetime_of_accepted (hf : Fresh (before ++ .accepted c peer :: after)) :
    lifetime c false (before ++ .accepted c peer :: after) =
      ((lifetime c true after).1, .added c peer :: (lifetime c true after).2) := by
  have hm : meets c false (.accepted c peer) = (true, [.added c peer]) := by simp [meets]
  rw [lifetime_append, lifetime_of_not_accepted (not_accepted_of_fresh hf).1]
  dsimp only
  rw [lifetime_cons hm]
  rfl

end Fresh

theorem phase_react (hs : h.Settled) (x : Happening)
    (he : (h.react x).1.endpoints.get? c = some e) : e.phase ≠ .closed := by
  have hsettled (hh : (h.react x).1.Settled) : e.phase ≠ .closed := by
    rw [(hh c e he).2]
    nofun
  have hends {d : ConnectionId} (hx : x.Ends d) : e.phase ≠ .closed := by
    rw [react_ends hx, mark_of_settled hs] at he
    dsimp only at he
    split at he
    · rw [(hs c e he).2]
      nofun
    · obtain ⟨-, rfl⟩ | ⟨-, he⟩ := Table.get?_insert_eq_some_iff.mp he
      · nofun
      · rw [(hs c e he).2]
        nofun
  cases x with
  | accepted d peer =>
    refine hsettled ?_
    rw [react_accepted]
    exact settled_insert hs d peer
  | received | datagram | idle => exact hsettled hs
  | closed d => exact hends (Or.inl rfl)
  | sendFailed d => exact hends (Or.inr rfl)

/-- The events of a connection: none before it is accepted, then its arrival, the packets that
its stream brings before its first end, and with that end its removal. -/
theorem events_of_connection {xs : List Happening} (hf : Fresh xs) (c : ConnectionId) :
    ((∀ x ∈ xs, x.accepts? ≠ some c) → onlyOf c (run {} xs).2 = []) ∧
    (∀ before peer after, xs = before ++ .accepted c peer :: after →
      onlyOf c (run {} xs).2 = .added c peer :: (brought c after ++
        if ∃ x ∈ after, x.Ends c then [.removed c] else [])) ∧
    (∀ before peer between x after,
      xs = before ++ .accepted c peer :: (between ++ x :: after) →
        (∀ y ∈ between, ¬ y.Ends c) → x.Ends c →
          ((run {} (before ++ .accepted c peer :: between)).1.poll x).2 = [.removed c]) ∧
    (∀ ys : List Happening,
      ys.filter (·.connection? = some c) = xs.filter (·.connection? = some c) →
        onlyOf c (run {} ys).2 = onlyOf c (run {} xs).2) ∧
    ∀ x d e, ((run {} xs).1.endpoints.get? d = some e ∨
      ((run {} xs).1.react x).1.endpoints.get? d = some e) → e.phase ≠ .closed := by
  have hrun (zs : List Happening) : ((run {} zs).1.tracks c, onlyOf c (run {} zs).2) =
      lifetime c false zs := run_at settled_empty c zs
  have hevents (zs : List Happening) : onlyOf c (run {} zs).2 = (lifetime c false zs).2 :=
    congrArg Prod.snd (hrun zs)
  refine ⟨fun hxs => ?_, ?_, ?_, fun ys hys => ?_, ?_⟩
  · rw [hevents, lifetime_of_not_accepted hxs]
  · rintro before peer after rfl
    rw [hevents, lifetime_of_accepted hf, lifetime_of_tracked (not_accepted_of_fresh hf).2]
    split
    · rfl
    · rw [List.append_nil]
  · rintro before peer between x after rfl hbetween hx
    rw [← List.cons_append, ← List.append_assoc] at hf
    have hf : Fresh (before ++ .accepted c peer :: between) := by
      unfold Fresh at hf ⊢
      rw [List.filterMap_append] at hf
      exact (List.nodup_append.mp hf).1
    have htracks := congrArg Prod.fst (hrun (before ++ .accepted c peer :: between))
    rw [lifetime_of_accepted hf, lifetime_of_tracked (not_accepted_of_fresh hf).2,
      if_neg (by rintro ⟨y, hy, he⟩; exact hbetween y hy he)] at htracks
    have htracks : (run {} (before ++ .accepted c peer :: between)).1.tracks c = true := htracks
    rw [poll_ends (settled_run settled_empty _) hx, if_pos htracks]
  · rw [hevents, hevents, ← lifetime_filter, hys, lifetime_filter]
  · intro x d e he
    have hs := settled_run settled_empty xs
    rcases he with he | he
    · rw [(hs d e he).2]
      nofun
    · exact phase_react hs x he

def crossing : List Happening :=
  [.accepted ⟨1⟩ ⟨"a"⟩, .accepted ⟨2⟩ ⟨"b"⟩, .received ⟨1⟩ (.say "hi"), .received ⟨2⟩ .worldLoaded,
    .sendFailed ⟨1⟩, .received ⟨1⟩ .worldLoaded, .closed ⟨1⟩, .datagram [1, 2, 3] ⟨"c"⟩]

theorem events_of_connection_crossing : Fresh crossing ∧
    onlyOf ⟨1⟩ (run {} crossing).2 =
      [.added ⟨1⟩ ⟨"a"⟩, .packet (.say "hi") (.stream ⟨1⟩), .removed ⟨1⟩] ∧
    ((run {} (crossing.take 4)).1.poll (.sendFailed ⟨1⟩)).2 = [.removed ⟨1⟩] ∧
    onlyOf ⟨2⟩ (run {} (crossing.filter fun x => ¬ x.Ends ⟨1⟩)).2 =
      onlyOf ⟨2⟩ (run {} crossing).2 := by
  have hf : Fresh crossing := by decide
  obtain ⟨-, hevents, hend, -, -⟩ := events_of_connection hf ⟨1⟩
  obtain ⟨-, -, -, hsame, -⟩ := events_of_connection hf ⟨2⟩
  refine ⟨hf, hevents [] ⟨"a"⟩ _ rfl, ?_, hsame _ (by decide)⟩
  exact hend [] ⟨"a"⟩ ((crossing.drop 1).take 3) (.sendFailed ⟨1⟩) (crossing.drop 5) rfl (by decide)
    (Or.inr rfl)

end Hub

end SharedWorld
