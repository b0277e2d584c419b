import SharedWorld.Link.Outbox

/-! # What is sent and what is written

Orders to an outbox, the newest first, and a ledger of the frames they submit: which of them
wait, which are written by which order, and on which registration of their stream. A courier
that is called at the times of the orders holds and lets go of what the ledger says.
-/

namespace SharedWorld

namespace Outbox

/-- What an outbox is told to do. -/
inductive Command
  | register (id : ConnectionId) (pipe : Pipe)
  | unregister (id : ConnectionId)
  | send (target : Route) (frame : Bytes) (delay : Nat)
  | flush

/-- A command and the time at which it is handled. -/
structure Order where
  time : Nat
  command : Command

def Timely (xs : List Order) : Prop := xs.Pairwise fun newer older => older.time ≤ newer.time

structure Submission where
  place : Nat
  time : Nat
  delay : Nat
  delivery : Delivery
  deriving DecidableEq, Repr

namespace Submission

def due (s : Submission) : Nat := s.time + s.delay

def order (s : Submission) : Order := ⟨s.time, .send s.delivery.target s.delivery.frame s.delay⟩

def held (s : Submission) : Held := ⟨s.due, s.delivery⟩

/-- Earlier dues first, then in the order of submission. -/
def Before (s s' : Submission) : Prop := s.due < s'.due ∨ s.due = s'.due ∧ s.place < s'.place

/-- Behind all that are due no later. -/
def enter (s : Submission) : List Submission → List Submission
  | [] => [s]
  | g :: gs => if g.due ≤ s.due then g :: s.enter gs else s :: g :: gs

variable {s s' : Submission} {ss : List Submission}

theorem eq_iff_order {n time delay : Nat} {target : Route} {frame : Bytes} :
    s = ⟨n, time, delay, ⟨target, frame⟩⟩ ↔
      s.order = ⟨time, .send target frame delay⟩ ∧ s.place = n := by
  obtain ⟨place, time', delay', target', frame'⟩ := s
  simp only [order, Submission.mk.injEq, Delivery.mk.injEq, Order.mk.injEq, Command.send.injEq]
  constructor
  · rintro ⟨hp, ht, hd, hr, hf⟩
    exact ⟨⟨ht, hr, hf, hd⟩, hp⟩
  · rintro ⟨⟨ht, hr, hf, hd⟩, hp⟩
    exact ⟨hp, ht, hd, hr, hf⟩

theorem mem_enter_iff : s' ∈ s.enter ss ↔ s' = s ∨ s' ∈ ss := by
  induction ss with
  | nil => simp [enter]
  | cons g gs ih =>
    unfold enter
    split <;> simp [ih, or_left_comm]

theorem map_held_enter (s : Submission) (ss : List Submission) :
    (s.enter ss).map held = Courier.insertHeld s.held (ss.map held) := by
  induction ss with
  | nil => rfl
  | cons g gs ih =>
    rw [enter, List.map_cons, Courier.insertHeld]
    by_cases h : g.due ≤ s.due
    · rw [if_pos h, if_pos (show g.held.due ≤ s.held.due from h), List.map_cons, ih]
    · rw [if_neg h, if_neg (show ¬ g.held.due ≤ s.held.due from h)]
      rfl

theorem pairwise_enter (h : ss.Pairwise Before) (hs : ∀ s' ∈ ss, s'.place < s.place) :
    (s.enter ss).Pairwise Before := by
  induction ss with
  | nil => exact List.pairwise_singleton _ _
  | cons g gs ih =>
    obtain ⟨hg, hgs⟩ := List.pairwise_cons.mp h
    obtain ⟨hgp, hs⟩ := List.forall_mem_cons.mp hs
    unfold enter
    split
    · next hle =>
      apply List.Pairwise.cons _ (ih hgs hs)
      intro s' hs'
      rcases mem_enter_iff.mp hs' with rfl | hs'
      · unfold Before
        omega
      · exact hg s' hs'
    · next hlt =>
      apply List.Pairwise.cons _ h
      intro s' hs'
      apply Or.inl
      rcases List.mem_cons.mp hs' with rfl | hs'
      · omega
      · have := hg s' hs'
        unfold Before at this
        omega

end Submission

variable {xs past : List Order} {x : Order} {s s' : Submission} {id id' : ConnectionId} {n : Nat}

def Sent (xs : List Order) (s : Submission) : Prop :=
  ∃ later past, xs = later ++ s.order :: past ∧ s.place = past.length

/-- The frame was held back, and no flush since has found it due. -/
def Waits (xs : List Order) (s : Submission) : Prop :=
  ∃ later past, xs = later ++ s.order :: past ∧ s.place = past.length ∧ s.delay ≠ 0 ∧
    ∀ x ∈ later, x.command = .flush → x.time < s.due

/-- The place of the order that a stream is registered by, as long as it is. -/
def registration? (xs : List Order) (id : ConnectionId) : Option Nat :=
  match xs with
  | [] => none
  | x :: xs =>
    match x.command with
    | .register id' _ => if id' = id then some xs.length else registration? xs id
    | .unregister id' => if id' = id then none else registration? xs id
    | _ => registration? xs id

/-- Registered streams and frames that fit a datagram are served. -/
def Serves (xs : List Order) (d : Delivery) : Prop :=
  match d.target with
  | .stream id => (registration? xs id).isSome
  | .datagram _ => d.frame.length ≤ maxDatagram

instance (xs : List Order) : DecidablePred (Serves xs)
  | ⟨.stream _, _⟩ => inferInstanceAs (Decidable (_ = true))
  | ⟨.datagram _, _⟩ => inferInstanceAs (Decidable (_ ≤ _))

/-- What waits, in the order in which it becomes due. -/
def waiting : List Order → List Submission
  | [] => []
  | x :: xs =>
    match x.command with
    | .send target frame delay =>
      if delay = 0 then waiting xs
      else Submission.enter ⟨xs.length, x.time, delay, ⟨target, frame⟩⟩ (waiting xs)
    | .flush => (waiting xs).filter (x.time < ·.due)
    | _ => waiting xs

/-- What an order lets out, after the orders before it. -/
def leaving (xs : List Order) (x : Order) : List Submission :=
  match x.command with
  | .send target frame delay =>
    if delay = 0 ∧ Serves xs ⟨target, frame⟩ then [⟨xs.length, x.time, delay, ⟨target, frame⟩⟩]
    else []
  | .flush => (waiting xs).filter fun s => s.due ≤ x.time ∧ Serves xs s.delivery
  | _ => []

theorem sent_cons_iff : Sent (x :: xs) s ↔ s.order = x ∧ s.place = xs.length ∨ Sent xs s := by
  constructor
  · rintro ⟨later, past, he, hp⟩
    cases later with
    | nil =>
      cases he
      exact Or.inl ⟨rfl, hp⟩
    | cons y later =>
      cases he
      exact Or.inr ⟨later, past, rfl, hp⟩
  · rintro (⟨rfl, hp⟩ | ⟨later, past, rfl, hp⟩)
    · exact ⟨[], xs, rfl, hp⟩
    · exact ⟨x :: later, past, rfl, hp⟩

theorem waits_cons_iff : Waits (x :: xs) s ↔ s.order = x ∧ s.place = xs.length ∧ s.delay ≠ 0 ∨
    Waits xs s ∧ (x.command = .flush → x.time < s.due) := by
  constructor
  · rintro ⟨later, past, he, hp, hd, hl⟩
    cases later with
    | nil =>
      cases he
      exact Or.inl ⟨rfl, hp, hd⟩
    | cons y later =>
      cases he
      obtain ⟨hx, hl⟩ := List.forall_mem_cons.mp hl
      exact Or.inr ⟨⟨later, past, rfl, hp, hd, hl⟩, hx⟩
  · rintro (⟨rfl, hp, hd⟩ | ⟨⟨later, past, rfl, hp, hd, hl⟩, hx⟩)
    · exact ⟨[], xs, rfl, hp, hd, nofun⟩
    · exact ⟨x :: later, past, rfl, hp, hd, List.forall_mem_cons.mpr ⟨hx, hl⟩⟩

theorem Waits.sent (h : Waits xs s) : Sent xs s := by
  obtain ⟨later, past, he, hp, -⟩ := h
  exact ⟨later, past, he, hp⟩

theorem Waits.delay_ne (h : Waits xs s) : s.delay ≠ 0 := by
  obtain ⟨later, past, -, -, hd, -⟩ := h
  exact hd

theorem Sent.place_lt (h : Sent xs s) : s.place < xs.length := by
  obtain ⟨later, past, rfl, hp⟩ := h
  simp only [List.length_append, List.length_cons]
  omega

theorem Sent.eq_of_place (h : Sent xs s) (h' : Sent xs s') (hp : s.place = s'.place) : s = s' := by
  obtain ⟨later, past, rfl, hs⟩ := h
  obtain ⟨later', past', he, hs'⟩ := h'
  obtain ⟨-, he⟩ := List.append_inj' he (by simp only [List.length_cons]; omega)
  exact Submission.eq_iff_order.mpr ⟨(List.cons.inj he).1, hp⟩

theorem Sent.time_le (ht : Timely xs) (h : Sent xs s) (h' : Sent xs s') (hp : s.place ≤ s'.place) :
    s.time ≤ s'.time := by
  induction xs with
  | nil => exact absurd h.place_lt (Nat.not_lt_zero _)
  | cons x xs ih =>
    obtain ⟨hx, ht⟩ := List.pairwise_cons.mp ht
    rcases sent_cons_iff.mp h' with ⟨rfl, hs'⟩ | hs'
    · rcases sent_cons_iff.mp h with ⟨he, -⟩ | ⟨later, past, rfl, -⟩
      · exact Nat.le_of_eq (congrArg Order.time he)
      · exact hx s.order (by simp)
    · rcases sent_cons_iff.mp h with ⟨-, hs⟩ | hs
      · have := hs'.place_lt
        omega
      · exact ih ht hs hs'

theorem mem_waiting_iff : s ∈ waiting xs ↔ Waits xs s := by
  induction xs with
  | nil => simp [waiting, Waits]
  | cons x xs ih =>
    obtain ⟨time, command⟩ := x
    rw [waits_cons_iff, ← ih]
    cases command with
    | send target frame delay =>
      simp only [waiting, reduceCtorEq, false_implies, and_true, ← and_assoc,
        ← Submission.eq_iff_order]
      by_cases hd : delay = 0
      · rw [if_pos hd]
        refine ⟨Or.inr, fun h => h.resolve_left ?_⟩
        rintro ⟨rfl, hne⟩
        exact hne hd
      · rw [if_neg hd, Submission.mem_enter_iff]
        constructor
        · rintro (rfl | h)
          · exact Or.inl ⟨rfl, hd⟩
          · exact Or.inr h
        · rintro (⟨rfl, -⟩ | h)
          · exact Or.inl rfl
          · exact Or.inr h
    | flush => simp [waiting, Submission.order]
    | _ => simp [waiting, Submission.order]

theorem pairwise_waiting (xs : List Order) : (waiting xs).Pairwise Submission.Before := by
  induction xs with
  | nil => exact .nil
  | cons x xs ih =>
    unfold waiting
    split
    · split
      · exact ih
      · exact Submission.pairwise_enter ih fun s hs => (mem_waiting_iff.mp hs).sent.place_lt
    · exact ih.filter _
    · exact ih

theorem mem_leaving_iff : s ∈ leaving xs x ↔ Serves xs s.delivery ∧
    (s.order = x ∧ s.place = xs.length ∧ s.delay = 0 ∨
      x.command = .flush ∧ Waits xs s ∧ s.due ≤ x.time) := by
  obtain ⟨time, command⟩ := x
  cases command with
  | send target frame delay =>
    simp only [leaving, reduceCtorEq, false_and, or_false, ← and_assoc, ← Submission.eq_iff_order]
    split
    · next h =>
      rw [List.mem_singleton]
      constructor
      · rintro rfl
        exact ⟨⟨h.2, rfl⟩, h.1⟩
      · rintro ⟨⟨-, rfl⟩, -⟩
        rfl
    · next h =>
      refine ⟨nofun, ?_⟩
      rintro ⟨⟨hs, rfl⟩, hd⟩
      exact absurd ⟨hd, hs⟩ h
  | flush =>
    simp only [leaving, List.mem_filter, mem_waiting_iff, decide_eq_true_eq, Submission.order,
      Order.mk.injEq, reduceCtorEq, and_false, false_and, false_or, true_and]
    constructor
    · rintro ⟨hw, hd, hs⟩
      exact ⟨hs, hw, hd⟩
    · rintro ⟨hs, hw, hd⟩
      exact ⟨hw, hd, hs⟩
  | _ => simp [leaving, Submission.order]

theorem sent_of_leaving (h : s ∈ leaving xs x) : Sent (x :: xs) s := by
  obtain ⟨-, ⟨ho, hp, -⟩ | ⟨-, hw, -⟩⟩ := mem_leaving_iff.mp h
  · exact sent_cons_iff.mpr (Or.inl ⟨ho, hp⟩)
  · exact sent_cons_iff.mpr (Or.inr hw.sent)

theorem due_le_of_leaving (h : s ∈ leaving xs x) : s.due ≤ x.time := by
  obtain ⟨-, ⟨rfl, -, hd⟩ | ⟨-, -, hd⟩⟩ := mem_leaving_iff.mp h
  · exact Nat.le_of_eq (by rw [Submission.due, hd]; rfl)
  · exact hd

theorem pairwise_leaving (xs : List Order) (x : Order) :
    (leaving xs x).Pairwise Submission.Before := by
  unfold leaving
  split
  · split
    · exact List.pairwise_singleton _ _
    · exact .nil
  · exact (pairwise_waiting xs).filter _
  · exact .nil

/-! ## The frames written -/

/-- A frame that was written, with the number of orders before the one that wrote it, and the
place of the order that its stream was registered by. -/
structure Writing where
  submission : Submission
  place : Nat
  time : Nat
  registration : Option Nat
  deriving DecidableEq, Repr

def entries (xs : List Order) (x : Order) : List Writing :=
  (leaving xs x).map fun s =>
    ⟨s, xs.length, x.time, s.delivery.target.connection?.bind (registration? xs)⟩

def written : List Order → List Writing
  | [] => []
  | x :: xs => written xs ++ entries xs x

variable {w : Writing}

theorem map_submission_entries (xs : List Order) (x : Order) :
    (entries xs x).map (·.submission) = leaving xs x := by
  simp [entries, Function.comp_def]

theorem mem_written_iff : w ∈ written xs ↔
    ∃ later x past, xs = later ++ x :: past ∧ w ∈ entries past x := by
  induction xs with
  | nil => simp [written]
  | cons x xs ih =>
    rw [written, List.mem_append, ih]
    constructor
    · rintro (⟨later, y, past, rfl, hw⟩ | hw)
      · exact ⟨x :: later, y, past, rfl, hw⟩
      · exact ⟨[], x, xs, rfl, hw⟩
    · rintro ⟨later, y, past, he, hw⟩
      cases later with
      | nil =>
        cases he
        exact Or.inr hw
      | cons z later =>
        cases he
        exact Or.inl ⟨later, y, past, rfl, hw⟩

theorem place_lt_of_written (hw : w ∈ written xs) : w.place < xs.length := by
  obtain ⟨later, x, past, rfl, he⟩ := mem_written_iff.mp hw
  obtain ⟨s, -, rfl⟩ := List.mem_map.mp he
  simp only [List.length_append, List.length_cons]
  omega

theorem filter_written (later : List Order) (x : Order) (past : List Order) :
    (written (later ++ x :: past)).filter (·.place = past.length) = entries past x := by
  have hnone {ys : List Writing} (h : ∀ w ∈ ys, w.place ≠ past.length) :
      ys.filter (·.place = past.length) = [] := by
    apply List.filter_eq_nil_iff.mpr
    intro w hw
    simpa using h w hw
  have hentries (ys : List Order) (y : Order) : ∀ w ∈ entries ys y, w.place = ys.length := by
    intro w hw
    obtain ⟨s, -, rfl⟩ := List.mem_map.mp hw
    rfl
  induction later with
  | nil =>
    rw [List.nil_append, written, List.filter_append,
      hnone fun w hw => Nat.ne_of_lt (place_lt_of_written hw), List.nil_append]
    apply List.filter_eq_self.mpr
    intro w hw
    simpa using hentries past x w hw
  | cons y later ih =>
    rw [List.cons_append, written, List.filter_append, ih, hnone, List.append_nil]
    intro w hw
    rw [hentries _ y w hw]
    simp only [List.length_append, List.length_cons]
    omega

theorem sent_of_written (hw : w ∈ written xs) : Sent xs w.submission := by
  induction xs with
  | nil => cases hw
  | cons x xs ih =>
    rcases List.mem_append.mp hw with hw | hw
    · exact sent_cons_iff.mpr (Or.inr (ih hw))
    · obtain ⟨s, hs, rfl⟩ := List.mem_map.mp hw
      exact sent_of_leaving hs

theorem place_lt_of_due_lt (ht : Timely xs) (h : Sent xs s) (h' : Sent xs s')
    (hd : s.delay = s'.delay) (hdue : s.due < s'.due) : s.place < s'.place := by
  apply Nat.not_le.mp
  intro hp
  have := h'.time_le ht h hp
  unfold Submission.due at hdue
  omega

theorem place_lt_of_waits (ht : Timely xs) (hw : w ∈ written xs) (hs : Waits xs s)
    (hd : w.submission.delay = s.delay) : w.submission.place < s.place := by
  induction xs with
  | nil => cases hw
  | cons x xs ih =>
    have hsent := sent_of_written hw
    rcases List.mem_append.mp hw with hw | hw
    · rcases waits_cons_iff.mp hs with ⟨-, hp, -⟩ | ⟨hs, -⟩
      · rw [hp]
        exact (sent_of_written hw).place_lt
      · exact ih (List.pairwise_cons.mp ht).2 hw hs
    · obtain ⟨s', hs', rfl⟩ := List.mem_map.mp hw
      obtain ⟨-, ⟨rfl, -, hz⟩ | ⟨hx, hw', hdue⟩⟩ := mem_leaving_iff.mp hs'
      · -- A frame without a delay never waits.
        exact absurd (hd.symm.trans hz) hs.delay_ne
      · rcases waits_cons_iff.mp hs with ⟨rfl, -⟩ | ⟨hold, hlt⟩
        · cases hx
        · exact place_lt_of_due_lt (List.pairwise_cons.mp ht).2 hw'.sent hold.sent hd
            (Nat.lt_of_le_of_lt hdue (hlt hx))

/-- Of two frames sent with one delay, the one sent first is written first. -/
theorem pairwise_written (ht : Timely xs) : (written xs).Pairwise fun w w' =>
    w.submission.delay = w'.submission.delay → w.submission.place < w'.submission.place := by
  induction xs with
  | nil => exact .nil
  | cons x xs ih =>
    obtain ⟨-, htxs⟩ := List.pairwise_cons.mp ht
    refine List.pairwise_append.mpr ⟨ih htxs, List.pairwise_map.mpr ?_, ?_⟩
    · apply (pairwise_leaving xs x).imp_of_mem
      intro s s' hs hs' hb hd
      rcases hb with hlt | ⟨-, hp⟩
      · exact place_lt_of_due_lt ht (sent_of_leaving hs) (sent_of_leaving hs') hd hlt
      · exact hp
    · intro w hw w' hw' hd
      obtain ⟨s, hs, rfl⟩ := List.mem_map.mp hw'
      obtain ⟨-, ⟨-, hp, -⟩ | ⟨-, hs, -⟩⟩ := mem_leaving_iff.mp hs
      · rw [hp]
        exact (sent_of_written hw).place_lt
      · exact place_lt_of_waits htxs hw hs hd

theorem nodup_written (ht : Timely xs) : ((written xs).map (·.submission.place)).Nodup := by
  apply List.pairwise_map.mpr
  apply (pairwise_written ht).imp_of_mem
  intro w w' hw hw' h he
  have hs := (sent_of_written hw).eq_of_place (sent_of_written hw') he
  exact Nat.ne_of_lt (h (by rw [hs])) he

theorem pairwise_place_written (xs : List Order) :
    (written xs).Pairwise fun w w' => w.place ≤ w'.place := by
  induction xs with
  | nil => exact .nil
  | cons x xs ih =>
    refine List.pairwise_append.mpr ⟨ih, List.pairwise_map.mpr ?_, ?_⟩
    · exact .imp (fun _ => Nat.le_refl _) (pairwise_leaving xs x)
    · intro w hw w' hw'
      obtain ⟨s, -, rfl⟩ := List.mem_map.mp hw'
      exact Nat.le_of_lt (place_lt_of_written hw)

theorem not_waits_of_due {later : List Order} (hx : x.command = .flush) (hs : Waits past s)
    (hd : s.due ≤ x.time) : ¬ Waits (later ++ x :: past) s := by
  induction later with
  | nil =>
    intro h
    rcases waits_cons_iff.mp h with ⟨rfl, -⟩ | ⟨-, hlt⟩
    · cases hx
    · exact Nat.not_lt.mpr hd (hlt hx)
  | cons y later ih =>
    intro h
    rw [List.cons_append] at h
    rcases waits_cons_iff.mp h with ⟨-, hp, -⟩ | ⟨h, -⟩
    · have := hs.sent.place_lt
      simp only [List.length_append, List.length_cons] at hp
      omega
    · exact ih h

theorem not_written_of_due {later : List Order} (ht : Timely past) (hx : x.command = .flush)
    (hs : Waits past s) (hd : s.due ≤ x.time) (hn : ¬ Serves past s.delivery) :
    ∀ w ∈ written (later ++ x :: past), w.submission ≠ s := by
  induction later with
  | nil =>
    intro w hw he
    rcases List.mem_append.mp hw with hw | hw
    · have := place_lt_of_waits ht hw hs (by rw [he])
      rw [he] at this
      exact Nat.lt_irrefl _ this
    · obtain ⟨s', hs', rfl⟩ := List.mem_map.mp hw
      obtain rfl : s' = s := he
      exact hn (mem_leaving_iff.mp hs').1
  | cons y later ih =>
    intro w hw he
    rw [List.cons_append, written] at hw
    rcases List.mem_append.mp hw with hw | hw
    · exact ih w hw he
    · obtain ⟨s', hs', rfl⟩ := List.mem_map.mp hw
      obtain rfl : s' = s := he
      obtain ⟨-, ⟨-, hp, -⟩ | ⟨-, hw, -⟩⟩ := mem_leaving_iff.mp hs'
      · have := hs.sent.place_lt
        simp only [List.length_append, List.length_cons] at hp
        omega
      · exact not_waits_of_due hx hs hd hw

def writtenBy (n : Nat) (ws : List Writing) : List Submission :=
  (ws.filter (·.place = n)).map (·.submission)

theorem writtenBy_written (later : List Order) (x : Order) (past : List Order) :
    writtenBy past.length (written (later ++ x :: past)) = leaving past x := by
  rw [writtenBy, filter_written, map_submission_entries]

/-- What may be written, and when. -/
structure Ledger (xs : List Order) (ws : List Writing) : Prop where
  sent : ∀ w ∈ ws, Sent xs w.submission
  /-- No submission is written twice. -/
  once : (ws.map (·.submission.place)).Nodup
  punctual : ∀ w ∈ ws, w.submission.time + w.submission.delay ≤ w.time
  /-- Each is written by an order that finds its target served, on the registration that its
  stream then has. -/
  served : ∀ w ∈ ws, ∃ later x past, xs = later ++ x :: past ∧ w.place = past.length ∧
    w.time = x.time ∧ Serves past w.submission.delivery ∧
    w.registration = w.submission.delivery.target.connection?.bind (registration? past)
  inTurn : ws.Pairwise fun w w' => w.place ≤ w'.place
  /-- Of two frames with the same delay, the one sent first is written first. -/
  inOrder : ws.Pairwise fun w w' =>
    w.submission.delay = w'.submission.delay → w.submission.place < w'.submission.place
  /-- A flush writes what waits, is due and has a served target. -/
  flushed : ∀ later x past, xs = later ++ x :: past → x.command = .flush →
    (writtenBy past.length ws).Pairwise Submission.Before ∧
      ∀ s, s ∈ writtenBy past.length ws ↔
        Waits past s ∧ s.due ≤ x.time ∧ Serves past s.delivery
  /-- What else waits and is due then is lost. -/
  discarded : ∀ later x past, xs = later ++ x :: past → x.command = .flush → ∀ s, Waits past s →
    s.due ≤ x.time → ¬ Serves past s.delivery → ∀ w ∈ ws, w.submission ≠ s
  /-- Any other order writes at most the frame that it sends without a delay. -/
  immediate : ∀ later x past, xs = later ++ x :: past → x.command ≠ .flush → ∀ s,
    s ∈ writtenBy past.length ws ↔
      s.order = x ∧ s.place = past.length ∧ s.delay = 0 ∧ Serves past s.delivery

theorem ledger_written (ht : Timely xs) : Ledger xs (written xs) where
  sent _ := sent_of_written
  once := nodup_written ht
  punctual := by
    intro w hw
    obtain ⟨later, x, past, -, hw⟩ := mem_written_iff.mp hw
    obtain ⟨s, hs, rfl⟩ := List.mem_map.mp hw
    exact due_le_of_leaving hs
  served := by
    intro w hw
    obtain ⟨later, x, past, he, hw⟩ := mem_written_iff.mp hw
    obtain ⟨s, hs, rfl⟩ := List.mem_map.mp hw
    exact ⟨later, x, past, he, rfl, rfl, (mem_leaving_iff.mp hs).1, rfl⟩
  inTurn := pairwise_place_written xs
  inOrder := pairwise_written ht
  flushed := by
    rintro later x past rfl hx
    rw [writtenBy_written]
    refine ⟨pairwise_leaving past x, fun s => ?_⟩
    rw [mem_leaving_iff]
    constructor
    · rintro ⟨hs, ⟨rfl, -⟩ | ⟨-, hw, hd⟩⟩
      · cases hx
      · exact ⟨hw, hd, hs⟩
    · rintro ⟨hw, hd, hs⟩
      exact ⟨hs, Or.inr ⟨hx, hw, hd⟩⟩
  discarded := by
    rintro later x past rfl hx s hs hd hn
    exact not_written_of_due (List.pairwise_cons.mp (List.pairwise_append.mp ht).2.1).2 hx hs hd hn
  immediate := by
    rintro later x past rfl hx s
    rw [writtenBy_written, mem_leaving_iff]
    constructor
    · rintro ⟨hs, ⟨ho, hp, hd⟩ | ⟨hf, -⟩⟩
      · exact ⟨ho, hp, hd, hs⟩
      · exact absurd hf hx
    · rintro ⟨ho, hp, hd, hs⟩
      exact ⟨hs, Or.inl ⟨ho, hp, hd⟩⟩

/-! ## The courier -/

/-- The courier holds what waits, and knows the registered streams. -/
structure Mirrors (xs : List Order) (c : Courier) : Prop where
  streams : ∀ id, id ∈ c.streams ↔ (registration? xs id).isSome
  held : c.held = (waiting xs).map Submission.held

variable {c : Courier}

theorem mirrors_new : Mirrors [] {} := ⟨by simp [registration?], rfl⟩

theorem Mirrors.accepts (h : Mirrors xs c) (d : Delivery) :
    c.accepts d = decide (Serves xs d) := by
  obtain ⟨target, frame⟩ := d
  cases target with
  | stream id => simp [Courier.accepts, Serves, ← h.streams id]
  | datagram a => rfl

theorem Mirrors.register (h : Mirrors xs c) (time : Nat) (id : ConnectionId) (pipe : Pipe) :
    Mirrors (⟨time, .register id pipe⟩ :: xs) (c.register id) := by
  refine ⟨fun id' => ?_, h.held⟩
  unfold registration?
  by_cases he : id = id'
  · simp [Courier.register, he]
  · simp [Courier.register, he, Ne.symm he, h.streams]

theorem Mirrors.unregister (h : Mirrors xs c) (time : Nat) (id : ConnectionId) :
    Mirrors (⟨time, .unregister id⟩ :: xs) (c.unregister id) := by
  refine ⟨fun id' => ?_, h.held⟩
  unfold registration?
  by_cases he : id = id'
  · simp [Courier.unregister, he]
  · simp [Courier.unregister, he, Ne.symm he, h.streams]

theorem Mirrors.send (h : Mirrors xs c) (time delay : Nat) (target : Route) (frame : Bytes) :
    Mirrors (⟨time, .send target frame delay⟩ :: xs) (c.send time delay ⟨target, frame⟩).1 ∧
      (c.send time delay ⟨target, frame⟩).2 =
        (leaving xs ⟨time, .send target frame delay⟩).map (·.delivery) := by
  unfold Courier.send
  by_cases hd : delay = 0
  · rw [if_pos hd]
    refine ⟨⟨h.streams, by simp [waiting, hd, h.held]⟩, ?_⟩
    simp only [leaving, hd, true_and, h.accepts, decide_eq_true_eq]
    split <;> rfl
  · rw [if_neg hd]
    refine ⟨⟨h.streams, ?_⟩, by simp [leaving, hd]⟩
    simp only [waiting, hd, if_false, Submission.map_held_enter, h.held]
    rfl

theorem due_of_pairwise {ss : List Submission} (h : ss.Pairwise Submission.Before) (time : Nat) :
    ss.takeWhile (·.due ≤ time) = ss.filter (·.due ≤ time) ∧
      ss.drop (ss.takeWhile (·.due ≤ time)).length = ss.filter (time < ·.due) := by
  induction ss with
  | nil => exact ⟨rfl, rfl⟩
  | cons s ss ih =>
    obtain ⟨hs, hss⟩ := List.pairwise_cons.mp h
    obtain ⟨htake, hdrop⟩ := ih hss
    by_cases hd : s.due ≤ time
    · simp [hd, htake, ← hdrop, Nat.not_lt.mpr hd]
    · have hlater : ∀ s' ∈ ss, time < s'.due := by
        intro s' hs'
        have := hs s' hs'
        unfold Submission.Before at this
        omega
      simp only [List.takeWhile_cons, List.filter_cons, hd, decide_false, Bool.false_eq_true,
        if_false, Nat.not_le.mp hd, decide_true, if_true, List.length_nil, List.drop_zero]
      refine ⟨(List.filter_eq_nil_iff.mpr fun s' hs' => ?_).symm,
        congrArg (s :: ·) (List.filter_eq_self.mpr fun s' hs' => ?_).symm⟩
      · simpa using hlater s' hs'
      · simpa using hlater s' hs'

theorem Mirrors.flush (h : Mirrors xs c) (time : Nat) :
    Mirrors (⟨time, .flush⟩ :: xs) (c.flush time).1 ∧
      (c.flush time).2 = (leaving xs ⟨time, .flush⟩).map (·.delivery) := by
  obtain ⟨htake, hdrop⟩ := due_of_pairwise (pairwise_waiting xs) time
  have hdue : c.held.takeWhile (·.due ≤ time) =
      ((waiting xs).takeWhile (·.due ≤ time)).map Submission.held := by
    rw [h.held, List.takeWhile_map]
    rfl
  refine ⟨⟨h.streams, ?_⟩, ?_⟩
  · change c.held.drop (c.held.takeWhile (·.due ≤ time)).length = _
    rw [hdue, List.length_map, h.held, ← List.map_drop, hdrop]
    rfl
  · change ((c.held.takeWhile (·.due ≤ time)).map (·.delivery)).filter c.accepts = _
    rw [hdue, htake, List.map_map, List.filter_map, List.filter_filter]
    simp [leaving, Function.comp_def, h.accepts, Submission.held, and_comm]

end Outbox

end SharedWorld
