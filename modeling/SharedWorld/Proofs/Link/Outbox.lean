import Mathlib.Data.List.Forall2
import SharedWorld.Proofs.Link.Ledger

/-! # What an outbox writes

Over pipes that do not fail, each lane carries the frames that the ledger has under its
registration, in the order of the ledger, and the datagrams are those of the ledger. A stalled
pipe keeps its frames on its own lane.
-/

namespace SharedWorld

namespace Pipe

variable {p : Pipe}

/-- No write and no flush fails. The pipe may stall. -/
structure Faultless (p : Pipe) : Prop where
  limit : p.limit = none
  flushes : p.flushFails = false

theorem Faultless.writeAll (h : p.Faultless) (frames : List Bytes) :
    ∃ rest q, Lane.writeAll p frames = (.ok rest, q) ∧ q.Faultless ∧ q.stalled = p.stalled ∧
      q.written ++ rest.flatten = p.written ++ frames.flatten ∧
      (p.stalled = false ∨ frames = [] → rest = []) := by
  induction frames generalizing p with
  | nil => exact ⟨[], p, rfl, h, rfl, rfl, fun _ => rfl⟩
  | cons frame frames ih =>
    by_cases hs : p.stalled = true ∧ frame ≠ []
    · refine ⟨frame :: frames, p, if_pos hs, h, rfl, rfl, ?_⟩
      rintro (hf | hf)
      · rw [hf] at hs
        cases hs.1
      · cases hf
    · let q : Pipe := { p with written := p.written ++ frame, flushes := p.flushes + 1 }
      have hq : p.writeFrame frame = (.ok (), q) := by
        simp [writeFrame, accepted, h.limit, h.flushes, q]
      obtain ⟨rest, r, hr, hrf, hrs, hb, hrest⟩ := ih (p := q) ⟨h.limit, h.flushes⟩
      refine ⟨rest, r, ?_, hrf, hrs, ?_, fun hf => hrest (Or.inl ?_)⟩
      · unfold Lane.writeAll
        rw [if_neg hs, hq]
        exact hr
      · simp [hb, q]
      · simpa using hf

end Pipe

namespace Lane

variable {l : Lane} {id : ConnectionId} {ids : List ConnectionId} {ds : List Delivery}

def content (l : Lane) : Bytes := l.pipe.written ++ l.waiting.flatten

structure Working (l : Lane) : Prop where
  pipe : l.pipe.Faultless
  unbroken : l.failed = false

/-- The later state of a lane, and what it has got in between. -/
structure Got (l : Lane) (bytes : Bytes) (l' : Lane) : Prop where
  working : l'.Working
  connection : l'.connection = l.connection
  released : l'.released = l.released
  stalled : l'.pipe.stalled = l.pipe.stalled
  content : l'.content = l.content ++ bytes

theorem Got.refl (h : l.Working) : l.Got [] l := ⟨h, rfl, rfl, rfl, (List.append_nil _).symm⟩

theorem Got.trans {l' l'' : Lane} {bytes more : Bytes} (h : l.Got bytes l') (h' : l'.Got more l'') :
    l.Got (bytes ++ more) l'' :=
  ⟨h'.working, h'.connection.trans h.connection, h'.released.trans h.released,
    h'.stalled.trans h.stalled, by rw [h'.content, h.content, List.append_assoc]⟩

theorem run_working (h : l.Working) : ∃ l', l.run = (l', none) ∧ l.Got [] l' ∧
    (l.pipe.stalled = false ∨ l.waiting = [] → l'.waiting = []) := by
  obtain ⟨rest, q, hq, hf, hs, hb, hrest⟩ := h.pipe.writeAll l.waiting
  refine ⟨{ l with pipe := q, waiting := rest }, ?_, ?_, hrest⟩
  · unfold run
    rw [hq]
  · exact ⟨⟨hf, h.unbroken⟩, rfl, rfl, hs, by rw [List.append_nil]; exact hb⟩

/-- A lane runs when its stream is woken. -/
def wake (id : ConnectionId) (l : Lane) : Lane :=
  if l.connection = id ∧ !l.released then l.run.1 else l

theorem wake_working (h : l.Working) (id : ConnectionId) : l.Got [] (l.wake id) ∧
    (l.pipe.stalled = false → l.waiting = [] ∨ l.connection = id ∧ l.released = false →
      (l.wake id).waiting = []) := by
  obtain ⟨l', hl', hg, hw⟩ := run_working h
  unfold wake
  split
  · rw [hl']
    exact ⟨hg, fun hs _ => hw (Or.inl hs)⟩
  · next hn =>
    refine ⟨.refl h, fun _ hw => hw.resolve_right ?_⟩
    rintro ⟨hc, hr⟩
    exact hn ⟨hc, by rw [hr]; rfl⟩

def rouse (ids : List ConnectionId) (l : Lane) : Lane := ids.foldl (fun l id => l.wake id) l

theorem rouse_working (h : l.Working) (ids : List ConnectionId) : l.Got [] (l.rouse ids) ∧
    (l.pipe.stalled = false → l.waiting = [] ∨ l.connection ∈ ids ∧ l.released = false →
      (l.rouse ids).waiting = []) := by
  induction ids generalizing l with
  | nil => exact ⟨.refl h, fun _ hw => hw.resolve_right fun hm => nomatch hm.1⟩
  | cons id ids ih =>
    obtain ⟨hg, hw⟩ := wake_working h id
    obtain ⟨hg', hw'⟩ := ih hg.working
    refine ⟨hg.trans hg', fun hs hm => hw' (hg.stalled.trans hs) ?_⟩
    rcases hm with hm | ⟨hm, hr⟩
    · exact Or.inl (hw hs (Or.inl hm))
    · rcases List.mem_cons.mp hm with hm | hm
      · exact Or.inl (hw hs (Or.inr ⟨hm, hr⟩))
      · exact Or.inr ⟨by rw [hg.connection]; exact hm, hg.released.trans hr⟩

def framesOf (id : ConnectionId) (ds : List Delivery) : List Bytes :=
  (ds.filter (·.target = .stream id)).map (·.frame)

/-- A lane takes the frames for its stream, unless it is released. -/
def load (ds : List Delivery) (l : Lane) : Lane :=
  if l.released then l else { l with waiting := l.waiting ++ framesOf l.connection ds }

theorem got_load (h : l.Working) (ds : List Delivery) :
    l.Got (if l.released then [] else (framesOf l.connection ds).flatten) (l.load ds) := by
  unfold load
  split
  · exact .refl h
  · exact ⟨⟨h.pipe, h.unbroken⟩, rfl, rfl, rfl, by simp [content]⟩

theorem load_cons (h : l.Working) (d : Delivery) (ds : List Delivery) :
    l.load (d :: ds) = load ds
      (if d.target = .stream l.connection ∧ !l.released then l.enqueue d.frame else l) := by
  cases hr : l.released
  · by_cases hd : d.target = .stream l.connection
    · simp [load, enqueue, hd, hr, h.unbroken, framesOf]
    · simp [load, hd, hr, framesOf]
  · simp [load, hr]

end Lane

namespace Outbox

variable {lanes : List Lane} {id : ConnectionId} {ids : List ConnectionId} {ds : List Delivery}

/-- A stream has at most one lane that is not released. -/
def Distinct (lanes : List Lane) : Prop := lanes.Pairwise fun l l' =>
  l.released = false → l'.released = false → l.connection ≠ l'.connection

theorem Distinct.map {f : Lane → Lane} (h : Distinct lanes)
    (hc : ∀ l ∈ lanes, (f l).connection = l.connection)
    (hr : ∀ l ∈ lanes, (f l).released = l.released) : Distinct (lanes.map f) := by
  apply List.pairwise_map.mpr
  apply List.Pairwise.imp_of_mem _ h
  intro l l' hl hl' hd
  rw [hc l hl, hc l' hl', hr l hl, hr l' hl']
  exact hd

theorem runLane_working (hw : ∀ l ∈ lanes, l.Working) (hd : Distinct lanes) (id : ConnectionId) :
    runLane id lanes = (lanes.map (·.wake id), none) := by
  induction lanes with
  | nil => rfl
  | cons l ls ih =>
    obtain ⟨hl, hls⟩ := List.forall_mem_cons.mp hw
    obtain ⟨hdl, hdls⟩ := List.pairwise_cons.mp hd
    obtain ⟨l', hl', -⟩ := Lane.run_working hl
    unfold runLane
    by_cases h : l.connection = id ∧ !l.released
    · -- No other lane of the stream is there to run.
      have hrest : ls.map (·.wake id) = ls := by
        apply List.map_congr_left (g := fun l => l) _ |>.trans (List.map_id' ls)
        intro m hm
        refine if_neg fun hm' => ?_
        exact hdl m hm (by simpa using h.2) (by simpa using hm'.2) (h.1.trans hm'.1.symm)
      rw [if_pos h, hl', List.map_cons, hrest, Lane.wake, if_pos h, hl']
    · rw [if_neg h, ih hls hdls, List.map_cons, Lane.wake, if_neg h]

theorem runLanes_working (hw : ∀ l ∈ lanes, l.Working) (hd : Distinct lanes)
    (ids : List ConnectionId) : runLanes lanes ids = (lanes.map (·.rouse ids), []) := by
  induction ids generalizing lanes with
  | nil => simp [runLanes, Lane.rouse]
  | cons id ids ih =>
    have hwake := fun l hl => (Lane.wake_working (hw l hl) id).1
    have hw' : ∀ l ∈ lanes.map (·.wake id), l.Working := by
      intro l hl
      obtain ⟨m, hm, rfl⟩ := List.mem_map.mp hl
      exact (hwake m hm).working
    have hd' := hd.map (fun l hl => (hwake l hl).connection) fun l hl => (hwake l hl).released
    unfold runLanes
    rw [runLane_working hw hd]
    dsimp only
    rw [ih hw' hd', List.map_map]
    rfl

theorem foldl_enqueue (hw : ∀ l ∈ lanes, l.Working) (ds : List Delivery) :
    ds.foldl enqueue lanes = lanes.map (·.load ds) := by
  induction ds generalizing lanes with
  | nil =>
    refine (List.map_congr_left (g := fun l => l) fun l hl => ?_).trans (List.map_id' lanes) |>.symm
    simp [Lane.load, Lane.framesOf]
  | cons d ds ih =>
    rw [List.foldl_cons, ih, enqueue, List.map_map]
    · exact List.map_congr_left fun l hl => (Lane.load_cons (hw l hl) d ds).symm
    · intro l hl
      obtain ⟨m, hm, rfl⟩ := List.mem_map.mp hl
      have := hw m hm
      split
      · exact ⟨by simpa [Lane.enqueue, this.unbroken] using this.pipe,
          by simp [Lane.enqueue, this.unbroken]⟩
      · exact this

def woken (ds : List Delivery) : List ConnectionId :=
  (ds.filterMap fun d => d.target.connection?).eraseDups

theorem mem_woken {d : Delivery} (hd : d ∈ ds) (ht : d.target = .stream id) : id ∈ woken ds := by
  apply List.mem_eraseDups.mpr
  exact List.mem_filterMap.mpr ⟨d, hd, by rw [ht]; rfl⟩

def served (ds : List Delivery) (l : Lane) : Lane := (l.load ds).rouse (woken ds)

theorem got_served {l : Lane} (h : l.Working) (ds : List Delivery) :
    l.Got (if l.released then [] else (Lane.framesOf l.connection ds).flatten) (served ds l) ∧
      (l.pipe.stalled = false → l.waiting = [] → (served ds l).waiting = []) := by
  have hload := Lane.got_load h ds
  obtain ⟨hg, hw⟩ := Lane.rouse_working hload.working (woken ds)
  refine ⟨by simpa [served] using hload.trans hg, fun hs hwait => hw (hload.stalled.trans hs) ?_⟩
  rw [hload.connection, hload.released]
  unfold Lane.load
  split
  · exact Or.inl hwait
  · next hr =>
    cases hf : Lane.framesOf l.connection ds with
    | nil => exact Or.inl (by simp [hwait])
    | cons frame frames =>
      have hm : frame ∈ Lane.framesOf l.connection ds := hf ▸ List.mem_cons_self
      obtain ⟨d, hd, -⟩ := List.mem_map.mp hm
      obtain ⟨hd, ht⟩ := List.mem_filter.mp hd
      exact Or.inr ⟨mem_woken hd (of_decide_eq_true ht), by simpa using hr⟩

theorem deliverAll_working (o : Outbox) (hw : ∀ l ∈ o.lanes, l.Working) (hd : Distinct o.lanes)
    (ds : List Delivery) : o.deliverAll ds = ({ o with lanes := o.lanes.map (served ds) },
      { datagrams := ds.filterMap fun d => d.target.address?.map fun a => (a, d.frame),
        failures := [] }) := by
  have hload := fun l hl => Lane.got_load (hw l hl) ds
  have hw' : ∀ l ∈ o.lanes.map (·.load ds), l.Working := by
    intro l hl
    obtain ⟨m, hm, rfl⟩ := List.mem_map.mp hl
    exact (hload m hm).working
  have hd' := hd.map (fun l hl => (hload l hl).connection) fun l hl => (hload l hl).released
  have hrun := runLanes_working hw' hd' (woken ds)
  unfold woken at hrun
  unfold deliverAll
  rw [foldl_enqueue hw]
  dsimp only
  rw [hrun, List.map_map]
  rfl

/-! ## Lanes and registrations -/

structure Registration where
  place : Nat
  connection : ConnectionId
  pipe : Pipe
  deriving DecidableEq, Repr

def registrations : List Order → List Registration
  | [] => []
  | x :: xs =>
    match x.command with
    | .register id pipe => registrations xs ++ [⟨xs.length, id, pipe⟩]
    | _ => registrations xs

def bytesUnder (n : Nat) (ws : List Writing) : Bytes :=
  (ws.filter (·.registration = some n)).flatMap (·.submission.delivery.frame)

structure Carries (xs : List Order) (g : Registration) (l : Lane) : Prop where
  working : l.Working
  connection : l.connection = g.connection
  released : l.released = decide (registration? xs g.connection ≠ some g.place)
  stalled : l.pipe.stalled = g.pipe.stalled
  content : l.content = g.pipe.written ++ bytesUnder g.place (written xs)
  drained : g.pipe.stalled = false → l.waiting = []

/-- An outbox that has followed its orders. -/
structure Follows (xs : List Order) (o : Outbox) : Prop where
  courier : Mirrors xs o.courier
  lanes : List.Forall₂ (Carries xs) (registrations xs) o.lanes
  running : o.stopped = false

variable {xs : List Order} {x : Order} {g : Registration} {l : Lane} {n : Nat} {w : Writing}
  {o : Outbox}

theorem mem_registrations_cons_iff : g ∈ registrations (x :: xs) ↔ g ∈ registrations xs ∨
    x.command = .register g.connection g.pipe ∧ g.place = xs.length := by
  obtain ⟨time, command⟩ := x
  obtain ⟨place, id, pipe⟩ := g
  cases command with
  | register id' pipe' =>
    simp only [registrations, List.mem_append, List.mem_singleton, Registration.mk.injEq,
      Command.register.injEq]
    apply or_congr_right
    constructor
    · rintro ⟨rfl, rfl, rfl⟩
      exact ⟨⟨rfl, rfl⟩, rfl⟩
    · rintro ⟨⟨rfl, rfl⟩, rfl⟩
      exact ⟨rfl, rfl, rfl⟩
  | _ => simp [registrations]

theorem registration?_cons (h : registration? (x :: xs) id = some n) :
    (∃ pipe, x.command = .register id pipe) ∧ n = xs.length ∨ registration? xs id = some n := by
  obtain ⟨time, command⟩ := x
  unfold registration? at h
  cases command with
  | register id' pipe =>
    dsimp only at h
    split at h
    · next he =>
      cases h
      exact Or.inl ⟨⟨pipe, by rw [he]⟩, rfl⟩
    · exact Or.inr h
  | unregister id' =>
    dsimp only at h
    split at h
    · cases h
    · exact Or.inr h
  | _ => exact Or.inr h

theorem lt_of_registration? (h : registration? xs id = some n) : n < xs.length := by
  induction xs with
  | nil => cases h
  | cons x xs ih =>
    rcases registration?_cons h with ⟨-, rfl⟩ | h
    · exact Nat.lt_succ_self _
    · exact Nat.lt_succ_of_lt (ih h)

theorem lt_of_registrations (h : g ∈ registrations xs) : g.place < xs.length := by
  induction xs with
  | nil => cases h
  | cons x xs ih =>
    rcases mem_registrations_cons_iff.mp h with h | ⟨-, h⟩
    · exact Nat.lt_succ_of_lt (ih h)
    · exact Nat.lt_succ_of_le (Nat.le_of_eq h)

theorem pairwise_registrations (xs : List Order) :
    (registrations xs).Pairwise fun g g' => g.place < g'.place := by
  induction xs with
  | nil => exact .nil
  | cons x xs ih =>
    unfold registrations
    split
    · refine List.pairwise_append.mpr ⟨ih, List.pairwise_singleton _ _, ?_⟩
      intro g hg g' hg'
      cases List.mem_singleton.mp hg'
      exact lt_of_registrations hg
    · exact ih

theorem connection_of_registration? (hg : g ∈ registrations xs)
    (h : registration? xs id = some g.place) : g.connection = id := by
  induction xs with
  | nil => cases hg
  | cons x xs ih =>
    rcases mem_registrations_cons_iff.mp hg with hg | ⟨hx, hp⟩ <;>
      rcases registration?_cons h with ⟨⟨pipe, hx'⟩, hp'⟩ | h
    · exact absurd hp' (Nat.ne_of_lt (lt_of_registrations hg))
    · exact ih hg h
    · rw [hx] at hx'
      cases hx'
      rfl
    · exact absurd hp (Nat.ne_of_lt (lt_of_registration? h))

theorem registration_lt (h : w ∈ written xs) (hn : w.registration = some n) : n < xs.length := by
  obtain ⟨later, x, past, rfl, hw⟩ := mem_written_iff.mp h
  obtain ⟨s, -, rfl⟩ := List.mem_map.mp hw
  obtain ⟨id, -, hr⟩ := Option.bind_eq_some_iff.mp hn
  have := lt_of_registration? hr
  simp only [List.length_append, List.length_cons]
  omega

theorem distinct_of_carries {gs : List Registration} {lanes : List Lane}
    (h : List.Forall₂ (Carries xs) gs lanes) (hg : gs.Pairwise fun g g' => g.place < g'.place) :
    Distinct lanes := by
  rw [List.forall₂_iff_get] at h
  obtain ⟨hlen, h⟩ := h
  apply List.pairwise_iff_getElem.mpr
  intro i j hi hj hij hri hrj hc
  have hi' : i < gs.length := hlen ▸ hi
  have hj' : j < gs.length := hlen ▸ hj
  have ci := h i hi' hi
  have cj := h j hj' hj
  have hlt : gs[i].place < gs[j].place := List.pairwise_iff_getElem.mp hg i j hi' hj' hij
  have hpi := of_decide_eq_false (ci.released.symm.trans hri)
  have hpj := of_decide_eq_false (cj.released.symm.trans hrj)
  simp only [ne_eq, Decidable.not_not] at hpi hpj
  have he : (gs.get ⟨i, hi'⟩).connection = (gs.get ⟨j, hj'⟩).connection :=
    ci.connection.symm.trans (hc.trans cj.connection)
  rw [he, hpj] at hpi
  exact Nat.ne_of_gt hlt (Option.some.inj hpi)

theorem bytesUnder_append (n : Nat) (ws ws' : List Writing) :
    bytesUnder n (ws ++ ws') = bytesUnder n ws ++ bytesUnder n ws' := by
  simp [bytesUnder]

/-- The entries under a registration are those for its stream, while the registration lasts. -/
theorem bytesUnder_entries (hg : g ∈ registrations xs) (x : Order) :
    bytesUnder g.place (entries xs x) =
      if registration? xs g.connection = some g.place then
        (Lane.framesOf g.connection ((leaving xs x).map (·.delivery))).flatten
      else [] := by
  have hiff (s : Submission) : s.delivery.target.connection?.bind (registration? xs) =
      some g.place ↔ s.delivery.target = .stream g.connection ∧
        registration? xs g.connection = some g.place := by
    cases s.delivery.target with
    | stream id =>
      constructor
      · intro h
        have hc := connection_of_registration? hg h
        exact ⟨by rw [hc], by rw [hc]; exact h⟩
      · rintro ⟨⟨⟩, h⟩
        exact h
    | datagram a => simp [Route.connection?]
  unfold bytesUnder entries Lane.framesOf
  rw [List.filter_map, List.flatMap_map, List.filter_map, List.map_map, List.flatMap_def]
  simp only [Function.comp_def, hiff]
  split
  · next h => simp [h]
  · next h => simp [h]

theorem Carries.release (id : ConnectionId) (r : Option Nat) (h : Carries xs g l)
    (hl : leaving xs x = []) (hr : registration? (x :: xs) g.connection =
      if id = g.connection then r else registration? xs g.connection)
    (hn : r ≠ some g.place) : Carries (x :: xs) g (releaseLane id l) := by
  have hw : written (x :: xs) = written xs := by simp [written, entries, hl]
  obtain ⟨hwork, hc, hrel, hs, hb, hd⟩ := h
  unfold releaseLane
  by_cases he : l.connection = id
  · -- The stream is registered anew or not at all, so this lane gets nothing more.
    rw [if_pos he]
    refine ⟨⟨hwork.pipe, hwork.unbroken⟩, hc, ?_, hs, hw ▸ hb, hd⟩
    rw [hr, if_pos (by rw [← hc, he])]
    exact (decide_eq_true hn).symm
  · rw [if_neg he]
    refine ⟨hwork, hc, ?_, hs, hw ▸ hb, hd⟩
    rw [hr, if_neg (by rw [← hc]; exact Ne.symm he)]
    exact hrel

theorem Carries.serve (h : Carries xs g l) (hg : g ∈ registrations xs)
    (hr : registration? (x :: xs) g.connection = registration? xs g.connection) :
    Carries (x :: xs) g (served ((leaving xs x).map (·.delivery)) l) := by
  obtain ⟨hgot, hdrained⟩ := got_served h.working ((leaving xs x).map (·.delivery))
  refine ⟨hgot.working, hgot.connection.trans h.connection, ?_, hgot.stalled.trans h.stalled, ?_,
    fun hs => hdrained (h.stalled.trans hs) (h.drained hs)⟩
  · rw [hgot.released, h.released, hr]
  · rw [hgot.content, h.content, written, bytesUnder_append, bytesUnder_entries hg, h.released,
      h.connection, List.append_assoc]
    simp only [decide_eq_true_eq, ne_eq, ite_not]

theorem Follows.distinct (h : Follows xs o) : Distinct o.lanes :=
  distinct_of_carries h.lanes (pairwise_registrations xs)

theorem Follows.working (h : Follows xs o) : ∀ l ∈ o.lanes, l.Working := by
  intro l hl
  obtain ⟨i, hi, rfl⟩ := List.getElem_of_mem hl
  obtain ⟨hlen, hc⟩ := List.forall₂_iff_get.mp h.lanes
  exact (hc i (hlen ▸ hi) hi).working

/-! ## Following orders -/

def obey (o : Outbox) (x : Order) : Except LinkError (Outbox × Activity) :=
  let o := { o with now := x.time }
  match x.command with
  | .register id pipe => (o.register id pipe).map (·, {})
  | .unregister id => (o.unregister id).map (·, {})
  | .send target frame delay => o.sendFrame target frame delay
  | .flush => .ok (o.advance 0)

def run : List Order → Except LinkError (Outbox × List Activity)
  | [] => .ok ({}, [])
  | x :: xs => do
    let (o, as) ← run xs
    let (o, a) ← o.obey x
    return (o, a :: as)

def datagram? (d : Delivery) : Option (Address × Bytes) := d.target.address?.map (·, d.frame)

def activityOf (xs : List Order) (x : Order) : Activity :=
  { datagrams := (leaving xs x).filterMap fun s => datagram? s.delivery, failures := [] }

theorem forall₂_map {R T : Registration → Lane → Prop} {gs : List Registration}
    {lanes : List Lane} {f : Lane → Lane} (h : List.Forall₂ R gs lanes)
    (hf : ∀ g ∈ gs, ∀ l, R g l → T g (f l)) : List.Forall₂ T gs (lanes.map f) := by
  induction h with
  | nil => exact .nil
  | cons h _ ih =>
    obtain ⟨hg, hgs⟩ := List.forall_mem_cons.mp hf
    exact .cons (hg _ h) (ih hgs)

theorem Follows.deliver {c : Courier} (h : Follows xs o) (hc : Mirrors (x :: xs) c)
    (hr : ∀ id, registration? (x :: xs) id = registration? xs id)
    (hg : registrations (x :: xs) = registrations xs) (time : Nat) :
    ∃ o', deliverAll { o with now := time, courier := c } ((leaving xs x).map (·.delivery)) =
      (o', activityOf xs x) ∧ Follows (x :: xs) o' := by
  let o' : Outbox := { o with
    now := time
    courier := c
    lanes := o.lanes.map (served ((leaving xs x).map (·.delivery))) }
  refine ⟨o', ?_, hc, ?_, h.running⟩
  · rw [deliverAll_working { o with now := time, courier := c } h.working h.distinct,
      List.filterMap_map]
    rfl
  rw [hg]
  exact forall₂_map h.lanes fun g hg l hl => hl.serve hg (hr g.connection)

theorem Follows.obey (h : Follows xs o)
    (hp : ∀ id pipe, x.command = .register id pipe → pipe.Faultless) :
    ∃ o', o.obey x = .ok (o', activityOf xs x) ∧ Follows (x :: xs) o' := by
  obtain ⟨time, command⟩ := x
  cases command with
  | register id pipe =>
    refine ⟨{ o with
      now := time
      courier := o.courier.register id
      lanes := o.lanes.map (releaseLane id) ++ [{ connection := id, pipe }] }, ?_, ?_⟩
    · simp [Outbox.obey, register, h.running, Except.map, activityOf, leaving]
    · refine ⟨h.courier.register time id pipe, ?_, h.running⟩
      refine List.rel_append (forall₂_map h.lanes fun g hg l hl => ?_) (.cons ?_ .nil)
      · exact hl.release id (some xs.length) rfl rfl
          fun he => Nat.ne_of_gt (lt_of_registrations hg) (Option.some.inj he)
      · refine ⟨⟨hp id pipe rfl, rfl⟩, rfl, ?_, rfl, ?_, fun _ => rfl⟩
        · simp [registration?]
        · have hnone : bytesUnder xs.length (written xs) = [] := by
            unfold bytesUnder
            rw [List.filter_eq_nil_iff.mpr, List.flatMap_nil]
            intro w hw hn
            exact Nat.lt_irrefl _ (registration_lt hw (of_decide_eq_true hn))
          simp [Lane.content, written, entries, leaving, hnone]
  | unregister id =>
    refine ⟨{ o with
      now := time
      courier := o.courier.unregister id
      lanes := o.lanes.map (releaseLane id) }, ?_, ?_⟩
    · simp [Outbox.obey, unregister, h.running, Except.map, activityOf, leaving]
    · refine ⟨h.courier.unregister time id, forall₂_map h.lanes fun g _ l hl => ?_, h.running⟩
      exact hl.release id none rfl rfl (Option.some_ne_none _).symm
  | send target frame delay =>
    obtain ⟨hm, hout⟩ := h.courier.send time delay target frame
    obtain ⟨o', ho, hf⟩ := h.deliver hm (fun _ => rfl) rfl time
    refine ⟨o', ?_, hf⟩
    rw [← hout] at ho
    unfold Outbox.obey sendFrame
    dsimp only
    rw [if_neg (by simp [h.running])]
    exact congrArg Except.ok ho
  | flush =>
    obtain ⟨hm, hout⟩ := h.courier.flush time
    obtain ⟨o', ho, hf⟩ := h.deliver hm (fun _ => rfl) rfl time
    refine ⟨o', ?_, hf⟩
    rw [← hout] at ho
    exact congrArg Except.ok ho

theorem follows_run
    (hp : ∀ x ∈ xs, ∀ id pipe, x.command = .register id pipe → pipe.Faultless) :
    ∃ o as, run xs = .ok (o, as) ∧ Follows xs o ∧ (∀ a ∈ as, a.failures = []) ∧
      as.reverse.flatMap (·.datagrams) =
        (written xs).filterMap fun w => datagram? w.submission.delivery := by
  induction xs with
  | nil => exact ⟨{}, [], rfl, ⟨mirrors_new, .nil, rfl⟩, nofun, rfl⟩
  | cons x xs ih =>
    obtain ⟨hx, hxs⟩ := List.forall_mem_cons.mp hp
    obtain ⟨o, as, hr, hf, hfail, hd⟩ := ih hxs
    obtain ⟨o', ho, hf'⟩ := hf.obey hx
    refine ⟨o', activityOf xs x :: as, ?_, hf', List.forall_mem_cons.mpr ⟨rfl, hfail⟩, ?_⟩
    · unfold run
      rw [hr]
      change (o.obey x >>= _) = _
      rw [ho]
      rfl
    · simp only [List.reverse_cons, List.flatMap_append, hd, written, entries, activityOf,
        List.filterMap_append, List.filterMap_map]
      simp

/-- An outbox over pipes that do not fail takes every order. The frames that it has written are
those of a ledger: each lane carries the frames under its registration, and the datagrams are
those to addresses, in the order of the ledger. -/
theorem delivery_of_orders (ht : Timely xs)
    (hp : ∀ x ∈ xs, ∀ id pipe, x.command = .register id pipe → pipe.Faultless) :
    ∃ o as ws, run xs = .ok (o, as) ∧ Ledger xs ws ∧
      List.Forall₂ (fun g l => l.connection = g.connection ∧
        l.pipe.written ++ l.waiting.flatten = g.pipe.written ++ bytesUnder g.place ws ∧
        (g.pipe.stalled = false → l.waiting = [])) (registrations xs) o.lanes ∧
      as.reverse.flatMap (·.datagrams) =
        ws.filterMap (fun w => datagram? w.submission.delivery) ∧
      ∀ a ∈ as, a.failures = [] := by
  obtain ⟨o, as, hr, hf, hfail, hd⟩ := follows_run hp
  refine ⟨o, as, written xs, hr, ledger_written ht, ?_, hd, hfail⟩
  exact hf.lanes.imp fun g l h => ⟨h.connection, h.content, h.drained⟩

def renewal : List Order :=
  [⟨150, .flush⟩, ⟨120, .register ⟨1⟩ {}⟩, ⟨100, .unregister ⟨1⟩⟩,
    ⟨30, .send (.datagram ⟨"a"⟩) [3] 120⟩, ⟨0, .send (.stream ⟨1⟩) [2] 0⟩,
    ⟨0, .send (.stream ⟨1⟩) [1] 150⟩, ⟨0, .register ⟨1⟩ {}⟩]

theorem delivery_of_orders_renewal : Timely renewal ∧
    (run renewal).map (fun out => out.1.lanes.map Lane.content) = .ok [[2], [1]] ∧
    ∃ o as ws, run renewal = .ok (o, as) ∧ Ledger renewal ws ∧
      as.reverse.flatMap (·.datagrams) =
        ws.filterMap (fun w => datagram? w.submission.delivery) := by
  have ht : Timely renewal := by
    unfold Timely
    decide
  have hp : ∀ x ∈ renewal, ∀ id pipe, x.command = .register id pipe → pipe.Faultless := by
    intro x hx id pipe he
    simp only [renewal, List.mem_cons, List.not_mem_nil, or_false] at hx
    rcases hx with rfl | rfl | rfl | rfl | rfl | rfl | rfl <;> cases he <;> exact ⟨rfl, rfl⟩
  obtain ⟨o, as, ws, hr, hl, -, hd, -⟩ := delivery_of_orders ht hp
  exact ⟨ht, rfl, o, as, ws, hr, hl, hd⟩

end Outbox

end SharedWorld
