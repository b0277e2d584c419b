import Mathlib.Algebra.Ring.Nat
import SharedWorld.Proofs.World.Broadcasts

/-! # How often a world speaks

The tiles of a world and each of its characters are broadcast at a tick exactly when they are
active and the frames since they were created or last broadcast, with the frame of this tick,
have reached their interval. A presence counts in 64 bits and stops at the largest value. No
interval is longer than that, so it decides as the exact sum does.
-/

namespace SharedWorld

namespace Presence

variable {p : Presence} {interval n : Nat}

/-- The presence has this interval and has counted so many microseconds, as far as it can. -/
structure Counts (p : Presence) (interval n : Nat) : Prop where
  interval : p.interval.toNat = interval
  elapsed : p.elapsed.toNat = min n Micros.limit

theorem counts_create (k : EntityId) (type : EntityType) (player : PlayerId) (ms : UInt64) :
    (create k type player ms).Counts (min (ms.toNat * 1000) Micros.limit) 0 :=
  ⟨Micros.toNat_ofMillis ms, rfl⟩

theorem Counts.tick (h : p.Counts interval n) (frame : Micros) :
    (p.tick frame).Counts interval (n + frame.toNat) where
  interval := h.interval
  elapsed := by
    rw [Presence.tick, Micros.toNat_plus, h.elapsed]
    omega

theorem Counts.afterBroadcast (h : p.Counts interval n) : p.afterBroadcast.Counts interval 0 :=
  ⟨h.interval, rfl⟩

theorem Counts.isDue_iff (h : p.Counts interval n) :
    p.isDue = true ↔ p.broadcasting = true ∧ interval ≤ n := by
  have hle : interval ≤ Micros.limit := h.interval ▸ Nat.le_pred_of_lt p.interval.toNat_lt
  rw [isDue, Bool.and_eq_true, decide_eq_true_eq, UInt64.le_iff_toNat_le, h.interval, h.elapsed]
  exact and_congr_right fun _ => by omega

end Presence

/-- What a world broadcasts: its tiles, or one of its characters. -/
inductive Topic
  | tiles
  | character (k : EntityId)
  deriving DecidableEq

def Packet.topic? : Packet → Option Topic
  | .entityUpdate u =>
    match u.type with
    | .world => some .tiles
    | .character => some (.character u.entity)
    | .unknown => none
  | _ => none

def updates (t : Topic) (sent : List Envelope) : List Envelope :=
  sent.filter (·.packet.topic? = some t)

namespace World

variable {w : World} {t : Topic} {p : Presence} {clock : Clock} {ev : Event}
  {l : Moment World Event} {ms : List (Moment World Event)}

def presence? (w : World) : Topic → Option Presence
  | .tiles => some w.presence
  | .character k => (w.characters.get? k).map (·.presence)

def interval (w : World) : Topic → Nat
  | .tiles => min (w.sync.worldBroadcast.toNat * 1000) Micros.limit
  | .character _ => min (w.sync.characterBroadcast.toNat * 1000) Micros.limit

def broadcast (w : World) (clock : Clock) : Topic → List Envelope
  | .tiles => w.sendAll (.entityUpdate (w.tileUpdate clock.total)) none 0 w.presence.armed
  | .character k => ((w.characters.get? k).map (·.tick clock.frame)).elim [] fun c =>
    w.sendAll (.entityUpdate (c.snapshot w.name clock.total)) c.presence.excluded? 0
      c.presence.armed

def broadcasts (t : Topic) (l : Moment World Event) : Bool :=
  l.event.clock?.any fun clock => (l.state.presence? t).any fun p => (p.tick clock.frame).isDue

def creates (t : Topic) (l : Moment World Event) : Bool :=
  match t with
  | .tiles => false
  | .character k =>
    match act? k l with
    | some .create => true
    | _ => false

def Event.frame (ev : Event) : Nat := (ev.clock?.map (·.frame.toNat)).getD 0

def frameTime (ms : List (Moment World Event)) : Nat := (ms.map (·.event.frame)).sum

/-- The exact frame time since the topic was created or last broadcast. -/
def waited (t : Topic) (ms : List (Moment World Event)) : Nat :=
  frameTime (ms.takeWhile fun l => !(creates t l || broadcasts t l))

theorem waited_cons (t : Topic) (l : Moment World Event) (ms : List (Moment World Event)) :
    waited t (l :: ms) =
      if (creates t l || broadcasts t l) = true then 0 else l.event.frame + waited t ms := by
  unfold waited
  rw [List.takeWhile_cons]
  cases creates t l || broadcasts t l <;> rfl

theorem waited_of_restarts (h : (creates t l || broadcasts t l) = true) :
    waited t (l :: ms) = 0 := by
  rw [waited_cons, if_pos h]

theorem waited_of_passes (h : (creates t l || broadcasts t l) = false) :
    waited t (l :: ms) = l.event.frame + waited t ms := by
  rw [waited_cons, if_neg (by simp [h])]

theorem waited_append_le {l' : Moment World Event} (hb : broadcasts t l' = true)
    (between past : List (Moment World Event)) :
    waited t (between ++ l' :: past) ≤ frameTime between := by
  induction between with
  | nil =>
    rw [List.nil_append, waited_of_restarts (by rw [hb, Bool.or_true])]
    exact Nat.zero_le _
  | cons l between ih =>
    rw [List.cons_append, waited_cons]
    split
    · exact Nat.zero_le _
    · exact Nat.add_le_add_left ih _

theorem waited_of_quiet (hn : l.event.clock? = none) (hc : creates t l = false) :
    waited t (l :: ms) = waited t ms := by
  rw [waited_of_passes (by simp [hc, broadcasts, hn])]
  simp [Event.frame, hn]

/-! ## What a run has counted -/

theorem sync_step (w : World) (ev : Event) : w.sync = (w.step ev).1.sync := by
  have h := change_step w ev
  generalize (w.step ev).1 = w' at h
  cases h <;> rfl

theorem interval_step (w : World) (ev : Event) (t : Topic) :
    w.interval t = (w.step ev).1.interval t := by
  unfold interval
  rw [← sync_step]

theorem presence_step (hn : ev.clock? = none) : (w.step ev).1.presence = w.presence := by
  have h := makes_step w ev
  generalize (w.step ev).1 = w' at h
  cases h <;> first | rfl | cases hn

theorem broadcasts_tick (hp : w.presence? t = some p) (clock : Clock) :
    broadcasts t ⟨w, .tick clock⟩ = (p.tick clock.frame).isDue := by
  change (w.presence? t).any _ = _
  rw [hp, Option.any_some]

theorem waited_tick (hp : w.presence? t = some p) (hd : (p.tick clock.frame).isDue = false)
    (hc : creates t ⟨w, .tick clock⟩ = false) :
    waited t (⟨w, .tick clock⟩ :: ms) = waited t ms + clock.frame.toNat := by
  rw [waited_of_passes (by rw [hc, broadcasts_tick hp, hd, Bool.or_false]), Nat.add_comm]
  rfl

theorem waited_of_due (hp : w.presence? t = some p) (hd : (p.tick clock.frame).isDue = true) :
    waited t (⟨w, .tick clock⟩ :: ms) = 0 :=
  waited_of_restarts (by rw [broadcasts_tick hp, hd, Bool.or_true])

/-- Each topic of the world has counted how long it has waited. -/
def Metered (ms : List (Moment World Event)) (w : World) : Prop :=
  ∀ t p, w.presence? t = some p → p.Counts (w.interval t) (waited t ms)

theorem counts_tiles (h : w.presence.Counts (w.interval .tiles) (waited .tiles ms)) :
    (w.step ev).1.presence.Counts (w.interval .tiles) (waited .tiles (⟨w, ev⟩ :: ms)) := by
  cases hn : ev.clock? with
  | none =>
    rw [presence_step hn, waited_of_quiet hn rfl]
    exact h
  | some clock =>
    cases ev <;> cases hn
    change Presence.Counts (if (w.presence.tick clock.frame).isDue = true then
      (w.presence.tick clock.frame).afterBroadcast else w.presence.tick clock.frame) _ _
    cases hd : (w.presence.tick clock.frame).isDue with
    | true =>
      rw [if_pos rfl, waited_of_due rfl hd]
      exact (h.tick clock.frame).afterBroadcast
    | false =>
      rw [if_neg nofun, waited_tick rfl hd rfl]
      exact h.tick clock.frame

theorem counts_character {k : EntityId} {c' : Character}
    (h : ∀ c, w.characters.get? k = some c →
      c.presence.Counts (w.interval (.character k)) (waited (.character k) ms))
    (hc : (w.step ev).1.characters.get? k = some c') :
    c'.presence.Counts (w.interval (.character k)) (waited (.character k) (⟨w, ev⟩ :: ms)) := by
  have hb := becomes_step hc
  have hp {c : Character} (hk : w.characters.get? k = some c) :
      w.presence? (.character k) = some c.presence := by
    rw [presence?, hk, Option.map_some]
  generalize ha : act? k ⟨w, ev⟩ = a at hb
  cases hb with
  | create hn =>
    rw [waited_of_restarts (by simp [creates, ha])]
    exact Presence.counts_create ..
  | load hn hk | edit hn hk | report hn hk | keep hn hk =>
    rw [waited_of_quiet hn (by simp [creates, ha])]
    exact ⟨(h _ hk).interval, (h _ hk).elapsed⟩
  | broadcast hk hd =>
    rw [waited_of_due (hp hk) hd]
    exact ((h _ hk).tick _).afterBroadcast
  | wait hk hd =>
    rw [waited_tick (hp hk) hd (by simp [creates, ha])]
    exact (h _ hk).tick _

theorem metered_step (h : w.Metered ms) : (w.step ev).1.Metered (⟨w, ev⟩ :: ms) := by
  intro t p hp
  rw [← interval_step]
  cases t with
  | tiles =>
    cases hp
    exact counts_tiles (h .tiles w.presence rfl)
  | character k =>
    obtain ⟨c', hc', rfl⟩ := Option.map_eq_some_iff.mp hp
    apply counts_character _ hc'
    intro c hc
    apply h (.character k)
    rw [presence?, hc, Option.map_some]

theorem metered_of_run (h : freely.Run ms w) : w.Metered ms := by
  induction h with
  | start h =>
    obtain ⟨config, sync, ids, rfl⟩ := h
    intro t p hp
    cases t with
    | tiles =>
      cases hp
      exact Presence.counts_create ..
    | character k => cases hp
  | step e _ _ ih => exact metered_step ih

/-! ## What a tick sends -/

theorem topic?_eq_character_iff {q : Packet} {k : EntityId} :
    q.topic? = some (.character k) ↔ q.shown? = some k := by
  cases q with
  | entityUpdate u =>
    simp only [Packet.topic?, Packet.shown?]
    cases u.type <;> simp
  | _ => simp [Packet.topic?, Packet.shown?]

theorem updates_character (k : EntityId) (sent : List Envelope) :
    updates (.character k) sent = copies k sent := by
  unfold updates copies
  simp only [topic?_eq_character_iff]

theorem updates_tiles_announce {c : Character} (hc : c.presence.type = .character) (now : Micros) :
    updates .tiles (w.announce now c) = [] := by
  unfold announce updates
  split
  · rw [filter_sendAll (fun q => decide (q.topic? = some .tiles))]
    simp [Packet.topic?, Character.snapshot, hc]
  · rfl

theorem updates_tiles (hw : w.Keyed) (clock : Clock) : updates .tiles (w.tick clock).2 =
    if (w.presence.tick clock.frame).isDue = true then w.broadcast clock .tiles else [] := by
  have hchars : ∀ c ∈ (w.characters.map (·.tick clock.frame)).values,
      updates .tiles (w.announce clock.total c) = [] := by
    intro c hc
    rw [Table.values_map] at hc
    obtain ⟨c₀, hc₀, rfl⟩ := List.mem_map.mp hc
    obtain ⟨k, hk⟩ := Table.mem_values_iff.mp hc₀
    exact updates_tiles_announce (c := c₀.tick clock.frame) (hw k c₀ hk).2 clock.total
  unfold updates at hchars
  unfold tick updates
  rw [List.filter_append, List.filter_flatMap, List.flatMap_eq_nil_iff.mpr hchars,
    List.append_nil]
  split
  · exact filter_sendAll (fun q => decide (q.topic? = some .tiles)) ..
  · rfl

theorem copies_of_get? {k : EntityId} {c : Character} (hw : w.Keyed) (clock : Clock)
    (hc : w.characters.get? k = some c) : copies k (w.tick clock).2 =
      if (c.presence.tick clock.frame).isDue = true then w.broadcast clock (.character k)
      else [] := by
  rw [copies_tick hw, due?, broadcast, hc, Option.map_some, Option.filter_some]
  change (if (c.presence.tick clock.frame).isDue = true then _ else _ : Option _).toList.flatMap _ =
    _
  split
  · next hd =>
    rw [Option.toList_some, List.flatMap_singleton]
    exact if_pos hd
  · rfl

theorem updates_tick (hw : w.Keyed) (hp : w.presence? t = some p) (clock : Clock) :
    updates t (w.tick clock).2 =
      if broadcasts t ⟨w, .tick clock⟩ = true then w.broadcast clock t else [] := by
  rw [broadcasts_tick hp]
  cases t with
  | tiles =>
    cases hp
    exact updates_tiles hw clock
  | character k =>
    obtain ⟨c, hc, rfl⟩ := Option.map_eq_some_iff.mp hp
    rw [updates_character]
    exact copies_of_get? hw clock hc

/-! ## The cadence of a run -/

theorem broadcasts_iff (h : freely.Run ms w) (hp : w.presence? t = some p) (clock : Clock) :
    broadcasts t ⟨w, .tick clock⟩ = true ↔
      p.broadcasting = true ∧ w.interval t ≤ waited t ms + clock.frame.toNat := by
  rw [broadcasts_tick hp]
  exact ((metered_of_run h t p hp).tick clock.frame).isDue_iff

theorem exists_of_broadcasts (h : broadcasts t l = true) :
    ∃ clock p, l = ⟨l.state, .tick clock⟩ ∧ l.state.presence? t = some p := by
  obtain ⟨w, ev⟩ := l
  cases ev with
  | tick clock =>
    have h : (w.presence? t).any (fun p => (p.tick clock.frame).isDue) = true := h
    obtain ⟨p, hp, -⟩ := (Option.any_eq_true _ _).mp h
    exact ⟨clock, p, rfl, hp⟩
  | _ => cases h

theorem interval_le_frameTime {l' : Moment World Event}
    {later between past : List (Moment World Event)}
    (h : freely.Run (later ++ l :: (between ++ l' :: past)) w) (hb : broadcasts t l = true)
    (hb' : broadcasts t l' = true) : w.interval t ≤ frameTime (l :: between) := by
  have hconst : l.state.interval t = w.interval t :=
    h.related (R := fun w w' => w.interval t = w'.interval t) Eq.trans
      (fun w ev => interval_step w ev t) (List.mem_append_right _ (List.mem_cons_self ..))
  obtain ⟨clock, p, hl, hp⟩ := exists_of_broadcasts hb
  rw [hl] at hb
  have hdue := ((broadcasts_iff h.past.1 hp clock).mp hb).2
  have hwait := waited_append_le hb' between past
  have hframe : frameTime (l :: between) = clock.frame.toNat + frameTime between := by
    rw [hl]
    rfl
  rw [← hconst, hframe]
  omega

/-- After any run, with ticks of any length, a topic that is active is broadcast at a tick exactly
when the frames since it was created or last broadcast, with the frame of this tick, have
reached its interval. The sum is exact and has no bound. Of the topic a tick sends one
broadcast at most, however long it is, and two broadcasts lie at least one interval apart. -/
theorem cadence_of_run (h : freely.Run ms w) (t : Topic) :
    (∀ p clock, w.presence? t = some p →
      (broadcasts t ⟨w, .tick clock⟩ = true ↔
        p.broadcasting = true ∧ w.interval t ≤ waited t ms + clock.frame.toNat) ∧
      updates t (w.tick clock).2 =
        if broadcasts t ⟨w, .tick clock⟩ = true then w.broadcast clock t else []) ∧
    ∀ later l between l' past, ms = later ++ l :: (between ++ l' :: past) →
      broadcasts t l = true → broadcasts t l' = true → w.interval t ≤ frameTime (l :: between) := by
  constructor
  · intro p clock hp
    exact ⟨broadcasts_iff h hp clock, updates_tick (keyed_of_freely h) hp clock⟩
  · rintro later l between l' past rfl hb hb'
    exact interval_le_frameTime h hb hb'

def halfAeon : Clock := ⟨0, 0x8000000000000000, 0⟩

/-- Ann and Bob on a farm that broadcasts characters as seldom as it can, and five ticks that are
half of that long. The second and the fourth tick broadcast Ann's character. -/
def aeon : List (Moment World Event) × World :=
  let ann : Player := { connection := ⟨1⟩, id := ⟨1⟩, name := "ann" }
  let bob : Player := { connection := ⟨2⟩, id := ⟨2⟩, name := "bob", address := some ⟨"b"⟩ }
  let sync : SyncConfig := { characterBroadcast := 0xFFFFFFFFFFFFFFFF }
  let created := World.create { islands := [] } sync {}
  freely.play [] created.1 (.addPlayer created.2 ann none ::
    .addPlayer created.2.take.2 bob none :: List.replicate 5 (.tick halfAeon))

theorem cadence_of_run_aeon : freely.Run aeon.1 aeon.2 ∧
    waited (.character ⟨2⟩) aeon.1 + halfAeon.frame.toNat = 2 ^ 64 ∧
    broadcasts (.character ⟨2⟩) ⟨aeon.2, .tick halfAeon⟩ = true ∧
    updates (.character ⟨2⟩) (aeon.2.tick halfAeon).2 =
      aeon.2.broadcast halfAeon (.character ⟨2⟩) ∧
    (aeon.2.broadcast halfAeon (.character ⟨2⟩)).length = 1 ∧
    aeon.2.interval (.character ⟨2⟩) ≤ frameTime [aeon.1[1], aeon.1[2]] := by
  have hstart : freely.Starts (World.create { islands := [] }
      { characterBroadcast := 0xFFFFFFFFFFFFFFFF } {}).1 := ⟨_, _, _, rfl⟩
  have hrun : freely.Run aeon.1 aeon.2 :=
    (System.Run.start hstart).play (by simp [System.AdmitsAll, freely])
  have hsum : waited (.character ⟨2⟩) aeon.1 + halfAeon.frame.toNat = 2 ^ 64 := by decide +kernel
  obtain ⟨p, hp⟩ := Option.isSome_iff_exists.mp
    (show (aeon.2.presence? (.character ⟨2⟩)).isSome by decide +kernel)
  have hactive : (aeon.2.presence? (.character ⟨2⟩)).map (·.broadcasting) = some true := by
    decide +kernel
  rw [hp, Option.map_some, Option.some.injEq] at hactive
  obtain ⟨hdecides, hspaced⟩ := cadence_of_run hrun (.character ⟨2⟩)
  obtain ⟨hiff, hsends⟩ := hdecides p halfAeon hp
  have hdue := hiff.mpr ⟨hactive, by rw [hsum]; decide +kernel⟩
  rw [if_pos hdue] at hsends
  refine ⟨hrun, hsum, hdue, hsends, by decide +kernel, ?_⟩
  exact hspaced [aeon.1[0]] aeon.1[1] [aeon.1[2]] aeon.1[3] (aeon.1.drop 4) rfl
    (by decide +kernel) (by decide +kernel)

end World

end SharedWorld
