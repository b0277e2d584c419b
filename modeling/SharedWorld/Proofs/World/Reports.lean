import Mathlib.Data.List.Induction
import SharedWorld.Proofs.Atlas.Authority

/-! # Reports in any order

A world keeps the newest report on each of its characters and forgets the others. So what
reports do to it depends on which of them there are, and not on their order or on how often
each of them comes.
-/

namespace SharedWorld

namespace World

variable {w v : World} {q : PlayerId} {u u' : OwnUpdate} {k : EntityId} {m : Member}
  {c c' : Character} {report : PositionReport} {r : PlayerId × OwnUpdate}
  {rs xs ys : List (PlayerId × OwnUpdate)}

/-- The world after a report, whether it was taken, ignored or refused. -/
def heed (w : World) (r : PlayerId × OwnUpdate) : World :=
  match w.ownUpdate r.1 r.2 with
  | .ok out => out.1
  | .error _ => w

def heedAll (w : World) (rs : List (PlayerId × OwnUpdate)) : World := rs.foldl heed w

theorem heedAll_concat (w : World) (rs : List (PlayerId × OwnUpdate))
    (r : PlayerId × OwnUpdate) : w.heedAll (rs ++ [r]) = (w.heedAll rs).heed r := by
  simp [heedAll]

theorem heed_of_accepts (h : w.Accepts q u m c report) :
    w.heed (q, u) = w.move c m.character u.time report.position := by
  simp only [heed, ownUpdate_of_accepts h]

theorem heed_cases (w : World) (q : PlayerId) (u : OwnUpdate) :
    (∃ m c report, w.Accepts q u m c report ∧
        w.heed (q, u) = w.move c m.character u.time report.position) ∨
      (∀ m c report, ¬ w.Accepts q u m c report) ∧ w.heed (q, u) = w := by
  by_cases h : ∃ m c report, w.Accepts q u m c report
  · obtain ⟨m, c, report, h⟩ := h
    exact Or.inl ⟨m, c, report, h, heed_of_accepts h⟩
  · have hn : ∀ m c report, ¬ w.Accepts q u m c report := fun m c report hacc =>
      h ⟨m, c, report, hacc⟩
    refine Or.inr ⟨hn, ?_⟩
    unfold heed
    split
    · next out ho => exact ownUpdate_of_not_accepts hn ho
    · rfl

theorem heed_eq (w : World) (r : PlayerId × OwnUpdate) :
    w.heed r = { w with characters := (w.heed r).characters } := by
  obtain ⟨m, c, report, -, h⟩ | ⟨-, h⟩ := w.heed_cases r.1 r.2
  · rw [show w.heed r = _ from h]
    rfl
  · rw [show w.heed r = w from h]

theorem heedAll_eq (w : World) (rs : List (PlayerId × OwnUpdate)) :
    w.heedAll rs = { w with characters := (w.heedAll rs).characters } := by
  induction rs using List.reverseRecOn with
  | nil => rfl
  | append_singleton rs r ih =>
    rw [heedAll_concat, heed_eq, ih]

def Counts (w : World) (rs : List (PlayerId × OwnUpdate)) (k : EntityId) (c : Character)
    (u : OwnUpdate) (report : PositionReport) : Prop :=
  ∃ q m, (q, u) ∈ rs ∧ u.entity = k ∧ w.Accepts q u m c report

/-- A character, and what the newest of the reports that count for it makes of it. -/
inductive Latest (w : World) (rs : List (PlayerId × OwnUpdate)) (k : EntityId) (c : Character) :
    Character → Prop
  | unmoved (h : ∀ u report, ¬ w.Counts rs k c u report) : Latest w rs k c c
  | moved {u : OwnUpdate} {report : PositionReport} (h : w.Counts rs k c u report)
      (hmax : ∀ u' report', w.Counts rs k c u' report' → u'.time ≤ u.time) :
      Latest w rs k c (c.moved u.time report.position)

theorem counts_congr (h : ∀ r, r ∈ ys ↔ r ∈ xs) :
    w.Counts ys k c u report ↔ w.Counts xs k c u report := by
  simp only [Counts, h]

theorem Latest.congr (h : ∀ r, r ∈ ys ↔ r ∈ xs) (hl : w.Latest ys k c c') :
    w.Latest xs k c c' := by
  cases hl with
  | unmoved hn => exact .unmoved fun u report hc => hn u report ((counts_congr h).mpr hc)
  | moved hc hmax =>
    exact .moved ((counts_congr h).mp hc) fun u' report' hc' =>
      hmax u' report' ((counts_congr h).mpr hc')

theorem Latest.le (h : w.Latest rs k c c') :
    c.presence.lastUpdate ≤ c'.presence.lastUpdate ∧
      ∀ u report, w.Counts rs k c u report → u.time ≤ c'.presence.lastUpdate := by
  cases h with
  | unmoved hn => exact ⟨UInt64.le_refl _, fun u report hc => absurd hc (hn u report)⟩
  | moved hc hmax =>
    obtain ⟨q, m, -, -, hacc⟩ := hc
    exact ⟨UInt64.le_of_lt hacc.newer, hmax⟩

/-- What a world accepts after other reports it would have accepted at first, and it is newer
than they. -/
theorem accepts_iff (hv : v = { w with characters := v.characters })
    (hc : w.characters.get? k = some c) (hc' : v.characters.get? k = some c')
    (hle : c.presence.lastUpdate ≤ c'.presence.lastUpdate) (hk : u.entity = k) :
    v.Accepts q u m c' report ↔
      w.Accepts q u m c report ∧ c'.presence.lastUpdate < u.time := by
  have hm : v.members = w.members := by rw [hv]
  have hn : v.name = w.name := by rw [hv]
  constructor
  · rintro ⟨hmem, hown, -, hwhole, hhere, hnew⟩
    exact ⟨⟨hm ▸ hmem, hown, (hown.symm.trans hk) ▸ hc, hwhole, hn ▸ hhere,
      UInt64.lt_of_le_of_lt hle hnew⟩, hnew⟩
  · rintro ⟨⟨hmem, hown, -, hwhole, hhere, -⟩, hnew⟩
    exact ⟨hm ▸ hmem, hown, (hown.symm.trans hk) ▸ hc', hwhole, hn ▸ hhere, hnew⟩

theorem counts_concat : w.Counts (rs ++ [(q, u)]) k c u' report ↔
    w.Counts rs k c u' report ∨ u' = u ∧ u.entity = k ∧ ∃ m, w.Accepts q u m c report := by
  constructor
  · rintro ⟨q', m, hmem, hk, hacc⟩
    rcases List.mem_append.mp hmem with hmem | hmem
    · exact Or.inl ⟨q', m, hmem, hk, hacc⟩
    · cases List.mem_singleton.mp hmem
      exact Or.inr ⟨rfl, hk, m, hacc⟩
  · rintro (⟨q', m, hmem, hk, hacc⟩ | ⟨rfl, hk, m, hacc⟩)
    · exact ⟨q', m, List.mem_append_left _ hmem, hk, hacc⟩
    · exact ⟨q, m, List.mem_append_right _ (List.mem_singleton_self _), hk, hacc⟩

theorem get?_heed_of_not_accepts (hc : v.characters.get? k = some c)
    (h : ∀ m report, u.entity = k → ¬ v.Accepts q u m c report) :
    (v.heed (q, u)).characters.get? k = some c := by
  obtain ⟨m, d, report, hacc, hv⟩ | ⟨-, hv⟩ := v.heed_cases q u
  · rw [hv, move, Table.get?_insert]
    split
    · next hk =>
      obtain rfl : d = c := Option.some.inj (hacc.there.symm.trans (hk ▸ hc))
      exact absurd hacc (h m report (hacc.own.trans hk.symm))
    · exact hc
  · rw [hv]
    exact hc

theorem get?_heed_of_none (hc : v.characters.get? k = none) (r : PlayerId × OwnUpdate) :
    (v.heed r).characters.get? k = none := by
  obtain ⟨m, d, report, hacc, hv⟩ | ⟨-, hv⟩ := v.heed_cases r.1 r.2
  · rw [show v.heed r = _ from hv, move, Table.get?_insert, if_neg, hc]
    rintro rfl
    rw [hacc.there] at hc
    cases hc
  · rw [show v.heed r = v from hv]
    exact hc

theorem Latest.concat (h : w.Latest rs k c c') (hv : v = { w with characters := v.characters })
    (hc : w.characters.get? k = some c) (hc' : v.characters.get? k = some c')
    (r : PlayerId × OwnUpdate) :
    ∃ c'', (v.heed r).characters.get? k = some c'' ∧ w.Latest (rs ++ [r]) k c c'' := by
  obtain ⟨q, u⟩ := r
  obtain ⟨hle, hmax⟩ := h.le
  by_cases hnew : ∃ m report, u.entity = k ∧ v.Accepts q u m c' report
  · obtain ⟨m, report, hk, hacc⟩ := hnew
    have hcount : w.Counts (rs ++ [(q, u)]) k c u report :=
      counts_concat.mpr (Or.inr ⟨rfl, hk, m, ((accepts_iff hv hc hc' hle hk).mp hacc).1⟩)
    have hmoved : c'.moved u.time report.position = c.moved u.time report.position := by
      cases h <;> rfl
    refine ⟨c'.moved u.time report.position, ?_, hmoved ▸ .moved hcount fun u' report' hu => ?_⟩
    · rw [heed_of_accepts hacc, move, ← hacc.own, hk, Table.get?_insert_self]
    · rcases counts_concat.mp hu with hu | ⟨rfl, -⟩
      · exact UInt64.le_of_lt (UInt64.lt_of_le_of_lt (hmax u' report' hu) hacc.newer)
      · exact UInt64.le_refl _
  · have hstale {m : Member} {report : PositionReport} (hk : u.entity = k)
        (hacc : w.Accepts q u m c report) : u.time ≤ c'.presence.lastUpdate :=
      UInt64.not_lt.mp fun hlt =>
        hnew ⟨m, report, hk, (accepts_iff hv hc hc' hle hk).mpr ⟨hacc, hlt⟩⟩
    refine ⟨c', get?_heed_of_not_accepts hc' fun m report hk hacc => hnew ⟨m, report, hk, hacc⟩, ?_⟩
    cases h with
    | unmoved hn =>
      refine .unmoved fun u' report' hu => ?_
      rcases counts_concat.mp hu with hu | ⟨rfl, hk, m, hacc⟩
      · exact hn u' report' hu
      · exact absurd hacc.newer (UInt64.not_lt.mpr (hstale hk hacc))
    | moved hu₀ hmax =>
      refine .moved (counts_concat.mpr (Or.inl hu₀)) fun u' report' hu => ?_
      rcases counts_concat.mp hu with hu | ⟨rfl, hk, m, hacc⟩
      · exact hmax u' report' hu
      · exact hstale hk hacc

theorem latest_heedAll (w : World) (rs : List (PlayerId × OwnUpdate)) (k : EntityId) :
    Option.Rel (w.Latest rs k) (w.characters.get? k) ((w.heedAll rs).characters.get? k) := by
  induction rs using List.reverseRecOn with
  | nil =>
    change Option.Rel _ _ (w.characters.get? k)
    cases w.characters.get? k with
    | none => exact .none
    | some c => exact .some (.unmoved fun u report ⟨_, _, hmem, _⟩ => nomatch hmem)
  | append_singleton rs r ih =>
    -- The last report meets the character as the newest of the others has left it.
    rw [heedAll_concat]
    generalize hc : w.characters.get? k = o at ih ⊢
    generalize hc' : (w.heedAll rs).characters.get? k = o' at ih
    cases ih with
    | none =>
      rw [get?_heed_of_none hc' r]
      exact .none
    | some h =>
      obtain ⟨c'', hget, hl⟩ := h.concat (heedAll_eq w rs) hc hc' r
      rw [hget]
      exact .some hl

def Consistent (rs : List (PlayerId × OwnUpdate)) : Prop :=
  ∀ r ∈ rs, ∀ r' ∈ rs, r.2.entity = r'.2.entity → r.2.time = r'.2.time → r.2 = r'.2

theorem Latest.unique {d d' : Character} (hr : Consistent rs) (h : w.Latest rs k c d)
    (h' : w.Latest rs k c d') : d = d' := by
  cases h with
  | unmoved hn =>
    cases h' with
    | unmoved => rfl
    | moved hc => exact absurd hc (hn _ _)
  | @moved u report hc hmax =>
    cases h' with
    | unmoved hn => exact absurd hc (hn _ _)
    | @moved u' report' hc' hmax' =>
      have ht : u.time = u'.time := UInt64.le_antisymm (hmax' _ _ hc) (hmax _ _ hc')
      obtain ⟨q, m, hmem, hk, hacc⟩ := hc
      obtain ⟨q', m', hmem', hk', hacc'⟩ := hc'
      obtain rfl : u = u' := hr _ hmem _ hmem' (hk.trans hk'.symm) ht
      have hwhole := PositionReport.ofBlob_eq_ok_iff.mpr hacc.whole
      rw [PositionReport.ofBlob_eq_ok_iff.mpr hacc'.whole] at hwhole
      cases hwhole
      rfl

/-- The same reports in another order, some of them more than once, leave the same world. Only
characters are changed in it, each by the newest of the reports that count for it. -/
theorem heedAll_eq_of_mem_iff (hr : Consistent xs) (hy : ∀ r, r ∈ ys ↔ r ∈ xs) :
    w.heedAll ys = w.heedAll xs ∧
      w.heedAll xs = { w with characters := (w.heedAll xs).characters } ∧
      ∀ k, Option.Rel (w.Latest xs k) (w.characters.get? k)
        ((w.heedAll xs).characters.get? k) := by
  refine ⟨?_, heedAll_eq w xs, latest_heedAll w xs⟩
  have hc : (w.heedAll ys).characters = (w.heedAll xs).characters := by
    refine Table.ext_get? fun k => ?_
    have hxs := latest_heedAll w xs k
    have hys := latest_heedAll w ys k
    generalize w.characters.get? k = o at hxs hys
    generalize (w.heedAll xs).characters.get? k = x at hxs ⊢
    generalize (w.heedAll ys).characters.get? k = y at hys ⊢
    cases hxs with
    | none =>
      cases hys
      rfl
    | some hx =>
      cases hys with
      | some hy' => exact congrArg some ((hy'.congr hy).unique hr hx)
  rw [heedAll_eq w ys, heedAll_eq w xs, hc]

def yard : World :=
  let ann : Player := { connection := ⟨1⟩, id := ⟨1⟩, name := "ann" }
  let bob : Player := { connection := ⟨2⟩, id := ⟨2⟩, name := "bob" }
  let created := World.create { islands := [] } {} {}
  ((created.1.step (.addPlayer created.2 ann none)).1.step (.addPlayer created.2.take.2 bob none)).1

def reportOn (k : EntityId) (time : UInt64) (world : String) (position : Position) : OwnUpdate :=
  ⟨⟨1⟩, k, time, .character, PositionReport.toBlob ⟨⟨1⟩, world, position⟩⟩

def muddle : List (PlayerId × OwnUpdate) := [
  (⟨1⟩, reportOn ⟨2⟩ 9 "farm" ⟨3, 4⟩), (⟨1⟩, reportOn ⟨2⟩ 7 "farm" ⟨1, 1⟩),
  (⟨1⟩, reportOn ⟨2⟩ 12 "barn" ⟨8, 8⟩), (⟨2⟩, reportOn ⟨2⟩ 11 "farm" ⟨7, 7⟩),
  (⟨3⟩, reportOn ⟨3⟩ 10 "farm" ⟨6, 6⟩), (⟨2⟩, { reportOn ⟨3⟩ 8 "farm" ⟨5, 6⟩ with data := [0] }),
  (⟨2⟩, reportOn ⟨3⟩ 5 "farm" ⟨5, 6⟩)]

theorem heedAll_eq_of_mem_iff_yard :
    Consistent muddle ∧ (∀ r, r ∈ muddle.reverse ++ muddle ↔ r ∈ muddle) ∧
      yard.heedAll (muddle.reverse ++ muddle) = yard.heedAll muddle ∧
      ((yard.heedAll muddle).characters.get? ⟨2⟩).map (·.position) = some ⟨3, 4⟩ ∧
      ((yard.heedAll muddle).characters.get? ⟨3⟩).map (·.position) = some ⟨5, 6⟩ := by
  have hr : Consistent muddle := by
    unfold Consistent
    decide +kernel
  have hy : ∀ r, r ∈ muddle.reverse ++ muddle ↔ r ∈ muddle := by simp
  exact ⟨hr, hy, (heedAll_eq_of_mem_iff hr hy).1, by decide +kernel, by decide +kernel⟩

end World

end SharedWorld
