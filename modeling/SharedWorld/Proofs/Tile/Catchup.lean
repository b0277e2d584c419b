import Mathlib.Data.List.Forall2
import SharedWorld.Proofs.Tile.Replay

/-! # Views that keep up with their islands

A view of an island knows nothing newer than the log, whichever stages of the log it has
been given and in whichever order. Once it has been given the whole log it knows the newest
entry, and then it takes from the next stage the one new entry, if that is newer, or nothing.
-/

namespace SharedWorld

namespace TileLog

variable {log log' : TileLog} {w : TileWrite} {time : UInt64}

def Ordered (log : TileLog) : Prop := log.Pairwise fun newer older => older.time ≤ newer.time

theorem Ordered.le_head (h : Ordered (w :: log)) {older : TileWrite} (ho : older ∈ w :: log) :
    older.time ≤ w.time := by
  rcases List.mem_cons.mp ho with rfl | ho
  · exact UInt64.le_refl _
  · exact (List.pairwise_cons.mp h).1 older ho

theorem ordered_cons_logTime (h : log.Ordered) (hw : w.time = Island.logTime log time) :
    Ordered (w :: log) := by
  apply List.Pairwise.cons _ h
  intro older ho
  cases log with
  | nil => cases ho
  | cons newest log =>
    rw [hw]
    exact UInt64.le_trans (h.le_head ho) (Island.le_logTime newest log time).1

theorem Ordered.lt_logTime (h : log.Ordered) (hb : log.Bounded) (time : UInt64) :
    ∀ older ∈ log, older.time < Island.logTime log time := by
  intro older ho
  cases log with
  | nil => cases ho
  | cons newest log =>
    have hlt := (Island.le_logTime newest log time).2
    have hn := hb newest List.mem_cons_self
    exact UInt64.lt_of_le_of_lt (h.le_head ho) (hlt.resolve_right (Nat.ne_of_lt hn))

theorem Ordered.logTime_repeats (h : log.Ordered) (hb : ¬ log.Bounded) (time : UInt64) :
    ∃ newest, log.head? = some newest ∧ newest.time = Island.logTime log time ∧
      (Island.logTime log time).toNat = UInt64.size - 1 := by
  cases log with
  | nil => exact absurd nofun hb
  | cons newest log =>
    have hle := UInt64.le_iff_toNat_le.mp (Island.le_logTime newest log time).1
    have hlt := (Island.logTime (newest :: log) time).toNat_lt
    have hn : UInt64.size - 1 ≤ newest.time.toNat := by
      apply Nat.not_lt.mp
      intro hn
      apply hb
      intro older ho
      exact Nat.lt_of_le_of_lt (UInt64.le_iff_toNat_le.mp (h.le_head ho)) hn
    simp only [UInt64.size] at hn ⊢
    exact ⟨newest, rfl, UInt64.toNat_inj.mp (by omega), by omega⟩

/-- An earlier stage of a log. -/
structure Stage (old log : TileLog) : Prop where
  suffix : old <:+ log
  ordered : log.Ordered

theorem Stage.head_le {old : TileLog} (h : Stage old log) {known : TileWrite}
    (hk : old.head? = some known) :
    ∃ newest, log.head? = some newest ∧ known.time ≤ newest.time := by
  have hm := h.suffix.subset (List.mem_of_head? hk)
  cases log with
  | nil => cases hm
  | cons newest log => exact ⟨newest, rfl, h.ordered.le_head hm⟩

def Stages (old logs : List TileLog) : Prop := List.Forall₂ Stage old logs

theorem Grow.stages {old logs : List TileLog} (h : Grow old logs)
    (ho : ∀ log ∈ logs, log.Ordered) : Stages old logs :=
  List.forall₂_iff_get.mpr ⟨h.length, fun n hn hn' =>
    ⟨h.suffix n _ _ (List.getElem?_eq_getElem hn) (List.getElem?_eq_getElem hn'),
      ho _ (List.getElem_mem hn')⟩⟩

structure Counted (logs : List TileLog) : Prop where
  islands : logs.length < UInt32.size
  entries : ∀ log ∈ logs, log.length < UInt32.size

theorem Counted.of_grow {old logs : List TileLog} (h : Counted logs) (hg : Grow old logs) :
    Counted old := by
  refine ⟨hg.length ▸ h.islands, fun log hlog => ?_⟩
  obtain ⟨n, hn, rfl⟩ := List.getElem_of_mem hlog
  have hn' : n < logs.length := hg.length ▸ hn
  have hs := hg.suffix n _ _ (List.getElem?_eq_getElem hn) (List.getElem?_eq_getElem hn')
  exact Nat.lt_of_le_of_lt hs.length_le (h.entries _ (List.getElem_mem hn'))

end TileLog

namespace IslandView

variable {iv : IslandView} {old log : TileLog} {w : TileWrite}

/-- What the view knows is not newer than the log. -/
def Behind (iv : IslandView) (log : TileLog) : Prop :=
  ∀ known ∈ iv.lastKnown, ∃ newest ∈ log.head?, known ≤ newest.time

/-- The view knows the newest entry of the log. -/
def Abreast (iv : IslandView) (log : TileLog) : Prop := iv.lastKnown = log.head?.map (·.time)

def record (iv : IslandView) (w : TileWrite) : IslandView := ⟨some w.time, w :: iv.writes⟩

theorem behind_nil (log : TileLog) : (ofLog []).Behind log := nofun

theorem isFresh_iff : iv.isFresh w ↔ ∀ known ∈ iv.lastKnown, known < w.time := by
  simp [isFresh, Option.all_eq_true]

theorem fresh_eq_nil (h : ∀ newest ∈ log.head?, ¬ iv.isFresh newest) : iv.fresh log = [] := by
  cases log with
  | nil => rfl
  | cons newest log => exact List.takeWhile_cons_of_neg (h newest rfl)

theorem replay_eq_self (h : iv.fresh log = []) : iv.replay log = iv := by simp [replay, h]

theorem abreast_replay_or (iv : IslandView) (log : TileLog) :
    (iv.replay log).Abreast log ∨
      iv.replay log = iv ∧ ∀ newest ∈ log.head?, ¬ iv.isFresh newest := by
  cases log with
  | nil => exact Or.inr ⟨rfl, nofun⟩
  | cons newest log =>
    by_cases h : iv.isFresh newest
    · simp [replay, fresh, List.takeWhile_cons_of_pos h, Abreast]
    · refine Or.inr ⟨replay_eq_self (List.takeWhile_cons_of_neg h), ?_⟩
      rintro _ ⟨⟩
      exact h

theorem Behind.replay (h : iv.Behind log) (hs : old.Stage log) : (iv.replay old).Behind log := by
  obtain ha | ⟨he, -⟩ := abreast_replay_or iv old
  · intro known hk
    rw [ha] at hk
    obtain ⟨newest, hn, rfl⟩ := Option.map_eq_some_iff.mp hk
    exact hs.head_le hn
  · rw [he]
    exact h

theorem Behind.abreast (h : iv.Behind log) : (iv.replay log).Abreast log := by
  obtain ha | ⟨he, hf⟩ := abreast_replay_or iv log
  · exact ha
  rw [he, Abreast]
  -- What is not newer than the knowledge, and not older, is what is known.
  cases hk : iv.lastKnown with
  | none =>
    cases hl : log.head? with
    | none => rfl
    | some newest => exact absurd (isFresh_iff.mpr (by rw [hk]; nofun)) (hf newest hl)
  | some known =>
    obtain ⟨newest, hn, hle⟩ := h known hk
    have hge : newest.time ≤ known := by
      apply UInt64.not_lt.mp
      intro hlt
      apply hf newest hn
      rw [isFresh_iff, hk]
      rintro _ ⟨⟩
      exact hlt
    rw [hn, UInt64.le_antisymm hle hge]
    rfl

theorem Abreast.fresh_stage (h : iv.Abreast log) (hs : old.Stage log) : iv.fresh old = [] := by
  apply fresh_eq_nil
  intro known hk hf
  obtain ⟨newest, hn, hle⟩ := hs.head_le hk
  have hlt := isFresh_iff.mp hf newest.time (by rw [h, hn]; rfl)
  exact UInt64.not_le.mpr hlt hle

theorem Abreast.fresh_newer (h : iv.Abreast log) (hw : ∀ older ∈ log, older.time < w.time) :
    iv.fresh (w :: log) = [w] := by
  have hf : iv.isFresh w := by
    rw [isFresh_iff, h]
    intro known hk
    obtain ⟨newest, hn, rfl⟩ := Option.map_eq_some_iff.mp hk
    exact hw newest (List.mem_of_head? hn)
  rw [fresh, List.takeWhile_cons_of_pos hf]
  apply congrArg (w :: ·)
  apply fresh_eq_nil
  intro newest hn hf
  exact UInt64.lt_irrefl _ (isFresh_iff.mp hf newest.time (by rw [h, hn]; rfl))

theorem Abreast.replay_newer (h : iv.Abreast log) (hw : ∀ older ∈ log, older.time < w.time) :
    iv.replay (w :: log) = iv.record w := by
  simp [replay, h.fresh_newer hw, record]

/-- An entry that repeats the newest time is not taken. -/
theorem Abreast.fresh_repeated (h : iv.Abreast log) {newest : TileWrite}
    (hn : log.head? = some newest) (hw : newest.time = w.time) : iv.fresh (w :: log) = [] := by
  apply fresh_eq_nil
  rintro _ ⟨⟩ hf
  have := isFresh_iff.mp hf newest.time (by rw [h, hn]; rfl)
  exact UInt64.lt_irrefl _ (hw ▸ this)

variable {islands : List IslandView} {lot logs : List TileLog} {n : Nat}

theorem forall₂_replay {R T : IslandView → TileLog → Prop} {S : TileLog → TileLog → Prop}
    (h : List.Forall₂ R islands logs) (hs : List.Forall₂ S lot logs)
    (ht : ∀ {iv old log}, R iv log → S old log → T (iv.replay old) log) :
    List.Forall₂ T ((islands.zip lot).map fun (i, log) => i.replay log) logs := by
  induction h generalizing lot with
  | nil =>
    cases hs
    exact .nil
  | cons h _ ih =>
    cases hs with
    | cons hs hss => exact .cons (ht h hs) (ih hss)

theorem stages_of_abreast (h : List.Forall₂ Abreast islands logs) (hs : TileLog.Stages lot logs) :
    (islands.zip lot).flatMap (fun (i, log) => i.fresh log) = [] ∧
      (islands.zip lot).map (fun (i, log) => i.replay log) = islands := by
  induction h generalizing lot with
  | nil => exact ⟨rfl, rfl⟩
  | cons h _ ih =>
    cases hs with
    | cons hs hss =>
      obtain ⟨hf, hm⟩ := ih hss
      have hn := h.fresh_stage hs
      simp [hf, hm, hn, replay_eq_self hn]

theorem set_of_abreast (h : List.Forall₂ Abreast islands logs) (hs : TileLog.Stages logs logs)
    (hlog : logs[n]? = some log) (hiv : islands[n]? = some iv) :
    (islands.zip (logs.set n (w :: log))).flatMap (fun (i, log) => i.fresh log) =
        iv.fresh (w :: log) ∧
      (islands.zip (logs.set n (w :: log))).map (fun (i, log) => i.replay log) =
        islands.set n (iv.replay (w :: log)) := by
  induction h generalizing n with
  | nil => cases hlog
  | cons h ha ih =>
    cases hs with
    | cons hs hss =>
      cases n with
      | zero =>
        cases hlog
        cases hiv
        obtain ⟨hf, hm⟩ := stages_of_abreast ha hss
        simp [hf, hm]
      | succ n =>
        obtain ⟨hf, hm⟩ := ih hss hlog hiv
        have hn := h.fresh_stage hs
        simp [hf, hm, hn, replay_eq_self hn]

end IslandView

namespace TileView

variable {v : TileView} {lot logs : List TileLog} {n : Nat}

def feed (v : TileView) : List Bytes → Except WorldError TileView
  | [] => .ok v
  | data :: rest => do (← v.apply data).1.feed rest

def Behind (v : TileView) (logs : List TileLog) : Prop :=
  List.Forall₂ IslandView.Behind (v.grown logs.length) logs

def Abreast (v : TileView) (logs : List TileLog) : Prop :=
  List.Forall₂ IslandView.Abreast v.islands logs

theorem behind_nil (logs : List TileLog) : Behind {} logs := by
  rw [Behind, grown_nil]
  refine List.forall₂_iff_get.mpr ⟨by simp, fun n _ hl => ?_⟩
  simpa using IslandView.behind_nil logs[n]

theorem grown_of_le (h : n ≤ v.islands.length) : v.grown n = v.islands := by
  rw [grown, Nat.sub_eq_zero_of_le h, List.replicate_zero, List.append_nil]

theorem apply_of_counted (hc : TileLog.Counted lot)
    (hg : (v.grown lot.length).length = lot.length) :
    v.apply (TileLog.writeAll lot) =
      .ok (⟨((v.grown lot.length).zip lot).map fun (i, log) => i.replay log⟩,
        (((v.grown lot.length).zip lot).flatMap fun (i, log) => i.fresh log).length) := by
  unfold apply
  rw [TileLog.readAll_writeAll hc.islands hc.entries]
  dsimp only
  rw [List.drop_of_length_le (Nat.le_of_eq hg), List.append_nil]

theorem Behind.apply (h : v.Behind logs) (hs : TileLog.Stages lot logs)
    (hc : TileLog.Counted lot) : ∃ v' k, v.apply (TileLog.writeAll lot) = .ok (v', k) ∧
      v'.Behind logs ∧ (lot = logs → v'.Abreast logs) := by
  have hlen : (v.grown lot.length).length = lot.length := by rw [hs.length_eq]; exact h.length_eq
  refine ⟨_, _, apply_of_counted hc hlen, ?_, ?_⟩
  · have hb := IslandView.forall₂_replay h hs IslandView.Behind.replay
    rw [← hs.length_eq] at hb
    rw [Behind, grown_of_le (Nat.le_of_eq (by simpa [hs.length_eq] using hb.length_eq.symm))]
    exact hb
  · rintro rfl
    apply IslandView.forall₂_replay h (List.forall₂_same.mpr fun log _ => Eq.refl log)
    rintro iv _ log hb rfl
    exact hb.abreast

theorem Abreast.apply (h : v.Abreast logs) (hs : TileLog.Stages lot logs)
    (hc : TileLog.Counted lot) : v.apply (TileLog.writeAll lot) = .ok (v, 0) := by
  have hg : v.grown lot.length = v.islands := by
    rw [hs.length_eq]
    exact grown_of_le (Nat.le_of_eq h.length_eq.symm)
  obtain ⟨hf, hm⟩ := IslandView.stages_of_abreast h hs
  rw [apply_of_counted hc (by rw [hg, h.length_eq, hs.length_eq]), hg, hf, hm]
  rfl

theorem Abreast.apply_set {iv : IslandView} {log : TileLog} {w : TileWrite} (h : v.Abreast logs)
    (hs : TileLog.Stages logs logs) (hlog : logs[n]? = some log) (hiv : v.island? n = some iv)
    (hc : TileLog.Counted (logs.set n (w :: log))) :
    v.apply (TileLog.writeAll (logs.set n (w :: log))) =
      .ok (⟨v.islands.set n (iv.replay (w :: log))⟩, (iv.fresh (w :: log)).length) := by
  have hg : v.grown (logs.set n (w :: log)).length = v.islands := by
    rw [List.length_set]
    exact grown_of_le (Nat.le_of_eq h.length_eq.symm)
  obtain ⟨hf, hm⟩ := IslandView.set_of_abreast (w := w) h hs hlog hiv
  rw [apply_of_counted hc (by rw [hg, List.length_set, h.length_eq]), hg, hf, hm]

theorem Abreast.island {log : TileLog} (h : v.Abreast logs) (hlog : logs[n]? = some log) :
    ∃ iv, v.island? n = some iv ∧ iv.Abreast log := by
  obtain ⟨hn, rfl⟩ := List.getElem?_eq_some_iff.mp hlog
  have hn' : n < v.islands.length := h.length_eq ▸ hn
  exact ⟨v.islands[n], List.getElem?_eq_getElem hn', (List.forall₂_iff_get.mp h).2 n hn' hn⟩

theorem Abreast.feed {lots : List (List TileLog)} (h : v.Abreast logs)
    (hs : ∀ lot ∈ lots, TileLog.Stages lot logs ∧ TileLog.Counted lot) :
    v.feed (lots.map TileLog.writeAll) = .ok v := by
  induction lots with
  | nil => rfl
  | cons lot lots ih =>
    obtain ⟨hl, hs⟩ := List.forall_mem_cons.mp hs
    rw [List.map_cons, TileView.feed, h.apply hl.1 hl.2]
    exact ih hs

/-- Whatever stages a view is given, it is abreast once the logs themselves are among them. -/
theorem Behind.feed {lots : List (List TileLog)} (h : v.Behind logs)
    (hs : ∀ lot ∈ lots, TileLog.Stages lot logs ∧ TileLog.Counted lot) (hm : logs ∈ lots) :
    ∃ v', v.feed (lots.map TileLog.writeAll) = .ok v' ∧ v'.Abreast logs := by
  induction lots generalizing v with
  | nil => cases hm
  | cons lot lots ih =>
    obtain ⟨hl, hs⟩ := List.forall_mem_cons.mp hs
    obtain ⟨v', k, hv, hb, ha⟩ := h.apply hl.1 hl.2
    rw [List.map_cons, TileView.feed, hv]
    rcases List.mem_cons.mp hm with he | hm
    · exact ⟨v', (ha he.symm).feed hs, ha he.symm⟩
    · exact ih hb hs hm

end TileView

end SharedWorld
