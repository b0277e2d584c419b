import Mathlib.Algebra.GroupWithZero.Nat
import Mathlib.Data.Set.List
import SharedWorld.Proofs.Tile.Fresh
import SharedWorld.Proofs.Wire.Grammar

/-! # The bytes that are change logs

A view accepts exactly a count of blocks and as many blocks, each a count of entries and as
many entries of 19 bytes. Any other bytes leave it as it was, even when it is changed in place.
Each block is replayed on its own island, and the same bytes bring nothing a second time.
-/

namespace SharedWorld

namespace Reader

variable {α : Type} {r : Reader α} {Q : α → Prop} {write : α → Bytes}

theorem recognizes_times (h : r.Recognizes fun front a => Q a ∧ front = write a) (n : Nat)
    (acc : List α) : (r.times n acc).Recognizes fun front as =>
      ∃ more, as = acc.reverse ++ more ∧ more.length = n ∧ (∀ a ∈ more, Q a) ∧
        front = more.flatMap write := by
  induction n generalizing acc with
  | zero =>
    refine (recognizes_pure acc.reverse).congr fun front as => ?_
    constructor
    · rintro ⟨rfl, rfl⟩
      exact ⟨[], by simp⟩
    · rintro ⟨more, rfl, hl, -, rfl⟩
      simp [List.length_eq_zero_iff.mp hl]
  | succ n ih =>
    refine (h.bind fun a => ih (a :: acc)).congr fun front as => ?_
    constructor
    · rintro ⟨a, _, _, rfl, ⟨ha, rfl⟩, more, rfl, rfl, hm, rfl⟩
      exact ⟨a :: more, by simp, by simp, List.forall_mem_cons.mpr ⟨ha, hm⟩, rfl⟩
    · rintro ⟨more, rfl, hl, hm, rfl⟩
      obtain ⟨a, more, rfl⟩ := List.exists_cons_of_length_eq_add_one hl
      obtain ⟨ha, hm⟩ := List.forall_mem_cons.mp hm
      exact ⟨a, write a, more.flatMap write, rfl, ⟨ha, rfl⟩, more, by simp, by simpa using hl, hm,
        rfl⟩

theorem recognizes_counts (h : r.Recognizes fun front a => Q a ∧ front = write a) :
    Recognizes (do r.times (← word 4) []) fun front as =>
      (as.length < UInt32.size ∧ ∀ a ∈ as, Q a) ∧
        front = Word.encode 4 as.length ++ as.flatMap write := by
  refine ((recognizes_word 4).bind fun n => recognizes_times h n []).congr fun front as => ?_
  constructor
  · rintro ⟨_, _, _, rfl, ⟨hn, rfl⟩, as, rfl, rfl, has, rfl⟩
    exact ⟨⟨hn, has⟩, rfl⟩
  · rintro ⟨⟨hn, has⟩, rfl⟩
    exact ⟨_, _, _, rfl, ⟨hn, rfl⟩, as, rfl, rfl, has, rfl⟩

end Reader

theorem Record.exists_forms {ts : List FieldType} {widths : List Nat}
    (h : List.Forall₂ (fun t n => ∀ f : Bytes, f.length = n → t.Form f) ts widths) {front : Bytes}
    (hl : front.length = widths.sum) :
    ∃ fields, front = fields.flatten ∧ List.Forall₂ FieldType.Form ts fields := by
  induction h generalizing front with
  | nil => exact ⟨[], List.length_eq_zero_iff.mp hl, .nil⟩
  | @cons t n ts widths ht _ ih =>
    rw [List.sum_cons] at hl
    have hd : (front.drop n).length = widths.sum := by simp [hl]
    obtain ⟨fields, hf, hfs⟩ := ih hd
    refine ⟨front.take n :: fields, ?_, .cons (ht _ (by simp [hl])) hfs⟩
    rw [List.flatten_cons, ← hf, List.take_append_drop]

namespace TileWrite

theorem write_of_spells {fields : List Bytes} {r : Record layout}
    (h : Record.Spells layout fields r) : Record.write layout r = fields.flatten := by
  refine (Record.write_of_spells h).2.mpr ?_
  rintro ⟨t, f⟩ he
  have ht := (List.of_mem_zip he).1
  simp only [List.mem_cons, List.not_mem_nil, or_false] at ht
  obtain rfl | rfl | rfl | rfl | rfl := ht <;> trivial

theorem exists_write_iff {front : Bytes} : (∃ w : TileWrite, w.write = front) ↔ front.length = 19 := by
  constructor
  · rintro ⟨w, rfl⟩
    exact w.length_write
  · intro h
    have hw : List.Forall₂ (fun t n => ∀ f : Bytes, f.length = n → FieldType.Form t f) layout
        [1, 4, 4, 8, 2] :=
      .cons (fun _ => id) (.cons (fun _ => id) (.cons (fun _ => id) (.cons (fun _ => id)
        (.cons (fun _ => id) .nil))))
    obtain ⟨fields, rfl, hf⟩ := Record.exists_forms hw h
    obtain ⟨⟨layer, x, y, time, plot, ⟨⟩⟩, hr⟩ := Record.forms_iff.mp hf
    exact ⟨⟨layer, x, y, time, plot⟩, write_of_spells hr⟩

theorem recognizes_read : read.Recognizes fun front w => True ∧ front = w.write := by
  intro bs w rest
  constructor
  · intro h
    obtain ⟨_, rfl, r, ⟨fields, rfl, hr⟩, rfl⟩ :=
      ((Record.recognizes_read layout).map bs w rest).mp h
    exact ⟨_, rfl, trivial, (write_of_spells hr).symm⟩
  · rintro ⟨_, rfl, -, rfl⟩
    exact reads_write w rest

end TileWrite

namespace TileLog

variable {logs : List TileLog} {data : Bytes}

theorem recognizes_read :
    read.Recognizes fun front log => log.length < UInt32.size ∧ front = log.write := by
  refine (Reader.recognizes_counts TileWrite.recognizes_read).congr fun front log => ?_
  simp [write]

theorem recognizes_readAll :
    readAll.Recognizes fun front logs => Counted logs ∧ front = writeAll logs := by
  refine (Reader.recognizes_counts recognizes_read).congr fun front logs => ?_
  rw [writeAll]
  exact and_congr_left fun _ => ⟨fun h => ⟨h.1, h.2⟩, fun h => ⟨h.islands, h.entries⟩⟩

theorem readAll_eq_ok_iff : readAll data = (.ok logs, []) ↔ Counted logs ∧ data = writeAll logs := by
  rw [recognizes_readAll]
  constructor
  · rintro ⟨front, rfl, hc, rfl⟩
    exact ⟨hc, by rw [List.append_nil]⟩
  · rintro ⟨hc, rfl⟩
    exact ⟨_, (List.append_nil _).symm, hc, rfl⟩

theorem writeAll_injective {logs' : List TileLog} (h : Counted logs) (h' : Counted logs')
    (he : writeAll logs = writeAll logs') : logs = logs' := by
  have hr := readAll_writeAll h.islands h.entries
  rw [he, readAll_writeAll h'.islands h'.entries] at hr
  exact (Except.ok.inj (Prod.mk.inj hr).1).symm

/-- The bytes are a count of blocks and as many blocks, each a count of entries and as many
entries of 19 bytes. -/
structure Blocks (data : Bytes) (blocks : List (List Bytes)) : Prop where
  islands : blocks.length < UInt32.size
  entries : ∀ block ∈ blocks, block.length < UInt32.size
  widths : ∀ block ∈ blocks, ∀ entry ∈ block, entry.length = 19
  data : data = Word.encode 4 blocks.length ++
    blocks.flatMap fun block => Word.encode 4 block.length ++ block.flatten

def entryBytes (logs : List TileLog) : List (List Bytes) := logs.map (·.map TileWrite.write)

theorem blocks_entryBytes (h : Counted logs) : Blocks (writeAll logs) (entryBytes logs) := by
  refine ⟨?_, ?_, ?_, ?_⟩
  · simpa [entryBytes] using h.islands
  · simpa [entryBytes] using h.entries
  · simp only [entryBytes, List.forall_mem_map]
    exact fun log _ w _ => w.length_write
  · rw [writeAll, entryBytes, List.length_map, List.flatMap_map]
    refine congrArg _ (List.flatMap_congr fun log _ => ?_)
    rw [List.length_map]
    rfl

theorem exists_entryBytes {blocks : List (List Bytes)}
    (h : ∀ block ∈ blocks, ∀ entry ∈ block, entry.length = 19) :
    ∃ logs, entryBytes logs = blocks := by
  change blocks ∈ Set.range (List.map (List.map TileWrite.write))
  rw [Set.range_list_map]
  intro block hb
  rw [Set.range_list_map]
  exact fun entry he => TileWrite.exists_write_iff.mpr (h block hb entry he)

theorem blocks_iff {blocks : List (List Bytes)} :
    Blocks data blocks ↔ ∃ logs, Counted logs ∧ data = writeAll logs ∧ blocks = entryBytes logs := by
  constructor
  · intro h
    obtain ⟨logs, rfl⟩ := exists_entryBytes h.widths
    have hc : Counted logs :=
      ⟨by simpa [entryBytes] using h.islands, by simpa [entryBytes] using h.entries⟩
    exact ⟨logs, hc, h.data.trans (blocks_entryBytes hc).data.symm, rfl⟩
  · rintro ⟨logs, hc, rfl, rfl⟩
    exact blocks_entryBytes hc

end TileLog

namespace IslandView

/-- Each log is replayed on its own island in place, one after the other. Returns how many
entries were written. -/
def replayEach : List IslandView → List TileLog → List IslandView × Nat
  | island :: islands, log :: logs =>
    let (island, applied) := island.replayInPlace log
    let (islands, count) := replayEach islands logs
    (island :: islands, applied.length + count)
  | islands, _ => (islands, 0)

theorem replayEach_cons (island : IslandView) (islands : List IslandView) (log : TileLog)
    (logs : List TileLog) : replayEach (island :: islands) (log :: logs) =
      (island.replay log :: (replayEach islands logs).1,
        (island.fresh log).length + (replayEach islands logs).2) := by
  rw [replayEach, replayInPlace_eq]
  simp

theorem replayEach_nil (islands : List IslandView) : replayEach islands [] = (islands, 0) := by
  cases islands <;> rfl

theorem replayEach_eq (islands : List IslandView) (logs : List TileLog) :
    replayEach islands logs =
      ((islands.zip logs).map (fun (i, log) => i.replay log) ++ islands.drop logs.length,
        ((islands.zip logs).flatMap fun (i, log) => i.fresh log).length) := by
  induction islands generalizing logs with
  | nil => simp [replayEach]
  | cons island islands ih =>
    cases logs with
    | nil => simp [replayEach]
    | cons log logs => simp [replayEach_cons, ih]

theorem getElem?_replayEach (islands : List IslandView) (logs : List TileLog) (k : Nat) :
    (replayEach islands logs).1[k]? =
      islands[k]?.map fun island => logs[k]?.elim island island.replay := by
  induction islands generalizing logs k with
  | nil => simp [replayEach]
  | cons island islands ih =>
    cases logs with
    | nil => simp [replayEach]
    | cons log logs =>
      rw [replayEach_cons]
      cases k with
      | zero => rfl
      | succ k => exact ih logs k

theorem length_replayEach (islands : List IslandView) (logs : List TileLog) :
    (replayEach islands logs).1.length = islands.length := by
  rw [replayEach_eq]
  simp
  omega

theorem count_replayEach (islands : List IslandView) (logs : List TileLog) :
    (replayEach islands logs).2 =
      (List.zipWith (fun i log => (i.fresh log).length) islands logs).sum := by
  induction islands generalizing logs with
  | nil => rfl
  | cons island islands ih =>
    cases logs with
    | nil => rfl
    | cons log logs => rw [replayEach_cons, ih, List.zipWith_cons_cons, List.sum_cons]

theorem replayEach_again (islands : List IslandView) (logs : List TileLog) :
    replayEach (replayEach islands logs).1 logs = ((replayEach islands logs).1, 0) := by
  induction islands generalizing logs with
  | nil => rfl
  | cons island islands ih =>
    cases logs with
    | nil => simp [replayEach_nil]
    | cons log logs =>
      have hf := fresh_replay island log
      rw [replayEach_cons, replayEach_cons, ih, hf, replay_eq_self hf]
      rfl

end IslandView

namespace TileView

variable {v v' : TileView} {data : Bytes} {logs : List TileLog} {n k : Nat}

def applyInPlace (v : TileView) (data : Bytes) : TileView × Except WorldError Nat :=
  match TileLog.readAll data with
  | (.error e, _) => (v, .error (.malformedData e))
  | (.ok logs, rest) =>
    if rest ≠ [] then (v, .error (.trailingData rest.length))
    else
      let v : TileView := ⟨v.grown logs.length⟩
      let (islands, applied) := IslandView.replayEach v.islands logs
      (⟨islands⟩, .ok applied)

theorem applyInPlace_eq (v : TileView) (data : Bytes) : v.applyInPlace data =
    match v.apply data with
    | .ok (v', n) => (v', .ok n)
    | .error e => (v, .error e) := by
  unfold applyInPlace apply
  rcases TileLog.readAll data with ⟨e | logs, rest⟩
  · rfl
  · cases rest with
    | nil => simp [IslandView.replayEach_eq]
    | cons b rest => rfl

theorem apply_eq_ok_iff : v.apply data = .ok (v', n) ↔ ∃ logs, TileLog.Counted logs ∧
    data = TileLog.writeAll logs ∧
    IslandView.replayEach (v.grown logs.length) logs = (v'.islands, n) := by
  constructor
  · intro h
    unfold apply at h
    split at h
    · cases h
    · next logs hr =>
      obtain ⟨hc, hd⟩ := TileLog.readAll_eq_ok_iff.mp hr
      cases h
      exact ⟨logs, hc, hd, IslandView.replayEach_eq ..⟩
    · cases h
  · rintro ⟨logs, hc, rfl, hr⟩
    unfold apply
    rw [TileLog.readAll_writeAll hc.islands hc.entries]
    rw [IslandView.replayEach_eq] at hr
    obtain ⟨islands⟩ := v'
    obtain ⟨rfl, rfl⟩ := Prod.mk.inj hr
    rfl

theorem getElem?_grown_of_lt (h : k < n) :
    (v.grown n)[k]? = some ((v.island? k).getD default) := by
  rw [grown, island?, List.getElem?_append]
  split
  · next hk => simp [List.getElem?_eq_getElem hk]
  · next hk =>
    rw [List.getElem?_eq_none (Nat.le_of_not_lt hk), List.getElem?_replicate, if_pos (by omega)]
    rfl

theorem getElem?_grown_of_le (h : n ≤ k) : (v.grown n)[k]? = v.island? k := by
  rw [grown, island?, List.getElem?_append]
  split
  · rfl
  · next hk =>
    rw [List.getElem?_eq_none (Nat.le_of_not_lt hk), List.getElem?_replicate, if_neg (by omega)]

/-- What change logs make of a view, and how many of their entries it takes. -/
structure Absorbs (v : TileView) (logs : List TileLog) (v' : TileView) (applied : Nat) : Prop where
  own : ∀ k log, logs[k]? = some log →
    v'.island? k = some (((v.island? k).getD default).replay log)
  beyond : ∀ k, logs.length ≤ k → v'.island? k = v.island? k
  applied : applied =
    (logs.mapIdx fun k log => (((v.island? k).getD default).fresh log).length).sum

theorem absorbs_replayEach
    (h : IslandView.replayEach (v.grown logs.length) logs = (v'.islands, n)) :
    v.Absorbs logs v' n := by
  have hk (k : Nat) : v'.island? k = (v.grown logs.length)[k]?.map fun island =>
      logs[k]?.elim island island.replay := by
    rw [← IslandView.getElem?_replayEach, h, island?]
  refine ⟨fun k log hl => ?_, fun k hl => ?_, ?_⟩
  · have hlt : k < logs.length := (List.getElem?_eq_some_iff.mp hl).1
    rw [hk, getElem?_grown_of_lt hlt, hl]
    rfl
  · rw [hk, getElem?_grown_of_le hl, List.getElem?_eq_none hl]
    exact Option.map_id_apply
  · have hn : n = (IslandView.replayEach (v.grown logs.length) logs).2 := by rw [h]
    rw [hn, IslandView.count_replayEach]
    congr 1
    apply List.ext_getElem?
    intro k
    rw [List.getElem?_mapIdx, List.getElem?_zipWith]
    cases hl : logs[k]? with
    | none => cases (v.grown logs.length)[k]? <;> rfl
    | some log =>
      rw [getElem?_grown_of_lt (List.getElem?_eq_some_iff.mp hl).1]
      rfl

theorem grown_replayEach (h : IslandView.replayEach (v.grown n) logs = (v'.islands, k)) :
    v'.grown n = v'.islands := by
  have hl : v'.islands.length = (v.grown n).length := by
    rw [← IslandView.length_replayEach (v.grown n) logs, h]
  apply grown_of_le
  rw [hl, grown, List.length_append, List.length_replicate]
  omega

/-- Bytes that are change logs are taken in, each block by its own island, and all others are
refused and change nothing. -/
theorem apply_all_or_nothing (v : TileView) (data : Bytes) :
    (v.applyInPlace data = match v.apply data with
      | .ok (v', n) => (v', .ok n)
      | .error e => (v, .error e)) ∧
    ((∃ out, v.apply data = .ok out) ↔ ∃ blocks, TileLog.Blocks data blocks) ∧
    (∀ v' n, v.apply data = .ok (v', n) → v'.apply data = .ok (v', 0) ∧
      ∃ logs, (∀ blocks, TileLog.Blocks data blocks ↔ blocks = TileLog.entryBytes logs) ∧
        v.Absorbs logs v' n) ∧
    ∀ islands : List Island, TileLog.Counted (islands.map (·.log)) →
      ∃ out, v.apply (TileLog.writeAll (islands.map (·.log))) = .ok out := by
  have haccepts {logs : List TileLog} (hc : TileLog.Counted logs) :
      ∃ out, v.apply (TileLog.writeAll logs) = .ok out :=
    ⟨(⟨_⟩, _), apply_eq_ok_iff.mpr ⟨logs, hc, rfl, rfl⟩⟩
  refine ⟨applyInPlace_eq v data, ⟨?_, ?_⟩, fun v' n h => ?_, fun islands hc => haccepts hc⟩
  · rintro ⟨⟨v', n⟩, h⟩
    obtain ⟨logs, hc, hd, -⟩ := apply_eq_ok_iff.mp h
    exact ⟨_, TileLog.blocks_iff.mpr ⟨logs, hc, hd, rfl⟩⟩
  · rintro ⟨blocks, hb⟩
    obtain ⟨logs, hc, rfl, -⟩ := TileLog.blocks_iff.mp hb
    exact haccepts hc
  · obtain ⟨logs, hc, hd, hr⟩ := apply_eq_ok_iff.mp h
    have ha := IslandView.replayEach_again (v.grown logs.length) logs
    rw [hr] at ha
    refine ⟨apply_eq_ok_iff.mpr ⟨logs, hc, hd, ?_⟩, logs, fun blocks => ?_, absorbs_replayEach hr⟩
    · rw [grown_replayEach hr, ha]
    · rw [TileLog.blocks_iff]
      constructor
      · rintro ⟨logs', hc', hd', rfl⟩
        have he : logs' = logs := TileLog.writeAll_injective hc' hc (hd'.symm.trans hd)
        rw [he]
      · rintro rfl
        exact ⟨logs, hc, hd, rfl⟩

/-- The block of the first island is whole, but the second has lost its entry. -/
example :
    let data : Bytes := [0, 0, 0, 2, 0, 0, 0, 1] ++ TileWrite.write ⟨0, 1, 1, 6, 10⟩ ++ [0, 0, 0, 1]
    applyInPlace {} data = ({}, .error (.malformedData (.unexpectedEnd 1 0))) := by
  decide +kernel

end TileView

end SharedWorld
