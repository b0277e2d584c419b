import SharedWorld.Proofs.Wire.Field
import SharedWorld.Tile.Entry

/-! # Reading back change logs

A reader that is run as often as values were written reads off all of them. So the logs
of the islands come back from their bytes, as long as their counts fit into 32 bits.
-/

namespace SharedWorld

variable {α : Type}

theorem Reader.reads_times {r : Reader α} {write : α → Bytes} {as : List α}
    (h : ∀ a ∈ as, r.Reads (write a) a) (acc : List α) :
    (r.times as.length acc).Reads (as.flatMap write) (acc.reverse ++ as) := by
  induction as generalizing acc with
  | nil =>
    intro rest
    rw [List.append_nil]
    rfl
  | cons a as ih =>
    intro rest
    have ha := h a List.mem_cons_self (as.flatMap write ++ rest)
    have has := ih (fun b hb => h b (List.mem_cons_of_mem _ hb)) (a :: acc) rest
    rw [List.reverse_cons, List.append_assoc, List.singleton_append] at has
    rw [List.flatMap_cons, List.append_assoc, List.length_cons, times, ha]
    exact has

theorem Reader.reads_counted {r : Reader α} {write : α → Bytes} {as : List α}
    (hc : as.length < UInt32.size) (h : ∀ a ∈ as, r.Reads (write a) a) :
    Reads (do r.times (← word 4) []) (Word.encode 4 as.length ++ as.flatMap write) as :=
  (reads_word hc).bind (reads_times h [])

theorem TileWrite.reads_write (w : TileWrite) : TileWrite.read.Reads w.write w :=
  (Record.reads_write rfl _).map rfl

theorem TileWrite.length_write (w : TileWrite) : w.write.length = 19 := by
  simp [write, Record.write, FieldType.write]

theorem TileLog.reads_write {log : TileLog} (h : log.length < UInt32.size) :
    TileLog.read.Reads log.write log :=
  Reader.reads_counted h fun w _ => w.reads_write

theorem TileLog.readAll_writeAll {logs : List TileLog} (hc : logs.length < UInt32.size)
    (h : ∀ log ∈ logs, log.length < UInt32.size) :
    readAll (writeAll logs) = (.ok logs, []) := by
  have hr : Reader.Reads readAll (writeAll logs) logs :=
    Reader.reads_counted hc fun log hl => reads_write (h log hl)
  have := hr []
  rwa [List.append_nil] at this

end SharedWorld
