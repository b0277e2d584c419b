import SharedWorld.Wire.Field
import SharedWorld.Wire.Word

/-! # Reading back what was written

A reader reads a value off bytes when it takes exactly these bytes, whatever comes after
them. Readers in sequence read off bytes in sequence, so a record of fields of fixed
width comes back from its own bytes.
-/

namespace SharedWorld

namespace Reader

variable {α β : Type} {r : Reader α} {bs bs' : Bytes} {a : α} {b : β}

def Reads (r : Reader α) (bs : Bytes) (a : α) : Prop := ∀ rest, r (bs ++ rest) = (.ok a, rest)

theorem reads_pure (a : α) : Reads (pure a) [] a := fun _ => rfl

theorem Reads.bind {f : α → Reader β} (h : r.Reads bs a) (hf : (f a).Reads bs' b) :
    (r >>= f).Reads (bs ++ bs') b := by
  intro rest
  rw [List.append_assoc, bind_of_ok (h (bs' ++ rest))]
  exact hf rest

theorem Reads.map {f : α → β} (h : r.Reads bs a) (hf : f a = b) :
    Reads (do let a ← r; pure (f a)) bs b := by
  have := h.bind (f := fun a => pure (f a)) (reads_pure (f a))
  rwa [List.append_nil, hf] at this

theorem reads_take (bs : Bytes) : (take bs.length).Reads bs bs := by
  intro rest
  simp [take]

theorem reads_word {n v : Nat} (h : v < Word.size n) : (word n).Reads (Word.encode n v) v := by
  have ht := reads_take (Word.encode n v)
  rw [Word.length_encode] at ht
  refine ht.map ?_
  rw [Word.decode_encode, Nat.mod_eq_of_lt h]

end Reader

namespace FieldType

def isFixed : FieldType → Bool
  | text | blob => false
  | _ => true

theorem reads_write {t : FieldType} (h : t.isFixed) (v : t.Value) :
    t.read.Reads (t.write v) v := by
  cases t with
  | u8 => exact (Reader.reads_word v.toNat_lt).map UInt8.ofNat_toNat
  | u16 => exact (Reader.reads_word v.toNat_lt).map UInt16.ofNat_toNat
  | u32 => exact (Reader.reads_word v.toNat_lt).map UInt32.ofNat_toNat
  | u64 => exact (Reader.reads_word v.toNat_lt).map UInt64.ofNat_toNat
  | i32 =>
    refine (Reader.reads_word v.toUInt32.toNat_lt).map ?_
    rw [UInt32.ofNat_toNat, Int32.toInt32_toUInt32]
  | flag => cases v <;> intro rest <;> rfl
  | text => cases h
  | blob => cases h
  | entityType => cases v <;> intro rest <;> rfl

end FieldType

theorem Record.reads_write {ts : List FieldType} (h : ts.all FieldType.isFixed) (r : Record ts) :
    (Record.read ts).Reads (Record.write ts r) r := by
  induction ts with
  | nil => exact Reader.reads_pure ()
  | cons t ts ih =>
    obtain ⟨ht, hts⟩ := Bool.and_eq_true_iff.mp h
    obtain ⟨v, vs⟩ := r
    exact (FieldType.reads_write ht v).bind ((ih hts vs).map rfl)

end SharedWorld
