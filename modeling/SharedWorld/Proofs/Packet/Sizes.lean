import SharedWorld.Proofs.Packet.Language

/-! # How long frames are

A packet takes a fixed number of bytes and those of the texts and the data that it carries. It
has a frame exactly when these are not more than a frame may hold.
-/

namespace SharedWorld

namespace FieldType

def size : (t : FieldType) → t.Value → Nat
  | u8, _ | flag, _ | entityType, _ => 1
  | u16, _ => 2
  | u32, _ | i32, _ => 4
  | u64, _ => 8
  | text, s => 4 + s.utf8ByteSize
  | blob, bs => 4 + bs.length

variable {t : FieldType} {v : t.Value}

theorem length_write (h : t.Fits v) : (t.write v).length = t.size v := by
  cases t with
  | text =>
    rw [(counted_write_text h).2, List.length_append, Word.length_encode, Text.length_utf8, size]
  | blob => rw [(counted_write_blob h).2, List.length_append, Word.length_encode, size]
  | flag => rfl
  | entityType => rfl
  | _ => exact Word.length_encode ..

theorem fits_of_size_lt (h : t.size v < UInt32.size) : t.Fits v := by
  cases t with
  | text => exact Nat.lt_of_le_of_lt (Nat.le_add_left ..) h
  | blob => exact Nat.lt_of_le_of_lt (Nat.le_add_left ..) h
  | _ => trivial

end FieldType

namespace Record

def size : (ts : List FieldType) → Record ts → Nat
  | [], _ => 0
  | t :: ts, (v, vs) => t.size v + size ts vs

theorem length_write {ts : List FieldType} {r : Record ts}
    (h : (write ts r).length < UInt32.size ∨ size ts r < UInt32.size) :
    (write ts r).length = size ts r := by
  induction ts with
  | nil => rfl
  | cons t ts ih =>
    obtain ⟨v, vs⟩ := r
    rw [write, List.length_append, size] at h ⊢
    have hv : t.Fits v := by
      obtain h | h := h
      · exact FieldType.fits_of_length_lt (Nat.lt_of_le_of_lt (Nat.le_add_right ..) h)
      · exact FieldType.fits_of_size_lt (Nat.lt_of_le_of_lt (Nat.le_add_right ..) h)
    rw [FieldType.length_write hv, ih (h.imp (by omega) (by omega))]

end Record

namespace Packet

variable {p : Packet} {frame : Bytes} {m n : Nat}

/-- The packet has a frame of `n` bytes, unless these are too many. -/
structure Takes (p : Packet) (n : Nat) : Prop where
  fits : (∃ frame, p.encode = .ok frame) ↔ n ≤ Frame.maxSize
  length : ∀ frame, p.encode = .ok frame → frame.length = n
  large : Frame.maxSize < n → ∃ m, p.encode = .error (.frameTooLarge m Frame.maxSize)

theorem length_of_encode (h : p.encode = .ok frame) :
    frame.length = Frame.headerSize + p.payload.length := by
  obtain ⟨-, rfl⟩ := encode_eq_ok_iff.mp h
  simp only [List.length_append, Word.length_encode, List.length_cons, Frame.headerSize]
  omega

theorem takes_payload (p : Packet) : p.Takes (Frame.headerSize + p.payload.length) where
  fits := by
    constructor
    · rintro ⟨frame, hf⟩
      exact (encode_eq_ok_iff.mp hf).1
    · intro h
      exact ⟨_, encode_eq_ok_iff.mpr ⟨h, rfl⟩⟩
  length _ := length_of_encode
  large h := ⟨_, if_pos h⟩

theorem Takes.congr (h : p.Takes m) (he : m ≤ Frame.maxSize ∨ n ≤ Frame.maxSize → m = n) :
    p.Takes n where
  fits := by
    rw [h.fits]
    constructor
    · intro hm
      exact he (Or.inl hm) ▸ hm
    · intro hn
      exact (he (Or.inr hn)).symm ▸ hn
  length frame hf := by
    rw [h.length frame hf]
    exact he (Or.inl (h.fits.mp ⟨frame, hf⟩))
  large hn := by
    apply h.large
    apply Nat.lt_of_not_le
    intro hm
    have hmn := he (Or.inl hm)
    omega

theorem maxSize_lt : Frame.maxSize < UInt32.size := by decide

def size : Packet → Nat
  | loadWorld w => 9 + w.utf8ByteSize
  | worldLoaded => 5
  | entityUpdate u => 30 + u.world.utf8ByteSize + u.data.length
  | setPlayer _ => 9
  | probe _ => 9
  | ownUpdate u => 26 + u.data.length
  | joined _ w => 13 + w.utf8ByteSize
  | left _ w => 13 + w.utf8ByteSize
  | removeEntity _ w => 13 + w.utf8ByteSize
  | setDetails _ w a => 33 + w.utf8ByteSize + (a.hair.utf8ByteSize + a.body.utf8ByteSize +
    a.clothesTop.utf8ByteSize + a.clothesBottom.utf8ByteSize + a.feet.utf8ByteSize)
  | authenticate u h => 13 + u.utf8ByteSize + h.utf8ByteSize
  | requestPassword u => 9 + u.utf8ByteSize
  | sendPassword u h => 13 + u.utf8ByteSize + h.utf8ByteSize
  | say m => 9 + m.utf8ByteSize
  | relayChat u m _ => 21 + u.utf8ByteSize + m.utf8ByteSize

theorem size_eq (p : Packet) : p.size = Frame.headerSize + Record.size p.kind.layout p.record := by
  cases p <;>
    simp only [size, Frame.headerSize, Record.size, FieldType.size, kind, PacketKind.layout,
      record] <;>
    omega

theorem takes_size (p : Packet) : p.Takes p.size := by
  rw [size_eq]
  apply p.takes_payload.congr
  intro h
  have hlt := maxSize_lt
  rw [payload] at h ⊢
  rw [Record.length_write (h.imp (by omega) (by omega))]

theorem takes_update {u : EntityUpdate} {ts : List FieldType} {r : Record ts}
    (hu : u.data = Record.write ts r) :
    (entityUpdate u).Takes (30 + u.world.utf8ByteSize + Record.size ts r) := by
  apply (takes_size _).congr
  intro h
  have hlt := maxSize_lt
  simp only [size, hu] at h ⊢
  rw [Record.length_write (h.imp (by omega) (by omega))]

theorem size_le_of_decode (h : decode frame = .ok p) : p.size ≤ frame.length := by
  obtain ⟨k, fields, r, hf, hs, rfl⟩ := exists_framed_of_decode h
  obtain ⟨f', he, hl, -, -⟩ := encode_of_spells hf hs
  rw [← (takes_size _).length f' he]
  exact hl

end Packet

end SharedWorld
