import SharedWorld.Proofs.Packet.RoundTrip

/-! # The frames that are packets

Reading a packet accepts exactly the frames that hold, behind a tag, the fields of that tag's
layout and nothing else. Writing the packet again gives the canonical one of all frames that
are read as it: the frame itself, unless something follows a zero byte in one of its texts.
-/

namespace SharedWorld

namespace PacketKind

theorem exists_tag_eq_iff {b : UInt8} : (∃ k : PacketKind, k.tag = b) ↔ b ≤ 14 := by
  constructor
  · rintro ⟨k, rfl⟩
    cases k <;> decide
  · intro h
    have hb : b.toNat < all.length := by
      have := UInt8.le_iff_toNat_le.mp h
      simp at this
      simp [all]
      omega
    exact ⟨_, (ofTag?_eq_some_iff.mp (List.getElem?_eq_getElem hb)).symm⟩

theorem flag_not_mem_layout (k : PacketKind) : FieldType.flag ∉ k.layout := by
  cases k <;> decide

end PacketKind

namespace Packet

variable {p : Packet} {f : Bytes} {k : PacketKind} {fields : List Bytes} {r : Record k.layout}

/-- A frame that is the kind's fields behind its tag. -/
structure Framed (f : Bytes) (k : PacketKind) (fields : List Bytes) : Prop where
  frame : Frame.Holds f k.tag fields.flatten
  forms : List.Forall₂ FieldType.Form k.layout fields

def NoNul (ts : List FieldType) (fields : List Bytes) : Prop :=
  ∀ field, (FieldType.text, field) ∈ ts.zip fields → (0 : UInt8) ∉ field.drop 4

theorem plain_iff_noNul {ts : List FieldType} (h : FieldType.flag ∉ ts) :
    (∀ e ∈ ts.zip fields, e.1.Plain e.2) ↔ NoNul ts fields := by
  constructor
  · intro hp field hm
    exact hp (.text, field) hm
  · rintro hn ⟨t, field⟩ hm
    cases t with
    | text => exact hn field hm
    | flag => exact absurd (List.of_mem_zip hm).1 h
    | _ => trivial

theorem decode_of_spells (h : Framed f k fields) (hs : Record.Spells k.layout fields r) :
    decode f = .ok (ofRecord k r) :=
  decode_eq_ok_iff.mpr ⟨k.tag, fields.flatten, h.frame,
    decodePayload_eq_ok_iff.mpr ⟨k, fields, r, rfl, rfl, hs, rfl⟩⟩

theorem exists_framed_of_decode (h : decode f = .ok p) :
    ∃ k fields r, Framed f k fields ∧ Record.Spells k.layout fields r ∧ p = ofRecord k r := by
  obtain ⟨_, _, hf, h⟩ := decode_eq_ok_iff.mp h
  obtain ⟨k, fields, r, rfl, rfl, hs, rfl⟩ := decodePayload_eq_ok_iff.mp h
  exact ⟨k, fields, r, ⟨hf, Record.forms_iff.mpr ⟨r, hs⟩⟩, hs, rfl⟩

/-- A packet that was read is written into a frame that is not longer. -/
theorem encode_of_spells (h : Framed f k fields) (hs : Record.Spells k.layout fields r) :
    ∃ f', (ofRecord k r).encode = .ok f' ∧ f'.length ≤ f.length ∧
      decode f' = .ok (ofRecord k r) ∧ (f' = f ↔ NoNul k.layout fields) := by
  obtain ⟨hle, heq⟩ := Record.write_of_spells hs
  have hf := Frame.eq_of_holds h.frame
  have hlen : f.length = Frame.headerSize + fields.flatten.length := by
    rw [hf]
    simp only [List.length_append, Word.length_encode, List.length_cons, Frame.headerSize]
    omega
  have hfits : Frame.headerSize + (ofRecord k r).payload.length ≤ Frame.maxSize := by
    rw [payload_ofRecord]
    have := h.frame.bounded
    omega
  refine ⟨_, encode_eq_ok_iff.mpr ⟨hfits, rfl⟩, ?_, ?_, ?_⟩
  · rw [hlen, payload_ofRecord]
    simp only [List.length_append, Word.length_encode, List.length_cons, Frame.headerSize]
    omega
  · rw [decode_of_encode (encode_eq_ok_iff.mpr ⟨hfits, rfl⟩), mapText_ofRecord,
      Record.mapText_of_spells hs]
  · rw [← plain_iff_noNul k.flag_not_mem_layout, ← heq, payload_ofRecord, kind_ofRecord]
    constructor
    · intro he
      rw [hf] at he
      exact (List.cons.inj (List.append_inj he (by simp)).2).2
    · intro he
      rw [he, ← hf]

/-- Which bytes are read as a packet, and how the packet is written again. -/
theorem decode_language (f : Bytes) :
    ((∃ p, decode f = .ok p) ↔ ∃ k fields, Framed f k fields) ∧
      (∀ b : UInt8, (∃ k : PacketKind, k.tag = b) ↔ b ≤ 14) ∧
      ∀ p, decode f = .ok p → ∃ f', p.encode = .ok f' ∧ f'.length ≤ f.length ∧
        decode f' = .ok p ∧ ∀ k fields, Framed f k fields → (f' = f ↔ NoNul k.layout fields) := by
  refine ⟨⟨?_, ?_⟩, fun b => PacketKind.exists_tag_eq_iff, fun p hp => ?_⟩
  · rintro ⟨p, hp⟩
    obtain ⟨k, fields, -, h, -, -⟩ := exists_framed_of_decode hp
    exact ⟨k, fields, h⟩
  · rintro ⟨k, fields, h⟩
    obtain ⟨r, hs⟩ := Record.forms_iff.mp h.forms
    exact ⟨_, decode_of_spells h hs⟩
  · obtain ⟨k, fields, r, h, hs, rfl⟩ := exists_framed_of_decode hp
    obtain ⟨f', he, hl, hd, -⟩ := encode_of_spells h hs
    refine ⟨f', he, hl, hd, fun k' fields' h' => ?_⟩
    -- Any other cut into fields is read as the same packet.
    obtain ⟨r', hs'⟩ := Record.forms_iff.mp h'.forms
    have hr := decode_of_spells h' hs'
    rw [hp] at hr
    obtain ⟨f'', he', -, -, hiff⟩ := encode_of_spells h' hs'
    rw [← Except.ok.inj hr, he] at he'
    rw [Except.ok.inj he', hiff]

/-- A chat message with stray bytes behind a zero byte, which are no text. -/
def stray : Bytes := [0, 0, 0, 13, 13, 0, 0, 0, 4, 104, 105, 0, 255]

theorem framed_stray : Framed stray .say [[0, 0, 0, 4, 104, 105, 0, 255]] := by
  have hutf8 : Text.IsUtf8 [104, 105] := Text.isUtf8_iff.mpr ⟨"hi", by decide +kernel⟩
  refine ⟨⟨by decide, by decide, by decide, by decide, by decide⟩, .cons ?_ .nil⟩
  exact ⟨[104, 105, 0, 255], ⟨by decide, by decide⟩, hutf8⟩

theorem decode_language_stray :
    (∃ p, decode stray = .ok p) ∧ ∃ f', (say "hi").encode = .ok f' ∧ f'.length ≤ stray.length ∧
      decode f' = .ok (say "hi") ∧ f' ≠ stray := by
  obtain ⟨haccepts, -, hagain⟩ := decode_language stray
  obtain ⟨f', he, hl, hd, hsame⟩ := hagain (say "hi") (by decide +kernel)
  refine ⟨haccepts.mpr ⟨_, _, framed_stray⟩, f', he, hl, hd, fun h => ?_⟩
  exact (hsame _ _ framed_stray).mp h [0, 0, 0, 4, 104, 105, 0, 255] (by decide) (by decide)

end Packet

end SharedWorld
