import SharedWorld.Packet.Codec
import SharedWorld.Proofs.Wire.Frame
import SharedWorld.Proofs.Wire.Grammar

/-! # Packets come back from their frames

A packet has a frame when its payload leaves room for the header. The frame is read as the
same packet with every text cut at its first NUL.
-/

namespace SharedWorld

theorem PacketKind.ofTag_eq_ok_iff {tag : UInt8} {k : PacketKind} :
    ofTag tag = .ok k ↔ tag = k.tag := by
  rw [← ofTag?_eq_some_iff, ofTag]
  cases ofTag? tag <;> simp

namespace Packet

variable {p : Packet} {tag : UInt8} {bs frame : Bytes}

def mapText (f : String → String) : Packet → Packet
  | loadWorld w => loadWorld (f w)
  | worldLoaded => worldLoaded
  | entityUpdate u => entityUpdate { u with world := f u.world }
  | setPlayer p => setPlayer p
  | probe p => probe p
  | ownUpdate u => ownUpdate u
  | joined p w => joined p (f w)
  | left p w => left p (f w)
  | removeEntity e w => removeEntity e (f w)
  | setDetails e w a =>
    setDetails e (f w) ⟨f a.hair, f a.body, f a.clothesTop, f a.clothesBottom, f a.feet⟩
  | authenticate u h => authenticate (f u) (f h)
  | requestPassword u => requestPassword (f u)
  | sendPassword u h => sendPassword (f u) (f h)
  | say m => say (f m)
  | relayChat u m t => relayChat (f u) (f m) t

def texts : Packet → List String
  | loadWorld w => [w]
  | worldLoaded => []
  | entityUpdate u => [u.world]
  | setPlayer _ => []
  | probe _ => []
  | ownUpdate _ => []
  | joined _ w => [w]
  | left _ w => [w]
  | removeEntity _ w => [w]
  | setDetails _ w a => [w, a.hair, a.body, a.clothesTop, a.clothesBottom, a.feet]
  | authenticate u h => [u, h]
  | requestPassword u => [u]
  | sendPassword u h => [u, h]
  | say m => [m]
  | relayChat u m _ => [u, m]

theorem mapText_ofRecord (f : String → String) (k : PacketKind) (r : Record k.layout) :
    (ofRecord k r).mapText f = ofRecord k (Record.mapText f k.layout r) := by
  cases k <;> rfl

theorem payload_ofRecord (k : PacketKind) (r : Record k.layout) :
    (ofRecord k r).payload = Record.write k.layout r := by
  cases k <;> rfl

theorem mapText_eq_self {f : String → String} (h : ∀ s ∈ p.texts, f s = s) :
    p.mapText f = p := by
  cases p <;> simp_all [mapText, texts]

theorem encode_eq_ok_iff : p.encode = .ok frame ↔
    Frame.headerSize + p.payload.length ≤ Frame.maxSize ∧
      frame = Word.encode 4 (Frame.headerSize + p.payload.length) ++ p.kind.tag :: p.payload :=
  Frame.encode_eq_ok_iff

/-- A payload is read as the record whose fields it holds, all of it. -/
theorem decodePayload_eq_ok_iff : decodePayload tag bs = .ok p ↔
    ∃ (k : PacketKind) (fields : List Bytes) (r : Record k.layout), tag = k.tag ∧
      bs = fields.flatten ∧ Record.Spells k.layout fields r ∧ p = ofRecord k r := by
  constructor
  · intro h
    unfold decodePayload at h
    cases hk : PacketKind.ofTag tag with
    | error e =>
      rw [hk] at h
      cases h
    | ok k =>
      rw [hk] at h
      dsimp only [Bind.bind, Except.bind] at h
      split at h
      · cases h
      · next r hr =>
        cases h
        obtain ⟨_, rfl, fields, rfl, hf⟩ := (Record.recognizes_read _ _ _ _).mp hr
        exact ⟨k, fields, r, PacketKind.ofTag_eq_ok_iff.mp hk, List.append_nil _, hf, rfl⟩
      · cases h
  · rintro ⟨k, fields, r, rfl, rfl, hf, rfl⟩
    have hr : Record.read k.layout fields.flatten = (.ok r, []) :=
      (Record.recognizes_read _ _ _ _).mpr ⟨_, (List.append_nil _).symm, fields, rfl, hf⟩
    unfold decodePayload
    rw [PacketKind.ofTag_eq_ok_iff.mpr rfl]
    dsimp only [Bind.bind, Except.bind]
    rw [hr]

theorem decode_eq_ok_iff : decode frame = .ok p ↔
    ∃ tag bs, Frame.Holds frame tag bs ∧ decodePayload tag bs = .ok p := by
  unfold decode
  constructor
  · intro h
    cases hf : Frame.decode frame with
    | error e =>
      rw [hf] at h
      cases h
    | ok out =>
      rw [hf] at h
      exact ⟨out.1, out.2, Frame.decode_eq_ok_iff.mp hf, h⟩
  · rintro ⟨tag, bs, hf, h⟩
    rw [Frame.decode_eq_ok_iff.mpr hf]
    exact h

theorem decode_of_encode (h : p.encode = .ok frame) :
    decode frame = .ok (p.mapText Text.untilNul) := by
  obtain ⟨hle, -⟩ := encode_eq_ok_iff.mp h
  have hsize : p.payload.length < UInt32.size := by
    have : Frame.maxSize < UInt32.size := by decide
    omega
  obtain ⟨fields, hw, hf⟩ := Record.spells_write hsize
  refine decode_eq_ok_iff.mpr ⟨p.kind.tag, p.payload,
    Frame.decode_eq_ok_iff.mp (Frame.decode_of_encode h), ?_⟩
  refine decodePayload_eq_ok_iff.mpr ⟨p.kind, fields, _, rfl, hw, hf, ?_⟩
  rw [← mapText_ofRecord, ofRecord_record]

theorem mapText_of_decode (h : decode frame = .ok p) : p.mapText Text.untilNul = p := by
  obtain ⟨tag, bs, -, h⟩ := decode_eq_ok_iff.mp h
  obtain ⟨k, fields, r, -, -, hf, rfl⟩ := decodePayload_eq_ok_iff.mp h
  rw [mapText_ofRecord, Record.mapText_of_spells hf]

/-- Every packet that fits into a frame comes back from it, each text up to its first NUL, so
unchanged when there is none. -/
theorem round_trip (p : Packet) :
    ((∃ frame, p.encode = .ok frame) ↔
        Frame.headerSize + p.payload.length ≤ Frame.maxSize) ∧
      (∀ frame, p.encode = .ok frame → decode frame = .ok (p.mapText Text.untilNul)) ∧
      ((∀ s ∈ p.texts, '\x00' ∉ s.toList) → p.mapText Text.untilNul = p) := by
  refine ⟨?_, fun frame => decode_of_encode, fun h => ?_⟩
  · simp only [encode_eq_ok_iff, exists_and_left, exists_eq, and_true]
  · exact mapText_eq_self fun s hs => Text.untilNul_eq_self_iff.mpr (h s hs)

theorem round_trip_chat :
    (∃ frame, (relayChat "ann" "hi\x00there" 5).encode = .ok frame ∧
        decode frame = .ok (relayChat "ann" "hi" 5)) ∧
      ∃ frame, (relayChat "ann" "hi" 5).encode = .ok frame ∧
        decode frame = .ok (relayChat "ann" "hi" 5) := by
  constructor
  · obtain ⟨hfits, hback, -⟩ := round_trip (relayChat "ann" "hi\x00there" 5)
    obtain ⟨frame, hf⟩ := hfits.mpr (by decide +kernel)
    have hcut : (relayChat "ann" "hi\x00there" 5).mapText Text.untilNul =
        relayChat "ann" "hi" 5 := by decide +kernel
    exact ⟨frame, hf, hcut ▸ hback frame hf⟩
  · obtain ⟨hfits, hback, hsame⟩ := round_trip (relayChat "ann" "hi" 5)
    obtain ⟨frame, hf⟩ := hfits.mpr (by decide +kernel)
    exact ⟨frame, hf, hsame (by decide +kernel) ▸ hback frame hf⟩

end Packet

end SharedWorld
