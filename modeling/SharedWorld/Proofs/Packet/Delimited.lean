import SharedWorld.Character.Blob
import SharedWorld.Proofs.Packet.RoundTrip
import SharedWorld.Proofs.Wire.Delimited

/-! # Payloads end by themselves

No payload needs its length told from outside. One that is cut short runs out, one that goes on
has a rest of exactly what is more, so of two payloads of one kind neither goes on as the other.
Blobs of character data are the same in their own errors.
-/

namespace SharedWorld

section Delimited

variable {ε α : Type} {decode : Bytes → Except ε α} {short : Nat → Nat → ε} {long : α → Nat → ε}

/-- Whatever the decoder takes it takes neither shorter nor longer, and says which it is. -/
structure Delimited (decode : Bytes → Except ε α) (short : Nat → Nat → ε)
    (long : α → Nat → ε) : Prop where
  front : ∀ bs a front, decode bs = .ok a → front <+: bs → front ≠ bs →
    ∃ needed remaining, remaining < needed ∧ decode front = .error (short needed remaining)
  more : ∀ bs a rest, decode bs = .ok a → rest ≠ [] →
    decode (bs ++ rest) = .error (long a rest.length)
  free : ∀ bs bs' a a', decode bs = .ok a → decode bs' = .ok a' → bs <+: bs' → bs = bs'

structure Decodes (ts : List FieldType) (make : Record ts → α) (wrap : WireError → ε)
    (long : α → Nat → ε) (decode : Bytes → Except ε α) : Prop where
  whole : ∀ bs a, decode bs = .ok a ↔ ∃ r, Record.read ts bs = (.ok r, []) ∧ make r = a
  failed : ∀ bs e rest, Record.read ts bs = (.error e, rest) → decode bs = .error (wrap e)
  left : ∀ bs r rest, Record.read ts bs = (.ok r, rest) → rest ≠ [] →
    decode bs = .error (long (make r) rest.length)

variable {ts : List FieldType} {make : Record ts → α} {wrap : WireError → ε}

theorem Decodes.delimited (h : Decodes ts make wrap long decode) :
    Delimited decode (fun needed remaining => wrap (.unexpectedEnd needed remaining)) long := by
  have hmore : ∀ bs a rest, decode bs = .ok a → rest ≠ [] →
      decode (bs ++ rest) = .error (long a rest.length) := by
    intro bs a rest ha hne
    obtain ⟨r, hr, rfl⟩ := (h.whole bs a).mp ha
    obtain ⟨_, rfl, hf⟩ := (Record.recognizes_read ts _ _ _).mp hr
    rw [List.append_nil]
    exact h.left _ _ _ ((Record.recognizes_read ts _ _ _).mpr ⟨_, rfl, hf⟩) hne
  refine ⟨?_, hmore, ?_⟩
  · intro bs a front ha hp hne
    obtain ⟨r, hr, -⟩ := (h.whole bs a).mp ha
    obtain ⟨_, rfl, fields, rfl, hf⟩ := (Record.recognizes_read ts _ _ _).mp hr
    rw [List.append_nil] at hp hne
    obtain ⟨needed, remaining, rest, hlt, he⟩ := hf.starves front hp hne
    exact ⟨needed, remaining, hlt, h.failed front _ rest he⟩
  · rintro bs _ a a' ha ha' ⟨rest, rfl⟩
    by_contra hne
    have hrest : rest ≠ [] := by
      rintro rfl
      exact hne (List.append_nil bs).symm
    rw [hmore bs a rest ha hrest] at ha'
    cases ha'

end Delimited

namespace Packet

theorem decodes_payload (k : PacketKind) :
    Decodes k.layout (ofRecord k) id (fun p n => .trailingBytes p.kind n)
      (decodePayload k.tag) := by
  have hk : PacketKind.ofTag k.tag = .ok k := PacketKind.ofTag_eq_ok_iff.mpr rfl
  refine ⟨fun bs p => ?_, fun bs e rest hr => ?_, fun bs r rest hr hne => ?_⟩ <;>
    unfold decodePayload <;> rw [hk] <;> dsimp only [Bind.bind, Except.bind]
  · constructor
    · intro h
      split at h
      · cases h
      · next r hr => exact ⟨r, hr, Except.ok.inj h⟩
      · cases h
    · rintro ⟨r, hr, rfl⟩
      rw [hr]
  · rw [hr]
    rfl
  · rw [hr, kind_ofRecord]
    cases rest with
    | nil => exact absurd rfl hne
    | cons => rfl

theorem delimited_payload (tag : UInt8) :
    Delimited (decodePayload tag) .unexpectedEnd fun p n => .trailingBytes p.kind n := by
  cases hk : PacketKind.ofTag tag with
  | ok k =>
    obtain rfl := PacketKind.ofTag_eq_ok_iff.mp hk
    exact (decodes_payload k).delimited
  | error e =>
    have he : ∀ bs p, decodePayload tag bs ≠ .ok p := by
      intro bs p h
      rw [decodePayload, hk] at h
      cases h
    exact ⟨fun bs p _ h => absurd h (he bs p), fun bs p _ h => absurd h (he bs p),
      fun bs _ p _ h => absurd h (he bs p)⟩

end Packet

theorem Record.decodes_ofBlob {α : Type} (ts : List FieldType) (make : Record ts → α) :
    Decodes ts make .malformedData (fun _ n => .trailingData n)
      fun blob => do return make (← Record.ofBlob ts blob) := by
  refine ⟨fun bs a => ?_, fun bs e rest hr => ?_, fun bs r rest hr hne => ?_⟩
  · unfold Record.ofBlob
    constructor
    · intro h
      split at h
      · cases h
      · next r hr => exact ⟨r, hr, Except.ok.inj h⟩
      · cases h
    · rintro ⟨r, hr, rfl⟩
      rw [hr]
      rfl
  · unfold Record.ofBlob
    rw [hr]
    rfl
  · unfold Record.ofBlob
    rw [hr]
    cases rest with
    | nil => exact absurd rfl hne
    | cons => rfl

def CharacterData.ofRecord : Record layout → CharacterData
  | (p, glide, x, y, type, ()) => ⟨⟨p⟩, glide, ⟨Fixed.toFloat x, Fixed.toFloat y⟩, type⟩

theorem CharacterData.decodes_ofBlob :
    Decodes layout ofRecord .malformedData (fun _ n => .trailingData n) ofBlob :=
  Record.decodes_ofBlob layout ofRecord

def PositionReport.ofRecord : Record layout → PositionReport
  | (p, world, x, y, ()) => ⟨⟨p⟩, world, ⟨Fixed.toFloat x, Fixed.toFloat y⟩⟩

theorem PositionReport.decodes_ofBlob :
    Decodes layout ofRecord .malformedData (fun _ n => .trailingData n) ofBlob :=
  Record.decodes_ofBlob layout ofRecord

/-- Payloads of every kind and blobs of both kinds are cut short or go on with exactly one
error each, in packets one that names the kind of the tag. -/
theorem delimited_decoders :
    (∀ tag, Delimited (Packet.decodePayload tag) .unexpectedEnd
      fun p n => .trailingBytes p.kind n) ∧
    (∀ tag bs p, Packet.decodePayload tag bs = .ok p → p.kind.tag = tag) ∧
    Delimited CharacterData.ofBlob
      (fun needed remaining => .malformedData (.unexpectedEnd needed remaining))
      (fun _ n => .trailingData n) ∧
    Delimited PositionReport.ofBlob
      (fun needed remaining => .malformedData (.unexpectedEnd needed remaining))
      (fun _ n => .trailingData n) := by
  refine ⟨Packet.delimited_payload, ?_, CharacterData.decodes_ofBlob.delimited,
    PositionReport.decodes_ofBlob.delimited⟩
  intro tag bs p h
  obtain ⟨k, fields, r, rfl, -, -, rfl⟩ := Packet.decodePayload_eq_ok_iff.mp h
  rw [Packet.kind_ofRecord]

theorem delimited_decoders_say :
    Packet.decodePayload 13 [0, 0, 0, 2, 195, 169] = .ok (.say "é") ∧
      (∃ needed remaining, remaining < needed ∧ Packet.decodePayload 13 [0, 0, 0, 2, 195] =
        .error (.unexpectedEnd needed remaining)) ∧
      Packet.decodePayload 13 [0, 0, 0, 2, 195, 169, 0, 0] = .error (.trailingBytes .say 2) := by
  have h : Packet.decodePayload 13 [0, 0, 0, 2, 195, 169] = .ok (.say "é") := by decide +kernel
  obtain ⟨hall, -⟩ := delimited_decoders
  exact ⟨h, (hall 13).front _ _ _ h (by decide) (by decide),
    (hall 13).more _ _ [0, 0] h (by decide)⟩

end SharedWorld
