import SharedWorld.Proofs.Packet.Delimited
import SharedWorld.Proofs.Position.Relay

/-! # Character data that is passed on

Data that was read from a blob and is written again keeps its player, its texts and its flag. Its
position may come back one ten-thousandth nearer to zero in a coordinate. What has been passed on
once is passed on unchanged from then on.
-/

namespace SharedWorld

namespace FieldType

variable {t : FieldType} {front : Bytes} {v : t.Value}

theorem Spells.fits (h : t.Spells front v) : t.Fits v := by
  cases t with
  | text =>
    obtain ⟨body, hc, hb⟩ := h
    have hle := (List.takeWhile_prefix (· ≠ (0 : UInt8)) (l := body)).length_le
    rw [hb, Text.length_utf8] at hle
    exact Nat.lt_of_le_of_lt hle hc.1
  | blob => exact h.1
  | _ => trivial

end FieldType

namespace Record

variable {ts : List FieldType} {r : Record ts}

/-- Every value comes back as it was written. -/
def Returns : (ts : List FieldType) → Record ts → Prop
  | [], _ => True
  | t :: ts, (v, vs) => t.Spells (t.write v) v ∧ Returns ts vs

theorem read_write (h : Returns ts r) : read ts (write ts r) = (.ok r, []) := by
  have hs : ∃ fields, write ts r = fields.flatten ∧ Spells ts fields r := by
    induction ts with
    | nil => exact ⟨[], rfl, rfl⟩
    | cons t ts ih =>
      obtain ⟨v, vs⟩ := r
      obtain ⟨fs, hw, hfs⟩ := ih h.2
      exact ⟨t.write v :: fs, by rw [write, hw]; rfl, _, _, rfl, h.1, hfs⟩
  obtain ⟨fields, hw, hf⟩ := hs
  exact (recognizes_read _ _ _ _).mpr ⟨_, (List.append_nil _).symm, fields, hw, hf⟩

theorem returns_of_read {bs : Bytes} (h : read ts bs = (.ok r, [])) : Returns ts r := by
  obtain ⟨_, -, fields, -, hf⟩ := (recognizes_read _ _ _ _).mp h
  clear h
  induction ts generalizing fields with
  | nil => trivial
  | cons t ts ih =>
    obtain ⟨f, fs, rfl, hv, hfs⟩ := hf
    have hw := FieldType.spells_write hv.fits
    rw [FieldType.mapText_of_spells hv] at hw
    exact ⟨hw, ih fs hfs⟩

end Record

theorem FieldType.spells_write_text {s : String} (h0 : '\x00' ∉ s.toList)
    (hs : s.utf8ByteSize < UInt32.size) : text.Spells (text.write s) s := by
  have h := spells_write (t := .text) hs
  rwa [mapText, Text.untilNul_eq_self_iff.mpr h0] at h

namespace Position

open Fixed (relayed Creeps)

variable {x y : Int32}

def ofFixed (x y : Int32) : Position := ⟨Fixed.toFloat x, Fixed.toFloat y⟩

/-- Neither of the numbers creeps. -/
def Stays (x y : Int32) : Prop := ¬ Creeps x.toInt.natAbs ∧ ¬ Creeps y.toInt.natAbs

theorem ofFixed_relayed_eq_iff : ofFixed (relayed x) (relayed y) = ofFixed x y ↔ Stays x y := by
  unfold ofFixed Stays
  rw [← Fixed.toFloat_relayed_eq_iff, ← Fixed.toFloat_relayed_eq_iff]
  exact ⟨fun h => ⟨congrArg Position.x h, congrArg Position.y h⟩,
    fun ⟨hx, hy⟩ => by rw [hx, hy]⟩

end Position

section Blobs

open Fixed (relayed Creeps)
open Position (Stays)

variable {blob : Bytes} {p : UInt32} {glide : Bool} {x y : Int32} {s : String}

theorem CharacterData.ofBlob_toBlob (h : FieldType.text.Spells (FieldType.text.write s) s) :
    ofBlob (toBlob ⟨⟨p⟩, glide, .ofFixed x y, s⟩) =
      .ok ⟨⟨p⟩, glide, .ofFixed (relayed x) (relayed y), s⟩ := by
  have hr : Record.Returns layout (p, glide, relayed x, relayed y, s, ()) :=
    ⟨rfl, FieldType.spells_write (t := .flag) trivial, rfl, rfl, h, trivial⟩
  exact (decodes_ofBlob.whole _ _).mpr ⟨_, Record.read_write hr, rfl⟩

theorem CharacterData.exists_of_ofBlob {d : CharacterData} (h : ofBlob blob = .ok d) :
    ∃ p glide x y s, d = ⟨⟨p⟩, glide, .ofFixed x y, s⟩ ∧
      FieldType.text.Spells (FieldType.text.write s) s := by
  obtain ⟨⟨p, glide, x, y, s, ⟨⟩⟩, hr, rfl⟩ := (decodes_ofBlob.whole _ _).mp h
  obtain ⟨-, -, -, -, hs, -⟩ := Record.returns_of_read hr
  exact ⟨p, glide, x, y, s, rfl, hs⟩

theorem PositionReport.ofBlob_toBlob (h : FieldType.text.Spells (FieldType.text.write s) s) :
    ofBlob (toBlob ⟨⟨p⟩, s, .ofFixed x y⟩) = .ok ⟨⟨p⟩, s, .ofFixed (relayed x) (relayed y)⟩ := by
  have hr : Record.Returns layout (p, s, relayed x, relayed y, ()) := ⟨rfl, h, rfl, rfl, trivial⟩
  exact (decodes_ofBlob.whole _ _).mpr ⟨_, Record.read_write hr, rfl⟩

theorem PositionReport.exists_of_ofBlob {d : PositionReport} (h : ofBlob blob = .ok d) :
    ∃ p s x y, d = ⟨⟨p⟩, s, .ofFixed x y⟩ ∧
      FieldType.text.Spells (FieldType.text.write s) s := by
  obtain ⟨⟨p, s, x, y, ⟨⟩⟩, hr, rfl⟩ := (decodes_ofBlob.whole _ _).mp h
  obtain ⟨-, hs, -⟩ := Record.returns_of_read hr
  exact ⟨p, s, x, y, rfl, hs⟩

/-- Data at a place is read back as this other data, and comes back as it was only from a place
that stays. -/
structure Relays {α : Type} (ofBlob : Bytes → Except WorldError α) (toBlob : α → Bytes)
    (x y : Int32) (d d' : α) : Prop where
  first : ofBlob (toBlob d) = .ok d'
  again : ofBlob (toBlob d') = .ok d'
  unmoved : ofBlob (toBlob d) = .ok d ↔ Stays x y

theorem Relays.of_place {α : Type} {ofBlob : Bytes → Except WorldError α} {toBlob : α → Bytes}
    (place : Position → α) (hplace : place.Injective)
    (h : ∀ x y, ofBlob (toBlob (place (.ofFixed x y))) =
      .ok (place (.ofFixed (relayed x) (relayed y)))) (x y : Int32) :
    Relays ofBlob toBlob x y (place (.ofFixed x y)) (place (.ofFixed (relayed x) (relayed y))) := by
  refine ⟨h x y, ?_, ?_⟩
  · rw [h, Fixed.relayed_relayed, Fixed.relayed_relayed]
  · rw [h, Except.ok.injEq, hplace.eq_iff, Position.ofFixed_relayed_eq_iff]

theorem CharacterData.relays (h : FieldType.text.Spells (FieldType.text.write s) s) :
    Relays ofBlob toBlob x y ⟨⟨p⟩, glide, .ofFixed x y, s⟩
      ⟨⟨p⟩, glide, .ofFixed (relayed x) (relayed y), s⟩ :=
  Relays.of_place (fun q => (⟨⟨p⟩, glide, q, s⟩ : CharacterData))
    (fun _ _ h => congrArg CharacterData.position h) (fun _ _ => ofBlob_toBlob h) x y

theorem PositionReport.relays (h : FieldType.text.Spells (FieldType.text.write s) s) :
    Relays ofBlob toBlob x y ⟨⟨p⟩, s, .ofFixed x y⟩
      ⟨⟨p⟩, s, .ofFixed (relayed x) (relayed y)⟩ :=
  Relays.of_place (fun q => (⟨⟨p⟩, s, q⟩ : PositionReport))
    (fun _ _ h => congrArg PositionReport.position h) (fun _ _ => ofBlob_toBlob h) x y

/-- A number is relayed as the same float unless it creeps, and then as the next one toward zero.
Data from a blob is relayed with its coordinates so, hence unchanged exactly when neither creeps,
and so is the position of a report that the server passes on in data of its own. Whatever was
relayed once stays where it is. -/
theorem relays_ofBlob (n : Int32) (blob : Bytes) :
    (Fixed.toFloat (relayed n) = Fixed.toFloat n ↔ ¬ Creeps n.toInt.natAbs) ∧
    (n.toInt.natAbs < 2 ^ 23 → (relayed n).toInt =
      if Creeps n.toInt.natAbs then n.toInt - n.toInt.sign else n.toInt) ∧
    (∀ d, CharacterData.ofBlob blob = .ok d → ∃ x y, d.position = .ofFixed x y ∧
      Relays CharacterData.ofBlob CharacterData.toBlob x y d
        { d with position := .ofFixed (relayed x) (relayed y) }) ∧
    (∀ d, PositionReport.ofBlob blob = .ok d → ∃ x y, d.position = .ofFixed x y ∧
      Relays PositionReport.ofBlob PositionReport.toBlob x y d
        { d with position := .ofFixed (relayed x) (relayed y) } ∧
      ∀ p glide s, '\x00' ∉ s.toList → s.utf8ByteSize < UInt32.size →
        Relays CharacterData.ofBlob CharacterData.toBlob x y ⟨p, glide, d.position, s⟩
          ⟨p, glide, .ofFixed (relayed x) (relayed y), s⟩) := by
  refine ⟨Fixed.toFloat_relayed_eq_iff n, Fixed.toInt_relayed, ?_, ?_⟩
  · intro d h
    obtain ⟨p, glide, x, y, s, rfl, hs⟩ := CharacterData.exists_of_ofBlob h
    exact ⟨x, y, rfl, CharacterData.relays hs⟩
  · intro d h
    obtain ⟨p, s, x, y, rfl, hs⟩ := PositionReport.exists_of_ofBlob h
    exact ⟨x, y, rfl, PositionReport.relays hs, fun q glide s' h0 hsize =>
      CharacterData.relays (FieldType.spells_write_text h0 hsize)⟩

theorem relays_ofBlob_farm :
    PositionReport.ofBlob (PositionReport.toBlob ⟨⟨1⟩, "farm", .ofFixed 6 (-30000)⟩) =
        .ok ⟨⟨1⟩, "farm", .ofFixed 6 (-30000)⟩ ∧
      ∃ x y, Position.ofFixed 6 (-30000) = .ofFixed x y ∧
        Relays PositionReport.ofBlob PositionReport.toBlob x y ⟨⟨1⟩, "farm", .ofFixed 6 (-30000)⟩
          ⟨⟨1⟩, "farm", .ofFixed (relayed x) (relayed y)⟩ := by
  have h : PositionReport.ofBlob (PositionReport.toBlob ⟨⟨1⟩, "farm", .ofFixed 6 (-30000)⟩) =
      .ok ⟨⟨1⟩, "farm", .ofFixed 6 (-30000)⟩ := by decide +kernel
  obtain ⟨-, -, -, hreport⟩ := relays_ofBlob 6
    (PositionReport.toBlob ⟨⟨1⟩, "farm", .ofFixed 6 (-30000)⟩)
  obtain ⟨x, y, hp, hr, -⟩ := hreport _ h
  exact ⟨h, x, y, hp, hr⟩

/-- A character that stands seven ten-thousandths from the origin stands six from it for whoever
hears of it from the server. -/
theorem ofBlob_toBlob_seven :
    ∃ blob d, CharacterData.ofBlob blob = .ok d ∧ d.position = .ofFixed 7 7 ∧
      CharacterData.ofBlob d.toBlob = .ok { d with position := .ofFixed 6 6 } ∧
      CharacterData.ofBlob d.toBlob ≠ .ok d ∧
      Fixed.toFloat (Fixed.ofFloat (Fixed.toFloat 7)) ≠ Fixed.toFloat 7 := by
  refine ⟨[0, 0, 0, 1, 1, 0, 0, 0, 7, 0, 0, 0, 7, 0, 0, 0, 0], ⟨⟨1⟩, true, .ofFixed 7 7, ""⟩, ?_⟩
  decide +kernel

end Blobs

end SharedWorld
