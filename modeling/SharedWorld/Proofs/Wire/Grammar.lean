import Mathlib.Data.List.Forall2
import SharedWorld.Proofs.Wire.Text
import SharedWorld.Wire.Field

/-! # The language of the fields

A reader recognizes a relation between bytes and values when it takes exactly the fronts that
stand for a value and leaves the rest. Readers in sequence recognize fields in sequence. Bytes
that stand for a value are never shorter than what is written for it, and they are the same
when they are plain: nothing follows a zero byte in a text, and a flag is zero or one.
-/

namespace SharedWorld

namespace Reader

variable {α β : Type} {r : Reader α} {P Q : Bytes → α → Prop} {n : Nat}

def Recognizes (r : Reader α) (P : Bytes → α → Prop) : Prop :=
  ∀ bs a rest, r bs = (.ok a, rest) ↔ ∃ front, bs = front ++ rest ∧ P front a

theorem Recognizes.congr (h : r.Recognizes P) (hpq : ∀ front a, P front a ↔ Q front a) :
    r.Recognizes Q := by
  intro bs a rest
  simp only [h bs a rest, hpq]

theorem recognizes_pure (a : α) :
    (pure a : Reader α).Recognizes fun front b => front = [] ∧ b = a := by
  intro bs b rest
  change (Except.ok a, bs) = (Except.ok b, rest) ↔ _
  constructor
  · rintro ⟨⟩
    exact ⟨[], rfl, rfl, rfl⟩
  · rintro ⟨_, rfl, rfl, rfl⟩
    rfl

theorem recognizes_fail (e : WireError) : (fail e : Reader α).Recognizes fun _ _ => False := by
  intro bs b rest
  constructor
  · rintro ⟨⟩
  · rintro ⟨_, _, ⟨⟩⟩

theorem Recognizes.bind {f : α → Reader β} {R : α → Bytes → β → Prop} (h : r.Recognizes P)
    (hf : ∀ a, (f a).Recognizes (R a)) :
    (r >>= f).Recognizes fun front b =>
      ∃ a xs ys, front = xs ++ ys ∧ P xs a ∧ R a ys b := by
  intro bs b rest
  constructor
  · intro hb
    rcases hr : r bs with ⟨e | a, rest'⟩
    · rw [bind_of_error hr] at hb
      cases hb
    · rw [bind_of_ok hr] at hb
      obtain ⟨xs, rfl, hx⟩ := (h _ _ _).mp hr
      obtain ⟨ys, rfl, hy⟩ := (hf a _ _ _).mp hb
      exact ⟨xs ++ ys, (List.append_assoc ..).symm, a, xs, ys, rfl, hx, hy⟩
  · rintro ⟨_, rfl, a, xs, ys, rfl, hx, hy⟩
    have hr := (h (xs ++ (ys ++ rest)) a (ys ++ rest)).mpr ⟨xs, rfl, hx⟩
    rw [List.append_assoc, bind_of_ok hr]
    exact (hf a _ _ _).mpr ⟨ys, rfl, hy⟩

theorem Recognizes.map {f : α → β} (h : r.Recognizes P) :
    Recognizes (do let a ← r; pure (f a)) fun front b => ∃ a, P front a ∧ b = f a := by
  refine (h.bind fun a => recognizes_pure (f a)).congr fun front b => ?_
  constructor
  · rintro ⟨a, xs, _, rfl, hx, rfl, rfl⟩
    exact ⟨a, by rwa [List.append_nil], rfl⟩
  · rintro ⟨a, ha, rfl⟩
    exact ⟨a, front, [], (List.append_nil _).symm, ha, rfl, rfl⟩

theorem recognizes_take (n : Nat) :
    (take n).Recognizes fun front a => front = a ∧ a.length = n := by
  intro bs a rest
  unfold take
  dsimp only
  constructor
  · intro h
    split at h
    · cases h
      next hl => exact ⟨bs.take n, (List.take_append_drop n bs).symm, rfl, hl⟩
    · cases h
  · rintro ⟨_, rfl, rfl, rfl⟩
    simp

theorem recognizes_word (n : Nat) :
    (word n).Recognizes fun front v => v < Word.size n ∧ front = Word.encode n v := by
  refine (recognizes_take n).map.congr fun front v => ?_
  constructor
  · rintro ⟨_, ⟨rfl, rfl⟩, rfl⟩
    exact ⟨Word.decode_lt front, (Word.encode_decode front).symm⟩
  · rintro ⟨hv, rfl⟩
    refine ⟨_, ⟨rfl, Word.length_encode n v⟩, ?_⟩
    rw [Word.decode_encode, Nat.mod_eq_of_lt hv]

theorem recognizes_fixed {f : Nat → α} {g : α → Nat} (hg : ∀ v, g v < Word.size n)
    (hfg : ∀ v, f (g v) = v) (hgf : ∀ m < Word.size n, g (f m) = m) :
    Recognizes (do let m ← word n; pure (f m)) fun front v => front = Word.encode n (g v) := by
  refine (recognizes_word n).map.congr fun front v => ?_
  constructor
  · rintro ⟨m, ⟨hm, rfl⟩, rfl⟩
    rw [hgf m hm]
  · rintro rfl
    exact ⟨g v, ⟨hg v, rfl⟩, (hfg v).symm⟩

end Reader

def Counted (body front : Bytes) : Prop :=
  body.length < UInt32.size ∧ front = Word.encode 4 body.length ++ body

theorem Counted.drop {body front : Bytes} (h : Counted body front) : front.drop 4 = body := by
  rw [h.2, List.drop_left' (Word.length_encode 4 _)]

theorem Reader.recognizes_counted :
    Recognizes (do take (← word 4)) fun front body => Counted body front := by
  refine ((recognizes_word 4).bind fun n => recognizes_take n).congr fun front body => ?_
  constructor
  · rintro ⟨_, _, _, rfl, ⟨hn, rfl⟩, rfl, rfl⟩
    exact ⟨hn, rfl⟩
  · rintro ⟨hn, rfl⟩
    exact ⟨_, _, _, rfl, ⟨hn, rfl⟩, rfl, rfl⟩

namespace FieldType

/-- The field stands for the value. Any byte but zero stands for a set flag, and in a text what
follows a zero byte stands for nothing. -/
def Spells : (t : FieldType) → Bytes → t.Value → Prop
  | u8, front, v => front = Word.encode 1 v.toNat
  | u16, front, v => front = Word.encode 2 v.toNat
  | u32, front, v => front = Word.encode 4 v.toNat
  | u64, front, v => front = Word.encode 8 v.toNat
  | i32, front, v => front = Word.encode 4 v.toUInt32.toNat
  | flag, front, v => ∃ b : UInt8, front = [b] ∧ v = decide (b ≠ 0)
  | text, front, s => ∃ body, Counted body front ∧ body.takeWhile (· ≠ 0) = Text.utf8 s
  | blob, front, v => Counted v front
  | entityType, front, t => front = [t.tag]

theorem recognizes_ofUtf8? (bs : Bytes) :
    Reader.Recognizes (match Text.ofUtf8? bs with
      | some s => pure s
      | none => Reader.fail .invalidText) fun front s => front = [] ∧ bs = Text.utf8 s := by
  split
  · next s hs =>
    refine (Reader.recognizes_pure s).congr fun front s' => ?_
    rw [← Text.ofUtf8?_eq_some_iff, hs, Option.some.injEq, @eq_comm _ s']
  · next hs =>
    refine (Reader.recognizes_fail _).congr fun front s => ?_
    rw [← Text.ofUtf8?_eq_some_iff, hs]
    simp

theorem recognizes_ofTag? (b : UInt8) :
    Reader.Recognizes (match EntityType.ofTag? b with
      | some t => pure t
      | none => Reader.fail (.unknownEntityType b)) fun front t => front = [] ∧ b = t.tag := by
  split
  · next t ht =>
    refine (Reader.recognizes_pure t).congr fun front t' => ?_
    rw [← EntityType.ofTag?_eq_some_iff, ht, Option.some.injEq, @eq_comm _ t']
  · next ht =>
    refine (Reader.recognizes_fail _).congr fun front t => ?_
    rw [← EntityType.ofTag?_eq_some_iff, ht]
    simp

theorem encode_one (b : UInt8) : Word.encode 1 b.toNat = [b] := by
  simp [Word.encode]

theorem recognizes_read (t : FieldType) : t.read.Recognizes t.Spells := by
  cases t with
  | u8 =>
    exact Reader.recognizes_fixed UInt8.toNat_lt (fun _ => UInt8.ofNat_toNat) fun _ =>
      UInt8.toNat_ofNat_of_lt'
  | u16 =>
    exact Reader.recognizes_fixed UInt16.toNat_lt (fun _ => UInt16.ofNat_toNat) fun _ =>
      UInt16.toNat_ofNat_of_lt'
  | u32 =>
    exact Reader.recognizes_fixed UInt32.toNat_lt (fun _ => UInt32.ofNat_toNat) fun _ =>
      UInt32.toNat_ofNat_of_lt'
  | u64 =>
    exact Reader.recognizes_fixed UInt64.toNat_lt (fun _ => UInt64.ofNat_toNat) fun _ =>
      UInt64.toNat_ofNat_of_lt'
  | i32 =>
    refine Reader.recognizes_fixed (f := fun m => (UInt32.ofNat m).toInt32)
      (g := fun v => v.toUInt32.toNat) (fun v => v.toUInt32.toNat_lt) (fun v => ?_) fun m hm => ?_
    · rw [UInt32.ofNat_toNat, Int32.toInt32_toUInt32]
    · rw [UInt32.toUInt32_toInt32]
      exact UInt32.toNat_ofNat_of_lt' hm
  | flag =>
    refine (Reader.recognizes_word 1).map.congr fun front v => ?_
    constructor
    · rintro ⟨m, ⟨hm, rfl⟩, rfl⟩
      have hb : (UInt8.ofNat m).toNat = m := UInt8.toNat_ofNat_of_lt' hm
      refine ⟨UInt8.ofNat m, by rw [← encode_one, hb], ?_⟩
      rw [decide_eq_decide, ne_eq, ne_eq, ← UInt8.toNat_inj, hb]
      rfl
    · rintro ⟨b, rfl, rfl⟩
      refine ⟨b.toNat, ⟨b.toNat_lt, (encode_one b).symm⟩, ?_⟩
      rw [decide_eq_decide, ne_eq, ne_eq, ← UInt8.toNat_inj]
      rfl
  | text =>
    refine ((Reader.recognizes_word 4).bind fun n => (Reader.recognizes_take n).bind fun body =>
      recognizes_ofUtf8? (body.takeWhile (· ≠ 0))).congr fun front s => ?_
    constructor
    · rintro ⟨_, _, _, rfl, ⟨hn, rfl⟩, body, _, _, rfl, ⟨rfl, rfl⟩, rfl, hb⟩
      exact ⟨_, ⟨hn, by rw [List.append_nil]⟩, hb⟩
    · rintro ⟨body, ⟨hn, rfl⟩, hb⟩
      exact ⟨_, _, _, rfl, ⟨hn, rfl⟩, body, body, [], (List.append_nil _).symm, ⟨rfl, rfl⟩, rfl,
        hb⟩
  | blob => exact Reader.recognizes_counted
  | entityType =>
    refine ((Reader.recognizes_word 1).bind fun n =>
      recognizes_ofTag? (UInt8.ofNat n)).congr fun front t => ?_
    constructor
    · rintro ⟨m, _, _, rfl, ⟨hm, rfl⟩, rfl, hb⟩
      have hm : t.tag.toNat = m := by rw [← hb, UInt8.toNat_ofNat_of_lt' hm]
      rw [List.append_nil, Spells, ← hm, encode_one]
    · rintro rfl
      exact ⟨t.tag.toNat, [t.tag], [], rfl, ⟨t.tag.toNat_lt, (encode_one _).symm⟩, rfl,
        UInt8.ofNat_toNat⟩

def Form : FieldType → Bytes → Prop
  | u8, front => front.length = 1
  | u16, front => front.length = 2
  | u32, front => front.length = 4
  | u64, front => front.length = 8
  | i32, front => front.length = 4
  | flag, front => front.length = 1
  | text, front => ∃ body, Counted body front ∧ Text.IsUtf8 (body.takeWhile (· ≠ 0))
  | blob, front => ∃ body, Counted body front
  | entityType, front => ∃ b : UInt8, front = [b] ∧ b ≤ 2

theorem length_eq_iff {α : Type} {n : Nat} {front : Bytes} {f : Nat → α} {g : α → Nat}
    (hgf : ∀ m < Word.size n, g (f m) = m) :
    front.length = n ↔ ∃ v, front = Word.encode n (g v) := by
  constructor
  · rintro rfl
    exact ⟨f (Word.decode front), by rw [hgf _ (Word.decode_lt front), Word.encode_decode]⟩
  · rintro ⟨v, rfl⟩
    exact Word.length_encode n _

theorem form_iff {t : FieldType} {front : Bytes} : t.Form front ↔ ∃ v, t.Spells front v := by
  cases t with
  | u8 => exact length_eq_iff fun _ => UInt8.toNat_ofNat_of_lt'
  | u16 => exact length_eq_iff fun _ => UInt16.toNat_ofNat_of_lt'
  | u32 => exact length_eq_iff fun _ => UInt32.toNat_ofNat_of_lt'
  | u64 => exact length_eq_iff fun _ => UInt64.toNat_ofNat_of_lt'
  | i32 =>
    refine length_eq_iff (f := fun m => (UInt32.ofNat m).toInt32)
      (g := fun v : Int32 => v.toUInt32.toNat) fun m hm => ?_
    rw [UInt32.toUInt32_toInt32]
    exact UInt32.toNat_ofNat_of_lt' hm
  | flag =>
    constructor
    · intro h
      obtain ⟨b, rfl⟩ := List.length_eq_one_iff.mp h
      exact ⟨_, b, rfl, rfl⟩
    · rintro ⟨_, b, rfl, rfl⟩
      rfl
  | text =>
    simp only [Form, Spells, Text.isUtf8_iff]
    constructor
    · rintro ⟨body, hc, s, hs⟩
      exact ⟨s, body, hc, hs⟩
    · rintro ⟨s, body, hc, hs⟩
      exact ⟨body, hc, s, hs⟩
  | blob => exact Iff.rfl
  | entityType =>
    constructor
    · rintro ⟨b, rfl, hb⟩
      have hb : b = 0 ∨ b = 1 ∨ b = 2 := by
        have := UInt8.le_iff_toNat_le.mp hb
        simp only [← UInt8.toNat_inj]
        simp at this ⊢
        omega
      rcases hb with rfl | rfl | rfl
      · exact ⟨.unknown, rfl⟩
      · exact ⟨.world, rfl⟩
      · exact ⟨.character, rfl⟩
    · rintro ⟨t, rfl⟩
      exact ⟨t.tag, rfl, by cases t <;> decide⟩

section Written

variable {t : FieldType} {front : Bytes} {v : t.Value}

/-- The field is what is written for the value that it stands for. -/
def Plain : FieldType → Bytes → Prop
  | text, front => (0 : UInt8) ∉ front.drop 4
  | flag, front => front = [0] ∨ front = [1]
  | _, _ => True

def Fits : (t : FieldType) → t.Value → Prop
  | text, s => s.utf8ByteSize < UInt32.size
  | blob, bs => bs.length < UInt32.size
  | _, _ => True

def mapText (f : String → String) : (t : FieldType) → t.Value → t.Value
  | text, s => f s
  | _, v => v

theorem counted_write_text {s : String} (h : s.utf8ByteSize < UInt32.size) :
    Counted (Text.utf8 s) (text.write s) := by
  have hm : min s.utf8ByteSize maxLength = s.utf8ByteSize := by
    simp only [maxLength]
    omega
  refine ⟨by rwa [Text.length_utf8], ?_⟩
  simp [write, writeText, hm, Text.fitting, Text.length_utf8]

theorem counted_write_blob {bs : Bytes} (h : bs.length < UInt32.size) :
    Counted bs (blob.write bs) := by
  have hb : bs.take maxLength = bs := List.take_of_length_le (Nat.le_sub_one_of_lt h)
  exact ⟨h, by rw [write, hb]⟩

theorem fits_of_length_lt (h : (t.write v).length < UInt32.size) : t.Fits v := by
  cases t with
  | text =>
    simp only [write, writeText, maxLength, List.length_append, Word.length_encode,
      List.length_replicate] at h
    simp only [Fits]
    omega
  | blob =>
    simp only [write, maxLength, List.length_append, Word.length_encode, List.length_take] at h
    simp only [Fits]
    omega
  | _ => trivial

theorem spells_write (h : t.Fits v) : t.Spells (t.write v) (t.mapText Text.untilNul v) := by
  cases t with
  | flag => cases v <;> exact ⟨_, rfl, rfl⟩
  | text => exact ⟨_, counted_write_text h, Text.takeWhile_utf8 v⟩
  | blob => exact counted_write_blob h
  | _ => rfl

theorem mapText_of_spells (h : t.Spells front v) : t.mapText Text.untilNul v = v := by
  cases t with
  | text =>
    obtain ⟨body, -, hb⟩ := h
    refine Text.untilNul_eq_self_iff.mpr fun hm => ?_
    have h0 := Text.zero_mem_utf8_iff.mpr hm
    rw [← hb] at h0
    exact Text.not_mem_takeWhile_ne 0 body h0
  | _ => rfl

theorem write_of_spells (h : t.Spells front v) :
    (t.write v).length ≤ front.length ∧ (t.write v = front ↔ t.Plain front) := by
  cases t with
  | flag =>
    obtain ⟨b, rfl, rfl⟩ := h
    refine ⟨Nat.le_of_eq (by simp [write]), ?_⟩
    by_cases hb : b = 0
    · simp [write, Plain, hb]
    · simp [write, Plain, hb, eq_comm]
  | text =>
    obtain ⟨body, hc, hb⟩ := h
    have hle : (Text.utf8 v).length ≤ body.length := by
      rw [← hb]
      exact (List.takeWhile_prefix _).length_le
    have hv : v.utf8ByteSize < UInt32.size := by
      rw [← Text.length_utf8]
      exact Nat.lt_of_le_of_lt hle hc.1
    obtain ⟨-, hw⟩ := counted_write_text hv
    rw [hw]
    refine ⟨by simpa [hc.2] using hle, ?_⟩
    rw [Plain, hc.drop, ← Text.takeWhile_ne_eq_self_iff, hb]
    constructor
    · intro he
      have := congrArg (List.drop 4) he
      rwa [List.drop_left' (Word.length_encode 4 _), hc.drop] at this
    · intro he
      rw [hc.2, he]
  | blob =>
    have hw : blob.write v = front := (counted_write_blob h.1).2.trans h.2.symm
    exact ⟨Nat.le_of_eq (by rw [hw]), fun _ => trivial, fun _ => hw⟩
  | u8 | u16 | u32 | u64 | i32 | entityType =>
    exact ⟨Nat.le_of_eq (congrArg _ h.symm), fun _ => trivial, fun _ => h.symm⟩

end Written

end FieldType

namespace Record

def Spells : (ts : List FieldType) → List Bytes → Record ts → Prop
  | [], fields, _ => fields = []
  | t :: ts, fields, (v, vs) => ∃ f fs, fields = f :: fs ∧ t.Spells f v ∧ Spells ts fs vs

theorem recognizes_read (ts : List FieldType) :
    (read ts).Recognizes fun front r => ∃ fields, front = fields.flatten ∧ Spells ts fields r := by
  induction ts with
  | nil =>
    refine (Reader.recognizes_pure ()).congr fun front r => ?_
    constructor
    · rintro ⟨rfl, rfl⟩
      exact ⟨[], rfl, rfl⟩
    · rintro ⟨_, rfl, rfl⟩
      exact ⟨rfl, rfl⟩
  | cons t ts ih =>
    refine (t.recognizes_read.bind fun v => ih.map (f := fun vs => (v, vs))).congr
      fun front r => ?_
    constructor
    · rintro ⟨v, f, _, rfl, hf, vs, ⟨fs, rfl, hfs⟩, rfl⟩
      exact ⟨f :: fs, rfl, f, fs, rfl, hf, hfs⟩
    · rintro ⟨_, rfl, f, fs, rfl, hf, hfs⟩
      exact ⟨r.1, f, fs.flatten, rfl, hf, r.2, ⟨fs, rfl, hfs⟩, rfl⟩

theorem forms_iff {ts : List FieldType} {fields : List Bytes} :
    List.Forall₂ FieldType.Form ts fields ↔ ∃ r, Spells ts fields r := by
  induction ts generalizing fields with
  | nil =>
    rw [List.forall₂_nil_left_iff]
    constructor
    · rintro rfl
      exact ⟨(), rfl⟩
    · rintro ⟨_, rfl⟩
      rfl
  | cons t ts ih =>
    rw [List.forall₂_cons_left_iff]
    constructor
    · rintro ⟨f, fs, hf, hfs, rfl⟩
      obtain ⟨v, hv⟩ := FieldType.form_iff.mp hf
      obtain ⟨vs, hvs⟩ := ih.mp hfs
      exact ⟨(v, vs), f, fs, rfl, hv, hvs⟩
    · rintro ⟨⟨v, vs⟩, f, fs, rfl, hv, hvs⟩
      exact ⟨f, fs, FieldType.form_iff.mpr ⟨v, hv⟩, ih.mpr ⟨vs, hvs⟩, rfl⟩

def mapText (f : String → String) : (ts : List FieldType) → Record ts → Record ts
  | [], _ => ()
  | t :: ts, (v, vs) => (t.mapText f v, mapText f ts vs)

theorem spells_write {ts : List FieldType} {r : Record ts}
    (h : (write ts r).length < UInt32.size) :
    ∃ fields, write ts r = fields.flatten ∧ Spells ts fields (mapText Text.untilNul ts r) := by
  induction ts with
  | nil => exact ⟨[], rfl, rfl⟩
  | cons t ts ih =>
    obtain ⟨v, vs⟩ := r
    rw [write, List.length_append] at h
    obtain ⟨fs, hw, hfs⟩ := ih (Nat.lt_of_le_of_lt (Nat.le_add_left ..) h)
    have hv : t.Fits v := FieldType.fits_of_length_lt (Nat.lt_of_le_of_lt (Nat.le_add_right ..) h)
    exact ⟨t.write v :: fs, by rw [write, hw]; rfl, _, _, rfl, FieldType.spells_write hv, hfs⟩

theorem mapText_of_spells {ts : List FieldType} {fields : List Bytes} {r : Record ts}
    (h : Spells ts fields r) : mapText Text.untilNul ts r = r := by
  induction ts generalizing fields with
  | nil => rfl
  | cons t ts ih =>
    obtain ⟨f, fs, rfl, hf, hfs⟩ := h
    rw [mapText, FieldType.mapText_of_spells hf, ih hfs]

theorem write_of_spells {ts : List FieldType} {fields : List Bytes} {r : Record ts}
    (h : Spells ts fields r) :
    (write ts r).length ≤ fields.flatten.length ∧
      (write ts r = fields.flatten ↔ ∀ e ∈ ts.zip fields, e.1.Plain e.2) := by
  induction ts generalizing fields with
  | nil =>
    obtain rfl : fields = [] := h
    simp [write]
  | cons t ts ih =>
    obtain ⟨f, fs, rfl, hf, hfs⟩ := h
    obtain ⟨hl, hw⟩ := FieldType.write_of_spells hf
    obtain ⟨hls, hws⟩ := ih hfs
    rw [write, List.flatten_cons, List.length_append, List.length_append]
    refine ⟨Nat.add_le_add hl hls, ?_⟩
    rw [List.zip_cons_cons, List.forall_mem_cons, ← hw, ← hws]
    constructor
    · -- No part is longer than its field, so in an equal whole every part is as long.
      intro he
      have hlen := congrArg List.length he
      rw [List.length_append, List.length_append] at hlen
      exact List.append_inj he (by omega)
    · rintro ⟨h₁, h₂⟩
      rw [h₁, h₂]

end Record

end SharedWorld
