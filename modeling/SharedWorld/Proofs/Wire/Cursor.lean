import SharedWorld.Proofs.Wire.Field
import SharedWorld.Proofs.Wire.Grammar

/-! # Reading with a cursor

Bytes can be read in place, by a cursor that counts what it has taken. Such a cursor could look
outside of its bytes. No reads bring it there, whatever lengths the bytes declare and however many
reads have failed before, because the cursor stands where the readers have left off. A read that
runs out takes nothing, except that the length before a body that is too short is taken.
-/

namespace SharedWorld

/-! ## Reads that fail -/

namespace Reader

variable {α β : Type} {r : Reader α} {f : α → Reader β} {bs rest : Bytes} {a : α} {e : WireError}
  {n : Nat}

theorem word_of_lt (h : bs.length < n) : word n bs = (.error (.unexpectedEnd n bs.length), bs) :=
  bind_of_error (take_of_lt h)

theorem fails_word {g : Nat → β}
    (h : (do let v ← word n; pure (g v) : Reader β) bs = (.error e, rest)) :
    e = .unexpectedEnd n bs.length ∧ rest = bs := by
  by_cases hn : bs.length < n
  · rw [bind_of_error (word_of_lt hn)] at h
    cases h
    exact ⟨rfl, rfl⟩
  · have hw : word n bs = (.ok (Word.decode (bs.take n)), bs.drop n) :=
      bind_of_ok (take_of_le (Nat.le_of_not_lt hn))
    rw [bind_of_ok hw] at h
    cases h

/-- When the reader runs out, it needs more than what is left, and says how much that is. -/
def Truthful (r : Reader α) : Prop :=
  ∀ bs needed remaining rest, r bs = (.error (.unexpectedEnd needed remaining), rest) →
    remaining < needed ∧ rest.length = remaining

theorem truthful_pure (a : α) : (pure a : Reader α).Truthful := by
  rintro bs needed remaining rest ⟨⟩

theorem truthful_fail (he : ∀ needed remaining, e ≠ .unexpectedEnd needed remaining) :
    (fail e : Reader α).Truthful := by
  rintro bs needed remaining rest ⟨⟩
  exact absurd rfl (he needed remaining)

theorem truthful_take (n : Nat) : (take n).Truthful := by
  intro bs needed remaining rest h
  by_cases hn : bs.length < n
  · rw [take_of_lt hn] at h
    cases h
    exact ⟨hn, rfl⟩
  · rw [take_of_le (Nat.le_of_not_lt hn)] at h
    cases h

theorem Truthful.bind (h : r.Truthful) (hf : ∀ a, (f a).Truthful) : (r >>= f).Truthful := by
  intro bs needed remaining rest hb
  rcases hr : r bs with ⟨e | a, rest'⟩
  · rw [bind_of_error hr] at hb
    cases hb
    exact h bs needed remaining rest hr
  · rw [bind_of_ok hr] at hb
    exact hf a rest' needed remaining rest hb

theorem truthful_word (n : Nat) : (word n).Truthful :=
  (truthful_take n).bind fun _ => truthful_pure _

end Reader

namespace FieldType

variable {t : FieldType} {bs rest after body front short : Bytes} {e : WireError} {w n : Nat}

def width? : FieldType → Option Nat
  | u8 | flag => some 1
  | u16 => some 2
  | u32 | i32 => some 4
  | u64 => some 8
  | text | blob | entityType => none

theorem fails_of_width (hw : t.width? = some w) (h : t.read bs = (.error e, rest)) :
    e = .unexpectedEnd w bs.length ∧ rest = bs := by
  cases t <;> cases hw <;> exact Reader.fails_word h

theorem read_of_unmeasured (ht : t.isFixed = false) (h : bs.length < 4) :
    t.read bs = (.error (.unexpectedEnd 4 bs.length), bs) := by
  cases t <;> cases ht <;> exact Reader.bind_of_error (Reader.word_of_lt h)

theorem read_of_short (ht : t.isFixed = false) (hn : n < UInt32.size) (h : short.length < n) :
    t.read (Word.encode 4 n ++ short) = (.error (.unexpectedEnd n short.length), short) := by
  have hw := Reader.reads_word (n := 4) hn short
  have hs := Reader.take_of_lt h
  cases t with
  | text => exact (Reader.bind_of_ok hw).trans (Reader.bind_of_error hs)
  | blob => exact (Reader.bind_of_ok hw).trans hs
  | _ => cases ht

theorem read_of_invalid (hc : Counted body front) (h : ¬ Text.IsUtf8 (body.takeWhile (· ≠ 0))) :
    text.read (front ++ after) = (.error .invalidText, after) := by
  obtain ⟨hn, rfl⟩ := hc
  have hw := Reader.reads_word (n := 4) hn (body ++ after)
  have hb := Reader.reads_take body after
  have hu : Text.ofUtf8? (body.takeWhile (· ≠ 0)) = none := by
    apply Option.eq_none_iff_forall_ne_some.mpr
    intro s hs
    exact h (Text.isUtf8_iff.mpr ⟨s, Text.ofUtf8?_eq_some_iff.mp hs⟩)
  rw [List.append_assoc]
  apply (Reader.bind_of_ok hw).trans
  apply (Reader.bind_of_ok hb).trans
  rw [hu]
  rfl

theorem fails_of_tag (h : entityType.read bs = (.error e, rest)) :
    (e = .unexpectedEnd 1 0 ∧ rest = bs) ∨ ∃ b, e = .unknownEntityType b ∧ bs = b :: rest := by
  cases bs with
  | nil =>
    rw [read, Reader.bind_of_error (Reader.word_of_lt Nat.one_pos)] at h
    cases h
    exact Or.inl ⟨rfl, rfl⟩
  | cons b bs =>
    have hb : Reader.word 1 (b :: bs) = (.ok b.toNat, bs) := by
      have := Reader.reads_word (n := 1) b.toNat_lt bs
      rwa [encode_one] at this
    rw [read, Reader.bind_of_ok hb, UInt8.ofNat_toNat] at h
    cases ht : EntityType.ofTag? b with
    | some t =>
      simp only [ht] at h
      cases h
    | none =>
      simp only [ht] at h
      cases h
      exact Or.inr ⟨b, rfl, rfl⟩

theorem truthful_read (t : FieldType) : t.read.Truthful := by
  cases t with
  | text =>
    apply (Reader.truthful_word 4).bind
    intro n
    apply (Reader.truthful_take n).bind
    intro body
    split
    · exact Reader.truthful_pure _
    · exact Reader.truthful_fail nofun
  | blob => exact (Reader.truthful_word 4).bind Reader.truthful_take
  | entityType =>
    apply (Reader.truthful_word 1).bind
    intro tag
    dsimp only
    split
    · exact Reader.truthful_pure _
    · exact Reader.truthful_fail nofun
  | _ => exact (Reader.truthful_word _).bind fun _ => Reader.truthful_pure _

/-- What is left after some reads, each from where the one before it has stopped, also when that
one has failed. -/
def unread : List FieldType → Bytes → Bytes
  | [], bs => bs
  | t :: ts, bs => unread ts (t.read bs).2

end FieldType

/-! ## Cursors -/

/-- Bytes and how many of them have been taken. -/
structure Cursor where
  data : Bytes
  place : Nat
  deriving DecidableEq, Repr

namespace Cursor

variable {c c' c'' : Cursor} {n : Nat}

def start (data : Bytes) : Cursor := ⟨data, 0⟩

def rest (c : Cursor) : Bytes := c.data.drop c.place

def remaining? (c : Cursor) : Option Nat :=
  if c.place ≤ c.data.length then some (c.data.length - c.place) else none

def slice? (bs : Bytes) (start stop : Nat) : Option Bytes :=
  if start ≤ stop ∧ stop ≤ bs.length then some (bs.extract start stop) else none

/-- The second cursor stands in the same bytes, not before the first and not past the end. -/
structure Onward (c c' : Cursor) : Prop where
  data : c'.data = c.data
  later : c.place ≤ c'.place
  within : c'.place ≤ c'.data.length

theorem length_rest (c : Cursor) : c.rest.length = c.data.length - c.place := by
  simp [rest]

theorem remaining?_eq (h : c.place ≤ c.data.length) : c.remaining? = some c.rest.length := by
  simp [remaining?, h, length_rest]

theorem Onward.refl (h : c.place ≤ c.data.length) : c.Onward c := ⟨rfl, Nat.le_refl _, h⟩

theorem Onward.trans (h : c.Onward c') (h' : c'.Onward c'') : c.Onward c'' :=
  ⟨h'.data.trans h.data, Nat.le_trans h.later h'.later, h'.within⟩

theorem Onward.place_eq (h : c.Onward c') (hr : c.rest.length = n + c'.rest.length) :
    c'.place = c.place + n := by
  have hw := h.within
  have hl := h.later
  rw [length_rest, length_rest, h.data] at hr
  rw [h.data] at hw
  omega

theorem Onward.eq_of_rest (h : c.Onward c') (hr : c'.rest = c.rest) : c' = c := by
  have hp : c'.place = c.place := h.place_eq (n := 0) (by simp [hr])
  cases c
  cases c'
  cases h.data
  cases hp
  rfl

theorem slice?_ahead (h : c.place + n ≤ c.data.length) :
    slice? c.data c.place (c.place + n) = some (c.rest.take n) := by
  simp [slice?, h, rest]

theorem slice?_findIdx (bs : Bytes) :
    slice? bs 0 (bs.findIdx (· = 0)) = some (bs.takeWhile (· ≠ 0)) := by
  have hle : bs.findIdx (· = 0) ≤ bs.length := List.findIdx_le_length
  simp [slice?, hle, List.takeWhile_eq_take_findIdx_not]

end Cursor

/-- A reader that works in place. It has no result where it would look outside of the bytes. -/
def CursorReader (α : Type) := Cursor → Option (Except WireError α × Cursor)

namespace CursorReader

variable {α β : Type} {c c' : Cursor} {a : α} {e : WireError}

instance : Monad CursorReader where
  pure a := fun c => some (.ok a, c)
  bind k f := fun c =>
    match k c with
    | some (.ok a, c') => f a c'
    | some (.error e, c') => some (.error e, c')
    | none => none

def fail (e : WireError) : CursorReader α := fun c => some (.error e, c)

def demand (found : Option α) : CursorReader α := fun c => found.map fun a => (.ok a, c)

def take (n : Nat) : CursorReader Bytes := fun c => do
  let remaining ← c.remaining?
  if remaining < n then return (.error (.unexpectedEnd n remaining), c)
  let bytes ← Cursor.slice? c.data c.place (c.place + n)
  return (.ok bytes, { c with place := c.place + n })

def word (n : Nat) : CursorReader Nat := do
  let bytes ← take n
  demand (if bytes.length = n then some (Word.decode bytes) else none)

def readText : CursorReader String := do
  let body ← take (← word 4)
  match Text.ofUtf8? (← demand (Cursor.slice? body 0 (body.findIdx (· = 0)))) with
  | some s => pure s
  | none => fail .invalidText

open FieldType in
def read : (t : FieldType) → CursorReader t.Value
  | u8 => return UInt8.ofNat (← word 1)
  | u16 => return UInt16.ofNat (← word 2)
  | u32 => return UInt32.ofNat (← word 4)
  | u64 => return UInt64.ofNat (← word 8)
  | i32 => return (UInt32.ofNat (← word 4)).toInt32
  | flag => return (← word 1) ≠ 0
  | text => readText
  | blob => do take (← word 4)
  | entityType => do
    let tag := UInt8.ofNat (← word 1)
    match EntityType.ofTag? tag with
    | some t => pure t
    | none => fail (.unknownEntityType tag)

/-- From any place within the bytes the one takes what the other takes off the bytes that are left
there. -/
def Tracks (k : CursorReader α) (r : Reader α) : Prop :=
  ∀ c : Cursor, c.place ≤ c.data.length → ∃ outcome c',
    c.Onward c' ∧ k c = some (outcome, c') ∧ r c.rest = (outcome, c'.rest)

section Tracks

variable {k : CursorReader α} {r : Reader α} {f : α → CursorReader β} {g : α → Reader β}

theorem tracks_pure (a : α) : (pure a : CursorReader α).Tracks (pure a) :=
  fun c hc => ⟨.ok a, c, .refl hc, rfl, rfl⟩

theorem tracks_fail (e : WireError) : (fail e : CursorReader α).Tracks (Reader.fail e) :=
  fun c hc => ⟨.error e, c, .refl hc, rfl, rfl⟩

theorem bind_of_ok (h : k c = some (.ok a, c')) : (k >>= f) c = f a c' := by
  simp only [Bind.bind, h]

theorem bind_of_error (h : k c = some (.error e, c')) : (k >>= f) c = some (.error e, c') := by
  simp only [Bind.bind, h]

theorem demand_some_bind (a : α) : (demand (some a) >>= f) = f a := rfl

theorem Tracks.bind (h : k.Tracks r) (hf : ∀ a, (f a).Tracks (g a)) :
    (k >>= f).Tracks (r >>= g) := by
  intro c hc
  obtain ⟨outcome, c₁, h₁, hk, hr⟩ := h c hc
  cases outcome with
  | error e => exact ⟨.error e, c₁, h₁, bind_of_error hk, Reader.bind_of_error hr⟩
  | ok a =>
    obtain ⟨outcome, c₂, h₂, hk₂, hr₂⟩ := hf a c₁ h₁.within
    exact ⟨outcome, c₂, h₁.trans h₂, (bind_of_ok hk).trans hk₂, (Reader.bind_of_ok hr).trans hr₂⟩

theorem tracks_take (n : Nat) : (take n).Tracks (Reader.take n) := by
  intro c hc
  by_cases hn : c.rest.length < n
  · refine ⟨_, c, .refl hc, ?_, Reader.take_of_lt hn⟩
    simp [take, Cursor.remaining?_eq hc, hn]
  · have hle : n ≤ c.rest.length := Nat.le_of_not_lt hn
    have hstop : c.place + n ≤ c.data.length := by
      rw [Cursor.length_rest] at hle
      omega
    refine ⟨.ok (c.rest.take n), { c with place := c.place + n },
      ⟨rfl, Nat.le_add_right .., hstop⟩, ?_, ?_⟩
    · rw [take, Cursor.remaining?_eq hc, Option.bind_eq_bind, Option.bind_some, if_neg hn,
        Cursor.slice?_ahead hstop]
      rfl
    · rw [Reader.take_of_le hle, Cursor.rest, Cursor.rest, List.drop_drop]

theorem tracks_word (n : Nat) : (word n).Tracks (Reader.word n) := by
  intro c hc
  obtain ⟨outcome, c', h, hk, hr⟩ := tracks_take n c hc
  cases outcome with
  | error e => exact ⟨.error e, c', h, bind_of_error hk, Reader.bind_of_error hr⟩
  | ok bytes =>
    obtain ⟨_, -, -, hl⟩ := (Reader.recognizes_take n _ _ _).mp hr
    refine ⟨.ok (Word.decode bytes), c', h, ?_, Reader.bind_of_ok hr⟩
    rw [word, bind_of_ok hk, if_pos hl]
    rfl

theorem tracks_readText : readText.Tracks FieldType.readText := by
  apply (tracks_word 4).bind
  intro n
  apply (tracks_take n).bind
  intro body
  rw [Cursor.slice?_findIdx, demand_some_bind]
  cases Text.ofUtf8? (body.takeWhile (· ≠ 0)) with
  | some s => exact tracks_pure s
  | none => exact tracks_fail _

theorem tracks_read (t : FieldType) : (read t).Tracks t.read := by
  cases t with
  | text => exact tracks_readText
  | blob => exact (tracks_word 4).bind tracks_take
  | entityType =>
    apply (tracks_word 1).bind
    intro tag
    dsimp only
    cases EntityType.ofTag? (UInt8.ofNat tag) with
    | some t => exact tracks_pure t
    | none => exact tracks_fail _
  | _ => exact (tracks_word _).bind fun _ => tracks_pure _

end Tracks

end CursorReader

namespace Cursor

open CursorReader (read)

variable {t : FieldType} {c c' : Cursor} {outcome : Except WireError t.Value}

/-- What a read makes of a cursor. -/
structure Advances (t : FieldType) (c : Cursor) (outcome : Except WireError t.Value)
    (c' : Cursor) : Prop where
  onward : c.Onward c'
  /-- What has been taken and what is left make up the bytes. -/
  total : c'.remaining? = some c'.rest.length ∧ c'.place + c'.rest.length = c'.data.length
  /-- A value takes the bytes that stand for it. -/
  value : ∀ v rest, (outcome = .ok v ∧ c'.rest = rest) ↔
    ∃ front, c.rest = front ++ rest ∧ t.Spells front v
  /-- A number or a flag that is not read takes nothing. -/
  fixed : ∀ w, t.width? = some w → ∀ e, outcome = .error e →
    e = .unexpectedEnd w c.rest.length ∧ c' = c
  /-- A length that is cut short is not taken. -/
  unmeasured : t.isFixed = false → c.rest.length < 4 →
    outcome = .error (.unexpectedEnd 4 c.rest.length) ∧ c' = c
  /-- Of a field whose body is too short the length is taken. -/
  short : t.isFixed = false → ∀ n short, n < UInt32.size → c.rest = Word.encode 4 n ++ short →
    short.length < n →
      outcome = .error (.unexpectedEnd n short.length) ∧ c'.place = c.place + 4
  /-- A text whose bytes before the first zero byte are not UTF-8 is taken whole. -/
  invalid : t = .text → ∀ body front after, Counted body front → c.rest = front ++ after →
    ¬ Text.IsUtf8 (body.takeWhile (· ≠ 0)) →
      outcome = .error .invalidText ∧ c'.place = c.place + (4 + body.length)
  /-- A tag that stands for no type is taken. -/
  tag : t = .entityType → ∀ e, outcome = .error e →
    (e = .unexpectedEnd 1 0 ∧ c' = c) ∨ ∃ b, e = .unknownEntityType b ∧ c.rest = b :: c'.rest
  /-- When a read runs out, it needs more than what is left, and says how much that is. -/
  ends : ∀ needed remaining, outcome = .error (.unexpectedEnd needed remaining) →
    remaining < needed ∧ c'.remaining? = some remaining

def after? : List FieldType → Cursor → Option Cursor
  | [], c => some c
  | t :: ts, c =>
    match read t c with
    | some (_, c') => after? ts c'
    | none => none

theorem advances_of_read (h : c.Onward c') (hr : t.read c.rest = (outcome, c'.rest)) :
    c.Advances t outcome c' := by
  constructor
  case onward => exact h
  case total =>
    have hw := h.within
    have hl := length_rest c'
    exact ⟨remaining?_eq hw, by omega⟩
  case value =>
    intro v rest
    rw [← t.recognizes_read _ _ _, hr]
    simp
  case fixed =>
    rintro w hw e rfl
    obtain ⟨rfl, hrest⟩ := FieldType.fails_of_width hw hr
    exact ⟨rfl, h.eq_of_rest hrest⟩
  case unmeasured =>
    intro ht hl
    obtain ⟨ho, hrest⟩ := Prod.mk.inj (hr.symm.trans (FieldType.read_of_unmeasured ht hl))
    exact ⟨ho, h.eq_of_rest hrest⟩
  case short =>
    intro ht n short hn hc hs
    obtain ⟨ho, hrest⟩ := Prod.mk.inj (hr.symm.trans (hc ▸ FieldType.read_of_short ht hn hs))
    refine ⟨ho, h.place_eq ?_⟩
    simp [hc, hrest]
  case invalid =>
    rintro rfl body front after hb hc hi
    obtain ⟨ho, hrest⟩ := Prod.mk.inj (hr.symm.trans (hc ▸ FieldType.read_of_invalid hb hi))
    refine ⟨ho, h.place_eq ?_⟩
    simp [hc, hrest, hb.2, Nat.add_assoc]
  case tag =>
    rintro rfl e rfl
    obtain ⟨rfl, hrest⟩ | ⟨b, rfl, hc⟩ := FieldType.fails_of_tag hr
    · exact Or.inl ⟨rfl, h.eq_of_rest hrest⟩
    · exact Or.inr ⟨b, rfl, hc⟩
  case ends =>
    rintro needed remaining rfl
    obtain ⟨hlt, hl⟩ := t.truthful_read _ _ _ _ hr
    exact ⟨hlt, by rw [remaining?_eq h.within, hl]⟩

theorem exists_advances (hc : c.place ≤ c.data.length) (t : FieldType) : ∃ outcome c',
    read t c = some (outcome, c') ∧ t.read c.rest = (outcome, c'.rest) ∧
      c.Advances t outcome c' := by
  obtain ⟨outcome, c', h, hk, hr⟩ := CursorReader.tracks_read t c hc
  exact ⟨outcome, c', hk, hr, advances_of_read h hr⟩

theorem exists_after? (hc : c.place ≤ c.data.length) (ts : List FieldType) :
    ∃ c', after? ts c = some c' ∧ c.Onward c' ∧ FieldType.unread ts c.rest = c'.rest := by
  induction ts generalizing c with
  | nil => exact ⟨c, rfl, .refl hc, rfl⟩
  | cons t ts ih =>
    obtain ⟨outcome, c₁, hk, hr, ha⟩ := exists_advances hc t
    obtain ⟨c₂, hafter, ho, hu⟩ := ih ha.onward.within
    refine ⟨c₂, ?_, ha.onward.trans ho, ?_⟩
    · simp only [after?, hk, hafter]
    · rw [FieldType.unread, hr, hu]

/-- However many reads have come before, with or without success, the cursor stands within the
bytes. The next read finds there whatever it looks at and advances the cursor as such a read must.
Readers of what is left come to the same result and leave the same bytes. -/
theorem advances_of_reads (data : Bytes) (before : List FieldType) (t : FieldType) :
    ∃ c outcome c', after? before (start data) = some c ∧ (start data).Onward c ∧
      read t c = some (outcome, c') ∧ c.Advances t outcome c' ∧
      FieldType.unread before data = c.rest ∧ t.read c.rest = (outcome, c'.rest) := by
  obtain ⟨c, hafter, ho, hu⟩ := exists_after? (c := start data) (Nat.zero_le _) before
  obtain ⟨outcome, c', hk, hr, ha⟩ := exists_advances ho.within t
  exact ⟨c, outcome, c', hafter, ho, hk, ha, hu, hr⟩

/-- A text whose body is too short, one that is not UTF-8, a number with one byte left, and that
byte. -/
example :
    let data : Bytes := [0, 0, 0, 9, 0, 0, 0, 2, 255, 65, 7]
    after? [.text] (start data) = some ⟨data, 4⟩ ∧
      after? [.text, .text] (start data) = some ⟨data, 10⟩ ∧
      after? [.text, .text, .u16] (start data) = some ⟨data, 10⟩ ∧
      after? [.text, .text, .u16, .u8] (start data) = some ⟨data, 11⟩ := by
  decide +kernel

end Cursor

end SharedWorld
