import SharedWorld.Proofs.Wire.Grammar

/-! # Bytes that end by themselves

A reader that takes a value off some bytes takes none off fewer: on every front of them it runs
out inside some field, before anything else about that field is looked at.
-/

namespace SharedWorld

namespace Reader

variable {α β : Type} {r : Reader α} {P : Bytes → α → Prop} {n : Nat} {bs xs ys : Bytes} {a : α}

/-- On every front of the bytes but the whole the reader runs out. -/
def Starves (r : Reader α) (bs : Bytes) : Prop :=
  ∀ front, front <+: bs → front ≠ bs →
    ∃ needed remaining rest, remaining < needed ∧
      r front = (.error (.unexpectedEnd needed remaining), rest)

theorem prefix_append_cases {front : Bytes} (hp : front <+: xs ++ ys) (hne : front ≠ xs ++ ys) :
    (front <+: xs ∧ front ≠ xs) ∨ ∃ short, short <+: ys ∧ short ≠ ys ∧ front = xs ++ short := by
  by_cases hx : xs <+: front
  · obtain ⟨short, rfl⟩ := hx
    refine Or.inr ⟨short, (List.prefix_append_right_inj xs).mp hp, ?_, rfl⟩
    rintro rfl
    exact hne rfl
  · refine Or.inl ⟨?_, fun he => hx (he ▸ List.prefix_rfl)⟩
    exact (List.prefix_or_prefix_of_prefix hp (List.prefix_append xs ys)).resolve_right hx

theorem starves_nil (r : Reader α) : r.Starves [] := by
  intro front hp hne
  exact absurd (List.prefix_nil.mp hp) hne

theorem starves_take (h : bs.length = n) : (take n).Starves bs := by
  intro front hp hne
  have hle := hp.length_le
  have hl : front.length ≠ bs.length := fun hl => hne (hp.eq_of_length hl)
  have hlt : front.length < n := by omega
  exact ⟨n, front.length, front, hlt, take_of_lt hlt⟩

theorem Recognizes.starves_bind {f : α → Reader β} (h : r.Recognizes P) (hx : P xs a)
    (hr : r.Starves xs) (hf : (f a).Starves ys) : (r >>= f).Starves (xs ++ ys) := by
  intro front hp hne
  obtain ⟨hp', hn⟩ | ⟨short, hs, hn, rfl⟩ := prefix_append_cases hp hne
  · obtain ⟨needed, remaining, rest, hlt, he⟩ := hr front hp' hn
    exact ⟨needed, remaining, rest, hlt, bind_of_error he⟩
  · obtain ⟨needed, remaining, rest, hlt, he⟩ := hf short hs hn
    have ha : r (xs ++ short) = (.ok a, short) := (h _ _ _).mpr ⟨xs, rfl, hx⟩
    exact ⟨needed, remaining, rest, hlt, (bind_of_ok ha).trans he⟩

theorem Starves.bind {f : α → Reader β} (h : r.Recognizes P) (hx : P xs a) (hr : r.Starves xs) :
    (r >>= f).Starves xs := by
  rw [← List.append_nil xs]
  exact h.starves_bind hx hr (starves_nil _)

theorem starves_word (h : bs.length = n) : (word n).Starves bs :=
  (starves_take h).bind (recognizes_take n) ⟨rfl, h⟩

theorem starves_fixed {f : Nat → Reader β} {v : Nat} (hv : v < Word.size n) :
    (word n >>= f).Starves (Word.encode n v) :=
  (starves_word (Word.length_encode n v)).bind (recognizes_word n) ⟨hv, rfl⟩

end Reader

theorem Counted.starves {body front : Bytes} (h : Counted body front) :
    (do Reader.take (← Reader.word 4)).Starves front := by
  rw [h.2]
  exact (Reader.recognizes_word 4).starves_bind ⟨h.1, rfl⟩
    (Reader.starves_word (Word.length_encode 4 _)) (Reader.starves_take rfl)

theorem FieldType.Spells.starves {t : FieldType} {front : Bytes} {v : t.Value}
    (h : t.Spells front v) : t.read.Starves front := by
  cases t with
  | u8 => exact h ▸ Reader.starves_fixed v.toNat_lt
  | u16 => exact h ▸ Reader.starves_fixed v.toNat_lt
  | u32 => exact h ▸ Reader.starves_fixed v.toNat_lt
  | u64 => exact h ▸ Reader.starves_fixed v.toNat_lt
  | i32 => exact h ▸ Reader.starves_fixed v.toUInt32.toNat_lt
  | flag =>
    obtain ⟨b, rfl, -⟩ := h
    rw [← encode_one]
    exact Reader.starves_fixed b.toNat_lt
  | text =>
    obtain ⟨body, ⟨hn, rfl⟩, -⟩ := h
    exact (Reader.recognizes_word 4).starves_bind ⟨hn, rfl⟩
      (Reader.starves_word (Word.length_encode 4 _))
      ((Reader.starves_take rfl).bind (Reader.recognizes_take _) ⟨rfl, rfl⟩)
  | blob => exact Counted.starves h
  | entityType =>
    obtain rfl : front = [v.tag] := h
    rw [← encode_one]
    exact Reader.starves_fixed v.tag.toNat_lt

theorem Record.Spells.starves {ts : List FieldType} {fields : List Bytes} {r : Record ts}
    (h : Spells ts fields r) : (Record.read ts).Starves fields.flatten := by
  induction ts generalizing fields with
  | nil =>
    obtain rfl : fields = [] := h
    exact Reader.starves_nil _
  | cons t ts ih =>
    obtain ⟨f, fs, rfl, hf, hfs⟩ := h
    exact t.recognizes_read.starves_bind hf hf.starves
      ((ih hfs).bind (Record.recognizes_read ts) ⟨fs, rfl, hfs⟩)

end SharedWorld
