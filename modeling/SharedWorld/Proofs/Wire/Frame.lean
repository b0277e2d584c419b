import SharedWorld.Wire.Frame

/-! # Frames and what is in them

A frame is written when it is not too large, and it is read when it declares its own length
and is neither too small nor too large. Reading gives back the tag and the payload.
-/

namespace SharedWorld

namespace Frame

variable {tag : UInt8} {payload f : Bytes}

theorem encode_eq_ok_iff : encode tag payload = .ok f ↔
    headerSize + payload.length ≤ maxSize ∧
      f = Word.encode 4 (headerSize + payload.length) ++ tag :: payload := by
  unfold encode
  dsimp only
  split
  · next h => simp [Nat.not_le_of_lt h]
  · next h => simp [Nat.le_of_not_lt h, eq_comm]

theorem checkSize_eq_ok_iff {n m : Nat} :
    checkSize n = .ok m ↔ m = n ∧ headerSize ≤ n ∧ n ≤ maxSize := by
  unfold checkSize
  split
  · next h => simp [Nat.not_le_of_lt h]
  · next h =>
    split
    · next h' => simp [Nat.not_le_of_lt h']
    · next h' => simp [Nat.le_of_not_lt h, Nat.le_of_not_lt h', eq_comm]

/-- The bytes of a frame with this tag and payload. -/
structure Holds (f : Bytes) (tag : UInt8) (payload : Bytes) : Prop where
  header : headerSize ≤ f.length
  declared : Word.decode (f.take 4) = f.length
  bounded : f.length ≤ maxSize
  tag : f[4]? = some tag
  payload : f.drop headerSize = payload

theorem decode_eq_ok_iff : decode f = .ok (tag, payload) ↔ Holds f tag payload := by
  constructor
  · intro h
    unfold decode at h
    split at h
    · next a b c d t body =>
      cases hs : declaredSize [a, b, c, d] with
      | error e =>
        rw [hs] at h
        cases h
      | ok n =>
        obtain ⟨hn, hlow, hhigh⟩ := checkSize_eq_ok_iff.mp hs
        rw [hs] at h
        dsimp only [Bind.bind, Except.bind] at h
        split at h
        · next hlen =>
          cases h
          have hf : (a :: b :: c :: d :: tag :: payload).length = n := by
            rw [hlen]
            simp only [List.length_cons, headerSize]
            omega
          exact ⟨by omega, by rw [hf, hn]; rfl, by omega, rfl, rfl⟩
        · cases h
    · cases h
  · rintro ⟨hlow, hn, hhigh, ht, rfl⟩
    match f, hlow with
    | a :: b :: c :: d :: t :: body, hlow =>
      obtain rfl : t = tag := Option.some.inj ht
      have hs : declaredSize [a, b, c, d] = .ok (headerSize + body.length) := by
        have hf : (a :: b :: c :: d :: t :: body).length = headerSize + body.length := by
          simp only [List.length_cons, headerSize]
          omega
        rw [← hf]
        exact checkSize_eq_ok_iff.mpr ⟨hn.symm, hn ▸ hlow, hn ▸ hhigh⟩
      unfold decode
      dsimp only
      rw [hs]
      exact if_pos rfl

theorem eq_of_holds (h : Holds f tag payload) :
    f = Word.encode 4 (headerSize + payload.length) ++ tag :: payload := by
  obtain ⟨hlow, hn, -, ht, rfl⟩ := h
  have hlen : headerSize + (f.drop headerSize).length = f.length := by
    rw [List.length_drop]
    omega
  have h4 : 4 < f.length := hlow
  obtain ⟨_, rfl⟩ := List.getElem?_eq_some_iff.mp ht
  have htake : Word.encode 4 f.length = f.take 4 := by
    have := Word.encode_decode (f.take 4)
    rwa [hn, List.length_take, Nat.min_eq_left (Nat.le_of_lt h4)] at this
  have hdrop : f[4] :: f.drop headerSize = f.drop 4 := (List.drop_eq_getElem_cons h4).symm
  rw [hlen, htake, hdrop, List.take_append_drop]

theorem decode_of_encode (h : encode tag payload = .ok f) : decode f = .ok (tag, payload) := by
  obtain ⟨hle, rfl⟩ := encode_eq_ok_iff.mp h
  have hlen : (Word.encode 4 (headerSize + payload.length) ++ tag :: payload).length =
      headerSize + payload.length := by
    simp only [List.length_append, Word.length_encode, List.length_cons, headerSize]
    omega
  have hsize : headerSize + payload.length < Word.size 4 :=
    Nat.lt_of_le_of_lt hle (by decide)
  refine decode_eq_ok_iff.mpr ⟨by omega, ?_, by omega, ?_, ?_⟩
  · rw [hlen, List.take_left' (Word.length_encode 4 _), Word.decode_encode, Nat.mod_eq_of_lt hsize]
  · rw [List.getElem?_append_right (by simp)]
    simp
  · rw [← List.singleton_append, ← List.append_assoc, List.drop_left' (by simp [headerSize])]

end Frame

end SharedWorld
