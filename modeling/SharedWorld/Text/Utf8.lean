import SharedWorld.Wire.Word

/-! # Text as bytes

UTF-8 in both directions, and the longest prefix of whole characters that fits in
a number of bytes.
-/

namespace SharedWorld

namespace Text

def utf8 (s : String) : Bytes := s.toByteArray.data.toList

def ofUtf8? (bs : Bytes) : Option String := String.fromUTF8? ⟨bs.toArray⟩

theorem ofUtf8?_utf8 (s : String) : ofUtf8? (utf8 s) = some s := by
  have h : (⟨(utf8 s).toArray⟩ : ByteArray) = s.toByteArray := by simp [utf8]
  simp only [ofUtf8?, h, String.fromUTF8?, String.fromUTF8]
  simp [s.isValidUTF8]

theorem ofUtf8?_eq_some_iff {bs : Bytes} {s : String} : ofUtf8? bs = some s ↔ bs = utf8 s := by
  constructor
  · intro h
    simp only [ofUtf8?, String.fromUTF8?, String.fromUTF8] at h
    split at h
    · simp only [Option.some.injEq] at h
      subst h
      simp [utf8]
    · simp at h
  · rintro rfl
    exact ofUtf8?_utf8 s

theorem length_utf8 (s : String) : (utf8 s).length = s.utf8ByteSize := by
  simp [utf8]

/-- Characters from the front for as long as `n` bytes hold them. -/
def takeFitting (n : Nat) : List Char → List Char → List Char
  | [], taken => taken.reverse
  | c :: cs, taken =>
    if c.utf8Size ≤ n then takeFitting (n - c.utf8Size) cs (c :: taken) else taken.reverse

/-- The longest prefix of whole characters within `n` bytes. -/
def fitting (n : Nat) (s : String) : String :=
  if s.utf8ByteSize ≤ n then s else String.ofList (takeFitting n s.toList [])

end Text

end SharedWorld
