import Mathlib.Data.String.Basic
import SharedWorld.Proofs.Packet.Sizes

/-! # Sequences of fields

Fields that are written one after another are read back one after another. A text of a declared
length is cut to the longest front of whole characters that this length holds, and what is left
of the length is filled up, so the next field begins where it should.
-/

namespace SharedWorld

namespace Text

variable {n : Nat} {cs taken : List Char} {s : String}

/-- Of the fronts of a text that take at most `n` bytes this is the longest. -/
structure Longest (n : Nat) (s kept : String) : Prop where
  front : kept.toList <+: s.toList
  within : kept.utf8ByteSize ≤ n
  longest : ∀ other : String, other.toList <+: s.toList → other.utf8ByteSize ≤ n →
    other.toList <+: kept.toList

theorem takeFitting_eq (n : Nat) (cs taken : List Char) :
    takeFitting n cs taken = taken.reverse ++ takeFitting n cs [] := by
  induction cs generalizing n taken with
  | nil => simp [takeFitting]
  | cons c cs ih =>
    simp only [takeFitting]
    split
    · rw [ih _ (c :: taken), ih _ [c], List.reverse_cons, List.append_assoc]
      rfl
    · simp

theorem takeFitting_cons (c : Char) (cs : List Char) : takeFitting n (c :: cs) [] =
    if c.utf8Size ≤ n then c :: takeFitting (n - c.utf8Size) cs [] else [] := by
  rw [takeFitting, takeFitting_eq]
  rfl

theorem takeFitting_prefix (n : Nat) (cs : List Char) : takeFitting n cs [] <+: cs := by
  induction cs generalizing n with
  | nil => exact List.nil_prefix
  | cons c cs ih =>
    rw [takeFitting_cons]
    split
    · exact (List.prefix_cons_inj c).mpr (ih _)
    · exact List.nil_prefix

theorem utf8Len_takeFitting_le (n : Nat) (cs : List Char) :
    String.utf8Len (takeFitting n cs []) ≤ n := by
  induction cs generalizing n with
  | nil => exact Nat.zero_le n
  | cons c cs ih =>
    rw [takeFitting_cons]
    split
    · have := ih (n - c.utf8Size)
      rw [String.utf8Len_cons]
      omega
    · exact Nat.zero_le n

theorem prefix_takeFitting {other : List Char} (hp : other <+: cs)
    (hn : String.utf8Len other ≤ n) : other <+: takeFitting n cs [] := by
  induction cs generalizing n other with
  | nil =>
    rw [List.prefix_nil.mp hp]
    exact List.nil_prefix
  | cons c cs ih =>
    cases other with
    | nil => exact List.nil_prefix
    | cons d other =>
      obtain ⟨rfl, hrest⟩ := List.cons_prefix_cons.mp hp
      rw [String.utf8Len_cons] at hn
      rw [takeFitting_cons, if_pos (by omega)]
      exact (List.prefix_cons_inj d).mpr (ih hrest (by omega))

theorem longest_fitting (n : Nat) (s : String) : Longest n s (fitting n s) := by
  unfold fitting
  split
  · next h => exact ⟨List.prefix_rfl, h, fun _ hp _ => hp⟩
  · refine ⟨?_, ?_, fun other hp hn => ?_⟩
    · rw [String.toList_ofList]
      exact takeFitting_prefix n _
    · rw [String.utf8ByteSize_ofList]
      exact utf8Len_takeFitting_le n _
    · rw [String.toList_ofList]
      rw [← String.utf8Len_toList] at hn
      exact prefix_takeFitting hp hn

end Text

/-- What is written at a time: a value of its type, or a text with the length that is declared
for it. -/
inductive Piece
  | field (t : FieldType) (v : t.Value)
  | declared (length : UInt32) (s : String)

namespace Piece

variable {e : Piece} {es : List Piece} {buffer : Bytes}

@[reducible] def type : Piece → FieldType
  | field t _ => t
  | declared _ _ => .text

def write : Piece → Bytes
  | field t v => t.write v
  | declared length s => FieldType.writeText length.toNat s

def append (buffer : Bytes) (e : Piece) : Bytes := buffer ++ e.write

def size : Piece → Nat
  | field t v => t.size v
  | declared length _ => 4 + length.toNat

def Fits : Piece → Prop
  | field t v => t.Fits v
  | declared _ _ => True

def Leaves : (e : Piece) → e.type.Value → Prop
  | field t v, v' => v' = t.mapText Text.untilNul v
  | declared length s, v' => ∃ kept, Text.Longest length.toNat s kept ∧ v' = Text.untilNul kept

/-- The record has for each piece what is to be read for it. -/
def LeavesAll : (es : List Piece) → Record (es.map type) → Prop
  | [], _ => True
  | e :: es, (v, vs) => e.Leaves v ∧ LeavesAll es vs

theorem length_writeText (n : Nat) (s : String) : (FieldType.writeText n s).length = 4 + n := by
  have hle : (Text.utf8 (Text.fitting n s)).length ≤ n := by
    rw [Text.length_utf8]
    exact (Text.longest_fitting n s).within
  simp only [FieldType.writeText, List.length_append, Word.length_encode, List.length_replicate]
  omega

theorem length_write (h : e.Fits) : e.write.length = e.size := by
  cases e with
  | field t v => exact FieldType.length_write h
  | declared length s => exact length_writeText length.toNat s

theorem spells_writeText {n : Nat} (hn : n < UInt32.size) (s : String) :
    FieldType.text.Spells (FieldType.writeText n s) (Text.untilNul (Text.fitting n s)) := by
  let gap := n - (Text.utf8 (Text.fitting n s)).length
  have hbody : (Text.utf8 (Text.fitting n s) ++ List.replicate gap 0).length = n := by
    have hl := length_writeText n s
    rw [FieldType.writeText, List.length_append, Word.length_encode] at hl
    exact Nat.add_left_cancel hl
  refine ⟨_, ⟨by rwa [hbody], by rw [hbody]; rfl⟩, ?_⟩
  -- The bytes that fill the text up are zero, so reading stops before them.
  have hgap : (List.replicate gap (0 : UInt8)).takeWhile (· ≠ 0) = [] := by
    cases gap <;> rfl
  rw [← Text.takeWhile_utf8, List.takeWhile_append, hgap, List.append_nil]
  split
  · next hl => exact ((List.takeWhile_prefix _).eq_of_length hl).symm
  · rfl

theorem exists_spells_write (h : e.Fits) : ∃ v, e.type.Spells e.write v ∧ e.Leaves v := by
  cases e with
  | field t v => exact ⟨_, FieldType.spells_write h, rfl⟩
  | declared length s =>
    exact ⟨_, spells_writeText length.toNat_lt s, _, Text.longest_fitting length.toNat s, rfl⟩

theorem exists_spells_map_write (h : ∀ e ∈ es, e.Fits) :
    ∃ r, Record.Spells (es.map type) (es.map write) r ∧ LeavesAll es r := by
  induction es with
  | nil => exact ⟨(), rfl, trivial⟩
  | cons e es ih =>
    obtain ⟨v, hv, hl⟩ := exists_spells_write (h e List.mem_cons_self)
    obtain ⟨vs, hvs, hls⟩ := ih fun e he => h e (List.mem_cons_of_mem _ he)
    exact ⟨(v, vs), ⟨_, _, rfl, hv, hvs⟩, hl, hls⟩

theorem foldl_append (buffer : Bytes) (es : List Piece) :
    es.foldl append buffer = buffer ++ (es.map write).flatten := by
  induction es generalizing buffer with
  | nil => simp
  | cons e es ih => rw [List.foldl_cons, ih, append, List.append_assoc]; rfl

/-- Every piece takes its size, and all of them come back, the texts up to their first NUL, with
nothing left over. -/
theorem read_foldl_append (h : ∀ e ∈ es, e.Fits) :
    (∀ e ∈ es, ∀ buffer, (append buffer e).length = buffer.length + e.size) ∧
      ∃ r, Record.read (es.map type) (es.foldl append []) = (.ok r, []) ∧ LeavesAll es r := by
  constructor
  · intro e he buffer
    rw [append, List.length_append, length_write (h e he)]
  · obtain ⟨r, hs, hl⟩ := exists_spells_map_write h
    refine ⟨r, (Record.recognizes_read _ _ _ _).mpr ⟨_, ?_, _, rfl, hs⟩, hl⟩
    rw [foldl_append, List.nil_append, List.append_nil]

def cutName : List Piece := [declared 3 "éé", field .text "a\x00b", field .u16 7]

theorem read_foldl_append_cutName :
    (∀ e ∈ cutName, e.Fits) ∧
      (∃ r, Record.read (cutName.map type) (cutName.foldl append []) = (.ok r, []) ∧
        LeavesAll cutName r) ∧
      Record.read [.text, .text, .u16] (cutName.foldl append []) = (.ok ("é", "a", 7, ()), []) := by
  have h : ∀ e ∈ cutName, e.Fits := by
    have ha : "a\x00b".utf8ByteSize < UInt32.size := by decide +kernel
    simpa [cutName, Fits, FieldType.Fits] using ha
  exact ⟨h, (read_foldl_append h).2, by decide +kernel⟩

end Piece

end SharedWorld
