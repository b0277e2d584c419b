import SharedWorld.Link.Error
import SharedWorld.Wire.Frame

/-! # Inbound streams

Bytes that arrive in pieces of any length, and the frames that they make up. Where
the pieces end makes no difference.
-/

namespace SharedWorld

/-- What is still to arrive. After the last piece the stream ends, or breaks for a cause. -/
structure Inbound where
  pieces : List Bytes
  failure : Option String := none
  deriving DecidableEq, Repr

namespace Inbound

/-- Up to `n` bytes from the front of the pieces, and the pieces that are left. -/
def gather : Nat → List Bytes → Bytes × List Bytes
  | _, [] => ([], [])
  | n, p :: ps =>
    match p.drop n with
    | [] =>
      let (bs, rest) := gather (n - p.length) ps
      (p ++ bs, rest)
    | left => (p.take n, left :: ps)

theorem gather_eq (n : Nat) (ps : List Bytes) :
    (gather n ps).1 = ps.flatten.take n ∧ (gather n ps).2.flatten = ps.flatten.drop n := by
  induction ps generalizing n with
  | nil => simp [gather]
  | cons p ps ih =>
    unfold gather
    split
    next h =>
      have h := List.drop_eq_nil_iff.mp h
      simp [ih, List.take_append, List.drop_append, List.take_of_length_le h, h]
    next h =>
      have h := Nat.le_of_lt (Nat.lt_of_not_le (mt List.drop_eq_nil_iff.mpr h))
      simp [List.take_append_of_le_length h, List.drop_append_of_le_length h]

/-- Why fewer bytes arrived than were asked for. -/
def broken (s : Inbound) (otherwise : LinkError) : LinkError :=
  match s.failure with
  | some cause => .receiveFailed cause
  | none => otherwise

/-- The next frame, or nothing at the end of the stream. -/
def readFrame (s : Inbound) : Except LinkError (Option Bytes) × Inbound :=
  let (sizeField, rest) := gather 4 s.pieces
  let afterSize := { s with pieces := rest }
  if sizeField.length < 4 then
    if sizeField = [] ∧ s.failure = none then (.ok none, afterSize)
    else (.error (s.broken (.sizeCut sizeField.length)), afterSize)
  else
    match Frame.declaredSize sizeField with
    | .error e => (.error (.wire e), afterSize)
    | .ok size =>
      let (body, rest) := gather (size - 4) rest
      let afterFrame := { s with pieces := rest }
      if body.length < size - 4 then (.error (s.broken (.frameCut size)), afterFrame)
      else (.ok (some (sizeField ++ body)), afterFrame)

def byteCount (s : Inbound) : Nat := s.pieces.flatten.length

theorem byteCount_readFrame {s t : Inbound} {frame : Bytes}
    (h : s.readFrame = (.ok (some frame), t)) : t.byteCount < s.byteCount := by
  have h₁ := gather_eq 4 s.pieces
  unfold readFrame at h
  generalize gather 4 s.pieces = g at h h₁
  obtain ⟨sizeField, rest⟩ := g
  simp only at h h₁
  split at h
  · split at h <;> simp at h
  · split at h
    · simp at h
    next hlen size _ =>
      have h₂ := gather_eq (size - 4) rest
      generalize gather (size - 4) rest = g at h h₂
      obtain ⟨body, rest'⟩ := g
      simp only at h h₂
      split at h
      · simp at h
      · simp only [Prod.mk.injEq, Except.ok.injEq, Option.some.injEq] at h
        obtain ⟨-, rfl⟩ := h
        have hs := congrArg List.length h₁.1
        simp only [List.length_take] at hs
        simp only [byteCount, h₂.2, h₁.2, List.length_drop]
        omega

/-- All frames up to the end of the stream or its first fault. -/
def frames (s : Inbound) : List Bytes × Except LinkError Unit :=
  match _ : s.readFrame with
  | (.ok none, _) => ([], .ok ())
  | (.error e, _) => ([], .error e)
  | (.ok (some frame), t) =>
    let (fs, last) := t.frames
    (frame :: fs, last)
termination_by s.byteCount
decreasing_by exact byteCount_readFrame ‹_›

end Inbound

end SharedWorld
