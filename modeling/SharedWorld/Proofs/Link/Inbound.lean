import Mathlib.Data.List.Forall2
import SharedWorld.Link.Inbound
import SharedWorld.Link.Outbox
import SharedWorld.Proofs.Wire.Frame

/-! # Streams of frames

A stream of bytes has one reading: the longest row of frames at its front, and the reason why
the bytes behind it do not begin with a frame. The pieces in which they arrive play no part in
it. Frames that are written one after another are read as they were written.
-/

namespace SharedWorld

namespace Frame

variable {f g x y : Bytes}

/-- The first four bytes declare the length of the whole, and it is an allowed one. -/
def WellSized (f : Bytes) : Prop := declaredSize (f.take 4) = .ok f.length

instance (f : Bytes) : Decidable (WellSized f) :=
  inferInstanceAs (Decidable (declaredSize (f.take 4) = .ok f.length))

theorem wellSized_iff : WellSized f ↔
    Word.decode (f.take 4) = f.length ∧ headerSize ≤ f.length ∧ f.length ≤ maxSize := by
  unfold WellSized declaredSize
  rw [checkSize_eq_ok_iff]
  constructor
  · rintro ⟨h, hlow, hhigh⟩
    exact ⟨h.symm, h ▸ hlow, h ▸ hhigh⟩
  · rintro ⟨h, hlow, hhigh⟩
    exact ⟨h.symm, h ▸ hlow, h ▸ hhigh⟩

theorem wellSized_iff_exists_decode :
    WellSized f ↔ ∃ tag payload, decode f = .ok (tag, payload) := by
  constructor
  · intro h
    obtain ⟨hd, hlow, hhigh⟩ := wellSized_iff.mp h
    have h4 : 4 < f.length := hlow
    exact ⟨f[4], f.drop headerSize,
      decode_eq_ok_iff.mpr ⟨hlow, hd, hhigh, List.getElem?_eq_getElem h4, rfl⟩⟩
  · rintro ⟨tag, payload, h⟩
    obtain ⟨hlow, hd, hhigh, -, -⟩ := decode_eq_ok_iff.mp h
    exact wellSized_iff.mpr ⟨hd, hlow, hhigh⟩

theorem WellSized.take_append (h : WellSized f) (x : Bytes) : (f ++ x).take 4 = f.take 4 := by
  obtain ⟨-, hlow, -⟩ := wellSized_iff.mp h
  exact List.take_append_of_le_length (Nat.le_of_lt hlow)

/-- Where a frame begins is also told where it ends. -/
theorem WellSized.eq_of_append (hf : WellSized f) (hg : WellSized g) (h : f ++ x = g ++ y) :
    f = g ∧ x = y := by
  refine List.append_inj h ?_
  rw [← (wellSized_iff.mp hf).1, ← (wellSized_iff.mp hg).1, ← hf.take_append x, h,
    hg.take_append y]

end Frame

namespace Inbound

open SharedWorld.Frame (WellSized)

variable {s : Inbound} {bs f rest tail : Bytes} {fs gs : List Bytes} {last : Except LinkError Unit}

/-- How a stream ends on bytes that do not begin with a frame. -/
inductive Ends : Bytes → Except LinkError Unit → Prop
  | clean : Ends [] (.ok ())
  | sizeCut {bs : Bytes} (hne : bs ≠ []) (hlen : bs.length < 4) :
      Ends bs (.error (.sizeCut bs.length))
  | tooSmall {bs : Bytes} (hlen : 4 ≤ bs.length)
      (hsize : Word.decode (bs.take 4) < Frame.headerSize) :
      Ends bs (.error (.wire (.frameTooSmall (Word.decode (bs.take 4)))))
  | tooLarge {bs : Bytes} (hlen : 4 ≤ bs.length)
      (hsize : Frame.maxSize < Word.decode (bs.take 4)) :
      Ends bs (.error (.wire (.frameTooLarge (Word.decode (bs.take 4)) Frame.maxSize)))
  | frameCut {bs : Bytes} (hlow : Frame.headerSize ≤ Word.decode (bs.take 4))
      (hhigh : Word.decode (bs.take 4) ≤ Frame.maxSize) (hlen : 4 ≤ bs.length)
      (hcut : bs.length < Word.decode (bs.take 4)) :
      Ends bs (.error (.frameCut (Word.decode (bs.take 4))))

theorem frame_or_ends (bs : Bytes) :
    (∃ f rest, WellSized f ∧ bs = f ++ rest) ∨ ∃ last, Ends bs last := by
  by_cases hlen : bs.length < 4
  · by_cases hne : bs = []
    · subst hne
      exact Or.inr ⟨_, .clean⟩
    · exact Or.inr ⟨_, .sizeCut hne hlen⟩
  have hlen := Nat.le_of_not_lt hlen
  by_cases hlow : Word.decode (bs.take 4) < Frame.headerSize
  · exact Or.inr ⟨_, .tooSmall hlen hlow⟩
  by_cases hhigh : Frame.maxSize < Word.decode (bs.take 4)
  · exact Or.inr ⟨_, .tooLarge hlen hhigh⟩
  by_cases hcut : bs.length < Word.decode (bs.take 4)
  · exact Or.inr ⟨_, .frameCut (Nat.le_of_not_lt hlow) (Nat.le_of_not_lt hhigh) hlen hcut⟩
  refine Or.inl ⟨bs.take (Word.decode (bs.take 4)), _, ?_, (List.take_append_drop _ bs).symm⟩
  have h4 : 4 ≤ Word.decode (bs.take 4) := by
    unfold Frame.headerSize at hlow
    omega
  rw [Frame.wellSized_iff, List.take_take, Nat.min_eq_left h4, List.length_take]
  omega

theorem not_ends_of_wellSized (h : WellSized f) : ¬ Ends (f ++ rest) last := by
  obtain ⟨hd, hlow, hhigh⟩ := Frame.wellSized_iff.mp h
  have h5 : 5 ≤ f.length := hlow
  generalize hb : f ++ rest = b
  intro he
  have htake : Word.decode (b.take 4) = f.length := by rw [← hb, h.take_append, hd]
  have hlen : f.length ≤ b.length := by simp [← hb]
  cases he with
  | clean =>
    rw [List.length_nil] at hlen
    omega
  | sizeCut => omega
  | tooSmall | tooLarge | frameCut => omega

theorem readFrame_of_wellSized (hs : s.failure = none) (hf : WellSized f)
    (hb : s.pieces.flatten = f ++ rest) :
    ∃ t, s.readFrame = (.ok (some f), t) ∧ t.failure = none ∧ t.pieces.flatten = rest := by
  obtain ⟨-, hlow, -⟩ := Frame.wellSized_iff.mp hf
  have h5 : 5 ≤ f.length := hlow
  obtain ⟨hsize, hrest⟩ := gather_eq 4 s.pieces
  rw [hb, hf.take_append] at hsize
  rw [hb, List.drop_append_of_le_length (by omega)] at hrest
  unfold readFrame
  generalize gather 4 s.pieces = g at hsize hrest ⊢
  obtain ⟨sizeField, ps⟩ := g
  dsimp only at hsize hrest ⊢
  subst hsize
  have hlen : ¬ (f.take 4).length < 4 := by
    rw [List.length_take]
    omega
  have hbody : (f.drop 4).length = f.length - 4 := List.length_drop
  rw [if_neg hlen, show Frame.declaredSize (f.take 4) = .ok f.length from hf]
  dsimp only
  obtain ⟨hbodyEq, hleft⟩ := gather_eq (f.length - 4) ps
  rw [hrest, List.take_left' hbody] at hbodyEq
  rw [hrest, List.drop_left' hbody] at hleft
  rw [hbodyEq, if_neg (by omega), List.take_append_drop]
  exact ⟨_, rfl, hs, hleft⟩

theorem readFrame_of_ends (hs : s.failure = none) (h : Ends s.pieces.flatten last) :
    s.readFrame.1 = last.map fun _ => none := by
  obtain ⟨hsize, hrest⟩ := gather_eq 4 s.pieces
  generalize s.pieces.flatten = bs at h hsize hrest
  unfold readFrame
  generalize gather 4 s.pieces = g at hsize hrest ⊢
  obtain ⟨sizeField, ps⟩ := g
  dsimp only at hsize hrest ⊢
  have hlen : sizeField.length = min 4 bs.length := by rw [hsize, List.length_take]
  cases h with
  | clean =>
    have hnil : sizeField = [] := by rw [hsize, List.take_nil]
    rw [if_pos (by rw [hlen]; simp), if_pos ⟨hnil, hs⟩]
    rfl
  | sizeCut hne hcut =>
    rw [List.take_of_length_le (Nat.le_of_lt hcut)] at hsize
    subst hsize
    rw [if_pos hcut, if_neg fun h => hne h.1, broken, hs]
    rfl
  | tooSmall h4 hlow =>
    rw [if_neg (by omega), hsize, Frame.declaredSize, Frame.checkSize, if_pos hlow]
    rfl
  | tooLarge h4 hhigh =>
    have hlow : ¬ Word.decode (bs.take 4) < Frame.headerSize := by
      unfold Frame.maxSize at hhigh
      unfold Frame.headerSize
      omega
    rw [if_neg (by omega), hsize, Frame.declaredSize, Frame.checkSize, if_neg hlow, if_pos hhigh]
    rfl
  | frameCut hlow hhigh h4 hcut =>
    obtain ⟨hbody, -⟩ := gather_eq (Word.decode (bs.take 4) - 4) ps
    have hshort : (bs.drop 4).length = bs.length - 4 := List.length_drop
    rw [if_neg (by omega), hsize, Frame.declaredSize,
      Frame.checkSize_eq_ok_iff.mpr ⟨rfl, hlow, hhigh⟩]
    dsimp only
    rw [if_pos, broken, hs]
    · rfl
    · rw [hbody, hrest, List.length_take]
      omega

theorem frames_eq (hs : s.failure = none) (hfs : ∀ f ∈ fs, WellSized f) (ht : Ends tail last)
    (hb : s.pieces.flatten = fs.flatten ++ tail) : s.frames = (fs, last) := by
  induction fs generalizing s with
  | nil =>
    have hr := readFrame_of_ends hs (by rwa [hb])
    unfold frames
    split
    · next h =>
      rw [h] at hr
      cases last with
      | ok => rfl
      | error => cases hr
    · next h =>
      rw [h] at hr
      cases last with
      | ok => cases hr
      | error =>
        cases hr
        rfl
    · next h =>
      rw [h] at hr
      cases last <;> cases hr
  | cons f fs ih =>
    obtain ⟨hf, hfs⟩ := List.forall_mem_cons.mp hfs
    rw [List.flatten_cons, List.append_assoc] at hb
    obtain ⟨t, hr, ht₀, htb⟩ := readFrame_of_wellSized hs hf hb
    unfold frames
    split
    · next h => cases hr.symm.trans h
    · next h => cases hr.symm.trans h
    · next h =>
      cases hr.symm.trans h
      rw [ih ht₀ hfs htb]

theorem exists_split (bs : Bytes) : ∃ (fs : List Bytes) (tail : Bytes)
    (last : Except LinkError Unit), (∀ f ∈ fs, WellSized f) ∧ bs = fs.flatten ++ tail ∧
      Ends tail last := by
  generalize hn : bs.length = n
  induction n using Nat.strongRecOn generalizing bs with
  | ind n ih =>
    obtain ⟨f, rest, hf, rfl⟩ | ⟨last, hl⟩ := frame_or_ends bs
    · have h5 : 5 ≤ f.length := (Frame.wellSized_iff.mp hf).2.1
      rw [List.length_append] at hn
      obtain ⟨fs, tail, last, hfs, rfl, ht⟩ := ih rest.length (by omega) rest rfl
      exact ⟨f :: fs, tail, last, List.forall_mem_cons.mpr ⟨hf, hfs⟩, by simp, ht⟩
    · exact ⟨[], bs, last, nofun, rfl, hl⟩

theorem prefix_of_flatten_prefix (hgs : ∀ g ∈ gs, WellSized g) (hfs : ∀ f ∈ fs, WellSized f)
    (ht : Ends tail last) (h : gs.flatten <+: fs.flatten ++ tail) : gs <+: fs := by
  induction gs generalizing fs with
  | nil => exact List.nil_prefix
  | cons g gs ih =>
    obtain ⟨hg, hgs⟩ := List.forall_mem_cons.mp hgs
    obtain ⟨more, h⟩ := h
    rw [List.flatten_cons, List.append_assoc] at h
    cases fs with
    | nil =>
      rw [List.flatten_nil, List.nil_append] at h
      exact absurd (h ▸ ht) (not_ends_of_wellSized hg)
    | cons f fs =>
      obtain ⟨hf, hmore⟩ := List.forall_mem_cons.mp hfs
      rw [List.flatten_cons, List.append_assoc] at h
      obtain ⟨rfl, hrest⟩ := hg.eq_of_append hf h
      exact List.cons_prefix_cons.mpr ⟨rfl, ih hgs hmore ⟨more, hrest⟩⟩

end Inbound

namespace Pipe

variable {p : Pipe} {frame : Bytes} {frames : List Bytes}

/-- Nothing keeps the pipe from taking all that is written to it. -/
structure Sound (p : Pipe) : Prop where
  limit : p.limit = none
  flushes : p.flushFails = false
  flows : p.stalled = false

theorem Sound.writeFrame (h : p.Sound) (frame : Bytes) : ∃ q, p.writeFrame frame = (.ok (), q) ∧
    q.Sound ∧ q.written = p.written ++ frame := by
  have ha : p.accepted frame = frame := by
    unfold accepted
    rw [h.limit]
  refine ⟨{ p with written := p.written ++ frame, flushes := p.flushes + 1 }, ?_, ?_, rfl⟩
  · unfold Pipe.writeFrame
    rw [ha, if_neg (Nat.lt_irrefl _), h.flushes]
    rfl
  · exact ⟨h.limit, h.flushes, h.flows⟩

theorem Sound.writeAll (h : p.Sound) (frames : List Bytes) :
    ∃ q, Lane.writeAll p frames = (.ok [], q) ∧ q.written = p.written ++ frames.flatten := by
  induction frames generalizing p with
  | nil => exact ⟨p, rfl, (List.append_nil _).symm⟩
  | cons frame frames ih =>
    obtain ⟨q, hw, hq, hb⟩ := h.writeFrame frame
    obtain ⟨r, hr, hrb⟩ := ih hq
    refine ⟨r, ?_, ?_⟩
    · unfold Lane.writeAll
      rw [if_neg (by simp [h.flows]), hw]
      exact hr
    · rw [hrb, hb, List.append_assoc, List.flatten_cons]

end Pipe

namespace Inbound

open SharedWorld.Frame (WellSized)

def cutStream : Bytes := [0, 0, 0, 5, 1, 0, 0]

/-- What is read from a stream depends on its bytes only, and is the longest row of frames at
their front with what stands behind it. What is written frame by frame is read frame by frame. -/
theorem frames_of_flatten (bs : Bytes) :
    (∃ fs tail last, bs = fs.flatten ++ tail ∧ (∀ f ∈ fs, WellSized f) ∧
      (∀ gs : List Bytes, (∀ g ∈ gs, WellSized g) → gs.flatten <+: bs → gs <+: fs) ∧
      Ends tail last ∧
      (∀ ps : List Bytes, ps.flatten = bs → frames { pieces := ps } = (fs, last)) ∧
      ∀ f ∈ fs, ∃ tag payload, Frame.decode f = .ok (tag, payload)) ∧
    ∀ (contents : List (UInt8 × Bytes)) (fs : List Bytes) (p : Pipe), p.Sound → p.written = [] →
      List.Forall₂ (fun content f => Frame.encode content.1 content.2 = .ok f) contents fs →
      ∃ q, Lane.writeAll p fs = (.ok [], q) ∧
        ∀ ps : List Bytes, ps.flatten = q.written → frames { pieces := ps } = (fs, .ok ()) := by
  constructor
  · obtain ⟨fs, tail, last, hfs, rfl, ht⟩ := exists_split bs
    refine ⟨fs, tail, last, rfl, hfs, fun gs hgs hp => ?_, ht, fun ps hps => ?_, fun f hf => ?_⟩
    · exact prefix_of_flatten_prefix hgs hfs ht hp
    · exact frames_eq rfl hfs ht hps
    · exact Frame.wellSized_iff_exists_decode.mp (hfs f hf)
  · intro contents fs p hp h₀ henc
    obtain ⟨q, hq, hb⟩ := hp.writeAll fs
    have hend : Ends [] (.ok ()) := .clean
    refine ⟨q, hq, fun ps hps => frames_eq rfl (fun f hf => ?_) hend ?_⟩
    · obtain ⟨i, hi, rfl⟩ := List.getElem_of_mem hf
      have he := henc.get (henc.length_eq ▸ hi) hi
      exact Frame.wellSized_iff_exists_decode.mpr ⟨_, _, Frame.decode_of_encode he⟩
    · rw [List.append_nil]
      exact hps.trans (hb.trans (by rw [h₀, List.nil_append]))

theorem frames_of_flatten_cut :
    frames { pieces := [[0, 0, 0], [5, 1, 0], [0]] } = ([[0, 0, 0, 5, 1]], .error (.sizeCut 2)) ∧
      ∃ q, Lane.writeAll {} [[0, 0, 0, 5, 1], [0, 0, 0, 6, 4, 9]] = (.ok [], q) ∧
        frames { pieces := [[0, 0, 0, 5, 1, 0], [0, 0, 6, 4, 9]] } =
          ([[0, 0, 0, 5, 1], [0, 0, 0, 6, 4, 9]], .ok ()) := by
  obtain ⟨⟨fs, tail, last, -, -, -, -, hread, -⟩, hwrite⟩ := frames_of_flatten cutStream
  constructor
  · have hcut : Ends [0, 0] (.error (.sizeCut 2)) := .sizeCut (by decide) (by decide)
    have hwhole : frames { pieces := [cutStream] } = ([[0, 0, 0, 5, 1]], .error (.sizeCut 2)) :=
      frames_eq rfl (by decide) hcut rfl
    rw [hread _ rfl, ← hread [cutStream] rfl, hwhole]
  · obtain ⟨q, hq, hback⟩ := hwrite [(1, []), (4, [9])] [[0, 0, 0, 5, 1], [0, 0, 0, 6, 4, 9]] {}
      ⟨rfl, rfl, rfl⟩ rfl (.cons (by decide) (.cons (by decide) .nil))
    refine ⟨q, hq, hback _ ?_⟩
    obtain rfl := (Prod.mk.inj hq).2
    decide

end Inbound

end SharedWorld
