import SharedWorld.Proofs.Packet.RoundTrip
import SharedWorld.Proofs.Packet.Topics

/-! # Packets on their way

A stream carries frames. A packet that does not fit into one is never sent, and every other
one is read as it was written, up to the first NUL of each text.
-/

namespace SharedWorld

namespace Packet

variable {p : Packet} {ps : List Packet}

/-- The packets of a list that fit into frames. -/
def frames (ps : List Packet) : List Bytes := ps.filterMap (·.encode.toOption)

def read (fs : List Bytes) : List Packet := fs.filterMap fun f => (decode f).toOption

/-- The packet fits into a frame. -/
def HasFrame (p : Packet) : Prop := ∃ frame, p.encode = .ok frame

@[simp] theorem read_append (fs gs : List Bytes) : read (fs ++ gs) = read fs ++ read gs :=
  List.filterMap_append

theorem read_cons_of_ok {frame : Bytes} {fs : List Bytes} (h : decode frame = .ok p) :
    read (frame :: fs) = p :: read fs := by
  simp [read, h, Except.toOption]

theorem read_frames_cons (p : Packet) (ps : List Packet) :
    (∃ e, p.encode = .error e) ∧ read (frames (p :: ps)) = read (frames ps) ∨
      (∃ frame, p.encode = .ok frame) ∧
        read (frames (p :: ps)) = p.mapText Text.untilNul :: read (frames ps) := by
  cases he : p.encode with
  | error e => exact Or.inl ⟨⟨e, rfl⟩, by simp [frames, he, Except.toOption]⟩
  | ok frame =>
    refine Or.inr ⟨⟨frame, rfl⟩, ?_⟩
    rw [← read_cons_of_ok (decode_of_encode he)]
    simp [frames, he, Except.toOption]

theorem decode_of_mem_frames {frame : Bytes} (h : frame ∈ frames ps) :
    ∃ p, decode frame = .ok p := by
  obtain ⟨p, -, hp⟩ := List.mem_filterMap.mp h
  cases he : p.encode with
  | error e =>
    rw [he] at hp
    cases hp
  | ok frame' =>
    rw [he] at hp
    cases hp
    exact ⟨_, decode_of_encode he⟩

theorem mapText_of_mem_read {fs : List Bytes} (h : p ∈ read fs) : p.mapText Text.untilNul = p := by
  obtain ⟨frame, -, hp⟩ := List.mem_filterMap.mp h
  cases hd : decode frame with
  | error e =>
    rw [hd] at hp
    cases hp
  | ok q =>
    rw [hd] at hp
    cases hp
    exact mapText_of_decode hd

theorem exists_of_mem_read_frames (h : p ∈ read (frames ps)) :
    ∃ p₀ ∈ ps, p = p₀.mapText Text.untilNul := by
  induction ps with
  | nil => cases h
  | cons p₀ ps ih =>
    rcases read_frames_cons p₀ ps with ⟨-, hr⟩ | ⟨-, hr⟩ <;> rw [hr] at h
    · obtain ⟨p₁, hp₁, rfl⟩ := ih h
      exact ⟨p₁, List.mem_cons_of_mem _ hp₁, rfl⟩
    · rcases List.mem_cons.mp h with rfl | h
      · exact ⟨p₀, List.mem_cons_self, rfl⟩
      · obtain ⟨p₁, hp₁, rfl⟩ := ih h
        exact ⟨p₁, List.mem_cons_of_mem _ hp₁, rfl⟩

@[simp] theorem isOrder_mapText (f : String → String) (p : Packet) :
    (p.mapText f).isOrder = p.isOrder := by
  cases p <;> rfl

@[simp] theorem isLogin_mapText (f : String → String) (p : Packet) :
    (p.mapText f).isLogin = p.isLogin := by
  cases p <;> rfl

@[simp] theorem loads?_mapText (f : String → String) (p : Packet) :
    (p.mapText f).loads? = p.loads?.map f := by
  cases p <;> rfl

theorem Ordered.mapText (h : Ordered ps) (f : String → String) :
    Ordered (ps.map (·.mapText f)) := by
  obtain rfl | ⟨q, loads, rfl⟩ := h
  · exact Or.inl rfl
  · exact Or.inr ⟨q, loads.map f, by simp [mapText, Function.comp_def]⟩

theorem authenticate_of_mapText {f : String → String} {user password : String}
    (h : p.mapText f = authenticate user password) :
    ∃ user₀ password₀, p = authenticate user₀ password₀ ∧ user = f user₀ := by
  cases p with
  | authenticate user₀ password₀ =>
    cases h
    exact ⟨user₀, password₀, rfl, rfl⟩
  | _ => cases h

theorem orders_read_frames (h : ∀ p ∈ ps, p.isOrder → p.HasFrame) :
    (read (frames ps)).filter (·.isOrder) =
      (ps.filter (·.isOrder)).map (·.mapText Text.untilNul) := by
  induction ps with
  | nil => rfl
  | cons p ps ih =>
    obtain ⟨hp, hps⟩ := List.forall_mem_cons.mp h
    rcases read_frames_cons p ps with ⟨⟨e, he⟩, hr⟩ | ⟨-, hr⟩ <;> rw [hr]
    · have ho : p.isOrder = false := by
        refine Bool.eq_false_iff.mpr fun ho => ?_
        obtain ⟨frame, hf⟩ := hp ho
        rw [he] at hf
        cases hf
      simp [ih hps, ho]
    · cases ho : p.isOrder <;> simp [ih hps, ho]

theorem hasFrame_setPlayer (q : PlayerId) : (setPlayer q).HasFrame := by
  have hl : (setPlayer q).payload.length = 4 := by
    change (Word.encode 4 q.val.toNat ++ []).length = 4
    simp
  refine ⟨_, encode_eq_ok_iff.mpr ⟨?_, rfl⟩⟩
  rw [hl]
  decide

end Packet

end SharedWorld
