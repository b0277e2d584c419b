import SharedWorld.Link.Route

/-! # Systems and their runs

A system changes by events, and each event may send packets. A run keeps the moments
it has passed, newest first. Invariants and relations between the states of a run
follow from what one event does.
-/

namespace SharedWorld

/-- A state and the event that it is about to take. -/
structure Moment (σ ε : Type) where
  state : σ
  event : ε

structure System (σ ε : Type) where
  Starts : σ → Prop
  /-- Which events may come next, after the moments passed so far. -/
  Admits : List (Moment σ ε) → ε → Prop
  step : σ → ε → σ × List Envelope

namespace System

variable {σ ε : Type} {S : System σ ε} {ms : List (Moment σ ε)} {s : σ}

inductive Run (S : System σ ε) : List (Moment σ ε) → σ → Prop
  | start {s : σ} (h : S.Starts s) : Run S [] s
  | step {ms : List (Moment σ ε)} {s : σ} (e : ε) (h : Run S ms s) (ha : S.Admits ms e) :
      Run S (⟨s, e⟩ :: ms) (S.step s e).1

def sent (S : System σ ε) (m : Moment σ ε) : List Envelope := (S.step m.state m.event).2

def play (S : System σ ε) : List (Moment σ ε) → σ → List ε → List (Moment σ ε) × σ
  | ms, s, [] => (ms, s)
  | ms, s, e :: es => S.play (⟨s, e⟩ :: ms) (S.step s e).1 es

theorem play_append (S : System σ ε) (ms : List (Moment σ ε)) (s : σ) (es : List ε) :
    S.play ms s es = ((S.play [] s es).1 ++ ms, (S.play [] s es).2) := by
  induction es generalizing ms s with
  | nil => rfl
  | cons e es ih =>
    rw [play, ih, play, ih [⟨s, e⟩]]
    simp

def AdmitsAll (S : System σ ε) : List (Moment σ ε) → σ → List ε → Prop
  | _, _, [] => True
  | ms, s, e :: es => S.Admits ms e ∧ S.AdmitsAll (⟨s, e⟩ :: ms) (S.step s e).1 es

namespace Run

theorem play {es : List ε} (h : S.Run ms s) (ha : S.AdmitsAll ms s es) :
    S.Run (S.play ms s es).1 (S.play ms s es).2 := by
  induction es generalizing ms s with
  | nil => exact h
  | cons e es ih => exact ih (.step e h ha.1) ha.2

theorem resume {es : List ε} (h : S.Run ms s) (ha : S.AdmitsAll ms s es) :
    S.Run ((S.play [] s es).1 ++ ms) (S.play [] s es).2 := by
  have hr := h.play ha
  rwa [System.play_append] at hr

theorem invariant {I : σ → Prop} (h₀ : ∀ s, S.Starts s → I s)
    (h₁ : ∀ s e, I s → I (S.step s e).1) (h : S.Run ms s) : I s := by
  induction h with
  | start h => exact h₀ _ h
  | step e _ _ ih => exact h₁ _ e ih

theorem past {later past : List (Moment σ ε)} {m : Moment σ ε}
    (h : S.Run (later ++ m :: past) s) : S.Run past m.state ∧ S.Admits past m.event := by
  induction later generalizing s with
  | nil => cases h with | step e h ha => exact ⟨h, ha⟩
  | cons l later ih => cases h with | step e h _ => exact ih h

theorem invariant_of_mem {I : σ → Prop} (h₀ : ∀ s, S.Starts s → I s)
    (h₁ : ∀ s e, I s → I (S.step s e).1) (h : S.Run ms s) {m : Moment σ ε} (hm : m ∈ ms) :
    I m.state := by
  obtain ⟨later, past, rfl⟩ := List.append_of_mem hm
  exact h.past.1.invariant h₀ h₁

/-- What every event keeps between old and new state holds from each moment on. -/
theorem related {R : σ → σ → Prop} (ht : ∀ {s t u}, R s t → R t u → R s u)
    (h₁ : ∀ s e, R s (S.step s e).1) (h : S.Run ms s) {m : Moment σ ε} (hm : m ∈ ms) :
    R m.state s := by
  induction h with
  | start => cases hm
  | @step ms s e _ _ ih =>
    rcases List.mem_cons.mp hm with rfl | hm
    · exact h₁ s e
    · exact ht (ih hm) (h₁ s e)

theorem pairwise_related {R : σ → σ → Prop} (ht : ∀ {s t u}, R s t → R t u → R s u)
    (h₁ : ∀ s e, R s (S.step s e).1) (h : S.Run ms s) :
    ms.Pairwise fun later earlier => R earlier.state later.state := by
  induction h with
  | start => exact .nil
  | step e h _ ih => exact .cons (fun m hm => h.related (R := R) ht h₁ hm) ih

theorem pairwise_admitted {Q : ε → ε → Prop}
    (ha : ∀ {ms e}, S.Admits ms e → ∀ m ∈ ms, Q m.event e) (h : S.Run ms s) :
    ms.Pairwise fun later earlier => Q earlier.event later.event := by
  induction h with
  | start => exact .nil
  | step e _ he ih => exact .cons (ha he) ih

end Run

end System

end SharedWorld
