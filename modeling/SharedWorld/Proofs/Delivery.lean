import SharedWorld.Proofs.Run

/-! # Delivery

A stream carries undelayed packets in the order in which they were sent, and a delayed one
arrives at any point after it was sent. So what the last packet of a kind says depends on
where the delayed ones end up.
-/

namespace SharedWorld

section Lasts

variable {α : Type} {D D' R R' : α → Prop} {x : α} {xs ys : List α}

/-- Something of the first kind comes, and nothing of the second kind after it. -/
def Lasts (D R : α → Prop) : List α → Prop
  | [] => False
  | x :: xs => Lasts D R xs ∨ D x ∧ ∀ y ∈ xs, ¬ R y

theorem lasts_append_iff :
    Lasts D R (xs ++ ys) ↔ Lasts D R ys ∨ Lasts D R xs ∧ ∀ y ∈ ys, ¬ R y := by
  induction xs with
  | nil => simp [Lasts]
  | cons x xs ih =>
    simp only [List.cons_append, Lasts, ih, List.forall_mem_append, or_and_right, or_assoc,
      and_assoc]

theorem lasts_insert_iff (hd : ¬ D x) (hr : ¬ R x) :
    Lasts D R (xs ++ x :: ys) ↔ Lasts D R (xs ++ ys) := by
  simp [lasts_append_iff, Lasts, hd, hr]

theorem lasts_of_mem (hx : x ∈ xs) (hd : D x) (hr : ∀ y ∈ xs, ¬ R y) : Lasts D R xs := by
  obtain ⟨ys, zs, rfl⟩ := List.append_of_mem hx
  refine lasts_append_iff.mpr (Or.inl (Or.inr ⟨hd, fun z hz => hr z ?_⟩))
  exact List.mem_append_right _ (List.mem_cons_of_mem _ hz)

theorem Lasts.imp (hd : ∀ x, D x → D' x) (hr : ∀ x, R' x → R x) (h : Lasts D R xs) :
    Lasts D' R' xs := by
  induction xs with
  | nil => cases h
  | cons x xs ih =>
    rcases h with h | ⟨hx, hxs⟩
    · exact Or.inl (ih h)
    · exact Or.inr ⟨hd x hx, fun y hy => mt (hr y) (hxs y hy)⟩

theorem Lasts.exists_mem (h : Lasts D R xs) : ∃ x ∈ xs, D x := by
  induction xs with
  | nil => cases h
  | cons x xs ih =>
    rcases h with h | ⟨h, -⟩
    · obtain ⟨y, hy, hd⟩ := ih h
      exact ⟨y, List.mem_cons_of_mem _ hy, hd⟩
    · exact ⟨x, List.mem_cons_self, h⟩

theorem forall_splits_cons {P : α → List α → Prop} :
    (∀ before y after, x :: xs = before ++ y :: after → P y after) ↔
      P x xs ∧ ∀ before y after, xs = before ++ y :: after → P y after := by
  constructor
  · intro h
    exact ⟨h [] x xs rfl, fun before y after he => h (x :: before) y after (by rw [he]; rfl)⟩
  · rintro ⟨hx, h⟩ before y after he
    cases before with
    | nil =>
      cases he
      exact hx
    | cons b before =>
      cases he
      exact h before y after rfl

theorem lasts_iff (hdr : ∀ x, D x → ¬ R x) : Lasts D R xs ↔ (∃ x ∈ xs, D x) ∧
    ∀ before y after, xs = before ++ y :: after → R y → ∃ x ∈ after, D x := by
  induction xs with
  | nil => simp [Lasts]
  | cons x xs ih =>
    rw [Lasts, ih, forall_splits_cons]
    constructor
    · rintro (⟨⟨z, hz, hd⟩, h⟩ | ⟨hd, hr⟩)
      · exact ⟨⟨z, List.mem_cons_of_mem _ hz, hd⟩, fun _ => ⟨z, hz, hd⟩, h⟩
      · refine ⟨⟨x, List.mem_cons_self, hd⟩, fun h => absurd h (hdr x hd), ?_⟩
        rintro before y after rfl hy
        exact absurd hy (hr y (List.mem_append_right _ List.mem_cons_self))
    · rintro ⟨⟨z, hz, hd⟩, -, h⟩
      by_cases hxs : ∃ z ∈ xs, D z
      · exact Or.inl ⟨hxs, h⟩
      · rcases List.mem_cons.mp hz with rfl | hz
        · refine Or.inr ⟨hd, fun y hy hr => hxs ?_⟩
          obtain ⟨before, after, rfl⟩ := List.append_of_mem hy
          obtain ⟨u, hu, hd⟩ := h before y after rfl hr
          exact ⟨u, List.mem_append_right _ (List.mem_cons_of_mem _ hu), hd⟩
        · exact absurd ⟨z, hz, hd⟩ hxs

end Lasts

/-- The order in which sent packets may arrive. -/
inductive Arrives : List Envelope → List Envelope → Prop
  | nil : Arrives [] []
  | prompt {e : Envelope} {es ds : List Envelope} (he : e.delay = 0) (h : Arrives es ds) :
      Arrives (e :: es) (e :: ds)
  | late {e : Envelope} {es ds₁ ds₂ : List Envelope} (he : e.delay ≠ 0)
      (h : Arrives es (ds₁ ++ ds₂)) : Arrives (e :: es) (ds₁ ++ e :: ds₂)

namespace Arrives

variable {es ds : List Envelope} {x : Envelope} {D R : Envelope → Prop}

theorem mem_iff (h : Arrives es ds) : x ∈ ds ↔ x ∈ es := by
  induction h with
  | nil => rfl
  | prompt _ _ ih => simp [ih]
  | late _ _ ih =>
    rw [List.mem_append, List.mem_cons, List.mem_cons, ← ih, List.mem_append]
    exact or_left_comm

/-- Among the undelayed packets, the same lasts on arrival as when they were sent. -/
theorem lasts_prompt_iff (h : Arrives es ds) (hd : ∀ x ∈ es, D x → x.delay = 0) :
    Lasts D (fun x => x.delay = 0 ∧ R x) ds ↔ Lasts D (fun x => x.delay = 0 ∧ R x) es := by
  induction h with
  | nil => rfl
  | prompt he h ih =>
    simp only [Lasts, ih fun x hx => hd x (List.mem_cons_of_mem _ hx), h.mem_iff]
  | @late e es ds₁ ds₂ he h ih =>
    rw [lasts_insert_iff (fun hx => he (hd e List.mem_cons_self hx)) fun hx => he hx.1,
      ih fun x hx => hd x (List.mem_cons_of_mem _ hx), Lasts]
    exact ⟨Or.inl, fun h => h.resolve_right fun hx => he (hd e List.mem_cons_self hx.1)⟩

/-- What lasts on arrival lasted among the undelayed packets, and came again after each delayed
one of the second kind. -/
theorem lasts_iff_late (h : Arrives es ds) (hd : ∀ x ∈ es, D x → x.delay = 0)
    (hdr : ∀ x, D x → ¬ R x) : Lasts D R ds ↔ Lasts D (fun x => x.delay = 0 ∧ R x) es ∧
      ∀ before x after, ds = before ++ x :: after → x.delay ≠ 0 → R x → ∃ y ∈ after, D y := by
  rw [← h.lasts_prompt_iff hd, lasts_iff hdr, lasts_iff fun x hx hr => hdr x hx hr.2, and_assoc]
  refine and_congr_right fun _ => ?_
  constructor
  · intro hr
    exact ⟨fun before x after he hx => hr before x after he hx.2,
      fun before x after he _ => hr before x after he⟩
  · rintro ⟨hprompt, hlate⟩ before x after he hr
    by_cases hx : x.delay = 0
    · exact hprompt before x after he ⟨hx, hr⟩
    · exact hlate before x after he hx hr

theorem in_order (es : List Envelope) : Arrives es es := by
  induction es with
  | nil => exact .nil
  | cons e es ih =>
    by_cases he : e.delay = 0
    · exact .prompt he ih
    · have hs : Arrives es ([] ++ es) := ih
      exact late he hs

theorem late_last (es : List Envelope) :
    Arrives es (es.filter (·.delay = 0) ++ es.filter (·.delay ≠ 0)) := by
  induction es with
  | nil => exact .nil
  | cons e es ih =>
    by_cases he : e.delay = 0
    · simpa [he] using prompt he ih
    · simpa [he] using late he ih

end Arrives

def onStream (c : ConnectionId) (sent : List Envelope) : List Envelope :=
  sent.filter (·.target = .stream c)

theorem onStream_append (c : ConnectionId) (xs ys : List Envelope) :
    onStream c (xs ++ ys) = onStream c xs ++ onStream c ys :=
  List.filter_append ..

theorem mem_onStream_iff {c : ConnectionId} {sent : List Envelope} {x : Envelope} :
    x ∈ onStream c sent ↔ x ∈ sent ∧ x.target = .stream c := by
  simp [onStream]

namespace System

variable {σ ε : Type} {S : System σ ε}

def sentAll (S : System σ ε) : List (Moment σ ε) → List Envelope
  | [] => []
  | m :: ms => S.sentAll ms ++ S.sent m

def stream (S : System σ ε) (c : ConnectionId) : List (Moment σ ε) → List Envelope
  | [] => []
  | m :: ms => S.stream c ms ++ onStream c (S.sent m)

theorem stream_append (c : ConnectionId) (later past : List (Moment σ ε)) :
    S.stream c (later ++ past) = S.stream c past ++ S.stream c later := by
  induction later with
  | nil => simp [stream]
  | cons m later ih => simp [stream, ih]

theorem onStream_sentAll (c : ConnectionId) (ms : List (Moment σ ε)) :
    onStream c (S.sentAll ms) = S.stream c ms := by
  induction ms with
  | nil => rfl
  | cons m ms ih => rw [sentAll, onStream_append, ih, stream]

theorem mem_sentAll_iff {ms : List (Moment σ ε)} {x : Envelope} :
    x ∈ S.sentAll ms ↔ ∃ m ∈ ms, x ∈ S.sent m := by
  induction ms with
  | nil => simp [sentAll]
  | cons m ms ih => simp [sentAll, ih, or_comm]

end System

end SharedWorld
