import SharedWorld.Proofs.Client.Session

/-! # The deeds of a session

An update handles packets one by one up to the first failure, and comes to the end of its frame
if none fails; a move is one deed more. Calls come down to a list of such deeds, each done in the
state that the one before it has left, and the deeds send what the calls send. The times of moves
keep to the clock, so there is one for every move for as long as the clock runs.
-/

namespace SharedWorld

namespace ClientSession

section Trace

def Outcome.sends {α : Type} (out : Outcome α) : Bool :=
  match out.result with
  | .error (.link _) => false
  | _ => true

/-- What makes a session act. -/
inductive Cause
  | packet (p : Packet)
  | frame (now : Int)
  | move (position : Position) (now : Nat)

namespace Cause

def answers (user : String) : Cause → Bool
  | .packet (.sendPassword u _) => u = user
  | _ => false

def names : Cause → Bool
  | .packet (.setPlayer _) => true
  | _ => false

def loads : Cause → Bool
  | .packet (.loadWorld _) => true
  | _ => false

end Cause

def act (s : ClientSession) : Cause → Outcome Unit
  | .packet p => s.handle p
  | .frame now => s.probe now
  | .move position now =>
    let out := s.move position now
    { session := out.session, sent := out.sent, result := out.result.map fun _ => () }

def exhausted (s : ClientSession) : Bool := s.localEntity?.isSome && s.lastMove + 1 = 0

/-- A session and what makes it act. -/
structure Deed where
  state : ClientSession
  cause : Cause

namespace Deed

def outcome (d : Deed) : Outcome Unit := d.state.act d.cause

def next (d : Deed) : ClientSession := d.outcome.session

def sent (d : Deed) : List Packet := d.outcome.sent

def sends (d : Deed) : Bool := d.outcome.sends

/-- There is a time for the move. -/
def timely (d : Deed) : Bool :=
  match d.cause with
  | .move _ _ => !d.state.exhausted
  | _ => true

/-- A frame at this instant sends a probe. -/
def ProbesAt (d : Deed) (now : Int) : Prop := d.cause = .frame now ∧ ∃ q, .probe q ∈ d.sent

end Deed

/-- Between two calls anything may happen to the link. -/
inductive Call
  | update (link : ClientLink) (now : Int)
  | move (link : ClientLink) (position : Position) (now : Nat)

def call (s : ClientSession) : Call → Option (ClientSession × List Packet)
  | .update link now =>
    (({ s with link } : ClientSession).update now).map fun out => (out.session, out.sent)
  | .move link position now =>
    let s := { s with link }
    if s.exhausted then none
    else
      let out := s.move position now
      some (out.session, out.sent)

/-- The packets that a session comes to. -/
def handling (s : ClientSession) : List Packet → List Deed
  | [] => []
  | p :: ps => ⟨s, .packet p⟩ ::
    match (s.handle p).result with
    | .error _ => []
    | .ok () => (s.handle p).session.handling ps

def deeds (s : ClientSession) : Call → List Deed
  | .update link now =>
    let (received, link) := link.drain
    let s := { s with link }
    let handled := s.handleAll received
    s.handling received ++
      match handled.result with
      | .error _ => []
      | .ok () => [⟨handled.session, .frame now⟩]
  | .move link position now =>
    let s := { s with link }
    if s.exhausted then [] else [⟨s, .move position now⟩]

def play (s : ClientSession) : List Call → Option (ClientSession × List Packet)
  | [] => some (s, [])
  | c :: cs => do
    let (s', sent) ← s.call c
    let (last, rest) ← s'.play cs
    return (last, sent ++ rest)

/-- All that a session does in some calls, up to one that does not return. -/
def trace (s : ClientSession) : List Call → List Deed
  | [] => []
  | c :: cs => s.deeds c ++
    match s.call c with
    | none => []
    | some (s', _) => s'.trace cs

end Trace

variable {s s' t : ClientSession} {p : Packet} {ps : List Packet} {d : Deed} {ds : List Deed}
  {k : Cause} {c : Call} {cs : List Call} {sent : List Packet}

section Calls

theorem sent_handling (s : ClientSession) (ps : List Packet) :
    (s.handling ps).flatMap Deed.sent = (s.handleAll ps).sent := by
  induction ps generalizing s with
  | nil => rfl
  | cons p ps ih =>
    have hd : Deed.sent ⟨s, .packet p⟩ = (s.handle p).sent := rfl
    unfold handling handleAll
    cases hres : (s.handle p).result with
    | error e => simp [hd, hres]
    | ok _ => simp [hd, hres, ih]

structure Continues (s s' : ClientSession) : Prop where
  user : s'.user = s.user
  phase : s'.phase = s.phase
  lastProbe : s'.lastProbe = s.lastProbe
  lastMove : s'.lastMove = s.lastMove
  world : s'.world.isSome = s.world.isSome

theorem Continues.refl (s : ClientSession) : s.Continues s := ⟨rfl, rfl, rfl, rfl, rfl⟩

theorem Continues.trans (h : s.Continues s') (h' : s'.Continues t) : s.Continues t where
  user := h'.user.trans h.user
  phase := h'.phase.trans h.phase
  lastProbe := h'.lastProbe.trans h.lastProbe
  lastMove := h'.lastMove.trans h.lastMove
  world := h'.world.trans h.world

theorem Continues.relink (s : ClientSession) (link : ClientLink) : s.Continues { s with link } :=
  ⟨rfl, rfl, rfl, rfl, rfl⟩

theorem continues_advance {now : Int} (h : s.advance now = some s') : s.Continues s' := by
  unfold advance at h
  dsimp only at h
  split at h
  · cases h
    exact ⟨rfl, rfl, rfl, rfl, rfl⟩
  · next v hv =>
    obtain ⟨v', -, rfl⟩ := Option.map_eq_some_iff.mp h
    exact ⟨rfl, rfl, rfl, rfl, by simp [hv]⟩

theorem update_cases (s : ClientSession) (link : ClientLink) (now : Int) :
    let t : ClientSession := { s with link := link.drain.2 }
    let handled := t.handleAll link.drain.1
    let probed := handled.session.probe now
    (s.deeds (.update link now) = t.handling link.drain.1 ∧
        s.call (.update link now) = some (handled.session, handled.sent)) ∨
      s.deeds (.update link now) =
          t.handling link.drain.1 ++ [⟨handled.session, .frame now⟩] ∧
        ∀ s' sent, s.call (.update link now) = some (s', sent) →
          sent = handled.sent ++ probed.sent ∧ probed.session.Continues s' := by
  intro t handled probed
  have hdeeds : s.deeds (.update link now) = t.handling link.drain.1 ++
      match handled.result with
      | .error _ => []
      | .ok () => [⟨handled.session, .frame now⟩] := rfl
  have hcall : s.call (.update link now) =
      (match handled.result with
        | .error e => some { session := handled.session, sent := handled.sent, result := .error e }
        | .ok () =>
          let sent := handled.sent ++ probed.sent
          match probed.result with
          | .error e => some { session := probed.session, sent, result := .error e }
          | .ok () => (probed.session.advance now).map fun session =>
            { session, sent, result := .ok link.drain.1.length }
        : Option (Outcome Nat)).map fun out => (out.session, out.sent) := rfl
  rw [hdeeds, hcall]
  cases handled.result with
  | error e => exact Or.inl ⟨List.append_nil _, rfl⟩
  | ok _ =>
    refine Or.inr ⟨rfl, fun s' sent h => ?_⟩
    cases hres : probed.result with
    | error e =>
      simp only [hres, Option.map_some, Option.some.injEq, Prod.mk.injEq] at h
      obtain ⟨rfl, rfl⟩ := h
      exact ⟨rfl, .refl _⟩
    | ok _ =>
      simp only [hres, Option.map_map, Option.map_eq_some_iff, Prod.mk.injEq, Function.comp] at h
      obtain ⟨s₁, hs₁, rfl, rfl⟩ := h
      exact ⟨rfl, continues_advance hs₁⟩

theorem sent_call (h : s.call c = some (s', sent)) :
    sent = (s.deeds c).flatMap Deed.sent := by
  cases c with
  | update link now =>
    obtain ⟨hdeeds, hcall⟩ | ⟨hdeeds, hcall⟩ := s.update_cases link now
    · rw [hcall] at h
      cases h
      rw [hdeeds, sent_handling]
    · rw [(hcall s' sent h).1, hdeeds, List.flatMap_append, sent_handling]
      simp [Deed.sent, Deed.outcome, act]
  | move link position now =>
    simp only [call] at h
    split at h
    · cases h
    · next hx =>
      cases h
      simp [deeds, hx, Deed.sent, Deed.outcome, act]

theorem exists_of_play_cons (h : s.play (c :: cs) = some (s', sent)) :
    ∃ s₁ first rest, s.call c = some (s₁, first) ∧ s₁.play cs = some (s', rest) ∧
      sent = first ++ rest := by
  obtain ⟨⟨s₁, first⟩, hc, h⟩ := Option.bind_eq_some_iff.mp h
  obtain ⟨⟨last, rest⟩, hcs, h⟩ := Option.bind_eq_some_iff.mp h
  cases h
  exact ⟨s₁, first, rest, hc, hcs, rfl⟩

theorem sent_play (h : s.play cs = some (s', sent)) :
    sent = (s.trace cs).flatMap Deed.sent := by
  induction cs generalizing s sent with
  | nil =>
    cases h
    rfl
  | cons c cs ih =>
    obtain ⟨s₁, first, rest, hc, hcs, rfl⟩ := exists_of_play_cons h
    simp only [trace, hc, List.flatMap_append, ← sent_call hc, ← ih hcs]

end Calls

section Chains

/-- Deeds of one session, each done in the state that the one before it has left. -/
inductive Chain : ClientSession → List Deed → Prop
  | nil {s : ClientSession} : Chain s []
  | cons {s : ClientSession} {d : Deed} {ds : List Deed} (hs : s.Continues d.state)
      (ht : d.timely) (h : Chain d.next ds) : Chain s (d :: ds)

theorem Chain.of_continues (h : Chain s' ds) (hs : s.Continues s') : Chain s ds := by
  cases h with
  | nil => exact .nil
  | cons hs' ht h => exact .cons (hs.trans hs') ht h

theorem chain_handling (h : Chain (s.handleAll ps).session ds) : Chain s (s.handling ps ++ ds) := by
  induction ps generalizing s with
  | nil => exact h
  | cons p ps ih =>
    unfold handleAll at h
    unfold handling
    dsimp only at h ⊢
    cases hres : (s.handle p).result with
    | error e =>
      rw [hres] at h
      exact .cons (.refl s) rfl h
    | ok _ =>
      rw [hres] at h
      exact .cons (.refl s) rfl (ih h)

theorem chain_deeds (h : ∀ s' sent, s.call c = some (s', sent) → Chain s' ds)
    (hn : s.call c = none → ds = []) : Chain s (s.deeds c ++ ds) := by
  cases c with
  | update link now =>
    obtain ⟨hdeeds, hcall⟩ | ⟨hdeeds, hcall⟩ := s.update_cases link now
    · rw [hdeeds]
      exact (chain_handling (h _ _ hcall)).of_continues (.relink s _)
    · rw [hdeeds, List.append_assoc]
      refine (chain_handling ?_).of_continues (.relink s _)
      refine .cons (.refl _) rfl ?_
      cases hc : s.call (.update link now) with
      | none =>
        rw [hn hc]
        exact .nil
      | some out => exact (h _ _ hc).of_continues (hcall _ _ hc).2
  | move link position now =>
    simp only [deeds]
    split
    · next hx =>
      rw [hn (by simp [call, hx])]
      exact .nil
    · next hx =>
      refine .cons (.relink s link) (by simp [Deed.timely, hx]) ?_
      exact h _ (ClientSession.move { s with link } position now).sent (by simp [call, hx]; rfl)

theorem chain_trace (s : ClientSession) (cs : List Call) : Chain s (s.trace cs) := by
  induction cs generalizing s with
  | nil => exact .nil
  | cons c cs ih =>
    refine chain_deeds (fun s' sent hc => ?_) fun hc => ?_
    · simpa [hc] using ih s'
    · simp [hc]

end Chains

section Times

theorem lastMove_sendOr {failed next : ClientSession} (h : failed.lastMove = next.lastMove) :
    (s.sendOr p failed next).session.lastMove = next.lastMove := by
  obtain ⟨-, ho⟩ | ⟨e, -, ho⟩ := s.sendOr_cases p failed next <;> simp [ho, h]

theorem lastMove_handle (s : ClientSession) (p : Packet) :
    (s.handle p).session.lastMove = s.lastMove := by
  unfold handle onStored
  split
  · split
    · rfl
    · split
      · rfl
      · exact lastMove_sendOr rfl
  · rfl
  · exact lastMove_sendOr rfl
  · rfl

theorem lastMove_probe (s : ClientSession) (now : Int) :
    (s.probe now).session.lastMove = s.lastMove := by
  unfold probe
  split
  · exact lastMove_sendOr rfl
  · rfl

theorem lastMove_handleAll (s : ClientSession) (ps : List Packet) :
    (s.handleAll ps).session.lastMove = s.lastMove := by
  induction ps generalizing s with
  | nil => rfl
  | cons p ps ih =>
    unfold handleAll
    dsimp only
    split
    · exact lastMove_handle s p
    · exact (ih _).trans (lastMove_handle s p)

theorem move_cases (s : ClientSession) (position : Position) (now : Nat) :
    s.move position now = { session := s, result := .ok false } ∨
      s.localEntity?.isSome ∧ ∃ u : OwnUpdate, u.time = s.moveTime now ∧
        let out := ({ s with lastMove := u.time } : ClientSession).send (.ownUpdate u)
        s.move position now =
          { session := out.session, sent := out.sent, result := out.result.map fun _ => true } := by
  unfold move
  split
  · next he => exact Or.inr ⟨by simp [he], _, rfl, rfl⟩
  · exact Or.inl rfl

theorem lastMove_call (h : s.call c = some (s', sent)) : s'.lastMove = s.lastMove ∨
    ∃ link position now, c = .move link position now ∧ s'.lastMove = s.moveTime now := by
  cases c with
  | update link now =>
    refine Or.inl ?_
    have hhandled := lastMove_handleAll { s with link := link.drain.2 } link.drain.1
    obtain ⟨-, hcall⟩ | ⟨-, hcall⟩ := s.update_cases link now
    · cases hcall.symm.trans h
      exact hhandled
    · rw [(hcall s' sent h).2.lastMove, lastMove_probe, hhandled]
  | move link position now =>
    simp only [call] at h
    split at h
    · cases h
    · cases h
      obtain ho | ⟨-, u, hu, ho⟩ := move_cases { s with link } position now
      · exact Or.inl (by rw [ho])
      · refine Or.inr ⟨link, position, now, rfl, ?_⟩
        rw [ho, send, lastMove_sendOr rfl]
        exact hu

theorem toNat_moveTime_le (s : ClientSession) (now : Nat) :
    (s.moveTime now).toNat ≤ max (now / 1000) (s.lastMove.toNat + 1) := by
  change (if Micros.ofNat (now / 1000) ≤ s.lastMove + 1 then s.lastMove + 1
    else Micros.ofNat (now / 1000)).toNat ≤ _
  split
  · rw [UInt64.toNat_add]
    exact (Nat.mod_le _ _).trans (Nat.le_max_right _ _)
  · rw [Micros.toNat_ofNat]
    exact (Nat.min_le_left _ _).trans (Nat.le_max_left _ _)

theorem lastMove_play_le {n : Nat} (hs : s.lastMove.toNat ≤ n)
    (hm : ∀ link position now, .move link position now ∈ cs → now / 1000 ≤ n)
    (hp : s.play cs = some (s', sent)) : s'.lastMove.toNat ≤ n + cs.length := by
  induction cs generalizing s n sent with
  | nil =>
    cases hp
    exact hs
  | cons c cs ih =>
    obtain ⟨s₁, first, rest, hc, hcs, rfl⟩ := exists_of_play_cons hp
    have hfirst : s₁.lastMove.toNat ≤ n + 1 := by
      obtain hlast | ⟨link, position, now, rfl, hlast⟩ := lastMove_call hc <;> rw [hlast]
      · omega
      · have hnow := hm link position now (List.mem_cons_self ..)
        have htime := toNat_moveTime_le s now
        omega
    have hrest := ih hfirst (fun link position now h => by
      have := hm link position now (List.mem_cons_of_mem _ h)
      omega) hcs
    simp only [List.length_cons]
    omega

/-- As long as the clock is far from its end there is a time for the next move. -/
theorem not_exhausted_of_play {n : Nat} (hs : s.lastMove.toNat ≤ n)
    (hm : ∀ link position now, .move link position now ∈ cs → now / 1000 ≤ n)
    (hn : n + cs.length < Micros.limit) (hp : s.play cs = some (s', sent)) :
    s'.exhausted = false := by
  have hle := lastMove_play_le hs hm hp
  have hne : s'.lastMove + 1 ≠ 0 := by
    intro h
    have := congrArg UInt64.toNat h
    simp [UInt64.toNat_add, Micros.limit, UInt64.size] at this hn
    omega
  simp [exhausted, hne]

end Times

end ClientSession

end SharedWorld
