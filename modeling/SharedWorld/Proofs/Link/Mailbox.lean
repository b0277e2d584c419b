import SharedWorld.Link.Mailbox

/-! # Handing items over

Any number of senders push to a mailbox, and one side drains it. A push is one step under the
lock. A drain first looks at the flag without the lock, and when it was up takes the items in a
later step, so that pushes may come in between. However the steps fall, all items are handed over
once and in the order of the lock, and a drain returns whatever was pushed before it began.
-/

namespace SharedWorld

namespace Mailbox

/-- A step at a mailbox. A drain looks, and takes when it has seen the flag up. -/
inductive Entry (π α : Type)
  | pushed (sender : π) (item : α)
  | looked (up : Bool)
  | took (items : List α)

namespace Entry

variable {π α : Type}

def isTake : Entry π α → Bool
  | took _ => true
  | _ => false

/-- What a drain returns that the step is the last one of. -/
def returns? : Entry π α → Option (List α)
  | pushed _ _ => none
  | looked up => if up then none else some []
  | took items => some items

end Entry

variable {π α : Type} {log gap : List (Entry π α)} {m : Mailbox α} {items : List α}

/-! ## Logs

The newest entry of a log stands first. -/

def pushedItems : List (Entry π α) → List α
  | [] => []
  | .pushed _ a :: log => pushedItems log ++ [a]
  | .looked _ :: log => pushedItems log
  | .took _ :: log => pushedItems log

/-- All that drains have returned. -/
def handed : List (Entry π α) → List α
  | [] => []
  | .pushed _ _ :: log => handed log
  | .looked _ :: log => handed log
  | .took items :: log => handed log ++ items

/-- What was pushed since the last take. -/
def waiting : List (Entry π α) → List α
  | [] => []
  | .pushed _ a :: log => waiting log ++ [a]
  | .looked _ :: log => waiting log
  | .took _ :: _ => []

/-- A drain has seen the flag up and is about to take. -/
def entering : List (Entry π α) → Bool
  | [] => false
  | .pushed _ _ :: log => entering log
  | .looked up :: _ => up
  | .took _ :: _ => false

def began : List (Entry π α) → List (Entry π α)
  | [] => []
  | .pushed _ _ :: log => began log
  | .looked _ :: log => log
  | .took _ :: log => began log

/-- What a drain has returned that the newest entry has brought to its end. -/
def returned? (log : List (Entry π α)) : Option (List α) := log.head?.bind Entry.returns?

/-- The steps of the senders and of the draining side, as they may interleave. -/
inductive Run : List (Entry π α) → Mailbox α → Prop
  | start : Run [] {}
  | push {log : List (Entry π α)} {m : Mailbox α} (sender : π) (a : α) (h : Run log m) :
      Run (.pushed sender a :: log) (m.push a)
  | look {log : List (Entry π α)} {m : Mailbox α} (h : Run log m) (he : entering log = false) :
      Run (.looked m.pending :: log) m
  | take {log : List (Entry π α)} {m : Mailbox α} (h : Run log m) (he : entering log = true) :
      Run (.took m.take.1 :: log) m.take.2

theorem waiting_append (hg : ∀ e ∈ gap, e.isTake = false) :
    waiting (gap ++ log) = waiting log ++ pushedItems gap := by
  induction gap with
  | nil => simp [pushedItems]
  | cons e gap ih =>
    obtain ⟨he, hgap⟩ := List.forall_mem_cons.mp hg
    cases e with
    | pushed sender a => rw [List.cons_append, waiting, ih hgap, pushedItems, List.append_assoc]
    | looked up => exact ih hgap
    | took items => cases he

/-- Between the look of a drain and its take there are only pushes. -/
theorem waiting_of_entering (h : entering log = true) :
    ∃ more, waiting log = waiting (began log) ++ more := by
  induction log with
  | nil => cases h
  | cons e log ih =>
    cases e with
    | pushed sender a =>
      obtain ⟨more, hm⟩ := ih h
      exact ⟨more ++ [a], by rw [waiting, hm, List.append_assoc, began]⟩
    | looked up => exact ⟨[], (List.append_nil _).symm⟩
    | took items => cases h

/-! ## Runs -/

theorem Run.items_eq (h : Run log m) : m.items = waiting log := by
  induction h with
  | start => rfl
  | push sender a h ih => rw [waiting, ← ih, Mailbox.push]
  | look h he ih => exact ih
  | take h he ih => rfl

theorem Run.pending_iff (h : Run log m) : m.pending = true ↔ m.items ≠ [] := by
  induction h with
  | start => simp
  | push sender a h ih => simp [Mailbox.push]
  | look h he ih => exact ih
  | take h he ih => simp [Mailbox.take]

theorem Run.handed_append (h : Run log m) : handed log ++ m.items = pushedItems log := by
  induction h with
  | start => rfl
  | push sender a h ih => rw [handed, pushedItems, ← ih, Mailbox.push, List.append_assoc]
  | look h he ih => exact ih
  | take h he ih => simpa [handed, pushedItems, Mailbox.take] using ih

theorem Run.returned?_eq_some (h : Run log m) (hr : returned? log = some items) :
    ∃ more, items = waiting (began log) ++ more := by
  cases h with
  | start => cases hr
  | push sender a h => cases hr
  | @look log m h he =>
    cases hp : m.pending with
    | true => simp [returned?, Entry.returns?, hp] at hr
    | false =>
      have hi : m.items = [] := Decidable.not_not.mp (mt h.pending_iff.mpr (by simp [hp]))
      rw [h.items_eq] at hi
      simp only [returned?, Entry.returns?, hp, List.head?_cons, Option.bind_some] at hr
      cases hr
      exact ⟨[], by rw [began, hi]; rfl⟩
  | take h he =>
    cases hr
    obtain ⟨more, hm⟩ := waiting_of_entering he
    exact ⟨more, by rw [Mailbox.take, h.items_eq, hm, began]⟩

theorem Run.drain (h : Run log m) (he : entering log = false) :
    ∃ log', Run log' m.drain.2 ∧ began log' = log ∧ returned? log' = some m.drain.1 := by
  have hlook := h.look he
  unfold Mailbox.drain
  cases hp : m.pending with
  | false =>
    rw [hp] at hlook
    exact ⟨_, hlook, rfl, rfl⟩
  | true =>
    rw [hp] at hlook
    exact ⟨_, hlook.take rfl, rfl, rfl⟩

/-- However pushes and the two steps of drains interleave: what was drained, followed by what is
still there, are the items that were pushed, in the order of the lock; the flag is up exactly
when there are items; and a drain that begins after a push, with no take in between, returns the
item that was pushed behind those that were waiting then. The drain of a mailbox is a drain
whose steps follow one another. -/
theorem handed_over_of_run (h : Run log m) :
    handed log ++ m.items = pushedItems log ∧ (m.pending = true ↔ m.items ≠ []) ∧
      (∀ items gap sender a past, returned? log = some items →
        began log = gap ++ .pushed sender a :: past → (∀ e ∈ gap, e.isTake = false) →
          ∃ more, items = waiting past ++ a :: more) ∧
      (entering log = false →
        ∃ log', Run log' m.drain.2 ∧ began log' = log ∧ returned? log' = some m.drain.1) := by
  refine ⟨h.handed_append, h.pending_iff, ?_, h.drain⟩
  intro items gap sender a past hr hb hg
  obtain ⟨more, rfl⟩ := h.returned?_eq_some hr
  rw [hb, waiting_append hg]
  exact ⟨pushedItems gap ++ more, by simp [waiting]⟩

def handover : List (Entry String Nat) :=
  [.took [1, 2], .pushed "bob" 2, .looked true, .pushed "ann" 1]

theorem handed_over_of_run_handover : Run handover {} ∧ handed handover = [1, 2] ∧
    pushedItems handover = [1, 2] ∧ returned? handover = some [1, 2] ∧
      began handover = [] ++ .pushed "ann" 1 :: [] ∧
      ∃ more, [1, 2] = waiting ([] : List (Entry String Nat)) ++ 1 :: more := by
  have hrun : Run handover {} :=
    .take (.push "bob" 2 (.look (.push "ann" 1 .start) rfl)) rfl
  obtain ⟨hhanded, -, hreturns, -⟩ := handed_over_of_run hrun
  refine ⟨hrun, ?_, rfl, rfl, rfl, hreturns [1, 2] [] "ann" 1 [] rfl rfl nofun⟩
  rwa [List.append_nil] at hhanded

end Mailbox

end SharedWorld
