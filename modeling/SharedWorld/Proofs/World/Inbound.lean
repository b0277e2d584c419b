import SharedWorld.Proofs.World.Effects

/-! # Packets handled in place

A world handles a packet by changing itself on the way, and what it has changed or sent when it
meets an error stays changed and sent. It comes out as if a refused packet were handed back,
for every check is made before the first change.
-/

namespace SharedWorld

namespace Presence

/-- The gate, which records the time as it opens. -/
def acceptInPlace (p : Presence) (time : UInt64) : Presence × Bool :=
  if time ≤ p.lastUpdate then (p, false)
  else
    let p := { p with lastUpdate := time }
    (p, true)

end Presence

namespace World

/-- A report on a character, taken one field after the other. -/
def ownUpdateInPlace (w : World) (player : PlayerId) (u : OwnUpdate) :
    World × Except WorldError Bool :=
  match w.members.get? player with
  | none => (w, .error (.playerNotInWorld player))
  | some m =>
    if u.entity ≠ m.character then (w, .error (.notOwner player u.entity))
    else
      match PositionReport.ofBlob u.data with
      | .error e => (w, .error e)
      | .ok report =>
        if report.world ≠ w.name then (w, .ok false)
        else
          match w.characters.get? u.entity with
          | none => (w, .error (.entityNotFound u.entity))
          | some c =>
            let (presence, taken) := c.presence.acceptInPlace u.time
            let w := { w with characters := w.characters.modify u.entity ({ · with presence }) }
            if !taken then (w, .ok false)
            else
              let w := { w with characters := w.characters.modify u.entity fun c =>
                { c with position := { c.position with x := report.position.x } } }
              let w := { w with characters := w.characters.modify u.entity fun c =>
                { c with position := { c.position with y := report.position.y } } }
              (w, .ok true)

def worldLoadedInPlace (w : World) (player : PlayerId) (wall : UInt64) :
    Step World (Except WorldError Unit) :=
  match w.members.get? player with
  | none => ⟨w, [], .error (.playerNotInWorld player)⟩
  | some m =>
    let sent := w.sendAll (.joined player w.name) none 0 false
    let w := { w with characters := w.characters.modify m.character fun c =>
      { c with presence := { c.presence with armed := true } } }
    let w := { w with characters := w.characters.modify m.character fun c =>
      { c with glide := false } }
    let sent := sent ++ w.characters.keys.flatMap w.sendDetails
    let greeting := "Player \x60" ++ m.name ++ "\x60 has joined this world."
    ⟨w, sent ++ w.sendChat greeting systemName (some player) wall, .ok ()⟩

def sayInPlace (w : World) (player : PlayerId) (message : String) (wall : UInt64) :
    Step World (Except WorldError Unit) :=
  match w.members.get? player with
  | none => ⟨w, [], .error (.playerNotInWorld player)⟩
  | some m => ⟨w, w.sendChat message m.name (some player) wall, .ok ()⟩

/-- A member's packet, handled in place: the state and the packets are those at the exit, an
error exit too. -/
def handleInPlace (w : World) (player : PlayerId) (p : Packet) (wall : UInt64) :
    Step World (Except WorldError Unit) :=
  match p with
  | .worldLoaded => w.worldLoadedInPlace player wall
  | .ownUpdate u =>
    match w.ownUpdateInPlace player u with
    | (w, .error e) => ⟨w, [], .error e⟩
    | (w, .ok _) => ⟨w, [], .ok ()⟩
  | .say message => w.sayInPlace player message wall
  | _ => ⟨w, [], .ok ()⟩

variable {w : World} {p : PlayerId}

theorem member_of_none (h : w.members.get? p = none) :
    w.member p = .error (.playerNotInWorld p) := by
  simp [member, h]

theorem ownUpdateInPlace_eq (w : World) (p : PlayerId) (u : OwnUpdate) :
    w.ownUpdateInPlace p u = match w.ownUpdate p u with
      | .ok (w', taken) => (w', .ok taken)
      | .error e => (w, .error e) := by
  unfold ownUpdateInPlace ownUpdate
  cases hm : w.members.get? p with
  | none => rw [member_of_none hm]; rfl
  | some m =>
    rw [member_eq_ok_iff.mpr hm]
    by_cases ho : u.entity = m.character
    case neg => simp [ho, bind, Except.bind, throw, throwThe, MonadExceptOf.throw]
    cases hr : PositionReport.ofBlob u.data with
    | error e => simp [ho, bind, Except.bind]
    | ok report =>
      by_cases hn : report.world = w.name
      case neg => simp [ho, hn, bind, Except.bind, pure, Except.pure]
      cases hc : w.characters.get? m.character with
      | none => simp [ho, hn, hc, bind, Except.bind, throw, throwThe, MonadExceptOf.throw]
      | some c =>
        -- What the gate leaves is the character as it was, or the moved one.
        by_cases ht : u.time ≤ c.presence.lastUpdate
        · simp [ho, hn, hc, ht, Presence.acceptInPlace, Presence.accept?, ← Table.insert_eq_modify hc,
            Table.insert_eq_self hc, bind, Except.bind, pure, Except.pure]
        · simp [ho, hn, hc, ht, Presence.acceptInPlace, Presence.accept?, ← Table.insert_eq_modify hc,
            Table.modify_insert, bind, Except.bind, pure, Except.pure]

theorem worldLoadedInPlace_eq (w : World) (p : PlayerId) (wall : UInt64) :
    w.worldLoadedInPlace p wall = match w.worldLoaded p wall with
      | .ok (w', sent) => ⟨w', sent, .ok ()⟩
      | .error e => ⟨w, [], .error e⟩ := by
  unfold worldLoadedInPlace worldLoaded
  cases hm : w.members.get? p with
  | none => rw [member_of_none hm]; rfl
  | some m =>
    rw [member_eq_ok_iff.mpr hm]
    dsimp only [bind, Except.bind, pure, Except.pure]
    rw [Table.modify_modify]
    rfl

theorem sayInPlace_eq (w : World) (p : PlayerId) (message : String) (wall : UInt64) :
    w.sayInPlace p message wall = match w.say p message wall with
      | .ok sent => ⟨w, sent, .ok ()⟩
      | .error e => ⟨w, [], .error e⟩ := by
  unfold sayInPlace say
  cases hm : w.members.get? p with
  | none => rw [member_of_none hm]; rfl
  | some m => rw [member_eq_ok_iff.mpr hm]; rfl

/-- No packet meets an error after it has changed or sent anything. -/
theorem handleInPlace_eq (w : World) (p : PlayerId) (k : Packet) (wall : UInt64) :
    w.handleInPlace p k wall = match w.handle p k wall with
      | .ok (w', sent) => ⟨w', sent, .ok ()⟩
      | .error e => ⟨w, [], .error e⟩ := by
  cases k with
  | worldLoaded => exact worldLoadedInPlace_eq w p wall
  | ownUpdate u =>
    dsimp only [handleInPlace, handle]
    rw [ownUpdateInPlace_eq]
    obtain e | ⟨w', taken⟩ := w.ownUpdate p u <;> rfl
  | say message =>
    dsimp only [handleInPlace, handle]
    rw [sayInPlace_eq]
    cases w.say p message wall <;> rfl
  | _ => rfl

end World

end SharedWorld
