import SharedWorld.Proofs.Client.Session
import Mathlib.Data.List.DropRight

/-! # What a session keeps of the chat

A chat line goes to the end of the log of the session's view, and a world to load brings a new
view with an empty log. So the log of a session holds the lines that have come since it was told
last to load a world.
-/

namespace SharedWorld

namespace Packet

variable {p : Packet} {ps rest : List Packet}

def line? : Packet → Option ChatLine
  | relayChat user message time => some ⟨user, message, time⟩
  | _ => none

def isWord (p : Packet) : Bool := p.isOrder || p.line?.isSome

def log (ps : List Packet) : List ChatLine := (ps.rtakeWhile (·.loads?.isNone)).filterMap line?

/-- The log of who has heard these packets, once there is a world to load among them. -/
def chat? (ps : List Packet) : Option (List ChatLine) :=
  if ps.any (·.loads?.isSome) then some (log ps) else none

/-- No line comes before the first world to load. -/
def Loaded : List Packet → Prop
  | [] => True
  | p :: ps => p.loads?.isSome ∨ p.line? = none ∧ Loaded ps

theorem line?_of_not_isWord (h : p.isWord = false) : p.line? = none := by
  simpa using (Bool.or_eq_false_iff.mp h).2

theorem line?_of_loads? {W : String} (h : p.loads? = some W) : p.line? = none := by
  cases p <;> cases h
  rfl

theorem isWord_of_isOrder (h : p.isOrder) : p.isWord := by
  simp [isWord, h]

theorem filterMap_line?_filter (ps : List Packet) :
    (ps.filter (·.isWord)).filterMap line? = ps.filterMap line? := by
  rw [List.filterMap_filter]
  refine List.filterMap_congr fun p _ => ?_
  split
  · rfl
  · next h => exact (line?_of_not_isWord (Bool.not_eq_true _ ▸ h)).symm

theorem chat?_append_word (hp : p.loads? = none) :
    chat? (ps ++ [p].filter (·.isWord)) = (chat? ps).map (· ++ p.line?.toList) := by
  have hlog : log (ps ++ [p].filter (·.isWord)) = log ps ++ p.line?.toList := by
    cases hw : p.isWord with
    | false => simp [hw, line?_of_not_isWord hw]
    | true =>
      rw [List.filter_cons_of_pos hw, List.filter_nil, log,
        List.rtakeWhile_concat_pos _ _ _ (by simp [hp]), List.filterMap_append]
      cases hl : p.line? <;> simp [log, hl]
  have hany : (ps ++ [p].filter (·.isWord)).any (·.loads?.isSome) = ps.any (·.loads?.isSome) := by
    cases hw : p.isWord <;> simp [hw, hp]
  rw [chat?, chat?, hany, hlog]
  split <;> rfl

theorem chat?_append_load (ps : List Packet) (W : String) :
    chat? (ps ++ [loadWorld W].filter (·.isWord)) = some [] := by
  have hone : [loadWorld W].filter (·.isWord) = [loadWorld W] := rfl
  rw [hone, chat?, if_pos (by simp [loads?]), log,
    List.rtakeWhile_concat_neg _ _ _ (by simp [loads?])]
  rfl

theorem Loaded.exists_load (h : Loaded (ps ++ p :: rest)) (hp : p.line? ≠ none) :
    ps.any (·.loads?.isSome) := by
  induction ps with
  | nil =>
    obtain hload | ⟨hline, -⟩ := h
    · obtain ⟨W, hW⟩ := Option.isSome_iff_exists.mp hload
      exact absurd (line?_of_loads? hW) hp
    · exact absurd hline hp
  | cons q ps ih =>
    rw [List.any_cons, Bool.or_eq_true]
    exact h.imp_right fun hrest => ih hrest.2

theorem Loaded.of_append (h : Loaded (ps ++ rest)) : Loaded ps := by
  induction ps with
  | nil => trivial
  | cons p ps ih => exact h.imp_right fun hp => ⟨hp.1, ih hp.2⟩

theorem Loaded.line?_eq_none (h : Loaded ps) (hn : ∀ q ∈ ps, q.loads? = none) :
    ∀ q ∈ ps, q.line? = none := by
  induction ps with
  | nil => exact List.forall_mem_nil _
  | cons p ps ih =>
    obtain ⟨hp, hps⟩ := List.forall_mem_cons.mp hn
    obtain hload | ⟨hline, hrest⟩ := h
    · rw [hp] at hload
      cases hload
    · exact List.forall_mem_cons.mpr ⟨hline, ih hrest hps⟩

theorem Loaded.getD_chat? (h : Loaded ps) : (chat? ps).getD [] = log ps := by
  unfold chat?
  split
  · rfl
  next hany =>
  refine (List.filterMap_eq_nil_iff.mpr fun p hp => ?_).symm
  refine h.line?_eq_none (fun q hq => ?_) p ((List.rtakeWhile_suffix _ _).subset hp)
  by_contra hload
  exact hany (List.any_eq_true.mpr ⟨q, hq, Option.isSome_iff_ne_none.mpr hload⟩)

theorem loaded_of_forall
    (h : ∀ before p after, ps = before ++ p :: after → p.line? ≠ none →
      before.any (·.loads?.isSome)) : Loaded ps := by
  induction ps with
  | nil => trivial
  | cons q ps ih =>
    refine or_iff_not_imp_left.mpr fun hq => ⟨?_, ih ?_⟩
    · by_contra hline
      cases h [] q ps rfl hline
    · intro before p after he hline
      have hany := h (q :: before) p after (by rw [he]; rfl) hline
      rw [List.any_cons, Bool.or_eq_true] at hany
      exact hany.resolve_left hq

end Packet

namespace WorldView

variable {v v' : WorldView}

theorem chat_receive (v : WorldView) (p : Packet) :
    (v.receive p).chat = v.chat ++ p.line?.toList := by
  cases hl : p.line? with
  | some line =>
    cases p <;> cases hl
    rfl
  | none =>
    have h := v.takes_receive p
    generalize v.receive p = v' at h
    rw [Option.toList_none, List.append_nil]
    cases h with
    | chat => cases hl
    | _ => rfl

theorem chat_tick {frame : Float32} (h : v.tick frame = some v') : v'.chat = v.chat := by
  unfold tick at h
  split at h <;> cases h
  rfl

end WorldView

namespace ClientSession

variable {s s' : ClientSession} {p : Packet} {ps heard rest : List Packet}

/-- The session's chat log, if it has a world. -/
def chat? (s : ClientSession) : Option (List ChatLine) := s.world.map (·.chat)

def log (s : ClientSession) : List ChatLine := s.chat?.getD []

/-- What packets add to the log, one after the other up to the first failure. -/
def appends (s : ClientSession) : List Packet → List ChatLine
  | [] => []
  | p :: ps =>
    let first := s.handle p
    first.session.log.drop s.log.length ++
      match first.result with
      | .error _ => []
      | .ok () => first.session.appends ps

theorem world_onStored (s : ClientSession) (user stored : String) :
    (s.onStored user stored).session.world = s.world := by
  unfold onStored
  split
  · rfl
  split
  · rfl
  next password _ =>
  obtain ⟨-, ho⟩ | ⟨e, -, ho⟩ :=
    s.sendOr_cases (.authenticate s.user password) s { s with phase := .authenticating } <;> rw [ho]

theorem chat?_handle_load (s : ClientSession) (W : String) :
    (s.handle (.loadWorld W)).session.chat? = some [] := by
  simp only [handle]
  rw [(send_resembles _ _).1]
  rfl

theorem chat?_handle (s : ClientSession) (hp : p.loads? = none) :
    (s.handle p).session.chat? = s.chat?.map (· ++ p.line?.toList) := by
  have same {t : ClientSession} (ht : t.world = s.world) (hl : p.line? = none) :
      t.chat? = s.chat?.map (· ++ p.line?.toList) := by
    rw [chat?, ht, hl]
    cases hc : s.chat? <;> simpa [chat?] using hc
  unfold handle
  split
  · exact same (world_onStored ..) rfl
  · exact same rfl rfl
  · cases hp
  · rw [chat?, chat?, Option.map_map, Option.map_map]
    congr 1
    funext v
    exact (congrArg WorldView.chat (v.getD_handle p)).trans (v.chat_receive p)

theorem chat?_of_handle (h : s.chat? = Packet.chat? heard) (p : Packet) :
    (s.handle p).session.chat? = Packet.chat? (heard ++ [p].filter (·.isWord)) := by
  cases hp : p.loads? with
  | none => rw [chat?_handle s hp, h, Packet.chat?_append_word hp]
  | some W =>
    obtain rfl : p = .loadWorld W := by
      cases p <;> cases hp
      rfl
    rw [chat?_handle_load, Packet.chat?_append_load]

theorem drop_log_handle (h : s.chat? = Packet.chat? heard)
    (hl : Packet.Loaded (heard ++ [p].filter (·.isWord) ++ rest)) :
    (s.handle p).session.log.drop s.log.length = p.line?.toList := by
  cases hp : p.loads? with
  | some W =>
    obtain rfl : p = .loadWorld W := by
      cases p <;> cases hp
      rfl
    simp [log, chat?_handle_load, Packet.line?]
  | none =>
    rw [log, log, chat?_handle s hp]
    cases hc : s.chat? with
    | some lines => simp
    | none =>
      -- Without a world no line has come.
      have hline : p.line? = none := by
        by_contra hline
        have hw : p.isWord := by
          simp [Packet.isWord, Option.isSome_iff_ne_none.mpr hline]
        rw [List.filter_cons_of_pos hw, List.filter_nil, List.append_assoc] at hl
        rw [Packet.chat?, if_pos (hl.exists_load hline), hc] at h
        cases h
      simp [hline]

/-- The session hears the words that it comes to, and adds all their lines to its log. -/
theorem chat?_handleAll (h : s.chat? = Packet.chat? heard)
    (hl : Packet.Loaded (heard ++ ps.filter (·.isWord) ++ rest)) :
    ∃ taken, ps = taken ++ s.leftover ps ∧
      (s.handleAll ps).session.chat? = Packet.chat? (heard ++ taken.filter (·.isWord)) ∧
      s.appends ps = taken.filterMap Packet.line? := by
  induction ps generalizing s heard with
  | nil => exact ⟨[], rfl, by simpa [handleAll] using h, rfl⟩
  | cons p ps ih =>
    have hsplit : (p :: ps).filter (·.isWord) =
        [p].filter (·.isWord) ++ ps.filter (·.isWord) := List.filter_append [p] ps
    rw [hsplit] at hl
    rw [← List.append_assoc, List.append_assoc _ _ rest] at hl
    have hdrop := drop_log_handle h hl
    have hp := chat?_of_handle h p
    cases hres : (s.handle p).result with
    | error e =>
      refine ⟨[p], by simp [leftover, hres], by simpa [handleAll, hres] using hp, ?_⟩
      simp only [appends, hres, hdrop]
      cases hline : p.line? <;> simp [hline]
    | ok _ =>
      obtain ⟨taken, hps, hc, hadds⟩ := ih hp (by rwa [List.append_assoc])
      simp only [handleAll, leftover, appends, hres, hdrop]
      refine ⟨p :: taken, by rw [List.cons_append, ← hps], ?_, ?_⟩
      · have htaken : (p :: taken).filter (·.isWord) =
            [p].filter (·.isWord) ++ taken.filter (·.isWord) := List.filter_append [p] taken
        rw [htaken, ← List.append_assoc]
        exact hc
      · rw [hadds]
        cases hline : p.line? <;> simp [hline]

section Operations

variable {now : Int}

theorem chat?_probe (s : ClientSession) (now : Int) : (s.probe now).session.chat? = s.chat? := by
  unfold probe
  split
  · obtain ⟨-, ho⟩ | ⟨e, -, ho⟩ :=
      s.sendOr_cases (.probe s.player) s { s with lastProbe := some now } <;> rw [ho]
    rfl
  · rfl

theorem chat?_advance (h : s.advance now = some s') : s'.chat? = s.chat? := by
  unfold advance at h
  dsimp only at h
  split at h
  · cases h
    rfl
  · next v hv =>
    obtain ⟨v', htick, rfl⟩ := Option.map_eq_some_iff.mp h
    simp [chat?, hv, WorldView.chat_tick htick]

theorem chat?_update {received : List Packet} {link : ClientLink} {out : Outcome Nat}
    (hd : s.link.drain = (received, link)) (h : s.update now = some out) :
    out.session.chat? = (({ s with link } : ClientSession).handleAll received).session.chat? := by
  unfold update at h
  rw [hd] at h
  dsimp only at h
  split at h
  · cases h
    rfl
  split at h
  · cases h
    exact chat?_probe ..
  · obtain ⟨s', hs', rfl⟩ := Option.map_eq_some_iff.mp h
    exact (chat?_advance hs').trans (chat?_probe ..)

theorem chat?_move (s : ClientSession) (position : Position) (now : Nat) :
    (s.move position now).session.chat? = s.chat? := by
  unfold move
  split
  · dsimp only
    rw [(send_resembles _ _).1]
    rfl
  · rfl

end Operations

end ClientSession

end SharedWorld
