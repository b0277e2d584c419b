import SharedWorld.Proofs.Packet.Sizes
import SharedWorld.Proofs.World.Broadcasts
import SharedWorld.Proofs.World.Islands

/-! # How long the frames of a world are

What a world sends is as long as the names and looks in it, as the line that a member said, and
as the number of all writes to its tiles. Nothing bounds these, so a packet may be too long for a
frame, and then it is not delivered. A frame that is too long for a datagram goes on the stream.
-/

namespace SharedWorld

section Tiles

theorem TileLog.length_write (log : TileLog) : log.write.length = 4 + 19 * log.length := by
  rw [write, List.length_append, Word.length_encode, List.length_flatMap]
  simp [TileWrite.length_write, Nat.mul_comm]

theorem TileLog.length_writeAll (logs : List TileLog) :
    (writeAll logs).length = 4 + 4 * logs.length + 19 * logs.flatten.length := by
  rw [writeAll, List.length_append, Word.length_encode]
  induction logs with
  | nil => rfl
  | cons log logs ih =>
    rw [List.flatMap_cons, List.length_append, length_write, List.length_cons, List.flatten_cons,
      List.length_append]
    omega

theorem length_flatten_set {α : Type} {a : α} {as : List α} {ass : List (List α)} {n : Nat}
    (h : ass[n]? = some as) : (ass.set n (a :: as)).flatten.length = ass.flatten.length + 1 := by
  induction ass generalizing n with
  | nil => cases h
  | cons bs ass ih =>
    cases n with
    | zero =>
      cases h
      rfl
    | succ n =>
      rw [List.set_cons_succ, List.flatten_cons, List.flatten_cons, List.length_append,
        List.length_append, ih h]
      rfl

end Tiles

def Appearance.bytes (a : Appearance) : Nat :=
  a.hair.utf8ByteSize + a.body.utf8ByteSize + a.clothesTop.utf8ByteSize +
    a.clothesBottom.utf8ByteSize + a.feet.utf8ByteSize

namespace World

variable {w w' : World} {ev : Event} {x : Envelope} {p : Packet} {n : Nat} {player : PlayerId}
  {wall : UInt64} {user message : String} {k : EntityId} {sent : List Envelope}
  {ms : List (Moment World Event)}

def entries (w : World) : Nat := w.logs.flatten.length

/-- What an event makes a world say, and how many bytes that is as a frame. -/
inductive Utters (w w' : World) : Event → Packet → Nat → Prop
  | load {ids : EntityIds} {p : Player} {entity : Option EntityId} :
      Utters w w' (.addPlayer ids p entity) (.loadWorld w.name) (9 + w.name.utf8ByteSize)
  | joined {q : PlayerId} {wall : UInt64} :
      Utters w w' (.packet q .worldLoaded wall) (.joined q w.name) (13 + w.name.utf8ByteSize)
  | left {q : PlayerId} {wall : UInt64} :
      Utters w w' (.removePlayer q wall) (.left q w.name) (13 + w.name.utf8ByteSize)
  | removed (ev : Event) (k : EntityId) :
      Utters w w' ev (.removeEntity k w.name) (13 + w.name.utf8ByteSize)
  | details {ev : Event} {k : EntityId} {c : Character} (hc : w'.characters.get? k = some c) :
      Utters w w' ev (.setDetails k w.name c.appearance)
        (33 + w.name.utf8ByteSize + c.appearance.bytes)
  | relayed {q : PlayerId} {m : Member} {message : String} {wall : UInt64}
      (hm : w.members.get? q = some m) :
      Utters w w' (.packet q (.say message) wall) (.relayChat m.name message wall)
        (21 + m.name.utf8ByteSize + message.utf8ByteSize)
  | greeting {q : PlayerId} {m : Member} {wall : UInt64} (hm : w.members.get? q = some m) :
      Utters w w' (.packet q .worldLoaded wall)
        (.relayChat systemName ("Player \x60" ++ m.name ++ "\x60 has joined this world.") wall)
        (59 + m.name.utf8ByteSize)
  | farewell {q : PlayerId} {m : Member} {wall : UInt64} (hm : w.members.get? q = some m) :
      Utters w w' (.removePlayer q wall)
        (.relayChat systemName ("Player \x60" ++ m.name ++ "\x60 has left this world.") wall)
        (57 + m.name.utf8ByteSize)
  | character {k : EntityId} {c : Character} {clock : Clock} (hc : w.characters.get? k = some c) :
      Utters w w' (.tick clock)
        (.entityUpdate ((c.tick clock.frame).snapshot w.name clock.total))
        (47 + w.name.utf8ByteSize + c.type.utf8ByteSize)
  | tiles {clock : Clock} :
      Utters w w' (.tick clock) (.entityUpdate (w.tileUpdate clock.total))
        (34 + w.name.utf8ByteSize + 4 * w.islands.length + 19 * w.entries)

theorem length_tileData (w : World) :
    w.tileData.length = 4 + 4 * w.islands.length + 19 * w.entries := by
  rw [tileData, TileLog.length_writeAll, List.length_map]
  rfl

theorem size_line (name rest : String) (wall : UInt64) :
    (Packet.relayChat systemName ("Player \x60" ++ name ++ rest) wall).size =
      35 + name.utf8ByteSize + rest.utf8ByteSize := by
  have hs : systemName.utf8ByteSize = 6 := by decide
  have hp : "Player \x60".utf8ByteSize = 8 := by decide
  simp only [Packet.size, String.utf8ByteSize_append]
  omega

theorem Utters.eq_size_of_chat (h : w.Utters w' ev (.relayChat user message wall) n) :
    n = (Packet.relayChat user message wall).size := by
  cases h with
  | relayed => rfl
  | greeting =>
    have hr : "\x60 has joined this world.".utf8ByteSize = 24 := by decide
    rw [size_line]
    omega
  | farewell =>
    have hr : "\x60 has left this world.".utf8ByteSize = 22 := by decide
    rw [size_line]
    omega

theorem Utters.takes_chat (h : w.Utters w' ev (.relayChat user message wall) n) :
    (Packet.relayChat user message wall).Takes n := by
  rw [h.eq_size_of_chat]
  exact Packet.takes_size _

theorem Utters.takes (h : w.Utters w' ev p n) : p.Takes n := by
  cases h with
  | @character k c clock =>
    have hu : ((c.tick clock.frame).snapshot w.name clock.total).data = Record.write _ _ := rfl
    apply (Packet.takes_update hu).congr
    intro
    simp only [Record.size, FieldType.size, Character.snapshot, Character.data, Character.tick]
    omega
  | @tiles clock =>
    apply (Packet.takes_size _).congr
    intro
    simp only [Packet.size, tileUpdate, length_tileData]
    omega
  | greeting hm => exact takes_chat (greeting hm : w.Utters w' _ _ _)
  | farewell hm => exact takes_chat (farewell hm : w.Utters w' _ _ _)
  | _ => exact Packet.takes_size _

/-- What is sent is what the event makes the world say. Vital packets and those too long for a
datagram go on streams. -/
structure Speaks (w w' : World) (ev : Event) (x : Envelope) : Prop where
  utters : ∃ n, w.Utters w' ev x.packet n
  route : ∀ a, x.target = .datagram a → x.packet.isVital = false ∧ ¬ x.packet.Overflows

theorem speaks_of_mem_sendAll {v : World} {except : Option PlayerId} {delay : UInt64}
    {force : Bool} (hp : w.Utters w' ev p n) (h : x ∈ v.sendAll p except delay force) :
    w.Speaks w' ev x := by
  obtain ⟨m, -, -, t, ht, rfl⟩ := mem_sendAll.mp h
  refine ⟨⟨n, hp⟩, ?_⟩
  rintro a rfl
  unfold routeTo at ht
  split at ht
  · cases ht
  · next hr =>
    rw [← fitsDatagram_eq_false_iff]
    revert hr
    cases p.isVital <;> cases force <;> cases fitsDatagram p <;> simp

theorem speaks_of_mem_sendDetails {v : World} (hn : v.name = w.name)
    (hc : v.characters = w'.characters) (h : x ∈ v.sendDetails k) : w.Speaks w' ev x := by
  unfold sendDetails at h
  split at h
  · cases h
  · next c hk =>
    rw [hn] at h
    exact speaks_of_mem_sendAll (.details (hc ▸ hk)) h

theorem speaks_removeEntity {v v' : World} (hn : v.name = w.name)
    (h : v.removeEntity k = .ok (v', sent)) (hx : x ∈ sent) : w.Speaks w' ev x := by
  unfold removeEntity at h
  split at h
  · cases h
    rw [hn] at hx
    rcases List.mem_append.mp hx with hx | hx <;> exact speaks_of_mem_sendAll (.removed ev k) hx
  · cases h

theorem speaks_removePlayer {s : Step World Member} (h : w.removePlayer player wall = .ok s)
    (hx : x ∈ s.sent) : w.Speaks w' (.removePlayer player wall) x := by
  unfold removePlayer at h
  split at h
  · cases h
  next m hm =>
  have hsaid {v : World} (hx : x ∈ v.sendAll (.left player w.name) (some player) 0 false ++
      v.sendChat ("Player \x60" ++ m.name ++ "\x60 has left this world.") systemName
        (some player) wall) : w.Speaks w' (.removePlayer player wall) x := by
    rcases List.mem_append.mp hx with hx | hx
    · exact speaks_of_mem_sendAll .left hx
    · exact speaks_of_mem_sendAll (.farewell hm) hx
  dsimp only at h
  split at h
  · next hr =>
    cases h
    rcases List.mem_append.mp hx with hx | hx
    · exact hsaid hx
    · refine speaks_removeEntity ?_ hr hx
      rfl
  · cases h
    exact hsaid hx

theorem speaks_addPlayer {ids : EntityIds} {p : Player} {entity : Option EntityId}
    {s : Step World (EntityId × EntityIds)} (h : w.addPlayer ids p entity = .ok s)
    (hx : x ∈ s.sent) : w.Speaks s.state (.addPlayer ids p entity) x := by
  obtain ⟨-, -, hs⟩ := addPlayer_eq_ok h
  rw [sent_addPlayer h] at hx
  rcases List.mem_append.mp hx with hx | hx
  · refine speaks_of_mem_sendDetails ?_ ?_ hx
    · rfl
    · rw [hs]
      rfl
  · rw [List.mem_singleton.mp hx]
    exact ⟨⟨_, .load⟩, nofun⟩

theorem speaks_handle (h : w.handle player p wall = .ok (w', sent)) (hx : x ∈ sent) :
    w.Speaks w' (.packet player p wall) x := by
  unfold handle at h
  split at h
  · obtain ⟨m, hm, ho⟩ := Except.bind_eq_ok_iff.mp h
    cases ho
    rcases List.mem_append.mp hx with hx | hx
    · rcases List.mem_append.mp hx with hx | hx
      · exact speaks_of_mem_sendAll .joined hx
      · obtain ⟨k, -, hx⟩ := List.mem_flatMap.mp hx
        refine speaks_of_mem_sendDetails ?_ ?_ hx <;> rfl
    · exact speaks_of_mem_sendAll (.greeting (member_eq_ok_iff.mp hm)) hx
  · obtain ⟨_, -, ho⟩ := Except.bind_eq_ok_iff.mp h
    cases ho
    cases hx
  · obtain ⟨said, hs, ho⟩ := Except.bind_eq_ok_iff.mp h
    cases ho
    obtain ⟨m, hm, ho⟩ := Except.bind_eq_ok_iff.mp hs
    cases ho
    exact speaks_of_mem_sendAll (.relayed (member_eq_ok_iff.mp hm)) hx
  · cases h
    cases hx

theorem speaks_tick {clock : Clock} (hx : x ∈ (w.tick clock).2) :
    w.Speaks w' (.tick clock) x := by
  rcases List.mem_append.mp hx with hx | hx
  · split at hx
    · exact speaks_of_mem_sendAll .tiles hx
    · cases hx
  · obtain ⟨c', hc', hx⟩ := List.mem_flatMap.mp hx
    obtain ⟨k, hk⟩ := Table.mem_values_iff.mp hc'
    rw [Table.get?_map] at hk
    obtain ⟨c, hc, rfl⟩ := Option.map_eq_some_iff.mp hk
    unfold announce at hx
    split at hx
    · exact speaks_of_mem_sendAll (.character hc) hx
    · cases hx

theorem speaks_step (hx : x ∈ (w.step ev).2) : w.Speaks (w.step ev).1 ev x := by
  have keep {α : Type} {r : Except WorldError α} {f : α → World × List Envelope}
      (hr : ∀ a, r = .ok a → ∀ x ∈ (f a).2, w.Speaks (f a).1 ev x) :
      ∀ x ∈ (w.orKeep r f).2, w.Speaks (w.orKeep r f).1 ev x :=
    orKeep_induction (P := fun out => ∀ x ∈ out.2, w.Speaks out.1 ev x) nofun hr
  cases ev with
  | addPlayer ids p entity => exact keep (fun _ hs _ => speaks_addPlayer hs) x hx
  | addCharacter ids position type => refine speaks_of_mem_sendDetails ?_ ?_ hx <;> rfl
  | edit => cases hx
  | removePlayer player wall => exact keep (fun _ hs _ => speaks_removePlayer hs) x hx
  | removeEntity entity => exact keep (fun _ hs _ => speaks_removeEntity rfl hs) x hx
  | setAddress player a => exact keep (fun _ _ _ hx => absurd hx List.not_mem_nil) x hx
  | packet player p wall => exact keep (fun _ hs _ => speaks_handle hs) x hx
  | setPlot island layer x y plot time =>
    exact keep (fun _ _ _ hx => absurd hx List.not_mem_nil) _ hx
  | tick clock => exact speaks_tick hx

def wrote (l : Moment World Event) : Bool :=
  match l.event with
  | .setPlot island layer x y plot time =>
    (l.state.setPlot island layer x y plot time).toOption.isSome
  | _ => false

theorem islands_step (h : wrote ⟨w, ev⟩ = false) : (w.step ev).1.islands = w.islands := by
  have hm := makes_step w ev
  generalize (w.step ev).1 = w' at hm
  cases hm with
  | write hi hp =>
    simp [wrote, setPlot, hi, hp, Bind.bind, Except.bind, Pure.pure, Except.pure,
      Except.toOption] at h
  | _ => rfl

theorem entries_step (w : World) (ev : Event) :
    (w.step ev).1.entries = w.entries + if wrote ⟨w, ev⟩ then 1 else 0 := by
  cases hw : wrote ⟨w, ev⟩ with
  | false =>
    rw [entries, logs, islands_step hw]
    rfl
  | true =>
    cases ev with
    | setPlot island layer x y plot time =>
      cases hs : w.setPlot island layer x y plot time with
      | error e => simp [wrote, hs, Except.toOption] at hw
      | ok out =>
        obtain ⟨i, i', hi, hp, hw'⟩ := setPlot_eq_ok hs
        obtain ⟨k, -, -, rfl⟩ := Island.setPlot_eq_ok hp
        have hlog : w.logs[island]? = some i.log := by
          rw [logs, List.getElem?_map, hi]
          rfl
        simp only [step, hs, orKeep, hw', entries, logs, List.map_set]
        exact length_flatten_set hlog
    | _ => cases hw

theorem entries_of_run (h : freely.Run ms w) : w.entries = ms.countP wrote := by
  induction h with
  | start h =>
    obtain ⟨config, sync, ids, rfl⟩ := h
    apply List.length_eq_zero_iff.mpr
    apply List.flatten_eq_nil_iff.mpr
    intro log hlog
    obtain ⟨i, hi, rfl⟩ := List.mem_map.mp hlog
    obtain ⟨index, _, rfl⟩ := List.mem_mapIdx.mp hi
    rfl
  | @step ms w ev _ _ ih =>
    rw [List.countP_cons, ← ih]
    exact entries_step w ev

theorem Utters.le_of_decode (h : w.Utters w' ev (.relayChat user message wall) n) {f : Bytes}
    (hf : Packet.decode f = .ok (.say message)) : n ≤ f.length + (12 + user.utf8ByteSize) := by
  have hle := Packet.size_le_of_decode hf
  rw [h.eq_size_of_chat]
  simp only [Packet.size] at hle ⊢
  omega

/-- Whatever is sent to an address is an entity update, not too long for a datagram, or too long
for any frame. -/
theorem Speaks.datagram (h : w.Speaks w' ev x) (hn : w.Utters w' ev x.packet n) {a : Address}
    (ha : x.target = .datagram a) :
    x.packet.update?.isSome ∧ (n ≤ maxDatagram ∨ Frame.maxSize < n) := by
  obtain ⟨hv, ho⟩ := h.route a ha
  constructor
  · generalize x.packet = p at hn hv
    cases hn with
    | character => rfl
    | tiles => rfl
    | _ => cases hv
  · by_contra hc
    obtain ⟨hlong, hfits⟩ := not_or.mp hc
    obtain ⟨frame, hf⟩ := hn.takes.fits.mpr (Nat.le_of_not_lt hfits)
    apply ho
    refine ⟨frame, hf, ?_⟩
    rw [hn.takes.length frame hf]
    exact Nat.lt_of_not_le hlong

/-- What a world sends has a frame exactly when its bytes are not too many. They are told by what
the event says and by the state, where the logs hold every write of the run. Of what goes to an
address nothing is too long for a datagram that is not too long for any frame. -/
theorem frame_of_sent (h : freely.Run ms w) (hx : x ∈ (w.step ev).2) :
    ∃ n, w.Utters (w.step ev).1 ev x.packet n ∧ x.packet.Takes n ∧
      w.entries = ms.countP wrote ∧
      (∀ user message wall f, x.packet = .relayChat user message wall →
        Packet.decode f = .ok (.say message) → n ≤ f.length + (12 + user.utf8ByteSize)) ∧
      ∀ a, x.target = .datagram a →
        x.packet.update?.isSome ∧ (n ≤ maxDatagram ∨ Frame.maxSize < n) := by
  have hs := speaks_step hx
  obtain ⟨n, hn⟩ := hs.utters
  refine ⟨n, hn, hn.takes, entries_of_run h, ?_, fun a ha => hs.datagram hn ha⟩
  intro user message wall f hp hf
  rw [hp] at hn
  exact hn.le_of_decode hf

def couple : List (Moment World Event) × World :=
  let ann : Player := { connection := ⟨1⟩, id := ⟨1⟩, name := "ann" }
  let bob : Player := { connection := ⟨2⟩, id := ⟨2⟩, name := "bob" }
  let created := World.create { islands := [] } {} {}
  freely.play [] created.1 [.addPlayer created.2 ann none, .addPlayer created.2.take.2 bob none]

theorem run_couple : freely.Run couple.1 couple.2 := by
  have hstart : freely.Starts (World.create { islands := [] } {} {}).1 := ⟨_, _, _, rfl⟩
  exact (System.Run.start hstart).play ⟨trivial, trivial, trivial⟩

theorem relayed_couple (message : String) :
    { target := .stream ⟨2⟩, packet := .relayChat "ann" message 0 } ∈
      (couple.2.step (.packet ⟨1⟩ (.say message) 0)).2 := by
  have hann : couple.2.members.get? ⟨1⟩ = some ⟨⟨1⟩, "ann", ⟨1⟩, none, ⟨2⟩⟩ := by decide +kernel
  have hbob : couple.2.members.get? ⟨2⟩ = some ⟨⟨2⟩, "bob", ⟨2⟩, none, ⟨3⟩⟩ := by decide +kernel
  have hsay : couple.2.say ⟨1⟩ message 0 = .ok (couple.2.sendChat message "ann" (some ⟨1⟩) 0) := by
    unfold say
    rw [member_eq_ok_iff.mpr hann]
    rfl
  have hstep : (couple.2.step (.packet ⟨1⟩ (.say message) 0)).2 =
      couple.2.sendChat message "ann" (some ⟨1⟩) 0 := by
    simp only [step, handle, hsay]
    rfl
  rw [hstep]
  exact mem_sendAll.mpr ⟨_, Table.mem_values_iff.mpr ⟨⟨2⟩, hbob⟩, by decide, _, rfl, rfl⟩

theorem frame_of_sent_couple : freely.Run couple.1 couple.2 ∧
    { target := .stream ⟨2⟩, packet := .relayChat "ann" "hi" 0 } ∈
      (couple.2.step (.packet ⟨1⟩ (.say "hi") 0)).2 ∧
    ∃ frame, (Packet.relayChat "ann" "hi" 0).encode = .ok frame ∧ frame.length = 26 := by
  obtain ⟨n, hn, ht, -⟩ := frame_of_sent run_couple (relayed_couple "hi")
  obtain rfl : n = 26 := hn.eq_size_of_chat
  obtain ⟨frame, hf⟩ := ht.fits.mpr (by decide)
  exact ⟨run_couple, relayed_couple "hi", frame, hf, ht.length frame hf⟩

/-- What the event brings from a client has arrived in a frame. -/
def Event.Arrived : Event → Prop
  | .addPlayer _ p _ => ∃ f password, Packet.decode f = .ok (.authenticate p.name password)
  | .packet _ p _ => ∃ f, Packet.decode f = .ok p
  | _ => True

theorem exists_decode (hp : p.size ≤ Frame.maxSize) (ht : p.mapText Text.untilNul = p) :
    ∃ f, Packet.decode f = .ok p := by
  obtain ⟨frame, hf⟩ := p.takes_size.fits.mpr hp
  have hd := Packet.decode_of_encode hf
  rw [ht] at hd
  exact ⟨frame, hd⟩

def drone (n : Nat) : String := String.ofList (List.replicate n 'a')

theorem utf8ByteSize_drone (n : Nat) : (drone n).utf8ByteSize = n := by
  rw [← Text.length_utf8, Text.utf8_eq_flatMap, drone, String.toList_ofList]
  induction n with
  | zero => rfl
  | succ n ih =>
    have ha : (String.utf8EncodeChar 'a').length = 1 := by decide
    rw [List.replicate_succ, List.flatMap_cons, List.length_append, ih, ha, Nat.add_comm]

theorem untilNul_drone (n : Nat) : Text.untilNul (drone n) = drone n := by
  rw [Text.untilNul_eq_self_iff, drone, String.toList_ofList, List.mem_replicate]
  rintro ⟨-, h⟩
  cases h

/-- The longest line that a frame can hold is relayed to nobody. -/
theorem longest_line_not_relayed : ¬ ∀ ms w ev x, freely.Run ms w → (∀ l ∈ ms, l.event.Arrived) →
    ev.Arrived → x ∈ (w.step ev).2 → (∃ frame, x.packet.encode = .ok frame) ∧
      ∀ a, x.target = .datagram a →
        ∃ frame, x.packet.encode = .ok frame ∧ frame.length ≤ maxDatagram := by
  intro h
  have hnames : ∀ name ∈ ["ann", "bob"], ∃ f password,
      Packet.decode f = .ok (.authenticate name password) := by
    intro name hn
    have hp : (Packet.authenticate name "").size ≤ Frame.maxSize ∧
        (Packet.authenticate name "").mapText Text.untilNul = .authenticate name "" := by
      revert name
      decide +kernel
    obtain ⟨f, hf⟩ := exists_decode hp.1 hp.2
    exact ⟨f, "", hf⟩
  have hpast : ∀ l ∈ couple.1, l.event.Arrived := by
    intro l hl
    rcases List.mem_cons.mp (show l ∈ _ :: _ from hl) with rfl | hl
    · exact hnames "bob" (by decide)
    · rw [List.mem_singleton.mp hl]
      exact hnames "ann" (by decide)
  have hsay : Event.Arrived (.packet ⟨1⟩ (.say (drone 10239991)) 0) := by
    apply exists_decode
    · rw [Packet.size, utf8ByteSize_drone]
      decide
    · rw [Packet.mapText, untilNul_drone]
  obtain ⟨hframe, -⟩ := h _ _ _ _ run_couple hpast hsay (relayed_couple _)
  have hle := (Packet.takes_size _).fits.mp hframe
  rw [Packet.size, utf8ByteSize_drone] at hle
  exact absurd hle (by decide)

end World

end SharedWorld
