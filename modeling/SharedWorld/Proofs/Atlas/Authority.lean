import SharedWorld.Proofs.Atlas.Run
import SharedWorld.Proofs.World.Inbound

/-! # Whose reports move which character

A report moves nothing but the character that its sender has in its world, and it moves that
one only when it is about it, can be read to its end, was made in that world and is newer than
all before. Every other report leaves the whole atlas as it was, also when the atlas is changed
in place and the report turns out to be bad on the way, and none is answered.
-/

namespace SharedWorld

namespace PositionReport

/-- The blob is read as the report, and nothing is left over. -/
def Fills (report : PositionReport) (blob : Bytes) : Prop :=
  ∃ x y, Record.read layout blob = (.ok (report.player.val, report.world, x, y, ()), []) ∧
    report.position = ⟨Fixed.toFloat x, Fixed.toFloat y⟩

theorem ofBlob_eq_ok_iff {report : PositionReport} {blob : Bytes} :
    ofBlob blob = .ok report ↔ report.Fills blob := by
  constructor
  · intro h
    obtain ⟨⟨p, world, x, y, ⟨⟩⟩, hr, ho⟩ := Except.bind_eq_ok_iff.mp h
    cases ho
    unfold Record.ofBlob at hr
    split at hr
    · cases hr
    · next hread =>
      cases hr
      exact ⟨x, y, hread, rfl⟩
    · cases hr
  · rintro ⟨x, y, hread, hp⟩
    obtain ⟨player, world, position⟩ := report
    obtain rfl : position = _ := hp
    unfold ofBlob Record.ofBlob
    rw [hread]
    rfl

end PositionReport

namespace World

variable {w : World} {q : PlayerId} {u : OwnUpdate} {m : Member} {c : Character}
  {report : PositionReport}

/-- What a world demands of a report on a character of its own. -/
structure Accepts (w : World) (q : PlayerId) (u : OwnUpdate) (m : Member) (c : Character)
    (report : PositionReport) : Prop where
  member : w.members.get? q = some m
  own : u.entity = m.character
  there : w.characters.get? m.character = some c
  whole : report.Fills u.data
  here : report.world = w.name
  newer : c.presence.lastUpdate < u.time

def move (w : World) (c : Character) (k : EntityId) (time : UInt64) (position : Position) : World :=
  { w with characters := w.characters.insert k (c.moved time position) }

theorem ownUpdate_of_accepts (h : w.Accepts q u m c report) :
    w.ownUpdate q u = .ok (w.move c m.character u.time report.position, true) := by
  have ht : c.presence.accept? u.time = some { c.presence with lastUpdate := u.time } := by
    rw [Presence.accept?, if_neg (UInt64.not_le.mpr h.newer)]
  simp only [ownUpdate, member_eq_ok_iff.mpr h.member, PositionReport.ofBlob_eq_ok_iff.mpr h.whole,
    bind, Except.bind, h.own, h.here, h.there, ht, ne_eq, not_true_eq_false, if_false]
  rfl

theorem ownUpdate_of_not_accepts (h : ∀ m c report, ¬ w.Accepts q u m c report) {w' : World}
    {taken : Bool} (ho : w.ownUpdate q u = .ok (w', taken)) : w' = w := by
  obtain ⟨m, hm, he, ⟨-, rfl⟩ | ⟨-, report, c, hr, hw, hc, ht, -⟩⟩ := ownUpdate_eq_ok ho
  · rfl
  · exact absurd ⟨hm, he, hc, PositionReport.ofBlob_eq_ok_iff.mp hr, hw, ht⟩ (h m c report)

theorem move_ne (h : w.Accepts q u m c report) (position : Position) :
    w.move c m.character u.time position ≠ w := by
  intro he
  have hc := congrArg (fun v : World => v.characters.get? m.character) he
  dsimp only [move] at hc
  rw [Table.get?_insert_self, h.there] at hc
  have ht : u.time = c.presence.lastUpdate :=
    congrArg (fun c : Character => c.presence.lastUpdate) (Option.some.inj hc)
  have hlt := h.newer
  rw [ht] at hlt
  exact UInt64.lt_irrefl _ hlt

end World

namespace Atlas

variable {a : Atlas} {q : PlayerId} {u : OwnUpdate} {W : String} {w : World} {m : Member}
  {c : Character} {report : PositionReport}

structure Accepts (a : Atlas) (q : PlayerId) (u : OwnUpdate) (W : String) (w : World) (m : Member)
    (c : Character) (report : PositionReport) : Prop where
  index : a.index.get? q = some W
  world : a.worlds.get? W = some w
  accepts : w.Accepts q u m c report

theorem route_of_accepts (h : a.Accepts q u W w m c report) (wall : UInt64) :
    a.route q (.ownUpdate u) wall = .ok ({ a with
      worlds := a.worlds.insert W (w.move c m.character u.time report.position) }, []) := by
  simp only [route, h.index, h.world, World.handle, World.ownUpdate_of_accepts h.accepts, bind,
    Except.bind, pure, Except.pure]

theorem step_of_not_accepts (h : ¬ ∃ W w m c report, a.Accepts q u W w m c report)
    (wall : UInt64) : a.step (.route q (.ownUpdate u) wall) = (a, []) := by
  simp only [step]
  split
  case h_2 => rfl
  next out hr =>
  obtain ⟨a', sent⟩ := out
  obtain ⟨W, w, w', hi, hw, hh, rfl⟩ := route_eq_ok hr
  obtain ⟨⟨v, taken⟩, ho, hv⟩ := Except.bind_eq_ok_iff.mp hh
  cases hv
  have hn : ∀ m c report, ¬ w.Accepts q u m c report :=
    fun m c report hacc => h ⟨W, w, m, c, report, hi, hw, hacc⟩
  obtain rfl := World.ownUpdate_of_not_accepts hn ho
  rw [Table.insert_eq_self hw]

/-- A packet that changes the atlas as it goes: the world is changed where it stands in the table,
whatever comes of the packet. -/
def routeInPlace (a : Atlas) (player : PlayerId) (k : Packet) (wall : UInt64) :
    Step Atlas (Except WorldError Unit) :=
  match a.index.get? player with
  | none => ⟨a, [], .error (.playerNotInWorld player)⟩
  | some name =>
    match a.worlds.get? name with
    | none => ⟨a, [], .error (.playerNotInWorld player)⟩
    | some w =>
      let out := w.handleInPlace player k wall
      ⟨{ a with worlds := a.worlds.insert name out.state }, out.sent, out.value⟩

theorem routeInPlace_eq (a : Atlas) (q : PlayerId) (k : Packet) (wall : UInt64) :
    a.routeInPlace q k wall = match a.route q k wall with
      | .ok (a', sent) => ⟨a', sent, .ok ()⟩
      | .error e => ⟨a, [], .error e⟩ := by
  unfold routeInPlace route
  cases a.index.get? q with
  | none => rfl
  | some W =>
    dsimp only
    cases hw : a.worlds.get? W with
    | none => rfl
    | some w =>
      dsimp only
      rw [World.handleInPlace_eq]
      obtain e | ⟨w', sent⟩ := w.handle q k wall
      · -- The world is written back, and is the one that was there.
        simp only [Table.insert_eq_self hw]
        rfl
      · rfl

theorem step_route_eq (a : Atlas) (q : PlayerId) (k : Packet) (wall : UInt64) :
    a.step (.route q k wall) =
      ((a.routeInPlace q k wall).state, (a.routeInPlace q k wall).sent) := by
  rw [routeInPlace_eq, step]
  split <;> simp only [*]

/-- A report changes the position and the gate of its sender's character, and nothing else, when
it is accepted; otherwise it changes nothing at all, also when it is handled in place and refused
half-way. Nothing is sent in either case. -/
theorem step_route_ownUpdate (a : Atlas) (q : PlayerId) (u : OwnUpdate) (wall : UInt64) :
    (∀ W w m c report, a.Accepts q u W w m c report →
        let a' := { a with
          worlds := a.worlds.insert W (w.move c m.character u.time report.position) }
        a.route q (.ownUpdate u) wall = .ok (a', []) ∧
          a.step (.route q (.ownUpdate u) wall) = (a', []) ∧
          a.routeInPlace q (.ownUpdate u) wall = ⟨a', [], .ok ()⟩ ∧ a' ≠ a) ∧
      ((¬ ∃ W w m c report, a.Accepts q u W w m c report) →
        a.step (.route q (.ownUpdate u) wall) = (a, []) ∧
          (a.routeInPlace q (.ownUpdate u) wall).state = a ∧
          (a.routeInPlace q (.ownUpdate u) wall).sent = []) := by
  constructor
  · intro W w m c report h
    have hr := route_of_accepts h wall
    refine ⟨hr, by rw [step, hr], by rw [routeInPlace_eq, hr], fun he => ?_⟩
    have hw := congrArg (fun b : Atlas => b.worlds.get? W) he
    dsimp only at hw
    rw [Table.get?_insert_self, h.world] at hw
    exact World.move_ne h.accepts _ (Option.some.inj hw)
  · intro h
    have hs := step_of_not_accepts h wall
    exact ⟨hs, Prod.mk.inj ((step_route_eq a q _ wall).symm.trans hs)⟩

theorem accepts_of_taken {w' : World} (hi : a.index.get? q = some W)
    (hw : a.worlds.get? W = some w) (ho : w.ownUpdate q u = .ok (w', true)) :
    ∃ m c report, a.Accepts q u W w m c report := by
  obtain ⟨m, hm, he, ⟨ht, -⟩ | ⟨-, report, c, hr, hn, hc, ht, -⟩⟩ := World.ownUpdate_eq_ok ho
  · cases ht
  · exact ⟨m, c, report, hi, hw, hm, he, hc, PositionReport.ofBlob_eq_ok_iff.mp hr, hn, ht⟩

def atFarm : Atlas :=
  ((ofWorlds [{ islands := [] }] "farm").step
    (.addPlayer { connection := ⟨1⟩, id := ⟨1⟩, name := "ann" } none)).1

def firstStep : OwnUpdate :=
  ⟨⟨1⟩, ⟨2⟩, 7, .character, PositionReport.toBlob ⟨⟨1⟩, "farm", ⟨3, 4⟩⟩⟩

theorem accepts_firstStep :
    ∃ w m c report, atFarm.Accepts ⟨1⟩ firstStep "farm" w m c report := by
  have hi : atFarm.index.get? ⟨1⟩ = some "farm" := by decide +kernel
  have ho : ((atFarm.worlds.get? "farm").bind fun w =>
      ((w.ownUpdate ⟨1⟩ firstStep).toOption.map (·.2))) = some true := by decide +kernel
  obtain ⟨w, hw, ho⟩ := Option.bind_eq_some_iff.mp ho
  cases hout : w.ownUpdate ⟨1⟩ firstStep with
  | error err =>
    rw [hout] at ho
    cases ho
  | ok out =>
    obtain ⟨w', taken⟩ := out
    rw [hout] at ho
    cases ho
    exact ⟨w, accepts_of_taken hi hw hout⟩

def strayStep : OwnUpdate := { firstStep with entity := ⟨9⟩ }

theorem not_accepts_strayStep :
    ¬ ∃ W w m c report, atFarm.Accepts ⟨1⟩ strayStep W w m c report := by
  rintro ⟨W, w, m, c, report, h⟩
  have hm : (atFarm.worldOf? ⟨1⟩).bind (·.members.get? ⟨1⟩) = some m := by
    simp [worldOf?, h.index, h.world, h.accepts.member]
  have hc : ((atFarm.worldOf? ⟨1⟩).bind (·.members.get? ⟨1⟩)).map (·.character) = some ⟨2⟩ := by
    decide +kernel
  rw [hm, Option.map_some, ← h.accepts.own] at hc
  exact absurd hc (by decide)

/-- Ann's first step moves her character, and the stray one is refused and changes nothing. -/
theorem step_route_ownUpdate_farm :
    (∃ w m c report, atFarm.Accepts ⟨1⟩ firstStep "farm" w m c report ∧
      let a' := { atFarm with
        worlds := atFarm.worlds.insert "farm" (w.move c m.character 7 report.position) }
      atFarm.step (.route ⟨1⟩ (.ownUpdate firstStep) 0) = (a', []) ∧
        atFarm.routeInPlace ⟨1⟩ (.ownUpdate firstStep) 0 = ⟨a', [], .ok ()⟩) ∧
      (atFarm.routeInPlace ⟨1⟩ (.ownUpdate strayStep) 0).value.toOption = none ∧
      (atFarm.routeInPlace ⟨1⟩ (.ownUpdate strayStep) 0).state = atFarm := by
  obtain ⟨w, m, c, report, h⟩ := accepts_firstStep
  obtain ⟨-, hs, hr, -⟩ := (step_route_ownUpdate atFarm ⟨1⟩ firstStep 0).1 "farm" w m c report h
  have hn := (step_route_ownUpdate atFarm ⟨1⟩ strayStep 0).2 not_accepts_strayStep
  exact ⟨⟨w, m, c, report, h, hs, hr⟩, by decide +kernel, hn.2.1⟩

end Atlas

end SharedWorld
