import SharedWorld.Packet.Basic

/-! # What packets are about

Worlds send news, and the server gives orders: it says who a client is and which world it is
to load. No packet is both.
-/

namespace SharedWorld

namespace Packet

def isNews : Packet → Bool
  | entityUpdate _ | joined .. | left .. | removeEntity .. | setDetails .. | relayChat .. => true
  | _ => false

def world? : Packet → Option String
  | entityUpdate u => some u.world
  | joined _ world | left _ world | removeEntity _ world | setDetails _ world _ => some world
  | _ => none

def entity? : Packet → Option EntityId
  | entityUpdate u => some u.entity
  | ownUpdate u => some u.entity
  | removeEntity entity _ | setDetails entity _ _ => some entity
  | _ => none

def NewsOf (p : Packet) (world : String) : Prop := p.isNews ∧ ∀ V, p.world? = some V → V = world

/-- Says who a client is, or which world it is to load. -/
def isOrder : Packet → Bool
  | setPlayer _ | loadWorld _ => true
  | _ => false

def isLogin : Packet → Bool
  | authenticate .. => true
  | _ => false

def loads? : Packet → Option String
  | loadWorld world => some world
  | _ => none

variable {p : Packet} {world : String} {heard rest : List Packet} {q : PlayerId}

theorem newsOf_of_world? (h : p.world? = some world) : p.NewsOf world := by
  refine ⟨?_, fun V hV => Option.some.inj (hV.symm.trans h)⟩
  cases p <;> simp_all [world?, isNews]

theorem newsOf_relayChat (user message : String) (time : UInt64) :
    (relayChat user message time).NewsOf world :=
  ⟨rfl, nofun⟩

theorem isOrder_of_isNews (h : p.isNews) : p.isOrder = false := by
  cases p <;> simp_all [isNews, isOrder]

theorem loads?_of_not_isOrder (h : p.isOrder = false) : p.loads? = none := by
  cases p <;> simp_all [isOrder, loads?]

/-- Orders as a stream brings them: a name, and then worlds to load. -/
def Ordered (orders : List Packet) : Prop :=
  orders = [] ∨ ∃ q, ∃ loads : List String, orders = .setPlayer q :: loads.map .loadWorld

theorem eq_nil_of_ordered (h : Ordered (heard ++ .setPlayer q :: rest)) : heard = [] := by
  obtain h | ⟨q', loads, h⟩ := h
  · simp at h
  cases heard with
  | nil => rfl
  | cons x heard =>
    have hm : setPlayer q ∈ loads.map loadWorld := by
      rw [← (List.cons.inj h).2]
      simp
    obtain ⟨W, -, hW⟩ := List.mem_map.mp hm
    cases hW

theorem exists_loads_of_ordered (h : Ordered (heard ++ .loadWorld world :: rest)) :
    ∃ q, ∃ loads : List String, heard = .setPlayer q :: loads.map .loadWorld := by
  obtain h | ⟨q, loads, h⟩ := h
  · simp at h
  cases heard with
  | nil => cases h
  | cons x heard =>
    obtain ⟨rfl, hrest⟩ := List.cons.inj h
    obtain ⟨before, after, -, hb, -⟩ := List.map_eq_append_iff.mp hrest.symm
    exact ⟨q, before, by rw [hb]⟩

end Packet

end SharedWorld
