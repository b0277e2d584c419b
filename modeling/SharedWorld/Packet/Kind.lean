/-! # Packet kinds

The closed table of packet kinds. A kind's tag, name and channel never depend on
the packet at hand.
-/

namespace SharedWorld

inductive PacketKind
  | loadWorld | worldLoaded | entityUpdate | setPlayer | probe | ownUpdate
  | joined | left | removeEntity | setDetails
  | authenticate | requestPassword | sendPassword | say | relayChat
  deriving DecidableEq, Repr

namespace PacketKind

def all : List PacketKind :=
  [loadWorld, worldLoaded, entityUpdate, setPlayer, probe, ownUpdate, joined, left,
    removeEntity, setDetails, authenticate, requestPassword, sendPassword, say, relayChat]

def tag : PacketKind → UInt8
  | loadWorld => 0
  | worldLoaded => 1
  | entityUpdate => 2
  | setPlayer => 3
  | probe => 4
  | ownUpdate => 5
  | joined => 6
  | left => 7
  | removeEntity => 8
  | setDetails => 9
  | authenticate => 10
  | requestPassword => 11
  | sendPassword => 12
  | say => 13
  | relayChat => 14

def ofTag? (b : UInt8) : Option PacketKind := all[b.toNat]?

theorem ofTag?_tag (k : PacketKind) : ofTag? k.tag = some k := by cases k <;> rfl

theorem ofTag?_eq_some_iff {b : UInt8} {k : PacketKind} : ofTag? b = some k ↔ b = k.tag := by
  constructor
  · intro h
    have hlt : b.toNat < 15 := by
      have := (List.getElem?_eq_some_iff.mp h).1
      simpa [all] using this
    have hk : b = UInt8.ofNat b.toNat := by simp
    rw [hk] at h ⊢
    revert h
    clear hk
    generalize b.toNat = n at hlt
    revert n
    cases k <;> decide
  · rintro rfl
    exact ofTag?_tag k

def name : PacketKind → String
  | loadWorld => "ServerClientLoadWorld"
  | worldLoaded => "ClientServerWorldLoaded"
  | entityUpdate => "ServerClientEntityUpdate"
  | setPlayer => "ServerClientSetPlayerDetails"
  | probe => "ClientServerTestUdp"
  | ownUpdate => "ClientServerEntityUpdate"
  | joined => "ServerClientPlayerJoinedWorld"
  | left => "ServerClientPlayerLeftWorld"
  | removeEntity => "ServerClientRemoveEntityFromWorld"
  | setDetails => "ServerClientCharacterSetDetails"
  | authenticate => "ClientServerPlayerAuthenticate"
  | requestPassword => "ClientServerRequestHashedPassword"
  | sendPassword => "ServerClientSendHashedPassword"
  | say => "ClientServerChatboxMessage"
  | relayChat => "ServerClientChatboxMessage"

/-- Vital packets travel on the reliable stream; entity updates and probes do not need to. -/
def isVital : PacketKind → Bool
  | entityUpdate | probe | ownUpdate => false
  | _ => true

end PacketKind

inductive Channel
  | reliable | bestEffort
  deriving DecidableEq, Repr

namespace Channel

def ofVital (vital : Bool) : Channel := if vital then reliable else bestEffort

def name : Channel → String
  | reliable => "reliable"
  | bestEffort => "best-effort"

end Channel

end SharedWorld
