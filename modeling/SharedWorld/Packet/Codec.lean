import SharedWorld.Packet.Basic
import SharedWorld.Wire.Field
import SharedWorld.Wire.Frame

/-! # Packets as frames

Every kind has a fixed field layout; a packet is its kind's record, written behind
a frame header.
-/

namespace SharedWorld

namespace PacketKind

open FieldType in
@[reducible] def layout : PacketKind → List FieldType
  | loadWorld => [text]
  | worldLoaded => []
  | entityUpdate => [u32, u32, text, u64, entityType, blob]
  | setPlayer => [u32]
  | probe => [u32]
  | ownUpdate => [u32, u32, u64, entityType, blob]
  | joined => [u32, text]
  | left => [u32, text]
  | removeEntity => [u32, text]
  | setDetails => [u32, text, text, text, text, text, text]
  | authenticate => [text, text]
  | requestPassword => [text]
  | sendPassword => [text, text]
  | say => [text]
  | relayChat => [text, text, u64]

def ofTag (tag : UInt8) : Except WireError PacketKind :=
  match ofTag? tag with
  | some k => .ok k
  | none => .error (.unknownPacket tag)

end PacketKind

namespace Packet

def record : (p : Packet) → Record p.kind.layout
  | loadWorld w => (w, ())
  | worldLoaded => ()
  | entityUpdate u => (u.entity.val, u.player.val, u.world, u.time, u.type, u.data, ())
  | setPlayer p => (p.val, ())
  | probe p => (p.val, ())
  | ownUpdate u => (u.player.val, u.entity.val, u.time, u.type, u.data, ())
  | joined p w => (p.val, w, ())
  | left p w => (p.val, w, ())
  | removeEntity e w => (e.val, w, ())
  | setDetails e w a => (e.val, w, a.hair, a.body, a.clothesTop, a.clothesBottom, a.feet, ())
  | authenticate u h => (u, h, ())
  | requestPassword u => (u, ())
  | sendPassword u h => (u, h, ())
  | say m => (m, ())
  | relayChat u m t => (u, m, t, ())

def ofRecord : (k : PacketKind) → Record k.layout → Packet
  | .loadWorld, (w, ()) => loadWorld w
  | .worldLoaded, () => worldLoaded
  | .entityUpdate, (e, p, w, t, ty, d, ()) => entityUpdate ⟨⟨e⟩, ⟨p⟩, w, t, ty, d⟩
  | .setPlayer, (p, ()) => setPlayer ⟨p⟩
  | .probe, (p, ()) => probe ⟨p⟩
  | .ownUpdate, (p, e, t, ty, d, ()) => ownUpdate ⟨⟨p⟩, ⟨e⟩, t, ty, d⟩
  | .joined, (p, w, ()) => joined ⟨p⟩ w
  | .left, (p, w, ()) => left ⟨p⟩ w
  | .removeEntity, (e, w, ()) => removeEntity ⟨e⟩ w
  | .setDetails, (e, w, h, b, t, l, f, ()) => setDetails ⟨e⟩ w ⟨h, b, t, l, f⟩
  | .authenticate, (u, h, ()) => authenticate u h
  | .requestPassword, (u, ()) => requestPassword u
  | .sendPassword, (u, h, ()) => sendPassword u h
  | .say, (m, ()) => say m
  | .relayChat, (u, m, t, ()) => relayChat u m t

theorem ofRecord_record (p : Packet) : ofRecord p.kind p.record = p := by cases p <;> rfl

theorem kind_ofRecord (k : PacketKind) (r : Record k.layout) : (ofRecord k r).kind = k := by
  cases k <;> rfl

def payload (p : Packet) : Bytes := Record.write p.kind.layout p.record

def encode (p : Packet) : Except WireError Bytes := Frame.encode p.kind.tag p.payload

/-- Reads a payload as the kind that the tag names; nothing may be left over. -/
def decodePayload (tag : UInt8) (payload : Bytes) : Except WireError Packet := do
  let k ← PacketKind.ofTag tag
  match Record.read k.layout payload with
  | (.error e, _) => .error e
  | (.ok r, []) => .ok (ofRecord k r)
  | (.ok _, rest) => .error (.trailingBytes k rest.length)

def decode (frame : Bytes) : Except WireError Packet := do
  let (tag, payload) ← Frame.decode frame
  decodePayload tag payload

end Packet

end SharedWorld
