import TeleClassic.Proof.Protocol

/-!
# Packets with coordinates

The protocol has one field for each coordinate, of two bytes, or of four with
extended positions (`Placement.layout`). `send_position` sends the high half of
the coordinate before it (`sentCoordinate`), so each of the four packets is six
bytes longer than its layout (`position_packet_sent`), whatever the coordinates
are, and a client reads them from the wrong bytes.
-/

namespace TC.Proof.Protocol

open TC.Impl.Protocol

/-- The coordinates of a packet, and what stands before and after them. -/
structure Placement where
  before : List Byte
  x : BitVec 32
  y : BitVec 32
  z : BitVec 32
  after : List Byte
  extended : Bool

def placement? : Packet → Option Placement
  | .tcProtocolSendSpawnPlayer playerId playerName x y z heading pitch useExtendedPositions =>
    some ⟨[0x07, playerId] ++ stringField playerName, x, y, z, [heading, pitch], useExtendedPositions⟩
  | .tcProtocolSendSetPlayerPositionAndOrientation playerId x y z heading pitch useExtendedPositions =>
    some ⟨[0x08, playerId], x, y, z, [heading, pitch], useExtendedPositions⟩
  | .tcProtocolSendUpdatePlayerPositionAndOrientationDelta playerId deltaX deltaY deltaZ heading pitch
      useExtendedPositions =>
    some ⟨[0x09, playerId], deltaX, deltaY, deltaZ, [heading, pitch], useExtendedPositions⟩
  | .tcProtocolUpdatePlayerPositionDelta playerId deltaX deltaY deltaZ useExtendedPositions =>
    some ⟨[0x0a, playerId], deltaX, deltaY, deltaZ, [], useExtendedPositions⟩
  | _ => none

/-- The field of a coordinate: its value, or its low 16 bits. -/
def coordinate (extended : Bool) (v : BitVec 32) : List Byte :=
  if extended then Field.encoding (.int v) else Field.encoding (.short (v.extractLsb' 0 16))

/-- What `send_position` sends for a coordinate. -/
def sentCoordinate (extended : Bool) (v : BitVec 32) : List Byte :=
  Field.encoding (.short (v.extractLsb' 16 16)) ++ coordinate extended v

namespace Placement

variable (l : Placement)

/-- The packet with each coordinate encoded by `field`. -/
def bytes (field : Bool → BitVec 32 → List Byte) : List Byte :=
  l.before ++ field l.extended l.x ++ field l.extended l.y ++ field l.extended l.z ++ l.after

/-- The packet as the protocol has it. -/
def layout : List Byte := l.bytes coordinate

/-- The length of a field. -/
def width : Nat := if l.extended then 4 else 2

/-- What a client makes of the field at the given place. -/
def read (packet : List Byte) (i : Nat) : BitVec 32 :=
  let field := packet.drop (l.before.length + i * l.width)
  if l.extended then sentInt (field.getD 0 0) (field.getD 1 0) (field.getD 2 0) (field.getD 3 0)
  else (sentShort (field.getD 0 0) (field.getD 1 0)).setWidth 32

theorem length_bytes {field : Bool → BitVec 32 → List Byte} {n : Nat} (h : ∀ v, (field l.extended v).length = n) :
    (l.bytes field).length = l.before.length + l.after.length + 3 * n := by
  simp only [bytes, List.length_append, h]
  omega

end Placement

theorem length_coordinate (extended : Bool) (v : BitVec 32) :
    (coordinate extended v).length = if extended then 4 else 2 := by
  cases extended <;> rfl

theorem length_sentCoordinate (extended : Bool) (v : BitVec 32) :
    (sentCoordinate extended v).length = if extended then 6 else 4 := by
  cases extended <;> rfl

theorem encoding_sendPosition (v : BitVec 32) (extended : Bool) :
    (sendPosition v extended).flatMap Field.encoding = sentCoordinate extended v := by
  cases extended <;> rfl

theorem encoding_placed {p : Packet} {l : Placement} (h : placement? p = some l) :
    Packet.encoding p = l.bytes sentCoordinate := by
  cases p <;> simp only [placement?, Option.some.injEq, reduceCtorEq] at h <;> subst h <;>
    simp [Packet.encoding, Packet.fields, Placement.bytes, encoding_sendPosition, Field.encoding]

theorem no_datachunk_placed {p : Packet} {l : Placement} (h : placement? p = some l) (data : List Byte) (length : Nat) :
    .datachunk data length ∉ p.fields := by
  cases p <;> simp only [placement?, reduceCtorEq] at h <;>
    simp [Packet.fields, datachunk_not_mem_sendPosition]

theorem asserts_placed {p : Packet} {l : Placement} (h : placement? p = some l) : p.asserts = true := by
  cases p <;> simp only [placement?, reduceCtorEq] at h <;> rfl

/-- For all arguments of the four functions: over a socket that takes what it is
offered, the packet has the high half of each coordinate before its field. So it
is 12 or 18 bytes longer than its fixed part, and it is not the packet of the
protocol. -/
theorem position_packet_sent (p : Packet) (l : Placement) (h : placement? p = some l) (socket : Stream)
    (htakes : socket.Takes maxStrLen (Packet.chunks p).length) :
    (p.send socket).1 = some true ∧ ∃ packet, (p.send socket).2.accepted = socket.accepted ++ packet ∧
      packet = l.bytes sentCoordinate ∧
      packet.length = l.before.length + l.after.length + (if l.extended then 18 else 12) ∧
      packet ≠ l.layout := by
  obtain ⟨hsent, -, haccepted⟩ := send_of_takes (asserts_placed h) 
    (chunks_le (Nat.le_refl _) fun data length hmem => absurd hmem (no_datachunk_placed h data length))
    (show socket.Takes maxStrLen ((Packet.chunks p).length + 0) from htakes)
  rw [encoding_placed h] at haccepted
  have hsize := l.length_bytes (length_sentCoordinate l.extended)
  have hlayout : l.layout.length = _ := l.length_bytes (length_coordinate l.extended)
  refine ⟨hsent, _, haccepted, rfl, ?_, fun heq => ?_⟩
  · rw [hsize]
    split <;> rfl
  · rw [heq, hlayout] at hsize
    split at hsize <;> omega

theorem position_packet_sent_teleport : ∃ packet,
    ((Packet.tcProtocolSendSetPlayerPositionAndOrientation 0 1 2 3 0 0 false).send readySocket).2.accepted = packet ∧
      packet.length = 16 := by
  obtain ⟨-, packet, haccepted, -, hlength, -⟩ := position_packet_sent
    (.tcProtocolSendSetPlayerPositionAndOrientation 0 1 2 3 0 0 false) _ rfl readySocket (by decide)
  exact ⟨packet, haccepted, hlength⟩

/-- A teleport to (1, 2, 3) is read as one to (0, 1, 0), and six bytes are left. -/
theorem teleport_misread : ∃ l packet,
    placement? (.tcProtocolSendSetPlayerPositionAndOrientation 0 1 2 3 0 0 false) = some l ∧
      ((Packet.tcProtocolSendSetPlayerPositionAndOrientation 0 1 2 3 0 0 false).send readySocket).2.accepted = packet ∧
      [l.read packet 0, l.read packet 1, l.read packet 2] = [0, 1, 0] ∧
      packet.length = l.layout.length + 6 :=
  ⟨_, _, rfl, rfl, by decide, by decide⟩

end TC.Proof.Protocol
