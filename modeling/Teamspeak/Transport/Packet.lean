import Teamspeak.Basic

/-!
# Packets

`packet.ts`: the packet types, the flags, and the headers a packet starts with.
A type byte holds the type in its low nibble and the flags in its high one;
`TypeFlagged` is that byte taken apart, and `TypeFlagged.ofByte` and `toByte` are
inverse to each other, so a type or a flag is read as the code reads it with its
masks.

A `Packet` carries two fields the code does not have, `dummyUsed` and
`firstArrived`.  They record how the packet came, for statements about whole
runs; no function reads them.
-/

namespace Teamspeak.Transport

inductive PacketType
  | voice
  | voiceWhisper
  | command
  | commandLow
  | ping
  | pong
  | ack
  | ackLow
  | init1
  /-- A nibble from 9 to 15, which names no type: `9 + n`. -/
  | unnamed (n : Fin 7)
  deriving DecidableEq, Repr

namespace PacketType

def toNat : PacketType → Nat
  | voice => 0
  | voiceWhisper => 1
  | command => 2
  | commandLow => 3
  | ping => 4
  | pong => 5
  | ack => 6
  | ackLow => 7
  | init1 => 8
  | unnamed n => 9 + n

def ofNibble : Nat → PacketType
  | 0 => voice
  | 1 => voiceWhisper
  | 2 => command
  | 3 => commandLow
  | 4 => ping
  | 5 => pong
  | 6 => ack
  | 7 => ackLow
  | 8 => init1
  | n => unnamed (Fin.ofNat 7 (n - 9))

theorem toNat_lt (t : PacketType) : t.toNat < 16 := by
  cases t <;> simp only [toNat] <;> omega

theorem ofNibble_toNat (t : PacketType) : ofNibble t.toNat = t := by
  cases t with
  | unnamed n => revert n; decide
  | _ => rfl

end PacketType

/-- A set of `PacketFlags`: the high nibble of a type byte. -/
structure PacketFlags where
  fragmented : Bool := false
  newProtocol : Bool := false
  compressed : Bool := false
  unencrypted : Bool := false
  deriving DecidableEq, Repr

namespace PacketFlags

def none : PacketFlags := {}

def toNat (f : PacketFlags) : Nat :=
  (if f.fragmented then 0x10 else 0) + (if f.newProtocol then 0x20 else 0) +
    (if f.compressed then 0x40 else 0) + (if f.unencrypted then 0x80 else 0)

def ofByte (b : UInt8) : PacketFlags where
  fragmented := b &&& 0x10 != 0
  newProtocol := b &&& 0x20 != 0
  compressed := b &&& 0x40 != 0
  unencrypted := b &&& 0x80 != 0

end PacketFlags

/-- The packet type in the low nibble of a type byte. -/
def packetTypeOfByte (typeByte : UInt8) : PacketType :=
  .ofNibble (typeByte &&& 0x0f).toNat

/-- A type byte: the type and the flags. -/
structure TypeFlagged where
  type : PacketType
  flags : PacketFlags
  deriving DecidableEq, Repr

namespace TypeFlagged

def ofByte (b : UInt8) : TypeFlagged := ⟨packetTypeOfByte b, .ofByte b⟩

def toByte (t : TypeFlagged) : UInt8 := UInt8.ofNat (t.type.toNat + t.flags.toNat)

theorem toByte_ofByte (b : UInt8) : (ofByte b).toByte = b := by
  have h : ∀ n : Fin 256, (ofByte (UInt8.ofFin n)).toByte = UInt8.ofFin n := by decide +kernel
  exact h b.toFin

theorem ofByte_toByte (t : TypeFlagged) : ofByte t.toByte = t := by
  obtain ⟨type, fragmented, newProtocol, compressed, unencrypted⟩ := t
  have h : ∀ n : Fin 16, ∀ f p c u : Bool,
      ofByte (toByte ⟨.ofNibble n, f, p, c, u⟩) = ⟨.ofNibble n, f, p, c, u⟩ := by decide
  have := h ⟨type.toNat, type.toNat_lt⟩ fragmented newProtocol compressed unencrypted
  rwa [PacketType.ofNibble_toNat] at this

end TypeFlagged

structure Packet where
  typeFlagged : TypeFlagged
  id : Nat
  clientID : Nat
  generationID : Nat
  data : Bytes
  receivedAt : Time
  /-- Whether any byte of it came in under the dummy key. -/
  dummyUsed : Bool := false
  /-- When the earliest copy of it that was held arrived. -/
  firstArrived : Time := 0
  deriving DecidableEq, Repr

def packetType (p : Packet) : PacketType := p.typeFlagged.type

def packetFlags (p : Packet) : PacketFlags := p.typeFlagged.flags

/-- The absolute id of a packet. -/
def place (p : Packet) : Nat := p.generationID * 65536 + p.id

/-- The client-to-server header: packet id, client id, type byte. -/
def buildC2SHeader (p : Packet) : Bytes :=
  uint16BE p.id ++ uint16BE p.clientID ++ [p.typeFlagged.toByte]

/-- The id and the type byte of a 3-byte server-to-client header. -/
def parseS2CHeader (raw : Bytes) : Nat × TypeFlagged :=
  (readUint16BE raw, .ofByte (raw.getD 2 0))

/-- The header that parses to an id and a type byte. -/
def buildS2CHeader (id : Nat) (t : TypeFlagged) : Bytes := uint16BE id ++ [t.toByte]

theorem parse_buildS2CHeader {id : Nat} (h : id < 65536) (t : TypeFlagged) :
    parseS2CHeader (buildS2CHeader id t) = (id, t) := by
  rw [parseS2CHeader, buildS2CHeader, readUint16BE_uint16BE_append h]
  simp [uint16BE, TypeFlagged.ofByte_toByte]

end Teamspeak.Transport
