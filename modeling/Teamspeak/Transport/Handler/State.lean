import Mathlib.Data.Finset.Basic
import Teamspeak.Lib.InsertionMap
import Teamspeak.Transport.Crypt
import Teamspeak.Transport.GenerationWindow
import Teamspeak.Transport.Traffic

/-!
# The packet handler's state

The fields of `PacketHandler` in `handler.ts`, in three groups: the two command
queues and the receive windows (`Receiver`), the packet counters and what waits
for an acknowledgement (`Sender`), and the connection around them.  What
exists once for `Command` and once for `CommandLow` is a function of the
`QueueKind`.

The handler's `trace` is no field of the class: it is what an observer of one
connection has seen, in order, and the statements about runs are about it.
-/

namespace Teamspeak.Transport

/-! ### The constants -/

def maxOutPacketSize : Nat := 500
abbrev receivePacketWindowSize : Nat := 1024
abbrev unackedReceiveWindowSize : Nat := 32768
def packetTimeoutMs : Time := 60000
def maxRetryIntervalMs : Time := 1000
def headerSize : Nat := 5
def tagSize : Nat := 8
def voiceHeaderSize : Nat := 3
def whisperHeaderSize : Nat := 5
def groupWhisperHeaderSize : Nat := 13
def resendBaseIntervalMs : Time := 500

/-- How long a command packet may stay missing while later ones wait for it. -/
def commandHoleTimeoutMs : Time := 5000

/-- The largest command reassembled from fragments. -/
def maxReassembledSize : Nat := 1048576

def maxDatagramSize : Nat := 4096

/-- The most command bytes held waiting for the packets before them. -/
def maxQueuedBytes : Nat := 1048576

/-- The packet types the server may send unencrypted. -/
def unencryptedTypes : PacketType → Bool
  | .voice | .voiceWhisper | .ping | .pong | .ack | .ackLow | .init1 => true
  | _ => false

/-! ### The receiving side -/

/-- The two kinds of command packet, each with its own queue, ids and acks. -/
inductive QueueKind
  | command
  | commandLow
  deriving DecidableEq, Repr

namespace QueueKind

def packetType : QueueKind → PacketType
  | command => .command
  | commandLow => .commandLow

def ackType : QueueKind → PacketType
  | command => .ack
  | commandLow => .ackLow

end QueueKind

namespace PacketType

/-- The queue a packet type goes through, if it is a command's. -/
def queueKind? : PacketType → Option QueueKind
  | command => some .command
  | commandLow => some .commandLow
  | _ => none

/-- The kind of command a packet type acknowledges, if it does. -/
def ackedKind? : PacketType → Option QueueKind
  | ack => some .command
  | ackLow => some .commandLow
  | _ => none

theorem queueKind?_eq_some {t : PacketType} {k : QueueKind} :
    t.queueKind? = some k ↔ t = k.packetType := by
  cases t <;> cases k <;> simp [queueKind?, QueueKind.packetType]

theorem ackedKind?_eq_some {t : PacketType} {k : QueueKind} :
    t.ackedKind? = some k ↔ t = k.ackType := by
  cases t <;> cases k <;> simp [ackedKind?, QueueKind.ackType]

end PacketType

/-- A command queue: the packets held, the next id expected, the window. -/
structure ReceiveQueue where
  win : GenerationWindow 65536 receivePacketWindowSize
  queue : InsertionMap Nat Packet
  nextID : Nat

def ReceiveQueue.new : ReceiveQueue := ⟨.new _ _, .empty, 0⟩

structure Receiver where
  queues : QueueKind → ReceiveQueue
  /-- The bytes held in both command queues. -/
  queuedBytes : Int
  recvWindowVoice : GenerationWindow 65536 unackedReceiveWindowSize
  recvWindowVoiceWhisper : GenerationWindow 65536 unackedReceiveWindowSize
  recvWindowPing : GenerationWindow 65536 unackedReceiveWindowSize
  recvWindowPong : GenerationWindow 65536 unackedReceiveWindowSize

def Receiver.new : Receiver := ⟨fun _ => .new, 0, .new _ _, .new _ _, .new _ _, .new _ _⟩

/-! ### The sending side -/

structure ResendPacket where
  packet : Packet
  firstSend : Time
  lastSend : Time
  retryCount : Nat
  nextInterval : Time
  /-- Whether the packet went out under the dummy key. -/
  dummy : Bool
  deriving DecidableEq

structure Sender where
  clientID : Nat
  packetCounter : PacketType → Nat
  generationCounter : PacketType → Nat
  sendWindow : QueueKind → GenerationWindow 65536 receivePacketWindowSize
  ackManager : InsertionMap Nat ResendPacket
  /-- The last Init1 packet sent, resent until the handshake's final ack. -/
  initPacketCheck : Option ResendPacket
  /-- The ids of commands sent under the dummy key and not acknowledged under it. -/
  dummyCommandIDs : Finset Nat
  resends : Nat

def Sender.new : Sender where
  clientID := 0
  packetCounter := fun _ => 0
  generationCounter := fun _ => 0
  sendWindow := fun _ => .new _ _
  ackManager := .empty
  initPacketCheck := none
  dummyCommandIDs := ∅
  resends := 0

/-- The key of a packet in the resend set: `(pType << 16) | id`. -/
def resendKey (pType : PacketType) (id : Nat) : Nat := (pType.toNat <<< 16) ||| id

/-! ### What an observer sees -/

/-- Why the handler closes itself: what `onClosed` is given. -/
inductive CloseReason
  | connectionTimeout
  | connectionStalled
  | sendFailed
  | socketError
  | socketClosed
  deriving DecidableEq, Repr

/-- A packet as it goes out: what it is encrypted from and what comes of it. -/
structure Transmission where
  packet : Packet
  dummy : Bool
  header : Bytes
  ciphertext : Bytes
  tag : Bytes
  time : Time
  deriving DecidableEq

/-- The packet sent, as it is tracked for a resend. -/
def Transmission.tracked (t : Transmission) : ResendPacket where
  packet := t.packet
  firstSend := t.time
  lastSend := t.time
  retryCount := 0
  nextInterval := resendBaseIntervalMs
  dummy := t.dummy

/-- `final`: tag, header, ciphertext. -/
def Transmission.datagram (t : Transmission) : Bytes := t.tag.take tagSize ++ t.header ++ t.ciphertext

inductive Output
  /-- A packet was given its identity and sent for the first time. -/
  | numbered (t : Transmission)
  /-- A packet was sent again. -/
  | resent (t : Transmission)
  /-- The socket took a datagram. -/
  | written (datagram : Bytes)
  /-- The socket threw on a datagram. -/
  | refused (datagram : Bytes)
  /-- A packet was given to `onPacket`, before or after crypto init completed. -/
  | delivered (p : Packet) (complete : Bool)
  /-- An acknowledgement of a command of this kind arrived. -/
  | ackReceived (kind : QueueKind) (id : Nat)
  /-- Crypto init completed while the queues held this many packets. -/
  | cryptoInit (held : Nat)
  /-- The handler closed itself. -/
  | closed (reason : CloseReason)
  deriving DecidableEq

structure PacketHandler where
  crypt : Crypt
  recv : Receiver
  send : Sender
  /-- Whether there is a socket: `#conn !== null`. -/
  hasConn : Bool
  closed : Bool
  lastMessageReceived : Time
  traffic : TrafficMeter
  roundTrip : RoundTripEstimator
  pingsSent : InsertionMap Nat Time
  trace : List Output

/-! ### The owner -/

/-- The packet types the owner sends through `sendPacket`. -/
inductive OwnerType
  | command
  | commandLow
  | init1
  deriving DecidableEq, Repr

def OwnerType.packetType : OwnerType → PacketType
  | command => .command
  | commandLow => .commandLow
  | init1 => .init1

/-- What the owner calls, from outside or from inside `onPacket`. -/
inductive Call
  | sendPacket (pType : OwnerType) (data : Bytes) (flags : PacketFlags)
  | sendVoicePacket (data : Bytes) (codec : UInt8)
  | sendWhisperPacket (data : Bytes) (targetClientIds : List Int) (codec : UInt8)
      (targetChannelIds : List Int)
  | sendGroupWhisperPacket (data : Bytes) (groupType scope id : Int) (codec : UInt8)
  | setClientID (id : Nat)
  | receivedFinalInitAck
  | setSharedSecret (alpha beta sharedKey : Bytes)
  | close

/-- What the owner does with a packet: the calls it makes, and whether it throws
after them. -/
structure Reaction where
  calls : List Call := []
  throws : Bool := false

/-- What one event meets outside the handler: the clock, the owner, and the
socket, which may throw on a datagram. -/
structure Env where
  now : Time
  owner : Packet → Reaction := fun _ => {}
  /-- The calls the owner makes on `onReceiveError`. -/
  onReceiveError : List Call := []
  refuses : Bytes → Bool := fun _ => false

end Teamspeak.Transport
