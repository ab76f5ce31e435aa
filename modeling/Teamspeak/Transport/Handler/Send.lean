import Teamspeak.Transport.Handler.State

/-!
# Sending

The sending half of `handler.ts`: numbering a packet, encrypting and writing it,
tracking it for a resend, splitting a large one, and the voice packets, which
are numbered and written but never tracked.  `runCalls` is the owner calling.

The exception of `encrypt` for want of a session key ends `sendPacketRaw` with
the number used up and nothing sent.  It does not happen: `dummy` is false only
once crypto init has completed, and that is never undone.
-/

namespace Teamspeak.Transport

def maxBlockSize : Nat := maxOutPacketSize - headerSize - tagSize

def applyProtocolFlags (pType : PacketType) (flags : PacketFlags) : PacketFlags :=
  if pType = .command ∨ pType = .commandLow then { flags with newProtocol := true } else flags

/-! ### Numbers -/

namespace Sender

/-- Use up the next number of a type: the id, and the generation with its wrap. -/
def useNumber (s : Sender) (pType : PacketType) : Sender :=
  let next := (s.packetCounter pType + 1) % 65536
  { s with
    packetCounter := Function.update s.packetCounter pType next
    generationCounter :=
      if next = 0 then
        Function.update s.generationCounter pType ((s.generationCounter pType + 1) % 4294967296)
      else s.generationCounter }

/-- Move the send window of a command's type past the id it was given. -/
def followNumber (s : Sender) (pType : PacketType) (pID : Nat) : Sender :=
  match pType.queueKind? with
  | none => s
  | some k =>
    { s with
      sendWindow := Function.update s.sendWindow k ((s.sendWindow k).advanceToExcluded pID) }

/-- `#nextPacketIdentity`, its effect: the pair it returns is read beforehand. -/
def nextPacketIdentity (s : Sender) (pType : PacketType) : Sender :=
  if pType = .init1 then s
  else (s.useNumber pType).followNumber pType (s.packetCounter pType)

/-- `#dummyCommandIDs.add`, for a command under the dummy key. -/
def noteDummy (s : Sender) (pType : PacketType) (pID : Nat) (dummy : Bool) : Sender :=
  if dummy ∧ pType = .command then { s with dummyCommandIDs := insert pID s.dummyCommandIDs }
  else s

def trackResend (s : Sender) (pType : PacketType) (rp : ResendPacket) : Sender :=
  match pType.queueKind? with
  | some _ => { s with ackManager := s.ackManager.set (resendKey pType rp.packet.id) rp }
  | none => if pType = .init1 then { s with initPacketCheck := some rp } else s

end Sender

namespace PacketHandler

variable (C : Cipher) (env : Env)

/-! ### Closing and writing -/

def log (s : PacketHandler) (o : Output) : PacketHandler := { s with trace := s.trace ++ [o] }

def close (s : PacketHandler) : PacketHandler :=
  if s.closed then s else { s with closed := true, hasConn := false }

def triggerClose (s : PacketHandler) (reason : CloseReason) : PacketHandler :=
  if s.closed then s else s.close.log (.closed reason)

/-- Hand a datagram to the socket; one it throws on closes the handler. -/
def write (s : PacketHandler) (data : Bytes) : PacketHandler :=
  if s.hasConn then
    let s :=
      if data.length > tagSize + headerSize - 1 then
        let pType := packetTypeOfByte (data.getD (tagSize + headerSize - 1) 0)
        { s with traffic := s.traffic.recordSent pType data.length env.now }
      else s
    if env.refuses data then (s.log (.refused data)).triggerClose .sendFailed
    else s.log (.written data)
  else s

/-! ### Packets -/

/-- The packet that the next number of a type goes to. -/
def nextPacket (s : PacketHandler) (pType : PacketType) (flags : PacketFlags) (data : Bytes) :
    Packet where
  typeFlagged := ⟨pType, flags⟩
  id := s.send.packetCounter pType
  clientID := s.send.clientID
  generationID := s.send.generationCounter pType
  data := data
  receivedAt := 0

def sendPacketRaw (s : PacketHandler) (pType : PacketType) (data : Bytes) (flags : PacketFlags)
    (dummy : Bool) : PacketHandler :=
  let flags := applyProtocolFlags pType flags
  let p := s.nextPacket pType flags data
  let s := { s with send := s.send.nextPacketIdentity pType }
  let header := buildC2SHeader p
  match s.crypt.encrypt C pType p.id p.generationID header data dummy flags.unencrypted with
  | none => s
  | some (ciphertext, tag) =>
    let t : Transmission := { packet := p, dummy, header, ciphertext, tag, time := env.now }
    let s := (s.log (.numbered t)).write env t.datagram
    { s with send := (s.send.noteDummy pType p.id dummy).trackResend pType t.tracked }

/-- The blocks `#sendSplitPacket` cuts `data` into, with their flags: the first
and the last are marked `Fragmented`, unless they are the same.  `first` says
whether the first is still to come; `fuel` bounds the blocks. -/
def splitBlocks (flags : PacketFlags) : Nat → Bool → Bytes → List (PacketFlags × Bytes)
  | 0, _, _ => []
  | fuel + 1, first, data =>
    if data.length = 0 then []
    else
      let blockSize := min data.length maxBlockSize
      let last := data.length = blockSize
      let pFlags := if first ≠ decide last then { flags with fragmented := true } else flags
      (pFlags, data.take blockSize) :: splitBlocks flags fuel false (data.drop blockSize)

def sendSplitPacket (s : PacketHandler) (pType : PacketType) (data : Bytes) (flags : PacketFlags)
    (dummy : Bool) : PacketHandler :=
  (splitBlocks flags data.length true data).foldl
    (fun s block => s.sendPacketRaw C env pType block.2 block.1 dummy) s

def sendPacket (s : PacketHandler) (pType : PacketType) (data : Bytes) (flags : PacketFlags) :
    PacketHandler :=
  let dummy := !s.crypt.cryptoInitComplete
  if data.length > 487 ∧ pType ≠ .voice ∧ pType ≠ .voiceWhisper then
    s.sendSplitPacket C env pType data flags dummy
  else s.sendPacketRaw C env pType data flags dummy

/-! ### Voice -/

/-- Number a voice packet whose first two payload bytes are its id, and write it
unencrypted. -/
def sendNumbered (s : PacketHandler) (pType : PacketType) (flags : PacketFlags)
    (payload : Bytes) : PacketHandler :=
  let p := s.nextPacket pType { flags with unencrypted := true }
    (uint16BE (s.send.packetCounter pType) ++ payload)
  let s := { s with send := s.send.useNumber pType }
  let t : Transmission :=
    { packet := p, dummy := false, header := buildC2SHeader p, ciphertext := p.data,
      tag := s.crypt.fakeSignature, time := env.now }
  (s.log (.numbered t)).write env t.datagram

/-- The payload after its id: the codec, then the data. -/
def sendVoicePacket (s : PacketHandler) (data : Bytes) (codec : UInt8) : PacketHandler :=
  s.sendNumbered env .voice .none (codec :: data)

def sendWhisperPayload (s : PacketHandler) (payload : Bytes) (flags : PacketFlags) :
    PacketHandler :=
  s.sendNumbered env .voiceWhisper flags payload

/-- The direct form of a whisper: what a `RangeError` would say, or the new state. -/
def sendWhisperPacket (s : PacketHandler) (data : Bytes) (targetClientIds : List Int)
    (codec : UInt8) (targetChannelIds : List Int) : Except String PacketHandler :=
  if targetClientIds.length = 0 ∧ targetChannelIds.length = 0 then
    .error "a whisper needs at least one target"
  else if targetClientIds.length > 32 then .error "a whisper has at most 32 client targets"
  else if targetChannelIds.length > 255 then .error "a whisper has at most 255 channel targets"
  else if targetClientIds.any fun id => id < 0 ∨ id > 0xffff then .error "invalid whisper target"
  else if targetChannelIds.any fun id => id < 0 ∨ id > 0xffffffffffffffff then
    .error "invalid whisper channel target"
  else
    let payload :=
      [codec, UInt8.ofNat targetChannelIds.length, UInt8.ofNat targetClientIds.length] ++
        targetChannelIds.flatMap (fun id => uint64BE id.toNat) ++
        targetClientIds.flatMap (fun id => uint16BE id.toNat) ++ data
    .ok (s.sendWhisperPayload env payload .none)

/-- The group form of a whisper. -/
def sendGroupWhisperPacket (s : PacketHandler) (data : Bytes) (groupType scope id : Int)
    (codec : UInt8) : Except String PacketHandler :=
  if groupType < 0 ∨ groupType > 0xff then .error "invalid group whisper type"
  else if scope < 0 ∨ scope > 0xff then .error "invalid group whisper scope"
  else if id < 0 ∨ id > 0xffffffffffffffff then .error "invalid group whisper id"
  else
    let payload :=
      [codec, UInt8.ofNat groupType.toNat, UInt8.ofNat scope.toNat] ++ uint64BE id.toNat ++ data
    .ok (s.sendWhisperPayload env payload { PacketFlags.none with newProtocol := true })

/-! ### The owner's calls -/

/-- The packets held in both command queues. -/
def heldPackets (s : PacketHandler) : Nat :=
  (s.recv.queues .command).queue.size + (s.recv.queues .commandLow).queue.size

/-- Complete crypto init, once: `client.ts` takes the handshake's steps only
before it, and values that do not fit are refused. -/
def setSharedSecret (s : PacketHandler) (alpha beta sharedKey : Bytes) : PacketHandler :=
  if s.crypt.cryptoInitComplete then s
  else
    match s.crypt.setSharedSecret C alpha beta sharedKey with
    | none => s
    | some crypt => { s with crypt }.log (.cryptoInit s.heldPackets)

/-- One call of the owner.  A call that throws leaves the state as it is. -/
def call (s : PacketHandler) : Call → PacketHandler
  | .sendPacket pType data flags => s.sendPacket C env pType.packetType data flags
  | .sendVoicePacket data codec => s.sendVoicePacket env data codec
  | .sendWhisperPacket data clients codec channels =>
    (s.sendWhisperPacket env data clients codec channels).toOption.getD s
  | .sendGroupWhisperPacket data groupType scope id codec =>
    (s.sendGroupWhisperPacket env data groupType scope id codec).toOption.getD s
  | .setClientID id => { s with send := { s.send with clientID := id } }
  | .receivedFinalInitAck => { s with send := { s.send with initPacketCheck := none } }
  | .setSharedSecret alpha beta sharedKey => s.setSharedSecret C alpha beta sharedKey
  | .close => s.close

def runCalls (s : PacketHandler) (calls : List Call) : PacketHandler :=
  calls.foldl (fun s c => s.call C env c) s

end PacketHandler

end Teamspeak.Transport
