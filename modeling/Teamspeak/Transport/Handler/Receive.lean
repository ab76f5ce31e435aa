import Teamspeak.Transport.Handler.Send
import Teamspeak.Transport.QuickLz

/-!
# Receiving

The receiving half of `handler.ts`: a datagram is decrypted, its id followed, a
command acknowledged and held, and the commands that are whole by then handed
on.  `drain` is the loop of `#handlePacketQueue`, and `takeOne` one turn of it.

Each loop of the source runs here on fuel that bounds its turns: every turn of
the drain takes a packet out of the queue, and the other two walk over distinct
ids that the queue holds.

`deliver` is `onPacket`: the packet goes to the owner, who reacts to it where
`client.ts` does, to an Init1 before crypto init, to voice with its header and
to a command that is not empty.
-/

namespace Teamspeak.Transport

/-! ### The queues -/

namespace ReceiveQueue

/-- The bytes held under an id. -/
def heldLength (q : ReceiveQueue) (id : Nat) : Nat :=
  ((q.queue.get? id).map fun p => p.data.length).getD 0

/-- When the earliest copy of a packet arrived, the one held counted. -/
def arrival (q : ReceiveQueue) (p : Packet) : Time :=
  match q.queue.get? p.id with
  | none => p.firstArrived
  | some held => min held.firstArrived p.firstArrived

end ReceiveQueue

namespace Receiver

/-- Change one of the two queues. -/
def modify (r : Receiver) (k : QueueKind) (f : ReceiveQueue → ReceiveQueue) : Receiver :=
  { r with queues := Function.update r.queues k (f (r.queues k)) }

def release (r : Receiver) (k : QueueKind) (id : Nat) : Receiver :=
  match (r.queues k).queue.get? id with
  | none => r
  | some held =>
    { r.modify k fun q => { q with queue := q.queue.delete id } with
      queuedBytes := r.queuedBytes - held.data.length }

/-- Put a packet in its queue, counting its bytes; one with the same id is
replaced, and what is held counts as having come when the earlier one did. -/
def hold (r : Receiver) (k : QueueKind) (p : Packet) : Receiver :=
  let held := { p with firstArrived := (r.queues k).arrival p }
  let r := r.release k p.id
  { r.modify k fun q => { q with queue := q.queue.set p.id held } with
    queuedBytes := r.queuedBytes + p.data.length }

/-- Release `n` ids from `nextID` on, moving the window past each; the id after. -/
def releaseRun (k : QueueKind) : Nat → Receiver → Nat → Receiver × Nat
  | 0, r, nextID => (r, nextID)
  | n + 1, r, nextID =>
    let r := (r.release k nextID).modify k fun q => { q with win := q.win.advance 1 }
    releaseRun k n r ((nextID + 1) % 65536)

/-- The fragments from `currID` to the one that closes the command, or none if
one is still missing. -/
def fragmentsFrom (queue : InsertionMap Nat Packet) : Nat → Nat → Bool → Option (List Packet)
  | 0, _, _ => none
  | fuel + 1, currID, startSeen =>
    match queue.get? currID with
    | none => none
    | some frag =>
      if startSeen = (packetFlags frag).fragmented then some [frag]
      else (fragmentsFrom queue fuel ((currID + 1) % 65536) true).map (frag :: ·)

/-- The first command of a queue, if all of it is there: the queues without it,
the next id after it, and the command, unless it passes the reassembly limit. -/
def tryReassemble (r : Receiver) (k : QueueKind) (startPacket : Packet) (nextID : Nat) :
    Option (Receiver × Nat × Option Packet) :=
  if (packetFlags startPacket).fragmented = false then
    let (r, newNextID) := r.releaseRun k 1 nextID
    some (r, newNextID, some startPacket)
  else
    let queue := (r.queues k).queue
    match fragmentsFrom queue (queue.size + 1) nextID false with
    | none => none
    | some fragments =>
      let combined := fragments.flatMap Packet.data
      let (r, newNextID) := r.releaseRun k fragments.length nextID
      if combined.length > maxReassembledSize then some (r, newNextID, none)
      else
        let flags := { packetFlags startPacket with fragmented := false }
        some (r, newNextID, some
          { startPacket with
            data := combined
            typeFlagged := ⟨packetType startPacket, flags⟩
            dummyUsed := fragments.any Packet.dummyUsed })

/-- The first id from `needed` on that the queue does not hold. -/
def neededFrom (queue : InsertionMap Nat Packet) : Nat → Nat → Nat
  | 0, needed => needed
  | fuel + 1, needed =>
    if queue.has needed then neededFrom queue fuel ((needed + 1) % 65536) else needed

/-- The id a queue needs next. -/
def needed (r : Receiver) (k : QueueKind) : Nat :=
  neededFrom (r.queues k).queue (r.queues k).queue.size (r.queues k).nextID

/-- Whether a packet inside the window is to be taken: it is the one its queue
needs next, or there is room for its bytes. -/
def hasRoom (r : Receiver) (k : QueueKind) (p : Packet) : Bool :=
  ¬ (p.id ≠ r.needed k ∧
    r.queuedBytes - (r.queues k).heldLength p.id + p.data.length > maxQueuedBytes)

def resolveGeneration (r : Receiver) (sendWindow : QueueKind → GenerationWindow 65536 1024)
    (id : Nat) : PacketType → Nat
  | .command => (r.queues .command).win.getGeneration id
  | .commandLow => (r.queues .commandLow).win.getGeneration id
  | .ack => (sendWindow .command).getGeneration id
  | .ackLow => (sendWindow .commandLow).getGeneration id
  | .voice => r.recvWindowVoice.getGeneration id
  | .voiceWhisper => r.recvWindowVoiceWhisper.getGeneration id
  | .ping => r.recvWindowPing.getGeneration id
  | .pong => r.recvWindowPong.getGeneration id
  | _ => 0

def advanceReceiveGeneration (r : Receiver) (id : Nat) : PacketType → Receiver
  | .voice => { r with recvWindowVoice := r.recvWindowVoice.advanceAfter id }
  | .voiceWhisper => { r with recvWindowVoiceWhisper := r.recvWindowVoiceWhisper.advanceAfter id }
  | .ping => { r with recvWindowPing := r.recvWindowPing.advanceAfter id }
  | .pong => { r with recvWindowPong := r.recvWindowPong.advanceAfter id }
  | _ => r

end Receiver

/-- Decompress a command; none when it cannot be, and is to be dropped. -/
def tryDecompress (p : Packet) : Option Packet :=
  if (packetFlags p).compressed = false then some p
  else
    match decompress p.data with
    | .error _ => none
    | .ok data =>
      let flags := { packetFlags p with compressed := false }
      some { p with data, typeFlagged := ⟨packetType p, flags⟩ }

namespace PacketHandler

variable (C : Cipher) (env : Env)

/-! ### Handing on -/

/-- Whether the owner does anything with a packet. -/
def dispatches (s : PacketHandler) (p : Packet) : Bool :=
  match packetType p with
  | .init1 => !s.crypt.cryptoInitComplete
  | .voice | .voiceWhisper => p.data.length ≥ 5
  | .command | .commandLow => p.data.length > 0
  | _ => false

/-- `onPacket`; the flag says whether it threw. -/
def deliver (s : PacketHandler) (p : Packet) : PacketHandler × Bool :=
  let dispatched := s.dispatches p
  let s := s.log (.delivered p s.crypt.cryptoInitComplete)
  if dispatched then
    let reaction := env.owner p
    (s.runCalls C env reaction.calls, reaction.throws)
  else (s, false)

/-- One turn of the loop in `#handlePacketQueue`; none when it breaks off. -/
def takeOne (k : QueueKind) (s : PacketHandler) : Option (PacketHandler × Bool) :=
  let current := (s.recv.queues k).nextID
  match (s.recv.queues k).queue.get? current with
  | none => none
  | some packet =>
    match s.recv.tryReassemble k packet current with
    | none => none
    | some (recv, newNext, reassembled) =>
      let s := { s with recv := recv.modify k fun q => { q with nextID := newNext } }
      match reassembled.bind tryDecompress with
      | none => some (s, false)
      | some p => some (s.deliver C env p)

/-- The loop: until a turn breaks off or throws. -/
def drain (k : QueueKind) : Nat → PacketHandler → PacketHandler × Bool
  | 0, s => (s, false)
  | fuel + 1, s =>
    match s.takeOne C env k with
    | none => (s, false)
    | some (s, true) => (s, true)
    | some (s, false) => drain k fuel s

def handlePacketQueue (s : PacketHandler) (p : Packet) : PacketHandler × Bool :=
  match (packetType p).queueKind? with
  | none => s.deliver C env p
  | some k =>
    let s := { s with recv := s.recv.hold k p }
    s.drain C env k ((s.recv.queues k).queue.size + 1)

/-! ### Acknowledging -/

def sendAck (s : PacketHandler) (packetID : Nat) (ackType : PacketType) (dummyUsed : Bool) :
    PacketHandler :=
  s.sendPacketRaw C env ackType (uint16BE packetID) .none dummyUsed

def sendPong (s : PacketHandler) (pID : Nat) (dummyUsed : Bool) : PacketHandler :=
  s.sendPacketRaw C env .pong (uint16BE pID) { PacketFlags.none with unencrypted := true } dummyUsed

/-- Acknowledge a command that is taken, or that was before; whether to go on. -/
def handleCommandWindowAndAck (s : PacketHandler) (p : Packet) (dummyUsed : Bool) :
    PacketHandler × Bool :=
  match (packetType p).queueKind? with
  | none => (s, true)
  | some k =>
    if (s.recv.queues k).win.isInWindow p.id then
      if s.recv.hasRoom k p then (s.sendAck C env p.id k.ackType dummyUsed, true)
      else (s, false)
    else if (s.recv.queues k).win.isOldPacket p.id then
      (s.sendAck C env p.id k.ackType dummyUsed, false)
    else (s, false)

/-- Forget a command whose acknowledgement this is. -/
def updatePostReceiveState (s : PacketHandler) (p : Packet) : PacketHandler :=
  match (packetType p).ackedKind? with
  | some k =>
    if p.data.length ≥ 2 then
      let ackID := readUint16BE p.data
      { s with
        send :=
          { s.send with ackManager := s.send.ackManager.delete (resendKey k.packetType ackID) } }.log
        (.ackReceived k ackID)
    else s
  | none => s

/-! ### A datagram -/

/-- Decrypt a packet's data.  Besides the data and whether the dummy key was
used, the state without the command an Ack under the dummy key acknowledges. -/
def decryptPacketData (s : PacketHandler) (p : Packet) (header ciphertext tag : Bytes) :
    Option (PacketHandler × Bytes × Bool) :=
  let unencrypted := (packetFlags p).unencrypted
  let dummy := !s.crypt.cryptoInitComplete
  let pType := packetType p
  if unencrypted ∧ unencryptedTypes pType = false then none
  else
    match s.crypt.decrypt C pType p.id p.generationID header ciphertext tag dummy unencrypted with
    | some plaintext => some (s, plaintext, dummy)
    | none =>
      if dummy = false ∧ pType = .ack ∧ unencrypted = false then
        match s.crypt.decrypt C pType p.id p.generationID header ciphertext tag true false with
        | none => none
        | some plaintext =>
          if plaintext.length ≥ 2 ∧ readUint16BE plaintext ∈ s.send.dummyCommandIDs then
            let dummyCommandIDs := s.send.dummyCommandIDs.erase (readUint16BE plaintext)
            some ({ s with send := { s.send with dummyCommandIDs } }, plaintext, true)
          else none
      else none

/-- What follows of a received packet in every figure the connection keeps. -/
def noteReceived (s : PacketHandler) (p : Packet) (size : Nat) : PacketHandler :=
  let s :=
    { s with
      recv := s.recv.advanceReceiveGeneration p.id (packetType p)
      lastMessageReceived := env.now
      traffic := s.traffic.recordReceived (packetType p) size p.receivedAt }
  if packetType p = .pong ∧ p.data.length ≥ 2 then
    let acked := readUint16BE p.data
    match s.pingsSent.get? acked with
    | none => s
    | some sentAt =>
      { s with
        pingsSent := s.pingsSent.delete acked
        roundTrip := s.roundTrip.add (p.receivedAt - sentAt) }
  else s

/-- What a decrypted packet does; the flag says whether it threw. -/
def handlePacket (s : PacketHandler) (p : Packet) (dummyUsed : Bool) : PacketHandler × Bool :=
  if packetType p = .ping then (s.sendPong C env p.id dummyUsed, false)
  else
    match s.handleCommandWindowAndAck C env p dummyUsed with
    | (s, false) => (s, false)
    | (s, true) =>
      match s.handlePacketQueue C env p with
      | (s, true) => (s, true)
      | (s, false) => (s.updatePostReceiveState p, false)

/-- The packet a datagram holds, decrypted, and the state after; none when the
datagram is dropped. -/
def openPacket (s : PacketHandler) (raw : Bytes) : Option (PacketHandler × Packet) :=
  if raw.length < 11 ∨ raw.length > maxDatagramSize then none
  else
    let tag := raw.take tagSize
    let header := (raw.drop tagSize).take 3
    let ciphertext := raw.drop (tagSize + 3)
    let (id, typeFlagged) := parseS2CHeader header
    if typeFlagged.type = .init1 ∧ s.crypt.cryptoInitComplete then none
    else
      let p : Packet :=
        { typeFlagged, id, clientID := 0,
          generationID := s.recv.resolveGeneration s.send.sendWindow id typeFlagged.type,
          data := [], receivedAt := env.now, firstArrived := env.now }
      (s.decryptPacketData C p header ciphertext tag).map fun (s, plaintext, dummyUsed) =>
        (s, { p with data := plaintext, dummyUsed })

def handleRawPacket (s : PacketHandler) (raw : Bytes) : PacketHandler × Bool :=
  match s.openPacket C env raw with
  | none => (s, false)
  | some (s, p) => (s.noteReceived env p raw.length).handlePacket C env p p.dummyUsed

end PacketHandler

end Teamspeak.Transport
