import Mathlib.Logic.Relation
import Teamspeak.Transport.Handler.Step

/-!
# What an event can do

An event runs through many functions, and the owner calls back into the handler
in the middle of them.  `Act` lists once what any of it can change, as atomic
changes with the conditions they are made under, and an event is a chain of
them.

* `step_acts`: an event is a chain of acts.
* `after_preserves`: what every act keeps holds in every run.
* `Act.recv_cases`: on the receiving side an act holds a packet, takes a command
  out, or leaves the queues alone.
* `Acts.preserves`: what every act keeps, a chain of them keeps.
-/

namespace Teamspeak.Transport

/-- What a write can leave in the trace. -/
def Output.isWire : Output → Bool
  | .written _ | .refused _ | .closed .sendFailed => true
  | _ => false

/-- A transmission is what its packet encrypts to. -/
structure Transmission.Encrypts (C : Cipher) (c : Crypt) (t : Transmission) : Prop where
  header : t.header = buildC2SHeader t.packet
  encrypt : c.encrypt C (packetType t.packet) t.packet.id t.packet.generationID t.header
    t.packet.data t.dummy (packetFlags t.packet).unencrypted = some (t.ciphertext, t.tag)

/-- The sender after a packet of a type went out as `t`. -/
def Sender.sent (s : Sender) (pType : PacketType) (t : Transmission) : Sender :=
  ((s.nextPacketIdentity pType).noteDummy pType t.packet.id t.dummy).trackResend pType t.tracked

namespace PacketHandler

variable {C : Cipher} {env : Env} {s : PacketHandler}

/-! ### What writing leaves alone -/

@[simp] theorem log_recv (o : Output) : (s.log o).recv = s.recv := rfl
@[simp] theorem log_send (o : Output) : (s.log o).send = s.send := rfl
@[simp] theorem log_crypt (o : Output) : (s.log o).crypt = s.crypt := rfl
@[simp] theorem log_trace (o : Output) : (s.log o).trace = s.trace ++ [o] := rfl
@[simp] theorem log_closed (o : Output) : (s.log o).closed = s.closed := rfl
@[simp] theorem log_hasConn (o : Output) : (s.log o).hasConn = s.hasConn := rfl

theorem close_cases : s.close = s ∨ s.close = { s with closed := true, hasConn := false } := by
  rw [close]
  split
  · exact Or.inl rfl
  · exact Or.inr rfl

@[simp] theorem close_recv : s.close.recv = s.recv := by
  rcases close_cases (s := s) with h | h <;> rw [h]

@[simp] theorem close_send : s.close.send = s.send := by
  rcases close_cases (s := s) with h | h <;> rw [h]

@[simp] theorem close_crypt : s.close.crypt = s.crypt := by
  rcases close_cases (s := s) with h | h <;> rw [h]

@[simp] theorem close_trace : s.close.trace = s.trace := by
  rcases close_cases (s := s) with h | h <;> rw [h]

@[simp] theorem close_closed : s.close.closed = true := by
  rw [close]
  split
  · assumption
  · rfl

@[simp] theorem triggerClose_recv (r : CloseReason) : (s.triggerClose r).recv = s.recv := by
  rw [triggerClose]; split <;> simp

@[simp] theorem triggerClose_send (r : CloseReason) : (s.triggerClose r).send = s.send := by
  rw [triggerClose]; split <;> simp

@[simp] theorem triggerClose_crypt (r : CloseReason) : (s.triggerClose r).crypt = s.crypt := by
  rw [triggerClose]; split <;> simp

@[simp] theorem triggerClose_closed (r : CloseReason) : (s.triggerClose r).closed = true := by
  rw [triggerClose]
  split
  · assumption
  · simp

theorem triggerClose_trace (r : CloseReason) :
    ∃ outs, (s.triggerClose r).trace = s.trace ++ outs ∧ ∀ o ∈ outs, o = .closed r := by
  rw [triggerClose]
  split
  · exact ⟨[], by simp, by simp⟩
  · exact ⟨[.closed r], by simp, by simp⟩

@[simp] theorem write_recv (d : Bytes) : (s.write env d).recv = s.recv := by
  simp only [write]; split_ifs <;> simp

@[simp] theorem write_send (d : Bytes) : (s.write env d).send = s.send := by
  simp only [write]; split_ifs <;> simp

@[simp] theorem write_crypt (d : Bytes) : (s.write env d).crypt = s.crypt := by
  simp only [write]; split_ifs <;> simp

/-- A write adds to the trace only what went over the wire. -/
theorem write_trace (env : Env) (d : Bytes) :
    ∃ outs, (s.write env d).trace = s.trace ++ outs ∧ ∀ o ∈ outs, o.isWire = true := by
  have hrefused : ∀ s : PacketHandler, ∃ outs,
      ((s.log (.refused d)).triggerClose .sendFailed).trace = s.trace ++ outs ∧
        ∀ o ∈ outs, o.isWire = true := by
    intro s
    obtain ⟨outs, h, ho⟩ := triggerClose_trace (s := s.log (.refused d)) .sendFailed
    refine ⟨.refused d :: outs, by simp [h], fun o hm => ?_⟩
    rcases List.mem_cons.mp hm with rfl | hm
    · rfl
    · rw [ho o hm]; rfl
  simp only [write]
  split_ifs
  · exact hrefused _
  · exact hrefused _
  · exact ⟨[.written d], rfl, by simp [Output.isWire]⟩
  · exact ⟨[.written d], rfl, by simp [Output.isWire]⟩
  · exact ⟨[], by simp, by simp⟩

/-- A socket that takes the datagram leaves the handler open. -/
theorem write_closed_of_taken {d : Bytes} (h : env.refuses d = false) :
    (s.write env d).closed = s.closed ∧ (s.write env d).hasConn = s.hasConn := by
  simp only [write, h]
  split_ifs <;> simp_all

/-! ### Sending one packet -/

@[simp] theorem sendPacketRaw_recv (pType : PacketType) (data : Bytes) (flags : PacketFlags)
    (dummy : Bool) : (s.sendPacketRaw C env pType data flags dummy).recv = s.recv := by
  simp only [sendPacketRaw]; split <;> simp

@[simp] theorem sendPacketRaw_crypt (pType : PacketType) (data : Bytes) (flags : PacketFlags)
    (dummy : Bool) : (s.sendPacketRaw C env pType data flags dummy).crypt = s.crypt := by
  simp only [sendPacketRaw]; split <;> simp

/-- Sending leaves a handler open whose socket takes everything. -/
theorem sendPacketRaw_closed (hsocket : ∀ d, env.refuses d = false) (pType : PacketType)
    (data : Bytes) (flags : PacketFlags) (dummy : Bool) :
    (s.sendPacketRaw C env pType data flags dummy).closed = s.closed := by
  simp only [sendPacketRaw]
  split
  · rfl
  · exact (write_closed_of_taken (hsocket _)).1

/-- **What `sendPacketRaw` does**: the packet with the next number goes out once,
and the sender is left as `Sender.sent` says. -/
theorem sendPacketRaw_spec (C : Cipher) (env : Env) (pType : PacketType) (data : Bytes)
    (flags : PacketFlags) {dummy : Bool} (hkey : dummy = true ∨ s.crypt.cryptoInitComplete = true) :
    ∃ t outs, t.packet = s.nextPacket pType (applyProtocolFlags pType flags) data ∧
      t.dummy = dummy ∧ t.time = env.now ∧ t.Encrypts C s.crypt ∧
      (s.sendPacketRaw C env pType data flags dummy).send = s.send.sent pType t ∧
      (s.sendPacketRaw C env pType data flags dummy).trace = s.trace ++ .numbered t :: outs ∧
      ∀ o ∈ outs, o.isWire = true := by
  let p := s.nextPacket pType (applyProtocolFlags pType flags) data
  have hsome := Crypt.encrypt_isSome C hkey pType p.id p.generationID (buildC2SHeader p) data
    (applyProtocolFlags pType flags).unencrypted
  obtain ⟨⟨ciphertext, tag⟩, henc⟩ := Option.isSome_iff_exists.mp hsome
  let t : Transmission := ⟨p, dummy, buildC2SHeader p, ciphertext, tag, env.now⟩
  let s₁ : PacketHandler := { s with send := s.send.nextPacketIdentity pType }
  obtain ⟨outs, htrace, houts⟩ := write_trace (s := s₁.log (.numbered t)) env t.datagram
  have hsend : (s.sendPacketRaw C env pType data flags dummy).send = s.send.sent pType t := by
    simp only [sendPacketRaw, p] at henc ⊢
    rw [henc]
    simp only [write_send, log_send]
    rfl
  have htr : (s.sendPacketRaw C env pType data flags dummy).trace =
      ((s₁.log (.numbered t)).write env t.datagram).trace := by
    simp only [sendPacketRaw, p] at henc ⊢
    rw [henc]
  refine ⟨t, outs, rfl, rfl, rfl, ⟨rfl, henc⟩, hsend, ?_, houts⟩
  rw [htr, htrace]
  simp [s₁]

@[simp] theorem sendNumbered_recv (pType : PacketType) (flags : PacketFlags) (payload : Bytes) :
    (s.sendNumbered env pType flags payload).recv = s.recv := by
  simp [sendNumbered]

@[simp] theorem sendNumbered_crypt (pType : PacketType) (flags : PacketFlags) (payload : Bytes) :
    (s.sendNumbered env pType flags payload).crypt = s.crypt := by
  simp [sendNumbered]

/-- What sending a voice packet does. -/
theorem sendNumbered_spec (C : Cipher) (env : Env) {pType : PacketType}
    (hvoice : pType = .voice ∨ pType = .voiceWhisper) (flags : PacketFlags) (payload : Bytes) :
    ∃ t outs, t.packet = s.nextPacket pType { flags with unencrypted := true }
        (uint16BE (s.send.packetCounter pType) ++ payload) ∧
      t.time = env.now ∧ t.Encrypts C s.crypt ∧
      (s.sendNumbered env pType flags payload).send = s.send.useNumber pType ∧
      (s.sendNumbered env pType flags payload).trace = s.trace ++ .numbered t :: outs ∧
      ∀ o ∈ outs, o.isWire = true := by
  let p := s.nextPacket pType { flags with unencrypted := true }
    (uint16BE (s.send.packetCounter pType) ++ payload)
  let t : Transmission := ⟨p, false, buildC2SHeader p, p.data, s.crypt.fakeSignature, env.now⟩
  let s₁ : PacketHandler := { s with send := s.send.useNumber pType }
  obtain ⟨outs, htrace, houts⟩ := write_trace (s := s₁.log (.numbered t)) env t.datagram
  have henc : s.crypt.encrypt C pType p.id p.generationID t.header p.data false true =
      some (p.data, s.crypt.fakeSignature) := by
    rcases hvoice with rfl | rfl <;> simp [Crypt.encrypt]
  refine ⟨t, outs, rfl, rfl, ⟨rfl, henc⟩, by simp [sendNumbered], ?_, houts⟩
  change ((s₁.log (.numbered t)).write env t.datagram).trace = _
  rw [htrace]
  simp [s₁]

/-! ### The acts -/

/-- A command packet as it is when its datagram has just been decrypted. -/
structure Fresh (env : Env) (s : PacketHandler) (k : QueueKind) (p : Packet) : Prop where
  type : packetType p = k.packetType
  id_lt : p.id < 65536
  generation : p.generationID = (s.recv.queues k).win.getGeneration p.id
  dummyUsed : p.dummyUsed = !s.crypt.cryptoInitComplete
  receivedAt : p.receivedAt = env.now
  firstArrived : p.firstArrived = env.now

/-- Hand on what came out of a queue, if anything did. -/
def handOn (s : PacketHandler) : Option Packet → PacketHandler
  | none => s
  | some p => s.log (.delivered p s.crypt.cryptoInitComplete)

/-- The state with a command out of its queue: the result of `tryReassemble`
stored, and what it gave handed on. -/
def taken (s : PacketHandler) (k : QueueKind) (recv : Receiver) (newNext : Nat)
    (reassembled : Option Packet) : PacketHandler :=
  { s with recv := recv.modify k fun q => { q with nextID := newNext } }.handOn
    (reassembled.bind tryDecompress)

/-- One change of those an event is made of.  `op` is the packet that the event's
datagram holds, if the event is one. -/
inductive Act (C : Cipher) (env : Env) (op : Option Packet) : PacketHandler → PacketHandler → Prop
  | close (s : PacketHandler) : Act C env op s s.close
  | triggerClose (s : PacketHandler) (reason : CloseReason) :
      Act C env op s (s.triggerClose reason)
  | send (s : PacketHandler) (pType : PacketType) (data : Bytes) (flags : PacketFlags)
      (dummy : Bool) (hkey : dummy = true ∨ s.crypt.cryptoInitComplete = true)
      (hack : pType.ackedKind? = none)
      (hcommand : pType.queueKind?.isSome = true → dummy = !s.crypt.cryptoInitComplete) :
      Act C env op s (s.sendPacketRaw C env pType data flags dummy)
  | voice (s : PacketHandler) (pType : PacketType) (flags : PacketFlags) (payload : Bytes)
      (hvoice : pType = .voice ∨ pType = .voiceWhisper) :
      Act C env op s (s.sendNumbered env pType flags payload)
  | setClientID (s : PacketHandler) (id : Nat) :
      Act C env op s { s with send := { s.send with clientID := id } }
  | receivedFinalInitAck (s : PacketHandler) :
      Act C env op s { s with send := { s.send with initPacketCheck := none } }
  | setSharedSecret (s : PacketHandler) (alpha beta sharedKey : Bytes) :
      Act C env op s (s.setSharedSecret C alpha beta sharedKey)
  /-- A change of the figures only. -/
  | note (s s' : PacketHandler) (hcrypt : s'.crypt = s.crypt)
      (hqueues : s'.recv.queues = s.recv.queues) (hbytes : s'.recv.queuedBytes = s.recv.queuedBytes)
      (hsend : s'.send = s.send) (hconn : s'.hasConn = s.hasConn) (hclosed : s'.closed = s.closed)
      (htrace : s'.trace = s.trace) : Act C env op s s'
  | dummyAcked (s : PacketHandler) (id : Nat) :
      Act C env op s
        { s with send := { s.send with dummyCommandIDs := s.send.dummyCommandIDs.erase id } }
  /-- Acknowledge a command that was taken out before. -/
  | reack (s : PacketHandler) (k : QueueKind) (p : Packet) (hop : op = some p)
      (hfresh : Fresh env s k p) (hin : (s.recv.queues k).win.isInWindow p.id = false)
      (hold : (s.recv.queues k).win.isOldPacket p.id = true) :
      Act C env op s (s.sendAck C env p.id k.ackType p.dummyUsed)
  /-- Acknowledge a command and hold it. -/
  | accept (s : PacketHandler) (k : QueueKind) (p : Packet) (hop : op = some p)
      (hfresh : Fresh env s k p) (hin : (s.recv.queues k).win.isInWindow p.id = true)
      (hroom : s.recv.hasRoom k p = true) :
      Act C env op s
        { s.sendAck C env p.id k.ackType p.dummyUsed with recv := s.recv.hold k p }
  | take (s : PacketHandler) (k : QueueKind) (packet : Packet) (recv : Receiver) (newNext : Nat)
      (reassembled : Option Packet)
      (hget : (s.recv.queues k).queue.get? (s.recv.queues k).nextID = some packet)
      (hre : s.recv.tryReassemble k packet (s.recv.queues k).nextID =
        some (recv, newNext, reassembled)) :
      Act C env op s (s.taken k recv newNext reassembled)
  /-- Hand on a packet that is no command. -/
  | deliver (s : PacketHandler) (p : Packet) (hop : op = some p)
      (hkind : (packetType p).queueKind? = none) :
      Act C env op s (s.log (.delivered p s.crypt.cryptoInitComplete))
  | updatePostReceiveState (s : PacketHandler) (p : Packet) (hop : op = some p) :
      Act C env op s (s.updatePostReceiveState p)
  | resendInit (s : PacketHandler) : Act C env op s (s.resendInit C env)
  | resendCommand (s : PacketHandler) (key : Nat) (rp : ResendPacket)
      (hget : s.send.ackManager.get? key = some rp) :
      Act C env op s (s.resendCommand C env key rp)
  | expire (s : PacketHandler) (key : Nat) : Act C env op s (s.expire key)

/-- A chain of acts. -/
abbrev Acts (C : Cipher) (env : Env) (op : Option Packet) : PacketHandler → PacketHandler → Prop :=
  Relation.ReflTransGen (Act C env op)

variable {op : Option Packet}

theorem Act.acts {s s' : PacketHandler} (h : Act C env op s s') : Acts C env op s s' :=
  Relation.ReflTransGen.single h

/-- What every act keeps, a chain of them keeps. -/
theorem Acts.preserves {P : PacketHandler → Prop} (h : ∀ s s', Act C env op s s' → P s → P s')
    {s s' : PacketHandler} (hs : Acts C env op s s') (hp : P s) : P s' := by
  induction hs with
  | refl => exact hp
  | tail _ hact ih => exact h _ _ hact ih

/-! ### Calls are chains of acts -/

theorem sendSplitPacket_acts (pType : PacketType) (data : Bytes) (flags : PacketFlags)
    {dummy : Bool} (hkey : dummy = true ∨ s.crypt.cryptoInitComplete = true)
    (hack : pType.ackedKind? = none)
    (hcommand : pType.queueKind?.isSome = true → dummy = !s.crypt.cryptoInitComplete) :
    Acts C env op s (s.sendSplitPacket C env pType data flags dummy) := by
  rw [sendSplitPacket]
  generalize splitBlocks flags data.length true data = blocks
  induction blocks generalizing s with
  | nil => exact .refl
  | cons block blocks ih =>
    refine .head (.send s pType block.2 block.1 dummy hkey hack hcommand) (ih ?_ ?_)
    · rwa [sendPacketRaw_crypt]
    · rwa [sendPacketRaw_crypt]

theorem sendPacket_acts (pType : PacketType) (data : Bytes) (flags : PacketFlags)
    (hack : pType.ackedKind? = none) : Acts C env op s (s.sendPacket C env pType data flags) := by
  have hkey : (!s.crypt.cryptoInitComplete) = true ∨ s.crypt.cryptoInitComplete = true := by
    cases s.crypt.cryptoInitComplete <;> simp
  simp only [sendPacket]
  split_ifs
  · exact sendSplitPacket_acts pType data flags hkey hack fun _ => rfl
  · exact (Act.send s pType data flags _ hkey hack fun _ => rfl).acts

theorem call_acts (c : Call) : Acts C env op s (s.call C env c) := by
  cases c with
  | sendPacket pType data flags =>
    exact sendPacket_acts _ data flags (by cases pType <;> rfl)
  | sendVoicePacket data codec => exact (Act.voice s _ _ _ (Or.inl rfl)).acts
  | sendWhisperPacket data clients codec channels =>
    simp only [call, sendWhisperPacket]
    split_ifs <;> first | exact .refl | exact (Act.voice s _ _ _ (Or.inr rfl)).acts
  | sendGroupWhisperPacket data groupType scope id codec =>
    simp only [call, sendGroupWhisperPacket]
    split_ifs <;> first | exact .refl | exact (Act.voice s _ _ _ (Or.inr rfl)).acts
  | setClientID id => exact (Act.setClientID s id).acts
  | receivedFinalInitAck => exact (Act.receivedFinalInitAck s).acts
  | setSharedSecret alpha beta sharedKey => exact (Act.setSharedSecret s alpha beta sharedKey).acts
  | close => exact (Act.close s).acts

theorem runCalls_acts (calls : List Call) : Acts C env op s (s.runCalls C env calls) := by
  induction calls generalizing s with
  | nil => exact .refl
  | cons c calls ih => exact (call_acts c).trans ih

/-! ### So is handling a datagram -/

/-- Handing a packet on is the log entry and then the owner's calls. -/
theorem deliver_acts (p : Packet) :
    Acts C env op (s.log (.delivered p s.crypt.cryptoInitComplete)) (s.deliver C env p).1 := by
  simp only [deliver]
  split_ifs
  · exact runCalls_acts _
  · exact .refl

/-- One turn of the drain takes a command out, and then the owner calls. -/
theorem takeOne_acts (op : Option Packet) {k : QueueKind} {r : PacketHandler × Bool} (h : s.takeOne C env k = some r) :
    ∃ packet recv newNext reassembled,
      (s.recv.queues k).queue.get? (s.recv.queues k).nextID = some packet ∧
      s.recv.tryReassemble k packet (s.recv.queues k).nextID =
        some (recv, newNext, reassembled) ∧
      Acts C env op (s.taken k recv newNext reassembled) r.1 := by
  simp only [takeOne] at h
  split at h
  · exact absurd h (by simp)
  rename_i packet hget
  split at h
  · exact absurd h (by simp)
  rename_i recv newNext reassembled hre
  refine ⟨packet, recv, newNext, reassembled, hget, hre, ?_⟩
  simp only [taken]
  split at h
  · rename_i hnone
    rw [hnone, ← Option.some.inj h]
    exact .refl
  · rename_i p hsome
    rw [hsome, ← Option.some.inj h]
    exact deliver_acts p

theorem drain_acts (C : Cipher) (env : Env) (op : Option Packet) (k : QueueKind) (fuel : Nat) :
    Acts C env op s (s.drain C env k fuel).1 := by
  induction fuel generalizing s with
  | zero => exact .refl
  | succ fuel ih =>
    rw [drain]
    split
    · exact .refl
    all_goals
      rename_i s₁ h
      obtain ⟨packet, recv, newNext, reassembled, hget, hre, hacts⟩ := takeOne_acts op h
      have htake := Relation.ReflTransGen.head (Act.take s k packet recv newNext _ hget hre) hacts
    · exact htake
    · exact htake.trans ih

theorem handlePacket_acts {p : Packet} (hop : op = some p)
    (hfresh : ∀ k, packetType p = k.packetType → Fresh env s k p)
    (hkey : p.dummyUsed = true ∨ s.crypt.cryptoInitComplete = true) :
    Acts C env op s (s.handlePacket C env p p.dummyUsed).1 := by
  rw [handlePacket]
  split_ifs with hping
  · exact (Act.send s .pong (uint16BE p.id) { PacketFlags.none with unencrypted := true } _ hkey
      rfl fun hkind => absurd hkind (by decide)).acts
  cases hkind : (packetType p).queueKind? with
  | none =>
    have hdeliver : Acts C env op s (s.deliver C env p).1 :=
      Relation.ReflTransGen.head (Act.deliver s p hop hkind) (deliver_acts p)
    simp only [handleCommandWindowAndAck, handlePacketQueue, hkind]
    split
    · rename_i s₁ h
      rw [h] at hdeliver
      exact hdeliver
    · rename_i s₁ h
      rw [h] at hdeliver
      exact hdeliver.tail (Act.updatePostReceiveState s₁ p hop)
  | some k =>
    have htype := PacketType.queueKind?_eq_some.mp hkind
    have hf := hfresh k htype
    have hacked : (packetType p).ackedKind? = none := by rw [htype]; cases k <;> rfl
    simp only [handleCommandWindowAndAck, handlePacketQueue, hkind]
    by_cases hin : (s.recv.queues k).win.isInWindow p.id = true
    · by_cases hroom : s.recv.hasRoom k p = true
      · rw [if_pos hin, if_pos hroom]
        have hacc := Act.accept (C := C) s k p hop hf hin hroom
        have hrecv : (s.sendAck C env p.id k.ackType p.dummyUsed).recv = s.recv := by
          simp [sendAck]
        simp only [hrecv, updatePostReceiveState, hacked]
        refine Relation.ReflTransGen.head hacc ?_
        split <;> rename_i s₁ h
        all_goals
          have hd := drain_acts C env op
            (s := { s.sendAck C env p.id k.ackType p.dummyUsed with recv := s.recv.hold k p }) k
            (((s.recv.hold k p).queues k).queue.size + 1)
          rw [h] at hd
          exact hd
      · rw [if_pos hin, if_neg hroom]
    · rw [if_neg hin]
      split_ifs with hold
      · exact (Act.reack s k p hop hf (by simpa using hin) hold).acts
      · exact .refl

/-- What decrypting gives: the data, under the one key there is for the packet or,
for an acknowledgement, under the dummy key once more. -/
theorem decryptPacketData_cases {p : Packet} {header ciphertext tag plaintext : Bytes}
    {s₁ : PacketHandler} {dummyUsed : Bool}
    (h : s.decryptPacketData C p header ciphertext tag = some (s₁, plaintext, dummyUsed)) :
    ((packetFlags p).unencrypted = true → unencryptedTypes (packetType p) = true) ∧
    ((s₁ = s ∧ dummyUsed = (!s.crypt.cryptoInitComplete) ∧
        s.crypt.decrypt C (packetType p) p.id p.generationID header ciphertext tag dummyUsed
          (packetFlags p).unencrypted = some plaintext) ∨
      (packetType p = .ack ∧ dummyUsed = true ∧ ∃ id, s₁ =
        { s with send := { s.send with dummyCommandIDs := s.send.dummyCommandIDs.erase id } })) := by
  simp only [decryptPacketData] at h
  by_cases hun : (packetFlags p).unencrypted = true ∧ unencryptedTypes (packetType p) = false
  · rw [if_pos hun] at h
    exact absurd h (by simp)
  rw [if_neg hun] at h
  refine ⟨fun hu => by simpa [hu] using hun, ?_⟩
  split at h
  · rename_i data hd
    rw [Option.some.injEq, Prod.mk.injEq, Prod.mk.injEq] at h
    obtain ⟨rfl, rfl, rfl⟩ := h
    exact Or.inl ⟨rfl, rfl, hd⟩
  · by_cases hack : (!s.crypt.cryptoInitComplete) = false ∧ packetType p = .ack ∧
        (packetFlags p).unencrypted = false
    · rw [if_pos hack] at h
      split at h
      · exact absurd h (by simp)
      · split_ifs at h
        rw [Option.some.injEq, Prod.mk.injEq, Prod.mk.injEq] at h
        exact Or.inr ⟨hack.2.1, h.2.2.symm, _, h.1.symm⟩
    · rw [if_neg hack] at h
      exact absurd h (by simp)

/-- The parts of a datagram. -/
def tagOf (raw : Bytes) : Bytes := raw.take tagSize
def headerOf (raw : Bytes) : Bytes := (raw.drop tagSize).take 3
def ciphertextOf (raw : Bytes) : Bytes := raw.drop (tagSize + 3)

/-- What a datagram opens to: the packet its header names, and the state before
up to an acknowledgement under the dummy key. -/
theorem openPacket_spec {raw : Bytes} {s₁ : PacketHandler} {p : Packet}
    (h : s.openPacket C env raw = some (s₁, p)) :
    (p.id, p.typeFlagged) = parseS2CHeader (headerOf raw) ∧
    p.generationID = s.recv.resolveGeneration s.send.sendWindow p.id (packetType p) ∧
    p.receivedAt = env.now ∧ p.firstArrived = env.now ∧
    ((packetFlags p).unencrypted = true → unencryptedTypes (packetType p) = true) ∧
    ((s₁ = s ∧ p.dummyUsed = (!s.crypt.cryptoInitComplete) ∧
        s.crypt.decrypt C (packetType p) p.id p.generationID (headerOf raw) (ciphertextOf raw)
          (tagOf raw) p.dummyUsed (packetFlags p).unencrypted = some p.data) ∨
      (packetType p = .ack ∧ p.dummyUsed = true ∧ ∃ id, s₁ =
        { s with send := { s.send with dummyCommandIDs := s.send.dummyCommandIDs.erase id } })) := by
  simp only [openPacket] at h
  split_ifs at h
  rw [Option.map_eq_some_iff] at h
  obtain ⟨⟨s₂, plaintext, dummyUsed⟩, hd, heq⟩ := h
  rw [Prod.mk.injEq] at heq
  obtain ⟨rfl, rfl⟩ := heq
  obtain ⟨hun, hcases⟩ := decryptPacketData_cases hd
  exact ⟨rfl, rfl, rfl, rfl, hun, hcases⟩

/-- A command comes out of its datagram fresh. -/
theorem openPacket_fresh {raw : Bytes} {s₁ : PacketHandler} {p : Packet}
    (h : s.openPacket C env raw = some (s₁, p)) {k : QueueKind} (hk : packetType p = k.packetType) :
    s₁ = s ∧ Fresh env s k p := by
  obtain ⟨hparse, hgen, hrecv, hfirst, -, hcases⟩ := openPacket_spec h
  rcases hcases with ⟨rfl, hdummy, -⟩ | ⟨hack, -, -⟩
  · refine ⟨rfl, hk, ?_, ?_, hdummy, hrecv, hfirst⟩
    · rw [show p.id = (parseS2CHeader (headerOf raw)).1 from congrArg Prod.fst hparse]
      exact readUint16BE_lt _
    · rw [hgen, hk]
      cases k <;> rfl
  · rw [hack] at hk
    cases k <;> exact absurd hk (by decide)

/-- The packet that an event's datagram holds. -/
def eventPacket (C : Cipher) (s : PacketHandler) (e : Env × Event) : Option Packet :=
  match e.2 with
  | .datagram raw => (s.openPacket C e.1 raw).map Prod.snd
  | _ => none

theorem noteReceived_act (p : Packet) (size : Nat) :
    Act C env op s (s.noteReceived env p size) := by
  have hq : (s.recv.advanceReceiveGeneration p.id (packetType p)).queues = s.recv.queues ∧
      (s.recv.advanceReceiveGeneration p.id (packetType p)).queuedBytes = s.recv.queuedBytes := by
    cases h : packetType p <;> exact ⟨rfl, rfl⟩
  simp only [noteReceived]
  split_ifs
  · split
    · exact .note _ _ rfl hq.1 hq.2 rfl rfl rfl rfl
    · exact .note _ _ rfl hq.1 hq.2 rfl rfl rfl rfl
  · exact .note _ _ rfl hq.1 hq.2 rfl rfl rfl rfl

theorem noteReceived_frame (env : Env) (p : Packet) (size : Nat) :
    (s.noteReceived env p size).crypt = s.crypt ∧
      (s.noteReceived env p size).recv.queues = s.recv.queues := by
  have hq : (s.recv.advanceReceiveGeneration p.id (packetType p)).queues = s.recv.queues := by
    cases h : packetType p <;> rfl
  simp only [noteReceived]
  split_ifs
  · split <;> exact ⟨rfl, hq⟩
  · exact ⟨rfl, hq⟩

/-- What follows once a datagram is opened. -/
theorem handleRawPacket_acts_of_opened {raw : Bytes} {s₁ : PacketHandler} {p : Packet}
    (h : s.openPacket C env raw = some (s₁, p)) :
    Acts C env (some p) s₁ (s.handleRawPacket C env raw).1 := by
  rw [handleRawPacket, h]
  obtain ⟨-, -, -, -, -, hcases⟩ := openPacket_spec h
  have hcrypt₁ : s₁.crypt = s.crypt := by
    rcases hcases with ⟨rfl, -, -⟩ | ⟨-, -, id, rfl⟩
    · rfl
    · rfl
  have hkey : p.dummyUsed = true ∨ s.crypt.cryptoInitComplete = true := by
    rcases hcases with ⟨-, hd, -⟩ | ⟨-, hd, -⟩
    · rw [hd]; cases s.crypt.cryptoInitComplete <;> simp
    · exact Or.inl hd
  obtain ⟨hcrypt, hqueues⟩ := noteReceived_frame (s := s₁) env p raw.length
  apply Relation.ReflTransGen.head (noteReceived_act p raw.length)
  apply handlePacket_acts rfl
  · intro k hk
    obtain ⟨rfl, hf⟩ := openPacket_fresh h hk
    exact ⟨hf.type, hf.id_lt, by rw [hqueues, hf.generation], by rw [hcrypt, hf.dummyUsed],
      hf.receivedAt, hf.firstArrived⟩
  · rwa [hcrypt, hcrypt₁]

theorem handleRawPacket_acts (C : Cipher) (env : Env) (raw : Bytes) :
    Acts C env ((s.openPacket C env raw).map Prod.snd) s (s.handleRawPacket C env raw).1 := by
  cases h : s.openPacket C env raw with
  | none => rw [handleRawPacket, h]
  | some opened =>
    obtain ⟨s₁, p⟩ := opened
    have hs₁ : Acts C env (some p) s s₁ := by
      obtain ⟨-, -, -, -, -, ⟨rfl, -, -⟩ | ⟨-, -, id, rfl⟩⟩ := openPacket_spec h
      · exact .refl
      · exact (Act.dummyAcked s id).acts
    exact hs₁.trans (handleRawPacket_acts_of_opened h)

/-! ### The timers -/

/-- **What `doResend` does**: nothing, or the packet goes out again as it is. -/
theorem doResend_cases (C : Cipher) (env : Env) (rp : ResendPacket) :
    (isDue rp env.now = false ∧ s.doResend C env rp = (s, rp)) ∨
    (isDue rp env.now = true ∧ (s.doResend C env rp).2 = again rp env.now ∧
      (s.doResend C env rp).1.send = { s.send with resends := s.send.resends + 1 } ∧
      (s.doResend C env rp).1.recv = s.recv ∧ (s.doResend C env rp).1.crypt = s.crypt ∧
      ((s.crypt.encrypt C (packetType rp.packet) rp.packet.id rp.packet.generationID
          (buildC2SHeader rp.packet) rp.packet.data rp.dummy (packetFlags rp.packet).unencrypted
            = none ∧ (s.doResend C env rp).1.trace = s.trace) ∨
        ∃ t outs, t.packet = rp.packet ∧ t.dummy = rp.dummy ∧ t.Encrypts C s.crypt ∧
          (s.doResend C env rp).1.trace = s.trace ++ .resent t :: outs ∧
          ∀ o ∈ outs, o.isWire = true)) := by
  by_cases hdue : isDue rp env.now = true
  · refine Or.inr ⟨hdue, ?_⟩
    simp only [doResend, if_pos hdue, again]
    cases henc : s.crypt.encrypt C (packetType rp.packet) rp.packet.id rp.packet.generationID
        (buildC2SHeader rp.packet) rp.packet.data rp.dummy (packetFlags rp.packet).unencrypted with
    | none => exact ⟨rfl, rfl, rfl, rfl, Or.inl ⟨rfl, rfl⟩⟩
    | some ct =>
      let t : Transmission :=
        ⟨rp.packet, rp.dummy, buildC2SHeader rp.packet, ct.1, ct.2, env.now⟩
      let s₁ : PacketHandler := { s with send := { s.send with resends := s.send.resends + 1 } }
      obtain ⟨outs, htrace, houts⟩ := write_trace (s := s₁.log (.resent t)) env t.datagram
      refine ⟨rfl, by simp, by simp, by simp, Or.inr ⟨t, outs, rfl, rfl, ⟨rfl, henc⟩, ?_, houts⟩⟩
      exact htrace.trans (by simp [s₁])
  · exact Or.inl ⟨by simpa using hdue, by simp [doResend, hdue]⟩

theorem resendCommand_ackManager (key : Nat) (rp : ResendPacket) :
    (s.resendCommand C env key rp).send.ackManager =
      s.send.ackManager.set key (s.doResend C env rp).2 := by
  rcases doResend_cases (s := s) C env rp with ⟨-, h⟩ | ⟨-, -, h, -⟩ <;>
    simp [resendCommand, h]

theorem doResend_frame (C : Cipher) (env : Env) (rp : ResendPacket) :
    (s.doResend C env rp).1.recv = s.recv ∧ (s.doResend C env rp).1.crypt = s.crypt ∧
      ∃ outs, (s.doResend C env rp).1.trace = s.trace ++ outs ∧
        ∀ o ∈ outs, o.isWire = true ∨ ∃ t, o = .resent t := by
  rcases doResend_cases (s := s) C env rp with
    ⟨-, h⟩ | ⟨-, -, -, hrecv, hcrypt, ⟨-, htrace⟩ | ⟨t, outs, -, -, -, htrace, houts⟩⟩
  · rw [h]
    exact ⟨rfl, rfl, [], by simp, by simp⟩
  · exact ⟨hrecv, hcrypt, [], by simp [htrace], by simp⟩
  · refine ⟨hrecv, hcrypt, _, htrace, fun o ho => ?_⟩
    rcases List.mem_cons.mp ho with rfl | ho
    · exact Or.inr ⟨t, rfl⟩
    · exact Or.inl (houts o ho)

theorem resendAll_acts (l : List (Nat × ResendPacket)) (hd : (l.map Prod.fst).Nodup)
    (hl : ∀ e ∈ l, s.send.ackManager.get? e.1 = some e.2) :
    Acts C env op s (s.resendAll C env l) := by
  induction l generalizing s with
  | nil => exact .refl
  | cons e l ih =>
    obtain ⟨key, rp⟩ := e
    rw [List.map_cons, List.nodup_cons] at hd
    rw [resendAll]
    split_ifs
    · exact (Act.expire s key).acts
    · refine .head (Act.resendCommand s key rp (hl _ List.mem_cons_self)) (ih hd.2 fun e he => ?_)
      have hne : key ≠ e.1 := by
        rintro rfl
        have hm : e.1 ∈ l.map Prod.fst := List.mem_map_of_mem he
        exact hd.1 hm
      rw [resendCommand_ackManager, InsertionMap.get?_set_ne _ _ hne]
      exact hl e (List.mem_cons_of_mem _ he)

theorem checkResends_acts : Acts C env op s (s.checkResends C env) := by
  simp only [checkResends]
  split_ifs
  · exact (Act.triggerClose s _).acts
  · exact (Act.triggerClose s _).acts
  · refine .head (Act.resendInit s) (resendAll_acts _ (InsertionMap.nodup _) fun e he => ?_)
    exact InsertionMap.mem_entries.mp he

theorem pingTick_acts : Acts C env op s (s.pingTick C env) := by
  have hping : ∀ pings : InsertionMap Nat Time, Acts C env op s
      ({ s with pingsSent := pings }.sendPacket C env .ping []
        { PacketFlags.none with unencrypted := true }) := fun pings =>
    .head (.note s { s with pingsSent := pings } rfl rfl rfl rfl rfl rfl rfl)
      (sendPacket_acts _ _ _ rfl)
  simp only [pingTick]
  split_ifs
  · exact hping _
  · exact hping _
  · exact .refl

/-! ### Every event -/

/-- What follows of an event once its datagram is opened. -/
theorem step_acts_of_opened {raw : Bytes} {s₁ : PacketHandler} {p : Packet}
    (hopen : s.closed = false) (h : s.openPacket C env raw = some (s₁, p)) :
    Acts C env (some p) s₁ (s.step C (env, .datagram raw)) := by
  have hraw := handleRawPacket_acts_of_opened h
  simp only [step, hopen]
  cases hr : s.handleRawPacket C env raw with
  | mk s₂ throws =>
    rw [hr] at hraw
    cases throws with
    | true => exact hraw.trans (runCalls_acts _)
    | false => exact hraw

/-- **An event is a chain of acts.** -/
theorem step_acts (s : PacketHandler) (e : Env × Event) :
    Acts C e.1 (eventPacket C s e) s (s.step C e) := by
  obtain ⟨env, ev⟩ := e
  cases ev with
  | datagram raw =>
    simp only [step, eventPacket]
    have hraw := handleRawPacket_acts (s := s) C env raw
    split_ifs
    · exact .refl
    · split <;> rename_i s₁ h <;> rw [h] at hraw
      · exact hraw.trans (runCalls_acts _)
      · exact hraw
  | call c => exact call_acts c
  | resendTimer =>
    simp only [step]
    split_ifs
    · exact .refl
    · exact checkResends_acts
  | pingTimer =>
    simp only [step]
    split_ifs
    · exact .refl
    · exact pingTick_acts
  | socketError => exact (Act.triggerClose s _).acts
  | socketClose => exact (Act.triggerClose s _).acts

/-- **What holds of a handler just opened and every act keeps holds in every state
of every run.** -/
theorem after_preserves {P : PacketHandler → Prop}
    (h : ∀ env op s s', Act C env op s s' → P s → P s') (hopened : ∀ now, P (opened now))
    (env₀ : Env) (init1Data : Bytes) (es : List (Env × Event)) : P (after C env₀ init1Data es) := by
  have hstart : P (start C env₀ init1Data) := by
    apply h env₀ none (opened env₀.now)
    · exact Act.send _ .init1 init1Data .none true (Or.inl rfl) rfl fun _ => rfl
    · exact hopened env₀.now
  unfold after
  refine run_invariant (I := P) ?_ es hstart
  intro s e hs
  refine (step_acts s e).preserves ?_ hs
  intro s₁ s₂ hact hs₁
  exact h e.1 _ s₁ s₂ hact hs₁

end PacketHandler

end Teamspeak.Transport
