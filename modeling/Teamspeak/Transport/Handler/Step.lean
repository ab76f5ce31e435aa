import Teamspeak.Lib.Run
import Teamspeak.Transport.Handler.Receive

/-!
# The handler as a system

The timers of `handler.ts` and the events that reach a handler: datagrams, the
owner's calls, the resend timer, the ping timer, and what the socket reports.
`step` is what one event does, and a run of the handler is `run (step C)` from
`start`.

A closed handler ignores datagrams and has no timers.  The owner's reaction to
`onClosed` is a call on a closed handler, and comes as an event of its own.
-/

namespace Teamspeak.Transport

/-- Whether a command packet is missing at the head of a queue while a later one
has waited for `commandHoleTimeoutMs`. -/
def ReceiveQueue.hasStalledHole (q : ReceiveQueue) (now : Time) : Bool :=
  if q.queue.has q.nextID then false
  else
    q.queue.entries.any fun (id, pkg) =>
      let diff := (id + 65536 - q.nextID) % 65536
      diff < 0x8000 ∧ now - pkg.receivedAt > commandHoleTimeoutMs

namespace PacketHandler

variable (C : Cipher) (env : Env)

/-! ### Resending -/

/-- Whether a tracked packet is due to be sent again. -/
def isDue (rp : ResendPacket) (now : Time) : Bool := ¬ now - rp.lastSend < rp.nextInterval

/-- A tracked packet after it was sent again: the wait doubles, up to a limit. -/
def again (rp : ResendPacket) (now : Time) : ResendPacket :=
  { rp with
    lastSend := now
    retryCount := rp.retryCount + 1
    nextInterval := min (rp.nextInterval * 2) maxRetryIntervalMs }

/-- Send a tracked packet again, if it is due: the state, and the packet as it is
tracked from then on. -/
def doResend (s : PacketHandler) (rp : ResendPacket) : PacketHandler × ResendPacket :=
  if isDue rp env.now then
    let rp := again rp env.now
    let s := { s with send := { s.send with resends := s.send.resends + 1 } }
    let header := buildC2SHeader rp.packet
    match s.crypt.encrypt C (packetType rp.packet) rp.packet.id rp.packet.generationID header
        rp.packet.data rp.dummy (packetFlags rp.packet).unencrypted with
    | none => (s, rp)
    | some (ciphertext, tag) =>
      let t : Transmission :=
        { packet := rp.packet, dummy := rp.dummy, header, ciphertext, tag, time := env.now }
      ((s.log (.resent t)).write env t.datagram, rp)
  else (s, rp)

/-- `#doResend` on the last Init1 packet, if it is still pending. -/
def resendInit (s : PacketHandler) : PacketHandler :=
  match s.send.initPacketCheck with
  | none => s
  | some rp =>
    let (s, rp) := s.doResend C env rp
    { s with send := { s.send with initPacketCheck := some rp } }

/-- `#doResend` on a command packet of the resend set. -/
def resendCommand (s : PacketHandler) (key : Nat) (rp : ResendPacket) : PacketHandler :=
  let (s, rp) := s.doResend C env rp
  { s with send := { s.send with ackManager := s.send.ackManager.set key rp } }

/-- Give up on a command packet that was never acknowledged. -/
def expire (s : PacketHandler) (key : Nat) : PacketHandler :=
  { s with send := { s.send with ackManager := s.send.ackManager.delete key } }.triggerClose
    .connectionTimeout

/-- The loop over the resend set, which ends at the first packet that has waited
too long. -/
def resendAll : List (Nat × ResendPacket) → PacketHandler → PacketHandler
  | [], s => s
  | (key, rp) :: rest, s =>
    if env.now - rp.firstSend > packetTimeoutMs then s.expire key
    else resendAll rest (s.resendCommand C env key rp)

def checkResends (s : PacketHandler) : PacketHandler :=
  if env.now - s.lastMessageReceived > packetTimeoutMs then s.triggerClose .connectionTimeout
  else if (s.recv.queues .command).hasStalledHole env.now ∨
      (s.recv.queues .commandLow).hasStalledHole env.now then s.triggerClose .connectionStalled
  else
    let s := s.resendInit C env
    s.resendAll C env s.send.ackManager.entries

/-! ### The ping timer -/

def pingTick (s : PacketHandler) : PacketHandler :=
  if s.crypt.cryptoInitComplete then
    let pingsSent := s.pingsSent.set (s.send.packetCounter .ping) env.now
    let pingsSent :=
      if pingsSent.size > 16 then
        match pingsSent.entries with
        | [] => pingsSent
        | (oldest, _) :: _ => pingsSent.delete oldest
      else pingsSent
    { s with pingsSent }.sendPacket C env .ping [] { PacketFlags.none with unencrypted := true }
  else s

end PacketHandler

/-! ### Events -/

inductive Event
  | datagram (raw : Bytes)
  | call (c : Call)
  | resendTimer
  | pingTimer
  | socketError
  | socketClose

namespace PacketHandler

variable (C : Cipher)

/-- What an event does, with the clock, the owner and the socket it meets. -/
def step (s : PacketHandler) (e : Env × Event) : PacketHandler :=
  match e.2 with
  | .datagram raw =>
    if s.closed then s
    else
      match s.handleRawPacket C e.1 raw with
      | (s, true) => s.runCalls C e.1 e.1.onReceiveError
      | (s, false) => s
  | .call c => s.call C e.1 c
  | .resendTimer => if s.closed then s else s.checkResends C e.1
  | .pingTimer => if s.closed then s else s.pingTick C e.1
  | .socketError => s.triggerClose .socketError
  | .socketClose => s.triggerClose .socketClosed

/-- A handler that has been given a socket, before it sends anything. -/
def opened (now : Time) : PacketHandler where
  crypt := {}
  recv := .new
  send :=
    { Sender.new with
      packetCounter := Function.update (Function.update (fun _ => 0) .command 1) .init1 101 }
  hasConn := true
  closed := false
  lastMessageReceived := now
  traffic := {}
  roundTrip := {}
  pingsSent := .empty
  trace := []

/-- `start`: the handshake's first packet goes out, made by `processInit1`. -/
def start (env : Env) (init1Data : Bytes) : PacketHandler :=
  (opened env.now).sendPacketRaw C env .init1 init1Data .none true

/-- The state of a handler after some events. -/
def after (env : Env) (init1Data : Bytes) (es : List (Env × Event)) : PacketHandler :=
  run (step C) (start C env init1Data) es

end PacketHandler

end Teamspeak.Transport
