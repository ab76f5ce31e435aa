import Teamspeak.Transport.Handler.Act

/-!
# What an act does on the sending side

* `Act.send_cases`: an act gives one packet its number and sends it, forgets an
  acknowledged command, sends a tracked command again, gives up on one and
  closes, or leaves the numbers and the resend set alone.
* `Act.crypt_of_complete`: once crypto init has completed, the keys stay.
-/

namespace Teamspeak.Transport

/-- An output about the packets sent or their acknowledgements. -/
def Output.isBook : Output → Bool
  | .numbered _ | .resent _ | .ackReceived _ _ => true
  | _ => false

theorem Output.isBook_of_isWire {o : Output} (h : o.isWire = true) : o.isBook = false := by
  cases o <;> simp_all [isWire, isBook]

/-- The packet of this type that an output gives its number. -/
def Output.numberedAs (pType : PacketType) : Output → Option Packet
  | .numbered t => if packetType t.packet = pType then some t.packet else none
  | _ => none

theorem Output.numberedAs_of_isWire {o : Output} (h : o.isWire = true) (pType : PacketType) :
    o.numberedAs pType = none := by
  cases o <;> simp_all [isWire, numberedAs]

/-- The packets of a type that have been given their numbers, in order. -/
def PacketHandler.packetsOf (s : PacketHandler) (pType : PacketType) : List Packet :=
  s.trace.filterMap (Output.numberedAs pType)

namespace Sender

/-- The numbers and the resend set are the same, and the Init1 packet to be
resent is the same or none. -/
structure Same (s s' : Sender) : Prop where
  packetCounter : s'.packetCounter = s.packetCounter
  generationCounter : s'.generationCounter = s.generationCounter
  sendWindow : s'.sendWindow = s.sendWindow
  ackManager : s'.ackManager = s.ackManager
  init : ∀ rp, s'.initPacketCheck = some rp →
    ∃ rp₀, s.initPacketCheck = some rp₀ ∧ rp.packet = rp₀.packet

theorem Same.of_eq {s s' : Sender} (h : s' = s) : s.Same s' := by
  subst h
  exact ⟨rfl, rfl, rfl, rfl, fun rp hrp => ⟨rp, hrp, rfl⟩⟩

variable {s : Sender} {pType : PacketType} {t : Transmission}

theorem sent_packetCounter (s : Sender) (pType : PacketType) (t : Transmission) :
    (s.sent pType t).packetCounter = (s.nextPacketIdentity pType).packetCounter := by
  simp only [sent, trackResend, noteDummy]
  split
  · split_ifs <;> rfl
  · split_ifs <;> rfl

theorem sent_generationCounter (s : Sender) (pType : PacketType) (t : Transmission) :
    (s.sent pType t).generationCounter = (s.nextPacketIdentity pType).generationCounter := by
  simp only [sent, trackResend, noteDummy]
  split
  · split_ifs <;> rfl
  · split_ifs <;> rfl

theorem sent_sendWindow (s : Sender) (pType : PacketType) (t : Transmission) :
    (s.sent pType t).sendWindow = (s.nextPacketIdentity pType).sendWindow := by
  simp only [sent, trackResend, noteDummy]
  split
  · split_ifs <;> rfl
  · split_ifs <;> rfl

theorem nextPacketIdentity_ackManager (s : Sender) (pType : PacketType) :
    (s.nextPacketIdentity pType).ackManager = s.ackManager ∧
      (s.nextPacketIdentity pType).initPacketCheck = s.initPacketCheck := by
  rw [nextPacketIdentity]
  split_ifs
  · exact ⟨rfl, rfl⟩
  · rw [followNumber]
    split <;> exact ⟨rfl, rfl⟩

/-- A command is tracked under its type and id. -/
theorem sent_ackManager (s : Sender) (pType : PacketType) (t : Transmission) :
    (s.sent pType t).ackManager =
      if pType.queueKind?.isSome then s.ackManager.set (resendKey pType t.packet.id) t.tracked
      else s.ackManager := by
  have h := (nextPacketIdentity_ackManager s pType).1
  simp only [sent, trackResend, noteDummy]
  split
  · rename_i k hk
    rw [hk]
    split_ifs <;> simp [h, Transmission.tracked] at *
  · rename_i hk
    rw [hk]
    split_ifs <;> simp [h] at *

theorem sent_initPacketCheck (s : Sender) (pType : PacketType) (t : Transmission) :
    (s.sent pType t).initPacketCheck =
      if pType = .init1 then some t.tracked else s.initPacketCheck := by
  have h := (nextPacketIdentity_ackManager s pType).2
  simp only [sent, trackResend, noteDummy]
  split
  · rename_i k hk
    have hne : pType ≠ .init1 := by rintro rfl; exact absurd hk (by simp [PacketType.queueKind?])
    rw [if_neg hne]
    split_ifs <;> exact h
  · split_ifs <;> first | rfl | exact h

/-- A voice packet only uses up a number. -/
theorem sent_voice (hvoice : pType = .voice ∨ pType = .voiceWhisper) :
    s.sent pType t = s.useNumber pType := by
  rcases hvoice with rfl | rfl <;>
    simp [sent, nextPacketIdentity, followNumber, noteDummy, trackResend, PacketType.queueKind?]

end Sender

namespace PacketHandler

variable {C : Cipher} {env : Env} {op : Option Packet} {s s' : PacketHandler}

/-- The acknowledgement is of the packet the event brought, which was taken out
before or is held now. -/
def AckOf (env : Env) (op : Option Packet) (s s' : PacketHandler) (t : Transmission)
    (k : QueueKind) : Prop :=
  ∃ p, op = some p ∧ Fresh env s k p ∧ t.packet.data = uint16BE p.id ∧
    (((s.recv.queues k).win.isOldPacket p.id = true ∧ s'.recv = s.recv) ∨
      ((s.recv.queues k).win.isInWindow p.id = true ∧ s'.recv = s.recv.hold k p))

/-- **What an act does on the sending side.** -/
inductive SendChange (C : Cipher) (env : Env) (op : Option Packet) (s s' : PacketHandler) : Prop
  | idle (outs : List Output) (hsend : s.send.Same s'.send) (htrace : s'.trace = s.trace ++ outs)
      (houts : ∀ o ∈ outs, o.isBook = true → ∃ t rp, o = .resent t ∧
        s.send.initPacketCheck = some rp ∧ t.packet = rp.packet)
  | number (t : Transmission) (outs : List Output)
      (hid : t.packet.id = s.send.packetCounter (packetType t.packet))
      (hgen : t.packet.generationID = s.send.generationCounter (packetType t.packet))
      (htime : t.time = env.now) (hencrypts : t.Encrypts C s.crypt)
      (hkey : (packetType t.packet).queueKind?.isSome = true →
        t.dummy = true ∨ s.crypt.cryptoInitComplete = true)
      (hack : ∀ k, packetType t.packet = k.ackType → AckOf env op s s' t k)
      (hsend : s'.send = s.send.sent (packetType t.packet) t)
      (htrace : s'.trace = s.trace ++ .numbered t :: outs) (houts : ∀ o ∈ outs, o.isWire = true)
  | acked (k : QueueKind) (id : Nat) (hid : id < 65536)
      (hsend : s'.send =
        { s.send with ackManager := s.send.ackManager.delete (resendKey k.packetType id) })
      (htrace : s'.trace = s.trace ++ [.ackReceived k id])
  | resent (key : Nat) (rp rp' : ResendPacket) (outs : List Output)
      (hget : s.send.ackManager.get? key = some rp) (hagain : rp' = rp ∨ rp' = again rp env.now)
      (hsend : s'.send = { s.send with
        ackManager := s.send.ackManager.set key rp', resends := s'.send.resends })
      (htrace : s'.trace = s.trace ++ outs)
      (houts : ∀ o ∈ outs, o.isWire = true ∨
        ∃ t, o = .resent t ∧ t.packet = rp.packet ∧ t.dummy = rp.dummy ∧ t.Encrypts C s.crypt)
  | expire (key : Nat) (outs : List Output) (hclosed : s'.closed = true)
      (hsend : s'.send = { s.send with ackManager := s.send.ackManager.delete key })
      (htrace : s'.trace = s.trace ++ outs) (houts : ∀ o ∈ outs, o.isBook = false)

theorem SendChange.of_quiet (outs : List Output) (hsend : s'.send = s.send)
    (htrace : s'.trace = s.trace ++ outs) (houts : ∀ o ∈ outs, o.isBook = false) :
    SendChange C env op s s' :=
  .idle outs (.of_eq hsend) htrace fun o ho hbook => by
    rw [houts o ho] at hbook
    exact absurd hbook (by simp)

theorem SendChange.of_silent (hsend : s'.send = s.send) (htrace : s'.trace = s.trace) :
    SendChange C env op s s' := .of_quiet [] hsend (by simp [htrace]) (by simp)

/-- A packet sent through `sendPacketRaw`. -/
theorem SendChange.of_sendPacketRaw (pType : PacketType) (data : Bytes) (flags : PacketFlags)
    {dummy : Bool} (hkey : dummy = true ∨ s.crypt.cryptoInitComplete = true)
    (hsend : s'.send = (s.sendPacketRaw C env pType data flags dummy).send)
    (htrace : s'.trace = (s.sendPacketRaw C env pType data flags dummy).trace)
    (hack : ∀ k t, pType = k.ackType → t.packet.data = data → AckOf env op s s' t k) :
    SendChange C env op s s' := by
  obtain ⟨t, outs, hpacket, hdummy, htime, hencrypts, hs, htr, houts⟩ :=
    sendPacketRaw_spec (s := s) C env pType data flags hkey
  have htype : packetType t.packet = pType := by rw [hpacket]; rfl
  refine .number t outs ?_ ?_ htime hencrypts (fun _ => hdummy ▸ hkey) (fun k hk => ?_) ?_
    (htrace.trans htr) houts
  · rw [htype, hpacket]; rfl
  · rw [htype, hpacket]; rfl
  · exact hack k t (htype ▸ hk) (by rw [hpacket]; rfl)
  · rw [hsend, hs, htype]

theorem Act.send_cases (h : Act C env op s s') : SendChange C env op s s' := by
  cases h with
  | close => exact .of_silent (by simp) (by simp)
  | triggerClose reason =>
    obtain ⟨outs, htrace, houts⟩ := triggerClose_trace (s := s) reason
    exact .of_quiet outs (by simp) htrace fun o ho => by rw [houts o ho]; rfl
  | send pType data flags dummy hkey hack =>
    refine .of_sendPacketRaw pType data flags hkey rfl rfl fun k t hk _ => ?_
    rw [hk] at hack
    cases k <;> exact absurd hack (by decide)
  | voice pType flags payload hvoice =>
    obtain ⟨t, outs, hpacket, htime, hencrypts, hsend, htrace, houts⟩ :=
      sendNumbered_spec (s := s) C env hvoice flags payload
    have htype : packetType t.packet = pType := by rw [hpacket]; rfl
    refine .number t outs ?_ ?_ htime hencrypts (fun hk => ?_) (fun k hk => ?_) ?_ htrace houts
    · rw [htype, hpacket]; rfl
    · rw [htype, hpacket]; rfl
    · rw [htype] at hk
      rcases hvoice with rfl | rfl <;> exact absurd hk (by decide)
    · rw [htype] at hk
      rcases hvoice with rfl | rfl <;> cases k <;> exact absurd hk (by decide)
    · rw [hsend, htype, Sender.sent_voice hvoice]
  | setClientID id =>
    exact .idle [] ⟨rfl, rfl, rfl, rfl, fun rp hrp => ⟨rp, hrp, rfl⟩⟩ (by simp) (by simp)
  | receivedFinalInitAck =>
    exact .idle [] ⟨rfl, rfl, rfl, rfl, fun rp hrp => absurd hrp (by simp)⟩ (by simp) (by simp)
  | setSharedSecret alpha beta sharedKey =>
    simp only [PacketHandler.setSharedSecret]
    split_ifs
    · exact .of_silent rfl rfl
    · split
      · exact .of_silent rfl rfl
      · exact .of_quiet [.cryptoInit s.heldPackets] rfl rfl (by simp [Output.isBook])
  | note _ hcrypt hqueues hbytes hsend hconn hclosed htrace => exact .of_silent hsend htrace
  | dummyAcked id =>
    exact .idle [] ⟨rfl, rfl, rfl, rfl, fun rp hrp => ⟨rp, hrp, rfl⟩⟩ (by simp) (by simp)
  | reack k p hop hfresh hin hold =>
    refine .of_sendPacketRaw k.ackType (uint16BE p.id) .none
      (by rw [hfresh.dummyUsed]; cases s.crypt.cryptoInitComplete <;> simp) rfl rfl
      fun k' t hk hdata => ⟨p, hop, ?_⟩
    obtain rfl : k = k' := by cases k <;> cases k' <;> first | rfl | exact absurd hk (by decide)
    exact ⟨hfresh, hdata, Or.inl ⟨hold, by simp [sendAck]⟩⟩
  | accept k p hop hfresh hin hroom =>
    refine .of_sendPacketRaw k.ackType (uint16BE p.id) .none
      (by rw [hfresh.dummyUsed]; cases s.crypt.cryptoInitComplete <;> simp) rfl rfl
      fun k' t hk hdata => ⟨p, hop, ?_⟩
    obtain rfl : k = k' := by cases k <;> cases k' <;> first | rfl | exact absurd hk (by decide)
    exact ⟨hfresh, hdata, Or.inr ⟨hin, rfl⟩⟩
  | take k packet recv newNext reassembled hget hre =>
    cases hpacket : reassembled.bind tryDecompress with
    | none => exact .of_silent (by simp [taken, handOn, hpacket]) (by simp [taken, handOn, hpacket])
    | some p =>
      exact .of_quiet [.delivered p s.crypt.cryptoInitComplete]
        (by simp [taken, handOn, hpacket]) (by simp [taken, handOn, hpacket]) (by simp [Output.isBook])
  | deliver p hop hkind =>
    exact .of_quiet [.delivered p s.crypt.cryptoInitComplete] rfl rfl
      (by simp [Output.isBook])
  | updatePostReceiveState p hop =>
    simp only [PacketHandler.updatePostReceiveState]
    split
    · split_ifs
      · exact .acked _ _ (readUint16BE_lt _) rfl rfl
      · exact .of_silent rfl rfl
    · exact .of_silent rfl rfl
  | resendInit =>
    cases hinit : s.send.initPacketCheck with
    | none =>
      exact .of_silent (by simp [PacketHandler.resendInit, hinit])
        (by simp [PacketHandler.resendInit, hinit])
    | some rp =>
      rcases doResend_cases (s := s) C env rp with
        ⟨-, h⟩ | ⟨-, hagain, hsend, -, -, ⟨-, htrace⟩ | ⟨t, outs, hpacket, -, -, htrace, houts⟩⟩
      · refine .idle [] ⟨?_, ?_, ?_, ?_, fun rp' hrp' => ⟨rp, hinit, ?_⟩⟩ ?_ (by simp) <;>
          simp_all [PacketHandler.resendInit]
      · refine .idle [] ⟨?_, ?_, ?_, ?_, fun rp' hrp' => ⟨rp, hinit, ?_⟩⟩ ?_ (by simp) <;>
          simp_all [PacketHandler.resendInit, again]
        rw [← hrp']
      · refine .idle (.resent t :: outs) ⟨?_, ?_, ?_, ?_, fun rp' hrp' => ⟨rp, hinit, ?_⟩⟩ ?_
          fun o ho hbook => ?_
        · simp [PacketHandler.resendInit, hinit, hsend]
        · simp [PacketHandler.resendInit, hinit, hsend]
        · simp [PacketHandler.resendInit, hinit, hsend]
        · simp [PacketHandler.resendInit, hinit, hsend]
        · simp only [PacketHandler.resendInit, hinit, hagain, Option.some.injEq] at hrp'
          rw [← hrp']
          rfl
        · simpa [PacketHandler.resendInit, hinit] using htrace
        · rcases List.mem_cons.mp ho with rfl | ho
          · exact ⟨t, rp, rfl, hinit, hpacket⟩
          · rw [Output.isBook_of_isWire (houts o ho)] at hbook
            exact absurd hbook (by simp)
  | resendCommand key rp hget =>
    rcases doResend_cases (s := s) C env rp with
      ⟨-, h⟩ | ⟨-, hagain, hsend, -, -, ⟨-, htrace⟩ | ⟨t, outs, hpacket, hdummy, henc, htrace, houts⟩⟩
    · exact .resent key rp rp [] hget (Or.inl rfl) (by simp [PacketHandler.resendCommand, h])
        (by simp [PacketHandler.resendCommand, h]) (by simp)
    · exact .resent key rp _ [] hget (Or.inr rfl)
        (by simp [PacketHandler.resendCommand, hsend, hagain])
        (by simp [PacketHandler.resendCommand, htrace]) (by simp)
    · refine .resent key rp _ (.resent t :: outs) hget (Or.inr rfl)
        (by simp [PacketHandler.resendCommand, hsend, hagain])
        (by simp [PacketHandler.resendCommand, htrace]) fun o ho => ?_
      rcases List.mem_cons.mp ho with rfl | ho
      · exact Or.inr ⟨t, rfl, hpacket, hdummy, henc⟩
      · exact Or.inl (houts o ho)
  | expire key =>
    obtain ⟨outs, htrace, houts⟩ := triggerClose_trace .connectionTimeout
      (s := { s with send := { s.send with ackManager := s.send.ackManager.delete key } })
    exact .expire key outs (by simp [PacketHandler.expire]) (by simp [PacketHandler.expire]) htrace
      fun o ho => by rw [houts o ho]; rfl

/-- Once crypto init has completed, the keys stay. -/
theorem Act.crypt_of_complete (h : Act C env op s s') (hc : s.crypt.cryptoInitComplete = true) :
    s'.crypt = s.crypt := by
  cases h with
  | setSharedSecret alpha beta sharedKey => rw [PacketHandler.setSharedSecret, if_pos hc]
  | note _ hcrypt => exact hcrypt
  | take k packet recv newNext reassembled hget hre =>
    cases hpacket : reassembled.bind tryDecompress <;> simp [taken, handOn, hpacket]
  | updatePostReceiveState p hop =>
    simp only [PacketHandler.updatePostReceiveState]
    split
    · split_ifs <;> rfl
    · rfl
  | resendInit =>
    simp only [PacketHandler.resendInit]
    split
    · rfl
    · exact (doResend_frame C env _).2.1
  | resendCommand key rp hget => exact (doResend_frame C env rp).2.1
  | expire key => simp [PacketHandler.expire]
  | _ => simp [sendAck]

end PacketHandler

end Teamspeak.Transport
