import Teamspeak.Transport.Handler.Tracking

/-!
# No way back to the dummy key

Everyone knows the dummy key, so once crypto init has completed nothing may come
in under it, but for one packet: the acknowledgement of a command that went out
under it, `clientek` in practice.

* `openPacket_under_dummy`: what the exception lets in.
* `Act.dummyCommandIDs_cases`: the ids it waits for only grow by a command under
  the dummy key, so not after the switch.
* `downgrade_safety`: a forged command or an Init1 changes nothing, and each id
  is acknowledged under the dummy key at most once.
-/

namespace Teamspeak.Transport

namespace PacketHandler

variable {C : Cipher} {env : Env} {op : Option Packet} {s s' : PacketHandler}

/-! ### What comes in -/

/-- The packet that an event brings and the handler takes. -/
def accepted (C : Cipher) (s : PacketHandler) (e : Env × Event) : Option Packet :=
  if s.closed then none else eventPacket C s e

/-- A packet is an encrypted Ack of a command, and came under the dummy key. -/
structure AcksUnderDummy (p : Packet) (id : Nat) : Prop where
  dummyUsed : p.dummyUsed = true
  type : packetType p = .ack
  encrypted : (packetFlags p).unencrypted = false
  length : 2 ≤ p.data.length
  id_eq : readUint16BE p.data = id

/-- A command went out under the dummy key. -/
structure SentUnderDummy (s : PacketHandler) (t : Transmission) : Prop where
  sent : .numbered t ∈ s.trace
  dummy : t.dummy = true
  type : packetType t.packet = .command

/-- What decrypts under the dummy key after the switch: the exception's second try. -/
theorem decryptPacketData_under_dummy {p : Packet} {header ciphertext tag plaintext : Bytes}
    {s₁ : PacketHandler} (hcomplete : s.crypt.cryptoInitComplete = true)
    (h : s.decryptPacketData C p header ciphertext tag = some (s₁, plaintext, true)) :
    packetType p = .ack ∧ (packetFlags p).unencrypted = false ∧ 2 ≤ plaintext.length ∧
      readUint16BE plaintext ∈ s.send.dummyCommandIDs ∧
      s₁ = { s with send := { s.send with
        dummyCommandIDs := s.send.dummyCommandIDs.erase (readUint16BE plaintext) } } := by
  simp only [decryptPacketData, hcomplete, Bool.not_true] at h
  split_ifs at h with hun hack
  · -- The first try is under the session key.
    split at h
    · simp at h
    · split at h
      · simp at h
      · split_ifs at h with hid
        rw [Option.some.injEq, Prod.mk.injEq, Prod.mk.injEq] at h
        obtain ⟨rfl, rfl, -⟩ := h
        exact ⟨hack.2.1, hack.2.2, hid.1, hid.2, rfl⟩
  · split at h
    · simp at h
    · simp at h

/-- A packet that came under the dummy key after the switch is an Ack waited for,
and its id is waited for no more. -/
theorem openPacket_under_dummy {raw : Bytes} {s₁ : PacketHandler} {p : Packet}
    (hcomplete : s.crypt.cryptoInitComplete = true)
    (h : s.openPacket C env raw = some (s₁, p)) (hdummy : p.dummyUsed = true) :
    AcksUnderDummy p (readUint16BE p.data) ∧ readUint16BE p.data ∈ s.send.dummyCommandIDs ∧
      s₁.send.dummyCommandIDs = s.send.dummyCommandIDs.erase (readUint16BE p.data) ∧
      s₁.crypt = s.crypt := by
  simp only [openPacket] at h
  split_ifs at h
  rw [Option.map_eq_some_iff] at h
  obtain ⟨⟨s₂, plaintext, dummyUsed⟩, hd, heq⟩ := h
  rw [Prod.mk.injEq] at heq
  obtain ⟨rfl, rfl⟩ := heq
  obtain rfl : dummyUsed = true := hdummy
  obtain ⟨htype, hun, hlen, hid, rfl⟩ := decryptPacketData_under_dummy hcomplete hd
  exact ⟨⟨rfl, htype, hun, hlen, rfl⟩, hid, rfl, rfl⟩

/-- Before the switch as after it, a datagram that has no business there is dropped:
an unencrypted packet of a type that must be encrypted. -/
theorem openPacket_unencrypted {raw : Bytes}
    (hun : (parseS2CHeader (headerOf raw)).2.flags.unencrypted = true)
    (htype : unencryptedTypes (parseS2CHeader (headerOf raw)).2.type = false) :
    s.openPacket C env raw = none := by
  cases h : s.openPacket C env raw with
  | none => rfl
  | some opened =>
    obtain ⟨s₁, p⟩ := opened
    obtain ⟨hparse, -, -, -, hmust, -⟩ := openPacket_spec h
    have htf : p.typeFlagged = (parseS2CHeader (headerOf raw)).2 := congrArg Prod.snd hparse
    rw [packetFlags, packetType, htf, htype] at hmust
    exact absurd (hmust hun) (by simp)

theorem openPacket_init1 {raw : Bytes} (hcomplete : s.crypt.cryptoInitComplete = true)
    (htype : (parseS2CHeader (headerOf raw)).2.type = .init1) :
    s.openPacket C env raw = none := by
  unfold openPacket
  rw [headerOf] at htype
  simp [htype, hcomplete]

/-- A datagram that does not open changes nothing. -/
theorem step_of_openPacket_eq_none {raw : Bytes} (h : s.openPacket C env raw = none) :
    s.step C (env, .datagram raw) = s := by
  simp [step, handleRawPacket, h]

/-! ### The ids waited for -/

theorem sent_dummyCommandIDs (s : Sender) (pType : PacketType) (t : Transmission) :
    (s.sent pType t).dummyCommandIDs =
      if t.dummy = true ∧ pType = .command then insert t.packet.id s.dummyCommandIDs
      else s.dummyCommandIDs := by
  have hnumber : (s.nextPacketIdentity pType).dummyCommandIDs = s.dummyCommandIDs := by
    simp only [Sender.nextPacketIdentity, Sender.followNumber]
    split_ifs
    · rfl
    · split <;> rfl
  have htrack : ∀ (s : Sender) (rp : ResendPacket),
      (s.trackResend pType rp).dummyCommandIDs = s.dummyCommandIDs := by
    intro s rp
    simp only [Sender.trackResend]
    split
    · rfl
    · split_ifs <;> rfl
  rw [Sender.sent, htrack, Sender.noteDummy, hnumber]
  split_ifs
  · rfl
  · exact hnumber

theorem sendPacketRaw_dummyCommandIDs (pType : PacketType) (data : Bytes) (flags : PacketFlags)
    {dummy : Bool} (hkey : dummy = true ∨ s.crypt.cryptoInitComplete = true)
    (htype : pType ≠ .command) :
    (s.sendPacketRaw C env pType data flags dummy).send.dummyCommandIDs =
      s.send.dummyCommandIDs := by
  obtain ⟨t, outs, -, -, -, -, hsend, -, -⟩ := sendPacketRaw_spec C env pType data flags hkey
  rw [hsend, sent_dummyCommandIDs, if_neg]
  intro h
  exact htype h.2

theorem doResend_dummyCommandIDs (rp : ResendPacket) :
    (s.doResend C env rp).1.send.dummyCommandIDs = s.send.dummyCommandIDs := by
  rcases doResend_cases (s := s) C env rp with ⟨-, h⟩ | ⟨-, -, hsend, -⟩
  · rw [h]
  · rw [hsend]

/-- **What an act does to the ids waited for**: it adds that of a command that goes
out under the dummy key before the switch, or none. -/
theorem Act.dummyCommandIDs_cases (h : Act C env op s s') :
    s'.send.dummyCommandIDs ⊆ s.send.dummyCommandIDs ∨
      s.crypt.cryptoInitComplete = false ∧ ∃ t, SentUnderDummy s' t ∧
        s'.send.dummyCommandIDs = insert t.packet.id s.send.dummyCommandIDs := by
  cases h with
  | send pType data flags dummy hkey hack hcommand =>
    obtain ⟨t, outs, hpacket, hdummy, -, -, hsend, htrace, -⟩ :=
      sendPacketRaw_spec (s := s) C env pType data flags hkey
    rw [hsend, sent_dummyCommandIDs]
    split_ifs with hwait
    · obtain ⟨hd, rfl⟩ := hwait
      right
      have hnot : dummy = !s.crypt.cryptoInitComplete := hcommand rfl
      refine ⟨?_, t, ⟨?_, hd, ?_⟩, rfl⟩
      · rw [← hdummy, hd] at hnot
        simpa using hnot.symm
      · simp [htrace]
      · rw [hpacket]; rfl
    · exact Or.inl (Finset.Subset.refl _)
  | dummyAcked id => exact Or.inl (Finset.erase_subset id _)
  | reack k p hop hfresh hin hold =>
    left
    rw [sendAck, sendPacketRaw_dummyCommandIDs]
    · rw [hfresh.dummyUsed]; cases s.crypt.cryptoInitComplete <;> simp
    · cases k <;> decide
  | accept k p hop hfresh hin hroom =>
    left
    show (s.sendAck C env p.id k.ackType p.dummyUsed).send.dummyCommandIDs ⊆ _
    rw [sendAck, sendPacketRaw_dummyCommandIDs]
    · rw [hfresh.dummyUsed]; cases s.crypt.cryptoInitComplete <;> simp
    · cases k <;> decide
  | take k packet recv newNext reassembled hget hre =>
    left
    cases hpacket : reassembled.bind tryDecompress <;> simp [taken, handOn, hpacket]
  | voice pType flags payload hvoice =>
    left
    obtain ⟨t, outs, -, -, -, hsend, -, -⟩ := sendNumbered_spec (s := s) C env hvoice flags payload
    rw [hsend]
    exact Finset.Subset.refl _
  | setSharedSecret alpha beta sharedKey =>
    left
    simp only [PacketHandler.setSharedSecret]
    split_ifs
    · exact Finset.Subset.refl _
    · split <;> exact Finset.Subset.refl _
  | note _ _ _ _ hsend => rw [hsend]; exact Or.inl (Finset.Subset.refl _)
  | updatePostReceiveState p hop =>
    left
    simp only [PacketHandler.updatePostReceiveState]
    split
    · split_ifs <;> exact Finset.Subset.refl _
    · exact Finset.Subset.refl _
  | resendInit =>
    left
    simp only [PacketHandler.resendInit]
    split
    · exact Finset.Subset.refl _
    · exact (doResend_dummyCommandIDs _).subset
  | resendCommand key rp hget => exact Or.inl (doResend_dummyCommandIDs rp).subset
  | expire key => left; simp [PacketHandler.expire]
  | _ => left; simp

/-- Once crypto init has completed, no event adds an id to wait for. -/
theorem Acts.dummyCommandIDs_subset (h : Acts C env op s s')
    (hcomplete : s.crypt.cryptoInitComplete = true) :
    s'.crypt.cryptoInitComplete = true ∧ s'.send.dummyCommandIDs ⊆ s.send.dummyCommandIDs := by
  induction h with
  | refl => exact ⟨hcomplete, Finset.Subset.refl _⟩
  | tail _ hact ih =>
    obtain ⟨hc, hsub⟩ := ih
    rw [hact.crypt_of_complete hc]
    rcases hact.dummyCommandIDs_cases with hless | ⟨hnot, -⟩
    · exact ⟨hc, hless.trans hsub⟩
    · rw [hc] at hnot
      exact absurd hnot (by simp)

theorem run_dummyCommandIDs_subset (es : List (Env × Event))
    (hcomplete : s.crypt.cryptoInitComplete = true) :
    (run (step C) s es).crypt.cryptoInitComplete = true ∧
      (run (step C) s es).send.dummyCommandIDs ⊆ s.send.dummyCommandIDs := by
  induction es generalizing s with
  | nil => exact ⟨hcomplete, Finset.Subset.refl _⟩
  | cons e es ih =>
    obtain ⟨hc, hsub⟩ := (step_acts (C := C) s e).dummyCommandIDs_subset hcomplete
    obtain ⟨hc', hsub'⟩ := ih hc
    exact ⟨hc', hsub'.trans hsub⟩

/-- Every id waited for is that of a command that went out under the dummy key. -/
def WaitsForSent (s : PacketHandler) : Prop :=
  ∀ id ∈ s.send.dummyCommandIDs, ∃ t, SentUnderDummy s t ∧ t.packet.id = id

theorem Act.waitsForSent (h : Act C env op s s') (hs : WaitsForSent s) : WaitsForSent s' := by
  intro id hid
  obtain ⟨outs, htrace⟩ := h.trace_grows
  have hkept : ∀ t, SentUnderDummy s t → SentUnderDummy s' t := by
    intro t ht
    refine ⟨?_, ht.dummy, ht.type⟩
    rw [htrace]
    exact List.mem_append_left _ ht.sent
  rcases h.dummyCommandIDs_cases with hless | ⟨-, t, ht, hids⟩
  · obtain ⟨t, ht, hid'⟩ := hs id (hless hid)
    exact ⟨t, hkept t ht, hid'⟩
  · rw [hids] at hid
    rcases Finset.mem_insert.mp hid with rfl | hid
    · exact ⟨t, ht, rfl⟩
    · obtain ⟨t, ht, hid'⟩ := hs id hid
      exact ⟨t, hkept t ht, hid'⟩

theorem waitsForSent_after (C : Cipher) (env₀ : Env) (init1Data : Bytes)
    (es : List (Env × Event)) : WaitsForSent (after C env₀ init1Data es) := by
  apply after_preserves
  · intro env op s s' h hs
    exact h.waitsForSent hs
  · intro now id hid
    simp [opened, Sender.new] at hid

/-! ### At most once -/

/-- An id acknowledged under the dummy key after the switch is waited for no more,
whatever follows. -/
theorem not_mem_of_acked {e : Env × Event} {p : Packet} (es : List (Env × Event))
    (hcomplete : s.crypt.cryptoInitComplete = true) (haccepted : accepted C s e = some p)
    {id : Nat} (hacks : AcksUnderDummy p id) :
    id ∉ (run (step C) (s.step C e) es).send.dummyCommandIDs := by
  unfold accepted at haccepted
  split_ifs at haccepted with hclosed
  have hopen : s.closed = false := by simpa using hclosed
  obtain ⟨env, ev⟩ := e
  cases ev with
  | datagram raw =>
    obtain ⟨⟨s₁, p'⟩, hraw, rfl⟩ := Option.map_eq_some_iff.mp haccepted
    obtain ⟨-, -, herased, hcrypt⟩ := openPacket_under_dummy hcomplete hraw hacks.dummyUsed
    rw [hacks.id_eq] at herased
    have hacts := step_acts_of_opened hopen hraw
    obtain ⟨hc, hsub⟩ := hacts.dummyCommandIDs_subset (by rw [hcrypt, hcomplete])
    obtain ⟨-, hsub'⟩ := run_dummyCommandIDs_subset (C := C) es hc
    intro hid
    have hmem := hsub (hsub' hid)
    rw [herased] at hmem
    exact Finset.notMem_erase id _ hmem
  | _ => simp [eventPacket] at haccepted

/-- The owner sends no command before the call in which crypto init completes, as
`handleHandshakeExpand2` sends `clientek` and completes it. -/
def SwitchesAtOnce (C : Cipher) (env₀ : Env) (init1Data : Bytes) (es : List (Env × Event)) :
    Prop :=
  ∀ es₁, es₁ <+: es → (after C env₀ init1Data es₁).crypt.cryptoInitComplete = false →
    ∀ t, .numbered t ∈ (after C env₀ init1Data es₁).trace → packetType t.packet ≠ .command

/-- **No downgrade**: once crypto init has completed, an unencrypted command and an
Init1 change nothing, and what comes under the dummy key is an encrypted Ack of a
command that went out under it, whose id no Ack has named under it since; nor has
one before, when the owner sends its first command as it completes crypto init. -/
theorem downgrade_safety (C : Cipher) (env₀ : Env) (init1Data : Bytes) (es : List (Env × Event))
    (hcomplete : (after C env₀ init1Data es).crypt.cryptoInitComplete = true) :
    let s := after C env₀ init1Data es
    (∀ env raw, (parseS2CHeader (headerOf raw)).2.type ∈ [.command, .commandLow] →
      (parseS2CHeader (headerOf raw)).2.flags.unencrypted = true →
        s.step C (env, .datagram raw) = s) ∧
    (∀ env raw, (parseS2CHeader (headerOf raw)).2.type = .init1 →
      s.step C (env, .datagram raw) = s) ∧
    ∀ e p, accepted C s e = some p → p.dummyUsed = true →
      AcksUnderDummy p (readUint16BE p.data) ∧
      (∃ t, SentUnderDummy s t ∧ t.packet.id = readUint16BE p.data) ∧
      (∀ es₁ e₁ es₂, es = es₁ ++ e₁ :: es₂ →
        (after C env₀ init1Data es₁).crypt.cryptoInitComplete = true →
        ∀ q, accepted C (after C env₀ init1Data es₁) e₁ = some q →
          ¬ AcksUnderDummy q (readUint16BE p.data)) ∧
      (SwitchesAtOnce C env₀ init1Data es →
        ∀ es₁ e₁ es₂ t, es = es₁ ++ e₁ :: es₂ →
          SentUnderDummy (after C env₀ init1Data es₁) t →
          ∀ q, accepted C (after C env₀ init1Data es₁) e₁ = some q →
            ¬ AcksUnderDummy q (readUint16BE p.data)) := by
  intro s
  refine ⟨?_, ?_, ?_⟩
  · intro env raw htype hun
    apply step_of_openPacket_eq_none
    apply openPacket_unencrypted hun
    rcases List.mem_pair.mp htype with h | h
    · rw [h]; rfl
    · rw [h]; rfl
  · intro env raw htype
    apply step_of_openPacket_eq_none
    exact openPacket_init1 hcomplete htype
  intro e p haccepted hdummy
  have hmem : AcksUnderDummy p (readUint16BE p.data) ∧
      readUint16BE p.data ∈ s.send.dummyCommandIDs := by
    unfold accepted at haccepted
    split_ifs at haccepted
    obtain ⟨env, ev⟩ := e
    cases ev with
    | datagram raw =>
      obtain ⟨⟨s₁, p'⟩, hraw, rfl⟩ := Option.map_eq_some_iff.mp haccepted
      obtain ⟨hacks, hid, -⟩ := openPacket_under_dummy hcomplete hraw hdummy
      exact ⟨hacks, hid⟩
    | _ => simp [eventPacket] at haccepted
  have honce : ∀ es₁ e₁ es₂, es = es₁ ++ e₁ :: es₂ →
      (after C env₀ init1Data es₁).crypt.cryptoInitComplete = true →
      ∀ q, accepted C (after C env₀ init1Data es₁) e₁ = some q →
        ¬ AcksUnderDummy q (readUint16BE p.data) := by
    intro es₁ e₁ es₂ hes hc q hq hacks
    have hgone := not_mem_of_acked es₂ hc hq hacks
    apply hgone
    have hid := hmem.2
    show readUint16BE p.data ∈ (run (step C) _ (e₁ :: es₂)).send.dummyCommandIDs
    rw [after, ← run_append, ← hes]
    exact hid
  refine ⟨hmem.1, waitsForSent_after C env₀ init1Data es _ hmem.2, honce, ?_⟩
  intro hswitch es₁ e₁ es₂ t hes ht q hq hacks
  cases hc : (after C env₀ init1Data es₁).crypt.cryptoInitComplete with
  | true => exact honce es₁ e₁ es₂ hes hc q hq hacks
  | false =>
    have hprefix : es₁ <+: es := by rw [hes]; exact List.prefix_append _ _
    exact hswitch es₁ hprefix hc t ht.sent ht.type

/-! ### A session -/

/-- A cipher whose tag tells the dummy key from the session's. -/
def markedCipher : Cipher where
  eaxEncrypt _ key _ plaintext := (plaintext, uint64BE key.dummy.toNat)
  eaxDecrypt _ key _ ciphertext tag :=
    if tag = uint64BE key.dummy.toNat then some ciphertext else none
  sha1 data := data

/-- The owner answers the server's first command with its own, under the dummy key,
and completes crypto init. -/
def clientEkSent : List (Env × Event) :=
  let owner := fun _ =>
    { calls := [.sendPacket .command [1] {},
        .setSharedSecret (List.replicate 10 1) [1] (List.replicate 11 2)] }
  [({ now := 1, owner }, .datagram (clearDatagram 1 0 ⟨.command, {}⟩ [97]))]

/-- The Ack of that command under the dummy key. -/
def clientEkAck : Env × Event := ({ now := 2 }, .datagram (clearDatagram 1 0 ⟨.ack, {}⟩ [0, 1]))

/-- The Ack under the dummy key is taken, once, and a forged command is not. -/
theorem downgrade_safety_clientek :
    let s := after markedCipher { now := 0 } [] clientEkSent
    (accepted markedCipher s clientEkAck).map Packet.dummyUsed = some true ∧
    accepted markedCipher (s.step markedCipher clientEkAck) clientEkAck = none ∧
    s.step markedCipher ({ now := 3 },
      .datagram (s.crypt.fakeSignature ++ buildS2CHeader 1 ⟨.command, { unencrypted := true }⟩ ++
        [97])) = s := by
  refine ⟨by decide, by decide, ?_⟩
  apply (downgrade_safety markedCipher { now := 0 } [] clientEkSent (by decide)).1
  · decide
  · decide

end PacketHandler

end Teamspeak.Transport
