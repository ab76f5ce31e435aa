import Teamspeak.Lib.Log
import Teamspeak.Transport.Handler.Numbers

/-!
# The resend set

* `Transmission.Sealed`: a transmission that would come out again as it went out.
* `Tracking`: what the resend set holds is a command that went out, under its own
  type and id, and as it went out.  It is so in every state of every run
  (`tracking_after`).
* `Repeats`: a command sent again repeats one that went out before
  (`repeats_after`).
* `unique_numbers_faithful_resends`: no number is used twice, and a command is
  sent again as it was sent first.
* `send_window_behind_at_start`: the send window of the commands starts one short
  of their first number.
-/

namespace Teamspeak.Transport

open Log

theorem resendKey_eq {pType : PacketType} {id : Nat} (hid : id < 65536) :
    resendKey pType id = pType.toNat * 65536 + id := by
  unfold resendKey
  rw [← Nat.shiftLeft_add_eq_or_of_lt (show id < 2 ^ 16 from hid), Nat.shiftLeft_eq]

/-- Commands of one kind and one id share a key, and no others do. -/
theorem resendKey_inj {k k' : QueueKind} {id id' : Nat} (hid : id < 65536) (hid' : id' < 65536) :
    resendKey k.packetType id = resendKey k'.packetType id' ↔ k = k' ∧ id = id' := by
  rw [resendKey_eq hid, resendKey_eq hid']
  constructor
  · intro h
    cases k <;> cases k' <;> simp only [QueueKind.packetType, PacketType.toNat] at h <;>
      first | exact ⟨rfl, by omega⟩ | omega
  · rintro ⟨rfl, rfl⟩
    rfl

/-! ### Sealed packets -/

/-- Encrypting the packet again gives the same header and the same ciphertext. -/
structure Transmission.Sealed (C : Cipher) (c : Crypt) (t : Transmission) : Prop where
  header : t.header = buildC2SHeader t.packet
  key : t.dummy = true ∨ c.cryptoInitComplete = true
  ciphertext : (c.encrypt C (packetType t.packet) t.packet.id t.packet.generationID t.header
    t.packet.data t.dummy (packetFlags t.packet).unencrypted).map Prod.fst = some t.ciphertext

namespace Transmission

variable {C : Cipher} {c c' : Crypt} {t t' : Transmission}

theorem Encrypts.isSealed (h : t.Encrypts C c)
    (hkey : t.dummy = true ∨ c.cryptoInitComplete = true) : t.Sealed C c :=
  ⟨h.header, hkey, by rw [h.encrypt]; rfl⟩

/-- A packet stays sealed when the keys change before crypto init completes: until
then it has only the dummy key, which no session's values change. -/
theorem Sealed.mono (h : t.Sealed C c) (hc : c.cryptoInitComplete = true → c' = c) :
    t.Sealed C c' := by
  rcases h.key with hdummy | hcomplete
  · refine ⟨h.header, Or.inl hdummy, ?_⟩
    rw [← h.ciphertext]
    unfold Crypt.encrypt
    split_ifs
    · rfl
    · rfl
    · rw [hdummy]
      rfl
  · rw [hc hcomplete]
    exact h

theorem Sealed.eq_of_encrypts (h : t.Sealed C c) (h' : t'.Encrypts C c)
    (hpacket : t'.packet = t.packet) (hdummy : t'.dummy = t.dummy) :
    t'.header = t.header ∧ t'.ciphertext = t.ciphertext := by
  have hheader : t'.header = t.header := by rw [h'.header, h.header, hpacket]
  refine ⟨hheader, ?_⟩
  have hcipher := h.ciphertext
  rw [← hpacket, ← hdummy, ← hheader, h'.encrypt] at hcipher
  exact Option.some.inj hcipher

end Transmission

/-- A transmission repeats another: the same packet, with the same header, under the
same choice of key, with the same ciphertext. -/
structure Transmission.Repeats (t' t : Transmission) : Prop where
  packet : t'.packet = t.packet
  header : t'.header = t.header
  dummy : t'.dummy = t.dummy
  ciphertext : t'.ciphertext = t.ciphertext

/-- What the resend set keeps of a transmission. -/
structure ResendPacket.IsOf (rp : ResendPacket) (t : Transmission) : Prop where
  packet : rp.packet = t.packet
  dummy : rp.dummy = t.dummy
  firstSend : rp.firstSend = t.time

namespace PacketHandler

variable {C : Cipher} {env : Env} {op : Option Packet} {s s' : PacketHandler}

/-! ### What is tracked -/

/-- This entry of the resend set is a command that went out. -/
def HeldFor (C : Cipher) (s : PacketHandler) (key : Nat) (rp : ResendPacket) : Prop :=
  ∃ (k : QueueKind) (t : Transmission), .numbered t ∈ s.trace ∧
    packetType t.packet = k.packetType ∧ key = resendKey k.packetType t.packet.id ∧ rp.IsOf t ∧
    t.Sealed C s.crypt

/-- What waits for an acknowledgement has gone out, and the Init1 packet that waits
for an answer is one. -/
structure Tracking (C : Cipher) (s : PacketHandler) : Prop where
  held : ∀ key rp, s.send.ackManager.get? key = some rp → HeldFor C s key rp
  init : ∀ rp, s.send.initPacketCheck = some rp → packetType rp.packet = .init1

/-- The trace only grows. -/
theorem Act.trace_grows (h : Act C env op s s') : ∃ outs, s'.trace = s.trace ++ outs := by
  cases h.send_cases with
  | idle outs _ htrace => exact ⟨outs, htrace⟩
  | number t outs _ _ _ _ _ _ _ htrace => exact ⟨_, htrace⟩
  | acked k id _ _ htrace => exact ⟨_, htrace⟩
  | resent key rp rp' outs _ _ _ htrace => exact ⟨outs, htrace⟩
  | expire key outs _ _ htrace => exact ⟨outs, htrace⟩

/-- What went out stays so, whatever the keys now. -/
theorem Act.heldFor (h : Act C env op s s') {key : Nat} {rp rp' : ResendPacket}
    (hrp : HeldFor C s key rp) (hsame : ∀ t, rp.IsOf t → rp'.IsOf t) : HeldFor C s' key rp' := by
  obtain ⟨k, t, ht, htype, hkey, hisOf, hsealed⟩ := hrp
  obtain ⟨outs, htrace⟩ := h.trace_grows
  refine ⟨k, t, ?_, htype, hkey, hsame t hisOf, hsealed.mono h.crypt_of_complete⟩
  rw [htrace]
  exact List.mem_append_left _ ht

/-- Sending a packet again keeps what it is. -/
theorem isOf_again {rp rp' : ResendPacket} {t : Transmission}
    (hagain : rp' = rp ∨ rp' = again rp env.now) (h : rp.IsOf t) : rp'.IsOf t := by
  rcases hagain with rfl | rfl
  · exact h
  · exact ⟨h.packet, h.dummy, h.firstSend⟩

theorem Act.tracking (h : Act C env op s s') (hs : Tracking C s) : Tracking C s' := by
  have hkeep : ∀ key rp, s.send.ackManager.get? key = some rp → HeldFor C s' key rp := by
    intro key rp hget
    exact h.heldFor (hs.held key rp hget) fun _ hrp => hrp
  cases h.send_cases with
  | idle outs hsend htrace houts =>
    refine ⟨?_, ?_⟩
    · rw [hsend.ackManager]
      exact hkeep
    · intro rp hrp
      obtain ⟨rp₀, hrp₀, hpacket⟩ := hsend.init rp hrp
      rw [hpacket]
      exact hs.init rp₀ hrp₀
  | number t outs hid hgen htime hencrypts hkey hack hsend htrace houts =>
    refine ⟨?_, ?_⟩
    · intro key rp hget
      rw [hsend, Sender.sent_ackManager] at hget
      split_ifs at hget with hkind
      · rw [InsertionMap.get?_set] at hget
        split_ifs at hget with heq
        · obtain rfl := Option.some.inj hget
          obtain ⟨k, hk⟩ := Option.isSome_iff_exists.mp hkind
          have htype := PacketType.queueKind?_eq_some.mp hk
          refine ⟨k, t, ?_, htype, ?_, ⟨rfl, rfl, rfl⟩, ?_⟩
          · rw [htrace]
            exact List.mem_append_right _ List.mem_cons_self
          · rw [← heq, htype]
          · exact (hencrypts.isSealed (hkey hkind)).mono h.crypt_of_complete
        · exact hkeep key rp hget
      · exact hkeep key rp hget
    · intro rp hrp
      rw [hsend, Sender.sent_initPacketCheck] at hrp
      split_ifs at hrp with hinit
      · obtain rfl := Option.some.inj hrp
        exact hinit
      · exact hs.init rp hrp
  | acked k id hid hsend htrace =>
    refine ⟨?_, ?_⟩
    · intro key rp hget
      rw [hsend, InsertionMap.get?_delete] at hget
      split_ifs at hget
      exact hkeep key rp hget
    · rw [hsend]
      exact hs.init
  | resent key rp rp' outs hget hagain hsend htrace houts =>
    refine ⟨?_, ?_⟩
    · intro key' rp₁ hget'
      rw [hsend, InsertionMap.get?_set] at hget'
      split_ifs at hget' with heq
      · obtain rfl := Option.some.inj hget'
        subst heq
        exact h.heldFor (hs.held key rp hget) fun t hrp => isOf_again hagain hrp
      · exact hkeep key' rp₁ hget'
    · rw [hsend]
      exact hs.init
  | expire key outs hclosed hsend htrace houts =>
    refine ⟨?_, ?_⟩
    · intro key' rp hget
      rw [hsend, InsertionMap.get?_delete] at hget
      split_ifs at hget
      exact hkeep key' rp hget
    · rw [hsend]
      exact hs.init

theorem tracking_opened (C : Cipher) (now : Time) : Tracking C (opened now) := by
  refine ⟨?_, ?_⟩
  · intro key rp hget
    exact absurd hget (by simp [opened, Sender.new])
  · intro rp hrp
    exact absurd hrp (by simp [opened, Sender.new])

/-- **In every state of every run what is tracked has gone out.** -/
theorem tracking_after (C : Cipher) (env₀ : Env) (init1Data : Bytes) (es : List (Env × Event)) :
    Tracking C (after C env₀ init1Data es) := by
  refine after_preserves ?_ (tracking_opened C) env₀ init1Data es
  intro env op s s' h hs
  exact h.tracking hs

/-! ### Resends -/

/-- A command sent again repeats one that went out before. -/
def Repeats (pre : List Output) (o : Output) : Prop :=
  ∀ t' k, o = .resent t' → packetType t'.packet = QueueKind.packetType k →
    ∃ t, .numbered t ∈ pre ∧ t'.Repeats t

theorem Repeats.mono {l : List Output} {o : Output} (h : Repeats l o) (l' : List Output) :
    Repeats (l ++ l') o := by
  intro t' k ho htype
  obtain ⟨t, ht, hrepeats⟩ := h t' k ho htype
  exact ⟨t, List.mem_append_left _ ht, hrepeats⟩

theorem repeats_of_ne {l : List Output} {o : Output} (h : ∀ t, o ≠ .resent t) : Repeats l o := by
  intro t k ho
  exact absurd ho (h t)

theorem Act.repeats (h : Act C env op s s') (ht : Tracking C s) (hs : Founded Repeats s.trace) :
    Founded Repeats s'.trace := by
  have hmono : ∀ (l l' : List Output) o, Repeats l o → Repeats (l ++ l') o := by
    intro l l' o hl
    exact hl.mono l'
  cases h.send_cases with
  | idle outs hsend htrace houts =>
    rw [htrace]
    refine hs.append hmono ?_
    intro o ho t' k heq htype
    -- What is sent again here is an Init1 packet.
    obtain ⟨t, rp, heq', hrp, hpacket⟩ := houts o ho (by rw [heq]; rfl)
    obtain rfl := Output.resent.inj (heq.symm.trans heq')
    rw [hpacket, ht.init rp hrp] at htype
    cases k <;> exact absurd htype (by decide)
  | number t outs _ _ _ _ _ _ _ htrace houts =>
    rw [htrace]
    refine hs.append hmono ?_
    intro o ho
    apply repeats_of_ne
    rintro t' rfl
    rcases List.mem_cons.mp ho with heq | ho
    · exact absurd heq (by simp)
    · exact absurd (houts _ ho) (by simp [Output.isWire])
  | acked k id _ _ htrace =>
    rw [htrace]
    refine hs.append hmono ?_
    intro o ho
    apply repeats_of_ne
    rintro t' rfl
    exact absurd (List.mem_singleton.mp ho) (by simp)
  | resent key rp rp' outs hget hagain hsend htrace houts =>
    rw [htrace]
    refine hs.append hmono ?_
    intro o ho t' k heq htype
    rcases houts o ho with hwire | ⟨t₁, heq', hpacket, hdummy, hencrypts⟩
    · rw [heq] at hwire
      exact absurd hwire (by simp [Output.isWire])
    · obtain rfl := Output.resent.inj (heq.symm.trans heq')
      obtain ⟨-, t, hmem, -, -, hisOf, hsealed⟩ := ht.held key rp hget
      have hpacket' : t'.packet = t.packet := hpacket.trans hisOf.packet
      have hdummy' : t'.dummy = t.dummy := hdummy.trans hisOf.dummy
      obtain ⟨hheader, hciphertext⟩ := hsealed.eq_of_encrypts hencrypts hpacket' hdummy'
      exact ⟨t, hmem, hpacket', hheader, hdummy', hciphertext⟩
  | expire key outs _ _ htrace houts =>
    rw [htrace]
    refine hs.append hmono ?_
    intro o ho
    apply repeats_of_ne
    rintro t' rfl
    exact absurd (houts _ ho) (by simp [Output.isBook])

theorem repeats_after (C : Cipher) (env₀ : Env) (init1Data : Bytes) (es : List (Env × Event)) :
    Founded Repeats (after C env₀ init1Data es).trace := by
  have hboth := after_preserves (C := C)
    (P := fun s => Tracking C s ∧ Founded Repeats s.trace) ?_ ?_ env₀ init1Data es
  · exact hboth.2
  · intro env op s s' h hs
    exact ⟨h.tracking hs.1, h.repeats hs.1 hs.2⟩
  · intro now
    exact ⟨tracking_opened C now, Founded.nil⟩

/-! ### In every run -/

/-- **Numbers are used once, and resends are faithful.**  In every state of every
run, as long as a type's generation has not wrapped, no two packets of the type
(Init1 aside) share generation and id, and they are numbered one by one from the
type's first number; the send window of a command type stands at the number of
its next packet, from its first packet on; and every command sent again repeats
one that went out before, in packet, header, choice of key and ciphertext. -/
theorem unique_numbers_faithful_resends (C : Cipher) (env₀ : Env) (init1Data : Bytes)
    (es : List (Env × Event)) :
    let s := after C env₀ init1Data es
    (∀ pType, pType ≠ .init1 →
      firstPlace pType + (s.packetsOf pType).length ≤ placeCount →
        ((s.packetsOf pType).map fun p => (p.generationID, p.id)).Nodup ∧
          (s.packetsOf pType).map place =
            List.range' (firstPlace pType) (s.packetsOf pType).length ∧
          s.send.nextPlace pType =
            (firstPlace pType + (s.packetsOf pType).length) % placeCount) ∧
      (∀ k : QueueKind,
        firstPlace k.packetType + (s.packetsOf k.packetType).length < placeCount →
          0 < (s.packetsOf k.packetType).length ∨ k = .commandLow →
            (s.send.sendWindow k).position = s.send.nextPlace k.packetType) ∧
      ∀ pre t' post (k : QueueKind), s.trace = pre ++ .resent t' :: post →
        packetType t'.packet = k.packetType → ∃ t, .numbered t ∈ pre ∧ t'.Repeats t := by
  intro s
  refine ⟨?_, ?_, ?_⟩
  · intro pType hinit hfit
    have h := numbered_after C env₀ init1Data es hinit
    exact ⟨h.nodup hfit, h.consecutive hfit, h.next⟩
  · intro k hfit hsent
    have hinit : k.packetType ≠ .init1 := by cases k <;> decide
    have hnext := (numbered_after C env₀ init1Data es hinit).next
    rw [Nat.mod_eq_of_lt hfit] at hnext
    have hwindow : (s.send.sendWindow k).position =
        if (s.packetsOf k.packetType).length = 0 then 0
        else firstPlace k.packetType + (s.packetsOf k.packetType).length :=
      windowFollows_after C env₀ init1Data es k hfit
    rw [hwindow, hnext]
    split_ifs with hzero
    · rcases hsent with hpos | rfl
      · omega
      · rw [hzero]
        rfl
    · rfl
  · intro pre t' post k htrace htype
    exact repeats_after C env₀ init1Data es pre _ post htrace t' k rfl htype

/-- Before its first packet the send window of the commands is at 0, while that
packet will have the number 1; and an Init1 packet does not use its number up. -/
theorem send_window_behind_at_start :
    let s := after clearCipher { now := 0 } [] []
    (s.send.sendWindow .command).position ≠ s.send.nextPlace .command ∧
      (s.packetsOf .init1).length = 1 ∧
      s.send.nextPlace .init1 = (opened 0).send.nextPlace .init1 := by
  decide

/-- A command of two packets, voice, and the resend check when they are due. -/
def sentAndResent : List (Env × Event) :=
  [({ now := 1 }, .call (.sendPacket .command (List.replicate 488 1) {})),
    ({ now := 2 }, .call (.sendVoicePacket [1] 4)), ({ now := 600 }, .resendTimer)]

/-- The two packets are numbered 1 and 2, the window stands at 3, and what was sent
again repeats them. -/
theorem unique_numbers_faithful_resends_split :
    let s := after clearCipher { now := 0 } [] sentAndResent
    (s.packetsOf .command).map place = [1, 2] ∧ (s.send.sendWindow .command).position = 3 ∧
      ∀ pre t' post, s.trace = pre ++ .resent t' :: post → packetType t'.packet = .command →
        ∃ t, .numbered t ∈ pre ∧ t'.Repeats t := by
  have hall := unique_numbers_faithful_resends clearCipher { now := 0 } [] sentAndResent
  have hlength : ((after clearCipher { now := 0 } [] sentAndResent).packetsOf .command).length = 2 :=
    by decide +kernel
  have hnext : (after clearCipher { now := 0 } [] sentAndResent).send.nextPlace .command = 3 := by
    decide +kernel
  revert hall hlength hnext
  generalize after clearCipher { now := 0 } [] sentAndResent = s
  rintro ⟨hnumbers, hwindow, hresent⟩ hlength hnext
  have hfit : firstPlace .command + (s.packetsOf .command).length < placeCount := by
    rw [hlength]
    norm_num [firstPlace, placeCount]
  obtain ⟨-, hplaces, -⟩ := hnumbers .command (by decide) hfit.le
  refine ⟨?_, ?_, ?_⟩
  · rw [hplaces, hlength]
    rfl
  · rw [← hnext]
    apply hwindow .command hfit
    exact Or.inl (Nat.lt_of_lt_of_eq (by decide) hlength.symm)
  · intro pre t' post htrace htype
    exact hresent pre t' post .command htrace htype

end PacketHandler

end Teamspeak.Transport
