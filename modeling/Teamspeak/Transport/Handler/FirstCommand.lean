import Teamspeak.Transport.Handler.Downgrade

/-!
# The first command

The handshake's commands go out in the call that completes crypto init: in
`handleHandshakeInitIV` after that, and in `handleHandshakeExpand2` `clientek` before it and
`clientinit` after it.

* `Silent`: what neither sends a command nor touches the keys.
* `HandshakeCalls`: the calls the owner makes in a turn of the handshake.
* `switchesAtOnce`: an owner that makes such calls until crypto init has completed sends no
  command before the call that completes it.
-/

namespace Teamspeak.Transport

/-- Whether a call sends a command. -/
def Call.sendsCommand : Call → Bool
  | .sendPacket .command _ _ => true
  | _ => false

namespace PacketHandler

variable {C : Cipher} {env : Env} {s s' s'' : PacketHandler}

/-! ### What sends no command -/

structure Silent (s s' : PacketHandler) : Prop where
  crypt : s'.crypt = s.crypt
  sent : ∀ t, .numbered t ∈ s'.trace → packetType t.packet = .command → .numbered t ∈ s.trace

theorem Silent.trans (h : Silent s s') (h' : Silent s' s'') : Silent s s'' :=
  ⟨h'.crypt.trans h.crypt, fun t ht htype => h.sent t (h'.sent t ht htype) htype⟩

theorem Silent.of_append {outs : List Output} (hcrypt : s'.crypt = s.crypt)
    (htrace : s'.trace = s.trace ++ outs)
    (houts : ∀ t, .numbered t ∈ outs → packetType t.packet ≠ .command) : Silent s s' := by
  refine ⟨hcrypt, fun t ht htype => ?_⟩
  rw [htrace] at ht
  exact (List.mem_append.mp ht).resolve_right fun hnew => houts t hnew htype

theorem Silent.of_eq (hcrypt : s'.crypt = s.crypt) (htrace : s'.trace = s.trace) : Silent s s' :=
  .of_append hcrypt (htrace.trans (List.append_nil _).symm) fun _ ht => absurd ht List.not_mem_nil

theorem silent_log {o : Output} (h : ∀ t, o ≠ .numbered t) : Silent s (s.log o) :=
  .of_append rfl rfl fun t ht => absurd (List.mem_singleton.mp ht).symm (h t)

theorem silent_triggerClose (reason : CloseReason) : Silent s (s.triggerClose reason) := by
  obtain ⟨outs, htrace, houts⟩ := triggerClose_trace (s := s) reason
  refine .of_append (triggerClose_crypt reason) htrace fun t ht => ?_
  exact absurd (houts _ ht) (by simp)

theorem silent_write (d : Bytes) : Silent s (s.write env d) := by
  obtain ⟨outs, htrace, houts⟩ := write_trace (s := s) env d
  refine .of_append (write_crypt d) htrace fun t ht => ?_
  exact absurd (houts _ ht) (by simp [Output.isWire])

theorem silent_number {pType : PacketType} (h : pType ≠ .command) (send : Sender) (t : Transmission)
    (ht : packetType t.packet = pType) :
    Silent s ((({ s with send } : PacketHandler).log (.numbered t)).write env t.datagram) := by
  have hlog : Silent s (({ s with send } : PacketHandler).log (.numbered t)) :=
    .of_append rfl rfl fun t' ht' => by
      rw [Output.numbered.inj (List.mem_singleton.mp ht'), ht]
      exact h
  exact hlog.trans (silent_write _)

theorem silent_sendPacketRaw {pType : PacketType} (h : pType ≠ .command) (data : Bytes)
    (flags : PacketFlags) (dummy : Bool) :
    Silent s (s.sendPacketRaw C env pType data flags dummy) := by
  simp only [sendPacketRaw]
  split
  · exact .of_eq rfl rfl
  · exact (silent_number h (s.send.nextPacketIdentity pType) _ rfl).trans (.of_eq rfl rfl)

theorem silent_sendPacket {pType : PacketType} (h : pType ≠ .command) (data : Bytes)
    (flags : PacketFlags) : Silent s (s.sendPacket C env pType data flags) := by
  simp only [sendPacket]
  split_ifs
  · rw [sendSplitPacket]
    generalize splitBlocks flags data.length true data = blocks
    generalize (!s.crypt.cryptoInitComplete) = dummy
    induction blocks generalizing s with
    | nil => exact .of_eq rfl rfl
    | cons block blocks ih => exact (silent_sendPacketRaw h _ _ _).trans ih
  · exact silent_sendPacketRaw h _ _ _

theorem silent_sendNumbered {pType : PacketType} (h : pType ≠ .command) (flags : PacketFlags)
    (payload : Bytes) : Silent s (s.sendNumbered env pType flags payload) :=
  silent_number h (s.send.useNumber pType) _ rfl

theorem silent_doResend (rp : ResendPacket) : Silent s (s.doResend C env rp).1 := by
  obtain ⟨-, hcrypt, outs, htrace, houts⟩ := doResend_frame (s := s) C env rp
  refine .of_append hcrypt htrace fun t ht => ?_
  rcases houts _ ht with h | ⟨t', h⟩
  · exact absurd h (by simp [Output.isWire])
  · exact absurd h (by simp)

theorem silent_expire (key : Nat) : Silent s (s.expire key) := by
  let s₁ : PacketHandler :=
    { s with send := { s.send with ackManager := s.send.ackManager.delete key } }
  have hdelete : Silent s s₁ := .of_eq rfl rfl
  exact hdelete.trans (silent_triggerClose _)

theorem silent_resendCommand (key : Nat) (rp : ResendPacket) :
    Silent s (s.resendCommand C env key rp) :=
  (silent_doResend rp).trans (.of_eq rfl rfl)

theorem silent_checkResends : Silent s (s.checkResends C env) := by
  have hall : ∀ (l : List (Nat × ResendPacket)) (s : PacketHandler),
      Silent s (s.resendAll C env l) := fun l => by
    induction l with
    | nil => exact fun s => .of_eq rfl rfl
    | cons e l ih =>
      intro s
      rw [resendAll]
      split_ifs
      · exact silent_expire _
      · exact (silent_resendCommand _ _).trans (ih _)
  have hinit : Silent s (s.resendInit C env) := by
    simp only [resendInit]
    split
    · exact .of_eq rfl rfl
    · exact (silent_doResend _).trans (.of_eq rfl rfl)
  simp only [checkResends]
  split_ifs
  · exact silent_triggerClose _
  · exact silent_triggerClose _
  · exact hinit.trans (hall _ _)

theorem silent_pingTick : Silent s (s.pingTick C env) := by
  have hping : ∀ pings : InsertionMap Nat Time, Silent s
      ({ s with pingsSent := pings }.sendPacket C env .ping []
        { PacketFlags.none with unencrypted := true }) := fun pings => by
    have hnote : Silent s { s with pingsSent := pings } := .of_eq rfl rfl
    exact hnote.trans (silent_sendPacket (by decide) _ _)
  simp only [pingTick]
  split_ifs
  · exact hping _
  · exact hping _
  · exact .of_eq rfl rfl

/-! ### The owner's calls -/

/-- No command has been sent, unless crypto init has completed. -/
def Unsent (s : PacketHandler) : Prop :=
  s.crypt.cryptoInitComplete = false →
    ∀ t, .numbered t ∈ s.trace → packetType t.packet ≠ .command

theorem Silent.unsent (h : Silent s s') (hs : s.Unsent) : s'.Unsent := by
  intro hnot t ht htype
  rw [h.crypt] at hnot
  exact hs hnot t (h.sent t ht htype) htype

theorem unsent_of_complete (h : s.crypt.cryptoInitComplete = true) : s.Unsent := fun hnot => by
  rw [h] at hnot
  cases hnot

theorem complete_of_acts {op : Option Packet} (h : Acts C env op s s')
    (hcomplete : s.crypt.cryptoInitComplete = true) : s'.crypt.cryptoInitComplete = true :=
  (h.dummyCommandIDs_subset hcomplete).1

theorem unsent_call {c : Call} (hc : c.sendsCommand = false) (hs : s.Unsent) :
    (s.call C env c).Unsent := by
  cases c with
  | sendPacket pType data flags =>
    cases pType with
    | command => cases hc
    | commandLow => exact (silent_sendPacket (by decide) _ _).unsent hs
    | init1 => exact (silent_sendPacket (by decide) _ _).unsent hs
  | sendVoicePacket data codec => exact (silent_sendNumbered (by decide) _ _).unsent hs
  | sendWhisperPacket data clients codec channels =>
    simp only [call, sendWhisperPacket]
    split_ifs <;> first | exact hs | exact (silent_sendNumbered (by decide) _ _).unsent hs
  | sendGroupWhisperPacket data groupType scope id codec =>
    simp only [call, sendGroupWhisperPacket]
    split_ifs <;> first | exact hs | exact (silent_sendNumbered (by decide) _ _).unsent hs
  | setClientID id => exact Silent.unsent (.of_eq rfl rfl) hs
  | receivedFinalInitAck => exact Silent.unsent (.of_eq rfl rfl) hs
  | setSharedSecret alpha beta sharedKey =>
    simp only [call, setSharedSecret]
    split_ifs with hcomplete
    · exact hs
    · split
      · exact hs
      · rename_i crypt hcrypt
        exact unsent_of_complete (Crypt.cryptoInitComplete_of_setSharedSecret hcrypt)
  | close => exact Silent.unsent (.of_eq close_crypt close_trace) hs

theorem unsent_runCalls_of_none {calls : List Call} (hcalls : ∀ c ∈ calls, c.sendsCommand = false)
    (hs : s.Unsent) : (s.runCalls C env calls).Unsent := by
  induction calls generalizing s with
  | nil => exact hs
  | cons c calls ih =>
    exact ih (fun c' hc' => hcalls c' (List.mem_cons_of_mem _ hc'))
      (unsent_call (hcalls c List.mem_cons_self) hs)

theorem unsent_runCalls_of_complete (calls : List Call)
    (hcomplete : s.crypt.cryptoInitComplete = true) : (s.runCalls C env calls).Unsent := by
  have hacts : Acts C env none s (s.runCalls C env calls) := runCalls_acts calls
  exact unsent_of_complete (complete_of_acts hacts hcomplete)

/-- What the owner calls in a turn of the handshake: nothing that sends a command, or what
`handleHandshakeInitIV` or `handleHandshakeExpand2` calls with values that fit. -/
inductive HandshakeCalls (C : Cipher) : List Call → Prop
  | silent {calls : List Call} (h : ∀ c ∈ calls, c.sendsCommand = false) : HandshakeCalls C calls
  | initIV {before : List Call} (h : ∀ c ∈ before, c.sendsCommand = false)
      {alpha beta sharedKey : Bytes}
      (hfits : ∀ crypt : Crypt, (crypt.setSharedSecret C alpha beta sharedKey).isSome = true)
      (after : List Call) :
      HandshakeCalls C (before ++ .setSharedSecret alpha beta sharedKey :: after)
  | expand2 {before : List Call} (h : ∀ c ∈ before, c.sendsCommand = false) (clientEk : Bytes)
      (flags : PacketFlags) {alpha beta sharedKey : Bytes}
      (hfits : ∀ crypt : Crypt, (crypt.setSharedSecret C alpha beta sharedKey).isSome = true)
      (after : List Call) :
      HandshakeCalls C (before ++ .sendPacket .command clientEk flags ::
        .setSharedSecret alpha beta sharedKey :: after)

theorem complete_setSharedSecret {alpha beta sharedKey : Bytes}
    (hfits : ∀ crypt : Crypt, (crypt.setSharedSecret C alpha beta sharedKey).isSome = true) :
    (s.setSharedSecret C alpha beta sharedKey).crypt.cryptoInitComplete = true := by
  rw [setSharedSecret]
  split_ifs with hcomplete
  · exact hcomplete
  · obtain ⟨crypt, hcrypt⟩ := Option.isSome_iff_exists.mp (hfits s.crypt)
    rw [hcrypt]
    exact Crypt.cryptoInitComplete_of_setSharedSecret hcrypt

theorem unsent_runCalls {calls : List Call} (hcalls : HandshakeCalls C calls) (hs : s.Unsent) :
    (s.runCalls C env calls).Unsent := by
  cases hcalls with
  | silent h => exact unsent_runCalls_of_none h hs
  | initIV h hfits after =>
    rw [runCalls, List.foldl_append, List.foldl_cons]
    exact unsent_runCalls_of_complete after (complete_setSharedSecret hfits)
  | expand2 h clientEk flags hfits after =>
    rw [runCalls, List.foldl_append, List.foldl_cons, List.foldl_cons]
    exact unsent_runCalls_of_complete after (complete_setSharedSecret hfits)

/-! ### An event -/

/-- What an event meets while the handshake goes on. -/
structure HandshakeTurn (C : Cipher) (e : Env × Event) : Prop where
  owner : ∀ p, HandshakeCalls C (e.1.owner p).calls
  onReceiveError : HandshakeCalls C e.1.onReceiveError
  call : ∀ c, e.2 = .call c → HandshakeCalls C [c]

section

variable (howner : ∀ p, HandshakeCalls C (env.owner p).calls)

include howner

theorem unsent_deliver (p : Packet) (hs : s.Unsent) : (s.deliver C env p).1.Unsent := by
  have hlog : (s.log (.delivered p s.crypt.cryptoInitComplete)).Unsent :=
    (silent_log fun _ => by simp).unsent hs
  simp only [deliver]
  split_ifs
  · exact unsent_runCalls (howner p) hlog
  · exact hlog

theorem unsent_takeOne {k : QueueKind} {r : PacketHandler × Bool} (h : s.takeOne C env k = some r)
    (hs : s.Unsent) : r.1.Unsent := by
  simp only [takeOne] at h
  split at h
  · cases h
  split at h
  · cases h
  rename_i recv newNext reassembled hre
  have hrecv : ∀ recv : Receiver, { s with recv }.Unsent := fun _ =>
    Silent.unsent (.of_eq rfl rfl) hs
  split at h
  · rw [← Option.some.inj h]
    exact hrecv _
  · rw [← Option.some.inj h]
    exact unsent_deliver howner _ (hrecv _)

theorem unsent_drain (k : QueueKind) (fuel : Nat) (hs : s.Unsent) :
    (s.drain C env k fuel).1.Unsent := by
  induction fuel generalizing s with
  | zero => exact hs
  | succ fuel ih =>
    rw [drain]
    split
    · exact hs
    · rename_i h
      exact unsent_takeOne howner h hs
    · rename_i h
      exact ih (unsent_takeOne howner h hs)

theorem unsent_handlePacket (p : Packet) (dummyUsed : Bool) (hs : s.Unsent) :
    (s.handlePacket C env p dummyUsed).1.Unsent := by
  have hack : Silent s (s.handleCommandWindowAndAck C env p dummyUsed).1 := by
    simp only [handleCommandWindowAndAck]
    split
    · exact .of_eq rfl rfl
    · rename_i k hkind
      have hsend : Silent s (s.sendAck C env p.id k.ackType dummyUsed) :=
        silent_sendPacketRaw (by cases k <;> decide) _ _ _
      split_ifs
      · exact hsend
      · exact .of_eq rfl rfl
      · exact hsend
      · exact .of_eq rfl rfl
  have hqueue : ∀ s : PacketHandler, s.Unsent → (s.handlePacketQueue C env p).1.Unsent := by
    intro s hs
    simp only [handlePacketQueue]
    split
    · exact unsent_deliver howner p hs
    · exact unsent_drain howner _ _ (Silent.unsent (.of_eq rfl rfl) hs)
  have hpost : ∀ s : PacketHandler, s.Unsent → (s.updatePostReceiveState p).Unsent := by
    intro s hs
    simp only [updatePostReceiveState]
    split
    · split_ifs
      · exact Silent.unsent (.trans (.of_eq rfl rfl) (silent_log fun _ => by simp)) hs
      · exact hs
    · exact hs
  rw [handlePacket]
  split_ifs
  · exact (silent_sendPacketRaw (by decide) _ _ _).unsent hs
  · split <;> rename_i s₁ h <;> rw [h] at hack
    · exact hack.unsent hs
    · have hqueued := hqueue s₁ (hack.unsent hs)
      split <;> rename_i s₂ h₂ <;> rw [h₂] at hqueued
      · exact hqueued
      · exact hpost s₂ hqueued

theorem unsent_handleRawPacket (raw : Bytes) (hs : s.Unsent) :
    (s.handleRawPacket C env raw).1.Unsent := by
  cases h : s.openPacket C env raw with
  | none =>
    rw [handleRawPacket, h]
    exact hs
  | some opened =>
    obtain ⟨s₁, p⟩ := opened
    have hopened : Silent s s₁ := by
      obtain ⟨-, -, -, -, -, ⟨rfl, -, -⟩ | ⟨-, -, id, rfl⟩⟩ := openPacket_spec h
      · exact .of_eq rfl rfl
      · exact .of_eq rfl rfl
    have hnoted : Silent s₁ (s₁.noteReceived env p raw.length) := by
      simp only [noteReceived]
      split_ifs
      · split <;> exact .of_eq rfl rfl
      · exact .of_eq rfl rfl
    rw [handleRawPacket, h]
    exact unsent_handlePacket howner p p.dummyUsed ((hopened.trans hnoted).unsent hs)

end

theorem unsent_step {e : Env × Event} (h : HandshakeTurn C e) (hs : s.Unsent) :
    (s.step C e).Unsent := by
  obtain ⟨env, ev⟩ := e
  cases ev with
  | datagram raw =>
    have hraw := unsent_handleRawPacket h.owner raw hs
    simp only [step]
    split_ifs
    · exact hs
    · split <;> rename_i s₁ heq <;> rw [heq] at hraw
      · exact unsent_runCalls h.onReceiveError hraw
      · exact hraw
  | call c => exact unsent_runCalls (h.call c rfl) hs
  | resendTimer =>
    simp only [step]
    split_ifs
    · exact hs
    · exact silent_checkResends.unsent hs
  | pingTimer =>
    simp only [step]
    split_ifs
    · exact hs
    · exact silent_pingTick.unsent hs
  | socketError => exact (silent_triggerClose _).unsent hs
  | socketClose => exact (silent_triggerClose _).unsent hs

/-! ### Every run -/

/-- Until crypto init has completed, the owner makes the handshake's calls. -/
def Handshakes (C : Cipher) (s : PacketHandler) (e : Env × Event) : Prop :=
  s.crypt.cryptoInitComplete = false → HandshakeTurn C e

theorem unsent_run {es : List (Env × Event)} (hes : Along (step C) (Handshakes C) s es)
    (hs : s.Unsent) : (run (step C) s es).Unsent := by
  refine run_invariant_along (I := Unsent) (fun s e hs he => ?_) hs hes
  cases hcomplete : s.crypt.cryptoInitComplete with
  | true => exact unsent_of_complete (complete_of_acts (step_acts s e) hcomplete)
  | false => exact unsent_step (he hcomplete) hs

/-- **The handshake switches at once**: an owner that makes the handshake's calls until crypto
init has completed sends no command before the call that completes it. -/
theorem switchesAtOnce {env₀ : Env} {init1Data : Bytes} {es : List (Env × Event)}
    (hes : Along (step C) (Handshakes C) (start C env₀ init1Data) es) :
    SwitchesAtOnce C env₀ init1Data es := by
  rintro es₁ ⟨es₂, rfl⟩
  have hstart : (start C env₀ init1Data).Unsent :=
    (silent_sendPacketRaw (by decide) _ _ _).unsent fun _ t ht => absurd ht List.not_mem_nil
  exact unsent_run (along_append.mp hes).1 hstart

example : SwitchesAtOnce markedCipher { now := 0 } [] clientEkSent :=
  switchesAtOnce ⟨fun _ =>
    { owner := fun _ => .expand2 (List.forall_mem_nil _) [1] {} (fun _ => rfl) []
      onReceiveError := .silent (List.forall_mem_nil _)
      call := fun _ h => nomatch h }, trivial⟩

end PacketHandler

end Teamspeak.Transport
