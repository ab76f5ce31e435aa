import Teamspeak.Lib.Outbox
import Teamspeak.Transport.Handler.Tracking

/-!
# Commands until they are acknowledged

* `Act.stays`: an act leaves the connection as it is or closes the handler.
* `recalls_after`: while no type and id is used again before it is acknowledged,
  every command sent is kept until an acknowledgement names it.
* `checkResends_outcome`: a resend check writes again all that is due, or closes
  the handler for one of its reasons.
* `commands_remembered`: both, in every run.
* `command_forgotten`: the 65537th command in flight takes the place of the first.
-/

namespace Teamspeak.Transport

open Log Outbox

/-- What an output says about the resend set: a command went out under its key, or
an acknowledgement named one. -/
def Output.entry : Output → Option (Entry Nat Transmission)
  | .numbered t =>
    if (packetType t.packet).queueKind?.isSome then
      some (.sent (resendKey (packetType t.packet) t.packet.id) t)
    else none
  | .ackReceived k id => some (.acked (resendKey k.packetType id))
  | _ => none

theorem Output.entry_of_isWire {o : Output} (h : o.isWire = true) : o.entry = none := by
  cases o <;> simp_all [isWire, entry]

namespace PacketHandler

variable {C : Cipher} {env : Env} {op : Option Packet} {s s' : PacketHandler}

/-! ### The connection -/

/-- The connection is as it was, or the handler is closed. -/
def Stays (s s' : PacketHandler) : Prop :=
  (s'.closed = s.closed ∧ s'.hasConn = s.hasConn) ∨ s'.closed = true

theorem write_stays (env : Env) (d : Bytes) : s.Stays (s.write env d) := by
  simp only [write]
  split_ifs
  · exact Or.inr (triggerClose_closed _)
  · exact Or.inr (triggerClose_closed _)
  · exact Or.inl ⟨rfl, rfl⟩
  · exact Or.inl ⟨rfl, rfl⟩
  · exact Or.inl ⟨rfl, rfl⟩

theorem sendPacketRaw_stays (C : Cipher) (env : Env) (pType : PacketType) (data : Bytes)
    (flags : PacketFlags) (dummy : Bool) :
    s.Stays (s.sendPacketRaw C env pType data flags dummy) := by
  unfold sendPacketRaw
  simp only
  split
  · exact Or.inl ⟨rfl, rfl⟩
  · exact write_stays env _

theorem doResend_stays (C : Cipher) (env : Env) (rp : ResendPacket) :
    s.Stays (s.doResend C env rp).1 := by
  unfold doResend
  split_ifs
  · simp only
    split
    · exact Or.inl ⟨rfl, rfl⟩
    · exact write_stays env _
  · exact Or.inl ⟨rfl, rfl⟩

theorem Act.stays (h : Act C env op s s') : s.Stays s' := by
  cases h with
  | close => exact Or.inr close_closed
  | triggerClose reason => exact Or.inr (triggerClose_closed reason)
  | send pType data flags dummy => exact sendPacketRaw_stays C env pType data flags dummy
  | voice pType flags payload => exact write_stays env _
  | setSharedSecret alpha beta sharedKey =>
    unfold PacketHandler.setSharedSecret
    split_ifs
    · exact Or.inl ⟨rfl, rfl⟩
    · split <;> exact Or.inl ⟨rfl, rfl⟩
  | note _ _ _ _ _ hconn hclosed => exact Or.inl ⟨hclosed, hconn⟩
  | reack k p => exact sendPacketRaw_stays C env _ _ _ _
  | accept k p => exact sendPacketRaw_stays C env _ _ _ _
  | take k packet recv newNext reassembled =>
    cases hpacket : reassembled.bind tryDecompress <;>
      exact Or.inl (by simp [taken, handOn, hpacket])
  | updatePostReceiveState p =>
    unfold PacketHandler.updatePostReceiveState
    split
    · split_ifs <;> exact Or.inl ⟨rfl, rfl⟩
    · exact Or.inl ⟨rfl, rfl⟩
  | resendInit =>
    unfold PacketHandler.resendInit
    split
    · exact Or.inl ⟨rfl, rfl⟩
    · exact doResend_stays C env _
  | resendCommand key rp => exact doResend_stays C env rp
  | expire key => exact Or.inr (triggerClose_closed _)
  | _ => exact Or.inl ⟨rfl, rfl⟩

theorem Act.open_before (h : Act C env op s s') (hopen : s'.closed = false) :
    s.closed = false ∧ s'.hasConn = s.hasConn := by
  rcases h.stays with ⟨hclosed, hconn⟩ | hclosed
  · exact ⟨hclosed ▸ hopen, hconn⟩
  · rw [hopen] at hclosed
    exact absurd hclosed (by simp)

/-- An open handler has a socket. -/
theorem connected_after (C : Cipher) (env₀ : Env) (init1Data : Bytes) (es : List (Env × Event)) :
    (after C env₀ init1Data es).closed = false → (after C env₀ init1Data es).hasConn = true := by
  refine after_preserves (C := C) (P := fun s => s.closed = false → s.hasConn = true) ?_ ?_
    env₀ init1Data es
  · intro env op s s' h hs hopen
    obtain ⟨hbefore, hconn⟩ := h.open_before hopen
    rw [hconn]
    exact hs hbefore
  · intro now _
    rfl

/-! ### What is remembered -/

/-- What the trace says about the resend set. -/
def book (s : PacketHandler) : List (Entry Nat Transmission) := s.trace.filterMap Output.entry

theorem book_append {outs : List Output} (htrace : s'.trace = s.trace ++ outs) :
    s'.book = s.book ++ outs.filterMap Output.entry := by
  rw [book, htrace, List.filterMap_append]
  rfl

theorem book_of_quiet {outs : List Output} (htrace : s'.trace = s.trace ++ outs)
    (houts : ∀ o ∈ outs, o.entry = none) : s'.book = s.book := by
  rw [book_append htrace, List.filterMap_eq_nil_iff.mpr houts, List.append_nil]

/-- Every command sent has been acknowledged since, or waits under its key. -/
def Recalls (s : PacketHandler) : Prop :=
  s.closed = false → Unreused s.book → Remembers ResendPacket.IsOf s.send.ackManager s.book

theorem Act.recalls (h : Act C env op s s') (hs : s.Recalls) : s'.Recalls := by
  intro hopen hunreused
  obtain ⟨outs₀, htrace₀⟩ := h.trace_grows
  have hbefore : Remembers ResendPacket.IsOf s.send.ackManager s.book := by
    apply hs (h.open_before hopen).1
    rw [book_append htrace₀] at hunreused
    exact hunreused.of_append
  cases h.send_cases with
  | idle outs hsend htrace houts =>
    have hquiet : ∀ o ∈ outs, o.entry = none := by
      intro o ho
      cases o with
      | numbered t | ackReceived k id =>
        obtain ⟨t', rp, heq, -⟩ := houts _ ho rfl
        exact absurd heq (by simp)
      | _ => rfl
    rw [hsend.ackManager, book_of_quiet htrace hquiet]
    exact hbefore
  | number t outs hid hgen htime hencrypts hkey hack hsend htrace houts =>
    have hwire : outs.filterMap Output.entry = [] := by
      rw [List.filterMap_eq_nil_iff]
      intro o ho
      exact Output.entry_of_isWire (houts o ho)
    have hbook : s'.book = s.book ++ (Output.entry (.numbered t)).toList := by
      rw [book_append htrace, List.filterMap_cons, hwire]
      cases Output.entry (.numbered t) <;> rfl
    rw [hsend, Sender.sent_ackManager]
    by_cases hkind : (packetType t.packet).queueKind?.isSome = true
    · rw [Output.entry, if_pos hkind] at hbook
      rw [hbook] at hunreused
      rw [if_pos hkind, hbook]
      exact hbefore.sent ⟨rfl, rfl, rfl⟩ hunreused.answered
    · rw [Output.entry, if_neg hkind, Option.toList_none, List.append_nil] at hbook
      rw [if_neg hkind, hbook]
      exact hbefore
  | acked k id hid hsend htrace =>
    rw [hsend, book_append htrace]
    exact hbefore.acked _
  | resent key rp rp' outs hget hagain hsend htrace houts =>
    have hquiet : ∀ o ∈ outs, o.entry = none := by
      intro o ho
      rcases houts o ho with hwire | ⟨t, rfl, -⟩
      · exact Output.entry_of_isWire hwire
      · rfl
    rw [hsend, book_of_quiet htrace hquiet]
    exact hbefore.update hget fun t hrp => isOf_again hagain hrp
  | expire key outs hclosed hsend htrace houts =>
    rw [hopen] at hclosed
    exact absurd hclosed (by simp)

theorem recalls_after (C : Cipher) (env₀ : Env) (init1Data : Bytes) (es : List (Env × Event)) :
    (after C env₀ init1Data es).Recalls := by
  refine after_preserves ?_ ?_ env₀ init1Data es
  · intro env op s s' h hs
    exact h.recalls hs
  · intro now _ _
    exact Remembers.nil _ _

/-! ### The resend check -/

/-- The packet was sent again, and the socket took it. -/
def WrittenAgain (outs : List Output) (rp : ResendPacket) : Prop :=
  ∃ t, t.packet = rp.packet ∧ .resent t ∈ outs ∧ .written t.datagram ∈ outs

theorem WrittenAgain.mono {outs outs' : List Output} {rp : ResendPacket}
    (h : WrittenAgain outs rp) (hsub : ∀ o ∈ outs, o ∈ outs') : WrittenAgain outs' rp := by
  obtain ⟨t, hpacket, hresent, hwritten⟩ := h
  exact ⟨t, hpacket, hsub _ hresent, hsub _ hwritten⟩

/-- The socket threw on a datagram, which closed the handler. -/
def Refused (s' : PacketHandler) (outs : List Output) : Prop :=
  s'.closed = true ∧ (∃ d, .refused d ∈ outs) ∧ .closed .sendFailed ∈ outs

theorem Refused.mono {outs outs' : List Output} (h : Refused s outs) (hsub : ∀ o ∈ outs, o ∈ outs') :
    Refused s outs' := by
  obtain ⟨hclosed, ⟨d, hd⟩, hfailed⟩ := h
  exact ⟨hclosed, ⟨d, hsub _ hd⟩, hsub _ hfailed⟩

theorem triggerClose_trace_of_open {s : PacketHandler} (hopen : s.closed = false)
    (reason : CloseReason) : (s.triggerClose reason).trace = s.trace ++ [.closed reason] := by
  rw [triggerClose, if_neg (by rw [hopen]; decide), log_trace, close_trace]

theorem write_outcome (hopen : s.closed = false) (hconn : s.hasConn = true) (env : Env)
    (d : Bytes) :
    ∃ outs, (s.write env d).trace = s.trace ++ outs ∧
      (Refused (s.write env d) outs ∨
        ((s.write env d).closed = false ∧ (s.write env d).hasConn = true ∧ .written d ∈ outs)) := by
  have hrefused : ∀ s₁ : PacketHandler, s₁.closed = false → s₁.trace = s.trace →
      ∃ outs, ((s₁.log (.refused d)).triggerClose .sendFailed).trace = s.trace ++ outs ∧
        (Refused ((s₁.log (.refused d)).triggerClose .sendFailed) outs ∨
          (((s₁.log (.refused d)).triggerClose .sendFailed).closed = false ∧
            ((s₁.log (.refused d)).triggerClose .sendFailed).hasConn = true ∧
              .written d ∈ outs)) := by
    intro s₁ hopen₁ htrace₁
    refine ⟨[.refused d, .closed .sendFailed], ?_, Or.inl ⟨triggerClose_closed _, ?_, ?_⟩⟩
    · rw [triggerClose_trace_of_open (s := s₁.log (.refused d)) hopen₁, log_trace, htrace₁,
        List.append_assoc]
      rfl
    · exact ⟨d, List.mem_cons_self⟩
    · exact List.mem_cons_of_mem _ List.mem_cons_self
  simp only [write]
  split_ifs
  · exact hrefused _ hopen rfl
  · exact hrefused _ hopen rfl
  · exact ⟨[.written d], rfl, Or.inr ⟨hopen, hconn, List.mem_cons_self⟩⟩
  · exact ⟨[.written d], rfl, Or.inr ⟨hopen, hconn, List.mem_cons_self⟩⟩

/-- With a socket and a key, sending a packet again writes it if it is due, unless
the socket throws. -/
theorem doResend_outcome (hopen : s.closed = false) (hconn : s.hasConn = true) (C : Cipher)
    (env : Env) (rp : ResendPacket)
    (hkey : packetType rp.packet = .init1 ∨ rp.dummy = true ∨ s.crypt.cryptoInitComplete = true) :
    ∃ outs, (s.doResend C env rp).1.trace = s.trace ++ outs ∧
      (Refused (s.doResend C env rp).1 outs ∨
        ((s.doResend C env rp).1.closed = false ∧ (s.doResend C env rp).1.hasConn = true ∧
          (isDue rp env.now = true → WrittenAgain outs rp))) := by
  unfold doResend
  split_ifs with hdue
  · have hsome : (s.crypt.encrypt C (packetType rp.packet) rp.packet.id rp.packet.generationID
        (buildC2SHeader rp.packet) rp.packet.data rp.dummy
          (packetFlags rp.packet).unencrypted).isSome = true := by
      rcases hkey with hinit | hkey
      · rw [Crypt.encrypt, if_pos hinit]
        rfl
      · exact Crypt.encrypt_isSome C hkey _ _ _ _ _ _
    obtain ⟨⟨ciphertext, tag⟩, hencrypt⟩ := Option.isSome_iff_exists.mp hsome
    simp only [again, hencrypt]
    let t : Transmission :=
      ⟨rp.packet, rp.dummy, buildC2SHeader rp.packet, ciphertext, tag, env.now⟩
    let s₁ : PacketHandler := { s with send := { s.send with resends := s.send.resends + 1 } }
    obtain ⟨outs, htrace, houtcome⟩ := write_outcome (s := s₁.log (.resent t)) hopen hconn env
      t.datagram
    have hsub : ∀ o ∈ outs, o ∈ Output.resent t :: outs := by
      intro o ho
      exact List.mem_cons_of_mem _ ho
    refine ⟨.resent t :: outs, ?_, ?_⟩
    · rw [htrace, log_trace, List.append_assoc]
      rfl
    · rcases houtcome with hrefused | ⟨hopen', hconn', hwritten⟩
      · exact Or.inl (hrefused.mono hsub)
      · refine Or.inr ⟨hopen', hconn', ?_⟩
        intro _
        exact ⟨t, rfl, List.mem_cons_self, hsub _ hwritten⟩
  · refine ⟨[], (List.append_nil _).symm, Or.inr ⟨hopen, hconn, ?_⟩⟩
    intro h
    exact absurd h hdue

/-- So it is for the Init1 packet, if one is pending. -/
theorem resendInit_outcome (hinit : ∀ rp, s.send.initPacketCheck = some rp →
      packetType rp.packet = .init1)
    (hopen : s.closed = false) (hconn : s.hasConn = true) (C : Cipher) (env : Env) :
    ∃ outs, (s.resendInit C env).trace = s.trace ++ outs ∧
      (s.resendInit C env).send.ackManager = s.send.ackManager ∧
      (s.resendInit C env).crypt = s.crypt ∧
      (Refused (s.resendInit C env) outs ∨
        ((s.resendInit C env).closed = false ∧ (s.resendInit C env).hasConn = true ∧
          ∀ rp, s.send.initPacketCheck = some rp → isDue rp env.now = true →
            WrittenAgain outs rp)) := by
  unfold resendInit
  cases hcheck : s.send.initPacketCheck with
  | none => exact ⟨[], (List.append_nil _).symm, rfl, rfl, Or.inr ⟨hopen, hconn, by simp⟩⟩
  | some rp =>
    obtain ⟨outs, htrace, houtcome⟩ := doResend_outcome hopen hconn C env rp
      (Or.inl (hinit rp hcheck))
    refine ⟨outs, htrace, ?_, (doResend_frame (s := s) C env rp).2.1, ?_⟩
    · rcases doResend_cases (s := s) C env rp with ⟨-, h⟩ | ⟨-, -, hsend, -⟩
      · simp only [h]
      · simp only [hsend]
    · rcases houtcome with hrefused | ⟨hopen', hconn', hwritten⟩
      · exact Or.inl hrefused
      · refine Or.inr ⟨hopen', hconn', ?_⟩
        intro rp' hrp' hdue
        obtain rfl := Option.some.inj hrp'
        exact hwritten hdue

/-- A closed handler stays closed through the loop. -/
theorem resendAll_of_closed (C : Cipher) (env : Env) (l : List (Nat × ResendPacket))
    (hclosed : s.closed = true) :
    (s.resendAll C env l).closed = true ∧ ∃ outs, (s.resendAll C env l).trace = s.trace ++ outs := by
  induction l generalizing s with
  | nil => exact ⟨hclosed, [], (List.append_nil _).symm⟩
  | cons e l ih =>
    obtain ⟨key, rp⟩ := e
    unfold resendAll
    split_ifs
    · obtain ⟨outs, htrace, -⟩ := triggerClose_trace .connectionTimeout
        (s := { s with send := { s.send with ackManager := s.send.ackManager.delete key } })
      exact ⟨triggerClose_closed _, outs, htrace⟩
    · have hclosed' : (s.resendCommand C env key rp).closed = true := by
        rcases doResend_stays (s := s) C env rp with ⟨h, -⟩ | h
        · exact h.trans hclosed
        · exact h
      obtain ⟨outs₁, htrace₁, -⟩ := (doResend_frame (s := s) C env rp).2.2
      obtain ⟨hdone, outs₂, htrace₂⟩ := ih hclosed'
      refine ⟨hdone, outs₁ ++ outs₂, ?_⟩
      rw [htrace₂, ← List.append_assoc, ← htrace₁]
      rfl

/-- What the loop over the resend set comes to. -/
theorem resendAll_outcome (hopen : s.closed = false) (hconn : s.hasConn = true) (C : Cipher)
    (env : Env) (l : List (Nat × ResendPacket))
    (hkey : ∀ e ∈ l, e.2.dummy = true ∨ s.crypt.cryptoInitComplete = true) :
    ∃ outs, (s.resendAll C env l).trace = s.trace ++ outs ∧
      (Refused (s.resendAll C env l) outs ∨
        ((s.resendAll C env l).closed = true ∧ .closed .connectionTimeout ∈ outs ∧
          ∃ e ∈ l, env.now - e.2.firstSend > packetTimeoutMs) ∨
        ((s.resendAll C env l).closed = false ∧
          ∀ e ∈ l, isDue e.2 env.now = true → WrittenAgain outs e.2)) := by
  induction l generalizing s with
  | nil => exact ⟨[], (List.append_nil _).symm, Or.inr (Or.inr ⟨hopen, by simp⟩)⟩
  | cons e l ih =>
    obtain ⟨key, rp⟩ := e
    unfold resendAll
    split_ifs with hlate
    · refine ⟨[.closed .connectionTimeout], ?_, Or.inr (Or.inl ⟨triggerClose_closed _, ?_, ?_⟩)⟩
      · exact triggerClose_trace_of_open (s := { s with send := { s.send with
          ackManager := s.send.ackManager.delete key } }) hopen .connectionTimeout
      · exact List.mem_cons_self
      · exact ⟨(key, rp), List.mem_cons_self, hlate⟩
    · obtain ⟨outs₁, htrace₁, houtcome⟩ := doResend_outcome hopen hconn C env rp
        (Or.inr (hkey (key, rp) List.mem_cons_self))
      have htrace₁ : (s.resendCommand C env key rp).trace = s.trace ++ outs₁ := htrace₁
      have hleft : ∀ outs₂ : List Output, ∀ o ∈ outs₁, o ∈ outs₁ ++ outs₂ := by
        intro outs₂ o ho
        exact List.mem_append_left _ ho
      have hright : ∀ outs₂ : List Output, ∀ o ∈ outs₂, o ∈ outs₁ ++ outs₂ := by
        intro outs₂ o ho
        exact List.mem_append_right _ ho
      rcases houtcome with hrefused | ⟨hopen', hconn', hwritten⟩
      · -- The loop goes on, but nothing is written any more.
        have hclosed : (s.resendCommand C env key rp).closed = true := hrefused.1
        obtain ⟨hdone, outs₂, htrace₂⟩ := resendAll_of_closed C env l hclosed
        refine ⟨outs₁ ++ outs₂, by rw [htrace₂, htrace₁, List.append_assoc], Or.inl ⟨hdone, ?_⟩⟩
        exact (hrefused.mono (hleft outs₂)).2
      · have hcrypt : (s.resendCommand C env key rp).crypt = s.crypt :=
          (doResend_frame (s := s) C env rp).2.1
        obtain ⟨outs₂, htrace₂, houtcome₂⟩ := ih (s := s.resendCommand C env key rp) hopen' hconn' (by
          intro e he
          rw [hcrypt]
          exact hkey e (List.mem_cons_of_mem _ he))
        refine ⟨outs₁ ++ outs₂, by rw [htrace₂, htrace₁, List.append_assoc], ?_⟩
        rcases houtcome₂ with hrefused | ⟨hclosed, htimeout, e, he, hlate'⟩ | ⟨hopen₂, hall⟩
        · exact Or.inl (hrefused.mono (hright outs₂))
        · exact Or.inr (Or.inl ⟨hclosed, hright outs₂ _ htimeout, e, List.mem_cons_of_mem _ he, hlate'⟩)
        · refine Or.inr (Or.inr ⟨hopen₂, ?_⟩)
          intro e he hdue
          rcases List.mem_cons.mp he with rfl | he
          · exact (hwritten hdue).mono (hleft outs₂)
          · exact (hall e he hdue).mono (hright outs₂)

/-- What a resend check comes to: it closes the handler, for being idle, for a hole,
for a packet that was not acknowledged in time or for a socket that threw, or it
writes again all that is due. -/
inductive CheckOutcome (env : Env) (s s' : PacketHandler) (outs : List Output) : Prop
  | idle (hidle : env.now - s.lastMessageReceived > packetTimeoutMs) (hclosed : s'.closed = true)
      (hreason : .closed .connectionTimeout ∈ outs)
  | stalled (k : QueueKind) (hhole : (s.recv.queues k).hasStalledHole env.now = true)
      (hclosed : s'.closed = true) (hreason : .closed .connectionStalled ∈ outs)
  | expired (key : Nat) (rp : ResendPacket) (hget : s.send.ackManager.get? key = some rp)
      (hlate : env.now - rp.firstSend > packetTimeoutMs) (hclosed : s'.closed = true)
      (hreason : .closed .connectionTimeout ∈ outs)
  | refused (d : Bytes) (hd : .refused d ∈ outs) (hclosed : s'.closed = true)
      (hreason : .closed .sendFailed ∈ outs)
  | written (hopen : s'.closed = false)
      (hinit : ∀ rp, s.send.initPacketCheck = some rp → isDue rp env.now = true →
        WrittenAgain outs rp)
      (hcommands : ∀ key rp, s.send.ackManager.get? key = some rp → isDue rp env.now = true →
        WrittenAgain outs rp)

theorem Refused.checkOutcome {outs : List Output} (h : Refused s' outs) :
    CheckOutcome env s s' outs := by
  obtain ⟨hclosed, ⟨d, hd⟩, hreason⟩ := h
  exact .refused d hd hclosed hreason

/-- **A resend check writes again all that is due, or closes the handler.** -/
theorem checkResends_outcome (ht : Tracking C s) (hopen : s.closed = false)
    (hconn : s.hasConn = true) (env : Env) :
    ∃ outs, (s.checkResends C env).trace = s.trace ++ outs ∧
      CheckOutcome env s (s.checkResends C env) outs := by
  simp only [checkResends]
  split_ifs with hidle hhole
  · refine ⟨_, triggerClose_trace_of_open hopen _, ?_⟩
    exact .idle hidle (triggerClose_closed _) List.mem_cons_self
  · refine ⟨_, triggerClose_trace_of_open hopen _, ?_⟩
    rcases hhole with hhole | hhole
    · exact .stalled .command hhole (triggerClose_closed _) List.mem_cons_self
    · exact .stalled .commandLow hhole (triggerClose_closed _) List.mem_cons_self
  · obtain ⟨outs₁, htrace₁, hack, hcrypt, houtcome₁⟩ := resendInit_outcome ht.init hopen hconn C env
    rcases houtcome₁ with hrefused | ⟨hopen₁, hconn₁, hinit⟩
    · obtain ⟨hdone, outs₂, htrace₂⟩ := resendAll_of_closed C env
        (s.resendInit C env).send.ackManager.entries hrefused.1
      refine ⟨outs₁ ++ outs₂, by rw [htrace₂, htrace₁, List.append_assoc], ?_⟩
      have hrefused' : Refused ((s.resendInit C env).resendAll C env
          (s.resendInit C env).send.ackManager.entries) outs₁ := ⟨hdone, hrefused.2⟩
      apply Refused.checkOutcome
      exact hrefused'.mono fun o ho => List.mem_append_left _ ho
    · have hkey : ∀ e ∈ (s.resendInit C env).send.ackManager.entries,
          e.2.dummy = true ∨ (s.resendInit C env).crypt.cryptoInitComplete = true := by
        intro e he
        rw [hack] at he
        obtain ⟨-, t, -, -, -, hisOf, hsealed⟩ := ht.held e.1 e.2 (InsertionMap.mem_entries.mp he)
        rw [hcrypt, hisOf.dummy]
        exact hsealed.key
      obtain ⟨outs₂, htrace₂, houtcome₂⟩ := resendAll_outcome hopen₁ hconn₁ C env _ hkey
      refine ⟨outs₁ ++ outs₂, by rw [htrace₂, htrace₁, List.append_assoc], ?_⟩
      rw [hack] at houtcome₂ ⊢
      rcases houtcome₂ with hrefused | ⟨hclosed, htimeout, e, he, hlate⟩ | ⟨hopen₂, hall⟩
      · apply Refused.checkOutcome
        exact hrefused.mono fun o ho => List.mem_append_right _ ho
      · exact .expired e.1 e.2 (InsertionMap.mem_entries.mp he) hlate hclosed
          (List.mem_append_right _ htimeout)
      · refine .written hopen₂ ?_ ?_
        · intro rp hrp hdue
          exact (hinit rp hrp hdue).mono fun o ho => List.mem_append_left _ ho
        · intro key rp hget hdue
          have hwritten := hall (key, rp) (InsertionMap.mem_entries.mpr hget) hdue
          exact hwritten.mono fun o ho => List.mem_append_right _ ho

/-! ### In every run -/

theorem ackReceived_id_lt_after (C : Cipher) (env₀ : Env) (init1Data : Bytes)
    (es : List (Env × Event)) :
    ∀ k id, .ackReceived k id ∈ (after C env₀ init1Data es).trace → id < 65536 := by
  refine after_preserves (C := C)
    (P := fun s => ∀ k id, .ackReceived k id ∈ s.trace → id < 65536) ?_ ?_ env₀ init1Data es
  · intro env op s s' h hs k id hmem
    have hnew : ∀ outs, s'.trace = s.trace ++ outs → .ackReceived k id ∈ outs ∨ id < 65536 := by
      intro outs htrace
      rw [htrace] at hmem
      rcases List.mem_append.mp hmem with hmem | hmem
      · exact Or.inr (hs k id hmem)
      · exact Or.inl hmem
    cases h.send_cases with
    | idle outs hsend htrace houts =>
      rcases hnew outs htrace with ho | hlt
      · obtain ⟨t, rp, heq, -⟩ := houts _ ho rfl
        exact absurd heq (by simp)
      · exact hlt
    | number t outs _ _ _ _ _ _ _ htrace houts =>
      rcases hnew _ htrace with ho | hlt
      · rcases List.mem_cons.mp ho with heq | ho
        · exact absurd heq (by simp)
        · exact absurd (houts _ ho) (by simp [Output.isWire])
      · exact hlt
    | acked k' id' hid hsend htrace =>
      rcases hnew _ htrace with ho | hlt
      · obtain ⟨-, rfl⟩ := Output.ackReceived.inj (List.mem_singleton.mp ho)
        exact hid
      · exact hlt
    | resent key rp rp' outs _ _ _ htrace houts =>
      rcases hnew outs htrace with ho | hlt
      · rcases houts _ ho with hwire | ⟨t, heq, -⟩
        · exact absurd hwire (by simp [Output.isWire])
        · exact absurd heq (by simp)
      · exact hlt
    | expire key outs _ _ htrace houts =>
      rcases hnew outs htrace with ho | hlt
      · exact absurd (houts _ ho) (by simp [Output.isBook])
      · exact hlt
  · intro now k id hmem
    exact absurd hmem (by simp [opened])

/-- The trace's own terms for what the outbox remembers. -/
theorem Recalls.kept (hs : s.Recalls) (hopen : s.closed = false) (hunreused : Unreused s.book)
    (hnumbered : ∀ k : QueueKind, Numbered s k.packetType)
    (hacks : ∀ k id, .ackReceived k id ∈ s.trace → id < 65536) {k : QueueKind}
    {pre post : List Output} {t : Transmission} (htrace : s.trace = pre ++ .numbered t :: post)
    (htype : packetType t.packet = k.packetType) :
    .ackReceived k t.packet.id ∈ post ∨
      ∃ rp, s.send.ackManager.get? (resendKey k.packetType t.packet.id) = some rp ∧ rp.IsOf t := by
  have hentry : Output.entry (.numbered t) =
      some (.sent (resendKey k.packetType t.packet.id) t) := by
    have hkind : (packetType t.packet).queueKind?.isSome = true := by
      rw [PacketType.queueKind?_eq_some.mpr htype]
      rfl
    rw [Output.entry, if_pos hkind, htype]
  have hbook : s.book = pre.filterMap Output.entry ++
      .sent (resendKey k.packetType t.packet.id) t :: post.filterMap Output.entry := by
    rw [book, htrace, List.filterMap_append, List.filterMap_cons, hentry]
  have hmem : .numbered t ∈ s.trace := by
    rw [htrace]
    exact List.mem_append_right _ List.mem_cons_self
  have hid : t.packet.id < 65536 :=
    (hnumbered k).id_lt _ (mem_packetsOf.mpr ⟨t, hmem, rfl, htype⟩)
  rcases hs hopen hunreused _ _ _ _ hbook with hacked | hkept
  · left
    obtain ⟨o, ho, hentry'⟩ := List.mem_filterMap.mp hacked
    cases o with
    | ackReceived k' id' =>
      have hid' : id' < 65536 := by
        apply hacks k'
        rw [htrace]
        exact List.mem_append_right _ (List.mem_cons_of_mem _ ho)
      have hkeys := Entry.acked.inj (Option.some.inj hentry')
      obtain ⟨rfl, rfl⟩ := (resendKey_inj hid' hid).mp hkeys
      exact ho
    | numbered t' =>
      simp only [Output.entry] at hentry'
      split_ifs at hentry'
      exact absurd (Option.some.inj hentry') (by simp)
    | _ => exact absurd hentry' (by simp [Output.entry])
  · exact Or.inr hkept

/-- An acknowledgement of one kind leaves the commands of the other alone. -/
theorem updatePostReceiveState_other {p : Packet} {k k' : QueueKind}
    (htype : packetType p = k.ackType) (hne : k' ≠ k) {id : Nat} (hid : id < 65536) :
    (s.updatePostReceiveState p).send.ackManager.get? (resendKey k'.packetType id) =
      s.send.ackManager.get? (resendKey k'.packetType id) := by
  unfold updatePostReceiveState
  rw [PacketType.ackedKind?_eq_some.mpr htype]
  simp only
  split_ifs
  · apply InsertionMap.get?_delete_ne
    rw [Ne, resendKey_inj (readUint16BE_lt _) hid]
    rintro ⟨rfl, -⟩
    exact hne rfl
  · rfl

/-- **No command is forgotten.**  In every state of every run in which no command
goes out under a type and id whose last holder has not been acknowledged, as long
as the handler is open, each command sent has been named since by an
acknowledgement of its kind, or waits under its type and id with its packet and
the time it was first sent; an acknowledgement of one kind leaves the other's
commands alone; and a resend check writes again all that is due, or closes the
handler for one of its reasons. -/
theorem commands_remembered (C : Cipher) (env₀ : Env) (init1Data : Bytes)
    (es : List (Env × Event)) :
    let s := after C env₀ init1Data es
    (Unreused s.book → s.closed = false → ∀ (k : QueueKind) (pre post : List Output) t,
      s.trace = pre ++ .numbered t :: post → packetType t.packet = k.packetType →
        .ackReceived k t.packet.id ∈ post ∨
          ∃ rp, s.send.ackManager.get? (resendKey k.packetType t.packet.id) = some rp ∧
            rp.IsOf t) ∧
      (∀ (p : Packet) (k k' : QueueKind) (id : Nat), packetType p = k.ackType → k' ≠ k →
        id < 65536 →
          (s.updatePostReceiveState p).send.ackManager.get? (resendKey k'.packetType id) =
            s.send.ackManager.get? (resendKey k'.packetType id)) ∧
      (s.closed = false → ∀ env, ∃ outs,
        (s.step C (env, .resendTimer)).trace = s.trace ++ outs ∧
          CheckOutcome env s (s.step C (env, .resendTimer)) outs) := by
  intro s
  refine ⟨?_, ?_, ?_⟩
  · intro hunreused hopen k pre post t htrace htype
    have hnumbered : ∀ k : QueueKind, Numbered s k.packetType := by
      intro k
      apply numbered_after
      cases k <;> decide
    exact (recalls_after C env₀ init1Data es).kept hopen hunreused hnumbered
      (ackReceived_id_lt_after C env₀ init1Data es) htrace htype
  · intro p k k' id htype hne hid
    exact updatePostReceiveState_other htype hne hid
  · intro hopen env
    have hstep : s.step C (env, .resendTimer) = s.checkResends C env := by
      simp only [step, hopen, Bool.false_eq_true, if_false]
    rw [hstep]
    exact checkResends_outcome (tracking_after C env₀ init1Data es) hopen
      (connected_after C env₀ init1Data es hopen) env

/-! ### The id's next holder -/

/-- Commands of one byte, one after another, and nothing else. -/
def sending (n : Nat) : List (Env × Event) :=
  List.replicate n ({ now := 0 }, .call (.sendPacket .command [97] {}))

theorem unanswered_of_numbered (h : ∀ k id, .ackReceived k id ∉ s.trace) {t : Transmission}
    {outs : List Output} (htrace : s'.trace = s.trace ++ .numbered t :: outs)
    (houts : ∀ o ∈ outs, o.isWire = true) : ∀ k id, .ackReceived k id ∉ s'.trace := by
  intro k id hmem
  rw [htrace] at hmem
  rcases List.mem_append.mp hmem with hmem | hmem
  · exact h k id hmem
  · rcases List.mem_cons.mp hmem with heq | hmem
    · exact absurd heq (by simp)
    · exact absurd (houts _ hmem) (by simp [Output.isWire])

/-- So many commands have gone out, and no acknowledgement has come. -/
structure Flying (s : PacketHandler) (n : Nat) : Prop where
  closed : s.closed = false
  count : (s.packetsOf .command).length = n
  unanswered : ∀ k id, .ackReceived k id ∉ s.trace

/-- The next command goes out, and takes its key in the resend set. -/
theorem Flying.send {n : Nat} (h : Flying s n) :
    let s' := s.step clearCipher ({ now := 0 }, .call (.sendPacket .command [97] {}))
    Flying s' (n + 1) ∧ ∃ t : Transmission, t.packet.id = s.send.packetCounter .command ∧
      t.packet.generationID = s.send.generationCounter .command ∧
      s'.send.ackManager.get? (resendKey .command t.packet.id) = some t.tracked := by
  intro s'
  have hkey : (!s.crypt.cryptoInitComplete) = true ∨ s.crypt.cryptoInitComplete = true := by
    cases s.crypt.cryptoInitComplete <;> simp
  have hs' : s' = s.sendPacketRaw clearCipher { now := 0 } .command [97] {}
      (!s.crypt.cryptoInitComplete) := by
    show s.sendPacket clearCipher { now := 0 } .command [97] {} = _
    unfold sendPacket
    simp only
    rw [if_neg (by simp)]
  obtain ⟨t, outs, hpacket, -, -, -, hsend, htrace, houts⟩ :=
    sendPacketRaw_spec (s := s) clearCipher { now := 0 } .command [97] {} hkey
  rw [← hs'] at hsend htrace
  have htype : packetType t.packet = .command := by rw [hpacket]; rfl
  refine ⟨⟨?_, ?_, ?_⟩, t, by rw [hpacket]; rfl, by rw [hpacket]; rfl, ?_⟩
  · rw [hs', sendPacketRaw_closed (fun _ => rfl)]
    exact h.closed
  · have hwire : outs.filterMap (Output.numberedAs .command) = [] := by
      rw [List.filterMap_eq_nil_iff]
      intro o ho
      exact Output.numberedAs_of_isWire (houts o ho) _
    rw [packetsOf_append htrace, List.filterMap_cons, hwire, Output.numberedAs, if_pos htype,
      List.length_append, h.count]
    rfl
  · exact unanswered_of_numbered h.unanswered htrace houts
  · have hkind : PacketType.command.queueKind?.isSome = true := rfl
    rw [hsend, Sender.sent_ackManager, if_pos hkind, InsertionMap.get?_set_self]

theorem flying_after (n : Nat) : Flying (after clearCipher { now := 0 } [] (sending n)) n := by
  induction n with
  | zero =>
    obtain ⟨t, outs, -, -, -, -, -, htrace, houts⟩ := sendPacketRaw_spec clearCipher { now := 0 }
      (s := opened 0) .init1 [] .none (Or.inl rfl)
    refine ⟨by decide, by decide, ?_⟩
    exact unanswered_of_numbered (by simp [opened]) htrace houts
  | succ n ih =>
    unfold sending
    rw [List.replicate_succ', after, run_concat]
    exact ih.send.1

/-- After as many commands as there are ids, the next one takes the key of the first. -/
theorem forgotten_of_eq {N : Nat} (hN : N = 65537) :
    let s := after clearCipher { now := 0 } [] (sending N)
    s.closed = false ∧ ∃ pre t post, s.trace = pre ++ .numbered t :: post ∧
      packetType t.packet = QueueKind.command.packetType ∧
      .ackReceived .command t.packet.id ∉ post ∧
      ¬ ∃ rp, s.send.ackManager.get? (resendKey .command t.packet.id) = some rp ∧ rp.IsOf t := by
  obtain ⟨n, rfl⟩ : ∃ n, N = n + 1 := ⟨N - 1, by omega⟩
  intro s
  have hflying : Flying s (n + 1) := flying_after (n + 1)
  have hbefore : Numbered (after clearCipher { now := 0 } [] (sending n)) .command :=
    numbered_after clearCipher { now := 0 } [] (sending n) (by decide)
  have hs : Numbered s .command := numbered_after clearCipher { now := 0 } [] (sending (n + 1))
    (by decide)
  -- The last command has generation 1 and id 1.
  obtain ⟨t, hid, hgen, hget⟩ := (flying_after n).send.2
  have hget : s.send.ackManager.get? (resendKey .command t.packet.id) = some t.tracked := by
    have hs' : s = (after clearCipher { now := 0 } [] (sending n)).step clearCipher
        ({ now := 0 }, .call (.sendPacket .command [97] {})) := by
      show after clearCipher { now := 0 } [] (sending (n + 1)) = _
      rw [sending, List.replicate_succ', after, run_concat]
      rfl
    rw [hs']
    exact hget
  have hlast : t.packet.generationID = 1 ∧ t.packet.id = 1 := by
    have hnext := hbefore.next
    have hcounter := hbefore.counter
    rw [(flying_after n).count, Sender.nextPlace, ← hid, ← hgen] at hnext
    rw [← hid] at hcounter
    simp only [firstPlace, placeCount] at hnext
    omega
  -- The first has generation 0 and id 1.
  cases hpackets : s.packetsOf .command with
  | nil =>
    have hcount := hflying.count
    rw [hpackets] at hcount
    exact absurd hcount (by simp)
  | cons p ps =>
    have hplaces := hs.places
    rw [hpackets, List.length_cons, List.range_succ_eq_map, List.map_cons, List.map_cons,
      List.cons.injEq] at hplaces
    have hp : p ∈ s.packetsOf .command := by
      rw [hpackets]
      exact List.mem_cons_self
    have hfirst : p.generationID = 0 ∧ p.id = 1 := by
      have hplace := hplaces.1
      have hlt := hs.id_lt p hp
      simp only [place, firstPlace, placeCount] at hplace
      omega
    obtain ⟨t₀, ht₀, rfl, htype⟩ := mem_packetsOf.mp hp
    obtain ⟨pre, post, htrace⟩ := List.append_of_mem ht₀
    refine ⟨hflying.closed, pre, t₀, post, htrace, htype, ?_, ?_⟩
    · intro hmem
      apply hflying.unanswered .command t₀.packet.id
      rw [htrace]
      exact List.mem_append_right _ (List.mem_cons_of_mem _ hmem)
    · rintro ⟨rp, hrp, hisOf⟩
      rw [hfirst.2, ← hlast.2, hget] at hrp
      obtain rfl := Option.some.inj hrp
      have hsame : t.packet.generationID = t₀.packet.generationID :=
        congrArg Packet.generationID hisOf.packet
      omega

/-- **A command is forgotten once its id comes round.**  With 65536 commands in
flight, the next one takes the place of the first in the resend set: the handler
is open, no acknowledgement has come, and the first command is kept no more. -/
theorem command_forgotten :
    let s := after clearCipher { now := 0 } [] (sending 65537)
    s.closed = false ∧ ∃ pre t post, s.trace = pre ++ .numbered t :: post ∧
      packetType t.packet = QueueKind.command.packetType ∧
      .ackReceived .command t.packet.id ∉ post ∧
      ¬ ∃ rp, s.send.ackManager.get? (resendKey .command t.packet.id) = some rp ∧ rp.IsOf t :=
  forgotten_of_eq rfl

/-- Two commands, and an acknowledgement of the second. -/
def secondAcked : List (Env × Event) :=
  [({ now := 0 }, .call (.sendPacket .command [97] {})),
    ({ now := 1 }, .call (.sendPacket .command [98] {})),
    ({ now := 2 }, .datagram (clearDatagram 0 0 ⟨.ack, {}⟩ (uint16BE 2)))]

/-- The first waits still. -/
theorem commands_remembered_second_acked :
    ∃ rp, (after clearCipher { now := 0 } [] secondAcked).send.ackManager.get?
      (resendKey .command 1) = some rp ∧ rp.packet.data = [97] := by
  obtain ⟨hkept, -, -⟩ := commands_remembered clearCipher { now := 0 } [] secondAcked
  have hunreused : Unreused (after clearCipher { now := 0 } [] secondAcked).book := by
    apply unreused_of_nodup
    decide
  have hopen : (after clearCipher { now := 0 } [] secondAcked).closed = false := by decide
  have hsent : ∃ p ∈ (after clearCipher { now := 0 } [] secondAcked).packetsOf .command,
      p.id = 1 ∧ p.data = [97] := by decide
  have hnone : .ackReceived .command 1 ∉ (after clearCipher { now := 0 } [] secondAcked).trace := by
    decide
  revert hkept hunreused hopen hsent hnone
  generalize after clearCipher { now := 0 } [] secondAcked = s
  intro hkept hunreused hopen hsent hnone
  obtain ⟨p, hp, hid, hdata⟩ := hsent
  obtain ⟨t, ht, rfl, htype⟩ := mem_packetsOf.mp hp
  obtain ⟨pre, post, htrace⟩ := List.append_of_mem ht
  rcases hkept hunreused hopen .command pre post t htrace htype with hacked | ⟨rp, hrp, hisOf⟩
  · refine absurd ?_ hnone
    rw [htrace, ← hid]
    exact List.mem_append_right _ (List.mem_cons_of_mem _ hacked)
  · rw [hid] at hrp
    exact ⟨rp, hrp, by rw [hisOf.packet, hdata]⟩

end PacketHandler

end Teamspeak.Transport
