import Teamspeak.Transport.Handler.Representation

/-!
# A datagram that holds a command

The path of a command through `#handleRawPacket`, as equations: it is taken,
acknowledged again, or dropped, and when it is taken the drain runs.

* `handlePacket_command`, `step_command`: what becomes of the command.
* `takeOne_eq_none_iff`: a turn of the drain breaks off exactly when there is no
  frame at the front.
* `drain_stuck`: a drain that does not end in an exception ends there.
-/

namespace Teamspeak.Transport

open Framing

/-- The packets of a command are all there, at the front of the queue. -/
def ReceiveQueue.Ready (q : ReceiveQueue) : Prop :=
  ∃ fs, IsFrame isFragmented fs ∧ ∀ i (h : i < fs.length), q.at? i = some fs[i]

namespace PacketHandler

variable {C : Cipher} {env : Env} {s : PacketHandler} {k : QueueKind}

/-! ### The drain -/

theorem takeOne_eq_none_iff (h : (s.recv.queues k).InOrder) :
    s.takeOne C env k = none ↔ ¬ (s.recv.queues k).Ready := by
  constructor
  · rintro hnone ⟨fs, hframe, hoffered⟩
    obtain ⟨packet, ⟨recv, newNext, reassembled⟩, hget, hre⟩ :=
      Receiver.exists_tryReassemble h hframe hoffered
    simp only [takeOne, hget, hre] at hnone
    split at hnone <;> exact absurd hnone (by simp)
  · intro hready
    cases ht : s.takeOne C env k with
    | none => rfl
    | some r =>
      obtain ⟨packet, recv, newNext, reassembled, hget, hre, -⟩ :=
        takeOne_acts none ht
      obtain ⟨fs, htook, -⟩ := Receiver.tryReassemble_spec h.nextID_lt hget hre
      exact absurd ⟨fs, htook.frame, htook.offered⟩ hready

theorem call_recv (c : Call) : (s.call C env c).recv = s.recv := by
  cases c with
  | sendPacket pType data flags =>
    simp only [call, sendPacket, sendSplitPacket]
    split_ifs
    · generalize splitBlocks flags data.length true data = blocks
      generalize (!s.crypt.cryptoInitComplete) = dummy
      induction blocks generalizing s with
      | nil => rfl
      | cons block blocks ih => rw [List.foldl_cons, ih, sendPacketRaw_recv]
    · exact sendPacketRaw_recv _ _ _ _
  | sendVoicePacket data codec => exact sendNumbered_recv _ _ _
  | sendWhisperPacket data clients codec channels =>
    simp only [call, sendWhisperPacket]
    split_ifs <;> first | rfl | exact sendNumbered_recv _ _ _
  | sendGroupWhisperPacket data groupType scope id codec =>
    simp only [call, sendGroupWhisperPacket]
    split_ifs <;> first | rfl | exact sendNumbered_recv _ _ _
  | setClientID id => rfl
  | receivedFinalInitAck => rfl
  | setSharedSecret alpha beta sharedKey =>
    simp only [call, setSharedSecret]
    split_ifs
    · rfl
    · split <;> rfl
  | close => exact close_recv

theorem runCalls_recv (calls : List Call) : (s.runCalls C env calls).recv = s.recv := by
  induction calls generalizing s with
  | nil => rfl
  | cons c calls ih => exact ih.trans (call_recv c)

theorem deliver_recv (p : Packet) : (s.deliver C env p).1.recv = s.recv := by
  simp only [deliver]
  split_ifs
  · exact runCalls_recv _
  · rfl

/-- On the receiving side a turn of the drain takes one frame off. -/
theorem takeOne_recv {r : PacketHandler × Bool} (h : (s.recv.queues k).InOrder)
    (ht : s.takeOne C env k = some r) : ∃ fs, Receiver.Took s.recv r.1.recv k fs := by
  simp only [takeOne] at ht
  split at ht
  · exact absurd ht (by simp)
  rename_i packet hget
  split at ht
  · exact absurd ht (by simp)
  rename_i recv newNext reassembled hre
  obtain ⟨fs, htook, -⟩ := Receiver.tryReassemble_spec h.nextID_lt hget hre
  refine ⟨fs, ?_⟩
  split at ht
  · rw [← Option.some.inj ht]
    exact htook
  · rw [← Option.some.inj ht, deliver_recv]
    exact htook

/-- What every frame taken off keeps, the drain keeps. -/
theorem drain_preserves {P : Receiver → Prop}
    (hP : ∀ r r' fs, (∀ k, (r.queues k).InOrder) → Receiver.Took r r' k fs → P r → P r') (fuel : Nat)
    (h : ∀ k, (s.recv.queues k).InOrder) (hs : P s.recv) :
    P (s.drain C env k fuel).1.recv := by
  induction fuel generalizing s with
  | zero => exact hs
  | succ fuel ih =>
    rw [drain]
    split
    · exact hs
    all_goals
      rename_i s₁ ht
      obtain ⟨fs, htook⟩ := takeOne_recv (h k) ht
      have hs₁ := hP _ _ _ h htook hs
    · exact hs₁
    · exact ih (htook.inOrder h) hs₁

/-- When a command is ready, the drain takes it out. -/
theorem drain_of_ready {P : Receiver → Prop}
    (hP : ∀ r r' fs, (∀ k, (r.queues k).InOrder) → Receiver.Took r r' k fs → P r') {fuel : Nat}
    (h : ∀ k, (s.recv.queues k).InOrder) (hready : (s.recv.queues k).Ready) :
    P (s.drain C env k (fuel + 1)).1.recv := by
  rw [drain]
  split
  · rename_i hnone
    exact absurd hready ((takeOne_eq_none_iff (h k)).mp hnone)
  all_goals
    rename_i s₁ ht
    obtain ⟨fs, htook⟩ := takeOne_recv (h k) ht
    have hs₁ := hP _ _ _ h htook
  · exact hs₁
  · exact drain_preserves (fun r r' fs h ht _ => hP r r' fs h ht) fuel (htook.inOrder h) hs₁

theorem drain_of_not_ready {fuel : Nat} (h : (s.recv.queues k).InOrder)
    (hready : ¬ (s.recv.queues k).Ready) : s.drain C env k (fuel + 1) = (s, false) := by
  rw [drain, (takeOne_eq_none_iff h).mpr hready]

/-- **A drain goes on until no command is ready**, unless the owner throws. -/
theorem drain_stuck {fuel : Nat} (h : ∀ k, (s.recv.queues k).InOrder)
    (hfuel : (s.recv.queues k).queue.size < fuel)
    (hthrows : (s.drain C env k fuel).2 = false) :
    ¬ ((s.drain C env k fuel).1.recv.queues k).Ready := by
  induction fuel generalizing s with
  | zero => exact absurd hfuel (Nat.not_lt_zero _)
  | succ fuel ih =>
    rw [drain] at hthrows ⊢
    cases ht : s.takeOne C env k with
    | none => exact (takeOne_eq_none_iff (h k)).mp ht
    | some result =>
      obtain ⟨s₁, threw⟩ := result
      rw [ht] at hthrows
      cases threw with
      | true => exact absurd hthrows (by simp)
      | false =>
        obtain ⟨fs, htook⟩ := takeOne_recv (h k) ht
        have hsize := htook.size_lt
        exact ih (htook.inOrder h) (by dsimp only at hsize; omega) hthrows

/-- With a command of one packet ready and none behind it, the drain hands on that
packet. -/
theorem drain_takes_one (C : Cipher) (env : Env) (fuel : Nat) {p : Packet} (h : ∀ k, (s.recv.queues k).InOrder)
    (hat : (s.recv.queues k).at? 0 = some p) (hwhole : isFragmented p = false)
    (hplain : (packetFlags p).compressed = false) (howner : env.owner p = {})
    (hnext : ∀ r', Receiver.Took s.recv r' k [p] → ¬ (r'.queues k).Ready) :
    ∃ s', s.drain C env k (fuel + 1) = (s', false) ∧ Receiver.Took s.recv s'.recv k [p] ∧
      s'.trace = s.trace ++ [.delivered p s.crypt.cryptoInitComplete] ∧ s'.closed = s.closed := by
  have hid := (h k).nextID_lt
  have hget : (s.recv.queues k).queue.get? (s.recv.queues k).nextID = some p := by
    rwa [ReceiveQueue.at?, Nat.add_zero, Nat.mod_eq_of_lt hid] at hat
  let r' := (Receiver.releaseRun k 1 s.recv (s.recv.queues k).nextID).1.modify k fun q =>
    { q with nextID := (Receiver.releaseRun k 1 s.recv (s.recv.queues k).nextID).2 }
  let s' := { s with recv := r' }.log (.delivered p s.crypt.cryptoInitComplete)
  have htook : Receiver.Took s.recv r' k [p] :=
    Receiver.took_releaseRun [p] hid (isFrame_iff.mpr (Or.inl ⟨p, rfl, hwhole⟩))
      fun i hi => by
        obtain rfl : i = 0 := by simpa using hi
        exact hat
  have htake : s.takeOne C env k = some (s', false) := by
    have hre : s.recv.tryReassemble k p (s.recv.queues k).nextID =
        some ((Receiver.releaseRun k 1 s.recv (s.recv.queues k).nextID).1,
          (Receiver.releaseRun k 1 s.recv (s.recv.queues k).nextID).2, some p) := by
      rw [Receiver.tryReassemble]
      exact if_pos hwhole
    simp only [takeOne, hget, hre, Option.bind_some, tryDecompress, if_pos hplain, deliver, howner]
    split_ifs <;> rfl
  refine ⟨s', ?_, htook, rfl, rfl⟩
  rw [drain, htake]
  cases fuel with
  | zero => rfl
  | succ fuel => exact drain_of_not_ready (htook.inOrder h k) (hnext r' htook)

/-! ### A command that has been decrypted -/

/-- **What becomes of a command**: it is taken and the queue drained, it is
acknowledged once more, or it is dropped. -/
theorem handlePacket_command {p : Packet} (htype : packetType p = k.packetType) (dummyUsed : Bool) :
    s.handlePacket C env p dummyUsed =
      if (s.recv.queues k).win.isInWindow p.id then
        if s.recv.hasRoom k p then
          { s.sendAck C env p.id k.ackType dummyUsed with recv := s.recv.hold k p }.drain C env k
            (((s.recv.hold k p).queues k).queue.size + 1)
        else (s, false)
      else if (s.recv.queues k).win.isOldPacket p.id then
        (s.sendAck C env p.id k.ackType dummyUsed, false)
      else (s, false) := by
  have hping : packetType p ≠ .ping := by rw [htype]; cases k <;> decide
  have hkind : (packetType p).queueKind? = some k := PacketType.queueKind?_eq_some.mpr htype
  have hacked : (packetType p).ackedKind? = none := by rw [htype]; cases k <;> rfl
  have hrecv : (s.sendAck C env p.id k.ackType dummyUsed).recv = s.recv := by simp [sendAck]
  simp only [handlePacket, if_neg hping, handleCommandWindowAndAck, hkind]
  split_ifs
  · simp only [handlePacketQueue, hkind, hrecv, updatePostReceiveState, hacked]
    split <;> simp_all
  · rfl
  · rfl
  · rfl

theorem noteReceived_recv {p : Packet} (htype : packetType p = k.packetType) (size : Nat) :
    (s.noteReceived env p size).recv = s.recv := by
  simp only [noteReceived, htype]
  cases k <;> simp [QueueKind.packetType, Receiver.advanceReceiveGeneration]

theorem noteReceived_closed (p : Packet) (size : Nat) :
    (s.noteReceived env p size).closed = s.closed := by
  simp only [noteReceived]
  split_ifs
  · split <;> rfl
  · rfl

theorem noteReceived_trace (p : Packet) (size : Nat) :
    (s.noteReceived env p size).trace = s.trace := by
  simp only [noteReceived]
  split_ifs
  · split <;> rfl
  · rfl

/-- A datagram with a command: its effect on the figures, then the command's, then
what the owner calls if that threw. -/
theorem step_command {raw : Bytes} {s₁ : PacketHandler} {p : Packet} (hclosed : s.closed = false)
    (hopen : s.openPacket C env raw = some (s₁, p)) (htype : packetType p = k.packetType) :
    let r := (s.noteReceived env p raw.length).handlePacket C env p p.dummyUsed
    s.step C (env, .datagram raw) =
      r.1.runCalls C env (if r.2 then env.onReceiveError else []) := by
  obtain ⟨rfl, -⟩ := openPacket_fresh hopen htype
  simp only [step, hclosed, Bool.false_eq_true, if_false, handleRawPacket, hopen]
  split <;> rename_i s₂ h <;> rw [h] <;> rfl

/-- A command that is taken and leaves none ready is acknowledged and held, and
that is all. -/
theorem step_holds {raw : Bytes} {s₁ : PacketHandler} {p : Packet} (hv : s.recv.Valid)
    (hclosed : s.closed = false) (hsocket : ∀ d, env.refuses d = false)
    (hopen : s.openPacket C env raw = some (s₁, p)) (htype : packetType p = k.packetType)
    (hin : (s.recv.queues k).win.isInWindow p.id = true) (hroom : s.recv.hasRoom k p = true)
    (hready : ¬ ((s.recv.hold k p).queues k).Ready) :
    (s.step C (env, .datagram raw)).recv = s.recv.hold k p ∧
      (s.step C (env, .datagram raw)).closed = false ∧
      ∃ t outs, (s.step C (env, .datagram raw)).trace = s.trace ++ .numbered t :: outs ∧
        packetType t.packet = k.ackType ∧ t.packet.data = uint16BE p.id ∧
        ∀ o ∈ outs, o.isWire = true := by
  obtain ⟨rfl, hfresh⟩ := openPacket_fresh hopen htype
  have horder := Receiver.hold_inOrder hv.inOrder hfresh.id_lt hin k
  let s₂ := s₁.noteReceived env p raw.length
  have hkey : p.dummyUsed = true ∨ s₂.crypt.cryptoInitComplete = true := by
    rw [(noteReceived_frame env p raw.length).1, hfresh.dummyUsed]
    cases s₁.crypt.cryptoInitComplete <;> simp
  obtain ⟨t, outs, hpacket, -, -, -, -, htrace, houts⟩ :=
    sendPacketRaw_spec C env k.ackType (uint16BE p.id) .none hkey
  rw [step_command hclosed hopen htype, handlePacket_command htype, noteReceived_recv htype,
    if_pos hin, if_pos hroom, drain_of_not_ready horder hready]
  refine ⟨rfl, ?_, t, outs, ?_, by rw [hpacket]; rfl, by rw [hpacket]; rfl, houts⟩
  · change (s₂.sendAck C env p.id k.ackType p.dummyUsed).closed = false
    rw [sendAck, sendPacketRaw_closed hsocket]
    exact (noteReceived_closed _ _).trans hclosed
  · change (s₂.sendAck C env p.id k.ackType p.dummyUsed).trace = _
    rw [sendAck, htrace, noteReceived_trace]

/-- An event that holds no command takes nothing into the queues. -/
theorem step_no_command {P : PacketHandler → Prop} {e : Env × Event}
    (hnone : ∀ p, eventPacket C s e = some p → (packetType p).queueKind? = none)
    (hP : ∀ s s' op, RecvChange e.1 op s s' → (∀ p, op = some p → (packetType p).queueKind? = none) →
      s.recv.Valid → P s → P s')
    (hv : s.recv.Valid) (hs : P s) : P (s.step C e) :=
  ((step_acts s e).preserves (P := fun s => s.recv.Valid ∧ P s)
    (fun _ _ h hs => ⟨h.recv_valid hs.1, hP _ _ _ (h.recv_cases hs.1.inOrder) hnone hs.1 hs.2⟩)
    ⟨hv, hs⟩).2

/-! ### In the clear -/

/-- A packet as it comes out of a datagram. -/
def received (generation id : Nat) (t : TypeFlagged) (data : Bytes) (now : Time) (dummy : Bool) :
    Packet where
  typeFlagged := t
  id := id
  clientID := 0
  generationID := generation
  data := data
  receivedAt := now
  dummyUsed := dummy
  firstArrived := now

theorem parts_clearDatagram (generation id : Nat) (t : TypeFlagged) (data : Bytes) :
    tagOf (clearDatagram generation id t data) = uint64BE generation ∧
      headerOf (clearDatagram generation id t data) = buildS2CHeader id t ∧
      ciphertextOf (clearDatagram generation id t data) = data ∧
      (clearDatagram generation id t data).length = 11 + data.length := by
  refine ⟨rfl, rfl, rfl, ?_⟩
  simp [clearDatagram, uint64BE, buildS2CHeader, uint16BE]
  omega

/-- The cipher in the clear opens a command in the generation its window expects. -/
theorem openPacket_clearDatagram (env : Env) (id : Nat) (t : TypeFlagged) (data : Bytes)
    (htype : t.type = k.packetType) (hun : t.flags.unencrypted = false) (hid : id < 65536)
    (hlen : data.length ≤ 4000)
    (hgen : (s.recv.queues k).win.getGeneration id < 18446744073709551616) :
    s.openPacket clearCipher env
        (clearDatagram ((s.recv.queues k).win.getGeneration id) id t data) =
      some (s, received ((s.recv.queues k).win.getGeneration id) id t data env.now
        (!s.crypt.cryptoInitComplete)) := by
  obtain ⟨htag, hheader, hct, hlength⟩ :=
    parts_clearDatagram ((s.recv.queues k).win.getGeneration id) id t data
  have hresolve : s.recv.resolveGeneration s.send.sendWindow id t.type =
      (s.recv.queues k).win.getGeneration id := by rw [htype]; cases k <;> rfl
  have hinit : t.type ≠ .init1 := by rw [htype]; cases k <;> decide
  have hiv : ∃ iv, s.crypt.keyIV (!s.crypt.cryptoInitComplete) = some iv := by
    cases h : s.crypt.cryptoInitComplete <;> simp [Crypt.keyIV, h]
  obtain ⟨iv, hiv⟩ := hiv
  have hdec : ∀ gen, gen < 18446744073709551616 → s.crypt.decrypt clearCipher t.type id gen
      (buildS2CHeader id t) data (uint64BE gen) (!s.crypt.cryptoInitComplete)
        t.flags.unencrypted = some data := by
    intro gen hlt
    simp [Crypt.decrypt, hinit, hun, hiv, clearCipher, hlt]
  have hsize : ¬ ((clearDatagram ((s.recv.queues k).win.getGeneration id) id t data).length < 11 ∨
      (clearDatagram ((s.recv.queues k).win.getGeneration id) id t data).length > maxDatagramSize) := by
    rw [hlength, maxDatagramSize]
    omega
  simp only [tagOf, headerOf, ciphertextOf] at htag hheader hct
  simp only [openPacket, if_neg hsize, htag, hheader, hct, parse_buildS2CHeader hid, hinit,
    false_and, if_false, hresolve, decryptPacketData, packetFlags, packetType, hun,
    Bool.false_eq_true, received]
  rw [← hun, hdec _ hgen]
  rfl

end PacketHandler

end Teamspeak.Transport
