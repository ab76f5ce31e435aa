import Teamspeak.Transport.Handler.Delivery
import Teamspeak.Transport.Handler.Sending

/-!
# Acknowledged packets

* `ack_safe`: a command packet is acknowledged only when it has been taken out of
  its queue or is held there, where it stays until it is taken out; one that is
  dropped is not acknowledged.
* `lost_at_the_cap`: past 2 ^ 48 packets an acknowledged packet can be replaced
  by one a generation before it.
-/

namespace Teamspeak.Transport

open Framing

namespace PacketHandler

variable {C : Cipher} {env : Env} {op : Option Packet} {s s' : PacketHandler}
variable {st : ServerStream} {k : QueueKind} {A : Nat}

/-! ### Kept packets -/

/-- The packet at this place is held as the server sent it, or has been taken
out. -/
def Kept (st : ServerStream) (s : PacketHandler) (k : QueueKind) (A : Nat) : Prop :=
  (s.bufferOf k []).Safe (st.packets k) A

theorem Act.kept (h : Act C env op s s') (hshort : st.Short) (hauth : Authentic st op)
    (hs : InStep st s) (hA : s.Kept st k A) : s'.Kept st k A := by
  rcases h.buffer_cases hs.valid k with
    ⟨hbuffer, -⟩ | ⟨p, hop, htype, hplace, hbuffer, -⟩ | ⟨f, hframe, hoffers, hbuffer, -⟩
  · rw [Kept, hbuffer]
    exact hA
  · rw [Kept, hbuffer]
    exact hA.insert (hauth k p hop htype)
  · obtain ⟨out, hf⟩ := hs.follows k
    have hpop := hbuffer (hf.below_cap hshort (hoffers out)) []
    have hsafe := Buffer.Safe.pop f hA
    rw [← hpop] at hsafe
    exact hsafe

theorem run_kept (hshort : st.Short) {es : List (Env × Event)} (hes : GenuineEvents C st es)
    (hs : InStep st s) (hA : s.Kept st k A) : (run (step C) s es).Kept st k A := by
  induction es generalizing s with
  | nil => exact hA
  | cons e es ih =>
    have hauth := authentic_of_genuine (s := s) (hes e List.mem_cons_self)
    have hstep := (step_acts s e).preserves (P := fun s => InStep st s ∧ s.Kept st k A)
      (fun _ _ h hs => ⟨h.inStep hshort hauth hs.1, h.kept hshort hauth hs.1 hs.2⟩) ⟨hs, hA⟩
    exact ih (fun e' he' => hes e' (List.mem_cons_of_mem _ he')) hstep.1 hstep.2

/-- The packet at this place is held under its id, or the queue is past it, and all
up to where the queue is are the commands that were handed on and dropped. -/
def HeldOrTaken (st : ServerStream) (s : PacketHandler) (k : QueueKind) (A : Nat) : Prop :=
  (∃ q, (s.recv.queues k).queue.get? (A % 65536) = some q ∧
    (st.packets k)[A]? = some (content q)) ∨
  A < (s.recv.queues k).win.position ∧
    ∃ n, ((st.commands k).take n).flatten.length = (s.recv.queues k).win.position ∧
      s.deliveredOf k = ((st.commands k).take n).filterMap outcome

theorem Kept.heldOrTaken (hA : s.Kept st k A) (hs : InStep st s) : HeldOrTaken st s k A := by
  rcases hA with hlt | ⟨c, hc, hA⟩
  · obtain ⟨out, hf⟩ := hs.follows k
    have hprefix : out <+: st.commands k := hf.tracks.out_prefix hf.isFrame (st.isFrame k)
    have hlen : out.flatten.length = (s.recv.queues k).win.position := by
      have hout : out.flatten = (st.packets k).take (s.recv.queues k).win.position := hf.tracks.out
      rw [hout, List.length_take]
      exact Nat.min_eq_left hf.tracks.next_le
    refine Or.inr ⟨hlt, out.length, ?_, ?_⟩
    · rw [← List.prefix_iff_eq_take.mp hprefix, hlen]
    · rw [← List.prefix_iff_eq_take.mp hprefix]
      exact hf.delivered
  · simp only [bufferOf, ReceiveQueue.buffer] at hc
    split_ifs at hc with hin
    obtain ⟨q, hq, rfl⟩ := Option.map_eq_some_iff.mp hc
    refine Or.inl ⟨q, ?_, hA⟩
    have hbase := GenerationWindow.position_mod (s.recv.queues k).win
    rw [ReceiveQueue.at?, (hs.valid.inOrder k).nextID_eq] at hq
    rwa [show A % 65536 = ((s.recv.queues k).win.mappedBaseOffset +
      (A - (s.recv.queues k).win.position)) % 65536 by omega]

/-! ### Acknowledging -/

/-- At the moment it is acknowledged a packet has been taken out, or is held. -/
theorem AckOf.kept {t : Transmission} (h : AckOf env op s s' t k) (hauth : Authentic st op)
    (hs : InStep st s) : ∃ p, op = some p ∧ packetType p = k.packetType ∧
      t.packet.data = uint16BE p.id ∧ s'.Kept st k (place p) := by
  obtain ⟨p, hop, hfresh, hdata, hcases⟩ := h
  refine ⟨p, hop, hfresh.type, hdata, ?_⟩
  rcases hcases with ⟨hold, hrecv⟩ | ⟨hin, hrecv⟩
  · rw [Kept, bufferOf, hrecv]
    exact Or.inl (place_lt_of_isOldPacket hfresh.id_lt hfresh.generation hold)
  · obtain ⟨i, hi, hplace, hid⟩ := place_of_isInWindow (hs.valid.inOrder k) hfresh.id_lt
      hfresh.generation hin
    obtain ⟨-, -, hwin, -⟩ := Receiver.hold_spec s.recv k p
    rw [Kept, bufferOf, hrecv, hwin, Receiver.buffer_hold (hs.valid.inOrder k) hi hid, ← hplace]
    refine Or.inr ⟨content p, ?_, hauth k p hop hfresh.type⟩
    simp [Buffer.insert]

/-- What the acknowledgements among these outputs are of has been kept. -/
def AcksKept (st : ServerStream) (op : Option Packet) (s : PacketHandler) (outs : List Output) :
    Prop :=
  ∀ k t, .numbered t ∈ outs → packetType t.packet = k.ackType →
    ∃ p, op = some p ∧ packetType p = k.packetType ∧ t.packet.data = uint16BE p.id ∧
      s.Kept st k (place p)

theorem Act.acksKept (h : Act C env op s s') (hshort : st.Short) (hauth : Authentic st op)
    (hs : InStep st s) {outs : List Output} (houts : AcksKept st op s outs) :
    ∃ new, s'.trace = s.trace ++ new ∧ AcksKept st op s' (outs ++ new) := by
  have hearlier : AcksKept st op s' outs := fun k t ht hk => by
    obtain ⟨p, hop, htype, hdata, hkept⟩ := houts k t ht hk
    exact ⟨p, hop, htype, hdata, h.kept hshort hauth hs hkept⟩
  have hnone : ∀ new : List Output, (∀ o ∈ new, ∀ t, o ≠ .numbered t) →
      AcksKept st op s' (outs ++ new) := fun new hnew k t ht hk => by
    rcases List.mem_append.mp ht with ht | ht
    · exact hearlier k t ht hk
    · exact absurd rfl (hnew _ ht t)
  rcases h.send_cases with
    ⟨new, -, htrace, hnew⟩ | ⟨t, wire, -, -, -, -, -, hack, -, htrace, hwire⟩ | ⟨k, id, -, -, htrace⟩ |
      ⟨key, rp, rp', new, -, -, -, htrace, hnew⟩ | ⟨key, new, -, -, htrace, hnew⟩
  · refine ⟨new, htrace, hnone new fun o ho t heq => ?_⟩
    obtain ⟨t', rp, heq', -⟩ := hnew o ho (by rw [heq]; rfl)
    rw [heq] at heq'
    exact absurd heq' (by simp)
  · refine ⟨.numbered t :: wire, htrace, fun k t' ht hk => ?_⟩
    rcases List.mem_append.mp ht with ht | ht
    · exact hearlier k t' ht hk
    · rcases List.mem_cons.mp ht with heq | ht
      · obtain rfl := Output.numbered.inj heq
        exact (hack k hk).kept hauth hs
      · exact absurd (hwire _ ht) (by simp [Output.isWire])
  · refine ⟨_, htrace, hnone _ fun o ho t heq => ?_⟩
    rw [List.mem_singleton.mp ho] at heq
    exact absurd heq (by simp)
  · refine ⟨new, htrace, hnone new fun o ho t heq => ?_⟩
    rcases hnew o ho with hw | ⟨t', heq', -⟩
    · rw [heq] at hw
      exact absurd hw (by simp [Output.isWire])
    · rw [heq] at heq'
      exact absurd heq' (by simp)
  · refine ⟨new, htrace, hnone new fun o ho t heq => ?_⟩
    have := hnew o ho
    rw [heq] at this
    exact absurd this (by simp [Output.isBook])

theorem step_acksKept {e : Env × Event} (hshort : st.Short)
    (he : ∀ raw, e.2 = .datagram raw → Genuine C st raw) (hs : InStep st s) :
    ∃ outs, (s.step C e).trace = s.trace ++ outs ∧
      AcksKept st (eventPacket C s e) (s.step C e) outs := by
  have hauth := authentic_of_genuine (s := s) he
  obtain ⟨-, outs, htrace, houts⟩ := (step_acts s e).preserves
    (P := fun s₁ => InStep st s₁ ∧ ∃ outs, s₁.trace = s.trace ++ outs ∧
      AcksKept st (eventPacket C s e) s₁ outs)
    (fun s₁ s₂ h ⟨hs₁, outs, htrace, houts⟩ => by
      obtain ⟨new, htrace', houts'⟩ := h.acksKept hshort hauth hs₁ houts
      exact ⟨h.inStep hshort hauth hs₁, outs ++ new, by rw [htrace', htrace, List.append_assoc],
        houts'⟩)
    ⟨hs, [], by simp, fun k t ht => absurd ht (by simp)⟩
  exact ⟨outs, htrace, houts⟩

/-! ### Dropped packets -/

/-- A packet ahead of the window, or in it and without room, leaves no trace. -/
theorem step_drops {e : Env × Event} (hs : InStep st s) {p : Packet}
    (hp : eventPacket C s e = some p) (htype : packetType p = k.packetType)
    (hdrop : (s.recv.queues k).win.position + receivePacketWindowSize ≤ place p ∨
      ((s.recv.queues k).win.position ≤ place p ∧ s.recv.hasRoom k p = false)) :
    (s.step C e).trace = s.trace ∧ (s.step C e).recv = s.recv := by
  obtain ⟨env, ev⟩ := e
  cases ev with
  | datagram raw =>
    by_cases hclosed : s.closed = true
    · simp only [step, hclosed, if_true, and_self]
    obtain ⟨⟨s₁, q⟩, hopen, hq⟩ := Option.map_eq_some_iff.mp hp
    obtain rfl : q = p := hq
    have hstep := step_command (by simpa using hclosed) hopen htype
    obtain ⟨rfl, hfresh⟩ := openPacket_fresh hopen htype
    have hindex := mappedToIndex_place hfresh.id_lt hfresh.generation
    have hold : (s₁.recv.queues k).win.isOldPacket q.id = false := by
      rw [GenerationWindow.isOldPacket, hindex, decide_eq_false_iff_not]
      omega
    have hnot : ¬ ((s₁.recv.queues k).win.isInWindow q.id = true ∧ s₁.recv.hasRoom k q = true) := by
      rintro ⟨hin, hroom⟩
      rcases hdrop with hahead | ⟨-, hno⟩
      · have hfuture := ((GenerationWindow.isInWindow_iff _ hfresh.id_lt).mp hin).2
        rw [GenerationWindow.isFuturePacket, hindex, decide_eq_false_iff_not] at hfuture
        exact hfuture (by push_cast; omega)
      · rw [hno] at hroom
        exact absurd hroom (by simp)
    have hhandle : (s₁.noteReceived env q raw.length).handlePacket C env q q.dummyUsed =
        (s₁.noteReceived env q raw.length, false) := by
      rw [handlePacket_command htype, noteReceived_recv htype, hold, if_neg Bool.false_ne_true]
      split_ifs with hin hroom
      · exact absurd ⟨hin, hroom⟩ hnot
      · rfl
      · rfl
    rw [hstep, hhandle]
    exact ⟨noteReceived_trace _ _, noteReceived_recv htype _⟩
  | _ => exact absurd hp (by simp [eventPacket])

/-! ### At the cap -/

theorem filterMap_outcome_plainStream (l : List Bytes) (n : Nat) :
    (((plainStream l).commands .command).take n).filterMap outcome =
      (l.take n).map fun d => (({} : PacketFlags), d) := by
  have hsome : outcome ∘ (fun d : Bytes => [(({} : PacketFlags), d)]) = fun d => some ({}, d) := rfl
  rw [plainStream, ← List.map_take, List.filterMap_map, hsome]
  exact congrFun (List.filterMap_eq_map (f := fun d : Bytes => (({} : PacketFlags), d))) _

/-- The handler has handed on so many commands of the byte `a`, and waits for the
packet at place `N`. -/
structure Waiting (s : PacketHandler) (N n b : Nat) : Prop where
  valid : s.recv.Valid
  closed : s.closed = false
  position : (s.recv.queues .command).win.position = N
  missing : (s.recv.queues .command).at? 0 = none
  bytes : s.recv.queuedBytes ≤ b
  delivered : s.deliveredOf .command = List.replicate n ({}, [97])

theorem Flooded.waiting {N n : Nat} (h : Flooded s n)
    (hposition : (s.recv.queues .command).win.position = N) : Waiting s N n 0 :=
  ⟨h.valid, h.closed, hposition, h.empty _ _, h.queuedBytes.le, h.delivered⟩

/-- A packet ahead is acknowledged and held. -/
theorem Waiting.ahead {N n b i : Nat} {d : Bytes} (h : Waiting s N n b) (hi₀ : 0 < i)
    (hi : i < receivePacketWindowSize) (hN : N < 281474976710656) (hd : d.length = 1)
    (hb : b < 1000) :
    let s' := s.step clearCipher (plainDatagram (N + i) d)
    Waiting s' N n (b + 1) ∧
      (∃ p, content p = ({}, d) ∧ (s'.recv.queues .command).at? i = some p) ∧
      (∀ j < 65536, j ≠ i → (s'.recv.queues .command).at? j = (s.recv.queues .command).at? j) ∧
      ∃ t outs, s'.trace = s.trace ++ .numbered t :: outs ∧ packetType t.packet = .ack ∧
        t.packet.data = uint16BE ((N + i) % 65536) := by
  intro s'
  have hposition := h.position
  have hbytes := h.bytes
  simp only [receivePacketWindowSize] at hi
  obtain ⟨⟨p, hp, hid, hrecv⟩, hclosed, t, outs, htrace, htype, hdata, houts⟩ :=
    step_plain_ahead (A := N + i) (d := d) h.valid h.closed (by omega) h.missing (by omega)
      (by simp only [receivePacketWindowSize]; omega) (by omega)
      (by simp only [maxQueuedBytes]; omega)
  obtain ⟨-, -, hwin, -, -, hcount⟩ := Receiver.hold_spec s.recv .command p
  have hpid : p.id = ((s.recv.queues .command).nextID + i) % 65536 := by
    have hbase := GenerationWindow.position_mod (s.recv.queues .command).win
    rw [hid, (h.valid.inOrder .command).nextID_eq]
    omega
  have hat : ∀ j < 65536, (s'.recv.queues .command).at? j =
      if i = j then some { p with firstArrived := (s.recv.queues .command).arrival p }
      else (s.recv.queues .command).at? j := fun j hj => by
    rw [hrecv]
    exact Receiver.hold_at? (h.valid.inOrder .command) (by omega) hj hpid
  refine ⟨⟨step_recv_valid _ h.valid, hclosed, ?_, ?_, ?_, ?_⟩,
    ⟨{ p with firstArrived := (s.recv.queues .command).arrival p }, hp,
      by rw [hat i (by omega), if_pos rfl]⟩,
    fun j hj hji => by rw [hat j hj, if_neg (Ne.symm hji)], t, outs, htrace, htype, hdata⟩
  · rw [hrecv, hwin, hposition]
  · rw [hat 0 (by decide), if_neg (by omega)]
    exact h.missing
  · have hlen : p.data.length = 1 := by
      rw [← hd]
      exact congrArg (fun c : Content => c.2.length) hp
    rw [hrecv, hcount]
    omega
  · rw [← h.delivered]
    exact (Quiet.of_numbered htrace houts).deliveredOf .command

/-- The packet that is waited for is handed on, and with none behind it the queue
waits again. -/
theorem Waiting.take {N n b : Nat} (h : Waiting s N n b) (hN : N < 281474976710656)
    (hnext : (s.recv.queues .command).at? 1 = none) :
    let s' := s.step clearCipher (plainDatagram N [97])
    Waiting s' ((s.recv.queues .command).win.advance 1).position (n + 1) (b + 1) := by
  intro s'
  have hposition := h.position
  obtain ⟨raw, hraw, hopen⟩ := openPacket_plainDatagram (s := s) (d := [97]) (A := N) (by decide)
    hposition.le (by simp only [receivePacketWindowSize]; omega) (by omega)
  set p := received (N / 65536) (N % 65536) ⟨.command, {}⟩ [97] 0 (!s.crypt.cryptoInitComplete)
  have hnextID := (h.valid.inOrder .command).nextID_lt
  have hid : p.id = (s.recv.queues .command).nextID := by
    rw [(h.valid.inOrder .command).nextID_eq, ← GenerationWindow.position_mod, hposition]
    rfl
  obtain ⟨-, -, hwin, -, -, hcount⟩ := Receiver.hold_spec s.recv .command p
  have hgone : ∀ p' r', Receiver.Took (s.recv.hold .command p) r' .command [p'] →
      (r'.queues .command).at? 0 = none := by
    intro p' r' htook
    rw [htook.at? (by simp) (by decide), List.length_singleton, if_pos (by decide),
      Receiver.hold_at? (h.valid.inOrder .command) (i := 0) (by decide) (by decide)
        (by rw [hid]; omega), if_neg (by decide), hnext]
  obtain ⟨⟨p', htook⟩, hclosed, hdelivered⟩ := step_takes_one h.valid h.closed (fun _ => rfl)
    (fun _ => rfl) hopen rfl hid h.missing rfl rfl fun p' r' htook hready => by
      obtain ⟨fs, hframe, hoffered⟩ := hready
      have := hoffered 0 hframe.length_pos
      rw [hgone p' r' htook] at this
      exact absurd this (by simp)
  have hs' : s' = s.step clearCipher ({ now := 0 }, .datagram raw) := by rw [← hraw]
  rw [hs']
  refine ⟨step_recv_valid _ h.valid, hclosed, ?_, hgone p' _ htook, ?_, ?_⟩
  · rw [htook.win, hwin]
    rfl
  · have hle := htook.queuedBytes_le
    have hb := h.bytes
    have hlen : p.data.length = 1 := rfl
    rw [hcount] at hle
    omega
  · rw [hdelivered, h.delivered, List.replicate_succ']
    rfl

/-- The window of a flooded queue wraps at the cap with one packet held ahead, and
a packet of the generation before takes its place. -/
theorem lost_of_eq {N : Nat} (hN : N = 281474976710656) :
    let st := plainStream (List.replicate (N + 1) [97] ++ [[98]])
    let s := after clearCipher { now := 0 } [] (flood (N - 1))
    let e := plainDatagram (N - 1 + 2) [98]
    let es := [plainDatagram (N - 1) [97], plainDatagram (N - 65536 + 1) [97]]
    GenuineEvents clearCipher st (flood (N - 1) ++ e :: es) ∧
      (∃ t outs, (s.step clearCipher e).trace = s.trace ++ .numbered t :: outs ∧
        packetType t.packet = .ack ∧ t.packet.data = uint16BE ((N - 1 + 2) % 65536)) ∧
      ¬ HeldOrTaken st (run (step clearCipher) (s.step clearCipher e) es) .command (N - 1 + 2) := by
  intro st s e es
  obtain ⟨hs, hposition⟩ := flooded_after (n := N - 1) (by omega)
  obtain ⟨h₁, -, hat₁, hack⟩ := (hs.waiting hposition).ahead (i := 2) (d := [98]) (by decide)
    (by decide) (by omega) rfl (by decide)
  have h₂ := h₁.take (by omega) (by rw [hat₁ 1 (by decide) (by decide)]; exact hs.empty _ _)
  rw [GenerationWindow.advance_position_at_cap _ (by rw [h₁.position]; omega),
    show 281474976645120 = N - 65536 by omega] at h₂
  obtain ⟨h₃, ⟨q, hq, hat₃⟩, -⟩ := h₂.ahead (i := 1) (d := [97]) (by decide) (by decide) (by omega)
    rfl (by decide)
  have hrun : run (step clearCipher) (s.step clearCipher e) es =
      ((s.step clearCipher e).step clearCipher (plainDatagram (N - 1) [97])).step clearCipher
        (plainDatagram (N - 65536 + 1) [97]) := rfl
  have hstream : ∀ A ≤ N, (List.replicate (N + 1) ([97] : Bytes) ++ [[98]])[A]? = some [97] :=
    fun A hA => by
      rw [List.getElem?_append_left (by rw [List.length_replicate]; omega),
        List.getElem?_replicate, if_pos (by omega)]
  have hlast : (List.replicate (N + 1) ([97] : Bytes) ++ [[98]])[N - 1 + 2]? = some [98] := by
    rw [show N - 1 + 2 = N + 1 by omega, List.getElem?_append_right (by rw [List.length_replicate]),
      List.length_replicate, Nat.sub_self]
    rfl
  refine ⟨fun x hx => ?_, hack, ?_⟩
  · rcases List.mem_append.mp hx with hx | hx
    · obtain ⟨A, hA, rfl⟩ := List.mem_map.mp hx
      rw [List.mem_range] at hA
      exact genuine_plainDatagram (by omega) (hstream A (by omega))
    · rcases List.mem_cons.mp hx with rfl | hx
      · exact genuine_plainDatagram (by omega) hlast
      · rcases List.mem_pair.mp hx with rfl | rfl
        · exact genuine_plainDatagram (by omega) (hstream _ (by omega))
        · exact genuine_plainDatagram (by omega) (hstream _ (by omega))
  · rw [hrun]
    rintro (⟨q', hq', hcontent⟩ | ⟨hn, n, htaken, hdelivered⟩)
    · -- Under its id the queue holds the byte `a`.
      have hbase := GenerationWindow.position_mod
        ((((s.step clearCipher e).step clearCipher (plainDatagram (N - 1) [97])).step clearCipher
          (plainDatagram (N - 65536 + 1) [97])).recv.queues .command).win
      rw [h₃.position] at hbase
      rw [ReceiveQueue.at?, (h₃.valid.inOrder .command).nextID_eq, ← hbase] at hat₃
      rw [show (N - 1 + 2) % 65536 = ((N - 65536) % 65536 + 1) % 65536 by omega, hat₃] at hq'
      rw [packets_plainStream, List.getElem?_map, hlast, ← Option.some.inj hq', hq] at hcontent
      exact absurd hcontent (by decide)
    · -- Taken out are `N` commands, too few to count it in.
      rw [h₃.delivered, filterMap_outcome_plainStream] at hdelivered
      have hlen := congrArg List.length hdelivered
      have hflat : (((plainStream (List.replicate (N + 1) [97] ++ [[98]])).commands
          .command).take n).flatten.length = ((List.replicate (N + 1) ([97] : Bytes) ++
            [[98]]).take n).length := by
        have := congrArg List.length
          (packets_plainStream ((List.replicate (N + 1) ([97] : Bytes) ++ [[98]]).take n))
        rw [List.length_map] at this
        rw [← this, ServerStream.packets, plainStream, plainStream, ← List.map_take]
      rw [← htaken, hflat] at hn
      rw [List.length_replicate, List.length_map] at hlen
      omega

/-! ### In every run -/

/-- **A packet is acknowledged only once it is safe.**  Whenever an event of a run
sends an acknowledgement, it is of the server's packet that the event brought,
and that packet is held, or among the commands taken out, from then on, whatever
of the server's follows; and an event whose packet lies ahead of the window, or
in it without room, sends none. -/
theorem ack_safe (C : Cipher) (st : ServerStream) (hshort : st.Short) (env₀ : Env)
    (init1Data : Bytes) (es : List (Env × Event)) (hes : GenuineEvents C st es) (e : Env × Event)
    (he : ∀ raw, e.2 = .datagram raw → Genuine C st raw) :
    let s := after C env₀ init1Data es
    ∃ outs, (s.step C e).trace = s.trace ++ outs ∧
      (∀ k t, .numbered t ∈ outs → packetType t.packet = k.ackType →
        ∃ p, eventPacket C s e = some p ∧ packetType p = k.packetType ∧
          t.packet.data = uint16BE p.id ∧ (st.packets k)[place p]? = some (content p) ∧
          ∀ es', GenuineEvents C st es' →
            HeldOrTaken st (run (step C) (s.step C e) es') k (place p)) ∧
      (∀ k p, eventPacket C s e = some p → packetType p = k.packetType →
        (s.recv.queues k).win.position + receivePacketWindowSize ≤ place p ∨
          ((s.recv.queues k).win.position ≤ place p ∧ s.recv.hasRoom k p = false) →
        ∀ (k' : QueueKind) (t : Transmission), .numbered t ∈ outs →
          packetType t.packet ≠ k'.ackType) := by
  intro s
  have hs : InStep st s := run_inStep hshort hes (start_inStep C st env₀ init1Data)
  obtain ⟨outs, htrace, houts⟩ := step_acksKept hshort he hs
  refine ⟨outs, htrace, fun k t ht hk => ?_, fun k p hp htype hdrop k' t ht _ => ?_⟩
  · obtain ⟨p, hp, htype, hdata, hkept⟩ := houts k t ht hk
    have hs' := step_inStep hshort he hs
    exact ⟨p, hp, htype, hdata, authentic_of_genuine he k p hp htype, fun es' hes' =>
      (run_kept hshort hes' hs' hkept).heldOrTaken (run_inStep hshort hes' hs')⟩
  · rw [(step_drops hs hp htype hdrop).1] at htrace
    rw [List.self_eq_append_right.mp htrace] at ht
    exact absurd ht (by simp)

/-- **At the cap an acknowledged packet can be lost**: one past the cap is
acknowledged and held ahead of the window's end, the window wraps without the
generation, and the packet a generation before it takes its place. -/
theorem lost_at_the_cap :
    let st := plainStream (List.replicate 281474976710657 [97] ++ [[98]])
    let s := after clearCipher { now := 0 } [] (flood 281474976710655)
    let e := plainDatagram 281474976710657 [98]
    let es := [plainDatagram 281474976710655 [97], plainDatagram 281474976645121 [97]]
    GenuineEvents clearCipher st (flood 281474976710655 ++ e :: es) ∧
      (∃ t outs, (s.step clearCipher e).trace = s.trace ++ .numbered t :: outs ∧
        packetType t.packet = .ack ∧ t.packet.data = uint16BE 1) ∧
      ¬ HeldOrTaken st (run (step clearCipher) (s.step clearCipher e) es) .command
        281474976710657 :=
  lost_of_eq rfl

/-- The second of two commands comes first: it is acknowledged, and safe when the
first has come. -/
theorem ack_safe_ahead :
    let st := plainStream [[97], [98]]
    let s := (after clearCipher { now := 0 } [] []).step clearCipher (plainDatagram 1 [98])
    HeldOrTaken st (run (step clearCipher) s [plainDatagram 0 [97]]) .command 1 := by
  intro st s
  have hgenuine := genuine_plainDatagram (l := [[97], [98]]) (A := 1) (d := [98]) (by decide) rfl
  obtain ⟨outs, htrace, hsafe, -⟩ := ack_safe clearCipher st (fun k => by cases k <;> decide)
    { now := 0 } [] [] (fun e he => absurd he (by simp)) (plainDatagram 1 [98]) hgenuine
  obtain ⟨-, -, t, wire, htrace', htype, -⟩ := step_plain_ahead
    (s := after clearCipher { now := 0 } [] []) (A := 1) (d := [98]) (recv_valid _ _ _ [])
    (by decide) (by decide) rfl (by decide) (by decide) (by decide) (by decide)
  rw [htrace, List.append_cancel_left_eq] at htrace'
  obtain ⟨p, hp, -, -, -, hkept⟩ := hsafe .command t (by rw [htrace']; simp) htype
  obtain ⟨raw, hraw, hopen⟩ := openPacket_plainDatagram
    (s := after clearCipher { now := 0 } [] []) (A := 1) (d := [98]) (by decide) (by decide)
    (by decide) (by decide)
  rw [hraw] at hp
  simp only [eventPacket, hopen, Option.map_some] at hp
  obtain rfl := Option.some.inj hp
  refine hkept [plainDatagram 0 [97]] fun e he => ?_
  rw [List.mem_singleton.mp he]
  exact genuine_plainDatagram (by decide) rfl

end PacketHandler

end Teamspeak.Transport
