import Teamspeak.Transport.Handler.Act
import Teamspeak.Transport.Handler.Queue

/-!
# The receive queues in every run

* `Act.recv_cases`: on the receiving side an act holds a packet, takes a command
  out, or leaves the queues alone.
* `Receiver.Valid`: each queue is in order, the byte counter is what is held, and
  what is held past a missing packet stays within `maxQueuedBytes`.
* `recv_valid`: so it is in every state of every run.
-/

namespace Teamspeak.Transport

open Framing PacketHandler

/-- A command handed on. -/
def Output.isCommand : Output → Bool
  | .delivered p _ => (packetType p).queueKind?.isSome
  | _ => false

theorem Output.isCommand_of_isWire {o : Output} (h : o.isWire = true) : o.isCommand = false := by
  cases o <;> simp_all [isWire, isCommand]

namespace PacketHandler

variable {C : Cipher} {env : Env} {op : Option Packet} {s s' : PacketHandler}

/-! ### What an act does to the queues -/

/-- The trace has grown by nothing that is a command handed on. -/
def Quiet (s s' : PacketHandler) : Prop :=
  ∃ outs, s'.trace = s.trace ++ outs ∧ ∀ o ∈ outs, o.isCommand = false

theorem Quiet.refl_of_eq (h : s'.trace = s.trace) : s.Quiet s' := ⟨[], by simp [h], by simp⟩

theorem Quiet.of_numbered {t : Transmission} {outs : List Output}
    (h : s'.trace = s.trace ++ .numbered t :: outs) (houts : ∀ o ∈ outs, o.isWire = true) :
    s.Quiet s' := by
  refine ⟨_, h, fun o ho => ?_⟩
  rcases List.mem_cons.mp ho with rfl | ho
  · rfl
  · exact Output.isCommand_of_isWire (houts o ho)

theorem quiet_triggerClose (reason : CloseReason) : s.Quiet (s.triggerClose reason) := by
  obtain ⟨outs, htrace, houts⟩ := triggerClose_trace (s := s) reason
  exact ⟨outs, htrace, fun o ho => by rw [houts o ho]; rfl⟩

theorem quiet_doResend (rp : ResendPacket) : s.Quiet (s.doResend C env rp).1 := by
  obtain ⟨-, -, outs, htrace, houts⟩ := doResend_frame (s := s) C env rp
  refine ⟨outs, htrace, fun o ho => ?_⟩
  rcases houts o ho with h | ⟨t, rfl⟩
  · exact Output.isCommand_of_isWire h
  · rfl

/-- **What an act does on the receiving side.** -/
inductive RecvChange (env : Env) (op : Option Packet) (s s' : PacketHandler) : Prop
  | idle (hqueues : s'.recv.queues = s.recv.queues) (hbytes : s'.recv.queuedBytes = s.recv.queuedBytes)
      (hcrypt : s'.crypt = s.crypt ∨ .cryptoInit s.heldPackets ∈ s'.trace)
      (hquiet : s.Quiet s')
  | hold (k : QueueKind) (p : Packet) (hop : op = some p) (hfresh : Fresh env s k p)
      (hin : (s.recv.queues k).win.isInWindow p.id = true) (hroom : s.recv.hasRoom k p = true)
      (hrecv : s'.recv = s.recv.hold k p) (hcrypt : s'.crypt = s.crypt) (hquiet : s.Quiet s')
  | take (k : QueueKind) (fs : List Packet) (htook : Receiver.Took s.recv s'.recv k fs)
      (hcrypt : s'.crypt = s.crypt)
      (htrace : s'.trace = s.trace ++ (((Receiver.assemble fs).bind tryDecompress).toList.map
        fun p => .delivered p s.crypt.cryptoInitComplete))

theorem handOn_frame (o : Option Packet) :
    (s.handOn o).recv = s.recv ∧ (s.handOn o).crypt = s.crypt ∧
      (s.handOn o).trace =
        s.trace ++ (o.toList.map fun p => .delivered p s.crypt.cryptoInitComplete) := by
  cases o <;> simp [handOn]

theorem Act.recv_cases (h : Act C env op s s') (hin : ∀ k, (s.recv.queues k).InOrder) :
    RecvChange env op s s' := by
  cases h with
  | close => exact .idle (by simp) (by simp) (Or.inl (by simp)) (.refl_of_eq (by simp))
  | triggerClose reason =>
    exact .idle (by simp) (by simp) (Or.inl (by simp)) (quiet_triggerClose reason)
  | send pType data flags dummy hkey hack =>
    obtain ⟨t, outs, -, -, -, -, -, htrace, houts⟩ :=
      sendPacketRaw_spec C env pType data flags hkey
    exact .idle (by simp) (by simp) (Or.inl (by simp)) (.of_numbered htrace houts)
  | voice pType flags payload hvoice =>
    obtain ⟨t, outs, -, -, -, -, htrace, houts⟩ :=
      sendNumbered_spec (s := s) C env hvoice flags payload
    exact .idle (by simp) (by simp) (Or.inl (by simp)) (.of_numbered htrace houts)
  | setClientID id => exact .idle rfl rfl (Or.inl rfl) (.refl_of_eq rfl)
  | receivedFinalInitAck => exact .idle rfl rfl (Or.inl rfl) (.refl_of_eq rfl)
  | setSharedSecret alpha beta sharedKey =>
    simp only [PacketHandler.setSharedSecret]
    split_ifs
    · exact .idle rfl rfl (Or.inl rfl) (.refl_of_eq rfl)
    · split
      · exact .idle rfl rfl (Or.inl rfl) (.refl_of_eq rfl)
      · exact .idle rfl rfl (Or.inr (by simp)) ⟨_, rfl, by simp [Output.isCommand]⟩
  | note _ hcrypt hqueues hbytes hsend hconn hclosed htrace =>
    exact .idle hqueues hbytes (Or.inl hcrypt) (.refl_of_eq htrace)
  | dummyAcked id => exact .idle rfl rfl (Or.inl rfl) (.refl_of_eq rfl)
  | reack k p hop hfresh hin hold =>
    have hkey : p.dummyUsed = true ∨ s.crypt.cryptoInitComplete = true := by
      rw [hfresh.dummyUsed]; cases s.crypt.cryptoInitComplete <;> simp
    obtain ⟨t, outs, -, -, -, -, -, htrace, houts⟩ :=
      sendPacketRaw_spec C env k.ackType (uint16BE p.id) .none hkey
    exact .idle (by simp [sendAck]) (by simp [sendAck]) (Or.inl (by simp [sendAck]))
      (.of_numbered htrace houts)
  | accept k p hop hfresh hin hroom =>
    have hkey : p.dummyUsed = true ∨ s.crypt.cryptoInitComplete = true := by
      rw [hfresh.dummyUsed]; cases s.crypt.cryptoInitComplete <;> simp
    obtain ⟨t, outs, -, -, -, -, -, htrace, houts⟩ :=
      sendPacketRaw_spec C env k.ackType (uint16BE p.id) .none hkey
    exact .hold k p hop hfresh hin hroom rfl (by simp [sendAck]) (.of_numbered htrace houts)
  | take k packet recv newNext reassembled hget hre =>
    obtain ⟨fs, htook, rfl⟩ := Receiver.tryReassemble_spec (hin k).nextID_lt hget hre
    obtain ⟨hrecv, hcrypt, htrace⟩ := handOn_frame
      (s := { s with recv := recv.modify k fun q => { q with nextID := newNext } })
      ((Receiver.assemble fs).bind tryDecompress)
    refine .take k fs ?_ hcrypt htrace
    rw [taken, hrecv]
    exact htook
  | deliver p hop hkind =>
    exact .idle rfl rfl (Or.inl rfl) ⟨_, rfl, by simp [Output.isCommand, hkind]⟩
  | updatePostReceiveState p hop =>
    simp only [PacketHandler.updatePostReceiveState]
    split
    · split_ifs
      · exact .idle rfl rfl (Or.inl rfl) ⟨_, rfl, by simp [Output.isCommand]⟩
      · exact .idle rfl rfl (Or.inl rfl) (.refl_of_eq rfl)
    · exact .idle rfl rfl (Or.inl rfl) (.refl_of_eq rfl)
  | resendInit =>
    simp only [PacketHandler.resendInit]
    split
    · exact .idle rfl rfl (Or.inl rfl) (.refl_of_eq rfl)
    · rename_i rp _
      obtain ⟨hrecv, hcrypt, -⟩ := doResend_frame (s := s) C env rp
      exact .idle (by rw [hrecv]) (by rw [hrecv]) (Or.inl hcrypt) (quiet_doResend rp)
  | resendCommand key rp hget =>
    obtain ⟨hrecv, hcrypt, -⟩ := doResend_frame (s := s) C env rp
    exact .idle (by simp [PacketHandler.resendCommand, hrecv]) (by simp [PacketHandler.resendCommand, hrecv])
      (Or.inl (by simp [PacketHandler.resendCommand, hcrypt])) (quiet_doResend rp)
  | expire key =>
    obtain ⟨outs, htrace, houts⟩ := quiet_triggerClose .connectionTimeout
      (s := { s with send := { s.send with ackManager := s.send.ackManager.delete key } })
    exact .idle (by simp [PacketHandler.expire]) (by simp [PacketHandler.expire]) (Or.inl (by simp [PacketHandler.expire]))
      ⟨outs, htrace, houts⟩

end PacketHandler

/-! ### What waits for a missing packet -/

namespace ReceiveQueue

/-- How far past the next expected id an id lies. -/
def offset (q : ReceiveQueue) (id : Nat) : Nat := Cyclic.ahead 65536 q.nextID id

theorem offset_add {q : ReceiveQueue} (i : Nat) (hi : i < 65536) :
    q.offset ((q.nextID + i) % 65536) = i := by
  rw [offset, Cyclic.ahead_mod (Nat.le_add_right _ _) (by omega)]
  omega

/-- A packet is missing somewhere before this id. -/
def IsBeyond (q : ReceiveQueue) (id : Nat) : Prop := ∃ j < q.offset id, q.at? j = none

instance (q : ReceiveQueue) (id : Nat) : Decidable (q.IsBeyond id) :=
  inferInstanceAs (Decidable (∃ j < q.offset id, q.at? j = none))

/-- The bytes held past a missing packet: beyond the contiguous run that starts
at the next expected id. -/
def beyondBytes (q : ReceiveQueue) : Nat :=
  q.queue.total fun id p => if q.IsBeyond id then p.data.length else 0

theorem beyondBytes_le_heldBytes (q : ReceiveQueue) : q.beyondBytes ≤ q.heldBytes :=
  InsertionMap.total_le_total fun id p _ => by split_ifs <;> omega

end ReceiveQueue

namespace Receiver

variable {r r' : Receiver} {k : QueueKind}

/-- The receiving side is as it should be. -/
structure Valid (r : Receiver) : Prop where
  inOrder : ∀ k, (r.queues k).InOrder
  typed : ∀ k id p, (r.queues k).queue.get? id = some p → packetType p = k.packetType
  arrived : ∀ k id p, (r.queues k).queue.get? id = some p → p.firstArrived ≤ p.receivedAt
  drift : r.drift = 0
  beyond : (r.queues .command).beyondBytes + (r.queues .commandLow).beyondBytes ≤ maxQueuedBytes

theorem Valid.new : Receiver.new.Valid where
  inOrder _ := ReceiveQueue.inOrder_new
  typed k id p h := absurd h (by simp [Receiver.new, ReceiveQueue.new])
  arrived k id p h := absurd h (by simp [Receiver.new, ReceiveQueue.new])
  drift := by decide
  beyond := by decide

/-- Bytes of both queues, the one named first. -/
theorem sum_queues (f : ReceiveQueue → Nat) (k k' : QueueKind) (h : k' ≠ k) :
    f (r.queues .command) + f (r.queues .commandLow) = f (r.queues k) + f (r.queues k') := by
  cases k <;> cases k' <;> first | exact absurd rfl h | rfl | exact Nat.add_comm _ _

theorem exists_other (k : QueueKind) : ∃ k' : QueueKind, k' ≠ k := by
  cases k
  · exact ⟨.commandLow, by decide⟩
  · exact ⟨.command, by decide⟩

/-- Holding the packet needed next leaves no more beyond a missing one. -/
theorem beyondBytes_hold_needed (h : (r.queues k).InOrder) {p : Packet}
    (hneed : p.id = r.needed k) :
    ((r.hold k p).queues k).beyondBytes ≤ (r.queues k).beyondBytes := by
  obtain ⟨j, hj, hneeded, hbefore, -⟩ := needed_spec h
  obtain ⟨-, hnext, -, hget, -⟩ := hold_spec r k p
  simp only [receivePacketWindowSize] at hj
  have hid : p.id = ((r.queues k).nextID + j) % 65536 := hneed.trans hneeded
  have hat : ∀ i < 65536, ((r.hold k p).queues k).at? i = none → (r.queues k).at? i = none := by
    intro i hi hnone
    rw [hold_at? h (by omega) hi hid] at hnone
    split_ifs at hnone
    exact hnone
  have hoffset : ∀ id, ((r.hold k p).queues k).offset id = (r.queues k).offset id := fun id => by
    rw [ReceiveQueue.offset, ReceiveQueue.offset, hnext]
  refine InsertionMap.total_le_of_subset fun id held hheld => ?_
  by_cases hbeyond : ((r.hold k p).queues k).IsBeyond id
  · obtain ⟨i, hi, hnone⟩ := hbeyond
    rw [hoffset] at hi
    have hi' : i < 65536 := hi.trans (Cyclic.ahead_lt (by omega) _ _)
    have hnone' := hat i hi' hnone
    rw [hget] at hheld
    split_ifs at hheld with hpid
    · -- The packet itself: all before it is held.
      rw [← hpid, hid, ReceiveQueue.offset_add j (by omega)] at hi
      exact absurd hnone' (hbefore i hi)
    · refine Or.inr ⟨hheld, ?_⟩
      rw [if_pos ⟨i, by rw [hoffset]; exact hi, hnone⟩, if_pos ⟨i, hi, hnone'⟩]
  · exact Or.inl (if_neg hbeyond)

/-- Taking a command out leaves what is beyond a missing packet as it is. -/
theorem Took.beyondBytes_le {fs : List Packet} (ht : Took r r' k fs) (h : (r.queues k).InOrder) :
    (r'.queues k).beyondBytes ≤ (r.queues k).beyondBytes := by
  have hlen := length_le_window h ht.offered
  simp only [receivePacketWindowSize] at hlen
  refine InsertionMap.total_le_of_subset fun id held hheld => ?_
  have hheld' := ht.get?_of_get? hheld
  by_cases hbeyond : (r'.queues k).IsBeyond id
  · refine Or.inr ⟨hheld', ?_⟩
    obtain ⟨j, hj, hnone⟩ := hbeyond
    obtain ⟨-, i, hi, hid⟩ := h.held id held hheld'
    simp only [receivePacketWindowSize] at hi
    have hge : fs.length ≤ i := by
      by_contra hlt
      rw [ht.get?, if_pos ⟨i, by omega, hid.symm⟩] at hheld
      exact absurd hheld (by simp)
    have hoffset' : (r'.queues k).offset id = i - fs.length := by
      have := (r'.queues k).offset_add (i - fs.length) (by omega)
      rwa [ht.nextID, show (((r.queues k).nextID + fs.length) % 65536 + (i - fs.length)) % 65536
        = ((r.queues k).nextID + i) % 65536 by omega, ← hid] at this
    have hoffset : (r.queues k).offset id = i := hid ▸ (r.queues k).offset_add i (by omega)
    rw [hoffset'] at hj
    have hbeyond : (r.queues k).IsBeyond id := by
      refine ⟨fs.length + j, by rw [hoffset]; omega, ?_⟩
      rwa [ht.at? (by omega) (by omega), if_pos (by omega)] at hnone
    rw [if_pos hbeyond]
    split_ifs <;> omega
  · exact Or.inl (if_neg hbeyond)

/-- Holding a packet that is to be taken keeps the receiving side valid. -/
theorem Valid.hold (h : r.Valid) {p : Packet} (hid : p.id < 65536)
    (htype : packetType p = k.packetType) (harrived : p.firstArrived ≤ p.receivedAt)
    (hin : (r.queues k).win.isInWindow p.id = true) (hroom : r.hasRoom k p = true) :
    (r.hold k p).Valid := by
  obtain ⟨hother, -, -, hget, hdrift, hbytes⟩ := hold_spec r k p
  have hle : (r.queues k).arrival p ≤ p.receivedAt := by
    rw [ReceiveQueue.arrival]
    split
    · exact harrived
    · exact (min_le_right _ _).trans harrived
  refine ⟨hold_inOrder h.inOrder hid hin, fun k' id held hheld => ?_, fun k' id held hheld => ?_,
    hdrift.trans h.drift, ?_⟩
  · by_cases hk : k' = k
    · subst hk
      rw [hget] at hheld
      split_ifs at hheld
      · rw [← Option.some.inj hheld]; exact htype
      · exact h.typed k' id held hheld
    · exact h.typed k' id held (hother k' hk ▸ hheld)
  · by_cases hk : k' = k
    · subst hk
      rw [hget] at hheld
      split_ifs at hheld
      · rw [← Option.some.inj hheld]; exact hle
      · exact h.arrived k' id held hheld
    · exact h.arrived k' id held (hother k' hk ▸ hheld)
  · obtain ⟨k', hk'⟩ := exists_other k
    rw [sum_queues _ k k' hk']
    by_cases hneed : p.id = r.needed k
    · have hb := h.beyond
      rw [sum_queues _ k k' hk'] at hb
      rw [hother k' hk']
      have := beyondBytes_hold_needed (h.inOrder k) hneed
      omega
    · -- There was room for it, so all that is held is within the limit.
      have hroom' : r.queuedBytes - (r.queues k).heldLength p.id + p.data.length ≤
          maxQueuedBytes := by
        simpa [hasRoom, hneed] using hroom
      rw [← hbytes] at hroom'
      have hd := hdrift.trans h.drift
      rw [Receiver.drift, sum_queues ReceiveQueue.heldBytes k k' hk'] at hd
      have h₁ := ((r.hold k p).queues k).beyondBytes_le_heldBytes
      have h₂ := ((r.hold k p).queues k').beyondBytes_le_heldBytes
      omega

/-- With the byte limit far off there is room. -/
theorem hasRoom_of_queuedBytes {p : Packet} (h : r.queuedBytes + p.data.length ≤ maxQueuedBytes) :
    r.hasRoom k p = true := by
  simp only [hasRoom, decide_eq_true_eq, not_and, not_lt, gt_iff_lt]
  intro _
  omega

/-- Taking a command out leaves no more bytes. -/
theorem Took.queuedBytes_le {fs : List Packet} (ht : Took r r' k fs) :
    r'.queuedBytes ≤ r.queuedBytes := by
  have hle : ∀ k', (r'.queues k').heldBytes ≤ (r.queues k').heldBytes := by
    intro k'
    by_cases hk : k' = k
    · subst hk
      exact InsertionMap.total_le_of_subset fun id p hp => Or.inr ⟨ht.get?_of_get? hp, le_rfl⟩
    · rw [ht.other k' hk]
  have hdrift := ht.drift
  have h₁ := hle .command
  have h₂ := hle .commandLow
  rw [Receiver.drift, Receiver.drift] at hdrift
  omega

theorem Valid.took {fs : List Packet} (h : r.Valid) (ht : Took r r' k fs) : r'.Valid := by
  have hget : ∀ k' id p, (r'.queues k').queue.get? id = some p →
      (r.queues k').queue.get? id = some p := by
    intro k' id p hp
    by_cases hk : k' = k
    · subst hk
      exact ht.get?_of_get? hp
    · exact ht.other k' hk ▸ hp
  refine ⟨ht.inOrder h.inOrder, fun k' id p hp => h.typed k' id p (hget k' id p hp),
    fun k' id p hp => h.arrived k' id p (hget k' id p hp), ht.drift.trans h.drift, ?_⟩
  obtain ⟨k', hk'⟩ := exists_other k
  have hb := h.beyond
  rw [sum_queues _ k k' hk'] at hb ⊢
  rw [ht.other k' hk']
  have := ht.beyondBytes_le (h.inOrder k)
  omega

end Receiver

/-! ### In every run -/

namespace PacketHandler

variable {C : Cipher} {env : Env} {op : Option Packet} {s s' : PacketHandler}

theorem Act.recv_valid (h : Act C env op s s') (hv : s.recv.Valid) : s'.recv.Valid := by
  rcases h.recv_cases hv.inOrder with
    ⟨hqueues, hbytes, -, -⟩ | ⟨k, p, -, hfresh, hin, hroom, hrecv, -, -⟩ | ⟨k, fs, htook, -, -⟩
  · obtain ⟨h₁, h₂, h₃, h₄, h₅⟩ := hv
    refine ⟨?_, ?_, ?_, ?_, ?_⟩
    · rwa [hqueues]
    · rwa [hqueues]
    · rwa [hqueues]
    · rwa [Receiver.drift, hqueues, hbytes]
    · rwa [hqueues]
  · rw [hrecv]
    exact hv.hold hfresh.id_lt hfresh.type (by rw [hfresh.firstArrived, hfresh.receivedAt]) hin hroom
  · exact hv.took htook

theorem step_recv_valid (e : Env × Event) (hv : s.recv.Valid) : (s.step C e).recv.Valid :=
  (step_acts s e).preserves (P := fun s => s.recv.Valid) (fun _ _ h hv => h.recv_valid hv) hv

theorem start_recv (env : Env) (init1Data : Bytes) : (start C env init1Data).recv = .new := by
  simp [start, opened]

/-- The receiving side is valid in every state of every run. -/
theorem recv_valid (C : Cipher) (env : Env) (init1Data : Bytes) (es : List (Env × Event)) :
    (after C env init1Data es).recv.Valid :=
  run_invariant (I := fun s : PacketHandler => s.recv.Valid) (fun _ e hv => step_recv_valid e hv) es
    (by rw [start_recv]; exact Receiver.Valid.new)

/-- **The receive queues are kept in order in every run.**  Whatever datagrams,
calls and timers have come, each queue's next expected id is the base of its
window, every id held lies in the window, the byte counter is the sum of the
bytes held in both queues, and the bytes held beyond the contiguous runs that
start at the next expected ids stay within the limit. -/
theorem receive_queues_represent (C : Cipher) (env : Env) (init1Data : Bytes)
    (es : List (Env × Event)) :
    let r := (after C env init1Data es).recv
    (∀ k, (r.queues k).nextID = (r.queues k).win.mappedBaseOffset ∧
      ∀ id, (r.queues k).queue.has id = true → (r.queues k).win.isInWindow id = true) ∧
    r.queuedBytes = ((r.queues .command).heldBytes + (r.queues .commandLow).heldBytes : Nat) ∧
    ((r.queues .command).queue.size = 0 → (r.queues .commandLow).queue.size = 0 →
      r.queuedBytes = 0) ∧
    (r.queues .command).beyondBytes + (r.queues .commandLow).beyondBytes ≤ maxQueuedBytes := by
  intro r
  have hv : r.Valid := recv_valid C env init1Data es
  have hbytes : r.queuedBytes =
      ((r.queues .command).heldBytes + (r.queues .commandLow).heldBytes : Nat) := by
    have := hv.drift
    rw [Receiver.drift] at this
    omega
  refine ⟨fun k => ⟨(hv.inOrder k).nextID_eq, fun id hhas => ?_⟩, hbytes, fun h₁ h₂ => ?_, hv.beyond⟩
  · obtain ⟨p, hp⟩ := InsertionMap.has_iff.mp hhas
    obtain ⟨-, i, hi, hid⟩ := (hv.inOrder k).held id p hp
    exact ((hv.inOrder k).isInWindow_iff (by omega)).mpr ⟨i, hi, hid⟩
  · have hzero : ∀ q : ReceiveQueue, q.queue.size = 0 → q.heldBytes = 0 := fun q hq => by
      rw [ReceiveQueue.heldBytes, InsertionMap.total, List.length_eq_zero_iff.mp hq]
      rfl
    rw [hbytes, hzero _ h₁, hzero _ h₂]
    rfl

end PacketHandler

end Teamspeak.Transport
