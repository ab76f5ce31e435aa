import Teamspeak.Transport.Handler.Representation

/-!
# The stall check

A connection whose server never fills a hole in its commands is to be closed
after `commandHoleTimeoutMs`.  The resend timer looks for such a hole only at the
next expected id, and dates a held packet from its last copy.

* `ReceiveQueue.Overdue`: a packet is missing, and a later one has been held for
  too long.
* `HoleVisible`: what the check can see of it.
* `stall_check_iff`: the check closes the connection exactly when a packet is
  overdue, if and only if some overdue packet is visible whenever there is one.
* `stall_missed`: a hole inside a command already begun is never seen.
-/

namespace Teamspeak.Transport

/-- A packet is missing while a later one, held in the same queue, first arrived
more than `commandHoleTimeoutMs` ago. -/
def ReceiveQueue.Overdue (q : ReceiveQueue) (now : Time) : Prop :=
  ∃ i j p, i < j ∧ j < 65536 ∧ q.at? i = none ∧ q.at? j = some p ∧
    now - p.firstArrived > commandHoleTimeoutMs

namespace PacketHandler

variable {C : Cipher} {env : Env} {s : PacketHandler}

/-- The resend timer closes the connection with `ConnectionStalledError`. -/
def ClosesStalled (C : Cipher) (env : Env) (s : PacketHandler) : Prop :=
  .closed .connectionStalled ∈ (s.step C (env, .resendTimer)).trace.drop s.trace.length

/-- A queue lacks the very packet it expects next, and holds one whose last copy
arrived more than `commandHoleTimeoutMs` ago. -/
def HoleVisible (s : PacketHandler) (now : Time) : Prop :=
  ∃ k id p, (s.recv.queues k).queue.has (s.recv.queues k).nextID = false ∧
    (s.recv.queues k).queue.get? id = some p ∧ now - p.receivedAt > commandHoleTimeoutMs

/-- Every held packet is within the window, so the check skips none for being too
far from the next id. -/
theorem hasStalledHole_iff {q : ReceiveQueue} (h : q.InOrder) (now : Time) :
    q.hasStalledHole now = true ↔ q.queue.has q.nextID = false ∧
      ∃ id p, q.queue.get? id = some p ∧ now - p.receivedAt > commandHoleTimeoutMs := by
  have hn := h.nextID_lt
  rw [ReceiveQueue.hasStalledHole]
  split_ifs with hhas
  · simp [hhas]
  · simp only [List.any_eq_true, Prod.exists, decide_eq_true_eq]
    constructor
    · rintro ⟨id, p, hm, -, hlate⟩
      exact ⟨by simpa using hhas, id, p, InsertionMap.mem_entries.mp hm, hlate⟩
    · rintro ⟨-, id, p, hget, hlate⟩
      obtain ⟨-, i, hi, hid⟩ := h.held id p hget
      simp only [receivePacketWindowSize] at hi
      exact ⟨id, p, InsertionMap.mem_entries.mpr hget, by omega, hlate⟩

/-! ### What the check leaves in the trace -/

theorem resendCommand_trace (C : Cipher) (env : Env) (key : Nat) (rp : ResendPacket) :
    ∃ outs, (s.resendCommand C env key rp).trace = s.trace ++ outs ∧
      ∀ o ∈ outs, o.isWire = true ∨ ∃ t, o = .resent t :=
  (doResend_frame C env rp).2.2

theorem resendInit_trace (C : Cipher) (env : Env) :
    ∃ outs, (s.resendInit C env).trace = s.trace ++ outs ∧
      ∀ o ∈ outs, o.isWire = true ∨ ∃ t, o = .resent t := by
  rw [resendInit]
  split
  · exact ⟨[], by simp, by simp⟩
  · exact (doResend_frame C env _).2.2

theorem resendAll_trace (C : Cipher) (env : Env) (l : List (Nat × ResendPacket)) :
    ∃ outs, (s.resendAll C env l).trace = s.trace ++ outs ∧
      ∀ o ∈ outs, o.isWire = true ∨ (∃ t, o = .resent t) ∨ o = .closed .connectionTimeout := by
  induction l generalizing s with
  | nil => exact ⟨[], by simp [resendAll], by simp⟩
  | cons e l ih =>
    obtain ⟨key, rp⟩ := e
    rw [resendAll]
    split_ifs
    · obtain ⟨outs, htrace, houts⟩ := triggerClose_trace .connectionTimeout
        (s := { s with send := { s.send with ackManager := s.send.ackManager.delete key } })
      exact ⟨outs, htrace, fun o ho => Or.inr (Or.inr (houts o ho))⟩
    · obtain ⟨outs₁, htrace₁, houts₁⟩ := resendCommand_trace (s := s) C env key rp
      obtain ⟨outs₂, htrace₂, houts₂⟩ := ih (s := s.resendCommand C env key rp)
      refine ⟨outs₁ ++ outs₂, by rw [htrace₂, htrace₁, List.append_assoc], fun o ho => ?_⟩
      rcases List.mem_append.mp ho with ho | ho
      · exact (houts₁ o ho).imp_right Or.inl
      · exact houts₂ o ho

/-- The check closes the connection as stalled when it finds a hole, and only then. -/
theorem closesStalled_iff (hopen : s.closed = false)
    (hidle : env.now - s.lastMessageReceived ≤ packetTimeoutMs) :
    ClosesStalled C env s ↔ (s.recv.queues .command).hasStalledHole env.now = true ∨
      (s.recv.queues .commandLow).hasStalledHole env.now = true := by
  simp only [ClosesStalled, step, hopen, Bool.false_eq_true, if_false, checkResends,
    if_neg (not_lt.mpr hidle), gt_iff_lt]
  split_ifs with hhole
  · simp only [hhole, triggerClose, hopen, Bool.false_eq_true, if_false, log_trace,
      close_trace, List.drop_left, List.mem_singleton]
  · simp only [hhole, iff_false]
    obtain ⟨outs₁, htrace₁, houts₁⟩ := resendInit_trace (s := s) C env
    obtain ⟨outs₂, htrace₂, houts₂⟩ := resendAll_trace C env
      (s := s.resendInit C env) (s.resendInit C env).send.ackManager.entries
    rw [htrace₂, htrace₁, List.append_assoc, List.drop_left, List.mem_append]
    rintro (hm | hm)
    · rcases houts₁ _ hm with h | ⟨t, h⟩
      · exact absurd h (by decide)
      · exact absurd h (by simp)
    · rcases houts₂ _ hm with h | ⟨t, h⟩ | h
      · exact absurd h (by decide)
      · exact absurd h (by simp)
      · exact absurd h (by simp)

/-- What the check sees is overdue. -/
theorem overdue_of_visible (hv : s.recv.Valid) {now : Time} (h : s.HoleVisible now) :
    ∃ k, (s.recv.queues k).Overdue now := by
  obtain ⟨k, id, p, hmissing, hget, hlate⟩ := h
  have horder := hv.inOrder k
  obtain ⟨-, j, hj, hid⟩ := horder.held id p hget
  simp only [receivePacketWindowSize] at hj
  have hhead : (s.recv.queues k).at? 0 = none := by
    rw [ReceiveQueue.at?, Nat.add_zero, Nat.mod_eq_of_lt horder.nextID_lt]
    exact InsertionMap.has_eq_false.mp hmissing
  have hat : (s.recv.queues k).at? j = some p := by rw [ReceiveQueue.at?, ← hid, hget]
  have hpos : 0 < j := by
    rcases Nat.eq_zero_or_pos j with rfl | hpos
    · rw [hhead] at hat
      exact absurd hat (by simp)
    · exact hpos
  have harrived := hv.arrived k id p hget
  exact ⟨k, 0, j, p, hpos, by omega, hhead, hat, by linarith⟩

/-- **When the stall check is right.**  In any state of any run, as long as the
connection is not idle, the check closes it as stalled exactly when some packet
is overdue, if and only if there is no overdue packet at all or a hole that the
check can see: the missing packet is the one its queue expects next, and some
packet held behind it came for the last time too long ago. -/
theorem stall_check_iff (C : Cipher) (env₀ : Env) (init1Data : Bytes) (es : List (Env × Event))
    (env : Env) (hopen : (after C env₀ init1Data es).closed = false)
    (hidle : env.now - (after C env₀ init1Data es).lastMessageReceived ≤ packetTimeoutMs) :
    (ClosesStalled C env (after C env₀ init1Data es) ↔
        ∃ k, ((after C env₀ init1Data es).recv.queues k).Overdue env.now) ↔
      ((¬ ∃ k, ((after C env₀ init1Data es).recv.queues k).Overdue env.now) ∨
        (after C env₀ init1Data es).HoleVisible env.now) := by
  have hv := recv_valid C env₀ init1Data es
  revert hopen hidle hv
  generalize after C env₀ init1Data es = s
  intro hopen hidle hv
  have hvisible : ClosesStalled C env s ↔ s.HoleVisible env.now := by
    rw [closesStalled_iff hopen hidle, hasStalledHole_iff (hv.inOrder _),
      hasStalledHole_iff (hv.inOrder _)]
    constructor
    · rintro (⟨h, id, p, hp⟩ | ⟨h, id, p, hp⟩)
      · exact ⟨.command, id, p, h, hp⟩
      · exact ⟨.commandLow, id, p, h, hp⟩
    · rintro ⟨k, id, p, h, hp⟩
      cases k
      · exact Or.inl ⟨h, id, p, hp⟩
      · exact Or.inr ⟨h, id, p, hp⟩
  have hoverdue : s.HoleVisible env.now → ∃ k, (s.recv.queues k).Overdue env.now :=
    overdue_of_visible hv
  rw [hvisible]
  tauto

/-- The first packet of a fragmented command and the third, with the second lost. -/
def holeInCommand : List (Env × Event) :=
  [({ now := 0 }, .datagram (clearDatagram 0 0 ⟨.command, { fragmented := true }⟩ [97])),
    ({ now := 0 }, .datagram (clearDatagram 0 2 ⟨.command, { fragmented := true }⟩ [99]))]

/-- A hole behind the packet the queue expects next is never seen: ten seconds on,
a packet is overdue, and the check does not close the connection. -/
theorem stall_missed :
    let s := after clearCipher { now := 0 } [] holeInCommand
    s.closed = false ∧ 10000 - s.lastMessageReceived ≤ packetTimeoutMs ∧
      ¬ (ClosesStalled clearCipher { now := 10000 } s ↔
        ∃ k, (s.recv.queues k).Overdue 10000) := by
  refine ⟨by decide +kernel, by decide +kernel, fun h => ?_⟩
  have hoverdue : ((after clearCipher { now := 0 } [] holeInCommand).recv.queues
      .command).Overdue 10000 :=
    ⟨1, 2, _, by decide, by decide, by decide +kernel, rfl, by decide +kernel⟩
  have hcloses := h.mpr ⟨.command, hoverdue⟩
  rw [closesStalled_iff (by decide +kernel) (by decide +kernel)] at hcloses
  exact absurd hcloses (by decide +kernel)

/-- With the first packet lost instead, the hole is at the head, and is seen. -/
theorem stall_check_iff_hole_at_head :
    let s := after clearCipher { now := 0 } []
      [({ now := 0 }, .datagram (clearDatagram 0 2 ⟨.command, {}⟩ [99]))]
    ClosesStalled clearCipher { now := 10000 } s ↔ ∃ k, (s.recv.queues k).Overdue 10000 := by
  refine (stall_check_iff clearCipher { now := 0 } [] _ { now := 10000 } ?_ ?_).mpr (Or.inr ?_)
  · decide +kernel
  · decide +kernel
  · exact ⟨.command, 2, _, by decide +kernel, rfl, by decide +kernel⟩

end PacketHandler

end Teamspeak.Transport
