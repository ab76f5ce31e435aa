import Teamspeak.Transport.Handler.CommandStep
import Teamspeak.Transport.Handler.ServerStream

/-!
# Delivery in order

* `delivered_in_order`: what is handed on is the server's commands, in order and
  each once, as long as the server sends fewer than 2 ^ 48 packets.
* `delivered_twice_at_the_cap`: with one packet more the generation stays where
  it is at the wrap, and what was handed on a generation ago is handed on again.
-/

namespace Teamspeak.Transport

open Framing

namespace PacketHandler

variable {C : Cipher} {env : Env} {s s' : PacketHandler} {k : QueueKind}

/-! ### One command after another -/

/-- The next command arrives, of one packet, and no other is ready behind it: it
is handed on. -/
theorem step_takes_one {raw : Bytes} {s₁ : PacketHandler} {p : Packet} (hv : s.recv.Valid)
    (hclosed : s.closed = false) (hsocket : ∀ d, env.refuses d = false)
    (howner : ∀ p, env.owner p = {}) (hopen : s.openPacket C env raw = some (s₁, p))
    (htype : packetType p = k.packetType) (hid : p.id = (s.recv.queues k).nextID)
    (hmissing : (s.recv.queues k).at? 0 = none) (hwhole : isFragmented p = false)
    (hplain : (packetFlags p).compressed = false)
    (hnext : ∀ p' r', Receiver.Took (s.recv.hold k p) r' k [p'] → ¬ (r'.queues k).Ready) :
    let s' := s.step C (env, .datagram raw)
    (∃ p', Receiver.Took (s.recv.hold k p) s'.recv k [p']) ∧ s'.closed = false ∧
      s'.deliveredOf k = s.deliveredOf k ++ [content p] := by
  intro s'
  obtain ⟨rfl, hfresh⟩ := openPacket_fresh hopen htype
  have hin : (s₁.recv.queues k).win.isInWindow p.id = true :=
    ((hv.inOrder k).isInWindow_iff hfresh.id_lt).mpr
      ⟨0, by decide, by rw [Nat.add_zero, Nat.mod_eq_of_lt (hv.inOrder k).nextID_lt, hid]⟩
  have hroom : s₁.recv.hasRoom k p = true := by
    obtain ⟨j, -, hneeded, hbefore, -⟩ := Receiver.needed_spec (hv.inOrder k)
    obtain rfl : j = 0 := by
      by_contra hj
      exact hbefore 0 (Nat.pos_of_ne_zero hj) hmissing
    rw [Nat.add_zero, Nat.mod_eq_of_lt (hv.inOrder k).nextID_lt, ← hid] at hneeded
    simp [Receiver.hasRoom, hneeded]
  have hat : ((s₁.recv.hold k p).queues k).at? 0 =
      some { p with firstArrived := (s₁.recv.queues k).arrival p } := by
    rw [Receiver.hold_at? (hv.inOrder k) (i := 0) (by decide) (by decide) (by
      rw [Nat.add_zero, Nat.mod_eq_of_lt (hv.inOrder k).nextID_lt, hid]), if_pos rfl]
  have horder := Receiver.hold_inOrder hv.inOrder hfresh.id_lt hin
  let s₂ := s₁.noteReceived env p raw.length
  have hkey : p.dummyUsed = true ∨ s₂.crypt.cryptoInitComplete = true := by
    rw [(noteReceived_frame env p raw.length).1, hfresh.dummyUsed]
    cases s₁.crypt.cryptoInitComplete <;> simp
  obtain ⟨t, outs, -, -, -, -, -, htrace, houts⟩ :=
    sendPacketRaw_spec C env k.ackType (uint16BE p.id) .none hkey
  obtain ⟨s₃, hdrain, htook, htrace₃, hclosed₃⟩ := drain_takes_one C env
    (((s₁.recv.hold k p).queues k).queue.size)
    (s := { s₂.sendAck C env p.id k.ackType p.dummyUsed with recv := s₁.recv.hold k p }) horder hat hwhole hplain (howner _)
    (hnext _)
  have hstep : s' = s₃ := by
    change s₁.step C (env, .datagram raw) = s₃
    rw [step_command hclosed hopen htype, handlePacket_command htype, noteReceived_recv htype,
      if_pos hin, if_pos hroom, hdrain]
    rfl
  rw [hstep]
  refine ⟨⟨_, htook⟩, ?_, ?_⟩
  · rw [hclosed₃]
    change (s₂.sendAck C env p.id k.ackType p.dummyUsed).closed = false
    rw [sendAck, sendPacketRaw_closed hsocket]
    exact (noteReceived_closed _ _).trans hclosed
  · have hack : (s₂.sendAck C env p.id k.ackType p.dummyUsed).deliveredOf k = s₁.deliveredOf k := by
      rw [sendAck, (Quiet.of_numbered htrace houts).deliveredOf, deliveredOf, noteReceived_trace]
      rfl
    rw [deliveredOf, htrace₃, List.filterMap_append, ← hack]
    simp only [List.filterMap_cons, List.filterMap_nil, Output.deliveredAs]
    rw [if_pos (by exact htype)]
    rfl

/-! ### A stream in the clear -/

/-- A server that sends commands of one packet each. -/
def plainStream (l : List Bytes) : ServerStream where
  commands
    | .command => l.map fun d => [({}, d)]
    | .commandLow => []
  isFrame := by
    rintro (_ | _) f hf
    · obtain ⟨d, -, rfl⟩ := List.mem_map.mp hf
      exact isFrame_iff.mpr (Or.inl ⟨_, rfl, rfl⟩)
    · exact absurd hf (by simp)

theorem packets_plainStream (l : List Bytes) :
    (plainStream l).packets .command = l.map fun d => ({}, d) := by
  induction l with
  | nil => rfl
  | cons d l ih => exact congrArg (_ :: ·) ih

/-- The datagram of such a command, in the clear. -/
def plainDatagram (place : Nat) (d : Bytes) : Env × Event :=
  ({ now := 0 }, .datagram (clearDatagram (place / 65536) (place % 65536) ⟨.command, {}⟩ d))

theorem genuine_plainDatagram {l : List Bytes} {A : Nat} {d : Bytes}
    (hA : A < 18446744073709551616) (hl : l[A]? = some d) :
    ∀ raw, (plainDatagram A d).2 = .datagram raw → Genuine clearCipher (plainStream l) raw := by
  rintro raw ⟨rfl⟩ k iv generation dummy plaintext htype hdec
  obtain ⟨htag, hheader, hct, -⟩ := parts_clearDatagram (A / 65536) (A % 65536) ⟨.command, {}⟩ d
  rw [hheader, parse_buildS2CHeader (Nat.mod_lt _ (by decide))] at htype hdec ⊢
  rw [hct, htag] at hdec
  simp only [clearCipher] at hdec
  split_ifs at hdec with hgen
  obtain rfl := Option.some.inj hdec
  obtain rfl := uint64BE_inj (by omega) hgen.1 hgen.2
  obtain rfl : k = .command := by
    cases k with
    | command => rfl
    | commandLow => exact absurd htype (by simp [QueueKind.packetType])
  dsimp only
  rw [packets_plainStream, show A / 65536 * 65536 + A % 65536 = A by omega, List.getElem?_map, hl]
  rfl

/-- A packet in the window is opened as the server sent it. -/
theorem openPacket_plainDatagram {A : Nat} {d : Bytes} (hd : d.length ≤ 4000)
    (h₁ : (s.recv.queues .command).win.position ≤ A)
    (h₂ : A < (s.recv.queues .command).win.position + receivePacketWindowSize)
    (hA : A < 18446744073709551616) :
    ∃ raw, plainDatagram A d = ({ now := 0 }, .datagram raw) ∧
      s.openPacket clearCipher { now := 0 } raw =
        some (s, received (A / 65536) (A % 65536) ⟨.command, {}⟩ d 0
          (!s.crypt.cryptoInitComplete)) := by
  have hgen : (s.recv.queues .command).win.getGeneration (A % 65536) = A / 65536 :=
    GenerationWindow.getGeneration_of_near (by decide) (by omega) h₂
  refine ⟨_, rfl, ?_⟩
  have hopen := openPacket_clearDatagram (s := s) (k := .command) { now := 0 } (A % 65536)
    ⟨.command, {}⟩ d rfl rfl (Nat.mod_lt _ (by decide)) hd (by omega)
  rwa [hgen] at hopen

/-- The handler has taken so many commands of the byte `a` and holds nothing. -/
structure Flooded (s : PacketHandler) (n : Nat) : Prop where
  valid : s.recv.Valid
  closed : s.closed = false
  empty : ∀ k id, (s.recv.queues k).queue.get? id = none
  delivered : s.deliveredOf .command = List.replicate n ({}, [97])

theorem Flooded.step {n : Nat} (h : Flooded s n) {A : Nat}
    (hA : A = (s.recv.queues .command).win.position) (hlt : A < 18446744073709551616) :
    Flooded (s.step clearCipher (plainDatagram A [97])) (n + 1) ∧
      ((s.step clearCipher (plainDatagram A [97])).recv.queues .command).win =
        (s.recv.queues .command).win.advance 1 := by
  obtain ⟨raw, hraw, hopen⟩ := openPacket_plainDatagram (s := s) (d := [97]) (A := A) (by decide)
    hA.ge (by rw [hA]; exact Nat.lt_add_of_pos_right (by decide)) hlt
  set p := received (A / 65536) (A % 65536) ⟨.command, {}⟩ [97] 0 (!s.crypt.cryptoInitComplete)
  have hid : p.id = (s.recv.queues .command).nextID := by
    rw [(h.valid.inOrder .command).nextID_eq, ← GenerationWindow.position_mod, ← hA]
    rfl
  have hgone : ∀ p' r', Receiver.Took (s.recv.hold .command p) r' .command [p'] →
      ∀ k id, (r'.queues k).queue.get? id = none := by
    intro p' r' htook k id
    obtain ⟨hother, hnext, -, hget, -⟩ := Receiver.hold_spec s.recv .command p
    by_cases hk : k = .command
    · subst hk
      rw [htook.get?, hget, hnext]
      split_ifs with h₁ h₂
      · rfl
      · refine absurd ⟨0, by simp, ?_⟩ h₁
        rw [← h₂, hid, Nat.add_zero, Nat.mod_eq_of_lt (h.valid.inOrder .command).nextID_lt]
      · exact h.empty .command id
    · rw [htook.other k hk, hother k hk]
      exact h.empty k id
  obtain ⟨⟨p', htook⟩, hclosed, hdelivered⟩ := step_takes_one h.valid h.closed (fun _ => rfl)
    (fun _ => rfl) hopen rfl hid (h.empty _ _) rfl rfl fun p' r' htook hready => by
      obtain ⟨fs, hframe, hoffered⟩ := hready
      have := hoffered 0 hframe.length_pos
      rw [ReceiveQueue.at?, hgone p' r' htook] at this
      exact absurd this (by simp)
  rw [hraw]
  refine ⟨⟨step_recv_valid _ h.valid, hclosed, hgone p' _ htook, ?_⟩, ?_⟩
  · rw [hdelivered, h.delivered, List.replicate_succ']
    rfl
  · rw [htook.win, (Receiver.hold_spec s.recv .command p).2.2.1]
    rfl

theorem Flooded.queuedBytes {n : Nat} (h : Flooded s n) : s.recv.queuedBytes = 0 := by
  have hzero : ∀ k, (s.recv.queues k).heldBytes = 0 := fun k => by
    have hnil : (s.recv.queues k).queue.entries = [] := by
      refine List.eq_nil_iff_forall_not_mem.mpr fun ⟨id, p⟩ hmem => ?_
      rw [InsertionMap.mem_entries, h.empty] at hmem
      exact absurd hmem (by simp)
    rw [ReceiveQueue.heldBytes, InsertionMap.total, hnil]
    rfl
  have hdrift := h.valid.drift
  rw [Receiver.drift, hzero, hzero] at hdrift
  omega

/-- A packet ahead of a missing one is acknowledged and held. -/
theorem step_plain_ahead {A : Nat} {d : Bytes} (hv : s.recv.Valid) (hclosed : s.closed = false)
    (hd : d.length ≤ 4000) (hmissing : (s.recv.queues .command).at? 0 = none)
    (h₁ : (s.recv.queues .command).win.position < A)
    (h₂ : A < (s.recv.queues .command).win.position + receivePacketWindowSize)
    (hA : A < 18446744073709551616)
    (hbytes : s.recv.queuedBytes + d.length ≤ maxQueuedBytes) :
    let s' := s.step clearCipher (plainDatagram A d)
    (∃ p, content p = ({}, d) ∧ p.id = A % 65536 ∧ s'.recv = s.recv.hold .command p) ∧
      s'.closed = false ∧
      ∃ t outs, s'.trace = s.trace ++ .numbered t :: outs ∧ packetType t.packet = .ack ∧
        t.packet.data = uint16BE (A % 65536) ∧ ∀ o ∈ outs, o.isWire = true := by
  obtain ⟨raw, hraw, hopen⟩ := openPacket_plainDatagram hd h₁.le h₂ hA
  set p := received (A / 65536) (A % 65536) ⟨.command, {}⟩ d 0 (!s.crypt.cryptoInitComplete)
  have hlt : p.id < 65536 := Nat.mod_lt A (by decide)
  have hpid : p.id = ((s.recv.queues .command).nextID +
      (A - (s.recv.queues .command).win.position)) % 65536 := by
    have hbase := GenerationWindow.position_mod (s.recv.queues .command).win
    rw [(hv.inOrder .command).nextID_eq]
    change A % 65536 = _
    omega
  simp only [receivePacketWindowSize] at h₂
  have hin : (s.recv.queues .command).win.isInWindow p.id = true :=
    ((hv.inOrder .command).isInWindow_iff hlt).mpr
      ⟨_, by simp only [receivePacketWindowSize]; omega, hpid⟩
  have hready : ¬ ((s.recv.hold .command p).queues .command).Ready := by
    rintro ⟨fs, hframe, hoffered⟩
    have := hoffered 0 hframe.length_pos
    rw [Receiver.hold_at? (hv.inOrder .command) (by omega) (by omega) hpid, if_neg (by omega),
      hmissing] at this
    exact absurd this (by simp)
  obtain ⟨hrecv, hclosed', hack⟩ := step_holds hv hclosed (fun _ => rfl) hopen rfl hin
    (Receiver.hasRoom_of_queuedBytes hbytes) hready
  rw [hraw]
  exact ⟨⟨p, rfl, rfl, hrecv⟩, hclosed', hack⟩

/-- The first `n` commands of the byte `a`, in order. -/
def flood (n : Nat) : List (Env × Event) := (List.range n).map fun A => plainDatagram A [97]

theorem flooded_after {n : Nat} (hn : n < 281474976710656) :
    let s := after clearCipher { now := 0 } [] (flood n)
    Flooded s n ∧ (s.recv.queues .command).win.position = n := by
  induction n with
  | zero =>
    exact ⟨⟨recv_valid _ _ _ [], by decide, fun k id => rfl, by decide⟩, GenerationWindow.position_new⟩
  | succ n ih =>
    obtain ⟨hs, hposition⟩ := ih (by omega)
    have hrun : after clearCipher { now := 0 } [] (flood (n + 1)) =
        (after clearCipher { now := 0 } [] (flood n)).step clearCipher (plainDatagram n [97]) := by
      rw [after, flood, List.range_succ, List.map_append, List.map_singleton, run_concat]
      rfl
    obtain ⟨hs', hwin⟩ := hs.step hposition.symm (by omega)
    refine ⟨hrun ▸ hs', ?_⟩
    rw [hrun, hwin]
    have := GenerationWindow.advance_position
      ((after clearCipher { now := 0 } [] (flood n)).recv.queues .command).win 1
      (by rw [hposition]; simp only [maxGeneration]; omega)
    rw [hposition] at this
    exact this

/-! ### In every run -/

/-- **Commands are handed on in order, each once.**  Whatever order the server's
datagrams come in, lost, late, repeated or mixed with anything that does not
open, what has been handed on from a queue is what the first so many of the
server's commands come to. -/
theorem delivered_in_order (C : Cipher) (st : ServerStream) (hshort : st.Short) (env₀ : Env)
    (init1Data : Bytes) (es : List (Env × Event)) (hes : GenuineEvents C st es) (k : QueueKind) :
    ∃ n ≤ (st.commands k).length,
      (after C env₀ init1Data es).deliveredOf k = ((st.commands k).take n).filterMap outcome := by
  obtain ⟨out, hf⟩ := (run_inStep hshort hes (start_inStep C st env₀ init1Data)).follows k
  have hprefix : out <+: st.commands k := hf.tracks.out_prefix hf.isFrame (st.isFrame k)
  refine ⟨out.length, hprefix.length_le, ?_⟩
  rw [← List.prefix_iff_eq_take.mp hprefix]
  exact hf.delivered

/-- In order up to the cap, and then the packet a generation before the last. -/
def floodAgain (n : Nat) : List (Env × Event) := flood n ++ [plainDatagram (n - 65536) [97]]

theorem genuine_flood {n : Nat} (hn : n ≤ 281474976710656) :
    GenuineEvents clearCipher (plainStream (List.replicate n [97])) (flood n) := by
  intro e he
  obtain ⟨A, hA, rfl⟩ := List.mem_map.mp he
  rw [List.mem_range] at hA
  exact genuine_plainDatagram (by omega) (by rw [List.getElem?_replicate, if_pos hA])

/-- **At 2 ^ 48 packets a command is handed on twice.**  The generation does not
pass its cap, so when the window wraps there the packets a generation before are
in it again. -/
theorem delivered_twice_at_the_cap :
    let st := plainStream (List.replicate 281474976710656 [97])
    let es := floodAgain 281474976710656
    GenuineEvents clearCipher st es ∧
      ¬ ∃ n ≤ (st.commands .command).length,
        (after clearCipher { now := 0 } [] es).deliveredOf .command =
          ((st.commands .command).take n).filterMap outcome := by
  obtain ⟨N, hN⟩ : ∃ N : Nat, N = 281474976710656 := ⟨_, rfl⟩
  rw [← hN]
  obtain ⟨hs, hposition⟩ := flooded_after (n := N - 1) (by omega)
  set s := after clearCipher { now := 0 } [] (flood (N - 1))
  -- The last packet wraps the window, whose generation stays.
  obtain ⟨hs₁, hwin⟩ := hs.step hposition.symm (by omega)
  have hposition₁ : ((s.step clearCipher (plainDatagram (N - 1) [97])).recv.queues
      .command).win.position = N - 65536 := by
    rw [hwin, GenerationWindow.advance_position_at_cap _ (by rw [hposition]; omega)]
    omega
  obtain ⟨hs₂, -⟩ := hs₁.step (A := N - 65536) hposition₁.symm (by omega)
  have hrun : after clearCipher { now := 0 } [] (floodAgain N) =
      (s.step clearCipher (plainDatagram (N - 1) [97])).step clearCipher
        (plainDatagram (N - 65536) [97]) := by
    rw [after, floodAgain, flood, show N = N - 1 + 1 by omega, List.range_succ, List.map_append,
      List.map_singleton, run_concat, run_concat]
    rfl
  refine ⟨fun e he => ?_, ?_⟩
  · rcases List.mem_append.mp he with he | he
    · exact genuine_flood (by omega) e he
    · rw [List.mem_singleton.mp he]
      exact genuine_plainDatagram (by omega) (by rw [List.getElem?_replicate, if_pos (by omega)])
  · rintro ⟨n, -, hn⟩
    have hlen := congrArg List.length hn
    rw [hrun, hs₂.delivered, List.length_replicate] at hlen
    have hle : ((((plainStream (List.replicate N [97])).commands .command).take n).filterMap
        outcome).length ≤ N :=
      (List.length_filterMap_le _ _).trans ((List.length_take_le' _ _).trans (by simp [plainStream]))
    omega

/-- Two commands that arrive in the other order. -/
theorem delivered_in_order_reversed :
    ∃ n ≤ 2, (after clearCipher { now := 0 } [] [plainDatagram 1 [98], plainDatagram 0 [97]]
      ).deliveredOf .command =
        (((plainStream [[97], [98]]).commands .command).take n).filterMap outcome := by
  refine delivered_in_order clearCipher (plainStream [[97], [98]]) (fun k => ?_) { now := 0 } []
    [plainDatagram 1 [98], plainDatagram 0 [97]] (fun e he => ?_) .command
  · cases k <;> decide
  · rcases List.mem_pair.mp he with rfl | rfl
    · exact genuine_plainDatagram (by decide) rfl
    · exact genuine_plainDatagram (by decide) rfl

end PacketHandler

end Teamspeak.Transport
