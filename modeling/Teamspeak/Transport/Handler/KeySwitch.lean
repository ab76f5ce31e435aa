import Teamspeak.Transport.Handler.Representation

/-!
# The switch of keys

Before crypto init a command needs only the public dummy key, and after it the
session's.  A command is decrypted when it arrives and handed on when its turn
comes, which may be on the other side of the switch.

* `handed_on_under_session_key`: when nothing is held at the switch, no command
  that came under the dummy key is handed on after it.
* `dummy_command_after_init`: a command held at the switch is.
-/

namespace Teamspeak.Transport

namespace PacketHandler

variable {C : Cipher} {env : Env} {op : Option Packet} {s s' : PacketHandler}

/-- Crypto init completed, if it has, while nothing was held. -/
def SwitchesEmpty (s : PacketHandler) : Prop := ∀ held, .cryptoInit held ∈ s.trace → held = 0

instance (s : PacketHandler) : Decidable s.SwitchesEmpty :=
  decidable_of_iff
    (∀ o ∈ s.trace, (match o with | .cryptoInit held => held == 0 | _ => true) = true)
    ⟨fun h held hheld => by simpa using h _ hheld, fun h o ho => by
      cases o with
      | cryptoInit held => simpa using h held ho
      | _ => rfl⟩

/-- After the switch nothing that came under the dummy key is held, and no such
command has been handed on. -/
structure KeysSeparate (s : PacketHandler) : Prop where
  held : s.crypt.cryptoInitComplete = true → ∀ k id p,
    (s.recv.queues k).queue.get? id = some p → p.dummyUsed = false
  delivered : ∀ p, .delivered p true ∈ s.trace → (packetType p).queueKind?.isSome = true →
    p.dummyUsed = false

theorem get?_of_heldPackets_eq_zero (h : s.heldPackets = 0) (k : QueueKind) (id : Nat) :
    (s.recv.queues k).queue.get? id = none := by
  have hsize : (s.recv.queues k).queue.size = 0 := by
    rw [heldPackets] at h
    cases k <;> omega
  rw [InsertionMap.get?_eq_none, List.length_eq_zero_iff.mp hsize]
  simp

theorem dummyUsed_of_assemble {fs : List Packet} {p : Packet}
    (h : (Receiver.assemble fs).bind tryDecompress = some p)
    (hfs : ∀ f ∈ fs, f.dummyUsed = false) : p.dummyUsed = false := by
  obtain ⟨q, hq, hp⟩ := Option.bind_eq_some_iff.mp h
  have hqd : q.dummyUsed = false := by
    match fs with
    | [] => exact absurd hq (by simp [Receiver.assemble])
    | [f] =>
      obtain rfl : f = q := by simpa [Receiver.assemble] using hq
      exact hfs f (by simp)
    | f :: g :: fs =>
      simp only [Receiver.assemble] at hq
      split_ifs at hq
      rw [← Option.some.inj hq]
      simpa using hfs
  rw [tryDecompress] at hp
  split_ifs at hp
  · rw [← Option.some.inj hp]; exact hqd
  · split at hp
    · exact absurd hp (by simp)
    · rw [← Option.some.inj hp]; exact hqd

theorem Act.keysSeparate (h : Act C env op s s') (hv : s.recv.Valid) (hswitch : s'.SwitchesEmpty)
    (hk : s.KeysSeparate) : s'.KeysSeparate := by
  have hdelivered : s.Quiet s' → ∀ p, .delivered p true ∈ s'.trace →
      (packetType p).queueKind?.isSome = true → p.dummyUsed = false := by
    rintro ⟨outs, htrace, houts⟩ p hp hcommand
    rw [htrace] at hp
    rcases List.mem_append.mp hp with hp | hp
    · exact hk.delivered p hp hcommand
    · have := houts _ hp
      rw [Output.isCommand, hcommand] at this
      exact absurd this (by simp)
  rcases h.recv_cases hv.inOrder with
    ⟨hqueues, -, hcrypt, hquiet⟩ | ⟨k, p, -, hfresh, -, -, hrecv, hcrypt, hquiet⟩ |
      ⟨k, fs, htook, hcrypt, htrace⟩
  · refine ⟨fun hcomplete k id p hp => ?_, hdelivered hquiet⟩
    rw [hqueues] at hp
    rcases hcrypt with hcrypt | hinit
    · exact hk.held (hcrypt ▸ hcomplete) k id p hp
    · rw [get?_of_heldPackets_eq_zero (hswitch _ hinit)] at hp
      exact absurd hp (by simp)
  · refine ⟨fun hcomplete k' id q hq => ?_, hdelivered hquiet⟩
    rw [hcrypt] at hcomplete
    obtain ⟨hother, -, -, hget, -⟩ := Receiver.hold_spec s.recv k p
    rw [hrecv] at hq
    by_cases hk' : k' = k
    · subst hk'
      rw [hget] at hq
      split_ifs at hq
      · rw [← Option.some.inj hq, hfresh.dummyUsed, hcomplete]
        rfl
      · exact hk.held hcomplete k' id q hq
    · exact hk.held hcomplete k' id q (hother k' hk' ▸ hq)
  · refine ⟨fun hcomplete k' id p hp => ?_, fun p hp hcommand => ?_⟩
    · refine hk.held (hcrypt ▸ hcomplete) k' id p ?_
      by_cases hk' : k' = k
      · subst hk'
        exact htook.get?_of_get? hp
      · exact htook.other k' hk' ▸ hp
    · rw [htrace] at hp
      rcases List.mem_append.mp hp with hp | hp
      · exact hk.delivered p hp hcommand
      · obtain ⟨q, hq, heq⟩ := List.mem_map.mp hp
        obtain ⟨rfl, hcomplete⟩ := Output.delivered.inj heq
        refine dummyUsed_of_assemble (Option.mem_toList.mp hq) fun f hf => ?_
        obtain ⟨i, hi, rfl⟩ := List.mem_iff_getElem.mp hf
        exact hk.held hcomplete k _ _ (htook.offered i hi)

theorem Act.trace_prefix (h : Act C env op s s') (hv : s.recv.Valid) : s.trace <+: s'.trace := by
  rcases h.recv_cases hv.inOrder with
    ⟨-, -, -, outs, htrace, -⟩ | ⟨k, p, -, -, -, -, -, -, outs, htrace, -⟩ | ⟨k, fs, -, -, htrace⟩
  all_goals exact htrace ▸ List.prefix_append _ _

/-- **After crypto init every command handed on was decrypted under the session
key**, in every run in which crypto init completes while both receive queues are
empty. -/
theorem handed_on_under_session_key (C : Cipher) (env : Env) (init1Data : Bytes)
    (es : List (Env × Event)) (hswitch : (after C env init1Data es).SwitchesEmpty) :
    ∀ p, .delivered p true ∈ (after C env init1Data es).trace →
      (packetType p).queueKind?.isSome = true → p.dummyUsed = false := by
  have hstart : (start C env init1Data).KeysSeparate := by
    obtain ⟨t, outs, -, -, -, -, -, htrace, houts⟩ := sendPacketRaw_spec C env
      (s := opened env.now) .init1 init1Data .none (Or.inl rfl)
    refine ⟨fun _ k id p hp => ?_, fun p hp _ => ?_⟩
    · rw [start_recv] at hp
      exact absurd hp (by simp [Receiver.new, ReceiveQueue.new])
    · have hp' : .delivered p true ∈ (opened env.now).trace ++ .numbered t :: outs := htrace ▸ hp
      rcases List.mem_cons.mp hp' with h | h
      · exact absurd h (by simp)
      · exact absurd (houts _ h) (by simp [Output.isWire])
  have hinv : (after C env init1Data es).recv.Valid ∧
      ((after C env init1Data es).SwitchesEmpty → (after C env init1Data es).KeysSeparate) := by
    refine run_invariant (I := fun s : PacketHandler =>
      s.recv.Valid ∧ (s.SwitchesEmpty → s.KeysSeparate)) (fun s e hs => ?_) es
      ⟨by rw [start_recv]; exact Receiver.Valid.new, fun _ => hstart⟩
    refine (step_acts s e).preserves (P := fun s => s.recv.Valid ∧
      (s.SwitchesEmpty → s.KeysSeparate)) (fun s₁ s₂ h hs₁ => ?_) hs
    refine ⟨h.recv_valid hs₁.1, fun hsw => h.keysSeparate hs₁.1 hsw (hs₁.2 fun held hheld => ?_)⟩
    exact hsw held ((h.trace_prefix hs₁.1).subset hheld)
  exact (hinv.2 hswitch).delivered

/-- An owner that completes crypto init on the first command, as `client.ts` does
on the server's answer. -/
def switchOnFirst (p : Packet) : Reaction :=
  { calls := if p.id = 0 then
      [.setSharedSecret (List.replicate 10 1) [1] (List.replicate 11 2)] else [] }

/-- A command that arrives ahead of its turn, under the dummy key, and then the
one whose handling completes crypto init. -/
def dummyAhead : List (Env × Event) :=
  [({ now := 1, owner := switchOnFirst }, .datagram (clearDatagram 0 1 ⟨.command, {}⟩ [98])),
    ({ now := 2, owner := switchOnFirst }, .datagram (clearDatagram 0 0 ⟨.command, {}⟩ [97]))]

/-- A command under the dummy key is handed on after crypto init has completed. -/
theorem dummy_command_after_init :
    ¬ ∀ p, .delivered p true ∈ (after clearCipher { now := 0 } [] dummyAhead).trace →
      (packetType p).queueKind?.isSome = true → p.dummyUsed = false := by
  intro h
  have := h
    { typeFlagged := ⟨.command, {}⟩, id := 1, clientID := 0, generationID := 0, data := [98],
      receivedAt := 1, dummyUsed := true, firstArrived := 1 } (by decide) rfl
  exact absurd this (by decide)

/-- In order, the same two commands are separated by the switch: one is handed on
after it, and came under the session key. -/
theorem handed_on_under_session_key_in_order :
    (∃ p, .delivered p true ∈ (after clearCipher { now := 0 } [] dummyAhead.reverse).trace) ∧
      ∀ p, .delivered p true ∈ (after clearCipher { now := 0 } [] dummyAhead.reverse).trace →
        (packetType p).queueKind?.isSome = true → p.dummyUsed = false := by
  refine ⟨⟨⟨⟨.command, {}⟩, 1, 0, 0, [98], 1, false, 1⟩, by decide⟩, ?_⟩
  refine handed_on_under_session_key clearCipher { now := 0 } [] dummyAhead.reverse ?_
  decide

end PacketHandler

end Teamspeak.Transport
