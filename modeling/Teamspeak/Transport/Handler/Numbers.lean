import Teamspeak.Lib.Cyclic
import Teamspeak.Transport.Handler.Sending

/-!
# The numbers of the packets sent

A packet's absolute number is its generation and its id together, `place`.

* `Act.numbers_cases`: an act gives one packet the next number of its type, or
  leaves the numbers alone.
* `Numbered`: the packets of a type have consecutive numbers, and the next one
  follows them.
* `WindowFollows`: the send window of a command type stands at its next number,
  once a packet of the type has gone out.
* `numbered_after`, `windowFollows_after`: so it is in every state of every run.
-/

namespace Teamspeak.Transport

/-- How many numbers there are before the generation wraps: 2 ^ 32 generations of
2 ^ 16 ids. -/
def placeCount : Nat := 4294967296 * 65536

/-- The number of the first packet of a type. -/
def firstPlace : PacketType → Nat
  | .command => 1
  | _ => 0

theorem firstPlace_le (pType : PacketType) : firstPlace pType ≤ 1 := by
  cases pType <;> simp [firstPlace]

/-! ### The next number -/

namespace Sender

variable {s : Sender} {pType pType' : PacketType}

/-- The number the next packet of a type gets. -/
def nextPlace (s : Sender) (pType : PacketType) : Nat :=
  s.generationCounter pType * 65536 + s.packetCounter pType

theorem nextPacketIdentity_packetCounter (h : pType' ≠ .init1) :
    (s.nextPacketIdentity pType).packetCounter pType' =
      if pType = pType' then (s.packetCounter pType' + 1) % 65536 else s.packetCounter pType' := by
  have huse : (s.useNumber pType).packetCounter pType' =
      if pType = pType' then (s.packetCounter pType' + 1) % 65536 else s.packetCounter pType' := by
    simp only [useNumber, Function.update_apply, eq_comm (a := pType')]
    split_ifs with heq
    · rw [heq]
    · rfl
  unfold nextPacketIdentity
  split_ifs with hinit heq heq
  · exact absurd (heq.symm.trans hinit) h
  · rfl
  · unfold followNumber
    split <;> rw [huse, if_pos heq]
  · unfold followNumber
    split <;> rw [huse, if_neg heq]

theorem nextPacketIdentity_generationCounter (h : pType' ≠ .init1) :
    (s.nextPacketIdentity pType).generationCounter pType' =
      if pType = pType' then
        Cyclic.carry 65536 4294967296 (s.packetCounter pType') (s.generationCounter pType')
      else s.generationCounter pType' := by
  have huse : (s.useNumber pType).generationCounter pType' =
      if pType = pType' then
        Cyclic.carry 65536 4294967296 (s.packetCounter pType') (s.generationCounter pType')
      else s.generationCounter pType' := by
    by_cases heq : pType = pType'
    · subst heq
      simp only [useNumber, Cyclic.carry, if_true]
      split_ifs <;> simp
    · simp only [useNumber, if_neg heq]
      split_ifs
      · rw [Function.update_of_ne (Ne.symm heq)]
      · rfl
  unfold nextPacketIdentity
  split_ifs with hinit heq heq
  · exact absurd (heq.symm.trans hinit) h
  · rfl
  · unfold followNumber
    split <;> rw [huse, if_pos heq]
  · unfold followNumber
    split <;> rw [huse, if_neg heq]

theorem nextPacketIdentity_sendWindow (k : QueueKind) :
    (s.nextPacketIdentity pType).sendWindow k =
      if pType = k.packetType then (s.sendWindow k).advanceToExcluded (s.packetCounter pType)
      else s.sendWindow k := by
  unfold nextPacketIdentity
  split_ifs with hinit heq heq
  · rw [heq] at hinit
    cases k <;> exact absurd hinit (by decide)
  · rfl
  · unfold followNumber
    rw [PacketType.queueKind?_eq_some.mpr heq]
    show Function.update s.sendWindow k ((s.sendWindow k).advanceToExcluded _) k = _
    rw [Function.update_self]
  · unfold followNumber
    split
    · rfl
    · rename_i k' hk'
      have hne : k ≠ k' := by
        rintro rfl
        exact heq (PacketType.queueKind?_eq_some.mp hk')
      show Function.update s.sendWindow k' _ k = _
      rw [Function.update_of_ne hne]

end Sender

namespace PacketHandler

variable {C : Cipher} {env : Env} {op : Option Packet} {s s' : PacketHandler}

/-! ### What an act does to the numbers -/

theorem mem_packetsOf {pType : PacketType} {p : Packet} :
    p ∈ s.packetsOf pType ↔ ∃ t, .numbered t ∈ s.trace ∧ t.packet = p ∧ packetType p = pType := by
  unfold packetsOf
  rw [List.mem_filterMap]
  constructor
  · rintro ⟨o, ho, hp⟩
    cases o with
    | numbered t =>
      simp only [Output.numberedAs, Option.ite_none_right_eq_some, Option.some.injEq] at hp
      exact ⟨t, ho, hp.2, hp.2 ▸ hp.1⟩
    | _ => exact absurd hp (by simp [Output.numberedAs])
  · rintro ⟨t, ht, rfl, htype⟩
    exact ⟨_, ht, by rw [Output.numberedAs, if_pos htype]⟩

theorem packetsOf_append {outs : List Output} (htrace : s'.trace = s.trace ++ outs)
    (pType : PacketType) :
    s'.packetsOf pType = s.packetsOf pType ++ outs.filterMap (Output.numberedAs pType) := by
  rw [packetsOf, htrace, List.filterMap_append]
  rfl

theorem packetsOf_of_quiet {outs : List Output} (htrace : s'.trace = s.trace ++ outs)
    (houts : ∀ o ∈ outs, ∀ t, o ≠ .numbered t) (pType : PacketType) :
    s'.packetsOf pType = s.packetsOf pType := by
  have hnone : outs.filterMap (Output.numberedAs pType) = [] := by
    rw [List.filterMap_eq_nil_iff]
    intro o ho
    cases o with
    | numbered t => exact absurd rfl (houts _ ho t)
    | _ => rfl
  rw [packetsOf_append htrace, hnone, List.append_nil]

/-- The numbers of a type are as they were. -/
structure SameNumbers (s s' : PacketHandler) (pType : PacketType) : Prop where
  packetsOf : s'.packetsOf pType = s.packetsOf pType
  packetCounter : s'.send.packetCounter pType = s.send.packetCounter pType
  generationCounter : s'.send.generationCounter pType = s.send.generationCounter pType

/-- A packet got the next number of its type. -/
structure GivesNumber (s s' : PacketHandler) (p : Packet) : Prop where
  packetsOf : ∀ pType, s'.packetsOf pType =
    s.packetsOf pType ++ if packetType p = pType then [p] else []
  id : p.id = s.send.packetCounter (packetType p)
  generationID : p.generationID = s.send.generationCounter (packetType p)
  packetCounter : s'.send.packetCounter = (s.send.nextPacketIdentity (packetType p)).packetCounter
  generationCounter : s'.send.generationCounter =
    (s.send.nextPacketIdentity (packetType p)).generationCounter
  sendWindow : s'.send.sendWindow = (s.send.nextPacketIdentity (packetType p)).sendWindow

/-- The numbers of the other types stay. -/
theorem GivesNumber.same {p : Packet} (h : GivesNumber s s' p) {pType : PacketType}
    (hinit : pType ≠ .init1) (hne : packetType p ≠ pType) : SameNumbers s s' pType := by
  refine ⟨?_, ?_, ?_⟩
  · rw [h.packetsOf, if_neg hne, List.append_nil]
  · rw [h.packetCounter, Sender.nextPacketIdentity_packetCounter hinit, if_neg hne]
  · rw [h.generationCounter, Sender.nextPacketIdentity_generationCounter hinit, if_neg hne]

/-- **An act gives one packet its number, or none.** -/
theorem Act.numbers_cases (h : Act C env op s s') :
    ((∀ pType, SameNumbers s s' pType) ∧ s'.send.sendWindow = s.send.sendWindow) ∨
      ∃ p, GivesNumber s s' p := by
  cases h.send_cases with
  | idle outs hsend htrace houts =>
    refine Or.inl ⟨fun pType => ⟨packetsOf_of_quiet htrace ?_ pType, by rw [hsend.packetCounter],
      by rw [hsend.generationCounter]⟩, hsend.sendWindow⟩
    intro o ho t heq
    obtain ⟨t', rp, heq', -⟩ := houts o ho (by rw [heq]; rfl)
    rw [heq] at heq'
    exact absurd heq' (by simp)
  | number t outs hid hgen htime hencrypts hkey hack hsend htrace houts =>
    refine Or.inr ⟨t.packet, ?_, hid, hgen, ?_, ?_, ?_⟩
    · intro pType
      have hwire : outs.filterMap (Output.numberedAs pType) = [] := by
        rw [List.filterMap_eq_nil_iff]
        intro o ho
        exact Output.numberedAs_of_isWire (houts o ho) pType
      rw [packetsOf_append htrace, List.filterMap_cons, hwire, Output.numberedAs]
      split_ifs <;> rfl
    · rw [hsend, Sender.sent_packetCounter]
    · rw [hsend, Sender.sent_generationCounter]
    · rw [hsend, Sender.sent_sendWindow]
  | acked k id hid hsend htrace =>
    refine Or.inl ⟨fun pType => ⟨packetsOf_of_quiet htrace ?_ pType, by rw [hsend],
      by rw [hsend]⟩, by rw [hsend]⟩
    intro o ho t heq
    rw [List.mem_singleton.mp ho] at heq
    exact absurd heq (by simp)
  | resent key rp rp' outs hget hagain hsend htrace houts =>
    refine Or.inl ⟨fun pType => ⟨packetsOf_of_quiet htrace ?_ pType, by rw [hsend],
      by rw [hsend]⟩, by rw [hsend]⟩
    intro o ho t heq
    rcases houts o ho with hw | ⟨t', heq', -⟩
    · rw [heq] at hw
      exact absurd hw (by simp [Output.isWire])
    · rw [heq] at heq'
      exact absurd heq' (by simp)
  | expire key outs hclosed hsend htrace houts =>
    refine Or.inl ⟨fun pType => ⟨packetsOf_of_quiet htrace ?_ pType, by rw [hsend],
      by rw [hsend]⟩, by rw [hsend]⟩
    intro o ho t heq
    have hbook := houts o ho
    rw [heq] at hbook
    exact absurd hbook (by simp [Output.isBook])

/-! ### The packets of a type -/

/-- The packets of a type have consecutive numbers, and the next one follows them. -/
structure Numbered (s : PacketHandler) (pType : PacketType) : Prop where
  counter : s.send.packetCounter pType < 65536
  generation : s.send.generationCounter pType < 4294967296
  id_lt : ∀ p ∈ s.packetsOf pType, p.id < 65536
  next : s.send.nextPlace pType =
    (firstPlace pType + (s.packetsOf pType).length) % placeCount
  places : (s.packetsOf pType).map place =
    (List.range (s.packetsOf pType).length).map fun i => (firstPlace pType + i) % placeCount

variable {pType : PacketType}

theorem Numbered.of_same (h : Numbered s pType) (hsame : SameNumbers s s' pType) :
    Numbered s' pType := by
  obtain ⟨hcounter, hgeneration, hid, hnext, hplaces⟩ := h
  refine ⟨?_, ?_, ?_, ?_, ?_⟩
  · rwa [hsame.packetCounter]
  · rwa [hsame.generationCounter]
  · rwa [hsame.packetsOf]
  · unfold Sender.nextPlace
    rw [hsame.packetsOf, hsame.packetCounter, hsame.generationCounter]
    exact hnext
  · rwa [hsame.packetsOf]

theorem Numbered.give (h : Numbered s pType) (hinit : pType ≠ .init1) {p : Packet}
    (hp : GivesNumber s s' p) : Numbered s' pType := by
  obtain ⟨hcounter, hgeneration, hid, hnext, hplaces⟩ := h
  by_cases htype : packetType p = pType
  · have hpackets : s'.packetsOf pType = s.packetsOf pType ++ [p] := by
      rw [hp.packetsOf, if_pos htype]
    have hplace : place p = s.send.nextPlace pType := by
      unfold place Sender.nextPlace
      rw [hp.id, hp.generationID, htype]
    have hcounter' : s'.send.packetCounter pType = (s.send.packetCounter pType + 1) % 65536 := by
      rw [hp.packetCounter, Sender.nextPacketIdentity_packetCounter hinit, if_pos htype]
    have hgeneration' : s'.send.generationCounter pType = Cyclic.carry 65536 4294967296
        (s.send.packetCounter pType) (s.send.generationCounter pType) := by
      rw [hp.generationCounter, Sender.nextPacketIdentity_generationCounter hinit, if_pos htype]
    refine ⟨?_, ?_, ?_, ?_, ?_⟩
    · rw [hcounter']
      exact Nat.mod_lt _ (by decide)
    · rw [hgeneration']
      exact Cyclic.carry_lt hgeneration
    · rw [hpackets]
      intro q hq
      rcases List.mem_append.mp hq with hq | hq
      · exact hid q hq
      · rw [List.mem_singleton.mp hq, hp.id, htype]
        exact hcounter
    · calc s'.send.nextPlace pType
          = (s.send.nextPlace pType + 1) % placeCount := by
            unfold Sender.nextPlace
            rw [hcounter', hgeneration', Cyclic.carry_value hcounter hgeneration]
            rfl
        _ = (firstPlace pType + (s'.packetsOf pType).length) % placeCount := by
            rw [hnext, Nat.mod_add_mod, hpackets, List.length_append]
            rfl
    · rw [hpackets, List.map_append, hplaces, List.length_append, List.length_singleton,
        List.range_succ, List.map_append, List.map_singleton, List.map_singleton, hplace, hnext]
  · have h : Numbered s pType := ⟨hcounter, hgeneration, hid, hnext, hplaces⟩
    exact h.of_same (hp.same hinit htype)

theorem Act.numbered (h : Act C env op s s') (hinit : pType ≠ .init1) (hs : Numbered s pType) :
    Numbered s' pType := by
  rcases h.numbers_cases with ⟨hsame, -⟩ | ⟨p, hp⟩
  · exact hs.of_same (hsame pType)
  · exact hs.give hinit hp

theorem numbered_opened (hinit : pType ≠ .init1) (now : Time) : Numbered (opened now) pType := by
  have hnone : (opened now).packetsOf pType = [] := rfl
  have hcounter : (opened now).send.packetCounter pType = firstPlace pType := by
    cases pType with
    | init1 => exact absurd rfl hinit
    | _ => rfl
  have hfirst := firstPlace_le pType
  refine ⟨?_, ?_, ?_, ?_, ?_⟩
  · omega
  · show 0 < 4294967296
    decide
  · simp [hnone]
  · unfold Sender.nextPlace
    rw [hnone, hcounter]
    show 0 * 65536 + firstPlace pType = (firstPlace pType + 0) % placeCount
    rw [Nat.zero_mul, Nat.zero_add, Nat.add_zero, Nat.mod_eq_of_lt]
    exact hfirst.trans_lt (by decide)
  · rw [hnone]
    rfl

/-- **In every state of every run the packets of a type have consecutive numbers.** -/
theorem numbered_after (C : Cipher) (env₀ : Env) (init1Data : Bytes) (es : List (Env × Event))
    (hinit : pType ≠ .init1) : Numbered (after C env₀ init1Data es) pType := by
  refine after_preserves (P := fun s => Numbered s pType) ?_ (numbered_opened hinit) env₀ init1Data es
  intro env op s s' h hs
  exact h.numbered hinit hs

/-- Until the generation wraps, the packets of a type are numbered one by one from
its first number. -/
theorem Numbered.consecutive (h : Numbered s pType)
    (hfit : firstPlace pType + (s.packetsOf pType).length ≤ placeCount) :
    (s.packetsOf pType).map place =
      List.range' (firstPlace pType) (s.packetsOf pType).length := by
  rw [h.places, List.range'_eq_map_range, List.map_inj_left]
  intro i hi
  rw [List.mem_range] at hi
  exact Nat.mod_eq_of_lt (by omega)

/-- Until the generation wraps, no two packets of a type share generation and id. -/
theorem Numbered.nodup (h : Numbered s pType)
    (hfit : firstPlace pType + (s.packetsOf pType).length ≤ placeCount) :
    ((s.packetsOf pType).map fun p => (p.generationID, p.id)).Nodup := by
  have hplaces : ((s.packetsOf pType).map place).Nodup := by
    rw [h.consecutive hfit]
    exact List.nodup_range'
  have hof : (s.packetsOf pType).map place =
      ((s.packetsOf pType).map fun p => (p.generationID, p.id)).map
        fun q => q.1 * 65536 + q.2 := by
    rw [List.map_map]
    rfl
  rw [hof] at hplaces
  exact hplaces.of_map

/-! ### The send window -/

variable {k : QueueKind}

/-- Until the generation wraps, the send window stands at the next number, once a
packet of the type has gone out, and at the beginning before. -/
def WindowFollows (s : PacketHandler) (k : QueueKind) : Prop :=
  firstPlace k.packetType + (s.packetsOf k.packetType).length < placeCount →
    (s.send.sendWindow k).position =
      if (s.packetsOf k.packetType).length = 0 then 0
      else firstPlace k.packetType + (s.packetsOf k.packetType).length

theorem Act.windowFollows (h : Act C env op s s') (hn : Numbered s k.packetType)
    (hs : WindowFollows s k) : WindowFollows s' k := by
  have hinit : k.packetType ≠ .init1 := by cases k <;> decide
  have hsame : SameNumbers s s' k.packetType → s'.send.sendWindow k = s.send.sendWindow k →
      WindowFollows s' k := by
    intro hsame hwindow
    unfold WindowFollows
    rw [hsame.packetsOf, hwindow]
    exact hs
  rcases h.numbers_cases with ⟨hnumbers, hwindow⟩ | ⟨p, hp⟩
  · exact hsame (hnumbers _) (by rw [hwindow])
  by_cases htype : packetType p = k.packetType
  · have hlength : (s'.packetsOf k.packetType).length = (s.packetsOf k.packetType).length + 1 := by
      rw [hp.packetsOf, if_pos htype, List.length_append]
      rfl
    have hwindow : s'.send.sendWindow k =
        (s.send.sendWindow k).advanceToExcluded (s.send.packetCounter k.packetType) := by
      rw [hp.sendWindow, Sender.nextPacketIdentity_sendWindow, if_pos htype, htype]
    intro hfit
    rw [hlength] at hfit ⊢
    rw [hwindow, if_neg (Nat.succ_ne_zero _)]
    have hposition := hs (by omega)
    have hnext := hn.next
    have hcounter := hn.counter
    have hfirst := firstPlace_le k.packetType
    rw [Nat.mod_eq_of_lt (by omega)] at hnext
    unfold Sender.nextPlace at hnext
    have hid : s.send.packetCounter k.packetType =
        (firstPlace k.packetType + (s.packetsOf k.packetType).length) % 65536 := by omega
    have hahead : Cyclic.next 65536 (s.send.sendWindow k).position
        (s.send.packetCounter k.packetType) =
          firstPlace k.packetType + (s.packetsOf k.packetType).length := by
      rw [hid]
      apply Cyclic.next_of_mod
      · rw [hposition]; split_ifs <;> omega
      · rw [hposition]; split_ifs <;> omega
    rw [GenerationWindow.advanceToExcluded_position _ hcounter, hahead, Nat.add_assoc]
    rw [hahead]
    unfold placeCount at hfit
    show _ ≤ 4294967295
    omega
  · refine hsame (hp.same hinit htype) ?_
    rw [hp.sendWindow, Sender.nextPacketIdentity_sendWindow, if_neg htype]

theorem windowFollows_after (C : Cipher) (env₀ : Env) (init1Data : Bytes)
    (es : List (Env × Event)) (k : QueueKind) : WindowFollows (after C env₀ init1Data es) k := by
  have hinit : k.packetType ≠ .init1 := by cases k <;> decide
  have hboth := after_preserves (C := C)
    (P := fun s => Numbered s k.packetType ∧ WindowFollows s k) ?_ ?_ env₀ init1Data es
  · exact hboth.2
  · intro env op s s' h hs
    exact ⟨h.numbered hinit hs.1, h.windowFollows hs.1 hs.2⟩
  · intro now
    refine ⟨numbered_opened hinit now, ?_⟩
    intro hfit
    exact GenerationWindow.position_new

end PacketHandler

end Teamspeak.Transport
