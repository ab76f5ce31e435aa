import Teamspeak.Transport.Handler.Sending
import Teamspeak.Transport.Handler.ServerStream

/-!
# Splitting a command

* `isFrame_frameOf`: the packets a command is split into are one frame.
* `outcome_frameOf`: what a receiver makes of the frame is the command.
* `sendPacket_sent`, `sendAll_sent`: the packets that go out are those, with
  consecutive ids.
-/

namespace Teamspeak.Transport

open Framing PacketHandler

/-! ### The blocks -/

/-- The packets a command is sent in: the flags and the data of each. -/
def frameOf (k : QueueKind) (flags : PacketFlags) (data : Bytes) : List Content :=
  (splitBlocks flags data.length true data).map fun b =>
    (applyProtocolFlags k.packetType b.1, b.2)

theorem splitBlocks_nil (flags : PacketFlags) (fuel : Nat) (first : Bool) :
    splitBlocks flags fuel first [] = [] := by
  cases fuel <;> simp [splitBlocks]

/-- What is left fits in one block, which is the last. -/
theorem splitBlocks_last {flags : PacketFlags} {fuel : Nat} {first : Bool} {data : Bytes}
    (hpos : 0 < data.length) (hfuel : data.length ≤ fuel) (hlast : data.length ≤ maxBlockSize) :
    splitBlocks flags fuel first data =
      [(if first = false then { flags with fragmented := true } else flags, data)] := by
  cases fuel with
  | zero => omega
  | succ fuel =>
    rw [splitBlocks, if_neg (by omega)]
    simp only [Nat.min_eq_left hlast, decide_true, List.drop_length, List.take_length,
      splitBlocks_nil]
    cases first <;> rfl

/-- More is left than one block takes. -/
theorem splitBlocks_more {flags : PacketFlags} {fuel : Nat} {first : Bool} {data : Bytes}
    (hmore : maxBlockSize < data.length) :
    splitBlocks flags (fuel + 1) first data =
      (if first = true then { flags with fragmented := true } else flags,
        data.take maxBlockSize) :: splitBlocks flags fuel false (data.drop maxBlockSize) := by
  have hne : data.length ≠ maxBlockSize := by omega
  rw [splitBlocks, if_neg (by omega)]
  simp only [Nat.min_eq_right hmore.le, hne, decide_false]
  cases first <;> rfl

/-- What a block says apart from its mark. -/
def unmarked (flags : PacketFlags) : PacketFlags := { flags with fragmented := false }

theorem unmarked_eq {flags : PacketFlags} (h : flags.fragmented = false) :
    unmarked flags = flags := by
  cases flags
  simp_all [unmarked]

/-- **The blocks of a command**: read from the first they end with the last, they
join to its data, and each is of bounded length and has its flags. -/
theorem splitBlocks_spec (first : Bool) {flags : PacketFlags} (hflags : flags.fragmented = false)
    {fuel : Nat} {data : Bytes} (hpos : 0 < data.length) (hfuel : data.length ≤ fuel) :
    scan (fun b : PacketFlags × Bytes => b.1.fragmented) (!first)
        (splitBlocks flags fuel first data) = some (splitBlocks flags fuel first data) ∧
      (splitBlocks flags fuel first data).flatMap Prod.snd = data ∧
      ∀ b ∈ splitBlocks flags fuel first data, unmarked b.1 = flags ∧ b.2.length ≤ maxBlockSize := by
  have hmarked : unmarked { flags with fragmented := true } = flags := unmarked_eq hflags
  induction fuel generalizing first data with
  | zero => omega
  | succ fuel ih =>
    rcases Nat.lt_or_ge maxBlockSize data.length with hmore | hlast
    · have hdrop : (data.drop maxBlockSize).length = data.length - maxBlockSize := List.length_drop
      have hsize : 0 < maxBlockSize := by decide
      have hpos' : 0 < (data.drop maxBlockSize).length := by omega
      obtain ⟨hscan, hjoin, hall⟩ := ih false hpos' (by omega)
      rw [splitBlocks_more hmore]
      refine ⟨?_, ?_, fun b hb => ?_⟩
      · rw [Bool.not_false] at hscan
        rw [scan, hscan]
        cases first <;> simp [hflags]
      · rw [List.flatMap_cons, hjoin, List.take_append_drop]
      · rcases List.mem_cons.mp hb with rfl | hb
        · refine ⟨?_, List.length_take_le _ _⟩
          cases first
          · exact unmarked_eq hflags
          · exact hmarked
        · exact hall b hb
    · rw [splitBlocks_last hpos hfuel hlast]
      refine ⟨?_, by simp, fun b hb => ?_⟩
      · cases first <;> simp [scan, hflags]
      · rw [List.mem_singleton.mp hb]
        refine ⟨?_, hlast⟩
        cases first
        · exact hmarked
        · exact unmarked_eq hflags

/-- **A command goes out as one frame.** -/
theorem isFrame_frameOf (k : QueueKind) {flags : PacketFlags} (hflags : flags.fragmented = false)
    {data : Bytes} (hpos : 0 < data.length) : IsFrame isMarked (frameOf k flags data) := by
  apply isFrame_map.mpr
  have hmark : (isMarked ∘ fun b : PacketFlags × Bytes =>
      (applyProtocolFlags k.packetType b.1, b.2)) = fun b => b.1.fragmented := by
    funext b
    cases k <;> rfl
  rw [hmark]
  exact (splitBlocks_spec true hflags hpos le_rfl).1

theorem length_flatMap_le {l : List (PacketFlags × Bytes)} {n : Nat}
    (h : ∀ b ∈ l, b.2.length ≤ n) : (l.flatMap Prod.snd).length ≤ l.length * n := by
  induction l with
  | nil => simp
  | cons b l ih =>
    have hb := h b List.mem_cons_self
    have hl := ih fun c hc => h c (List.mem_cons_of_mem _ hc)
    rw [List.flatMap_cons, List.length_append, List.length_cons, Nat.succ_mul]
    omega

/-- **What a receiver makes of a command's frame is the command.** -/
theorem outcome_frameOf (k : QueueKind) {flags : PacketFlags} (hflags : flags.fragmented = false)
    (hplain : flags.compressed = false) {data : Bytes} (hpos : 0 < data.length)
    (hblocks : (frameOf k flags data).length ≤ receivePacketWindowSize) :
    outcome (frameOf k flags data) = some (applyProtocolFlags k.packetType flags, data) := by
  obtain ⟨-, hjoin, hall⟩ := splitBlocks_spec true hflags hpos (le_refl data.length)
  have hframe := isFrame_frameOf k hflags hpos
  have happly : ∀ f : PacketFlags, unmarked (applyProtocolFlags k.packetType f) =
      applyProtocolFlags k.packetType (unmarked f) := by
    intro f
    cases k <;> rfl
  have hcompressed : (applyProtocolFlags k.packetType flags).compressed = false := by
    cases k <;> exact hplain
  rw [frameOf, List.length_map] at hblocks
  rw [frameOf] at hframe ⊢
  generalize splitBlocks flags data.length true data = blocks at *
  match blocks with
  | [] => exact absurd rfl hframe.ne_nil
  | [b] =>
    have hb : b.2 = data := by simpa using hjoin
    have hmark : b.1.fragmented = false := by
      rcases isFrame_iff.mp hframe with ⟨a, ha, hmark⟩ | ⟨a, mid, z, heq, -⟩
      · obtain rfl := List.cons.inj ha |>.1
        cases k <;> exact hmark
      · exact absurd (congrArg List.length heq) (by simp)
    have hflag : b.1 = flags := (unmarked_eq hmark).symm.trans (hall b List.mem_cons_self).1
    simp only [List.map_cons, List.map_nil, outcome, Option.bind_some, hflag, hb]
    rw [if_pos hcompressed]
  | b :: c :: rest =>
    have hsize := length_flatMap_le fun d hd => (hall d hd).2
    have hflag := (hall b List.mem_cons_self).1
    have hdata : ((b :: c :: rest).map fun b : PacketFlags × Bytes =>
        (applyProtocolFlags k.packetType b.1, b.2)).flatMap Prod.snd = data := by
      rw [List.flatMap_map]
      exact hjoin
    have hle : ¬ data.length > maxReassembledSize := by
      rw [hjoin] at hsize
      have := Nat.mul_le_mul_right maxBlockSize hblocks
      simp only [receivePacketWindowSize, maxBlockSize, maxOutPacketSize, headerSize, tagSize,
        maxReassembledSize] at this hsize ⊢
      omega
    simp only [List.map_cons] at hdata ⊢
    simp only [outcome, hdata, if_neg hle, Option.bind_some]
    change (if (unmarked (applyProtocolFlags k.packetType b.1)).compressed = false then
      some (unmarked (applyProtocolFlags k.packetType b.1), data) else _) = _
    rw [happly, hflag, if_pos hcompressed]

/-! ### The packets that go out -/

namespace PacketHandler

variable {C : Cipher} {s s' s'' : PacketHandler} {k : QueueKind} {l l' : List Content}

/-- Between two states packets of a kind went out with these contents, under
consecutive ids. -/
structure Sent (s s' : PacketHandler) (k : QueueKind) (l : List Content) : Prop where
  packets : ∃ ps, s'.packetsOf k.packetType = s.packetsOf k.packetType ++ ps ∧ ps.map content = l ∧
    ∀ i (h : i < ps.length), packetType ps[i] = k.packetType ∧
      ps[i].id = (s.send.packetCounter k.packetType + i) % 65536
  counter : s'.send.packetCounter k.packetType =
    (s.send.packetCounter k.packetType + l.length) % 65536

theorem Sent.refl (h : s.send.packetCounter k.packetType < 65536) : Sent s s k [] :=
  ⟨⟨[], by simp, rfl, by simp⟩, by rw [List.length_nil, Nat.add_zero, Nat.mod_eq_of_lt h]⟩

theorem Sent.trans (h : Sent s s' k l) (h' : Sent s' s'' k l') : Sent s s'' k (l ++ l') := by
  obtain ⟨⟨ps, hps, hcontent, hids⟩, hcounter⟩ := h
  obtain ⟨⟨ps', hps', hcontent', hids'⟩, hcounter'⟩ := h'
  have hlen : ps.length = l.length := by rw [← hcontent, List.length_map]
  refine ⟨⟨ps ++ ps', ?_, ?_, ?_⟩, ?_⟩
  · rw [hps', hps, List.append_assoc]
  · rw [List.map_append, hcontent, hcontent']
  · intro i hi
    rw [List.length_append] at hi
    rcases Nat.lt_or_ge i ps.length with hlt | hge
    · rw [List.getElem_append_left hlt]
      exact hids i hlt
    · obtain ⟨htype, hid⟩ := hids' (i - ps.length) (by omega)
      rw [List.getElem_append_right hge]
      refine ⟨htype, ?_⟩
      rw [hid, hcounter]
      omega
  · rw [hcounter', hcounter, List.length_append]
    omega

/-- One packet goes out under the next id. -/
theorem sendPacketRaw_sent (C : Cipher) (env : Env) (data : Bytes) (flags : PacketFlags)
    {dummy : Bool} (hkey : dummy = true ∨ s.crypt.cryptoInitComplete = true)
    (hid : s.send.packetCounter k.packetType < 65536) :
    Sent s (s.sendPacketRaw C env k.packetType data flags dummy) k
      [(applyProtocolFlags k.packetType flags, data)] := by
  obtain ⟨t, outs, hpacket, -, -, -, hsend, htrace, houts⟩ :=
    sendPacketRaw_spec (s := s) C env k.packetType data flags hkey
  have htype : packetType t.packet = k.packetType := by rw [hpacket]; rfl
  have hwire : outs.filterMap (Output.numberedAs k.packetType) = [] := by
    rw [List.filterMap_eq_nil_iff]
    intro o ho
    exact Output.numberedAs_of_isWire (houts o ho) _
  refine ⟨⟨[t.packet], ?_, ?_, ?_⟩, ?_⟩
  · rw [packetsOf, htrace, List.filterMap_append, List.filterMap_cons, hwire, Output.numberedAs,
      if_pos htype]
    rfl
  · rw [hpacket]
    rfl
  · intro i hi
    obtain rfl : i = 0 := by simpa using hi
    refine ⟨htype, ?_⟩
    rw [List.getElem_singleton, hpacket, Nat.add_zero, Nat.mod_eq_of_lt hid]
    rfl
  · have hinit : k.packetType ≠ .init1 := by cases k <;> decide
    rw [hsend, Sender.sent_packetCounter, Sender.nextPacketIdentity, if_neg hinit, Sender.followNumber]
    split <;> simp [Sender.useNumber]

theorem sendSplitPacket_sent (C : Cipher) (env : Env) (flags : PacketFlags) (data : Bytes)
    {dummy : Bool} (hkey : dummy = true ∨ s.crypt.cryptoInitComplete = true)
    (hid : s.send.packetCounter k.packetType < 65536) :
    Sent s (s.sendSplitPacket C env k.packetType data flags dummy) k (frameOf k flags data) := by
  rw [sendSplitPacket, frameOf]
  generalize splitBlocks flags data.length true data = blocks
  induction blocks generalizing s with
  | nil => exact .refl hid
  | cons block blocks ih =>
    have hone := sendPacketRaw_sent (k := k) C env block.2 block.1 hkey hid
    refine hone.trans (ih ?_ ?_)
    · rwa [sendPacketRaw_crypt]
    · rw [hone.counter]
      exact Nat.mod_lt _ (by decide)

/-- **`sendPacket` sends a command's frame**, split or in one piece. -/
theorem sendPacket_sent (C : Cipher) (env : Env) (flags : PacketFlags) {data : Bytes}
    (hpos : 0 < data.length) (hid : s.send.packetCounter k.packetType < 65536) :
    Sent s (s.sendPacket C env k.packetType data flags) k (frameOf k flags data) := by
  have hkey : (!s.crypt.cryptoInitComplete) = true ∨ s.crypt.cryptoInitComplete = true := by
    cases s.crypt.cryptoInitComplete <;> simp
  simp only [sendPacket]
  split_ifs with hsplit
  · exact sendSplitPacket_sent C env flags data hkey hid
  · have hsmall : data.length ≤ maxBlockSize := by
      have hvoice : k.packetType ≠ .voice ∧ k.packetType ≠ .voiceWhisper := by
        cases k <;> decide
      have hle : ¬ data.length > 487 := fun h => hsplit ⟨h, hvoice⟩
      simp only [maxBlockSize, maxOutPacketSize, headerSize, tagSize]
      omega
    rw [frameOf, splitBlocks_last hpos le_rfl hsmall]
    exact sendPacketRaw_sent C env data flags hkey hid

/-- A command as it is sent: what it meets outside, its flags and its data. -/
abbrev Command := Env × PacketFlags × Bytes

/-- Send commands of a kind one after another. -/
def sendAll (C : Cipher) (k : QueueKind) (s : PacketHandler) (cs : List Command) : PacketHandler :=
  run (fun s (c : Command) => s.sendPacket C c.1 k.packetType c.2.2 c.2.1) s cs

/-- Commands sent one after another go out as their frames, one after another. -/
theorem sendAll_sent (C : Cipher) {cs : List Command} (hpos : ∀ c ∈ cs, 0 < c.2.2.length)
    (hid : s.send.packetCounter k.packetType < 65536) :
    Sent s (sendAll C k s cs) k (cs.map fun c => frameOf k c.2.1 c.2.2).flatten := by
  induction cs generalizing s with
  | nil => exact .refl hid
  | cons c cs ih =>
    have hone := sendPacket_sent (k := k) C c.1 c.2.1 (hpos c List.mem_cons_self) hid
    refine hone.trans (ih ?_ ?_)
    · intro d hd
      exact hpos d (List.mem_cons_of_mem _ hd)
    · rw [hone.counter]
      exact Nat.mod_lt _ (by decide)

end PacketHandler

end Teamspeak.Transport
