import Teamspeak.Transport.Handler.CommandStep
import Teamspeak.Transport.Handler.Split

/-!
# Split and reassembled

* `drain_delivers`: the drain takes frames off a queue and hands on what each
  comes to.
* `Progress`: where a queue has got to in the frames it is fed.
* `split_reassemble`: the packets of commands, fed to a queue in any order within
  its window and limits, come out as the commands.
-/

namespace Teamspeak.Transport

open Framing

namespace PacketHandler

variable {C : Cipher} {env : Env} {s s' : PacketHandler} {k : QueueKind}

/-! ### What the drain hands on -/

theorem Quiet.trans {s'' : PacketHandler} (h : s.Quiet s') (h' : s'.Quiet s'') : s.Quiet s'' := by
  obtain ⟨outs, htrace, houts⟩ := h
  obtain ⟨outs', htrace', houts'⟩ := h'
  refine ⟨outs ++ outs', by rw [htrace', htrace, List.append_assoc], ?_⟩
  intro o ho
  rcases List.mem_append.mp ho with ho | ho
  · exact houts o ho
  · exact houts' o ho

theorem sendPacketRaw_quiet (C : Cipher) (env : Env) (pType : PacketType) (data : Bytes)
    (flags : PacketFlags) (dummy : Bool) :
    s.Quiet (s.sendPacketRaw C env pType data flags dummy) := by
  simp only [sendPacketRaw]
  split
  · exact .refl_of_eq rfl
  · rename_i ciphertext tag _
    let p := s.nextPacket pType (applyProtocolFlags pType flags) data
    let t : Transmission := ⟨p, dummy, buildC2SHeader p, ciphertext, tag, env.now⟩
    let s₁ : PacketHandler := { s with send := s.send.nextPacketIdentity pType }
    obtain ⟨outs, htrace, houts⟩ := write_trace (s := s₁.log (.numbered t)) env t.datagram
    have hwrite : ((s₁.log (.numbered t)).write env t.datagram).trace =
        s.trace ++ .numbered t :: outs := by
      rw [htrace]
      simp [s₁]
    exact .of_numbered hwrite houts

theorem call_quiet (c : Call) : s.Quiet (s.call C env c) := by
  cases c with
  | sendPacket pType data flags =>
    simp only [call, sendPacket, sendSplitPacket]
    split_ifs
    · generalize splitBlocks flags data.length true data = blocks
      generalize (!s.crypt.cryptoInitComplete) = dummy
      induction blocks generalizing s with
      | nil => exact .refl_of_eq rfl
      | cons block blocks ih => exact (sendPacketRaw_quiet C env _ _ _ _).trans ih
    · exact sendPacketRaw_quiet C env _ _ _ _
  | sendVoicePacket data codec =>
    obtain ⟨t, outs, -, -, -, -, htrace, houts⟩ :=
      sendNumbered_spec (s := s) C env (Or.inl rfl) .none (codec :: data)
    exact .of_numbered htrace houts
  | sendWhisperPacket data clients codec channels =>
    simp only [call, sendWhisperPacket]
    split_ifs
    iterate 5 exact .refl_of_eq rfl
    obtain ⟨t, outs, -, -, -, -, htrace, houts⟩ :=
      sendNumbered_spec (s := s) C env (Or.inr rfl) .none _
    exact .of_numbered htrace houts
  | sendGroupWhisperPacket data groupType scope id codec =>
    simp only [call, sendGroupWhisperPacket]
    split_ifs
    iterate 3 exact .refl_of_eq rfl
    obtain ⟨t, outs, -, -, -, -, htrace, houts⟩ :=
      sendNumbered_spec (s := s) C env (Or.inr rfl) _ _
    exact .of_numbered htrace houts
  | setClientID id => exact .refl_of_eq rfl
  | receivedFinalInitAck => exact .refl_of_eq rfl
  | setSharedSecret alpha beta sharedKey =>
    simp only [call, setSharedSecret]
    split_ifs
    · exact .refl_of_eq rfl
    · split
      · exact .refl_of_eq rfl
      · exact ⟨_, rfl, by simp [Output.isCommand]⟩
  | close => exact .refl_of_eq (by simp [call])

theorem runCalls_quiet (calls : List Call) : s.Quiet (s.runCalls C env calls) := by
  induction calls generalizing s with
  | nil => exact .refl_of_eq rfl
  | cons c calls ih => exact (call_quiet c).trans ih

/-- A turn of the drain takes a frame off and hands on what it comes to. -/
theorem takeOne_delivers {r : PacketHandler × Bool} (hv : s.recv.Valid)
    (ht : s.takeOne C env k = some r) : ∃ fs, Receiver.Took s.recv r.1.recv k fs ∧
      r.1.deliveredOf k = s.deliveredOf k ++ (outcome (fs.map content)).toList := by
  simp only [takeOne] at ht
  split at ht
  · exact absurd ht (by simp)
  rename_i packet hget
  split at ht
  · exact absurd ht (by simp)
  rename_i recv newNext reassembled hre
  obtain ⟨fs, htook, rfl⟩ := Receiver.tryReassemble_spec (hv.inOrder k).nextID_lt hget hre
  let s₁ := { s with recv := recv.modify k fun q => { q with nextID := newNext } }
  have hdelivered : (s₁.handOn ((Receiver.assemble fs).bind tryDecompress)).deliveredOf k =
      s.deliveredOf k ++ (outcome (fs.map content)).toList := by
    rw [deliveredOf_take (Took.types htook hv) (handOn_frame (s := s₁) _).2.2, if_pos rfl]
    rfl
  refine ⟨fs, ?_⟩
  split at ht
  · rename_i hnone
    rw [hnone] at hdelivered
    rw [← Option.some.inj ht]
    exact ⟨htook, hdelivered⟩
  · rename_i p hsome
    rw [hsome] at hdelivered
    rw [← Option.some.inj ht]
    refine ⟨by rw [deliver_recv]; exact htook, ?_⟩
    rw [← hdelivered]
    simp only [deliver]
    split_ifs
    · exact (runCalls_quiet _).deliveredOf k
    · rfl

/-- **What the drain does**, whatever each frame taken off keeps. -/
theorem drain_delivers {P : Receiver → List Content → Prop}
    (hP : ∀ r r' fs d, r.Valid → Receiver.Took r r' k fs → P r d →
      P r' (d ++ (outcome (fs.map content)).toList))
    (fuel : Nat) (hv : s.recv.Valid) (hs : P s.recv (s.deliveredOf k)) :
    (s.drain C env k fuel).1.recv.Valid ∧
      P (s.drain C env k fuel).1.recv ((s.drain C env k fuel).1.deliveredOf k) := by
  induction fuel generalizing s with
  | zero => exact ⟨hv, hs⟩
  | succ fuel ih =>
    rw [drain]
    split
    · exact ⟨hv, hs⟩
    all_goals
      rename_i s₁ ht
      obtain ⟨fs, htook, hdelivered⟩ := takeOne_delivers hv ht
      have hs₁ := hP _ _ fs _ hv htook hs
      rw [← hdelivered] at hs₁
    · exact ⟨hv.took htook, hs₁⟩
    · exact ih (hv.took htook) hs₁

/-- An owner that never throws lets the drain go on. -/
theorem drain_not_throws (howner : ∀ p, (env.owner p).throws = false) (fuel : Nat) :
    (s.drain C env k fuel).2 = false := by
  induction fuel generalizing s with
  | zero => rfl
  | succ fuel ih =>
    rw [drain]
    split
    · rfl
    · rename_i s₁ ht
      simp only [takeOne] at ht
      split at ht
      · exact absurd ht (by simp)
      split at ht
      · exact absurd ht (by simp)
      split at ht
      · exact absurd ht (by simp)
      · simp only [deliver] at ht
        split_ifs at ht
        · rw [howner] at ht
          exact absurd ht (by simp)
        · exact absurd ht (by simp)
    · exact ih

/-! ### Where a queue has got to -/

/-- The queue was fed the packets with the numbers in `done`, counted from `start`
on, and has taken the frames `out` out. -/
structure Progress (frames : List (List Content)) (start : Nat) (k : QueueKind)
    (before : List Content) (done : List Nat) (r : Receiver) (d : List Content)
    (out : List (List Content)) : Prop where
  nextID : (r.queues k).nextID = (start + out.flatten.length) % 65536
  tracks : ((r.queues k).buffer out.flatten.length out).Tracks frames.flatten
  isFrame : ∀ f ∈ out, IsFrame isMarked f
  done : ∀ i, i ∈ done ↔
    i < out.flatten.length ∨ ((r.queues k).buffer out.flatten.length out).held i ≠ none
  delivered : d = before ++ out.filterMap outcome

variable {frames out : List (List Content)} {start : Nat} {before d : List Content}
variable {done : List Nat} {r r' : Receiver}

theorem Progress.took {fs : List Packet} (h : Progress frames start k before done r d out)
    (hv : r.Valid) (ht : Receiver.Took r r' k fs) :
    Progress frames start k before done r' (d ++ (outcome (fs.map content)).toList)
      (out ++ [fs.map content]) := by
  have hoffers : ((r.queues k).buffer out.flatten.length out).Offers (fs.map content) :=
    ht.offers (hv.inOrder k)
  have hlen : (out ++ [fs.map content]).flatten.length = out.flatten.length + fs.length := by
    simp
  have hbuffer : (r'.queues k).buffer (out.flatten.length + fs.length) (out ++ [fs.map content]) =
      ((r.queues k).buffer out.flatten.length out).pop (fs.map content) :=
    Receiver.buffer_took ht (hv.inOrder k)
  refine ⟨?_, ?_, ?_, ?_, ?_⟩
  · rw [ht.nextID, h.nextID, hlen]
    omega
  · rw [hlen, hbuffer]
    exact h.tracks.pop hoffers
  · intro f hf
    rcases List.mem_append.mp hf with hf | hf
    · exact h.isFrame f hf
    · rw [List.mem_singleton.mp hf]
      exact Receiver.isFrame_map_content ht.frame
  · intro i
    rw [hlen, hbuffer, h.done i]
    have hnext : ((r.queues k).buffer out.flatten.length out).next = out.flatten.length := rfl
    simp only [Buffer.pop, List.length_map, hnext]
    constructor
    · rintro (hlt | hheld)
      · exact Or.inl (by omega)
      · by_cases hlt : i < out.flatten.length + fs.length
        · exact Or.inl hlt
        · exact Or.inr (by rwa [if_neg hlt])
    · rintro (hlt | hheld)
      · rcases Nat.lt_or_ge i out.flatten.length with hlt' | hge
        · exact Or.inl hlt'
        · right
          have := hoffers (i - out.flatten.length) (by rw [List.length_map]; omega)
          rw [hnext, Nat.add_sub_cancel' hge] at this
          rw [this]
          simp
      · split_ifs at hheld with hlt
        · exact absurd rfl hheld
        · exact Or.inr hheld
  · rw [h.delivered, List.filterMap_append]
    cases hout : outcome (fs.map content) <;> simp [hout]

theorem Progress.hold {i : Nat} {p : Packet} (h : Progress frames start k before done r d out)
    (hv : r.Valid) (hnot : i ∉ done) (hwindow : i < out.flatten.length + receivePacketWindowSize)
    (hid : p.id = (start + i) % 65536) (hstream : frames.flatten[i]? = some (content p)) :
    Progress frames start k before (i :: done) (r.hold k p) d out := by
  have hge : out.flatten.length ≤ i := by
    by_contra hlt
    exact hnot ((h.done i).mpr (Or.inl (by omega)))
  obtain ⟨-, hnext, -⟩ := Receiver.hold_spec r k p
  have hpid : p.id = ((r.queues k).nextID + (i - out.flatten.length)) % 65536 := by
    rw [hid, h.nextID]
    omega
  have hbuffer : ((r.hold k p).queues k).buffer out.flatten.length out =
      ((r.queues k).buffer out.flatten.length out).insert
        (out.flatten.length + (i - out.flatten.length)) (content p) :=
    Receiver.buffer_hold (hv.inOrder k) (by omega) hpid
  rw [Nat.add_sub_cancel' hge] at hbuffer
  refine ⟨?_, ?_, h.isFrame, ?_, h.delivered⟩
  · rw [hnext, h.nextID]
  · rw [hbuffer]
    exact h.tracks.insert hge hstream
  · intro j
    rw [hbuffer, List.mem_cons, h.done j]
    simp only [Buffer.insert, Function.update_apply]
    by_cases hj : j = i
    · rw [if_pos hj]
      simp [hj]
    · rw [if_neg hj]
      simp [hj]

/-! ### Feeding a queue -/

/-- A packet arrives: what `#handleRawPacket` does once it is decrypted. -/
def feed (C : Cipher) (arrive : Nat → Env × Packet) (s : PacketHandler) (i : Nat) :
    PacketHandler :=
  (s.handlePacket C (arrive i).1 (arrive i).2 (arrive i).2.dummyUsed).1

/-- The packet arrives less than a window ahead of the first one that has not been
taken out, and there is room for it.  `before` were handed on already. -/
def StaysWithin (frames : List (List Content)) (k : QueueKind) (before : List Content)
    (arrive : Nat → Env × Packet) (s : PacketHandler) (i : Nat) : Prop :=
  i < (frames.take ((s.deliveredOf k).length - before.length)).flatten.length +
      receivePacketWindowSize ∧
    s.recv.hasRoom k (arrive i).2 = true

/-- The state between two arrivals: all that can be taken out has been. -/
structure Fed (frames : List (List Content)) (start : Nat) (k : QueueKind)
    (before : List Content) (done : List Nat) (s : PacketHandler) : Prop where
  valid : s.recv.Valid
  progress : ∃ out, Progress frames start k before done s.recv (s.deliveredOf k) out
  stuck : ¬ (s.recv.queues k).Ready

/-- What was handed on counts the frames taken out, if none comes to nothing. -/
theorem Progress.taken (h : Progress frames start k before done r d out)
    (hframes : ∀ f ∈ frames, IsFrame isMarked f) (hout : ∀ f ∈ frames, (outcome f).isSome = true) :
    frames.take (d.length - before.length) = out := by
  have hprefix : out <+: frames := h.tracks.out_prefix h.isFrame hframes
  have hlen : (out.filterMap outcome).length = out.length := by
    rw [List.filterMap_length_eq_length]
    intro f hf
    exact hout f (List.IsPrefix.subset hprefix hf)
  rw [h.delivered, List.length_append, hlen, Nat.add_sub_cancel_left]
  exact (List.prefix_iff_eq_take.mp hprefix).symm

/-- A packet that arrives is the one with that number. -/
structure Arrives (frames : List (List Content)) (start : Nat) (k : QueueKind)
    (arrive : Nat → Env × Packet) (i : Nat) : Prop where
  type : packetType (arrive i).2 = k.packetType
  id : (arrive i).2.id = (start + i) % 65536
  content : frames.flatten[i]? = some (content (arrive i).2)
  times : (arrive i).2.firstArrived ≤ (arrive i).2.receivedAt
  owner : ∀ p, ((arrive i).1.owner p).throws = false

theorem Fed.feed {arrive : Nat → Env × Packet} {i : Nat}
    (h : Fed frames start k before done s) (hframes : ∀ f ∈ frames, IsFrame isMarked f)
    (hout : ∀ f ∈ frames, (outcome f).isSome = true) (hi : Arrives frames start k arrive i)
    (hnot : i ∉ done) (hwithin : StaysWithin frames k before arrive s i) :
    Fed frames start k before (i :: done) (feed C arrive s i) := by
  obtain ⟨hv, ⟨out, hprogress⟩, -⟩ := h
  obtain ⟨hwindow, hroom⟩ := hwithin
  rw [hprogress.taken hframes hout] at hwindow
  have hlt : (arrive i).2.id < 65536 := by
    rw [hi.id]
    omega
  have hge : out.flatten.length ≤ i := by
    by_contra hlt
    exact hnot ((hprogress.done i).mpr (Or.inl (by omega)))
  have hin : (s.recv.queues k).win.isInWindow (arrive i).2.id = true := by
    rw [(hv.inOrder k).isInWindow_iff hlt]
    refine ⟨i - out.flatten.length, by omega, ?_⟩
    rw [hi.id, hprogress.nextID]
    omega
  have hvalid := hv.hold hlt hi.type hi.times hin hroom
  have hsent := (sendPacketRaw_quiet (s := s) C (arrive i).1 k.ackType (uint16BE (arrive i).2.id)
    .none (arrive i).2.dummyUsed).deliveredOf k
  have hheld : ∃ out, Progress frames start k before (i :: done) (s.recv.hold k (arrive i).2)
      (s.deliveredOf k) out := ⟨out, hprogress.hold hv hnot hwindow hi.id hi.content⟩
  rw [← hsent] at hheld
  rw [PacketHandler.feed, handlePacket_command hi.type, if_pos hin, if_pos hroom]
  obtain ⟨hvalid', hprogress'⟩ := drain_delivers (C := C) (k := k)
    (P := fun r d => ∃ out, Progress frames start k before (i :: done) r d out)
    (s := { s.sendAck C (arrive i).1 (arrive i).2.id k.ackType (arrive i).2.dummyUsed with
      recv := s.recv.hold k (arrive i).2 })
    (fun r r' fs d hv ht ⟨out, hp⟩ => ⟨_, hp.took hv ht⟩) _ hvalid hheld
  refine ⟨hvalid', hprogress', ?_⟩
  apply drain_stuck
  · exact hvalid.inOrder
  · exact Nat.lt_succ_self _
  · exact drain_not_throws hi.owner _

/-- Packets in any order, each once. -/
theorem Fed.run {arrive : Nat → Env × Packet} {order : List Nat}
    (h : Fed frames start k before done s) (hframes : ∀ f ∈ frames, IsFrame isMarked f)
    (hout : ∀ f ∈ frames, (outcome f).isSome = true)
    (horder : ∀ i ∈ order, Arrives frames start k arrive i ∧ i ∉ done) (hnodup : order.Nodup)
    (hwithin : Along (PacketHandler.feed C arrive) (StaysWithin frames k before arrive) s order) :
    Fed frames start k before (order.reverse ++ done) (run (PacketHandler.feed C arrive) s order) := by
  induction order generalizing s done with
  | nil => exact h
  | cons i order ih =>
    obtain ⟨hi, hnot⟩ := horder i List.mem_cons_self
    rw [List.nodup_cons] at hnodup
    have hfed := ih (h.feed hframes hout hi hnot hwithin.1) ?_ hnodup.2 hwithin.2
    · simpa using hfed
    · intro j hj
      refine ⟨(horder j (List.mem_cons_of_mem _ hj)).1, ?_⟩
      intro hmem
      rcases List.mem_cons.mp hmem with rfl | hmem
      · exact hnodup.1 hj
      · exact (horder j (List.mem_cons_of_mem _ hj)).2 hmem

/-- A queue with no command ready offers no frame. -/
theorem not_offers_of_not_ready {q : ReceiveQueue} {N : Nat} (h : ¬ q.Ready)
    (f : List Content) (hf : IsFrame isMarked f) : ¬ (q.buffer N out).Offers f := by
  intro hoffers
  apply h
  have hheld : ∀ i (hi : i < f.length), (q.at? i).map content = some f[i] := by
    intro i hi
    have := hoffers i hi
    simp only [ReceiveQueue.buffer] at this
    split_ifs at this
    rwa [Nat.add_sub_cancel_left] at this
  obtain ⟨fs, hlen, hfs⟩ := ReceiveQueue.exists_list (q := q) (n := f.length) fun i hi hnone => by
    have := hheld i hi
    rw [hnone] at this
    exact absurd this (by simp)
  refine ⟨fs, ?_, hfs⟩
  have hmap : fs.map content = f := by
    apply List.ext_getElem
    · rw [List.length_map, hlen]
    · intro i hi hi'
      rw [List.length_map] at hi
      have := hheld i hi'
      rw [hfs i hi] at this
      rw [List.getElem_map]
      exact Option.some.inj this
  rw [← hmap] at hf
  have hframe : IsFrame (isMarked ∘ content) fs := isFrame_map.mp hf
  exact hframe

/-- When all have arrived, all commands have been handed on. -/
theorem Fed.complete (h : Fed frames start k before done s)
    (hframes : ∀ f ∈ frames, IsFrame isMarked f) (hall : ∀ i < frames.flatten.length, i ∈ done) :
    s.deliveredOf k = before ++ frames.filterMap outcome := by
  obtain ⟨-, ⟨out, hprogress⟩, hstuck⟩ := h
  have hcomplete : out = frames := by
    refine hprogress.tracks.complete hprogress.isFrame hframes ?_ ?_
    · intro i hge hlt
      rcases (hprogress.done i).mp (hall i hlt) with hlt' | hheld
      · exact absurd hge (Nat.not_le.mpr hlt')
      · exact hheld
    · intro f hf
      exact not_offers_of_not_ready hstuck f hf
  rw [hprogress.delivered, hcomplete]

/-! ### The round trip -/

/-- A command that `sendPacket` splits and a queue can take: bytes, no `Fragmented`
or `Compressed` of its own, and no more packets than the window has ids. -/
structure Sendable (k : QueueKind) (c : Command) : Prop where
  pos : 0 < c.2.2.length
  whole : c.2.1.fragmented = false
  plain : c.2.1.compressed = false
  blocks : (frameOf k c.2.1 c.2.2).length ≤ receivePacketWindowSize

/-- The frames of commands. -/
def framesOf (k : QueueKind) (cs : List Command) : List (List Content) :=
  cs.map fun c => frameOf k c.2.1 c.2.2

theorem outcome_framesOf {cs : List Command} (h : ∀ c ∈ cs, Sendable k c) :
    (framesOf k cs).filterMap outcome =
      cs.map fun c => (applyProtocolFlags k.packetType c.2.1, c.2.2) := by
  induction cs with
  | nil => rfl
  | cons c cs ih =>
    obtain ⟨hpos, hwhole, hplain, hblocks⟩ := h c List.mem_cons_self
    have ih := ih fun d hd => h d (List.mem_cons_of_mem _ hd)
    rw [framesOf] at ih ⊢
    rw [List.map_cons, List.filterMap_cons, outcome_frameOf k hwhole hplain hpos hblocks, ih]
    rfl

/-- A queue that holds nothing and expects the id `start` has been fed nothing. -/
theorem fed_nil (hv : s.recv.Valid) (hempty : ∀ id, (s.recv.queues k).queue.get? id = none)
    (frames : List (List Content)) :
    Fed frames (s.recv.queues k).nextID k (s.deliveredOf k) [] s := by
  have hheld : ∀ i, ((s.recv.queues k).buffer 0 []).held i = none := by
    intro i
    simp [ReceiveQueue.buffer, ReceiveQueue.at?, hempty]
  have hnext := (hv.inOrder k).nextID_lt
  refine ⟨hv, ⟨[], ?_, ⟨?_, ?_, ?_⟩, ?_, ?_, ?_⟩, ?_⟩
  · simp only [List.flatten_nil, List.length_nil]
    omega
  · rfl
  · exact Nat.zero_le _
  · intro i a ha
    rw [List.flatten_nil, List.length_nil, hheld] at ha
    exact absurd ha (by simp)
  · simp
  · intro i
    simp [hheld]
  · simp
  · rintro ⟨fs, hframe, hoffered⟩
    have := hoffered 0 hframe.length_pos
    rw [ReceiveQueue.at?, hempty] at this
    exact absurd this (by simp)

/-- **Commands are split and reassembled.**  The packets that `sendPacket` makes
of commands, numbered from any id, arrive once each at a queue that expects that
id, in any order in which each lies within the window and has room.  What the
queue hands on is those commands, in their order. -/
theorem split_reassemble (C : Cipher) (k : QueueKind) (sender receiver : PacketHandler)
    (cs : List Command) (hcs : ∀ c ∈ cs, Sendable k c)
    (hstart : (receiver.recv.queues k).nextID = sender.send.packetCounter k.packetType)
    (hv : receiver.recv.Valid) (hempty : ∀ id, (receiver.recv.queues k).queue.get? id = none)
    (order : List Nat) (arrive : Nat → Env × Packet)
    (howner : ∀ i p, ((arrive i).1.owner p).throws = false) :
    let ps := ((sendAll C k sender cs).packetsOf k.packetType).drop (sender.packetsOf k.packetType).length
    order.Perm (List.range ps.length) →
    (∀ i (h : i < ps.length), ∃ generation now dummy, (arrive i).2 =
      received generation ps[i].id ps[i].typeFlagged ps[i].data now dummy) →
    Along (feed C arrive) (StaysWithin (framesOf k cs) k (receiver.deliveredOf k) arrive)
      receiver order →
    (run (feed C arrive) receiver order).deliveredOf k =
      receiver.deliveredOf k ++
        cs.map fun c => (applyProtocolFlags k.packetType c.2.1, c.2.2) := by
  intro ps hperm harrive hwithin
  have hid : sender.send.packetCounter k.packetType < 65536 := by
    rw [← hstart]
    exact (hv.inOrder k).nextID_lt
  obtain ⟨qs, hpackets, hcontent, hids⟩ :=
    (sendAll_sent (k := k) C (fun c hc => (hcs c hc).pos) hid).packets
  obtain rfl : ps = qs := by
    show ((sendAll C k sender cs).packetsOf k.packetType).drop (sender.packetsOf k.packetType).length = qs
    rw [hpackets, List.drop_left]
  have hlen : (framesOf k cs).flatten.length = ps.length := by
    show (cs.map fun c => frameOf k c.2.1 c.2.2).flatten.length = ps.length
    rw [← hcontent, List.length_map]
  have hframes : ∀ f ∈ framesOf k cs, IsFrame isMarked f := by
    intro f hf
    obtain ⟨c, hc, rfl⟩ := List.mem_map.mp hf
    exact isFrame_frameOf k (hcs c hc).whole (hcs c hc).pos
  have hout : ∀ f ∈ framesOf k cs, (outcome f).isSome = true := by
    intro f hf
    obtain ⟨c, hc, rfl⟩ := List.mem_map.mp hf
    rw [outcome_frameOf k (hcs c hc).whole (hcs c hc).plain (hcs c hc).pos (hcs c hc).blocks]
    rfl
  have hnumbers : ∀ i ∈ order,
      Arrives (framesOf k cs) (receiver.recv.queues k).nextID k arrive i ∧ i ∉ ([] : List Nat) := by
    intro i hi
    have hlt : i < ps.length := List.mem_range.mp (hperm.subset hi)
    obtain ⟨generation, now, dummy, heq⟩ := harrive i hlt
    obtain ⟨htype, hnumber⟩ := hids i hlt
    refine ⟨⟨?_, ?_, ?_, ?_, howner i⟩, by simp⟩
    · rw [heq]
      exact htype
    · rw [heq, hstart]
      exact hnumber
    · show (cs.map fun c => frameOf k c.2.1 c.2.2).flatten[i]? = _
      rw [← hcontent, List.getElem?_map, List.getElem?_eq_getElem hlt, heq]
      rfl
    · rw [heq]
      exact le_rfl
  have hfed := (fed_nil hv hempty (framesOf k cs)).run hframes hout hnumbers
    (hperm.nodup_iff.mpr List.nodup_range) hwithin
  rw [hfed.complete hframes, outcome_framesOf hcs]
  intro i hi
  rw [List.append_nil, List.mem_reverse]
  apply hperm.symm.subset
  rw [List.mem_range, ← hlen]
  exact hi

/-- A handler whose next `CommandLow` id, either way, is the last before the wrap. -/
def atWrap : PacketHandler :=
  { opened 0 with
    recv := { Receiver.new with queues := fun _ => ⟨⟨65535, 0, by decide⟩, .empty, 65535⟩ }
    send := { Sender.new with packetCounter := fun _ => 65535 } }

/-- A command of two packets and one of one. -/
def twoCommands : List Command :=
  [({ now := 0 }, {}, List.replicate 488 1), ({ now := 0 }, { newProtocol := true }, [2])]

/-- These packets as they are received. -/
def arriveFrom (ps : List Packet) (i : Nat) : Env × Packet :=
  ({ now := 0 },
    match ps[i]? with
    | some p => received 0 p.id p.typeFlagged p.data 0 false
    | none => received 0 0 ⟨.commandLow, {}⟩ [] 0 false)

theorem arriveFrom_eq {ps : List Packet} {i : Nat} (h : i < ps.length) :
    (arriveFrom ps i).2 = received 0 ps[i].id ps[i].typeFlagged ps[i].data 0 false := by
  rw [arriveFrom, List.getElem?_eq_getElem h]

/-- Over the wrap, the second command first and then the first one's packets. -/
theorem split_reassemble_over_wrap :
    (run (feed clearCipher (arriveFrom ((sendAll clearCipher .commandLow atWrap
      twoCommands).packetsOf .commandLow))) atWrap [2, 0, 1]).deliveredOf .commandLow =
      [({ newProtocol := true }, List.replicate 488 1), ({ newProtocol := true }, [2])] := by
  have hv : atWrap.recv.Valid := by
    refine ⟨fun k => ⟨rfl, ?_⟩, ?_, ?_, by decide, by decide⟩
    all_goals simp [atWrap]
  have hpos : ∀ c ∈ twoCommands, 0 < c.2.2.length := by decide +kernel
  have hflags : ∀ c ∈ twoCommands, c.2.1.fragmented = false ∧ c.2.1.compressed = false := by
    decide
  have hblocks : ∀ c ∈ twoCommands,
      (frameOf .commandLow c.2.1 c.2.2).length ≤ receivePacketWindowSize := by decide +kernel
  have hempty : ∀ id, (atWrap.recv.queues .commandLow).queue.get? id = none := by
    intro id
    rfl
  have hstart : (atWrap.recv.queues .commandLow).nextID =
      atWrap.send.packetCounter QueueKind.commandLow.packetType := by rw [atWrap]
  have hround := split_reassemble clearCipher .commandLow atWrap atWrap twoCommands
    (fun c hc => ⟨hpos c hc, (hflags c hc).1, (hflags c hc).2, hblocks c hc⟩) hstart hv hempty
    [2, 0, 1] (arriveFrom ((sendAll clearCipher .commandLow atWrap twoCommands).packetsOf
      .commandLow)) (fun _ _ => rfl)
  have hnone : atWrap.packetsOf QueueKind.commandLow.packetType = [] := rfl
  have hbefore : atWrap.deliveredOf .commandLow = [] := rfl
  rw [hnone, hbefore] at hround
  refine (hround (by decide +kernel) (fun i hi => ⟨0, 0, false, arriveFrom_eq hi⟩) ?_).trans
    (by decide +kernel)
  refine ⟨?_, ?_, ?_, trivial⟩
  all_goals
    rw [StaysWithin]
    decide +kernel

end PacketHandler

end Teamspeak.Transport
