import Teamspeak.Transport.Handler.Representation

/-!
# A server's stream of commands

A server numbers the packets of its commands by absolute ids and sends each with
the low 16 bits of its id, under the key of its generation.  A receive queue is
then a reorder buffer over the absolute ids, at the position of its window.

* `ServerStream`, `Genuine`: the commands a server sends, and the datagrams that
  open to nothing else.
* `Act.buffer_cases`: an act puts a packet into the buffer, takes a command out,
  or leaves it alone.
* `run_inStep`: in every run the queues follow the server.
-/

namespace Teamspeak.Transport

open Framing

/-! ### What the server sends -/

/-- What a command's packet says: its flags and its data. -/
abbrev Content := PacketFlags × Bytes

def content (p : Packet) : Content := (packetFlags p, p.data)

def isMarked (c : Content) : Bool := c.1.fragmented

/-- The commands a server sends on the two queues, each as the packets it takes. -/
structure ServerStream where
  commands : QueueKind → List (List Content)
  isFrame : ∀ k, ∀ f ∈ commands k, IsFrame isMarked f

/-- The packets of a kind, by absolute id. -/
def ServerStream.packets (st : ServerStream) (k : QueueKind) : List Content :=
  (st.commands k).flatten

/-- The server's streams are short of the cap on the generation, at 2 ^ 48 packets. -/
def ServerStream.Short (st : ServerStream) : Prop :=
  ∀ k, (st.packets k).length < 281474976710656

/-- Whatever key opens the datagram, it opens to the packet the server sent under
that generation and the id in its header. -/
def Genuine (C : Cipher) (st : ServerStream) (raw : Bytes) : Prop :=
  ∀ k iv generation dummy plaintext,
    (parseS2CHeader (PacketHandler.headerOf raw)).2.type = k.packetType →
    C.eaxDecrypt iv ⟨true, (parseS2CHeader (PacketHandler.headerOf raw)).1, generation,
      k.packetType, dummy⟩ (PacketHandler.headerOf raw) (PacketHandler.ciphertextOf raw)
        (PacketHandler.tagOf raw) = some plaintext →
    (st.packets k)[generation * 65536 + (parseS2CHeader (PacketHandler.headerOf raw)).1]? =
      some ((parseS2CHeader (PacketHandler.headerOf raw)).2.flags, plaintext)

/-- Every datagram among the events is genuine. -/
def GenuineEvents (C : Cipher) (st : ServerStream) (es : List (Env × Event)) : Prop :=
  ∀ e ∈ es, ∀ raw, e.2 = .datagram raw → Genuine C st raw

/-- What comes of a command: of several packets nothing if they pass the
reassembly limit, and nothing if it does not decompress. -/
def outcome (f : List Content) : Option Content :=
  let joined :=
    match f with
    | [] => none
    | [c] => some c
    | c :: d :: fs =>
      let data := (c :: d :: fs).flatMap Prod.snd
      if data.length > maxReassembledSize then none
      else some ({ c.1 with fragmented := false }, data)
  joined.bind fun c =>
    if c.1.compressed = false then some c
    else
      match decompress c.2 with
      | .error _ => none
      | .ok data => some ({ c.1 with compressed := false }, data)

theorem outcome_map_content (fs : List Packet) :
    ((Receiver.assemble fs).bind tryDecompress).map content = outcome (fs.map content) := by
  have hdecompress : ∀ p : Packet, (tryDecompress p).map content =
      if (content p).1.compressed = false then some (content p)
      else
        match decompress (content p).2 with
        | .error _ => none
        | .ok data => some ({ (content p).1 with compressed := false }, data) := by
    intro p
    rw [tryDecompress]
    change Option.map content (if (content p).1.compressed = false then _ else _) = _
    split_ifs
    · rfl
    · change Option.map content (match decompress (content p).2 with | .error _ => _ | .ok _ => _)
        = _
      cases decompress (content p).2 <;> rfl
  match fs with
  | [] => rfl
  | [p] => exact hdecompress p
  | p :: q :: fs =>
    have hdata : (p :: q :: fs).flatMap Packet.data =
        ((p :: q :: fs).map content).flatMap Prod.snd := by
      rw [List.flatMap_map]
      rfl
    simp only [Receiver.assemble, hdata, outcome, List.map_cons]
    split_ifs
    · rfl
    · exact hdecompress _

/-! ### The queue as a buffer -/

/-- The queue as a reorder buffer at place `N`. -/
def ReceiveQueue.buffer (q : ReceiveQueue) (N : Nat) (out : List (List Content)) :
    Buffer Content where
  next := N
  held A := if N ≤ A ∧ A < N + receivePacketWindowSize then (q.at? (A - N)).map content else none
  out := out

namespace Receiver

variable {r r' : Receiver} {k : QueueKind} {N : Nat} {out : List (List Content)}

/-- Holding a packet puts it in at its place. -/
theorem buffer_hold (h : (r.queues k).InOrder) {p : Packet} {i : Nat}
    (hi : i < receivePacketWindowSize) (hid : p.id = ((r.queues k).nextID + i) % 65536) :
    ((r.hold k p).queues k).buffer N out =
      ((r.queues k).buffer N out).insert (N + i) (content p) := by
  simp only [receivePacketWindowSize] at hi
  simp only [ReceiveQueue.buffer, Buffer.insert, Buffer.mk.injEq, true_and, and_true,
    receivePacketWindowSize]
  funext A
  rw [Function.update_apply]
  by_cases hA : A = N + i
  · rw [if_pos hA, if_pos (by omega), hold_at? h (by omega) (by omega) hid, if_pos (by omega)]
    rfl
  · rw [if_neg hA]
    split_ifs
    · rw [hold_at? h (by omega) (by omega) hid, if_neg (by omega)]
    · rfl

/-- Taking a command out takes it off the front. -/
theorem buffer_took {fs : List Packet} (ht : Took r r' k fs) (h : (r.queues k).InOrder) :
    (r'.queues k).buffer (N + fs.length) (out ++ [fs.map content]) =
      ((r.queues k).buffer N out).pop (fs.map content) := by
  have hlen := length_le_window h ht.offered
  simp only [receivePacketWindowSize] at hlen
  simp only [ReceiveQueue.buffer, Buffer.pop, List.length_map, Buffer.mk.injEq, true_and, and_true,
    receivePacketWindowSize]
  funext A
  by_cases hlt : A < N + fs.length
  · rw [if_neg (by omega), if_pos hlt]
  · rw [if_neg hlt]
    by_cases hin : A < N + 1024
    · rw [if_pos (by omega), if_pos (by omega), ht.at? (by omega) (by omega), if_pos (by omega)]
      congr 2
      omega
    · rw [if_neg (by omega : ¬ (N ≤ A ∧ A < N + 1024))]
      split_ifs
      · rw [ht.at? (by omega) (by omega), if_pos (by omega)]
        cases hat : (r.queues k).at? (fs.length + (A - (N + fs.length))) with
        | none => rfl
        | some p =>
          have := h.at?_lt (by omega) hat
          simp only [receivePacketWindowSize] at this
          omega
      · rfl

theorem Took.offers {fs : List Packet} (ht : Took r r' k fs) (h : (r.queues k).InOrder) :
    ((r.queues k).buffer N out).Offers (fs.map content) := by
  have hlen := length_le_window h ht.offered
  intro i hi
  rw [List.length_map] at hi
  simp only [ReceiveQueue.buffer, List.getElem_map]
  rw [if_pos (by omega), Nat.add_sub_cancel_left, ht.offered i hi]
  rfl

theorem isFrame_map_content {fs : List Packet} (h : IsFrame isFragmented fs) :
    IsFrame isMarked (fs.map content) := isFrame_map.mpr h

theorem iterate_advance_position {w : GenerationWindow 65536 receivePacketWindowSize} (n : Nat)
    (h : (w.position + n) / 65536 ≤ maxGeneration) :
    ((fun w => w.advance 1)^[n] w).position = w.position + n := by
  simp only [maxGeneration] at h
  induction n with
  | zero => rw [Nat.add_zero, Function.iterate_zero, id]
  | succ n ih =>
    have ih := ih (by omega)
    rw [Function.iterate_succ_apply']
    have := GenerationWindow.advance_position ((fun w => w.advance 1)^[n] w) 1
      (by simp only [ih, maxGeneration]; omega)
    rw [Nat.cast_one] at this
    rw [this, ih, Nat.add_assoc]

end Receiver

/-! ### The place of a packet -/

theorem mappedToIndex_place {W : Nat} {w : GenerationWindow 65536 W} {p : Packet}
    (hid : p.id < 65536) (hgen : p.generationID = w.getGeneration p.id) :
    w.mappedToIndex p.id = (place p : Int) - w.position := by
  have hmod : place p % 65536 = p.id := by rw [place]; omega
  have hdiv : place p / 65536 = p.generationID := by rw [place]; omega
  have h := GenerationWindow.near_of_getGeneration (w := w) (A := place p)
    (by rw [hmod, hdiv, hgen])
  rwa [hmod] at h

/-- A packet in the window is as far past the position as it is past the next id. -/
theorem place_of_isInWindow {q : ReceiveQueue} (h : q.InOrder) {p : Packet} (hid : p.id < 65536)
    (hgen : p.generationID = q.win.getGeneration p.id) (hin : q.win.isInWindow p.id = true) :
    ∃ i < receivePacketWindowSize, place p = q.win.position + i ∧
      p.id = (q.nextID + i) % 65536 := by
  have hindex := mappedToIndex_place hid hgen
  obtain ⟨hold, hfuture⟩ := (GenerationWindow.isInWindow_iff q.win hid).mp hin
  simp only [GenerationWindow.isOldPacket, GenerationWindow.isFuturePacket, hindex,
    decide_eq_false_iff_not] at hold hfuture
  refine ⟨place p - q.win.position, by omega, by omega, ?_⟩
  have hbase := GenerationWindow.position_mod q.win
  have hmod : place p % 65536 = p.id := by rw [place]; omega
  rw [h.nextID_eq, ← hbase]
  omega

theorem place_lt_of_isOldPacket {q : ReceiveQueue} {p : Packet} (hid : p.id < 65536)
    (hgen : p.generationID = q.win.getGeneration p.id) (hold : q.win.isOldPacket p.id = true) :
    place p < q.win.position := by
  rw [GenerationWindow.isOldPacket, mappedToIndex_place hid hgen, decide_eq_true_eq] at hold
  omega

/-- The command of this kind that an output hands on. -/
def Output.deliveredAs (k : QueueKind) : Output → Option Content
  | .delivered p _ => if packetType p = k.packetType then some (content p) else none
  | _ => none

namespace PacketHandler

variable {C : Cipher} {env : Env} {op : Option Packet} {s s' : PacketHandler}
variable {st : ServerStream} {k : QueueKind}

/-! ### What an act does to the buffer -/

/-- The commands of a kind that were handed on, in order. -/
def deliveredOf (s : PacketHandler) (k : QueueKind) : List Content :=
  s.trace.filterMap (Output.deliveredAs k)

theorem Quiet.deliveredOf (h : s.Quiet s') (k : QueueKind) : s'.deliveredOf k = s.deliveredOf k := by
  obtain ⟨outs, htrace, houts⟩ := h
  have hnone : outs.filterMap (Output.deliveredAs k) = [] := by
    rw [List.filterMap_eq_nil_iff]
    intro o ho
    cases o with
    | delivered p complete =>
      have hquiet := houts _ ho
      rw [Output.deliveredAs, if_neg]
      intro htype
      rw [Output.isCommand, PacketType.queueKind?_eq_some.mpr htype] at hquiet
      exact absurd hquiet (by simp)
    | _ => rfl
  rw [PacketHandler.deliveredOf, htrace, List.filterMap_append, hnone, List.append_nil]
  rfl

/-- A queue as a buffer at the position of its window. -/
def bufferOf (s : PacketHandler) (k : QueueKind) (out : List (List Content)) : Buffer Content :=
  (s.recv.queues k).buffer (s.recv.queues k).win.position out

/-- **What an act does to a queue as a buffer**, and to what has been handed on. -/
inductive BufferChange (op : Option Packet) (s s' : PacketHandler) (k : QueueKind) : Prop
  | same (hbuffer : ∀ out, s'.bufferOf k out = s.bufferOf k out)
      (hdelivered : s'.deliveredOf k = s.deliveredOf k)
  | insert (p : Packet) (hop : op = some p) (htype : packetType p = k.packetType)
      (hplace : (s.recv.queues k).win.position ≤ place p)
      (hbuffer : ∀ out, s'.bufferOf k out = (s.bufferOf k out).insert (place p) (content p))
      (hdelivered : s'.deliveredOf k = s.deliveredOf k)
  | pop (f : List Content) (hframe : IsFrame isMarked f) (hoffers : ∀ out, (s.bufferOf k out).Offers f)
      (hbuffer : ((s.recv.queues k).win.position + f.length) / 65536 ≤ maxGeneration →
        ∀ out, s'.bufferOf k (out ++ [f]) = (s.bufferOf k out).pop f)
      (hdelivered : s'.deliveredOf k = s.deliveredOf k ++ (outcome f).toList)

theorem packetType_of_assemble {fs : List Packet} {p : Packet}
    (h : (Receiver.assemble fs).bind tryDecompress = some p)
    (hfs : ∀ f ∈ fs, packetType f = k.packetType) : packetType p = k.packetType := by
  obtain ⟨q, hq, hp⟩ := Option.bind_eq_some_iff.mp h
  have hqt : packetType q = k.packetType := by
    match fs with
    | [] => exact absurd hq (by simp [Receiver.assemble])
    | [f] =>
      obtain rfl : f = q := by simpa [Receiver.assemble] using hq
      exact hfs f (by simp)
    | f :: g :: fs =>
      simp only [Receiver.assemble] at hq
      split_ifs at hq
      rw [← Option.some.inj hq]
      exact hfs f (by simp)
  rw [tryDecompress] at hp
  split_ifs at hp
  · rw [← Option.some.inj hp]; exact hqt
  · split at hp
    · exact absurd hp (by simp)
    · rw [← Option.some.inj hp]; exact hqt

/-- Handing on what a frame comes to adds its outcome to what was handed on. -/
theorem deliveredOf_take {fs : List Packet} {complete : Bool}
    (hfs : ∀ f ∈ fs, packetType f = k.packetType)
    (htrace : s'.trace = s.trace ++ (((Receiver.assemble fs).bind tryDecompress).toList.map
      fun p => .delivered p complete)) (k' : QueueKind) :
    s'.deliveredOf k' =
      s.deliveredOf k' ++ if k' = k then (outcome (fs.map content)).toList else [] := by
  rw [deliveredOf, htrace, List.filterMap_append, deliveredOf, ← outcome_map_content]
  congr 1
  cases h : (Receiver.assemble fs).bind tryDecompress with
  | none => simp
  | some p =>
    have htype := packetType_of_assemble h hfs
    have hkind : k.packetType = k'.packetType ↔ k' = k := by cases k <;> cases k' <;> decide
    simp only [Option.toList_some, List.map_cons, List.map_nil, List.filterMap_cons,
      List.filterMap_nil, Output.deliveredAs, htype, hkind, Option.map_some]
    split_ifs <;> rfl

theorem Took.types {r r' : Receiver} {fs : List Packet} (ht : Receiver.Took r r' k fs)
    (hv : r.Valid) : ∀ f ∈ fs, packetType f = k.packetType := by
  intro f hf
  obtain ⟨i, hi, rfl⟩ := List.mem_iff_getElem.mp hf
  exact hv.typed k _ _ (ht.offered i hi)

theorem Act.buffer_cases (h : Act C env op s s') (hv : s.recv.Valid) (k : QueueKind) :
    BufferChange op s s' k := by
  rcases h.recv_cases hv.inOrder with
    ⟨hqueues, -, -, hquiet⟩ | ⟨k', p, hop, hfresh, hin, -, hrecv, -, hquiet⟩ |
      ⟨k', fs, htook, -, htrace⟩
  · exact .same (fun out => by rw [bufferOf, bufferOf, hqueues]) (hquiet.deliveredOf k)
  · obtain ⟨hother, -, hwin, -⟩ := Receiver.hold_spec s.recv k' p
    by_cases hk : k = k'
    · subst hk
      obtain ⟨i, hi, hplace, hid⟩ := place_of_isInWindow (hv.inOrder k) hfresh.id_lt
        hfresh.generation hin
      refine .insert p hop hfresh.type (by omega) (fun out => ?_) (hquiet.deliveredOf k)
      rw [bufferOf, hrecv, hwin, Receiver.buffer_hold (hv.inOrder k) hi hid, ← hplace]
      rfl
    · exact .same (fun out => by rw [bufferOf, bufferOf, hrecv, hother k hk]) (hquiet.deliveredOf k)
  · have hdelivered := deliveredOf_take (Took.types htook hv) htrace k
    by_cases hk : k = k'
    · subst hk
      refine .pop (fs.map content) (Receiver.isFrame_map_content htook.frame)
        (fun out => htook.offers (hv.inOrder k)) (fun hcap out => ?_) (by rw [hdelivered, if_pos rfl])
      rw [List.length_map] at hcap
      rw [bufferOf, htook.win, Receiver.iterate_advance_position _ hcap]
      exact Receiver.buffer_took htook (hv.inOrder k)
    · refine .same (fun out => by rw [bufferOf, bufferOf, htook.other k hk]) ?_
      rw [hdelivered, if_neg hk, List.append_nil]

/-! ### Every act keeps in step with the server -/

/-- A queue is where the server's commands `out` have been taken out, holds
packets of the server's only, and what came of those commands was handed on. -/
structure Follows (st : ServerStream) (s : PacketHandler) (k : QueueKind)
    (out : List (List Content)) : Prop where
  isFrame : ∀ f ∈ out, IsFrame isMarked f
  tracks : (s.bufferOf k out).Tracks (st.packets k)
  delivered : s.deliveredOf k = out.filterMap outcome

/-- Both queues follow the server. -/
structure InStep (st : ServerStream) (s : PacketHandler) : Prop where
  valid : s.recv.Valid
  follows : ∀ k, ∃ out, Follows st s k out

/-- The packet is the server's, if it is a command. -/
def Authentic (st : ServerStream) (op : Option Packet) : Prop :=
  ∀ k p, op = some p → packetType p = k.packetType →
    (st.packets k)[place p]? = some (content p)

/-- The stream a queue follows ends before the cap. -/
theorem Follows.below_cap {out : List (List Content)} {f : List Content} (hf : Follows st s k out)
    (hshort : st.Short) (hoffers : (s.bufferOf k out).Offers f) :
    ((s.recv.queues k).win.position + f.length) / 65536 ≤ maxGeneration := by
  have hlt := hshort k
  have hle : (s.recv.queues k).win.position + f.length ≤ (st.packets k).length :=
    (hf.tracks.pop hoffers).next_le
  simp only [maxGeneration]
  omega

theorem Act.inStep (h : Act C env op s s') (hshort : st.Short) (hauth : Authentic st op)
    (hs : InStep st s) : InStep st s' := by
  refine ⟨h.recv_valid hs.valid, fun k => ?_⟩
  obtain ⟨out, hf⟩ := hs.follows k
  rcases h.buffer_cases hs.valid k with
    ⟨hbuffer, hdelivered⟩ | ⟨p, hop, htype, hplace, hbuffer, hdelivered⟩ |
      ⟨f, hframe, hoffers, hbuffer, hdelivered⟩
  · exact ⟨out, hf.isFrame, by rw [hbuffer]; exact hf.tracks, hdelivered.trans hf.delivered⟩
  · refine ⟨out, hf.isFrame, ?_, hdelivered.trans hf.delivered⟩
    rw [hbuffer]
    exact hf.tracks.insert hplace (hauth k p hop htype)
  · refine ⟨out ++ [f], fun g hg => ?_, ?_, ?_⟩
    · rcases List.mem_append.mp hg with hg | hg
      · exact hf.isFrame g hg
      · exact List.mem_singleton.mp hg ▸ hframe
    · rw [hbuffer (hf.below_cap hshort (hoffers out))]
      exact hf.tracks.pop (hoffers out)
    · rw [hdelivered, hf.delivered, List.filterMap_append]
      cases hout : outcome f <;> simp [hout]

/-! ### In every run -/

/-- A genuine datagram opens to the server's packet. -/
theorem authentic_of_genuine {e : Env × Event}
    (h : ∀ raw, e.2 = .datagram raw → Genuine C st raw) : Authentic st (eventPacket C s e) := by
  intro k p hp htype
  obtain ⟨env, ev⟩ := e
  cases ev with
  | datagram raw =>
    obtain ⟨⟨s₁, q⟩, hopen, rfl⟩ := Option.map_eq_some_iff.mp hp
    obtain ⟨hparse, -, -, -, hun, hcases⟩ := openPacket_spec hopen
    have hid : q.id = (parseS2CHeader (headerOf raw)).1 := congrArg Prod.fst hparse
    have hflagged : q.typeFlagged = (parseS2CHeader (headerOf raw)).2 := congrArg Prod.snd hparse
    have htype' : (parseS2CHeader (headerOf raw)).2.type = k.packetType := by
      rw [← hflagged]; exact htype
    have hencrypted : (packetFlags q).unencrypted = false := by
      by_contra hu
      have := hun (by simpa using hu)
      rw [htype] at this
      cases k <;> exact absurd this (by decide)
    rcases hcases with ⟨-, -, hdec⟩ | ⟨hack, -⟩
    · have hinit : packetType q ≠ .init1 := by rw [htype]; cases k <;> decide
      rw [Crypt.decrypt, if_neg hinit, hencrypted, if_neg (by simp)] at hdec
      obtain ⟨iv, -, hdec⟩ := Option.bind_eq_some_iff.mp hdec
      rw [htype, hid] at hdec
      rw [place, hid, content, packetFlags, hflagged]
      exact h raw rfl k iv _ _ _ htype' hdec
    · rw [hack] at htype
      cases k <;> exact absurd htype (by decide)
  | _ => exact absurd hp (by simp [eventPacket])

theorem step_inStep {e : Env × Event} (hshort : st.Short)
    (h : ∀ raw, e.2 = .datagram raw → Genuine C st raw) (hs : InStep st s) :
    InStep st (s.step C e) :=
  (step_acts s e).preserves
    (fun _ _ hact hs => hact.inStep hshort (authentic_of_genuine h) hs) hs

theorem tracks_new (stream : List Content) :
    ((Receiver.new.queues k).buffer (Receiver.new.queues k).win.position []).Tracks stream := by
  have hposition : (Receiver.new.queues k).win.position = 0 := GenerationWindow.position_new
  have hnone : ∀ i, (Receiver.new.queues k).at? i = none := fun i => by
    simp [ReceiveQueue.at?, Receiver.new, ReceiveQueue.new]
  rw [hposition]
  refine ⟨by simp [ReceiveQueue.buffer], Nat.zero_le _, fun A a ha => ?_⟩
  simp [ReceiveQueue.buffer, hnone] at ha

theorem start_inStep (C : Cipher) (st : ServerStream) (env : Env) (init1Data : Bytes) :
    InStep st (start C env init1Data) := by
  refine ⟨by rw [start_recv]; exact Receiver.Valid.new, fun k => ⟨[], by simp, ?_, ?_⟩⟩
  · rw [bufferOf, start_recv]
    exact tracks_new (st.packets k)
  · obtain ⟨t, outs, -, -, -, -, -, htrace, houts⟩ := sendPacketRaw_spec C env
      (s := opened env.now) .init1 init1Data .none (Or.inl rfl)
    exact (Quiet.of_numbered htrace houts).deliveredOf k

theorem run_inStep (hshort : st.Short) {es : List (Env × Event)} (h : GenuineEvents C st es)
    (hs : InStep st s) : InStep st (run (step C) s es) := by
  induction es generalizing s with
  | nil => exact hs
  | cons e es ih =>
    exact ih (fun e' he' => h e' (List.mem_cons_of_mem _ he'))
      (step_inStep hshort (h e List.mem_cons_self) hs)

end PacketHandler

end Teamspeak.Transport
