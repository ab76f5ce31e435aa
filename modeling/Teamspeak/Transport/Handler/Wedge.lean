import Teamspeak.Transport.Handler.CommandStep

/-!
# Whether a queue can wedge

A queue takes what it needs next as long as that lies in its window, and the
window moves only when a whole command is taken out.  A command of as many
packets as the window has ids, its end not among them, leaves no room for its
end.

* `no_wedge`: unless a packet fills the window in this way, every queue is ready
  to take the packet it needs next, after every event.
* `wedged`: 1024 such packets, and the queue takes nothing any more.
-/

namespace Teamspeak.Transport

open Framing

namespace ReceiveQueue

variable {q : ReceiveQueue}

/-- Some id in the window is not held. -/
def HasGap (q : ReceiveQueue) : Prop := ∃ i < receivePacketWindowSize, q.at? i = none

/-- With this packet the queue holds its whole window: one command begun, and no
packet that ends it. -/
structure FilledBy (q : ReceiveQueue) (p : Packet) : Prop where
  full : ∀ i < receivePacketWindowSize, p.id ≠ (q.nextID + i) % 65536 → q.at? i ≠ none
  unended : ∀ i < receivePacketWindowSize, ∀ x,
    (if p.id = (q.nextID + i) % 65536 then some p else q.at? i) = some x →
      (isFragmented x = true ↔ i = 0)

/-- Of two gaps in the window a packet fills at most one. -/
theorem not_filledBy (i j : Nat) (hij : i ≠ j) (hi : i < receivePacketWindowSize)
    (hj : j < receivePacketWindowSize) (hni : q.at? i = none) (hnj : q.at? j = none) {p : Packet} :
    ¬ q.FilledBy p := by
  intro h
  simp only [receivePacketWindowSize] at hi hj
  by_cases hp : p.id = (q.nextID + i) % 65536
  · exact h.full j hj (by omega) hnj
  · exact h.full i hi hp hni

theorem hasGap_or_ready
    (h : ¬ ∀ i < receivePacketWindowSize, ∀ x, q.at? i = some x → (isFragmented x = true ↔ i = 0)) :
    q.HasGap ∨ q.Ready := by
  by_cases hfull : ∀ i < receivePacketWindowSize, q.at? i ≠ none
  · obtain ⟨l, hlen, hl⟩ := exists_list hfull
    refine Or.inr ?_
    push Not at h
    obtain ⟨i, hi, x, hx, hmark⟩ := h
    cases l with
    | nil => exact absurd hlen (by decide)
    | cons a l =>
      have hilt : i < (a :: l).length := by omega
      have hxi : x = (a :: l)[i] := by
        have := hl i hilt
        rw [hx] at this
        exact Option.some.inj this
      obtain ⟨f, hf, hprefix⟩ : ∃ f, IsFrame isFragmented f ∧ f <+: a :: l := by
        refine exists_frame_prefix ?_
        cases i with
        | zero =>
          refine Or.inl ?_
          rcases hmark with ⟨-, h⟩ | ⟨h, -⟩
          · exact absurd rfl h
          · rw [hxi] at h
            simpa using h
        | succ i =>
          refine Or.inr ⟨x, ?_, ?_⟩
          · rw [hxi, List.getElem_cons_succ]
            exact List.getElem_mem _
          · rcases hmark with ⟨h, -⟩ | ⟨-, h⟩
            · exact h
            · exact absurd h (by simp)
      refine ⟨f, hf, fun j hj => ?_⟩
      rw [hl j (hj.trans_le hprefix.length_le), hprefix.getElem hj]
  · push Not at hfull
    exact Or.inl hfull

end ReceiveQueue

namespace Receiver

variable {r r' : Receiver} {k : QueueKind}

theorem Took.hasGap {fs : List Packet} (ht : Took r r' k fs) (h : (r.queues k).InOrder) :
    (r'.queues k).HasGap := by
  have hpos := ht.frame.length_pos
  have hlen := length_le_window h ht.offered
  simp only [receivePacketWindowSize] at hlen
  refine ⟨1023, by decide, ?_⟩
  rw [ht.at? (by omega) (by omega), if_pos (by omega)]
  by_contra hne
  obtain ⟨p, hp⟩ := Option.ne_none_iff_exists'.mp hne
  have := h.at?_lt (by omega) hp
  simp only [receivePacketWindowSize] at this
  omega

/-- Unless it fills the window, a packet that is held leaves a gap, or a command
ready to be taken out. -/
theorem hasGap_or_ready_hold (h : ∀ k, (r.queues k).InOrder) {p : Packet} (hid : p.id < 65536)
    (hin : (r.queues k).win.isInWindow p.id = true) (hfills : ¬ (r.queues k).FilledBy p) :
    ((r.hold k p).queues k).HasGap ∨ ((r.hold k p).queues k).Ready := by
  obtain ⟨j, hj, hpid⟩ := ((h k).isInWindow_iff hid).mp hin
  simp only [receivePacketWindowSize] at hj
  have hat : ∀ i < 1024, ((r.hold k p).queues k).at? i =
      if p.id = ((r.queues k).nextID + i) % 65536 then
        some { p with firstArrived := (r.queues k).arrival p }
      else (r.queues k).at? i := by
    intro i hi
    rw [hold_at? (h k) (by omega) (by omega) hpid]
    by_cases hij : j = i
    · rw [if_pos hij, if_pos (by rw [hpid, hij])]
    · rw [if_neg hij, if_neg (by rw [hpid]; omega)]
  by_cases hgap : ((r.hold k p).queues k).HasGap
  · exact Or.inl hgap
  · refine ReceiveQueue.hasGap_or_ready fun hunended => hfills ⟨fun i hi hne hnone => ?_,
      fun i hi x hx => ?_⟩
    · exact hgap ⟨i, hi, by rw [hat i hi, if_neg hne, hnone]⟩
    · have hmark := hunended i hi
      rw [hat i hi] at hmark
      split_ifs at hx hmark
      · have hp := hmark _ rfl
        rw [← Option.some.inj hx]
        exact hp
      · exact hmark x hx

end Receiver

namespace PacketHandler

variable {C : Cipher} {s : PacketHandler}

/-- The event brings a packet that fills a window. -/
def FillsWindow (C : Cipher) (s : PacketHandler) (e : Env × Event) : Prop :=
  ∃ k p, eventPacket C s e = some p ∧ packetType p = k.packetType ∧ (s.recv.queues k).FilledBy p

theorem step_hasGap {e : Env × Event} (hv : s.recv.Valid) (hfills : ¬ FillsWindow C s e)
    (h : ∀ k, (s.recv.queues k).HasGap) : ∀ k, ((s.step C e).recv.queues k).HasGap := by
  by_cases hcommand : ∃ (k : QueueKind) (p : Packet), eventPacket C s e = some p ∧ packetType p = k.packetType
  · obtain ⟨k, p, hp, htype⟩ := hcommand
    obtain ⟨env, ev⟩ := e
    cases ev with
    | datagram raw =>
      by_cases hclosed : s.closed = true
      · simpa only [step, hclosed, if_true] using h
      obtain ⟨⟨s₁, q⟩, hopen, rfl⟩ := Option.map_eq_some_iff.mp hp
      have hstep := step_command (by simpa using hclosed) hopen htype
      obtain ⟨rfl, hfresh⟩ := openPacket_fresh hopen htype
      rw [hstep, runCalls_recv, handlePacket_command htype, noteReceived_recv htype]
      split_ifs with hin hroom
      · have horder := Receiver.hold_inOrder hv.inOrder hfresh.id_lt hin
        intro k'
        by_cases hk' : k' = k
        · subst hk'
          rcases Receiver.hasGap_or_ready_hold hv.inOrder hfresh.id_lt hin
            (fun hf => hfills ⟨k', q, hp, htype, hf⟩) with hgap | hready
          · exact drain_preserves (P := fun r => (r.queues k').HasGap)
              (fun r r' fs h ht _ => ht.hasGap (h k')) _ horder hgap
          · exact drain_of_ready (P := fun r => (r.queues k').HasGap)
              (fun r r' fs h ht => ht.hasGap (h k')) horder hready
        · refine drain_preserves (P := fun r => (r.queues k').HasGap)
            (fun r r' fs _ ht hgap => ?_) _ horder ?_
          · rwa [ht.other k' hk']
          · change ((s₁.recv.hold k q).queues k').HasGap
            rw [(Receiver.hold_spec s₁.recv k q).1 k' hk']
            exact h k'
      · rwa [noteReceived_recv htype]
      · simpa only [sendAck, sendPacketRaw_recv, noteReceived_recv htype] using h
      · rwa [noteReceived_recv htype]
    | _ => exact absurd hp (by simp [eventPacket])
  · push Not at hcommand
    refine step_no_command (P := fun s => ∀ k, (s.recv.queues k).HasGap) (fun p hp => ?_)
      (fun s s' op hchange hop hv hs => ?_) hv h
    · cases hkind : (packetType p).queueKind? with
      | none => rfl
      | some k => exact absurd (PacketType.queueKind?_eq_some.mp hkind) (hcommand k p hp)
    · rcases hchange with ⟨hqueues, -⟩ | ⟨k, p, hp, hfresh, -⟩ | ⟨k, fs, htook, -⟩
      · rwa [hqueues]
      · have := hop p hp
        rw [hfresh.type] at this
        cases k <;> exact absurd this (by decide)
      · intro k'
        by_cases hk' : k' = k
        · subst hk'
          exact htook.hasGap (hv.inOrder k')
        · rw [htook.other k' hk']
          exact hs k'

/-- With a gap in its window, a queue takes the packet it needs next. -/
theorem takes_needed (hv : s.recv.Valid) {k : QueueKind} (h : (s.recv.queues k).HasGap) :
    ∃ i < receivePacketWindowSize, (s.recv.queues k).at? i = none ∧
      (∀ j < i, (s.recv.queues k).at? j ≠ none) ∧
      ∀ env p dummyUsed, packetType p = k.packetType →
        p.id = ((s.recv.queues k).nextID + i) % 65536 →
          (s.recv.queues k).win.isInWindow p.id = true ∧
            (s.handleCommandWindowAndAck C env p dummyUsed).2 = true := by
  obtain ⟨i, -, hneeded, hbefore, hnone⟩ := Receiver.needed_spec (hv.inOrder k)
  obtain ⟨j, hj, hgap⟩ := h
  have hi : i < receivePacketWindowSize := by
    by_contra hlt
    exact hbefore j (by omega) hgap
  refine ⟨i, hi, hnone, hbefore, fun env p dummyUsed htype hid => ?_⟩
  have hlt : p.id < 65536 := hid ▸ Nat.mod_lt _ (by decide)
  have hin := ((hv.inOrder k).isInWindow_iff hlt).mpr ⟨i, hi, hid⟩
  have hroom : s.recv.hasRoom k p = true := by simp [Receiver.hasRoom, hneeded, hid]
  have hkind : (packetType p).queueKind? = some k := PacketType.queueKind?_eq_some.mpr htype
  refine ⟨hin, ?_⟩
  simp [handleCommandWindowAndAck, hkind, hin, hroom]

/-- **No queue wedges** in a run in which no packet fills the window of its queue:
after every event, the first id from the next expected one on that a queue does
not hold lies in its window, and the packet with that id would be taken. -/
theorem no_wedge (C : Cipher) (env₀ : Env) (init1Data : Bytes) (es : List (Env × Event))
    (h : Along (step C) (fun s e => ¬ FillsWindow C s e) (start C env₀ init1Data) es)
    (k : QueueKind) :
    let s := after C env₀ init1Data es
    ∃ i < receivePacketWindowSize, (s.recv.queues k).at? i = none ∧
      (∀ j < i, (s.recv.queues k).at? j ≠ none) ∧
      ∀ env p dummyUsed, packetType p = k.packetType →
        p.id = ((s.recv.queues k).nextID + i) % 65536 →
          (s.recv.queues k).win.isInWindow p.id = true ∧
            (s.handleCommandWindowAndAck C env p dummyUsed).2 = true := by
  have hinv : (after C env₀ init1Data es).recv.Valid ∧
      ∀ k, ((after C env₀ init1Data es).recv.queues k).HasGap := by
    refine run_invariant_along (I := fun s : PacketHandler =>
      s.recv.Valid ∧ ∀ k, (s.recv.queues k).HasGap)
      (fun s e hs hfills => ⟨step_recv_valid e hs.1, step_hasGap hs.1 hfills hs.2⟩) ?_ h
    rw [start_recv]
    exact ⟨Receiver.Valid.new, fun k => ⟨0, by decide, rfl⟩⟩
  exact takes_needed hinv.1 (hinv.2 k)

/-! ### A wedged queue -/

/-- The first packet of a fragmented command and those after it, none the last. -/
def endlessCommand (n : Nat) : List (Env × Event) :=
  (List.range n).map fun i => ({ now := 0 },
    .datagram (clearDatagram 0 i ⟨.command, { fragmented := decide (i = 0) }⟩ [97]))

/-- The queue holds `n` packets in a row, of which only the first is marked. -/
structure Endless (q : ReceiveQueue) (n : Nat) : Prop where
  win : q.win = .new _ _
  nextID : q.nextID = 0
  held : ∀ i < n, ∃ p, q.at? i = some p ∧ (isFragmented p = true ↔ i = 0)
  none : ∀ i < 65536, n ≤ i → q.at? i = none

theorem Endless.not_ready {q : ReceiveQueue} {n : Nat} (h : Endless q n) (hn : n < 65536) :
    ¬ q.Ready := by
  rintro ⟨fs, hframe, hoffered⟩
  have hlen : fs.length ≤ n := by
    by_contra hlt
    have := hoffered n (by omega)
    rw [h.none n hn le_rfl] at this
    exact absurd this (by simp)
  have hmark : ∀ i (hi : i < fs.length), isFragmented fs[i] = true ↔ i = 0 := by
    intro i hi
    obtain ⟨p, hp, hmark⟩ := h.held i (by omega)
    rw [hoffered i hi] at hp
    rwa [Option.some.inj hp]
  rcases isFrame_iff.mp hframe with ⟨a, rfl, ha⟩ | ⟨a, mid, z, rfl, -, -, hz⟩
  · exact absurd ((hmark 0 (by simp)).mpr rfl) (by simp [ha])
  · have hlast := hmark (mid.length + 1) (by simp)
    rw [List.getElem_cons_succ, List.getElem_concat_length rfl] at hlast
    exact absurd (hlast.mp hz) (by omega)

/-- Such a queue takes the next such packet, without an end to what it holds. -/
theorem Endless.hold {r : Receiver} {k : QueueKind} {n : Nat} (h : Endless (r.queues k) n)
    (hv : r.Valid) (hn : n < 1024) {p : Packet} (hid : p.id = n)
    (hmark : isFragmented p = true ↔ n = 0) : Endless ((r.hold k p).queues k) (n + 1) := by
  obtain ⟨-, hnext, hwin, -⟩ := Receiver.hold_spec r k p
  have hpid : p.id = ((r.queues k).nextID + n) % 65536 := by rw [h.nextID]; omega
  have hat : ∀ i < 65536, ((r.hold k p).queues k).at? i =
      if n = i then some { p with firstArrived := (r.queues k).arrival p }
      else (r.queues k).at? i := fun i hi =>
    Receiver.hold_at? (hv.inOrder k) (by omega) hi hpid
  refine ⟨by rw [hwin, h.win], by rw [hnext, h.nextID], fun i hi => ?_, fun i hi hle => ?_⟩
  · rw [hat i (by omega)]
    by_cases hin : n = i
    · exact ⟨_, if_pos hin, hin ▸ hmark⟩
    · rw [if_neg hin]
      exact h.held i (by omega)
  · rw [hat i hi, if_neg (by omega)]
    exact h.none i hi (by omega)

theorem endless_after {n : Nat} (hn : n ≤ 1024) :
    let s := after clearCipher { now := 0 } [] (endlessCommand n)
    s.closed = false ∧ Endless (s.recv.queues .command) n := by
  induction n with
  | zero => exact ⟨by decide, rfl, by decide, by simp, fun i _ _ => rfl⟩
  | succ n ih =>
    obtain ⟨hclosed, hend⟩ := ih (by omega)
    have hv := recv_valid clearCipher { now := 0 } [] (endlessCommand n)
    have hrun : after clearCipher { now := 0 } [] (endlessCommand (n + 1)) =
        (after clearCipher { now := 0 } [] (endlessCommand n)).step clearCipher ({ now := 0 },
          .datagram (clearDatagram 0 n ⟨.command, { fragmented := decide (n = 0) }⟩ [97])) := by
      rw [after, endlessCommand, List.range_succ, List.map_append, List.map_singleton, run_concat]
      rfl
    rw [hrun]
    revert hclosed hend hv
    generalize after clearCipher { now := 0 } [] (endlessCommand n) = s
    intro hclosed hend hv
    have hgen : (s.recv.queues .command).win.getGeneration n = 0 := by
      rw [hend.win]
      simp [GenerationWindow.getGeneration, GenerationWindow.isNextGen,
        GenerationWindow.isBehindAcrossWrap, GenerationWindow.new]
    have hopen := openPacket_clearDatagram (s := s) (k := .command) { now := 0 } n
      ⟨.command, { fragmented := decide (n = 0) }⟩ [97] rfl rfl (by omega)
      (by simp) (by omega)
    rw [hgen] at hopen
    let p := received 0 n ⟨.command, { fragmented := decide (n = 0) }⟩ [97] 0
      (!s.crypt.cryptoInitComplete)
    have hend' : Endless ((s.recv.hold .command p).queues .command) (n + 1) :=
      hend.hold hv (by omega) rfl (by simp [p, received, isFragmented, packetFlags])
    have hin : (s.recv.queues .command).win.isInWindow p.id = true :=
      ((hv.inOrder .command).isInWindow_iff (show n < 65536 by omega)).mpr
        ⟨n, by simp only [receivePacketWindowSize]; omega, by rw [hend.nextID]; omega⟩
    have hroom : s.recv.hasRoom .command p = true := by
      obtain ⟨j, hj, hneeded, hbefore, hnone⟩ := Receiver.needed_spec (hv.inOrder .command)
      simp only [receivePacketWindowSize] at hj
      have hjn : j = n := by
        rcases Nat.lt_trichotomy j n with hlt | heq | hgt
        · obtain ⟨x, hx, -⟩ := hend.held j hlt
          rw [hnone] at hx
          exact absurd hx (by simp)
        · exact heq
        · exact absurd (hend.none n (by omega) le_rfl) (hbefore n hgt)
      have : p.id = s.recv.needed .command := by
        rw [hneeded, hend.nextID, hjn, Nat.zero_add, Nat.mod_eq_of_lt (by omega)]
        rfl
      simp [Receiver.hasRoom, this]
    obtain ⟨hrecv, hclosed', -⟩ := step_holds hv hclosed (fun _ => rfl) hopen rfl hin hroom
      (hend'.not_ready (by omega))
    exact ⟨hclosed', hrecv ▸ hend'⟩

/-- **A queue can wedge**: of a fragmented command of more than 1024 packets, the
first 1024 fill the window, and no id in it is left for the next. -/
theorem wedged :
    let s := after clearCipher { now := 0 } [] (endlessCommand 1024)
    s.closed = false ∧ ¬ ∃ i < receivePacketWindowSize, (s.recv.queues .command).at? i = none ∧
      (∀ j < i, (s.recv.queues .command).at? j ≠ none) ∧
      ∀ env p dummyUsed, packetType p = QueueKind.command.packetType →
        p.id = ((s.recv.queues .command).nextID + i) % 65536 →
          (s.recv.queues .command).win.isInWindow p.id = true ∧
            (s.handleCommandWindowAndAck clearCipher env p dummyUsed).2 = true := by
  obtain ⟨hclosed, hend⟩ := endless_after (n := 1024) le_rfl
  refine ⟨hclosed, ?_⟩
  rintro ⟨i, hi, hnone, -⟩
  obtain ⟨p, hp, -⟩ := hend.held i hi
  rw [hnone] at hp
  exact absurd hp (by simp)

/-- A fragmented command of two packets, the second first, fills no window. -/
theorem no_wedge_reversed :
    let s := after clearCipher { now := 0 } []
      [({ now := 0 }, .datagram (clearDatagram 0 1 ⟨.command, { fragmented := true }⟩ [98])),
        ({ now := 0 }, .datagram (clearDatagram 0 0 ⟨.command, { fragmented := true }⟩ [97]))]
    ∃ i < receivePacketWindowSize, (s.recv.queues .command).at? i = none ∧
      (∀ j < i, (s.recv.queues .command).at? j ≠ none) ∧
      ∀ env p dummyUsed, packetType p = QueueKind.command.packetType →
        p.id = ((s.recv.queues .command).nextID + i) % 65536 →
          (s.recv.queues .command).win.isInWindow p.id = true ∧
            (s.handleCommandWindowAndAck clearCipher env p dummyUsed).2 = true := by
  refine no_wedge clearCipher { now := 0 } [] [_, _] ⟨?_, ?_, trivial⟩ .command
  · rintro ⟨k, p, -, -, hfilled⟩
    exact ReceiveQueue.not_filledBy 5 6 (by decide) (by decide) (by decide)
      (by cases k <;> decide) (by cases k <;> decide) hfilled
  · rintro ⟨k, p, -, -, hfilled⟩
    exact ReceiveQueue.not_filledBy 5 6 (by decide) (by decide) (by decide)
      (by cases k <;> decide) (by cases k <;> decide) hfilled

end PacketHandler

end Teamspeak.Transport
