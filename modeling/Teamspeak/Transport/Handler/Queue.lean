import Teamspeak.Lib.Reorder
import Teamspeak.Transport.Handler.Receive

/-!
# The receive queues

What the queue operations of `handler.ts` do, said by distance from the next
expected id: `q.at? i` is the packet `i` ids past it.  A queue in order
(`ReceiveQueue.InOrder`) expects the id its window is at and holds packets
inside that window only.

* `hold_spec`: holding a packet changes what is `at?` its distance.
* `tryReassemble_spec`: taking a command out takes a frame off the front and
  moves everything up (`Took`).
* `exists_tryReassemble`: when there is a frame at the front, it is taken.
* `needed_spec`: the id needed next is the first that is missing.
* `drift`: the byte counter against the bytes held; no operation changes it.
-/

namespace Teamspeak.Transport

open Framing

/-- The mark that delimits a command's packets. -/
def isFragmented (p : Packet) : Bool := (packetFlags p).fragmented

/-! ### A queue by distance -/

namespace ReceiveQueue

variable {q : ReceiveQueue}

/-- The packet held `i` ids past the next expected one. -/
def at? (q : ReceiveQueue) (i : Nat) : Option Packet := q.queue.get? ((q.nextID + i) % 65536)

/-- The bytes held in a queue. -/
def heldBytes (q : ReceiveQueue) : Nat := q.queue.total fun _ p => p.data.length

/-- The queue expects the id its window is at, and holds packets inside the
window only, each under its own id. -/
structure InOrder (q : ReceiveQueue) : Prop where
  nextID_eq : q.nextID = q.win.mappedBaseOffset
  held : ∀ id p, q.queue.get? id = some p →
    p.id = id ∧ ∃ i < receivePacketWindowSize, id = (q.nextID + i) % 65536

theorem InOrder.nextID_lt (h : q.InOrder) : q.nextID < 65536 := by
  rw [h.nextID_eq]
  exact q.win.base_lt

theorem inOrder_new : ReceiveQueue.new.InOrder :=
  ⟨rfl, fun id p h => absurd h (by simp [ReceiveQueue.new])⟩

theorem InOrder.at?_lt (h : q.InOrder) {i : Nat} {p : Packet} (hi : i < 65536)
    (hp : q.at? i = some p) : i < receivePacketWindowSize := by
  obtain ⟨-, j, hj, hid⟩ := h.held _ p hp
  simp only [receivePacketWindowSize] at hj ⊢
  omega

theorem InOrder.id_eq (h : q.InOrder) {i : Nat} {p : Packet} (hp : q.at? i = some p) :
    p.id = (q.nextID + i) % 65536 := (h.held _ p hp).1

/-- An id in the window is a distance below the window's size. -/
theorem InOrder.isInWindow_iff (h : q.InOrder) {id : Nat} (hid : id < 65536) :
    q.win.isInWindow id = true ↔
      ∃ i < receivePacketWindowSize, id = (q.nextID + i) % 65536 := by
  rw [GenerationWindow.isInWindow_iff_ahead _ hid, ← h.nextID_eq]
  have hn := h.nextID_lt
  rw [Cyclic.ahead_eq hid, Nat.mod_eq_of_lt hn]
  simp only [receivePacketWindowSize]
  constructor
  · intro hlt
    refine ⟨_, hlt, ?_⟩
    split <;> omega
  · rintro ⟨i, hi, rfl⟩
    split <;> omega

theorem nodup_ids (n m : Nat) (hm : m ≤ 65536) :
    ((List.range m).map fun i => (n + i) % 65536).Nodup := by
  refine (List.nodup_map_iff_inj_on List.nodup_range).mpr fun i hi j hj h => ?_
  rw [List.mem_range] at hi hj
  omega

/-- The packets held at the front number at most the queue's size. -/
theorem length_le_size {m : Nat} (hm : m ≤ 65536) (h : ∀ i < m, q.at? i ≠ none) :
    m ≤ q.queue.size := by
  have hle := InsertionMap.length_le_size (m := q.queue) (nodup_ids q.nextID m hm) fun id hid => by
    obtain ⟨i, hi, rfl⟩ := List.mem_map.mp hid
    rw [InsertionMap.has_iff, ← Option.ne_none_iff_exists']
    exact h i (List.mem_range.mp hi)
  simpa using hle

/-- The packets held at the front, as a list. -/
theorem exists_list {n : Nat} (h : ∀ i < n, q.at? i ≠ none) :
    ∃ l : List Packet, l.length = n ∧ ∀ i (hi : i < l.length), q.at? i = some l[i] := by
  induction n with
  | zero => exact ⟨[], rfl, by simp⟩
  | succ n ih =>
    obtain ⟨l, hlen, hl⟩ := ih fun i hi => h i (by omega)
    obtain ⟨p, hp⟩ := Option.ne_none_iff_exists'.mp (h n (Nat.lt_succ_self n))
    refine ⟨l ++ [p], by simp [hlen], fun i hi => ?_⟩
    rw [List.length_append, List.length_singleton] at hi
    by_cases hi' : i < l.length
    · rw [List.getElem_append_left hi']
      exact hl i hi'
    · obtain rfl : i = l.length := by omega
      rw [List.getElem_concat_length, hlen, hp]
      rfl

end ReceiveQueue

/-! ### Reading a command's packets -/

/-- **What `fragmentsFrom` reads**: the packets from an id on, to the one that
closes the command. -/
theorem fragmentsFrom_eq_some {queue : InsertionMap Nat Packet} {fuel id : Nat} {seen : Bool}
    {fs : List Packet} (hid : id < 65536) :
    Receiver.fragmentsFrom queue fuel id seen = some fs ↔
      scan isFragmented seen fs = some fs ∧ fs.length ≤ fuel ∧
        ∀ i (h : i < fs.length), queue.get? ((id + i) % 65536) = some fs[i] := by
  induction fuel generalizing id seen fs with
  | zero =>
    simp only [Receiver.fragmentsFrom, Nat.le_zero, reduceCtorEq, false_iff]
    rintro ⟨hs, hnil, -⟩
    rw [List.length_eq_zero_iff.mp hnil] at hs
    exact absurd hs (by simp [scan])
  | succ fuel ih =>
    rw [Receiver.fragmentsFrom]
    cases fs with
    | nil =>
      simp only [scan, reduceCtorEq, false_and, iff_false]
      split
      · simp
      · split_ifs <;> simp
    | cons f fs =>
      have hhead : (∀ i (h : i < (f :: fs).length),
          queue.get? ((id + i) % 65536) = some (f :: fs)[i]) ↔
          queue.get? id = some f ∧ ∀ i (h : i < fs.length),
            queue.get? (((id + 1) % 65536 + i) % 65536) = some fs[i] := by
        constructor
        · intro h
          refine ⟨?_, fun i hi => ?_⟩
          · have := h 0 (Nat.succ_pos _)
            rwa [Nat.add_zero, Nat.mod_eq_of_lt hid] at this
          · have := h (i + 1) (Nat.succ_lt_succ hi)
            rwa [show ((id + 1) % 65536 + i) % 65536 = (id + (i + 1)) % 65536 by omega]
        · rintro ⟨h₀, h⟩ i hi
          cases i with
          | zero => rwa [Nat.add_zero, Nat.mod_eq_of_lt hid]
          | succ i =>
            rw [show (id + (i + 1)) % 65536 = ((id + 1) % 65536 + i) % 65536 by omega]
            exact h i (Nat.lt_of_succ_lt_succ hi)
      rw [hhead]
      cases hg : queue.get? id with
      | none => simp
      | some frag =>
        simp only [scan, List.length_cons, Nat.add_le_add_iff_right, Option.some.injEq]
        change (if seen = isFragmented frag then some [frag] else _) = _ ↔ _
        by_cases hf : frag = f
        · subst hf
          by_cases hseen : seen = isFragmented frag
          · rw [if_pos hseen, if_pos hseen]
            constructor
            · intro h
              obtain rfl : fs = [] := by simpa using h.symm
              simp
            · rintro ⟨h, -, -⟩
              exact h
          · rw [if_neg hseen, if_neg hseen]
            simp only [Option.map_eq_some_iff, List.cons.injEq, true_and, exists_eq_right]
            exact ih (Nat.mod_lt _ (by omega))
        · constructor
          · intro h
            split_ifs at h
            · exact absurd (by simpa using h : frag = f ∧ [] = fs).1 hf
            · obtain ⟨g, -, h⟩ := Option.map_eq_some_iff.mp h
              exact absurd (List.cons.inj h).1 hf
          · rintro ⟨-, -, h, -⟩
            exact absurd h hf

namespace Receiver

variable {r : Receiver} {k : QueueKind}

/-! ### The byte counter -/

/-- How far the byte counter is off what is held. -/
def drift (r : Receiver) : Int :=
  r.queuedBytes - ((r.queues .command).heldBytes + (r.queues .commandLow).heldBytes : Nat)

/-- A change of one queue and of the counter changes the drift by their difference. -/
theorem drift_modify (k : QueueKind) (f : ReceiveQueue → ReceiveQueue) (b : Int) :
    { r.modify k f with queuedBytes := b }.drift =
      r.drift + (b - r.queuedBytes) -
        ((f (r.queues k)).heldBytes - (r.queues k).heldBytes : Int) := by
  cases k <;> simp [drift, modify] <;> ring

/-! ### Releasing -/

/-- `release` deletes the id and takes its bytes off the counter, whether or not
it is held. -/
theorem release_eq (r : Receiver) (k : QueueKind) (id : Nat) :
    r.release k id =
      { r.modify k fun q => { q with queue := q.queue.delete id } with
        queuedBytes := r.queuedBytes - (r.queues k).heldLength id } := by
  rw [release, ReceiveQueue.heldLength]
  cases h : (r.queues k).queue.get? id with
  | none => simp [modify, InsertionMap.delete_of_none h, Function.update_eq_self]
  | some held => simp

theorem heldBytes_delete (q : ReceiveQueue) (id : Nat) :
    ({ q with queue := q.queue.delete id }.heldBytes : Int) = q.heldBytes - q.heldLength id := by
  simp only [ReceiveQueue.heldBytes, ReceiveQueue.heldLength]
  cases h : q.queue.get? id with
  | none => simp [InsertionMap.delete_of_none h]
  | some p =>
    have := InsertionMap.total_delete_add (fun _ (p : Packet) => p.data.length) h
    simp only [Option.map_some, Option.getD_some]
    omega

theorem drift_release (r : Receiver) (k : QueueKind) (id : Nat) :
    (r.release k id).drift = r.drift := by
  rw [release_eq, drift_modify, heldBytes_delete]
  ring

@[simp] theorem release_queues_ne {k' : QueueKind} (h : k' ≠ k) (id : Nat) :
    (r.release k id).queues k' = r.queues k' := by
  rw [release_eq]
  exact Function.update_of_ne h _ _

@[simp] theorem release_queues_self (id : Nat) :
    (r.release k id).queues k =
      { r.queues k with queue := (r.queues k).queue.delete id } := by
  rw [release_eq]
  exact Function.update_self _ _ _

@[simp] theorem modify_queues_ne {k' : QueueKind} (h : k' ≠ k) (f : ReceiveQueue → ReceiveQueue) :
    (r.modify k f).queues k' = r.queues k' := Function.update_of_ne h _ _

@[simp] theorem modify_queues_self (f : ReceiveQueue → ReceiveQueue) :
    (r.modify k f).queues k = f (r.queues k) := Function.update_self _ _ _

/-! ### Holding -/

/-- **What `hold` does**: its queue gets the packet, and nothing else changes but
the counter, which stays right. -/
theorem hold_spec (r : Receiver) (k : QueueKind) (p : Packet) :
    (∀ k' ≠ k, (r.hold k p).queues k' = r.queues k') ∧
    ((r.hold k p).queues k).nextID = (r.queues k).nextID ∧
    ((r.hold k p).queues k).win = (r.queues k).win ∧
    (∀ id, ((r.hold k p).queues k).queue.get? id =
      if p.id = id then some { p with firstArrived := (r.queues k).arrival p }
      else (r.queues k).queue.get? id) ∧
    (r.hold k p).drift = r.drift ∧
    (r.hold k p).queuedBytes =
      r.queuedBytes - (r.queues k).heldLength p.id + p.data.length := by
  have hq : (r.hold k p).queues k =
      { r.queues k with
        queue := ((r.queues k).queue.delete p.id).set p.id
          { p with firstArrived := (r.queues k).arrival p } } := by
    simp [hold]
  refine ⟨fun k' hk' => by simp [hold, hk'], by rw [hq], by rw [hq], fun id => ?_, ?_, ?_⟩
  · rw [hq, InsertionMap.get?_set]
    split_ifs with h
    · rfl
    · exact InsertionMap.get?_delete_ne _ h
  · have hnone := InsertionMap.get?_delete_self (r.queues k).queue p.id
    have htotal := InsertionMap.total_set_of_none { p with firstArrived := (r.queues k).arrival p }
      (fun _ (p : Packet) => p.data.length) hnone
    rw [hold, drift_modify, drift_release, release_queues_self]
    simp only [ReceiveQueue.heldBytes, htotal]
    push_cast
    ring
  · rw [hold, release_eq]

/-! ### Taking out -/

/-- What `releaseRun` does: it deletes the ids and moves the window past each. -/
theorem releaseRun_spec (k : QueueKind) (n : Nat) (r : Receiver) {id : Nat} (hid : id < 65536) :
    (releaseRun k n r id).2 = (id + n) % 65536 ∧
    (∀ k' ≠ k, (releaseRun k n r id).1.queues k' = r.queues k') ∧
    ((releaseRun k n r id).1.queues k).win = (fun w => w.advance 1)^[n] (r.queues k).win ∧
    (∀ j, ((releaseRun k n r id).1.queues k).queue.get? j =
      if ∃ i < n, (id + i) % 65536 = j then none else (r.queues k).queue.get? j) ∧
    (releaseRun k n r id).1.drift = r.drift := by
  induction n generalizing r id with
  | zero => exact ⟨by rw [releaseRun]; omega, fun _ _ => rfl, rfl, by simp [releaseRun], rfl⟩
  | succ n ih =>
    rw [releaseRun]
    obtain ⟨hnext, hother, hwin, hget, hdrift⟩ :=
      ih ((r.release k id).modify k fun q => { q with win := q.win.advance 1 })
        (Nat.mod_lt (id + 1) (by omega : 0 < 65536))
    refine ⟨?_, fun k' hk' => ?_, ?_, fun j => ?_, ?_⟩
    · rw [hnext]; omega
    · rw [hother k' hk', modify_queues_ne hk', release_queues_ne hk']
    · rw [hwin, modify_queues_self, release_queues_self, Function.iterate_succ_apply]
    · rw [hget, modify_queues_self, release_queues_self, InsertionMap.get?_delete]
      have hex : (∃ i < n + 1, (id + i) % 65536 = j) ↔
          id = j ∨ ∃ i < n, ((id + 1) % 65536 + i) % 65536 = j := by
        constructor
        · rintro ⟨i, hi, hij⟩
          cases i with
          | zero => exact Or.inl (by omega)
          | succ i => exact Or.inr ⟨i, by omega, by omega⟩
        · rintro (hj | ⟨i, hi, hij⟩)
          · exact ⟨0, by omega, by omega⟩
          · exact ⟨i + 1, by omega, by omega⟩
      by_cases h₁ : ∃ i < n, ((id + 1) % 65536 + i) % 65536 = j
      · rw [if_pos h₁, if_pos (hex.mpr (Or.inr h₁))]
      · rw [if_neg h₁]
        by_cases h₀ : id = j
        · rw [if_pos h₀, if_pos (hex.mpr (Or.inl h₀))]
        · rw [if_neg h₀, if_neg fun h => (hex.mp h).elim h₀ h₁]
    · rw [hdrift, ← drift_release r k id]
      have := drift_modify (r := r.release k id) k (fun q => { q with win := q.win.advance 1 })
        (r.release k id).queuedBytes
      simpa [ReceiveQueue.heldBytes, modify] using this

/-- A frame of packets has been taken off the front of one queue. -/
structure Took (r r' : Receiver) (k : QueueKind) (fs : List Packet) : Prop where
  frame : IsFrame isFragmented fs
  offered : ∀ i (h : i < fs.length), (r.queues k).at? i = some fs[i]
  other : ∀ k' ≠ k, r'.queues k' = r.queues k'
  nextID : (r'.queues k).nextID = ((r.queues k).nextID + fs.length) % 65536
  win : (r'.queues k).win = (fun w => w.advance 1)^[fs.length] (r.queues k).win
  get? : ∀ j, (r'.queues k).queue.get? j =
    if ∃ i < fs.length, ((r.queues k).nextID + i) % 65536 = j then none
    else (r.queues k).queue.get? j
  drift : r'.drift = r.drift

/-- What becomes of a frame's packets: a single one is the command, several are
joined, unless together they pass the reassembly limit. -/
def assemble : List Packet → Option Packet
  | [] => none
  | [p] => some p
  | p :: q :: fs =>
    let combined := (p :: q :: fs).flatMap Packet.data
    if combined.length > maxReassembledSize then none
    else
      some
        { p with
          data := combined
          typeFlagged := ⟨packetType p, { packetFlags p with fragmented := false }⟩
          dummyUsed := (p :: q :: fs).any Packet.dummyUsed }

theorem took_releaseRun (fs : List Packet) (hnext : (r.queues k).nextID < 65536)
    (hframe : IsFrame isFragmented fs)
    (hoffered : ∀ i (h : i < fs.length), (r.queues k).at? i = some fs[i]) :
    Took r ((releaseRun k fs.length r (r.queues k).nextID).1.modify k fun q =>
      { q with nextID := (releaseRun k fs.length r (r.queues k).nextID).2 }) k fs := by
  obtain ⟨h₁, hother, hwin, hget, hdrift⟩ := releaseRun_spec k fs.length r hnext
  refine ⟨hframe, hoffered, fun k' hk' => ?_, ?_, ?_, fun j => ?_, ?_⟩
  · rw [modify_queues_ne hk', hother k' hk']
  · rw [modify_queues_self, h₁]
  · rw [modify_queues_self, hwin]
  · rw [modify_queues_self, hget]
  · rw [← hdrift]
    have := drift_modify (r := (releaseRun k fs.length r (r.queues k).nextID).1) k
      (fun q => { q with nextID := (releaseRun k fs.length r (r.queues k).nextID).2 })
      (releaseRun k fs.length r (r.queues k).nextID).1.queuedBytes
    simpa [ReceiveQueue.heldBytes, modify] using this

/-- **What a turn of the drain takes out**: the frame at the front of the queue,
and out of it comes what `assemble` makes of it. -/
theorem tryReassemble_spec (hnext : (r.queues k).nextID < 65536) {packet : Packet}
    {recv : Receiver} {newNext : Nat} {reassembled : Option Packet}
    (hget : (r.queues k).queue.get? (r.queues k).nextID = some packet)
    (h : r.tryReassemble k packet (r.queues k).nextID = some (recv, newNext, reassembled)) :
    ∃ fs, Took r (recv.modify k fun q => { q with nextID := newNext }) k fs ∧
      reassembled = assemble fs := by
  rw [tryReassemble] at h
  split_ifs at h with hsingle
  · obtain ⟨rfl, rfl, rfl⟩ := by simpa using h
    refine ⟨[packet], took_releaseRun [packet] hnext ?_ ?_, rfl⟩
    · exact isFrame_iff.mpr (Or.inl ⟨packet, rfl, hsingle⟩)
    · intro i hi
      obtain rfl : i = 0 := by simpa using hi
      rw [ReceiveQueue.at?, Nat.add_zero, Nat.mod_eq_of_lt hnext, hget]
      rfl
  · dsimp only at h
    split at h
    · exact absurd h (by simp)
    rename_i fragments hfs
    obtain ⟨hscan, -, hoffered⟩ := (fragmentsFrom_eq_some hnext).mp hfs
    have htook := took_releaseRun _ hnext hscan hoffered
    have hmark : isFragmented packet = true := by simpa [isFragmented] using hsingle
    have hhead : ∀ a l, fragments = a :: l → packet = a := by
      rintro a l rfl
      have h₀ := hoffered 0 (Nat.succ_pos _)
      rw [Nat.add_zero, Nat.mod_eq_of_lt hnext, hget] at h₀
      exact Option.some.inj h₀
    -- The frame starts with a marked packet, so it has more than one.
    obtain ⟨f, rest, rfl⟩ : ∃ f rest, fragments = packet :: f :: rest := by
      rcases isFrame_iff.mp hscan with ⟨a, heq, ha⟩ | ⟨a, mid, z, heq, -⟩
      · rw [← hhead a [] heq, hmark] at ha
        exact absurd ha (by simp)
      · rw [heq, hhead a _ heq]
        cases mid with
        | nil => exact ⟨z, [], rfl⟩
        | cons m mid => exact ⟨m, mid ++ [z], rfl⟩
    refine ⟨packet :: f :: rest, ?_, ?_⟩
    · split_ifs at h <;>
        (obtain ⟨rfl, rfl, -⟩ := by simpa using h
         exact htook)
    · simp only [assemble]
      split_ifs at h ⊢ <;> simp_all

/-! ### When there is a command to take out -/

/-- What a queue holds in a row at the front fits in its window. -/
theorem length_le_window {fs : List Packet} (h : (r.queues k).InOrder)
    (hoffered : ∀ i (h : i < fs.length), (r.queues k).at? i = some fs[i]) :
    fs.length ≤ receivePacketWindowSize := by
  by_contra hlt
  exact absurd (h.at?_lt (by decide) (hoffered receivePacketWindowSize (by omega))) (by simp)

/-- A command whose packets are all at the front is taken out. -/
theorem exists_tryReassemble {fs : List Packet} (h : (r.queues k).InOrder)
    (hframe : IsFrame isFragmented fs)
    (hoffered : ∀ i (h : i < fs.length), (r.queues k).at? i = some fs[i]) :
    ∃ packet result, (r.queues k).queue.get? (r.queues k).nextID = some packet ∧
      r.tryReassemble k packet (r.queues k).nextID = some result := by
  have hlen := length_le_window h hoffered
  simp only [receivePacketWindowSize] at hlen
  have hpos := hframe.length_pos
  have hget := hoffered 0 hpos
  rw [ReceiveQueue.at?, Nat.add_zero, Nat.mod_eq_of_lt h.nextID_lt] at hget
  refine ⟨fs[0], ?_⟩
  simp only [tryReassemble, hget, true_and]
  split_ifs
  · exact ⟨_, rfl⟩
  · have hsize : fs.length ≤ (r.queues k).queue.size :=
      ReceiveQueue.length_le_size (by omega) fun i hi => by rw [hoffered i hi]; simp
    rw [(fragmentsFrom_eq_some h.nextID_lt).mpr ⟨hframe, by omega, hoffered⟩]
    dsimp only
    split_ifs <;> exact ⟨_, rfl⟩

/-! ### The id needed next -/

theorem neededFrom_spec (queue : InsertionMap Nat Packet) (fuel : Nat) {id : Nat}
    (hid : id < 65536) :
    ∃ j ≤ fuel, neededFrom queue fuel id = (id + j) % 65536 ∧
      (∀ i < j, queue.get? ((id + i) % 65536) ≠ none) ∧
      (j < fuel → queue.get? ((id + j) % 65536) = none) := by
  induction fuel generalizing id with
  | zero => exact ⟨0, le_rfl, by rw [neededFrom]; omega, by simp, by simp⟩
  | succ fuel ih =>
    rw [neededFrom]
    split_ifs with hhas
    · obtain ⟨j, hj, hneed, hbefore, hat⟩ := ih (Nat.mod_lt (id + 1) (by omega : 0 < 65536))
      have hmod : ∀ i, ((id + 1) % 65536 + i) % 65536 = (id + (i + 1)) % 65536 := by
        intro i
        omega
      refine ⟨j + 1, by omega, by rw [hneed, hmod], fun i hi => ?_, fun hlt => ?_⟩
      · cases i with
        | zero =>
          rw [Nat.add_zero, Nat.mod_eq_of_lt hid, Option.ne_none_iff_exists']
          exact InsertionMap.has_iff.mp hhas
        | succ i =>
          rw [← hmod]
          exact hbefore i (by omega)
      · rw [← hmod]
        exact hat (by omega)
    · refine ⟨0, by omega, by omega, by simp, fun _ => ?_⟩
      rw [Nat.add_zero, Nat.mod_eq_of_lt hid]
      exact InsertionMap.has_eq_false.mp (by simpa using hhas)

/-- **The id needed next** is the first from the next expected one on that the
queue does not hold. -/
theorem needed_spec (h : (r.queues k).InOrder) :
    ∃ j ≤ receivePacketWindowSize, r.needed k = ((r.queues k).nextID + j) % 65536 ∧
      (∀ i < j, (r.queues k).at? i ≠ none) ∧ (r.queues k).at? j = none := by
  obtain ⟨j, hj, hneed, hbefore, hat⟩ :=
    neededFrom_spec (r.queues k).queue (r.queues k).queue.size h.nextID_lt
  have hle : j ≤ receivePacketWindowSize := by
    by_contra hlt
    obtain ⟨p, hp⟩ := Option.ne_none_iff_exists'.mp
      (hbefore receivePacketWindowSize (by omega))
    exact absurd (h.at?_lt (by decide) hp) (by simp)
  refine ⟨j, hle, hneed, hbefore, ?_⟩
  rcases Nat.lt_or_ge j (r.queues k).queue.size with hlt | hge
  · exact hat hlt
  · -- Were it held too, the queue would hold more packets than its size.
    by_contra hne
    have hall : ∀ i < j + 1, (r.queues k).at? i ≠ none := by
      intro i hi
      rcases Nat.lt_succ_iff_lt_or_eq.mp hi with hi | rfl
      · exact hbefore i hi
      · exact hne
    have hsize : j + 1 ≤ (r.queues k).queue.size :=
      ReceiveQueue.length_le_size (by simp only [receivePacketWindowSize] at hle; omega) hall
    omega

/-! ### Order is kept -/

theorem hold_at? (h : (r.queues k).InOrder) {p : Packet} {i j : Nat} (hi : i < 65536)
    (hj : j < 65536) (hid : p.id = ((r.queues k).nextID + i) % 65536) :
    ((r.hold k p).queues k).at? j =
      if i = j then some { p with firstArrived := (r.queues k).arrival p }
      else (r.queues k).at? j := by
  obtain ⟨-, hnext, -, hget, -⟩ := hold_spec r k p
  have hn := h.nextID_lt
  rw [ReceiveQueue.at?, hnext, hget, hid]
  by_cases hij : i = j
  · rw [if_pos hij, if_pos (by rw [hij])]
  · rw [if_neg hij, if_neg (by omega)]
    rfl

theorem hold_inOrder (h : ∀ k, (r.queues k).InOrder) {p : Packet} (hid : p.id < 65536)
    (hin : (r.queues k).win.isInWindow p.id = true) (k' : QueueKind) :
    ((r.hold k p).queues k').InOrder := by
  obtain ⟨hother, hnext, hwin, hget, -⟩ := hold_spec r k p
  by_cases hk : k' = k
  · subst hk
    refine ⟨by rw [hnext, hwin, (h k').nextID_eq], fun id held hheld => ?_⟩
    rw [hget] at hheld
    rw [hnext]
    split_ifs at hheld with hpid
    · rw [← Option.some.inj hheld]
      exact ⟨hpid, hpid ▸ ((h k').isInWindow_iff hid).mp hin⟩
    · exact (h k').held id held hheld
  · rw [hother k' hk]
    exact h k'

theorem Took.at? {r' : Receiver} {fs : List Packet} (h : Took r r' k fs)
    (hlen : fs.length ≤ 65536) {i : Nat} (hi : i < 65536) :
    (r'.queues k).at? i =
      if fs.length + i < 65536 then (r.queues k).at? (fs.length + i) else none := by
  rw [ReceiveQueue.at?, h.nextID, h.get?]
  by_cases hlt : fs.length + i < 65536
  · rw [if_pos hlt, if_neg, ReceiveQueue.at?]
    · congr 1
      omega
    · rintro ⟨j, hj, heq⟩
      omega
  · rw [if_neg hlt, if_pos]
    exact ⟨fs.length + i - 65536, by omega, by omega⟩

theorem Took.get?_of_get? {r' : Receiver} {fs : List Packet} (h : Took r r' k fs) {id : Nat}
    {p : Packet} (hp : (r'.queues k).queue.get? id = some p) :
    (r.queues k).queue.get? id = some p := by
  rw [h.get?] at hp
  split_ifs at hp
  exact hp

/-- Taking a frame out leaves fewer packets held. -/
theorem Took.size_lt {r' : Receiver} {fs : List Packet} (ht : Took r r' k fs) :
    (r'.queues k).queue.size < (r.queues k).queue.size := by
  have hpos := ht.frame.length_pos
  have hfront : ((r.queues k).nextID + 0) % 65536 ∉ (r'.queues k).queue.entries.map Prod.fst := by
    rw [← InsertionMap.get?_eq_none, ht.get?, if_pos ⟨0, hpos, rfl⟩]
  have hle := InsertionMap.length_le_size (m := (r.queues k).queue)
    (List.nodup_cons.mpr ⟨hfront, (r'.queues k).queue.nodup⟩) fun id hid => by
      rw [InsertionMap.has_iff]
      rcases List.mem_cons.mp hid with rfl | hid
      · exact ⟨_, ht.offered 0 hpos⟩
      · obtain ⟨⟨id, p⟩, hmem, rfl⟩ := List.mem_map.mp hid
        exact ⟨p, ht.get?_of_get? (InsertionMap.mem_entries.mp hmem)⟩
  simpa [InsertionMap.size, Nat.succ_le_iff] using hle

theorem iterate_advance_base {w : GenerationWindow 65536 receivePacketWindowSize} (n : Nat) :
    ((fun w => w.advance 1)^[n] w).mappedBaseOffset = (w.mappedBaseOffset + n) % 65536 := by
  induction n with
  | zero => rw [Nat.add_zero, Nat.mod_eq_of_lt w.base_lt]; rfl
  | succ n ih =>
    rw [Function.iterate_succ_apply']
    have := GenerationWindow.advance_base ((fun w => w.advance 1)^[n] w) 1
    rw [Nat.cast_one] at this
    rw [this, ih]
    omega

theorem Took.inOrder {r' : Receiver} {fs : List Packet} (ht : Took r r' k fs)
    (h : ∀ k, (r.queues k).InOrder) (k' : QueueKind) : (r'.queues k').InOrder := by
  by_cases hk : k' = k
  · subst hk
    refine ⟨?_, fun id p hp => ?_⟩
    · rw [ht.nextID, ht.win, iterate_advance_base, (h k').nextID_eq]
    · obtain ⟨hpid, i, hi, hid⟩ := (h k').held id p (ht.get?_of_get? hp)
      refine ⟨hpid, i - fs.length, by omega, ?_⟩
      rw [ht.nextID]
      -- An id at the front was deleted, so this one lies past it.
      have hge : fs.length ≤ i := by
        by_contra hlt
        rw [ht.get?, if_pos ⟨i, by omega, hid.symm⟩] at hp
        exact absurd hp (by simp)
      omega
  · rw [ht.other k' hk]
    exact h k'

end Receiver

end Teamspeak.Transport
