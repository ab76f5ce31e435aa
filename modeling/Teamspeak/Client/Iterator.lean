import Mathlib.Data.List.Basic
import Teamspeak.Lib.Run

/-!
# Events as an async iterator

`events()` of `client.ts` and of `query/client.ts`.  `EventIterator` is what the closures
share; a `next()` call is named by how many there were before it.  `IteratorRun` runs it over
deliveries, calls, disconnects and an abort of the signal, and keeps what the callers saw.
Once the iterator has ended it has unsubscribed and has let go of its signal.

* `Fifo`: what holds after every step; buffered values and waiting calls never meet.
* `after_abort`: an iterator that its signal stops answers the rest with the reason.
* `events_inOrder`: what the callers see, in every run.
-/

namespace Teamspeak.Client

variable {α ρ : Type}

/-- What a `next()` call comes to. -/
inductive Answer (α ρ : Type)
  | value (v : α)
  | done
  | rejected (reason : ρ)
  deriving DecidableEq

def Answer.value? : Answer α ρ → Option α
  | value v => some v
  | _ => none

/-- Which event the iterator is of. -/
inductive IteratedEvent
  | voiceData
  | disconnected
  | other
  deriving DecidableEq

/-- How an iterator treats its event: whether it bounds the buffer, and whether a disconnect
ends it. -/
structure IteratorKind where
  bounded : Bool
  endsOnDisconnect : Bool

/-- `TeamspeakClient.events`. -/
def clientEvents (event : IteratedEvent) : IteratorKind :=
  { bounded := event = .voiceData, endsOnDisconnect := event ≠ .disconnected }

/-- `QueryClient.events`, which has no voice and bounds nothing. -/
def queryEvents (event : IteratedEvent) : IteratorKind :=
  { bounded := false, endsOnDisconnect := event ≠ .disconnected }

def maxPendingDeliveries : Nat := 256

/-- What the closures share: the values kept, and the calls waiting for one, oldest first. -/
@[ext] structure EventIterator (α : Type) where
  buffered : List α := []
  waiting : List Nat := []
  ended : Bool := false
  aborted : Bool := false
  dropped : Nat := 0

namespace EventIterator

variable (kind : IteratorKind) (it : EventIterator α)

/-- The listener of the event, and the call it answers. -/
def listener (payload : α) : EventIterator α × List (Nat × Answer α ρ) :=
  if it.ended then (it, [])
  else
    match it.waiting with
    | waiter :: waiting => ({ it with waiting }, [(waiter, .value payload)])
    | [] =>
      if kind.bounded ∧ maxPendingDeliveries ≤ it.buffered.length then
        ({ it with buffered := it.buffered.drop 1 ++ [payload], dropped := it.dropped + 1 }, [])
      else ({ it with buffered := it.buffered ++ [payload] }, [])

/-- `cleanup`: the iterator stops listening, to its signal too. -/
def cleanup : EventIterator α := { it with ended := true }

def finishWaiting : EventIterator α × List (Nat × Answer α ρ) :=
  ({ it with waiting := [] }, it.waiting.map fun waiter => (waiter, .done))

/-- The listener of `disconnected`, where there is one and it still listens. -/
def onDisconnected : EventIterator α × List (Nat × Answer α ρ) :=
  if it.ended ∨ kind.endsOnDisconnect = false then (it, []) else it.cleanup.finishWaiting

/-- The listener of the signal, while the iterator has not let go of it. -/
def abort (reason : ρ) : EventIterator α × List (Nat × Answer α ρ) :=
  if it.ended then (it, [])
  else
    ({ it with aborted := true, buffered := [], ended := true, waiting := [] },
      it.waiting.map fun waiter => (waiter, .rejected reason))

/-- `next()` of an iterator that has not been aborted: a value kept, or the end, or a wait. -/
def nextKept (call : Nat) : EventIterator α × List (Nat × Answer α ρ) :=
  match it.buffered with
  | v :: buffered => ({ it with buffered }, [(call, .value v)])
  | [] =>
    if it.ended then (it.cleanup, [(call, .done)])
    else ({ it with waiting := it.waiting ++ [call] }, [])

/-- `next()`, the call of that number; `reason` is the signal's, where it has aborted. -/
def next (reason : Option ρ) (call : Nat) : EventIterator α × List (Nat × Answer α ρ) :=
  match if it.aborted then reason else none with
  | some reason => (it, [(call, .rejected reason)])
  | none => it.nextKept call

/-- `return()`. -/
def ret : EventIterator α × List (Nat × Answer α ρ) :=
  ({ it with buffered := [] } : EventIterator α).cleanup.finishWaiting

end EventIterator

/-- What may happen to an iterator. -/
inductive IteratorStep (α ρ : Type)
  | deliver (payload : α)
  | next
  | ret
  | disconnect
  | abort (reason : ρ)
  deriving DecidableEq

/-- An iterator in use: its signal's reason once that has aborted, the calls made, what they
came to in the order they did, the values delivered while it listened, and whether what it
kept was discarded, by `return()` or its signal. -/
structure IteratorRun (α ρ : Type) where
  iterator : EventIterator α := {}
  signal : Option ρ := none
  calls : Nat := 0
  answers : List (Nat × Answer α ρ) := []
  arrived : List α := []
  discarded : Bool := false

namespace IteratorRun

variable (kind : IteratorKind)

/-- An iterator as `events()` gives it, its signal aborted or not. -/
def start : Option ρ → IteratorRun α ρ
  | none => {}
  | some reason =>
    { iterator := (({} : EventIterator α).abort reason).1, signal := some reason
      discarded := true }

def answered (s : IteratorRun α ρ) (r : EventIterator α × List (Nat × Answer α ρ)) :
    IteratorRun α ρ :=
  { s with iterator := r.1, answers := s.answers ++ r.2 }

def step (s : IteratorRun α ρ) : IteratorStep α ρ → IteratorRun α ρ
  | .deliver payload =>
    { s.answered (s.iterator.listener kind payload) with
      arrived := if s.iterator.ended then s.arrived else s.arrived ++ [payload] }
  | .next => { s.answered (s.iterator.next s.signal s.calls) with calls := s.calls + 1 }
  | .ret => { s.answered s.iterator.ret with discarded := true }
  | .disconnect => s.answered (s.iterator.onDisconnected kind)
  | .abort reason =>
    -- a signal aborts once
    match s.signal with
    | some _ => s
    | none =>
      { s.answered (s.iterator.abort reason) with
        signal := some reason
        discarded := s.discarded || !s.iterator.ended }

/-- The values given, in the order they were. -/
def values (s : IteratorRun α ρ) : List α := s.answers.filterMap (·.2.value?)

/-! ### What holds after every step -/

/-- The answers that are not values come last. -/
def Settled (s : IteratorRun α ρ) : Prop :=
  ∃ given rest, s.answers = given ++ rest ∧ (∀ a ∈ given, a.2.value?.isSome = true) ∧
    (∀ a ∈ rest, a.2.value? = none) ∧
    (rest ≠ [] → s.iterator.buffered = [] ∧ s.iterator.ended = true)

/-- The values given are those that arrived, in that order, but for the ones dropped, and the
rest is still kept. -/
def Kept (s : IteratorRun α ρ) : Prop :=
  ∃ taken, taken <+: s.arrived ∧ s.values.Sublist taken ∧
    taken.length = s.values.length + s.iterator.dropped ∧
    (s.discarded = false → s.arrived = taken ++ s.iterator.buffered)

structure Fifo (s : IteratorRun α ρ) : Prop where
  idle : s.iterator.buffered = [] ∨ s.iterator.waiting = []
  closed : s.iterator.ended = true → s.iterator.waiting = []
  cut : s.iterator.aborted = true → s.iterator.buffered = [] ∧ s.iterator.ended = true
  let_go : s.signal ≠ none → s.iterator.ended = true
  bare : s.discarded = true → s.iterator.buffered = [] ∧ s.iterator.ended = true
  order : s.answers.map Prod.fst ++ s.iterator.waiting = List.range s.calls
  room : kind.bounded = true → s.iterator.buffered.length ≤ maxPendingDeliveries
  unbounded : kind.bounded = false → s.iterator.dropped = 0
  kept : s.Kept
  settled : s.Settled

variable {kind} {s : IteratorRun α ρ}

theorem Fifo.start (kind : IteratorKind) (signal : Option ρ) :
    Fifo kind (start signal : IteratorRun α ρ) := by
  cases signal with
  | none =>
    exact
      { idle := Or.inl rfl, closed := fun _ => rfl, cut := nofun, let_go := fun h => absurd rfl h
        bare := nofun, order := rfl, room := fun _ => Nat.zero_le _, unbounded := fun _ => rfl
        kept := ⟨[], List.prefix_refl _, List.Sublist.refl _, rfl, fun _ => rfl⟩
        settled := ⟨[], [], rfl, nofun, nofun, fun h => absurd rfl h⟩ }
  | some reason =>
    exact
      { idle := Or.inl rfl, closed := fun _ => rfl, cut := fun _ => ⟨rfl, rfl⟩
        let_go := fun _ => rfl
        bare := fun _ => ⟨rfl, rfl⟩, order := rfl, room := fun _ => Nat.zero_le _
        unbounded := fun _ => rfl
        kept := ⟨[], List.prefix_refl _, List.Sublist.refl _, rfl, nofun⟩
        settled := ⟨[], [], rfl, nofun, nofun, fun h => absurd rfl h⟩ }

theorem values_answered (s : IteratorRun α ρ) (r : EventIterator α × List (Nat × Answer α ρ)) :
    (s.answered r).values = s.values ++ r.2.filterMap (·.2.value?) := List.filterMap_append

/-- Answers that are no values leave the values as they are. -/
theorem values_answered_of_none (s : IteratorRun α ρ) (it : EventIterator α) (calls : List Nat)
    {answer : Answer α ρ} (h : answer.value? = none) :
    (s.answered (it, calls.map fun call => (call, answer))).values = s.values := by
  have hnone : ∀ a ∈ calls.map fun call => (call, answer), a.2.value? = none := by
    intro a ha
    obtain ⟨call, -, rfl⟩ := List.mem_map.mp ha
    exact h
  rw [values_answered, List.filterMap_eq_nil_iff.mpr hnone, List.append_nil]

/-- A value is given out as long as nothing else was an answer. -/
theorem Settled.value (h : s.Settled) (hopen : s.iterator.buffered ≠ [] ∨ s.iterator.ended = false)
    (it : EventIterator α) (call : Nat) (v : α) :
    (s.answered (it, [(call, .value v)])).Settled := by
  obtain ⟨given, rest, hanswers, hgiven, -, hrest⟩ := h
  have hnil : rest = [] := by
    by_contra hne
    obtain ⟨hbuffered, hended⟩ := hrest hne
    rcases hopen with h | h
    · exact h hbuffered
    · exact Bool.false_ne_true (h.symm.trans hended)
  subst hnil
  rw [List.append_nil] at hanswers
  refine ⟨given ++ [(call, .value v)], [], ?_, ?_, nofun, fun h => absurd rfl h⟩
  · rw [List.append_nil, ← hanswers]
    rfl
  · intro a ha
    rcases List.mem_append.mp ha with ha | ha
    · exact hgiven a ha
    · rw [List.mem_singleton.mp ha]
      rfl

/-- After an answer that is no value nothing may be kept. -/
theorem Settled.append {s s' : IteratorRun α ρ} (h : s.Settled)
    (others : List (Nat × Answer α ρ)) (hothers : ∀ a ∈ others, a.2.value? = none)
    (hanswers : s'.answers = s.answers ++ others)
    (hover : others ≠ [] ∨ s.iterator.buffered = [] ∧ s.iterator.ended = true →
      s'.iterator.buffered = [] ∧ s'.iterator.ended = true) : s'.Settled := by
  obtain ⟨given, rest, hs, hgiven, hrest, hbare⟩ := h
  refine ⟨given, rest ++ others, ?_, hgiven, ?_, fun hne => ?_⟩
  · rw [hanswers, hs, List.append_assoc]
  · intro a ha
    rcases List.mem_append.mp ha with ha | ha
    · exact hrest a ha
    · exact hothers a ha
  · by_cases hnil : rest = []
    · subst hnil
      exact hover (Or.inl hne)
    · exact hover (Or.inr (hbare hnil))

/-- An end: the calls that wait are answered, and what was kept may be discarded. -/
theorem Fifo.finish (h : Fifo kind s) (it : EventIterator α) (answer : Answer α ρ)
    {signal : Option ρ} {discarded : Bool} (hanswer : answer.value? = none)
    (hwaiting : it.waiting = []) (hended : it.ended = true)
    (hdropped : it.dropped = s.iterator.dropped)
    (hbuffered : it.buffered = s.iterator.buffered ∧ discarded = s.discarded ∧
        it.aborted = s.iterator.aborted ∨
      it.buffered = [] ∧ discarded = true) :
    Fifo kind { s.answered (it, s.iterator.waiting.map fun waiter => (waiter, answer)) with
      signal, discarded } where
  idle := Or.inr hwaiting
  closed _ := hwaiting
  cut haborted := by
    rcases hbuffered with ⟨hsame, -, hstill⟩ | ⟨hnil, -⟩
    · exact ⟨hsame.trans (h.cut (hstill.symm.trans haborted)).1, hended⟩
    · exact ⟨hnil, hended⟩
  let_go _ := hended
  bare hdiscarded := by
    rcases hbuffered with ⟨hsame, rfl, -⟩ | ⟨hnil, -⟩
    · exact ⟨hsame.trans (h.bare hdiscarded).1, hended⟩
    · exact ⟨hnil, hended⟩
  order := by
    show (s.answers ++ s.iterator.waiting.map fun waiter => (waiter, answer)).map Prod.fst ++
      it.waiting = List.range s.calls
    rw [hwaiting, List.append_nil, List.map_append, List.map_map, ← h.order]
    exact congrArg _ (List.map_id _)
  room hbounded := by
    rcases hbuffered with ⟨hsame, -⟩ | ⟨hnil, -⟩
    · exact hsame ▸ h.room hbounded
    · exact hnil ▸ Nat.zero_le _
  unbounded hfree := hdropped.trans (h.unbounded hfree)
  kept := by
    have hvalues := values_answered_of_none s it s.iterator.waiting hanswer
    obtain ⟨taken, hprefix, hsublist, hlength, hall⟩ := h.kept
    refine ⟨taken, hprefix, ?_, ?_, fun hfalse => ?_⟩
    · show (s.answered _).values.Sublist taken
      rw [hvalues]
      exact hsublist
    · show taken.length = (s.answered _).values.length + it.dropped
      rw [hvalues, hdropped]
      exact hlength
    · rcases hbuffered with ⟨hsame, rfl, -⟩ | ⟨-, htrue⟩
      · show s.arrived = taken ++ it.buffered
        rw [hsame]
        exact hall hfalse
      · exact absurd (htrue.symm.trans hfalse) (by decide)
  settled := by
    refine h.settled.append _ (fun a ha => ?_) rfl fun hover => ⟨?_, hended⟩
    · obtain ⟨call, -, rfl⟩ := List.mem_map.mp ha
      exact hanswer
    · rcases hbuffered with ⟨hsame, -⟩ | ⟨hnil, -⟩
      · rcases hover with hne | ⟨hnil, -⟩
        · exact hsame.trans (h.idle.resolve_right fun hnone => hne (by rw [hnone]; rfl))
        · exact hsame.trans hnil
      · exact hnil

theorem Fifo.keeps (h : Fifo kind s) (hended : s.iterator.ended = false) : s.discarded = false := by
  cases hdiscarded : s.discarded with
  | false => rfl
  | true => exact absurd (hended.symm.trans (h.bare hdiscarded).2) (by decide)

/-- A value is kept, and of those before it the oldest `k` are dropped. -/
theorem Fifo.push (h : Fifo kind s) (hended : s.iterator.ended = false)
    (hwaiting : s.iterator.waiting = []) (payload : α) {k : Nat}
    (hk : k ≤ s.iterator.buffered.length)
    (hroom : kind.bounded = true → (s.iterator.buffered.drop k).length < maxPendingDeliveries)
    (hfree : kind.bounded = false → k = 0) :
    Fifo kind
      { s with
        iterator :=
          { s.iterator with
            buffered := s.iterator.buffered.drop k ++ [payload]
            dropped := s.iterator.dropped + k }
        arrived := s.arrived ++ [payload] } := by
  obtain ⟨taken, hprefix, hsublist, hlength, hall⟩ := h.kept
  have harrived := hall (h.keeps hended)
  exact
    { idle := Or.inr hwaiting
      closed := fun ht => absurd (hended.symm.trans ht) (by decide)
      cut := fun ha => absurd (hended.symm.trans (h.cut ha).2) (by decide)
      let_go := h.let_go
      bare := fun hd => absurd ((h.keeps hended).symm.trans hd) (by decide)
      order := h.order
      room := fun hbounded => by
        rw [List.length_append, List.length_singleton]
        exact hroom hbounded
      unbounded := fun hunbounded => by
        show s.iterator.dropped + k = 0
        rw [h.unbounded hunbounded, hfree hunbounded]
      kept := by
        refine ⟨taken ++ s.iterator.buffered.take k, ?_, ?_, ?_, fun _ => ?_⟩
        · show taken ++ s.iterator.buffered.take k <+: s.arrived ++ [payload]
          rw [harrived, List.append_assoc]
          exact (List.prefix_append_right_inj _).mpr
            ((List.take_prefix _ _).trans (List.prefix_append _ _))
        · exact hsublist.trans (List.sublist_append_left _ _)
        · show _ = s.values.length + (s.iterator.dropped + k)
          rw [List.length_append, List.length_take, Nat.min_eq_left hk, hlength, Nat.add_assoc]
        · show s.arrived ++ [payload] = taken ++ s.iterator.buffered.take k ++
            (s.iterator.buffered.drop k ++ [payload])
          rw [harrived, List.append_assoc, List.append_assoc,
            ← List.append_assoc (s.iterator.buffered.take k), List.take_append_drop]
      settled := by
        obtain ⟨given, rest, hanswers, hgiven, hrest, hbare⟩ := h.settled
        exact ⟨given, rest, hanswers, hgiven, hrest, fun hne =>
          absurd (hended.symm.trans (hbare hne).2) (by decide)⟩ }

theorem Fifo.deliver (h : Fifo kind s) (payload : α) :
    Fifo kind (step kind s (.deliver payload)) := by
  cases hended : s.iterator.ended with
  | true =>
    have hstep : step kind s (.deliver payload) = s := by
      have hnone : s.iterator.listener kind payload =
          (s.iterator, ([] : List (Nat × Answer α ρ))) :=
        if_pos hended
      rw [step, hnone, if_pos hended, answered, List.append_nil]
    rw [hstep]
    exact h
  | false =>
    obtain ⟨taken, hprefix, hsublist, hlength, hall⟩ := h.kept
    have harrived := hall (h.keeps hended)
    cases hwaiting : s.iterator.waiting with
    | cons waiter waiting =>
      have hbuffered : s.iterator.buffered = [] := h.idle.resolve_right (by rw [hwaiting]; nofun)
      have hlisten : s.iterator.listener kind payload =
          ({ s.iterator with waiting }, [(waiter, (.value payload : Answer α ρ))]) := by
        rw [EventIterator.listener, if_neg (by rw [hended]; nofun), hwaiting]
      rw [hbuffered, List.append_nil] at harrived
      rw [step, hlisten, if_neg (by rw [hended]; nofun)]
      refine { idle := Or.inl hbuffered
               closed := fun ht => absurd (hended.symm.trans ht) (by decide)
               cut := h.cut, let_go := h.let_go, bare := h.bare, order := ?_, room := h.room
               unbounded := h.unbounded, kept := ?_
               settled := h.settled.value (Or.inr hended) _ _ _ }
      · show (s.answers ++ [(waiter, _)]).map Prod.fst ++ waiting = List.range s.calls
        rw [List.map_append, List.append_assoc, ← h.order, hwaiting]
        rfl
      · refine ⟨taken ++ [payload], ?_, ?_, ?_, fun _ => ?_⟩
        · exact harrived ▸ List.prefix_refl _
        · show (s.answered _).values.Sublist _
          rw [values_answered]
          exact hsublist.append (List.Sublist.refl _)
        · show _ = (s.answered _).values.length + s.iterator.dropped
          rw [values_answered, List.length_append, List.length_append, hlength]
          show _ + 1 = _ + 1 + _
          omega
        · show s.arrived ++ [payload] = taken ++ [payload] ++ s.iterator.buffered
          rw [harrived, hbuffered, List.append_nil]
    | nil =>
      by_cases hfull : kind.bounded = true ∧ maxPendingDeliveries ≤ s.iterator.buffered.length
      · have hlisten : s.iterator.listener kind payload =
            ({ s.iterator with
                buffered := s.iterator.buffered.drop 1 ++ [payload]
                dropped := s.iterator.dropped + 1 }, ([] : List (Nat × Answer α ρ))) := by
          rw [EventIterator.listener, if_neg (by rw [hended]; nofun), hwaiting]
          simp only [if_pos hfull, hwaiting]
        have hroom : (s.iterator.buffered.drop 1).length < maxPendingDeliveries := by
          have hle := h.room hfull.1
          have hge := hfull.2
          rw [maxPendingDeliveries] at hle hge ⊢
          rw [List.length_drop]
          omega
        have hpush := h.push hended hwaiting payload (k := 1)
          (Nat.le_trans (by decide : 1 ≤ maxPendingDeliveries) hfull.2) (fun _ => hroom)
          (fun hfree => absurd (hfull.1.symm.trans hfree) (by decide))
        rw [step, hlisten, if_neg (by rw [hended]; nofun), answered, List.append_nil]
        exact hpush
      · have hlisten : s.iterator.listener kind payload =
            ({ s.iterator with buffered := s.iterator.buffered ++ [payload] },
              ([] : List (Nat × Answer α ρ))) := by
          rw [EventIterator.listener, if_neg (by rw [hended]; nofun), hwaiting]
          simp only [if_neg hfull, hwaiting]
        have hpush := h.push hended hwaiting payload (Nat.zero_le _)
          (fun hbounded => Nat.lt_of_not_le fun hle => hfull ⟨hbounded, hle⟩) (fun _ => rfl)
        rw [step, hlisten, if_neg (by rw [hended]; nofun), answered, List.append_nil]
        exact hpush

/-- A call that is answered at once, as no call waits, and not with a value. -/
theorem Fifo.settle (h : Fifo kind s) (hended : s.iterator.ended = true)
    (hbuffered : s.iterator.buffered = []) {answer : Answer α ρ} (hanswer : answer.value? = none) :
    Fifo kind { s.answered (s.iterator, [(s.calls, answer)]) with calls := s.calls + 1 } := by
  have hvalues := values_answered_of_none s s.iterator [s.calls] hanswer
  obtain ⟨taken, hprefix, hsublist, hlength, hall⟩ := h.kept
  have hwaiting := h.closed hended
  exact
    { idle := Or.inl hbuffered, closed := h.closed, cut := h.cut, let_go := h.let_go, bare := h.bare
      order := by
        have horder := h.order
        rw [hwaiting, List.append_nil] at horder
        show (s.answers ++ [(s.calls, answer)]).map Prod.fst ++ s.iterator.waiting =
          List.range (s.calls + 1)
        rw [hwaiting, List.append_nil, List.map_append, horder, List.range_succ]
        rfl
      room := h.room, unbounded := h.unbounded
      kept := by
        refine ⟨taken, hprefix, ?_, ?_, hall⟩
        · show (s.answered _).values.Sublist taken
          exact hvalues ▸ hsublist
        · show _ = (s.answered _).values.length + _
          exact hvalues ▸ hlength
      settled := h.settled.append [(s.calls, answer)]
        (fun a ha => by rw [List.mem_singleton.mp ha]; exact hanswer) rfl
        fun _ => ⟨hbuffered, hended⟩ }

/-- What `next()` does where the signal has not stopped the iterator. -/
theorem Fifo.nextKept (h : Fifo kind s) :
    Fifo kind { s.answered (s.iterator.nextKept s.calls) with calls := s.calls + 1 } := by
  rw [EventIterator.nextKept]
  split
  · next v buffered hbuffered =>
    have hwaiting : s.iterator.waiting = [] := h.idle.resolve_left (by rw [hbuffered]; nofun)
    obtain ⟨taken, hprefix, hsublist, hlength, hall⟩ := h.kept
    have hkeeps : s.discarded = false := by
      cases hdiscarded : s.discarded with
      | false => rfl
      | true => exact absurd (hbuffered.symm.trans (h.bare hdiscarded).1) (List.cons_ne_nil _ _)
    have harrived := hall hkeeps
    rw [hbuffered] at harrived
    refine
      { idle := Or.inr hwaiting, closed := h.closed
        cut := fun ha => absurd (hbuffered.symm.trans (h.cut ha).1) (List.cons_ne_nil _ _)
        let_go := h.let_go
        bare := fun hd => absurd (hkeeps.symm.trans hd) (by decide)
        order := ?_
        room := fun hbounded => ?_
        unbounded := h.unbounded
        kept := ⟨taken ++ [v], ?_, ?_, ?_, fun _ => ?_⟩
        settled := h.settled.value (Or.inl (by rw [hbuffered]; nofun)) _ _ _ }
    · have horder := h.order
      rw [hwaiting, List.append_nil] at horder
      show (s.answers ++ [(s.calls, _)]).map Prod.fst ++ s.iterator.waiting =
        List.range (s.calls + 1)
      rw [hwaiting, List.append_nil, List.map_append, horder, List.range_succ]
      rfl
    · have hroom := h.room hbounded
      rw [hbuffered] at hroom
      exact Nat.le_of_succ_le hroom
    · show taken ++ [v] <+: s.arrived
      rw [harrived]
      exact (List.prefix_append_right_inj taken).mpr (List.prefix_append [v] buffered)
    · show (s.answered _).values.Sublist _
      rw [values_answered]
      exact hsublist.append (List.Sublist.refl _)
    · show _ = (s.answered _).values.length + s.iterator.dropped
      rw [values_answered, List.length_append, List.length_append, hlength]
      show _ + 1 = _ + 1 + _
      omega
    · show s.arrived = taken ++ [v] ++ buffered
      rw [harrived, List.append_cons]
  · next hbuffered =>
    by_cases hended : s.iterator.ended = true
    · have hsame : s.iterator.cleanup = s.iterator := by
        rw [EventIterator.cleanup, ← hended]
      rw [if_pos hended, hsame]
      exact h.settle hended hbuffered rfl
    · rw [if_neg hended, answered, List.append_nil]
      exact
        { idle := Or.inl hbuffered
          closed := fun ht => absurd ht hended
          cut := h.cut, let_go := h.let_go, bare := h.bare
          order := by
            show s.answers.map Prod.fst ++ (s.iterator.waiting ++ [s.calls]) =
              List.range (s.calls + 1)
            rw [← List.append_assoc, h.order, List.range_succ]
          room := h.room, unbounded := h.unbounded, kept := h.kept, settled := h.settled }

theorem Fifo.next (h : Fifo kind s) : Fifo kind (step kind s .next) := by
  rw [step, EventIterator.next]
  split
  · next reason hreason =>
    have ha : s.iterator.aborted = true := by
      by_contra hne
      rw [if_neg hne] at hreason
      exact nomatch hreason
    exact h.settle (h.cut ha).2 (h.cut ha).1 rfl
  · exact h.nextKept

theorem Fifo.ret (h : Fifo kind s) : Fifo kind (step kind s .ret) :=
  h.finish { s.iterator with buffered := [], waiting := [], ended := true } .done
    rfl rfl rfl rfl (Or.inr ⟨rfl, rfl⟩)

theorem Fifo.disconnect (h : Fifo kind s) : Fifo kind (step kind s .disconnect) := by
  rw [step, EventIterator.onDisconnected]
  split
  · rw [answered, List.append_nil]
    exact h
  · exact h.finish { s.iterator with waiting := [], ended := true } .done
      rfl rfl rfl rfl (Or.inl ⟨rfl, rfl, rfl⟩)

theorem Fifo.abort (h : Fifo kind s) (reason : ρ) : Fifo kind (step kind s (.abort reason)) := by
  cases hsignal : s.signal with
  | some r =>
    have hstep : step kind s (.abort reason) = s := by rw [step, hsignal]
    rw [hstep]
    exact h
  | none =>
    rw [step, hsignal, EventIterator.abort]
    dsimp only
    by_cases hended : s.iterator.ended = true
    · have hdiscarded : (s.discarded || !s.iterator.ended) = s.discarded := by
        rw [hended, Bool.not_true, Bool.or_false]
      rw [if_pos hended, answered, List.append_nil, hdiscarded]
      exact
        { idle := h.idle, closed := h.closed, cut := h.cut, let_go := fun _ => hended
          bare := h.bare
          order := h.order, room := h.room, unbounded := h.unbounded, kept := h.kept
          settled := h.settled }
    · have hdiscarded : (s.discarded || !s.iterator.ended) = true := by
        rw [Bool.eq_false_iff.mpr hended, Bool.not_false, Bool.or_true]
      rw [if_neg hended, hdiscarded]
      exact h.finish { s.iterator with
        aborted := true, buffered := [], ended := true, waiting := [] } (.rejected reason)
        rfl rfl rfl rfl (Or.inr ⟨rfl, rfl⟩)

theorem Fifo.step (h : Fifo kind s) (e : IteratorStep α ρ) : Fifo kind (step kind s e) := by
  cases e with
  | deliver payload => exact h.deliver payload
  | next => exact h.next
  | ret => exact h.ret
  | disconnect => exact h.disconnect
  | abort reason => exact h.abort reason

theorem Fifo.run (h : Fifo kind s) (steps : List (IteratorStep α ρ)) :
    Fifo kind (run (IteratorRun.step kind) s steps) :=
  run_invariant (I := Fifo kind) (fun _ e hs => Fifo.step hs e) steps h

/-! ### Stopped by the signal -/

/-- The signal has stopped the iterator with that reason: every call but those answered before
is rejected. -/
structure Stopped (before : List (Nat × Answer α ρ)) (reason : ρ) (s : IteratorRun α ρ) : Prop where
  aborted : s.iterator.aborted = true
  signal : s.signal = some reason
  answers : s.answers = before ++
    ((List.range s.calls).drop before.length).map fun call => (call, .rejected reason)

variable {before : List (Nat × Answer α ρ)} {reason : ρ}

theorem Fifo.length_answers (h : Fifo kind s) :
    s.answers.length + s.iterator.waiting.length = s.calls := by
  have hlength := congrArg List.length h.order
  rwa [List.length_append, List.length_map, List.length_range] at hlength

/-- The calls that wait are those after the ones answered. -/
theorem Fifo.waiting_eq (h : Fifo kind s) :
    s.iterator.waiting = (List.range s.calls).drop s.answers.length := by
  rw [← h.order, ← List.length_map (f := Prod.fst), List.drop_left]

theorem Fifo.stopped (h : Fifo kind s) (hended : s.iterator.ended = false) (reason : ρ) :
    Stopped s.answers reason (IteratorRun.step kind s (.abort reason)) := by
  have hsignal : s.signal = none := by
    by_contra hne
    exact absurd (hended.symm.trans (h.let_go hne)) (by decide)
  have habort : s.iterator.abort reason =
      ({ s.iterator with aborted := true, buffered := [], ended := true, waiting := [] },
        s.iterator.waiting.map fun waiter => (waiter, .rejected reason)) :=
    if_neg (by rw [hended]; nofun)
  rw [IteratorRun.step, hsignal, habort]
  refine ⟨rfl, rfl, ?_⟩
  show s.answers ++ s.iterator.waiting.map (fun waiter => (waiter, .rejected reason)) =
    s.answers ++ ((List.range s.calls).drop s.answers.length).map fun call =>
      (call, .rejected reason)
  rw [h.waiting_eq]

theorem Stopped.step (hs : Stopped before reason s) (h : Fifo kind s)
    (hbefore : before.length ≤ s.calls) (e : IteratorStep α ρ) :
    Stopped before reason (IteratorRun.step kind s e) ∧
      before.length ≤ (IteratorRun.step kind s e).calls := by
  obtain ⟨hbuffered, hended⟩ := h.cut hs.aborted
  have hwaiting := h.closed hended
  cases e with
  | deliver payload =>
    have hlisten : s.iterator.listener kind payload =
        (s.iterator, ([] : List (Nat × Answer α ρ))) := if_pos hended
    rw [IteratorRun.step, hlisten, answered, List.append_nil]
    exact ⟨⟨hs.aborted, hs.signal, hs.answers⟩, hbefore⟩
  | next =>
    have hnext : s.iterator.next s.signal s.calls =
        (s.iterator, [(s.calls, (.rejected reason : Answer α ρ))]) := by
      rw [EventIterator.next, if_pos hs.aborted, hs.signal]
    rw [IteratorRun.step, hnext]
    refine ⟨⟨hs.aborted, hs.signal, ?_⟩, Nat.le_succ_of_le hbefore⟩
    show s.answers ++ [(s.calls, .rejected reason)] = before ++
      ((List.range (s.calls + 1)).drop before.length).map fun call => (call, .rejected reason)
    rw [hs.answers, List.range_succ, List.drop_append_of_le_length
      (by rw [List.length_range]; exact hbefore), List.map_append, List.append_assoc]
    rfl
  | ret =>
    have hsame : ({ s.iterator with buffered := [], waiting := [], ended := true } :
        EventIterator α) = s.iterator :=
      EventIterator.ext hbuffered.symm hwaiting.symm hended.symm rfl rfl
    have hret : s.iterator.ret = (s.iterator, ([] : List (Nat × Answer α ρ))) := by
      show ({ s.iterator with buffered := [], waiting := [], ended := true },
        s.iterator.waiting.map fun waiter => (waiter, Answer.done)) = _
      rw [hsame, hwaiting]
      rfl
    rw [IteratorRun.step, hret, answered, List.append_nil]
    exact ⟨⟨hs.aborted, hs.signal, hs.answers⟩, hbefore⟩
  | disconnect =>
    have hdisconnect : s.iterator.onDisconnected kind =
        (s.iterator, ([] : List (Nat × Answer α ρ))) := if_pos (Or.inl hended)
    rw [IteratorRun.step, hdisconnect, answered, List.append_nil]
    exact ⟨⟨hs.aborted, hs.signal, hs.answers⟩, hbefore⟩
  | abort other =>
    have hstep : IteratorRun.step kind s (.abort other) = s := by
      rw [IteratorRun.step, hs.signal]
    rw [hstep]
    exact ⟨hs, hbefore⟩

theorem Stopped.run (hs : Stopped before reason s) (h : Fifo kind s)
    (hbefore : before.length ≤ s.calls) (steps : List (IteratorStep α ρ)) :
    Stopped before reason (run (IteratorRun.step kind) s steps) :=
  (run_invariant (I := fun s => Fifo kind s ∧ Stopped before reason s ∧ before.length ≤ s.calls)
    (fun _ e hs => ⟨Fifo.step hs.1 e, Stopped.step hs.2.1 hs.1 hs.2.2 e⟩) steps
    ⟨h, hs, hbefore⟩).2.1

/-! ### What the callers see -/

theorem listener_keeps (kind : IteratorKind) (s : IteratorRun α ρ) (payload : α)
    (hended : s.iterator.ended = false) (hwaiting : s.iterator.waiting = []) :
    (IteratorRun.step kind s (.deliver payload)).iterator =
      if kind.bounded = true ∧ 256 ≤ s.iterator.buffered.length then
        { s.iterator with
          buffered := s.iterator.buffered.drop 1 ++ [payload]
          dropped := s.iterator.dropped + 1 }
      else { s.iterator with buffered := s.iterator.buffered ++ [payload] } := by
  show (s.iterator.listener kind payload : EventIterator α × List (Nat × Answer α ρ)).1 = _
  rw [EventIterator.listener, if_neg (by rw [hended]; nofun), hwaiting]
  dsimp only
  rw [maxPendingDeliveries, apply_ite Prod.fst]
  simp only [hwaiting]

/-- What the callers of an iterator in use are promised. -/
structure Serves (kind : IteratorKind) (s : IteratorRun α ρ) : Prop where
  /-- The calls are answered in the order they were made, each once. -/
  order : s.answers.map Prod.fst ++ s.iterator.waiting = List.range s.calls
  /-- The values given are those that arrived, in order and each once, but for the ones dropped;
  until it is discarded, the rest is kept. -/
  kept : ∃ taken, taken <+: s.arrived ∧ s.values.Sublist taken ∧
    taken.length = s.values.length + s.iterator.dropped ∧
    (s.discarded = false → s.arrived = taken ++ s.iterator.buffered)
  unbounded : kind.bounded = false → s.iterator.dropped = 0
  room : kind.bounded = true → s.iterator.buffered.length ≤ 256
  /-- No call waits while a value is kept, nor after the end. -/
  waits : s.iterator.waiting ≠ [] → s.iterator.buffered = [] ∧ s.iterator.ended = false
  /-- A value that arrives is the oldest waiting call's. -/
  hands : ∀ payload waiter waiting, s.iterator.waiting = waiter :: waiting →
    (IteratorRun.step kind s (.deliver payload)).answers =
      s.answers ++ [(waiter, .value payload)]
  /-- Where no call waits it is kept, and takes the oldest one's place where there is no room. -/
  keeps : ∀ payload, s.iterator.ended = false → s.iterator.waiting = [] →
    (IteratorRun.step kind s (.deliver payload)).iterator =
      if kind.bounded = true ∧ 256 ≤ s.iterator.buffered.length then
        { s.iterator with
          buffered := s.iterator.buffered.drop 1 ++ [payload]
          dropped := s.iterator.dropped + 1 }
      else { s.iterator with buffered := s.iterator.buffered ++ [payload] }
  /-- A call gets the oldest value kept, after a disconnect too. -/
  gives : ∀ v buffered, s.iterator.buffered = v :: buffered →
    (IteratorRun.step kind s .next).answers = s.answers ++ [(s.calls, .value v)]
  /-- Then, after the end, it is done. -/
  ends : s.iterator.ended = true → s.iterator.aborted = false → s.iterator.buffered = [] →
    (IteratorRun.step kind s .next).answers = s.answers ++ [(s.calls, .done)]
  /-- No value is given after an answer that is none. -/
  settled : ∃ given rest, s.answers = given ++ rest ∧ (∀ a ∈ given, a.2.value?.isSome = true) ∧
    (∀ a ∈ rest, a.2.value? = none) ∧
    (rest ≠ [] → s.iterator.buffered = [] ∧ s.iterator.ended = true)
  /-- A disconnect ends it and keeps what is kept. -/
  disconnect : s.iterator.ended = false → kind.endsOnDisconnect = true →
    IteratorRun.step kind s .disconnect =
      { s with
        iterator := { s.iterator with waiting := [], ended := true }
        answers := s.answers ++ s.iterator.waiting.map fun waiter => (waiter, .done) }
  /-- `return()` ends it and discards what is kept. -/
  returns : (IteratorRun.step kind s .ret).iterator =
      { s.iterator with buffered := [], waiting := [], ended := true } ∧
    (IteratorRun.step kind s .ret).answers =
      s.answers ++ s.iterator.waiting.map fun waiter => (waiter, .done)
  /-- An abort after the end changes nothing. -/
  let_go : s.iterator.ended = true → ∀ reason,
    (IteratorRun.step kind s (.abort reason)).iterator = s.iterator ∧
      (IteratorRun.step kind s (.abort reason)).answers = s.answers

theorem Fifo.gives (h : Fifo kind s) {v : α} {buffered : List α}
    (hbuffered : s.iterator.buffered = v :: buffered) :
    (IteratorRun.step kind s .next).answers = s.answers ++ [(s.calls, .value v)] := by
  have haborted : s.iterator.aborted = false := by
    rw [← Bool.not_eq_true]
    intro haborted
    exact absurd (hbuffered.symm.trans (h.cut haborted).1) (List.cons_ne_nil _ _)
  have hnext : s.iterator.next s.signal s.calls =
      ({ s.iterator with buffered }, [(s.calls, (.value v : Answer α ρ))]) := by
    rw [EventIterator.next, if_neg (by rw [haborted]; nofun)]
    dsimp only
    rw [EventIterator.nextKept, hbuffered]
  rw [IteratorRun.step, hnext]
  rfl

theorem done_of_ended (kind : IteratorKind) (hended : s.iterator.ended = true)
    (haborted : s.iterator.aborted = false) (hbuffered : s.iterator.buffered = []) :
    (IteratorRun.step kind s .next).answers = s.answers ++ [(s.calls, .done)] := by
  have hnext : s.iterator.next s.signal s.calls =
      (s.iterator.cleanup, [(s.calls, (.done : Answer α ρ))]) := by
    rw [EventIterator.next, if_neg (by rw [haborted]; nofun)]
    dsimp only
    rw [EventIterator.nextKept, hbuffered]
    exact if_pos hended
  rw [IteratorRun.step, hnext]
  rfl

theorem Fifo.hands (h : Fifo kind s) (payload : α) {waiter : Nat} {waiting : List Nat}
    (hwaiting : s.iterator.waiting = waiter :: waiting) :
    (IteratorRun.step kind s (.deliver payload)).answers =
      s.answers ++ [(waiter, .value payload)] := by
  have hended : s.iterator.ended ≠ true := fun hended =>
    absurd (hwaiting.symm.trans (h.closed hended)) (List.cons_ne_nil _ _)
  have hlisten : s.iterator.listener kind payload =
      ({ s.iterator with waiting }, [(waiter, (.value payload : Answer α ρ))]) := by
    rw [EventIterator.listener, if_neg hended, hwaiting]
  rw [IteratorRun.step, hlisten]
  rfl

theorem abort_of_ended (kind : IteratorKind) (hended : s.iterator.ended = true) (reason : ρ) :
    (IteratorRun.step kind s (.abort reason)).iterator = s.iterator ∧
      (IteratorRun.step kind s (.abort reason)).answers = s.answers := by
  have habort : s.iterator.abort reason = (s.iterator, []) := if_pos hended
  rw [IteratorRun.step]
  split
  · exact ⟨rfl, rfl⟩
  · rw [habort]
    exact ⟨rfl, List.append_nil _⟩

theorem Fifo.serves (h : Fifo kind s) : Serves kind s where
  order := h.order
  kept := h.kept
  unbounded := h.unbounded
  room := h.room
  waits hwaiting :=
    ⟨h.idle.resolve_right hwaiting, Bool.eq_false_iff.mpr fun hended => hwaiting (h.closed hended)⟩
  hands payload _ _ hwaiting := h.hands payload hwaiting
  keeps payload := listener_keeps kind s payload
  gives _ _ hbuffered := h.gives hbuffered
  ends := done_of_ended kind
  settled := h.settled
  disconnect hended hkind := by
    have hlistens : ¬(s.iterator.ended = true ∨ kind.endsOnDisconnect = false) := by
      rw [hended, hkind]
      decide
    rw [IteratorRun.step, EventIterator.onDisconnected, if_neg hlistens]
    rfl
  returns := ⟨rfl, rfl⟩
  let_go hended := abort_of_ended kind hended

/-- **In every run** the callers are served as promised; and once the signal stops an iterator
that has not ended, every call that waits and every later one is rejected with its reason. -/
theorem events_inOrder (kind : IteratorKind) (signal : Option ρ)
    (steps : List (IteratorStep α ρ)) :
    let s : IteratorRun α ρ := run (IteratorRun.step kind) (start signal) steps
    Serves kind s ∧
    (∀ before reason after, steps = before ++ .abort reason :: after →
      (run (IteratorRun.step kind) (start signal) before).iterator.ended = false →
      s.answers = (run (IteratorRun.step kind) (start signal) before).answers ++
        ((List.range s.calls).drop (run (IteratorRun.step kind) (start signal)
          before).answers.length).map fun call => (call, .rejected reason)) ∧
    (∀ reason, signal = some reason →
      s.answers = (List.range s.calls).map fun call => (call, .rejected reason)) := by
  have hfifo := (Fifo.start kind signal : Fifo kind (start signal : IteratorRun α ρ)).run
  refine ⟨(hfifo steps).serves, ?_, ?_⟩
  · rintro before reason after rfl hended
    have hbefore := hfifo before
    have hstopped := hbefore.stopped hended reason
    have hcalls : (run (IteratorRun.step kind) (start signal) before).answers.length ≤
        (IteratorRun.step kind (run (IteratorRun.step kind) (start signal) before)
          (.abort reason)).calls := by
      have hlength := (hbefore.abort reason).length_answers
      have hmore := congrArg List.length hstopped.answers
      rw [List.length_append] at hmore
      omega
    rw [run_append, run_cons]
    exact (hstopped.run (hbefore.abort reason) hcalls after).answers
  · rintro reason rfl
    have hstopped : Stopped [] reason (start (some reason) : IteratorRun α ρ) := ⟨rfl, rfl, rfl⟩
    exact (hstopped.run (Fifo.start kind _) (Nat.zero_le _) steps).answers

/-- Two calls wait when the signal stops the iterator. -/
theorem events_inOrder_abort :
    (run (IteratorRun.step (clientEvents .other)) (start none : IteratorRun Nat Nat)
      [.next, .next, .abort 7, .next]).answers =
      [(0, .rejected 7), (1, .rejected 7), (2, .rejected 7)] :=
  ((events_inOrder (clientEvents .other) none
    [IteratorStep.next, .next, .abort 7, .next]).2.1 [.next, .next] 7 [.next] rfl
    (by decide)).trans (by decide)

/-- A disconnect lets go of the signal: a value kept from before is given after the abort, and
then the end.  And `return()` discards what is kept. -/
theorem events_afterEnd :
    (run (IteratorRun.step (clientEvents .other)) (start none : IteratorRun Nat Nat)
      [.deliver 5, .disconnect, .abort 7, .next, .next]).answers = [(0, .value 5), (1, .done)] ∧
    (run (IteratorRun.step (clientEvents .other)) (start none : IteratorRun Nat Nat)
      [.deliver 5, .ret, .next]).answers = [(0, .done)] ∧
    ¬∀ (kind : IteratorKind) (before after : List (IteratorStep Nat Nat)) (reason : Nat),
      ∀ a ∈ (run (IteratorRun.step kind) (start none : IteratorRun Nat Nat)
        (before ++ .abort reason :: after)).answers.drop
          (run (IteratorRun.step kind) (start none : IteratorRun Nat Nat) before).answers.length,
        a.2 = .rejected reason := by
  refine ⟨by decide, by decide, fun h => ?_⟩
  have hanswer := h (clientEvents .other) [.deliver 5, .disconnect] [.next] 7 (0, .value 5)
    (by decide)
  exact absurd hanswer (by decide)

end IteratorRun

end Teamspeak.Client
