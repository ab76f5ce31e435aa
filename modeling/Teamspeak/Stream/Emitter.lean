import Mathlib.Data.List.Nodup
import Mathlib.Data.List.Perm.Basic
import Mathlib.Logic.Function.Basic
import Teamspeak.Lib.Run

/-!
# The emitter

`emitter.ts`, with listeners that may call it while they run.  What is in progress is a stack: a
call of a listener that is still to be made, or one that is running and may call `on`, `emit` or
an unsubscribe function before it returns or throws.

* `Ledger`: what each subscription is due, said over the calls alone.
* `Sound`: the emitter and its stack owe what the ledger says.
* `emitter_law`: each subscription gets what it is due, once, and in order but for what a listener
  emits in between.
-/

namespace Teamspeak.Emitters

variable {ε φ π : Type*} [DecidableEq ε]

/-- How many events are kept for a first listener, per event. -/
def maxKept : Nat := 256

/-- A call of `emit`.  Its number, and which deliveries were still to be made then, as the numbers
of the subscription and the emission, are no state of the code. -/
structure Emission (ε π : Type*) where
  number : Nat
  event : ε
  payload : π
  waiting : List (Nat × Nat)

/-- A call of `on`.  Its number is no state of the code, which has the function only. -/
structure Subscription (ε φ : Type*) where
  number : Nat
  event : ε
  listener : φ

/-- A listener, and what it is called with. -/
structure Delivery (ε φ π : Type*) where
  subscription : Subscription ε φ
  emission : Emission ε π

structure Emitter (ε φ π : Type*) where
  listeners : ε → List (Subscription ε φ)
  kept : ε → List (Emission ε π)
  keep : ε → Bool
  /-- What `onDrop` was told.  What it does then, as a stream's report of an overflow, is left
  out. -/
  dropped : List ε

namespace Emitter

def new (keep : ε → Bool) : Emitter ε φ π := ⟨fun _ => [], fun _ => [], keep, []⟩

/-- `on`: the subscription, and the calls of the listener with what was kept. -/
def on (m : Emitter ε φ π) (s : Subscription ε φ) : Emitter ε φ π × List (Delivery ε φ π) :=
  let before := m.listeners s.event
  let listeners := Function.update m.listeners s.event (before ++ [s])
  if before.length = 0 then
    ({ m with listeners, kept := Function.update m.kept s.event [] },
      (m.kept s.event).map (⟨s, ·⟩))
  else ({ m with listeners }, [])

/-- The function that `on` returned: it takes out every one of the listeners that is the same. -/
def unsubscribe [DecidableEq φ] (m : Emitter ε φ π) (s : Subscription ε φ) : Emitter ε φ π :=
  { m with
    listeners := Function.update m.listeners s.event
      ((m.listeners s.event).filter fun l => l.listener ≠ s.listener) }

/-- `emit`: what is kept, or the calls of the listeners there are.  `onDrop` is only noted. -/
def emit (m : Emitter ε φ π) (x : Emission ε π) : Emitter ε φ π × List (Delivery ε φ π) :=
  let list := m.listeners x.event
  if list.length = 0 then
    if m.keep x.event then
      let kept := m.kept x.event ++ [x]
      if kept.length > maxKept then
        ({ m with
            kept := Function.update m.kept x.event kept.tail
            dropped := m.dropped ++ [x.event] }, [])
      else ({ m with kept := Function.update m.kept x.event kept }, [])
    else (m, [])
  else (m, list.map (⟨·, x⟩))

end Emitter

/-! ### What is in progress -/

/-- A call of a listener: still to be made, or running. -/
inductive Op (ε φ π : Type*)
  | deliver (d : Delivery ε φ π)
  | running (d : Delivery ε φ π)

/-- A call of the emitter. -/
inductive Call (ε φ π : Type*)
  | on (s : Subscription ε φ)
  | emit (x : Emission ε π)
  | unsubscribe (s : Subscription ε φ)

/-- The emitter, what is in progress, the next first, and what has happened. -/
structure Machine (ε φ π : Type*) where
  emitter : Emitter ε φ π
  stack : List (Op ε φ π) := []
  subscriptions : List (Subscription ε φ) := []
  emitted : Nat := 0
  calls : List (Call ε φ π) := []
  received : List (Delivery ε φ π) := []
  /-- The listeners' calls that threw, each of which a microtask throws again. -/
  uncaught : List (Delivery ε φ π) := []

/-- What happens next: a call from outside or from the listener that runs, the next call of a
listener or the return of the one that runs, or its throwing.  Where the code has not returned an
unsubscribe function yet, while what was kept is delivered, it may be called here all the same. -/
inductive Turn (ε φ π : Type*)
  | on (event : ε) (listener : φ)
  | emit (event : ε) (payload : π)
  | unsubscribe (n : Nat)
  | go
  | throws

/-- Whether a call can come: from outside, or from a listener that runs. -/
def free : List (Op ε φ π) → Bool
  | [] => true
  | .running _ :: _ => true
  | .deliver _ :: _ => false

/-- The emission of a delivery to a subscription, by its number. -/
def Delivery.of (n : Nat) (d : Delivery ε φ π) : Option (Emission ε π) :=
  if d.subscription.number = n then some d.emission else none

def Op.of (n : Nat) : Op ε φ π → Option (Emission ε π)
  | .deliver d => d.of n
  | .running _ => none

def Op.waits : Op ε φ π → Option (Nat × Nat)
  | .deliver d => some (d.subscription.number, d.emission.number)
  | .running _ => none

namespace Machine

def new (keep : ε → Bool) : Machine ε φ π := { emitter := .new keep }

/-- What a subscription has received, in order. -/
def receivedBy (c : Machine ε φ π) (n : Nat) : List (Emission ε π) :=
  c.received.filterMap (Delivery.of n)

/-- What a subscription is still to receive of what is in progress, in order. -/
def pendingFor (c : Machine ε φ π) (n : Nat) : List (Emission ε π) := c.stack.filterMap (Op.of n)

def step [DecidableEq φ] (c : Machine ε φ π) : Turn ε φ π → Machine ε φ π
  | .on event listener =>
    if free c.stack then
      let s : Subscription ε φ := ⟨c.subscriptions.length, event, listener⟩
      { c with
        emitter := (c.emitter.on s).1
        stack := (c.emitter.on s).2.map .deliver ++ c.stack
        subscriptions := c.subscriptions ++ [s]
        calls := c.calls ++ [.on s] }
    else c
  | .emit event payload =>
    if free c.stack then
      let x : Emission ε π := ⟨c.emitted, event, payload, c.stack.filterMap Op.waits⟩
      { c with
        emitter := (c.emitter.emit x).1
        stack := (c.emitter.emit x).2.map .deliver ++ c.stack
        emitted := c.emitted + 1
        calls := c.calls ++ [.emit x] }
    else c
  | .unsubscribe n =>
    match c.subscriptions[n]? with
    | some s =>
      if free c.stack then
        { c with emitter := c.emitter.unsubscribe s, calls := c.calls ++ [.unsubscribe s] }
      else c
    | none => c
  | .go =>
    match c.stack with
    | [] => c
    | .deliver d :: rest => { c with stack := .running d :: rest, received := c.received ++ [d] }
    | .running _ :: rest => { c with stack := rest }
  | .throws =>
    match c.stack with
    | .running d :: rest => { c with stack := rest, uncaught := c.uncaught ++ [d] }
    | _ => c

end Machine

/-! ### What is due -/

/-- The newest events of those that nobody heard. -/
def newest (l : List (Emission ε π)) : List (Emission ε π) := l.drop (l.length - maxKept)

/-- The subscriptions there are, what was emitted of each event since nobody has listened to it,
and what each subscription is due, in the order of emission. -/
structure Ledger (ε φ π : Type*) where
  live : List (Subscription ε φ)
  unheard : ε → List (Emission ε π)
  due : Nat → List (Emission ε π)

namespace Ledger

def new : Ledger ε φ π := ⟨[], fun _ => [], fun _ => []⟩

/-- A first subscription is due the newest of what was kept; what is emitted is due to all there
are; and unsubscribing ends the one subscription. -/
def after (keep : ε → Bool) (L : Ledger ε φ π) : Call ε φ π → Ledger ε φ π
  | .on s =>
    { live := L.live ++ [s]
      unheard := Function.update L.unheard s.event []
      due := Function.update L.due s.number
        (if (∀ other ∈ L.live, other.event ≠ s.event) ∧ keep s.event then
          newest (L.unheard s.event) else []) }
  | .emit x =>
    { L with
      unheard :=
        if ∃ s ∈ L.live, s.event = x.event then L.unheard
        else Function.update L.unheard x.event (L.unheard x.event ++ [x])
      due := fun n =>
        if ∃ s ∈ L.live, s.number = n ∧ s.event = x.event then L.due n ++ [x] else L.due n }
  | .unsubscribe s => { L with live := L.live.filter fun other => other.number ≠ s.number }

/-- After a list of calls. -/
def of (keep : ε → Bool) (calls : List (Call ε φ π)) : Ledger ε φ π :=
  calls.foldl (after keep) new

theorem of_concat (keep : ε → Bool) (calls : List (Call ε φ π)) (k : Call ε φ π) :
    of keep (calls ++ [k]) = (of keep calls).after keep k := by
  rw [of, List.foldl_append]
  rfl

end Ledger

/-! ### What is owed -/

/-- A later emission comes before an earlier one only where the earlier one was still to be
delivered when it was made. -/
def InOrder (n : Nat) (x y : Emission ε π) : Prop :=
  x.number < y.number ∨ (n, y.number) ∈ x.waiting

/-- **The emitter and what is in progress owe what the ledger says.** -/
structure Sound (c : Machine ε φ π) (L : Ledger ε φ π) : Prop where
  listeners : ∀ e, c.emitter.listeners e = L.live.filter fun s => s.event = e
  kept : ∀ e, c.emitter.kept e = if c.emitter.keep e then newest (L.unheard e) else []
  handles : ∀ s ∈ L.live, c.subscriptions[s.number]? = some s
  numbers : ∀ n (s : Subscription ε φ), c.subscriptions[n]? = some s → s.number = n
  heard : ∀ s ∈ L.live, L.unheard s.event = []
  distinct : (L.live.map fun (s : Subscription ε φ) => s.number).Nodup
  line : ∀ n, (c.receivedBy n ++ c.pendingFor n).Perm (L.due n)
  fresh : ∀ n, c.subscriptions.length ≤ n → L.due n = []
  due_lt : ∀ n, ∀ x ∈ L.due n, x.number < c.emitted
  due_sorted : ∀ n, (L.due n).Pairwise fun x y => x.number < y.number
  unheard_lt : ∀ e, ∀ x ∈ L.unheard e, x.number < c.emitted
  unheard_sorted : ∀ e, (L.unheard e).Pairwise fun x y => x.number < y.number
  order : ∀ n, (c.receivedBy n ++ c.pendingFor n).Pairwise (InOrder n)

theorem sound_new (keep : ε → Bool) : Sound (.new keep : Machine ε φ π) .new where
  listeners _ := rfl
  kept e := by
    show [] = if keep e then newest [] else []
    simp [newest]
  handles _ h := absurd h List.not_mem_nil
  numbers _ _ h := absurd h (by simp [Machine.new])
  heard _ h := absurd h List.not_mem_nil
  distinct := List.nodup_nil
  line _ := .nil
  fresh _ _ := rfl
  due_lt _ _ h := absurd h List.not_mem_nil
  due_sorted _ := .nil
  unheard_lt _ _ h := absurd h List.not_mem_nil
  unheard_sorted _ := .nil
  order _ := .nil

/-! ### One call -/

omit [DecidableEq ε] in
theorem newest_concat (l : List (Emission ε π)) (x : Emission ε π) :
    newest (l ++ [x]) =
      if (newest l ++ [x]).length > maxKept then (newest l ++ [x]).tail else newest l ++ [x] := by
  have hpos : 0 < maxKept := by decide
  unfold newest
  generalize maxKept = k at hpos ⊢
  rw [List.length_append, List.length_append, List.length_singleton, List.length_drop]
  split_ifs with hfull
  · have hne : l.drop (l.length - k) ≠ [] := by
      rw [ne_eq, List.drop_eq_nil_iff]
      omega
    have hnext : l.length + 1 - k = l.length - k + 1 := by omega
    rw [List.tail_append_of_ne_nil hne, List.tail_drop,
      List.drop_append_of_le_length (by omega), hnext]
  · have hle : l.length + 1 - k = l.length - k := by omega
    rw [hle, List.drop_append_of_le_length (Nat.sub_le _ _)]

omit [DecidableEq ε] in
theorem mem_of_mem_newest {l : List (Emission ε π)} {x : Emission ε π} (h : x ∈ newest l) :
    x ∈ l := List.mem_of_mem_drop h

variable {m : Emitter ε φ π}

theorem Emitter.on_deliveries (s : Subscription ε φ) :
    (m.on s).2 = (if m.listeners s.event = [] then m.kept s.event else []).map (⟨s, ·⟩) := by
  rw [Emitter.on]
  by_cases h : m.listeners s.event = []
  · rw [if_pos (List.length_eq_zero_iff.mpr h), if_pos h]
  · rw [if_neg (List.length_eq_zero_iff.not.mpr h), if_neg h]
    rfl

theorem Emitter.on_listeners (s : Subscription ε φ) :
    (m.on s).1.listeners =
      Function.update m.listeners s.event (m.listeners s.event ++ [s]) := by
  rw [Emitter.on]
  split <;> rfl

theorem Emitter.on_kept (s : Subscription ε φ) :
    (m.on s).1.kept =
      if m.listeners s.event = [] then Function.update m.kept s.event [] else m.kept := by
  rw [Emitter.on]
  by_cases h : m.listeners s.event = []
  · rw [if_pos (List.length_eq_zero_iff.mpr h), if_pos h]
  · rw [if_neg (List.length_eq_zero_iff.not.mpr h), if_neg h]

theorem Emitter.on_keep (s : Subscription ε φ) : (m.on s).1.keep = m.keep := by
  rw [Emitter.on]
  split <;> rfl

theorem Emitter.emit_deliveries (x : Emission ε π) :
    (m.emit x).2 = (m.listeners x.event).map (⟨·, x⟩) := by
  rw [Emitter.emit]
  by_cases h : m.listeners x.event = []
  · rw [if_pos (List.length_eq_zero_iff.mpr h), h]
    dsimp only
    split_ifs <;> rfl
  · rw [if_neg (List.length_eq_zero_iff.not.mpr h)]

theorem Emitter.emit_listeners (x : Emission ε π) : (m.emit x).1.listeners = m.listeners := by
  rw [Emitter.emit]
  dsimp only
  split_ifs <;> rfl

theorem Emitter.emit_keep (x : Emission ε π) : (m.emit x).1.keep = m.keep := by
  rw [Emitter.emit]
  dsimp only
  split_ifs <;> rfl

/-- What is kept is the newest of what nobody heard. -/
theorem Emitter.emit_kept {x : Emission ε π} {unheard : List (Emission ε π)}
    (h : m.kept x.event = if m.keep x.event then newest unheard else []) :
    (m.emit x).1.kept =
      if m.listeners x.event = [] then
        Function.update m.kept x.event (if m.keep x.event then newest (unheard ++ [x]) else [])
      else m.kept := by
  rw [Emitter.emit]
  by_cases hnone : m.listeners x.event = []
  · rw [if_pos (List.length_eq_zero_iff.mpr hnone), if_pos hnone]
    by_cases hkeep : m.keep x.event = true
    · rw [if_pos hkeep] at h
      rw [if_pos hkeep, if_pos hkeep, newest_concat, ← h]
      dsimp only
      split_ifs <;> rfl
    · rw [if_neg hkeep] at h
      rw [if_neg hkeep, if_neg hkeep, ← h, Function.update_eq_self]
  · rw [if_neg (List.length_eq_zero_iff.not.mpr hnone), if_neg hnone]

/-! ### What is in progress -/

omit [DecidableEq ε] in
theorem of_deliveries (n : Nat) (l : List (Delivery ε φ π)) :
    (l.map Op.deliver).filterMap (Op.of n) = l.filterMap (Delivery.of n) := by
  rw [List.filterMap_map]
  rfl

omit [DecidableEq ε] in
theorem of_kept (n : Nat) (s : Subscription ε φ) (l : List (Emission ε π)) :
    (l.map (⟨s, ·⟩ : Emission ε π → Delivery ε φ π)).filterMap (Delivery.of n) =
      if s.number = n then l else [] := by
  rw [List.filterMap_map]
  by_cases h : s.number = n
  · rw [if_pos h]
    refine (List.filterMap_congr fun x _ => ?_).trans (List.filterMap_some)
    exact if_pos h
  · rw [if_neg h, List.filterMap_eq_nil_iff]
    exact fun x _ => if_neg h

omit [DecidableEq ε] in
/-- An emission is delivered once to a subscription that is among the listeners. -/
theorem of_emission (n : Nat) (x : Emission ε π) {l : List (Subscription ε φ)}
    (h : (l.map fun s => s.number).Nodup) :
    (l.map (⟨·, x⟩ : Subscription ε φ → Delivery ε φ π)).filterMap (Delivery.of n) =
      if ∃ s ∈ l, s.number = n then [x] else [] := by
  induction l with
  | nil => simp
  | cons s l ih =>
    rw [List.map_cons, List.nodup_cons] at h
    rw [List.map_cons, List.filterMap_cons, Delivery.of]
    by_cases hs : s.number = n
    · have hnone : ¬ ∃ s ∈ l, s.number = n := by
        rintro ⟨s', hs', hn⟩
        exact h.1 (List.mem_map.mpr ⟨s', hs', hn.trans hs.symm⟩)
      simp [hs, ih h.2, hnone]
    · simp [hs, ih h.2]

omit [DecidableEq ε] in
theorem waits_of_pending {stack : List (Op ε φ π)} {n : Nat} {y : Emission ε π}
    (h : y ∈ stack.filterMap (Op.of n)) : (n, y.number) ∈ stack.filterMap Op.waits := by
  obtain ⟨op, hop, hy⟩ := List.mem_filterMap.mp h
  refine List.mem_filterMap.mpr ⟨op, hop, ?_⟩
  cases op with
  | deliver d =>
    rw [Op.of, Delivery.of] at hy
    split_ifs at hy with hn
    rw [Op.waits, hn, Option.some.inj hy]
  | running d => cases hy

/-! ### Every turn -/

namespace Sound

variable {c : Machine ε φ π} {L : Ledger ε φ π}

theorem eq_of_number (h : Sound c L) {s s' : Subscription ε φ} (hs : s ∈ L.live)
    (hs' : c.subscriptions[s'.number]? = some s') (hn : s.number = s'.number) : s = s' :=
  Option.some.inj ((h.handles s hs).symm.trans (hn ▸ hs'))

/-- Nobody listens to an event exactly if there is no subscription of it. -/
theorem listeners_nil_iff (h : Sound c L) {e : ε} :
    c.emitter.listeners e = [] ↔ ∀ s ∈ L.live, s.event ≠ e := by
  rw [h.listeners, List.filter_eq_nil_iff]
  simp

/-- What is delivered at once to a new subscription is what it is due. -/
theorem due_of_on (h : Sound c L) (e : ε) :
    (if c.emitter.listeners e = [] then c.emitter.kept e else []) =
      if (∀ other ∈ L.live, other.event ≠ e) ∧ c.emitter.keep e then newest (L.unheard e)
      else [] := by
  rw [h.kept e]
  by_cases hnone : c.emitter.listeners e = []
  · rw [if_pos hnone]
    by_cases hkeep : c.emitter.keep e = true
    · rw [if_pos hkeep, if_pos ⟨h.listeners_nil_iff.mp hnone, hkeep⟩]
    · rw [if_neg hkeep, if_neg fun hand => hkeep hand.2]
  · rw [if_neg hnone, if_neg fun hand => hnone (h.listeners_nil_iff.mpr hand.1)]

/-- A number that is not given out yet stands for nothing. -/
theorem line_of_fresh (h : Sound c L) {n : Nat} (hn : c.subscriptions.length ≤ n) :
    c.receivedBy n = [] ∧ c.pendingFor n = [] :=
  List.append_eq_nil_iff.mp (List.Perm.eq_nil (h.fresh n hn ▸ h.line n))

theorem number_lt (h : Sound c L) {s : Subscription ε φ} (hs : s ∈ L.live) :
    s.number < c.subscriptions.length :=
  (List.getElem?_eq_some_iff.mp (h.handles s hs)).1

theorem on (h : Sound c L) {s : Subscription ε φ} (hs : s.number = c.subscriptions.length) :
    Sound
      { c with
        emitter := (c.emitter.on s).1
        stack := (c.emitter.on s).2.map .deliver ++ c.stack
        subscriptions := c.subscriptions ++ [s]
        calls := c.calls ++ [.on s] }
      (L.after c.emitter.keep (.on s)) := by
  have hdue : (L.after c.emitter.keep (.on s)).due = Function.update L.due s.number
      (if c.emitter.listeners s.event = [] then c.emitter.kept s.event else []) := by
    rw [h.due_of_on]
    rfl
  -- the listener is called with what was kept before anything else goes on
  have hpending (n : Nat) : ((c.emitter.on s).2.map Op.deliver ++ c.stack).filterMap (Op.of n) =
      (if s.number = n then
        (if c.emitter.listeners s.event = [] then c.emitter.kept s.event else []) else []) ++
        c.pendingFor n := by
    rw [List.filterMap_append, of_deliveries, Emitter.on_deliveries, of_kept]
    rfl
  have hfresh := h.line_of_fresh (Nat.le_of_eq hs.symm)
  have hnewest : ∀ x ∈ (if c.emitter.listeners s.event = [] then c.emitter.kept s.event else []),
      x ∈ L.unheard s.event := by
    intro x hx
    rw [h.due_of_on] at hx
    split_ifs at hx
    · exact mem_of_mem_newest hx
    · exact absurd hx List.not_mem_nil
  have hsorted : (if c.emitter.listeners s.event = [] then c.emitter.kept s.event
      else []).Pairwise fun x y => x.number < y.number := by
    rw [h.due_of_on]
    split_ifs
    · exact (h.unheard_sorted _).sublist (List.drop_sublist _ _)
    · exact .nil
  refine
    { listeners := fun e => ?_
      kept := fun e => ?_
      handles := fun s' hs' => ?_
      numbers := fun n s' hs' => ?_
      heard := fun s' hs' => ?_
      distinct := ?_
      line := fun n => ?_
      fresh := fun n hn => ?_
      due_lt := fun n x hx => ?_
      due_sorted := fun n => ?_
      unheard_lt := fun e x hx => ?_
      unheard_sorted := fun e => ?_
      order := fun n => ?_ }
  · show (c.emitter.on s).1.listeners e = (L.live ++ [s]).filter _
    rw [Emitter.on_listeners, List.filter_append, ← h.listeners]
    by_cases he : e = s.event
    · subst he
      simp
    · rw [Function.update_of_ne he]
      simp [Ne.symm he]
  · show (c.emitter.on s).1.kept e =
      if (c.emitter.on s).1.keep e then newest (Function.update L.unheard s.event [] e) else []
    rw [Emitter.on_keep, Emitter.on_kept]
    by_cases he : e = s.event
    · subst he
      rw [Function.update_self]
      by_cases hnone : c.emitter.listeners s.event = []
      · rw [if_pos hnone, Function.update_self]
        simp [newest]
      · -- with a listener there, nothing was waiting
        obtain ⟨s', hs'⟩ := List.exists_mem_of_ne_nil _ hnone
        rw [h.listeners, List.mem_filter, decide_eq_true_eq] at hs'
        rw [if_neg hnone, h.kept, ← hs'.2, h.heard s' hs'.1]
    · rw [Function.update_of_ne he, ← h.kept]
      split_ifs
      · rw [Function.update_of_ne he]
      · rfl
  · rcases List.mem_append.mp hs' with hs' | hs'
    · show (c.subscriptions ++ [s])[s'.number]? = some s'
      rw [List.getElem?_append_left (h.number_lt hs')]
      exact h.handles s' hs'
    · rw [List.mem_singleton.mp hs']
      show (c.subscriptions ++ [s])[s.number]? = some s
      rw [hs, List.getElem?_concat_length]
  · rcases Nat.lt_trichotomy n c.subscriptions.length with hlt | heq | hgt
    · rw [List.getElem?_append_left hlt] at hs'
      exact h.numbers n s' hs'
    · rw [heq, List.getElem?_concat_length] at hs'
      rw [← Option.some.inj hs', hs, heq]
    · rw [List.getElem?_eq_none (by simp; omega)] at hs'
      exact absurd hs' (Option.some_ne_none _).symm
  · show Function.update L.unheard s.event [] s'.event = []
    by_cases he : s'.event = s.event
    · rw [he, Function.update_self]
    · rw [Function.update_of_ne he]
      rcases List.mem_append.mp hs' with hs' | hs'
      · exact h.heard s' hs'
      · exact absurd (congrArg Subscription.event (List.mem_singleton.mp hs')) he
  · show ((L.live ++ [s]).map fun (s : Subscription ε φ) => s.number).Nodup
    rw [List.map_append, List.map_singleton, List.nodup_append]
    refine ⟨h.distinct, List.nodup_singleton _, fun n hn n' hn' he => ?_⟩
    obtain ⟨s', hs', rfl⟩ := List.mem_map.mp hn
    rw [List.mem_singleton] at hn'
    exact absurd (h.number_lt hs') (by omega)
  · show (c.receivedBy n ++ List.filterMap (Op.of n) _).Perm _
    rw [hpending, hdue]
    by_cases hn : n = s.number
    · subst hn
      rw [if_pos rfl, Function.update_self, hfresh.1, hfresh.2, List.nil_append, List.append_nil]
    · rw [if_neg (Ne.symm hn), Function.update_of_ne hn]
      exact h.line n
  · have hn : c.subscriptions.length + 1 ≤ n := by simpa using hn
    rw [hdue, Function.update_of_ne (by omega)]
    exact h.fresh n (by omega)
  · rw [hdue] at hx
    by_cases hn : n = s.number
    · subst hn
      rw [Function.update_self] at hx
      exact h.unheard_lt _ x (hnewest x hx)
    · rw [Function.update_of_ne hn] at hx
      exact h.due_lt n x hx
  · rw [hdue]
    by_cases hn : n = s.number
    · subst hn
      rw [Function.update_self]
      exact hsorted
    · rw [Function.update_of_ne hn]
      exact h.due_sorted n
  · by_cases he : e = s.event
    · subst he
      exact absurd hx (by simp [Ledger.after])
    · exact h.unheard_lt e x (by simpa [Ledger.after, he] using hx)
  · show (Function.update L.unheard s.event [] e).Pairwise _
    by_cases he : e = s.event
    · subst he
      rw [Function.update_self]
      exact .nil
    · rw [Function.update_of_ne he]
      exact h.unheard_sorted e
  · show (c.receivedBy n ++ List.filterMap (Op.of n) _).Pairwise _
    rw [hpending]
    by_cases hn : s.number = n
    · subst hn
      rw [if_pos rfl, hfresh.1, hfresh.2, List.nil_append, List.append_nil]
      exact hsorted.imp Or.inl
    · rw [if_neg hn]
      exact h.order n

/-- The listeners of an event are told apart by their numbers. -/
theorem listeners_distinct (h : Sound c L) (e : ε) :
    ((c.emitter.listeners e).map fun s => s.number).Nodup := by
  rw [h.listeners]
  exact h.distinct.sublist (List.filter_sublist.map _)

theorem emit (h : Sound c L) {x : Emission ε π} (hx : x.number = c.emitted)
    (hwaiting : x.waiting = c.stack.filterMap Op.waits) :
    Sound
      { c with
        emitter := (c.emitter.emit x).1
        stack := (c.emitter.emit x).2.map .deliver ++ c.stack
        emitted := c.emitted + 1
        calls := c.calls ++ [.emit x] }
      (L.after c.emitter.keep (.emit x)) := by
  have hlive : (∃ s ∈ L.live, s.event = x.event) ↔ c.emitter.listeners x.event ≠ [] := by
    rw [ne_eq, h.listeners_nil_iff]
    simp
  let new (n : Nat) : List (Emission ε π) :=
    if ∃ s ∈ L.live, s.number = n ∧ s.event = x.event then [x] else []
  have hnew (n : Nat) : new n = [] ∨ new n = [x] := by
    simp only [new]
    split_ifs
    · exact Or.inr rfl
    · exact Or.inl rfl
  -- the listeners are called before anything else goes on
  have hpending (n : Nat) : ((c.emitter.emit x).2.map Op.deliver ++ c.stack).filterMap (Op.of n) =
      new n ++ c.pendingFor n := by
    rw [List.filterMap_append, of_deliveries, Emitter.emit_deliveries,
      of_emission n x (h.listeners_distinct _), h.listeners]
    simp only [List.mem_filter, decide_eq_true_eq, and_assoc, and_comm (a := _ = x.event)]
    rfl
  have hdue (n : Nat) : (L.after c.emitter.keep (.emit x)).due n = L.due n ++ new n := by
    simp only [Ledger.after, new]
    split_ifs
    · rfl
    · exact (List.append_nil _).symm
  have hunheard (e : ε) : ∃ rest, (L.after c.emitter.keep (.emit x)).unheard e =
      L.unheard e ++ rest ∧ (rest = [] ∨ rest = [x]) := by
    simp only [Ledger.after]
    split_ifs
    · exact ⟨[], (List.append_nil _).symm, Or.inl rfl⟩
    · by_cases he : e = x.event
      · subst he
        exact ⟨[x], Function.update_self .., Or.inr rfl⟩
      · exact ⟨[], (Function.update_of_ne he ..).trans (List.append_nil _).symm, Or.inl rfl⟩
  -- it is the last of what there is
  have hlt {l rest : List (Emission ε π)} (hrest : rest = [] ∨ rest = [x])
      (hl : ∀ y ∈ l, y.number < c.emitted) : ∀ y ∈ l ++ rest, y.number < c.emitted + 1 := by
    intro y hy
    rcases List.mem_append.mp hy with hy | hy
    · exact Nat.lt_succ_of_lt (hl y hy)
    · rcases hrest with rfl | rfl
      · exact absurd hy List.not_mem_nil
      · rw [List.mem_singleton.mp hy, hx]
        exact Nat.lt_succ_self _
  have hsorted {l rest : List (Emission ε π)} (hrest : rest = [] ∨ rest = [x])
      (hl : ∀ y ∈ l, y.number < c.emitted) (h : l.Pairwise fun y z => y.number < z.number) :
      (l ++ rest).Pairwise fun y z => y.number < z.number := by
    rcases hrest with rfl | rfl
    · rwa [List.append_nil]
    · refine List.pairwise_append.mpr ⟨h, List.pairwise_singleton _ _, fun y hy z hz => ?_⟩
      rw [List.mem_singleton.mp hz, hx]
      exact hl y hy
  refine
    { listeners := fun e => ?_
      kept := fun e => ?_
      handles := h.handles
      numbers := h.numbers
      heard := fun s hs => ?_
      distinct := h.distinct
      line := fun n => ?_
      fresh := fun n hn => ?_
      due_lt := fun n y hy => ?_
      due_sorted := fun n => ?_
      unheard_lt := fun e y hy => ?_
      unheard_sorted := fun e => ?_
      order := fun n => ?_ }
  · show (c.emitter.emit x).1.listeners e = _
    rw [Emitter.emit_listeners]
    exact h.listeners e
  · show (c.emitter.emit x).1.kept e = if (c.emitter.emit x).1.keep e then
      newest ((if ∃ s ∈ L.live, s.event = x.event then L.unheard
        else Function.update L.unheard x.event (L.unheard x.event ++ [x])) e) else []
    rw [Emitter.emit_keep, Emitter.emit_kept (h.kept x.event)]
    by_cases hnone : c.emitter.listeners x.event = []
    · rw [if_pos hnone, if_neg fun hsome => hlive.mp hsome hnone]
      by_cases he : e = x.event
      · rw [he, Function.update_self, Function.update_self]
      · rw [Function.update_of_ne he, Function.update_of_ne he]
        exact h.kept e
    · rw [if_neg hnone, if_pos (hlive.mpr hnone)]
      exact h.kept e
  · show (if ∃ s ∈ L.live, s.event = x.event then L.unheard
      else Function.update L.unheard x.event (L.unheard x.event ++ [x])) s.event = []
    split_ifs with hsome
    · exact h.heard s hs
    · rw [Function.update_of_ne fun he => hsome ⟨s, hs, he⟩]
      exact h.heard s hs
  · show (c.receivedBy n ++ List.filterMap (Op.of n) _).Perm _
    rw [hpending, hdue]
    refine (List.perm_append_comm.append_left _).trans ?_
    rw [← List.append_assoc]
    exact (h.line n).append_right _
  · have hnone : ¬ ∃ s ∈ L.live, s.number = n ∧ s.event = x.event := by
      rintro ⟨s, hs, rfl, -⟩
      exact absurd (h.number_lt hs) (Nat.not_lt.mpr hn)
    rw [hdue, h.fresh n hn]
    exact if_neg hnone
  · rw [hdue] at hy
    exact hlt (hnew n) (h.due_lt n) y hy
  · rw [hdue]
    exact hsorted (hnew n) (h.due_lt n) (h.due_sorted n)
  · obtain ⟨rest, hrest, hx⟩ := hunheard e
    rw [hrest] at hy
    exact hlt hx (h.unheard_lt e) y hy
  · obtain ⟨rest, hrest, hx⟩ := hunheard e
    rw [hrest]
    exact hsorted hx (h.unheard_lt e) (h.unheard_sorted e)
  · show (c.receivedBy n ++ List.filterMap (Op.of n) _).Pairwise _
    rw [hpending]
    rcases hnew n with hnone | hone
    · rw [hnone]
      exact h.order n
    · obtain ⟨hreceived, hpend, hcross⟩ := List.pairwise_append.mp (h.order n)
      rw [hone]
      refine List.pairwise_append.mpr ⟨hreceived, ?_, fun y hy z hz => ?_⟩
      · refine List.pairwise_cons.mpr ⟨fun y hy => ?_, hpend⟩
        exact Or.inr (hwaiting ▸ waits_of_pending hy)
      · rcases List.mem_cons.mp hz with rfl | hz
        · have hy := (h.line n).mem_iff.mp (List.mem_append_left _ hy)
          exact Or.inl (hx ▸ h.due_lt n y hy)
        · exact hcross y hy z hz

/-- Where no other subscription of the event has the same function, one is taken out. -/
theorem unsubscribe [DecidableEq φ] (h : Sound c L) {s : Subscription ε φ}
    (hs : c.subscriptions[s.number]? = some s)
    (halone : ∀ other ∈ c.emitter.listeners s.event, other.listener = s.listener →
      other.number = s.number) :
    Sound { c with emitter := c.emitter.unsubscribe s, calls := c.calls ++ [.unsubscribe s] }
      (L.after c.emitter.keep (.unsubscribe s)) where
  listeners e := by
    show Function.update c.emitter.listeners s.event _ e =
      (L.live.filter fun other => other.number ≠ s.number).filter _
    rw [List.filter_filter]
    by_cases he : e = s.event
    · subst he
      rw [Function.update_self, h.listeners, List.filter_filter]
      refine List.filter_congr fun other hother => ?_
      by_cases hevent : other.event = s.event
      · have hiff : other.listener = s.listener ↔ other.number = s.number :=
          ⟨halone other (by rw [h.listeners]; simp [hother, hevent]),
            fun hn => by rw [h.eq_of_number hother hs hn]⟩
        simp [hevent, hiff]
      · simp [hevent]
    · rw [Function.update_of_ne he, h.listeners]
      refine List.filter_congr fun other hother => ?_
      by_cases hevent : other.event = e
      · have hne : other.number ≠ s.number := fun hn =>
          he (hevent.symm.trans (congrArg Subscription.event (h.eq_of_number hother hs hn)))
        simp [hevent, hne]
      · simp [hevent]
  kept := h.kept
  handles s' hs' := h.handles s' (List.mem_filter.mp hs').1
  numbers := h.numbers
  heard s' hs' := h.heard s' (List.mem_filter.mp hs').1
  distinct := h.distinct.sublist (List.filter_sublist.map _)
  line := h.line
  fresh := h.fresh
  due_lt := h.due_lt
  due_sorted := h.due_sorted
  unheard_lt := h.unheard_lt
  unheard_sorted := h.unheard_sorted
  order := h.order

/-- What goes on with the stack moves what is pending to what was received. -/
theorem of_line (h : Sound c L) {c' : Machine ε φ π} (hemitter : c'.emitter = c.emitter)
    (hsubscriptions : c'.subscriptions = c.subscriptions) (hemitted : c'.emitted = c.emitted)
    (hline : ∀ n, c'.receivedBy n ++ c'.pendingFor n = c.receivedBy n ++ c.pendingFor n) :
    Sound c' L where
  listeners := hemitter ▸ h.listeners
  kept := hemitter ▸ h.kept
  handles := hsubscriptions ▸ h.handles
  numbers := hsubscriptions ▸ h.numbers
  heard := h.heard
  distinct := h.distinct
  line n := hline n ▸ h.line n
  fresh := hsubscriptions ▸ h.fresh
  due_lt := hemitted ▸ h.due_lt
  due_sorted := h.due_sorted
  unheard_lt := hemitted ▸ h.unheard_lt
  unheard_sorted := h.unheard_sorted
  order n := hline n ▸ h.order n

end Sound

/-! ### Every run -/

/-- When a subscription is ended, no other one of its event has the same function. -/
def Alone (c : Machine ε φ π) : Turn ε φ π → Prop
  | .unsubscribe n => ∀ s ∈ c.subscriptions[n]?, ∀ other ∈ c.emitter.listeners s.event,
      other.listener = s.listener → other.number = s.number
  | _ => True

variable [DecidableEq φ]

instance (c : Machine ε φ π) (t : Turn ε φ π) : Decidable (Alone c t) :=
  match t with
  | .unsubscribe n => inferInstanceAs (Decidable (∀ s ∈ c.subscriptions[n]?,
      ∀ other ∈ c.emitter.listeners s.event, other.listener = s.listener →
        other.number = s.number))
  | .on _ _ => .isTrue trivial
  | .emit _ _ => .isTrue trivial
  | .go => .isTrue trivial
  | .throws => .isTrue trivial

/-- What the ledger says of a machine's calls. -/
def Machine.ledger (c : Machine ε φ π) (keep : ε → Bool) : Ledger ε φ π := .of keep c.calls

theorem sound_step {keep : ε → Bool} {c : Machine ε φ π} {t : Turn ε φ π}
    (h : Sound c (c.ledger keep) ∧ c.emitter.keep = keep) (halone : Alone c t) :
    Sound (c.step t) ((c.step t).ledger keep) ∧ (c.step t).emitter.keep = keep := by
  obtain ⟨h, rfl⟩ := h
  cases t with
  | on event listener =>
    rw [Machine.step]
    split_ifs
    · refine ⟨?_, Emitter.on_keep _⟩
      rw [Machine.ledger, Ledger.of_concat]
      exact h.on rfl
    · exact ⟨h, rfl⟩
  | emit event payload =>
    rw [Machine.step]
    split_ifs
    · refine ⟨?_, Emitter.emit_keep _⟩
      rw [Machine.ledger, Ledger.of_concat]
      exact h.emit rfl rfl
    · exact ⟨h, rfl⟩
  | unsubscribe n =>
    rw [Machine.step]
    cases hn : c.subscriptions[n]? with
    | none => exact ⟨h, rfl⟩
    | some s =>
      dsimp only
      split_ifs
      · refine ⟨?_, rfl⟩
        rw [Machine.ledger, Ledger.of_concat]
        exact h.unsubscribe (h.numbers n s hn ▸ hn) (halone s hn)
      · exact ⟨h, rfl⟩
  | go =>
    obtain ⟨emitter, stack, subscriptions, emitted, calls, received, uncaught⟩ := c
    rw [Machine.step]
    cases stack with
    | nil => exact ⟨h, rfl⟩
    | cons op rest =>
      cases op with
      | deliver d =>
        refine ⟨h.of_line rfl rfl rfl fun n => ?_, rfl⟩
        simp only [Machine.receivedBy, Machine.pendingFor, List.filterMap_append,
          List.filterMap_cons, List.filterMap_nil, Op.of]
        cases Delivery.of n d with
        | none => simp
        | some x => simp
      | running d => exact ⟨h.of_line rfl rfl rfl fun n => rfl, rfl⟩
  | throws =>
    obtain ⟨emitter, stack, subscriptions, emitted, calls, received, uncaught⟩ := c
    rw [Machine.step]
    cases stack with
    | nil => exact ⟨h, rfl⟩
    | cons op rest =>
      cases op with
      | deliver d => exact ⟨h, rfl⟩
      | running d => exact ⟨h.of_line rfl rfl rfl fun n => rfl, rfl⟩

end Teamspeak.Emitters
