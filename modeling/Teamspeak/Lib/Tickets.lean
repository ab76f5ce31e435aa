import Mathlib.Data.List.Nodup

/-!
# Tickets served in turn

Tickets arrive, are served from the front of a queue, and may leave before their turn.  A
ledger of what happened tells the queue: `Balanced ledger waiting` says that the tickets
served, and after them those that wait, are the ones that arrived and have not left, in the
order they arrived.

* `Balanced.arrive`, `Balanced.serve`, `Balanced.leave`, `Balanced.close`: one entry, and the
  end, where all that wait leave.
-/

namespace Teamspeak

inductive TicketEvent (τ : Type*)
  | arrived (ticket : τ)
  | served (ticket : τ)
  | left (ticket : τ)
  deriving DecidableEq

namespace TicketEvent

variable {τ : Type*}

def arrived? : TicketEvent τ → Option τ
  | arrived ticket => some ticket
  | _ => none

def served? : TicketEvent τ → Option τ
  | served ticket => some ticket
  | _ => none

def left? : TicketEvent τ → Option τ
  | left ticket => some ticket
  | _ => none

end TicketEvent

namespace Tickets

variable {τ : Type*}

def arrivals (ledger : List (TicketEvent τ)) : List τ := ledger.filterMap TicketEvent.arrived?

def servings (ledger : List (TicketEvent τ)) : List τ := ledger.filterMap TicketEvent.served?

def departures (ledger : List (TicketEvent τ)) : List τ := ledger.filterMap TicketEvent.left?

@[simp] theorem arrivals_append (l m : List (TicketEvent τ)) :
    arrivals (l ++ m) = arrivals l ++ arrivals m := List.filterMap_append

@[simp] theorem servings_append (l m : List (TicketEvent τ)) :
    servings (l ++ m) = servings l ++ servings m := List.filterMap_append

@[simp] theorem departures_append (l m : List (TicketEvent τ)) :
    departures (l ++ m) = departures l ++ departures m := List.filterMap_append

theorem arrivals_left (tickets : List τ) : arrivals (tickets.map .left) = [] := by
  induction tickets with
  | nil => rfl
  | cons ticket tickets ih => exact ih

theorem servings_left (tickets : List τ) : servings (tickets.map .left) = [] := by
  induction tickets with
  | nil => rfl
  | cons ticket tickets ih => exact ih

theorem departures_left (tickets : List τ) : departures (tickets.map .left) = tickets := by
  induction tickets with
  | nil => rfl
  | cons ticket tickets ih => exact congrArg (ticket :: ·) ih

variable [DecidableEq τ]

/-- Who was served and who waits are those who arrived and have not left, in their order. -/
structure Balanced (ledger : List (TicketEvent τ)) (waiting : List τ) : Prop where
  nodup : (arrivals ledger).Nodup
  departed : ∀ ticket ∈ departures ledger, ticket ∈ arrivals ledger
  inTurn : servings ledger ++ waiting =
    (arrivals ledger).filter fun ticket => ticket ∉ departures ledger

namespace Balanced

variable {ledger : List (TicketEvent τ)} {waiting : List τ} {ticket : τ}

theorem nil : Balanced ([] : List (TicketEvent τ)) [] := ⟨List.nodup_nil, nofun, rfl⟩

theorem mem_arrivals (h : Balanced ledger waiting) (ht : ticket ∈ servings ledger ++ waiting) :
    ticket ∈ arrivals ledger := by
  rw [h.inTurn] at ht
  exact List.mem_of_mem_filter ht

theorem nodup_inTurn (h : Balanced ledger waiting) : (servings ledger ++ waiting).Nodup := by
  rw [h.inTurn]
  exact h.nodup.filter _

theorem arrive (h : Balanced ledger waiting) (ht : ticket ∉ arrivals ledger) :
    Balanced (ledger ++ [.arrived ticket]) (waiting ++ [ticket]) where
  nodup := by
    rw [arrivals_append]
    exact h.nodup.append (List.nodup_singleton _) fun _ hmem hmem' =>
      ht (List.mem_singleton.mp hmem' ▸ hmem)
  departed t hmem := by
    rw [departures_append] at hmem
    rw [arrivals_append]
    exact List.mem_append_left _ (h.departed t ((List.mem_append.mp hmem).resolve_right nofun))
  inTurn := by
    have hd : departures (ledger ++ [.arrived ticket]) = departures ledger := by
      simp [departures, TicketEvent.left?]
    have hs : servings (ledger ++ [.arrived ticket]) = servings ledger := by
      simp [servings, TicketEvent.served?]
    have ha : arrivals (ledger ++ [.arrived ticket]) = arrivals ledger ++ [ticket] := by
      simp [arrivals, TicketEvent.arrived?]
    have hnot : ticket ∉ departures ledger := fun hmem => ht (h.departed ticket hmem)
    rw [hd, hs, ha, ← List.append_assoc, h.inTurn, List.filter_append,
      List.filter_singleton, decide_eq_true hnot, cond_true]

theorem serve (h : Balanced ledger (ticket :: waiting)) :
    Balanced (ledger ++ [.served ticket]) waiting := by
  have ha : arrivals (ledger ++ [.served ticket]) = arrivals ledger := by
    simp [arrivals, TicketEvent.arrived?]
  have hd : departures (ledger ++ [.served ticket]) = departures ledger := by
    simp [departures, TicketEvent.left?]
  have hs : servings (ledger ++ [.served ticket]) = servings ledger ++ [ticket] := by
    simp [servings, TicketEvent.served?]
  constructor
  · rw [ha]
    exact h.nodup
  · rw [ha, hd]
    exact h.departed
  · rw [ha, hd, hs, List.append_assoc]
    exact h.inTurn

/-- Some of those who wait leave. -/
theorem leaveAll (h : Balanced ledger waiting) (tickets : List τ)
    (ht : ∀ ticket ∈ tickets, ticket ∈ waiting) :
    Balanced (ledger ++ tickets.map .left) (waiting.filter fun ticket => ticket ∉ tickets) := by
  have ha : arrivals (ledger ++ tickets.map .left) = arrivals ledger := by
    rw [arrivals_append, arrivals_left, List.append_nil]
  have hd : departures (ledger ++ tickets.map .left) = departures ledger ++ tickets := by
    rw [departures_append, departures_left]
  have hs : servings (ledger ++ tickets.map .left) = servings ledger := by
    rw [servings_append, servings_left, List.append_nil]
  -- Nobody who was served waits, so none of them leaves.
  have hserved : (servings ledger).filter (fun ticket => ticket ∉ tickets) = servings ledger := by
    rw [List.filter_eq_self]
    intro ticket hmem
    refine decide_eq_true fun hmem' => ?_
    exact (List.nodup_append'.mp h.nodup_inTurn).2.2 hmem (ht ticket hmem')
  constructor
  · rw [ha]
    exact h.nodup
  · rw [ha, hd]
    intro ticket hmem
    rcases List.mem_append.mp hmem with hmem | hmem
    · exact h.departed ticket hmem
    · exact h.mem_arrivals (List.mem_append_right _ (ht ticket hmem))
  · rw [ha, hd, hs]
    calc servings ledger ++ waiting.filter (fun ticket => ticket ∉ tickets)
        = (servings ledger ++ waiting).filter fun ticket => ticket ∉ tickets := by
          rw [List.filter_append, hserved]
      _ = (arrivals ledger).filter fun ticket => ticket ∉ departures ledger ++ tickets := by
          rw [h.inTurn, List.filter_filter]
          refine List.filter_congr fun ticket _ => ?_
          simp only [List.mem_append, not_or, Bool.decide_and, Bool.and_comm]

theorem leave (h : Balanced ledger waiting) (ht : ticket ∈ waiting) :
    Balanced (ledger ++ [.left ticket]) (waiting.filter fun t => t ≠ ticket) := by
  have hleft := h.leaveAll [ticket] fun t hmem => List.mem_singleton.mp hmem ▸ ht
  simpa using hleft

/-- The queue closes. -/
theorem close (h : Balanced ledger waiting) : Balanced (ledger ++ waiting.map .left) [] := by
  have hnone : waiting.filter (fun ticket => ticket ∉ waiting) = [] := by
    rw [List.filter_eq_nil_iff]
    intro ticket hmem
    simp [hmem]
  exact hnone ▸ h.leaveAll _ fun _ hmem => hmem

end Balanced

end Tickets

end Teamspeak
